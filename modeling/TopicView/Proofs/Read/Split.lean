import TopicView.Proofs.Read.Newest

/-!
# The split of the limit

How many offsets the plans of a bounded read name.  A plan from the oldest record on keeps to the
share of its partition, save that it takes in the record that would be left over alone; a plan of
the newest records goes back by the share from the newest one and so names one offset more.  Where
every plan keeps to its share, all of them together keep to the limit.
-/

namespace TopicView

/-! ## One plan -/

section Size

variable (limit count : UInt64) {o : Offsets} (holdest : 0 ≤ o.oldest.toInt)
  (hle : o.oldest ≤ o.firstAvailable)

include holdest hle

theorem size_plan_mostRecent : (plan .mostRecent limit count o).size =
    min o.recordCount.toNat ((share limit count).toInt.toNat + 1) := by
  have hle' := Int64.le_iff_toInt_le.mp hle
  have hcount := Offsets.toNat_recordCount holdest hle
  have hstart := toInt_start_mostRecent limit count o holdest hle
  have hshare := share_nonneg limit count
  have hend : (plan .mostRecent limit count o).endOffset.toInt = o.firstAvailable.toInt - 1 :=
    Offsets.toInt_newest (by omega)
  rw [Plan.size, hstart, hend, hcount]
  omega

theorem size_plan_beginning : (plan .beginning limit count o).size =
    if o.recordCount.toNat = (share limit count).toInt.toNat + 1 then o.recordCount.toNat
    else min o.recordCount.toNat (share limit count).toInt.toNat := by
  have hle' := Int64.le_iff_toInt_le.mp hle
  have hcount := Offsets.toNat_recordCount holdest hle
  have hshare := share_nonneg limit count
  have hend := toInt_end_beginning limit count holdest hle
  have hstart : (plan .beginning limit count o).start = o.oldest := rfl
  rw [Plan.size, hstart, hend, hcount]
  split_ifs <;> omega

end Size

namespace Request

variable {request : Request} {ranges : List (PartitionId × Offsets)}

/-- Whether the plan of a retained range keeps to the share is a matter of how many records there
are. -/
theorem size_plan_le_share_iff (hmode : request.mode ≠ .live) {o : Offsets}
    (holdest : 0 ≤ o.oldest.toInt) (hle : o.oldest ≤ o.firstAvailable) :
    (plan request.mode request.limit (UInt64.ofNat request.partitions.size) o).size ≤
        request.share ↔
      (request.mode = .beginning → o.recordCount.toNat ≠ request.share + 1) ∧
        (request.mode = .mostRecent → o.recordCount.toNat ≤ request.share) := by
  cases hm : request.mode with
  | live => exact (hmode hm).elim
  | beginning =>
      rw [size_plan_beginning _ _ holdest hle, ← share]
      simp only [reduceCtorEq, false_imp_iff, true_imp_iff, and_true, ne_eq]
      split_ifs <;> omega
  | mostRecent =>
      rw [size_plan_mostRecent _ _ holdest hle, ← share]
      simp only [reduceCtorEq, false_imp_iff, true_imp_iff, true_and]
      omega

/-! ## All plans of a read -/

theorem length_planAll (hkeys : ranges.map Prod.fst = request.partitions.toList) :
    (planAll request ranges).length = request.partitions.size := by
  rw [planAll, List.length_map, PartitionSet.size, ← hkeys, List.length_map]

/-- A bounded read plans for one range of each of its partitions.  Every plan keeps to the share of
its partition exactly where no range holds one record more than the share, or, in a read of the
newest records, more records than the share.  Then all plans together keep to the limit, and all but
one of them leave the share of that one free. -/
theorem plans_keep_shares_iff (hmode : request.mode ≠ .live)
    (hkeys : ranges.map Prod.fst = request.partitions.toList)
    (hranges : ∀ e ∈ ranges, 0 ≤ e.2.oldest ∧ e.2.oldest ≤ e.2.firstAvailable) :
    ∃ plans, planAll? request ranges = some plans ∧
      ((∀ e ∈ plans, e.2.size ≤ request.share) ↔
        ∀ e ∈ ranges, (request.mode = .beginning → e.2.recordCount.toNat ≠ request.share + 1) ∧
          (request.mode = .mostRecent → e.2.recordCount.toNat ≤ request.share)) ∧
      ((∀ e ∈ plans, e.2.size ≤ request.share) →
        (plans.map (·.2.size)).sum ≤ request.limit.toNat ∧
        ∀ e ∈ plans,
          ((plans.erase e).map (·.2.size)).sum + request.share ≤ request.limit.toNat) := by
  refine ⟨planAll request ranges, planAll?_of_nonneg hranges, ?_, fun hall ↦ ?_⟩
  · rw [planAll, List.forall_mem_map]
    refine forall₂_congr fun e he ↦ ?_
    obtain ⟨holdest, hle⟩ := hranges e he
    exact size_plan_le_share_iff hmode (Int64.le_iff_toInt_le.mp holdest) hle
  · have hlength := length_planAll hkeys
    have hlimit := request.size_mul_share_le
    refine ⟨(Stage.sum_map_le_length_mul hall).trans (hlength ▸ hlimit), fun e he ↦ ?_⟩
    have hothers : (((planAll request ranges).erase e).map (·.2.size)).sum ≤
        ((planAll request ranges).erase e).length * request.share :=
      Stage.sum_map_le_length_mul fun d hd ↦ hall d (List.mem_of_mem_erase hd)
    have hpos := List.length_pos_of_mem he
    rw [List.length_erase_of_mem he, hlength] at hothers
    calc (((planAll request ranges).erase e).map (·.2.size)).sum + request.share
        ≤ (request.partitions.size - 1) * request.share + request.share :=
          Nat.add_le_add_right hothers _
      _ = request.partitions.size * request.share := by
          rw [← Nat.succ_mul]
          congr 1
          omega
      _ ≤ request.limit.toNat := hlimit

theorem plans_keep_shares_of_sample :
    let request := sampleRequest .beginning 5
    let ranges : List (PartitionId × Offsets) := [(0, ⟨3, 8⟩), (1, ⟨7, 7⟩)]
    request.mode ≠ .live ∧ ranges.map Prod.fst = request.partitions.toList ∧
      (∀ e ∈ ranges, 0 ≤ e.2.oldest ∧ e.2.oldest ≤ e.2.firstAvailable) ∧
      ∃ plans, planAll? request ranges = some plans ∧
        (∀ e ∈ plans, e.2.size ≤ request.share) ∧
        (plans.map (·.2.size)).sum ≤ request.limit.toNat := by
  intro request ranges
  obtain ⟨plans, hplans, hiff, hsum⟩ :=
    @plans_keep_shares_iff request ranges nofun rfl (by decide)
  have hall := hiff.mpr (by decide)
  exact ⟨nofun, rfl, by decide, plans, hplans, hall, (hsum hall).1⟩

/-- Of a limit of two records one falls to each of two partitions.  In either bounded mode the plan
of the partition that holds two names both, and the plans together name more than the limit. -/
theorem plans_exceed_limit_of_sample :
    let ranges : List (PartitionId × Offsets) := [(0, ⟨0, 2⟩), (1, ⟨0, 1⟩)]
    let newest := planAll (sampleRequest .mostRecent 2) ranges
    let oldest := planAll (sampleRequest .beginning 2) ranges
    (∀ e ∈ ranges, 0 ≤ e.2.oldest ∧ e.2.oldest ≤ e.2.firstAvailable) ∧
      planAll? (sampleRequest .mostRecent 2) ranges = some newest ∧
      planAll? (sampleRequest .beginning 2) ranges = some oldest ∧
      ((∃ e ∈ newest, (sampleRequest .mostRecent 2).share < e.2.size) ∧
        (sampleRequest .mostRecent 2).limit.toNat < (newest.map (·.2.size)).sum) ∧
      (∃ e ∈ oldest, (sampleRequest .beginning 2).share < e.2.size) ∧
        (sampleRequest .beginning 2).limit.toNat < (oldest.map (·.2.size)).sum := by
  decide

end Request
end TopicView
