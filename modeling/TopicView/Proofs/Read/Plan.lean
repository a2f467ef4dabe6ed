import TopicView.Proofs.Log.Partition
import TopicView.Read.Run

/-!
# What is planned

Shares and plans as integers: of a range that is not inverted and lies above the least offset a plan
can always be made, and nothing that it computes leaves the words.
-/

namespace TopicView

theorem toInt_clamp (n : Int) : (clamp n).toInt =
    max (-9223372036854775808) (min n 9223372036854775807) := by
  have hmin := Int64.toInt_minValue
  have hmax := Int64.toInt_maxValue
  unfold clamp
  rw [hmin, hmax]
  split
  · omega
  · split
    · omega
    · rw [Int64.toInt_ofInt_of_le (by omega) (by omega)]
      omega

theorem toInt_share (limit count : UInt64) :
    (share limit count).toInt =
    min ((limit.toNat / count.toNat : Nat) : Int) 9223372036854775807 := by
  rw [share, toInt_clamp, UInt64.toNat_div]
  generalize limit.toNat / count.toNat = q
  omega

theorem share_nonneg (limit count : UInt64) : 0 ≤ (share limit count).toInt := by
  rw [toInt_share]
  generalize limit.toNat / count.toNat = q
  omega

theorem mul_share_le (limit count : UInt64) :
    count.toNat * (share limit count).toInt.toNat ≤ limit.toNat := by
  have hle : (share limit count).toInt.toNat ≤ limit.toNat / count.toNat := by
    rw [toInt_share]
    generalize limit.toNat / count.toNat = q
    omega
  exact Nat.le_trans (Nat.mul_le_mul_left _ hle) (Nat.mul_div_le _ _)

theorem share_pos {limit count : UInt64} (hcount : 0 < count.toNat)
    (hle : count.toNat ≤ limit.toNat) : 0 < (share limit count).toInt := by
  have hpos : 0 < limit.toNat / count.toNat := Nat.div_pos hle hcount
  rw [toInt_share]
  generalize limit.toNat / count.toNat = q at hpos ⊢
  omega

/-! ## The ends of a plan -/

namespace Offsets

variable {o : Offsets}

/-- The newest offset, where there is one below the end. -/
def newest (o : Offsets) : Offset := o.firstAvailable - 1

def recordCount (o : Offsets) : UInt64 :=
  let n := o.firstAvailable - o.oldest
  if n < 0 then 0 else n.toUInt64

theorem toInt_newest (h : -2 ^ 63 < o.firstAvailable.toInt) :
    o.newest.toInt = o.firstAvailable.toInt - 1 := by
  have hone := Int64.toInt_one
  have hlt := o.firstAvailable.toInt_lt
  rw [newest, Offset.toInt_sub_of_lt, hone] <;> omega

theorem newest?_eq (h : -2 ^ 63 < o.firstAvailable.toInt) : o.newest? = some o.newest := by
  have hone := Int64.toInt_one
  rw [newest?, Offset.checkedSub_eq_some_iff, toInt_newest h, hone]

variable (holdest : 0 ≤ o.oldest.toInt) (hle : o.oldest ≤ o.firstAvailable)

include holdest hle

theorem recordCount?_eq : o.recordCount? = some o.recordCount := by
  have hle' := Int64.le_iff_toInt_le.mp hle
  have hlt := o.firstAvailable.toInt_lt
  have hsub : o.firstAvailable.checkedSub o.oldest = some (o.firstAvailable - o.oldest) := by
    rw [Offset.checkedSub_eq_some_iff, Offset.toInt_sub_of_lt] <;> omega
  rw [recordCount?, hsub]
  rfl

theorem toNat_recordCount :
    o.recordCount.toNat = (o.firstAvailable.toInt - o.oldest.toInt).toNat := by
  have hle' := Int64.le_iff_toInt_le.mp hle
  have hlt := o.firstAvailable.toInt_lt
  have hsub : (o.firstAvailable - o.oldest).toInt = o.firstAvailable.toInt - o.oldest.toInt := by
    rw [Offset.toInt_sub_of_lt] <;> omega
  have hpos : 0 ≤ o.firstAvailable - o.oldest := by
    rw [Int64.le_iff_toInt_le, hsub, Int64.toInt_zero]
    omega
  simp only [recordCount, if_neg (Std.not_lt.mpr hpos), Int64.toNat_toUInt64_of_le hpos,
    Int64.toNatClampNeg, hsub]

end Offsets

/-- The plan of a range that is not inverted and lies above the least offset. -/
def plan (mode : Mode) (limit count : UInt64) (o : Offsets) : Plan :=
  let part := share limit count
  match mode with
  | .live => ⟨o.firstAvailable, none⟩
  | .beginning =>
    let beyond := clamp (o.oldest.toInt + part.toInt)
    ⟨o.oldest, some (if beyond < o.newest then o.oldest + part - 1 else o.newest)⟩
  | .mostRecent =>
    let candidate := clamp (o.newest.toInt - part.toInt)
    ⟨if candidate < 0 ∨ candidate < o.oldest then o.oldest else candidate, some o.newest⟩

theorem plan?_eq {o : Offsets} (holdest : -2 ^ 63 < o.oldest.toInt)
    (hle : o.oldest ≤ o.firstAvailable) (mode : Mode) (limit count : UInt64) :
    plan? mode limit count o = some (plan mode limit count o) := by
  have hle' := Int64.le_iff_toInt_le.mp hle
  have hnewest := Offsets.newest?_eq (o := o) (by omega)
  unfold plan? plan
  rw [hnewest]
  cases mode with
  | live => rfl
  | mostRecent => rfl
  | beginning =>
      have hshare := share_nonneg limit count
      have hone := Int64.toInt_one
      have hnewest' : o.newest.toInt = o.firstAvailable.toInt - 1 := Offsets.toInt_newest (by omega)
      by_cases hbelow : clamp (o.oldest.toInt + (share limit count).toInt) < o.newest
      · -- Below the newest offset nothing has been clamped.
        have hbound := o.firstAvailable.toInt_lt
        have hclamped := Int64.lt_iff_toInt_lt.mp hbelow
        rw [toInt_clamp, hnewest'] at hclamped
        have hsum : (o.oldest + share limit count).toInt =
            o.oldest.toInt + (share limit count).toInt :=
          Offset.toInt_add_of_lt (by omega) (by omega)
        have hadd : o.oldest.checkedAdd (share limit count) =
            some (o.oldest + share limit count) :=
          Offset.checkedAdd_eq_some_iff.mpr hsum
        have hsub : (o.oldest + share limit count).checkedSub 1 =
            some (o.oldest + share limit count - 1) := by
          rw [Offset.checkedSub_eq_some_iff, Offset.toInt_sub_of_lt] <;> omega
        simp [hbelow, hadd, hsub]
      · simp [hbelow]

theorem isBounded_plan (mode : Mode) (limit count : UInt64) (o : Offsets) :
    (plan mode limit count o).isBounded = mode.isBounded := by
  cases mode <;> rfl

theorem isBounded_of_plan? {mode : Mode} {limit count : UInt64} {o : Offsets} {p : Plan}
    (h : plan? mode limit count o = some p) : p.isBounded = mode.isBounded := by
  obtain ⟨newest, -, hrest⟩ := Option.bind_eq_some_iff.mp h
  cases mode with
  | live =>
      obtain rfl := Option.some.inj hrest
      rfl
  | mostRecent =>
      obtain rfl := Option.some.inj hrest
      rfl
  | beginning =>
      dsimp only at hrest
      split at hrest
      · obtain ⟨beyond, -, hlast⟩ := Option.bind_eq_some_iff.mp hrest
        obtain ⟨last, -, hp⟩ := Option.bind_eq_some_iff.mp hlast
        obtain rfl := Option.some.inj hp
        rfl
      · obtain rfl := Option.some.inj hrest
        rfl

/-- A plan of the newest records goes back by the share from the newest one, within the retained
range. -/
theorem toInt_start_mostRecent (limit count : UInt64) (o : Offsets)
    (holdest : 0 ≤ o.oldest.toInt) (hle : o.oldest ≤ o.firstAvailable) :
    (plan .mostRecent limit count o).start.toInt =
      max o.oldest.toInt (o.firstAvailable.toInt - 1 - (share limit count).toInt) := by
  have hle' := Int64.le_iff_toInt_le.mp hle
  have hnewest : o.newest.toInt = o.firstAvailable.toInt - 1 := Offsets.toInt_newest (by omega)
  have hshare := toInt_share limit count
  generalize limit.toNat / count.toNat = q at hshare
  have hcandidate : (clamp (o.newest.toInt - (share limit count).toInt)).toInt =
      o.firstAvailable.toInt - 1 - (share limit count).toInt := by
    have hlt := o.firstAvailable.toInt_lt
    rw [toInt_clamp, hnewest]
    omega
  simp only [plan]
  split
  · next hbelow =>
      rw [Int64.lt_iff_toInt_lt, Int64.lt_iff_toInt_lt, hcandidate, Int64.toInt_zero] at hbelow
      omega
  · next habove =>
      rw [Int64.lt_iff_toInt_lt, Int64.lt_iff_toInt_lt, hcandidate, Int64.toInt_zero] at habove
      rw [hcandidate]
      omega

/-- A plan from the oldest record on goes up by the share, unless no more than one record would be
left over. -/
theorem toInt_end_beginning (limit count : UInt64) {o : Offsets} (holdest : 0 ≤ o.oldest.toInt)
    (hle : o.oldest ≤ o.firstAvailable) :
    (plan .beginning limit count o).endOffset.toInt =
      if o.oldest.toInt + (share limit count).toInt < o.firstAvailable.toInt - 1
      then o.oldest.toInt + (share limit count).toInt - 1 else o.firstAvailable.toInt - 1 := by
  have hle' := Int64.le_iff_toInt_le.mp hle
  have hshare := share_nonneg limit count
  have hbound := o.firstAvailable.toInt_lt
  have hnewest : o.newest.toInt = o.firstAvailable.toInt - 1 := Offsets.toInt_newest (by omega)
  have hbelow : clamp (o.oldest.toInt + (share limit count).toInt) < o.newest ↔
      o.oldest.toInt + (share limit count).toInt < o.firstAvailable.toInt - 1 := by
    rw [Int64.lt_iff_toInt_lt, toInt_clamp, hnewest]
    omega
  simp only [plan, Plan.endOffset, Option.getD_some, hbelow]
  split
  · -- Below the newest offset nothing overflows.
    have hone := Int64.toInt_one
    have hsum : (o.oldest + share limit count).toInt =
        o.oldest.toInt + (share limit count).toInt :=
      Offset.toInt_add_of_lt (by omega) (by omega)
    rw [Offset.toInt_sub_of_lt, hsum, hone] <;> omega
  · exact hnewest

/-- A bounded plan lies in the retained range, and ends at the earliest before its start. -/
theorem plan_range {mode : Mode} (hmode : mode ≠ .live) (limit count : UInt64) {o : Offsets}
    (holdest : 0 ≤ o.oldest.toInt) (hle : o.oldest ≤ o.firstAvailable) :
    ∃ last, (plan mode limit count o).last = some last ∧
      o.oldest.toInt ≤ (plan mode limit count o).start.toInt ∧
      (plan mode limit count o).start.toInt ≤ last.toInt + 1 ∧
      last.toInt < o.firstAvailable.toInt := by
  have hle' := Int64.le_iff_toInt_le.mp hle
  have hshare := share_nonneg limit count
  have hnewest : o.newest.toInt = o.firstAvailable.toInt - 1 := Offsets.toInt_newest (by omega)
  cases mode with
  | live => exact (hmode rfl).elim
  | mostRecent =>
      have hstart := toInt_start_mostRecent limit count o holdest hle
      exact ⟨o.newest, rfl, by omega, by omega, by omega⟩
  | beginning =>
      have hlast := toInt_end_beginning limit count holdest hle
      simp only [Plan.endOffset, plan, Option.getD_some] at hlast
      refine ⟨_, rfl, Int.le_refl _, ?_⟩
      change o.oldest.toInt ≤ _ ∧ _
      rw [hlast]
      split <;> omega

/-! ## All plans of a read -/

section All

variable {request : Request} {ranges : List (PartitionId × Offsets)}
  {plans : List (PartitionId × Plan)}

def planAll (request : Request) (ranges : List (PartitionId × Offsets)) :
    List (PartitionId × Plan) :=
  ranges.map fun (partition, o) ↦
    (partition, plan request.mode request.limit (UInt64.ofNat request.partitions.size) o)

theorem planAll?_cons (e : PartitionId × Offsets) (rest : List (PartitionId × Offsets)) :
    planAll? request (e :: rest) =
      (plan? request.mode request.limit (UInt64.ofNat request.partitions.size) e.2).bind fun p ↦
        (planAll? request rest).map ((e.1, p) :: ·) := by
  obtain ⟨partition, o⟩ := e
  rw [planAll?, List.mapM_cons, ← planAll?]
  cases hp : plan? request.mode request.limit (UInt64.ofNat request.partitions.size) o with
  | none => simp [hp]
  | some p => cases planAll? request rest <;> simp [hp]

/-- There is one plan for each range, made of it. -/
theorem planAll?_eq_some (h : planAll? request ranges = some plans) :
    plans.map Prod.fst = ranges.map Prod.fst ∧ ∀ d ∈ plans, ∃ o, (d.1, o) ∈ ranges ∧
      plan? request.mode request.limit (UInt64.ofNat request.partitions.size) o = some d.2 := by
  induction ranges generalizing plans with
  | nil =>
      obtain rfl : [] = plans := Option.some.inj h
      exact ⟨rfl, nofun⟩
  | cons e rest ih =>
      rw [planAll?_cons] at h
      obtain ⟨p, hp, hrest⟩ := Option.bind_eq_some_iff.mp h
      obtain ⟨tail, htail, rfl⟩ := Option.map_eq_some_iff.mp hrest
      obtain ⟨hkeys, hplans⟩ := ih htail
      refine ⟨by simp [hkeys], List.forall_mem_cons.mpr ⟨⟨e.2, List.mem_cons_self, hp⟩, ?_⟩⟩
      intro d hd
      obtain ⟨o, ho, hplan⟩ := hplans d hd
      exact ⟨o, List.mem_cons_of_mem e ho, hplan⟩

theorem planAll?_eq
    (h : ∀ e ∈ ranges, -2 ^ 63 < e.2.oldest.toInt ∧ e.2.oldest ≤ e.2.firstAvailable) :
    planAll? request ranges = some (planAll request ranges) := by
  induction ranges with
  | nil => rfl
  | cons e rest ih =>
      obtain ⟨⟨holdest, hle⟩, hrest⟩ := List.forall_mem_cons.mp h
      rw [planAll?_cons, plan?_eq holdest hle, ih hrest]
      rfl

/-- Of ranges on a log all plans can be made. -/
theorem planAll?_of_nonneg
    (h : ∀ e ∈ ranges, 0 ≤ e.2.oldest ∧ e.2.oldest ≤ e.2.firstAvailable) :
    planAll? request ranges = some (planAll request ranges) := by
  refine planAll?_eq fun e he ↦ ?_
  obtain ⟨hnonneg, hle⟩ := h e he
  rw [Int64.le_iff_toInt_le, Int64.toInt_zero] at hnonneg
  exact ⟨by omega, hle⟩

end All

theorem length_le_of_ascending {ps : List PartitionId} {bound : Int} (h : ps.Pairwise (· < ·))
    (hbound : ∀ p ∈ ps, bound ≤ p.toInt) (hmax : bound ≤ 2 ^ 31) :
    bound + ps.length ≤ 2 ^ 31 := by
  induction ps generalizing bound with
  | nil => simpa using hmax
  | cons p rest ih =>
      obtain ⟨hfirst, hrest⟩ := List.pairwise_cons.mp h
      have hp := hbound p List.mem_cons_self
      have hlt := p.toInt_lt
      have hnext : p.toInt + 1 + rest.length ≤ 2 ^ 31 :=
        ih hrest (fun q hq ↦ Int32.lt_iff_toInt_lt.mp (hfirst q hq)) (by omega)
      rw [List.length_cons]
      omega

theorem PartitionSet.toNat_size (s : PartitionSet) : (UInt64.ofNat s.size).toNat = s.size := by
  have hle := length_le_of_ascending s.ascending (fun p _ ↦ p.le_toInt) (by decide)
  have hlength : s.toList.length = s.size := rfl
  exact UInt64.toNat_ofNat_of_lt (by rw [← hlength, UInt64.size]; omega)

end TopicView
