import TopicView.Proofs.Log.Change

/-!
# What a partition has held

Appending and truncating leave a partition with an end of all that it has ever held.  The offsets
of that archive are counted from one start, so that a record keeps its place whatever is dropped
before it, and a cursor that yields it has passed over nothing but what was dropped.
-/

namespace TopicView

namespace PartitionLog

open Log.Change

variable {index : PartitionId} {base : Offset} {archive : List RawRecord} {dropped : Nat}
  {p q : PartitionLog} {added : Option RawRecord}

/-- The retained records are what is left of the archive after some have been dropped. -/
structure Keeps (base : Offset) (archive : List RawRecord) (dropped : Nat)
    (p : PartitionLog) : Prop where
  base_nonneg : 0 ≤ base.toInt
  offset_eq : ∀ (i : Nat) raw, archive[i]? = some raw → raw.offset.toInt = base.toInt + i
  oldest_eq : p.oldest.toInt = base.toInt + dropped
  dropped_le : dropped ≤ archive.length
  records_eq : p.records = archive.drop dropped

theorem keeps_start (h : p.Sound index) : p.Keeps p.oldest p.records 0 :=
  ⟨h.oldest_nonneg, fun _ _ ↦ offset_of_getElem? h, by simp, Nat.zero_le _, rfl⟩

theorem Keeps.end_eq (h : p.Keeps base archive dropped) :
    p.oldest.toInt + p.records.length = base.toInt + archive.length := by
  have hle := h.dropped_le
  rw [h.oldest_eq, h.records_eq, List.length_drop]
  omega

theorem Keeps.append (h : p.Keeps base archive dropped) {raw : RawRecord}
    (hoffset : p.firstAvailable? = some raw.offset) :
    (p.append raw).Keeps base (archive ++ [raw]) dropped := by
  refine ⟨h.base_nonneg, ?_, h.oldest_eq, ?_, ?_⟩
  · intro i a ha
    rcases Nat.lt_trichotomy i archive.length with hi | rfl | hi
    · rw [List.getElem?_append_left hi] at ha
      exact h.offset_eq i a ha
    · obtain rfl : raw = a := by simpa using ha
      rw [firstAvailable?_eq_some_iff.mp hoffset, h.end_eq]
    · rw [List.getElem?_eq_none (by simp; omega)] at ha
      cases ha
  · have hle := h.dropped_le
    rw [List.length_append]
    omega
  · rw [records_append, h.records_eq, List.drop_append_of_le_length h.dropped_le]

theorem Keeps.truncateBefore (h : p.Keeps base archive dropped) {offset : Offset}
    (hdone : p.truncateBefore? offset = some q) :
    ∃ more, q.Keeps base archive (dropped + more) := by
  obtain ⟨next, hnext, rfl⟩ := Option.map_eq_some_iff.mp hdone
  have hend := firstAvailable?_eq_some_iff.mp hnext
  obtain ⟨target, htarget⟩ : ∃ target, min offset next = target := ⟨_, rfl⟩
  have hle : target ≤ next := htarget ▸ Std.min_le_right
  rw [Int64.le_iff_toInt_le] at hle
  rw [htarget, dropBefore]
  split
  · next hlt =>
      rw [Int64.lt_iff_toInt_lt] at hlt
      have holdest := h.oldest_eq
      have harchive := h.end_eq
      refine ⟨(target.toInt - p.oldest.toInt).toNat, h.base_nonneg, h.offset_eq, ?_, ?_, ?_⟩
      · dsimp only
        omega
      · omega
      · rw [← List.drop_drop, ← h.records_eq]
  · exact ⟨0, h⟩

theorem Keeps.effect (h : p.Keeps base archive dropped) (heffect : Effect index p added q) :
    ∃ dropped', q.Keeps base (archive ++ added.toList) dropped' := by
  cases heffect with
  | added hoffset hpartition => exact ⟨dropped, h.append hoffset⟩
  | truncated hdone =>
      obtain ⟨more, hmore⟩ := h.truncateBefore hdone
      exact ⟨dropped + more, by simpa using hmore⟩

theorem Keeps.get?_eq (h : p.Keeps base archive dropped) {offset : Offset}
    (hle : p.oldest ≤ offset) : p.get? offset = archive[(offset.toInt - base.toInt).toNat]? := by
  have holdest := h.oldest_eq
  have hle' := Int64.le_iff_toInt_le.mp hle
  rw [get?_of_le hle, h.records_eq, List.getElem?_drop]
  congr 1
  omega

/-! ## Partitions that go back to another one -/

/-- A partition that has come from another one by appending and truncating. -/
def Descends (p₀ p : PartitionLog) : Prop :=
  ∃ archive dropped, p₀.records <+: archive ∧ p.Keeps p₀.oldest archive dropped

variable {p₀ : PartitionLog}

theorem descends_start (h : p.Sound index) : p.Descends p :=
  ⟨p.records, 0, List.prefix_rfl, keeps_start h⟩

theorem Descends.effect (h : p₀.Descends p) (heffect : Effect index p added q) :
    p₀.Descends q := by
  obtain ⟨archive, dropped, hprefix, hkeeps⟩ := h
  obtain ⟨dropped', hkeeps'⟩ := hkeeps.effect heffect
  exact ⟨archive ++ added.toList, dropped', hprefix.trans (List.prefix_append _ _), hkeeps'⟩

end PartitionLog

/-! ## Pulling from them -/

namespace LogCursor

open PartitionLog

variable {log : Log} {target : TopicPartition} {follow : Bool} {p p₀ : PartitionLog}
  {index : PartitionId} {c : LogCursor}

/-- A pull yields the record at the position, or at the start of what is retained, unless it crashes
there; in the range of the former partition that is a record of it.  Where there is none, the
position is behind that range. -/
theorem pull_of_descends (h : p₀.Descends p) (hsound : p₀.Sound index) (hfits : p₀.Fits)
    (hc : c.Reads target follow) (hp : log.partition target = .ok p) :
    (∃ raw c', c.pull log = (.record raw, c') ∧ c'.Reads target follow ∧ raw ∈ p.records ∧
      c.position ≤ raw.offset ∧ (∀ o, c.position ≤ o → o < raw.offset → o < p.oldest) ∧
      c'.position.toInt = raw.offset.toInt + 1 ∧
      (raw.offset < p₀.firstAvailable → raw ∈ p₀.records) ∧
      ∀ a ∈ p₀.records, a.offset = raw.offset → a = raw) ∨
    (∃ c', c.pull log = (.crashed, c') ∧ c'.Reads target follow) ∨
    ∃ c', c.pull log = (if follow then .waiting else .ended, c') ∧ c'.Reads target follow ∧
      (∀ a ∈ p₀.records, a.offset < c'.position) ∧ c.position ≤ c'.position ∧
      ∀ o, c.position ≤ o → o < c'.position → o < p.oldest := by
  obtain ⟨archive, dropped, ⟨later, rfl⟩, hkeeps⟩ := h
  obtain ⟨-, hposition, holdest, hgone⟩ := c.resume_cases p.oldest
  have hstart := hkeeps.oldest_eq
  have hend := firstAvailable_of_fits hsound hfits
  have holdest' := Int64.le_iff_toInt_le.mp holdest
  obtain ⟨k, hk⟩ : ∃ k, ((c.resume p.oldest).position.toInt - p₀.oldest.toInt).toNat = k := ⟨_, rfl⟩
  have harchived := hkeeps.get?_eq holdest
  rw [hk] at harchived
  rcases pull_eq hc hp with ⟨raw, c', hpull, hc', hget, hnext⟩ | ⟨raw, hpull, -⟩ | ⟨hpull, hget⟩
  · obtain ⟨n, -, hn⟩ := Option.bind_eq_some_iff.mp hget
    rw [hget] at harchived
    have hoffset : raw.offset = (c.resume p.oldest).position := by
      rw [← Int64.toInt_inj, hkeeps.offset_eq k raw harchived.symm]
      omega
    rw [← hoffset] at hposition hgone hnext hk holdest'
    refine Or.inl ⟨raw, c', hpull, hc', List.mem_of_getElem? hn, hposition, hgone, hnext, ?_, ?_⟩
    · intro hlt
      rw [Int64.lt_iff_toInt_lt] at hlt
      rw [List.getElem?_append_left (by omega)] at harchived
      exact List.mem_of_getElem? harchived.symm
    · intro a ha hsame
      obtain ⟨j, hj⟩ := List.getElem?_of_mem ha
      have hlength := (List.getElem?_eq_some_iff.mp hj).1
      have hindex := offset_of_getElem? hsound hj
      rw [← hsame] at hk
      obtain rfl : j = k := by omega
      rw [List.getElem?_append_left hlength, hj] at harchived
      exact (Option.some.inj harchived).symm
  · exact Or.inr (Or.inl ⟨_, hpull, hc.resume p.oldest⟩)
  · rw [hget, eq_comm, List.getElem?_eq_none_iff, List.length_append] at harchived
    refine Or.inr (Or.inr ⟨_, hpull, hc.resume p.oldest, ?_, hposition, hgone⟩)
    intro a ha
    have hlast := (mem_range hsound hfits ha).2
    rw [Int64.lt_iff_toInt_lt] at hlast ⊢
    omega

end LogCursor
end TopicView
