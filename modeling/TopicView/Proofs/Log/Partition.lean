import Mathlib.Algebra.Group.Int.Defs
import Mathlib.Algebra.Group.Nat.Defs
import Mathlib.Tactic.ByContra
import TopicView.Log.Partition

/-!
# Soundness of partitions

`PartitionLog.Sound` is the representation invariant: the retained records lie at consecutive
offsets from the oldest on, carry the index of their partition, and the published watermark is the
first available offset, as long as there is one (`PartitionLog.Fits`).  Every operation keeps it,
also one that crashes.
-/

namespace TopicView

namespace Offset

variable {a b c : Offset} {n : Int}

theorem ofInt?_eq_some_iff : ofInt? n = some a ↔ a.toInt = n := by
  have hmin := Int64.toInt_minValue
  have hmax := Int64.toInt_maxValue
  have hlow := a.le_toInt
  have hhigh := a.toInt_lt
  unfold ofInt?
  rw [hmin, hmax]
  constructor
  · intro h
    split at h
    · next hrange =>
        obtain rfl := Option.some.inj h
        exact Int64.toInt_ofInt_of_le (by omega) (by omega)
    · cases h
  · rintro rfl
    rw [if_pos (by omega), Int64.ofInt_toInt]

theorem ofInt?_eq_none_iff : ofInt? n = none ↔ n < -2 ^ 63 ∨ 2 ^ 63 ≤ n := by
  have hmin := Int64.toInt_minValue
  have hmax := Int64.toInt_maxValue
  unfold ofInt?
  rw [hmin, hmax]
  split <;> simp <;> omega

theorem checkedAdd_eq_some_iff : checkedAdd a b = some c ↔ c.toInt = a.toInt + b.toInt :=
  ofInt?_eq_some_iff

theorem checkedSub_eq_some_iff : checkedSub a b = some c ↔ c.toInt = a.toInt - b.toInt :=
  ofInt?_eq_some_iff

theorem toInt_add_of_lt {a b : Int64} (h : -2 ^ 63 ≤ a.toInt + b.toInt)
    (h' : a.toInt + b.toInt < 2 ^ 63) : (a + b).toInt = a.toInt + b.toInt := by
  rw [Int64.toInt_add, Int.bmod_eq_of_le (by omega) (by omega)]

theorem toInt_sub_of_lt {a b : Int64} (h : -2 ^ 63 ≤ a.toInt - b.toInt)
    (h' : a.toInt - b.toInt < 2 ^ 63) : (a - b).toInt = a.toInt - b.toInt := by
  rw [Int64.toInt_sub, Int.bmod_eq_of_le (by omega) (by omega)]

theorem toInt_min (a b : Int64) : (min a b).toInt = min a.toInt b.toInt := by
  have hmin : min a b = if a ≤ b then a else b := rfl
  rw [hmin]
  split
  · next hle => rw [Int.min_eq_left (Int64.le_iff_toInt_le.mp hle)]
  · next hgt =>
      have hle := Int64.le_iff_toInt_le.mp (Std.le_of_lt (Std.not_le.mp hgt))
      rw [Int.min_eq_right hle]

/-- What lies below an offset has a successor. -/
theorem toInt_add_one {a b : Int64} (h : a < b) : (a + 1).toInt = a.toInt + 1 := by
  have hone := Int64.toInt_one
  have hlt := Int64.lt_iff_toInt_lt.mp h
  have hbound := b.toInt_lt
  have hlow := a.le_toInt
  rw [toInt_add_of_lt, hone] <;> omega

theorem checkedAdd_one {a b : Offset} (h : a < b) : a.checkedAdd 1 = some (a + 1) := by
  have hone := Int64.toInt_one
  rw [checkedAdd_eq_some_iff, hone, toInt_add_one h]

theorem toInt_add_ofNat {a : Int64} {n : Nat} (ha : 0 ≤ a.toInt) (h : a.toInt + n < 2 ^ 63) :
    (a + Int64.ofNat n).toInt = a.toInt + n := by
  have hn : (Int64.ofNat n).toInt = n := Int64.toInt_ofNat_of_lt (by omega)
  rw [toInt_add_of_lt (by omega) (by omega), hn]

end Offset

namespace PartitionLog

/-- The offset of the next record is still an offset. -/
def Fits (p : PartitionLog) : Prop := p.oldest.toInt + p.records.length < 2 ^ 63

instance (p : PartitionLog) : Decidable p.Fits :=
  inferInstanceAs (Decidable (p.oldest.toInt + p.records.length < 2 ^ 63))

/-- The end of a partition that fits. -/
def firstAvailable (p : PartitionLog) : Offset := p.oldest + Int64.ofNat p.records.length

/-- Drops the records below `offset` from a partition that fits. -/
def truncateBefore (p : PartitionLog) (offset : Offset) : PartitionLog :=
  p.dropBefore (min offset p.firstAvailable)

structure Sound (index : PartitionId) (p : PartitionLog) : Prop where
  oldest_nonneg : 0 ≤ p.oldest.toInt
  end_le : p.oldest.toInt + p.records.length ≤ 2 ^ 63
  offset_eq : ∀ i raw, p.records[i]? = some raw → raw.offset = p.oldest + Int64.ofNat i
  partition_eq : ∀ raw ∈ p.records, raw.partition = index
  watermark_eq : p.Fits → p.watermark = p.firstAvailable

variable {index : PartitionId} {p : PartitionLog}

theorem firstAvailable?_eq_some_iff {o : Offset} :
    p.firstAvailable? = some o ↔ o.toInt = p.oldest.toInt + p.records.length :=
  Offset.ofInt?_eq_some_iff

theorem firstAvailable?_eq (hnonneg : 0 ≤ p.oldest.toInt) (hfits : p.Fits) :
    p.firstAvailable? = some p.firstAvailable :=
  firstAvailable?_eq_some_iff.mpr (Offset.toInt_add_ofNat hnonneg hfits)

theorem firstAvailable?_eq_none (hfull : ¬ p.Fits) : p.firstAvailable? = none :=
  Offset.ofInt?_eq_none_iff.mpr (Or.inr (Int.not_lt.mp hfull))

theorem fits_of_firstAvailable? {o : Offset} (h : p.firstAvailable? = some o) : p.Fits := by
  have hlt := o.toInt_lt
  rw [firstAvailable?_eq_some_iff.mp h] at hlt
  exact hlt

theorem isSome_firstAvailable?_iff (hnonneg : 0 ≤ p.oldest.toInt) :
    p.firstAvailable?.isSome ↔ p.Fits := by
  refine ⟨fun h ↦ ?_, fun h ↦ by simp [firstAvailable?_eq hnonneg h]⟩
  obtain ⟨o, ho⟩ := Option.isSome_iff_exists.mp h
  exact fits_of_firstAvailable? ho

/-! ## What the operations keep -/

theorem fits_of_records_eq_nil (h : p.records = []) : p.Fits := by
  have hlt := p.oldest.toInt_lt
  simpa [Fits, h] using hlt

theorem sound_empty (index : PartitionId) : empty.Sound index := by
  refine ⟨by decide, by decide, fun i raw h ↦ ?_, fun raw h ↦ ?_, fun _ ↦ rfl⟩
  · simp [empty] at h
  · simp [empty] at h

@[simp] theorem oldest_append (p : PartitionLog) (raw : RawRecord) :
    (p.append raw).oldest = p.oldest := rfl

@[simp] theorem records_append (p : PartitionLog) (raw : RawRecord) :
    (p.append raw).records = p.records ++ [raw] := rfl

theorem fits_append_iff {raw : RawRecord} :
    (p.append raw).Fits ↔ p.oldest.toInt + p.records.length + 1 < 2 ^ 63 := by
  rw [Fits, oldest_append, records_append, List.length_append, List.length_singleton]
  omega

theorem Sound.append (h : p.Sound index) (hfits : p.Fits) {raw : RawRecord}
    (hoffset : raw.offset = p.firstAvailable) (hpartition : raw.partition = index) :
    (p.append raw).Sound index := by
  refine ⟨h.oldest_nonneg, ?_, fun i a ha ↦ ?_, fun a ha ↦ ?_, fun hroom ↦ ?_⟩
  · unfold Fits at hfits
    rw [oldest_append, records_append, List.length_append, List.length_singleton]
    omega
  · rw [records_append] at ha
    rcases Nat.lt_trichotomy i p.records.length with hi | rfl | hi
    · rw [List.getElem?_append_left hi] at ha
      exact h.offset_eq i a ha
    · obtain rfl : raw = a := by simpa using ha
      exact hoffset
    · rw [List.getElem?_eq_none (by simp; omega)] at ha
      cases ha
  · rcases List.mem_append.mp ha with ha | ha
    · exact h.partition_eq a ha
    · exact List.mem_singleton.mp ha ▸ hpartition
  · have hnext := firstAvailable?_eq (p := p.append raw) h.oldest_nonneg hroom
    change (p.append raw).firstAvailable?.getD p.watermark = _
    rw [hnext, Option.getD_some]

theorem Sound.startAt (h : p.Sound index) (hempty : p.records = []) {offset : Offset}
    (hoffset : 0 ≤ offset.toInt) : (p.startAt offset).Sound index := by
  refine ⟨hoffset, ?_, fun i raw hraw ↦ ?_, h.partition_eq, fun _ ↦ ?_⟩
  · exact Int.le_of_lt (fits_of_records_eq_nil (p := p.startAt offset) hempty)
  · simp [PartitionLog.startAt, hempty] at hraw
  · simp [PartitionLog.startAt, firstAvailable, hempty]

/-! ## Offsets and records -/

theorem firstAvailable_of_fits (h : p.Sound index) (hfits : p.Fits) :
    p.firstAvailable.toInt = p.oldest.toInt + p.records.length :=
  Offset.toInt_add_ofNat h.oldest_nonneg hfits

theorem oldest_le_firstAvailable (h : p.Sound index) (hfits : p.Fits) :
    p.oldest ≤ p.firstAvailable := by
  rw [Int64.le_iff_toInt_le, firstAvailable_of_fits h hfits]
  omega

theorem truncateBefore?_eq (hnonneg : 0 ≤ p.oldest.toInt) (hfits : p.Fits) (offset : Offset) :
    p.truncateBefore? offset = some (p.truncateBefore offset) := by
  rw [truncateBefore?, firstAvailable?_eq hnonneg hfits]
  rfl

theorem truncateBefore?_eq_none (hfull : ¬ p.Fits) (offset : Offset) :
    p.truncateBefore? offset = none := by
  rw [truncateBefore?, firstAvailable?_eq_none hfull]
  rfl

theorem truncateBefore_of_lt {offset target : Offset}
    (htarget : min offset p.firstAvailable = target) (hlt : p.oldest < target) :
    p.truncateBefore offset = { p with
      oldest := target, records := p.records.drop (target.toInt - p.oldest.toInt).toNat } := by
  rw [truncateBefore, htarget, dropBefore, if_pos hlt]

theorem truncateBefore_of_not_lt {offset : Offset}
    (hge : ¬ p.oldest < min offset p.firstAvailable) : p.truncateBefore offset = p := by
  rw [truncateBefore, dropBefore, if_neg hge]

/-- Truncation drops some of the first records, or nothing. -/
theorem truncateBefore_cases (h : p.Sound index) (hfits : p.Fits) (offset : Offset) :
    p.truncateBefore offset = p ∨
      ∃ n target, n ≤ p.records.length ∧ target = p.oldest + Int64.ofNat n ∧
        p.truncateBefore offset = { p with oldest := target, records := p.records.drop n } := by
  by_cases hlt : p.oldest < min offset p.firstAvailable
  · obtain ⟨target, htarget⟩ : ∃ target, min offset p.firstAvailable = target := ⟨_, rfl⟩
    rw [htarget] at hlt
    have hle : target ≤ p.firstAvailable := htarget ▸ Std.min_le_right
    rw [Int64.le_iff_toInt_le, firstAvailable_of_fits h hfits] at hle
    have hlt' := Int64.lt_iff_toInt_lt.mp hlt
    have hnonneg := h.oldest_nonneg
    have hbound := target.toInt_lt
    refine Or.inr ⟨(target.toInt - p.oldest.toInt).toNat, target, ?_, ?_, ?_⟩
    · omega
    · rw [← Int64.toInt_inj, Offset.toInt_add_ofNat hnonneg (by omega)]
      omega
    · exact truncateBefore_of_lt htarget hlt
  · exact Or.inl (truncateBefore_of_not_lt hlt)

theorem Sound.truncateBefore (h : p.Sound index) (hfits : p.Fits) (offset : Offset) :
    (p.truncateBefore offset).Sound index := by
  rcases truncateBefore_cases h hfits offset with heq | ⟨n, target, hn, htarget, heq⟩
  · rwa [heq]
  · have hnonneg := h.oldest_nonneg
    have hlength := h.end_le
    have htarget' : target.toInt = p.oldest.toInt + n := by
      unfold Fits at hfits
      rw [htarget, Offset.toInt_add_ofNat hnonneg (by omega)]
    rw [heq]
    refine ⟨?_, ?_, fun i raw hraw ↦ ?_, fun raw hraw ↦ ?_, fun _ ↦ ?_⟩
    · dsimp only
      omega
    · simp only [List.length_drop]
      omega
    · simp only [List.getElem?_drop] at hraw
      rw [h.offset_eq _ raw hraw, htarget, Int64.ofNat_add]
      grind
    · exact h.partition_eq raw (List.mem_of_mem_drop hraw)
    · have hsplit : Int64.ofNat n + Int64.ofNat (p.records.length - n) =
          Int64.ofNat p.records.length := by
        rw [← Int64.ofNat_add, Nat.add_sub_cancel' hn]
      simp only [firstAvailable, List.length_drop, htarget, h.watermark_eq hfits]
      grind

theorem offset_of_getElem? (h : p.Sound index) {i : Nat} {raw : RawRecord}
    (hraw : p.records[i]? = some raw) : raw.offset.toInt = p.oldest.toInt + i := by
  have hi := (List.getElem?_eq_some_iff.mp hraw).1
  have hend := h.end_le
  rw [h.offset_eq i raw hraw, Offset.toInt_add_ofNat h.oldest_nonneg (by omega)]

theorem get?_of_le {offset : Offset} (hle : p.oldest ≤ offset) :
    p.get? offset = p.records[(offset.toInt - p.oldest.toInt).toNat]? := by
  have hle' := Int64.le_iff_toInt_le.mp hle
  rw [get?, index?, if_neg (by omega)]
  rfl

theorem get?_of_lt {offset : Offset} (hlt : offset < p.oldest) : p.get? offset = none := by
  have hlt' := Int64.lt_iff_toInt_lt.mp hlt
  rw [get?, index?, if_pos (by omega)]
  rfl

theorem get?_eq_some_iff (h : p.Sound index) {offset : Offset} (hle : p.oldest ≤ offset)
    {raw : RawRecord} : p.get? offset = some raw ↔ raw ∈ p.records ∧ raw.offset = offset := by
  have hle' := Int64.le_iff_toInt_le.mp hle
  rw [get?_of_le hle]
  constructor
  · intro hraw
    refine ⟨List.mem_of_getElem? hraw, ?_⟩
    rw [← Int64.toInt_inj, offset_of_getElem? h hraw]
    omega
  · rintro ⟨hmem, rfl⟩
    obtain ⟨i, hi⟩ := List.getElem?_of_mem hmem
    have hoffset := offset_of_getElem? h hi
    rwa [show (raw.offset.toInt - p.oldest.toInt).toNat = i by omega]

theorem get?_eq_none_iff {offset : Offset} (hle : p.oldest ≤ offset) :
    p.get? offset = none ↔ p.oldest.toInt + p.records.length ≤ offset.toInt := by
  have hle' := Int64.le_iff_toInt_le.mp hle
  rw [get?_of_le hle, List.getElem?_eq_none_iff]
  omega

theorem pairwise_offset (h : p.Sound index) :
    p.records.Pairwise fun a b ↦ a.offset < b.offset := by
  rw [List.pairwise_iff_getElem]
  intro i j hi hj hij
  have hi' := offset_of_getElem? h (List.getElem?_eq_getElem hi)
  have hj' := offset_of_getElem? h (List.getElem?_eq_getElem hj)
  rw [Int64.lt_iff_toInt_lt]
  omega

theorem mem_bounds (h : p.Sound index) {raw : RawRecord} (hraw : raw ∈ p.records) :
    p.oldest ≤ raw.offset ∧ raw.offset.toInt < p.oldest.toInt + p.records.length := by
  obtain ⟨i, hi⟩ := List.getElem?_of_mem hraw
  have hlength := (List.getElem?_eq_some_iff.mp hi).1
  have hoffset := offset_of_getElem? h hi
  rw [Int64.le_iff_toInt_le]
  omega

theorem mem_range (h : p.Sound index) (hfits : p.Fits) {raw : RawRecord} (hraw : raw ∈ p.records) :
    p.oldest ≤ raw.offset ∧ raw.offset < p.firstAvailable := by
  obtain ⟨hle, hlt⟩ := mem_bounds h hraw
  rw [Int64.lt_iff_toInt_lt, firstAvailable_of_fits h hfits]
  exact ⟨hle, hlt⟩

end PartitionLog
end TopicView
