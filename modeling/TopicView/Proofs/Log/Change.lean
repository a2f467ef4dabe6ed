import TopicView.Proofs.Log.Cursor
import TopicView.Proofs.Log.Reachable

/-!
# Logs that change while they are read

Others may append records and truncate partitions.  `PartitionLog.Tracks` ties a partition to the
list of all records that have been appended to it since some moment: they lie at consecutive offsets
from the first one on, and what is retained from there on is among them.
-/

namespace TopicView

namespace Log

/-- What others may do to a log while it is read. -/
inductive Change
  | append (target : TopicPartition) (entry : Entry)
  | truncateBefore (target : TopicPartition) (offset : Offset)

namespace Change

/-- The log after a change, also after one that crashes. -/
def apply (change : Change) (log : Log) : Log :=
  match change with
  | append target entry => (log.append target entry).2
  | truncateBefore target offset =>
    match log.truncateBefore target offset with
    | .ok log => log
    | _ => log

/-- The record that a change puts down in a partition. -/
def record? (log : Log) (target : TopicPartition) : Change → Option RawRecord
  | append t entry =>
    if t = target then
      match log.partition t with
      | .ok p => p.firstAvailable?.map fun offset ↦
          ⟨entry.key, entry.value, t.partition, offset, some entry.timestamp, entry.headers⟩
      | .error _ => none
    else none
  | truncateBefore _ _ => none

/-- What becomes of a partition: a record is added, or some are dropped. -/
inductive Effect (index : PartitionId) (p : PartitionLog) :
    Option RawRecord → PartitionLog → Prop
  | added {raw : RawRecord} (offset : p.firstAvailable? = some raw.offset)
      (partition : raw.partition = index) : Effect index p (some raw) (p.append raw)
  | truncated {offset : Offset} {q : PartitionLog} (done : p.truncateBefore? offset = some q) :
      Effect index p none q

variable {log : Log} {target : TopicPartition} {p q : PartitionLog}

theorem apply_cases (change : Change) (log : Log) :
    (change.apply log = log ∧ ∀ target, change.record? log target = none) ∨
      ∃ t p added q, log.partition t = .ok p ∧ Effect t.partition p added q ∧
        change.apply log = log.setPartition t q ∧
        ∀ target, change.record? log target = if t = target then added else none := by
  cases change with
  | append t entry =>
      cases hp : log.partition t with
      | error fault => exact Or.inl (by simp [apply, record?, Log.append, hp])
      | ok p =>
          cases hnext : p.firstAvailable? with
          | none => exact Or.inl (by simp [apply, record?, Log.append, hp, hnext])
          | some offset =>
              refine Or.inr ⟨t, p, some ⟨entry.key, entry.value, t.partition, offset,
                some entry.timestamp, entry.headers⟩, _, hp, .added hnext rfl, ?_, fun target ↦ ?_⟩
              · simp [apply, Log.append, hp, hnext]
              · simp [record?, hp, hnext]
  | truncateBefore t offset =>
      cases hp : log.partition t with
      | error fault => exact Or.inl (by simp [apply, record?, Log.truncateBefore, hp])
      | ok p =>
          cases hdone : p.truncateBefore? offset with
          | none => exact Or.inl (by simp [apply, record?, Log.truncateBefore, hp, hdone])
          | some q =>
              refine Or.inr ⟨t, p, none, q, hp, .truncated hdone, ?_, fun target ↦ ?_⟩
              · simp [apply, Log.truncateBefore, hp, hdone]
              · simp [record?]

theorem faults_apply (change : Change) (log : Log) : (change.apply log).faults = log.faults := by
  rcases apply_cases change log with ⟨heq, -⟩ | ⟨t, p, added, q, -, -, heq, -⟩
  · rw [heq]
  · rw [heq]
    rfl

/-- A partition stays as it is, without a new record, or a change has its effect on it. -/
theorem partition_apply (change : Change) (hp : log.partition target = .ok p) :
    (change.apply log).partition target = .ok p ∧ change.record? log target = none ∨
      ∃ q, (change.apply log).partition target = .ok q ∧
        Effect target.partition p (change.record? log target) q := by
  rcases apply_cases change log with ⟨heq, hnone⟩ | ⟨t, p', added, q, hp', heffect, heq, hrecord⟩
  · exact Or.inl ⟨by rw [heq, hp], hnone target⟩
  · by_cases ht : t = target
    · subst ht
      obtain rfl : p' = p := Except.ok.inj (hp'.symm.trans hp)
      refine Or.inr ⟨q, ?_, ?_⟩
      · rw [heq, partition_setPartition hp, if_pos rfl]
      · rwa [hrecord, if_pos rfl]
    · refine Or.inl ⟨?_, ?_⟩
      · rw [heq, partition_setPartition hp', if_neg (Ne.symm ht), hp]
      · rw [hrecord, if_neg ht]

end Change

/-- Every record bears the index of the partition it is in. -/
def Indexed (log : Log) : Prop :=
  ∀ target p, log.partition target = .ok p → ∀ raw ∈ p.records, raw.partition = target.partition

variable {log : Log} {target : TopicPartition} {p q : PartitionLog}

theorem Sound.indexed (h : log.Sound) : log.Indexed :=
  fun target p hp ↦ (h target p hp).partition_eq

theorem Change.Effect.mem_records {index : PartitionId} {added : Option RawRecord}
    (h : Effect index p added q) {raw : RawRecord} (hraw : raw ∈ q.records) :
    raw ∈ p.records ∨ added = some raw := by
  cases h with
  | added offset partition =>
      simp only [PartitionLog.append, PartitionLog.publish, List.mem_append,
        List.mem_singleton] at hraw
      exact hraw.imp id fun heq ↦ congrArg some heq.symm
  | truncated done =>
      obtain ⟨next, -, rfl⟩ := Option.map_eq_some_iff.mp done
      unfold PartitionLog.dropBefore at hraw
      split at hraw
      · exact Or.inl (List.mem_of_mem_drop hraw)
      · exact Or.inl hraw

theorem Indexed.apply (h : log.Indexed) (change : Change) : (change.apply log).Indexed := by
  rcases Change.apply_cases change log with ⟨heq, -⟩ | ⟨t, p, added, q, hp, heffect, heq, -⟩
  · rwa [heq]
  · intro target a ha raw hraw
    rw [heq, partition_setPartition hp] at ha
    split at ha
    · next htarget =>
        obtain rfl : q = a := Except.ok.inj ha
        rcases heffect.mem_records hraw with hold | rfl
        · exact htarget ▸ h t p hp raw hold
        · cases heffect with
          | added offset partition => exact htarget ▸ partition
    · exact h target a ha raw hraw

end Log

/-! ## All that has been appended -/

namespace PartitionLog

open Log.Change

variable {index : PartitionId} {first : Offset} {appended : List RawRecord} {p q : PartitionLog}
  {added : Option RawRecord}

structure Tracks (index : PartitionId) (first : Offset) (appended : List RawRecord)
    (p : PartitionLog) : Prop where
  sound : p.Sound index
  end_eq : p.oldest.toInt + p.records.length = first.toInt + appended.length
  offset_eq : ∀ (i : Nat) raw, appended[i]? = some raw → raw.offset.toInt = first.toInt + i
  appended_of_mem : ∀ raw ∈ p.records, first ≤ raw.offset → raw ∈ appended

theorem tracks_start (h : p.Sound index) (hfits : p.Fits) : p.Tracks index p.firstAvailable [] := by
  refine ⟨h, ?_, fun i raw hraw ↦ (nomatch hraw), fun raw hraw hle ↦ ?_⟩
  · simp [firstAvailable_of_fits h hfits]
  · exact absurd hle (Std.not_le.mpr (mem_range h hfits hraw).2)

theorem Tracks.mem_bounds (h : p.Tracks index first appended) {raw : RawRecord}
    (hraw : raw ∈ appended) :
    first ≤ raw.offset ∧ raw.offset.toInt < p.oldest.toInt + p.records.length := by
  obtain ⟨i, hi⟩ := List.getElem?_of_mem hraw
  have hlength := (List.getElem?_eq_some_iff.mp hi).1
  have hoffset := h.offset_eq i raw hi
  have hend := h.end_eq
  rw [Int64.le_iff_toInt_le]
  omega

theorem Tracks.eq_of_offset_eq (h : p.Tracks index first appended) {a b : RawRecord}
    (ha : a ∈ appended) (hb : b ∈ appended) (heq : a.offset = b.offset) : a = b := by
  obtain ⟨i, hi⟩ := List.getElem?_of_mem ha
  obtain ⟨j, hj⟩ := List.getElem?_of_mem hb
  have hoffset := h.offset_eq i a hi
  have hoffset' := h.offset_eq j b hj
  rw [heq] at hoffset
  obtain rfl : i = j := by omega
  exact Option.some.inj (hi.symm.trans hj)

/-- A change comes to a partition that fits. -/
theorem effect_cases (h : Effect index p added q) (hnonneg : 0 ≤ p.oldest.toInt) : p.Fits ∧
    ((∃ raw, added = some raw ∧ raw.offset = p.firstAvailable ∧ raw.partition = index ∧
      q = p.append raw) ∨
    added = none ∧ ∃ offset, q = p.truncateBefore offset) := by
  cases h with
  | @added raw hoffset hpartition =>
      have hfits := fits_of_firstAvailable? hoffset
      rw [firstAvailable?_eq hnonneg hfits] at hoffset
      exact ⟨hfits, Or.inl ⟨raw, rfl, (Option.some.inj hoffset).symm, hpartition, rfl⟩⟩
  | @truncated offset _ hdone =>
      obtain ⟨next, hnext, rfl⟩ := Option.map_eq_some_iff.mp hdone
      have hfits := fits_of_firstAvailable? hnext
      rw [firstAvailable?_eq hnonneg hfits] at hnext
      obtain rfl := Option.some.inj hnext
      exact ⟨hfits, Or.inr ⟨rfl, offset, rfl⟩⟩

theorem Sound.effect (h : p.Sound index) (heffect : Effect index p added q) : q.Sound index := by
  obtain ⟨hfits, ⟨raw, -, hoffset, hpartition, rfl⟩ | ⟨-, offset, rfl⟩⟩ :=
    effect_cases heffect h.oldest_nonneg
  · exact h.append hfits hoffset hpartition
  · exact h.truncateBefore hfits offset

theorem Tracks.append (h : p.Tracks index first appended) (hfits : p.Fits) {raw : RawRecord}
    (hoffset : raw.offset = p.firstAvailable) (hpartition : raw.partition = index) :
    (p.append raw).Tracks index first (appended ++ [raw]) := by
  have hfirst := firstAvailable_of_fits h.sound hfits
  have hend := h.end_eq
  refine ⟨h.sound.append hfits hoffset hpartition, ?_, fun i a ha ↦ ?_, fun a ha hle ↦ ?_⟩
  · rw [oldest_append, records_append, List.length_append, List.length_append,
      List.length_singleton]
    omega
  · rcases Nat.lt_trichotomy i appended.length with hi | rfl | hi
    · rw [List.getElem?_append_left hi] at ha
      exact h.offset_eq i a ha
    · obtain rfl : raw = a := by simpa using ha
      rw [hoffset, hfirst, hend]
    · rw [List.getElem?_eq_none (by simp; omega)] at ha
      cases ha
  · rcases List.mem_append.mp ha with ha | ha
    · exact List.mem_append_left _ (h.appended_of_mem a ha hle)
    · exact List.mem_append_right _ ha

theorem Tracks.truncateBefore (h : p.Tracks index first appended) (hfits : p.Fits)
    (offset : Offset) : (p.truncateBefore offset).Tracks index first appended := by
  have hsound := h.sound.truncateBefore hfits offset
  rcases truncateBefore_cases h.sound hfits offset with heq | ⟨n, target, hn, htarget, heq⟩
  · rwa [heq]
  · have hend := h.end_eq
    have htarget' : target.toInt = p.oldest.toInt + n := by
      unfold Fits at hfits
      rw [htarget, Offset.toInt_add_ofNat h.sound.oldest_nonneg (by omega)]
    refine ⟨hsound, ?_, h.offset_eq, fun a ha ↦ ?_⟩
    · rw [heq]
      simp only [List.length_drop]
      omega
    · rw [heq] at ha
      exact h.appended_of_mem a (List.mem_of_mem_drop ha)

theorem Tracks.effect (h : p.Tracks index first appended) (heffect : Effect index p added q) :
    q.Tracks index first (appended ++ added.toList) := by
  obtain ⟨hfits, ⟨raw, rfl, hoffset, hpartition, rfl⟩ | ⟨rfl, offset, rfl⟩⟩ :=
    effect_cases heffect h.sound.oldest_nonneg
  · exact h.append hfits hoffset hpartition
  · simpa using h.truncateBefore hfits offset

/-! ## Following the end -/

/-- How far a cursor has come that follows the end of a partition: of the records appended so far
each one below its position has been pulled, or it was missed. -/
structure Followed (first : Offset) (appended : List RawRecord) (pulled : List RawRecord)
    (missed : RawRecord → Prop) (p : PartitionLog) (position : Offset) : Prop where
  first_le : first ≤ position
  le_end : position.toInt ≤ p.oldest.toInt + p.records.length
  lt_position : ∀ raw ∈ pulled, raw.offset < position
  settled : ∀ raw ∈ appended, raw.offset < position → raw ∈ pulled ∨ missed raw

variable {pulled : List RawRecord} {missed missed' : RawRecord → Prop} {position next : Offset}

theorem followed_start (h : p.Tracks index first appended) :
    p.Followed first appended [] missed first := by
  refine ⟨Std.le_refl first, ?_, by simp, fun raw hraw hlt ↦ ?_⟩
  · have hend := h.end_eq
    omega
  · exact absurd hlt (Std.not_lt.mpr (h.mem_bounds hraw).1)

theorem Followed.mono (h : p.Followed first appended pulled missed position)
    (himp : ∀ raw, missed raw → missed' raw) :
    p.Followed first appended pulled missed' position :=
  ⟨h.first_le, h.le_end, h.lt_position, fun raw hraw hlt ↦
    (h.settled raw hraw hlt).imp_right (himp raw)⟩

/-- A change leaves the position as it is: what it adds comes behind it. -/
theorem Followed.effect (h : p.Followed first appended pulled missed position)
    (htracks : p.Tracks index first appended) (heffect : Effect index p added q) :
    q.Followed first (appended ++ added.toList) pulled missed position := by
  have hbefore := htracks.end_eq
  have hafter := (htracks.effect heffect).end_eq
  have hend := h.le_end
  rw [List.length_append] at hafter
  refine ⟨h.first_le, by omega, h.lt_position, fun raw hraw hlt ↦ ?_⟩
  rcases List.mem_append.mp hraw with hold | hnew
  · exact h.settled raw hold hlt
  · cases heffect with
    | added hoffset hpartition =>
        obtain rfl := List.mem_singleton.mp hnew
        rw [Int64.lt_iff_toInt_lt, firstAvailable?_eq_some_iff.mp hoffset] at hlt
        omega
    | truncated done => cases hnew

/-- What lies between two positions with nothing retained in between has been missed. -/
theorem Followed.settled_below (h : p.Followed first appended pulled missed position)
    (hgap : ∀ o, position ≤ o → o < next → o < p.oldest) {raw : RawRecord} (hraw : raw ∈ appended)
    (hlt : raw.offset < next) :
    raw ∈ pulled ∨ missed raw ∨ position ≤ raw.offset ∧ raw.offset < p.oldest := by
  by_cases hbelow : raw.offset < position
  · exact (h.settled raw hraw hbelow).imp_right Or.inl
  · have hle := Std.not_lt.mp hbelow
    exact Or.inr (Or.inr ⟨hle, hgap raw.offset hle hlt⟩)

theorem Followed.wait (h : p.Followed first appended pulled missed position)
    (htracks : p.Tracks index first appended) (hle : position ≤ next)
    (hgap : ∀ o, position ≤ o → o < next → o < p.oldest) :
    p.Followed first appended pulled
      (fun raw ↦ missed raw ∨ position ≤ raw.offset ∧ raw.offset < p.oldest) next := by
  refine ⟨Std.le_trans h.first_le hle, ?_, fun raw hraw ↦ ?_, fun raw hraw hlt ↦ ?_⟩
  · by_contra hbeyond
    have hbound := next.toInt_lt
    have hfits : p.Fits := by
      unfold Fits
      omega
    have hend := firstAvailable_of_fits htracks.sound hfits
    have hgone := hgap p.firstAvailable
    simp only [Int64.le_iff_toInt_le, Int64.lt_iff_toInt_lt, hend] at hgone
    have hbelow := hgone h.le_end (by omega)
    omega
  · exact Std.lt_of_lt_of_le (h.lt_position raw hraw) hle
  · exact h.settled_below hgap hraw hlt

/-- Of what is below the position after a record has been pulled, only the gap was missed. -/
theorem Followed.pull (h : p.Followed first appended pulled missed position)
    (htracks : p.Tracks index first appended) {raw : RawRecord} (hmem : raw ∈ p.records)
    (hle : position ≤ raw.offset)
    (hgap : ∀ o, position ≤ o → o < raw.offset → o < p.oldest)
    (hnext : next.toInt = raw.offset.toInt + 1) :
    p.Followed first appended (pulled ++ [raw])
      (fun raw ↦ missed raw ∨ position ≤ raw.offset ∧ raw.offset < p.oldest) next := by
  have hlast := (PartitionLog.mem_bounds htracks.sound hmem).2
  have hlt : raw.offset < next := by
    rw [Int64.lt_iff_toInt_lt]
    omega
  refine ⟨?_, by omega, fun a ha ↦ ?_, fun a ha hbelow ↦ ?_⟩
  · exact Std.le_of_lt (Std.lt_of_le_of_lt (Std.le_trans h.first_le hle) hlt)
  · rcases List.mem_append.mp ha with ha | ha
    · exact Std.lt_trans (Std.lt_of_lt_of_le (h.lt_position a ha) hle) hlt
    · exact List.mem_singleton.mp ha ▸ hlt
  · -- Below the next position lie the record itself and what lay below it.
    by_cases hsame : a.offset = raw.offset
    · have heq : a = raw := by
        have hraw := htracks.appended_of_mem raw hmem (Std.le_trans h.first_le hle)
        exact htracks.eq_of_offset_eq ha hraw hsame
      exact Or.inl (List.mem_append_right _ (List.mem_singleton.mpr heq))
    · have hbefore : a.offset < raw.offset := by
        rw [← Int64.toInt_inj] at hsame
        rw [Int64.lt_iff_toInt_lt] at hbelow ⊢
        omega
      exact (h.settled_below hgap ha hbefore).imp_left (List.mem_append_left _)

end PartitionLog
end TopicView
