import TopicView.Proofs.Log.Cursor
import TopicView.Read.Plan

/-!
# The segment of a plan

A plan that lies in the retained range of a partition names a segment of its records, one for each
offset.  A cursor that goes up through the segment yields its records one by one, up to the number
of records after which it has been told to fail.
-/

namespace TopicView

/-- How many offsets a plan names. -/
def Plan.size (plan : Plan) : Nat := (plan.endOffset.toInt + 1 - plan.start.toInt).toNat

namespace PartitionLog

variable {index : PartitionId} {p : PartitionLog} {plan : Plan}

/-- The records whose offset a plan names. -/
def segment (p : PartitionLog) (plan : Plan) : List RawRecord :=
  p.records.filter fun raw ↦ plan.start ≤ raw.offset ∧ raw.offset ≤ plan.endOffset

/-- A plan lies in the retained range, and ends at the earliest just before its start. -/
structure Holds (p : PartitionLog) (plan : Plan) : Prop where
  bounded : plan.isBounded = true
  oldest_le : p.oldest.toInt ≤ plan.start.toInt
  start_le : plan.start.toInt ≤ plan.endOffset.toInt + 1
  end_lt : plan.endOffset.toInt < p.firstAvailable.toInt

theorem Holds.lt_of_le (h : p.Holds plan) {offset : Offset} (hle : offset ≤ plan.endOffset) :
    offset < p.firstAvailable := by
  rw [Int64.le_iff_toInt_le] at hle
  rw [Int64.lt_iff_toInt_lt]
  exact Int.lt_of_le_of_lt hle h.end_lt

theorem filter_ge_eq_take {l : List RawRecord} {base : Int} {offset : Offset}
    (h : ∀ (i : Nat) raw, l[i]? = some raw → raw.offset.toInt = base + i) :
    l.filter (·.offset ≤ offset) = l.take (offset.toInt + 1 - base).toNat := by
  induction l generalizing base with
  | nil => simp
  | cons raw rest ih =>
      have hraw : raw.offset.toInt = base := by simpa using h 0 raw rfl
      have hrest := @ih (base + 1) fun i a ha ↦ by
        have := h (i + 1) a ha
        omega
      by_cases hle : raw.offset ≤ offset
      · have hle' := Int64.le_iff_toInt_le.mp hle
        have hsucc : (offset.toInt + 1 - base).toNat =
            (offset.toInt + 1 - (base + 1)).toNat + 1 := by omega
        rw [hsucc, List.filter_cons_of_pos (by simpa using hle), hrest, List.take_succ_cons]
      · have hlt : ¬ raw.offset.toInt ≤ offset.toInt := fun hle' ↦
          hle (Int64.le_iff_toInt_le.mpr hle')
        have hzero : (offset.toInt + 1 - base).toNat = 0 := by omega
        have hzero' : (offset.toInt + 1 - (base + 1)).toNat = 0 := by omega
        rw [hzero'] at hrest
        rw [hzero, List.filter_cons_of_neg (by simpa using hle), hrest]
        rfl

theorem segment_eq (h : p.Sound index) (hholds : p.Holds plan) :
    p.segment plan =
      (p.records.drop (plan.start.toInt - p.oldest.toInt).toNat).take plan.size := by
  have holdest := hholds.oldest_le
  have hsplit : p.segment plan = (p.recordsFrom plan.start).filter (·.offset ≤ plan.endOffset) := by
    rw [recordsFrom, List.filter_filter, segment]
    refine List.filter_congr fun raw _ ↦ ?_
    rw [Bool.decide_and, Bool.and_comm]
  rw [hsplit, recordsFrom_eq_drop h, Plan.size]
  apply filter_ge_eq_take
  intro i raw hraw
  rw [List.getElem?_drop] at hraw
  rw [offset_of_getElem? h hraw]
  omega

/-- There is one record for each offset. -/
theorem length_segment (h : p.Sound index) (hfits : p.Fits) (hholds : p.Holds plan) :
    (p.segment plan).length = plan.size := by
  have holdest := hholds.oldest_le
  have hend := hholds.end_lt
  rw [firstAvailable_of_fits h hfits] at hend
  rw [segment_eq h hholds, List.length_take, List.length_drop, Plan.size]
  omega

theorem get?_of_segment (h : p.Sound index) (hfits : p.Fits) (hholds : p.Holds plan) {k : Nat}
    {raw : RawRecord} (hraw : (p.segment plan)[k]? = some raw) :
    raw.offset.toInt = plan.start.toInt + k ∧ p.get? raw.offset = some raw := by
  have holdest := hholds.oldest_le
  have hk := (List.getElem?_eq_some_iff.mp hraw).1
  rw [length_segment h hfits hholds] at hk
  rw [segment_eq h hholds, List.getElem?_take_of_lt hk, List.getElem?_drop] at hraw
  have hoffset := offset_of_getElem? h hraw
  have hmem := List.mem_of_getElem? hraw
  refine ⟨by omega, (get?_eq_some_iff h (mem_bounds h hmem).1).mpr ⟨hmem, rfl⟩⟩

theorem mem_segment {k : Nat} {raw : RawRecord} (hraw : (p.segment plan)[k]? = some raw) :
    raw ∈ p.records := (List.mem_filter.mp (List.mem_of_getElem? hraw)).1

end PartitionLog

namespace LogCursor

variable {index : PartitionId} {p : PartitionLog} {plan : Plan} {log : Log} {c : LogCursor}

theorem pull_of_fault (hopen : c.closed = false) (hfault : c.failAfter = some c.delivered) :
    c.pull log = (.failed (LogFault.stream c.target).failure, c.close) := by
  simp [pull, hopen, hfault, close]

theorem pull_of_segment (h : p.Sound index) (hfits : p.Fits) (hholds : p.Holds plan)
    (hp : log.partition c.target = .ok p) (hopen : c.closed = false)
    (hsound : c.failAfter ≠ some c.delivered) {k : Nat} {raw : RawRecord}
    (hposition : c.position.toInt = plan.start.toInt + k)
    (hraw : (p.segment plan)[k]? = some raw) :
    c.pull log = (.record raw,
      { c with position := c.position + 1, delivered := c.delivered + 1 }) := by
  obtain ⟨hoffset, hget⟩ := PartitionLog.get?_of_segment h hfits hholds hraw
  have heq : raw.offset = c.position := Int64.toInt_inj.mp (hoffset.trans hposition.symm)
  have hresume : c.resume p.oldest = c := by
    have holdest := hholds.oldest_le
    have hlt : ¬ c.position < p.oldest := by
      rw [Int64.lt_iff_toInt_lt]
      omega
    simp [resume, hlt]
  have hlast := (PartitionLog.mem_range h hfits (PartitionLog.mem_segment hraw)).2
  have hnext := Offset.checkedAdd_one hlast
  rw [heq] at hget hnext
  simp [pull, hopen, hsound, hp, hresume, hget, hnext]

end LogCursor

namespace Log

/-- The log when some partitions have been told to fail, and nothing else has changed. -/
def failing (log : Log) (openings : List TopicPartition) (streams : List (TopicPartition × Nat)) :
    Log :=
  { log with faults := { openings, streams } }

end Log
end TopicView
