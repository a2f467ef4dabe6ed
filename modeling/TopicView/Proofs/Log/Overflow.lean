import TopicView.Proofs.Log.Operation

/-!
# Logs in range

A log is in range as long as no partition has run out of offsets, and only an append that crashes
takes it out.  Pulling is checked: a checked pull does the same as the other, except that it comes
to nothing where a difference, a sum or a count is not a word.  On a log in range the two agree.
-/

namespace TopicView

/-- A count as a machine has it. -/
def checkedCount (n : Nat) : Option Nat := if n < 2 ^ 64 then some n else none

theorem checkedCount_eq {n : Nat} (h : n < 2 ^ 64) : checkedCount n = some n := if_pos h

/-! ## Logs -/

namespace Log

variable {log log' : Log} {target : TopicPartition} {p q : PartitionLog}

/-- The partitions are sound, and the offsets of none have run out. -/
structure InRange (log : Log) : Prop where
  sound : log.Sound
  fits : ∀ target p, log.partition target = .ok p → p.Fits

theorem inRange_empty : InRange {} := by
  constructor
  · intro target p hp
    cases hp
  · intro target p hp
    cases hp

theorem InRange.setPartition (h : log.InRange) (hp : log.partition target = .ok p)
    (hsound : q.Sound target.partition) (hfits : q.Fits) :
    (log.setPartition target q).InRange := by
  refine ⟨h.sound.setPartition hp hsound, fun t a ha ↦ ?_⟩
  rw [partition_setPartition hp] at ha
  split at ha
  · obtain rfl := Except.ok.inj ha
    exact hfits
  · exact h.fits t a ha

theorem InRange.createTopic (h : log.InRange) {topic : String} {count : PartitionId}
    (done : log.createTopic topic count = .ok log') : log'.InRange := by
  refine ⟨h.sound.createTopic done, fun t p hp ↦ ?_⟩
  rcases InUse.partition_createTopic done t with ⟨-, hsame⟩ | ⟨-, -, hempty⟩
  · exact h.fits t p (hsame ▸ hp)
  · rw [hempty p hp]
    exact PartitionLog.fits_of_records_eq_nil rfl

theorem InRange.startAt (h : log.InRange) {offset : Offset}
    (done : log.startAt target offset = .ok log') : log'.InRange := by
  obtain ⟨p, hp, hempty, hoffset, rfl⟩ := startAt_ok done
  have hsound := (h.sound target p hp).startAt hempty hoffset
  exact h.setPartition hp hsound (PartitionLog.fits_of_records_eq_nil hempty)

/-- An append to a log in range leaves room for the next offset, or it crashes. -/
theorem InRange.append_cases (h : log.InRange) (hp : log.partition target = .ok p)
    (entry : Entry) :
    p.oldest.toInt + p.records.length + 1 < 2 ^ 63 ∧ log.append target entry =
      (.ok p.firstAvailable, log.setPartition target (p.append (entry.recordOf target p))) ∧
      (log.setPartition target (p.append (entry.recordOf target p))).InRange ∨
    ¬ p.oldest.toInt + p.records.length + 1 < 2 ^ 63 ∧ (log.append target entry).1 = .crash := by
  have hfits := h.fits target p hp
  rcases Log.append_cases h.sound target entry with ⟨fault, hnone, -⟩ | ⟨p', hp', hfull, -⟩ |
    ⟨p', hp', -, heq⟩
  · cases hp.symm.trans hnone
  · obtain rfl := Except.ok.inj (hp.symm.trans hp')
    exact (hfull hfits).elim
  · obtain rfl := Except.ok.inj (hp.symm.trans hp')
    by_cases hroom : (p.append (entry.recordOf target p)).Fits
    · have hsound : (p.append (entry.recordOf target p)).Sound target.partition :=
        (h.sound target p hp).append hfits rfl rfl
      rw [heq, if_pos hroom]
      exact Or.inl ⟨PartitionLog.fits_append_iff.mp hroom, rfl, h.setPartition hp hsound hroom⟩
    · rw [heq, if_neg hroom]
      exact Or.inr ⟨mt PartitionLog.fits_append_iff.mpr hroom, rfl⟩

theorem InRange.offsets_ne_crash (h : log.InRange) (target : TopicPartition) :
    log.offsets target ≠ .crash := by
  unfold offsets
  split
  · nofun
  · cases hp : log.partition target with
    | error fault => nofun
    | ok p =>
        have hnonneg := (h.sound target p hp).oldest_nonneg
        simp [PartitionLog.firstAvailable?_eq hnonneg (h.fits target p hp)]

end Log

/-! ## Cursors -/

namespace PartitionLog

variable {p : PartitionLog} {offset : Offset}

def checkedGet (p : PartitionLog) (offset : Offset) : Option (Option RawRecord) := do
  let n ← Offset.checkedSub offset p.oldest
  let index? := if n < 0 then none else some n.toInt.toNat
  return index?.bind (p.records[·]?)

theorem checkedGet_eq (hnonneg : 0 ≤ p.oldest.toInt) (hle : p.oldest ≤ offset) :
    p.checkedGet offset = some (p.get? offset) := by
  have hle' := Int64.le_iff_toInt_le.mp hle
  have hbound := offset.toInt_lt
  have hdiff : (offset - p.oldest).toInt = offset.toInt - p.oldest.toInt :=
    Offset.toInt_sub_of_lt (by omega) (by omega)
  have hsub : Offset.checkedSub offset p.oldest = some (offset - p.oldest) :=
    Offset.checkedSub_eq_some_iff.mpr hdiff
  have hpos : ¬ offset - p.oldest < 0 := by
    rw [Int64.lt_iff_toInt_lt, hdiff, Int64.toInt_zero]
    omega
  rw [checkedGet, hsub, get?_of_le hle, ← hdiff]
  change some ((if offset - p.oldest < 0 then none else _).bind _) = _
  rw [if_neg hpos]
  rfl

end PartitionLog

namespace LogCursor

variable {log : Log} {c : LogCursor} {p : PartitionLog}

def checkedPull (log : Log) (c : LogCursor) : Option (Pull × LogCursor) :=
  if c.closed then some (.ended, c)
  else if c.failAfter = some c.delivered then
    some (.failed (LogFault.stream c.target).failure, { c with closed := true })
  else
    match log.partition c.target with
    | .error fault => some (.failed fault.failure, c)
    | .ok p => do
      let c := c.resume p.oldest
      match ← p.checkedGet c.position with
      | some raw =>
        let position ← Offset.checkedAdd c.position 1
        let delivered ← checkedCount (c.delivered + 1)
        return (.record raw, { c with position, delivered })
      | none => return (if c.follow then .waiting else .ended, c)

/-- Every record has taken the cursor one offset further. -/
def Counts (c : LogCursor) : Prop := c.delivered ≤ max 0 c.position.toInt

/-- What a cursor yields lies below the end, so there is an offset after it. -/
theorem position_lt_firstAvailable {index : PartitionId} (h : p.Sound index) (hfits : p.Fits)
    {raw : RawRecord} (hget : p.get? (c.resume p.oldest).position = some raw) :
    (c.resume p.oldest).position < p.firstAvailable := by
  obtain ⟨-, -, holdest, -⟩ := c.resume_cases p.oldest
  obtain ⟨hmem, hoffset⟩ := (PartitionLog.get?_eq_some_iff h holdest).mp hget
  exact hoffset ▸ (PartitionLog.mem_range h hfits hmem).2

theorem Counts.resume (hc : c.Counts) {oldest : Offset} (hnonneg : 0 ≤ oldest.toInt) :
    (c.resume oldest).delivered = c.delivered ∧
      (c.delivered : Int) ≤ (c.resume oldest).position.toInt := by
  obtain ⟨hresume, hle, holdest, -⟩ := c.resume_cases oldest
  rw [Int64.le_iff_toInt_le] at hle holdest
  unfold Counts at hc
  refine ⟨by rw [hresume], by omega⟩

theorem checkedPull_eq (h : log.InRange) (hc : c.Counts) :
    c.checkedPull log = some (c.pull log) := by
  unfold checkedPull pull
  split
  · rfl
  · split
    · rfl
    · cases hp : log.partition c.target with
      | error fault => rfl
      | ok p =>
          have hp' := h.sound _ p hp
          obtain ⟨-, -, holdest, -⟩ := c.resume_cases p.oldest
          obtain ⟨hdelivered, hposition⟩ := hc.resume hp'.oldest_nonneg
          dsimp only
          rw [PartitionLog.checkedGet_eq hp'.oldest_nonneg holdest]
          cases hget : p.get? (c.resume p.oldest).position with
          | none => rfl
          | some raw =>
              have hlast := position_lt_firstAvailable hp' (h.fits _ p hp) hget
              have hnext := Offset.checkedAdd_one hlast
              have hsucc := Offset.toInt_add_one hlast
              have hbound := ((c.resume p.oldest).position + 1).toInt_lt
              have hcount : checkedCount ((c.resume p.oldest).delivered + 1) =
                  some ((c.resume p.oldest).delivered + 1) :=
                checkedCount_eq (by omega)
              simp [hnext, hcount]

/-- A pull that passes its checks does not crash. -/
theorem ne_crashed_of_checkedPull (h : c.checkedPull log = some (c.pull log)) :
    (c.pull log).1 ≠ .crashed := by
  rw [ne_eq]
  generalize c.pull log = result at h ⊢
  unfold checkedPull at h
  split at h
  · obtain rfl := Option.some.inj h
    nofun
  · split at h
    · obtain rfl := Option.some.inj h
      nofun
    · split at h
      · obtain rfl := Option.some.inj h
        nofun
      · obtain ⟨found, -, h⟩ := Option.bind_eq_some_iff.mp h
        cases found with
        | some raw =>
            obtain ⟨position, -, h⟩ := Option.bind_eq_some_iff.mp h
            obtain ⟨delivered, -, h⟩ := Option.bind_eq_some_iff.mp h
            obtain rfl := Option.some.inj h
            nofun
        | none =>
            obtain rfl := Option.some.inj h
            dsimp only
            split <;> nofun

theorem Counts.pull (hc : c.Counts) (h : log.InRange) : (c.pull log).2.Counts := by
  unfold LogCursor.pull
  split
  · exact hc
  · split
    · exact hc
    · cases hp : log.partition c.target with
      | error fault => exact hc
      | ok p =>
          have hp' := h.sound _ p hp
          obtain ⟨hdelivered, hposition⟩ := hc.resume hp'.oldest_nonneg
          dsimp only
          cases hget : p.get? (c.resume p.oldest).position with
          | none =>
              simp only [Counts, hdelivered]
              omega
          | some raw =>
              have hlast := position_lt_firstAvailable hp' (h.fits _ p hp) hget
              simp only [Offset.checkedAdd_one hlast, Counts, hdelivered,
                Offset.toInt_add_one hlast]
              omega

end LogCursor
end TopicView
