import TopicView.Log.Cursor
import TopicView.Proofs.Log.Partition

/-!
# What a cursor yields

A cursor on a sound partition yields the first record from its position on, and passes over an
offset only below the retained range.  It crashes at a record that has taken the last offset.
-/

namespace TopicView

/-! ## The records from an offset on -/

namespace PartitionLog

variable {index : PartitionId} {p : PartitionLog}

def recordsFrom (p : PartitionLog) (offset : Offset) : List RawRecord :=
  p.records.filter (offset ≤ ·.offset)

theorem mem_recordsFrom {offset : Offset} {raw : RawRecord} :
    raw ∈ p.recordsFrom offset ↔ raw ∈ p.records ∧ offset ≤ raw.offset := by
  simp [recordsFrom]

theorem filter_le_eq_drop {l : List RawRecord} {base : Int} {offset : Offset}
    (h : ∀ (i : Nat) raw, l[i]? = some raw → raw.offset.toInt = base + i) :
    l.filter (offset ≤ ·.offset) = l.drop (offset.toInt - base).toNat := by
  induction l generalizing base with
  | nil => simp
  | cons raw rest ih =>
      have hraw : raw.offset.toInt = base := by simpa using h 0 raw rfl
      have hrest := @ih (base + 1) fun i a ha ↦ by
        have := h (i + 1) a ha
        omega
      by_cases hle : offset ≤ raw.offset
      · have hle' := Int64.le_iff_toInt_le.mp hle
        have hzero : (offset.toInt - base).toNat = 0 := by omega
        have hzero' : (offset.toInt - (base + 1)).toNat = 0 := by omega
        rw [hzero'] at hrest
        rw [hzero, List.filter_cons_of_pos (by simpa using hle), hrest]
        rfl
      · have hlt : ¬ offset.toInt ≤ raw.offset.toInt := fun hle' ↦
          hle (Int64.le_iff_toInt_le.mpr hle')
        have hsucc : (offset.toInt - base).toNat = (offset.toInt - (base + 1)).toNat + 1 := by omega
        rw [hsucc, List.filter_cons_of_neg (by simpa using hle), hrest, List.drop_succ_cons]

theorem recordsFrom_eq_drop (h : p.Sound index) (offset : Offset) :
    p.recordsFrom offset = p.records.drop (offset.toInt - p.oldest.toInt).toNat :=
  filter_le_eq_drop fun _ _ ↦ offset_of_getElem? h

/-- Offsets below the retained range make no difference. -/
theorem recordsFrom_congr (h : p.Sound index) {a b : Offset} (hab : a ≤ b)
    (hgone : ∀ o, a ≤ o → o < b → o < p.oldest) : p.recordsFrom a = p.recordsFrom b := by
  refine List.filter_congr fun raw hraw ↦ ?_
  have hretained := (mem_bounds h hraw).1
  by_cases hle : b ≤ raw.offset
  · simp [hle, Std.le_trans hab hle]
  · have hnot : ¬ a ≤ raw.offset := fun ha ↦
      Std.not_lt.mpr hretained (hgone raw.offset ha (Std.not_le.mp hle))
    simp [hle, hnot]

theorem recordsFrom_of_mem (h : p.Sound index) {raw : RawRecord} (hraw : raw ∈ p.records)
    {next : Offset} (hnext : next.toInt = raw.offset.toInt + 1) :
    p.recordsFrom raw.offset = raw :: p.recordsFrom next := by
  obtain ⟨i, hi⟩ := List.getElem?_of_mem hraw
  have hoffset := offset_of_getElem? h hi
  have hlength := (List.getElem?_eq_some_iff.mp hi).1
  rw [recordsFrom_eq_drop h, recordsFrom_eq_drop h, hnext,
    show (raw.offset.toInt - p.oldest.toInt).toNat = i by omega,
    show (raw.offset.toInt + 1 - p.oldest.toInt).toNat = i + 1 by omega,
    List.drop_eq_getElem_cons hlength, (List.getElem?_eq_some_iff.mp hi).2]

theorem recordsFrom_eq_nil (h : p.Sound index) (hfits : p.Fits) {offset : Offset}
    (hend : p.firstAvailable ≤ offset) : p.recordsFrom offset = [] := by
  refine List.filter_eq_nil_iff.mpr fun raw hraw ↦ ?_
  have hlt := Std.lt_of_lt_of_le (mem_range h hfits hraw).2 hend
  simpa using hlt

end PartitionLog

/-! ## Pulling -/

namespace LogCursor

/-- The cursor is open on a partition and is not going to fail. -/
structure Reads (c : LogCursor) (target : TopicPartition) (follow : Bool) : Prop where
  target_eq : c.target = target
  follow_eq : c.follow = follow
  isOpen : c.closed = false
  sturdy : c.failAfter = none

variable {log : Log} {target : TopicPartition} {follow : Bool} {p : PartitionLog}
  {index : PartitionId} {c : LogCursor}

theorem resume_cases (c : LogCursor) (oldest : Offset) :
    c.resume oldest = { c with position := (c.resume oldest).position } ∧
      c.position ≤ (c.resume oldest).position ∧ oldest ≤ (c.resume oldest).position ∧
      ∀ o, c.position ≤ o → o < (c.resume oldest).position → o < oldest := by
  unfold resume
  split
  · next hlt => exact ⟨rfl, Std.le_of_lt hlt, Std.le_refl oldest, fun o _ ho ↦ ho⟩
  · next hge =>
      exact ⟨rfl, Std.le_refl c.position, Std.not_lt.mp hge, fun o hle hlt ↦
        absurd hlt (Std.not_lt.mpr hle)⟩

/-- What a pull comes to. -/
inductive Pulls (log : Log) (c : LogCursor) : Pull → LogCursor → Prop
  | closed : Pulls log c .ended c
  | due : Pulls log c (.failed (LogFault.stream c.target).failure) { c with closed := true }
  | lost (fault : LogFault) : Pulls log c (.failed fault.failure) c
  | record {p : PartitionLog} {raw : RawRecord} {d : LogCursor}
      (found : log.partition c.target = .ok p)
      (retained : p.get? (c.resume p.oldest).position = some raw)
      (next : d.position.toInt = (c.resume p.oldest).position.toInt + 1)
      (target_eq : d.target = c.target) (delivered_eq : d.delivered = c.delivered + 1) :
      Pulls log c (.record raw) d
  | crashed {p : PartitionLog} (found : log.partition c.target = .ok p) :
      Pulls log c .crashed (c.resume p.oldest)
  | ended {p : PartitionLog} (found : log.partition c.target = .ok p) :
      Pulls log c .ended (c.resume p.oldest)
  | waiting {p : PartitionLog} {d : LogCursor} (isOpen : c.closed = false)
      (sturdy : c.failAfter ≠ some c.delivered) (following : c.follow = true)
      (found : log.partition c.target = .ok p) (resumed : d = c.resume p.oldest)
      (none : p.get? d.position = none) : Pulls log c .waiting d

theorem pulls_pull (log : Log) (c : LogCursor) : Pulls log c (c.pull log).1 (c.pull log).2 := by
  unfold pull
  by_cases hclosed : c.closed = true
  · rw [if_pos hclosed]
    exact .closed
  · rw [if_neg hclosed]
    by_cases hdue : c.failAfter = some c.delivered
    · rw [if_pos hdue]
      exact .due
    · rw [if_neg hdue]
      cases hp : log.partition c.target with
      | error fault => exact .lost fault
      | ok p =>
          have hresume := (c.resume_cases p.oldest).1
          have htarget : (c.resume p.oldest).target = c.target := by rw [hresume]
          have hdelivered : (c.resume p.oldest).delivered = c.delivered := by rw [hresume]
          have hfollow : (c.resume p.oldest).follow = c.follow := by rw [hresume]
          dsimp only
          cases hget : p.get? (c.resume p.oldest).position with
          | none =>
              dsimp only
              cases hfollows : c.follow with
              | true =>
                  rw [if_pos (hfollow.trans hfollows)]
                  exact .waiting (Bool.eq_false_iff.mpr hclosed) hdue hfollows hp rfl hget
              | false =>
                  rw [if_neg (by simp [hfollow, hfollows])]
                  exact .ended hp
          | some raw =>
              cases hnext : (c.resume p.oldest).position.checkedAdd 1 with
              | none => exact .crashed hp
              | some position =>
                  exact .record hp hget (Offset.checkedAdd_eq_some_iff.mp hnext) htarget
                    (congrArg (· + 1) hdelivered)

theorem pulls_of_pull {c' : LogCursor} {answer : Pull} (h : c.pull log = (answer, c')) :
    Pulls log c answer c' := by
  have hpulls := pulls_pull log c
  rwa [h] at hpulls

theorem Reads.resume (hc : c.Reads target follow) (oldest : Offset) :
    (c.resume oldest).Reads target follow := by
  obtain ⟨htarget, hfollow, hopen, hsturdy⟩ := hc
  rw [(c.resume_cases oldest).1]
  exact ⟨htarget, hfollow, hopen, hsturdy⟩

/-- A pull looks at the position, or at the start of the retained range if it is below that. -/
theorem pull_eq (hc : c.Reads target follow) (hp : log.partition target = .ok p) :
    (∃ raw c', c.pull log = (.record raw, c') ∧ c'.Reads target follow ∧
      p.get? (c.resume p.oldest).position = some raw ∧
      c'.position.toInt = (c.resume p.oldest).position.toInt + 1) ∨
    (∃ raw, c.pull log = (.crashed, c.resume p.oldest) ∧
      p.get? (c.resume p.oldest).position = some raw ∧
      ¬ (c.resume p.oldest).position.toInt + 1 < 2 ^ 63) ∨
    c.pull log = (if follow then .waiting else .ended, c.resume p.oldest) ∧
      p.get? (c.resume p.oldest).position = none := by
  have hresumed := hc.resume p.oldest
  obtain ⟨htarget, hfollow, hopen, hsturdy⟩ := hc
  cases hget : p.get? (c.resume p.oldest).position with
  | some raw =>
      cases hnext : (c.resume p.oldest).position.checkedAdd 1 with
      | some position =>
          have hpull : c.pull log = (.record raw,
              { c.resume p.oldest with
                position, delivered := (c.resume p.oldest).delivered + 1 }) := by
            simp [pull, hopen, hsturdy, htarget, hp, hget, hnext]
          refine Or.inl ⟨raw, _, hpull, ?_, rfl, Offset.checkedAdd_eq_some_iff.mp hnext⟩
          exact ⟨hresumed.target_eq, hresumed.follow_eq, hresumed.isOpen, hresumed.sturdy⟩
      | none =>
          have hpull : c.pull log = (.crashed, c.resume p.oldest) := by
            simp [pull, hopen, hsturdy, htarget, hp, hget, hnext]
          have hone := Int64.toInt_one
          have hlow := (c.resume p.oldest).position.le_toInt
          have hbeyond := Offset.ofInt?_eq_none_iff.mp hnext
          exact Or.inr (Or.inl ⟨raw, hpull, rfl, by omega⟩)
  | none =>
      have hpull : c.pull log = (if follow then .waiting else .ended, c.resume p.oldest) := by
        simp [pull, hopen, hsturdy, htarget, hp, hget, hresumed.follow_eq]
      exact Or.inr (Or.inr ⟨hpull, rfl⟩)

/-- A pull yields the first retained record from the position on; where there is none, the position
is at the end of the partition.  A record at the last offset is not yielded. -/
theorem pull_of_sound (h : p.Sound index) (hc : c.Reads target follow)
    (hp : log.partition target = .ok p) :
    (∃ raw c', c.pull log = (.record raw, c') ∧ c'.Reads target follow ∧ raw ∈ p.records ∧
      c.position ≤ raw.offset ∧ (∀ o, c.position ≤ o → o < raw.offset → o < p.oldest) ∧
      c'.position.toInt = raw.offset.toInt + 1) ∨
    (∃ c', c.pull log = (.crashed, c') ∧ ¬ p.Fits) ∨
    ∃ c', c.pull log = (if follow then .waiting else .ended, c') ∧ c'.Reads target follow ∧
      p.oldest.toInt + p.records.length ≤ c'.position.toInt ∧ c.position ≤ c'.position ∧
      ∀ o, c.position ≤ o → o < c'.position → o < p.oldest := by
  obtain ⟨-, hposition, holdest, hgone⟩ := c.resume_cases p.oldest
  rcases pull_eq hc hp with ⟨raw, c', hpull, hc', hget, hnext⟩ | ⟨raw, hpull, hget, hlast⟩ |
    ⟨hpull, hget⟩
  · obtain ⟨hmem, hoffset⟩ := (PartitionLog.get?_eq_some_iff h holdest).mp hget
    refine Or.inl ⟨raw, c', hpull, hc', hmem, ?_⟩
    rw [hoffset]
    exact ⟨hposition, hgone, hnext⟩
  · obtain ⟨hmem, hoffset⟩ := (PartitionLog.get?_eq_some_iff h holdest).mp hget
    have hbelow := (PartitionLog.mem_bounds h hmem).2
    refine Or.inr (Or.inl ⟨_, hpull, fun hfits ↦ hlast ?_⟩)
    unfold PartitionLog.Fits at hfits
    rw [← hoffset]
    omega
  · have hend := (PartitionLog.get?_eq_none_iff holdest).mp hget
    exact Or.inr (Or.inr ⟨_, hpull, hc.resume p.oldest, hend, hposition, hgone⟩)

theorem pull_cases (h : p.Sound index) (hfits : p.Fits) (hc : c.Reads target follow)
    (hp : log.partition target = .ok p) :
    (∃ raw c', c.pull log = (.record raw, c') ∧ c'.Reads target follow ∧ raw ∈ p.records ∧
      c.position ≤ raw.offset ∧ (∀ o, c.position ≤ o → o < raw.offset → o < p.oldest) ∧
      c'.position.toInt = raw.offset.toInt + 1) ∨
    ∃ c', c.pull log = (if follow then .waiting else .ended, c') ∧ c'.Reads target follow ∧
      p.firstAvailable ≤ c'.position ∧ c.position ≤ c'.position ∧
      ∀ o, c.position ≤ o → o < c'.position → o < p.oldest := by
  rcases pull_of_sound h hc hp with hyields | ⟨-, -, hfull⟩ | ⟨c', hpull, hc', hend, hpassed⟩
  · exact Or.inl hyields
  · exact (hfull hfits).elim
  · refine Or.inr ⟨c', hpull, hc', ?_, hpassed⟩
    rw [Int64.le_iff_toInt_le, PartitionLog.firstAvailable_of_fits h hfits]
    exact hend

theorem recordsFrom_of_pull (h : p.Sound index) (hfits : p.Fits) (hc : c.Reads target follow)
    (hp : log.partition target = .ok p) :
    (∃ raw c', c.pull log = (.record raw, c') ∧ c'.Reads target follow ∧ raw ∈ p.records ∧
      p.recordsFrom c.position = raw :: p.recordsFrom c'.position) ∨
    ∃ c', c.pull log = (if follow then .waiting else .ended, c') ∧ c'.Reads target follow ∧
      p.recordsFrom c.position = [] ∧ p.recordsFrom c'.position = [] := by
  rcases pull_cases h hfits hc hp with
    ⟨raw, c', hpull, hc', hmem, hle, hgone, hposition⟩ | ⟨c', hpull, hc', hend, hle, hgone⟩
  · refine Or.inl ⟨raw, c', hpull, hc', hmem, ?_⟩
    rw [PartitionLog.recordsFrom_congr h hle hgone,
      PartitionLog.recordsFrom_of_mem h hmem hposition]
  · have hnil := PartitionLog.recordsFrom_eq_nil h hfits hend
    refine Or.inr ⟨c', hpull, hc', ?_, hnil⟩
    rw [PartitionLog.recordsFrom_congr h hle hgone, hnil]

/-- A cursor after some pulls in a row. -/
def afterPulls (log : Log) (c : LogCursor) : Nat → LogCursor
  | 0 => c
  | n + 1 => ((c.afterPulls log n).pull log).2

end LogCursor

namespace Log

variable {log : Log} {target : TopicPartition} {p : PartitionLog}

theorem pull_of_client {c c' : LogCursor} {answer : Pull} {next : Log}
    (h : client.pull log c = (answer, c', next)) : c.pull log = (answer, c') ∧ next = log := by
  obtain ⟨hanswer, hrest⟩ := Prod.mk.inj h
  obtain ⟨hcursor, hnext⟩ := Prod.mk.inj hrest
  exact ⟨Prod.ext hanswer hcursor, hnext.symm⟩

theorem target_pull (c : LogCursor) (log : Log) : (c.pull log).2.target = c.target := by
  have hresume (oldest : Offset) : (c.resume oldest).target = c.target := by
    rw [(c.resume_cases oldest).1]
  rcases hpull : c.pull log with ⟨answer, d⟩
  cases LogCursor.pulls_of_pull hpull with
  | closed => rfl
  | due => rfl
  | lost => rfl
  | record found retained next target_eq delivered_eq => exact target_eq
  | crashed found => exact hresume _
  | ended found => exact hresume _
  | waiting isOpen sturdy following found resumed none =>
      rw [resumed]
      exact hresume _

theorem openCursor_of_client {start : Offset} {follow : Bool} {c : LogCursor} {next : Log}
    (h : client.openCursor log target start follow = (.opened c, next)) :
    log.openCursor target start follow = .ok c := by
  simp only [client] at h
  split at h
  · next d hopen =>
      obtain rfl := Opening.opened.inj (Prod.mk.inj h).1
      exact hopen
  · cases (Prod.mk.inj h).1

theorem openCursor_ok {start : Offset} {follow : Bool} {c : LogCursor}
    (h : log.openCursor target start follow = .ok c) :
    c = ⟨target, start, follow, log.faults.streams.lookup target, 0, false⟩ := by
  unfold openCursor at h
  split at h
  · cases h
  · cases hp : log.partition target with
    | error fault => simp [hp, bind, Except.bind] at h
    | ok p =>
        obtain rfl := by simpa [hp, bind, Except.bind, pure, Except.pure] using h
        rfl

/-- A cursor is opened unless that has been told to fail, and is told when to fail itself. -/
theorem openCursor_cases (hp : log.partition target = .ok p) (start : Offset) (follow : Bool) :
    target ∈ log.faults.openings ∧ client.openCursor log target start follow =
      (.failed (LogFault.opening target).failure, log) ∨
    target ∉ log.faults.openings ∧ client.openCursor log target start follow =
      (.opened ⟨target, start, follow, log.faults.streams.lookup target, 0, false⟩, log) := by
  by_cases hfault : target ∈ log.faults.openings
  · refine Or.inl ⟨hfault, ?_⟩
    simp [client, openCursor, hfault, bind, Except.bind, throw, throwThe, MonadExceptOf.throw]
  · refine Or.inr ⟨hfault, ?_⟩
    simp [client, openCursor, hfault, hp, bind, Except.bind, pure, Except.pure]

theorem openCursor_eq (hfaults : log.faults = {}) (hp : log.partition target = .ok p)
    (start : Offset) (follow : Bool) :
    client.openCursor log target start follow =
      (.opened ⟨target, start, follow, none, 0, false⟩, log) := by
  rcases openCursor_cases hp start follow with ⟨hfault, -⟩ | ⟨-, heq⟩
  · simp [hfaults] at hfault
  · simpa [hfaults] using heq

end Log
end TopicView
