import TopicView.Proofs.Log.Cursor
import TopicView.Proofs.Read.Event
import TopicView.Proofs.Read.Progress

/-!
# Draining a read

A drain lets the workers run as far as they come, takes an event, and so on.  It is one of the
courses of the read: a sweep consists of turns of the workers and of the collecting of their
reports, and an event is taken from one of the two queues.  Every move uses up something of what the
log has left for the read, so neither the sweeps nor the events run out before the drain is at its
end.
-/

namespace TopicView

namespace Log

variable {log : Log} {target : TopicPartition} {p : PartitionLog}

theorem le_foldr_length (partitions : List PartitionLog) (n : Nat) :
    n ≤ partitions.foldr (·.records.length + ·) n := by
  induction partitions with
  | nil => exact Nat.le_refl n
  | cons q partitions ih => exact ih.trans (Nat.le_add_left _ _)

theorem length_le_foldr {partitions : List PartitionLog} (h : p ∈ partitions) (n : Nat) :
    p.records.length ≤ partitions.foldr (·.records.length + ·) n := by
  induction partitions with
  | nil => cases h
  | cons q partitions ih =>
      obtain rfl | h := List.mem_cons.mp h
      · exact Nat.le_add_right _ _
      · exact (ih h).trans (Nat.le_add_left _ _)

theorem length_le_recordCount (hp : log.partition target = .ok p) :
    p.records.length ≤ log.recordCount := by
  obtain ⟨partitions, hlookup, -, hget⟩ := partition_eq_ok_iff.mp hp
  have hmem := Keyed.mem_of_lookup hlookup
  have hp := List.mem_of_getElem? hget
  unfold recordCount
  generalize log.topics = topics at hmem
  induction topics with
  | nil => cases hmem
  | cons topic topics ih =>
      rw [List.foldr_cons]
      obtain rfl | hmem := List.mem_cons.mp hmem
      · exact length_le_foldr hp _
      · exact (ih hmem).trans (le_foldr_length _ _)

end Log

namespace LogCursor

variable {log : Log} {p : PartitionLog} {c c' : LogCursor} {answer : Pull}

/-- How many records are before a cursor. -/
def recordsLeft (log : Log) (c : LogCursor) : Nat :=
  match log.partition c.target with
  | .error _ => 0
  | .ok p => p.records.length - (c.position.toInt - p.oldest.toInt).toNat

theorem recordsLeft_eq (hp : log.partition c.target = .ok p) :
    c.recordsLeft log = p.records.length - (c.position.toInt - p.oldest.toInt).toNat := by
  rw [recordsLeft, hp]

theorem recordsLeft_le (log : Log) (c : LogCursor) : c.recordsLeft log ≤ log.recordCount := by
  cases hp : log.partition c.target with
  | error fault => simp [recordsLeft, hp]
  | ok p =>
      rw [recordsLeft_eq hp]
      exact (Nat.sub_le _ _).trans (Log.length_le_recordCount hp)

theorem resume_resume (c : LogCursor) (oldest : Offset) :
    (c.resume oldest).resume oldest = c.resume oldest := by
  obtain ⟨-, -, holdest, -⟩ := c.resume_cases oldest
  exact if_neg (Std.not_lt.mpr holdest)

theorem recordsLeft_resume (hp : log.partition c.target = .ok p) :
    (c.resume p.oldest).recordsLeft log = c.recordsLeft log := by
  rw [recordsLeft_eq hp, recordsLeft_eq (by rwa [(c.resume_cases p.oldest).1])]
  unfold resume
  split
  · next hlt =>
      rw [Int64.lt_iff_toInt_lt] at hlt
      dsimp only
      omega
  · rfl

/-- A record that a pull brings is not before the cursor any more. -/
theorem recordsLeft_pull (h : c.pull log = (answer, c')) : c'.recordsLeft log ≤ c.recordsLeft log ∧
    ∀ raw, answer = .record raw → c'.recordsLeft log < c.recordsLeft log := by
  cases pulls_of_pull h with
  | closed => exact ⟨Nat.le_refl _, nofun⟩
  | due => exact ⟨Nat.le_refl _, nofun⟩
  | lost => exact ⟨Nat.le_refl _, nofun⟩
  | @record p raw d found retained next target_eq delivered_eq =>
      have hlt : c'.recordsLeft log < c.recordsLeft log := by
        obtain ⟨hresume, -, holdest, -⟩ := c.resume_cases p.oldest
        rw [PartitionLog.get?_of_le holdest] at retained
        have hlength := (List.getElem?_eq_some_iff.mp retained).1
        have hle := Int64.le_iff_toInt_le.mp holdest
        rw [← recordsLeft_resume found, recordsLeft_eq (p := p) (by rwa [target_eq]),
          recordsLeft_eq (p := p) (by rwa [hresume]), next]
        omega
      exact ⟨hlt.le, fun _ _ ↦ hlt⟩
  | crashed found => exact ⟨(recordsLeft_resume found).le, nofun⟩
  | ended found => exact ⟨(recordsLeft_resume found).le, nofun⟩
  | waiting isOpen sturdy following found resumed none =>
      rw [resumed]
      exact ⟨(recordsLeft_resume found).le, nofun⟩

/-- A pull that has to wait leaves the cursor where it waits again. -/
theorem pull_of_waiting (h : c.pull log = (.waiting, c')) : c'.pull log = (.waiting, c') := by
  cases pulls_of_pull h with
  | @waiting p d isOpen sturdy following found resumed none =>
      have hidle : c'.resume p.oldest = c' := by rw [resumed, resume_resume]
      have hsame : c' = { c with position := c'.position } := by
        rw [resumed]
        exact (c.resume_cases p.oldest).1
      have hopen : c'.closed = false := by rwa [hsame]
      have hdue : c'.failAfter ≠ some c'.delivered := by rwa [hsame]
      have hfollow : c'.follow = true := by rwa [hsame]
      have hp : log.partition c'.target = .ok p := by rwa [hsame]
      simp [pull, hopen, hdue, hp, hidle, none, hfollow]

end LogCursor

namespace Phase

variable {log : Log} {phase : Phase LogCursor} {c : LogCursor}

/-- How many records a worker may still pull. -/
def recordsLeft (log : Log) : Phase LogCursor → Nat
  | opening => log.recordCount
  | pulling c | reserving c _ | claiming c _ | sending c _ _ | announcing c | closing c _ =>
    c.recordsLeft log
  | finished _ | crashed => 0

/-- How many records a worker may still send and errors it may still report. -/
def eventsLeft (log : Log) : Phase LogCursor → Nat
  | opening => log.recordCount + 1
  | pulling c => c.recordsLeft log + 1
  | reserving c _ | claiming c _ | sending c _ false => c.recordsLeft log + 2
  | sending _ _ true => 1
  | announcing _ | closing _ _ | finished _ | crashed => 0

theorem recordsLeft_of_cursor (h : phase.cursor? = some c) :
    phase.recordsLeft log = c.recordsLeft log := by
  cases phase <;> cases h <;> rfl

theorem recordsLeft_le (log : Log) (phase : Phase LogCursor) :
    phase.recordsLeft log ≤ log.recordCount := by
  cases phase with
  | opening => exact Nat.le_refl _
  | finished | crashed => exact Nat.zero_le _
  | _ => exact LogCursor.recordsLeft_le log _

theorem eventsLeft_le (log : Log) (phase : Phase LogCursor) :
    phase.eventsLeft log ≤ log.recordCount + 2 := by
  cases phase with
  | opening => exact Nat.le_succ _
  | pulling c => exact Nat.le_succ_of_le (Nat.succ_le_succ (c.recordsLeft_le log))
  | reserving c | claiming c => exact Nat.add_le_add_right (c.recordsLeft_le log) 2
  | sending c parcel reachedLimit =>
      cases reachedLimit with
      | true => exact Nat.le_add_left 1 _
      | false => exact Nat.add_le_add_right (c.recordsLeft_le log) 2
  | _ => exact Nat.zero_le _

theorem actsAhead_le {κ : Type} (phase : Phase κ) : phase.actsAhead ≤ 5 := by
  cases phase <;> simp [actsAhead]

end Phase

namespace Worker

variable {log s' : Log} {job : Job} {sh sh' : Shared} {w w' : Worker LogCursor} {act : Option Act}

/-- A record that is pulled is not left any more. -/
theorem Step.recordsLeft_le (h : w.Step Log.client job log sh act s' sh' w') :
    w'.phase.recordsLeft log + (act.bind Act.raw?).toList.length ≤ w.phase.recordsLeft log := by
  cases h
  case opened cursor phase live answer =>
    rw [go, Phase.recordsLeft_of_cursor (cursor_afterOpening cursor), phase]
    exact LogCursor.recordsLeft_le log cursor
  case pulled cursor cursor' raw phase live answer =>
    rw [go, Phase.recordsLeft_of_cursor (cursor_examine job w cursor' raw), phase]
    exact (LogCursor.recordsLeft_pull (Log.pull_of_client answer).1).2 raw rfl
  case sent cursor parcel reachedLimit phase =>
    rw [Phase.recordsLeft_of_cursor (cursor_afterSending cursor parcel reachedLimit), phase]
    exact Nat.le_refl _
  case waited cursor cursor' phase live answer =>
    rw [phase]
    exact (LogCursor.recordsLeft_pull (Log.pull_of_client answer).1).1
  case ended cursor cursor' phase live answer =>
    rw [phase]
    exact (LogCursor.recordsLeft_pull (Log.pull_of_client answer).1).1
  case pullingFailed cursor cursor' f phase live answer =>
    rw [phase]
    exact (LogCursor.recordsLeft_pull (Log.pull_of_client answer).1).1
  case idle => exact Nat.le_refl _
  all_goals simp [*, go, Phase.recordsLeft, Act.raw?]

/-- What is sent or reported is not left any more. -/
theorem Step.eventsLeft_le (h : w.Step Log.client job log sh act s' sh' w') :
    w'.phase.eventsLeft log + (act.bind Act.record?).toList.length +
      (act.bind Act.failure?).toList.length ≤ w.phase.eventsLeft log := by
  cases h
  case opened cursor phase live answer =>
    have hleft := LogCursor.recordsLeft_le log cursor
    obtain ⟨-, h⟩ | ⟨-, h⟩ := afterOpening_cases w cursor <;>
      simp [phase, h, go, Phase.eventsLeft, Act.record?, Act.failure?, hleft]
  case waited cursor cursor' phase live answer =>
    have hleft := (LogCursor.recordsLeft_pull (Log.pull_of_client answer).1).1
    simpa [phase, go, Phase.eventsLeft] using hleft
  case pulled cursor cursor' raw phase live answer =>
    have hless := (LogCursor.recordsLeft_pull (Log.pull_of_client answer).1).2 raw rfl
    obtain ⟨-, h⟩ | ⟨-, -, h⟩ | ⟨-, -, h⟩ := examine_cases job w cursor' raw
    · simp [phase, h, go, Phase.eventsLeft, Act.record?, Act.failure?]
    · simp [phase, h, go, Phase.eventsLeft, Act.record?, Act.failure?]
      omega
    · obtain ⟨-, h'⟩ | ⟨-, h'⟩ := afterRecord_cases cursor' (w.plan.last = some raw.offset) <;>
        simp [phase, h, h', go, Phase.eventsLeft, Act.record?, Act.failure?, hless.le]
  case sent cursor parcel reachedLimit phase =>
    obtain ⟨rfl, h⟩ | ⟨rfl, -, h⟩ | ⟨rfl, -, h⟩ := afterSending_cases cursor parcel reachedLimit <;>
      simp [phase, h, Phase.eventsLeft, Act.record?, Act.failure?]
  case granted cursor parcel reachedLimit counter phase answer =>
    cases reachedLimit <;> simp [phase, go, Phase.eventsLeft, Act.record?, Act.failure?]
  case idle => exact Nat.le_refl _
  all_goals simp [*, go, Phase.eventsLeft, Act.record?, Act.failure?]

/-- A worker that has to wait will go on waiting. -/
theorem Step.act_eq_none (h : w.Step Log.client job log sh none s' sh' w')
    (hact : w.act? Log.client job log sh = none) :
    sh' = sh ∧ w'.act? Log.client job log sh = none := by
  cases h
  case idle => exact ⟨rfl, hact⟩
  case waited cursor cursor' phase live answer =>
    refine ⟨rfl, ?_⟩
    have hagain := LogCursor.pull_of_waiting (Log.pull_of_client answer).1
    simp [act?, go, live, Log.client, hagain]

end Worker

/-- Moves of the workers. -/
def Move.IsWork {δ : Type} : Move δ → Prop
  | turn _ | collect _ => True
  | takeRecord | takeError | cancel | hangUp | alter _ => False

theorem Move.IsWork.isInner {δ : Type} {m : Move δ} (h : m.IsWork) : m.IsInner := by
  cases m <;> trivial

namespace Stage

variable {δ : Type} {alter : δ → Log → Log} {log : Log} {job : Job} {x y z : Stage Log LogCursor}

/-- How many moves the workers may still make. -/
def actsLeft (log : Log) (x : Stage Log LogCursor) : Nat :=
  (x.read.workers.map fun w ↦ w.phase.actsAhead + 4 * w.phase.recordsLeft log).sum + x.uncollected

/-- How many events may still be given to the caller. -/
def eventsLeft (log : Log) (x : Stage Log LogCursor) : Nat :=
  (x.read.workers.map fun w ↦ w.phase.eventsLeft log).sum +
    x.read.shared.channel.queue.length + x.read.shared.errors.length

/-- What the workers do is taken off what is left, and gives the caller nothing. -/
structure Spends (log : Log) (x y : Stage Log LogCursor) : Prop where
  acts_le : y.history.length + y.actsLeft log ≤ x.history.length + x.actsLeft log
  events_le : y.eventsLeft log ≤ x.eventsLeft log
  events_eq : y.events = x.events

theorem Spends.refl (log : Log) (x : Stage Log LogCursor) : x.Spends log x :=
  ⟨Nat.le_refl _, Nat.le_refl _, rfl⟩

theorem Spends.trans (h : x.Spends log y) (h' : y.Spends log z) : x.Spends log z :=
  ⟨h'.acts_le.trans h.acts_le, h'.events_le.trans h.events_le, h'.events_eq.trans h.events_eq⟩

theorem spends_next {m : Move δ} (hm : x.Next Log.client alter m y) (hwork : m.IsWork)
    (hcalm : x.Calm log job) : x.Spends log y := by
  obtain ⟨rfl, -, -, hlistening⟩ := hcalm
  cases hm
  case unchanged => exact .refl _ _
  case worked i w w' act s sh hw hstep =>
    have hacts := sum_map_set_add (b := w')
      (f := fun v ↦ v.phase.actsAhead + 4 * v.phase.recordsLeft x.state) hw
    have hevents := sum_map_set_add (b := w') (f := fun v ↦ v.phase.eventsLeft x.state) hw
    have hpace := hstep.actsAhead_le
    have hrecords := hstep.recordsLeft_le
    have hgiven := hstep.eventsLeft_le
    refine ⟨?_, ?_, events_after⟩
    · have hhistory : (x.after i act s sh w').history.length =
          x.history.length + act.toList.length := by
        cases act <;> simp [Stage.after]
      simp only [actsLeft, hhistory, uncollected_after hw hstep.partition_eq]
      simp only [Stage.after]
      omega
    · have hqueue := hstep.queue_eq
      have herrors := hstep.errors_eq
      rw [if_pos hlistening] at hqueue herrors
      simp only [eventsLeft, Stage.after, hqueue, herrors, List.length_append]
      omega
  case collected i w report hw hreport hfresh =>
    have hlost := uncollected_lt report x.state
      (if report.outcome = .panicked then x.read.shared.cancel else x.read.shared) hw hfresh
    refine ⟨?_, ?_, by simp [Deed.event?]⟩
    · simp only [actsLeft, read_note, length_history_note] at hlost ⊢
      omega
    · simp [eventsLeft]
  all_goals exact hwork.elim

/-- Some work of the workers leads from one stage to the other. -/
def Works (x y : Stage Log LogCursor) : Prop :=
  ∃ moves : List (Move Empty), (∀ m ∈ moves, m.IsWork) ∧ x.play Log.client Empty.elim moves = y

theorem Works.refl (x : Stage Log LogCursor) : x.Works x := ⟨[], nofun, rfl⟩

theorem Works.trans (h : x.Works y) (h' : y.Works z) : x.Works z := by
  obtain ⟨moves, hwork, rfl⟩ := h
  obtain ⟨more, hmore, rfl⟩ := h'
  refine ⟨moves ++ more, fun m hm ↦ ?_, play_append ..⟩
  exact (List.mem_append.mp hm).elim (hwork m) (hmore m)

theorem works_turn (x : Stage Log LogCursor) (i : Nat) : x.Works (x.turn Log.client i) :=
  ⟨[.turn i], by simp [Move.IsWork], rfl⟩

theorem works_collect (x : Stage Log LogCursor) (i : Nat) : x.Works (x.collect i) :=
  ⟨[.collect i], by simp [Move.IsWork], rfl⟩

theorem length_history_le (alter : δ → Log → Log) (x : Stage Log LogCursor)
    (moves : List (Move δ)) :
    x.history.length ≤ (x.play Log.client alter moves).history.length := by
  refine play_keeps Log.client alter x (P := fun y ↦ x.history.length ≤ y.history.length)
    (Nat.le_refl _) moves fun y m _ hy ↦ hy.trans ?_
  have hnext : y.Next Log.client alter m (y.step Log.client alter m) := next_step alter m
  generalize y.step Log.client alter m = z at hnext
  cases hnext
  case unchanged => exact Nat.le_refl _
  case worked => simp [after]
  all_goals simp

theorem Works.length_le (h : x.Works y) : x.history.length ≤ y.history.length := by
  obtain ⟨moves, -, rfl⟩ := h
  exact length_history_le Empty.elim x moves

theorem Works.calm_and_spends (h : x.Works y) (hcalm : x.Calm log job) :
    y.Calm log job ∧ x.Spends log y := by
  obtain ⟨moves, hwork, rfl⟩ := h
  refine play_keeps Log.client Empty.elim x (P := fun y ↦ y.Calm log job ∧ x.Spends log y)
    ⟨hcalm, .refl log x⟩ moves fun y m hm hy ↦ ?_
  have hnext : y.Next Log.client Empty.elim m (y.step Log.client Empty.elim m) :=
    next_step Empty.elim m
  exact ⟨hy.1.next (hwork m hm).isInner hnext,
    hy.2.trans (spends_next hnext (hwork m hm) hy.1)⟩

/-- The worker has nothing to do in its turn. -/
def Waits (x : Stage Log LogCursor) (i : Nat) : Prop := (x.turn Log.client i).history = x.history

theorem waits_iff {i : Nat} : x.Waits i ↔ ∀ w, x.read.workers[i]? = some w →
    w.act? Log.client x.read.job x.state x.read.shared = none := by
  unfold Waits
  cases hw : x.read.workers[i]? with
  | none => simp [turn, hw]
  | some w => simp [turn_eq_after hw, after]

/-- A turn in which a worker has to wait lets nobody go on. -/
theorem Waits.turn {i j : Nat} (hcalm : x.Calm log job) (hi : x.Waits i) (hj : x.Waits j) :
    (x.turn Log.client i).Waits j := by
  obtain ⟨rfl, -, -, -⟩ := hcalm
  cases hw : x.read.workers[i]? with
  | none => simpa [Stage.turn, hw] using hj
  | some w =>
      have hact := waits_iff.mp hi w hw
      have hstep := Worker.step_turn Log.client x.read.job x.state x.read.shared w
      rw [hact] at hstep
      obtain ⟨hshared, hstill⟩ := hstep.act_eq_none hact
      rw [waits_iff, turn_eq_after hw]
      intro v hv
      simp only [after, hshared, hstep.log_eq] at hv ⊢
      rw [List.getElem?_set] at hv
      split at hv
      · split at hv
        · obtain rfl := Option.some.inj hv
          exact hstill
        · cases hv
      · exact waits_iff.mp hj v hv

/-! ## Runs -/

theorem turn_eq {i : Nat} {w : Worker LogCursor} (hw : x.read.workers[i]? = some w) :
    x.read.turn Log.client x.state i =
      ((w.act? Log.client x.read.job x.state x.read.shared).isSome,
        (x.turn Log.client i).state, (x.turn Log.client i).read) := by
  simp [Stage.turn, Read.turn, hw, Worker.moved_turn]

theorem collect_cases (x : Stage Log LogCursor) (i : Nat) :
    x.read.collect i = (false, x.read) ∨
      ∃ r, x.read.collect i = (true, r) ∧ x.collect i = x.note x.state r (.collected i) := by
  cases hw : x.read.workers[i]? with
  | none => simp [Read.collect, hw]
  | some w =>
      cases hreport : w.report? with
      | none => simp [Read.collect, hw, hreport]
      | some report =>
          cases hdone : (x.read.reports.lookup w.partition).isSome <;>
            simp [Read.collect, collect, hw, hreport, hdone]

/-- One step of a read is work, and has moved where the history shows it. -/
theorem exists_advance (hcalm : x.Calm log job) (i : Nat) : ∃ y, x.Works y ∧
    x.read.advance Log.client x.state i =
      (decide (x.history.length < y.history.length), y.state, y.read) ∧
    (¬ x.history.length < y.history.length → y.Waits i ∧ ∀ j, x.Waits j → y.Waits j) := by
  cases hw : x.read.workers[i]? with
  | none =>
      refine ⟨x, .refl x, ?_, fun _ ↦ ⟨?_, fun _ ↦ id⟩⟩
      · simp [Read.advance, Read.turn, Read.collect, hw]
      · exact waits_iff.mpr fun w hw' ↦ by cases hw.symm.trans hw'
  | some w =>
      have hturn := turn_eq hw
      cases hact : w.act? Log.client x.read.job x.state x.read.shared with
      | some act =>
          have hgrows : x.history.length < (x.turn Log.client i).history.length := by
            simp [turn_eq_after hw, after, hact]
          rw [hact] at hturn
          refine ⟨x.turn Log.client i, works_turn x i, ?_, fun h ↦ (h hgrows).elim⟩
          simp [Read.advance, hturn, hgrows]
      | none =>
          have hwaits : x.Waits i := waits_iff.mpr fun v hv ↦ by
            obtain rfl := Option.some.inj (hw.symm.trans hv)
            exact hact
          have hsame : (x.turn Log.client i).history = x.history := hwaits
          rw [hact] at hturn
          obtain hstays | ⟨r, hcollect, hnote⟩ := collect_cases (x.turn Log.client i) i
          · refine ⟨x.turn Log.client i, works_turn x i, ?_, fun _ ↦ ⟨?_, fun j hj ↦ ?_⟩⟩
            · simp [Read.advance, hturn, hstays, hsame]
            · exact hwaits.turn hcalm hwaits
            · exact hwaits.turn hcalm hj
          · have hgrows : x.history.length < ((x.turn Log.client i).collect i).history.length := by
              rw [hnote, length_history_note, hsame]
              exact Nat.lt_succ_self _
            refine ⟨(x.turn Log.client i).collect i,
              (works_turn x i).trans (works_collect _ i), ?_, fun h ↦ (h hgrows).elim⟩
            rw [decide_eq_true hgrows, hnote]
            simp [Read.advance, hturn, hcollect, note]

/-- The steps of a sweep, one worker after the other.  Where they have moved nothing, the workers
that have had their turn wait, and those that waited before still do. -/
theorem exists_foldl {g : Bool × Log × Read LogCursor → Nat → Bool × Log × Read LogCursor}
    (hg : ∀ moved s r i, g (moved, s, r) i =
      (moved || (Read.advance Log.client s r i).1, (Read.advance Log.client s r i).2))
    (order : List Nat) (moved : Bool) (hcalm : x.Calm log job) : ∃ y, x.Works y ∧
    order.foldl g (moved, x.state, x.read) =
      (moved || decide (x.history.length < y.history.length), y.state, y.read) ∧
    (¬ x.history.length < y.history.length → ∀ i, i ∈ order ∨ x.Waits i → y.Waits i) := by
  -- `g` stands for the step of `Read.sweep`, which takes its state apart by a pattern.
  induction order generalizing moved x with
  | nil => exact ⟨x, .refl x, by simp, fun _ i hi ↦ by simpa using hi⟩
  | cons i order ih =>
      obtain ⟨y, hy, hadvance, hwaits⟩ := exists_advance hcalm i
      obtain ⟨z, hz, hrest, hlater⟩ :=
        ih (moved || decide (x.history.length < y.history.length)) (hy.calm_and_spends hcalm).1
      have hxy := hy.length_le
      have hyz := hz.length_le
      refine ⟨z, hy.trans hz, ?_, fun hsame j hj ↦ hlater (by omega) j ?_⟩
      · have hmoved : (decide (x.history.length < y.history.length) ||
            decide (y.history.length < z.history.length)) =
              decide (x.history.length < z.history.length) := by
          rw [← Bool.decide_or, decide_eq_decide]
          omega
        rw [List.foldl_cons, hg, hadvance, hrest, Bool.or_assoc, hmoved]
      · obtain ⟨hhere, hothers⟩ := hwaits (by omega)
        obtain hj | hj := hj
        · exact (List.mem_cons.mp hj).elim (fun heq ↦ .inr (heq ▸ hhere)) .inl
        · exact .inr (hothers j hj)

/-- A sweep is work, and where it has moved nothing everybody waits. -/
theorem exists_sweep (hcalm : x.Calm log job) : ∃ y, x.Works y ∧
    x.read.sweep Log.client x.state =
      (decide (x.history.length < y.history.length), y.state, y.read) ∧
    (¬ x.history.length < y.history.length → ∀ i, y.Waits i) := by
  obtain ⟨y, hy, hsweep, hwaits⟩ : ∃ y, x.Works y ∧ x.read.sweep Log.client x.state =
      (false || decide (x.history.length < y.history.length), y.state, y.read) ∧
      (¬ x.history.length < y.history.length →
        ∀ i, i ∈ List.range x.read.workers.length ∨ x.Waits i → y.Waits i) :=
    exists_foldl (fun _ _ _ _ ↦ rfl) (List.range x.read.workers.length) false hcalm
  refine ⟨y, hy, hsweep, fun hsame i ↦ hwaits hsame i ?_⟩
  by_cases hi : i < x.read.workers.length
  · exact .inl (List.mem_range.mpr hi)
  · refine .inr (waits_iff.mpr fun w hw ↦ ?_)
    exact (hi (List.getElem?_eq_some_iff.mp hw).1).elim

/-- With fuel for all that is left, the workers run until each of them waits. -/
theorem exists_settle {fuel : Nat} (hcalm : x.Calm log job) (hfuel : x.actsLeft log < fuel) :
    ∃ y, x.Works y ∧ x.read.settle Log.client x.state fuel = (y.state, y.read) ∧
      ∀ i, y.Waits i := by
  -- A sweep that moves something makes the history longer, and so leaves less to be done.
  induction fuel generalizing x with
  | zero => exact (Nat.not_lt_zero _ hfuel).elim
  | succ fuel ih =>
      obtain ⟨y, hy, hsweep, hwaits⟩ := exists_sweep hcalm
      obtain ⟨hcalm', hspends⟩ := hy.calm_and_spends hcalm
      rw [Read.settle, hsweep]
      by_cases hmoved : x.history.length < y.history.length
      · have hacts := hspends.acts_le
        obtain ⟨z, hz, hsettle, hrests⟩ := ih hcalm' (by omega)
        rw [decide_eq_true hmoved]
        exact ⟨z, hy.trans hz, hsettle, hrests⟩
      · rw [decide_eq_false hmoved]
        exact ⟨y, hy, rfl, hwaits hmoved⟩

theorem actsLeft_lt_sweeps (x : Stage Log LogCursor) :
    x.actsLeft log < x.read.sweeps Log.client log := by
  have hworkers : (x.read.workers.map fun w ↦
      w.phase.actsAhead + 4 * w.phase.recordsLeft log).sum ≤
        x.read.workers.length * (5 + 4 * log.recordCount) := by
    refine sum_map_le_length_mul fun w _ ↦ ?_
    have hacts := w.phase.actsAhead_le
    have hrecords := w.phase.recordsLeft_le log
    omega
  have huncollected : x.uncollected ≤ x.read.workers.length := List.countP_le_length
  have hbound : Log.client.bound log = log.recordCount + 2 := rfl
  have hfuel : x.read.workers.length * (5 + 4 * log.recordCount) + x.read.workers.length ≤
      x.read.workers.length * (4 * (log.recordCount + 2) + 8) := by
    rw [← Nat.mul_succ]
    exact Nat.mul_le_mul_left _ (by omega)
  rw [actsLeft, Read.sweeps, hbound, Nat.succ_mul]
  omega

theorem exists_run (hcalm : x.Calm log job) : ∃ y, x.Works y ∧
    x.read.run Log.client x.state = (y.state, y.read) ∧ ∀ i, y.Waits i := by
  refine exists_settle hcalm ?_
  rw [hcalm.state_eq]
  exact x.actsLeft_lt_sweeps

/-! ## Drains -/

/-- An event that is given is taken from one of the queues; where none is, both are empty. -/
theorem nextEvent_cases (log : Log) (x : Stage Log LogCursor) :
    (∃ (event : Event) (r : Read LogCursor) (m : Move Empty), m.IsInner ∧
      x.read.nextEvent = (.item event, r) ∧
      x.step Log.client Empty.elim m = x.note x.state r event.deed ∧
      (x.note x.state r event.deed).eventsLeft log < x.eventsLeft log) ∨
    x.read.shared.channel.queue = [] ∧ x.read.shared.errors = [] ∧
      x.read.nextEvent = (if x.read.isOver then .closed else .pending, x.read) := by
  cases herrors : x.read.shared.errors with
  | cons f rest =>
      refine .inl ⟨.failure f, { x.read with shared := { x.read.shared with errors := rest } },
        .takeError, trivial, ?_, ?_, ?_⟩
      · simp only [Read.nextEvent, Read.firstLook, Read.takeError, herrors]
      · simp [step, takeError, Read.takeError, herrors, Event.deed]
      · simp [eventsLeft, herrors]
  | nil =>
      have hfirst : x.read.firstLook = (none, x.read) := by
        cases hover : x.read.isOver <;> simp [Read.firstLook, Read.takeError, herrors, hover]
      have hlast : x.read.lastLook = (.closed, x.read) := by
        cases hover : x.read.isOver <;> simp [Read.lastLook, Read.takeError, herrors, hover]
      cases hqueue : x.read.shared.channel.queue with
      | cons a rest =>
          refine .inl ⟨.record a, { x.read with shared := { x.read.shared with channel :=
            { x.read.shared.channel with queue := rest } } }, .takeRecord, trivial, ?_, ?_, ?_⟩
          · simp only [Read.nextEvent, hfirst, Read.secondLook, Read.takeRecord, hqueue]
          · simp [step, takeRecord, Read.takeRecord, hqueue, Event.deed]
          · simp [eventsLeft, hqueue, herrors]
      | nil =>
          refine .inr ⟨rfl, rfl, ?_⟩
          cases hover : x.read.isOver <;>
            simp [Read.nextEvent, hfirst, Read.secondLook, Read.takeRecord, hqueue, hover, hlast]

/-- Every worker has to wait or is over, and the caller has been given everything. -/
structure Exhausted (x : Stage Log LogCursor) : Prop where
  waits : ∀ i, x.Waits i
  queue_eq : x.read.shared.channel.queue = []
  errors_eq : x.read.shared.errors = []

namespace Exhausted

theorem atRest (h : x.Exhausted) : x.AtRest Log.client := by
  refine ⟨h.waits, ?_⟩
  cases hover : x.read.isOver <;> simp [takeRecord, Read.takeRecord, h.queue_eq, hover]

theorem isDrained (h : x.Exhausted) (hover : x.read.isOver = true) : x.IsDrained :=
  isDrained_iff.mpr ⟨h.queue_eq, hover⟩

end Exhausted

/-- A drain that may take more events than are left takes a course of the read to its end. -/
theorem exists_drain {n : Nat} (hcalm : x.Calm log job) (hbound : x.eventsLeft log < n) :
    ∃ (events : List Event) (moves : List (Move Empty)) (y : Stage Log LogCursor),
      (∀ m ∈ moves, m.IsInner) ∧ x.play Log.client Empty.elim moves = y ∧ y.Exhausted ∧
      y.events = x.events ++ events ∧ x.read.drain Log.client Read.nextEvent n x.state =
        (events, if y.read.isOver then .ended else .pending, y.state, y.read) := by
  induction n generalizing x with
  | zero => exact (Nat.not_lt_zero _ hbound).elim
  | succ n ih =>
      obtain ⟨y, hy, hrun, hwaits⟩ := exists_run hcalm
      obtain ⟨hcalm', hspends⟩ := hy.calm_and_spends hcalm
      obtain ⟨moves, hwork, hplay⟩ := hy
      have hinner : ∀ m ∈ moves, m.IsInner := fun m hm ↦ (hwork m hm).isInner
      rw [Read.drain, hrun]
      obtain ⟨event, r, m, hm, hnext, hstep, hless⟩ | ⟨hqueue, herrors, hnext⟩ :=
        nextEvent_cases log y
      · have hcalm'' : (y.note y.state r event.deed).Calm log job := by
          rw [← hstep]
          exact hcalm'.next hm (next_step Empty.elim m)
        have hleft := hspends.events_le
        obtain ⟨events, more, z, hmore, hplay', hexhausted, hevents, hdrain⟩ :=
          ih hcalm'' (by omega)
        refine ⟨event :: events, moves ++ m :: more, z, ?_, ?_, hexhausted, ?_, ?_⟩
        · simp only [List.mem_append, List.mem_cons]
          rintro m' (hm' | rfl | hm')
          · exact hinner m' hm'
          · exact hm
          · exact hmore m' hm'
        · rw [play_append, hplay, ← hplay', ← hstep]
          rfl
        · have hgiven : event.deed.event? = some event := by cases event <;> rfl
          rw [hevents, events_note, hspends.events_eq, hgiven, List.append_assoc]
          rfl
        · change Read.drain Log.client Read.nextEvent n y.state r = _ at hdrain
          simp only [hnext, hdrain]
      · refine ⟨[], moves, y, hinner, hplay, ⟨hwaits, hqueue, herrors⟩, ?_, ?_⟩
        · rw [hspends.events_eq, List.append_nil]
        · simp only [hnext]
          cases y.read.isOver <;> rfl

theorem eventsLeft_lt_itemBound (x : Stage Log LogCursor) :
    x.eventsLeft log < x.read.itemBound Log.client log := by
  have hworkers : (x.read.workers.map fun w ↦ w.phase.eventsLeft log).sum ≤
      x.read.workers.length * (log.recordCount + 2) :=
    sum_map_le_length_mul fun w _ ↦ w.phase.eventsLeft_le log
  have hbound : Log.client.bound log = log.recordCount + 2 := rfl
  have hroom := Nat.mul_le_mul_left x.read.workers.length
    (show log.recordCount + 2 ≤ log.recordCount + 2 + 2 by omega)
  rw [eventsLeft, Read.itemBound, hbound]
  omega

/-- The drain of a read that has just been started lets it run, in one of its courses, until every
worker is over or has to wait and the caller has been given all that was sent and reported. -/
theorem drain_gives_all {settings : ReaderSettings} {decoder : Decoder} {request : Request}
    {cancelled : Bool} {r : Read LogCursor}
    (hstart : startRead Log.client log settings decoder request cancelled = .ok (.running r)) :
    ∃ (moves : List (Move Empty)) (x : Stage Log LogCursor), (∀ m ∈ moves, m.IsInner) ∧
      (start log r).play Log.client Empty.elim moves = x ∧ x.Exhausted ∧
      x.taken = x.sent ∧ x.heard = x.reported ∧
      r.drain Log.client Read.nextEvent (r.itemBound Log.client log) log =
        (x.events, if x.read.isOver then .ended else .pending, x.state, x.read) := by
  obtain ⟨ranges, hlaunched⟩ := exists_launched hstart
  have hcalm : (start log r).Calm log r.job :=
    ⟨rfl, rfl, ⟨List.not_mem_nil, List.not_mem_nil⟩, by rw [hlaunched.made]; rfl⟩
  obtain ⟨events, moves, x, hinner, hx, hexhausted, hevents, hdrain⟩ :=
    exists_drain hcalm (start log r).eventsLeft_lt_itemBound
  obtain rfl : x.events = events := hevents
  have hstays : Move.hangUp ∉ moves := fun hmem ↦ hinner _ hmem
  have hlistening : x.read.shared.channel.receiving = true := hx ▸ listening_play hlaunched hstays
  obtain ⟨hsent, hreported⟩ := conserved_play hlaunched hx hlistening
  rw [hexhausted.queue_eq, List.append_nil] at hsent
  rw [hexhausted.errors_eq, List.append_nil] at hreported
  exact ⟨moves, x, hinner, hx, hexhausted, hsent, hreported, hdrain⟩

end Stage

end TopicView
