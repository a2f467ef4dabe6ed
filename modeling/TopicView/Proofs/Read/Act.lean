import TopicView.Read.Worker

/-!
# What a worker does in a turn

A turn of a worker is one act, or a wait.  `Worker.Step` lists every act with its guard and with
all that it changes, and `Worker.step_turn` says that a turn is always one of them.  What a turn
keeps is proved from that list, never from the definition of the turn.
-/

namespace TopicView

/-- What can be seen of a turn that moved. -/
inductive Act
  | opened
  | pulled (raw : RawRecord)
  /-- The cursor has no more records. -/
  | ended
  | failed (failure : PartitionFailure)
  | crashed
  /-- The worker found the read cancelled, or its caller gone. -/
  | stopped
  | reserved
  | claimed (claim : Claim)
  | sent (record : Record)
  /-- The other workers were told that the limit is reached. -/
  | announced
  | closed
  deriving DecidableEq, Repr

namespace Act

def record? : Act → Option Record
  | sent record => some record
  | _ => none

def raw? : Act → Option RawRecord
  | pulled raw => some raw
  | _ => none

def failure? : Act → Option PartitionFailure
  | failed f => some f
  | _ => none

/-- Whether this is the claim that took the last slot of the limit. -/
def isLastClaim : Act → Bool
  | claimed (.granted true) => true
  | _ => false

end Act

namespace Phase

variable {κ : Type}

def cursor? : Phase κ → Option κ
  | pulling c | reserving c _ | claiming c _ | sending c _ _ | announcing c | closing c _ => some c
  | opening | finished _ | crashed => none

/-- The record that the worker has taken from its cursor and not yet sent. -/
def parcel? : Phase κ → Option Parcel
  | reserving _ parcel | claiming _ parcel | sending _ parcel _ => some parcel
  | _ => none

def isSending : Phase κ → Bool
  | sending _ _ _ => true
  | _ => false

/-- The worker has reserved a slot of the channel and not yet filled or released it. -/
def holdsSlot : Phase κ → Bool
  | claiming _ _ | sending _ _ _ => true
  | _ => false

/-- How the worker ends, where that is settled. -/
def outcome? : Phase κ → Option Outcome
  | announcing _ | sending _ _ true => some .limitReached
  | closing _ outcome | finished outcome => some outcome
  | crashed => some .panicked
  | _ => none

/-- The acts of a worker at most until it has its next record or is over. -/
def actsAhead : Phase κ → Nat
  | finished _ | crashed => 0
  | closing _ _ => 1
  | pulling _ | announcing _ => 2
  | opening | sending _ _ _ => 3
  | claiming _ _ => 4
  | reserving _ _ => 5

end Phase

namespace Worker

variable {σ κ : Type}

/-- What a worker does when it is given its turn; nothing while it has to wait and when it is
over. -/
def act? (client : Client σ κ) (job : Job) (s : σ) (sh : Shared) (w : Worker κ) : Option Act :=
  match w.phase with
  | .opening =>
    if sh.cancelled then some .stopped
    else
      match (client.openCursor s ⟨job.topic, w.partition⟩ w.plan.start (!w.plan.isBounded)).1 with
      | .waiting => none
      | .opened _ => some .opened
      | .failed f => some (.failed (w.failure .opening f))
      | .crashed => some .crashed
  | .pulling cursor =>
    if sh.cancelled then some .stopped
    else match (client.pull s cursor).1 with
      | .waiting => none
      | .record raw => some (.pulled raw)
      | .ended => some .ended
      | .failed f => some (.failed (w.failure .streaming f))
      | .crashed => some .crashed
  | .reserving _ _ =>
    if sh.cancelled || !sh.channel.receiving then some .stopped
    else if sh.channel.hasRoom then some .reserved
    else none
  | .claiming _ _ => some (.claimed sh.counter.claim.1)
  | .sending _ parcel _ => some (.sent parcel.record)
  | .announcing _ => some .announced
  | .closing _ _ => some .closed
  | .finished _ | .crashed => none

/-- Where a worker goes on once its cursor is open. -/
def afterOpening (w : Worker κ) (cursor : κ) : Phase κ :=
  if w.plan.isEmpty then .closing cursor .completed else .pulling cursor

def afterSending (cursor : κ) (parcel : Parcel) (reachedLimit : Bool) : Phase κ :=
  if reachedLimit then .announcing cursor else afterRecord cursor parcel.isLast

/-! ## Where a worker goes on -/

theorem afterRecord_cases (cursor : κ) (isLast : Bool) :
    isLast = false ∧ afterRecord cursor isLast = .pulling cursor ∨
      isLast = true ∧ afterRecord cursor isLast = .closing cursor .completed := by
  cases isLast <;> simp [afterRecord]

theorem afterSending_cases (cursor : κ) (parcel : Parcel) (reachedLimit : Bool) :
    reachedLimit = true ∧ afterSending cursor parcel reachedLimit = .announcing cursor ∨
      reachedLimit = false ∧ parcel.isLast = false ∧
        afterSending cursor parcel reachedLimit = .pulling cursor ∨
      reachedLimit = false ∧ parcel.isLast = true ∧
        afterSending cursor parcel reachedLimit = .closing cursor .completed := by
  cases reachedLimit with
  | true => exact Or.inl ⟨rfl, rfl⟩
  | false => simpa [afterSending] using afterRecord_cases cursor parcel.isLast

theorem afterOpening_cases (w : Worker κ) (cursor : κ) :
    w.plan.isEmpty = false ∧ w.afterOpening cursor = .pulling cursor ∨
      w.plan.isEmpty = true ∧ w.afterOpening cursor = .closing cursor .completed := by
  cases h : w.plan.isEmpty <;> simp [afterOpening, h]

/-- A record past the plan ends the worker; any other one is in hand if it passes the filter, and
done with if it does not. -/
theorem examine_cases (job : Job) (w : Worker κ) (cursor : κ) (raw : RawRecord) :
    isPast w.plan raw.offset = true ∧ examine job w cursor raw = .closing cursor .completed ∨
    (isPast w.plan raw.offset = false ∧
      admits job.filter (raw.decode job.decoder).key (raw.decode job.decoder).value = true ∧
      examine job w cursor raw =
        .reserving cursor ⟨raw.decode job.decoder, w.plan.last = some raw.offset⟩) ∨
    (isPast w.plan raw.offset = false ∧
      admits job.filter (raw.decode job.decoder).key (raw.decode job.decoder).value = false ∧
      examine job w cursor raw = afterRecord cursor (w.plan.last = some raw.offset)) := by
  cases hpast : isPast w.plan raw.offset with
  | true => simp [examine, hpast]
  | false =>
      cases hadmits : admits job.filter (raw.decode job.decoder).key
          (raw.decode job.decoder).value <;> simp [examine, hpast, hadmits]

section Shows

variable {job : Job} {w : Worker κ}

theorem cursor_afterRecord (cursor : κ) (isLast : Bool) :
    (afterRecord cursor isLast).cursor? = some cursor := by
  rcases afterRecord_cases cursor isLast with ⟨-, h⟩ | ⟨-, h⟩ <;> rw [h] <;> rfl

theorem cursor_afterSending (cursor : κ) (parcel : Parcel) (reachedLimit : Bool) :
    (afterSending cursor parcel reachedLimit).cursor? = some cursor := by
  rcases afterSending_cases cursor parcel reachedLimit with ⟨-, h⟩ | ⟨-, -, h⟩ | ⟨-, -, h⟩ <;>
    rw [h] <;> rfl

theorem cursor_afterOpening (cursor : κ) : (w.afterOpening cursor).cursor? = some cursor := by
  rcases afterOpening_cases w cursor with ⟨-, h⟩ | ⟨-, h⟩ <;> rw [h] <;> rfl

theorem cursor_examine (job : Job) (w : Worker κ) (cursor : κ) (raw : RawRecord) :
    (examine job w cursor raw).cursor? = some cursor := by
  rcases examine_cases job w cursor raw with ⟨-, h⟩ | ⟨-, -, h⟩ | ⟨-, -, h⟩
  · rw [h]
    rfl
  · rw [h]
    rfl
  · rw [h, cursor_afterRecord]

@[simp] theorem parcel_afterRecord (cursor : κ) (isLast : Bool) :
    (afterRecord cursor isLast).parcel? = none := by
  rcases afterRecord_cases cursor isLast with ⟨-, h⟩ | ⟨-, h⟩ <;> rw [h] <;> rfl

@[simp] theorem parcel_afterSending (cursor : κ) (parcel : Parcel) (reachedLimit : Bool) :
    (afterSending cursor parcel reachedLimit).parcel? = none := by
  rcases afterSending_cases cursor parcel reachedLimit with ⟨-, h⟩ | ⟨-, -, h⟩ | ⟨-, -, h⟩ <;>
    rw [h] <;> rfl

@[simp] theorem parcel_afterOpening (cursor : κ) : (w.afterOpening cursor).parcel? = none := by
  rcases afterOpening_cases w cursor with ⟨-, h⟩ | ⟨-, h⟩ <;> rw [h] <;> rfl

@[simp] theorem holdsSlot_afterRecord (cursor : κ) (isLast : Bool) :
    (afterRecord cursor isLast).holdsSlot = false := by
  rcases afterRecord_cases cursor isLast with ⟨-, h⟩ | ⟨-, h⟩ <;> rw [h] <;> rfl

theorem holdsSlot_afterSending (cursor : κ) (parcel : Parcel) (reachedLimit : Bool) :
    (afterSending cursor parcel reachedLimit).holdsSlot = false := by
  rcases afterSending_cases cursor parcel reachedLimit with ⟨-, h⟩ | ⟨-, -, h⟩ | ⟨-, -, h⟩ <;>
    rw [h] <;> rfl

theorem holdsSlot_afterOpening (cursor : κ) : (w.afterOpening cursor).holdsSlot = false := by
  rcases afterOpening_cases w cursor with ⟨-, h⟩ | ⟨-, h⟩ <;> rw [h] <;> rfl

theorem holdsSlot_examine (cursor : κ) (raw : RawRecord) :
    (examine job w cursor raw).holdsSlot = false := by
  rcases examine_cases job w cursor raw with ⟨-, h⟩ | ⟨-, -, h⟩ | ⟨-, -, h⟩
  · rw [h]
    rfl
  · rw [h]
    rfl
  · rw [h, holdsSlot_afterRecord]

/-- A worker sends only into a slot that it holds. -/
theorem isSending_eq_false {phase : Phase κ} (h : phase.holdsSlot = false) :
    phase.isSending = false := by
  cases phase <;> first | rfl | cases h

@[simp] theorem isSending_afterSending (cursor : κ) (parcel : Parcel) (reachedLimit : Bool) :
    (afterSending cursor parcel reachedLimit).isSending = false :=
  isSending_eq_false (holdsSlot_afterSending cursor parcel reachedLimit)

@[simp] theorem isSending_afterOpening (cursor : κ) : (w.afterOpening cursor).isSending = false :=
  isSending_eq_false (holdsSlot_afterOpening cursor)

@[simp] theorem isSending_examine (cursor : κ) (raw : RawRecord) :
    (examine job w cursor raw).isSending = false :=
  isSending_eq_false (holdsSlot_examine cursor raw)

@[simp] theorem outcome_afterRecord (cursor : κ) (isLast : Bool) :
    (afterRecord cursor isLast).outcome? = if isLast then some .completed else none := by
  rcases afterRecord_cases cursor isLast with ⟨hlast, h⟩ | ⟨hlast, h⟩ <;> rw [h, hlast] <;> rfl

theorem outcome_afterSending (cursor : κ) (parcel : Parcel) (reachedLimit : Bool) :
    (afterSending cursor parcel reachedLimit).outcome? =
      if reachedLimit then some .limitReached
      else if parcel.isLast then some .completed else none := by
  cases reachedLimit with
  | true => rfl
  | false => exact outcome_afterRecord _ _

theorem outcome_afterOpening (cursor : κ) :
    (w.afterOpening cursor).outcome? = if w.plan.isEmpty then some .completed else none := by
  rcases afterOpening_cases w cursor with ⟨hempty, h⟩ | ⟨hempty, h⟩ <;> rw [h, hempty] <;> rfl

theorem outcome_examine (job : Job) (w : Worker κ) (cursor : κ) (raw : RawRecord) :
    (examine job w cursor raw).outcome? = none ∨
      (examine job w cursor raw).outcome? = some .completed := by
  rcases examine_cases job w cursor raw with ⟨-, h⟩ | ⟨-, -, h⟩ | ⟨-, -, h⟩
  · rw [h]
    exact Or.inr rfl
  · rw [h]
    exact Or.inl rfl
  · rw [h, outcome_afterRecord]
    split
    · exact Or.inr rfl
    · exact Or.inl rfl

end Shows

/-! ## Steps -/

variable (client : Client σ κ) (job : Job) (s : σ) (sh : Shared) (w : Worker κ)

/-- The steps of a worker: the act that is seen, and the client, the shared state and the worker
after it. -/
inductive Step : Option Act → σ → Shared → Worker κ → Prop
  | idle : Step none s sh w
  | stopOpening (phase : w.phase = .opening) (cancelled : sh.cancelled = true) :
      Step (some .stopped) s sh (w.go (.finished .cancelled))
  | opened {cursor : κ} {s' : σ} (phase : w.phase = .opening) (live : sh.cancelled = false)
      (answer : client.openCursor s ⟨job.topic, w.partition⟩ w.plan.start (!w.plan.isBounded) =
        (.opened cursor, s')) :
      Step (some .opened) s' sh (w.go (w.afterOpening cursor))
  | openingFailed {f : Failure} {s' : σ} (phase : w.phase = .opening) (live : sh.cancelled = false)
      (answer : client.openCursor s ⟨job.topic, w.partition⟩ w.plan.start (!w.plan.isBounded) =
        (.failed f, s')) :
      Step (some (.failed (w.failure .opening f))) s' (sh.report (w.failure .opening f))
        (w.go (.finished .errored))
  | openingCrashed {s' : σ} (phase : w.phase = .opening) (live : sh.cancelled = false)
      (answer : client.openCursor s ⟨job.topic, w.partition⟩ w.plan.start (!w.plan.isBounded) =
        (.crashed, s')) :
      Step (some .crashed) s' sh (w.go .crashed)
  | stopPulling {cursor : κ} (phase : w.phase = .pulling cursor) (cancelled : sh.cancelled = true) :
      Step (some .stopped) s sh (w.go (.closing cursor .cancelled))
  | waited {cursor cursor' : κ} {s' : σ} (phase : w.phase = .pulling cursor)
      (live : sh.cancelled = false) (answer : client.pull s cursor = (.waiting, cursor', s')) :
      Step none s' sh (w.go (.pulling cursor'))
  | pulled {cursor cursor' : κ} {s' : σ} {raw : RawRecord} (phase : w.phase = .pulling cursor)
      (live : sh.cancelled = false) (answer : client.pull s cursor = (.record raw, cursor', s')) :
      Step (some (.pulled raw)) s' sh (w.go (examine job w cursor' raw))
  | ended {cursor cursor' : κ} {s' : σ} (phase : w.phase = .pulling cursor)
      (live : sh.cancelled = false) (answer : client.pull s cursor = (.ended, cursor', s')) :
      Step (some .ended) s' sh (w.go (.closing cursor' .completed))
  | pullingFailed {cursor cursor' : κ} {s' : σ} {f : Failure} (phase : w.phase = .pulling cursor)
      (live : sh.cancelled = false) (answer : client.pull s cursor = (.failed f, cursor', s')) :
      Step (some (.failed (w.failure .streaming f))) s' (sh.report (w.failure .streaming f))
        (w.go (.closing cursor' .errored))
  | pullingCrashed {cursor cursor' : κ} {s' : σ} (phase : w.phase = .pulling cursor)
      (live : sh.cancelled = false) (answer : client.pull s cursor = (.crashed, cursor', s')) :
      Step (some .crashed) s' sh (w.go .crashed)
  | stopReserving {cursor : κ} {parcel : Parcel} (phase : w.phase = .reserving cursor parcel)
      (stop : sh.cancelled = true ∨ sh.channel.receiving = false) :
      Step (some .stopped) s sh (w.go (.closing cursor .cancelled))
  | reserved {cursor : κ} {parcel : Parcel} (phase : w.phase = .reserving cursor parcel)
      (live : sh.cancelled = false) (listening : sh.channel.receiving = true)
      (room : sh.channel.hasRoom = true) :
      Step (some .reserved) s { sh with channel := sh.channel.reserve }
        (w.go (.claiming cursor parcel))
  | refused {cursor : κ} {parcel : Parcel} {counter : Counter}
      (phase : w.phase = .claiming cursor parcel)
      (answer : sh.counter.claim = (.refused, counter)) :
      Step (some (.claimed .refused)) s { sh with counter, channel := sh.channel.release }
        (w.go (.closing cursor .limitReached))
  | granted {cursor : κ} {parcel : Parcel} {reachedLimit : Bool} {counter : Counter}
      (phase : w.phase = .claiming cursor parcel)
      (answer : sh.counter.claim = (.granted reachedLimit, counter)) :
      Step (some (.claimed (.granted reachedLimit))) s { sh with counter }
        (w.go (.sending cursor parcel reachedLimit))
  | sent {cursor : κ} {parcel : Parcel} {reachedLimit : Bool}
      (phase : w.phase = .sending cursor parcel reachedLimit) :
      Step (some (.sent parcel.record)) s { sh with channel := sh.channel.send parcel.record }
        { w with emitted := w.emitted + 1, phase := afterSending cursor parcel reachedLimit }
  | announced {cursor : κ} (phase : w.phase = .announcing cursor) :
      Step (some .announced) s sh.cancel (w.go (.closing cursor .limitReached))
  | closed {cursor cursor' : κ} {outcome : Outcome} {s' : σ}
      (phase : w.phase = .closing cursor outcome) (answer : client.close s cursor = (cursor', s')) :
      Step (some .closed) s' sh (w.go (.finished outcome))

theorem step_turn : w.Step client job s sh (w.act? client job s sh) (w.turn client job s sh).client
    (w.turn client job s sh).shared (w.turn client job s sh).worker := by
  cases hphase : w.phase with
  | opening =>
      cases hc : sh.cancelled with
      | true => simpa [act?, turn, hphase, hc] using Step.stopOpening hphase hc
      | false =>
          rcases hanswer : client.openCursor s ⟨job.topic, w.partition⟩ w.plan.start
            (!w.plan.isBounded) with ⟨answer, s'⟩
          cases answer with
          | waiting => simpa [act?, turn, hphase, hc, hanswer] using Step.idle
          | opened cursor =>
              simpa [act?, turn, hphase, hc, hanswer, afterOpening] using
                Step.opened hphase hc hanswer
          | failed f =>
              simpa [act?, turn, hphase, hc, hanswer] using Step.openingFailed hphase hc hanswer
          | crashed =>
              simpa [act?, turn, hphase, hc, hanswer] using Step.openingCrashed hphase hc hanswer
  | pulling cursor =>
      cases hc : sh.cancelled with
      | true => simpa [act?, turn, hphase, hc] using Step.stopPulling hphase hc
      | false =>
          rcases hanswer : client.pull s cursor with ⟨answer, cursor', s'⟩
          cases answer with
          | waiting => simpa [act?, turn, hphase, hc, hanswer] using Step.waited hphase hc hanswer
          | record raw =>
              simpa [act?, turn, hphase, hc, hanswer] using Step.pulled hphase hc hanswer
          | ended => simpa [act?, turn, hphase, hc, hanswer] using Step.ended hphase hc hanswer
          | failed f =>
              simpa [act?, turn, hphase, hc, hanswer] using Step.pullingFailed hphase hc hanswer
          | crashed =>
              simpa [act?, turn, hphase, hc, hanswer] using Step.pullingCrashed hphase hc hanswer
  | reserving cursor parcel =>
      by_cases hstop : sh.cancelled = true ∨ sh.channel.receiving = false
      · simpa [act?, turn, hphase, hstop] using Step.stopReserving hphase hstop
      · obtain ⟨hc, hr⟩ : sh.cancelled = false ∧ sh.channel.receiving = true := by
          simpa using hstop
        cases hroom : sh.channel.hasRoom with
        | true => simpa [act?, turn, hphase, hc, hr, hroom] using Step.reserved hphase hc hr hroom
        | false => simpa [act?, turn, hphase, hc, hr, hroom] using Step.idle
  | claiming cursor parcel =>
      rcases hanswer : sh.counter.claim with ⟨claim, counter⟩
      cases claim with
      | granted reachedLimit =>
          simpa [act?, turn, hphase, hanswer] using Step.granted hphase hanswer
      | refused => simpa [act?, turn, hphase, hanswer] using Step.refused hphase hanswer
  | sending cursor parcel reachedLimit =>
      simpa [act?, turn, hphase, afterSending] using Step.sent hphase
  | announcing cursor => simpa [act?, turn, hphase] using Step.announced hphase
  | closing cursor outcome =>
      rcases hanswer : client.close s cursor with ⟨cursor', s'⟩
      simpa [act?, turn, hphase, hanswer] using Step.closed hphase hanswer
  | finished outcome => simpa [act?, turn, hphase] using Step.idle
  | crashed => simpa [act?, turn, hphase] using Step.idle

/-- A turn has moved where an act is seen. -/
theorem moved_turn : (w.turn client job s sh).moved = (w.act? client job s sh).isSome := by
  cases hphase : w.phase with
  | opening =>
      cases hc : sh.cancelled with
      | true => simp [turn, act?, hphase, hc]
      | false =>
          rcases hanswer : client.openCursor s ⟨job.topic, w.partition⟩ w.plan.start
            (!w.plan.isBounded) with ⟨answer, s'⟩
          cases answer <;> simp [turn, act?, hphase, hc, hanswer]
  | pulling cursor =>
      cases hc : sh.cancelled with
      | true => simp [turn, act?, hphase, hc]
      | false =>
          rcases hanswer : client.pull s cursor with ⟨answer, cursor', s'⟩
          cases answer <;> simp [turn, act?, hphase, hc, hanswer]
  | reserving cursor parcel =>
      by_cases hstop : sh.cancelled = true ∨ sh.channel.receiving = false
      · simp [turn, act?, hphase, hstop]
      · cases hroom : sh.channel.hasRoom <;> simp [turn, act?, hphase, hstop, hroom]
  | claiming cursor parcel =>
      rcases hanswer : sh.counter.claim with ⟨claim, counter⟩
      cases claim <;> simp [turn, act?, hphase, hanswer]
  | _ => simp [turn, act?, hphase]

variable {client job s sh w} {act : Option Act} {s' : σ} {sh' : Shared} {w' : Worker κ}

theorem Step.partition_eq (h : w.Step client job s sh act s' sh' w') :
    w'.partition = w.partition := by
  cases h <;> rfl

theorem Step.plan_eq (h : w.Step client job s sh act s' sh' w') : w'.plan = w.plan := by
  cases h <;> rfl

@[simp] theorem channel_report (f : PartitionFailure) : (sh.report f).channel = sh.channel := by
  unfold Shared.report
  split <;> rfl

@[simp] theorem cancelled_report (f : PartitionFailure) :
    (sh.report f).cancelled = sh.cancelled := by
  unfold Shared.report
  split <;> rfl

@[simp] theorem counter_report (f : PartitionFailure) : (sh.report f).counter = sh.counter := by
  unfold Shared.report
  split <;> rfl

/-- A cancellation, made or not, leaves the rest as it is. -/
@[simp] theorem channel_ite_cancel (p : Prop) [Decidable p] :
    (if p then sh.cancel else sh).channel = sh.channel := by
  split <;> rfl

@[simp] theorem counter_ite_cancel (p : Prop) [Decidable p] :
    (if p then sh.cancel else sh).counter = sh.counter := by
  split <;> rfl

@[simp] theorem errors_ite_cancel (p : Prop) [Decidable p] :
    (if p then sh.cancel else sh).errors = sh.errors := by
  split <;> rfl

theorem Step.receiving_eq (h : w.Step client job s sh act s' sh' w') :
    sh'.channel.receiving = sh.channel.receiving := by
  cases h <;> simp [Channel.reserve, Channel.release, Channel.send, Shared.cancel]

theorem Step.capacity_eq (h : w.Step client job s sh act s' sh' w') :
    sh'.channel.capacity = sh.channel.capacity := by
  cases h <;> simp [Channel.reserve, Channel.release, Channel.send, Shared.cancel]

theorem Step.cancelled_of_cancelled (h : w.Step client job s sh act s' sh' w')
    (hc : sh.cancelled = true) : sh'.cancelled = true := by
  cases h <;> simp [hc, Shared.cancel]

theorem Step.announcing_of_cancelled (h : w.Step client job s sh act s' sh' w')
    (hc : sh.cancelled = false) (hc' : sh'.cancelled = true) :
    ∃ cursor, w.phase = .announcing cursor := by
  cases h <;> simp_all

/-- Four acts for each record, at most, and in between the way to the cursor gets shorter. -/
theorem Step.actsAhead_le (h : w.Step client job s sh act s' sh' w') :
    act.toList.length + w'.phase.actsAhead ≤
      w.phase.actsAhead + 4 * (act.bind Act.raw?).toList.length := by
  cases h
  case opened cursor phase live answer =>
    obtain ⟨-, h⟩ | ⟨-, h⟩ := afterOpening_cases w cursor <;>
      simp [phase, h, go, Act.raw?, Phase.actsAhead]
  case pulled cursor cursor' raw phase live answer =>
    obtain ⟨-, h⟩ | ⟨-, -, h⟩ | ⟨-, -, h⟩ := examine_cases job w cursor' raw
    · simp [phase, h, go, Act.raw?, Phase.actsAhead]
    · simp [phase, h, go, Act.raw?, Phase.actsAhead]
    · obtain ⟨-, h'⟩ | ⟨-, h'⟩ := afterRecord_cases cursor' (w.plan.last = some raw.offset) <;>
        simp [phase, h, h', go, Act.raw?, Phase.actsAhead]
  case sent cursor parcel reachedLimit phase =>
    obtain ⟨-, h⟩ | ⟨-, -, h⟩ | ⟨-, -, h⟩ := afterSending_cases cursor parcel reachedLimit <;>
      simp [phase, h, Act.raw?, Phase.actsAhead]
  all_goals simp_all [go, Act.raw?, Phase.actsAhead]

theorem outcome_of_report {report : Report} (h : w.report? = some report) :
    w.phase.outcome? = some report.outcome := by
  unfold report? at h
  split at h <;> simp_all [Phase.outcome?]
  all_goals rw [← h]

end Worker
end TopicView
