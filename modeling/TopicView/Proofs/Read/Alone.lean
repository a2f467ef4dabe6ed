import TopicView.Proofs.Read.Event
import TopicView.Proofs.Read.Limit
import TopicView.Proofs.Read.Prospect
import TopicView.Script

/-!
# A worker by itself

A worker that nobody stops, whose cursor plays a finite script and whose caller takes the records
does what the script makes it do, act by act, and comes to its end.
-/

namespace TopicView

open Act

/-- From this state on the cursor yields the records one by one, with so many waits on the way, and
then it ends or fails. -/
inductive Client.Plays {σ κ : Type} (client : Client σ κ) :
    σ → κ → (waits : Nat) → List RawRecord → (stop : Option Failure) → Prop
  | ended {s s' : σ} {c c' : κ} (answer : client.pull s c = (.ended, c', s')) :
    Plays client s c 0 [] none
  | failed {s s' : σ} {c c' : κ} {f : Failure} (answer : client.pull s c = (.failed f, c', s')) :
    Plays client s c 0 [] (some f)
  | waited {s s' : σ} {c c' : κ} {waits : Nat} {raws : List RawRecord} {stop : Option Failure}
    (answer : client.pull s c = (.waiting, c', s')) (rest : Plays client s' c' waits raws stop) :
    Plays client s c (waits + 1) raws stop
  | record {s s' : σ} {c c' : κ} {raw : RawRecord} {waits : Nat} {raws : List RawRecord}
    {stop : Option Failure} (answer : client.pull s c = (.record raw, c', s'))
    (rest : Plays client s' c' waits raws stop) : Plays client s c waits (raw :: raws) stop

/-! ## One turn of the worker -/

namespace Worker

variable {σ κ : Type} {client : Client σ κ} {job : Job} {s s' : σ} {sh sh' : Shared}
  {w w' : Worker κ} {act : Act} {acts : List Act} {waits : Nat} {raws : List RawRecord}
  {stop : Option Failure} {total : Prospect}

/-- What is ahead of the cursor, unless the worker is done with it. -/
def Finds (client : Client σ κ) (job : Job) (s : σ) (waits : Nat) (raws : List RawRecord)
    (stop : Option Failure) (w : Worker κ) : Prop :=
  match w.phase with
  | .opening => ∃ c s', client.openCursor s ⟨job.topic, w.partition⟩ w.plan.start
      (!w.plan.isBounded) = (.opened c, s') ∧ client.Plays s' c waits raws stop
  | .pulling c | .reserving c _ | .claiming c _ | .sending c _ _ =>
    client.Plays s c waits raws stop
  | .announcing _ | .closing _ _ | .finished _ => True
  | .crashed => False

def prospect (job : Job) (raws : List RawRecord) (stop : Option Failure) (c : Counter)
    (w : Worker κ) : Prospect :=
  .of w.plan (.script job w.partition w.plan stop raws) c w.phase

/-- The prospect does not depend on the cursor. -/
theorem of_examine (job : Job) (w : Worker κ) (cursor : κ) (raw : RawRecord)
    (onward : Counter → Prospect) (c : Counter) :
    Prospect.of w.plan onward c (examine job w cursor raw) =
      Prospect.of w.plan onward c (examine job (.start w.partition w.plan) () raw) := by
  cases hpast : isPast w.plan raw.offset with
  | true => simp [examine, start, hpast, Prospect.of]
  | false =>
      cases hadmits : admits job.filter (raw.decode job.decoder).key
          (raw.decode job.decoder).value with
      | true =>
          simp only [examine, start, hpast, hadmits, if_true, Bool.false_eq_true, if_false]
          rfl
      | false =>
          by_cases hlast : w.plan.last = some raw.offset
          · simp [examine, start, hpast, hadmits, afterRecord, hlast, Prospect.of]
          · simp [examine, start, hpast, hadmits, afterRecord, hlast, Prospect.of]

theorem finds_examine {cursor : κ} (h : client.Plays s cursor waits raws stop) (raw : RawRecord) :
    (w.go (examine job w cursor raw)).Finds client job s waits raws stop := by
  obtain ⟨-, heq⟩ | ⟨-, -, heq⟩ | ⟨-, -, heq⟩ := examine_cases job w cursor raw
  · simp [Finds, go, heq]
  · simpa [Finds, go, heq] using h
  · obtain ⟨-, hafter⟩ | ⟨-, hafter⟩ := afterRecord_cases cursor (w.plan.last = some raw.offset)
    · simpa [Finds, go, heq, hafter] using h
    · simp [Finds, go, heq, hafter]

/-- An act is the first one of the prospect, and leaves the rest of it. -/
theorem Step.prospect_eq (h : w.Step client job s sh (some act) s' sh' w')
    (hlistening : sh.channel.receiving = true)
    (hlive : w.phase.outcome? = none → sh.cancelled = false)
    (hfinds : w.Finds client job s waits raws stop) :
    ∃ raws', w'.Finds client job s' waits raws' stop ∧ w.prospect job raws stop sh.counter =
      .after act (w'.prospect job raws' stop sh'.counter) := by
  cases h
  case stopOpening phase cancelled => simp [phase, Phase.outcome?, cancelled] at hlive
  case stopPulling cursor phase cancelled => simp [phase, Phase.outcome?, cancelled] at hlive
  case stopReserving cursor parcel phase cancelled =>
    simp [phase, Phase.outcome?] at hlive
    simp [hlive, hlistening] at cancelled
  case openingFailed f phase live answer => simp [Finds, phase, answer] at hfinds
  case openingCrashed phase live answer => simp [Finds, phase, answer] at hfinds
  case opened cursor phase live answer =>
    simp only [Finds, phase] at hfinds
    obtain ⟨c, t, hopens, hplays⟩ := hfinds
    obtain ⟨hopened, rfl⟩ := Prod.mk.inj (hopens.symm.trans answer)
    obtain rfl := Opening.opened.inj hopened
    refine ⟨raws, ?_, ?_⟩
    · obtain ⟨-, heq⟩ | ⟨-, heq⟩ := afterOpening_cases w c
      · simpa [Finds, go, heq] using hplays
      · simp [Finds, go, heq]
    · obtain ⟨hempty, heq⟩ | ⟨hempty, heq⟩ := afterOpening_cases w c
      · simp [prospect, phase, go, heq, Prospect.of, hempty]
      · simp [prospect, phase, go, heq, Prospect.of, hempty]
  case pulled cursor cursor' raw phase live answer =>
    simp only [Finds, phase] at hfinds
    cases hfinds with
    | record answer' rest =>
        obtain ⟨hraw, hrest⟩ := Prod.mk.inj (answer.symm.trans answer')
        obtain rfl := Pull.record.inj hraw
        obtain ⟨rfl, rfl⟩ := Prod.mk.inj hrest
        refine ⟨_, finds_examine rest raw, ?_⟩
        simp only [prospect, phase]
        exact congrArg (Prospect.after _) (of_examine job w cursor' raw _ _).symm
    | _ answer' => cases answer.symm.trans answer'
  case ended cursor cursor' phase live answer =>
    simp only [Finds, phase] at hfinds
    cases hfinds with
    | ended answer' =>
        refine ⟨[], trivial, ?_⟩
        simp only [prospect, phase, Prospect.of, Prospect.script, go]
    | _ answer' => cases answer.symm.trans answer'
  case pullingFailed cursor cursor' f phase live answer =>
    simp only [Finds, phase] at hfinds
    cases hfinds with
    | failed answer' =>
        obtain ⟨hf, -⟩ := Prod.mk.inj (answer.symm.trans answer')
        obtain rfl := Pull.failed.inj hf
        refine ⟨[], trivial, ?_⟩
        simp only [prospect, phase, Prospect.of, Prospect.script, go, failure]
    | _ answer' => cases answer.symm.trans answer'
  case pullingCrashed cursor cursor' phase live answer =>
    simp only [Finds, phase] at hfinds
    cases hfinds with
    | _ answer' => cases answer.symm.trans answer'
  case reserved cursor parcel phase live listening room =>
    simp only [Finds, phase] at hfinds
    refine ⟨raws, hfinds, ?_⟩
    simp only [prospect, phase, Prospect.of, go]
  case refused cursor parcel counter phase answer =>
    refine ⟨raws, trivial, ?_⟩
    simp only [prospect, phase, Prospect.of, Prospect.claiming, answer, go]
  case granted cursor parcel reachedLimit counter phase answer =>
    simp only [Finds, phase] at hfinds
    refine ⟨raws, hfinds, ?_⟩
    simp only [prospect, phase, Prospect.of, Prospect.claiming, answer, go]
  case sent cursor parcel reachedLimit phase =>
    simp only [Finds, phase] at hfinds
    obtain ⟨rfl, heq⟩ | ⟨rfl, hlast, heq⟩ | ⟨rfl, hlast, heq⟩ :=
      afterSending_cases cursor parcel reachedLimit
    · refine ⟨raws, by simp [Finds, heq], ?_⟩
      simp [prospect, phase, Prospect.of, Prospect.sending, heq]
    · refine ⟨raws, by simpa [Finds, heq] using hfinds, ?_⟩
      simp [prospect, phase, Prospect.of, Prospect.sending, heq, hlast]
    · refine ⟨raws, by simp [Finds, heq], ?_⟩
      simp [prospect, phase, Prospect.of, Prospect.sending, heq, hlast]
  case announced cursor phase =>
    refine ⟨raws, trivial, ?_⟩
    simp only [prospect, phase, Prospect.of, go, Prospect.close]
  case closed cursor cursor' outcome phase answer =>
    refine ⟨raws, trivial, ?_⟩
    simp only [prospect, phase, Prospect.of, go, Prospect.close]
    rfl

/-- A turn without an act uses up a wait of the cursor, or there is no room for the record, or the
worker is over. -/
theorem finds_turn_of_act_none (h : w.act? client job s sh = none)
    (hfinds : w.Finds client job s waits raws stop) :
    ∃ n ≤ waits, (w.turn client job s sh).worker.Finds client job
        (w.turn client job s sh).client n raws stop ∧
      (w.turn client job s sh).worker.prospect job raws stop
          (w.turn client job s sh).shared.counter = w.prospect job raws stop sh.counter ∧
      (w.phase.isOver = true ∨ sh.channel.hasRoom = false ∨ n < waits) := by
  cases phase : w.phase with
  | opening =>
      simp only [Finds, phase] at hfinds
      obtain ⟨c, s', hopens, -⟩ := hfinds
      simp only [act?, phase, hopens] at h
      split at h <;> cases h
  | pulling cursor =>
      cases hc : sh.cancelled with
      | true => simp [act?, phase, hc] at h
      | false =>
          simp only [Finds, phase] at hfinds
          cases hfinds with
          | waited answer rest =>
              refine ⟨_, Nat.le_succ _, ?_, ?_, .inr (.inr (Nat.lt_succ_self _))⟩
              · simpa [turn, phase, hc, answer, Finds, go] using rest
              · simp [turn, phase, hc, answer, prospect, go, Prospect.of]
          | _ answer => simp [act?, phase, hc, answer] at h
  | reserving cursor parcel =>
      by_cases hstop : sh.cancelled = true ∨ sh.channel.receiving = false
      · simp [act?, phase, hstop] at h
      obtain ⟨hc, hr⟩ : sh.cancelled = false ∧ sh.channel.receiving = true := by simpa using hstop
      have hroom : sh.channel.hasRoom = false := by simpa [act?, phase, hc, hr] using h
      have hturn : w.turn client job s sh = ⟨s, sh, w, false⟩ := by
        simp [turn, phase, hc, hr, hroom]
      rw [hturn]
      exact ⟨waits, Nat.le_refl _, hfinds, rfl, .inr (.inl hroom)⟩
  | finished outcome =>
      have hturn : w.turn client job s sh = ⟨s, sh, w, false⟩ := by simp [turn, phase]
      rw [hturn]
      exact ⟨waits, Nat.le_refl _, hfinds, rfl, .inl rfl⟩
  | crashed => simp [Finds, phase] at hfinds
  | _ => simp [act?, phase] at h

/-- A turn takes the first act off the prospect or has to wait, and leaves the rest of it. -/
theorem finds_turn (hlistening : sh.channel.receiving = true)
    (hlive : w.phase.outcome? = none → sh.cancelled = false)
    (hfinds : w.Finds client job s waits raws stop) :
    ∃ n ≤ waits, ∃ raws', (w.turn client job s sh).worker.Finds client job
        (w.turn client job s sh).client n raws' stop ∧
      w.prospect job raws stop sh.counter = .behind (w.act? client job s sh).toList
        ((w.turn client job s sh).worker.prospect job raws' stop
          (w.turn client job s sh).shared.counter) ∧
      (w.act? client job s sh = none →
        w.phase.isOver = true ∨ sh.channel.hasRoom = false ∨ n < waits) := by
  have hstep := step_turn client job s sh w
  cases hact : w.act? client job s sh with
  | none =>
      obtain ⟨n, hn, hfinds', heq, hwait⟩ := finds_turn_of_act_none hact hfinds
      exact ⟨n, hn, raws, hfinds', heq.symm, fun _ ↦ hwait⟩
  | some act =>
      obtain ⟨raws', hfinds', heq⟩ := (hact ▸ hstep).prospect_eq hlistening hlive hfinds
      exact ⟨waits, Nat.le_refl _, raws', hfinds', heq, nofun⟩

/-- After these acts the worker, which nothing keeps from going on, has the rest of `total` ahead
of it. -/
structure Pursues (client : Client σ κ) (job : Job) (stop : Option Failure) (total : Prospect)
    (waits : Nat) (acts : List Act) (s : σ) (sh : Shared) (w : Worker κ) : Prop where
  listening : sh.channel.receiving = true
  live : w.phase.outcome? = none → sh.cancelled = false
  slot : w.phase.holdsSlot.toNat ≤ sh.channel.reserved
  room : sh.channel.reserved < sh.channel.capacity + w.phase.holdsSlot.toNat
  ahead : ∃ raws, w.Finds client job s waits raws stop ∧
    total = .behind acts (w.prospect job raws stop sh.counter)

theorem Step.live {a : Option Act} (h : w.Step client job s sh a s' sh' w')
    (hlive : w.phase.outcome? = none → sh.cancelled = false) (hgoing : w'.phase.outcome? = none) :
    sh'.cancelled = false := by
  have hbefore : w.phase.outcome? = none := by
    cases hout : w.phase.outcome? with
    | none => rfl
    | some outcome => rw [h.outcome_of_some hout] at hgoing; cases hgoing
  cases hc : sh'.cancelled with
  | false => rfl
  | true =>
      obtain ⟨cursor, phase⟩ := h.announcing_of_cancelled (hlive hbefore) hc
      rw [phase] at hbefore
      cases hbefore

namespace Pursues

variable (h : w.Pursues client job stop total waits acts s sh)

include h

theorem turn : ∃ n ≤ waits,
    (w.turn client job s sh).worker.Pursues client job stop total n
      (acts ++ (w.act? client job s sh).toList) (w.turn client job s sh).client
      (w.turn client job s sh).shared ∧
    (w.act? client job s sh = none →
      w.phase.isOver = true ∨ sh.channel.hasRoom = false ∨ n < waits) := by
  obtain ⟨hlistening, hlive, hslot, hroom, raws, hfinds, htotal⟩ := h
  have hstep := step_turn client job s sh w
  have hbalance := hstep.reserved_add fun hw ↦ by rwa [hw] at hslot
  obtain ⟨n, hn, raws', hfinds', heq, hwait⟩ := finds_turn hlistening hlive hfinds
  refine ⟨n, hn, ⟨hstep.receiving_eq.trans hlistening, hstep.live hlive, ?_, ?_,
    raws', hfinds', ?_⟩, hwait⟩
  · omega
  · rw [hstep.capacity_eq]
    omega
  · rw [htotal, heq, Prospect.behind_append]

theorem congr (hcounter : sh'.counter = sh.counter)
    (hcancelled : w.phase.outcome? = none → sh'.cancelled = sh.cancelled)
    (hcapacity : sh'.channel.capacity = sh.channel.capacity)
    (hreserved : sh'.channel.reserved = sh.channel.reserved)
    (hreceiving : sh'.channel.receiving = sh.channel.receiving) :
    w.Pursues client job stop total waits acts s sh' := by
  obtain ⟨hlistening, hlive, hslot, hroom, hahead⟩ := h
  refine ⟨hreceiving.trans hlistening, fun hgoing ↦ (hcancelled hgoing).trans (hlive hgoing), ?_,
    ?_, ?_⟩
  · rwa [hreserved]
  · rwa [hreserved, hcapacity]
  · rwa [hcounter]

theorem length_le : acts.length ≤ total.acts.length := by
  obtain ⟨raws, -, htotal⟩ := h.ahead
  rw [htotal, Prospect.behind, List.length_append]
  exact Nat.le_add_right _ _

theorem eq_of_finished {outcome : Outcome} (phase : w.phase = .finished outcome) :
    total = ⟨acts, outcome⟩ := by
  obtain ⟨raws, -, htotal⟩ := h.ahead
  rw [htotal, prospect, phase, Prospect.of, Prospect.behind, List.append_nil]

theorem exists_finished_iff :
    (∃ outcome, w.phase = .finished outcome) ↔ total.acts.length ≤ acts.length := by
  constructor
  · rintro ⟨outcome, phase⟩
    exact Nat.le_of_eq (congrArg (·.acts.length) (h.eq_of_finished phase))
  · intro hlength
    obtain ⟨raws, hfinds, htotal⟩ := h.ahead
    have hnil : (w.prospect job raws stop sh.counter).acts = [] := by
      rw [htotal, Prospect.behind, List.length_append] at hlength
      exact List.eq_nil_of_length_eq_zero (by omega)
    cases phase : w.phase with
    | finished outcome => exact ⟨outcome, rfl⟩
    | crashed => simp [Finds, phase] at hfinds
    | pulling cursor =>
        rw [prospect, phase, Prospect.of] at hnil
        exact absurd hnil Prospect.acts_script_ne_nil
    | _ => rw [prospect, phase] at hnil; cases hnil

theorem exists_finished_of_isOver (hover : w.phase.isOver = true) :
    ∃ outcome, w.phase = .finished outcome := by
  obtain ⟨raws, hfinds, -⟩ := h.ahead
  cases phase : w.phase with
  | finished outcome => exact ⟨outcome, rfl⟩
  | crashed => simp [Finds, phase] at hfinds
  | _ => rw [phase] at hover; cases hover

end Pursues

end Worker

/-! ## In a course -/

/-- Moves of one worker, and of a caller that listens and neither cancels nor leaves. -/
def Move.IsOwn {δ : Type} (i : Nat) : Move δ → Prop
  | turn j | collect j => j = i
  | takeRecord | takeError => True
  | cancel | hangUp | alter _ => False

/-- The worker has so many turns, and after each of them the caller takes a record. -/
def Move.rounds {δ : Type} (i n : Nat) : List (Move δ) :=
  (List.replicate n [.turn i, .takeRecord]).flatten

theorem Move.isOwn_of_mem_rounds {δ : Type} {i n : Nat} {m : Move δ} (hm : m ∈ rounds i n) :
    m.IsOwn i := by
  obtain ⟨round, hround, hm⟩ := List.mem_flatten.mp hm
  rw [List.eq_of_mem_replicate hround] at hm
  obtain rfl | rfl : m = .turn i ∨ m = .takeRecord := by simpa using hm
  · rfl
  · trivial

namespace Stage

variable {σ κ δ : Type} {client : Client σ κ} {alter : δ → σ → σ} {x y : Stage σ κ} {i waits : Nat}
  {p : PartitionId} {plan : Plan} {raws : List RawRecord} {stop : Option Failure}
  {total : Prospect}

/-- A worker before its first turn, in a read that nobody stops, with a script ahead of it and a
slot of the channel that no other worker holds. -/
structure Alone (client : Client σ κ) (i : Nat) (p : PartitionId) (plan : Plan)
    (raws : List RawRecord) (stop : Option Failure) (x : Stage σ κ) : Prop where
  present : x.read.workers[i]? = some (.start p plan)
  fresh : x.actsOf i = []
  live : x.read.shared.cancelled = false
  listening : x.read.shared.channel.receiving = true
  room : x.read.shared.channel.reserved < x.read.shared.channel.capacity
  opens : ∃ c s waits, client.openCursor x.state ⟨x.read.job.topic, p⟩ plan.start
    (!plan.isBounded) = (.opened c, s) ∧ client.Plays s c waits raws stop

/-- The worker is there and has the rest of `total` ahead of it. -/
def Pursues (client : Client σ κ) (i : Nat) (stop : Option Failure) (total : Prospect)
    (waits : Nat) (x : Stage σ κ) : Prop :=
  ∃ w, x.read.workers[i]? = some w ∧
    w.Pursues client x.read.job stop total waits (x.actsOf i) x.state x.read.shared

/-- How many rounds there still are at most.  An act counts twice, since it may queue a record. -/
def lag (i : Nat) (total : Prospect) (waits : Nat) (x : Stage σ κ) : Nat :=
  2 * (total.acts.length - (x.actsOf i).length) + waits + x.read.shared.channel.queue.length

@[simp] theorem actsOf_takeRecord (x : Stage σ κ) (i : Nat) :
    x.takeRecord.actsOf i = x.actsOf i := by
  cases hq : x.read.shared.channel.queue with
  | nil => cases hover : x.read.isOver <;> simp [takeRecord, Read.takeRecord, hq, hover]
  | cons a rest => simp [takeRecord, Read.takeRecord, hq, Deed.actOf?]

@[simp] theorem queue_takeRecord (x : Stage σ κ) :
    x.takeRecord.read.shared.channel.queue = x.read.shared.channel.queue.tail := by
  cases hq : x.read.shared.channel.queue with
  | nil => cases hover : x.read.isOver <;> simp [takeRecord, Read.takeRecord, hq, hover]
  | cons a rest => simp [takeRecord, Read.takeRecord, hq]

theorem Alone.pursues (h : x.Alone client i p plan raws stop) : ∃ waits, x.Pursues client i stop
    (.whole x.read.job p plan stop raws x.read.shared.counter) waits := by
  obtain ⟨c, s, waits, hopens, hplays⟩ := h.opens
  refine ⟨waits, _, h.present, h.listening, fun _ ↦ h.live, Nat.zero_le _, h.room, raws,
    ⟨c, s, hopens, hplays⟩, ?_⟩
  rw [h.fresh]
  rfl

namespace Pursues

variable (h : x.Pursues client i stop total waits)

include h

theorem length_le : (x.actsOf i).length ≤ total.acts.length := by
  obtain ⟨w, -, h⟩ := h
  exact h.length_le

theorem turn : ∃ n ≤ waits, ∃ act : Option Act, (x.turn client i).Pursues client i stop total n ∧
    (x.turn client i).actsOf i = x.actsOf i ++ act.toList ∧
    (x.turn client i).read.shared.channel.queue.length ≤
      x.read.shared.channel.queue.length + act.toList.length ∧
    (act = none →
      total.acts.length ≤ (x.actsOf i).length ∨ x.read.shared.channel.queue ≠ [] ∨ n < waits) := by
  obtain ⟨w, hw, h⟩ := h
  obtain ⟨n, hn, hturn, hwait⟩ := h.turn
  have hstep := Worker.step_turn client x.read.job x.state x.read.shared w
  rw [turn_eq_after hw, actsOf_after_self]
  refine ⟨n, hn, _, ⟨_, List.getElem?_set_self (List.getElem?_eq_some_iff.mp hw).1, ?_⟩, rfl, ?_,
    fun hact ↦ ?_⟩
  · rw [actsOf_after_self]
    exact hturn
  · simp only [after]
    rw [hstep.queue_eq, if_pos h.listening, List.length_append]
    cases w.act? client x.read.job x.state x.read.shared with
    | none => exact Nat.le_refl _
    | some act => exact Nat.add_le_add_left (Option.length_toList_le) _
  · obtain hover | hfull | hless := hwait hact
    · exact .inl (h.exists_finished_iff.mp (h.exists_finished_of_isOver hover))
    · refine .inr (.inl fun hnil ↦ ?_)
      have hslot : w.phase.holdsSlot = false :=
        Bool.not_eq_true _ ▸ fun hslot ↦ act_ne_none_of_holdsSlot hslot _ _ _ hact
      have hroom := h.room
      simp only [hslot, Bool.toNat_false, Channel.hasRoom, hnil, List.length_nil,
        decide_eq_false_iff_not] at hroom hfull
      omega
    · exact .inr (.inr hless)

/-- Another move of its own, or of the caller, keeps the worker from nothing. -/
theorem next {m : Move δ} (hm : x.Next client alter m y) (hown : m.IsOwn i)
    (hturn : ∀ j, m ≠ .turn j) : y.Pursues client i stop total waits := by
  obtain ⟨w, hw, h⟩ := h
  cases hm
  case unchanged => exact ⟨w, hw, h⟩
  case worked j v v' act s sh hv hstep => exact absurd rfl (hturn j)
  case collected j v report hv hreport hfresh =>
    obtain rfl : j = i := hown
    obtain rfl := Option.some.inj (hw.symm.trans hv)
    refine ⟨w, hw, ?_⟩
    simp only [actsOf_note, Deed.actOf?, Option.toList_none, List.append_nil]
    refine h.congr (Worker.counter_ite_cancel _) (fun hgoing ↦ ?_) ?_ ?_ ?_
    · rw [Worker.outcome_of_report hreport] at hgoing
      cases hgoing
    all_goals simp
  case took a rest hqueue =>
    refine ⟨w, hw, ?_⟩
    simp only [actsOf_note, Deed.actOf?, Option.toList_none, List.append_nil]
    exact h.congr rfl (fun _ ↦ rfl) rfl rfl rfl
  case heard f rest hqueue =>
    refine ⟨w, hw, ?_⟩
    simp only [actsOf_note, Deed.actOf?, Option.toList_none, List.append_nil]
    exact h.congr rfl (fun _ ↦ rfl) rfl rfl rfl
  case cancelled => exact hown.elim
  case left => exact hown.elim
  case altered change => exact hown.elim

theorem step {m : Move δ} (hown : m.IsOwn i) :
    ∃ n, (x.step client alter m).Pursues client i stop total n := by
  cases m with
  | turn j =>
      obtain rfl : j = i := hown
      obtain ⟨n, -, -, hn, -⟩ := h.turn
      exact ⟨n, hn⟩
  | _ => exact ⟨waits, h.next (next_step alter _) hown nofun⟩

theorem round {k : Nat}
    (hk : total.acts.length ≤ (x.actsOf i).length ∨ lag i total waits x ≤ k + 1) :
    ∃ n, (x.turn client i).takeRecord.Pursues client i stop total n ∧
      (total.acts.length ≤ ((x.turn client i).takeRecord.actsOf i).length ∨
        lag i total n (x.turn client i).takeRecord ≤ k) := by
  obtain ⟨n, hn, act, hturn, hacts, hqueue, hwait⟩ := h.turn
  refine ⟨n, hturn.next (next_step Empty.elim .takeRecord) trivial nofun, ?_⟩
  have hlength := congrArg List.length hacts
  have hle := hturn.length_le
  rw [List.length_append] at hlength
  simp only [lag, actsOf_takeRecord, queue_takeRecord, List.length_tail] at hk ⊢
  cases act with
  | none =>
      simp only [Option.toList_none, List.length_nil, Nat.add_zero] at hlength hqueue
      obtain hdone | hfull | hless := hwait rfl
      · exact .inl (by omega)
      · have hpos := List.length_pos_iff.mpr hfull
        omega
      · omega
  | some act =>
      simp only [Option.toList_some, List.length_singleton] at hlength hqueue
      omega

/-- The worker needs no more rounds than it lags behind. -/
theorem rounds (k : Nat)
    (hk : total.acts.length ≤ (x.actsOf i).length ∨ lag i total waits x ≤ k) :
    ∃ n, (x.play client alter (Move.rounds i k)).Pursues client i stop total n ∧
      total.acts.length ≤ ((x.play client alter (Move.rounds i k)).actsOf i).length := by
  induction k generalizing x waits with
  | zero =>
      refine ⟨waits, h, hk.elim id fun hlag ↦ ?_⟩
      rw [lag] at hlag
      simp only [Move.rounds, List.replicate_zero, List.flatten_nil, play_nil]
      omega
  | succ k ih =>
      obtain ⟨n, hn, hround⟩ := h.round hk
      exact ih hn hround

theorem play (moves : List (Move δ)) (hown : ∀ m ∈ moves, m.IsOwn i) :
    ∃ n, (x.play client alter moves).Pursues client i stop total n :=
  play_keeps client alter x (P := fun y ↦ ∃ n, y.Pursues client i stop total n) ⟨waits, h⟩ moves
    fun _ m hm ⟨_, hy⟩ ↦ hy.step (hown m hm)

theorem exists_finished : ∃ enough, ∀ n ≥ enough, ∃ w outcome,
    (x.play client alter (Move.rounds i n)).read.workers[i]? = some w ∧
      w.phase = .finished outcome := by
  refine ⟨lag i total waits x, fun n hn ↦ ?_⟩
  obtain ⟨m, ⟨w, hw, hpursues⟩, hlength⟩ : ∃ m,
      (x.play client alter (Move.rounds i n)).Pursues client i stop total m ∧
        total.acts.length ≤ ((x.play client alter (Move.rounds i n)).actsOf i).length :=
    h.rounds n (.inr hn)
  obtain ⟨outcome, phase⟩ := hpursues.exists_finished_iff.mpr hlength
  exact ⟨w, outcome, hw, phase⟩

end Pursues

/-- What the worker has sent and reported comes behind what there was before, and has been given to
the caller or is queued. -/
structure Passes (i : Nat) (x y : Stage σ κ) : Prop where
  listening : y.read.shared.channel.receiving = true
  records_eq : y.taken ++ y.read.shared.channel.queue =
    x.taken ++ x.read.shared.channel.queue ++ sentIn (y.actsOf i)
  failures_eq : y.heard ++ y.read.shared.errors =
    x.heard ++ x.read.shared.errors ++ failedIn (y.actsOf i)

theorem Passes.next {z : Stage σ κ} (h : x.Passes i y) {m : Move δ}
    (hm : y.Next client alter m z) (hown : m.IsOwn i) : x.Passes i z := by
  obtain ⟨hlistening, hrecords, hfailures⟩ := h
  cases hm
  case unchanged => exact ⟨hlistening, hrecords, hfailures⟩
  case worked j w w' act s sh hw hstep =>
    obtain rfl : j = i := hown
    refine ⟨hstep.receiving_eq.trans hlistening, ?_, ?_⟩
    · rw [taken_after, actsOf_after_self, sentIn_step, ← List.append_assoc, ← hrecords]
      simp only [after]
      rw [hstep.queue_eq, if_pos hlistening, List.append_assoc]
    · rw [heard_after, actsOf_after_self, failedIn_step, ← List.append_assoc, ← hfailures]
      simp only [after]
      rw [hstep.errors_eq, if_pos hlistening, List.append_assoc]
  case collected =>
    refine ⟨?_, ?_, ?_⟩
    · simpa using hlistening
    · simpa [Deed.took?, Deed.actOf?] using hrecords
    · simpa [Deed.heard?, Deed.actOf?] using hfailures
  case took a rest hqueue =>
    rw [hqueue] at hrecords
    refine ⟨hlistening, ?_, ?_⟩
    · simpa [Deed.took?, Deed.actOf?] using hrecords
    · simpa [Deed.heard?, Deed.actOf?] using hfailures
  case heard f rest hqueue =>
    rw [hqueue] at hfailures
    refine ⟨hlistening, ?_, ?_⟩
    · simpa [Deed.took?, Deed.actOf?] using hrecords
    · simpa [Deed.heard?, Deed.actOf?] using hfailures
  case cancelled => exact hown.elim
  case left => exact hown.elim
  case altered change => exact hown.elim

theorem Alone.passes (h : x.Alone client i p plan raws stop) (moves : List (Move δ))
    (hown : ∀ m ∈ moves, m.IsOwn i) : x.Passes i (x.play client alter moves) := by
  have hfresh := h.fresh
  refine play_keeps client alter x (P := x.Passes i) ⟨h.listening, ?_, ?_⟩ moves
    fun y m hm hy ↦ hy.next (next_step alter m) (hown m hm)
  · rw [hfresh]
    exact (List.append_nil _).symm
  · rw [hfresh]
    exact (List.append_nil _).symm

/-- A worker by itself, whose cursor plays a finite script, comes to its end, whenever its caller
goes on taking records.  Whatever the order of the moves until then, it has closed its cursor
at once if the plan is empty, and otherwise the records, the plan, the filter and the room left
conclude what it has sent, how it ends and how far it has read.  What it has sent and reported comes
to the caller, in that order. -/
theorem lone_worker_reads_script (h : x.Alone client i p plan raws stop) (moves : List (Move δ))
    (hown : ∀ m ∈ moves, m.IsOwn i) :
    let y := x.play client alter moves
    x.Passes i y ∧
    (∀ w outcome, y.read.workers[i]? = some w → w.phase = .finished outcome →
      (plan.isEmpty = true → outcome = .completed ∧ y.actsOf i = [.opened, .closed]) ∧
      (plan.isEmpty = false → Prospect.Concludes x.read.job p plan x.read.shared.counter raws stop
        ⟨y.actsOf i, outcome⟩)) ∧
    ∃ enough, ∀ n ≥ enough, ∃ w outcome,
      (y.play client alter (Move.rounds i n)).read.workers[i]? = some w ∧
        w.phase = .finished outcome := by
  intro y
  obtain ⟨waits, hstart⟩ := h.pursues
  obtain ⟨left, hy⟩ : ∃ left, y.Pursues client i stop
      (.whole x.read.job p plan stop raws x.read.shared.counter) left := hstart.play moves hown
  refine ⟨h.passes moves hown, fun w outcome hw phase ↦ ?_, hy.exists_finished⟩
  obtain ⟨v, hv, hpursues⟩ := hy
  obtain rfl := Option.some.inj (hv.symm.trans hw)
  rw [← hpursues.eq_of_finished phase]
  refine ⟨fun hempty ↦ ?_, Prospect.concludes_whole⟩
  have heq := (hpursues.eq_of_finished phase).symm.trans (Prospect.whole_of_isEmpty hempty)
  obtain ⟨hacts, houtcome⟩ := Prospect.mk.inj heq
  exact ⟨houtcome, hacts⟩

/-- The last offset of the plan is never delivered, and the record behind it ends the worker. -/
def gappyRecords : List RawRecord :=
  [⟨none, some [97], 0, 0, some 0, []⟩, ⟨none, some [98], 0, 1, some 0, []⟩,
    ⟨none, some [99], 0, 4, some 0, []⟩]

def gappyStage : Stage Script ScriptCursor :=
  start { partitions := [(0, ⟨.ok 0, .ok 3, false, .opens, gappyRecords.map .record⟩)] }
    (.make (sampleRequest .beginning 4) .lossy 1 false [(0, ⟨0, some 2⟩)])

theorem lone_worker_reads_gap :
    let y := gappyStage.play Script.client Empty.elim (Move.rounds 0 12)
    gappyStage.Alone Script.client 0 0 ⟨0, some 2⟩ gappyRecords none ∧
      (∀ m ∈ (Move.rounds 0 12 : List (Move Empty)), m.IsOwn 0) ∧
      gappyStage.Passes 0 y ∧
      Prospect.Concludes gappyStage.read.job 0 ⟨0, some 2⟩ gappyStage.read.shared.counter
        gappyRecords none ⟨y.actsOf 0, .completed⟩ := by
  have halone : gappyStage.Alone Script.client 0 0 ⟨0, some 2⟩ gappyRecords none :=
    ⟨rfl, rfl, rfl, rfl, by decide, _, _, _, rfl,
      .record rfl (.record rfl (.record rfl (.ended rfl)))⟩
  have hown : ∀ m ∈ (Move.rounds 0 12 : List (Move Empty)), m.IsOwn 0 :=
    fun _ ↦ Move.isOwn_of_mem_rounds
  have hends : (gappyStage.play Script.client Empty.elim (Move.rounds 0 12)).read.workers[0]?.map
      (·.phase) = some (.finished .completed) := rfl
  obtain ⟨w, hw, phase⟩ := Option.map_eq_some_iff.mp hends
  have hpasses : gappyStage.Passes 0
      (gappyStage.play Script.client Empty.elim (Move.rounds 0 12)) :=
    (lone_worker_reads_script halone _ hown).1
  exact ⟨halone, hown, hpasses, ((lone_worker_reads_script halone _ hown).2.1 w _ hw phase).2 rfl⟩

end Stage
end TopicView
