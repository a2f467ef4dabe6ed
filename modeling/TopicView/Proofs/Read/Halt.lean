import TopicView.Proofs.Log.Segment
import TopicView.Proofs.Read.Caller
import TopicView.Proofs.Read.Window

/-!
# Bounded workers halt

The loop of a worker counts nothing.  What ends it is that the records of its cursor go up: each of
them that does not end the loop takes up an offset below the last of the plan, so the worker comes
back to its cursor once at most for each offset of its plan.  Between two such moments it takes a
few turns, and in all others it is held up from outside.
-/

namespace TopicView

open Act

namespace Plan

variable {plan : Plan} {raw : RawRecord} {raws : List RawRecord}

/-- The records of a cursor that starts where the plan does and never goes back. -/
structure Rising (plan : Plan) (raws : List RawRecord) : Prop where
  ascending : raws.Pairwise fun a b ↦ a.offset < b.offset
  start_le : ∀ raw ∈ raws, plan.start ≤ raw.offset

/-- The plan is not empty, and all these records lie below its last offset. -/
def Undecided (plan : Plan) (raws : List RawRecord) : Prop :=
  ∃ last, plan.last = some last ∧ plan.start ≤ last ∧ ∀ raw ∈ raws, raw.offset < last

theorem undecided_nil (hbounded : plan.isBounded = true) (hempty : plan.isEmpty = false) :
    plan.Undecided [] := by
  obtain ⟨last, hlast⟩ := Option.isSome_iff_exists.mp hbounded
  refine ⟨last, hlast, ?_, nofun⟩
  simpa [isEmpty, hlast, Std.not_lt] using hempty

theorem Undecided.concat (h : plan.Undecided raws) (hpast : Worker.isPast plan raw.offset = false)
    (hend : plan.last ≠ some raw.offset) : plan.Undecided (raws ++ [raw]) := by
  obtain ⟨last, hlast, hstart, hbelow⟩ := h
  refine ⟨last, hlast, hstart, fun r hr ↦ ?_⟩
  obtain hr | hr := List.mem_append.mp hr
  · exact hbelow r hr
  · obtain rfl := List.mem_singleton.mp hr
    have hle : r.offset ≤ last := by simpa [Worker.isPast, hlast, Std.not_lt] using hpast
    have hne : r.offset ≠ last := fun heq ↦ hend (heq ▸ hlast)
    exact Std.lt_of_le_of_ne hle hne

/-- Between two offsets there is room for so many records. -/
theorem length_le_of_ascending {lo hi : Int} (hle : lo ≤ hi)
    (hascending : raws.Pairwise fun a b ↦ a.offset < b.offset)
    (hlo : ∀ raw ∈ raws, lo ≤ raw.offset.toInt) (hhi : ∀ raw ∈ raws, raw.offset.toInt < hi) :
    lo + raws.length ≤ hi := by
  induction raws generalizing lo with
  | nil => simpa using hle
  | cons raw raws ih =>
      obtain ⟨hfirst, hrest⟩ := List.pairwise_cons.mp hascending
      have hraw := hlo raw List.mem_cons_self
      have hraw' := hhi raw List.mem_cons_self
      have hnext : raw.offset.toInt + 1 + raws.length ≤ hi :=
        ih (by omega) hrest (fun r hr ↦ Int64.lt_iff_toInt_lt.mp (hfirst r hr))
          fun r hr ↦ hhi r (List.mem_cons_of_mem raw hr)
      rw [List.length_cons]
      omega

theorem Undecided.length_lt (h : plan.Undecided raws) (hrising : plan.Rising raws) :
    raws.length < plan.size := by
  obtain ⟨last, hlast, hstart, hbelow⟩ := h
  have hend : plan.endOffset = last := by rw [endOffset, hlast, Option.getD_some]
  have hroom := length_le_of_ascending (Int64.le_iff_toInt_le.mp hstart) hrising.ascending
    (fun raw hraw ↦ Int64.le_iff_toInt_le.mp (hrising.start_le raw hraw))
    fun raw hraw ↦ Int64.lt_iff_toInt_lt.mp (hbelow raw hraw)
  rw [size, hend]
  omega

theorem size_eq_zero (h : plan.isEmpty = true) : plan.size = 0 := by
  unfold isEmpty at h
  split at h
  · next last hlast =>
      have hlt := Int64.lt_iff_toInt_lt.mp (of_decide_eq_true h)
      rw [size, endOffset, hlast, Option.getD_some]
      omega
  · cases h

theorem Rising.of_prefix {more : List RawRecord} (h : plan.Rising more) (hpre : raws <+: more) :
    plan.Rising raws :=
  ⟨h.ascending.sublist hpre.sublist, fun raw hraw ↦ h.start_le raw (hpre.subset hraw)⟩

end Plan

/-! ## One turn of a worker -/

def Opening.isWaiting {κ : Type} : Opening κ → Bool
  | waiting => true
  | opened _ | failed _ | crashed => false

def Pull.isWaiting : Pull → Bool
  | waiting => true
  | record _ | ended | failed _ | crashed => false

namespace Phase

variable {κ : Type}

def isPulling : Phase κ → Bool
  | pulling _ => true
  | _ => false

theorem actsAhead_pos {phase : Phase κ} (h : phase.isOver = false) : 0 < phase.actsAhead := by
  cases phase <;> first | exact Nat.zero_lt_succ _ | cases h

end Phase

namespace Worker

variable {σ κ : Type} {client : Client σ κ} {job : Job} {s s' : σ} {sh sh' : Shared}
  {w w' : Worker κ} {acts acts' : List Act} {act : Option Act} {n : Nat}

/-- The worker waits for its cursor to open, for the next record, or for room in the channel. -/
def isHeldUp (client : Client σ κ) (job : Job) (s : σ) (sh : Shared) (w : Worker κ) : Bool :=
  match w.phase with
  | .opening => !sh.cancelled && (client.openCursor s ⟨job.topic, w.partition⟩ w.plan.start
      (!w.plan.isBounded)).1.isWaiting
  | .pulling cursor => !sh.cancelled && (client.pull s cursor).1.isWaiting
  | .reserving _ _ => !sh.cancelled && sh.channel.receiving && !sh.channel.hasRoom
  | _ => false

/-- The worker's question for the next record comes to its end: it is answered, or the worker is
stopped while it waits for the answer. -/
def endsPull (client : Client σ κ) (job : Job) (s : σ) (sh : Shared) (w : Worker κ) : Bool :=
  w.phase.isPulling && (w.act? client job s sh).isSome

/-- A worker that is not held up acts until it is over. -/
theorem isSome_act (hgoing : w.phase.isOver = false)
    (hfree : w.isHeldUp client job s sh = false) : (w.act? client job s sh).isSome = true := by
  unfold isHeldUp at hfree
  unfold act?
  cases hphase : w.phase with
  | opening =>
      rw [hphase] at hfree
      cases hc : sh.cancelled with
      | true => rfl
      | false =>
          cases hanswer : (client.openCursor s ⟨job.topic, w.partition⟩ w.plan.start
            (!w.plan.isBounded)).1 <;> simp_all [Opening.isWaiting]
  | pulling cursor =>
      rw [hphase] at hfree
      cases hc : sh.cancelled with
      | true => rfl
      | false => cases hanswer : (client.pull s cursor).1 <;> simp_all [Pull.isWaiting]
  | reserving cursor parcel =>
      rw [hphase] at hfree
      cases hc : sh.cancelled <;> cases hr : sh.channel.receiving <;>
        cases hroom : sh.channel.hasRoom <;> simp_all
  | finished outcome =>
      rw [hphase] at hgoing
      cases hgoing
  | crashed =>
      rw [hphase] at hgoing
      cases hgoing
  | _ => rfl

/-- Where a worker comes back to its cursor, every time before has brought a record, and none of
these has decided how it ends. -/
structure Asking (n : Nat) (acts : List Act) (w : Worker κ) : Prop where
  bounded : w.plan.isBounded = true
  opening : w.phase = .opening → n = 0 ∧ pulledIn acts = []
  pulling : w.phase.isPulling = true →
    n = (pulledIn acts).length + 1 ∧ w.plan.Undecided (pulledIn acts)
  onward : ∀ parcel, w.phase.parcel? = some parcel → parcel.isLast = false →
    n = (pulledIn acts).length ∧ w.plan.Undecided (pulledIn acts)
  pulled_le : (pulledIn acts).length ≤ n
  le_size : w.plan.Rising (pulledIn acts) → n ≤ w.plan.size

theorem asking_start {p : PartitionId} {plan : Plan} (h : plan.isBounded = true) :
    (start p plan : Worker κ).Asking 0 [] :=
  ⟨h, fun _ ↦ ⟨rfl, rfl⟩, nofun, nofun, Nat.le_refl 0, fun _ ↦ Nat.zero_le _⟩

/-- A worker that comes no closer to its cursor. -/
theorem Asking.keep (h : w.Asking n acts) (hplan : w'.plan = w.plan)
    (hpulled : pulledIn acts' = pulledIn acts)
    (hopening : w'.phase = .opening → w.phase = .opening)
    (hpulling : w'.phase.isPulling = true → w.phase.isPulling = true)
    (hparcel : ∀ parcel, w'.phase.parcel? = some parcel → w.phase.parcel? = some parcel) :
    w'.Asking n acts' where
  bounded := hplan ▸ h.bounded
  opening hphase := hpulled ▸ h.opening (hopening hphase)
  pulling hphase := by
    rw [hplan, hpulled]
    exact h.pulling (hpulling hphase)
  onward parcel hphase := by
    rw [hplan, hpulled]
    exact h.onward parcel (hparcel parcel hphase)
  pulled_le := hpulled ▸ h.pulled_le
  le_size := by
    rw [hplan, hpulled]
    exact h.le_size

theorem asking_pulling {cursor : κ} (hbounded : w'.plan.isBounded = true)
    (hphase : w'.phase = .pulling cursor) (hundecided : w'.plan.Undecided (pulledIn acts))
    (hn : n = (pulledIn acts).length) : w'.Asking (n + 1) acts where
  bounded := hbounded
  opening hopening := by
    rw [hphase] at hopening
    cases hopening
  pulling _ := ⟨congrArg (· + 1) hn, hundecided⟩
  onward parcel hparcel _ := by
    rw [hphase] at hparcel
    cases hparcel
  pulled_le := Nat.le_succ_of_le (Nat.le_of_eq hn.symm)
  le_size hrising := hn ▸ hundecided.length_lt hrising

theorem asking_reserving {cursor : κ} {parcel : Parcel} (hbounded : w'.plan.isBounded = true)
    (hphase : w'.phase = .reserving cursor parcel)
    (honward : parcel.isLast = false → w'.plan.Undecided (pulledIn acts))
    (hn : n = (pulledIn acts).length)
    (hsize : w'.plan.Rising (pulledIn acts) → n ≤ w'.plan.size) : w'.Asking n acts where
  bounded := hbounded
  opening hopening := by
    rw [hphase] at hopening
    cases hopening
  pulling hpulling := by
    rw [hphase] at hpulling
    cases hpulling
  onward parcel' hparcel hlast := by
    rw [hphase] at hparcel
    cases hparcel
    exact ⟨hn, honward hlast⟩
  pulled_le := Nat.le_of_eq hn.symm
  le_size := hsize

/-- A worker with a cursor that it does not come back to. -/
theorem asking_ending {cursor : κ} (hbounded : w'.plan.isBounded = true)
    (hcursor : w'.phase.cursor? = some cursor) (hpulling : w'.phase.isPulling = false)
    (hparcel : w'.phase.parcel? = none) (hle : (pulledIn acts).length ≤ n)
    (hsize : w'.plan.Rising (pulledIn acts) → n ≤ w'.plan.size) : w'.Asking n acts where
  bounded := hbounded
  opening hopening := by
    rw [hopening] at hcursor
    cases hcursor
  pulling hpulling' := absurd hpulling' (Bool.eq_false_iff.mp hpulling)
  onward parcel hparcel' _ := by
    rw [hparcel] at hparcel'
    cases hparcel'
  pulled_le := hle
  le_size := hsize

theorem Asking.opened {cursor : κ} (h : w.Asking n acts) (hphase : w.phase = .opening) :
    (w.go (w.afterOpening cursor)).Asking
      (n + (w.go (w.afterOpening cursor)).phase.isPulling.toNat) (acts ++ [.opened]) := by
  obtain ⟨rfl, hnone⟩ := h.opening hphase
  have hpulled : pulledIn (acts ++ [.opened]) = [] := by simpa [pulledIn, raw?] using hnone
  obtain ⟨hempty, hgo⟩ | ⟨-, hgo⟩ := afterOpening_cases w cursor
  · rw [hgo]
    refine asking_pulling h.bounded rfl ?_ ?_ <;> rw [hpulled]
    · exact Plan.undecided_nil h.bounded hempty
    · rfl
  · rw [hgo]
    refine asking_ending h.bounded rfl rfl rfl ?_ fun _ ↦ Nat.zero_le _
    rw [hpulled]
    exact Nat.le_refl 0

theorem Asking.pulled {cursor cursor' : κ} {raw : RawRecord} (h : w.Asking n acts)
    (hphase : w.phase = .pulling cursor) :
    (w.go (examine job w cursor' raw)).Asking
      (n + (w.go (examine job w cursor' raw)).phase.isPulling.toNat) (acts ++ [.pulled raw]) := by
  obtain ⟨hn, hundecided⟩ := h.pulling (by rw [hphase]; rfl)
  have hpulled : pulledIn (acts ++ [.pulled raw]) = pulledIn acts ++ [raw] :=
    pulledIn_step acts (some (.pulled raw))
  have hn' : n = (pulledIn (acts ++ [.pulled raw])).length := by
    rw [hn, hpulled, List.length_append, List.length_singleton]
  have hsize (hrising : w.plan.Rising (pulledIn (acts ++ [.pulled raw]))) : n ≤ w.plan.size :=
    h.le_size (hrising.of_prefix (hpulled ▸ List.prefix_append _ _))
  have honward (hpast : isPast w.plan raw.offset = false) (hend : w.plan.last ≠ some raw.offset) :
      w.plan.Undecided (pulledIn (acts ++ [.pulled raw])) :=
    hpulled ▸ hundecided.concat hpast hend
  obtain ⟨-, hgo⟩ | ⟨hpast, -, hgo⟩ | ⟨hpast, -, hgo⟩ := examine_cases job w cursor' raw
  · rw [hgo]
    exact asking_ending h.bounded rfl rfl rfl (Nat.le_of_eq hn'.symm) hsize
  · rw [hgo]
    exact asking_reserving h.bounded rfl (fun hlast ↦ honward hpast (by simpa using hlast)) hn'
      hsize
  · obtain ⟨hlast, hgo'⟩ | ⟨-, hgo'⟩ := afterRecord_cases cursor' (w.plan.last = some raw.offset)
    · rw [hgo, hgo']
      exact asking_pulling h.bounded rfl (honward hpast (by simpa using hlast)) hn'
    · rw [hgo, hgo']
      exact asking_ending h.bounded rfl rfl rfl (Nat.le_of_eq hn'.symm) hsize

theorem Asking.sent {cursor : κ} {parcel : Parcel} {reachedLimit : Bool} {emitted : UInt64}
    (h : w.Asking n acts) (hphase : w.phase = .sending cursor parcel reachedLimit) :
    ({ w with emitted, phase := afterSending cursor parcel reachedLimit } : Worker κ).Asking
      (n + (afterSending cursor parcel reachedLimit).isPulling.toNat)
      (acts ++ [.sent parcel.record]) := by
  have hpulled : pulledIn (acts ++ [.sent parcel.record]) = pulledIn acts := by
    simp [pulledIn, raw?]
  obtain ⟨-, hgo⟩ | ⟨-, hlast, hgo⟩ | ⟨-, -, hgo⟩ := afterSending_cases cursor parcel reachedLimit
  · rw [hgo]
    exact asking_ending h.bounded rfl rfl rfl (hpulled ▸ h.pulled_le) (hpulled ▸ h.le_size)
  · obtain ⟨hn, hundecided⟩ := h.onward parcel (by rw [hphase]; rfl) hlast
    rw [hgo]
    exact asking_pulling h.bounded rfl (hpulled ▸ hundecided) (hpulled ▸ hn)
  · rw [hgo]
    exact asking_ending h.bounded rfl rfl rfl (hpulled ▸ h.pulled_le) (hpulled ▸ h.le_size)

theorem Asking.step (h : w.Asking n acts) (hstep : w.Step client job s sh act s' sh' w') :
    w'.Asking (n + (act.isSome && w'.phase.isPulling).toNat) (acts ++ act.toList) := by
  cases hstep
  case opened cursor phase live answer => exact h.opened phase
  case pulled cursor cursor' raw phase live answer => exact h.pulled phase
  case sent cursor parcel reachedLimit phase => exact h.sent phase
  all_goals
    refine h.keep rfl ?_ ?_ ?_ ?_
    · simp [pulledIn, raw?]
    all_goals simp_all [go, Phase.isPulling, Phase.parcel?]

theorem Step.isPulling_of_idle (h : w.Step client job s sh none s' sh' w') :
    w'.phase.isPulling = w.phase.isPulling := by
  cases h
  case idle => rfl
  case waited cursor cursor' phase live answer =>
    rw [phase]
    rfl

/-- A worker after some turns, in some of which it was held up, and in some of which a pull
ended. -/
structure Paced (turns waits pulls : Nat) (acts : List Act) (w : Worker κ) : Prop where
  asking : w.Asking (pulls + w.phase.isPulling.toNat) acts
  acts_le : acts.length + w.phase.actsAhead ≤ 4 * (pulledIn acts).length + 3
  turns_le : w.phase.isOver = true ∨ turns ≤ acts.length + waits

theorem paced_start {p : PartitionId} {plan : Plan} (h : plan.isBounded = true) :
    (start p plan : Worker κ).Paced 0 0 0 [] :=
  ⟨asking_start h, Nat.le_refl 3, .inr (Nat.le_refl 0)⟩

variable {turns waits pulls : Nat}

theorem Asking.turn (h : w.Asking (pulls + w.phase.isPulling.toNat) acts) :
    (w.turn client job s sh).worker.Asking
      (pulls + (w.endsPull client job s sh).toNat +
        (w.turn client job s sh).worker.phase.isPulling.toNat)
      (acts ++ (w.act? client job s sh).toList) := by
  have hstep := step_turn client job s sh w
  have hnext := h.step hstep
  unfold endsPull
  cases hact : w.act? client job s sh with
  | none =>
      rw [hact] at hstep hnext
      rw [hstep.isPulling_of_idle]
      simpa using hnext
  | some a =>
      rw [hact] at hnext
      simpa using hnext

theorem Paced.turn (h : w.Paced turns waits pulls acts) :
    (w.turn client job s sh).worker.Paced (turns + 1)
      (waits + (w.isHeldUp client job s sh).toNat)
      (pulls + (w.endsPull client job s sh).toNat) (acts ++ (w.act? client job s sh).toList) := by
  have hstep := step_turn client job s sh w
  refine ⟨h.asking.turn, ?_, ?_⟩
  · have hahead := hstep.actsAhead_le
    have hacts := h.acts_le
    rw [pulledIn_step, List.length_append, List.length_append]
    omega
  · cases hover : w.phase.isOver with
    | true =>
        obtain ⟨-, -, -, hsame⟩ := hstep.eq_of_isOver hover
        rw [hsame]
        exact .inl hover
    | false =>
        have hturns : turns ≤ acts.length + waits := by simpa [hover] using h.turns_le
        refine .inr ?_
        rw [List.length_append]
        cases hheld : w.isHeldUp client job s sh with
        | true =>
            rw [Bool.toNat_true]
            omega
        | false =>
            obtain ⟨a, ha⟩ := Option.isSome_iff_exists.mp (isSome_act hover hheld)
            rw [ha, Option.toList_some, List.length_singleton]
            omega

/-- A worker pulls at most as often as its plan names offsets, which counts the pull that it may be
waiting for, and not at all where there are none.  Turns in which it is held up apart, it is over
after a number of turns. -/
structure Halts (plan : Plan) (turns waits pulls : Nat) (w : Worker κ) : Prop where
  pulls_le : pulls + w.phase.isPulling.toNat ≤ plan.size
  empty : plan.isEmpty = true → pulls = 0 ∧ w.phase.isPulling = false
  reported : 4 * plan.size + 3 + waits ≤ turns → ∃ report, w.report? = some report

theorem Paced.halts (h : w.Paced turns waits pulls acts)
    (hrising : w.plan.Rising (pulledIn acts)) : w.Halts w.plan turns waits pulls := by
  have hpulls := h.asking.le_size hrising
  refine ⟨hpulls, fun hempty ↦ ?_, fun hturns ↦ ?_⟩
  · rw [Plan.size_eq_zero hempty, Nat.le_zero, Nat.add_eq_zero_iff] at hpulls
    exact ⟨hpulls.1, Bool.toNat_eq_zero.mp hpulls.2⟩
  · cases hover : w.phase.isOver with
    | true => exact Option.isSome_iff_exists.mp (isSome_report hover)
    | false =>
        have hpulled := h.asking.pulled_le
        have hacts := h.acts_le
        have hahead := Phase.actsAhead_pos hover
        have hle : turns ≤ acts.length + waits := by simpa [hover] using h.turns_le
        omega

end Worker

/-! ## Along a course -/

def Move.isTurn {δ : Type} (i : Nat) : Move δ → Bool
  | turn j => j = i
  | _ => false

namespace Stage

variable {σ κ δ : Type} {client : Client σ κ} {alter : δ → σ → σ} {x y : Stage σ κ} {i : Nat}
  {plan : Plan}

/-- Something holds of a worker as it stands, before its turn. -/
def workerMeets (i : Nat) (p : Job → σ → Shared → Worker κ → Bool) (x : Stage σ κ) : Bool :=
  x.read.workers[i]?.any (p x.read.job x.state x.read.shared)

/-- How many turns a worker takes in a course when something holds of it. -/
def turnsWhere (client : Client σ κ) (alter : δ → σ → σ) (i : Nat)
    (p : Job → σ → Shared → Worker κ → Bool) : Stage σ κ → List (Move δ) → Nat
  | _, [] => 0
  | x, m :: moves =>
    (m.isTurn i && x.workerMeets i p).toNat +
      turnsWhere client alter i p (x.step client alter m) moves

theorem turnsWhere_concat (p : Job → σ → Shared → Worker κ → Bool) (x : Stage σ κ)
    (moves : List (Move δ)) (m : Move δ) :
    x.turnsWhere client alter i p (moves ++ [m]) = x.turnsWhere client alter i p moves +
      (m.isTurn i && (x.play client alter moves).workerMeets i p).toNat := by
  induction moves generalizing x with
  | nil => exact Nat.add_comm _ _
  | cons first moves ih =>
      rw [List.cons_append, turnsWhere, turnsWhere, ih, Nat.add_assoc]
      rfl

/-- Whatever else happens, a worker and what it has done stay as they are. -/
theorem Next.other {m : Move δ} (hm : x.Next client alter m y) (hother : m.isTurn i = false) :
    y.read.workers[i]? = x.read.workers[i]? ∧ y.actsOf i = x.actsOf i := by
  cases hm
  case unchanged => exact ⟨rfl, rfl⟩
  case worked j w w' act s sh hw hstep =>
    have hne : j ≠ i := by simpa [Move.isTurn] using hother
    exact ⟨List.getElem?_set_ne hne, actsOf_after_ne hne⟩
  all_goals
    refine ⟨rfl, ?_⟩
    rw [actsOf_note]
    exact List.append_nil _

/-- A worker with the turns that it has had. -/
def Pacing (i : Nat) (plan : Plan) (turns waits pulls : Nat) (x : Stage σ κ) : Prop :=
  ∃ w, x.read.workers[i]? = some w ∧ w.plan = plan ∧ w.Paced turns waits pulls (x.actsOf i)

theorem Pacing.turn {turns waits pulls : Nat} (h : x.Pacing i plan turns waits pulls) :
    (x.turn client i).Pacing i plan (turns + 1)
      (waits + (x.workerMeets i (Worker.isHeldUp client)).toNat)
      (pulls + (x.workerMeets i (Worker.endsPull client)).toNat) := by
  obtain ⟨w, hw, rfl, hpaced⟩ := h
  have hplan := (Worker.step_turn client x.read.job x.state x.read.shared w).plan_eq
  rw [workerMeets, workerMeets, hw, turn_eq_after hw]
  refine ⟨_, List.getElem?_set_self (List.getElem?_eq_some_iff.mp hw).1, hplan, ?_⟩
  rw [actsOf_after_self]
  exact hpaced.turn

theorem Pacing.step {turns waits pulls : Nat} (h : x.Pacing i plan turns waits pulls) (m : Move δ) :
    (x.step client alter m).Pacing i plan
      (turns + if m.isTurn i then 1 else 0)
      (waits + (m.isTurn i && x.workerMeets i (Worker.isHeldUp client)).toNat)
      (pulls + (m.isTurn i && x.workerMeets i (Worker.endsPull client)).toNat) := by
  cases hturn : m.isTurn i with
  | false =>
      obtain ⟨hworkers, hacts⟩ := (next_step alter m : x.Next client alter m _).other hturn
      obtain ⟨w, hw, hplan, hpaced⟩ := h
      exact ⟨w, hworkers.trans hw, hplan, hacts ▸ hpaced⟩
  | true =>
      obtain rfl : m = .turn i := by cases m <;> simp_all [Move.isTurn]
      exact h.turn

variable (client alter) in
theorem pacing_play {s : σ} {r : Read κ} {p : PartitionId}
    (hw : r.workers[i]? = some (.start p plan)) (hbounded : plan.isBounded = true)
    (moves : List (Move δ)) :
    ((start s r).play client alter moves).Pacing i plan (moves.countP (·.isTurn i))
      ((start s r).turnsWhere client alter i (Worker.isHeldUp client) moves)
      ((start s r).turnsWhere client alter i (Worker.endsPull client) moves) := by
  induction moves using List.reverseRecOn with
  | nil => exact ⟨_, hw, rfl, Worker.paced_start hbounded⟩
  | append_singleton moves m ih =>
      rw [List.countP_append, List.countP_singleton, turnsWhere_concat, turnsWhere_concat,
        play_concat]
      exact ih.step m

/-- The cursors of a bounded read of a reachable log go up, whatever is appended and truncated
meanwhile. -/
theorem rising_play {log : Log} (hlog : log.Reachable) (hfaults : log.faults = {})
    {settings : ReaderSettings} {decoder : Decoder} {request : Request}
    (hmode : request.mode ≠ .live) {cancelled : Bool} {r : Read LogCursor}
    (hstart : startRead Log.client log settings decoder request cancelled = .ok (.running r))
    {p : PartitionId} (he : r.plans[i]? = some (p, plan)) (moves : List (Move Log.Change)) :
    plan.Rising (pulledIn (((start log r).play Log.client Log.Change.apply moves).actsOf i)) := by
  obtain ⟨ranges, hlaunched⟩ := exists_launched hstart
  obtain ⟨p₀, hsource, -, hplanned⟩ :=
    exists_planned hlog hmode hlaunched (List.mem_of_getElem? he)
  obtain ⟨w, -, -, hscans⟩ :=
    (scanning_play hfaults hlaunched hsource.found hplanned he moves).worker
  exact ⟨hscans.ascending, hscans.start_le⟩

/-- At every stage of a course, whatever happens to the client in it, and whatever the filter, the
counter, the channel and the other workers are: if what a bounded worker has pulled goes up from the
start of its plan, it has pulled no more often than its plan names offsets, and it is over once it
has had enough turns in which nothing held it up. -/
theorem bounded_worker_halts (client : Client σ κ) (alter : δ → σ → σ) (s : σ) {r : Read κ}
    {p : PartitionId} (hw : r.workers[i]? = some (.start p plan))
    (hbounded : plan.isBounded = true) (moves : List (Move δ))
    (hy : (start s r).play client alter moves = y)
    (hrising : plan.Rising (pulledIn (y.actsOf i))) :
    ∃ w, y.read.workers[i]? = some w ∧ w.Halts plan (moves.countP (·.isTurn i))
      ((start s r).turnsWhere client alter i (Worker.isHeldUp client) moves)
      ((start s r).turnsWhere client alter i (Worker.endsPull client) moves) := by
  subst hy
  obtain ⟨w, hw, rfl, hpaced⟩ := pacing_play client alter hw hbounded moves
  exact ⟨w, hw, hpaced.halts hrising⟩

/-- A worker pulls one record, and from then on a record is appended to its partition and all older
ones are dropped before each of its turns. -/
def growMeanwhile (turns : Nat) : List (Move Log.Change) :=
  List.replicate 2 (.turn 0) ++ (List.replicate turns [.alter (.append ⟨"t", 0⟩
    ⟨none, some [100], [], 0⟩), .alter (.truncateBefore ⟨"t", 0⟩ 2), .turn 0]).flatten

/-- The last record of the plan is gone before the worker comes to it, and the log goes on. -/
theorem bounded_worker_halts_in_growing_log :
    let x := start Log.sample (sampleRead .beginning 4)
    let y := x.play Log.client Log.Change.apply (growMeanwhile 9)
    (sampleRead .beginning 4).workers[0]? = some (.start 0 ⟨0, some 1⟩) ∧
      (⟨0, some 1⟩ : Plan).isBounded = true ∧
      (⟨0, some 1⟩ : Plan).Rising (pulledIn (y.actsOf 0)) ∧
      (pulledIn (y.actsOf 0)).map (·.offset) = [0, 2] ∧
      ∃ w, y.read.workers[0]? = some w ∧ w.Halts ⟨0, some 1⟩ 11 0 2 ∧
        ∃ report, w.report? = some report := by
  intro x y
  have hstart : startRead Log.client Log.sample {} .lossy (sampleRequest .beginning 4) false =
      .ok (.running (sampleRead .beginning 4)) := rfl
  have hrising : (⟨0, some 1⟩ : Plan).Rising (pulledIn (y.actsOf 0)) :=
    rising_play Log.reachable_sample rfl (by decide) hstart
      (show (sampleRead .beginning 4).plans[0]? = some (0, ⟨0, some 1⟩) from rfl) (growMeanwhile 9)
  have hw : (sampleRead .beginning 4).workers[0]? = some (.start 0 ⟨0, some 1⟩) := rfl
  have hturns : (growMeanwhile 9).countP (·.isTurn 0) = 11 := rfl
  have hwaits : x.turnsWhere Log.client Log.Change.apply 0 (Worker.isHeldUp Log.client)
    (growMeanwhile 9) = 0 := by decide +kernel
  have hpulls : x.turnsWhere Log.client Log.Change.apply 0 (Worker.endsPull Log.client)
    (growMeanwhile 9) = 2 := by decide +kernel
  have hpulled : (pulledIn (y.actsOf 0)).map (·.offset) = [0, 2] := by decide +kernel
  obtain ⟨w, hend, hhalts⟩ := bounded_worker_halts Log.client Log.Change.apply Log.sample hw rfl
    (growMeanwhile 9) (y := y) rfl hrising
  rw [hturns, hwaits, hpulls] at hhalts
  exact ⟨hw, rfl, hrising, hpulled, w, hend, hhalts, hhalts.reported (by decide)⟩

end Stage
end TopicView
