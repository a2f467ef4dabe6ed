import TopicView.Proofs.Read.Caller
import TopicView.Proofs.Read.Last

/-!
# Stopping

A worker looks for a cancellation where it waits, and nowhere else.  From a cancellation on it asks
its client for nothing any more: it finishes what it has claimed a slot for, closes its cursor and
is over, within a few turns.
-/

namespace TopicView

open Act

/-- Whether this is an answer of the client to a question of the worker. -/
def Act.isAnswer : Act → Bool
  | opened | pulled _ | ended | failed _ | crashed => true
  | stopped | reserved | claimed _ | sent _ | announced | closed => false

namespace Phase

variable {κ : Type}

def isWaiting : Phase κ → Bool
  | opening | pulling _ | reserving _ _ => true
  | _ => false

/-- The turns that a worker of a cancelled read needs at most until it is over. -/
def turnsLeft : Phase κ → Nat
  | finished _ | crashed => 0
  | opening | closing _ _ => 1
  | pulling _ | reserving _ _ | announcing _ => 2
  | sending _ _ _ => 3
  | claiming _ _ => 4

end Phase

namespace Worker

variable {σ κ : Type} {client : Client σ κ} {job : Job} {s s' : σ} {sh sh' : Shared}
  {u v w w' : Worker κ} {acts more : List Act} {act : Option Act}

theorem act_of_isWaiting (hwaiting : w.phase.isWaiting = true) (hc : sh.cancelled = true) :
    w.act? client job s sh = some .stopped := by
  cases hphase : w.phase <;> simp_all [Phase.isWaiting, act?]

theorem outcome_turn_of_isWaiting (hwaiting : w.phase.isWaiting = true)
    (hc : sh.cancelled = true) :
    (w.turn client job s sh).worker.phase.outcome? = some .cancelled := by
  cases hphase : w.phase <;> simp_all [Phase.isWaiting, turn, go, Phase.outcome?]

variable (client job s) in
/-- In a cancelled read nothing makes a worker wait. -/
theorem exists_act_of_cancelled (hgoing : w.phase.isOver = false) (hc : sh.cancelled = true) :
    ∃ a, w.act? client job s sh = some a := by
  cases hphase : w.phase <;> simp_all [Phase.isOver, act?]

/-- How a worker goes on in a cancelled read, and with which acts. -/
structure Winds (v : Worker κ) (acts : List Act) (w : Worker κ) : Prop where
  turns : acts.length + w.phase.turnsLeft ≤ v.phase.turnsLeft
  /-- It sends one record at most, and that only into a slot that it holds. -/
  slot : (sentIn acts).length + w.phase.holdsSlot.toNat ≤ v.phase.holdsSlot.toNat
  silent : ∀ a ∈ acts, a.isAnswer = false
  settled : ∀ outcome, v.phase.outcome? = some outcome → w.phase.outcome? = some outcome
  waiting : v.phase.isWaiting = true →
    acts = [] ∧ w = v ∨ w.phase.outcome? = some .cancelled

namespace Winds

theorem refl (w : Worker κ) : w.Winds [] w := by
  refine ⟨?_, ?_, ?_, fun _ ↦ id, fun _ ↦ Or.inl ⟨rfl, rfl⟩⟩
  · simp
  · simp [sentIn]
  · simp

theorem trans (h : u.Winds acts v) (h' : v.Winds more w) : u.Winds (acts ++ more) w := by
  refine ⟨?_, ?_, ?_, ?_, ?_⟩
  · have hfirst := h.turns
    have hsecond := h'.turns
    rw [List.length_append]
    omega
  · have hfirst := h.slot
    have hsecond := h'.slot
    rw [sentIn, List.filterMap_append, List.length_append]
    simp only [sentIn] at hfirst hsecond
    omega
  · intro a ha
    rcases List.mem_append.mp ha with ha | ha
    · exact h.silent a ha
    · exact h'.silent a ha
  · intro outcome hu
    exact h'.settled outcome (h.settled outcome hu)
  · intro hwaiting
    rcases h.waiting hwaiting with ⟨rfl, rfl⟩ | hcancelled
    · exact h'.waiting hwaiting
    · exact Or.inr (h'.settled _ hcancelled)

end Winds

theorem Step.turnsLeft_le (h : w.Step client job s sh act s' sh' w') (hc : sh.cancelled = true) :
    act.toList.length + w'.phase.turnsLeft ≤ w.phase.turnsLeft := by
  cases h
  case sent cursor parcel reachedLimit phase =>
    rcases afterSending_cases cursor parcel reachedLimit with ⟨-, h⟩ | ⟨-, -, h⟩ | ⟨-, -, h⟩ <;>
      simp [phase, h, Phase.turnsLeft]
  all_goals simp_all [go, Phase.turnsLeft]

theorem Step.slot_le (h : w.Step client job s sh act s' sh' w') (hc : sh.cancelled = true) :
    (act.bind record?).toList.length + w'.phase.holdsSlot.toNat ≤ w.phase.holdsSlot.toNat := by
  cases h
  case sent cursor parcel reachedLimit phase =>
    have hbefore : w.phase.holdsSlot = true := by rw [phase]; rfl
    simp [hbefore, record?, holdsSlot_afterSending]
  all_goals simp_all [go, record?, Phase.holdsSlot]

theorem Step.not_isAnswer (h : w.Step client job s sh act s' sh' w') (hc : sh.cancelled = true) :
    ∀ a ∈ act.toList, a.isAnswer = false := by
  cases h <;> simp_all [isAnswer]

theorem Step.cancelled_of_isWaiting (h : w.Step client job s sh act s' sh' w')
    (hc : sh.cancelled = true) (hwaiting : w.phase.isWaiting = true) :
    act.toList = [] ∧ w' = w ∨ w'.phase.outcome? = some .cancelled := by
  cases h
  case idle => exact Or.inl ⟨rfl, rfl⟩
  all_goals simp_all [go, Phase.isWaiting, Phase.outcome?]

theorem Step.winds (h : w.Step client job s sh act s' sh' w') (hc : sh.cancelled = true) :
    w.Winds act.toList w' := by
  refine ⟨h.turnsLeft_le hc, ?_, h.not_isAnswer hc, fun _ ↦ h.outcome_of_some,
    h.cancelled_of_isWaiting hc⟩
  have hsent : sentIn act.toList = (act.bind record?).toList := sentIn_step [] act
  rw [hsent]
  exact h.slot_le hc

/-- What is behind a worker in each of its phases: it opens one cursor at most, and its closing is
the last that is heard of it. -/
def Closes (acts : List Act) : Phase κ → Prop
  | .opening => .opened ∉ acts ∧ .closed ∉ acts
  | .crashed => acts.count .opened ≤ 1 ∧ .closed ∉ acts
  | .finished _ => .opened ∉ acts ∧ .closed ∉ acts ∨
      ∃ front, acts = front ++ [.closed] ∧ front.count .opened = 1 ∧ .closed ∉ front
  | _ => acts.count .opened = 1 ∧ .closed ∉ acts

theorem closes_of_cursor {phase : Phase κ} {cursor : κ} (h : phase.cursor? = some cursor) :
    Closes acts phase ↔ acts.count .opened = 1 ∧ .closed ∉ acts := by
  cases phase <;> first | exact Iff.rfl | cases h

/-- An act that neither opens nor closes leaves a worker with its cursor. -/
theorem Closes.keep {phase phase' : Phase κ} {cursor cursor' : κ} (h : Closes acts phase)
    (hcursor : phase.cursor? = some cursor) (hcursor' : phase'.cursor? = some cursor')
    (hopened : act ≠ some .opened) (hclosed : act ≠ some .closed) :
    Closes (acts ++ act.toList) phase' := by
  rw [closes_of_cursor hcursor] at h
  rw [closes_of_cursor hcursor']
  cases act with
  | none => simpa using h
  | some a =>
      have hopened' : a ≠ .opened := fun heq ↦ hopened (congrArg some heq)
      have hclosed' : a ≠ .closed := fun heq ↦ hclosed (congrArg some heq)
      simpa [hopened', Ne.symm hclosed', List.count_singleton] using h

theorem Step.closes (h : w.Step client job s sh act s' sh' w') (hw : Closes acts w.phase) :
    Closes (acts ++ act.toList) w'.phase := by
  cases h
  case idle => simpa using hw
  case stopOpening phase cancelled =>
    rw [phase] at hw
    obtain ⟨hopened, hclosed⟩ := hw
    exact Or.inl ⟨by simpa using hopened, by simpa using hclosed⟩
  case opened cursor phase live answer =>
    rw [phase] at hw
    obtain ⟨hopened, hclosed⟩ := hw
    refine (closes_of_cursor (cursor_afterOpening cursor)).mpr ⟨?_, by simpa using hclosed⟩
    simp [List.count_eq_zero.mpr hopened]
  case openingFailed f phase live answer =>
    rw [phase] at hw
    obtain ⟨hopened, hclosed⟩ := hw
    exact Or.inl ⟨by simpa using hopened, by simpa using hclosed⟩
  case openingCrashed phase live answer =>
    rw [phase] at hw
    obtain ⟨hopened, hclosed⟩ := hw
    exact ⟨by simp [List.count_eq_zero.mpr hopened], by simpa using hclosed⟩
  case pullingCrashed cursor cursor' phase live answer =>
    rw [phase] at hw
    obtain ⟨hopened, hclosed⟩ := hw
    exact ⟨by simp [hopened], by simpa using hclosed⟩
  case closed cursor cursor' outcome phase answer =>
    rw [phase] at hw
    exact Or.inr ⟨acts, rfl, hw⟩
  case pulled cursor cursor' raw phase live answer =>
    exact hw.keep (by rw [phase]; rfl) (cursor_examine job w cursor' raw) nofun nofun
  case sent cursor parcel reachedLimit phase =>
    exact hw.keep (by rw [phase]; rfl) (cursor_afterSending cursor parcel reachedLimit) nofun nofun
  all_goals exact hw.keep (by simp only [*]; rfl) rfl nofun nofun

/-- A worker closes what it opens, once, and does nothing afterwards. -/
structure ClosesOnce (acts : List Act) (w : Worker κ) : Prop where
  opened_le : acts.count .opened ≤ 1
  closed_le : acts.count .closed ≤ acts.count .opened
  last : .closed ∈ acts → acts.getLast? = some .closed ∧ w.phase.isOver = true
  reported : ∀ report, w.report? = some report → report.outcome ≠ .panicked →
    acts.count .closed = acts.count .opened

theorem Closes.closesOnce (h : Closes acts w.phase) : w.ClosesOnce acts := by
  -- In every phase the cursor is still to be closed, or there has been none, or it is closed.
  have hcases : acts.count .opened ≤ 1 ∧ .closed ∉ acts ∧
        (w.phase.isOver = true → .opened ∉ acts ∨ w.phase = .crashed) ∨
      w.phase.isOver = true ∧ ∃ front, acts = front ++ [.closed] ∧ front.count .opened = 1 ∧
        .closed ∉ front := by
    cases hphase : w.phase with
    | opening =>
        rw [hphase] at h
        exact Or.inl ⟨by simp [List.count_eq_zero.mpr h.1], h.2, nofun⟩
    | crashed =>
        rw [hphase] at h
        exact Or.inl ⟨h.1, h.2, fun _ ↦ Or.inr rfl⟩
    | finished outcome =>
        rw [hphase] at h
        rcases h with ⟨hopened, hclosed⟩ | hfront
        · exact Or.inl ⟨by simp [List.count_eq_zero.mpr hopened], hclosed, fun _ ↦ Or.inl hopened⟩
        · exact Or.inr ⟨rfl, hfront⟩
    | _ =>
        rw [hphase] at h
        exact Or.inl ⟨Nat.le_of_eq h.1, h.2, nofun⟩
  rcases hcases with ⟨hopened, hclosed, hover⟩ | ⟨hover, front, rfl, hopened, hclosed⟩
  · have hzero := List.count_eq_zero.mpr hclosed
    refine ⟨hopened, by omega, fun hmem ↦ (hclosed hmem).elim, fun report hreport hwhole ↦ ?_⟩
    rcases hover (isOver_of_report hreport) with hnone | hcrashed
    · rw [hzero, List.count_eq_zero.mpr hnone]
    · have hout := outcome_of_report hreport
      rw [hcrashed] at hout
      exact (hwhole (Option.some.inj hout).symm).elim
  · have hcount : (front ++ [closed]).count opened = 1 := by simp [hopened]
    have hcount' : (front ++ [closed]).count closed = 1 := by
      simp [List.count_eq_zero.mpr hclosed]
    exact ⟨by omega, by omega, fun _ ↦ ⟨by simp, hover⟩, fun _ _ _ ↦ by rw [hcount, hcount']⟩

end Worker

namespace Stage

variable {σ κ δ : Type} {client : Client σ κ} {alter : δ → σ → σ} {x y : Stage σ κ}

/-! ## Cancelled reads -/

/-- What has become of a cancelled read. -/
structure Wound (x y : Stage σ κ) : Prop where
  cancelled : y.read.shared.cancelled = true
  workers : ∀ i v, x.read.workers[i]? = some v → ∃ acts w, y.read.workers[i]? = some w ∧
    y.actsOf i = x.actsOf i ++ acts ∧ v.Winds acts w

theorem wound_start (hc : x.read.shared.cancelled = true) : x.Wound x := by
  refine ⟨hc, fun i v hv ↦ ⟨[], v, hv, ?_, .refl v⟩⟩
  rw [List.append_nil]

theorem Wound.next {z : Stage σ κ} (h : x.Wound y) {m : Move δ} (hm : y.Next client alter m z) :
    x.Wound z := by
  refine ⟨hm.cancelled_of_cancelled h.cancelled, fun j v hv ↦ ?_⟩
  obtain ⟨acts, w, hw, hacts, hwinds⟩ := h.workers j v hv
  cases hm
  case unchanged => exact ⟨acts, w, hw, hacts, hwinds⟩
  case worked i u u' act s sh hu hstep =>
    by_cases hij : i = j
    · subst hij
      obtain rfl : u = w := Option.some.inj (hu.symm.trans hw)
      refine ⟨acts ++ act.toList, u', ?_, ?_, hwinds.trans (hstep.winds h.cancelled)⟩
      · exact List.getElem?_set_self (List.getElem?_eq_some_iff.mp hw).1
      · rw [actsOf_after_self, hacts, List.append_assoc]
    · exact ⟨acts, w, (List.getElem?_set_ne hij).trans hw, by rwa [actsOf_after_ne hij], hwinds⟩
  all_goals exact ⟨acts, w, hw, by rw [actsOf_note, hacts]; exact List.append_nil _, hwinds⟩

theorem wound_play (client : Client σ κ) (alter : δ → σ → σ)
    (hc : x.read.shared.cancelled = true) (more : List (Move δ)) :
    x.Wound (x.play client alter more) :=
  play_keeps client alter x (wound_start hc) more fun _ m _ hy ↦ hy.next (next_step alter m)

/-- What the next turn of a worker is in a cancelled read. -/
structure Stopping (client : Client σ κ) (x : Stage σ κ) (i : Nat) (v : Worker κ) : Prop where
  waiting : v.phase.isWaiting = true →
    (x.turn client i).actsOf i = x.actsOf i ++ [.stopped] ∧
      ∃ w, (x.turn client i).read.workers[i]? = some w ∧ w.phase.outcome? = some .cancelled
  acting : v.phase.isOver = false → ∃ a, (x.turn client i).actsOf i = x.actsOf i ++ [a]

theorem stopping_of_cancelled (client : Client σ κ) (hc : x.read.shared.cancelled = true) {i : Nat}
    {v : Worker κ} (hv : x.read.workers[i]? = some v) : x.Stopping client i v := by
  constructor
  · intro hwaiting
    rw [turn_eq_after hv, actsOf_after_self, Worker.act_of_isWaiting hwaiting hc]
    refine ⟨rfl, _, List.getElem?_set_self (List.getElem?_eq_some_iff.mp hv).1, ?_⟩
    exact Worker.outcome_turn_of_isWaiting hwaiting hc
  · intro hgoing
    obtain ⟨a, ha⟩ := Worker.exists_act_of_cancelled client x.read.job x.state hgoing hc
    exact ⟨a, by rw [turn_eq_after hv, actsOf_after_self, ha]; rfl⟩

theorem turn_eq_self_of_isOver (client : Client σ κ) {i : Nat} {v : Worker κ}
    (hv : x.read.workers[i]? = some v) (hover : v.phase.isOver = true) : x.turn client i = x := by
  have hstep := Worker.step_turn client x.read.job x.state x.read.shared v
  obtain ⟨hact, hstate, hshared, hworker⟩ := hstep.eq_of_isOver hover
  rw [turn_eq_after hv, hact, hstate, hshared, hworker, after_idle hv]

/-! ## In every course -/

/-- What holds of the workers of a read at every stage. -/
structure Orderly (r : Read κ) (x : Stage σ κ) : Prop where
  framed : x.Framed r
  closes : x.Each fun acts w ↦ Worker.Closes acts w.phase
  takesLast : x.Each fun acts w ↦ Worker.TakesLast acts w.phase
  heeded : x.Heeded

theorem Orderly.next {r : Read κ} (h : x.Orderly r) {m : Move δ} (hm : x.Next client alter m y) :
    y.Orderly r :=
  ⟨h.framed.next hm, h.closes.next (fun hstep hw ↦ hstep.closes hw) hm,
    h.takesLast.next (fun hstep hw ↦ hstep.takesLast hw) hm, h.heeded.next hm⟩

theorem orderly_play {s : σ} {settings : ReaderSettings} {decoder : Decoder} {request : Request}
    {cancelled : Bool} {ranges : List (PartitionId × Offsets)} {r : Read κ}
    (h : Launched client s settings decoder request cancelled ranges r) (moves : List (Move δ)) :
    ((start s r).play client alter moves).Orderly r := by
  refine play_keeps client alter (start s r) ?_ moves fun _ m _ hy ↦ hy.next (next_step alter m)
  refine ⟨framed_start s r, each_start h fun p plan ↦ ?_, each_start h fun p plan ↦ ?_, nofun⟩
  · exact ⟨nofun, nofun⟩
  · exact nofun

theorem numbered_play {s : σ} {settings : ReaderSettings} {decoder : Decoder} {request : Request}
    {cancelled : Bool} {ranges : List (PartitionId × Offsets)} {r : Read κ} {L : UInt64}
    (h : Launched client s settings decoder request cancelled ranges r)
    (hL : request.effectiveLimit = some L) (moves : List (Move δ)) :
    ((start s r).play client alter moves).Numbered L := by
  refine play_keeps client alter (start s r) ?_ moves fun _ m _ hy ↦ hy.next (next_step alter m)
  rw [h.made]
  exact ⟨hL, rfl, fun hfull hpos ↦ absurd hfull (Nat.ne_of_lt hpos)⟩

/-- Once a read is cancelled, by whomever, each of its workers asks its client for nothing more,
sends at most the record that it holds a slot for, is cancelled where it waits, and is over within
its next turns; what has been settled stays.  At every stage of every course a worker closes the
cursor that it has opened once, before it is reported and as its last act, unless it panics.  When
as many records have been sent as the limit allows, the read is cancelled or the worker whose claim
took the last slot has just sent its record and is about to cancel. -/
theorem cancellation_stops_workers (client : Client σ κ) (alter : δ → σ → σ) {s : σ}
    {settings : ReaderSettings} {decoder : Decoder} {request : Request} {cancelled : Bool}
    {r : Read κ} (hstart : startRead client s settings decoder request cancelled = .ok (.running r))
    (moves : List (Move δ)) {x : Stage σ κ} (hx : (start s r).play client alter moves = x) :
    (x.read.shared.cancelled = true →
      (∀ i v, x.read.workers[i]? = some v → x.Stopping client i v) ∧
        ∀ more : List (Move δ), x.Wound (x.play client alter more)) ∧
      (∀ i w, x.read.workers[i]? = some w → w.ClosesOnce (x.actsOf i) ∧
        (w.phase.isOver = true → x.turn client i = x)) ∧
      ∀ L, request.effectiveLimit = some L → 0 < L.toNat → x.sent.length = L.toNat →
        x.read.shared.cancelled = true ∨ ∃ i, x.Announces client L i := by
  obtain ⟨ranges, hlaunched⟩ := exists_launched hstart
  subst hx
  have horderly : ((start s r).play client alter moves).Orderly r := orderly_play hlaunched moves
  refine ⟨fun hc ↦ ⟨fun i v hv ↦ stopping_of_cancelled client hc hv, wound_play client alter hc⟩,
    fun i w hw ↦ ⟨(horderly.closes i w hw).closesOnce, turn_eq_self_of_isOver client hw⟩, ?_⟩
  intro L hL hpos hsent
  by_cases hc : ((start s r).play client alter moves).read.shared.cancelled = true
  · exact Or.inl hc
  · rw [Bool.not_eq_true] at hc
    exact Or.inr (exists_announces client horderly.framed (counted_play hlaunched hL moves)
      (numbered_play hlaunched hL moves) horderly.takesLast horderly.heeded hpos hsent hc)

/-- The second worker has its cursor open while the first one takes both slots of the limit. -/
theorem cancellation_stops_sample :
    startRead Log.client Log.sample {} .lossy (sampleRequest .beginning 2) false =
        .ok (.running (sampleRead .beginning 2)) ∧
      let x := (start Log.sample (sampleRead .beginning 2)).play Log.client Empty.elim
        (.turn 1 :: Move.oneByOne 9 0 0)
      let y := x.play Log.client Empty.elim [.turn 0]
      (∃ i, x.Announces Log.client 2 i) ∧ y.read.shared.cancelled = true ∧
        y.Wound (y.play Log.client Empty.elim (Move.oneByOne 1 2 0)) ∧
        (y.play Log.client Empty.elim (Move.oneByOne 1 2 0)).read.workers.map (·.phase) =
          [.finished .limitReached, .finished .cancelled] := by
  have hstart : startRead Log.client Log.sample {} .lossy (sampleRequest .beginning 2) false =
      .ok (.running (sampleRead .beginning 2)) := rfl
  obtain ⟨-, -, hlast⟩ := cancellation_stops_workers Log.client Empty.elim hstart
    (.turn 1 :: Move.oneByOne 9 0 0) rfl
  obtain ⟨hcancelled, -, -⟩ := cancellation_stops_workers Log.client Empty.elim hstart
    (.turn 1 :: Move.oneByOne 9 0 0 ++ [.turn 0]) rfl
  refine ⟨hstart, (hlast 2 rfl (by decide) (by decide)).resolve_left (by decide), rfl, ?_, rfl⟩
  exact (hcancelled rfl).2 (Move.oneByOne 1 2 0)

end Stage
end TopicView
