import TopicView.Proofs.Read.Event
import TopicView.Proofs.Read.Report

/-!
# Drawing events

A caller that draws events looks for each of them in three steps, between which the workers may go
on.  Nothing gets lost between the looks: what it has been given and what is queued make up what
was sent and reported, and it is told that no more will come only when that is so.
-/

namespace TopicView

/-- Where the caller has got to in its call for the next event. -/
inductive Look
  | first
  | second
  | last
  /-- It has been told that no more will come. -/
  | told
  deriving DecidableEq, Repr

/-- What happens while events are drawn.  `δ` are the changes that others make to the client. -/
inductive Drawing (δ : Type)
  | look
  | turn (worker : Nat)
  | collect (worker : Nat)
  | cancel
  | alter (change : δ)

/-- What is not a look of the caller. -/
def Drawing.move? {δ : Type} : Drawing δ → Option (Move δ)
  | look => none
  | turn i => some (.turn i)
  | collect i => some (.collect i)
  | cancel => some .cancel
  | alter change => some (.alter change)

namespace Worker

variable {σ κ : Type} {client : Client σ κ} {job : Job} {s s' : σ} {sh sh' : Shared}
  {w w' : Worker κ} {act : Option Act}

/-- A worker that is over changes nothing any more. -/
theorem Step.eq_of_isOver (h : w.Step client job s sh act s' sh' w')
    (hover : w.phase.isOver = true) : act = none ∧ s' = s ∧ sh' = sh ∧ w' = w := by
  cases h
  case idle => exact ⟨rfl, rfl, rfl, rfl⟩
  all_goals simp_all [Phase.isOver]

end Worker

namespace Stage

variable {σ κ δ : Type} {client : Client σ κ} {alter : δ → σ → σ} {x y : Stage σ κ}

theorem after_idle {i : Nat} {w : Worker κ} (hw : x.read.workers[i]? = some w) :
    x.after i none x.state x.read.shared w = x := by
  obtain ⟨hi, rfl⟩ := List.getElem?_eq_some_iff.mp hw
  simp [after]

/-- What is not a look gives the caller nothing and takes nothing from the error queue, and once
the workers are over it leaves both queues alone. -/
theorem Next.aside {m : Move δ} {d : Drawing δ} (hm : x.Next client alter m y)
    (hd : d.move? = some m) :
    y.events = x.events ∧ x.read.shared.errors <+: y.read.shared.errors ∧
      (x.read.isOver = true → y.read.isOver = true ∧
        y.read.shared.channel.queue = x.read.shared.channel.queue ∧
        y.read.shared.errors = x.read.shared.errors) := by
  cases hm
  case worked i w w' act s sh hw hstep =>
    refine ⟨events_after, ?_, fun hover ↦ ?_⟩
    · simp only [after]
      rw [hstep.errors_eq]
      exact List.prefix_append _ _
    · have hdone := List.all_eq_true.mp hover w (List.mem_of_getElem? hw)
      obtain ⟨rfl, rfl, rfl, rfl⟩ := hstep.eq_of_isOver hdone
      rw [after_idle hw]
      exact ⟨hover, rfl, rfl⟩
  case collected i w report hw hreport hfresh =>
    refine ⟨by simp [Deed.event?], by simp, fun hover ↦ ⟨hover, by simp, by simp⟩⟩
  case took => cases d <;> cases hd
  case heard => cases d <;> cases hd
  case left => cases d <;> cases hd
  all_goals exact ⟨by simp [Deed.event?], List.prefix_rfl, fun hover ↦ ⟨hover, rfl, rfl⟩⟩

theorem Next.aside_of_queued {m : Move δ} {d : Drawing δ} {f : PartitionFailure}
    {rest : List PartitionFailure} (hm : x.Next client alter m y) (hd : d.move? = some m)
    (hqueued : x.read.shared.errors = f :: rest) :
    y.events = x.events ∧ ∃ rest', y.read.shared.errors = f :: rest' := by
  obtain ⟨hevents, ⟨more, herrors⟩, -⟩ := hm.aside hd
  exact ⟨hevents, rest ++ more, by rw [← herrors, hqueued, List.cons_append]⟩

end Stage

/-! ## A caller that draws events -/

structure Caller (σ κ : Type) where
  stage : Stage σ κ
  look : Look

namespace Caller

variable {σ κ δ : Type}

def start (s : σ) (r : Read κ) : Caller σ κ := ⟨.start s r, .first⟩

def receive (c : Caller σ κ) (event : Event) (r : Read κ) : Caller σ κ :=
  ⟨c.stage.note c.stage.state r event.deed, .first⟩

def takeLook (c : Caller σ κ) : Caller σ κ :=
  match c.look with
  | .first =>
    match c.stage.read.firstLook with
    | (some event, r) => c.receive event r
    | (none, _) => { c with look := .second }
  | .second =>
    match c.stage.read.secondLook with
    | (.item event, r) => c.receive event r
    | (.pending, _) => { c with look := .first }
    | (.closed, _) => { c with look := .last }
  | .last =>
    match c.stage.read.lastLook with
    | (.item event, r) => c.receive event r
    | _ => { c with look := .told }
  | .told => c

def step (client : Client σ κ) (alter : δ → σ → σ) (c : Caller σ κ) (m : Drawing δ) :
    Caller σ κ :=
  match m.move? with
  | none => c.takeLook
  | some m => { c with stage := c.stage.step client alter m }

def play (client : Client σ κ) (alter : δ → σ → σ) (c : Caller σ κ) (moves : List (Drawing δ)) :
    Caller σ κ := moves.foldl (step client alter) c

/-- What a look leads to, with what it has found. -/
inductive Looks (c : Caller σ κ) : Caller σ κ → Prop
  | heard {f : PartitionFailure} {rest : List PartitionFailure}
      (queued : c.stage.read.shared.errors = f :: rest)
      (errors : c.look = .first ∨ c.look = .last) :
      Looks c (c.receive (.failure f)
        { c.stage.read with shared := { c.stage.read.shared with errors := rest } })
  | took {a : Record} {rest : List Record}
      (queued : c.stage.read.shared.channel.queue = a :: rest) (records : c.look = .second) :
      Looks c (c.receive (.record a) { c.stage.read with shared :=
        { c.stage.read.shared with channel :=
          { c.stage.read.shared.channel with queue := rest } } })
  | passed (none : c.stage.read.shared.errors = []) (errors : c.look = .first) :
      Looks c { c with look := .second }
  | waited (none : c.stage.read.shared.channel.queue = []) (going : c.stage.read.isOver = false)
      (records : c.look = .second) : Looks c { c with look := .first }
  | closed (none : c.stage.read.shared.channel.queue = []) (ended : c.stage.read.isOver = true)
      (records : c.look = .second) : Looks c { c with look := .last }
  | ended (none : c.stage.read.shared.errors = []) (errors : c.look = .last) :
      Looks c { c with look := .told }
  | told (told : c.look = .told) : Looks c c

theorem looks_takeLook (c : Caller σ κ) : c.Looks c.takeLook := by
  cases hlook : c.look with
  | first =>
      cases hqueue : c.stage.read.shared.errors with
      | nil =>
          cases hover : c.stage.read.isOver <;>
            simpa [takeLook, hlook, Read.firstLook, Read.takeError, hqueue, hover] using
              Looks.passed hqueue hlook
      | cons f rest =>
          simpa [takeLook, hlook, Read.firstLook, Read.takeError, hqueue] using
            Looks.heard hqueue (.inl hlook)
  | second =>
      cases hqueue : c.stage.read.shared.channel.queue with
      | nil =>
          cases hover : c.stage.read.isOver with
          | true =>
              simpa [takeLook, hlook, Read.secondLook, Read.takeRecord, hqueue, hover] using
                Looks.closed hqueue hover hlook
          | false =>
              simpa [takeLook, hlook, Read.secondLook, Read.takeRecord, hqueue, hover] using
                Looks.waited hqueue hover hlook
      | cons a rest =>
          simpa [takeLook, hlook, Read.secondLook, Read.takeRecord, hqueue] using
            Looks.took hqueue hlook
  | last =>
      cases hqueue : c.stage.read.shared.errors with
      | nil =>
          cases hover : c.stage.read.isOver <;>
            simpa [takeLook, hlook, Read.lastLook, Read.takeError, hqueue, hover] using
              Looks.ended hqueue hlook
      | cons f rest =>
          simpa [takeLook, hlook, Read.lastLook, Read.takeError, hqueue] using
            Looks.heard hqueue (.inr hlook)
  | told => simpa [takeLook, hlook] using Looks.told hlook

variable {client : Client σ κ} {alter : δ → σ → σ} {c : Caller σ κ}

theorem step_look {m : Drawing δ} (hm : m.move? = none) :
    c.step client alter m = c.takeLook := by
  rw [step, hm]

theorem step_aside {m : Drawing δ} {move : Move δ} (hm : m.move? = some move) :
    c.step client alter m = { c with stage := c.stage.step client alter move } := by
  rw [step, hm]

theorem play_cons (m : Drawing δ) (moves : List (Drawing δ)) :
    c.play client alter (m :: moves) = (c.step client alter m).play client alter moves := rfl

theorem play_concat (moves : List (Drawing δ)) (m : Drawing δ) :
    c.play client alter (moves ++ [m]) = (c.play client alter moves).step client alter m :=
  List.foldl_concat _ _ _ _

theorem Looks.stage_eq (client : Client σ κ) (alter : δ → σ → σ) {c' : Caller σ κ}
    (h : c.Looks c') : ∃ moves : List (Move δ),
      .hangUp ∉ moves ∧ c'.stage = c.stage.play client alter moves := by
  cases h
  case heard queued errors =>
    refine ⟨[.takeError], by simp, ?_⟩
    simp [Stage.play, Stage.step, Stage.takeError, Read.takeError, queued, receive, Event.deed]
  case took queued records =>
    refine ⟨[.takeRecord], by simp, ?_⟩
    simp [Stage.play, Stage.step, Stage.takeRecord, Read.takeRecord, queued, receive, Event.deed]
  all_goals exact ⟨[], by simp, rfl⟩

/-- A property of the start that every look and every other move keeps holds all along. -/
theorem play_keeps {P : Caller σ κ → Prop} (hstart : P c)
    (hlook : ∀ {d d' : Caller σ κ}, d.Looks d' → P d → P d')
    (haside : ∀ {d : Caller σ κ} {m : Drawing δ} {move : Move δ}, m.move? = some move → P d →
      P { d with stage := d.stage.step client alter move }) (moves : List (Drawing δ)) :
    P (c.play client alter moves) := by
  induction moves using List.reverseRecOn with
  | nil => exact hstart
  | append_singleton moves m ih =>
      rw [play_concat]
      cases hm : m.move? with
      | none =>
          rw [step_look hm]
          exact hlook (looks_takeLook _) ih
      | some move =>
          rw [step_aside hm]
          exact haside hm ih

/-- While events are drawn the read takes a course in which the caller does not leave. -/
theorem play_stage (client : Client σ κ) (alter : δ → σ → σ) (c : Caller σ κ)
    (moves : List (Drawing δ)) : ∃ course : List (Move δ), .hangUp ∉ course ∧
      (c.play client alter moves).stage = c.stage.play client alter course := by
  refine play_keeps (P := fun d ↦ ∃ course : List (Move δ), .hangUp ∉ course ∧
    d.stage = c.stage.play client alter course) ⟨[], by simp, rfl⟩ ?_ ?_ moves
  · rintro d d' hlooks ⟨course, hstays, heq⟩
    obtain ⟨more, hmore, heq'⟩ := hlooks.stage_eq client alter
    refine ⟨course ++ more, by simp [hstays, hmore], ?_⟩
    rw [heq', heq, Stage.play_append]
  · rintro d m move hm ⟨course, hstays, heq⟩
    have hother : move ≠ .hangUp := by cases m <;> cases hm <;> simp
    refine ⟨course ++ [move], by simp [hstays, hother.symm], ?_⟩
    rw [heq, Stage.play_concat]

/-- A caller asks for the records only while there may be more of them, and gives up only when
nothing is left. -/
structure Heeds (c : Caller σ κ) : Prop where
  done : c.look = .last ∨ c.look = .told → c.stage.read.isOver = true ∧
    c.stage.read.shared.channel.queue = []
  told : c.look = .told → c.stage.read.shared.errors = []

theorem Looks.heeds {c' : Caller σ κ} (h : c.Looks c') (hc : c.Heeds) : c'.Heeds := by
  cases h
  case closed none ended records =>
    exact ⟨fun _ ↦ ⟨ended, none⟩, nofun⟩
  case ended none errors =>
    exact ⟨fun _ ↦ hc.done (.inl errors), fun _ ↦ none⟩
  case told => exact hc
  all_goals exact ⟨by simp [receive], by simp [receive]⟩

theorem Heeds.aside (h : c.Heeds) {m : Drawing δ} {move : Move δ} (hm : m.move? = some move) :
    Heeds { c with stage := c.stage.step client alter move } := by
  have hnext : c.stage.Next client alter move (c.stage.step client alter move) :=
    Stage.next_step alter move
  obtain ⟨-, -, hstill⟩ := hnext.aside hm
  refine ⟨fun hlook ↦ ?_, fun hlook ↦ ?_⟩
  · obtain ⟨hover, hqueue⟩ := h.done hlook
    obtain ⟨hover', hqueue', -⟩ := hstill hover
    exact ⟨hover', hqueue'.trans hqueue⟩
  · obtain ⟨-, -, herrors⟩ := hstill (h.done (.inr hlook)).1
    exact herrors.trans (h.told hlook)

theorem heeds_play (client : Client σ κ) (alter : δ → σ → σ) (s : σ) (r : Read κ)
    (moves : List (Drawing δ)) : ((start s r).play client alter moves).Heeds := by
  refine play_keeps ⟨?_, ?_⟩ (fun hlooks h ↦ hlooks.heeds h) (fun hm h ↦ h.aside hm) moves
  · rintro (hlook | hlook) <;> cases hlook
  · intro hlook
    cases hlook

/-! ## What the caller is given and told -/

theorem Looks.events_prefix {c' : Caller σ κ} (h : c.Looks c') :
    c.stage.events <+: c'.stage.events := by
  cases h
  case heard => simp [receive]
  case took => simp [receive]
  all_goals exact List.prefix_rfl

theorem events_prefix_play (client : Client σ κ) (alter : δ → σ → σ) (c : Caller σ κ)
    (moves : List (Drawing δ)) :
    c.stage.events <+: (c.play client alter moves).stage.events := by
  refine play_keeps (P := fun d ↦ c.stage.events <+: d.stage.events) List.prefix_rfl
    (fun hlooks h ↦ h.trans hlooks.events_prefix) ?_ moves
  intro d m move hm h
  have hnext : d.stage.Next client alter move (d.stage.step client alter move) :=
    Stage.next_step alter move
  rwa [(hnext.aside hm).1]

/-- A call that has not yet found the error queue empty gives the error at its front next. -/
theorem error_comes_first (client : Client σ κ) (alter : δ → σ → σ) {c : Caller σ κ}
    {f : PartitionFailure} {rest : List PartitionFailure}
    (hqueued : c.stage.read.shared.errors = f :: rest) (hlook : c.look ≠ .second)
    (moves : List (Drawing δ)) : ∃ later, (c.play client alter moves).stage.events =
      c.stage.events ++ later ∧ ∀ event ∈ later.head?, event = .failure f := by
  -- The error stays at the front, since what the workers report meanwhile goes behind it.
  induction moves generalizing c rest with
  | nil => exact ⟨[], by simp [play], by simp⟩
  | cons m moves ih =>
      rw [play_cons]
      cases hm : m.move? with
      | some move =>
          rw [step_aside hm]
          obtain ⟨hevents, more, hqueued'⟩ :=
            (Stage.next_step alter move).aside_of_queued hm hqueued
          rw [← hevents]
          exact ih (c := { c with stage := c.stage.step client alter move }) hqueued' hlook
      | none =>
          rw [step_look hm]
          have hlooks := looks_takeLook c
          generalize c.takeLook = c' at hlooks
          cases hlooks
          case heard g others queued errors =>
            obtain ⟨rfl, rfl⟩ : g = f ∧ others = rest := by simpa [hqueued] using queued.symm
            obtain ⟨later, hlater⟩ := events_prefix_play client alter (c.receive (.failure g)
              { c.stage.read with shared := { c.stage.read.shared with errors := others } }) moves
            refine ⟨.failure g :: later, ?_, by simp⟩
            rw [← hlater]
            simp [receive, Event.deed, Deed.event?]
          case passed none errors => cases hqueued.symm.trans none
          case ended none errors => cases hqueued.symm.trans none
          case told told => exact ih hqueued hlook
          case took queued records => exact (hlook records).elim
          case waited none going records => exact (hlook records).elim
          case closed none ended records => exact (hlook records).elim

/-- A call that has found the error queue empty may still give one record before. -/
theorem error_comes_second {f : PartitionFailure} {rest : List PartitionFailure}
    (hqueued : c.stage.read.shared.errors = f :: rest) (hlook : c.look = .second)
    (moves : List (Drawing δ)) : ∃ (one : Option Record) (later : List Event),
      (c.play client alter moves).stage.events =
        c.stage.events ++ ((one.map .record).toList ++ later) ∧
      ∀ event ∈ later.head?, event = .failure f := by
  induction moves generalizing c rest with
  | nil => exact ⟨none, [], by simp [play], by simp⟩
  | cons m moves ih =>
      rw [play_cons]
      cases hm : m.move? with
      | some move =>
          rw [step_aside hm]
          obtain ⟨hevents, more, hqueued'⟩ :=
            (Stage.next_step alter move).aside_of_queued hm hqueued
          rw [← hevents]
          exact ih (c := { c with stage := c.stage.step client alter move }) hqueued' hlook
      | none =>
          rw [step_look hm]
          have hlooks := looks_takeLook c
          generalize c.takeLook = c' at hlooks
          cases hlooks
          case took a others queued records =>
            obtain ⟨later, hlater, hhead⟩ := error_comes_first client alter
              (c := c.receive (.record a) { c.stage.read with shared :=
                { c.stage.read.shared with channel :=
                  { c.stage.read.shared.channel with queue := others } } })
              hqueued (by simp [receive]) moves
            refine ⟨some a, later, ?_, hhead⟩
            rw [hlater]
            simp [receive, Event.deed, Deed.event?]
          case waited none going records =>
            obtain ⟨later, hlater⟩ := error_comes_first client alter
              (c := { c with look := .first }) hqueued (by simp) moves
            exact ⟨.none, later, by simpa using hlater⟩
          case closed none ended records =>
            obtain ⟨later, hlater⟩ := error_comes_first client alter
              (c := { c with look := .last }) hqueued (by simp) moves
            exact ⟨.none, later, by simpa using hlater⟩
          case heard queued errors => simp [hlook] at errors
          case passed none errors => simp [hlook] at errors
          case ended none errors => simp [hlook] at errors
          case told told => simp [hlook] at told

/-- How many looks a caller may take once the workers are over, before it is told the end. -/
def looksLeft (c : Caller σ κ) : Nat :=
  3 * (c.stage.read.shared.errors.length + c.stage.read.shared.channel.queue.length) +
    match c.look with
    | .first => 3
    | .second => 2
    | .last => 1
    | .told => 0

theorem Looks.looksLeft_lt {c' : Caller σ κ} (h : c.Looks c') (hover : c.stage.read.isOver = true)
    (hlook : c.look ≠ .told) :
    c'.stage.read.isOver = true ∧ c'.looksLeft < c.looksLeft := by
  cases h
  case heard queued errors =>
    refine ⟨hover, ?_⟩
    rcases errors with errors | errors
    all_goals
      simp only [looksLeft, receive, queued, errors, Stage.read_note, List.length_cons]
      omega
  case took queued records =>
    refine ⟨hover, ?_⟩
    simp only [looksLeft, receive, queued, records, Stage.read_note, List.length_cons]
    omega
  case passed none errors => exact ⟨hover, by simp [looksLeft, errors]⟩
  case closed none ended records => exact ⟨hover, by simp [looksLeft, records]⟩
  case ended none errors => exact ⟨hover, by simp [looksLeft, errors]⟩
  case waited none going records => cases hover.symm.trans going
  case told told => exact (hlook told).elim

/-- Once the workers are over, a caller that keeps looking is told the end. -/
theorem exists_over (client : Client σ κ) (alter : δ → σ → σ) (c : Caller σ κ)
    (hover : c.stage.read.isOver = true) :
    ∃ n, (c.play client alter (List.replicate n .look)).look = .told := by
  induction hn : c.looksLeft using Nat.strong_induction_on generalizing c with
  | _ n ih =>
      by_cases hlook : c.look = .told
      · exact ⟨0, hlook⟩
      · obtain ⟨hover', hlt⟩ := (looks_takeLook c).looksLeft_lt hover hlook
        obtain ⟨n, hplay⟩ := ih _ (hn ▸ hlt) c.takeLook hover' rfl
        exact ⟨n + 1, hplay⟩

end Caller

namespace Worker

variable {σ κ : Type}

theorem turn_of_isOver (client : Client σ κ) (job : Job) (s : σ) (sh : Shared) {w : Worker κ}
    (h : w.phase.isOver = true) : w.turn client job s sh = ⟨s, sh, w, false⟩ := by
  cases hphase : w.phase <;> simp_all [Phase.isOver, turn]

end Worker

namespace Read

variable {σ κ : Type} {r r' : Read κ}

/-- Everything that a summary is made of but the reports. -/
structure Still (r r' : Read κ) : Prop where
  workers_eq : r'.workers = r.workers
  emitted_eq : r'.shared.counter.emitted = r.shared.counter.emitted

theorem still_advance (client : Client σ κ) (s : σ) (hover : r.isOver = true) (i : Nat) :
    r.Still (r.advance client s i).2.2 := by
  have hturn : r.turn client s i = (false, s, r) := by
    cases hw : r.workers[i]? with
    | none => simp [turn, hw]
    | some w =>
        have hdone := List.all_eq_true.mp hover w (List.mem_of_getElem? hw)
        obtain ⟨hi, rfl⟩ := List.getElem?_eq_some_iff.mp hw
        simp [turn, hw, Worker.turn_of_isOver client r.job s r.shared hdone]
  simp only [advance, hturn, collect]
  split
  · exact ⟨rfl, rfl⟩
  · split
    · exact ⟨rfl, rfl⟩
    · split
      · exact ⟨rfl, rfl⟩
      · refine ⟨rfl, ?_⟩
        dsimp only
        split <;> rfl

theorem Still.isOver (h : r.Still r') (hover : r.isOver = true) : r'.isOver = true := by
  rw [Read.isOver, h.workers_eq]
  exact hover

theorem Still.trans {r'' : Read κ} (h : r.Still r') (h' : r'.Still r'') : r.Still r'' :=
  ⟨h'.workers_eq.trans h.workers_eq, h'.emitted_eq.trans h.emitted_eq⟩

theorem still_sweep (client : Client σ κ) (s : σ) (hover : r.isOver = true) :
    r.Still (r.sweep client s).2.2 := by
  have hfold (g : Bool × σ × Read κ → Nat → Bool × σ × Read κ)
      (hg : ∀ t i, (g t i).2.2 = (t.2.2.advance client t.2.1 i).2.2) (order : List Nat)
      (t : Bool × σ × Read κ) (ht : r.Still t.2.2) : r.Still (order.foldl g t).2.2 := by
    induction order generalizing t with
    | nil => exact ht
    | cons i order ih =>
        refine ih _ ?_
        rw [hg]
        exact ht.trans (still_advance client _ (ht.isOver hover) i)
  refine hfold _ ?_ _ (false, s, r) ⟨rfl, rfl⟩
  exact fun _ _ ↦ rfl

theorem still_settle (client : Client σ κ) (s : σ) (hover : r.isOver = true) (fuel : Nat) :
    r.Still (r.settle client s fuel).2 := by
  induction fuel generalizing s r with
  | zero => exact ⟨rfl, rfl⟩
  | succ fuel ih =>
      have hsweep := still_sweep client s hover
      unfold settle
      split
      · next heq =>
          rw [heq] at hsweep
          exact hsweep.trans (ih _ (hsweep.isOver hover))
      · next heq =>
          rw [heq] at hsweep
          exact hsweep

/-- Finishing a read whose workers are over leaves the total as it is. -/
theorem emitted_finish (client : Client σ κ) (s : σ) (hover : r.isOver = true) :
    (r.finish client s).1.emitted = r.shared.counter.emitted := by
  have hleft : r.Still r.hangUp := ⟨rfl, rfl⟩
  have hstill : r.Still (r.hangUp.run client s).2 :=
    hleft.trans (still_settle client s (hleft.isOver hover) _)
  simp only [finish, summary?]
  split <;> exact hstill.emitted_eq

end Read

namespace Caller

variable {σ κ δ : Type} {client : Client σ κ} {alter : δ → σ → σ}

/-- A call without a pause is the looks of one call in a row. -/
theorem looks_of_nextEvent (client : Client σ κ) (alter : δ → σ → σ) (c : Caller σ κ)
    (hlook : c.look = .first) :
    match c.stage.read.nextEvent with
    | (.item event, r) => ∃ n, c.play client alter (List.replicate n .look) = c.receive event r
    | (.pending, _) => c.play client alter (List.replicate 2 .look) = c
    | (.closed, _) => c.play client alter (List.replicate 3 .look) = { c with look := .told } := by
  obtain ⟨x, look⟩ := c
  obtain rfl : look = .first := hlook
  cases herrors : x.read.shared.errors with
  | cons f rest =>
      simp only [Read.nextEvent, Read.firstLook, Read.takeError, herrors]
      refine ⟨1, ?_⟩
      change takeLook ⟨x, .first⟩ = _
      simp [takeLook, Read.firstLook, Read.takeError, herrors]
  | nil =>
      have hfirst : x.read.firstLook = (none, x.read) := by
        cases hover : x.read.isOver <;> simp [Read.firstLook, Read.takeError, herrors, hover]
      have hlast : x.read.lastLook = (.closed, x.read) := by
        cases hover : x.read.isOver <;> simp [Read.lastLook, Read.takeError, herrors, hover]
      have hpass : takeLook ⟨x, .first⟩ = ⟨x, .second⟩ := by simp [takeLook, hfirst]
      rw [Read.nextEvent, hfirst]
      rcases hsecond : x.read.secondLook with ⟨answer, r⟩
      cases answer with
      | item event =>
          simp only [hsecond]
          refine ⟨2, ?_⟩
          change takeLook (takeLook ⟨x, .first⟩) = _
          rw [hpass]
          simp only [takeLook, hsecond]
          rfl
      | pending =>
          simp only [hsecond]
          change takeLook (takeLook ⟨x, .first⟩) = _
          rw [hpass]
          simp only [takeLook, hsecond]
      | closed =>
          obtain rfl : r = x.read := by
            cases hqueue : x.read.shared.channel.queue <;> cases hover : x.read.isOver <;>
              simp_all [Read.secondLook, Read.takeRecord]
          simp only [hsecond, hlast]
          have hclose : takeLook ⟨x, .second⟩ = ⟨x, .last⟩ := by simp only [takeLook, hsecond]
          change takeLook (takeLook (takeLook ⟨x, .first⟩)) = _
          rw [hpass, hclose]
          simp only [takeLook, hlast]

/-- However the looks of a caller mix with the turns of the workers, it is given all that is sent
and reported, once and in that order; what it has not yet been given is queued.  An error that is
queued when a call begins, or while the caller waits, comes next.  Only a call that has already
looked for errors may give one record before it.  The caller is told the end once the workers are
over, and only when nothing is left; the read then sums up to the number of the records given. -/
theorem drawing_loses_nothing (client : Client σ κ) (alter : δ → σ → σ) {s : σ}
    {settings : ReaderSettings} {decoder : Decoder} {request : Request} {cancelled : Bool}
    {r : Read κ}
    (hstart : startRead client s settings decoder request cancelled = .ok (.running r))
    (moves : List (Drawing δ)) {c : Caller σ κ} (hc : (start s r).play client alter moves = c) :
    c.stage.events.filterMap Event.record? ++ c.stage.read.shared.channel.queue = c.stage.sent ∧
      c.stage.events.filterMap Event.failure? ++ c.stage.read.shared.errors = c.stage.reported ∧
      (c.look ≠ .second → ∀ f rest, c.stage.read.shared.errors = f :: rest →
        ∀ more : List (Drawing δ), ∃ later : List Event,
          (c.play client alter more).stage.events = c.stage.events ++ later ∧
          ∀ event ∈ later.head?, event = .failure f) ∧
      (c.look = .second → ∀ f rest, c.stage.read.shared.errors = f :: rest →
        ∀ more : List (Drawing δ), ∃ (one : Option Record) (later : List Event),
          (c.play client alter more).stage.events =
            c.stage.events ++ ((one.map .record).toList ++ later) ∧
          ∀ event ∈ later.head?, event = .failure f) ∧
      (c.stage.read.isOver = true →
        ∃ n, (c.play client alter (List.replicate n .look)).look = .told) ∧
      (c.look = .told → c.stage.read.isOver = true ∧
        c.stage.read.shared.channel.queue = [] ∧ c.stage.read.shared.errors = [] ∧
        c.stage.events.filterMap Event.record? = c.stage.sent ∧
        c.stage.events.filterMap Event.failure? = c.stage.reported ∧
        (c.stage.read.finish client c.stage.state).1.emitted =
          UInt64.ofNat (c.stage.events.filterMap Event.record?).length) := by
  obtain ⟨ranges, hlaunched⟩ := exists_launched hstart
  have hheeds : c.Heeds := hc ▸ heeds_play client alter s r moves
  obtain ⟨course, hstays, hcourse⟩ := play_stage client alter (start s r) moves
  rw [hc] at hcourse
  have hlistening : c.stage.read.shared.channel.receiving = true :=
    hcourse ▸ Stage.listening_play hlaunched hstays
  obtain ⟨hrecords, hfailures⟩ := Stage.conserved_play hlaunched hcourse.symm hlistening
  have hreporting : c.stage.Reporting r := hcourse ▸ Stage.reporting_play hlaunched course
  rw [Stage.records_of_events, Stage.failures_of_events]
  refine ⟨hrecords, hfailures,
    fun hlook f rest hqueued more ↦ error_comes_first client alter hqueued hlook more,
    fun hlook f rest hqueued more ↦ error_comes_second hqueued hlook more,
    exists_over client alter c, ?_⟩
  intro hlook
  obtain ⟨hover, hqueue⟩ := hheeds.done (.inr hlook)
  have herrors := hheeds.told hlook
  rw [hqueue, List.append_nil] at hrecords
  rw [herrors, List.append_nil] at hfailures
  refine ⟨hover, hqueue, herrors, hrecords, hfailures, ?_⟩
  rw [Read.emitted_finish client c.stage.state hover, hreporting.balanced.counter_eq,
    Stage.pending_of_isOver hover, Nat.add_zero, hrecords]

/-- An error is reported while the caller is between its first two looks. -/
def sampleDrawing : List (Drawing Empty) :=
  List.replicate 5 (.turn 0) ++ [.look, .turn 1, .look, .look] ++ List.replicate 5 (.turn 0) ++
    List.replicate 5 .look

theorem drawing_loses_nothing_of_sample :
    startRead Log.client (Log.sample.failOpenings ⟨"t", 1⟩) {} .lossy (sampleRequest .beginning 4)
        false = .ok (.running (sampleRead .beginning 4)) ∧
      let c := (start (Log.sample.failOpenings ⟨"t", 1⟩) (sampleRead .beginning 4)).play Log.client
        Empty.elim sampleDrawing
      c.look = .told ∧ c.stage.events.length = 3 ∧
        c.stage.events.filterMap Event.record? = c.stage.sent ∧
        c.stage.events.filterMap Event.failure? = c.stage.reported := by
  have hstart : startRead Log.client (Log.sample.failOpenings ⟨"t", 1⟩) {} .lossy
      (sampleRequest .beginning 4) false = .ok (.running (sampleRead .beginning 4)) := rfl
  obtain ⟨-, -, -, -, -, hend⟩ :=
    drawing_loses_nothing Log.client Empty.elim hstart sampleDrawing rfl
  obtain ⟨-, -, -, hrecords, hfailures, -⟩ := hend rfl
  exact ⟨hstart, rfl, rfl, hrecords, hfailures⟩

end Caller
end TopicView
