import TopicView.Proofs.Read.Channel

/-!
# Records and errors given to the caller

A worker puts its records on one queue and its errors on another, and the caller is given both as
events.  While it listens, the errors that it has heard and those still queued are the errors
reported.
-/

namespace TopicView

namespace Deed

def reported? : Deed → Option PartitionFailure
  | act _ a => a.failure?
  | _ => none

def heard? : Deed → Option PartitionFailure
  | heard f => some f
  | _ => none

/-- What the caller is given in a move. -/
def event? : Deed → Option Event
  | took a => some (.record a)
  | heard f => some (.failure f)
  | _ => none

end Deed

namespace Event

def record? : Event → Option Record
  | record a => some a
  | failure _ => none

def failure? : Event → Option PartitionFailure
  | failure f => some f
  | record _ => none

/-- What the caller does that is given it. -/
def deed : Event → Deed
  | record a => .took a
  | failure f => .heard f

end Event

namespace Stage

variable {σ κ δ : Type} {client : Client σ κ} {alter : δ → σ → σ} {x y : Stage σ κ}

/-- The errors put on the error queue so far, in order. -/
def reported (x : Stage σ κ) : List PartitionFailure := x.history.filterMap Deed.reported?

def heard (x : Stage σ κ) : List PartitionFailure := x.history.filterMap Deed.heard?

def events (x : Stage σ κ) : List Event := x.history.filterMap Deed.event?

theorem records_of_events (x : Stage σ κ) : x.events.filterMap Event.record? = x.taken := by
  rw [events, taken, List.filterMap_filterMap]
  congr 1
  funext deed
  cases deed <;> rfl

theorem failures_of_events (x : Stage σ κ) : x.events.filterMap Event.failure? = x.heard := by
  rw [events, heard, List.filterMap_filterMap]
  congr 1
  funext deed
  cases deed <;> rfl

section Growth

variable {i : Nat} {act : Option Act} {s : σ} {sh : Shared} {w : Worker κ} {r : Read κ}
  {deed : Deed}

theorem reported_after :
    (x.after i act s sh w).reported = x.reported ++ (act.bind Act.failure?).toList := by
  cases act with
  | none => simp [reported, after]
  | some a => cases ha : a.failure? <;> simp [reported, after, Deed.reported?, ha]

@[simp] theorem heard_after : (x.after i act s sh w).heard = x.heard := by
  cases act <;> simp [heard, after, Deed.heard?]

@[simp] theorem events_after : (x.after i act s sh w).events = x.events := by
  cases act <;> simp [events, after, Deed.event?]

@[simp] theorem reported_note :
    (x.note s r deed).reported = x.reported ++ deed.reported?.toList := by
  cases h : deed.reported? <;> simp [reported, note, h]

@[simp] theorem heard_note : (x.note s r deed).heard = x.heard ++ deed.heard?.toList := by
  cases h : deed.heard? <;> simp [heard, note, h]

@[simp] theorem events_note : (x.note s r deed).events = x.events ++ deed.event?.toList := by
  cases h : deed.event? <;> simp [events, note, h]

end Growth

/-- While the caller listens, the errors heard and those queued are the errors reported. -/
def Voiced (x : Stage σ κ) : Prop :=
  x.read.shared.channel.receiving = true → x.heard ++ x.read.shared.errors = x.reported

theorem Voiced.next (h : Voiced x) {m : Move δ} (hm : x.Next client alter m y) : Voiced y := by
  cases hm
  case unchanged => exact h
  case worked i w w' act s sh hw hstep =>
    intro hr
    have hr' : x.read.shared.channel.receiving = true := hstep.receiving_eq ▸ hr
    rw [heard_after, reported_after, ← h hr', List.append_assoc]
    simp only [after]
    rw [hstep.errors_eq, if_pos hr']
  case collected report hw hreport hfresh =>
    simpa [Voiced, Deed.heard?, Deed.reported?] using h
  case heard f rest hqueue =>
    intro hr
    have hreported := h hr
    rw [hqueue] at hreported
    simpa [Deed.heard?, Deed.reported?] using hreported
  case left =>
    intro hr
    cases hr
  all_goals simpa [Voiced, Deed.heard?, Deed.reported?, Read.cancel, Shared.cancel] using h

theorem voiced_play {s : σ} {settings : ReaderSettings} {decoder : Decoder} {request : Request}
    {cancelled : Bool} {ranges : List (PartitionId × Offsets)} {r : Read κ}
    (h : Launched client s settings decoder request cancelled ranges r) (moves : List (Move δ)) :
    Voiced ((start s r).play client alter moves) := by
  refine play_keeps client alter (start s r) ?_ moves fun _ m _ hy ↦ hy.next (next_step alter m)
  rw [h.made]
  exact fun _ ↦ rfl

/-- While the caller listens, what it has been given and what is queued for it is all that was sent
and reported. -/
theorem conserved_play {s : σ} {settings : ReaderSettings} {decoder : Decoder} {request : Request}
    {cancelled : Bool} {ranges : List (PartitionId × Offsets)} {r : Read κ}
    (h : Launched client s settings decoder request cancelled ranges r) {moves : List (Move δ)}
    (hx : (start s r).play client alter moves = x)
    (hlistening : x.read.shared.channel.receiving = true) :
    x.taken ++ x.read.shared.channel.queue = x.sent ∧
      x.heard ++ x.read.shared.errors = x.reported := by
  have hchanneled : x.Channeled settings.channelCapacity.toNat := hx ▸ channeled_play h moves
  have hvoiced : x.Voiced := hx ▸ voiced_play h moves
  exact ⟨hchanneled.taken_append_queue hlistening, hvoiced hlistening⟩

theorem Next.receiving_eq {m : Move δ} (hm : x.Next client alter m y) (hstays : m ≠ .hangUp) :
    y.read.shared.channel.receiving = x.read.shared.channel.receiving := by
  cases hm
  case worked hw hstep => exact hstep.receiving_eq
  case collected report hw hreport hfresh => simp
  case left => exact (hstays rfl).elim
  all_goals rfl

theorem listening_play {s : σ} {settings : ReaderSettings} {decoder : Decoder} {request : Request}
    {cancelled : Bool} {ranges : List (PartitionId × Offsets)} {r : Read κ}
    (h : Launched client s settings decoder request cancelled ranges r) {moves : List (Move δ)}
    (hstays : .hangUp ∉ moves) :
    ((start s r).play client alter moves).read.shared.channel.receiving = true := by
  refine play_keeps client alter (start s r) (P := fun y ↦ y.read.shared.channel.receiving = true)
    (by rw [h.made]; rfl) moves ?_
  intro y m hm hy
  have hother : m ≠ .hangUp := by
    rintro rfl
    exact hstays hm
  exact ((next_step alter m).receiving_eq hother).trans hy

end Stage
end TopicView
