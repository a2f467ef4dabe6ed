import Mathlib.Algebra.Group.Defs
import Mathlib.Data.List.Induction
import TopicView.Proofs.Read.Act
import TopicView.Read.Handle

/-!
# Courses of a read

A course is a list of moves in any order: turns of the workers, the collecting of their reports,
what the caller takes, and what happens outside the read.  A stage is the state that a course has
led to, together with the history of what was done on the way.  A move without effect leaves no
trace in the history.
-/

namespace TopicView

/-- What may happen next.  `δ` are the changes that others make to the client meanwhile. -/
inductive Move (δ : Type)
  | turn (worker : Nat)
  | collect (worker : Nat)
  | takeRecord
  | takeError
  /-- The caller or a parent cancels the read. -/
  | cancel
  /-- The caller leaves. -/
  | hangUp
  | alter (change : δ)

/-- Moves of the read itself and of a caller that listens and neither cancels nor leaves. -/
def Move.IsInner {δ : Type} : Move δ → Prop
  | turn _ | collect _ | takeRecord | takeError => True
  | cancel | hangUp | alter _ => False

instance {δ : Type} : DecidablePred (Move.IsInner (δ := δ))
  | .turn _ | .collect _ | .takeRecord | .takeError => isTrue trivial
  | .cancel | .hangUp | .alter _ => isFalse id

/-- A first worker has some turns, then a second one, and then the caller takes some records. -/
def Move.oneByOne (first second takes : Nat) : List (Move Empty) :=
  List.replicate first (.turn 0) ++ List.replicate second (.turn 1) ++
    List.replicate takes .takeRecord

/-- What was done in a move. -/
inductive Deed
  | act (worker : Nat) (act : Act)
  | collected (worker : Nat)
  | took (record : Record)
  | heard (failure : PartitionFailure)
  | cancelled
  | left
  | altered
  deriving DecidableEq, Repr

namespace Deed

def sent? : Deed → Option Record
  | act _ a => a.record?
  | _ => none

def took? : Deed → Option Record
  | took record => some record
  | _ => none

def isLastClaim : Deed → Bool
  | act _ a => a.isLastClaim
  | _ => false

end Deed

structure Stage (σ κ : Type) where
  state : σ
  read : Read κ
  history : List Deed

namespace Stage

variable {σ κ δ : Type}

def start (s : σ) (r : Read κ) : Stage σ κ := ⟨s, r, []⟩

/-- The stage after a step of one worker. -/
def after (x : Stage σ κ) (i : Nat) (act : Option Act) (s : σ) (sh : Shared) (w : Worker κ) :
    Stage σ κ where
  state := s
  read := { x.read with shared := sh, workers := x.read.workers.set i w }
  history := x.history ++ (act.map (.act i)).toList

/-- The stage after anything else. -/
def note (x : Stage σ κ) (s : σ) (r : Read κ) (deed : Deed) : Stage σ κ :=
  ⟨s, r, x.history ++ [deed]⟩

def turn (client : Client σ κ) (x : Stage σ κ) (i : Nat) : Stage σ κ :=
  match x.read.workers[i]? with
  | none => x
  | some w =>
    let (_, s, r) := x.read.turn client x.state i
    ⟨s, r, x.history ++ ((w.act? client x.read.job x.state x.read.shared).map (.act i)).toList⟩

def collect (x : Stage σ κ) (i : Nat) : Stage σ κ :=
  match x.read.collect i with
  | (true, r) => x.note x.state r (.collected i)
  | (false, _) => x

def takeRecord (x : Stage σ κ) : Stage σ κ :=
  match x.read.takeRecord with
  | (.item a, r) => x.note x.state r (.took a)
  | _ => x

def takeError (x : Stage σ κ) : Stage σ κ :=
  match x.read.takeError with
  | (.item f, r) => x.note x.state r (.heard f)
  | _ => x

def step (client : Client σ κ) (alter : δ → σ → σ) (x : Stage σ κ) : Move δ → Stage σ κ
  | .turn i => x.turn client i
  | .collect i => x.collect i
  | .takeRecord => x.takeRecord
  | .takeError => x.takeError
  | .cancel => x.note x.state x.read.cancel .cancelled
  | .hangUp => x.note x.state x.read.hangUp .left
  | .alter change => x.note (alter change x.state) x.read .altered

def play (client : Client σ κ) (alter : δ → σ → σ) (x : Stage σ κ) (moves : List (Move δ)) :
    Stage σ κ := moves.foldl (step client alter) x

/-! ## What a history shows -/

/-- The records put on the channel so far, in order. -/
def sent (x : Stage σ κ) : List Record := x.history.filterMap Deed.sent?

def taken (x : Stage σ κ) : List Record := x.history.filterMap Deed.took?

def sentFrom (x : Stage σ κ) (p : PartitionId) : List Record :=
  x.sent.filter (·.partition = p)

def takenFrom (x : Stage σ κ) (p : PartitionId) : List Record :=
  x.taken.filter (·.partition = p)

/-- How many claims were told that they took the last slot of the limit. -/
def lastClaims (x : Stage σ κ) : Nat := x.history.countP Deed.isLastClaim

/-- The claims that are granted and whose record is not yet sent. -/
def pending (x : Stage σ κ) : Nat := x.read.workers.countP (·.phase.isSending)

/-- Nothing from outside the read has stopped it. -/
def Undisturbed (x : Stage σ κ) : Prop := .cancelled ∉ x.history ∧ .left ∉ x.history

/-- No worker has a turn left and the caller has nothing to take. -/
def AtRest (client : Client σ κ) (x : Stage σ κ) : Prop :=
  (∀ i, (x.turn client i).history = x.history) ∧ x.takeRecord.history = x.history

/-! ## Steps -/

variable (client : Client σ κ) (alter : δ → σ → σ) (x : Stage σ κ)

@[simp] theorem play_nil : x.play client alter [] = x := rfl

theorem play_append (moves more : List (Move δ)) :
    x.play client alter (moves ++ more) = (x.play client alter moves).play client alter more :=
  List.foldl_append

theorem play_concat (moves : List (Move δ)) (m : Move δ) :
    x.play client alter (moves ++ [m]) = (x.play client alter moves).step client alter m := by
  rw [play_append]
  rfl

/-- A property of the start that every move keeps holds all along the course. -/
theorem play_keeps {P : Stage σ κ → Prop} (hstart : P x) (moves : List (Move δ))
    (hstep : ∀ y, ∀ m ∈ moves, P y → P (y.step client alter m)) :
    P (x.play client alter moves) := by
  induction moves using List.reverseRecOn with
  | nil => exact hstart
  | append_singleton moves m ih =>
      rw [play_concat]
      refine hstep _ m (by simp) (ih fun y m' hm' ↦ hstep y m' ?_)
      exact List.mem_append_left [m] hm'

variable {client x}

theorem turn_eq_after {i : Nat} {w : Worker κ} (hw : x.read.workers[i]? = some w) :
    x.turn client i = x.after i (w.act? client x.read.job x.state x.read.shared)
      (w.turn client x.read.job x.state x.read.shared).client
      (w.turn client x.read.job x.state x.read.shared).shared
      (w.turn client x.read.job x.state x.read.shared).worker := by
  simp [turn, hw, Read.turn, after]

/-- The stages that a move leads to, each with what is known of it. -/
inductive Next (client : Client σ κ) (alter : δ → σ → σ) (x : Stage σ κ) :
    Move δ → Stage σ κ → Prop
  | unchanged (m : Move δ) (own : ∀ change, m ≠ .alter change) : Next client alter x m x
  | worked {i : Nat} {w w' : Worker κ} {act : Option Act} {s : σ} {sh : Shared}
      (present : x.read.workers[i]? = some w)
      (step : w.Step client x.read.job x.state x.read.shared act s sh w') :
      Next client alter x (.turn i) (x.after i act s sh w')
  | collected {i : Nat} {w : Worker κ} {report : Report} (present : x.read.workers[i]? = some w)
      (reported : w.report? = some report)
      (fresh : (x.read.reports.lookup w.partition).isSome = false) :
      Next client alter x (.collect i) (x.note x.state
        { x.read with
          shared := if report.outcome = .panicked then x.read.shared.cancel else x.read.shared
          reports := Keyed.insert w.partition report x.read.reports }
        (.collected i))
  | took {a : Record} {rest : List Record} (queued : x.read.shared.channel.queue = a :: rest) :
      Next client alter x .takeRecord (x.note x.state
        { x.read with shared :=
          { x.read.shared with channel := { x.read.shared.channel with queue := rest } } }
        (.took a))
  | heard {f : PartitionFailure} {rest : List PartitionFailure}
      (queued : x.read.shared.errors = f :: rest) :
      Next client alter x .takeError (x.note x.state
        { x.read with shared := { x.read.shared with errors := rest } } (.heard f))
  | cancelled : Next client alter x .cancel (x.note x.state x.read.cancel .cancelled)
  | left : Next client alter x .hangUp (x.note x.state x.read.hangUp .left)
  | altered (change : δ) :
      Next client alter x (.alter change) (x.note (alter change x.state) x.read .altered)

theorem next_step (m : Move δ) : x.Next client alter m (x.step client alter m) := by
  cases m with
  | turn i =>
      cases hw : x.read.workers[i]? with
      | none => simpa [step, turn, hw] using Next.unchanged (.turn i) nofun
      | some w =>
          simp only [step, turn_eq_after hw]
          exact .worked hw (Worker.step_turn client x.read.job x.state x.read.shared w)
  | collect i =>
      cases hw : x.read.workers[i]? with
      | none => simpa [step, collect, Read.collect, hw] using Next.unchanged (.collect i) nofun
      | some w =>
          cases hreport : w.report? with
          | none =>
              simpa [step, collect, Read.collect, hw, hreport] using
                Next.unchanged (.collect i) nofun
          | some report =>
              cases hdone : (x.read.reports.lookup w.partition).isSome with
              | true =>
                  simpa [step, collect, Read.collect, hw, hreport, hdone] using
                    Next.unchanged (.collect i)
              | false =>
                  simpa [step, collect, Read.collect, hw, hreport, hdone] using
                    Next.collected hw hreport hdone
  | takeRecord =>
      cases hq : x.read.shared.channel.queue with
      | nil =>
          cases hover : x.read.isOver <;>
            simpa [step, takeRecord, Read.takeRecord, hq, hover] using
              Next.unchanged .takeRecord nofun
      | cons a rest => simpa [step, takeRecord, Read.takeRecord, hq] using Next.took hq
  | takeError =>
      cases he : x.read.shared.errors with
      | nil =>
          cases hover : x.read.isOver <;>
            simpa [step, takeError, Read.takeError, he, hover] using Next.unchanged .takeError nofun
      | cons f rest => simpa [step, takeError, Read.takeError, he] using Next.heard he
  | cancel => exact .cancelled
  | hangUp => exact .left
  | alter change => exact .altered change

section After

variable {i : Nat} {act : Option Act} {s : σ} {sh : Shared} {w w' : Worker κ}

theorem sent_after :
    (x.after i act s sh w).sent = x.sent ++ (act.bind Act.record?).toList := by
  cases act with
  | none => simp [sent, after]
  | some a => cases ha : a.record? <;> simp [sent, after, Deed.sent?, ha]

@[simp] theorem taken_after : (x.after i act s sh w).taken = x.taken := by
  cases act <;> simp [taken, after, Deed.took?]

theorem lastClaims_after :
    (x.after i act s sh w).lastClaims = x.lastClaims + (act.any Act.isLastClaim).toNat := by
  cases act with
  | none => simp [lastClaims, after]
  | some a => cases ha : a.isLastClaim <;> simp [lastClaims, after, Deed.isLastClaim, ha]

@[simp] theorem undisturbed_after : (x.after i act s sh w).Undisturbed ↔ x.Undisturbed := by
  cases act <;> simp [Undisturbed, after]

theorem countP_set_add {α : Type} {p : α → Bool} {l : List α} {i : Nat} {a b : α}
    (h : l[i]? = some a) : (l.set i b).countP p + (p a).toNat = l.countP p + (p b).toNat := by
  obtain ⟨hi, rfl⟩ := List.getElem?_eq_some_iff.mp h
  have hpos : p l[i] = true → 0 < l.countP p := fun hp ↦
    List.countP_pos_iff.mpr ⟨l[i], List.getElem_mem hi, hp⟩
  rw [List.countP_set hi]
  cases hp : p l[i] <;> cases p b <;> simp_all

theorem sum_map_set_add {α M : Type} [AddCommMonoid M] {f : α → M} {l : List α} {i : Nat} {a b : α}
    (h : l[i]? = some a) : ((l.set i b).map f).sum + f a = (l.map f).sum + f b := by
  induction l generalizing i with
  | nil => cases h
  | cons c rest ih =>
      cases i with
      | zero =>
          obtain rfl : c = a := by simpa using h
          simp only [List.set_cons_zero, List.map_cons, List.sum_cons]
          rw [add_comm, add_comm (f b), ← add_assoc]
      | succ i =>
          have hrest := ih (i := i) (by simpa using h)
          simp only [List.set_cons_succ, List.map_cons, List.sum_cons]
          rw [add_assoc, hrest, add_assoc]

theorem pending_after (hw : x.read.workers[i]? = some w) :
    (x.after i act s sh w').pending + w.phase.isSending.toNat =
      x.pending + w'.phase.isSending.toNat :=
  countP_set_add hw

end After

section Note

variable {s : σ} {r : Read κ} {deed : Deed}

@[simp] theorem read_note : (x.note s r deed).read = r := rfl

@[simp] theorem length_history_note :
    (x.note s r deed).history.length = x.history.length + 1 := List.length_append

@[simp] theorem sent_note : (x.note s r deed).sent = x.sent ++ deed.sent?.toList := by
  cases h : deed.sent? <;> simp [sent, note, h]

@[simp] theorem taken_note : (x.note s r deed).taken = x.taken ++ deed.took?.toList := by
  cases h : deed.took? <;> simp [taken, note, h]

@[simp] theorem lastClaims_note :
    (x.note s r deed).lastClaims = x.lastClaims + deed.isLastClaim.toNat := by
  cases h : deed.isLastClaim <;> simp [lastClaims, note, h]

@[simp] theorem undisturbed_note :
    (x.note s r deed).Undisturbed ↔ x.Undisturbed ∧ deed ≠ .cancelled ∧ deed ≠ .left := by
  simp only [Undisturbed, note, List.mem_append, List.mem_singleton, not_or, ne_eq]
  constructor
  · rintro ⟨⟨hc, hc'⟩, hl, hl'⟩
    exact ⟨⟨hc, hl⟩, fun h ↦ hc' h.symm, fun h ↦ hl' h.symm⟩
  · rintro ⟨⟨hc, hl⟩, hc', hl'⟩
    exact ⟨⟨hc, fun h ↦ hc' h.symm⟩, hl, fun h ↦ hl' h.symm⟩

end Note

end Stage
end TopicView
