import TopicView.Read.Run

/-!
# The caller's side of a read

Records and errors wait in two queues.  An event is looked for in three steps, between which the
workers may go on: the error queue, then the record queue, and once that has closed the error queue
again.
-/

namespace TopicView

/-- What the caller sees of a queue. -/
inductive Answer (α : Type)
  | item (a : α)
  | pending
  | closed
  deriving DecidableEq, Repr

inductive Event
  | record (r : Record)
  | failure (f : PartitionFailure)
  deriving DecidableEq, Repr

namespace Read

variable {σ κ : Type}

def takeRecord (r : Read κ) : Answer Record × Read κ :=
  match r.shared.channel.queue with
  | a :: rest =>
    (.item a, { r with shared :=
      { r.shared with channel := { r.shared.channel with queue := rest } } })
  | [] => (if r.isOver then .closed else .pending, r)

def takeError (r : Read κ) : Answer PartitionFailure × Read κ :=
  match r.shared.errors with
  | a :: rest => (.item a, { r with shared := { r.shared with errors := rest } })
  | [] => (if r.isOver then .closed else .pending, r)

/-! ## Events -/

/-- The first look: an error, if one is queued. -/
def firstLook (r : Read κ) : Option Event × Read κ :=
  match r.takeError with
  | (.item f, r) => (some (.failure f), r)
  | (_, r) => (none, r)

/-- The second look: a record, or the news that no more will come. -/
def secondLook (r : Read κ) : Answer Event × Read κ :=
  match r.takeRecord with
  | (.item a, r) => (.item (.record a), r)
  | (.pending, r) => (.pending, r)
  | (.closed, r) => (.closed, r)

/-- The last look, once the records have ended: an error that was queued in the meantime. -/
def lastLook (r : Read κ) : Answer Event × Read κ :=
  match r.takeError with
  | (.item f, r) => (.item (.failure f), r)
  | (_, r) => (.closed, r)

/-- The three looks without a pause between them. -/
def nextEvent (r : Read κ) : Answer Event × Read κ :=
  match r.firstLook with
  | (some event, r) => (.item event, r)
  | (none, r) =>
    match r.secondLook with
    | (.closed, r) => r.lastLook
    | answer => answer

/-! ## Drawing until there is no more -/

/-- How a drain ended: nothing more will come, nothing more comes as things stand, or as much as
was wanted has come. -/
inductive DrainEnd
  | ended
  | pending
  | more
  deriving DecidableEq, Repr

/-- Lets the workers run, takes one item, and so on, at most `n` times. -/
def drain {α : Type} (client : Client σ κ) (take : Read κ → Answer α × Read κ) :
    Nat → σ → Read κ → List α × DrainEnd × σ × Read κ
  | 0, s, r => ([], .more, s, r)
  | n + 1, s, r =>
    let (s, r) := r.run client s
    match take r with
    | (.item a, r) =>
      let (as, e, s, r) := drain client take n s r
      (a :: as, e, s, r)
    | (.pending, r) => ([], .pending, s, r)
    | (.closed, r) => ([], .ended, s, r)

/-- More items than can come before a drain has to wait or ends. -/
def itemBound (client : Client σ κ) (s : σ) (r : Read κ) : Nat :=
  r.shared.channel.queue.length + r.shared.errors.length +
    r.workers.length * (client.bound s + 2) + 1

/-- Stops the read and lets every worker come to its end. -/
def finish (client : Client σ κ) (s : σ) (r : Read κ) : Summary × σ :=
  let (s, r) := r.hangUp.run client s
  (r.summary?.getD ⟨r.shared.counter.emitted, []⟩, s)

end Read
end TopicView
