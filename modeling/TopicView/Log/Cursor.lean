import TopicView.Client
import TopicView.Log.Basic

/-!
# Cursors on the in-memory log

A cursor keeps a position.  Records that are gone from below it are passed over; at the end of the
partition a following cursor waits and any other one ends.  A record at the last offset cannot be
stepped over, and the cursor crashes at it.
-/

namespace TopicView

structure LogCursor where
  target : TopicPartition
  position : Offset
  follow : Bool
  /-- The number of records after which the cursor fails. -/
  failAfter : Option Nat
  delivered : Nat
  closed : Bool
  deriving DecidableEq, Repr

namespace Log

def openCursor (log : Log) (target : TopicPartition) (start : Offset) (follow : Bool) :
    Except LogFault LogCursor := do
  if target ∈ log.faults.openings then throw (.opening target)
  let _ ← log.partition target
  return ⟨target, start, follow, log.faults.streams.lookup target, 0, false⟩

end Log

namespace LogCursor

/-- A cursor that has fallen below the retained range goes on at its start. -/
def resume (c : LogCursor) (oldest : Offset) : LogCursor :=
  if c.position < oldest then { c with position := oldest } else c

def pull (log : Log) (c : LogCursor) : Pull × LogCursor :=
  if c.closed then (.ended, c)
  else if c.failAfter = some c.delivered then
    (.failed (LogFault.stream c.target).failure, { c with closed := true })
  else
    match log.partition c.target with
    | .error fault => (.failed fault.failure, c)
    | .ok p =>
      let c := c.resume p.oldest
      match p.get? c.position with
      | some raw =>
        match c.position.checkedAdd 1 with
        | some position => (.record raw, { c with position, delivered := c.delivered + 1 })
        | none => (.crashed, c)
      | none => (if c.follow then .waiting else .ended, c)

def close (c : LogCursor) : LogCursor := { c with closed := true }

end LogCursor

namespace Log

def recordCount (log : Log) : Nat :=
  log.topics.foldr (fun (_, partitions) n ↦
    partitions.foldr (·.records.length + ·) n) 0

def client : Client Log LogCursor where
  lookup := lookup
  openCursor log target start follow :=
    match log.openCursor target start follow with
    | .ok c => (.opened c, log)
    | .error fault => (.failed fault.failure, log)
  pull log c :=
    let (answer, c) := c.pull log
    (answer, c, log)
  close log c := (c.close, log)
  bound log := log.recordCount + 2

end Log
end TopicView
