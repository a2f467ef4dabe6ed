import TopicView.Read.Offsets
import TopicView.Record

/-!
# Clients

What a reader needs of a log: two offset lookups per partition, and cursors that yield the records
of one partition one by one.  A client has a state of its own, `σ`, and cursors of a type `κ`.
-/

namespace TopicView

/-- What opening a cursor brings.  While it is `waiting` nothing has changed. -/
inductive Opening (κ : Type)
  | waiting
  | opened (cursor : κ)
  | failed (failure : Failure)
  | crashed
  deriving DecidableEq, Repr

/-- What asking a cursor for its next record brings. -/
inductive Pull
  | waiting
  | record (raw : RawRecord)
  | ended
  | failed (failure : Failure)
  | crashed
  deriving DecidableEq, Repr

structure Client (σ κ : Type) where
  lookup : σ → String → PartitionId → Lookup
  openCursor : σ → TopicPartition → (start : Offset) → (follow : Bool) → Opening κ × σ
  /-- A pull that has to wait may be abandoned and made again. -/
  pull : σ → κ → Pull × κ × σ
  close : σ → κ → κ × σ
  /-- More pulls than any one cursor can make before it waits or ends. -/
  bound : σ → Nat

end TopicView
