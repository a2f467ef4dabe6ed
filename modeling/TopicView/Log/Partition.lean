import TopicView.Record

/-!
# Partitions of the in-memory log

The retained records of a partition lie at consecutive offsets from the oldest on.
-/

namespace TopicView

structure PartitionLog where
  oldest : Offset
  records : List RawRecord
  /-- The first available offset as it was last published. -/
  watermark : Offset
  deriving DecidableEq, Repr

namespace PartitionLog

def empty : PartitionLog := ⟨0, [], 0⟩

/-- The offset that the next record will get, if there is one left. -/
def firstAvailable? (log : PartitionLog) : Option Offset :=
  Offset.ofInt? (log.oldest.toInt + log.records.length)

/-- The position of an offset among the retained records; offsets below them have none. -/
def index? (log : PartitionLog) (offset : Offset) : Option Nat :=
  let n := offset.toInt - log.oldest.toInt
  if n < 0 then none else some n.toNat

def get? (log : PartitionLog) (offset : Offset) : Option RawRecord :=
  (log.index? offset).bind (log.records[·]?)

/-- Publishes the first available offset, if there is one. -/
def publish (log : PartitionLog) : PartitionLog :=
  { log with watermark := log.firstAvailable?.getD log.watermark }

def append (log : PartitionLog) (raw : RawRecord) : PartitionLog :=
  publish { log with records := log.records ++ [raw] }

/-- Moves an empty log, so that the next record gets `offset`. -/
def startAt (log : PartitionLog) (offset : Offset) : PartitionLog :=
  { log with oldest := offset, watermark := offset }

/-- Drops the records below `offset`, which is not above the end. -/
def dropBefore (log : PartitionLog) (offset : Offset) : PartitionLog :=
  if log.oldest < offset then
    { log with
      oldest := offset
      records := log.records.drop (offset.toInt - log.oldest.toInt).toNat }
  else log

/-- Drops the records below `offset`, never more than there are. -/
def truncateBefore? (log : PartitionLog) (offset : Offset) : Option PartitionLog :=
  log.firstAvailable?.map fun next ↦ log.dropBefore (min offset next)

end PartitionLog
end TopicView
