import TopicView.Log.Partition
import TopicView.Read.Offsets

/-!
# The in-memory log

Topics by name, each a list of partitions, and the faults that have been asked for.  An operation
that fails changes nothing.  One that comes upon a partition without an offset left crashes; an
append that takes the last offset has then put its record down already.
-/

namespace TopicView

/-- What the log has been told to fail at. -/
structure Faults where
  lookups : List TopicPartition := []
  openings : List TopicPartition := []
  /-- The number of records after which a cursor fails; the latest entry of a partition counts. -/
  streams : List (TopicPartition × Nat) := []
  deriving DecidableEq, Repr

structure Log where
  topics : List (String × List PartitionLog) := []
  faults : Faults := {}
  deriving DecidableEq, Repr

inductive LogFault
  | noPartitions (topic : String)
  | topicExists (topic : String)
  | noTopic (topic : String)
  | noPartition (target : TopicPartition)
  | negativeStart (offset : Offset)
  | notEmpty (target : TopicPartition)
  | lookup (target : TopicPartition)
  | opening (target : TopicPartition)
  | stream (target : TopicPartition)
  deriving DecidableEq, Repr

def LogFault.failure : LogFault → Failure
  | noPartitions topic => ⟨.invalidInput, s!"Topic {topic} needs at least one partition"⟩
  | topicExists topic => ⟨.invalidInput, s!"Topic {topic} already exists"⟩
  | noTopic topic => ⟨.notFound, s!"Topic {topic} not found"⟩
  | noPartition target => ⟨.notFound, s!"Partition {target.text} not found"⟩
  | negativeStart offset =>
    ⟨.invalidInput, s!"Negative start offset {Numeral.text offset.toInt}"⟩
  | notEmpty target => ⟨.invalidInput, s!"Partition {target.text} already holds records"⟩
  | lookup target => ⟨.network, s!"Offset lookup for {target.text} failed"⟩
  | opening target => ⟨.network, s!"Failed to open cursor on {target.text}"⟩
  | stream target => ⟨.network, s!"Connection to leader of {target.text} lost"⟩

namespace Log

/-! ## Partitions -/

def partition (log : Log) (target : TopicPartition) : Except LogFault PartitionLog :=
  match log.topics.lookup target.topic with
  | none => .error (.noTopic target.topic)
  | some partitions =>
    if target.partition < 0 then .error (.noPartition target)
    else match partitions[target.partition.toInt.toNat]? with
      | none => .error (.noPartition target)
      | some p => .ok p

def setPartition (log : Log) (target : TopicPartition) (p : PartitionLog) : Log :=
  { log with
    topics := log.topics.map fun (topic, partitions) ↦
      if topic = target.topic then (topic, partitions.set target.partition.toInt.toNat p)
      else (topic, partitions) }

def partitionCount (log : Log) (topic : String) : Except LogFault PartitionId :=
  match log.topics.lookup topic with
  | none => .error (.noTopic topic)
  | some partitions => .ok (Int32.ofNat partitions.length)

/-! ## Operations on a log -/

def createTopic (log : Log) (topic : String) (count : PartitionId) : Except LogFault Log :=
  if count ≤ 0 then .error (.noPartitions topic)
  else if (log.topics.lookup topic).isSome then .error (.topicExists topic)
  else .ok { log with
    topics := Keyed.insert topic (List.replicate count.toInt.toNat .empty) log.topics }

/-- The content of a record to be appended. -/
structure Entry where
  key : Option Bytes
  value : Option Bytes
  headers : List (String × Bytes)
  timestamp : Timestamp

/-- The answer to an append, and the log after it. -/
def append (log : Log) (target : TopicPartition) (entry : Entry) :
    Result LogFault Offset × Log :=
  match log.partition target with
  | .error fault => (.error fault, log)
  | .ok p =>
    match p.firstAvailable? with
    | none => (.crash, log)
    | some offset =>
      let p := p.append
        ⟨entry.key, entry.value, target.partition, offset, some entry.timestamp, entry.headers⟩
      (if p.firstAvailable?.isSome then .ok offset else .crash, log.setPartition target p)

def startAt (log : Log) (target : TopicPartition) (offset : Offset) : Except LogFault Log := do
  if offset < 0 then throw (.negativeStart offset)
  let p ← log.partition target
  if p.records.isEmpty then return log.setPartition target (p.startAt offset)
  else throw (.notEmpty target)

def truncateBefore (log : Log) (target : TopicPartition) (offset : Offset) :
    Result LogFault Log := do
  let p ← log.partition target
  return log.setPartition target (← p.truncateBefore? offset)

def failLookups (log : Log) (target : TopicPartition) : Log :=
  { log with faults := { log.faults with lookups := target :: log.faults.lookups } }

def failOpenings (log : Log) (target : TopicPartition) : Log :=
  { log with faults := { log.faults with openings := target :: log.faults.openings } }

def failStreamAfter (log : Log) (target : TopicPartition) (records : Nat) : Log :=
  { log with faults := { log.faults with streams := (target, records) :: log.faults.streams } }

def offsets (log : Log) (target : TopicPartition) : Result LogFault Offsets := do
  if target ∈ log.faults.lookups then .error (.lookup target)
  else
    let p ← log.partition target
    return ⟨p.oldest, ← p.firstAvailable?⟩

def oldestOffset (log : Log) (target : TopicPartition) : Result Failure Offset :=
  (Offsets.oldest <$> log.offsets target).mapError LogFault.failure

def firstAvailableOffset (log : Log) (target : TopicPartition) : Result Failure Offset :=
  (Offsets.firstAvailable <$> log.offsets target).mapError LogFault.failure

def lookup (log : Log) (topic : String) (partition : PartitionId) : Lookup :=
  ⟨log.oldestOffset ⟨topic, partition⟩, log.firstAvailableOffset ⟨topic, partition⟩⟩

end Log
end TopicView
