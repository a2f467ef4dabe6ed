import TopicView.Log.Basic

/-!
# Snapshots

Topics written down with all their records, and the log that holds them.
-/

namespace TopicView

namespace Snapshot

/-- Without a timestamp a record is stamped when it is loaded; without a value it is a
tombstone. -/
structure RecordEntry where
  key : Option String := none
  value : Option String := none
  timestamp : Option Timestamp := none
  headers : Dictionary String := .empty
  deriving DecidableEq, Repr

/-- The records begin at `firstOffset`. -/
structure PartitionEntry where
  firstOffset : Offset := 0
  records : List RecordEntry := []
  deriving DecidableEq, Repr

structure TopicEntry where
  name : String
  partitions : List PartitionEntry
  deriving DecidableEq, Repr

end Snapshot

structure Snapshot where
  topics : List Snapshot.TopicEntry
  deriving DecidableEq, Repr

namespace Snapshot

/-! ## Reading -/

def RecordEntry.format : Json.Format RecordEntry :=
  .record "RecordFixture" {}
    [.may "key" (.option .string) fun key r ↦ { r with key },
     .may "value" (.option .string) fun value r ↦ { r with value },
     .may "timestamp" (.option .int64) fun timestamp r ↦ { r with timestamp },
     .may "headers" (.dictionary .string) fun headers r ↦ { r with headers }]

def PartitionEntry.format : Json.Format PartitionEntry :=
  .record "PartitionFixture" {}
    [.may "first_offset" .int64 fun firstOffset p ↦ { p with firstOffset },
     .may "records" (.listOf RecordEntry.format) fun records p ↦ { p with records }]

def TopicEntry.format : Json.Format TopicEntry :=
  .record "TopicFixture" ⟨"", []⟩
    [.must "name" .string fun name t ↦ { t with name },
     .must "partitions" (.listOf PartitionEntry.format) fun partitions t ↦ { t with partitions }]

def format : Json.Format Snapshot :=
  .record "Fixture" ⟨[]⟩
    [.must "topics" (.listOf TopicEntry.format) fun topics _ ↦ ⟨topics⟩]

/-! ## Loading -/

inductive LoadFault
  | tooManyPartitions (topic : String)
  | log (fault : LogFault)
  deriving DecidableEq, Repr

/-- The fault and its cause. -/
def LoadFault.chain : LoadFault → List String
  | tooManyPartitions topic =>
    [s!"Too many partitions in topic {topic}", "out of range integral type conversion attempted"]
  | log fault => [fault.failure.message]

def RecordEntry.entry (now : Timestamp) (r : RecordEntry) : Log.Entry where
  key := r.key.map Utf8.encode
  value := r.value.map Utf8.encode
  headers := r.headers.toList.map fun (name, value) ↦ (name, Utf8.encode value)
  timestamp := r.timestamp.getD now

def loadRecords (now : Timestamp) (target : TopicPartition) :
    List RecordEntry → Log → Result LogFault Log
  | [], log => .ok log
  | r :: rest, log => do
    let (answer, log) := log.append target (r.entry now)
    let _ ← answer
    loadRecords now target rest log

def loadPartitions (now : Timestamp) (topic : String) :
    Nat → List PartitionEntry → Log → Result LogFault Log
  | _, [], log => .ok log
  | i, p :: rest, log => do
    let target : TopicPartition := ⟨topic, Int32.ofNat i⟩
    let log ← log.startAt target p.firstOffset
    let log ← loadRecords now target p.records log
    loadPartitions now topic (i + 1) rest log

def loadTopics (now : Timestamp) : List TopicEntry → Log → Result LoadFault Log
  | [], log => .ok log
  | t :: rest, log => do
    let count := t.partitions.length
    if Nat.pow 2 31 ≤ count then .error (.tooManyPartitions t.name)
    else
      let log ← (log.createTopic t.name (Int32.ofNat count)).mapError LoadFault.log
      let log ← (loadPartitions now t.name 0 t.partitions log).mapError LoadFault.log
      loadTopics now rest log

/-- The log with all topics of a snapshot; `now` stamps the records without timestamp. -/
def load (now : Timestamp) (s : Snapshot) : Result LoadFault Log := loadTopics now s.topics {}

end Snapshot
end TopicView
