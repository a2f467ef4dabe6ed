import TopicView.Log.Basic

/-!
# Transcripts

What a command prints: its data on one stream, notices about it on another, and how it ends.
-/

namespace TopicView

/-- Each entry is printed with a line end behind it. -/
structure Transcript where
  data : List String := []
  notices : List String := []
  deriving DecidableEq, Repr

inductive Notice
  | success
  | failure
  | warning
  | info
  deriving DecidableEq, Repr

namespace Notice

def mark : Notice → Char
  | success => '✓'
  | failure => '✗'
  | warning => '⚠'
  | info => 'ℹ'

def text (notice : Notice) (message : String) : String := s!"{notice.mark} {message}"

end Notice

namespace Transcript

instance : Append Transcript where
  append a b := ⟨a.data ++ b.data, a.notices ++ b.notices⟩

def print (lines : List String) : Transcript := { data := lines }

def notify (notice : Notice) (message : String) : Transcript :=
  { notices := [notice.text message] }

end Transcript

inductive OutputFormat
  | table
  | json
  deriving DecidableEq, Repr

/-! ## Ends -/

inductive ListingEnd
  | done
  /-- A live read that goes on as long as nothing changes. -/
  | waiting
  deriving DecidableEq, Repr

structure Listing where
  transcript : Transcript
  ending : ListingEnd
  deriving DecidableEq, Repr

/-- Why a command ends before it has printed anything. -/
inductive ListingError
  | log (fault : LogFault)
  | noPartitions (topic : String)
  | read (e : ReadError)
  deriving DecidableEq, Repr

/-- The error and its causes, outermost first. -/
def ListingError.chain : ListingError → List String
  | log fault => [fault.failure.message]
  | noPartitions topic => [s!"Topic {topic} has no partitions"]
  | read e => e.chain

/-! ## Partitions -/

/-- The partitions asked for; where none are, all of the topic. -/
def partitionsToRead (log : Log) (topic : String) (wanted : List PartitionId) :
    Except ListingError (List PartitionId) := do
  if !wanted.isEmpty then return wanted
  else
    let count ← (log.partitionCount topic).mapError .log
    if count ≤ 0 then throw (.noPartitions topic)
    else return (List.range count.toInt.toNat).map Int32.ofNat

end TopicView
