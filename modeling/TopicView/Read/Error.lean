import TopicView.Failure
import TopicView.Topic

/-!
# Errors of reads

A read is refused before it starts, or one of its partitions fails while the others go on.
-/

namespace TopicView

/-! ## Refusals -/

inductive RequestFault
  | blankTopic
  | noPartitions (topic : String)
  | negativePartition (partition : PartitionId) (topic : String)
  | unknownMode (name : String)
  deriving DecidableEq, Repr

def RequestFault.text : RequestFault → String
  | blankTopic => "topic name is empty"
  | noPartitions topic => s!"no partitions requested for topic '{topic}'"
  | negativePartition partition topic =>
    s!"invalid partition index {Numeral.text partition.toInt} for topic '{topic}'"
  | unknownMode name =>
    s!"unknown read mode '{name}', expected beginning, most-recent or live"

inductive SettingFault
  | noCapacity
  | noServers
  deriving DecidableEq, Repr

def SettingFault.text : SettingFault → String
  | noCapacity => "channel_capacity must be at least 1"
  | noServers => "bootstrap_servers is empty"

inductive ReadError
  | invalidRequest (fault : RequestFault)
  | configuration (fault : SettingFault)
  | offsetFetch (target : TopicPartition) (source : Failure)
  deriving DecidableEq, Repr

namespace ReadError

def invalidRequestMessage (text : String) : String := s!"Invalid read request: {text}"

def configurationMessage (text : String) : String := s!"Configuration error: {text}"

def offsetFetchMessage (target : TopicPartition) (source : Failure) : String :=
  s!"Failed to fetch offsets for {target.text}: {source.message}"

def message : ReadError → String
  | invalidRequest fault => invalidRequestMessage fault.text
  | configuration fault => configurationMessage fault.text
  | offsetFetch target source => offsetFetchMessage target source

/-- The error and its causes, outermost first. -/
def chain : ReadError → List String
  | offsetFetch target source => [offsetFetchMessage target source, source.message]
  | e => [e.message]

end ReadError

/-! ## Failures of a partition -/

inductive ReadPhase
  | opening
  | streaming
  deriving DecidableEq, Repr

def ReadPhase.name : ReadPhase → String
  | opening => "open"
  | streaming => "stream"

structure PartitionFailure where
  partition : PartitionId
  phase : ReadPhase
  source : Failure
  deriving DecidableEq, Repr

def PartitionFailure.message (f : PartitionFailure) : String :=
  s!"partition {Numeral.text f.partition.toInt} {f.phase.name} failed: {f.source.message}"

end TopicView
