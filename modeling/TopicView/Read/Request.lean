import TopicView.Read.Filter
import TopicView.Read.Mode
import TopicView.Text.Blank

/-!
# Read requests
-/

namespace TopicView

/-- `limit` is the number of records over all partitions; zero means no limit where the mode is
live. -/
structure Request where
  topic : String
  partitions : PartitionSet
  mode : Mode
  limit : UInt64
  filter : Option Filter
  deriving DecidableEq, Repr

namespace Request

/-- What is enforced over all workers. -/
def effectiveLimit (r : Request) : Option UInt64 :=
  if r.mode = .live ∧ r.limit = 0 then none else some r.limit

def validate (r : Request) : Except RequestFault Unit :=
  if Text.trim r.topic = "" then .error .blankTopic
  else if r.partitions.toList = [] then .error (.noPartitions r.topic)
  else match r.partitions.toList.find? (· < 0) with
    | some p => .error (.negativePartition p r.topic)
    | none => .ok ()

/-! ## Exchange -/

def toJson (r : Request) : Json :=
  .obj [("topic", .str r.topic),
    ("partitions", .arr (r.partitions.toList.map fun p ↦ .int p.toInt)),
    ("mode", .str r.mode.name), ("limit", .int r.limit.toNat),
    ("filter", match r.filter with | some f => f.toJson | none => .null)]

def format : Json.Format Request :=
  .record "ReadRequest" ⟨"", .empty, .beginning, 0, none⟩
    [.must "topic" .string fun topic r ↦ { r with topic },
     .must "partitions" (.listOf .int32) fun ps r ↦ { r with partitions := .ofList ps },
     .must "mode" Mode.format fun mode r ↦ { r with mode },
     .must "limit" .uint64 fun limit r ↦ { r with limit },
     .may "filter" (.option Filter.format) fun filter r ↦ { r with filter }]

end Request
end TopicView
