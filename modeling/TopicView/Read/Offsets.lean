import TopicView.Read.Error
import TopicView.Result

/-!
# Retained ranges

The oldest retained offset of a partition and the one its next record will get, as the log answers
for them when a read starts.
-/

namespace TopicView

structure Offsets where
  oldest : Offset
  firstAvailable : Offset
  deriving DecidableEq, Repr

namespace Offsets

/-- The offset of the newest record, one below the oldest where there is none. -/
def newest? (o : Offsets) : Option Offset := o.firstAvailable.checkedSub 1

def isEmpty (o : Offsets) : Bool := o.firstAvailable = o.oldest

def recordCount? (o : Offsets) : Option UInt64 := do
  let n ← o.firstAvailable.checkedSub o.oldest
  return if n < 0 then 0 else n.toUInt64

def toJson (o : Offsets) : Json :=
  .obj [("oldest", .int o.oldest.toInt), ("first_available", .int o.firstAvailable.toInt)]

end Offsets

/-! ## Resolution -/

/-- The answers to the two lookups of one partition; they need not come from one moment. -/
structure Lookup where
  oldest : Result Failure Offset
  firstAvailable : Result Failure Offset

def invertedFailure (firstAvailable oldest : Offset) : Failure :=
  let next := Numeral.text firstAvailable.toInt
  let first := Numeral.text oldest.toInt
  ⟨.invalidInput, s!"first available offset {next} is below oldest offset {first}"⟩

namespace Lookup

/-- Both lookups must succeed, and the range may be empty but not inverted. -/
def offsets (l : Lookup) : Result Failure Offsets := do
  let oldest ← l.oldest
  let firstAvailable ← l.firstAvailable
  if firstAvailable < oldest then .error (invertedFailure firstAvailable oldest)
  else return ⟨oldest, firstAvailable⟩

end Lookup

/-- The ranges of all partitions, or the failure of the first in the order in which the lookups
are answered. -/
def resolve (topic : String) (lookup : PartitionId → Lookup) :
    List PartitionId → Result ReadError (List (PartitionId × Offsets))
  | [] => .ok []
  | p :: ps =>
    match (lookup p).offsets with
    | .error failure => .error (.offsetFetch ⟨topic, p⟩ failure)
    | .crash => .crash
    | .ok o => Keyed.insert p o <$> resolve topic lookup ps

end TopicView
