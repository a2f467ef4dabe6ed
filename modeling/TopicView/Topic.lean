import TopicView.Json.Format

/-!
# Topics and partitions

Offsets and timestamps are signed 64-bit words, partition indices signed 32-bit words.
-/

namespace TopicView

abbrev Offset := Int64

abbrev PartitionId := Int32

/-- Milliseconds since the epoch. -/
abbrev Timestamp := Int64

/-! ## Arithmetic on offsets -/

namespace Offset

/-- The offset that an integer is, if it is one. -/
def ofInt? (n : Int) : Option Offset :=
  if Int64.minValue.toInt ≤ n ∧ n ≤ Int64.maxValue.toInt then some (Int64.ofInt n) else none

def checkedAdd (a b : Offset) : Option Offset := ofInt? (a.toInt + b.toInt)

def checkedSub (a b : Offset) : Option Offset := ofInt? (a.toInt - b.toInt)

end Offset

/-! ## Partitions -/

structure TopicPartition where
  topic : String
  partition : PartitionId
  deriving DecidableEq, Repr

namespace TopicPartition

def text (tp : TopicPartition) : String := s!"{tp.topic}-{Numeral.text tp.partition.toInt}"

/-- By topic, then by index. -/
instance : LT TopicPartition where
  lt x y := x.topic < y.topic ∨ x.topic = y.topic ∧ x.partition < y.partition

instance : DecidableLT TopicPartition := fun x y ↦
  inferInstanceAs (Decidable (x.topic < y.topic ∨ x.topic = y.topic ∧ x.partition < y.partition))

def toJson (tp : TopicPartition) : Json :=
  .obj [("topic", .str tp.topic), ("partition", .int tp.partition.toInt)]

def format : Json.Format TopicPartition :=
  .record "TopicPartition" ⟨"", 0⟩
    [.must "topic" .string fun topic tp ↦ { tp with topic },
     .must "partition" .int32 fun partition tp ↦ { tp with partition }]

end TopicPartition

/-- Partition indices in ascending order, each once. -/
structure PartitionSet where
  toList : List PartitionId
  ascending : toList.Pairwise (· < ·)
  deriving DecidableEq, Repr

namespace PartitionSet

def empty : PartitionSet := ⟨[], .nil⟩

def ofList (partitions : List PartitionId) : PartitionSet :=
  ⟨Keyed.sortedSet partitions, Keyed.pairwise_sortedSet partitions⟩

def size (s : PartitionSet) : Nat := s.toList.length

instance : Membership PartitionId PartitionSet where
  mem s p := p ∈ s.toList

end PartitionSet
end TopicView
