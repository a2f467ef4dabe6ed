import TopicView.Read.Mode
import TopicView.Read.Offsets

/-!
# Plans

The limit of a read is split evenly over its partitions, the remainder is dropped, and each
partition gets a range of offsets to read.
-/

namespace TopicView

/-- The first offset to read and the last, if there is a last; both are included. -/
structure Plan where
  start : Offset
  last : Option Offset
  deriving DecidableEq, Repr

namespace Plan

/-- What stands for the end of a plan without one. -/
def unbounded : Offset := -1

def isBounded (p : Plan) : Bool := p.last.isSome

def endOffset (p : Plan) : Offset := p.last.getD unbounded

/-- A bounded plan that names no offset. -/
def isEmpty (p : Plan) : Bool :=
  match p.last with
  | some last => last < p.start
  | none => false

def toJson (p : Plan) : Json :=
  .obj [("start", .int p.start.toInt), ("end", .int p.endOffset.toInt)]

end Plan

/-! ## Planning -/

/-- The nearest word to an integer. -/
def clamp (n : Int) : Int64 :=
  if n < Int64.minValue.toInt then Int64.minValue
  else if Int64.maxValue.toInt < n then Int64.maxValue
  else Int64.ofInt n

/-- The part of the limit that falls to each of `count` partitions. -/
def share (limit count : UInt64) : Int64 := clamp (limit / count).toNat

/-- A live read waits for records, so it can read any partition. -/
def isReadable (mode : Mode) (o : Offsets) : Bool := mode = .live || !o.isEmpty

def plan? (mode : Mode) (limit count : UInt64) (o : Offsets) : Option Plan := do
  let part := share limit count
  let newest ← o.newest?
  match mode with
  | .live => return ⟨o.firstAvailable, none⟩
  | .beginning =>
    if clamp (o.oldest.toInt + part.toInt) < newest then
      let beyond ← o.oldest.checkedAdd part
      return ⟨o.oldest, some (← beyond.checkedSub 1)⟩
    else return ⟨o.oldest, some newest⟩
  | .mostRecent =>
    let candidate := clamp (newest.toInt - part.toInt)
    return ⟨if candidate < 0 ∨ candidate < o.oldest then o.oldest else candidate, some newest⟩

end TopicView
