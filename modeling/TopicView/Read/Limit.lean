/-!
# The limit counter

All workers of a read count their records on one counter.  A claim is one step: it is granted while
the limit is not reached, and the claim that takes the last slot is told so.
-/

namespace TopicView

inductive Claim
  | granted (reachedLimit : Bool)
  | refused
  deriving DecidableEq, Repr

structure Counter where
  emitted : UInt64
  limit : Option UInt64
  deriving DecidableEq, Repr

namespace Counter

def start (limit : Option UInt64) : Counter := ⟨0, limit⟩

def claim (c : Counter) : Claim × Counter :=
  match c.limit with
  | none => (.granted false, { c with emitted := c.emitted + 1 })
  | some limit =>
    if c.emitted < limit then
      (.granted (limit ≤ c.emitted + 1), { c with emitted := c.emitted + 1 })
    else (.refused, c)

def isExhausted (c : Counter) : Bool :=
  match c.limit with
  | none => false
  | some limit => limit ≤ c.emitted

/-- The answers to `n` claims in a row, with the counter after each. -/
def claims (c : Counter) : Nat → List (Claim × Counter)
  | 0 => []
  | n + 1 => c.claim :: claims c.claim.2 n

end Counter
end TopicView
