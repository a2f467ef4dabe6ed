import TopicView.Record

/-!
# The record channel

A bounded queue between the workers of a read and its caller.  A worker reserves a slot first and
fills it later; queued records and reserved slots together never exceed the capacity.
-/

namespace TopicView

structure Channel where
  capacity : Nat
  queue : List Record
  reserved : Nat
  /-- Whether the caller still listens. -/
  receiving : Bool
  deriving DecidableEq, Repr

namespace Channel

/-- A channel of a larger capacity cannot be made. -/
def maxCapacity : Nat := Nat.pow 2 61 - 1

def make (capacity : Nat) : Channel := ⟨capacity, [], 0, true⟩

def hasRoom (ch : Channel) : Bool := ch.queue.length + ch.reserved < ch.capacity

def reserve (ch : Channel) : Channel := { ch with reserved := ch.reserved + 1 }

def release (ch : Channel) : Channel := { ch with reserved := ch.reserved - 1 }

/-- Fills a reserved slot.  What is sent to a caller who has left is lost. -/
def send (ch : Channel) (r : Record) : Channel :=
  { ch with
    queue := if ch.receiving then ch.queue ++ [r] else ch.queue
    reserved := ch.reserved - 1 }

def hangUp (ch : Channel) : Channel := { ch with queue := [], receiving := false }

end Channel
end TopicView
