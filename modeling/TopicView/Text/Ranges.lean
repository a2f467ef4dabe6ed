/-!
# Sets of characters

A set is written down as ranges of codes, each with its first and its last.
-/

namespace TopicView.Text

abbrev Ranges := List (Nat × Nat)

def Ranges.has (ranges : Ranges) (c : Char) : Bool :=
  ranges.any fun (low, high) ↦ low ≤ c.toNat && c.toNat ≤ high

end TopicView.Text
