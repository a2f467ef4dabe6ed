import TopicView.Decimal.Layout
import TopicView.Keyed

/-!
# JSON values

A number is an integer of a signed or unsigned 64-bit word, or a double.  The members of an object
are kept in ascending order of their keys.
-/

namespace TopicView

namespace Json

inductive Number
  | int (n : Int)
  | double (d : Double)
  deriving DecidableEq, Repr

end Json

inductive Json
  | null
  | bool (b : Bool)
  | num (n : Json.Number)
  | str (s : String)
  | arr (items : List Json)
  | obj (members : List (String × Json))
  deriving Repr

namespace Json

def int (n : Int) : Json := num (.int n)

/-- An object whose members are given in any order; of several with one key the last counts. -/
def object (members : List (String × Json)) : Json := obj (Keyed.ofList members)

def get? (key : String) : Json → Option Json
  | obj members => members.lookup key
  | _ => none

/-! ## Normal values -/

/-- The integers that a numeral without fraction and exponent stands for. -/
def Number.Held : Number → Prop
  | int n => Int64.minValue.toInt ≤ n ∧ n < UInt64.size
  | double d => d.rank < Double.rankBound

mutual

/-- Every number is held exactly and every object has its keys in order. -/
def Normal : Json → Prop
  | null | bool _ | str _ => True
  | num n => n.Held
  | arr items => NormalItems items
  | obj members => Keyed.Ordered members ∧ NormalMembers members

def NormalItems : List Json → Prop
  | [] => True
  | item :: rest => item.Normal ∧ NormalItems rest

def NormalMembers : List (String × Json) → Prop
  | [] => True
  | (_, value) :: rest => value.Normal ∧ NormalMembers rest

end

end Json
end TopicView
