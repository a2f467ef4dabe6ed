/-!
# Numerals

Decimal and hexadecimal numerals, and the strict reading of words.
-/

namespace TopicView.Numeral

/-! ## Writing -/

def digitChar (d : Nat) : Char := Char.ofNat (48 + d)

def ofNat (n : Nat) : List Char :=
  if _h : n < 10 then [digitChar n] else ofNat (n / 10) ++ [digitChar (n % 10)]
termination_by n
decreasing_by omega

def hexDigit (d : Nat) : Char := if d < 10 then Char.ofNat (48 + d) else Char.ofNat (87 + d)

def hex (n : Nat) : List Char :=
  if _h : n < 16 then [hexDigit n] else hex (n / 16) ++ [hexDigit (n % 16)]
termination_by n
decreasing_by omega

/-- A number with zeros in front up to `width` digits. -/
def padded (width n : Nat) : List Char :=
  let digits := ofNat n
  List.replicate (width - digits.length) '0' ++ digits

def ofInt : Int → List Char
  | .ofNat n => ofNat n
  | .negSucc n => '-' :: ofNat (n + 1)

def text (n : Int) : String := String.ofList (ofInt n)

/-! ## Reading -/

def isDigit (c : Char) : Bool := '0' ≤ c && c ≤ '9'

def digitValue (c : Char) : Nat := c.toNat - 48

def hexValue? (c : Char) : Option Nat :=
  if isDigit c then some (c.toNat - 48)
  else if 'a' ≤ c ∧ c ≤ 'f' then some (c.toNat - 87)
  else if 'A' ≤ c ∧ c ≤ 'F' then some (c.toNat - 55)
  else none

/-- The number that a run of digits spells. -/
def value (digits : List Char) : Nat := digits.foldl (fun n d ↦ n * 10 + digitValue d) 0

/-- Why a text is not a numeral of a bounded word. -/
inductive Fault
  | blank
  | badDigit
  | tooLarge
  | tooSmall
  deriving DecidableEq, Repr

def Fault.message : Fault → String
  | blank => "cannot parse integer from empty string"
  | badDigit => "invalid digit found in string"
  | tooLarge => "number too large to fit in target type"
  | tooSmall => "number too small to fit in target type"

/-- Digits read from the left, refused at the first that is no digit or that takes the number
to `bound`. -/
def below (bound : Nat) (high : Fault) : Nat → List Char → Except Fault Nat
  | n, [] => .ok n
  | n, c :: cs =>
    if !isDigit c then .error .badDigit
    else if bound ≤ n * 10 + digitValue c then .error high
    else below bound high (n * 10 + digitValue c) cs

/-- An unsigned numeral below `bound`: digits after at most one plus sign. -/
def unsigned (bound : Nat) : List Char → Except Fault Nat
  | [] => .error .blank
  | '+' :: c :: cs => below bound .tooLarge 0 (c :: cs)
  | cs => below bound .tooLarge 0 cs

/-- A signed numeral in `[-bound, bound)`. -/
def signed (bound : Nat) : List Char → Except Fault Int
  | [] => .error .blank
  | '-' :: c :: cs => (below (bound + 1) .tooSmall 0 (c :: cs)).map fun n ↦ -(n : Int)
  | '+' :: c :: cs => (below bound .tooLarge 0 (c :: cs)).map Int.ofNat
  | cs => (below bound .tooLarge 0 cs).map Int.ofNat

end TopicView.Numeral
