import TopicView.Decimal.Shortest
import TopicView.Text.Numeral

/-!
# Written magnitudes

The digits are the shortest; a layout says which magnitudes are written positionally.
-/

namespace TopicView

/-- Leading exponents from `lowest` up to but not `beyond` are written positionally, all others
with a signed exponent; without these bounds everything is positional.  `whole` follows the digits
of a whole number. -/
structure Layout where
  bounds : Option (Int × Int)
  whole : List Char

namespace Layout

/-- From 0.00001 up to but not 10^16 positionally, with at least one fraction digit. -/
def exchange : Layout := ⟨some (-5, 16), ['.', '0']⟩

/-- Always positionally, a whole number without a point. -/
def plain : Layout := ⟨none, []⟩

def isPositional (layout : Layout) (e : Int) : Bool :=
  match layout.bounds with
  | some (lowest, beyond) => lowest ≤ e && e < beyond
  | none => true

/-- Digits with the point after the place of exponent zero; `e` is the leading exponent. -/
def positional (layout : Layout) (digits : List Char) (e : Int) : List Char :=
  if e < 0 then '0' :: '.' :: (List.replicate (-e - 1).toNat '0' ++ digits)
  else
    let places := e.toNat + 1
    let fraction := digits.drop places
    digits.take places ++ List.replicate (places - digits.length) '0' ++
      (if fraction.isEmpty then layout.whole else '.' :: fraction)

def scientific (digits : List Char) (e : Int) : List Char :=
  let fraction := digits.drop 1
  digits.take 1 ++ (if fraction.isEmpty then [] else '.' :: fraction) ++
    'e' :: (if e < 0 then '-' else '+') :: Numeral.ofNat e.natAbs

/-- The magnitude of a rank, behind its sign. -/
def write (layout : Layout) (f : BinaryFormat) (negative : Bool) (rank : Nat) : List Char :=
  let magnitude :=
    if rank = 0 then '0' :: layout.whole
    else
      let c := f.shortest rank
      let digits := Numeral.ofNat c.digits
      let e := c.exponent + digits.length - 1
      if layout.isPositional e then layout.positional digits e else scientific digits e
  if negative then '-' :: magnitude else magnitude

end Layout

/-- The bit pattern of any number of a format, infinities and non-numbers included. -/
def BinaryFormat.text (f : BinaryFormat) (bits : Nat) : String :=
  let signless := f.fractionBits + f.exponentBits
  let negative := bits / Nat.pow 2 signless % 2 = 1
  let rank := bits % Nat.pow 2 signless
  if rank < f.rankBound then String.ofList (Layout.plain.write f negative rank)
  else if f.rankBound < rank then "NaN"
  else if negative then "-inf"
  else "inf"

def Double.write (d : Double) : List Char :=
  Layout.exchange.write .double d.negative d.rank

end TopicView
