/-!
# Double-precision numbers

A finite double is a sign and a rank: the place of its magnitude among the magnitudes in ascending
order, which is also its bit pattern without the sign.  A decimal is read to the nearest double, a
tie to the even one.
-/

namespace TopicView

def digitCount (n : Nat) : Nat := if n < 10 then 1 else digitCount (n / 10) + 1

/-! ## Ranks -/

/-- A binary format: the bits behind the leading one of a magnitude, and those of its exponent. -/
structure BinaryFormat where
  fractionBits : Nat
  exponentBits : Nat

namespace BinaryFormat

def single : BinaryFormat := ⟨23, 8⟩

def double : BinaryFormat := ⟨52, 11⟩

/-- Ranks from here on stand for no finite magnitude. -/
def rankBound (f : BinaryFormat) : Nat := (Nat.pow 2 f.exponentBits - 1) * Nat.pow 2 f.fractionBits

/-- The power of two under the last place of the smallest magnitudes. -/
def lowest (f : BinaryFormat) : Int := 2 - Nat.pow 2 (f.exponentBits - 1) - f.fractionBits

/-- The magnitude of a rank is `significand * 2 ^ exponent`. -/
def significand (f : BinaryFormat) (rank : Nat) : Nat :=
  if rank < Nat.pow 2 f.fractionBits then rank
  else Nat.pow 2 f.fractionBits + rank % Nat.pow 2 f.fractionBits

def exponent (f : BinaryFormat) (rank : Nat) : Int :=
  f.lowest + (rank / Nat.pow 2 f.fractionBits - 1 : Nat)

end BinaryFormat

structure Double where
  negative : Bool
  rank : Nat
  deriving DecidableEq, Repr

namespace Double

def rankBound : Nat := BinaryFormat.double.rankBound

/-! ## Reading a decimal -/

/-- The quotient to the nearest whole number, a half to the even neighbour. -/
def divNearest (num den : Nat) : Nat :=
  let q := num / den
  let twice := 2 * (num % den)
  if twice < den then q
  else if den < twice then q + 1
  else q + q % 2

/-- `num / den` over `2 ^ q`, as a fraction. -/
def scaled (num den : Nat) (q : Int) : Nat × Nat :=
  if 0 ≤ q then (num, den * Nat.pow 2 q.toNat) else (num * Nat.pow 2 (-q).toNat, den)

/-- The power of two under the last place of a magnitude near `num / den`. -/
def lastPlace (num den : Nat) : Int :=
  let q : Int := (num.log2 : Int) - den.log2 - 52
  let (n, d) := scaled num den q
  max (-1074) (if n < d * Nat.pow 2 52 then q - 1 else q)

/-- The rank nearest to `num / den`; it reaches `rankBound` where the quotient is too large. -/
def rankNear (num den : Nat) : Nat :=
  let q := lastPlace num den
  let (n, d) := scaled num den q
  (q + 1074).toNat * Nat.pow 2 52 + divNearest n d

/-- The double nearest to `n * 10 ^ e`, if it is finite. -/
def ofDecimal? (negative : Bool) (n : Nat) (e : Int) : Option Double :=
  let magnitude := digitCount n + e
  let rank :=
    if n = 0 ∨ magnitude < -330 then 0
    else if 310 < magnitude then rankBound
    else if 0 ≤ e then rankNear (n * Nat.pow 10 e.toNat) 1
    else rankNear n (Nat.pow 10 (-e).toNat)
  if rank < rankBound then some ⟨negative, rank⟩ else none

end Double
end TopicView
