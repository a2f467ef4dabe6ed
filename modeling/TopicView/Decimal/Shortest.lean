import TopicView.Decimal.Double

/-!
# Shortest digits

The decimal with the fewest digits that reads back to a given magnitude of a binary format; among
several of them the one nearest to it, and of two equally near the one that ends in an even digit.
-/

namespace TopicView

/-- A decimal magnitude `digits * 10 ^ exponent`. -/
structure Decimal where
  digits : Nat
  exponent : Int
  deriving DecidableEq, Repr

/-- The magnitudes that read back to a given one, over a common denominator: they lie about `mid`
from `low` to `high`.  The ends belong to the interval iff `closed`. -/
structure Basin where
  low : Nat
  mid : Nat
  high : Nat
  den : Nat
  closed : Bool

/-- Below a power of two the neighbour is half as far away, except at the bottom of the range. -/
def BinaryFormat.basin (f : BinaryFormat) (rank : Nat) : Basin :=
  let m := f.significand rank
  let q := f.exponent rank
  let below := if m = Nat.pow 2 f.fractionBits ∧ f.lowest < q then 1 else 2
  let up := Nat.pow 2 (q - 2).toNat
  ⟨(4 * m - below) * up, 4 * m * up, (4 * m + 2) * up, Nat.pow 2 (2 - q).toNat, m % 2 = 0⟩

/-- Whether a decimal lies in the interval. -/
def Basin.admits (b : Basin) (c : Decimal) : Bool :=
  let n := c.digits * Nat.pow 10 c.exponent.toNat * b.den
  let unit := Nat.pow 10 (-c.exponent).toNat
  if b.closed then b.low * unit ≤ n && n ≤ b.high * unit
  else b.low * unit < n && n < b.high * unit

/-- The two neighbours of the magnitude on the grid of step `10 ^ k`. -/
def Basin.neighbours (b : Basin) (k : Int) : Decimal × Decimal :=
  let n := b.mid * Nat.pow 10 (-k).toNat / (b.den * Nat.pow 10 k.toNat)
  (⟨n, k⟩, ⟨n + 1, k⟩)

/-- Twice the magnitude against the sum of its neighbours on the grid. -/
def Basin.half (b : Basin) (c : Decimal) : Ordering :=
  compare (2 * b.mid * Nat.pow 10 (-c.exponent).toNat)
    ((2 * c.digits + 1) * b.den * Nat.pow 10 c.exponent.toNat)

/-- The neighbour on the grid of step `10 ^ k` that reads back, the nearer of two. -/
def Basin.hit? (b : Basin) (k : Int) : Option Decimal :=
  let (down, up) := b.neighbours k
  match b.admits down, b.admits up with
  | false, false => none
  | true, false => some down
  | false, true => some up
  | true, true =>
    match b.half down with
    | .lt => some down
    | .gt => some up
    | .eq => some (if down.digits % 2 = 0 then down else up)

/-- The exponent of the leading digit of the magnitude, found from the estimate `e`. -/
def Basin.leading (b : Basin) (e : Int) : Int :=
  if b.mid * Nat.pow 10 (-e).toNat < b.den * Nat.pow 10 e.toNat then e - 1 else e

/-- Grids of one, two, three digits and so on, until one has a hit. -/
def Basin.search (b : Basin) : Nat → Int → Decimal
  | 0, k => (b.neighbours k).1
  | more + 1, k =>
    match b.hit? k with
    | some c => c
    | none => b.search more (k - 1)

def Decimal.stripZeros (c : Decimal) : Nat → Decimal
  | 0 => c
  | more + 1 =>
    if c.digits % 10 = 0 then stripZeros ⟨c.digits / 10, c.exponent + 1⟩ more else c

/-- The shortest decimal of a magnitude other than zero. -/
def BinaryFormat.shortest (f : BinaryFormat) (rank : Nat) : Decimal :=
  let b := f.basin rank
  let lead := b.leading ((digitCount b.mid : Int) - digitCount b.den)
  (b.search 18 lead).stripZeros 20

end TopicView
