import TopicView.Decimal.Layout
import TopicView.Text.Utf8

/-!
# Header values

Header bytes carry no type, so a chain of readings is tried: text, then big-endian numbers of four
and eight bytes, integers before fractions, and lossy text where none applies.
-/

namespace TopicView.Header

/-- The number that the bytes hold, the first byte being the most significant. -/
def bigEndian (bytes : Bytes) : Nat := bytes.foldl (fun n b ↦ n * 256 + b.toNat) 0

/-- The first `width` bytes as a number. -/
def word? (width : Nat) (bytes : Bytes) : Option Nat :=
  if bytes.length < width then none else some (bigEndian (bytes.take width))

def signed (width : Nat) (n : Nat) : Int := Int.bmod n (Nat.pow 256 width)

/-- The numeric readings in the order in which they are tried. -/
def readings : List (Bytes → Option String) :=
  [fun bytes ↦ (word? 4 bytes).map fun n ↦ Numeral.text (signed 4 n),
   fun bytes ↦ (word? 8 bytes).map fun n ↦ Numeral.text (signed 8 n),
   fun bytes ↦ (word? 4 bytes).map BinaryFormat.single.text,
   fun bytes ↦ (word? 8 bytes).map BinaryFormat.double.text]

def render (bytes : Bytes) : String :=
  match Utf8.decode? bytes with
  | some s => s
  | none => (readings.findSome? (· bytes)).getD (Utf8.lossy bytes)

end TopicView.Header
