/-!
# UTF-8

A byte string is cut into pieces: the characters it spells, and between them the longest runs of
bytes that begin a character but do not finish one.  Strict and lossy decoding are two readings of
that one list.
-/

namespace TopicView

abbrev Bytes := List UInt8

namespace Utf8

/-! ## Pieces -/

/-- A character, or the bytes of a sequence that ends before it spells one. -/
inductive Piece where
  | char (c : Char)
  | stray (bytes : Bytes)
  deriving DecidableEq, Repr

/-- The bytes that spell a text. -/
def encodeChars (cs : List Char) : Bytes := cs.flatMap String.utf8EncodeChar

def encode (s : String) : Bytes := encodeChars s.toList

namespace Piece

def bytes : Piece → Bytes
  | char c => String.utf8EncodeChar c
  | stray bs => bs

def size : Piece → Nat
  | char c => c.utf8Size
  | stray bs => bs.length

def char? : Piece → Option Char
  | char c => some c
  | stray _ => none

/-- A stray run shows as one replacement character. -/
def shown : Piece → Char
  | char c => c
  | stray _ => '\ufffd'

end Piece

/-- A sequence begun: its bytes, the code they hold so far, the number of bytes still owed, and the
window the next of them lies in. -/
structure Begun where
  bytes : Bytes
  code : Nat
  owed : Nat
  low : UInt8
  high : UInt8

/-- What a first byte announces.  The windows after `e0`, `ed`, `f0` and `f4` keep out overlong
forms, surrogates and codes above `10ffff`. -/
def begun? (b : UInt8) : Option Begun :=
  if 0xc2 ≤ b ∧ b ≤ 0xdf then some ⟨[b], b.toNat - 0xc0, 1, 0x80, 0xbf⟩
  else if b = 0xe0 then some ⟨[b], 0, 2, 0xa0, 0xbf⟩
  else if b = 0xed then some ⟨[b], 0xd, 2, 0x80, 0x9f⟩
  else if 0xe1 ≤ b ∧ b ≤ 0xef then some ⟨[b], b.toNat - 0xe0, 2, 0x80, 0xbf⟩
  else if b = 0xf0 then some ⟨[b], 0, 3, 0x90, 0xbf⟩
  else if b = 0xf4 then some ⟨[b], 4, 3, 0x80, 0x8f⟩
  else if 0xf1 ≤ b ∧ b ≤ 0xf3 then some ⟨[b], b.toNat - 0xf0, 3, 0x80, 0xbf⟩
  else none

/-- A first byte is a character of its own, begins a sequence, or is stray. -/
def first (b : UInt8) : Piece ⊕ Begun :=
  if b < 0x80 then .inl (.char (Char.ofNat b.toNat))
  else match begun? b with
    | some p => .inr p
    | none => .inl (.stray [b])

def Begun.admits (p : Begun) (b : UInt8) : Bool := p.low ≤ b && b ≤ p.high

def Begun.push (p : Begun) (b : UInt8) : Begun :=
  ⟨p.bytes ++ [b], p.code * 64 + (b.toNat - 0x80), p.owed - 1, 0x80, 0xbf⟩

def scan : Option Begun → Bytes → List Piece
  | none, [] => []
  | some p, [] => [.stray p.bytes]
  | none, b :: rest =>
    match first b with
    | .inl piece => piece :: scan none rest
    | .inr p => scan (some p) rest
  | some p, b :: rest =>
    if p.admits b then
      if p.owed ≤ 1 then .char (Char.ofNat (p.push b).code) :: scan none rest
      else scan (some (p.push b)) rest
    else
      .stray p.bytes ::
        match first b with
        | .inl piece => piece :: scan none rest
        | .inr q => scan (some q) rest

def pieces (bytes : Bytes) : List Piece := scan none bytes

/-! ## Strict and lossy decoding -/

/-- The characters before the first stray run. -/
def leading : List Piece → List Char
  | .char c :: rest => c :: leading rest
  | _ => []

/-- The length in bytes of the longest well-formed beginning. -/
def validUpTo (bytes : Bytes) : Nat := (leading (pieces bytes)).foldr (·.utf8Size + ·) 0

/-- The text that the bytes spell, if they spell one. -/
def decode? (bytes : Bytes) : Option String :=
  ((pieces bytes).mapM Piece.char?).map String.ofList

def lossy (bytes : Bytes) : String :=
  String.ofList ((pieces bytes).map Piece.shown)

end Utf8
end TopicView
