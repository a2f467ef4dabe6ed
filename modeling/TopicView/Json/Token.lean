import TopicView.Json.Fault

/-!
# Tokens of JSON texts

Words, numerals and strings, each read from the front of a text.  A reader that looks at the next
byte without taking it places its fault one byte further on; a reader that has taken the byte, just
behind it.
-/

namespace TopicView.Json

open Utf8 (Piece)

abbrev Text := List Piece

def Text.ofBytes (bytes : Bytes) : Text := Utf8.pieces bytes

def left (text : Text) : Nat := text.foldr (·.size + ·) 0

/-- A fault noticed on looking at the next byte of `text`. -/
def peeked (cause : Cause) (text : Text) : Fault := ⟨cause, left text - 1⟩

/-- A fault noticed with all bytes before `text` taken. -/
def taken (cause : Cause) (text : Text) : Fault := ⟨cause, left text⟩

def isSpace (c : Char) : Bool := c = ' ' || c = '\t' || c = '\n' || c = '\r'

def skipSpace : Text → Text
  | .char c :: rest => if isSpace c then skipSpace rest else .char c :: rest
  | text => text

/-- The rest of a word whose first letter has been taken. -/
def readWord : List Char → Text → Except Fault Text
  | [], text => .ok text
  | _ :: _, [] => .error (taken .eofValue [])
  | c :: cs, p :: rest =>
    if p = .char c then readWord cs rest else .error (peeked .expectedIdent (p :: rest))

/-! ## Numerals -/

/-- The digits at the front of a text. -/
def spanDigits : Text → List Char × Text
  | .char c :: rest =>
    if Numeral.isDigit c then
      let (digits, rest) := spanDigits rest
      (c :: digits, rest)
    else ([], .char c :: rest)
  | text => ([], text)

/-- A numeral cut into its digits: before the point, behind it, and those of the exponent. -/
structure Literal where
  negative : Bool
  whole : List Char
  fraction : List Char
  exponent : Option (Bool × List Char)

/-- The fault of a missing digit. -/
def digitFault : Text → Fault
  | [] => taken .eofValue []
  | text => peeked .badNumber text

/-- The sign of an exponent, if there is one. -/
def readSign : Text → Bool × Text
  | .char '+' :: rest => (false, rest)
  | .char '-' :: rest => (true, rest)
  | text => (false, text)

/-- The exponent, if its mark comes next: an optional sign and at least one digit. -/
def readExponent : Text → Except Fault (Option (Bool × List Char) × Text)
  | .char c :: rest =>
    if c = 'e' ∨ c = 'E' then
      let (negative, rest) := readSign rest
      match spanDigits rest with
      | ([], rest) => .error (digitFault rest)
      | (digits, rest) => .ok (some (negative, digits), rest)
    else .ok (none, .char c :: rest)
  | text => .ok (none, text)

/-- The fraction, if the point comes next: at least one digit. -/
def readFraction : Text → Except Fault (List Char × Text)
  | .char '.' :: rest =>
    match spanDigits rest with
    | ([], rest) => .error (digitFault rest)
    | (digits, rest) => .ok (digits, rest)
  | text => .ok ([], text)

/-- The digits before the point.  No digit follows a leading zero. -/
def readWhole : Text → Except Fault (List Char × Text)
  | .char '0' :: rest =>
    match spanDigits rest with
    | ([], rest) => .ok (['0'], rest)
    | _ => .error (peeked .badNumber rest)
  | text =>
    match spanDigits text with
    | ([], text) => .error (digitFault text)
    | (digits, rest) => .ok (digits, rest)

/-- A numeral behind its sign. -/
def readLiteral (negative : Bool) (text : Text) : Except Fault (Literal × Text) := do
  let (whole, text) ← readWhole text
  let (fraction, text) ← readFraction text
  let (exponent, text) ← readExponent text
  return (⟨negative, whole, fraction, exponent⟩, text)

/-- The digits that follow the one with which the value reaches `bound`. -/
def digitsBeyond (bound : Nat) : Nat → List Char → Option Nat
  | _, [] => none
  | n, d :: ds =>
    let n := n * 10 + Numeral.digitValue d
    if bound ≤ n then some ds.length else digitsBeyond bound n ds

namespace Literal

def digits (l : Literal) : Nat := Numeral.value (l.whole ++ l.fraction)

def toDouble (l : Literal) (e : Int) (rest : Text) : Except Fault Number :=
  match Double.ofDecimal? l.negative l.digits (e - l.fraction.length) with
  | some d => .ok (.double d)
  | none => .error (taken .numberOutOfRange rest)

/-- An integer of 64 bits stays one; minus zero and every other numeral is a double.  An exponent
that outgrows a signed 32-bit word makes zero, or is out of range at the digit where it does. -/
def number (l : Literal) (rest : Text) : Except Fault Number :=
  match l.exponent with
  | some (negative, ds) =>
    match digitsBeyond (Nat.pow 2 31) 0 ds with
    | some n =>
      if l.digits = 0 ∨ negative then .ok (.double ⟨l.negative, 0⟩)
      else .error ⟨.numberOutOfRange, left rest + n⟩
    | none =>
      let e : Int := Numeral.value ds
      l.toDouble (if negative then -e else e) rest
  | none =>
    let n := l.digits
    if !l.fraction.isEmpty then l.toDouble 0 rest
    else if l.negative ∧ 0 < n ∧ n ≤ Nat.pow 2 63 then .ok (.int (-(n : Int)))
    else if !l.negative ∧ n < UInt64.size then .ok (.int n)
    else l.toDouble 0 rest

end Literal

def readNumber (negative : Bool) (text : Text) : Except Fault (Number × Text) := do
  let (literal, rest) ← readLiteral negative text
  return (← literal.number rest, rest)

/-- A numeral whose value is not wanted: any size will do, and an early end is a bad number. -/
def skipNumber (negative : Bool) (text : Text) : Except Fault Text :=
  match readLiteral negative text with
  | .ok (_, rest) => .ok rest
  | .error ⟨.eofValue, n⟩ => .error ⟨.badNumber, n⟩
  | .error fault => .error fault

/-! ## Strings -/

def hexValue? : Piece → Option Nat
  | .char c => Numeral.hexValue? c
  | .stray _ => none

/-- Four hexadecimal digits. -/
def readHex (text : Text) : Except Fault (Nat × Text) :=
  let bytes := left text
  if bytes < 4 then .error ⟨.eofString, 0⟩
  else match text with
    | a :: b :: c :: d :: rest =>
      match hexValue? a, hexValue? b, hexValue? c, hexValue? d with
      | some a, some b, some c, some d => .ok (((a * 16 + b) * 16 + c) * 16 + d, rest)
      | _, _, _, _ => .error ⟨.badEscape, bytes - 4⟩
    | _ => .error ⟨.badEscape, bytes - 4⟩

def isHighSurrogate (n : Nat) : Bool := 0xd800 ≤ n && n ≤ 0xdbff

def isLowSurrogate (n : Nat) : Bool := 0xdc00 ≤ n && n ≤ 0xdfff

/-- The second half of a surrogate pair, behind the digits of the first. -/
def readLowSurrogate (high : Nat) (text : Text) : Except Fault (Char × Text) :=
  match text with
  | [] => .error (taken .eofString [])
  | .char '\\' :: rest =>
    match rest with
    | [] => .error (taken .eofString [])
    | .char 'u' :: rest =>
      match readHex rest with
      | .error fault => .error fault
      | .ok (low, rest) =>
        if isLowSurrogate low then
          .ok (Char.ofNat (0x10000 + (high - 0xd800) * 0x400 + (low - 0xdc00)), rest)
        else .error (taken .loneSurrogate rest)
    | _ => .error (peeked .unfinishedPair rest)
  | _ => .error (peeked .unfinishedPair text)

/-- An escape behind its backslash. -/
def readEscape (text : Text) : Except Fault (Char × Text) :=
  match text with
  | [] => .error (taken .eofString [])
  | .char '"' :: rest => .ok ('"', rest)
  | .char '\\' :: rest => .ok ('\\', rest)
  | .char '/' :: rest => .ok ('/', rest)
  | .char 'b' :: rest => .ok ('\x08', rest)
  | .char 'f' :: rest => .ok ('\x0c', rest)
  | .char 'n' :: rest => .ok ('\n', rest)
  | .char 'r' :: rest => .ok ('\r', rest)
  | .char 't' :: rest => .ok ('\t', rest)
  | .char 'u' :: rest =>
    match readHex rest with
    | .error fault => .error fault
    | .ok (n, rest) =>
      if isLowSurrogate n then .error (taken .loneSurrogate rest)
      else if isHighSurrogate n then readLowSurrogate n rest
      else .ok (Char.ofNat n, rest)
  | _ => .error (peeked .badEscape text)

/-- The same where the value is not wanted: surrogates need no partner. -/
def skipEscape (text : Text) : Except Fault Text :=
  match text with
  | .char 'u' :: rest => (readHex rest).map Prod.snd
  | _ => (readEscape text).map Prod.snd

theorem readHex_length {text rest : Text} {n : Nat} (h : readHex text = .ok (n, rest)) :
    rest.length < text.length := by
  unfold readHex at h
  grind

theorem readLowSurrogate_length {high : Nat} {text rest : Text} {c : Char}
    (h : readLowSurrogate high text = .ok (c, rest)) : rest.length < text.length := by
  unfold readLowSurrogate at h
  grind [→ readHex_length]

theorem readEscape_length {text rest : Text} {c : Char} (h : readEscape text = .ok (c, rest)) :
    rest.length < text.length := by
  unfold readEscape at h
  grind [→ readHex_length, → readLowSurrogate_length]

end TopicView.Json
