import TopicView.Json.Token

/-!
# Reading JSON

A text is read to one value with nothing but white space around it.  Containers nest to a fixed
depth.  The same loops serve where a value is only passed over, in a manner that is laxer about
surrogates, sizes and depth and words or places three faults differently.
-/

namespace TopicView.Json

open Utf8 (Piece)

def consChar (c : Char) : List Char × Text → List Char × Text
  | (cs, text) => (c :: cs, text)

/-- A string behind its opening quote.  Bytes that spell no character are a fault only once the
string has closed; it is placed as far before the closing quote as the text without its escapes
reaches from the first of them on, and `bad` is that number of bytes. -/
def readChars (bad : Option Nat) (text : Text) : Except Fault (List Char × Text) :=
  match text with
  | [] => .error (taken .eofString [])
  | .stray bs :: rest => readChars (some (bad.getD 0 + bs.length)) rest
  | .char c :: rest =>
    if c = '"' then
      match bad with
      | none => .ok ([], rest)
      | some n => .error ⟨.badCodePoint, left rest + n⟩
    else if c = '\\' then
      match h : readEscape rest with
      | .error fault => .error fault
      | .ok (d, after) =>
        have := readEscape_length h
        (readChars (bad.map (· + d.utf8Size)) after).map (consChar d)
    else if c < ' ' then .error (taken .controlCharacter rest)
    else (readChars (bad.map (· + c.utf8Size)) rest).map (consChar c)
termination_by text.length

def readString (text : Text) : Except Fault (String × Text) :=
  (readChars none text).map fun (cs, rest) ↦ (String.ofList cs, rest)

/-- A string whose value is not wanted.  A control character in it is not taken. -/
def skipString : Nat → Text → Except Fault Text
  | 0, _ => .error (taken .eofString [])
  | _ + 1, [] => .error (taken .eofString [])
  | fuel + 1, .stray _ :: rest => skipString fuel rest
  | fuel + 1, .char c :: rest =>
    if c = '"' then .ok rest
    else if c = '\\' then
      match skipEscape rest with
      | .error fault => .error fault
      | .ok rest => skipString fuel rest
    else if c < ' ' then .error (taken .controlCharacter (.char c :: rest))
    else skipString fuel rest

/-! ## Containers and values -/

/-- What is said of a bracket right behind a comma, and of the end of the text behind the comma of
an object. -/
structure Manner where
  listEnd : Cause
  objectEnd : Cause
  objectEof : Cause

def Manner.strict : Manner := ⟨.trailingComma, .trailingComma, .eofValue⟩

def Manner.skimming : Manner := ⟨.expectedValue, .keyNotString, .eofObject⟩

/-- Whether another item follows; the text then begins with it, and otherwise with the closing
bracket. -/
def nextItem (manner : Manner) (start : Bool) (text : Text) : Except Fault (Bool × Text) :=
  match skipSpace text with
  | [] => .error (peeked .eofList [])
  | .char ']' :: rest => .ok (false, .char ']' :: rest)
  | p :: rest =>
    if start then .ok (true, p :: rest)
    else if p = .char ',' then
      match skipSpace rest with
      | [] => .error (peeked .eofValue [])
      | .char ']' :: rest => .error (peeked manner.listEnd (.char ']' :: rest))
      | rest => .ok (true, rest)
    else .error (peeked .expectedListEnd (p :: rest))

/-- Whether another member follows; the text then begins with the quote of its key, and otherwise
with the closing brace. -/
def nextKey (manner : Manner) (start : Bool) (text : Text) : Except Fault (Bool × Text) :=
  let key : Text → Except Fault (Bool × Text)
    | .char '"' :: rest => .ok (true, .char '"' :: rest)
    | text => .error (peeked .keyNotString text)
  match skipSpace text with
  | [] => .error (peeked .eofObject [])
  | .char '\x7d' :: rest => .ok (false, .char '\x7d' :: rest)
  | p :: rest =>
    if start then key (p :: rest)
    else if p = .char ',' then
      match skipSpace rest with
      | [] => .error (peeked manner.objectEof [])
      | .char '\x7d' :: rest => .error (peeked manner.objectEnd (.char '\x7d' :: rest))
      | rest => key rest
    else .error (peeked .expectedObjectEnd (p :: rest))

def readColon (text : Text) : Except Fault Text :=
  match skipSpace text with
  | [] => .error (peeked .eofObject [])
  | .char ':' :: rest => .ok rest
  | text => .error (peeked .expectedColon text)

/-- The items of an array behind its bracket.  Every item takes at least one piece of the text, so
the length of the text bounds their number. -/
def readItems {α : Type} (manner : Manner) (item : Text → Except Fault (α × Text)) :
    Nat → Bool → Text → Except Fault (List α × Text)
  | 0, _, _ => .error (peeked .eofList [])
  | fuel + 1, start, text => do
    match ← nextItem manner start text with
    | (false, text) => return ([], text.tail)
    | (true, text) =>
      let (a, text) ← item text
      let (as, text) ← readItems manner item fuel false text
      return (a :: as, text)

/-- The members of an object behind its brace. -/
def readMembers {α β : Type} (manner : Manner) (key : Text → Except Fault (α × Text))
    (value : Text → Except Fault (β × Text)) :
    Nat → Bool → Text → Except Fault (List (α × β) × Text)
  | 0, _, _ => .error (peeked .eofObject [])
  | fuel + 1, start, text => do
    match ← nextKey manner start text with
    | (false, text) => return ([], text.tail)
    | (true, text) =>
      let (k, text) ← key text.tail
      let text ← readColon text
      let (v, text) ← value text
      let (rest, text) ← readMembers manner key value fuel false text
      return ((k, v) :: rest, text)

/-- A value that is no container; `text` begins with no white space. -/
def readScalar (text : Text) : Except Fault (Json × Text) :=
  match text with
  | [] => .error (peeked .eofValue [])
  | .char 'n' :: rest => (readWord ['u', 'l', 'l'] rest).map fun rest ↦ (.null, rest)
  | .char 't' :: rest => (readWord ['r', 'u', 'e'] rest).map fun rest ↦ (.bool true, rest)
  | .char 'f' :: rest => (readWord ['a', 'l', 's', 'e'] rest).map fun rest ↦ (.bool false, rest)
  | .char '"' :: rest => (readString rest).map fun (s, rest) ↦ (.str s, rest)
  | .char '-' :: rest => (readNumber true rest).map fun (n, rest) ↦ (.num n, rest)
  | .char c :: _ =>
    if Numeral.isDigit c then (readNumber false text).map fun (n, rest) ↦ (.num n, rest)
    else .error (peeked .expectedValue text)
  | .stray _ :: _ => .error (peeked .expectedValue text)

/-- A value whose containers nest at most `depth` deep. -/
def readValue (depth : Nat) (text : Text) : Except Fault (Json × Text) :=
  match skipSpace text with
  | .char '[' :: rest =>
    match depth with
    | 0 => .error (peeked .tooDeep (.char '[' :: rest))
    | depth + 1 => do
      let (items, rest) ← readItems .strict (readValue depth) (rest.length + 1) true rest
      return (.arr items, rest)
  | .char '\x7b' :: rest =>
    match depth with
    | 0 => .error (peeked .tooDeep (.char '\x7b' :: rest))
    | depth + 1 => do
      let (members, rest) ←
        readMembers .strict readString (readValue depth) (rest.length + 1) true rest
      return (object members, rest)
  | text => readScalar text

def unitRest (text : Text) : Unit × Text := ((), text)

/-- A value that is passed over.  Every bracket takes one piece of the text, so its length bounds
the depth. -/
def skipValue (depth : Nat) (text : Text) : Except Fault Text :=
  match skipSpace text with
  | .char '[' :: rest =>
    match depth with
    | 0 => .error (peeked .eofValue [])
    | depth + 1 =>
      (readItems .skimming (fun t ↦ (skipValue depth t).map unitRest)
        (rest.length + 1) true rest).map Prod.snd
  | .char '\x7b' :: rest =>
    match depth with
    | 0 => .error (peeked .eofValue [])
    | depth + 1 =>
      (readMembers .skimming (fun t ↦ (skipString (t.length + 1) t).map unitRest)
        (fun t ↦ (skipValue depth t).map unitRest) (rest.length + 1) true rest).map Prod.snd
  | .char '"' :: rest => skipString (rest.length + 1) rest
  | .char '-' :: rest => skipNumber true rest
  | .char c :: rest =>
    if Numeral.isDigit c then skipNumber false (.char c :: rest)
    else (readScalar (.char c :: rest)).map Prod.snd
  | text => (readScalar text).map Prod.snd

/-! ## Whole texts -/

/-- The number of containers that may be open at once. -/
def depthLimit : Nat := 127

/-- Only white space may follow. -/
def finish {α : Type} : α × Text → Except Fault α
  | (a, text) =>
    match skipSpace text with
    | [] => .ok a
    | rest => .error (peeked .trailingCharacters rest)

def read (bytes : Bytes) : Except Fault Json := do
  finish (← readValue depthLimit (Text.ofBytes bytes))

end TopicView.Json
