import TopicView.Json.Reader

/-!
# Formats

A format reads one type of value, either straight from a text or from a JSON value.  Read from a
text, a fault is placed where it is noticed; unknown fields are passed over.
-/

namespace TopicView.Json

open Utf8 (Piece)

structure Format (α : Type) where
  text : Nat → Text → Except Fault (α × Text)
  value : Json → Except Problem α

/-- The fault of a value of the wrong type at the front of `text`, which begins with no white
space.  A scalar is read first, a container is not entered. -/
def wrongTypeFault (wanted : String) (text : Text) : Fault :=
  match text with
  | .char '[' :: _ => taken (.shape (.wrongType .seq wanted)) text
  | .char '\x7b' :: _ => taken (.shape (.wrongType .map wanted)) text
  | _ =>
    match readScalar text with
    | .ok (v, rest) => taken (.shape (.wrongType (found v) wanted)) rest
    | .error fault => fault

namespace Format

variable {α β : Type}

def map (f : α → β) (format : Format α) : Format β where
  text depth text := (format.text depth text).map fun (a, rest) ↦ (f a, rest)
  value v := (format.value v).map f

/-- A text that holds one value and nothing after it. -/
def read (format : Format α) (bytes : Bytes) : Except Fault α := do
  finish (← format.text depthLimit (Text.ofBytes bytes))

/-- The same with the fault in words. -/
def parse (format : Format α) (bytes : Bytes) : Except String α :=
  (format.read bytes).mapError (·.message bytes)

/-! ## Scalars -/

def string : Format String where
  text _ text :=
    match skipSpace text with
    | .char '"' :: rest => readString rest
    | text => .error (wrongTypeFault "a string" text)
  value
    | .str s => .ok s
    | v => .error (.wrongType (found v) "a string")

/-- An integer in `[low, high]`. -/
def inRange (name : String) (low high : Int) : Number → Except Problem Int
  | .int n =>
    if low ≤ n ∧ n ≤ high then .ok n else .error (.wrongValue (.num (.int n)) name)
  | n => .error (.wrongType (.num n) name)

def integer (name : String) (low high : Int) : Format Int where
  text _ text :=
    match skipSpace text with
    | [] => .error (peeked .eofValue [])
    | .char c :: rest =>
      if c = '-' ∨ Numeral.isDigit c then do
        let (n, rest) ← if c = '-' then readNumber true rest else readNumber false (.char c :: rest)
        match inRange name low high n with
        | .ok n => return (n, rest)
        | .error problem => throw (taken (.shape problem) rest)
      else .error (wrongTypeFault name (.char c :: rest))
    | text => .error (wrongTypeFault name text)
  value
    | .num n => inRange name low high n
    | v => .error (.wrongType (found v) name)

def int32 : Format Int32 :=
  (integer "i32" Int32.minValue.toInt Int32.maxValue.toInt).map Int32.ofInt

def int64 : Format Int64 :=
  (integer "i64" Int64.minValue.toInt Int64.maxValue.toInt).map Int64.ofInt

def uint64 : Format UInt64 := (integer "u64" 0 (UInt64.size - 1)).map fun n ↦ UInt64.ofNat n.toNat

def size : Format UInt64 := (integer "usize" 0 (UInt64.size - 1)).map fun n ↦ UInt64.ofNat n.toNat

def null : Format Unit where
  text _ text :=
    match skipSpace text with
    | .char 'n' :: rest => (readWord ['u', 'l', 'l'] rest).map fun rest ↦ ((), rest)
    | text => .error (wrongTypeFault "unit" text)
  value
    | .null => .ok ()
    | v => .error (.wrongType (found v) "unit")

/-- Null stands for a value that is absent. -/
def option (format : Format α) : Format (Option α) where
  text depth text :=
    match skipSpace text with
    | .char 'n' :: rest => (readWord ['u', 'l', 'l'] rest).map fun rest ↦ (none, rest)
    | text => (format.text depth text).map fun (a, rest) ↦ (some a, rest)
  value
    | .null => .ok none
    | v => (format.value v).map some

def named (choices : List (String × α)) (name : String) : Except Problem α :=
  match choices.lookup name with
  | some a => .ok a
  | none => .error (.unknownVariant name (choices.map Prod.fst))

/-- The string of a name, with an unknown one placed behind it. -/
def readNamed (choices : List (String × α)) (text : Text) : Except Fault (α × Text) := do
  let (name, rest) ← readString text
  match named choices name with
  | .ok a => return (a, rest)
  | .error problem => throw (taken (.shape problem) rest)

/-- One of several names, as a string or as the only key of an object that maps it to null. -/
def choice (choices : List (String × α)) : Format α where
  text depth text :=
    match skipSpace text with
    | .char '"' :: rest => readNamed choices rest
    | .char '\x7b' :: rest =>
      match depth with
      | 0 => .error (peeked .tooDeep (.char '\x7b' :: rest))
      | depth + 1 => do
        let (a, text) ← match skipSpace rest with
          | .char '"' :: rest => readNamed choices rest
          | .char '\x7d' :: rest => .error (peeked .expectedValue (.char '\x7d' :: rest))
          | [] => .error (peeked .eofObject [])
          | text => .error (peeked .keyNotString text)
        let (_, text) ← null.text depth (← readColon text)
        match skipSpace text with
        | .char '\x7d' :: rest => return (a, rest)
        | [] => throw (taken .eofObject [])
        | text => throw (taken .expectedValue text)
    | [] => .error (peeked .eofValue [])
    | text => .error (peeked .expectedValue text)
  value
    | .str name => named choices name
    | .obj [(name, v)] => do
      let a ← named choices name
      null.value v
      return a
    | .obj _ => .error (.wrongValue .map "map with a single key")
    | v => .error (.wrongType (found v) "string or map")

/-! ## Containers -/

def listOf (format : Format α) : Format (List α) where
  text depth text :=
    match skipSpace text with
    | .char '[' :: rest =>
      match depth with
      | 0 => .error (peeked .tooDeep (.char '[' :: rest))
      | depth + 1 => readItems .strict (format.text depth) (rest.length + 1) true rest
    | text => .error (wrongTypeFault "a sequence" text)
  value
    | .arr items => items.mapM format.value
    | v => .error (.wrongType (found v) "a sequence")

/-- Of several values of one key the last counts. -/
def dictionary (format : Format α) : Format (Dictionary α) where
  text depth text :=
    match skipSpace text with
    | .char '\x7b' :: rest =>
      match depth with
      | 0 => .error (peeked .tooDeep (.char '\x7b' :: rest))
      | depth + 1 => do
        let (members, rest) ←
          readMembers .strict readString (format.text depth) (rest.length + 1) true rest
        return (.ofList members, rest)
    | text => .error (wrongTypeFault "a map" text)
  value
    | .obj members => do
      let entries ← members.mapM fun (key, v) ↦ (format.value v).map fun a ↦ (key, a)
      return .ofList entries
    | v => .error (.wrongType (found v) "a map")

/-- One field of a record: what its value changes in the record read so far. -/
structure Member (α : Type) where
  name : String
  required : Bool
  format : Format (α → α)

/-- A field that must be given. -/
def Member.must (name : String) (format : Format β) (put : β → α → α) : Member α :=
  ⟨name, true, format.map put⟩

/-- A field that keeps what the record starts with when it is not given. -/
def Member.may (name : String) (format : Format β) (put : β → α → α) : Member α :=
  ⟨name, false, format.map put⟩

def elementCount (name : String) (n : Nat) : String :=
  let noun := if n = 1 then "element" else "elements"
  s!"struct {name} with {Numeral.text n} {noun}"

/-- The end of an array whose items have all been read. -/
def readRowEnd (text : Text) : Except Fault Text :=
  match skipSpace text with
  | [] => .error (peeked .eofList [])
  | .char ']' :: rest => .ok rest
  | .char ',' :: rest =>
    match skipSpace rest with
    | .char ']' :: rest => .error (peeked .trailingComma (.char ']' :: rest))
    | rest => .error (peeked .trailingCharacters rest)
  | text => .error (peeked .trailingCharacters text)

/-- The fields in their order as the items of an array; optional ones may be missing at its
end. -/
def readRow (depth : Nat) (tooShort : Nat → Problem) :
    List (Member α) → Nat → α → Text → Except Fault (α × Text)
  | [], _, a, text => (readRowEnd text).map fun rest ↦ (a, rest)
  | m :: ms, i, a, text => do
    match ← nextItem .strict (i = 0) text with
    | (true, text) =>
      let (f, text) ← m.format.text depth text
      readRow depth tooShort ms (i + 1) (f a) text
    | (false, text) =>
      if m.required then throw (taken (.shape (tooShort i)) text.tail)
      else readRow depth tooShort ms (i + 1) a text

/-- The first required field that has not been given. -/
def missing? (members : List (Member α)) (seen : List String) : Option Problem :=
  (members.find? fun m ↦ m.required && !seen.contains m.name).map fun m ↦ .missingField m.name

/-- The fault of a key given before, placed before the colon, or behind a brace there. -/
def duplicateFault (key : String) (text : Text) : Fault :=
  match skipSpace text with
  | .char '\x7d' :: rest => taken (.shape (.duplicateField key)) rest
  | text => taken (.shape (.duplicateField key)) text

/-- The members of an object behind its brace, each known key at most once. -/
def readFields (depth : Nat) (members : List (Member α)) :
    Nat → List String → Bool → α → Text → Except Fault (α × Text)
  | 0, _, _, _, _ => .error (peeked .eofObject [])
  | fuel + 1, seen, start, a, text => do
    match ← nextKey .strict start text with
    | (false, text) =>
      match missing? members seen with
      | some problem => throw (taken (.shape problem) text.tail)
      | none => return (a, text.tail)
    | (true, text) =>
      let (key, text) ← readString text.tail
      match members.find? (·.name = key) with
      | none =>
        let text ← readColon text
        let text ← skipValue (text.length + 1) text
        readFields depth members fuel seen false a text
      | some m =>
        if seen.contains key then throw (duplicateFault key text)
        else
          let (f, text) ← m.format.text depth (← readColon text)
          readFields depth members fuel (key :: seen) false (f a) text

/-- The items of an array as the fields in their order. -/
def rowValue (name : String) (count : Nat) :
    List (Member α) → Nat → α → List Json → Except Problem α
  | [], i, a, rest =>
    if rest.isEmpty then .ok a
    else .error (.wrongLength (i + rest.length) "fewer elements in array")
  | m :: ms, i, a, [] =>
    if m.required then .error (.wrongLength i (elementCount name count))
    else rowValue name count ms i a []
  | m :: ms, i, a, v :: vs => do
    let f ← m.format.value v
    rowValue name count ms (i + 1) (f a) vs

def fieldValues (members : List (Member α)) : α → List (String × Json) → Except Problem α
  | a, [] => .ok a
  | a, (key, v) :: rest =>
    match members.find? (·.name = key) with
    | none => fieldValues members a rest
    | some m => do
      let f ← m.format.value v
      fieldValues members (f a) rest

/-- A record, given as an object or as an array of its fields in order. -/
def record (name : String) (start : α) (members : List (Member α)) : Format α where
  text depth text :=
    match skipSpace text with
    | .char '[' :: rest =>
      match depth with
      | 0 => .error (peeked .tooDeep (.char '[' :: rest))
      | depth + 1 =>
        readRow depth (fun i ↦ .wrongLength i (elementCount name members.length))
          members 0 start rest
    | .char '\x7b' :: rest =>
      match depth with
      | 0 => .error (peeked .tooDeep (.char '\x7b' :: rest))
      | depth + 1 => readFields depth members (rest.length + 1) [] true start rest
    | text => .error (wrongTypeFault s!"struct {name}" text)
  value
    | .arr items => rowValue name members.length members 0 start items
    | .obj fields =>
      match fieldValues members start fields with
      | .ok a =>
        match missing? members (fields.map Prod.fst) with
        | some problem => .error problem
        | none => .ok a
      | .error problem => .error problem
    | v => .error (.wrongType (found v) s!"struct {name}")

end Format
end TopicView.Json
