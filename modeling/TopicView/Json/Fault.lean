import TopicView.Json.Writer
import TopicView.Text.Quoted
import TopicView.Text.Utf8

/-!
# Faults of JSON texts

A fault of the grammar or of a value that has the wrong shape, and the place in the text where it
was noticed.
-/

namespace TopicView.Json

/-! ## Shapes -/

/-- What stood where something else was wanted. -/
inductive Found
  | null
  | bool (b : Bool)
  | num (n : Number)
  | str (s : String)
  | seq
  | map
  deriving DecidableEq, Repr

def Found.message : Found → String
  | null => "null"
  | bool b => s!"boolean `{b}`"
  | num (.int n) => s!"integer `{Numeral.text n}`"
  | num (.double d) => s!"floating point `{String.ofList (Number.write (.double d))}`"
  | str s => s!"string {Text.quoted s}"
  | seq => "sequence"
  | map => "map"

def found : Json → Found
  | .null => .null
  | .bool b => .bool b
  | .num n => .num n
  | .str s => .str s
  | .arr _ => .seq
  | .obj _ => .map

/-- Why a value does not have the shape it is read at. -/
inductive Problem
  | wrongType (what : Found) (wanted : String)
  | wrongValue (what : Found) (wanted : String)
  | wrongLength (length : Nat) (wanted : String)
  | unknownVariant (name : String) (names : List String)
  | missingField (name : String)
  | duplicateField (name : String)
  deriving DecidableEq, Repr

/-- Names in backticks, separated by commas. -/
def listing (names : List String) : String :=
  ", ".intercalate (names.map fun name ↦ s!"`{name}`")

def Problem.message : Problem → String
  | wrongType what wanted => s!"invalid type: {what.message}, expected {wanted}"
  | wrongValue what wanted => s!"invalid value: {what.message}, expected {wanted}"
  | wrongLength n wanted => s!"invalid length {Numeral.text n}, expected {wanted}"
  | unknownVariant name names =>
    s!"unknown variant `{name}`, expected one of {listing names}"
  | missingField name => s!"missing field `{name}`"
  | duplicateField name => s!"duplicate field `{name}`"

/-! ## Grammar and places -/

inductive Cause
  | eofValue
  | eofList
  | eofObject
  | eofString
  | expectedColon
  | expectedListEnd
  | expectedObjectEnd
  | expectedIdent
  | expectedValue
  | trailingComma
  | trailingCharacters
  | keyNotString
  | tooDeep
  | badNumber
  | numberOutOfRange
  | badEscape
  | controlCharacter
  | loneSurrogate
  | unfinishedPair
  | badCodePoint
  | shape (p : Problem)
  deriving DecidableEq, Repr

def Cause.message : Cause → String
  | eofValue => "EOF while parsing a value"
  | eofList => "EOF while parsing a list"
  | eofObject => "EOF while parsing an object"
  | eofString => "EOF while parsing a string"
  | expectedColon => "expected `:`"
  | expectedListEnd => "expected `,` or `]`"
  | expectedObjectEnd => "expected `,` or `\x7d`"
  | expectedIdent => "expected ident"
  | expectedValue => "expected value"
  | trailingComma => "trailing comma"
  | trailingCharacters => "trailing characters"
  | keyNotString => "key must be a string"
  | tooDeep => "recursion limit exceeded"
  | badNumber => "invalid number"
  | numberOutOfRange => "number out of range"
  | badEscape => "invalid escape"
  | controlCharacter => "control character (\\u0000-\\u001F) found while parsing a string"
  | loneSurrogate => "lone leading surrogate in hex escape"
  | unfinishedPair => "unexpected end of hex escape"
  | badCodePoint => "invalid unicode code point"
  | shape p => p.message

/-- A cause and the number of bytes of the text that follow the place where it was noticed. -/
structure Fault where
  cause : Cause
  left : Nat
  deriving DecidableEq, Repr

/-- Line, counted from one, and the number of bytes since the last line feed, at the end of
`bytes`. -/
def place (bytes : Bytes) : Nat × Nat :=
  let lineFeed : UInt8 := 10
  (bytes.count lineFeed + 1, (bytes.reverse.takeWhile (· ≠ lineFeed)).length)

def Fault.message (fault : Fault) (bytes : Bytes) : String :=
  let (line, column) := place (bytes.take (bytes.length - fault.left))
  s!"{fault.cause.message} at line {Numeral.text line} column {Numeral.text column}"

end TopicView.Json
