import TopicView.Json.Format

/-!
# Decoders

A decoder turns the bytes of a value into text.  A value that it refuses is still shown, as a
placeholder that names the decoder and the cause.
-/

namespace TopicView

inductive DecodeError
  | invalidUtf8 (validUpTo : Nat)
  | invalidJson (text : String)
  deriving DecidableEq, Repr

def DecodeError.message : DecodeError → String
  | invalidUtf8 n => s!"invalid UTF-8 at byte {Numeral.text n}"
  | invalidJson text => s!"invalid JSON: {text}"

structure Decoder where
  name : String
  decode : Bytes → Except DecodeError String

namespace Decoder

def utf8 : Decoder where
  name := "utf8"
  decode bytes :=
    match Utf8.decode? bytes with
    | some s => .ok s
    | none => .error (.invalidUtf8 (Utf8.validUpTo bytes))

def lossy : Decoder where
  name := "lossy"
  decode bytes := .ok (Utf8.lossy bytes)

/-- A JSON document, written anew. -/
def json (pretty : Bool) : Decoder where
  name := "json"
  decode bytes :=
    match Json.read bytes with
    | .ok v => .ok (if pretty then v.pretty else v.compact)
    | .error fault => .error (.invalidJson (fault.message bytes))

/-- A missing value is the empty text under every decoder. -/
def display (d : Decoder) : Option Bytes → String
  | none => ""
  | some bytes =>
    match d.decode bytes with
    | .ok s => s
    | .error e => s!"<decode error ({d.name}): {e.message}>"

end Decoder

/-! ## Choosing a decoder -/

inductive DecoderKind
  | utf8
  | json
  | lossy
  deriving DecidableEq, Repr

namespace DecoderKind

def name : DecoderKind → String
  | utf8 => "utf8"
  | json => "json"
  | lossy => "lossy"

def choices : List (String × DecoderKind) := [("utf8", utf8), ("json", json), ("lossy", lossy)]

def format : Json.Format DecoderKind := .choice choices

def decoder : DecoderKind → Decoder
  | utf8 => .utf8
  | json => .json false
  | lossy => .lossy

/-- The name under which a decoder is asked for on a command line, in any case. -/
def parse (text : String) : Except String DecoderKind :=
  let name := text.map Char.toLower
  if name = "utf8" ∨ name = "utf-8" ∨ name = "string" then .ok utf8
  else if name = "json" then .ok json
  else if name = "lossy" then .ok lossy
  else .error s!"unknown decoder '{name}'"

instance : Inhabited DecoderKind := ⟨utf8⟩

end DecoderKind
end TopicView
