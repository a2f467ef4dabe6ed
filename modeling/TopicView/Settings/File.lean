import TopicView.Settings
import TopicView.Toml.Reader

/-!
# Settings files

Settings are written down in TOML.  What a file does not mention keeps its default, and what no
setting is named for is passed over.
-/

namespace TopicView.Settings

/-- A group of settings may be an array of their values in order; what goes beyond them does not
count. -/
def cutRow (count : Nat) : Json → Json
  | .arr items => .arr (items.take count)
  | v => v

def cutRows : Json → Json
  | .obj groups =>
    .obj (groups.map fun (name, group) ↦ (name, cutRow (if name = "reader" then 1 else 4) group))
  | v => v

def ofToml (document : Toml) : Except Json.Problem Settings :=
  format.value (cutRows document.toJson)

/-- Why a file holds no settings. -/
inductive FileFault
  | notText
  | malformed
  | misfit (problem : Json.Problem)
  deriving Repr

def FileFault.message : FileFault → String
  | notText => "stream did not contain valid UTF-8"
  | malformed => "TOML parse error"
  | misfit problem => problem.message

def ofFile (bytes : Bytes) : Except FileFault Settings :=
  match Utf8.decode? bytes with
  | none => .error .notText
  | some text =>
    match Toml.read text with
    | none => .error .malformed
    | some document => (ofToml document).mapError .misfit

end TopicView.Settings
