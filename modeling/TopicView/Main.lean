import Std.Time.DateTime.Timestamp
import TopicView.Program

/-!
# The executable

Gathers what the program may ask of the system, runs it and prints what it says.
-/

namespace TopicView.Program

/-- The error of a system call in the system's own words; some calls give its number negated. -/
def reason (e : IO.Error) : String :=
  let describe (code : UInt32) (text : String) : String :=
    let number := if code.toNat < Nat.pow 2 31 then code.toNat else Nat.pow 2 32 - code.toNat
    s!"{text.capitalize} (os error {Numeral.text number})"
  match e with
  | .noFileOrDirectory _ code text | .inappropriateType _ code text
  | .permissionDenied _ code text | .invalidArgument _ code text
  | .resourceExhausted _ code text | .noSuchThing _ code text
  | .otherError code text => describe code text
  | e => toString e

def readFile (path : String) : IO (Except String Bytes) := do
  try
    let content ← IO.FS.readBinFile path
    return .ok content.toList
  catch e => return .error (reason e)

/-- The variables and files that a command line leads to. -/
def gather (words : List String) : IO Surroundings := do
  let names := [Invocation.configVariable, Settings.serversVariable, Settings.capacityVariable]
  let values ← names.mapM fun name ↦ return (name, ← IO.getEnv name)
  let lookup (name : String) : Option String := (values.lookup name).join
  let paths := match Invocation.read (lookup Invocation.configVariable) words with
    | .ok i => i.config.toList ++ i.fixture.toList
    | .error _ => []
  let files ← paths.mapM fun path ↦ return (path, ← readFile path)
  let file (path : String) : Except String Bytes :=
    (files.lookup path).getD (.error "No such file or directory (os error 2)")
  let now ← Std.Time.Timestamp.now
  return ⟨lookup, file, Int64.ofInt now.toMillisecondsSinceUnixEpoch.val⟩

partial def waitForever : IO UInt32 := do
  IO.sleep 1000
  waitForever

end TopicView.Program

open TopicView.Program in
def main (words : List String) : IO UInt32 := do
  let result := run (← gather words) words
  for text in result.transcript.notices do IO.eprintln text
  for text in result.transcript.data do IO.println text
  match result.exit with
  | .code n => return UInt32.ofNat n
  | .waiting => waitForever
