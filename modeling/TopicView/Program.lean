import TopicView.Invocation.Help
import TopicView.Settings.File
import TopicView.Snapshot

/-!
# The program

From a command line, the environment and the files it names to what is printed and the exit code.
-/

namespace TopicView.Program

/-- What the program finds around it: variables, files with the reason why one cannot be read, and
the time that stamps records. -/
structure Surroundings where
  lookup : String → Option String
  file : String → Except String Bytes
  now : Timestamp

/-- How the program ends. -/
inductive Exit
  | code (n : Nat)
  /-- It goes on until it is interrupted. -/
  | waiting
  deriving DecidableEq, Repr

structure Run where
  transcript : Transcript
  exit : Exit
  deriving DecidableEq, Repr

/-! ## Before a command starts -/

/-- An error and its causes, outermost first. -/
abbrev Chain := List String

def indent (text : String) : String :=
  "\n".intercalate ((text.toList.splitOn '\n').map fun line ↦ "    " ++ String.ofList line)

def startError : Chain → Run
  | [] => ⟨{}, .code 1⟩
  | [message] => ⟨{ notices := [s!"Error: {message}"] }, .code 1⟩
  | message :: causes =>
    ⟨{ notices := [s!"Error: {message}", "", "Caused by:"] ++ causes.map indent }, .code 1⟩

def fileSettings (around : Surroundings) : Option String → Except Chain Settings
  | none => .ok {}
  | some path =>
    match around.file path with
    | .error cause => .error [s!"Failed to read config file {path}", cause]
    | .ok bytes =>
      match Settings.ofFile bytes with
      | .ok settings => .ok settings
      | .error .notText =>
        .error [s!"Failed to read config file {path}", Settings.FileFault.notText.message]
      | .error fault => .error [s!"Failed to parse config file {path}", fault.message]

/-- The file, then the environment, then the command line. -/
def loadSettings (around : Surroundings) (i : Invocation) : Except Chain Settings := do
  match (← fileSettings around i.config).applyEnvironment around.lookup with
  | (_, some e) => throw e.chain
  | (settings, none) =>
    match i.brokers with
    | some bootstrapServers =>
      return { settings with cluster := { settings.cluster with bootstrapServers } }
    | none => return settings

def noCluster : String :=
  "kview was built without Kafka support; pass --fixture or rebuild with --features kafka"

/-- The log of a snapshot.  There is no other source of topics. -/
def loadLog (around : Surroundings) : Option String → Result Chain Log
  | none => .error [noCluster]
  | some path =>
    match around.file path with
    | .error cause => .error [s!"Failed to read fixture {path}", cause]
    | .ok bytes =>
      if (Utf8.decode? bytes).isNone then
        .error [s!"Failed to read fixture {path}", Settings.FileFault.notText.message]
      else
        match Snapshot.format.parse bytes with
        | .error message => .error [s!"Invalid fixture {path}", message]
        | .ok snapshot => (snapshot.load around.now).mapError (·.chain)

/-! ## Running -/

def runCommand (log : Log) (settings : Settings) (format : OutputFormat) :
    Command → Result ListingError Listing
  | .records q => q.list log settings.reader format
  | .ranges q => q.list log format

def exitOf : ListingEnd → Exit
  | .done => .code 0
  | .waiting => .waiting

def carryOut (around : Surroundings) (i : Invocation) : Result Chain Run := do
  let settings ← loadSettings around i
  let log ← loadLog around i.fixture
  match runCommand log settings i.format i.command with
  | .ok listing => return ⟨listing.transcript, exitOf listing.ending⟩
  | .error e => return ⟨.notify .failure (": ".intercalate e.chain), .code 1⟩
  | .crash => .crash

def versionLine : String := "kview 0.3.0"

def usageLine : String := "error: invalid arguments; for more information, try '--help'."

def run (around : Surroundings) (words : List String) : Run :=
  let environment := around.lookup Invocation.configVariable
  match Invocation.read environment words with
  | .error .usage => ⟨{ notices := [usageLine] }, .code 2⟩
  | .error .version => ⟨.print [versionLine], .code 0⟩
  | .error (.help page) => ⟨.print [page.text environment], .code 0⟩
  | .ok i =>
    match carryOut around i with
    | .ok run => run
    | .error chain => startError chain
    | .crash => ⟨{}, .code 101⟩

end TopicView.Program
