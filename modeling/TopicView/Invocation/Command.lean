import TopicView.Invocation.Argument
import TopicView.Listing.Ranges
import TopicView.Listing.Records

/-!
# Invocations

What a command line asks for.  Its arguments are taken in order; the first that cannot be taken, or
that asks for help or the version, decides.
-/

namespace TopicView

inductive HelpPage
  | program
  | records
  | ranges
  /-- The page of the command that shows these pages. -/
  | pages
  deriving DecidableEq, Repr

/-- Why a command line is not carried out. -/
inductive Interruption
  | usage
  | help (page : HelpPage)
  | version
  deriving DecidableEq, Repr

inductive Command
  | records (q : RecordQuery)
  | ranges (q : RangeQuery)
  deriving DecidableEq, Repr

/-- The values of the shared options, where they are given. -/
structure SharedValues where
  config : Option String := none
  brokers : Option String := none
  fixture : Option String := none
  output : Option OutputFormat := none
  verbose : Bool := false
  deriving DecidableEq, Repr

namespace Invocation

def readPartitions (value : String) : Option (List PartitionId) :=
  (value.toList.splitOn ',').mapM fun part ↦
    (Numeral.signed (Nat.pow 2 31) part).toOption.map Int32.ofInt

def readWord (value : String) : Option UInt64 :=
  (Numeral.unsigned UInt64.size value.toList).toOption.map UInt64.ofNat

def readPath (path : String) : Option String := if path.isEmpty then none else some path

def readFormat (name : String) : Option OutputFormat :=
  if name = "table" then some .table else if name = "json" then some .json else none

/-- What the arguments so far have said. -/
structure Draft where
  seen : List CommandOption := []
  shared : SharedValues := {}
  topic : Option String := none
  records : RecordQuery := { topic := "" }
  filters : List Filter := []

namespace Draft

def set (d : Draft) (value : String) : CommandOption → Option Draft
  | .config => (readPath value).map fun path ↦ { d with shared.config := path }
  | .brokers => some { d with shared.brokers := value }
  | .fixture => (readPath value).map fun path ↦ { d with shared.fixture := path }
  | .output => (readFormat value).map fun format ↦ { d with shared.output := format }
  | .partitions =>
    (readPartitions value).map fun ps ↦
      { d with records.partitions := d.records.partitions ++ ps }
  | .mode => (Mode.parse value).toOption.map fun mode ↦ { d with records.mode := mode }
  | .limit => (readWord value).map fun limit ↦ { d with records.limit := limit }
  | .keyContains => some { d with filters := .keyContains value :: d.filters }
  | .keyPrefix => some { d with filters := .keyStartsWith value :: d.filters }
  | .valueContains => some { d with filters := .valueContains value :: d.filters }
  | .decoder =>
    (DecoderKind.parse value).toOption.map fun kind ↦ { d with records.decoder := kind }
  | .channelCapacity => (readWord value).map fun n ↦ { d with records.capacity := n }
  | .verbose | .headers | .help | .version => none

def raise (d : Draft) : CommandOption → Draft
  | .verbose => { d with shared.verbose := true }
  | .headers => { d with records.headers := true }
  | _ => d

/-- Only the list of partitions may be given in several pieces. -/
def mark (d : Draft) (option : CommandOption) : Option Draft :=
  if option ∈ d.seen ∧ option ≠ .partitions then none
  else some { d with seen := option :: d.seen }

/-- One free word is taken, as the topic, and only where a command reads one. -/
def take (page : HelpPage) (d : Draft) : Argument → Except Interruption Draft
  | .fault => .error .usage
  | .flag .help => .error (.help page)
  | .flag .version => .error .version
  | .word text =>
    if page = .program ∨ d.topic.isSome then .error .usage
    else .ok { d with topic := some text }
  | .flag option =>
    match d.mark option with
    | some d => .ok (d.raise option)
    | none => .error .usage
  | .setting option value _ =>
    match d.mark option with
    | some d => match d.set value option with
      | some d => .ok d
      | none => .error .usage
    | none => .error .usage

def takeAll (page : HelpPage) (arguments : List Argument) : Except Interruption Draft :=
  arguments.foldlM (take page) {}

/-- Options that exclude each other, and a name for the settings file from the environment. -/
def check (d : Draft) (environment : Option String) : Except Interruption SharedValues :=
  if d.shared.brokers.isSome ∧ d.shared.fixture.isSome then .error .usage
  else if 1 < d.filters.length then .error .usage
  else match d.shared.config, environment with
    | none, some path =>
      if path.isEmpty then .error .usage else .ok d.shared
    | _, _ => .ok d.shared

end Draft

/-! ## Commands -/

def recordsName : String := "consume"

def rangesName : String := "offsets"

def helpName : String := "help"

/-- The command of a name and the arguments behind it, and what they say beside it. -/
def readCommand (shared : List CommandOption) (environment : Option String) (name : String)
    (words : List String) : Except Interruption (SharedValues × Command) := do
  if name = recordsName then
    let known := shared ++ CommandOption.ofRecords ++ [.help]
    let d ← Draft.takeAll .records (Argument.scan known false none words).1
    let values ← d.check environment
    match d.topic with
    | none => throw .usage
    | some topic => return (values, .records { d.records with topic, filter := d.filters.head? })
  else if name = rangesName then
    let known := shared ++ CommandOption.ofRanges ++ [.help]
    let d ← Draft.takeAll .ranges (Argument.scan known false none words).1
    let values ← d.check environment
    match d.topic with
    | none => throw .usage
    | some topic => return (values, .ranges ⟨topic, d.records.partitions⟩)
  else throw .usage

/-- A command with its own options alone. -/
def readCommandOnly : List String → Except Interruption Command
  | [] => .error .usage
  | name :: words => (readCommand [] none name words).map Prod.snd

/-- The page that the help command shows. -/
def readHelp : List String → Interruption
  | [] => .help .program
  | [name] =>
    if name = recordsName then .help .records
    else if name = rangesName then .help .ranges
    else if name = helpName then .help .pages
    else .usage
  | _ => .usage

end Invocation

/-! ## Whole command lines -/

structure Invocation where
  config : Option String
  brokers : Option String
  fixture : Option String
  format : OutputFormat
  verbose : Bool
  command : Command
  deriving DecidableEq, Repr

namespace Invocation

/-- What stands behind the command counts before what stands in front of it, and that before the
environment. -/
def merge (front behind : SharedValues) (environment : Option String) (command : Command) :
    Invocation where
  config := behind.config <|> front.config <|> environment
  brokers := behind.brokers <|> front.brokers
  fixture := behind.fixture <|> front.fixture
  format := (behind.output <|> front.output).getD .table
  verbose := behind.verbose || front.verbose
  command := command

def configVariable : String := "KVIEW_CONFIG"

/-- A value that stands right in front of the command is looked at only once the command has been
read, so that a request for help there comes first. -/
def read (environment : Option String) (words : List String) :
    Except Interruption Invocation := do
  let known := CommandOption.shared ++ [.help, .version]
  let (arguments, command) := Argument.scan known true none words
  let (arguments, last) := Argument.splitLast arguments
  let d ← Draft.takeAll .program arguments
  match command with
  | [] => throw .usage
  | name :: words =>
    if name = helpName then throw (readHelp words)
    else
      let (behind, command) ← readCommand CommandOption.shared environment name words
      let d ← last.toList.foldlM (Draft.take .program) d
      return merge (← d.check environment) behind environment command

end Invocation
end TopicView
