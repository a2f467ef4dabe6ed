import TopicView.Invocation.Command
import TopicView.Text.Plain

/-!
# Help

The pages that explain the command line, laid out in a width of 100 columns.
-/

namespace TopicView

namespace CommandOption

def about : CommandOption → String
  | config => "Configuration file (TOML)"
  | brokers => "Kafka bootstrap servers, overriding configuration"
  | fixture => "Read from a JSON topic snapshot instead of a cluster"
  | output => "Output format"
  | verbose => "Enable debug logging"
  | partitions => "Partitions to read, comma separated (default: all)"
  | mode => "Where to read: beginning, most-recent or live"
  | limit => "Total records across all partitions (0 with live mode: no limit)"
  | keyContains => "Only records whose key contains this text"
  | keyPrefix => "Only records whose key starts with this text"
  | valueContains => "Only records whose value contains this text"
  | decoder => "Value decoder: utf8, json or lossy"
  | channelCapacity => "Capacity of the record channel"
  | headers => "Show record headers in table output"
  | help => "Print help"
  | version => "Print version"

/-- The default of an option, or where else its value may come from. -/
def remark (environment : Option String) : CommandOption → String
  | config =>
    let value := environment.getD ""
    s!" [env: {Invocation.configVariable}={value}]"
  | output => " [default: table] [possible values: table, json]"
  | mode => " [default: beginning]"
  | limit => " [default: 50]"
  | decoder => " [default: utf8]"
  | _ => ""

/-- The name of the value of an option, as it stands behind the option. -/
def valueForm (option : CommandOption) : String :=
  let value := option.long.map fun c ↦ if c = '-' then '_' else c.toUpper
  if option.takesValue then s!" <{value}>" else ""

/-- The number of characters in the long form of an option with its value. -/
def formLength (option : CommandOption) : Nat := 2 + option.long.length + option.valueForm.length

def bold (text : String) : String := s!"\x1b[1m{text}\x1b[0m"

/-- The option as it is written, its names in bold. -/
def form (option : CommandOption) : String :=
  let letter := match option.letter? with
    | some c => bold s!"-{c}" ++ ", "
    | none => "    "
  letter ++ bold s!"--{option.long}" ++ option.valueForm

end CommandOption

namespace HelpPage

/-! ## Layout -/

def pageWidth : Nat := 100

def padRight (width : Nat) (text : String) : String :=
  String.ofList (text.toList ++ List.replicate (width - text.length) ' ')

/-- Names beside their explanations. -/
def entries (items : List (String × String)) : List String :=
  let longest := (items.map fun (name, _) ↦ name.length).foldl max 0
  items.map fun (name, about) ↦ s!"  {padRight longest name}  {about}"

/-- A text whose further lines begin below its first, `indent` columns from the left. -/
def hang (indent : Nat) (text : String) : String :=
  let blanks := List.replicate indent ' '
  String.ofList (text.toList.flatMap fun c ↦ if c = '\n' then '\n' :: blanks else [c])

/-- Options beside their explanations.  Where long options leave too little room for one of them,
all explanations stand on lines of their own. -/
def optionEntries (items : List (CommandOption × String)) : List String :=
  let longest := (items.map fun (option, _) ↦ option.formLength).foldl max 0
  let taken := longest + 12
  let crowded := 40 < taken && items.any fun (_, about) ↦ pageWidth - taken < about.length
  items.flatMap fun (option, about) ↦
    if crowded then [s!"  {option.form}", s!"          {hang 10 about}"]
    else
      let gap := String.ofList (List.replicate (longest - option.formLength) ' ')
      [s!"  {option.form}{gap}  {hang (longest + 8) about}"]

/-! ## Pages -/

def explain (environment : Option String) (page : HelpPage) (option : CommandOption) :
    CommandOption × String :=
  let about :=
    if page = .ranges ∧ option = .partitions then
      "Partitions to inspect, comma separated (default: all)"
    else option.about
  (option, about ++ option.remark environment)

def options : HelpPage → List CommandOption
  | program => CommandOption.shared ++ [.help, .version]
  | records =>
    [.config, .partitions, .brokers, .mode, .fixture, .limit, .keyContains, .output, .keyPrefix,
     .verbose, .valueContains, .decoder, .channelCapacity, .headers, .help]
  | ranges => [.config, .partitions, .brokers, .fixture, .output, .verbose, .help]
  | pages => []

def lead : HelpPage → List String
  | program =>
    ["Command-line viewer for partitioned topics", "", "Usage: kview [OPTIONS] <COMMAND>", "",
     "Commands:"] ++
    entries
      [("consume", "Read records from a topic"), ("offsets", "Show partition offset ranges"),
       ("help", "Print this message or the help of the given subcommand(s)")]
  | records =>
    ["Read records from a topic", "", "Usage: kview consume [OPTIONS] <TOPIC>", "", "Arguments:"] ++
    entries [("<TOPIC>", "Topic name")]
  | ranges =>
    ["Show partition offset ranges", "", "Usage: kview offsets [OPTIONS] <TOPIC>", "",
     "Arguments:"] ++
    entries [("<TOPIC>", "Topic name")]
  | pages =>
    ["Print this message or the help of the given subcommand(s)", "",
     "Usage: kview help [COMMAND]...", "", "Arguments:"] ++
    entries [("[COMMAND]...", "Print help for the subcommand(s)")]

def lines (environment : Option String) (page : HelpPage) : List String :=
  if page.options.isEmpty then page.lead
  else page.lead ++ ["", "Options:"] ++ optionEntries (page.options.map (explain environment page))

/-- The page as a stream that is no terminal shows it. -/
def text (environment : Option String) (page : HelpPage) : String :=
  Text.plain ("\n".intercalate (page.lines environment))

end HelpPage
end TopicView
