/-!
# Arguments

The options a command line knows, and the reading of its words as options, their values and free
words.
-/

namespace TopicView

inductive CommandOption
  | config
  | brokers
  | fixture
  | output
  | verbose
  | partitions
  | mode
  | limit
  | keyContains
  | keyPrefix
  | valueContains
  | decoder
  | channelCapacity
  | headers
  | help
  | version
  deriving DecidableEq, Repr

namespace CommandOption

def long : CommandOption → String
  | config => "config"
  | brokers => "brokers"
  | fixture => "fixture"
  | output => "output"
  | verbose => "verbose"
  | partitions => "partitions"
  | mode => "mode"
  | limit => "limit"
  | keyContains => "key-contains"
  | keyPrefix => "key-prefix"
  | valueContains => "value-contains"
  | decoder => "decoder"
  | channelCapacity => "channel-capacity"
  | headers => "headers"
  | help => "help"
  | version => "version"

def letter? : CommandOption → Option Char
  | config => some 'c'
  | brokers => some 'b'
  | fixture => some 'f'
  | output => some 'o'
  | verbose => some 'v'
  | partitions => some 'p'
  | mode => some 'm'
  | limit => some 'l'
  | decoder => some 'd'
  | help => some 'h'
  | version => some 'V'
  | _ => none

def takesValue : CommandOption → Bool
  | verbose | headers | help | version => false
  | _ => true

/-- Options that may stand before the command as well as behind it. -/
def shared : List CommandOption := [config, brokers, fixture, output, verbose]

def ofRecords : List CommandOption :=
  [partitions, mode, limit, keyContains, keyPrefix, valueContains, decoder, channelCapacity,
   headers]

def ofRanges : List CommandOption := [partitions]

end CommandOption

inductive Argument
  | word (text : String)
  | flag (option : CommandOption)
  /-- An option with its value, which may stand in a word of its own. -/
  | setting (option : CommandOption) (value : String) (apart : Bool)
  /-- An option that is not known, lacks its value, or has one it does not take. -/
  | fault
  deriving DecidableEq, Repr

namespace Argument

/-! ## One word -/

/-- A word behind which no value is looked for: a dash and more. -/
def isDashed (word : String) : Bool :=
  match word.toList with
  | '-' :: _ :: _ => true
  | _ => false

/-- The letters behind a single dash.  The first option that takes a value takes the letters behind
it, with or without an equals sign; if there are none its value is still to come. -/
def readLetters (known : List CommandOption) :
    List Char → List Argument × Option CommandOption
  | [] => ([], none)
  | c :: cs =>
    match known.find? (·.letter? = some c) with
    | none => ([.fault], none)
    | some option =>
      if option.takesValue then
        match cs with
        | [] => ([], some option)
        | '=' :: value => ([.setting option (String.ofList value) false], none)
        | value => ([.setting option (String.ofList value) false], none)
      else
        let (arguments, pending) := readLetters known cs
        (.flag option :: arguments, pending)

/-- A name behind two dashes, perhaps with a value behind an equals sign. -/
def readLong (known : List CommandOption) (cs : List Char) :
    List Argument × Option CommandOption :=
  let name := cs.takeWhile (· ≠ '=')
  match known.find? (·.long = String.ofList name), cs.drop name.length with
  | none, _ => ([.fault], none)
  | some option, [] => if option.takesValue then ([], some option) else ([.flag option], none)
  | some option, _ :: value =>
    if option.takesValue then ([.setting option (String.ofList value) false], none)
    else ([.fault], none)

/-! ## All words -/

/-- The arguments of a list of words, where `pending` waits for its value.  Behind two bare dashes
every word is free.  With `toCommand` the first free word before them ends the list, and what begins
with it is handed back. -/
def scan (known : List CommandOption) (toCommand : Bool) :
    Option CommandOption → List String → List Argument × List String
  | none, [] => ([], [])
  | some _, [] => ([.fault], [])
  | some option, text :: rest =>
    if isDashed text then ([.fault], [])
    else
      let (arguments, command) := scan known toCommand none rest
      (.setting option text true :: arguments, command)
  | none, text :: rest =>
    if text = "--" then (rest.map .word, [])
    else
      match text.toList with
      | '-' :: '-' :: cs =>
        let (here, pending) := readLong known cs
        let (arguments, command) := scan known toCommand pending rest
        (here ++ arguments, command)
      | '-' :: c :: cs =>
        let (here, pending) := readLetters known (c :: cs)
        let (arguments, command) := scan known toCommand pending rest
        (here ++ arguments, command)
      | _ =>
        if toCommand then ([], text :: rest)
        else
          let (arguments, command) := scan known toCommand none rest
          (.word text :: arguments, command)

/-- The arguments without the last, and the last, if its value stands apart. -/
def splitLast (arguments : List Argument) : List Argument × Option Argument :=
  match arguments.getLast? with
  | some (.setting option value true) => (arguments.dropLast, some (.setting option value true))
  | _ => (arguments, none)

end Argument
end TopicView
