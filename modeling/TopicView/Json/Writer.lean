import TopicView.Json.Value

/-!
# Written JSON

The compact form has no white space; the pretty form puts every item and member on a line of its
own, two spaces deeper than its container.
-/

namespace TopicView.Json

/-- Quotes, backslashes and the controls below space are escaped, everything else stands as it
is. -/
def escapeChar (c : Char) : List Char :=
  if c = '"' then ['\\', '"']
  else if c = '\\' then ['\\', '\\']
  else if c = '\x08' then ['\\', 'b']
  else if c = '\x0c' then ['\\', 'f']
  else if c = '\n' then ['\\', 'n']
  else if c = '\r' then ['\\', 'r']
  else if c = '\t' then ['\\', 't']
  else if c < ' ' then
    ['\\', 'u', '0', '0', Numeral.hexDigit (c.toNat / 16), Numeral.hexDigit (c.toNat % 16)]
  else [c]

def writeString (s : String) : List Char := '"' :: (s.toList.flatMap escapeChar ++ ['"'])

def Number.write : Number → List Char
  | int n => Numeral.ofInt n
  | double d => d.write

/-! ## The compact form -/

mutual

def writeCompact : Json → List Char
  | null => ['n', 'u', 'l', 'l']
  | bool true => ['t', 'r', 'u', 'e']
  | bool false => ['f', 'a', 'l', 's', 'e']
  | num n => n.write
  | str s => writeString s
  | arr items => '[' :: (writeItems items ++ [']'])
  | obj members => '{' :: (writeMembers members ++ ['}'])

def writeItems : List Json → List Char
  | [] => []
  | [item] => writeCompact item
  | item :: rest => writeCompact item ++ ',' :: writeItems rest

def writeMembers : List (String × Json) → List Char
  | [] => []
  | [(key, value)] => writeString key ++ ':' :: writeCompact value
  | (key, value) :: rest =>
    writeString key ++ ':' :: (writeCompact value ++ ',' :: writeMembers rest)

end

def compact (v : Json) : String := String.ofList v.writeCompact

/-! ## The pretty form -/

def newLine (depth : Nat) : List Char := '\n' :: List.replicate (2 * depth) ' '

mutual

def writePretty (depth : Nat) : Json → List Char
  | arr [] => ['[', ']']
  | obj [] => ['{', '}']
  | arr items => '[' :: (prettyItems (depth + 1) items ++ newLine depth ++ [']'])
  | obj members => '{' :: (prettyMembers (depth + 1) members ++ newLine depth ++ ['}'])
  | null => ['n', 'u', 'l', 'l']
  | bool true => ['t', 'r', 'u', 'e']
  | bool false => ['f', 'a', 'l', 's', 'e']
  | num n => n.write
  | str s => writeString s

def prettyItems (depth : Nat) : List Json → List Char
  | [] => []
  | [item] => newLine depth ++ writePretty depth item
  | item :: rest => newLine depth ++ writePretty depth item ++ ',' :: prettyItems depth rest

def prettyMembers (depth : Nat) : List (String × Json) → List Char
  | [] => []
  | [(key, value)] => newLine depth ++ writeString key ++ ':' :: ' ' :: writePretty depth value
  | (key, value) :: rest =>
    newLine depth ++ writeString key ++ ':' :: ' ' ::
      (writePretty depth value ++ ',' :: prettyMembers depth rest)

end

def pretty (v : Json) : String := String.ofList (v.writePretty 0)

end TopicView.Json
