import TopicView.Text.Numeral
import TopicView.Toml.Value

/-!
# Reading TOML

A document is a sequence of lines, each a key with its value, a header, a comment or nothing.  The
reader accepts or refuses a document as a whole.
-/

namespace TopicView.Toml

open Numeral (hexValue? padded)

/-! ## Tokens -/

def isGap (c : Char) : Bool := c = ' ' || c = '\t'

/-- Characters that may stand in a comment or a string: no control but the tab. -/
def isPlain (c : Char) : Bool := c = '\t' || (' ' ≤ c && c ≠ '\x7f')

def skipGap (cs : List Char) : List Char := cs.dropWhile isGap

def newline? : List Char → Option (List Char)
  | '\n' :: rest => some rest
  | '\r' :: '\n' :: rest => some rest
  | _ => none

/-- White space and line ends, as far as they go. -/
def skipFold : List Char → List Char
  | '\n' :: rest => skipFold rest
  | '\r' :: '\n' :: rest => skipFold rest
  | c :: rest => if isGap c then skipFold rest else c :: rest
  | [] => []

def skipComment : List Char → List Char
  | '#' :: rest => rest.dropWhile isPlain
  | cs => cs

/-- The rest of a line that has been read: perhaps a comment, then its end. -/
def lineEnd? (cs : List Char) : Option (List Char) :=
  match skipComment (skipGap cs) with
  | [] => some []
  | cs => newline? cs

/-- White space, comments and line ends between the items of an array. -/
def skipLines : Nat → List Char → Option (List Char)
  | 0, cs => some cs
  | fuel + 1, cs =>
    match skipGap cs with
    | '#' :: rest => (newline? (skipComment ('#' :: rest))).bind (skipLines fuel)
    | cs =>
      match newline? cs with
      | some rest => skipLines fuel rest
      | none => some cs

/-- The character of `count` hexadecimal digits. -/
def readCode (count : Nat) (cs : List Char) : Option (Char × List Char) := do
  let digits ← (cs.take count).mapM hexValue?
  let n := digits.foldl (fun n d ↦ n * 16 + d) 0
  if digits.length = count ∧ n.isValidChar then some (Char.ofNat n, cs.drop count) else none

/-- An escape behind its backslash. -/
def readEscape : List Char → Option (Char × List Char)
  | 'b' :: rest => some ('\x08', rest)
  | 't' :: rest => some ('\t', rest)
  | 'n' :: rest => some ('\n', rest)
  | 'f' :: rest => some ('\x0c', rest)
  | 'r' :: rest => some ('\r', rest)
  | '"' :: rest => some ('"', rest)
  | '\\' :: rest => some ('\\', rest)
  | 'u' :: rest => readCode 4 rest
  | 'U' :: rest => readCode 8 rest
  | _ => none

def cons (c : Char) : List Char × List Char → List Char × List Char
  | (cs, rest) => (c :: cs, rest)

/-- A basic string behind its quote. -/
def readBasic : Nat → List Char → Option (List Char × List Char)
  | 0, _ => none
  | _ + 1, [] => none
  | fuel + 1, c :: rest =>
    if c = '"' then some ([], rest)
    else if c = '\\' then do
      let (d, rest) ← readEscape rest
      (readBasic fuel rest).map (cons d)
    else if isPlain c then (readBasic fuel rest).map (cons c)
    else none

/-- A literal string behind its apostrophe. -/
def readLiteral : List Char → Option (List Char × List Char)
  | [] => none
  | c :: rest =>
    if c = '\'' then some ([], rest)
    else if isPlain c then (readLiteral rest).map (cons c)
    else none

/-- The end of a multi-line string, if `quote` stands here at least three times: up to two more
belong to the string. -/
def closing? (quote : Char) (cs : List Char) : Option (Option (List Char × List Char)) :=
  let n := (cs.takeWhile (· = quote)).length
  if n < 3 then none
  else if n ≤ 5 then some (some (List.replicate (n - 3) quote, cs.drop n))
  else some none

/-- The body of a multi-line string; `fold` stands for the escapes, which literal strings do not
have.  A line end is a line feed in every case. -/
def readLines (quote : Char) (fold : Bool) : Nat → List Char → Option (List Char × List Char)
  | 0, _ => none
  | _ + 1, [] => none
  | fuel + 1, c :: rest =>
    match closing? quote (c :: rest) with
    | some result => result
    | none =>
      match newline? (c :: rest) with
      | some rest => (readLines quote fold fuel rest).map (cons '\n')
      | none =>
        if c = '\\' ∧ fold then
          match newline? (skipGap rest) with
          | some rest => readLines quote fold fuel (skipFold rest)
          | none => do
            let (d, rest) ← readEscape rest
            (readLines quote fold fuel rest).map (cons d)
        else if isPlain c then (readLines quote fold fuel rest).map (cons c)
        else none

/-- A line end right behind the opening quotes does not count. -/
def dropFirstNewline (cs : List Char) : List Char := (newline? cs).getD cs

def isBareKey (c : Char) : Bool :=
  Numeral.isDigit c || ('a' ≤ c && c ≤ 'z') || ('A' ≤ c && c ≤ 'Z') || c = '_' || c = '-'

def readSimpleKey (cs : List Char) : Option (String × List Char) :=
  match cs with
  | '"' :: rest => (readBasic (rest.length + 1) rest).map fun (k, rest) ↦ (String.ofList k, rest)
  | '\'' :: rest => (readLiteral rest).map fun (k, rest) ↦ (String.ofList k, rest)
  | _ =>
    match cs.takeWhile isBareKey with
    | [] => none
    | k => some (String.ofList k, cs.dropWhile isBareKey)

/-- A dotted key cut into the path and the last key. -/
structure KeyPath where
  path : List String
  last : String

/-- Keys have fewer parts than this, and values nest less deep. -/
def depthLimit : Nat := 80

def readKey : Nat → List Char → Option (KeyPath × List Char)
  | 0, _ => none
  | fuel + 1, cs => do
    let (key, rest) ← readSimpleKey (skipGap cs)
    match skipGap rest with
    | '.' :: rest =>
      let (k, rest) ← readKey fuel rest
      return (⟨key :: k.path, k.last⟩, rest)
    | rest => return (⟨[], key⟩, rest)

/-- Digits with single underscores between them. -/
def readDigits (isDigit : Char → Bool) : List Char → Option (List Char × List Char)
  | '_' :: _ => none
  | c :: rest =>
    if isDigit c then
      match rest with
      | '_' :: d :: more =>
        if isDigit d then (readDigits isDigit (d :: more)).map (cons c) else none
      | ['_'] => none
      | d :: more =>
        if isDigit d then (readDigits isDigit (d :: more)).map (cons c) else some ([c], d :: more)
      | [] => some ([c], [])
    else none
  | [] => none

def inWord (n : Int) : Option Toml :=
  if Int64.minValue.toInt ≤ n ∧ n ≤ Int64.maxValue.toInt then some (int n) else none

/-- A number in another base behind its mark. -/
def readRadix (base : Nat) (cs : List Char) : Option (Toml × List Char) := do
  let isDigit (c : Char) : Bool := (hexValue? c).any (· < base)
  let (digits, rest) ← readDigits isDigit cs
  let n := (digits.filterMap hexValue?).foldl (fun n d ↦ n * base + d) 0
  return (← inWord n, rest)

/-- The exponent, if its mark comes next. -/
def readExponent (cs : List Char) : Option (Option Int × List Char) :=
  match cs with
  | 'e' :: rest | 'E' :: rest => do
    let (negative, rest) := match rest with
      | '+' :: rest => (false, rest)
      | '-' :: rest => (true, rest)
      | _ => (false, rest)
    let (digits, rest) ← readDigits Numeral.isDigit rest
    let e : Int := Numeral.value digits
    return (some (if negative then -e else e), rest)
  | _ => some (none, cs)

/-- A float from its digits; one too large is refused, but stands for an infinity below zero. -/
def toFloat (negative : Bool) (digits : List Char) (e : Int) : Option Toml :=
  match Double.ofDecimal? negative (Numeral.value digits) e with
  | some d => some (float (some d))
  | none => if negative then some (float none) else none

/-- A decimal number behind its sign. -/
def readDecimal (negative : Bool) (cs : List Char) : Option (Toml × List Char) := do
  let (whole, rest) ← match cs with
    | '0' :: rest => some (['0'], rest)
    | _ => readDigits Numeral.isDigit cs
  match rest with
  | '.' :: rest =>
    let (fraction, rest) ← readDigits Numeral.isDigit rest
    let (e, rest) ← readExponent rest
    return (← toFloat negative (whole ++ fraction) (e.getD 0 - fraction.length), rest)
  | rest =>
    match ← readExponent rest with
    | (some e, rest) => return (← toFloat negative whole e, rest)
    | (none, rest) =>
      let n : Int := Numeral.value whole
      return (← inWord (if negative then -n else n), rest)

def readSigned (negative : Bool) (cs : List Char) : Option (Toml × List Char) :=
  match cs with
  | 'i' :: 'n' :: 'f' :: rest => some (float none, rest)
  | 'n' :: 'a' :: 'n' :: rest => some (float none, rest)
  | _ => readDecimal negative cs

/-- A number of exactly `count` digits. -/
def readFixed (count : Nat) (cs : List Char) : Option (Nat × List Char) :=
  let digits := cs.take count
  if digits.length = count ∧ digits.all Numeral.isDigit then
    some (Numeral.value digits, cs.drop count)
  else none

def expect (c : Char) : List Char → Option (List Char)
  | d :: rest => if c = d then some rest else none
  | [] => none

def isLeap (year : Nat) : Bool := year % 4 = 0 && (year % 100 ≠ 0 || year % 400 = 0)

def daysIn (year month : Nat) : Nat :=
  if month = 2 then (if isLeap year then 29 else 28)
  else if month = 4 ∨ month = 6 ∨ month = 9 ∨ month = 11 then 30
  else 31

def readDate (cs : List Char) : Option (List Char × List Char) := do
  let (year, cs) ← readFixed 4 cs
  let (month, cs) ← readFixed 2 (← expect '-' cs)
  let (day, cs) ← readFixed 2 (← expect '-' cs)
  if 1 ≤ month ∧ month ≤ 12 ∧ 1 ≤ day ∧ day ≤ daysIn year month then
    return (padded 4 year ++ '-' :: padded 2 month ++ '-' :: padded 2 day, cs)
  else none

/-- Nine digits of a fraction, without the zeros at its end. -/
def fractionText (digits : List Char) : List Char :=
  match ((digits.take 9).reverse.dropWhile (· = '0')).reverse with
  | [] => []
  | ds => '.' :: ds

def readTime (cs : List Char) : Option (List Char × List Char) := do
  let (hour, cs) ← readFixed 2 cs
  let (minute, cs) ← readFixed 2 (← expect ':' cs)
  let (second, cs) ← readFixed 2 (← expect ':' cs)
  let (fraction, cs) ← match cs with
    | '.' :: rest =>
      match rest.takeWhile Numeral.isDigit with
      | [] => none
      | digits => some (fractionText digits, rest.dropWhile Numeral.isDigit)
    | _ => some ([], cs)
  if hour ≤ 23 ∧ minute ≤ 59 ∧ second ≤ 60 then
    return (padded 2 hour ++ ':' :: padded 2 minute ++ ':' :: padded 2 second ++ fraction, cs)
  else none

def readOffset (cs : List Char) : Option (List Char × List Char) :=
  match cs with
  | 'Z' :: rest | 'z' :: rest => some (['Z'], rest)
  | '+' :: rest | '-' :: rest => do
    let (hour, rest) ← readFixed 2 rest
    let (minute, rest) ← readFixed 2 (← expect ':' rest)
    if hour ≤ 23 ∧ minute ≤ 59 then
      let negative := cs.head? = some '-' ∧ 0 < hour + minute
      return ((if negative then '-' else '+') :: padded 2 hour ++ ':' :: padded 2 minute, rest)
    else none
  | _ => some ([], cs)

/-- Whether `count` digits and then `mark` come next. -/
def startsFixed (count : Nat) (mark : Char) (cs : List Char) : Bool :=
  (cs.take count).length = count && (cs.take count).all Numeral.isDigit &&
    (cs.drop count).head? = some mark

def readMoment (cs : List Char) : Option (Toml × List Char) := do
  if startsFixed 4 '-' cs then
    let (date, rest) ← readDate cs
    match rest with
    | c :: after =>
      if (c = 'T' ∨ c = 't' ∨ c = ' ') ∧ startsFixed 2 ':' after then
        let (clock, rest) ← readTime after
        let (offset, rest) ← readOffset rest
        return (time (String.ofList (date ++ 'T' :: clock ++ offset)), rest)
      else return (time (String.ofList date), rest)
    | [] => return (time (String.ofList date), [])
  else
    let (clock, rest) ← readTime cs
    return (time (String.ofList clock), rest)

def readNumber (cs : List Char) : Option (Toml × List Char) :=
  if startsFixed 4 '-' cs || startsFixed 2 ':' cs then readMoment cs
  else match cs with
    | '+' :: rest => readSigned false rest
    | '-' :: rest => readSigned true rest
    | '0' :: 'x' :: rest => readRadix 16 rest
    | '0' :: 'o' :: rest => readRadix 8 rest
    | '0' :: 'b' :: rest => readRadix 2 rest
    | _ => readSigned false cs

/-! ## Values and documents -/

/-- The items of an array behind its bracket; a comma may follow the last. -/
def readItems (item : List Char → Option (Toml × List Char)) :
    Nat → List Char → Option (List Toml × List Char)
  | 0, _ => none
  | fuel + 1, cs => do
    match ← skipLines cs.length cs with
    | ']' :: rest => return ([], rest)
    | cs =>
      let (v, rest) ← item cs
      match ← skipLines rest.length rest with
      | ',' :: rest =>
        let (vs, rest) ← readItems item fuel rest
        return (v :: vs, rest)
      | ']' :: rest => return ([v], rest)
      | _ => none

/-- A key with its value. -/
def readPair (value : List Char → Option (Toml × List Char)) (cs : List Char) :
    Option (KeyPath × Toml × List Char) := do
  let (key, rest) ← readKey (depthLimit - 1) cs
  let (v, rest) ← value (skipGap (← expect '=' rest))
  return (key, v, rest)

/-- The pairs of an inline table behind its brace; all on one line, and no comma follows the
last. -/
def readPairs (value : List Char → Option (Toml × List Char)) :
    Nat → Entries → List Char → Option (Entries × List Char)
  | 0, _, _ => none
  | fuel + 1, entries, cs => do
    let (key, v, rest) ← readPair value cs
    let entries ← put key.path key.last v entries
    match skipGap rest with
    | ',' :: rest => readPairs value fuel entries rest
    | '\x7d' :: rest => return (entries, rest)
    | _ => none

/-- A value whose containers nest at most `depth` deep. -/
def readValue : Nat → List Char → Option (Toml × List Char)
  | depth, cs =>
    match cs with
    | '"' :: '"' :: '"' :: rest =>
      (readLines '"' true (rest.length + 1) (dropFirstNewline rest)).map fun (s, rest) ↦
        (str (String.ofList s), rest)
    | '"' :: rest =>
      (readBasic (rest.length + 1) rest).map fun (s, rest) ↦ (str (String.ofList s), rest)
    | '\'' :: '\'' :: '\'' :: rest =>
      (readLines '\'' false (rest.length + 1) (dropFirstNewline rest)).map fun (s, rest) ↦
        (str (String.ofList s), rest)
    | '\'' :: rest => (readLiteral rest).map fun (s, rest) ↦ (str (String.ofList s), rest)
    | 't' :: 'r' :: 'u' :: 'e' :: rest => some (bool true, rest)
    | 'f' :: 'a' :: 'l' :: 's' :: 'e' :: rest => some (bool false, rest)
    | '[' :: rest =>
      match depth with
      | 0 => none
      | depth + 1 =>
        (readItems (readValue depth) (rest.length + 1) rest).map fun (vs, rest) ↦ (arr vs, rest)
    | '\x7b' :: rest =>
      match depth with
      | 0 => none
      | depth + 1 =>
        match skipGap rest with
        | '\x7d' :: rest => some (table .inline [], rest)
        | rest =>
          (readPairs (readValue depth) (rest.length + 1) [] rest).map fun (es, rest) ↦
            (table .inline es, rest)
    | _ => readNumber cs

/-- The document so far, and the path of the table that the last header has opened. -/
structure State where
  root : Entries
  header : List String

def readHeader (cs : List Char) (s : State) : Option (State × List Char) :=
  match cs with
  | '[' :: rest => do
    let (key, rest) ← readKey (depthLimit - 1) rest
    let rest ← expect ']' (← expect ']' rest)
    return (⟨← openRow key.path key.last s.root, key.path ++ [key.last]⟩, rest)
  | _ => do
    let (key, rest) ← readKey (depthLimit - 1) cs
    let rest ← expect ']' rest
    return (⟨← openTable key.path key.last s.root, key.path ++ [key.last]⟩, rest)

/-- What stands on a line before its comment and its end. -/
def readLine (cs : List Char) (s : State) : Option (State × List Char) :=
  match skipGap cs with
  | [] => some (s, [])
  | '[' :: rest => readHeader rest s
  | c :: rest =>
    if c = '#' ∨ (newline? (c :: rest)).isSome then some (s, c :: rest)
    else do
      let (key, v, rest) ← readPair (readValue (depthLimit - 1)) (c :: rest)
      return (⟨← putUnder s.header key.path key.last v s.root, s.header⟩, rest)

def readDocument : Nat → List Char → State → Option State
  | 0, _, _ => none
  | _ + 1, [], s => some s
  | fuel + 1, cs, s => do
    let (s, rest) ← readLine cs s
    readDocument fuel (← lineEnd? rest) s

/-- A byte order mark may stand in front. -/
def dropMark : List Char → List Char
  | '\ufeff' :: rest => rest
  | cs => cs

def read (text : String) : Option Toml :=
  let cs := dropMark text.toList
  (readDocument (cs.length + 1) cs ⟨[], []⟩).map fun s ↦ table .header s.root

end TopicView.Toml
