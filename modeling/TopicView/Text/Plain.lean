import TopicView.Text.Utf8

/-!
# Plain text

A stream that is no terminal shows a text without the control sequences in it, and without the
controls that are no white space.
-/

namespace TopicView.Text

def isLayout (c : Char) : Bool := c = '\t' || c = '\n' || c = '\x0c' || c = '\r'

def isShown (c : Char) : Bool := (' ' ≤ c && c ≠ '\x7f') || isLayout c

/-- The control sequence that a text is in. -/
inductive Sequence
  | outside
  | escape
  | escapeMiddle
  /-- A sequence for the terminal: its numbers, which may have `started`, what stands between them
  and its final character, and the rest of one that makes no sense. -/
  | control (started : Bool)
  | controlMiddle
  | controlRest
  /-- The same for the head of a string that is meant for a device. -/
  | device (started : Bool)
  | deviceMiddle
  /-- A string for a device, and one for the operating system, which a bell ends. -/
  | string
  | command
  deriving DecidableEq, Repr

namespace Sequence

/-- White space is shown even in the middle of some sequences. -/
def shows : Sequence → Char → Bool
  | outside, c => isShown c
  | escape, c | escapeMiddle, c | control _, c | controlMiddle, c | controlRest, c => isLayout c
  | _, _ => false

/-- What a character that is printable in ASCII makes of a sequence. -/
def push : Sequence → Char → Sequence
  | escape, c =>
    if c ≤ '/' then escapeMiddle
    else if c = '[' then control false
    else if c = ']' then command
    else if c = 'P' then device false
    else if c = 'X' ∨ c = '^' ∨ c = '_' then string
    else outside
  | escapeMiddle, c => if c ≤ '/' then escapeMiddle else outside
  | control started, c =>
    if c ≤ '/' then controlMiddle
    else if c ≤ ';' then control true
    else if c ≤ '?' then if started then controlRest else control true
    else outside
  | controlMiddle, c =>
    if c ≤ '/' then controlMiddle else if c ≤ '?' then controlRest else outside
  | controlRest, c => if c ≤ '?' then controlRest else outside
  | device started, c =>
    if c ≤ '/' then deviceMiddle
    else if c ≤ ';' then device true
    else if c ≤ '?' then if started then string else device true
    else string
  | deviceMiddle, c => if c ≤ '/' then deviceMiddle else string
  | s, _ => s

/-- The byte that ends a string for a device, also where it is a part of a character. -/
def stringEnd : UInt8 := 0x9c

def next (s : Sequence) (c : Char) : Sequence :=
  if c = '\x1b' then escape
  else if c = '\x18' ∨ c = '\x1a' then outside
  else if '\x7f' < c then
    if s = string ∧ stringEnd ∈ String.utf8EncodeChar c then outside else s
  else if c < ' ' ∨ c = '\x7f' then
    if s = command ∧ c = '\x07' then outside else s
  else s.push c

end Sequence

/-- A text from a point on, where `shown` says whether the character before it was shown.  White
space that is shown inside a sequence takes along all that can be shown behind it. -/
def plainChars (shown : Bool) (s : Sequence) : List Char → List Char
  | [] => []
  | c :: cs =>
    if shown && isShown c then c :: plainChars true (if '\x7f' < c then .outside else s) cs
    else if s.shows c then c :: plainChars true (s.next c) cs
    else plainChars false (s.next c) cs

def plain (text : String) : String := String.ofList (plainChars false .outside text.toList)

end TopicView.Text
