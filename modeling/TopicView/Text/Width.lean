import TopicView.Text.Ligature

/-!
# Display width

The number of columns that a line of text takes on a terminal.  A line is measured from its end,
since the columns of a character depend on what stands behind it: a letter may be part of a
ligature, a picture part of a sequence, and a selector says how the character before it is drawn.
-/

namespace TopicView.Text

/-- Characters of two columns that are no pictures: `East_Asian_Width` is wide or full, and an
independent vowel of Khmer that is written as two letters. -/
def wideRanges : Ranges :=
  [(0x1100, 0x115f), (0x17a4, 0x17a4), (0x2329, 0x232a), (0x2e80, 0x2e99), (0x2e9b, 0x2ef3),
   (0x2f00, 0x2fd5), (0x2ff0, 0x3029), (0x3030, 0x303e), (0x3041, 0x3096), (0x309b, 0x30ff),
   (0x3105, 0x312f), (0x3131, 0x3163), (0x3165, 0x318e), (0x3190, 0x31e3), (0x31ef, 0x321e),
   (0x3220, 0x3247), (0x3250, 0x4dbf), (0x4e00, 0xa48c), (0xa490, 0xa4c6), (0xa960, 0xa97c),
   (0xac00, 0xd7a3), (0xf900, 0xfaff), (0xfe10, 0xfe19), (0xfe30, 0xfe52), (0xfe54, 0xfe66),
   (0xfe68, 0xfe6b), (0xff01, 0xff60), (0xffe0, 0xffe6), (0x16fe0, 0x16fe3), (0x16ff0, 0x16ff1),
   (0x17000, 0x187f7), (0x18800, 0x18cd5), (0x18d00, 0x18d08), (0x1aff0, 0x1aff3),
   (0x1aff5, 0x1affb), (0x1affd, 0x1affe), (0x1b000, 0x1b122), (0x1b132, 0x1b132),
   (0x1b150, 0x1b152), (0x1b155, 0x1b155), (0x1b164, 0x1b167), (0x1b170, 0x1b2fb),
   (0x1f200, 0x1f200), (0x1f202, 0x1f202), (0x1f210, 0x1f219), (0x1f21b, 0x1f22e),
   (0x1f230, 0x1f231), (0x1f237, 0x1f237), (0x1f23b, 0x1f23b), (0x1f240, 0x1f248),
   (0x1f260, 0x1f265), (0x1f3fb, 0x1f3ff), (0x20000, 0x2fffd), (0x30000, 0x3fffd)]

/-- A sign of Khmer that is written as three letters. -/
def isTriple (c : Char) : Bool := c = '\u17d8'

def charWidth (c : Char) : Nat :=
  if isEmpty c then 0
  else if isTriple c then 3
  else if wideRanges.has c || pictureRanges.has c then 2
  else 1

/-! ## What stands behind a character -/

inductive Selector
  | text
  | picture
  deriving DecidableEq, Repr

inductive Tail
  | other
  | letter (l : Ligature)
  | sequence (p : PictureTail)
  deriving DecidableEq, Repr

/-- What stands behind a character: perhaps a selector for it, and what follows. -/
structure Behind where
  selector : Option Selector := none
  tail : Tail := .other
  deriving DecidableEq, Repr

namespace Tail

def ofChar (c : Char) : Tail :=
  match Ligature.ofChar? c, PictureTail.ofChar? c with
  | some l, _ => letter l
  | none, some p => sequence p
  | none, none => other

/-- A letter stays what it is behind a selector; a sequence does not. -/
def letterOnly : Tail → Tail
  | letter l => letter l
  | _ => other

/-- What a selector for pictures leaves of the tail behind it. -/
def selected : Tail → Tail
  | sequence p => if p.takesSelected then sequence p else other
  | tail => tail

def takesSelected : Tail → Bool
  | sequence p => p.takesSelected
  | _ => false

def extend? (tail : Tail) (c : Char) : Option (Int × Tail) :=
  match tail with
  | other => none
  | letter l => (l.fuse? c).map fun (n, l) ↦ (n, (l.map letter).getD other)
  | sequence p => (p.extend? c).map fun (n, p) ↦ (n, sequence p)

end Tail

/-- The columns that a character adds, and what then stands behind the one before it. -/
def Behind.step (behind : Behind) (c : Char) : Int × Behind :=
  if behind.selector = some .picture ∧ selectableRanges.has c then
    (if behind.tail.takesSelected then 0 else 2, { tail := .sequence .picture })
  else
    let tail := if behind.selector = some .picture then behind.tail.letterOnly else behind.tail
    if c ≤ '\u00a0' then (1, {})
    else if c = pictureSelector then (0, ⟨some .picture, tail.selected⟩)
    else if c = textSelector then (0, ⟨some .text, tail.letterOnly⟩)
    else if behind.selector = some .text ∧ isTextBase c then (1, {})
    else match tail.extend? c with
      | some (n, tail) => (n, { tail })
      | none => (charWidth c, { tail := .ofChar c })

/-! ## Lines -/

/-- The columns of a line that holds no line feed. -/
def lineWidth (line : List Char) : Nat :=
  let (columns, _) : Int × Behind := line.foldr
    (fun c (columns, behind) ↦
      let (n, behind) := behind.step c
      (columns + n, behind))
    (0, {})
  columns.toNat

end TopicView.Text
