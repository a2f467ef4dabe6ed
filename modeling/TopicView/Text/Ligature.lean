import TopicView.Text.Picture
import TopicView.Text.Transparent

/-!
# Ligatures

Letters of several scripts that fuse with what stands in front of them to one sign.  Some do so of
themselves, others only with a joiner between; selectors between them change nothing.
-/

namespace TopicView.Text

/-! ## Letters -/

/-- The Arabic letters of the shape of alef. -/
def alefRanges : Ranges :=
  [(0x622, 0x623), (0x625, 0x625), (0x627, 0x627), (0x671, 0x673), (0x675, 0x675),
   (0x773, 0x774), (0x870, 0x882)]

/-- The Arabic letters of the shape of lam. -/
def lamRanges : Ranges :=
  [(0x644, 0x644), (0x6b5, 0x6b8), (0x76a, 0x76a), (0x8a6, 0x8a6), (0x8c7, 0x8c7)]

def tifinaghRanges : Ranges := [(0x2d31, 0x2d65), (0x2d6f, 0x2d6f)]

/-- The letters that Khmer writes below another. -/
def khmerRanges : Ranges :=
  [(0x1780, 0x1782), (0x1784, 0x1787), (0x1789, 0x178c), (0x178e, 0x1793), (0x1795, 0x1798),
   (0x179b, 0x179d), (0x17a0, 0x17a0), (0x17a2, 0x17a2), (0x17a7, 0x17a7), (0x17ab, 0x17ac),
   (0x17af, 0x17af)]

/-- Marks that are never drawn. -/
def unseenRanges : Ranges :=
  [(0x34f, 0x34f), (0x17b4, 0x17b5), (0x180b, 0x180d), (0x180f, 0x180f), (0xfe00, 0xfe0f),
   (0xe0100, 0xe01ef)]

/-! ## Fusing -/

/-- The end of a sign that may go on in front; `joined` with a joiner in front of it. -/
inductive Ligature
  | arabicAlef
  | hebrewLamed (joined : Bool)
  | khmer
  | bugineseYa (joined : Bool)
  | bugineseVowel
  | tifinagh (joined : Bool)
  | tifinaghJoined
  | lisuTone
  | orkhonI (joined : Bool)
  deriving DecidableEq, Repr

namespace Ligature

/-- The letter with a joiner in front of it; one that a joiner keeps apart is lost. -/
def join : Ligature → Option Ligature
  | hebrewLamed _ => some (hebrewLamed true)
  | bugineseYa _ => some (bugineseYa true)
  | bugineseVowel => none
  | tifinagh _ => some (tifinagh true)
  | orkhonI _ => some (orkhonI true)
  | l => some l

/-- The columns that a character adds in front of a letter that it fuses with. -/
def fuse? (l : Ligature) (c : Char) : Option (Int × Option Ligature) :=
  match l with
  | arabicAlef =>
    if lamRanges.has c then some (0, none)
    else if isTransparent c then some (0, some arabicAlef)
    else none
  | l =>
    if c = joiner then some (0, l.join)
    else if unseenRanges.has c then some (0, some l)
    else match l with
      | hebrewLamed true => if c = '\u05d0' then some (0, none) else none
      | khmer => if c = '\u17d2' then some (-1, none) else none
      | bugineseYa true => if c = '\u1a17' then some (0, some bugineseVowel) else none
      | bugineseVowel => if c = '\u1a15' then some (0, none) else none
      | tifinagh joined =>
        if c = '\u2d7f' then some (1, some tifinaghJoined)
        else if joined ∧ tifinaghRanges.has c then some (0, none)
        else none
      | tifinaghJoined => if tifinaghRanges.has c then some (-1, none) else none
      | lisuTone => if '\ua4f8' ≤ c ∧ c ≤ '\ua4fb' then some (0, none) else none
      | orkhonI true => if c.toNat = 0x10c32 then some (0, none) else none
      | _ => none

def ofChar? (c : Char) : Option Ligature :=
  if alefRanges.has c then some arabicAlef
  else if c = '\u05dc' then some (hebrewLamed false)
  else if khmerRanges.has c then some khmer
  else if c = '\u1a10' then some (bugineseYa false)
  else if tifinaghRanges.has c then some (tifinagh false)
  else if '\ua4fc' ≤ c ∧ c ≤ '\ua4fd' then some lisuTone
  else if c.toNat = 0x10c03 then some (orkhonI false)
  else none

end Ligature
end TopicView.Text
