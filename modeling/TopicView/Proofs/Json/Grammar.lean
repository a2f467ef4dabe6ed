import Mathlib.Algebra.Group.Int.Defs
import Mathlib.Algebra.Group.Nat.Defs
import TopicView.Proofs.Json.Document
import TopicView.Json.Reader

/-!
# Texts and the documents they denote

The grammar of JSON, with what each form denotes.  It is given by relations between a text, what is
spelled at its front and the text that follows; no reader occurs in them.
-/

namespace TopicView.Json

/-- The text that consists of these characters. -/
def spelled (cs : List Char) : Text := cs.map .char

@[simp] theorem spelled_nil : spelled [] = [] := rfl

@[simp] theorem spelled_cons (c : Char) (cs : List Char) :
    spelled (c :: cs) = .char c :: spelled cs := rfl

@[simp] theorem spelled_append (cs ds : List Char) :
    spelled (cs ++ ds) = spelled cs ++ spelled ds := List.map_append

/-- Only white space stands before the rest. -/
inductive White : Text → Text → Prop
  | stop {t : Text} : White t t
  | step {c : Char} {s t : Text} (hc : c = ' ' ∨ c = '\t' ∨ c = '\n' ∨ c = '\r')
    (h : White s t) : White (.char c :: s) t

/-- At least one digit. -/
inductive Digits : Text → List Char → Text → Prop
  | last {d : Char} {t : Text} (hd : '0' ≤ d ∧ d ≤ '9') : Digits (.char d :: t) [d] t
  | more {d : Char} {s t : Text} {ds : List Char} (hd : '0' ≤ d ∧ d ≤ '9') (h : Digits s ds t) :
    Digits (.char d :: s) (d :: ds) t

/-- No digit follows a leading zero. -/
inductive Whole : Text → List Char → Text → Prop
  | zero {t : Text} : Whole (.char '0' :: t) ['0'] t
  | digits {d : Char} {s t : Text} {ds : List Char} (hd : d ≠ '0')
    (h : Digits (.char d :: s) ds t) : Whole (.char d :: s) ds t

inductive Fraction : Text → List Char → Text → Prop
  | none {t : Text} : Fraction t [] t
  | digits {s t : Text} {ds : List Char} (h : Digits s ds t) : Fraction (.char '.' :: s) ds t

/-- The sign of an exponent: whether it is a minus. -/
inductive Sign : Text → Bool → Text → Prop
  | none {t : Text} : Sign t false t
  | plus {t : Text} : Sign (.char '+' :: t) false t
  | minus {t : Text} : Sign (.char '-' :: t) true t

inductive Exponent : Text → Option (Bool × List Char) → Text → Prop
  | none {t : Text} : Exponent t none t
  | digits {mark : Char} {s s' t : Text} {negative : Bool} {ds : List Char}
    (hmark : mark = 'e' ∨ mark = 'E') (hsign : Sign s negative s') (h : Digits s' ds t) :
    Exponent (.char mark :: s) (some (negative, ds)) t

/-- The sign of a numeral; there is no plus. -/
inductive Minus : Text → Bool → Text → Prop
  | none {t : Text} : Minus t false t
  | minus {t : Text} : Minus (.char '-' :: t) true t

namespace Literal

/-- The integer of a numeral without fraction and exponent, if a word holds it.  Minus zero is no
integer. -/
inductive IsInt (l : Literal) : Int → Prop
  | natural (hfraction : l.fraction = []) (hexponent : l.exponent = none)
    (hsign : l.negative = false) (h : Numeral.value l.whole < 2 ^ 64) :
    IsInt l (Numeral.value l.whole)
  | negative (hfraction : l.fraction = []) (hexponent : l.exponent = none)
    (hsign : l.negative = true) (hzero : 0 < Numeral.value l.whole)
    (h : Numeral.value l.whole ≤ 2 ^ 63) : IsInt l (-Numeral.value l.whole)

/-- The power of ten that the exponent gives. -/
def power (l : Literal) : Int :=
  match l.exponent with
  | none => 0
  | some (negative, ds) => if negative then -Numeral.value ds else Numeral.value ds

/-- What a numeral stands for: an integer, or else the double next to its value.  An exponent
beyond a signed 32-bit word makes zero. -/
inductive Stands (l : Literal) : Number → Prop
  | int {n : Int} (h : l.IsInt n) : Stands l (.int n)
  | double {d : Double} (hint : ∀ n, ¬ l.IsInt n) (hpower : l.power.natAbs < 2 ^ 31)
    (hd : Double.ofDecimal? l.negative (Numeral.value (l.whole ++ l.fraction))
      (l.power - l.fraction.length) = some d) : Stands l (.double d)
  | zero (hpower : 2 ^ 31 ≤ l.power.natAbs)
    (h : Numeral.value (l.whole ++ l.fraction) = 0 ∨ l.power < 0) :
    Stands l (.double ⟨l.negative, 0⟩)

end Literal

/-- A numeral: its digits and signs one behind the other. -/
inductive IsNumeral : Text → Number → Text → Prop
  | mk {l : Literal} {n : Number} {s s₁ s₂ s₃ t : Text} (hminus : Minus s l.negative s₁)
    (hwhole : Whole s₁ l.whole s₂) (hfraction : Fraction s₂ l.fraction s₃)
    (hexponent : Exponent s₃ l.exponent t) (h : l.Stands n) : IsNumeral s n t

/-- The hexadecimal digits, in either case, with their values. -/
def hexDigits : List (Char × Nat) :=
  [('0', 0), ('1', 1), ('2', 2), ('3', 3), ('4', 4), ('5', 5), ('6', 6), ('7', 7), ('8', 8),
    ('9', 9), ('a', 10), ('b', 11), ('c', 12), ('d', 13), ('e', 14), ('f', 15), ('A', 10),
    ('B', 11), ('C', 12), ('D', 13), ('E', 14), ('F', 15)]

/-- A code of four hexadecimal digits. -/
inductive Code : Text → Nat → Text → Prop
  | mk {a b c d : Char} {w x y z : Nat} {t : Text} (ha : (a, w) ∈ hexDigits)
    (hb : (b, x) ∈ hexDigits) (hc : (c, y) ∈ hexDigits) (hd : (d, z) ∈ hexDigits) :
    Code (.char a :: .char b :: .char c :: .char d :: t) (((w * 16 + x) * 16 + y) * 16 + z) t

/-- The letters of the short escapes. -/
def escapeLetters : List (Char × Char) :=
  [('"', '"'), ('\\', '\\'), ('/', '/'), ('b', '\x08'), ('f', '\x0c'), ('n', '\n'), ('r', '\r'),
    ('t', '\t')]

/-- An escape behind its backslash.  A character beyond `ffff` is given by its two surrogates; a
surrogate by itself spells nothing. -/
inductive Escape : Text → Char → Text → Prop
  | letter {name c : Char} {t : Text} (h : (name, c) ∈ escapeLetters) :
    Escape (.char name :: t) c t
  | code {c : Char} {s t : Text} (h : Code s c.toNat t) : Escape (.char 'u' :: s) c t
  | pair {c : Char} {s s' t : Text} {high low : Nat} (hc : 0x10000 ≤ c.toNat)
    (hhigh : high = 0xd800 + (c.toNat - 0x10000) / 0x400)
    (hlow : low = 0xdc00 + (c.toNat - 0x10000) % 0x400)
    (h : Code s high (.char '\\' :: .char 'u' :: s')) (h' : Code s' low t) :
    Escape (.char 'u' :: s) c t

/-- The characters of a string behind its opening quote. -/
inductive Chars : Text → List Char → Text → Prop
  | quote {t : Text} : Chars (.char '"' :: t) [] t
  | plain {c : Char} {s t : Text} {cs : List Char} (hquote : c ≠ '"') (hslash : c ≠ '\\')
    (hcontrol : ' ' ≤ c) (h : Chars s cs t) : Chars (.char c :: s) (c :: cs) t
  | escape {c : Char} {s s' t : Text} {cs : List Char} (hescape : Escape s c s')
    (h : Chars s' cs t) : Chars (.char '\\' :: s) (c :: cs) t

/-! ## Documents -/

inductive Scalar : Text → Json → Text → Prop
  | null {t : Text} : Scalar (.char 'n' :: .char 'u' :: .char 'l' :: .char 'l' :: t) .null t
  | isTrue {t : Text} :
    Scalar (.char 't' :: .char 'r' :: .char 'u' :: .char 'e' :: t) (.bool true) t
  | isFalse {t : Text} :
    Scalar (.char 'f' :: .char 'a' :: .char 'l' :: .char 's' :: .char 'e' :: t) (.bool false) t
  | num {s t : Text} {n : Number} (h : IsNumeral s n t) : Scalar s (.num n) t
  | str {s t : Text} {v : String} (h : Chars s v.toList t) : Scalar (.char '"' :: s) (.str v) t

section Containers

variable {α : Type} (R : Text → α → Text → Prop)

/-- Parts with commas between them and a bracket behind the last, with white space around each. -/
inductive Series (right : Char) : Text → List α → Text → Prop
  | last {s s₁ s₂ t : Text} {a : α} (hgap : White s s₁) (h : R s₁ a s₂)
    (hgap' : White s₂ (.char right :: t)) : Series right s [a] t
  | more {s s₁ s₂ s₃ t : Text} {a : α} {as : List α} (hgap : White s s₁) (h : R s₁ a s₂)
    (hgap' : White s₂ (.char ',' :: s₃)) (hrest : Series right s₃ as t) : Series right s (a :: as) t

/-- What a container holds, behind its opening bracket. -/
inductive Enclosed (right : Char) : Text → List α → Text → Prop
  | none {s t : Text} (hgap : White s (.char right :: t)) : Enclosed right s [] t
  | some {s t : Text} {as : List α} (h : Series R right s as t) : Enclosed right s as t

/-- A key, a colon and what belongs to the key. -/
inductive Entry : Text → String × α → Text → Prop
  | mk {key : String} {s s₁ s₂ s₃ t : Text} {a : α} (hkey : Chars s key.toList s₁)
    (hgap : White s₁ (.char ':' :: s₂)) (hgap' : White s₂ s₃) (h : R s₃ a t) :
    Entry (.char '"' :: s) (key, a) t

end Containers

/-- A value whose containers nest at most `depth` deep. -/
def Spelled : (depth : Nat) → Text → Json → Text → Prop
  | 0, s, v, t => Scalar s v t
  | depth + 1, s, v, t => Scalar s v t ∨
    (∃ s' items, s = .char '[' :: s' ∧ v = arr items ∧
      Enclosed (Spelled depth) ']' s' items t) ∨
    ∃ s' members, s = .char '\x7b' :: s' ∧ v = obj members ∧
      Enclosed (Entry (Spelled depth)) '\x7d' s' members t

/-- The bytes spell a text that is the document with nothing but white space around it. -/
def Denotes (bytes : Bytes) (doc : Json) : Prop :=
  ∃ cs s t, Utf8.encodeChars cs = bytes ∧ White (spelled cs) s ∧
    Spelled depthLimit s doc t ∧ White t []

/-! ## What is spelled stands in front -/

/-- Characters and then the rest. -/
def Front (s t : Text) : Prop := ∃ cs : List Char, s = spelled cs ++ t

section

variable {s s' t u : Text}

theorem Front.refl (t : Text) : Front t t := ⟨[], rfl⟩

theorem Front.trans (h : Front s t) (h' : Front t u) : Front s u := by
  obtain ⟨cs, rfl⟩ := h
  obtain ⟨ds, rfl⟩ := h'
  exact ⟨cs ++ ds, by simp⟩

theorem Front.cons (c : Char) (h : Front s t) : Front (.char c :: s) t := by
  obtain ⟨cs, rfl⟩ := h
  exact ⟨c :: cs, rfl⟩

theorem Front.of_cons {c : Char} (h : Front s (.char c :: t)) : Front s t :=
  h.trans ((Front.refl t).cons c)

theorem Front.length_le (h : Front s t) : t.length ≤ s.length := by
  obtain ⟨cs, rfl⟩ := h
  rw [List.length_append]
  exact Nat.le_add_left _ _

theorem White.front (h : White s t) : Front s t := by
  induction h with
  | stop => exact .refl _
  | step _ _ ih => exact ih.cons _

theorem Digits.front {ds : List Char} (h : Digits s ds t) : Front s t := by
  induction h with
  | last _ => exact (Front.refl _).cons _
  | more _ _ ih => exact ih.cons _

theorem Whole.front {ds : List Char} (h : Whole s ds t) : Front s t := by
  cases h with
  | zero => exact (Front.refl _).cons _
  | digits _ h => exact h.front

theorem Fraction.front {ds : List Char} (h : Fraction s ds t) : Front s t := by
  cases h with
  | none => exact .refl _
  | digits h => exact h.front.cons _

theorem Sign.front {negative : Bool} (h : Sign s negative t) : Front s t := by
  cases h with
  | none => exact .refl _
  | plus => exact (Front.refl _).cons _
  | minus => exact (Front.refl _).cons _

theorem Exponent.front {e : Option (Bool × List Char)} (h : Exponent s e t) : Front s t := by
  cases h with
  | none => exact .refl _
  | digits _ hsign h => exact (hsign.front.trans h.front).cons _

theorem Minus.front {negative : Bool} (h : Minus s negative t) : Front s t := by
  cases h with
  | none => exact .refl _
  | minus => exact (Front.refl _).cons _

theorem IsNumeral.front {n : Number} (h : IsNumeral s n t) : Front s t := by
  cases h with
  | mk hminus hwhole hfraction hexponent _ =>
      exact ((hminus.front.trans hwhole.front).trans hfraction.front).trans hexponent.front

theorem Code.front {n : Nat} (h : Code s n t) : Front s t := by
  cases h with
  | mk => exact ((((Front.refl _).cons _).cons _).cons _).cons _

theorem Escape.front {c : Char} (h : Escape s c t) : Front s t := by
  cases h with
  | letter _ => exact (Front.refl _).cons _
  | code h => exact h.front.cons _
  | pair _ _ _ h h' => exact (h.front.of_cons.of_cons.trans h'.front).cons _

theorem Chars.front {cs : List Char} (h : Chars s cs t) : Front s t := by
  induction h with
  | quote => exact (Front.refl _).cons _
  | plain _ _ _ _ ih => exact ih.cons _
  | escape hescape _ ih => exact (hescape.front.trans ih).cons _

theorem Scalar.front {v : Json} (h : Scalar s v t) : Front s t := by
  cases h with
  | null => exact ((((Front.refl _).cons _).cons _).cons _).cons _
  | isTrue => exact ((((Front.refl _).cons _).cons _).cons _).cons _
  | isFalse => exact (((((Front.refl _).cons _).cons _).cons _).cons _).cons _
  | num h => exact h.front
  | str h => exact h.front.cons _

variable {α : Type} {R : Text → α → Text → Prop} {right : Char} {as : List α}

theorem Series.front (hR : ∀ {s a t}, R s a t → Front s t) (h : Series R right s as t) :
    Front s t := by
  induction h with
  | last hgap h hgap' => exact (hgap.front.trans (hR h)).trans hgap'.front.of_cons
  | more hgap h hgap' _ ih =>
      exact ((hgap.front.trans (hR h)).trans hgap'.front.of_cons).trans ih

theorem Enclosed.front (hR : ∀ {s a t}, R s a t → Front s t) (h : Enclosed R right s as t) :
    Front s t := by
  cases h with
  | none hgap => exact hgap.front.of_cons
  | some h => exact h.front hR

theorem Entry.front (hR : ∀ {s a t}, R s a t → Front s t) {p : String × α}
    (h : Entry R s p t) : Front s t := by
  cases h with
  | mk hkey hgap hgap' h =>
      exact ((hkey.front.trans hgap.front.of_cons).trans (hgap'.front.trans (hR h))).cons _

theorem Spelled.front {depth : Nat} {v : Json} (h : Spelled depth s v t) : Front s t := by
  induction depth generalizing s v t with
  | zero => exact Scalar.front h
  | succ depth ih =>
      obtain h | ⟨s', items, rfl, -, h⟩ | ⟨s', members, rfl, -, h⟩ := h
      · exact h.front
      · exact (h.front ih).cons _
      · exact (h.front (Entry.front ih)).cons _

/-- Each part takes a comma or the bracket with it. -/
theorem Series.length_le (hR : ∀ {s a t}, R s a t → Front s t) (h : Series R right s as t) :
    as.length ≤ s.length := by
  induction h with
  | last hgap h hgap' =>
      have hle := ((hgap.front.trans (hR h)).trans hgap'.front).length_le
      rw [List.length_cons] at hle
      exact Nat.le_trans (Nat.le_add_left _ _) hle
  | more hgap h hgap' _ ih =>
      have hle := ((hgap.front.trans (hR h)).trans hgap'.front).length_le
      rw [List.length_cons] at hle
      exact Nat.le_trans (Nat.succ_le_succ ih) hle

theorem Enclosed.length_le (hR : ∀ {s a t}, R s a t → Front s t) (h : Enclosed R right s as t) :
    as.length ≤ s.length := by
  cases h with
  | none _ => exact Nat.zero_le _
  | some h => exact h.length_le hR

end

end TopicView.Json
