import TopicView.Proofs.Json.Grammar
import TopicView.Proofs.Json.Reading
import TopicView.Proofs.Text.Decoding
import TopicView.Proofs.Text.Numeral

/-!
# What is read is in the text

Whatever a reader returns, the grammar finds it at the front of the text, and finds behind it just
what the reader has left.
-/

namespace TopicView.Json

open Utf8 (Piece)

variable {text rest : Text}

theorem White.trans {s t u : Text} (h : White s t) (h' : White t u) : White s u := by
  induction h with
  | stop => exact h'
  | step hc _ ih => exact .step hc (ih h')

theorem white_skipSpace (text : Text) : White text (skipSpace text) := by
  fun_induction skipSpace text with
  | case1 c rest hc ih => exact .step (by simpa [isSpace, or_assoc] using hc) ih
  | case2 c rest hc => exact .stop
  | case3 text h => exact .stop

theorem white_of_skipSpace (h : skipSpace text = rest) : White text rest :=
  h ▸ white_skipSpace text

theorem eq_of_readWord {cs : List Char} (h : readWord cs text = .ok rest) :
    text = spelled cs ++ rest := by
  induction cs generalizing text with
  | nil => exact Except.ok.inj h
  | cons c cs ih =>
      cases text with
      | nil => exact nomatch h
      | cons p text =>
          rw [readWord] at h
          split at h
          · next hp => rw [ih h, hp, spelled_cons, List.cons_append]
          · exact nomatch h

/-- A run of digits, or none. -/
theorem digits_of_spanDigits {ds : List Char} (h : spanDigits text = (ds, rest)) :
    ds = [] ∧ text = rest ∨ Digits text ds rest := by
  induction text generalizing ds with
  | nil => exact .inl ((Prod.mk.inj h).imp Eq.symm id)
  | cons p text ih =>
      cases p with
      | stray bs => exact .inl ((Prod.mk.inj h).imp Eq.symm id)
      | char c =>
          rw [spanDigits] at h
          split at h
          · next hc =>
              obtain ⟨rfl, hrest⟩ := Prod.mk.inj h
              have hdigit : '0' ≤ c ∧ c ≤ '9' := by simpa [Numeral.isDigit] using hc
              have hspan : spanDigits text = ((spanDigits text).1, rest) := Prod.ext rfl hrest
              obtain ⟨hds, rfl⟩ | hds := ih hspan
              · rw [hds]
                exact .inr (.last hdigit)
              · exact .inr (.more hdigit hds)
          · exact .inl ((Prod.mk.inj h).imp Eq.symm id)

theorem digits_of_spanDigits_ne_nil {ds : List Char} (h : spanDigits text = (ds, rest))
    (hne : ds ≠ []) : Digits text ds rest :=
  (digits_of_spanDigits h).resolve_left fun ⟨hds, _⟩ ↦ hne hds

theorem whole_of_readWhole {ds : List Char} (h : readWhole text = .ok (ds, rest)) :
    Whole text ds rest := by
  unfold readWhole at h
  split at h
  · split at h
    · next hspan =>
        obtain ⟨rfl, rfl⟩ := Prod.mk.inj (Except.ok.inj h)
        obtain ⟨-, rfl⟩ | hdigits := digits_of_spanDigits hspan
        · exact .zero
        · nomatch hdigits
    · exact nomatch h
  · next hzero =>
      split at h
      · exact nomatch h
      · next ds' rest' hne hspan =>
          obtain ⟨rfl, rfl⟩ := Prod.mk.inj (Except.ok.inj h)
          have hfirst {d : Char} {t : Text} (ht : text = .char d :: t) : d ≠ '0' := by
            rintro rfl
            exact hzero t ht
          cases digits_of_spanDigits_ne_nil hspan hne with
          | last hd => exact .digits (hfirst rfl) (.last hd)
          | more hd hmore => exact .digits (hfirst rfl) (.more hd hmore)

theorem fraction_of_readFraction {ds : List Char} (h : readFraction text = .ok (ds, rest)) :
    Fraction text ds rest := by
  unfold readFraction at h
  split at h
  · split at h
    · exact nomatch h
    · next hne hspan =>
        obtain ⟨rfl, rfl⟩ := Prod.mk.inj (Except.ok.inj h)
        exact .digits (digits_of_spanDigits_ne_nil hspan hne)
  · obtain ⟨rfl, rfl⟩ := Prod.mk.inj (Except.ok.inj h)
    exact .none

theorem sign_readSign (text : Text) : Sign text (readSign text).1 (readSign text).2 := by
  unfold readSign
  split
  · exact .plus
  · exact .minus
  · exact .none

theorem exponent_of_readExponent {e : Option (Bool × List Char)}
    (h : readExponent text = .ok (e, rest)) : Exponent text e rest := by
  unfold readExponent at h
  split at h
  · next c behind =>
      split at h
      · next hmark =>
          dsimp only at h
          split at h
          · exact nomatch h
          · next hne hspan =>
              obtain ⟨rfl, rfl⟩ := Prod.mk.inj (Except.ok.inj h)
              exact .digits hmark (sign_readSign behind) (digits_of_spanDigits_ne_nil hspan hne)
      · obtain ⟨rfl, rfl⟩ := Prod.mk.inj (Except.ok.inj h)
        exact .none
  · obtain ⟨rfl, rfl⟩ := Prod.mk.inj (Except.ok.inj h)
    exact .none

theorem literal_of_readLiteral {negative : Bool} {l : Literal}
    (h : readLiteral negative text = .ok (l, rest)) : l.negative = negative ∧
      ∃ s s', Whole text l.whole s ∧ Fraction s l.fraction s' ∧ Exponent s' l.exponent rest := by
  obtain ⟨⟨whole, s⟩, hwhole, h⟩ := exists_of_bind_ok h
  obtain ⟨⟨fraction, s'⟩, hfraction, h⟩ := exists_of_bind_ok h
  obtain ⟨⟨exponent, s''⟩, hexponent, h⟩ := exists_of_bind_ok h
  obtain ⟨rfl, rfl⟩ := Prod.mk.inj (Except.ok.inj h)
  exact ⟨rfl, s, s', whole_of_readWhole hwhole, fraction_of_readFraction hfraction,
    exponent_of_readExponent hexponent⟩

/-! ## Numerals and strings -/

theorem digitsBeyond_eq_none_iff {bound n : Nat} {ds : List Char} (hn : n < bound) :
    digitsBeyond bound n ds = none ↔
      ds.foldl (fun n d ↦ n * 10 + Numeral.digitValue d) n < bound := by
  induction ds generalizing n with
  | nil => exact iff_of_true rfl hn
  | cons d ds ih =>
      rw [digitsBeyond, List.foldl_cons]
      split
      · next hbound =>
          have hle := Numeral.le_foldl_digits (n * 10 + Numeral.digitValue d) ds
          exact iff_of_false nofun (Nat.not_lt.mpr (Nat.le_trans hbound hle))
      · next hbound => exact ih (Nat.not_le.mp hbound)

theorem natAbs_power {l : Literal} {negative : Bool} {ds : List Char}
    (h : l.exponent = some (negative, ds)) : l.power.natAbs = Numeral.value ds := by
  cases negative <;> simp [Literal.power, h]

theorem toDouble_eq_ok_iff {l : Literal} {e : Int} {n : Number} :
    l.toDouble e rest = .ok n ↔
      ∃ d, n = .double d ∧
        Double.ofDecimal? l.negative l.digits (e - l.fraction.length) = some d := by
  unfold Literal.toDouble
  cases Double.ofDecimal? l.negative l.digits (e - l.fraction.length) with
  | none => simp
  | some d => simp [eq_comm]

namespace Literal

variable {l : Literal} {n : Number}

theorem not_isInt_of_exponent {e : Bool × List Char} (h : l.exponent = some e) (m : Int) :
    ¬ l.IsInt m := by
  rintro (⟨-, hexponent, -⟩ | ⟨-, hexponent, -⟩)
  · exact nomatch h.symm.trans hexponent
  · exact nomatch h.symm.trans hexponent

theorem IsInt.unique {m m' : Int} (h : l.IsInt m) (h' : l.IsInt m') : m = m' := by
  cases h with
  | natural _ _ hsign _ =>
      cases h' with
      | natural => rfl
      | negative _ _ hsign' _ _ => exact nomatch hsign.symm.trans hsign'
  | negative _ _ hsign _ _ =>
      cases h' with
      | natural _ _ hsign' _ => exact nomatch hsign.symm.trans hsign'
      | negative => rfl

theorem stands_iff_of_isInt {m : Int} (h : l.IsInt m) : l.Stands n ↔ n = .int m := by
  constructor
  · intro hstands
    cases hstands with
    | int h' => rw [h.unique h']
    | double hint => exact absurd h (hint m)
    | zero hpower _ =>
        have hexponent : l.exponent = none := by cases h <;> assumption
        simp [power, hexponent] at hpower
  · rintro rfl
    exact .int h

/-- A numeral that is no integer and whose exponent is small is a double. -/
theorem toDouble_eq_ok_iff (hint : ∀ m, ¬ l.IsInt m) (hpower : l.power.natAbs < 2 ^ 31) :
    l.toDouble l.power rest = .ok n ↔ l.Stands n := by
  unfold toDouble
  constructor
  · intro h
    split at h
    · next hd => exact Except.ok.inj h ▸ .double hint hpower hd
    · exact nomatch h
  · intro h
    cases h with
    | int h => exact absurd h (hint _)
    | double _ _ hd => simp only [digits, hd]
    | zero hlarge _ => exact absurd hpower (Nat.not_lt.mpr hlarge)

theorem stands_iff_of_large (hint : ∀ m, ¬ l.IsInt m) (hpower : 2 ^ 31 ≤ l.power.natAbs) :
    l.Stands n ↔ (l.digits = 0 ∨ l.power < 0) ∧ n = .double ⟨l.negative, 0⟩ := by
  constructor
  · intro h
    cases h with
    | int h => exact absurd h (hint _)
    | double _ hsmall _ => exact absurd hsmall (Nat.not_lt.mpr hpower)
    | zero _ hzero => exact ⟨hzero, rfl⟩
  · rintro ⟨hzero, rfl⟩
    exact .zero hpower hzero

theorem number_of_exponent {negative : Bool} {ds : List Char}
    (hexponent : l.exponent = some (negative, ds)) : l.number rest = .ok n ↔ l.Stands n := by
  have hint := not_isInt_of_exponent hexponent
  have hpower : l.power =
      if negative then -(Numeral.value ds : Int) else (Numeral.value ds : Int) := by
    simp [power, hexponent]
  have hbeyond : digitsBeyond (Nat.pow 2 31) 0 ds = none ↔ l.power.natAbs < 2 ^ 31 := by
    rw [natAbs_power hexponent]
    exact digitsBeyond_eq_none_iff (by decide)
  simp only [number, hexponent]
  split
  · next hsome =>
      have hlarge : 2 ^ 31 ≤ l.power.natAbs :=
        Nat.not_lt.mp fun h ↦ nomatch hsome.symm.trans (hbeyond.mpr h)
      have hnegative : l.power < 0 ↔ negative = true := by
        cases negative with
        | false => simp [hpower]
        | true => simp [hpower] at hlarge ⊢; omega
      rw [stands_iff_of_large hint hlarge, hnegative]
      split <;> simp_all [eq_comm]
  · next hnone => exact hpower ▸ toDouble_eq_ok_iff hint (hbeyond.mp hnone)

theorem number_of_no_exponent (hexponent : l.exponent = none) :
    l.number rest = .ok n ↔ l.Stands n := by
  have hpower : l.power = 0 := by simp [power, hexponent]
  have hsmall : l.power.natAbs < 2 ^ 31 := by simp [hpower]
  have hdouble (hint : ∀ m, ¬ l.IsInt m) : l.toDouble 0 rest = .ok n ↔ l.Stands n :=
    hpower ▸ toDouble_eq_ok_iff hint hsmall
  by_cases hfraction : l.fraction = []
  · have hdigits : l.digits = Numeral.value l.whole := by
      rw [digits, hfraction, List.append_nil]
    have hbound : UInt64.size = 2 ^ 64 := rfl
    simp only [number, hexponent, hfraction, hdigits, List.isEmpty_nil, Bool.not_true,
      Bool.false_eq_true, if_false]
    split_ifs with hnegative hnatural
    · obtain ⟨hsign, hzero, hlow⟩ := hnegative
      rw [stands_iff_of_isInt (.negative hfraction hexponent hsign hzero hlow)]
      simp [eq_comm]
    · obtain ⟨hsign, hhigh⟩ := hnatural
      rw [stands_iff_of_isInt (.natural hfraction hexponent (by simpa using hsign) hhigh)]
      simp [eq_comm]
    · refine hdouble ?_
      rintro m (⟨-, -, hsign, hhigh⟩ | ⟨-, -, hsign, hzero, hlow⟩)
      · exact hnatural ⟨by simp [hsign], hhigh⟩
      · exact hnegative ⟨hsign, hzero, hlow⟩
  · simp only [number, hexponent]
    rw [if_pos (by simp [hfraction])]
    refine hdouble ?_
    rintro m (⟨hnil, -⟩ | ⟨hnil, -⟩)
    · exact hfraction hnil
    · exact hfraction hnil

/-- The reader takes a numeral for what it stands for. -/
theorem number_eq_ok_iff : l.number rest = .ok n ↔ l.Stands n := by
  cases hexponent : l.exponent with
  | none => exact number_of_no_exponent hexponent
  | some e => exact number_of_exponent hexponent

end Literal

theorem isNumeral_of_readNumber {negative : Bool} {s : Text} {n : Number}
    (hminus : Minus s negative text) (h : readNumber negative text = .ok (n, rest)) :
    IsNumeral s n rest := by
  obtain ⟨⟨l, after⟩, hliteral, h⟩ := exists_of_bind_ok h
  obtain ⟨m, hnumber, h⟩ := exists_of_bind_ok h
  obtain ⟨rfl, rfl⟩ := Prod.mk.inj (Except.ok.inj h)
  obtain ⟨rfl, s₁, s₂, hwhole, hfraction, hexponent⟩ := literal_of_readLiteral hliteral
  exact .mk hminus hwhole hfraction hexponent (Literal.number_eq_ok_iff.mp hnumber)

theorem mem_hexDigits_iff {c : Char} {n : Nat} :
    (c, n) ∈ hexDigits ↔ Numeral.hexValue? c = some n := by
  constructor
  · have hvalue : ∀ p ∈ hexDigits, Numeral.hexValue? p.1 = some p.2 := by decide
    exact hvalue (c, n)
  · intro h
    have hdigit : ∀ k < 103, ∀ n ∈ Numeral.hexValue? (Char.ofNat k),
        (Char.ofNat k, n) ∈ hexDigits := by decide
    have hc : c.toNat < 103 := by
      unfold Numeral.hexValue? Numeral.isDigit at h
      simp only [Bool.and_eq_true, decide_eq_true_eq, Char.le_def, UInt32.le_iff_toNat_le] at h
      have htoNat : c.toNat = c.val.toNat := rfl
      have hnine : '9'.val.toNat = 57 := rfl
      have hsmall : 'f'.val.toNat = 102 := rfl
      have hlarge : 'F'.val.toNat = 70 := rfl
      split_ifs at h <;> omega
    rw [← Char.ofNat_toNat c] at h ⊢
    exact hdigit c.toNat hc n h

theorem code_of_readHex {n : Nat} (h : readHex text = .ok (n, rest)) : Code text n rest := by
  have hdigit {p : Piece} {w : Nat} (hp : hexValue? p = some w) :
      ∃ c, p = .char c ∧ (c, w) ∈ hexDigits := by
    cases p with
    | char c => exact ⟨c, rfl, mem_hexDigits_iff.mpr hp⟩
    | stray bs => exact nomatch hp
  unfold readHex at h
  dsimp only at h
  split at h
  · exact nomatch h
  · split at h
    · split at h
      · next ha hb hc hd =>
          obtain ⟨rfl, rfl⟩ := Prod.mk.inj (Except.ok.inj h)
          obtain ⟨a, rfl, hw⟩ := hdigit ha
          obtain ⟨b, rfl, hx⟩ := hdigit hb
          obtain ⟨c, rfl, hy⟩ := hdigit hc
          obtain ⟨d, rfl, hz⟩ := hdigit hd
          exact .mk hw hx hy hz
      · exact nomatch h
    · exact nomatch h

theorem Code.lt {n : Nat} (h : Code text n rest) : n < 0x10000 := by
  have hlt : ∀ p ∈ hexDigits, p.2 < 16 := by decide
  cases h with
  | mk ha hb hc hd =>
      have hw := hlt _ ha
      have hx := hlt _ hb
      have hy := hlt _ hc
      have hz := hlt _ hd
      dsimp only at hw hx hy hz
      omega

theorem toNat_ofNat {n : Nat} (h : n.isValidChar) : (Char.ofNat n).toNat = n := by
  rw [Char.ofNat, dif_pos h]
  rfl

theorem escape_of_readLowSurrogate {c : Char} {high : Nat} {s : Text}
    (hcode : Code s high text) (hhigh : isHighSurrogate high = true)
    (h : readLowSurrogate high text = .ok (c, rest)) : Escape (.char 'u' :: s) c rest := by
  unfold readLowSurrogate at h
  split at h
  · exact nomatch h
  · split at h
    · exact nomatch h
    · split at h
      · exact nomatch h
      · next low after hhex =>
          split at h
          · next hlow =>
              obtain ⟨rfl, rfl⟩ := Prod.mk.inj (Except.ok.inj h)
              simp only [isHighSurrogate, isLowSurrogate, Bool.and_eq_true,
                decide_eq_true_eq] at hhigh hlow
              have hvalid : (0x10000 + (high - 0xd800) * 0x400 + (low - 0xdc00)).isValidChar :=
                .inr ⟨by omega, by omega⟩
              have htoNat := toNat_ofNat hvalid
              exact .pair (by omega) (by omega) (by omega) hcode (code_of_readHex hhex)
          · exact nomatch h
    · exact nomatch h
  · exact nomatch h

theorem escape_of_readEscape {c : Char} (h : readEscape text = .ok (c, rest)) :
    Escape text c rest := by
  have hletter {name d : Char} {t : Text} (hmem : (name, d) ∈ escapeLetters)
      (h : Except.ok (d, t) = (Except.ok (c, rest) : Except Fault (Char × Text))) :
      Escape (.char name :: t) c rest := by
    obtain ⟨rfl, rfl⟩ := Prod.mk.inj (Except.ok.inj h)
    exact .letter hmem
  unfold readEscape at h
  split at h
  case h_1 => exact nomatch h
  case h_10 =>
    split at h
    · exact nomatch h
    · next n after hhex =>
        have hcode := code_of_readHex hhex
        split at h
        · exact nomatch h
        · next hlow =>
            split at h
            · next hhigh => exact escape_of_readLowSurrogate hcode hhigh h
            · next hhigh =>
                obtain ⟨rfl, rfl⟩ := Prod.mk.inj (Except.ok.inj h)
                simp only [isHighSurrogate, isLowSurrogate, Bool.and_eq_true,
                  decide_eq_true_eq] at hhigh hlow
                have hlt := hcode.lt
                have hvalid : n.isValidChar := by
                  by_cases h : n < 0xd800
                  · exact .inl h
                  · exact .inr ⟨by omega, by omega⟩
                exact .code ((toNat_ofNat hvalid).symm ▸ hcode)
  case h_11 => exact nomatch h
  all_goals exact hletter (by decide) h

/-- A string in which bytes spell no character is refused. -/
theorem chars_of_readChars {bad : Option Nat} {cs : List Char}
    (h : readChars bad text = .ok (cs, rest)) : bad = none ∧ Chars text cs rest := by
  fun_induction readChars bad text generalizing cs with
  | case1 => exact nomatch h
  | case2 bad bs text ih => exact nomatch (ih h).1
  | case3 text =>
      obtain ⟨rfl, rfl⟩ := Prod.mk.inj (Except.ok.inj h)
      exact ⟨rfl, .quote⟩
  | case4 => exact nomatch h
  | case5 => exact nomatch h
  | case6 bad text d after hescape hlength _ ih =>
      obtain ⟨⟨ds, behind⟩, hread, heq⟩ := exists_of_map_ok h
      obtain ⟨rfl, rfl⟩ := Prod.mk.inj heq
      obtain ⟨hbad, hchars⟩ := ih hread
      exact ⟨by simpa using hbad, .escape (escape_of_readEscape hescape) hchars⟩
  | case7 => exact nomatch h
  | case8 bad c text hquote hslash hcontrol ih =>
      obtain ⟨⟨ds, behind⟩, hread, heq⟩ := exists_of_map_ok h
      obtain ⟨rfl, rfl⟩ := Prod.mk.inj heq
      obtain ⟨hbad, hchars⟩ := ih hread
      exact ⟨by simpa using hbad, .plain hquote hslash (Char.not_lt.mp hcontrol) hchars⟩

theorem chars_of_readString {s : String} (h : readString text = .ok (s, rest)) :
    Chars text s.toList rest := by
  obtain ⟨⟨cs, after⟩, hread, heq⟩ := exists_of_map_ok h
  obtain ⟨rfl, rfl⟩ := Prod.mk.inj heq
  rw [String.toList_ofList]
  exact (chars_of_readChars hread).2

/-! ## Documents -/

theorem scalar_of_number {negative : Bool} {s : Text} {v : Json} (hminus : Minus text negative s)
    (h : (readNumber negative s).map (fun (n, rest) ↦ (Json.num n, rest)) = .ok (v, rest)) :
    Scalar text v rest := by
  obtain ⟨⟨n, after⟩, hnumeral, heq⟩ := exists_of_map_ok h
  obtain ⟨rfl, rfl⟩ := Prod.mk.inj heq
  exact .num (isNumeral_of_readNumber hminus hnumeral)

theorem scalar_of_readScalar {v : Json} (h : readScalar text = .ok (v, rest)) :
    Scalar text v rest := by
  have hword {cs : List Char} {w : Json} {s : Text}
      (hread : (readWord cs s).map (fun rest ↦ (w, rest)) = .ok (v, rest)) :
      s = spelled cs ++ rest ∧ w = v := by
    obtain ⟨after, hword, heq⟩ := exists_of_map_ok hread
    obtain ⟨rfl, rfl⟩ := Prod.mk.inj heq
    exact ⟨eq_of_readWord hword, rfl⟩
  unfold readScalar at h
  split at h
  case h_1 => cases h
  case h_2 =>
    obtain ⟨rfl, rfl⟩ := hword h
    exact .null
  case h_3 =>
    obtain ⟨rfl, rfl⟩ := hword h
    exact .isTrue
  case h_4 =>
    obtain ⟨rfl, rfl⟩ := hword h
    exact .isFalse
  case h_5 =>
    obtain ⟨⟨s, after⟩, hread, heq⟩ := exists_of_map_ok h
    obtain ⟨rfl, rfl⟩ := Prod.mk.inj heq
    exact .str (chars_of_readString hread)
  case h_6 => exact scalar_of_number .minus h
  case h_7 =>
    split at h
    · exact scalar_of_number .none h
    · cases h
  case h_8 => cases h

section Containers

variable {α : Type} {item : Text → Except Fault (α × Text)} {R : Text → α → Text → Prop}

theorem nextItem_cases {manner : Manner} {start more : Bool} {after : Text}
    (h : nextItem manner start text = .ok (more, after)) :
    more = false ∧ (∃ t, after = .char ']' :: t) ∧ White text after ∨
      more = true ∧ (start = true ∧ White text after ∨
        start = false ∧ ∃ s, White text (.char ',' :: s) ∧ White s after) := by
  unfold nextItem at h
  split at h
  · exact nomatch h
  · next hskip =>
      obtain ⟨rfl, rfl⟩ := Prod.mk.inj (Except.ok.inj h)
      exact .inl ⟨rfl, ⟨_, rfl⟩, white_of_skipSpace hskip⟩
  · next hskip =>
      split at h
      · next hstart =>
          obtain ⟨rfl, rfl⟩ := Prod.mk.inj (Except.ok.inj h)
          exact .inr ⟨rfl, .inl ⟨hstart, white_of_skipSpace hskip⟩⟩
      · next hstart =>
          split at h
          · next hcomma =>
              subst hcomma
              split at h
              · exact nomatch h
              · exact nomatch h
              · obtain ⟨rfl, rfl⟩ := Prod.mk.inj (Except.ok.inj h)
                exact .inr ⟨rfl, .inr ⟨by simpa using hstart, _, white_of_skipSpace hskip,
                  white_skipSpace _⟩⟩
          · exact nomatch h

/-- What a container goes on with: the bracket at its end, or its further items, behind a comma
unless they are its first. -/
inductive Onward (R : Text → α → Text → Prop) (right : Char) :
    Bool → Text → List α → Text → Prop
  | done {start : Bool} {s t : Text} (hgap : White s (.char right :: t)) :
    Onward R right start s [] t
  | first {s t : Text} {as : List α} (h : Series R right s as t) : Onward R right true s as t
  | further {s s' t : Text} {as : List α} (hgap : White s (.char ',' :: s'))
    (h : Series R right s' as t) : Onward R right false s as t

theorem Onward.enclosed {right : Char} {as : List α} (h : Onward R right true text as rest) :
    Enclosed R right text as rest := by
  cases h with
  | done hgap => exact .none hgap
  | first h => exact .some h

/-- An item and what the container goes on with behind it. -/
theorem Onward.series {right : Char} {s s' after : Text} {a : α} {as : List α}
    (hgap : White s s') (ha : R s' a after) (h : Onward R right false after as rest) :
    Series R right s (a :: as) rest := by
  cases h with
  | done hgap' => exact .last hgap ha hgap'
  | further hgap' h => exact .more hgap ha hgap' h

theorem onward_of_readItems
    (hitem : ∀ {s a t}, item s = .ok (a, t) → ∃ s', White s s' ∧ R s' a t) {manner : Manner}
    {fuel : Nat} {start : Bool} {as : List α}
    (h : readItems manner item fuel start text = .ok (as, rest)) :
    Onward R ']' start text as rest := by
  induction fuel generalizing start text as with
  | zero => exact nomatch h
  | succ fuel ih =>
      obtain ⟨⟨more, after⟩, hnext, h⟩ := exists_of_bind_ok h
      obtain ⟨rfl, ⟨t, rfl⟩, hgap⟩ | ⟨rfl, hmore⟩ := nextItem_cases hnext
      · obtain ⟨rfl, rfl⟩ := Prod.mk.inj (Except.ok.inj h)
        exact .done hgap
      · obtain ⟨⟨a, behind⟩, hread, h⟩ := exists_of_bind_ok h
        obtain ⟨⟨as, after'⟩, hrest, h⟩ := exists_of_bind_ok h
        obtain ⟨rfl, rfl⟩ := Prod.mk.inj (Except.ok.inj h)
        obtain ⟨s', hwhite, ha⟩ := hitem hread
        obtain ⟨rfl, hgap⟩ | ⟨rfl, s, hcomma, hgap⟩ := hmore
        · exact .first (Onward.series (hgap.trans hwhite) ha (ih hrest))
        · exact .further hcomma (Onward.series (hgap.trans hwhite) ha (ih hrest))

/-- Where a key is due, a quotation mark is next. -/
theorem quote_of_key {s after : Text} {more : Bool} (h : (match s with
      | .char '"' :: rest => .ok (true, .char '"' :: rest)
      | s => .error (peeked .keyNotString s) : Except Fault (Bool × Text)) = .ok (more, after)) :
    more = true ∧ s = after ∧ ∃ t, after = .char '"' :: t := by
  split at h
  · obtain ⟨rfl, rfl⟩ := Prod.mk.inj (Except.ok.inj h)
    exact ⟨rfl, rfl, _, rfl⟩
  · cases h

theorem nextKey_cases {manner : Manner} {start more : Bool} {after : Text}
    (h : nextKey manner start text = .ok (more, after)) :
    more = false ∧ (∃ t, after = .char '\x7d' :: t) ∧ White text after ∨
      more = true ∧ (∃ t, after = .char '"' :: t) ∧ (start = true ∧ White text after ∨
        start = false ∧ ∃ s, White text (.char ',' :: s) ∧ White s after) := by
  unfold nextKey at h
  dsimp only at h
  split at h
  · cases h
  · next hskip =>
      obtain ⟨rfl, rfl⟩ := Prod.mk.inj (Except.ok.inj h)
      exact .inl ⟨rfl, ⟨_, rfl⟩, white_of_skipSpace hskip⟩
  · next hskip =>
      split at h
      · next hstart =>
          obtain ⟨rfl, rfl, hkey⟩ := quote_of_key h
          exact .inr ⟨rfl, hkey, .inl ⟨hstart, white_of_skipSpace hskip⟩⟩
      · next hstart =>
          split at h
          · next hcomma =>
              subst hcomma
              split at h
              · cases h
              · cases h
              · obtain ⟨rfl, rfl, hkey⟩ := quote_of_key h
                exact .inr ⟨rfl, hkey, .inr ⟨by simpa using hstart, _, white_of_skipSpace hskip,
                  white_skipSpace _⟩⟩
          · cases h

theorem white_of_readColon (h : readColon text = .ok rest) : White text (.char ':' :: rest) := by
  unfold readColon at h
  split at h
  · exact nomatch h
  · next hskip =>
      obtain rfl := Except.ok.inj h
      exact white_of_skipSpace hskip
  · exact nomatch h

theorem onward_of_readMembers
    (hvalue : ∀ {s a t}, item s = .ok (a, t) → ∃ s', White s s' ∧ R s' a t) {manner : Manner}
    {fuel : Nat} {start : Bool} {members : List (String × α)}
    (h : readMembers manner readString item fuel start text = .ok (members, rest)) :
    Onward (Entry R) '\x7d' start text members rest := by
  induction fuel generalizing start text members with
  | zero => exact nomatch h
  | succ fuel ih =>
      obtain ⟨⟨more, after⟩, hnext, h⟩ := exists_of_bind_ok h
      obtain ⟨rfl, ⟨t, rfl⟩, hgap⟩ | ⟨rfl, ⟨t, rfl⟩, hmore⟩ := nextKey_cases hnext
      · obtain ⟨rfl, rfl⟩ := Prod.mk.inj (Except.ok.inj h)
        exact .done hgap
      · obtain ⟨⟨key, colon⟩, hkey, h⟩ := exists_of_bind_ok h
        obtain ⟨behind, hcolon, h⟩ := exists_of_bind_ok h
        obtain ⟨⟨a, after⟩, hread, h⟩ := exists_of_bind_ok h
        obtain ⟨⟨members, after'⟩, hrest, h⟩ := exists_of_bind_ok h
        obtain ⟨rfl, rfl⟩ := Prod.mk.inj (Except.ok.inj h)
        obtain ⟨s', hwhite, ha⟩ := hvalue hread
        have hentry : Entry R (.char '"' :: t) (key, a) after :=
          .mk (chars_of_readString hkey) (white_of_readColon hcolon) hwhite ha
        obtain ⟨rfl, hgap⟩ | ⟨rfl, s, hcomma, hgap⟩ := hmore
        · exact .first (Onward.series hgap hentry (ih hrest))
        · exact .further hcomma (Onward.series hgap hentry (ih hrest))

end Containers

theorem spelled_of_scalar {depth : Nat} {v : Json} (h : Scalar text v rest) :
    Spelled depth text v rest := by
  cases depth with
  | zero => exact h
  | succ depth => exact .inl h

theorem spelled_of_readAs {depth : Nat} {v : Json} (h : readAs obj depth text = .ok (v, rest)) :
    ∃ s, White text s ∧ Spelled depth s v rest := by
  induction depth generalizing text rest v with
  | zero =>
      obtain ⟨s, hopen⟩ | ⟨s, hopen⟩ | ⟨hlist, hobject⟩ := opening_cases (skipSpace text)
      · exact nomatch (readAs_tooDeep (.inl rfl) hopen).symm.trans h
      · exact nomatch (readAs_tooDeep (.inr rfl) hopen).symm.trans h
      · rw [readAs_scalar hlist hobject] at h
        exact ⟨skipSpace text, white_skipSpace text, scalar_of_readScalar h⟩
  | succ depth ih =>
      obtain ⟨s, hopen⟩ | ⟨s, hopen⟩ | ⟨hlist, hobject⟩ := opening_cases (skipSpace text)
      · rw [readAs_list hopen] at h
        obtain ⟨⟨items, after⟩, hread, heq⟩ := exists_of_map_ok h
        obtain ⟨rfl, rfl⟩ := Prod.mk.inj heq
        have hitems : Onward (Spelled depth) ']' true s items after := onward_of_readItems ih hread
        exact ⟨_, white_of_skipSpace hopen, .inr (.inl ⟨s, items, rfl, rfl, hitems.enclosed⟩)⟩
      · rw [readAs_object hopen] at h
        obtain ⟨⟨members, after⟩, hread, heq⟩ := exists_of_map_ok h
        obtain ⟨rfl, rfl⟩ := Prod.mk.inj heq
        have hmembers : Onward (Entry (Spelled depth)) '\x7d' true s members after :=
          onward_of_readMembers ih hread
        exact ⟨_, white_of_skipSpace hopen,
          .inr (.inr ⟨s, members, rfl, rfl, hmembers.enclosed⟩)⟩
      · rw [readAs_scalar hlist hobject] at h
        exact ⟨skipSpace text, white_skipSpace text, .inl (scalar_of_readScalar h)⟩

theorem encodeChars_of_pieces {bytes : Bytes} {cs : List Char}
    (h : Utf8.pieces bytes = spelled cs) : Utf8.encodeChars cs = bytes := by
  have hdecode : Utf8.decode? bytes = some (String.ofList cs) := by
    rw [Utf8.decode?, h, spelled, Utf8.mapM_char]
    rfl
  exact (Utf8.encode_ofList cs).symm.trans (Utf8.decode?_eq_some_iff.mp hdecode)

theorem denotes_of_readDocument {bytes : Bytes} {doc : Json} (h : readDocument bytes = .ok doc) :
    Denotes bytes doc := by
  obtain ⟨⟨v, rest⟩, hread, hfinish⟩ := exists_of_bind_ok h
  obtain rfl := eq_of_finish hfinish
  have hrest : White rest [] := by
    simp only [finish] at hfinish
    split at hfinish
    · next hskip => exact white_of_skipSpace hskip
    · cases hfinish
  obtain ⟨s, hwhite, hspelled⟩ := spelled_of_readAs hread
  obtain ⟨cs, hcs⟩ := (hwhite.front.trans hspelled.front).trans hrest.front
  rw [List.append_nil] at hcs
  exact ⟨cs, s, rest, encodeChars_of_pieces hcs, hcs ▸ hwhite, hspelled, hrest⟩

end TopicView.Json
