import TopicView.Proofs.Json.Soundness

/-!
# What is in the text is read

Where the grammar finds something at the front of a text, the reader for it returns just that,
whatever follows; behind a numeral no numeral may go on.
-/

namespace TopicView.Json

open Utf8 (Piece)

section

variable {s t : Text}

/-! ## Tokens -/

theorem skipSpace_char {c : Char} (h : isSpace c = false) (rest : Text) :
    skipSpace (.char c :: rest) = .char c :: rest := by
  rw [skipSpace, h]
  rfl

theorem White.skipSpace_eq (h : White s t) : skipSpace s = skipSpace t := by
  induction h with
  | stop => rfl
  | step hc _ ih =>
      rw [skipSpace, if_pos (by simpa [isSpace, or_assoc] using hc), ih]

theorem readWord_spelled (cs : List Char) (rest : Text) :
    readWord cs (spelled cs ++ rest) = .ok rest := by
  induction cs with
  | nil => rfl
  | cons c cs ih => rw [spelled_cons, List.cons_append, readWord, if_pos rfl, ih]

/-- A numeral does not go on here. -/
def endsNumeral : Text → Bool
  | .char c :: _ => !(Numeral.isDigit c || c = '.' || c = 'e' || c = 'E')
  | _ => true

/-- No digit comes next. -/
def NoDigit (t : Text) : Prop := ∀ c r, t = .char c :: r → Numeral.isDigit c = false

theorem noDigit_of_ends (h : endsNumeral t = true) : NoDigit t := by
  rintro c r rfl
  simp only [endsNumeral, Bool.not_or, Bool.and_eq_true] at h
  simpa using h.1.1.1

theorem spanDigits_of_noDigit (h : NoDigit t) : spanDigits t = ([], t) := by
  unfold spanDigits
  split
  · next c r => rw [h c r rfl, if_neg Bool.false_ne_true]
  · rfl

theorem isDigit_iff {d : Char} : Numeral.isDigit d = true ↔ '0' ≤ d ∧ d ≤ '9' := by
  rw [Numeral.isDigit, Bool.and_eq_true, decide_eq_true_iff, decide_eq_true_iff]

theorem Digits.spanDigits_eq {ds : List Char} (h : Digits s ds t) (ht : NoDigit t) :
    spanDigits s = (ds, t) := by
  induction h with
  | last hd => rw [spanDigits, if_pos (isDigit_iff.mpr hd), spanDigits_of_noDigit ht]
  | more hd _ ih => rw [spanDigits, if_pos (isDigit_iff.mpr hd), ih ht]

theorem Digits.head {ds : List Char} (h : Digits s ds t) : ∃ d r ds', s = .char d :: r ∧
    ds = d :: ds' ∧ Numeral.isDigit d = true := by
  cases h with
  | last hd => exact ⟨_, _, _, rfl, rfl, isDigit_iff.mpr hd⟩
  | more hd _ => exact ⟨_, _, _, rfl, rfl, isDigit_iff.mpr hd⟩

theorem Whole.readWhole_eq {ds : List Char} (h : Whole s ds t) (ht : NoDigit t) :
    readWhole s = .ok (ds, t) := by
  cases h with
  | zero => rw [readWhole, spanDigits_of_noDigit ht]
  | digits hd h =>
      obtain ⟨d, r, ds', -, rfl, -⟩ := h.head
      unfold readWhole
      split
      · next heq => exact absurd (Piece.char.inj (List.cons.inj heq).1) hd
      · rw [h.spanDigits_eq ht]

theorem Whole.head {ds : List Char} (h : Whole s ds t) :
    ∃ d r, s = .char d :: r ∧ Numeral.isDigit d = true := by
  cases h with
  | zero => exact ⟨'0', _, rfl, rfl⟩
  | digits _ h =>
      obtain ⟨d, r, -, hs, -, hd⟩ := h.head
      exact ⟨d, r, hs, hd⟩

theorem Sign.readSign_eq {negative : Bool} {s' : Text} {ds : List Char}
    (h : Sign s negative s') (hdigits : Digits s' ds t) : readSign s = (negative, s') := by
  cases h with
  | none =>
      obtain ⟨d, r, -, rfl, -, hd⟩ := hdigits.head
      unfold readSign
      split
      · next heq =>
          cases heq
          exact nomatch hd
      · next heq =>
          cases heq
          exact nomatch hd
      · rfl
  | plus => rfl
  | minus => rfl

/-- The mark of an exponent, or else what follows the numeral. -/
theorem Exponent.first {e : Option (Bool × List Char)} (h : Exponent s e t) :
    s = t ∨ ∃ mark r, s = .char mark :: r ∧ (mark = 'e' ∨ mark = 'E') := by
  cases h with
  | none => exact .inl rfl
  | digits hmark _ _ => exact .inr ⟨_, _, rfl, hmark⟩

theorem Exponent.noDigit {e : Option (Bool × List Char)} (h : Exponent s e t)
    (ht : endsNumeral t = true) : NoDigit s := by
  obtain rfl | ⟨mark, r, rfl, rfl | rfl⟩ := h.first
  · exact noDigit_of_ends ht
  · rintro c r' ⟨⟩
    rfl
  · rintro c r' ⟨⟩
    rfl

theorem Exponent.ne_point {e : Option (Bool × List Char)} (h : Exponent s e t)
    (ht : endsNumeral t = true) (r : Text) : s ≠ .char '.' :: r := by
  rintro rfl
  obtain rfl | ⟨mark, r', heq, hmark⟩ := h.first
  · exact nomatch ht
  · cases heq
    exact absurd hmark (by decide)

theorem Exponent.readExponent_eq {e : Option (Bool × List Char)} (h : Exponent s e t)
    (ht : endsNumeral t = true) : readExponent s = .ok (e, t) := by
  cases h with
  | none =>
      unfold readExponent
      split
      · next c r =>
          have hc : ¬ (c = 'e' ∨ c = 'E') := by
            rintro (rfl | rfl)
            · exact nomatch ht
            · exact nomatch ht
          rw [if_neg hc]
      · rfl
  | digits hmark hsign h =>
      obtain ⟨d, r, ds', -, rfl, -⟩ := h.head
      simp only [readExponent, if_pos hmark, hsign.readSign_eq h,
        h.spanDigits_eq (noDigit_of_ends ht)]

theorem Fraction.readFraction_eq {ds : List Char} (h : Fraction s ds t) (ht : NoDigit t)
    (hpoint : ∀ r, t ≠ .char '.' :: r) : readFraction s = .ok (ds, t) := by
  cases h with
  | none =>
      unfold readFraction
      split
      · next r => exact absurd rfl (hpoint r)
      · rfl
  | digits h =>
      obtain ⟨d, r, ds', -, rfl, -⟩ := h.head
      rw [readFraction, h.spanDigits_eq ht]

theorem Fraction.noDigit {ds : List Char} (h : Fraction s ds t) (ht : NoDigit t) : NoDigit s := by
  cases h with
  | none => exact ht
  | digits _ =>
      rintro c r ⟨⟩
      rfl

theorem readLiteral_eq {l : Literal} {s₁ s₂ : Text} (hwhole : Whole s l.whole s₁)
    (hfraction : Fraction s₁ l.fraction s₂) (hexponent : Exponent s₂ l.exponent t)
    (ht : endsNumeral t = true) : readLiteral l.negative s = .ok (l, t) := by
  have hdigit := hexponent.noDigit ht
  simp only [readLiteral, hwhole.readWhole_eq (hfraction.noDigit hdigit),
    hfraction.readFraction_eq hdigit (hexponent.ne_point ht), hexponent.readExponent_eq ht, bind,
    Except.bind, pure, Except.pure]

theorem IsNumeral.readNumber_eq {n : Number} (h : IsNumeral s n t) (ht : endsNumeral t = true) :
    ∃ negative s', Minus s negative s' ∧ (∃ d r, s' = .char d :: r ∧ Numeral.isDigit d = true) ∧
      readNumber negative s' = .ok (n, t) := by
  obtain ⟨hminus, hwhole, hfraction, hexponent, hstands⟩ := h
  refine ⟨_, _, hminus, hwhole.head, ?_⟩
  simp only [readNumber, readLiteral_eq hwhole hfraction hexponent ht,
    Literal.number_eq_ok_iff.mpr hstands, bind, Except.bind, pure, Except.pure]

/-- A numeral begins with its minus or with a digit. -/
theorem IsNumeral.head {n : Number} (h : IsNumeral s n t) :
    (∃ r, s = .char '-' :: r) ∨ ∃ d r, s = .char d :: r ∧ Numeral.isDigit d = true := by
  obtain ⟨hminus, hwhole, -⟩ := h
  generalize Literal.negative _ = negative at hminus
  cases hminus with
  | none => exact .inr hwhole.head
  | minus => exact .inl ⟨_, rfl⟩

theorem Code.readHex_eq {n : Nat} (h : Code s n t) : readHex s = .ok (n, t) := by
  cases h with
  | @mk a b c d w x y z _ ha hb hc hd =>
      have hleft : ¬ left (.char a :: .char b :: .char c :: .char d :: t) < 4 := by
        have hsize (c : Char) : 0 < c.utf8Size := c.utf8Size_pos
        have ha := hsize a
        have hb := hsize b
        have hc := hsize c
        have hd := hsize d
        simp only [left, List.foldr_cons, Piece.size]
        omega
      simp only [readHex, if_neg hleft, hexValue?, mem_hexDigits_iff.mp ha,
        mem_hexDigits_iff.mp hb, mem_hexDigits_iff.mp hc, mem_hexDigits_iff.mp hd]

theorem Escape.readEscape_eq {c : Char} (h : Escape s c t) : readEscape s = .ok (c, t) := by
  have hvalid : c.toNat < 0xd800 ∨ 0xdfff < c.toNat ∧ c.toNat < 0x110000 := c.valid
  cases h with
  | letter h =>
      simp only [escapeLetters, List.mem_cons, Prod.mk.injEq, List.not_mem_nil, or_false] at h
      obtain ⟨rfl, rfl⟩ | ⟨rfl, rfl⟩ | ⟨rfl, rfl⟩ | ⟨rfl, rfl⟩ | ⟨rfl, rfl⟩ | ⟨rfl, rfl⟩ |
        ⟨rfl, rfl⟩ | ⟨rfl, rfl⟩ := h <;> rfl
  | code h =>
      have hlow : isLowSurrogate c.toNat = false := by
        simp only [isLowSurrogate, Bool.and_eq_false_iff, decide_eq_false_iff_not]
        omega
      have hhigh : isHighSurrogate c.toNat = false := by
        simp only [isHighSurrogate, Bool.and_eq_false_iff, decide_eq_false_iff_not]
        omega
      simp only [readEscape, h.readHex_eq, hlow, hhigh, Char.ofNat_toNat]
      rfl
  | @pair _ _ _ _ high low hc hhigh hlow h h' =>
      have hhigh' : isHighSurrogate high = true := by
        simp only [isHighSurrogate, Bool.and_eq_true, decide_eq_true_iff]
        omega
      have hhigh'' : isLowSurrogate high = false := by
        simp only [isLowSurrogate, Bool.and_eq_false_iff, decide_eq_false_iff_not]
        omega
      have hlow' : isLowSurrogate low = true := by
        simp only [isLowSurrogate, Bool.and_eq_true, decide_eq_true_iff]
        omega
      have hcode : 0x10000 + (high - 0xd800) * 0x400 + (low - 0xdc00) = c.toNat := by omega
      simp only [readEscape, readLowSurrogate, h.readHex_eq, h'.readHex_eq, hhigh', hhigh'',
        hlow', hcode, Char.ofNat_toNat]
      rfl

theorem Chars.readChars_eq {cs : List Char} (h : Chars s cs t) :
    readChars none s = .ok (cs, t) := by
  induction h with
  | quote =>
      rw [readChars]
      rfl
  | plain hquote hslash hcontrol _ ih =>
      rw [readChars, if_neg hquote, if_neg hslash, if_neg (Char.not_lt.mpr hcontrol)]
      exact congrArg _ ih
  | escape hescape _ ih =>
      rw [readChars, if_neg (by decide), if_pos rfl]
      split
      · next heq => cases hescape.readEscape_eq.symm.trans heq
      · next heq =>
          obtain ⟨rfl, rfl⟩ := Prod.mk.inj (Except.ok.inj (hescape.readEscape_eq.symm.trans heq))
          exact congrArg _ ih

theorem Chars.readString_eq {v : String} (h : Chars s v.toList t) :
    readString s = .ok (v, t) := by
  rw [readString, h.readChars_eq]
  exact congrArg (fun v ↦ Except.ok (v, t)) String.ofList_toList

/-! ## Documents -/

theorem readScalar_digit {d : Char} (h : Numeral.isDigit d = true) (rest : Text) :
    readScalar (.char d :: rest) =
      (readNumber false (.char d :: rest)).map fun (n, rest) ↦ (.num n, rest) := by
  rw [readScalar, if_pos h]
  all_goals
    rintro rfl
    exact nomatch h

theorem Scalar.readScalar_eq {v : Json} (h : Scalar s v t) (ht : endsNumeral t = true) :
    readScalar s = .ok (v, t) := by
  cases h with
  | null => exact congrArg (Except.map _) (readWord_spelled ['u', 'l', 'l'] t)
  | isTrue => exact congrArg (Except.map _) (readWord_spelled ['r', 'u', 'e'] t)
  | isFalse => exact congrArg (Except.map _) (readWord_spelled ['a', 'l', 's', 'e'] t)
  | num h =>
      obtain ⟨negative, s', hminus, ⟨d, r, rfl, hd⟩, hread⟩ := h.readNumber_eq ht
      cases hminus with
      | none =>
          rw [readScalar_digit hd, hread]
          rfl
      | minus =>
          rw [readScalar, hread]
          rfl
  | str h =>
      rw [readScalar, h.readString_eq]
      rfl

/-- What begins with neither white space nor a bracket that closes an array. -/
def Begins (s : Text) : Prop := ∃ c r, s = .char c :: r ∧ isSpace c = false ∧ c ≠ ']'

theorem Begins.skipSpace_eq (h : Begins s) : skipSpace s = s := by
  obtain ⟨c, r, rfl, hspace, -⟩ := h
  exact skipSpace_char hspace r

theorem begins_digit {d : Char} (h : Numeral.isDigit d = true) (r : Text) :
    Begins (.char d :: r) := by
  have hne {c : Char} (hc : Numeral.isDigit c = false) : d ≠ c := by
    rintro rfl
    exact nomatch h.symm.trans hc
  have hblank : d ≠ ' ' := hne rfl
  have htab : d ≠ '\t' := hne rfl
  have hline : d ≠ '\n' := hne rfl
  have hreturn : d ≠ '\r' := hne rfl
  exact ⟨d, r, rfl, by simp [isSpace, hblank, htab, hline, hreturn], hne rfl⟩

theorem Scalar.begins {v : Json} (h : Scalar s v t) : Begins s := by
  cases h with
  | null => exact ⟨_, _, rfl, rfl, by decide⟩
  | isTrue => exact ⟨_, _, rfl, rfl, by decide⟩
  | isFalse => exact ⟨_, _, rfl, rfl, by decide⟩
  | num h =>
      obtain ⟨r, rfl⟩ | ⟨d, r, rfl, hd⟩ := h.head
      · exact ⟨_, _, rfl, rfl, by decide⟩
      · exact begins_digit hd r
  | str h => exact ⟨_, _, rfl, rfl, by decide⟩

/-- A scalar opens no container. -/
theorem Scalar.ne_open {v : Json} (h : Scalar s v t) (r : Text) :
    s ≠ .char '[' :: r ∧ s ≠ .char '\x7b' :: r := by
  cases h with
  | null => exact ⟨nofun, nofun⟩
  | isTrue => exact ⟨nofun, nofun⟩
  | isFalse => exact ⟨nofun, nofun⟩
  | num h =>
      obtain ⟨r, rfl⟩ | ⟨d, r, rfl, hd⟩ := h.head
      · exact ⟨nofun, nofun⟩
      · constructor
        · rintro ⟨⟩
          exact nomatch hd
        · rintro ⟨⟩
          exact nomatch hd
  | str h => exact ⟨nofun, nofun⟩

theorem Spelled.begins {depth : Nat} {v : Json} (h : Spelled depth s v t) : Begins s := by
  cases depth with
  | zero => exact Scalar.begins h
  | succ depth =>
      obtain h | ⟨s', items, rfl, -⟩ | ⟨s', members, rfl, -⟩ := h
      · exact h.begins
      · exact ⟨_, _, rfl, rfl, by decide⟩
      · exact ⟨_, _, rfl, rfl, by decide⟩

theorem White.endsNumeral_eq (h : White s t) (ht : endsNumeral t = true) :
    endsNumeral s = true := by
  induction h with
  | stop => exact ht
  | step hc _ _ => obtain rfl | rfl | rfl | rfl := hc <;> rfl

theorem White.skipSpace_cons {c : Char} (h : White s (.char c :: t)) (hc : isSpace c = false) :
    skipSpace s = .char c :: t :=
  h.skipSpace_eq.trans (skipSpace_char hc t)

theorem White.skipSpace_begins (h : White s t) (ht : Begins t) : skipSpace s = t :=
  h.skipSpace_eq.trans ht.skipSpace_eq

section Items

variable {manner : Manner} {start : Bool} {s' : Text}

theorem nextItem_end (h : White s (.char ']' :: t)) :
    nextItem manner start s = .ok (false, .char ']' :: t) := by
  simp only [nextItem, h.skipSpace_cons rfl]

theorem nextItem_first (hgap : White s s') (h : Begins s') :
    nextItem manner true s = .ok (true, s') := by
  obtain ⟨c, r, rfl, hspace, hc⟩ := h
  simp [nextItem, hgap.skipSpace_cons hspace, hc]

theorem nextItem_further {s₁ : Text} (hcomma : White s (.char ',' :: s₁)) (hgap : White s₁ s')
    (h : Begins s') : nextItem manner false s = .ok (true, s') := by
  obtain ⟨c, r, rfl, hspace, hc⟩ := h
  simp [nextItem, hcomma.skipSpace_cons rfl, hgap.skipSpace_cons hspace, hc]

theorem nextKey_end (h : White s (.char '\x7d' :: t)) :
    nextKey manner start s = .ok (false, .char '\x7d' :: t) := by
  simp only [nextKey, h.skipSpace_cons rfl]

theorem nextKey_first (hgap : White s (.char '"' :: s')) :
    nextKey manner true s = .ok (true, .char '"' :: s') := by
  simp [nextKey, hgap.skipSpace_cons rfl]

theorem nextKey_further {s₁ : Text} (hcomma : White s (.char ',' :: s₁))
    (hgap : White s₁ (.char '"' :: s')) : nextKey manner false s = .ok (true, .char '"' :: s') := by
  simp [nextKey, hcomma.skipSpace_cons rfl, hgap.skipSpace_cons rfl]

theorem readColon_eq (h : White s (.char ':' :: t)) : readColon s = .ok t := by
  simp only [readColon, h.skipSpace_cons rfl]

variable {α : Type} {R : Text → α → Text → Prop} {right : Char} {as : List α}

theorem Series.split (h : Series R right s as t) : ∃ s' a after rest, as = a :: rest ∧
    White s s' ∧ R s' a after ∧ Onward R right false after rest t := by
  cases h with
  | last hgap h hgap' => exact ⟨_, _, _, _, rfl, hgap, h, .done hgap'⟩
  | more hgap h hgap' hrest => exact ⟨_, _, _, _, rfl, hgap, h, .further hgap' hrest⟩

theorem Onward.endsNumeral_eq (h : Onward R right false s as t)
    (hright : endsNumeral (.char right :: t) = true) : endsNumeral s = true := by
  cases h with
  | done hgap => exact hgap.endsNumeral_eq hright
  | further hgap _ => exact hgap.endsNumeral_eq rfl

/-- The reader takes what the relation says, behind any white space and wherever no numeral goes
on. -/
structure Takes (read : Text → Except Fault (α × Text)) (R : Text → α → Text → Prop) : Prop where
  begins {s t : Text} {a : α} (h : R s a t) : Begins s
  read_eq {s s' t : Text} {a : α} (hgap : White s s') (h : R s' a t) (ht : endsNumeral t = true) :
    read s = .ok (a, t)

variable {read : Text → Except Fault (α × Text)} (hread : Takes read R)
include hread

theorem readItems_onward (h : Onward R ']' start s as t) {fuel : Nat} (hfuel : as.length < fuel) :
    readItems manner read fuel start s = .ok (as, t) := by
  induction fuel generalizing start s as with
  | zero => exact nomatch hfuel
  | succ fuel ih =>
      have hstep {s' : Text} (hseries : Series R ']' s' as t)
          (hnext : ∀ {s''}, White s' s'' → Begins s'' → nextItem manner start s = .ok (true, s'')) :
          readItems manner read (fuel + 1) start s = .ok (as, t) := by
        obtain ⟨s'', a, after, rest, rfl, hgap, ha, hrest⟩ := hseries.split
        have hitem := hread.read_eq .stop ha (hrest.endsNumeral_eq rfl)
        simp only [readItems, hnext hgap (hread.begins ha), hitem,
          ih hrest (Nat.lt_of_succ_lt_succ hfuel), bind, Except.bind]
        rfl
      cases h with
      | done hgap =>
          rw [readItems, nextItem_end hgap]
          rfl
      | first hseries => exact hstep hseries nextItem_first
      | further hcomma hseries => exact hstep hseries (nextItem_further hcomma)

theorem readMembers_onward {members : List (String × α)}
    (h : Onward (Entry R) '\x7d' start s members t) {fuel : Nat} (hfuel : members.length < fuel) :
    readMembers manner readString read fuel start s = .ok (members, t) := by
  induction fuel generalizing start s members with
  | zero => exact nomatch hfuel
  | succ fuel ih =>
      have hstep {s' : Text} (hseries : Series (Entry R) '\x7d' s' members t)
          (hnext : ∀ {s''}, White s' (.char '"' :: s'') →
            nextKey manner start s = .ok (true, .char '"' :: s'')) :
          readMembers manner readString read (fuel + 1) start s = .ok (members, t) := by
        obtain ⟨s'', p, after, rest, rfl, hgap, hentry, hrest⟩ := hseries.split
        obtain ⟨hkey, hcolon, hgap', ha⟩ := hentry
        have hvalue := hread.read_eq hgap' ha (hrest.endsNumeral_eq rfl)
        simp only [readMembers, hnext hgap, List.tail_cons, hkey.readString_eq,
          readColon_eq hcolon, hvalue, ih hrest (Nat.lt_of_succ_lt_succ hfuel), bind, Except.bind]
        rfl
      cases h with
      | done hgap =>
          rw [readMembers, nextKey_end hgap]
          rfl
      | first hseries => exact hstep hseries nextKey_first
      | further hcomma hseries => exact hstep hseries (nextKey_further hcomma)

end Items

theorem Enclosed.onward {α : Type} {R : Text → α → Text → Prop} {right : Char} {as : List α}
    (h : Enclosed R right s as t) : Onward R right true s as t := by
  cases h with
  | none hgap => exact .done hgap
  | some h => exact .first h

theorem readAs_of_scalar {s' : Text} {depth : Nat} {v : Json} (hgap : White s s')
    (h : Scalar s' v t) (ht : endsNumeral t = true) : readAs obj depth s = .ok (v, t) := by
  have hskip : skipSpace s = s' := hgap.skipSpace_begins h.begins
  rw [readAs_scalar, hskip, h.readScalar_eq ht]
  · exact hskip ▸ fun r ↦ (h.ne_open r).1
  · exact hskip ▸ fun r ↦ (h.ne_open r).2

theorem takes_spelled (depth : Nat) : Takes (readAs obj depth) (Spelled depth) where
  begins h := h.begins
  read_eq {s s' t v} hgap h ht := by
    induction depth generalizing s s' t v with
    | zero => exact readAs_of_scalar hgap h ht
    | succ depth ih =>
        have htakes : Takes (readAs obj depth) (Spelled depth) := ⟨fun h ↦ h.begins, ih⟩
        obtain h | ⟨r, items, rfl, rfl, h⟩ | ⟨r, members, rfl, rfl, h⟩ := h
        · exact readAs_of_scalar hgap h ht
        · have hlength := Nat.lt_succ_of_le (h.length_le Spelled.front)
          rw [readAs_list (hgap.skipSpace_cons rfl), readItems_onward htakes h.onward hlength]
          rfl
        · have hlength := Nat.lt_succ_of_le (h.length_le (Entry.front Spelled.front))
          rw [readAs_object (hgap.skipSpace_cons rfl), readMembers_onward htakes h.onward hlength]
          rfl

theorem Denotes.readDocument_eq {bytes : Bytes} {doc : Json} (h : Denotes bytes doc) :
    readDocument bytes = .ok doc := by
  obtain ⟨cs, s, t, rfl, hgap, hspelled, hrest⟩ := h
  have hread := (takes_spelled depthLimit).read_eq hgap hspelled (hrest.endsNumeral_eq rfl)
  have hskip : skipSpace t = [] := hrest.skipSpace_eq
  simp only [readDocument, Text.ofBytes, Utf8.pieces_encodeChars]
  rw [show cs.map Piece.char = spelled cs from rfl, hread]
  simp only [bind, Except.bind, finish, hskip]

end

/-- The reader reads exactly the documents that the grammar finds in the text. -/
theorem readDocument_eq_ok_iff {bytes : Bytes} {doc : Json} :
    readDocument bytes = .ok doc ↔ Denotes bytes doc :=
  ⟨denotes_of_readDocument, Denotes.readDocument_eq⟩

/-- A text denotes at most one document. -/
theorem Denotes.unique {bytes : Bytes} {doc doc' : Json} (h : Denotes bytes doc)
    (h' : Denotes bytes doc') : doc = doc' :=
  Except.ok.inj (h.readDocument_eq.symm.trans h'.readDocument_eq)

end TopicView.Json
