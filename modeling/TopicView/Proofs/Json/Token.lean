import TopicView.Proofs.Json.Completeness

/-!
# Written tokens

What is written for a string or an integer is found by the grammar as that string or integer,
whatever follows it.
-/

namespace TopicView.Json

theorem ofBytes_encode (s : String) : Text.ofBytes (Utf8.encode s) = spelled s.toList :=
  Utf8.pieces_encodeChars s.toList

theorem white_spelled {cs : List Char} (h : ∀ c ∈ cs, isSpace c = true) (t : Text) :
    White (spelled cs ++ t) t := by
  induction cs with
  | nil => exact .stop
  | cons c cs ih =>
      obtain ⟨hc, hcs⟩ := List.forall_mem_cons.mp h
      exact .step (by simpa [isSpace, or_assoc] using hc) (ih hcs)

theorem digits_spelled {ds : List Char} (hne : ds ≠ [])
    (h : ∀ d ∈ ds, Numeral.isDigit d = true) (t : Text) : Digits (spelled ds ++ t) ds t := by
  induction ds with
  | nil => exact absurd rfl hne
  | cons d ds ih =>
      obtain ⟨hd, hds⟩ := List.forall_mem_cons.mp h
      cases ds with
      | nil => exact .last (isDigit_iff.mp hd)
      | cons d' ds => exact .more (isDigit_iff.mp hd) (ih (List.cons_ne_nil _ _) hds)

theorem whole_ofNat (n : Nat) (t : Text) :
    Whole (spelled (Numeral.ofNat n) ++ t) (Numeral.ofNat n) t := by
  have hdigits := digits_spelled (Numeral.ofNat_ne_nil n)
    (fun d ↦ Numeral.isDigit_of_mem_ofNat) t
  obtain ⟨d, ds, hds⟩ := List.exists_cons_of_ne_nil (Numeral.ofNat_ne_nil n)
  by_cases hd : d = '0'
  · obtain rfl : n = 0 := Numeral.eq_zero_of_head_ofNat (hd ▸ hds)
    rw [Numeral.ofNat_zero]
    exact .zero
  · rw [hds] at hdigits ⊢
    exact .digits hd hdigits

/-- An integer of a word. -/
theorem isNumeral_ofInt {n : Int} (h : (Number.int n).Held) (t : Text) :
    IsNumeral (spelled (Numeral.ofInt n) ++ t) (.int n) t := by
  obtain ⟨hlow, hhigh⟩ := h
  have hliteral (negative : Bool) (k : Nat) {s : Text}
      (hminus : Minus s negative (spelled (Numeral.ofNat k) ++ t))
      (hint : Literal.IsInt ⟨negative, Numeral.ofNat k, [], none⟩ n) : IsNumeral s (.int n) t :=
    .mk (l := ⟨negative, Numeral.ofNat k, [], none⟩) hminus (whole_ofNat k t) .none .none
      (.int hint)
  cases n with
  | ofNat k =>
      have hint := Literal.IsInt.natural (l := ⟨false, Numeral.ofNat k, [], none⟩) rfl rfl rfl
      rw [Numeral.value_ofNat] at hint
      exact hliteral false k .none (hint (Int.ofNat_lt.mp hhigh))
  | negSucc k =>
      have hint := Literal.IsInt.negative (l := ⟨true, Numeral.ofNat (k + 1), [], none⟩) rfl rfl rfl
      rw [Numeral.value_ofNat] at hint
      have hmin : Int64.minValue.toInt = -2 ^ 63 := rfl
      exact hliteral true (k + 1) .minus (hint (Nat.succ_pos k) (by omega))

theorem chars_escapeChar (c : Char) {s t : Text} {cs : List Char} (h : Chars s cs t) :
    Chars (spelled (escapeChar c) ++ s) (c :: cs) t := by
  have hletter {name : Char} (hmem : (name, c) ∈ escapeLetters) :
      Chars (spelled ['\\', name] ++ s) (c :: cs) t := .escape (.letter hmem) h
  unfold escapeChar
  split_ifs with hquote hslash hback hfeed hline hreturn htab hcontrol
  · subst hquote
    exact hletter (by decide)
  · subst hslash
    exact hletter (by decide)
  · subst hback
    exact hletter (by decide)
  · subst hfeed
    exact hletter (by decide)
  · subst hline
    exact hletter (by decide)
  · subst hreturn
    exact hletter (by decide)
  · subst htab
    exact hletter (by decide)
  · have hcode : c.toNat < 32 := hcontrol
    have hdigit {k : Nat} (hk : k < 16) : (Numeral.hexDigit k, k) ∈ hexDigits :=
      mem_hexDigits_iff.mpr (Numeral.hexValue?_hexDigit k hk)
    have hfour := Code.mk (t := s) (hdigit (k := 0) (by decide)) (hdigit (k := 0) (by decide))
      (hdigit (k := c.toNat / 16) (by omega)) (hdigit (Nat.mod_lt c.toNat (by decide)))
    have hvalue : ((0 * 16 + 0) * 16 + c.toNat / 16) * 16 + c.toNat % 16 = c.toNat := by omega
    rw [hvalue] at hfour
    exact .escape (.code hfour) h
  · exact .plain hquote hslash (Char.not_lt.mp hcontrol) h

theorem chars_written (s : String) (t : Text) :
    Chars (spelled (s.toList.flatMap escapeChar) ++ .char '"' :: t) s.toList t := by
  induction s.toList with
  | nil => exact .quote
  | cons c cs ih =>
      rw [List.flatMap_cons, spelled_append, List.append_assoc]
      exact chars_escapeChar c ih

/-- What is written for a string is its quote and its characters. -/
theorem exists_chars_of_written (s : String) (t : Text) :
    ∃ r, spelled (writeString s) ++ t = .char '"' :: r ∧ Chars r s.toList t := by
  refine ⟨_, ?_, chars_written s t⟩
  simp [writeString]

end TopicView.Json
