import TopicView.Text.Numeral

/-!
# Written numerals

A written numeral consists of digits, has no zero in front unless it is zero, and spells the number
it was written for.  The strict reading of a bounded word takes it back.
-/

namespace TopicView.Numeral

theorem isDigit_digitChar : ∀ d < 10, isDigit (digitChar d) = true := by decide

theorem digitValue_digitChar : ∀ d < 10, digitValue (digitChar d) = d := by decide

theorem hexValue?_hexDigit : ∀ d < 16, hexValue? (hexDigit d) = some d := by decide

/-! ## Numerals -/

theorem ofNat_zero : ofNat 0 = ['0'] := by
  rw [ofNat]
  rfl

theorem value_concat (digits : List Char) (d : Char) :
    value (digits ++ [d]) = value digits * 10 + digitValue d := List.foldl_append

theorem value_ofNat (n : Nat) : value (ofNat n) = n := by
  induction n using ofNat.induct with
  | case1 n h =>
      rw [ofNat, dif_pos h]
      exact (Nat.zero_add _).trans (digitValue_digitChar n h)
  | case2 n h ih =>
      rw [ofNat, dif_neg h, value_concat, ih, digitValue_digitChar _ (Nat.mod_lt n (by decide))]
      exact Nat.div_add_mod' n 10

theorem isDigit_of_mem_ofNat {n : Nat} {c : Char} (h : c ∈ ofNat n) : isDigit c = true := by
  induction n using ofNat.induct with
  | case1 n hlt =>
      rw [ofNat, dif_pos hlt] at h
      exact List.mem_singleton.mp h ▸ isDigit_digitChar n hlt
  | case2 n hge ih =>
      rw [ofNat, dif_neg hge, List.mem_append, List.mem_singleton] at h
      obtain h | rfl := h
      · exact ih h
      · exact isDigit_digitChar _ (Nat.mod_lt n (by decide))

theorem ofNat_ne_nil (n : Nat) : ofNat n ≠ [] := by
  rw [ofNat]
  split
  · exact List.cons_ne_nil _ _
  · exact List.append_ne_nil_of_right_ne_nil _ (List.cons_ne_nil _ _)

/-- Only the numeral of zero begins with a zero. -/
theorem eq_zero_of_head_ofNat {n : Nat} {digits : List Char} (h : ofNat n = '0' :: digits) :
    n = 0 := by
  induction n using ofNat.induct generalizing digits with
  | case1 n hlt =>
      rw [ofNat, dif_pos hlt, List.cons.injEq] at h
      exact (digitValue_digitChar n hlt).symm.trans (congrArg digitValue h.1)
  | case2 n hge ih =>
      obtain ⟨c, cs, hcs⟩ := List.exists_cons_of_ne_nil (ofNat_ne_nil (n / 10))
      rw [ofNat, dif_neg hge, hcs, List.cons_append, List.cons.injEq] at h
      have hzero := ih (h.1 ▸ hcs)
      omega

theorem ofNat_eq_toDigits (n : Nat) : ofNat n = Nat.toDigits 10 n := by
  have hchar : ∀ d < 10, digitChar d = Nat.digitChar d := by decide
  induction n using ofNat.induct with
  | case1 n h => rw [ofNat, dif_pos h, Nat.toDigits_of_lt_base h, hchar n h]
  | case2 n h ih =>
      rw [ofNat, dif_neg h, ih, Nat.toDigits_of_base_le (by decide) (Nat.not_lt.mp h),
        hchar _ (Nat.mod_lt n (by decide))]

theorem text_eq_toString (v : Int) : text v = toString v := by
  cases v with
  | ofNat n =>
      rw [text, ofInt, ofNat_eq_toDigits]
      rfl
  | negSucc n =>
      rw [text, ofInt, ofNat_eq_toDigits]
      exact @String.ofList_append ['-'] _

theorem toList_text (v : Int) : (text v).toList = ofInt v := String.toList_ofList

/-! ## Numerals taken back -/

theorem le_foldl_digits (n : Nat) (digits : List Char) :
    n ≤ digits.foldl (fun n d ↦ n * 10 + digitValue d) n := by
  induction digits generalizing n with
  | nil => exact Nat.le_refl n
  | cons d digits ih => exact Nat.le_trans (by omega) (ih (n * 10 + digitValue d))

theorem below_digits {bound : Nat} {high : Fault} {digits : List Char}
    (hdigits : ∀ d ∈ digits, isDigit d = true) {n : Nat}
    (h : digits.foldl (fun n d ↦ n * 10 + digitValue d) n < bound) :
    below bound high n digits = .ok (digits.foldl (fun n d ↦ n * 10 + digitValue d) n) := by
  induction digits generalizing n with
  | nil => rfl
  | cons d digits ih =>
      have hless : n * 10 + digitValue d < bound :=
        Nat.lt_of_le_of_lt (le_foldl_digits _ digits) h
      rw [below, hdigits d List.mem_cons_self, if_neg (by decide), if_neg (Nat.not_le.mpr hless)]
      exact ih (fun c hc ↦ hdigits c (List.mem_cons_of_mem d hc)) h

theorem below_ofNat {bound n : Nat} {high : Fault} (h : n < bound) :
    below bound high 0 (ofNat n) = .ok n := by
  have hvalue : value (ofNat n) < bound := by rwa [value_ofNat]
  exact (below_digits (fun _ hd ↦ isDigit_of_mem_ofNat hd) hvalue).trans
    (congrArg Except.ok (value_ofNat n))

theorem signed_digits (bound : Nat) {d : Char} (digits : List Char) (h : isDigit d = true) :
    signed bound (d :: digits) = (below bound .tooLarge 0 (d :: digits)).map Int.ofNat := by
  unfold signed
  split <;> first | rfl | simp_all [isDigit]

/-- The numeral of a number within the bounds of a word is read as that number. -/
theorem signed_ofInt {bound : Nat} {v : Int} (hlow : -(bound : Int) ≤ v) (hhigh : v < bound) :
    signed bound (ofInt v) = .ok v := by
  cases v with
  | ofNat n =>
      obtain ⟨d, digits, hdigits⟩ := List.exists_cons_of_ne_nil (ofNat_ne_nil n)
      have hd : isDigit d = true := isDigit_of_mem_ofNat (hdigits ▸ List.mem_cons_self)
      rw [ofInt, hdigits, signed_digits bound digits hd, ← hdigits,
        below_ofNat (Int.ofNat_lt.mp hhigh)]
      rfl
  | negSucc n =>
      obtain ⟨d, digits, hdigits⟩ := List.exists_cons_of_ne_nil (ofNat_ne_nil (n + 1))
      rw [ofInt, hdigits, signed, ← hdigits, below_ofNat (by omega)]
      rfl

end TopicView.Numeral
