import Mathlib.Tactic.IntervalCases
import TopicView.Text.Utf8

/-!
# Characters and their bytes

The bytes that spell characters are cut into just these characters.
-/

namespace TopicView.Utf8

theorem begun?_two {k : Nat} (h : 2 ≤ k) (h' : k < 32) : begun? (UInt8.ofNat (k + 192)) =
    some ⟨[UInt8.ofNat (k + 192)], k, 1, 0x80, 0xbf⟩ := by
  interval_cases k <;> rfl

/-- Behind `e0` and `ed` the window is narrower. -/
theorem begun?_three {k : Nat} (h : k < 16) : begun? (UInt8.ofNat (k + 224)) =
    some ⟨[UInt8.ofNat (k + 224)], k, 2, if k = 0 then 0xa0 else 0x80,
      if k = 13 then 0x9f else 0xbf⟩ := by
  interval_cases k <;> rfl

/-- Behind `f0` and `f4` as well. -/
theorem begun?_four {k : Nat} (h : k < 5) : begun? (UInt8.ofNat (k + 240)) =
    some ⟨[UInt8.ofNat (k + 240)], k, 3, if k = 0 then 0x90 else 0x80,
      if k = 4 then 0x8f else 0xbf⟩ := by
  interval_cases k <;> rfl

/-! ## The scan -/

theorem scan_single {n : Nat} (h : n < 128) (rest : Bytes) :
    scan none (UInt8.ofNat n :: rest) = .char (Char.ofNat n) :: scan none rest := by
  have htoNat : (UInt8.ofNat n).toNat = n := UInt8.toNat_ofNat_of_lt' (Nat.lt_trans h (by decide))
  have hlt : UInt8.ofNat n < 0x80 := by
    rw [UInt8.lt_iff_toNat_lt, htoNat]
    exact h
  simp only [scan, first, if_pos hlt, htoNat]

theorem scan_first {n : Nat} (h : 128 ≤ n) (h' : n < 256) {p : Begun}
    (hbegun : begun? (UInt8.ofNat n) = some p) (rest : Bytes) :
    scan none (UInt8.ofNat n :: rest) = scan (some p) rest := by
  have htoNat : (UInt8.ofNat n).toNat = n := UInt8.toNat_ofNat_of_lt' h'
  have hge : ¬ UInt8.ofNat n < 0x80 := by
    rw [UInt8.lt_iff_toNat_lt, htoNat]
    exact Nat.not_lt.mpr h
  simp only [scan, first, if_neg hge, hbegun]

section Owed

variable {p : Begun} {n : Nat} (hlow : p.low.toNat ≤ n + 128) (hhigh : n + 128 ≤ p.high.toNat)

include hlow hhigh

theorem admits_and_push : p.admits (UInt8.ofNat (n + 128)) = true ∧
    p.push (UInt8.ofNat (n + 128)) =
      ⟨p.bytes ++ [UInt8.ofNat (n + 128)], p.code * 64 + n, p.owed - 1, 0x80, 0xbf⟩ := by
  have htoNat : (UInt8.ofNat (n + 128)).toNat = n + 128 :=
    UInt8.toNat_ofNat_of_lt' (Nat.lt_of_le_of_lt hhigh p.high.toNat_lt)
  constructor
  · rw [Begun.admits, Bool.and_eq_true, decide_eq_true_iff, decide_eq_true_iff,
      UInt8.le_iff_toNat_le, UInt8.le_iff_toNat_le, htoNat]
    exact ⟨hlow, hhigh⟩
  · rw [Begun.push, htoNat, Nat.add_sub_cancel]

/-- A byte in the window, with more to come. -/
theorem scan_next (howed : 1 < p.owed) (rest : Bytes) :
    scan (some p) (UInt8.ofNat (n + 128) :: rest) =
      scan (some ⟨p.bytes ++ [UInt8.ofNat (n + 128)], p.code * 64 + n, p.owed - 1, 0x80, 0xbf⟩)
        rest := by
  obtain ⟨hadmits, hpush⟩ := admits_and_push hlow hhigh
  simp only [scan, if_pos hadmits, if_neg (Nat.not_le.mpr howed), hpush]

/-- The last byte owed. -/
theorem scan_last (howed : p.owed ≤ 1) (rest : Bytes) :
    scan (some p) (UInt8.ofNat (n + 128) :: rest) =
      .char (Char.ofNat (p.code * 64 + n)) :: scan none rest := by
  obtain ⟨hadmits, hpush⟩ := admits_and_push hlow hhigh
  simp only [scan, if_pos hadmits, if_pos howed, hpush]

end Owed

/-! ## Whole characters -/

theorem scan_two {v : Nat} (h : 0x80 ≤ v) (h' : v < 0x800) (rest : Bytes) :
    scan none (UInt8.ofNat (v / 64 % 32 + 192) :: UInt8.ofNat (v % 64 + 128) :: rest) =
      .char (Char.ofNat v) :: scan none rest := by
  have hbegun := begun?_two (k := v / 64 % 32) (by omega) (by omega)
  have hlow : (0x80 : UInt8).toNat ≤ v % 64 + 128 := Nat.le_add_left _ _
  have hhigh : v % 64 + 128 ≤ (0xbf : UInt8).toNat := show v % 64 + 128 ≤ 0xbf by omega
  have hcode : v / 64 % 32 * 64 + v % 64 = v := by omega
  rw [scan_first (by omega) (by omega) hbegun, scan_last hlow hhigh (Nat.le_refl 1), hcode]

/-- The second byte keeps its window because the code is neither overlong nor a surrogate. -/
theorem scan_three {v : Nat} (h : 0x800 ≤ v) (h' : v < 0x10000)
    (hvalid : v < 0xd800 ∨ 0xdfff < v) (rest : Bytes) :
    scan none (UInt8.ofNat (v / 4096 % 16 + 224) :: UInt8.ofNat (v / 64 % 64 + 128) ::
      UInt8.ofNat (v % 64 + 128) :: rest) = .char (Char.ofNat v) :: scan none rest := by
  have hbegun := begun?_three (k := v / 4096 % 16) (by omega)
  have hlow : (if v / 4096 % 16 = 0 then 0xa0 else 0x80 : UInt8).toNat ≤ v / 64 % 64 + 128 := by
    split
    · exact show 0xa0 ≤ v / 64 % 64 + 128 by omega
    · exact Nat.le_add_left _ _
  have hhigh : v / 64 % 64 + 128 ≤ (if v / 4096 % 16 = 13 then 0x9f else 0xbf : UInt8).toNat := by
    split
    · exact show v / 64 % 64 + 128 ≤ 0x9f by omega
    · exact show v / 64 % 64 + 128 ≤ 0xbf by omega
  have hlow' : (0x80 : UInt8).toNat ≤ v % 64 + 128 := Nat.le_add_left _ _
  have hhigh' : v % 64 + 128 ≤ (0xbf : UInt8).toNat := show v % 64 + 128 ≤ 0xbf by omega
  have hcode : (v / 4096 % 16 * 64 + v / 64 % 64) * 64 + v % 64 = v := by omega
  rw [scan_first (by omega) (by omega) hbegun, scan_next hlow hhigh Nat.one_lt_two,
    scan_last hlow' hhigh' (Nat.le_refl 1), hcode]

/-- The second byte keeps its window because the code is neither overlong nor too large. -/
theorem scan_four {v : Nat} (h : 0x10000 ≤ v) (h' : v < 0x110000) (rest : Bytes) :
    scan none (UInt8.ofNat (v / 262144 % 8 + 240) :: UInt8.ofNat (v / 4096 % 64 + 128) ::
      UInt8.ofNat (v / 64 % 64 + 128) :: UInt8.ofNat (v % 64 + 128) :: rest) =
      .char (Char.ofNat v) :: scan none rest := by
  have hbegun := begun?_four (k := v / 262144 % 8) (by omega)
  have hlow : (if v / 262144 % 8 = 0 then 0x90 else 0x80 : UInt8).toNat ≤ v / 4096 % 64 + 128 := by
    split
    · exact show 0x90 ≤ v / 4096 % 64 + 128 by omega
    · exact Nat.le_add_left _ _
  have hhigh : v / 4096 % 64 + 128 ≤ (if v / 262144 % 8 = 4 then 0x8f else 0xbf : UInt8).toNat := by
    split
    · exact show v / 4096 % 64 + 128 ≤ 0x8f by omega
    · exact show v / 4096 % 64 + 128 ≤ 0xbf by omega
  have hlow' (n : Nat) : (0x80 : UInt8).toNat ≤ n + 128 := Nat.le_add_left _ _
  have hhigh' (n : Nat) : n % 64 + 128 ≤ (0xbf : UInt8).toNat :=
    show n % 64 + 128 ≤ 0xbf by omega
  have hcode : ((v / 262144 % 8 * 64 + v / 4096 % 64) * 64 + v / 64 % 64) * 64 + v % 64 = v := by
    omega
  rw [scan_first (by omega) (by omega) hbegun, scan_next hlow hhigh (show 1 < 3 by decide),
    scan_next (hlow' _) (hhigh' _) Nat.one_lt_two, scan_last (hlow' _) (hhigh' _) (Nat.le_refl 1),
    hcode]

theorem scan_encodeChar (c : Char) (rest : Bytes) :
    scan none (String.utf8EncodeChar c ++ rest) = .char c :: scan none rest := by
  obtain ⟨v, hv⟩ : ∃ v, c.val.toNat = v := ⟨_, rfl⟩
  have hvalid : v < 0xd800 ∨ 0xdfff < v ∧ v < 0x110000 := hv ▸ c.valid
  have hc : Char.ofNat v = c := hv ▸ Char.ofNat_toNat c
  simp only [String.utf8EncodeChar, hv]
  split
  · exact hc ▸ scan_single (by omega) rest
  · split
    · exact hc ▸ scan_two (by omega) (by omega) rest
    · split
      · exact hc ▸ scan_three (by omega) (by omega) (by omega) rest
      · exact hc ▸ scan_four (by omega) (by omega) rest

theorem pieces_encodeChars_append (cs : List Char) (rest : Bytes) :
    pieces (encodeChars cs ++ rest) = cs.map .char ++ pieces rest := by
  induction cs with
  | nil => rfl
  | cons c cs ih =>
      rw [encodeChars, List.flatMap_cons, List.append_assoc, pieces, scan_encodeChar,
        List.map_cons, List.cons_append]
      exact congrArg (.char c :: ·) ih

theorem pieces_encodeChars (cs : List Char) : pieces (encodeChars cs) = cs.map .char := by
  have h := pieces_encodeChars_append cs []
  rwa [List.append_nil, show pieces [] = [] from rfl, List.append_nil] at h

end TopicView.Utf8
