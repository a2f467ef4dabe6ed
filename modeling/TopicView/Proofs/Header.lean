import TopicView.Header
import TopicView.Proofs.Text.Decoding
import TopicView.Proofs.Text.Numeral

/-!
# Three kinds of header values

Of the chain of readings only the first number ever decides: it reads four bytes, and where these
are missing the later readings find no bytes either.
-/

namespace TopicView.Header

open Utf8 (WellFormed encode)

theorem toNat_append_byte {w : Nat} (x : BitVec w) (b : UInt8) :
    (x ++ b.toBitVec).toNat = x.toNat * 256 + b.toNat := by
  have hb : b.toNat < 2 ^ 8 := b.toNat_lt
  rw [BitVec.toNat_append, UInt8.toNat_toBitVec, ← Nat.shiftLeft_add_eq_or_of_lt hb,
    Nat.shiftLeft_eq]

/-- Four bytes side by side, the first of them in front and its top bit the sign. -/
def wordOf (b₀ b₁ b₂ b₃ : UInt8) : BitVec 32 :=
  b₀.toBitVec ++ b₁.toBitVec ++ b₂.toBitVec ++ b₃.toBitVec

theorem bigEndian_four (b₀ b₁ b₂ b₃ : UInt8) :
    bigEndian [b₀, b₁, b₂, b₃] = (wordOf b₀ b₁ b₂ b₃).toNat := by
  rw [wordOf, toNat_append_byte, toNat_append_byte, toNat_append_byte, UInt8.toNat_toBitVec]
  simp only [bigEndian, List.foldl_cons, List.foldl_nil, Nat.zero_mul, Nat.zero_add]

theorem signed_bigEndian (b₀ b₁ b₂ b₃ : UInt8) :
    signed 4 (bigEndian [b₀, b₁, b₂, b₃]) = (wordOf b₀ b₁ b₂ b₃).toInt := by
  rw [signed, bigEndian_four, BitVec.toInt_eq_toNat_bmod]

/-- The word that the first four bytes make. -/
def leadingWord? : Bytes → Option (BitVec 32)
  | b₀ :: b₁ :: b₂ :: b₃ :: _ => some (wordOf b₀ b₁ b₂ b₃)
  | _ => none

theorem exists_leadingWord {bytes : Bytes} (h : 4 ≤ bytes.length) :
    ∃ w, leadingWord? bytes = some w := by
  match bytes, h with
  | b₀ :: b₁ :: b₂ :: b₃ :: _, _ => exact ⟨wordOf b₀ b₁ b₂ b₃, rfl⟩

theorem leadingWord?_take (bytes : Bytes) : leadingWord? (bytes.take 4) = leadingWord? bytes := by
  match bytes with
  | [] | [_] | [_, _] | [_, _, _] | _ :: _ :: _ :: _ :: _ => rfl

/-! ## The chain -/

/-- The text of bytes under a chain of numeric readings. -/
def renderBy (chain : List (Bytes → Option String)) (bytes : Bytes) : String :=
  match Utf8.decode? bytes with
  | some s => s
  | none => (chain.findSome? (· bytes)).getD (Utf8.lossy bytes)

/-- The reading of a signed word of four bytes. -/
def readWord (bytes : Bytes) : Option String :=
  (word? 4 bytes).map fun n ↦ Numeral.text (signed 4 n)

theorem readWord_of_leadingWord {bytes : Bytes} {w : BitVec 32} (h : leadingWord? bytes = some w) :
    readWord bytes = some (Numeral.text w.toInt) := by
  match bytes, h with
  | b₀ :: b₁ :: b₂ :: b₃ :: rest, rfl =>
      have hlength : ¬ (b₀ :: b₁ :: b₂ :: b₃ :: rest).length < 4 := by simp
      rw [readWord, word?, if_neg hlength, Option.map_some]
      exact congrArg (some ∘ Numeral.text) (signed_bigEndian b₀ b₁ b₂ b₃)

theorem word?_short {bytes : Bytes} {width : Nat} (h : bytes.length < width) :
    word? width bytes = none := if_pos h

/-- No reading is content with fewer bytes than the first. -/
theorem reading_short {bytes : Bytes} (h : bytes.length < 4) {read : Bytes → Option String}
    (hread : read ∈ readings) : read bytes = none := by
  have hfour := word?_short h
  have hwide := word?_short (Nat.lt_trans h (by decide : 4 < 8))
  simp only [readings, List.mem_cons, List.not_mem_nil, or_false] at hread
  obtain rfl | rfl | rfl | rfl := hread <;> simp only [hfour, hwide, Option.map_none]

section Chain

variable {bytes : Bytes} {chain : List (Bytes → Option String)}

theorem renderBy_text {s : String} (h : encode s = bytes) : renderBy chain bytes = s := by
  simp only [renderBy, Utf8.decode?_eq_some_iff.mpr h]

theorem renderBy_word (hill : ¬ WellFormed bytes) {w : BitVec 32}
    (hw : leadingWord? bytes = some w) :
    renderBy (readWord :: chain) bytes = Numeral.text w.toInt := by
  simp only [renderBy, Utf8.decode?_eq_none_iff.mpr hill, List.findSome?_cons,
    readWord_of_leadingWord hw, Option.getD_some]

theorem renderBy_short (hill : ¬ WellFormed bytes) (hshort : bytes.length < 4)
    (hchain : chain ⊆ readings) : renderBy chain bytes = Utf8.lossy bytes := by
  have hnone : chain.findSome? (· bytes) = none :=
    List.findSome?_eq_none_iff.mpr fun read hread ↦ reading_short hshort (hchain hread)
  simp only [renderBy, Utf8.decode?_eq_none_iff.mpr hill, hnone, Option.getD_none]

/-- No choice of readings behind the first changes a text. -/
theorem renderBy_eq_render (hchain : chain ⊆ readings) :
    renderBy (readWord :: chain) bytes = render bytes := by
  by_cases hwhole : WellFormed bytes
  · obtain ⟨s, hs⟩ := hwhole
    exact (renderBy_text hs).trans (renderBy_text hs).symm
  by_cases hshort : bytes.length < 4
  · have hall : readWord :: chain ⊆ readings := List.cons_subset.mpr ⟨List.mem_cons_self, hchain⟩
    exact (renderBy_short hwhole hshort hall).trans
      (renderBy_short hwhole hshort (List.Subset.refl readings)).symm
  · obtain ⟨w, hw⟩ := exists_leadingWord (Nat.not_lt.mp hshort)
    exact (renderBy_word hwhole hw).trans (renderBy_word hwhole hw).symm

end Chain

/-! ## The kinds -/

/-- A text is the numeral of a signed word. -/
structure IsNumeral (w : BitVec 32) (text : String) : Prop where
  decimal : text = toString w.toInt
  reads : Numeral.signed (2 ^ 31) text.toList = .ok w.toInt
  low : -2 ^ 31 ≤ w.toInt
  high : w.toInt < 2 ^ 31

theorem isNumeral_text (w : BitVec 32) : IsNumeral w (Numeral.text w.toInt) where
  decimal := Numeral.text_eq_toString w.toInt
  reads := by
    rw [Numeral.toList_text]
    exact Numeral.signed_ofInt w.le_toInt w.toInt_lt
  low := w.le_toInt
  high := w.toInt_lt

/-- What bytes are shown as: the text they spell, the numeral of their first four, or where they
are fewer what can be shown of them. -/
structure Classified (bytes : Bytes) : Prop where
  text : ∀ s, encode s = bytes → render bytes = s
  number : ¬ WellFormed bytes → 4 ≤ bytes.length →
    ∃ w, leadingWord? bytes = some w ∧ IsNumeral w (render bytes)
  short : ¬ WellFormed bytes → bytes.length < 4 →
    render bytes = Utf8.lossy bytes ∧ '\ufffd' ∈ (render bytes).toList
  /-- The later readings could as well be missing or stand in any order. -/
  later : ∀ chain ⊆ readings.tail, renderBy (readings.take 1 ++ chain) bytes = render bytes
  /-- What follows the fourth byte decides no more than whether the bytes are text. -/
  beyond : ¬ WellFormed bytes → 4 ≤ bytes.length → ∀ other, ¬ WellFormed other →
    other.take 4 = bytes.take 4 → render other = render bytes

/-- The chain shows text where the bytes are text, else the number in the first four bytes, and
only where these are missing what can be shown of the bytes, with a replacement character. -/
theorem classified (bytes : Bytes) : Classified bytes where
  text s hs := renderBy_text hs
  number hill hfour := by
    obtain ⟨w, hw⟩ := exists_leadingWord hfour
    refine ⟨w, hw, ?_⟩
    rw [show render bytes = Numeral.text w.toInt from renderBy_word hill hw]
    exact isNumeral_text w
  short hill hshort := by
    have hrender : render bytes = Utf8.lossy bytes :=
      renderBy_short hill hshort (List.Subset.refl readings)
    obtain hwhole | ⟨text, part, rest, -, hpieces⟩ := Utf8.wellFormed_or_breaks bytes
    · exact absurd hwhole hill
    · refine ⟨hrender, ?_⟩
      rw [hrender, Utf8.lossy_stray hpieces]
      simp
  later chain hchain := renderBy_eq_render fun read hread ↦ List.mem_of_mem_tail (hchain hread)
  beyond hill hfour other hother hsame := by
    obtain ⟨w, hw⟩ := exists_leadingWord hfour
    have hword : leadingWord? other = some w := by
      rw [← leadingWord?_take, hsame, leadingWord?_take, hw]
    exact (renderBy_word hother hword).trans (renderBy_word hill hw).symm

/-- Two bytes that begin no character are no number. -/
example : render [0xff, 0xfe] = "\ufffd\ufffd" := by decide

end TopicView.Header
