import TopicView.Proofs.Text.Utf8
import TopicView.Record

/-!
# Strict and lossy decoding

Bytes are text, or they begin with a longest text behind which a sequence is ill-formed.  The strict
decoder accepts the first and says of the second where that text ends; the lossy one goes on behind
the part of the sequence that could still have become a character.
-/

namespace TopicView.Utf8

/-- These bytes take a sequence to the end of its character. -/
def Begun.Finishes (p : Begun) : Bytes → Prop
  | [] => False
  | b :: rest => p.admits b = true ∧ if p.owed ≤ 1 then rest = [] else (p.push b).Finishes rest

theorem Begun.admits_iff {p : Begun} {b : UInt8} :
    p.admits b = true ↔ p.low.toNat ≤ b.toNat ∧ b.toNat ≤ p.high.toNat := by
  rw [admits, Bool.and_eq_true, decide_eq_true_iff, decide_eq_true_iff, UInt8.le_iff_toNat_le,
    UInt8.le_iff_toNat_le]

/-- Where the window is not empty, there are bytes that finish the sequence. -/
theorem Begun.finishes_completion {p : Begun} (h : p.low ≤ p.high) :
    p.Finishes (p.low :: List.replicate (p.owed - 1) 0x80) := by
  induction howed : p.owed - 1 generalizing p with
  | zero => exact ⟨by simp [admits, h], by rw [if_pos (by omega)]; rfl⟩
  | succ n ih =>
      refine ⟨by simp [admits, h], ?_⟩
      rw [if_neg (by omega), List.replicate_succ]
      exact ih (p := p.push p.low) (show (0x80 : UInt8) ≤ 0xbf by decide)
        (show p.owed - 1 - 1 = n by omega)

theorem exists_char {v : Nat} (h : v.isValidChar) : ∃ c : Char, c.val.toNat = v :=
  ⟨Char.ofNatAux v h, rfl⟩

section Spelled

variable {a b c d : UInt8}

theorem spelled_one (h : a.toNat < 0x80) : ∃ ch, String.utf8EncodeChar ch = [a] := by
  obtain ⟨ch, hch⟩ := exists_char (.inl (Nat.lt_trans h (by decide)))
  refine ⟨ch, ?_⟩
  simp only [String.utf8EncodeChar, hch]
  rw [if_pos (by omega), UInt8.ofNat_toNat]

theorem spelled_two (ha : 0xc2 ≤ a.toNat) (ha' : a.toNat ≤ 0xdf) (hb : 0x80 ≤ b.toNat)
    (hb' : b.toNat ≤ 0xbf) : ∃ ch, String.utf8EncodeChar ch = [a, b] := by
  obtain ⟨v, hv⟩ : ∃ v, (a.toNat - 0xc0) * 64 + (b.toNat - 0x80) = v := ⟨_, rfl⟩
  obtain ⟨ch, hch⟩ := exists_char (v := v) (.inl (by omega))
  have hfirst : v / 64 % 32 + 192 = a.toNat := by omega
  have hsecond : v % 64 + 128 = b.toNat := by omega
  refine ⟨ch, ?_⟩
  simp only [String.utf8EncodeChar, hch]
  rw [if_neg (by omega), if_pos (by omega), hfirst, hsecond, UInt8.ofNat_toNat, UInt8.ofNat_toNat]

theorem spelled_three (ha : 0xe0 ≤ a.toNat) (ha' : a.toNat ≤ 0xef) (hb : 0x80 ≤ b.toNat)
    (hb' : b.toNat ≤ 0xbf) (hlong : a.toNat = 0xe0 → 0xa0 ≤ b.toNat)
    (hsurrogate : a.toNat = 0xed → b.toNat ≤ 0x9f) (hc : 0x80 ≤ c.toNat) (hc' : c.toNat ≤ 0xbf) :
    ∃ ch, String.utf8EncodeChar ch = [a, b, c] := by
  obtain ⟨v, hv⟩ : ∃ v, ((a.toNat - 0xe0) * 64 + (b.toNat - 0x80)) * 64 + (c.toNat - 0x80) = v :=
    ⟨_, rfl⟩
  have hvalid : v < 0xd800 ∨ 0xdfff < v ∧ v < 0x110000 := by omega
  obtain ⟨ch, hch⟩ := exists_char hvalid
  have hfirst : v / 4096 % 16 + 224 = a.toNat := by omega
  have hsecond : v / 64 % 64 + 128 = b.toNat := by omega
  have hthird : v % 64 + 128 = c.toNat := by omega
  refine ⟨ch, ?_⟩
  simp only [String.utf8EncodeChar, hch]
  rw [if_neg (by omega), if_neg (by omega), if_pos (by omega), hfirst, hsecond, hthird,
    UInt8.ofNat_toNat, UInt8.ofNat_toNat, UInt8.ofNat_toNat]

theorem spelled_four (ha : 0xf0 ≤ a.toNat) (ha' : a.toNat ≤ 0xf4) (hb : 0x80 ≤ b.toNat)
    (hb' : b.toNat ≤ 0xbf) (hlong : a.toNat = 0xf0 → 0x90 ≤ b.toNat)
    (hlarge : a.toNat = 0xf4 → b.toNat ≤ 0x8f) (hc : 0x80 ≤ c.toNat) (hc' : c.toNat ≤ 0xbf)
    (hd : 0x80 ≤ d.toNat) (hd' : d.toNat ≤ 0xbf) :
    ∃ ch, String.utf8EncodeChar ch = [a, b, c, d] := by
  obtain ⟨v, hv⟩ : ∃ v, (((a.toNat - 0xf0) * 64 + (b.toNat - 0x80)) * 64 + (c.toNat - 0x80)) * 64 +
    (d.toNat - 0x80) = v := ⟨_, rfl⟩
  have hvalid : v < 0xd800 ∨ 0xdfff < v ∧ v < 0x110000 := by omega
  obtain ⟨ch, hch⟩ := exists_char hvalid
  have hfirst : v / 262144 % 8 + 240 = a.toNat := by omega
  have hsecond : v / 4096 % 64 + 128 = b.toNat := by omega
  have hthird : v / 64 % 64 + 128 = c.toNat := by omega
  have hfourth : v % 64 + 128 = d.toNat := by omega
  refine ⟨ch, ?_⟩
  simp only [String.utf8EncodeChar, hch]
  rw [if_neg (by omega), if_neg (by omega), if_neg (by omega), hfirst, hsecond, hthird, hfourth,
    UInt8.ofNat_toNat, UInt8.ofNat_toNat, UInt8.ofNat_toNat, UInt8.ofNat_toNat]

end Spelled

namespace Begun

variable {p : Begun} {rest : Bytes}

theorem exists_last (howed : p.owed ≤ 1) (h : p.Finishes rest) :
    ∃ b, rest = [b] ∧ p.low.toNat ≤ b.toNat ∧ b.toNat ≤ p.high.toNat := by
  cases rest with
  | nil => exact h.elim
  | cons b rest =>
      obtain ⟨hadmits, hrest⟩ := h
      rw [if_pos howed] at hrest
      exact ⟨b, by rw [hrest], admits_iff.mp hadmits⟩

theorem exists_next (howed : 1 < p.owed) (h : p.Finishes rest) :
    ∃ b more, rest = b :: more ∧ p.low.toNat ≤ b.toNat ∧ b.toNat ≤ p.high.toNat ∧
      (p.push b).Finishes more := by
  cases rest with
  | nil => exact h.elim
  | cons b more =>
      obtain ⟨hadmits, hmore⟩ := h
      rw [if_neg (Nat.not_le.mpr howed)] at hmore
      obtain ⟨hlow, hhigh⟩ := admits_iff.mp hadmits
      exact ⟨b, more, rfl, hlow, hhigh, hmore⟩

end Begun

/-- What a first byte announces: how many bytes are owed, and a window that keeps out what spells
no character. -/
theorem begun?_cases {b : UInt8} {p : Begun} (h : begun? b = some p) :
    p.bytes = [b] ∧ p.low ≤ p.high ∧ 0x80 ≤ p.low.toNat ∧ p.high.toNat ≤ 0xbf ∧
      (p.owed = 1 ∧ 0xc2 ≤ b.toNat ∧ b.toNat ≤ 0xdf ∨
        (p.owed = 2 ∧ 0xe0 ≤ b.toNat ∧ b.toNat ≤ 0xef ∧ (b.toNat = 0xe0 → 0xa0 ≤ p.low.toNat) ∧
          (b.toNat = 0xed → p.high.toNat ≤ 0x9f)) ∨
        p.owed = 3 ∧ 0xf0 ≤ b.toNat ∧ b.toNat ≤ 0xf4 ∧ (b.toNat = 0xf0 → 0x90 ≤ p.low.toNat) ∧
          (b.toNat = 0xf4 → p.high.toNat ≤ 0x8f)) := by
  unfold begun? at h
  simp only [UInt8.le_iff_toNat_le, ← UInt8.toNat_inj, UInt8.reduceToNat] at h
  split_ifs at h <;> obtain rfl := Option.some.inj h <;> simp <;> omega

/-- Bytes that finish a sequence spell a character with it. -/
theorem exists_encodeChar {b : UInt8} {p : Begun} (h : begun? b = some p) {rest : Bytes}
    (hrest : p.Finishes rest) : ∃ ch, String.utf8EncodeChar ch = b :: rest := by
  obtain ⟨-, -, hlow, hhigh, ⟨howed, hb, hb'⟩ | ⟨howed, hb, hb', hlong, hsurrogate⟩ |
    ⟨howed, hb, hb', hlong, hlarge⟩⟩ := begun?_cases h
  · obtain ⟨c, rfl, hc, hc'⟩ := Begun.exists_last (Nat.le_of_eq howed) hrest
    exact spelled_two hb hb' (Nat.le_trans hlow hc) (Nat.le_trans hc' hhigh)
  · obtain ⟨c, more, rfl, hc, hc', hmore⟩ := Begun.exists_next (by omega) hrest
    obtain ⟨d, rfl, hd, hd'⟩ := Begun.exists_last (show p.owed - 1 ≤ 1 by omega) hmore
    exact spelled_three hb hb' (Nat.le_trans hlow hc) (Nat.le_trans hc' hhigh)
      (fun heq ↦ Nat.le_trans (hlong heq) hc) (fun heq ↦ Nat.le_trans hc' (hsurrogate heq)) hd hd'
  · obtain ⟨c, more, rfl, hc, hc', hmore⟩ := Begun.exists_next (by omega) hrest
    obtain ⟨d, more, rfl, hd, hd', hmore⟩ := Begun.exists_next (show 1 < p.owed - 1 by omega) hmore
    obtain ⟨e, rfl, he, he'⟩ := Begun.exists_last (show p.owed - 1 - 1 ≤ 1 by omega) hmore
    exact spelled_four hb hb' (Nat.le_trans hlow hc) (Nat.le_trans hc' hhigh)
      (fun heq ↦ Nat.le_trans (hlong heq) hc) (fun heq ↦ Nat.le_trans hc' (hlarge heq)) hd hd' he
      he'

/-- Some character begins with these bytes. -/
def BeginsChar (bytes : Bytes) : Prop := ∃ c, bytes <+: String.utf8EncodeChar c

/-- Of bytes that begin with no character, as many as could still have become one, or one byte
where not even that begins a character. -/
structure IsMaximalSubpart (part bytes : Bytes) : Prop where
  within : part <+: bytes
  begins : part ≠ [] ∧ BeginsChar part ∨ part.length = 1
  longest : ∀ longer, longer <+: bytes → BeginsChar longer → longer.length ≤ part.length

theorem BeginsChar.of_prefix {front bytes : Bytes} (h : BeginsChar bytes)
    (hfront : front <+: bytes) : BeginsChar front := by
  obtain ⟨c, hc⟩ := h
  exact ⟨c, hfront.trans hc⟩

theorem IsMaximalSubpart.of_refused {part rest : Bytes} {b : UInt8} (hne : part ≠ [])
    (hbegins : BeginsChar part) (hrefused : ¬ BeginsChar (part ++ [b])) :
    IsMaximalSubpart part (part ++ b :: rest) := by
  refine ⟨⟨b :: rest, rfl⟩, .inl ⟨hne, hbegins⟩, fun longer hlonger hlonger' ↦ ?_⟩
  have hnext : part ++ [b] <+: part ++ b :: rest := ⟨rest, by simp⟩
  by_contra hlength
  refine hrefused (hlonger'.of_prefix (List.prefix_of_prefix_length_le hnext hlonger ?_))
  rw [List.length_append, List.length_singleton]
  omega

/-- The scan has come to a sequence under way, which can still be finished and only as a
character. -/
structure Begun.Reached (p : Begun) : Prop where
  nonempty : p.bytes ≠ []
  window : p.low ≤ p.high
  resumes : ∀ rest, scan none (p.bytes ++ rest) = scan (some p) rest
  spells : ∀ rest, p.Finishes rest → ∃ c, String.utf8EncodeChar c = p.bytes ++ rest

theorem scan_stray {b : UInt8} (h : first b = .inl (.stray [b])) (rest : Bytes) :
    scan none (b :: rest) = .stray [b] :: scan none rest := by
  simp only [scan, h]

theorem scan_begun {b : UInt8} {p : Begun} (h : first b = .inr p) (rest : Bytes) :
    scan none (b :: rest) = scan (some p) rest := by
  simp only [scan, h]

theorem scan_refused {p : Begun} {b : UInt8} (h : p.admits b = false) (rest : Bytes) :
    scan (some p) (b :: rest) = .stray p.bytes :: scan none (b :: rest) := by
  simp only [scan, h, Bool.false_eq_true, if_false]

/-- What a first byte is. -/
theorem first_cases (b : UInt8) :
    (∃ c, String.utf8EncodeChar c = [b]) ∨ first b = .inl (.stray [b]) ∨
      ∃ p, first b = .inr p ∧ begun? b = some p := by
  by_cases hb : b < 0x80
  · exact .inl (spelled_one (UInt8.lt_iff_toNat_lt.mp hb))
  · cases hp : begun? b with
    | none => exact .inr (.inl (by simp only [first, if_neg hb, hp]))
    | some p => exact .inr (.inr ⟨p, by simp only [first, if_neg hb, hp], rfl⟩)

/-- Bytes that are no beginning of a character: the scan of one does not come to a stray run. -/
theorem not_beginsChar {bytes part : Bytes}
    (h : ∀ rest, ∃ more, scan none (bytes ++ rest) = .stray part :: more) :
    ¬ BeginsChar bytes := by
  rintro ⟨c, rest, hc⟩
  obtain ⟨more, hscan⟩ := h rest
  have hwhole := scan_encodeChar c []
  rw [List.append_nil, ← hc, hscan] at hwhole
  cases hwhole

namespace Begun.Reached

variable {p : Begun} {b : UInt8}

theorem of_first (hfirst : first b = .inr p) (hbegun : begun? b = some p) : p.Reached := by
  obtain ⟨hbytes, hwindow, -⟩ := begun?_cases hbegun
  refine ⟨?_, hwindow, fun rest ↦ ?_, fun rest hrest ↦ ?_⟩
  · rw [hbytes]
    exact List.cons_ne_nil _ _
  · rw [hbytes]
    exact scan_begun hfirst rest
  · rw [hbytes]
    exact exists_encodeChar hbegun hrest

variable (h : p.Reached)

include h

theorem push (hadmits : p.admits b = true) (howed : 1 < p.owed) : (p.push b).Reached := by
  have hmore : ¬ p.owed ≤ 1 := Nat.not_le.mpr howed
  have hbytes (rest : Bytes) : (p.push b).bytes ++ rest = p.bytes ++ b :: rest := by
    simp [Begun.push]
  refine ⟨?_, show (0x80 : UInt8) ≤ 0xbf by decide, fun rest ↦ ?_, fun rest hrest ↦ ?_⟩
  · simp [Begun.push]
  · rw [hbytes, h.resumes]
    simp only [scan, if_pos hadmits, if_neg hmore]
  · rw [hbytes]
    exact h.spells _ ⟨hadmits, by rwa [if_neg hmore]⟩

theorem beginsChar : BeginsChar p.bytes := by
  obtain ⟨c, hc⟩ := h.spells _ (Begun.finishes_completion h.window)
  exact ⟨c, _, hc.symm⟩

/-- Behind a sequence under way comes the rest of its character, or the sequence goes no further. -/
theorem scan_cases (bytes : Bytes) :
    (∃ c rest, p.bytes ++ bytes = String.utf8EncodeChar c ++ rest) ∨
      ∃ part rest, p.bytes ++ bytes = part ++ rest ∧ IsMaximalSubpart part (part ++ rest) ∧
        scan (some p) bytes = .stray part :: scan none rest := by
  induction bytes generalizing p with
  | nil =>
      refine .inr ⟨p.bytes, [], rfl, ⟨List.prefix_append _ _, .inl ⟨h.nonempty, h.beginsChar⟩,
        fun longer hlonger _ ↦ ?_⟩, rfl⟩
      simpa using hlonger.length_le
  | cons b bytes ih =>
      cases hadmits : p.admits b with
      | false =>
          have hstray (rest : Bytes) :
              scan none (p.bytes ++ b :: rest) = .stray p.bytes :: scan none (b :: rest) := by
            rw [h.resumes, scan_refused hadmits]
          have hrefused : ¬ BeginsChar (p.bytes ++ [b]) :=
            not_beginsChar fun rest ↦ ⟨_, (congrArg _ (by simp)).trans (hstray rest)⟩
          exact .inr ⟨p.bytes, b :: bytes, rfl, .of_refused h.nonempty h.beginsChar hrefused,
            scan_refused hadmits bytes⟩
      | true =>
          by_cases howed : p.owed ≤ 1
          · obtain ⟨c, hc⟩ := h.spells [b] ⟨hadmits, by rw [if_pos howed]⟩
            exact .inl ⟨c, bytes, by rw [hc, List.append_assoc]; rfl⟩
          · have hpush := h.push hadmits (Nat.not_le.mp howed)
            have hscan : scan (some p) (b :: bytes) = scan (some (p.push b)) bytes := by
              simp only [scan, if_pos hadmits, if_neg howed]
            have hbytes : p.bytes ++ b :: bytes = (p.push b).bytes ++ bytes := by
              simp [Begun.push]
            rw [hscan, hbytes]
            exact ih hpush

end Begun.Reached

/-- Bytes begin with a character, or with a maximal subpart of an ill-formed sequence, and the first
piece tells which. -/
theorem pieces_cases {bytes : Bytes} (h : bytes ≠ []) :
    (∃ c rest, bytes = String.utf8EncodeChar c ++ rest) ∨
      ∃ part rest, bytes = part ++ rest ∧ IsMaximalSubpart part bytes ∧
        pieces bytes = .stray part :: pieces rest := by
  obtain ⟨b, bytes, rfl⟩ := List.exists_cons_of_ne_nil h
  obtain ⟨c, hc⟩ | hstray | ⟨p, hfirst, hbegun⟩ := first_cases b
  · exact .inl ⟨c, bytes, by rw [hc]; rfl⟩
  · refine .inr ⟨[b], bytes, rfl, ⟨⟨bytes, rfl⟩, .inr rfl, fun longer hlonger hbegins ↦ ?_⟩,
      scan_stray hstray bytes⟩
    cases longer with
    | nil => exact Nat.zero_le _
    | cons c longer =>
        obtain ⟨rfl, -⟩ := List.cons_prefix_cons.mp hlonger
        obtain ⟨ch, hch⟩ := hbegins
        have hone : BeginsChar [c] := ⟨ch, (List.prefix_append [c] longer).trans hch⟩
        exact absurd hone (not_beginsChar fun rest ↦ ⟨_, scan_stray hstray rest⟩)
  · have hreached := Begun.Reached.of_first hfirst hbegun
    have hbytes : b :: bytes = p.bytes ++ bytes := by
      rw [(begun?_cases hbegun).1]
      rfl
    rw [pieces, scan_begun hfirst, hbytes]
    refine (hreached.scan_cases bytes).imp id ?_
    rintro ⟨part, rest, hparts, hmaximal, hscan⟩
    exact ⟨part, rest, hparts, hparts ▸ hmaximal, hscan⟩

/-! ## Texts and what breaks them -/

/-- Well-formed bytes spell a text. -/
def WellFormed (bytes : Bytes) : Prop := ∃ s, encode s = bytes

theorem encodeChars_cons (c : Char) (cs : List Char) :
    encodeChars (c :: cs) = String.utf8EncodeChar c ++ encodeChars cs := List.flatMap_cons

theorem encodeChars_append (cs ds : List Char) :
    encodeChars (cs ++ ds) = encodeChars cs ++ encodeChars ds := List.flatMap_append

theorem encode_ofList (cs : List Char) : encode (String.ofList cs) = encodeChars cs :=
  congrArg encodeChars String.toList_ofList

theorem wellFormed_iff {bytes : Bytes} : WellFormed bytes ↔ ∃ cs, encodeChars cs = bytes :=
  ⟨fun ⟨s, hs⟩ ↦ ⟨s.toList, hs⟩, fun ⟨cs, hcs⟩ ↦ ⟨.ofList cs, (encode_ofList cs).trans hcs⟩⟩

theorem length_encodeChars (cs : List Char) :
    (encodeChars cs).length = cs.foldr (·.utf8Size + ·) 0 := by
  induction cs with
  | nil => rfl
  | cons c cs ih =>
      rw [encodeChars_cons, List.length_append, String.length_utf8EncodeChar, ih, List.foldr_cons]

theorem leading_map_append (cs : List Char) (ps : List Piece) :
    leading (cs.map .char ++ ps) = cs ++ leading ps := by
  induction cs with
  | nil => rfl
  | cons c cs ih => exact congrArg (c :: ·) ih

theorem mapM_char (cs : List Char) : (cs.map Piece.char).mapM Piece.char? = some cs := by
  induction cs with
  | nil => rfl
  | cons c cs ih => simp [List.mapM_cons, Piece.char?, ih]

theorem mapM_stray (cs : List Char) (part : Bytes) (ps : List Piece) :
    (cs.map Piece.char ++ .stray part :: ps).mapM Piece.char? = none := by
  induction cs with
  | nil => simp [List.mapM_cons, Piece.char?]
  | cons c cs ih => simp [List.mapM_cons, Piece.char?, ih]

theorem map_shown_char (cs : List Char) : (cs.map Piece.char).map Piece.shown = cs := by
  rw [List.map_map]
  exact List.map_id cs

/-- Bytes are text, or text and behind it an ill-formed sequence. -/
theorem exists_text (bytes : Bytes) : ∃ cs, encodeChars cs = bytes ∨
    ∃ part rest, encodeChars cs ++ (part ++ rest) = bytes ∧
      IsMaximalSubpart part (part ++ rest) ∧
      pieces (part ++ rest) = .stray part :: pieces rest := by
  induction hlength : bytes.length using Nat.strongRecOn generalizing bytes with
  | ind n ih =>
      by_cases hnil : bytes = []
      · exact ⟨[], .inl hnil.symm⟩
      obtain ⟨c, rest, rfl⟩ | ⟨part, rest, rfl, hmaximal, hpieces⟩ := pieces_cases hnil
      · have hpos : 0 < (String.utf8EncodeChar c).length := by
          rw [String.length_utf8EncodeChar]
          exact c.utf8Size_pos
        rw [List.length_append] at hlength
        obtain ⟨cs, rfl | ⟨part, more, rfl, hmaximal⟩⟩ := ih rest.length (by omega) rest rfl
        · exact ⟨c :: cs, .inl (encodeChars_cons c cs)⟩
        · refine ⟨c :: cs, .inr ⟨part, more, ?_, hmaximal⟩⟩
          rw [encodeChars_cons, List.append_assoc]
      · exact ⟨[], .inr ⟨part, rest, rfl, hmaximal, hpieces⟩⟩

/-- Where bytes stop being text: the longest text that they begin with, the part behind it of a
character that does not come about, and the remaining bytes. -/
structure BreaksAt (bytes : Bytes) (text : String) (part rest : Bytes) : Prop where
  bytes_eq : encode text ++ (part ++ rest) = bytes
  longest : ∀ front, front <+: bytes → WellFormed front → front <+: encode text
  maximal : IsMaximalSubpart part (part ++ rest)

theorem wellFormed_or_breaks (bytes : Bytes) : WellFormed bytes ∨
    ∃ text part rest, BreaksAt bytes text part rest ∧
      pieces bytes = text.toList.map .char ++ .stray part :: pieces rest := by
  obtain ⟨cs, h | ⟨part, rest, rfl, hmaximal, hstray⟩⟩ := exists_text bytes
  · exact .inl (wellFormed_iff.mpr ⟨cs, h⟩)
  · have hpieces : pieces (encodeChars cs ++ (part ++ rest)) =
        cs.map .char ++ .stray part :: pieces rest := by
      rw [pieces_encodeChars_append, hstray]
    refine .inr ⟨.ofList cs, part, rest, ⟨?_, fun front hfront hwhole ↦ ?_, hmaximal⟩, ?_⟩
    · rw [encode_ofList]
    · obtain ⟨ds, rfl⟩ := wellFormed_iff.mp hwhole
      obtain ⟨more, hmore⟩ := hfront
      -- Both ways of reading the bytes begin with the same characters.
      have hleading := congrArg leading hpieces
      rw [← hmore, pieces_encodeChars_append, leading_map_append, leading_map_append] at hleading
      have hchars : cs = ds ++ leading (pieces more) := by simpa [leading] using hleading.symm
      rw [encode_ofList, hchars, encodeChars_append]
      exact List.prefix_append _ _
    · rw [String.toList_ofList, hpieces]

section Readings

variable {bytes part rest : Bytes} {s text : String}

theorem pieces_encode (s : String) : pieces (encode s) = s.toList.map .char :=
  pieces_encodeChars s.toList

theorem decode?_encode (s : String) : decode? (encode s) = some s := by
  rw [decode?, pieces_encode, mapM_char, Option.map_some, String.ofList_toList]

theorem lossy_encode (s : String) : lossy (encode s) = s := by
  rw [lossy, pieces_encode, map_shown_char, String.ofList_toList]

theorem decode?_stray (h : pieces bytes = text.toList.map .char ++ .stray part :: pieces rest) :
    decode? bytes = none := by
  rw [decode?, h, mapM_stray, Option.map_none]

theorem validUpTo_stray (h : pieces bytes = text.toList.map .char ++ .stray part :: pieces rest) :
    validUpTo bytes = (encode text).length := by
  rw [validUpTo, h, leading_map_append, show leading (.stray part :: pieces rest) = [] from rfl,
    List.append_nil, encode, length_encodeChars]

theorem lossy_stray (h : pieces bytes = text.toList.map .char ++ .stray part :: pieces rest) :
    lossy bytes = text ++ "\ufffd" ++ lossy rest := by
  rw [lossy, h, List.map_append, map_shown_char, List.map_cons, ← List.singleton_append,
    String.ofList_append, String.ofList_append, String.ofList_toList, ← String.append_assoc]
  rfl

theorem decode?_eq_some_iff : decode? bytes = some s ↔ encode s = bytes := by
  constructor
  · intro h
    obtain ⟨t, rfl⟩ | ⟨text, part, rest, -, hpieces⟩ := wellFormed_or_breaks bytes
    · rw [decode?_encode] at h
      rw [Option.some.inj h]
    · rw [decode?_stray hpieces] at h
      cases h
  · rintro rfl
    exact decode?_encode s

theorem decode?_eq_none_iff : decode? bytes = none ↔ ¬ WellFormed bytes := by
  rw [Option.eq_none_iff_forall_ne_some, WellFormed, not_exists]
  exact forall_congr' fun s ↦ decode?_eq_some_iff.not

/-- The bytes that spell a text are those that it is kept in. -/
theorem wellFormed_iff_isValidUTF8 : WellFormed bytes ↔ bytes.toByteArray.IsValidUTF8 := by
  rw [wellFormed_iff]
  constructor
  · rintro ⟨cs, rfl⟩
    exact ⟨cs, rfl⟩
  · rintro ⟨cs, hcs⟩
    exact ⟨cs, (List.toByteArray_inj.mp hcs).symm⟩

end Readings

end Utf8

/-! ## The two decoders -/

open Utf8 (WellFormed BreaksAt encode)

/-- What the strict and the lossy decoder make of the same bytes. -/
structure TextDecodersAgree (bytes : Bytes) : Prop where
  wellFormed : (∃ s, Decoder.utf8.decode bytes = .ok s) ↔ bytes.toByteArray.IsValidUTF8
  accepts : ∀ s, Decoder.utf8.decode bytes = .ok s ↔ encode s = bytes
  same : ∀ s, Decoder.utf8.decode bytes = .ok s → Decoder.lossy.decode bytes = .ok s
  /-- The strict decoder counts the bytes of the longest text; the lossy one shows one replacement
  character for the subpart behind it and goes on with the remaining bytes. -/
  breaks : ¬ WellFormed bytes → ∃ text part rest more, BreaksAt bytes text part rest ∧
    Decoder.utf8.decode bytes = .error (.invalidUtf8 (encode text).length) ∧
    Decoder.lossy.decode rest = .ok more ∧
    Decoder.lossy.decode bytes = .ok (text ++ "\ufffd" ++ more)
  again : ∀ s, Decoder.lossy.decode bytes = .ok s → Decoder.lossy.decode (encode s) = .ok s
  key : ∀ (raw : RawRecord) (decoder : Decoder), raw.key = some bytes →
    Decoder.lossy.decode bytes = .ok (raw.decode decoder).key

/-- The strict decoder accepts just the bytes that spell a text, as that text, and the lossy one
agrees.  Of all other bytes the strict one reports where the longest text that they begin with
ends, and the lossy one goes on behind the maximal subpart that follows there; what it has shown it
shows again unchanged. -/
theorem text_decoders_agree (bytes : Bytes) : TextDecodersAgree bytes := by
  have haccepts (s : String) : Decoder.utf8.decode bytes = .ok s ↔ encode s = bytes := by
    rw [← Utf8.decode?_eq_some_iff]
    simp only [Decoder.utf8]
    cases Utf8.decode? bytes <;> simp
  constructor
  case wellFormed => rw [← Utf8.wellFormed_iff_isValidUTF8]; exact exists_congr haccepts
  case accepts => exact haccepts
  case same =>
    intro s hs
    rw [← (haccepts s).mp hs]
    exact congrArg Except.ok (Utf8.lossy_encode s)
  case breaks =>
    intro hill
    obtain hwhole | ⟨text, part, rest, hbreaks, hpieces⟩ := Utf8.wellFormed_or_breaks bytes
    · exact (hill hwhole).elim
    · refine ⟨text, part, rest, Utf8.lossy rest, hbreaks, ?_, rfl, ?_⟩
      · simp only [Decoder.utf8, Utf8.decode?_stray hpieces, Utf8.validUpTo_stray hpieces]
      · exact congrArg Except.ok (Utf8.lossy_stray hpieces)
  case again =>
    exact fun s _ ↦ congrArg Except.ok (Utf8.lossy_encode s)
  case key =>
    intro raw decoder hkey
    simp only [RawRecord.decode, hkey]
    rfl

end TopicView
