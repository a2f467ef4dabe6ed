import TopicView.Json.Format
import TopicView.Proofs.Json.RoundTrip

/-!
# Formats read what is written

A format takes the text that is written for a value back to that value.  There is one lemma for each
way to make a format; a record takes its fields in any order, each key once.
-/

namespace TopicView.Json

open Utf8 (Piece)

namespace Format

section

variable {α β : Type} {format : Format α} {depth : Nat} {cs : List Char} {a : α}

/-- The format takes the characters for the value, behind any white space and whatever follows that
no numeral goes on with. -/
structure Reads (format : Format α) (depth : Nat) (cs : List Char) (a : α) : Prop where
  begins (rest : Text) : Begins (spelled cs ++ rest)
  read_eq {text rest : Text} (htext : skipSpace text = spelled cs ++ rest)
    (hrest : endsNumeral rest = true) : format.text depth text = .ok (a, rest)

theorem read_encode (h : format.Reads depthLimit cs a) :
    format.read (Utf8.encode (String.ofList cs)) = .ok a := by
  have hread := h.read_eq (h.begins []).skipSpace_eq rfl
  rw [List.append_nil] at hread
  rw [read, ofBytes_encode, String.toList_ofList, hread]
  rfl

theorem Reads.map (h : format.Reads depth cs a) (f : α → β) :
    (format.map f).Reads depth cs (f a) where
  begins := h.begins
  read_eq htext hrest := by
    simp only [Format.map, h.read_eq htext hrest, Except.map]

theorem begins_written (s : String) (rest : Text) : Begins (spelled (writeString s) ++ rest) :=
  ⟨'"', _, rfl, rfl, by decide⟩

/-- A written string is its quote and what is read behind it. -/
theorem exists_readString (s : String) (rest : Text) :
    ∃ r, spelled (writeString s) ++ rest = .char '"' :: r ∧ readString r = .ok (s, rest) := by
  obtain ⟨r, hr, hchars⟩ := exists_chars_of_written s rest
  exact ⟨r, hr, hchars.readString_eq⟩

theorem reads_string (depth : Nat) (s : String) : string.Reads depth (writeString s) s where
  begins := begins_written s
  read_eq {text rest} htext _ := by
    obtain ⟨r, hr, hread⟩ := exists_readString s rest
    simp only [string, htext.trans hr]
    exact hread

theorem integer_text_eq {name : String} {low high n : Int} (hlow : low ≤ n) (hhigh : n ≤ high)
    {c : Char} (hc : c = '-' ∨ Numeral.isDigit c) {text rest after : Text}
    (hskip : skipSpace text = .char c :: rest)
    (hread : (if c = '-' then readNumber true rest else readNumber false (.char c :: rest)) =
      .ok (.int n, after)) :
    (integer name low high).text depth text = .ok (n, after) := by
  have hin : inRange name low high (.int n) = .ok n := if_pos ⟨hlow, hhigh⟩
  by_cases hsign : c = '-'
  · rw [if_pos hsign] at hread
    simp only [integer, hskip, if_pos hc, if_pos hsign, hread, bind, Except.bind, hin]
    rfl
  · rw [if_neg hsign] at hread
    simp only [integer, hskip, if_pos hc, if_neg hsign, hread, bind, Except.bind, hin]
    rfl

theorem reads_integer {name : String} {low high n : Int} (hlow : low ≤ n) (hhigh : n ≤ high)
    (hheld : (Number.int n).Held) (depth : Nat) :
    (integer name low high).Reads depth (Numeral.ofInt n) n where
  begins rest := (Scalar.num (isNumeral_ofInt hheld rest)).begins
  read_eq {text rest} htext hrest := by
    obtain ⟨negative, s, hminus, ⟨d, r, rfl, hd⟩, hread⟩ :=
      (isNumeral_ofInt hheld rest).readNumber_eq hrest
    generalize spelled (Numeral.ofInt n) ++ rest = written at htext hminus
    cases hminus with
    | none =>
        have hsign : d ≠ '-' := by
          rintro rfl
          exact nomatch hd
        exact integer_text_eq hlow hhigh (.inr hd) htext ((if_neg hsign).trans hread)
    | minus => exact integer_text_eq hlow hhigh (.inl rfl) htext ((if_pos rfl).trans hread)

theorem reads_int32 (n : Int32) (depth : Nat) : int32.Reads depth (Numeral.ofInt n.toInt) n := by
  have hlow : Int32.minValue.toInt ≤ n.toInt := n.minValue_le_toInt
  have hhigh : n.toInt ≤ Int32.maxValue.toInt := n.toInt_le
  have hheld : (Number.int n.toInt).Held := by
    have hlowest : Int64.minValue.toInt ≤ Int32.minValue.toInt := by decide
    have hhighest : Int32.maxValue.toInt < UInt64.size := by decide
    constructor <;> omega
  have hread : int32.Reads depth (Numeral.ofInt n.toInt) (Int32.ofInt n.toInt) :=
    (reads_integer hlow hhigh hheld depth).map Int32.ofInt
  rwa [Int32.ofInt_toInt] at hread

theorem reads_uint64 (n : UInt64) (depth : Nat) :
    uint64.Reads depth (Numeral.ofInt n.toNat) n := by
  have hlt : n.toNat < UInt64.size := n.toNat_lt
  have hheld : (Number.int n.toNat).Held := by
    have hlowest : Int64.minValue.toInt ≤ 0 := by decide
    constructor <;> omega
  have hhigh : (n.toNat : Int) ≤ UInt64.size - 1 := by omega
  have hread : uint64.Reads depth (Numeral.ofInt n.toNat) (UInt64.ofNat (n.toNat : Int).toNat) :=
    (reads_integer (Int.natCast_nonneg n.toNat) hhigh hheld depth).map fun n ↦
      UInt64.ofNat n.toNat
  rwa [Int.toNat_natCast, UInt64.ofNat_toNat] at hread

theorem reads_none (format : Format α) (depth : Nat) :
    (option format).Reads depth ['n', 'u', 'l', 'l'] none where
  begins rest := ⟨'n', _, rfl, rfl, by decide⟩
  read_eq {text rest} htext _ := by
    have hfirst : skipSpace text = .char 'n' :: (spelled ['u', 'l', 'l'] ++ rest) := htext
    simp only [option, hfirst, readWord_spelled]
    rfl

theorem reads_some (h : format.Reads depth cs a) (hnull : ∀ ds, cs ≠ 'n' :: ds) :
    (option format).Reads depth cs (some a) where
  begins := h.begins
  read_eq {text rest} htext hrest := by
    have hread := h.read_eq (h.begins rest).skipSpace_eq hrest
    simp only [option, htext]
    split
    · next heq =>
        cases cs with
        | nil =>
            obtain ⟨c, r, hr, -⟩ := h.begins []
            exact nomatch hr
        | cons c ds =>
            obtain rfl := Piece.char.inj (List.cons.inj heq).1
            exact absurd rfl (hnull ds)
    · rw [hread]
      rfl

theorem reads_choice {choices : List (String × α)} {name : String}
    (h : choices.lookup name = some a) (depth : Nat) :
    (choice choices).Reads depth (writeString name) a where
  begins := begins_written name
  read_eq {text rest} htext _ := by
    obtain ⟨r, hr, hread⟩ := exists_readString name rest
    simp only [choice, htext.trans hr, readNamed, hread, named, h, bind, Except.bind]
    rfl

end

/-! ## Containers -/

section Containers

variable {α : Type} {sp : Spacing} {w : Nat → Json → List Char} {depth gap : Nat}

/-- Characters that the format takes for the value, and what follows them. -/
def Written (format : Format α) (depth : Nat) (s : Text) (a : α) (t : Text) : Prop :=
  ∃ cs, format.Reads depth cs a ∧ s = spelled cs ++ t

theorem Written.front {format : Format α} {s t : Text} {a : α}
    (h : format.Written depth s a t) : Front s t := by
  obtain ⟨cs, -, rfl⟩ := h
  exact ⟨cs, rfl⟩

theorem takes_written (format : Format α) (depth : Nat) :
    Takes (format.text depth) (format.Written depth) where
  begins h := by
    obtain ⟨cs, hreads, rfl⟩ := h
    exact hreads.begins _
  read_eq hgap h ht := by
    obtain ⟨cs, hreads, rfl⟩ := h
    exact hreads.read_eq (hgap.skipSpace_begins (hreads.begins _)) ht

theorem begins_enclose {left right : Char} (hspace : isSpace left = false) (hleft : left ≠ ']')
    (parts : List (List Char)) (rest : Text) :
    Begins (spelled (sp.enclose left right gap parts) ++ rest) := by
  cases parts with
  | nil => exact ⟨left, _, rfl, hspace, hleft⟩
  | cons part parts => exact ⟨left, _, rfl, hspace, hleft⟩

theorem reads_list {format : Format α} {parts : List (List Char)} {as : List α}
    (h : List.Forall₂ (format.Reads depth) parts as) :
    (listOf format).Reads (depth + 1) (sp.enclose '[' ']' gap parts) as where
  begins := begins_enclose rfl (by decide) parts
  read_eq {text rest} htext _ := by
    have hparts : List.Forall₂ (Spells (format.Written depth)) parts as :=
      h.imp fun cs a hreads t ↦ ⟨cs, hreads, rfl⟩
    obtain ⟨s, hs, henclosed⟩ := enclosed_spaced sp '[' gap hparts rest
    simp only [listOf, htext.trans hs]
    exact readItems_onward (takes_written format depth) henclosed.onward
      (Nat.lt_succ_of_le (henclosed.length_le Written.front))

variable {members : List (Member α)}

/-- The fields with the texts of their values, each of a field not given before, change one record
into the other, and no required one is left out. -/
inductive Fills (members : List (Member α)) (depth : Nat) :
    List String → α → List (String × List Char) → α → Prop
  | done {seen : List String} {a : α} (h : missing? members seen = none) :
    Fills members depth seen a [] a
  | field {seen : List String} {key : String} {written : List Char} {m : Member α} {f : α → α}
    {a b : α} {fields : List (String × List Char)} (hfind : members.find? (·.name = key) = some m)
    (hseen : key ∉ seen) (hvalue : m.format.Reads depth written f)
    (hrest : Fills members depth (key :: seen) (f a) fields b) :
    Fills members depth seen a ((key, written) :: fields) b

/-- A field that is put into the record. -/
theorem Fills.put {β : Type} {seen : List String} {key : String} {written : List Char}
    {required : Bool} {format : Format β} {put : β → α → α} {x : β} {a b : α}
    {fields : List (String × List Char)}
    (hfind : members.find? (·.name = key) = some ⟨key, required, format.map put⟩)
    (hseen : key ∉ seen) (hvalue : format.Reads depth written x)
    (hrest : Fills members depth (key :: seen) (put x a) fields b) :
    Fills members depth seen a ((key, written) :: fields) b :=
  .field hfind hseen (hvalue.map put) hrest

theorem readFields_end {fuel : Nat} {seen : List String} {start : Bool} {a : α} {text next : Text}
    (h : nextKey .strict start text = .ok (false, next)) (hmissing : missing? members seen = none) :
    readFields depth members (fuel + 1) seen start a text = .ok (a, next.tail) := by
  simp only [readFields, h, hmissing, bind, Except.bind]
  rfl

theorem readFields_step {fuel : Nat} {seen : List String} {start : Bool} {key : String}
    {m : Member α} {f : α → α} {a b : α} {text next colon behind after rest : Text}
    (h : nextKey .strict start text = .ok (true, next))
    (hkey : readString next.tail = .ok (key, colon)) (hfind : members.find? (·.name = key) = some m)
    (hseen : key ∉ seen) (hcolon : readColon colon = .ok behind)
    (hvalue : m.format.text depth behind = .ok (f, after))
    (hrest : readFields depth members fuel (key :: seen) false (f a) after = .ok (b, rest)) :
    readFields depth members (fuel + 1) seen start a text = .ok (b, rest) := by
  have hnew : ¬ seen.contains key = true := by simpa using hseen
  simp only [readFields, h, hkey, hfind, if_neg hnew, hcolon, hvalue, hrest, bind, Except.bind]

/-- The characters stand in front. -/
def Literally (s : Text) (cs : List Char) (t : Text) : Prop := s = spelled cs ++ t

theorem readFields_onward {seen : List String} {a b : α} {fields : List (String × List Char)}
    (h : Fills members depth seen a fields b) {start : Bool} {s t : Text}
    (hfields : Onward (Entry Literally) '\x7d' start s fields t) {fuel : Nat}
    (hfuel : fields.length < fuel) :
    readFields depth members fuel seen start a s = .ok (b, t) := by
  induction h generalizing start s fuel with
  | done hmissing =>
      obtain ⟨fuel, rfl⟩ := Nat.exists_eq_succ_of_ne_zero (Nat.ne_of_gt hfuel)
      cases hfields with
      | done hgap => exact readFields_end (nextKey_end hgap) hmissing
      | first h => nomatch h
      | further _ h => nomatch h
  | @field seen key written m f a b fields hfind hseen hvalue _ ih =>
      obtain ⟨fuel, rfl⟩ := Nat.exists_eq_succ_of_ne_zero (Nat.ne_of_gt (Nat.zero_lt_of_lt hfuel))
      have hstep {s' : Text}
          (hseries : Series (Entry Literally) '\x7d' s' ((key, written) :: fields) t)
          (hnext : ∀ {s''}, White s' (.char '"' :: s'') →
            nextKey .strict start s = .ok (true, .char '"' :: s'')) :
          readFields depth members (fuel + 1) seen start a s = .ok (b, t) := by
        obtain ⟨s'', p, after, rest, heq, hgap, hentry, hrest⟩ := hseries.split
        obtain ⟨rfl, rfl⟩ := List.cons.inj heq
        obtain ⟨hkey, hcolon, hgap', rfl⟩ := hentry
        exact readFields_step (hnext hgap) hkey.readString_eq hfind hseen (readColon_eq hcolon)
          (hvalue.read_eq (hgap'.skipSpace_begins (hvalue.begins _)) (hrest.endsNumeral_eq rfl))
          (ih hrest (Nat.lt_of_succ_lt_succ hfuel))
      cases hfields with
      | first hseries => exact hstep hseries nextKey_first
      | further hcomma hseries => exact hstep hseries (nextKey_further hcomma)

theorem reads_record {name : String} {start a : α} {fields : List (String × List Char)}
    (h : Fills members depth [] start fields a) :
    (record name start members).Reads (depth + 1)
      (sp.enclose '\x7b' '\x7d' gap (fields.map fun p ↦ sp.member p.1 p.2)) a where
  begins := begins_enclose rfl (by decide) _
  read_eq {text rest} htext _ := by
    have hparts : List.Forall₂ (Spells (Entry Literally))
        (fields.map fun p ↦ sp.member p.1 p.2) fields :=
      List.forall₂_map_left_iff.mpr (List.forall₂_same.mpr fun p _ ↦ entry_spaced fun _ ↦ rfl)
    obtain ⟨s, hs, henclosed⟩ := enclosed_spaced sp '\x7b' gap hparts rest
    simp only [record, htext.trans hs]
    exact readFields_onward h henclosed.onward
      (Nat.lt_succ_of_le (henclosed.length_le (Entry.front fun {_ cs _} h ↦ ⟨cs, h⟩)))

end Containers
end Format

/-! ## Either way to write -/

section Rules

open Format

variable {α : Type} {sp : Spacing} {w : Nat → Json → List Char} (h : sp.Rules w) {depth gap : Nat}

include h

theorem Spacing.Rules.reads_list {format : Format α} {items : List Json} {as : List α}
    (hitems : List.Forall₂ (fun v a ↦ format.Reads depth (w (gap + 1) v) a) items as) :
    (listOf format).Reads (depth + 1) (w gap (.arr items)) as :=
  h.arr gap items ▸ Format.reads_list (List.forall₂_map_left_iff.mpr hitems)

theorem Spacing.Rules.reads_record {name : String} {start a : α} {members : List (Member α)}
    {fields : List (String × Json)}
    (hfills : Fills members depth [] start (fields.map (Prod.map id (w (gap + 1)))) a) :
    (record name start members).Reads (depth + 1) (w gap (.obj fields)) a := by
  have hread : (record name start members).Reads (depth + 1) (sp.enclose '\x7b' '\x7d' gap
      ((fields.map (Prod.map id (w (gap + 1)))).map fun p ↦ sp.member p.1 p.2)) a :=
    Format.reads_record hfills
  rw [List.map_map] at hread
  exact h.obj gap fields ▸ hread

end Rules
end TopicView.Json
