import TopicView.Json.Reader
import TopicView.Proofs.Json.Document

/-!
# Reading documents

A value is read as the settled form of the document as it stands in the text.  What is read is
normal and nests within the limit.
-/

namespace TopicView.Json

open Utf8 (Piece)

section Results

variable {ε α β : Type} {x : Except ε α} {b : β}

theorem exists_of_map_ok {f : α → β} (h : x.map f = .ok b) : ∃ a, x = .ok a ∧ f a = b := by
  cases x with
  | error e => exact nomatch h
  | ok a => exact ⟨a, rfl, Except.ok.inj h⟩

theorem exists_of_bind_ok {f : α → Except ε β} (h : x >>= f = .ok b) :
    ∃ a, x = .ok a ∧ f a = .ok b := by
  cases x with
  | error e => exact nomatch h
  | ok a => exact ⟨a, rfl, h⟩

end Results

/-! ## Values -/

section Containers

variable {α β γ : Type} {manner : Manner}

theorem readItems_map {f : α → β} {item : Text → Except Fault (α × Text)}
    {item' : Text → Except Fault (β × Text)}
    (h : ∀ t, item' t = (item t).map (Prod.map f id)) (fuel : Nat) (start : Bool) (text : Text) :
    readItems manner item' fuel start text =
      (readItems manner item fuel start text).map (Prod.map (List.map f) id) := by
  induction fuel generalizing start text with
  | zero => rfl
  | succ fuel ih =>
      rw [readItems, readItems]
      obtain fault | ⟨more, text⟩ := nextItem manner start text
      · rfl
      · cases more with
        | false => rfl
        | true =>
            simp only [bind, Except.bind, h, ih]
            obtain fault | ⟨a, text⟩ := item text
            · rfl
            · simp only [Except.map, Prod.map, id]
              obtain fault | rest := readItems manner item fuel false text
              · rfl
              · rfl

theorem readMembers_map {f : β → γ} {key : Text → Except Fault (α × Text)}
    {value : Text → Except Fault (β × Text)} {value' : Text → Except Fault (γ × Text)}
    (h : ∀ t, value' t = (value t).map (Prod.map f id)) (fuel : Nat) (start : Bool) (text : Text) :
    readMembers manner key value' fuel start text =
      (readMembers manner key value fuel start text).map
        (Prod.map (List.map (Prod.map id f)) id) := by
  induction fuel generalizing start text with
  | zero => rfl
  | succ fuel ih =>
      rw [readMembers, readMembers]
      obtain fault | ⟨more, text⟩ := nextKey manner start text
      · rfl
      · cases more with
        | false => rfl
        | true =>
            simp only [bind, Except.bind, h, ih]
            obtain fault | ⟨k, text⟩ := key text.tail
            · rfl
            · simp only []
              obtain fault | text := readColon text
              · rfl
              · simp only []
                obtain fault | ⟨v, text⟩ := value text
                · rfl
                · simp only [Except.map, Prod.map, id]
                  obtain fault | rest := readMembers manner key value fuel false text
                  · rfl
                  · rfl

/-- Every item of an array has been read as an item. -/
theorem exists_item_of_readItems {item : Text → Except Fault (α × Text)} {fuel : Nat}
    {start : Bool} {text rest : Text} {as : List α}
    (h : readItems manner item fuel start text = .ok (as, rest)) :
    ∀ a ∈ as, ∃ t r, item t = .ok (a, r) := by
  induction fuel generalizing start text rest as with
  | zero => exact nomatch h
  | succ fuel ih =>
      obtain ⟨⟨more, text⟩, -, h⟩ := exists_of_bind_ok h
      cases more with
      | false =>
          obtain ⟨rfl, -⟩ := Prod.mk.inj (Except.ok.inj h)
          exact nofun
      | true =>
          obtain ⟨⟨a, after⟩, hitem, h⟩ := exists_of_bind_ok h
          obtain ⟨⟨as, after'⟩, hrest, h⟩ := exists_of_bind_ok h
          obtain ⟨rfl, -⟩ := Prod.mk.inj (Except.ok.inj h)
          exact List.forall_mem_cons.mpr ⟨⟨text, after, hitem⟩, ih hrest⟩

theorem exists_value_of_readMembers {key : Text → Except Fault (α × Text)}
    {value : Text → Except Fault (β × Text)} {fuel : Nat} {start : Bool} {text rest : Text}
    {members : List (α × β)}
    (h : readMembers manner key value fuel start text = .ok (members, rest)) :
    ∀ p ∈ members, ∃ t r, value t = .ok (p.2, r) := by
  induction fuel generalizing start text rest members with
  | zero => exact nomatch h
  | succ fuel ih =>
      obtain ⟨⟨more, text⟩, -, h⟩ := exists_of_bind_ok h
      cases more with
      | false =>
          obtain ⟨rfl, -⟩ := Prod.mk.inj (Except.ok.inj h)
          exact nofun
      | true =>
          obtain ⟨⟨k, behind⟩, -, h⟩ := exists_of_bind_ok h
          obtain ⟨colon, -, h⟩ := exists_of_bind_ok h
          obtain ⟨⟨v, after⟩, hvalue, h⟩ := exists_of_bind_ok h
          obtain ⟨⟨members, after'⟩, hrest, h⟩ := exists_of_bind_ok h
          obtain ⟨rfl, -⟩ := Prod.mk.inj (Except.ok.inj h)
          exact List.forall_mem_cons.mpr ⟨⟨colon, after, hvalue⟩, ih hrest⟩

end Containers

/-- A value, with `close` for what is made of the members of an object. -/
def readAs (close : List (String × Json) → Json) (depth : Nat) (text : Text) :
    Except Fault (Json × Text) :=
  match skipSpace text with
  | .char '[' :: rest =>
    match depth with
    | 0 => .error (peeked .tooDeep (.char '[' :: rest))
    | depth + 1 => do
      let (items, rest) ← readItems .strict (readAs close depth) (rest.length + 1) true rest
      return (.arr items, rest)
  | .char '\x7b' :: rest =>
    match depth with
    | 0 => .error (peeked .tooDeep (.char '\x7b' :: rest))
    | depth + 1 => do
      let (members, rest) ←
        readMembers .strict readString (readAs close depth) (rest.length + 1) true rest
      return (close members, rest)
  | text => readScalar text

/-- The document as it stands in the text, its members in their order. -/
def readDocument (bytes : Bytes) : Except Fault Json := do
  finish (← readAs obj depthLimit (Text.ofBytes bytes))

theorem readValue_eq_readAs (depth : Nat) : readValue depth = readAs object depth := by
  delta readValue readAs
  rfl

section

variable {close : List (String × Json) → Json} {depth : Nat} {text rest : Text}

theorem readAs_list (h : skipSpace text = .char '[' :: rest) : readAs close (depth + 1) text =
    (readItems .strict (readAs close depth) (rest.length + 1) true rest).map (Prod.map arr id) := by
  rw [readAs, h]
  rfl

theorem readAs_object (h : skipSpace text = .char '\x7b' :: rest) :
    readAs close (depth + 1) text =
      (readMembers .strict readString (readAs close depth) (rest.length + 1) true rest).map
        (Prod.map close id) := by
  rw [readAs, h]
  rfl

theorem readAs_tooDeep {c : Char} (hc : c = '[' ∨ c = '\x7b')
    (h : skipSpace text = .char c :: rest) :
    readAs close 0 text = .error (peeked .tooDeep (.char c :: rest)) := by
  rw [readAs, h]
  obtain rfl | rfl := hc
  · rfl
  · rfl

theorem readAs_scalar (hlist : ∀ rest, skipSpace text ≠ .char '[' :: rest)
    (hobject : ∀ rest, skipSpace text ≠ .char '\x7b' :: rest) :
    readAs close depth text = readScalar (skipSpace text) := by
  unfold readAs
  split
  · next h => exact absurd h (hlist _)
  · next h => exact absurd h (hobject _)
  · rfl

/-- How a text begins. -/
theorem opening_cases (text : Text) : (∃ rest, text = .char '[' :: rest) ∨
    (∃ rest, text = .char '\x7b' :: rest) ∨
    (∀ rest, text ≠ .char '[' :: rest) ∧ ∀ rest, text ≠ .char '\x7b' :: rest := by
  by_cases hlist : ∃ rest, text = .char '[' :: rest
  · exact .inl hlist
  · by_cases hobject : ∃ rest, text = .char '\x7b' :: rest
    · exact .inr (.inl hobject)
    · exact .inr (.inr ⟨fun rest h ↦ hlist ⟨rest, h⟩, fun rest h ↦ hobject ⟨rest, h⟩⟩)

end

theorem held_of_ofDecimal {negative : Bool} {n : Nat} {e : Int} {d : Double}
    (h : Double.ofDecimal? negative n e = some d) : (Number.double d).Held := by
  rw [Double.ofDecimal?] at h
  obtain ⟨hrank, hd⟩ := Option.ite_none_right_eq_some.mp h
  exact Option.some.inj hd ▸ hrank

theorem held_of_toDouble {l : Literal} {e : Int} {rest : Text} {n : Number}
    (h : l.toDouble e rest = .ok n) : n.Held := by
  unfold Literal.toDouble at h
  split at h
  · next hd => exact Except.ok.inj h ▸ held_of_ofDecimal hd
  · exact nomatch h

theorem held_of_number {l : Literal} {rest : Text} {n : Number} (h : l.number rest = .ok n) :
    n.Held := by
  unfold Literal.number at h
  split at h
  · split at h
    · split at h
      · exact Except.ok.inj h ▸ (by decide : 0 < Double.rankBound)
      · exact nomatch h
    · exact held_of_toDouble h
  · simp only at h
    split_ifs at h with hfraction hnegative hpositive
    · exact held_of_toDouble h
    · obtain rfl := Except.ok.inj h
      have hmin : Int64.minValue.toInt = -(Nat.pow 2 63 : Nat) := rfl
      rw [Number.Held, hmin]
      omega
    · obtain rfl := Except.ok.inj h
      have hmin : Int64.minValue.toInt ≤ 0 := by decide
      rw [Number.Held]
      omega
    · exact held_of_toDouble h

theorem held_of_readNumber {negative : Bool} {text rest : Text} {n : Number}
    (h : readNumber negative text = .ok (n, rest)) : n.Held := by
  obtain ⟨⟨literal, after⟩, -, h⟩ := exists_of_bind_ok h
  obtain ⟨m, hnumber, h⟩ := exists_of_bind_ok h
  obtain ⟨rfl, -⟩ := Prod.mk.inj (Except.ok.inj h)
  exact held_of_number hnumber

/-! ## What is read -/

/-- A value that is no container and whose number, if it is one, is held. -/
inductive IsScalar : Json → Prop
  | null : IsScalar null
  | bool (b : Bool) : IsScalar (bool b)
  | num {n : Number} (h : n.Held) : IsScalar (num n)
  | str (s : String) : IsScalar (str s)

theorem isScalar_of_readScalar {text rest : Text} {v : Json}
    (h : readScalar text = .ok (v, rest)) : v.IsScalar := by
  have hnumber {negative : Bool} {text : Text}
      (h : (readNumber negative text).map (Prod.map Json.num id) = .ok (v, rest)) :
      v.IsScalar := by
    obtain ⟨⟨n, after⟩, hread, heq⟩ := exists_of_map_ok h
    obtain ⟨rfl, -⟩ := Prod.mk.inj heq
    exact .num (held_of_readNumber hread)
  unfold readScalar at h
  split at h
  · cases h
  · obtain ⟨after, -, heq⟩ := exists_of_map_ok h
    exact (Prod.mk.inj heq).1 ▸ .null
  · obtain ⟨after, -, heq⟩ := exists_of_map_ok h
    exact (Prod.mk.inj heq).1 ▸ .bool true
  · obtain ⟨after, -, heq⟩ := exists_of_map_ok h
    exact (Prod.mk.inj heq).1 ▸ .bool false
  · obtain ⟨⟨s, after⟩, -, heq⟩ := exists_of_map_ok h
    exact (Prod.mk.inj heq).1 ▸ .str s
  · exact hnumber h
  · split at h
    · exact hnumber h
    · cases h
  · cases h

theorem IsScalar.settle_eq {v : Json} (h : v.IsScalar) : v.settle = v := by
  cases h with
  | null => rfl
  | bool b => rfl
  | num _ => rfl
  | str s => rfl

theorem IsScalar.normal {v : Json} (h : v.IsScalar) : v.Normal := by
  cases h with
  | null => trivial
  | bool b => trivial
  | num h => exact h
  | str s => trivial

theorem IsScalar.within {v : Json} (h : v.IsScalar) (depth : Nat) : v.Within depth := by
  cases h with
  | null => exact .null
  | bool b => exact .bool b
  | num _ => exact .num _
  | str s => exact .str s

/-- A value is the settled form of the document as it stands in the text. -/
theorem readAs_object_eq (depth : Nat) (text : Text) :
    readAs object depth text = (readAs obj depth text).map (Prod.map settle id) := by
  have hscalar (text : Text) :
      readScalar text = (readScalar text).map (Prod.map settle id) := by
    cases hread : readScalar text with
    | error fault => rfl
    | ok read =>
        exact congrArg (fun v ↦ Except.ok (v, read.2)) (isScalar_of_readScalar hread).settle_eq.symm
  have hmap {α β γ : Type} (f : α → β) (g : β → γ) (x : Except Fault α) :
      (x.map f).map g = x.map (g ∘ f) := by
    cases x <;> rfl
  induction depth generalizing text with
  | zero =>
      obtain ⟨rest, h⟩ | ⟨rest, h⟩ | ⟨hlist, hobject⟩ := opening_cases (skipSpace text)
      · rw [readAs_tooDeep (.inl rfl) h, readAs_tooDeep (.inl rfl) h]
        rfl
      · rw [readAs_tooDeep (.inr rfl) h, readAs_tooDeep (.inr rfl) h]
        rfl
      · rw [readAs_scalar hlist hobject, readAs_scalar hlist hobject]
        exact hscalar _
  | succ depth ih =>
      obtain ⟨rest, h⟩ | ⟨rest, h⟩ | ⟨hlist, hobject⟩ := opening_cases (skipSpace text)
      · rw [readAs_list h, readAs_list h, readItems_map ih, hmap, hmap]
        refine congrArg (Except.map · _) (funext fun ⟨items, after⟩ ↦ ?_)
        simp [settle_arr]
      · rw [readAs_object h, readAs_object h, readMembers_map ih, hmap, hmap]
        refine congrArg (Except.map · _) (funext fun ⟨items, after⟩ ↦ ?_)
        simp [settle_obj, object]
      · rw [readAs_scalar hlist hobject, readAs_scalar hlist hobject]
        exact hscalar _

theorem normal_and_within_of_readAs {depth : Nat} {text rest : Text} {v : Json}
    (h : readAs object depth text = .ok (v, rest)) : v.Normal ∧ v.Within depth := by
  induction depth generalizing text rest v with
  | zero =>
      obtain ⟨start, hopen⟩ | ⟨start, hopen⟩ | ⟨hlist, hobject⟩ := opening_cases (skipSpace text)
      · exact nomatch (readAs_tooDeep (.inl rfl) hopen).symm.trans h
      · exact nomatch (readAs_tooDeep (.inr rfl) hopen).symm.trans h
      · rw [readAs_scalar hlist hobject] at h
        have hscalar := isScalar_of_readScalar h
        exact ⟨hscalar.normal, hscalar.within 0⟩
  | succ depth ih =>
      obtain ⟨start, hopen⟩ | ⟨start, hopen⟩ | ⟨hlist, hobject⟩ := opening_cases (skipSpace text)
      · rw [readAs_list hopen] at h
        obtain ⟨⟨items, after⟩, hitems, heq⟩ := exists_of_map_ok h
        obtain ⟨rfl, -⟩ := Prod.mk.inj heq
        have hall (v : Json) (hv : v ∈ items) : v.Normal ∧ v.Within depth := by
          obtain ⟨t, r, hread⟩ := exists_item_of_readItems hitems v hv
          exact ih hread
        exact ⟨normal_arr.mpr fun v hv ↦ (hall v hv).1, .arr fun v hv ↦ (hall v hv).2⟩
      · rw [readAs_object hopen] at h
        obtain ⟨⟨members, after⟩, hmembers, heq⟩ := exists_of_map_ok h
        obtain ⟨rfl, -⟩ := Prod.mk.inj heq
        have hall (p : String × Json) (hp : p ∈ Keyed.ofList members) :
            p.2.Normal ∧ p.2.Within depth := by
          obtain ⟨t, r, hread⟩ :=
            exists_value_of_readMembers hmembers p (Keyed.mem_of_mem_ofList hp)
          exact ih hread
        exact ⟨normal_obj.mpr ⟨Keyed.ordered_ofList members, fun p hp ↦ (hall p hp).1⟩,
          .obj fun p hp ↦ (hall p hp).2⟩
      · rw [readAs_scalar hlist hobject] at h
        have hscalar := isScalar_of_readScalar h
        exact ⟨hscalar.normal, hscalar.within _⟩

theorem finish_map {α β : Type} (f : α → β) (a : α) (rest : Text) :
    finish (f a, rest) = (finish (a, rest)).map f := by
  simp only [finish]
  cases skipSpace rest with
  | nil => rfl
  | cons p rest => rfl

theorem eq_of_finish {α : Type} {a b : α} {rest : Text} (h : finish (a, rest) = .ok b) : a = b := by
  simp only [finish] at h
  split at h
  · exact Except.ok.inj h
  · exact nomatch h

theorem read_eq (bytes : Bytes) : read bytes = (readDocument bytes).map settle := by
  rw [read, readDocument, readValue_eq_readAs, readAs_object_eq]
  cases readAs obj depthLimit (Text.ofBytes bytes) with
  | error fault => rfl
  | ok read => exact finish_map settle read.1 read.2

theorem normal_and_within_of_read {bytes : Bytes} {v : Json} (h : read bytes = .ok v) :
    v.Normal ∧ v.Within depthLimit := by
  obtain ⟨⟨w, rest⟩, hread, hfinish⟩ := exists_of_bind_ok h
  obtain rfl := eq_of_finish hfinish
  rw [readValue_eq_readAs] at hread
  exact normal_and_within_of_readAs hread

end TopicView.Json
