import Mathlib.Data.List.Induction
import TopicView.Keyed

/-!
# Entries by key

What insertion does to the entry of each key.  A list in key order is settled by the values of the
keys, and the list made of pairs in any order has the last value of each key.
-/

namespace TopicView.Keyed

variable {α β : Type} [LT α] [DecidableLT α]

theorem ofList_concat (pairs : List (α × β)) (p : α × β) :
    ofList (pairs ++ [p]) = insert p.1 p.2 (ofList pairs) := List.foldl_append

theorem mem_of_mem_ofList {p : α × β} {pairs : List (α × β)} (h : p ∈ ofList pairs) :
    p ∈ pairs := by
  induction pairs using List.reverseRecOn with
  | nil => exact h
  | append_singleton pairs q ih =>
      rw [ofList_concat] at h
      obtain rfl | h := eq_or_mem_of_mem_insert h
      · exact List.mem_concat_self
      · exact List.mem_append_left _ (ih h)

theorem insert_of_forall_lt {key : α} {value : β} {entries : List (α × β)}
    (h : ∀ p ∈ entries, key < p.1) : insert key value entries = (key, value) :: entries := by
  cases entries with
  | nil => rfl
  | cons head rest => simp [insert, h head (by simp)]

variable [LE α] [Std.IsLinearOrder α] [Std.LawfulOrderLT α]

theorem insert_of_forall_gt {key : α} {value : β} {entries : List (α × β)}
    (h : ∀ p ∈ entries, p.1 < key) : insert key value entries = entries ++ [(key, value)] := by
  induction entries with
  | nil => rfl
  | cons head rest ih =>
      have hlt := h head List.mem_cons_self
      have hrest := ih fun p hp ↦ h p (List.mem_cons_of_mem head hp)
      have hge : ¬ key < head.1 := Std.not_lt.mpr (Std.le_of_lt hlt)
      simp only [insert, if_neg hge, if_pos hlt, hrest, List.cons_append]

theorem ofList_eq_self {entries : List (α × β)} (h : Ordered entries) :
    ofList entries = entries := by
  induction entries using List.reverseRecOn with
  | nil => rfl
  | append_singleton entries p ih =>
      obtain ⟨hinit, -, hlast⟩ := List.pairwise_append.mp h
      rw [ofList_concat, ih hinit]
      exact insert_of_forall_gt fun q hq ↦ hlast q hq p List.mem_cons_self

/-! ## Keys -/

theorem mem_keys_insert {key k : α} {value : β} {entries : List (α × β)} :
    k ∈ keys (insert key value entries) ↔ k = key ∨ k ∈ keys entries := by
  induction entries with
  | nil => simp [insert, keys]
  | cons head rest ih =>
      obtain ⟨k', v⟩ := head
      simp only [insert]
      split
      · simp [keys]
      · split
        · have hcons (l : List (α × β)) : k ∈ keys ((k', v) :: l) ↔ k = k' ∨ k ∈ keys l := by
            simp [keys]
          rw [hcons, hcons, ih, or_left_comm]
        · next hge hge' =>
            have heq : key = k' := Std.le_antisymm (Std.not_lt.mp hge') (Std.not_lt.mp hge)
            simp [keys, heq]

theorem mem_keys_ofList {k : α} {pairs : List (α × β)} :
    k ∈ keys (ofList pairs) ↔ k ∈ keys pairs := by
  induction pairs using List.reverseRecOn with
  | nil => rfl
  | append_singleton pairs p ih =>
      rw [ofList_concat, mem_keys_insert, ih, or_comm]
      simp [keys]

theorem mem_sortedSet {k : α} {items : List α} : k ∈ sortedSet items ↔ k ∈ items := by
  rw [sortedSet, mem_keys_ofList, keys, List.map_map]
  exact iff_of_eq (congrArg (k ∈ ·) (List.map_id items))

/-! ## Values -/

section Lookup

omit [LT α] [DecidableLT α] [LE α] [Std.IsLinearOrder α] [Std.LawfulOrderLT α]

theorem lookup_cons [DecidableEq α] (k k' : α) (v : β) (rest : List (α × β)) :
    ((k', v) :: rest).lookup k = if k = k' then some v else rest.lookup k := by
  rw [List.lookup_cons]
  by_cases h : k = k'
  · simp [h]
  · have hbeq : (k == k') = false := by simpa using h
    rw [hbeq, if_neg h]

theorem lookup_map {γ : Type} [DecidableEq α] (f : β → γ) (entries : List (α × β)) (k : α) :
    (entries.map (Prod.map id f)).lookup k = (entries.lookup k).map f := by
  induction entries with
  | nil => rfl
  | cons head rest ih =>
      obtain ⟨k', v⟩ := head
      rw [List.map_cons, Prod.map_apply, id, lookup_cons, lookup_cons, ih]
      split
      · rfl
      · rfl

theorem mem_of_lookup [DecidableEq α] {entries : List (α × β)} {k : α} {v : β}
    (h : entries.lookup k = some v) : (k, v) ∈ entries := by
  obtain ⟨front, back, rfl, -⟩ := List.lookup_eq_some_iff.mp h
  exact List.mem_append_right _ List.mem_cons_self

end Lookup

section Ext

omit [DecidableLT α]

omit [Std.IsLinearOrder α] in
theorem lookup_of_forall_lt [DecidableEq α] {k : α} {entries : List (α × β)}
    (h : ∀ p ∈ entries, k < p.1) : entries.lookup k = none := by
  refine List.lookup_eq_none_iff.mpr fun p hp ↦ ?_
  simpa using Std.ne_of_lt (h p hp)

/-- A key in front of the first one has no value. -/
theorem not_lt_of_lookup_eq [DecidableEq α] {k k' : α} {v v' : β} {rest rest' : List (α × β)}
    (hfirst : ∀ p ∈ rest, k < p.1)
    (heq : ∀ j, ((k, v) :: rest).lookup j = ((k', v') :: rest').lookup j) : ¬ k' < k := by
  intro hlt
  have hnone : ((k, v) :: rest).lookup k' = none := lookup_of_forall_lt
    (List.forall_mem_cons.mpr ⟨hlt, fun p hp ↦ Std.lt_trans hlt (hfirst p hp)⟩)
  have hsome : ((k', v') :: rest').lookup k' = some v' := List.lookup_cons_self
  exact absurd (hsome.symm.trans ((heq k').symm.trans hnone)) (Option.some_ne_none v')

/-- Two lists in key order are one if every key has the same value in both. -/
theorem Ordered.ext [DecidableEq α] {entries entries' : List (α × β)} (h : Ordered entries)
    (h' : Ordered entries') (heq : ∀ k, entries.lookup k = entries'.lookup k) :
    entries = entries' := by
  induction entries generalizing entries' with
  | nil =>
      cases entries' with
      | nil => rfl
      | cons p rest => exact absurd (List.lookup_cons_self.symm.trans (heq p.1).symm) nofun
  | cons p rest ih =>
      cases entries' with
      | nil => exact absurd (List.lookup_cons_self.symm.trans (heq p.1)) nofun
      | cons q rest' =>
          obtain ⟨hfirst, hrest⟩ := List.pairwise_cons.mp h
          obtain ⟨hfirst', hrest'⟩ := List.pairwise_cons.mp h'
          obtain ⟨k, v⟩ := p
          obtain ⟨k', v'⟩ := q
          have hle := Std.not_lt.mp (not_lt_of_lookup_eq hfirst heq)
          have hge := Std.not_lt.mp (not_lt_of_lookup_eq hfirst' fun j ↦ (heq j).symm)
          obtain rfl : k = k' := Std.le_antisymm hle hge
          obtain rfl : v = v' := by simpa [lookup_cons] using heq k
          have htail (j : α) : rest.lookup j = rest'.lookup j := by
            by_cases hj : j = k
            · rw [hj, lookup_of_forall_lt hfirst, lookup_of_forall_lt hfirst']
            · simpa [lookup_cons, hj] using heq j
          rw [ih hrest hrest' htail]

end Ext

theorem lookup_insert [DecidableEq α] (key : α) (value : β) (entries : List (α × β)) (k : α) :
    (insert key value entries).lookup k = if k = key then some value else entries.lookup k := by
  induction entries with
  | nil => rw [insert, lookup_cons]
  | cons head rest ih =>
      obtain ⟨k', v⟩ := head
      simp only [insert]
      split
      · rw [lookup_cons]
      · split
        · next hlt =>
            have hne : k' ≠ key := Std.ne_of_lt hlt
            by_cases h : k = k'
            · simp [h, hne]
            · simp [lookup_cons, h, ih]
        · next hge hge' =>
            have heq : key = k' := Std.le_antisymm (Std.not_lt.mp hge') (Std.not_lt.mp hge)
            by_cases h : k = key <;> simp [lookup_cons, h, ← heq]

/-- Of several pairs with one key the last counts. -/
theorem lookup_ofList [DecidableEq α] (pairs : List (α × β)) (k : α) :
    (ofList pairs).lookup k = pairs.reverse.lookup k := by
  induction pairs using List.reverseRecOn with
  | nil => rfl
  | append_singleton pairs p ih =>
      rw [ofList_concat, lookup_insert, ih, List.reverse_concat, lookup_cons]

end TopicView.Keyed
