/-!
# Entries in key order

Lists of key–value pairs in ascending order of the keys, each key at most once.  Insertion keeps
them so, and of several pairs with one key the last counts.
-/

namespace TopicView

namespace Keyed

variable {α β : Type} [LT α] [DecidableLT α]

/-- A key that is there already takes the new value. -/
def insert (key : α) (value : β) : List (α × β) → List (α × β)
  | [] => [(key, value)]
  | (k, v) :: rest =>
    if key < k then (key, value) :: (k, v) :: rest
    else if k < key then (k, v) :: insert key value rest
    else (key, value) :: rest

def ofList (pairs : List (α × β)) : List (α × β) :=
  pairs.foldl (fun entries (key, value) ↦ insert key value entries) []

def keys (entries : List (α × β)) : List α := entries.map Prod.fst

/-- The keys ascend strictly. -/
def Ordered (entries : List (α × β)) : Prop := entries.Pairwise fun x y ↦ x.1 < y.1

/-! ## Order -/

theorem eq_or_mem_of_mem_insert {key : α} {value : β} {p : α × β} {entries : List (α × β)}
    (h : p ∈ insert key value entries) : p = (key, value) ∨ p ∈ entries := by
  induction entries with
  | nil => simpa [insert] using h
  | cons head rest ih =>
    obtain ⟨k, v⟩ := head
    simp only [insert] at h
    split at h
    · simpa using h
    · split at h
      · rcases List.mem_cons.1 h with rfl | h
        · simp
        · rcases ih h with h | h <;> simp [h]
      · rcases List.mem_cons.1 h with rfl | h <;> simp [*]

section

variable [LE α] [Std.IsLinearOrder α] [Std.LawfulOrderLT α]

theorem Ordered.insert {entries : List (α × β)} (h : Ordered entries) (key : α) (value : β) :
    Ordered (Keyed.insert key value entries) := by
  induction entries with
  | nil => simp [Keyed.insert, Ordered]
  | cons head rest ih =>
    obtain ⟨k, v⟩ := head
    obtain ⟨first, rest_ordered⟩ := List.pairwise_cons.1 h
    simp only [Keyed.insert]
    split
    · next hlt =>
      refine List.pairwise_cons.2 ⟨fun p hp ↦ ?_, h⟩
      rcases List.mem_cons.1 hp with rfl | hp
      · exact hlt
      · exact Std.lt_trans hlt (first p hp)
    · next hge =>
      split
      · next hlt =>
        refine List.pairwise_cons.2 ⟨fun p hp ↦ ?_, ih rest_ordered⟩
        rcases eq_or_mem_of_mem_insert hp with rfl | hp
        · exact hlt
        · exact first p hp
      · next hge' =>
        have heq : key = k := Std.le_antisymm (Std.not_lt.1 hge') (Std.not_lt.1 hge)
        subst heq
        exact List.pairwise_cons.2 ⟨first, rest_ordered⟩

theorem ordered_foldl_insert {entries : List (α × β)} (h : Ordered entries)
    (pairs : List (α × β)) :
    Ordered (pairs.foldl (fun entries (key, value) ↦ Keyed.insert key value entries) entries) := by
  induction pairs generalizing entries with
  | nil => exact h
  | cons p ps ih => exact ih (h.insert p.1 p.2)

theorem ordered_ofList (pairs : List (α × β)) : Ordered (ofList pairs) :=
  ordered_foldl_insert List.Pairwise.nil pairs

end

/-! ## Sorted sets -/

/-- A list of keys in ascending order without repetition. -/
def sortedSet (items : List α) : List α := keys (ofList (items.map fun a ↦ (a, ())))

theorem pairwise_sortedSet [LE α] [Std.IsLinearOrder α] [Std.LawfulOrderLT α] (items : List α) :
    (sortedSet items).Pairwise (· < ·) := List.pairwise_map.2 (ordered_ofList _)

end Keyed

/-- Entries with their names in ascending order, each name once. -/
structure Dictionary (β : Type) where
  toList : List (String × β)
  ordered : Keyed.Ordered toList
  deriving DecidableEq, Repr

namespace Dictionary

def empty {β : Type} : Dictionary β := ⟨[], .nil⟩

def ofList {β : Type} (pairs : List (String × β)) : Dictionary β :=
  ⟨Keyed.ofList pairs, Keyed.ordered_ofList pairs⟩

end Dictionary
end TopicView
