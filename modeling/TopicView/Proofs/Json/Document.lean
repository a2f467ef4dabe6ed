import Mathlib.Data.List.Forall2
import TopicView.Json.Value
import TopicView.Proofs.Keyed

/-!
# Documents

An object is a map in which the last of several members with one key counts.  Two documents are the
same if they do not differ as maps, and they are so exactly if they settle to one value, in which
every object has its keys in order.
-/

namespace TopicView.Json

/-! ## Induction over values -/

@[elab_as_elim, induction_eliminator]
theorem induct {P : Json → Prop} (null : P .null) (bool : ∀ b, P (.bool b))
    (num : ∀ n, P (.num n)) (str : ∀ s, P (.str s))
    (arr : ∀ items, (∀ v ∈ items, P v) → P (.arr items))
    (obj : ∀ members : List (String × Json), (∀ p ∈ members, P p.2) → P (.obj members)) :
    ∀ v, P v :=
  @Json.rec P (fun items ↦ ∀ v ∈ items, P v) (fun members ↦ ∀ p ∈ members, P p.2)
    (fun p ↦ P p.2) null bool num str arr obj nofun
    (fun _ _ hv hrest ↦ List.forall_mem_cons.mpr ⟨hv, hrest⟩) nofun
    (fun _ _ hp hrest ↦ List.forall_mem_cons.mpr ⟨hp, hrest⟩) fun _ _ h ↦ h

theorem normalItems_iff {items : List Json} : NormalItems items ↔ ∀ v ∈ items, v.Normal := by
  induction items with
  | nil => exact iff_of_true trivial nofun
  | cons v items ih => rw [NormalItems, ih, List.forall_mem_cons]

theorem normalMembers_iff {members : List (String × Json)} :
    NormalMembers members ↔ ∀ p ∈ members, p.2.Normal := by
  induction members with
  | nil => exact iff_of_true trivial nofun
  | cons p members ih => rw [NormalMembers, ih, List.forall_mem_cons]

theorem normal_arr {items : List Json} : (arr items).Normal ↔ ∀ v ∈ items, v.Normal := by
  rw [Normal, normalItems_iff]

theorem normal_obj {members : List (String × Json)} :
    (obj members).Normal ↔ Keyed.Ordered members ∧ ∀ p ∈ members, p.2.Normal := by
  rw [Normal, normalMembers_iff]

/-- Containers nest at most this deep. -/
inductive Within : Nat → Json → Prop
  | null {depth : Nat} : Within depth null
  | bool {depth : Nat} (b : Bool) : Within depth (bool b)
  | num {depth : Nat} (n : Number) : Within depth (num n)
  | str {depth : Nat} (s : String) : Within depth (str s)
  | arr {depth : Nat} {items : List Json} (h : ∀ v ∈ items, Within depth v) :
    Within (depth + 1) (arr items)
  | obj {depth : Nat} {members : List (String × Json)} (h : ∀ p ∈ members, Within depth p.2) :
    Within (depth + 1) (obj members)

/-- Every number is an integer of a signed or unsigned 64-bit word. -/
inductive Integral : Json → Prop
  | null : Integral null
  | bool (b : Bool) : Integral (bool b)
  | int {n : Int} (h : (Number.int n).Held) : Integral (num (.int n))
  | str (s : String) : Integral (str s)
  | arr {items : List Json} (h : ∀ v ∈ items, Integral v) : Integral (arr items)
  | obj {members : List (String × Json)} (h : ∀ p ∈ members, Integral p.2) :
    Integral (obj members)

/-! ## Documents as maps -/

mutual

/-- Every object with its keys in order, each with its last value. -/
def settle : Json → Json
  | null => null
  | bool b => bool b
  | num n => num n
  | str s => str s
  | arr items => arr (settleItems items)
  | obj members => object (settleMembers members)

def settleItems : List Json → List Json
  | [] => []
  | item :: rest => item.settle :: settleItems rest

def settleMembers : List (String × Json) → List (String × Json)
  | [] => []
  | (key, value) :: rest => (key, value.settle) :: settleMembers rest

end

theorem settleItems_eq_map (items : List Json) : settleItems items = items.map settle := by
  induction items with
  | nil => rfl
  | cons v items ih => rw [settleItems, ih, List.map_cons]

theorem settleMembers_eq_map (members : List (String × Json)) :
    settleMembers members = members.map (Prod.map id settle) := by
  induction members with
  | nil => rfl
  | cons p members ih =>
      rw [settleMembers, ih, List.map_cons]
      rfl

/-- The value of a key: the last that is given. -/
def last? (key : String) (members : List (String × Json)) : Option Json :=
  members.reverse.lookup key

/-- The documents do not differ but for the order of the members and for values that do not
count. -/
inductive Same : Json → Json → Prop
  | null : Same null null
  | bool (b : Bool) : Same (bool b) (bool b)
  | num (n : Number) : Same (num n) (num n)
  | str (s : String) : Same (str s) (str s)
  | arr {items items' : List Json} (h : List.Forall₂ Same items items') :
    Same (arr items) (arr items')
  | obj {members members' : List (String × Json)}
    (h : ∀ key, Option.Rel Same (last? key members) (last? key members')) :
    Same (obj members) (obj members')

theorem mem_of_last? {key : String} {members : List (String × Json)} {v : Json}
    (h : last? key members = some v) : (key, v) ∈ members :=
  List.mem_reverse.mp (Keyed.mem_of_lookup h)

theorem settle_obj (members : List (String × Json)) :
    (obj members).settle = obj (Keyed.ofList (members.map (Prod.map id settle))) := by
  rw [settle, settleMembers_eq_map, object]

theorem settle_arr (items : List Json) : (arr items).settle = arr (items.map settle) := by
  rw [settle, settleItems_eq_map]

theorem lookup_settled (key : String) (members : List (String × Json)) :
    (Keyed.ofList (members.map (Prod.map id settle))).lookup key =
      (last? key members).map settle := by
  rw [Keyed.lookup_ofList, ← List.map_reverse, Keyed.lookup_map, last?]

section Images

variable {α β : Type} {R : α → α → Prop} {f : α → β}

theorem rel_iff_map_eq {a b : Option α} (h : ∀ v, a = some v → ∀ w, R v w ↔ f v = f w) :
    Option.Rel R a b ↔ a.map f = b.map f := by
  constructor
  · intro hrel
    cases hrel with
    | none => rfl
    | some hr => exact congrArg some ((h _ rfl _).mp hr)
  · intro heq
    cases a with
    | none =>
        obtain rfl := Option.map_eq_none_iff.mp heq.symm
        exact .none
    | some v =>
        obtain ⟨w, rfl, hw⟩ := Option.map_eq_some_iff.mp heq.symm
        exact .some ((h v rfl w).mpr hw.symm)

theorem forall₂_iff_map_eq {as bs : List α} (h : ∀ v ∈ as, ∀ w, R v w ↔ f v = f w) :
    List.Forall₂ R as bs ↔ as.map f = bs.map f := by
  induction as generalizing bs with
  | nil => simp [eq_comm]
  | cons a as ih =>
      obtain ⟨hfirst, hrest⟩ := List.forall_mem_cons.mp h
      cases bs with
      | nil => simp
      | cons b bs => simp [hfirst, ih hrest]

end Images

theorem same_arr_iff {items : List Json} {w : Json} :
    (arr items).Same w ↔ ∃ items', w = arr items' ∧ List.Forall₂ Same items items' := by
  constructor
  · rintro ⟨⟩
    exact ⟨_, rfl, ‹_›⟩
  · rintro ⟨items', rfl, h⟩
    exact .arr h

theorem same_obj_iff {members : List (String × Json)} {w : Json} :
    (obj members).Same w ↔ ∃ members', w = obj members' ∧
      ∀ key, Option.Rel Same (last? key members) (last? key members') := by
  constructor
  · rintro ⟨⟩
    exact ⟨_, rfl, ‹_›⟩
  · rintro ⟨members', rfl, h⟩
    exact .obj h

theorem arr_eq_settle_iff {items : List Json} {w : Json} :
    arr items = w.settle ↔ ∃ items', w = arr items' ∧ items = items'.map settle := by
  cases w with
  | arr items' => simp [settle_arr]
  | null | bool _ | num _ | str _ | obj _ => exact iff_of_false nofun nofun

theorem obj_eq_settle_iff {members : List (String × Json)} {w : Json} :
    obj members = w.settle ↔ ∃ members', w = obj members' ∧
      members = Keyed.ofList (members'.map (Prod.map id settle)) := by
  cases w with
  | obj members' => simp [settle_obj]
  | null | bool _ | num _ | str _ | arr _ => exact iff_of_false nofun nofun

/-- Documents are the same exactly if they settle to one value. -/
theorem same_iff {v w : Json} : v.Same w ↔ v.settle = w.settle := by
  induction v generalizing w with
  | null | bool _ | num _ | str _ =>
      constructor
      · intro h
        cases h
        rfl
      · intro h
        cases w <;> cases h
        constructor
  | arr items ih =>
      rw [same_arr_iff, settle_arr, arr_eq_settle_iff]
      exact exists_congr fun items' ↦ and_congr_right' (forall₂_iff_map_eq fun v hv w ↦ ih v hv)
  | obj members ih =>
      rw [same_obj_iff, settle_obj, obj_eq_settle_iff]
      refine exists_congr fun members' ↦ and_congr_right' ?_
      have hkey (key : String) : Option.Rel Same (last? key members) (last? key members') ↔
          (last? key members).map settle = (last? key members').map settle :=
        rel_iff_map_eq fun v hv w ↦ ih _ (mem_of_last? hv)
      simp only [hkey, ← lookup_settled]
      constructor
      · exact (Keyed.ordered_ofList _).ext (Keyed.ordered_ofList _)
      · intro h key
        rw [h]

theorem Integral.settle {v : Json} (h : v.Integral) : v.settle.Integral := by
  induction h with
  | null => exact .null
  | bool b => exact .bool b
  | int h => exact .int h
  | str s => exact .str s
  | arr _ ih =>
      rw [settle_arr]
      exact .arr (List.forall_mem_map.mpr ih)
  | obj _ ih =>
      rw [settle_obj]
      refine .obj fun p hp ↦ ?_
      obtain ⟨q, hq, rfl⟩ := List.mem_map.mp (Keyed.mem_of_mem_ofList hp)
      exact ih q hq

/-- A normal value is settled. -/
theorem settle_of_normal {v : Json} (h : v.Normal) : v.settle = v := by
  induction v with
  | null => rfl
  | bool b => rfl
  | num n => rfl
  | str s => rfl
  | arr items ih =>
      have hitems := normal_arr.mp h
      rw [settle_arr, List.map_congr_left fun v hv ↦ ih v hv (hitems v hv), List.map_id']
  | obj members ih =>
      obtain ⟨hordered, hmembers⟩ := normal_obj.mp h
      have hsettled : members.map (Prod.map id settle) = members := by
        refine (List.map_congr_left fun p hp ↦ ?_).trans (List.map_id' members)
        exact Prod.ext rfl (ih p hp (hmembers p hp))
      rw [settle_obj, hsettled, Keyed.ofList_eq_self hordered]

end TopicView.Json
