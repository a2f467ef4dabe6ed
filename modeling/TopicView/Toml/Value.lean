import TopicView.Json.Value

/-!
# TOML values

Tables remember how they came about, because that decides what may still be added to them.
-/

namespace TopicView

inductive TableOrigin
  /-- Opened by a header of its own, or the document itself. -/
  | header
  /-- Implied by the header of a table below it. -/
  | implied
  /-- Made by a dotted key. -/
  | dotted
  /-- Written in braces; closed to additions. -/
  | inline
  deriving DecidableEq, Repr

inductive Toml
  | str (s : String)
  | int (n : Int)
  | float (d : Option Double)
  | bool (b : Bool)
  | time (text : String)
  | arr (items : List Toml)
  | table (origin : TableOrigin) (entries : List (String × Toml))
  /-- An array of tables, opened by headers in double brackets. -/
  | tables (items : List (List (String × Toml)))

namespace Toml

abbrev Entries := List (String × Toml)

def replace (key : String) (value : Toml) (entries : Entries) : Entries :=
  entries.map fun (k, v) ↦ if k = key then (k, value) else (k, v)

/-! ## Additions -/

/-- Changes the table at the end of a path.  Missing tables on the way are made with the origin
`fresh`.  A dotted key does not enter a table that a header has opened. -/
def alter (fresh : TableOrigin) (change : TableOrigin → Entries → Option Entries) :
    List String → TableOrigin → Entries → Option Entries
  | [], origin, entries => change origin entries
  | key :: path, _, entries =>
    match entries.lookup key with
    | none => (alter fresh change path fresh []).map fun es ↦ entries ++ [(key, table fresh es)]
    | some (table origin es) =>
      if origin = .inline ∨ fresh = .dotted ∧ origin = .header then none
      else (alter fresh change path origin es).map fun es ↦ replace key (table origin es) entries
    | some (tables items) =>
      match items.getLast? with
      | none => none
      | some es =>
        (alter fresh change path .header es).map fun es ↦
          replace key (tables (items.dropLast ++ [es])) entries
    | some _ => none

/-- A value under a dotted key.  The key must be new, and a path leads only into tables that dotted
keys have made. -/
def put (path : List String) (key : String) (value : Toml) (entries : Entries) : Option Entries :=
  alter .dotted (fun origin es ↦
    if (origin = .dotted) = (path = []) then none
    else if (es.lookup key).isSome then none
    else some (es ++ [(key, value)])) path .header entries

/-- The table that a header opens: new, or so far only implied. -/
def openTable (path : List String) (key : String) (root : Entries) : Option Entries :=
  alter .implied (fun _ es ↦
    match es.lookup key with
    | none => some (es ++ [(key, table .header [])])
    | some (table .implied inner) => some (replace key (table .header inner) es)
    | some _ => none) path .header root

/-- A further table of an array of tables. -/
def openRow (path : List String) (key : String) (root : Entries) : Option Entries :=
  alter .implied (fun _ es ↦
    match es.lookup key with
    | none => some (es ++ [(key, tables [[]])])
    | some (tables items) => some (replace key (tables (items ++ [[]])) es)
    | some _ => none) path .header root

/-- A value in the table that the last header has opened. -/
def putUnder (header : List String) (path : List String) (key : String) (value : Toml)
    (root : Entries) : Option Entries :=
  alter .implied (fun _ es ↦ put path key value es) header .header root

/-! ## As JSON -/

/-- The key under which a date or time is handed on. -/
def timeKey : String := "$__toml_private_datetime"

mutual

/-- The same data without the origins; a float that is no finite number becomes zero. -/
def toJson : Toml → Json
  | str s => .str s
  | int n => .int n
  | float d => .num (.double (d.getD ⟨false, 0⟩))
  | bool b => .bool b
  | time text => .obj [(timeKey, .str text)]
  | arr items => .arr (itemsJson items)
  | table _ entries => .object (entriesJson entries)
  | tables items => .arr (tablesJson items)

def itemsJson : List Toml → List Json
  | [] => []
  | v :: rest => v.toJson :: itemsJson rest

def entriesJson : List (String × Toml) → List (String × Json)
  | [] => []
  | (key, v) :: rest => (key, v.toJson) :: entriesJson rest

def tablesJson : List (List (String × Toml)) → List Json
  | [] => []
  | entries :: rest => .object (entriesJson entries) :: tablesJson rest

end

end Toml
end TopicView
