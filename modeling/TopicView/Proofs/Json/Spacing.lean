import TopicView.Json.Writer
import TopicView.Proofs.Json.Token

/-!
# Two ways to write

Both forms of a document put the same tokens into the text and differ in the white space between
them.
-/

namespace TopicView.Json

/-! ## White space between tokens -/

/-- White space in front of what stands at a depth, and behind a colon. -/
structure Spacing where
  line : Nat → List Char
  colon : List Char
  isSpace_line : ∀ depth, ∀ c ∈ line depth, isSpace c = true
  isSpace_colon : ∀ c ∈ colon, isSpace c = true

namespace Spacing

variable (sp : Spacing)

def tight : Spacing := ⟨fun _ ↦ [], [], nofun, nofun⟩

def lines : Spacing where
  line := newLine
  colon := [' ']
  isSpace_line depth c hc := by
    obtain rfl | hc := List.mem_cons.mp hc
    · rfl
    · exact List.eq_of_mem_replicate hc ▸ rfl
  isSpace_colon c hc := List.mem_singleton.mp hc ▸ rfl

/-- The parts of a container behind its first one. -/
def more (depth : Nat) (parts : List (List Char)) : List Char :=
  parts.flatMap fun part ↦ ',' :: (sp.line depth ++ part)

/-- The parts of a container between its brackets. -/
def enclose (left right : Char) (depth : Nat) : List (List Char) → List Char
  | [] => [left, right]
  | part :: parts =>
    left :: (sp.line (depth + 1) ++ part ++ sp.more (depth + 1) parts ++ sp.line depth ++ [right])

def member (key : String) (value : List Char) : List Char :=
  writeString key ++ ':' :: (sp.colon ++ value)

/-- The writer puts white space where `sp` says. -/
structure Rules (w : Nat → Json → List Char) : Prop where
  null (depth : Nat) : w depth .null = ['n', 'u', 'l', 'l']
  bool (depth : Nat) (b : Bool) :
    w depth (.bool b) = if b then ['t', 'r', 'u', 'e'] else ['f', 'a', 'l', 's', 'e']
  num (depth : Nat) (n : Number) : w depth (.num n) = n.write
  str (depth : Nat) (s : String) : w depth (.str s) = writeString s
  arr (depth : Nat) (items : List Json) :
    w depth (.arr items) = sp.enclose '[' ']' depth (items.map (w (depth + 1)))
  obj (depth : Nat) (members : List (String × Json)) :
    w depth (.obj members) = sp.enclose '\x7b' '\x7d' depth
      (members.map fun p ↦ sp.member p.1 (w (depth + 1) p.2))

end Spacing

/-! ## The two writers -/

theorem writeItems_cons (depth : Nat) (item : Json) (rest : List Json) :
    writeItems (item :: rest) =
      writeCompact item ++ Spacing.tight.more depth (rest.map writeCompact) := by
  induction rest generalizing item with
  | nil => simp [writeItems, Spacing.more]
  | cons next rest ih =>
      rw [writeItems, ih]
      · simp [Spacing.more, Spacing.tight]
      · exact nofun

theorem writeMembers_cons (depth : Nat) (p : String × Json) (rest : List (String × Json)) :
    writeMembers (p :: rest) = Spacing.tight.member p.1 (writeCompact p.2) ++
      Spacing.tight.more depth
        (rest.map fun p ↦ Spacing.tight.member p.1 (writeCompact p.2)) := by
  induction rest generalizing p with
  | nil => simp [writeMembers, Spacing.more, Spacing.member, Spacing.tight]
  | cons next rest ih =>
      rw [writeMembers, ih]
      · simp [Spacing.more, Spacing.member, Spacing.tight]
      · exact nofun

theorem rules_compact : Spacing.tight.Rules fun _ ↦ writeCompact where
  null _ := rfl
  bool _ b := by
    cases b with
    | true => rfl
    | false => rfl
  num _ _ := rfl
  str _ _ := rfl
  arr depth items := by
    cases items with
    | nil => rfl
    | cons item rest =>
        rw [writeCompact, writeItems_cons (depth + 1)]
        simp [Spacing.enclose, Spacing.tight]
  obj depth members := by
    cases members with
    | nil => rfl
    | cons p rest =>
        rw [writeCompact, writeMembers_cons (depth + 1)]
        simp [Spacing.enclose, Spacing.tight]

theorem prettyItems_cons (depth : Nat) (item : Json) (rest : List Json) :
    prettyItems depth (item :: rest) = newLine depth ++ writePretty depth item ++
      Spacing.lines.more depth (rest.map (writePretty depth)) := by
  induction rest generalizing item with
  | nil => simp [prettyItems, Spacing.more]
  | cons next rest ih =>
      rw [prettyItems, ih]
      · simp [Spacing.more, Spacing.lines]
      · exact nofun

theorem prettyMembers_cons (depth : Nat) (p : String × Json) (rest : List (String × Json)) :
    prettyMembers depth (p :: rest) =
      newLine depth ++ Spacing.lines.member p.1 (writePretty depth p.2) ++
        Spacing.lines.more depth
          (rest.map fun p ↦ Spacing.lines.member p.1 (writePretty depth p.2)) := by
  induction rest generalizing p with
  | nil => simp [prettyMembers, Spacing.more, Spacing.member, Spacing.lines]
  | cons next rest ih =>
      rw [prettyMembers, ih]
      · simp [Spacing.more, Spacing.member, Spacing.lines]
      · exact nofun

theorem rules_pretty : Spacing.lines.Rules writePretty where
  null _ := rfl
  bool _ b := by
    cases b with
    | true => rfl
    | false => rfl
  num _ _ := rfl
  str _ _ := rfl
  arr depth items := by
    cases items with
    | nil => rfl
    | cons item rest =>
        rw [writePretty, prettyItems_cons]
        · simp [Spacing.enclose, Spacing.lines]
        · exact nofun
  obj depth members := by
    cases members with
    | nil => rfl
    | cons p rest =>
        rw [writePretty, prettyMembers_cons]
        · simp [Spacing.enclose, Spacing.lines]
        · exact nofun

end TopicView.Json
