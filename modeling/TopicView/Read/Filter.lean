import TopicView.Json.Format
import TopicView.Text.Excerpt

/-!
# Filters

A filter decides by the key or by the value, never by both.
-/

namespace TopicView

inductive KeyMode
  | none
  | contains
  | startsWith
  deriving DecidableEq, Repr

namespace KeyMode

def name : KeyMode → String
  | none => "none"
  | contains => "contains"
  | startsWith => "starts-with"

def choices : List (String × KeyMode) :=
  [("none", none), ("contains", contains), ("starts-with", startsWith)]

def format : Json.Format KeyMode := .choice choices

end KeyMode

structure Filter where
  keyMode : KeyMode := .none
  keyTerm : String := ""
  valueTerm : String := ""
  deriving DecidableEq, Repr

namespace Filter

def keyContains (term : String) : Filter := { keyMode := .contains, keyTerm := term }

def keyStartsWith (term : String) : Filter := { keyMode := .startsWith, keyTerm := term }

def valueContains (term : String) : Filter := { valueTerm := term }

/-- The value counts only without a key mode. -/
def admits (f : Filter) (key value : String) : Bool :=
  match f.keyMode with
  | .contains => Text.contains key f.keyTerm
  | .startsWith => Text.startsWith key f.keyTerm
  | .none => Text.contains value f.valueTerm

def toJson (f : Filter) : Json :=
  .obj [("key_mode", .str f.keyMode.name), ("key_term", .str f.keyTerm),
    ("value_term", .str f.valueTerm)]

def format : Json.Format Filter :=
  .record "Filter" {}
    [.may "key_mode" KeyMode.format fun keyMode f ↦ { f with keyMode },
     .may "key_term" .string fun keyTerm f ↦ { f with keyTerm },
     .may "value_term" .string fun valueTerm f ↦ { f with valueTerm }]

end Filter

/-- Without a filter every record passes. -/
def admits (filter : Option Filter) (key value : String) : Bool :=
  match filter with
  | none => true
  | some f => f.admits key value

end TopicView
