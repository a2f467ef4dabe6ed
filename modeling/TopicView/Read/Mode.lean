import TopicView.Read.Error

/-!
# Read modes

Where in each partition a read starts, and whether it ends.
-/

namespace TopicView

inductive Mode
  | beginning
  | mostRecent
  | live
  deriving DecidableEq, Repr

namespace Mode

/-- A live read has no end. -/
def isBounded : Mode → Bool
  | live => false
  | _ => true

def name : Mode → String
  | beginning => "beginning"
  | mostRecent => "most-recent"
  | live => "live"

def choices : List (String × Mode) :=
  [("beginning", beginning), ("most-recent", mostRecent), ("live", live)]

def format : Json.Format Mode := .choice choices

def aliases : List (String × Mode) :=
  [("beginning", beginning), ("oldest", beginning), ("earliest", beginning),
   ("most-recent", mostRecent), ("most_recent", mostRecent), ("newest", mostRecent),
   ("latest", mostRecent), ("live", live), ("tail", live)]

/-- The name under which a mode is asked for on a command line, in any case. -/
def parse (text : String) : Except ReadError Mode :=
  let name := text.map Char.toLower
  match aliases.lookup name with
  | some mode => .ok mode
  | none => .error (.invalidRequest (.unknownMode name))

end Mode
end TopicView
