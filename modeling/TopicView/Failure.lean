/-!
# Failures

What a log reports when a call on it fails.
-/

namespace TopicView

inductive FailureKind
  | io
  | serialization
  | network
  | notFound
  | invalidInput
  | configuration
  | internal
  deriving DecidableEq, Repr

def FailureKind.label : FailureKind → String
  | io => "I/O error"
  | serialization => "Serialization error"
  | network => "Network error"
  | notFound => "Not found"
  | invalidInput => "Invalid input"
  | configuration => "Configuration error"
  | internal => "Internal error"

structure Failure where
  kind : FailureKind
  text : String
  deriving DecidableEq, Repr

namespace Failure

def message (f : Failure) : String := s!"{f.kind.label}: {f.text}"

/-- Whether the same call may succeed when it is made again. -/
def isTransient (f : Failure) : Bool := f.kind = .io || f.kind = .network

end Failure
end TopicView
