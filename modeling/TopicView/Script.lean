import TopicView.Client

/-!
# Scripted clients

A client that plays what has been written down for each partition: its offsets, how it opens, and
what its cursor yields.  Gates hold an opening or a cursor until a permit is given; permits
accumulate.
-/

namespace TopicView

inductive ScriptStep
  | record (raw : RawRecord)
  | gate
  | ended
  | failed (failure : Failure)
  | crashed
  deriving DecidableEq, Repr

/-- How a scripted partition opens, once its gate lets it. -/
inductive ScriptOpening
  | opens
  | fails (failure : Failure)
  | crashes
  deriving DecidableEq, Repr

structure ScriptPartition where
  oldest : Result Failure Offset
  firstAvailable : Result Failure Offset
  gated : Bool
  opening : ScriptOpening
  steps : List ScriptStep

/-- The partitions, the permits not yet used, and the cursors opened and closed so far. -/
structure Script where
  partitions : List (PartitionId × ScriptPartition)
  permits : List (PartitionId × Nat) := []
  openPermits : List (PartitionId × Nat) := []
  opened : List (PartitionId × Offset × Bool) := []
  closed : List PartitionId := []

structure ScriptCursor where
  partition : PartitionId
  follow : Bool
  steps : List ScriptStep
  deriving DecidableEq, Repr

namespace Script

def unknown (partition : PartitionId) : Failure :=
  ⟨.notFound, s!"partition {Numeral.text partition.toInt}"⟩

/-! ## Permits -/

def permitsOf (permits : List (PartitionId × Nat)) (partition : PartitionId) : Nat :=
  (permits.lookup partition).getD 0

def give (permits : List (PartitionId × Nat)) (partition : PartitionId) :
    List (PartitionId × Nat) :=
  Keyed.insert partition (permitsOf permits partition + 1) permits

def take? (permits : List (PartitionId × Nat)) (partition : PartitionId) :
    Option (List (PartitionId × Nat)) :=
  match permitsOf permits partition with
  | 0 => none
  | n + 1 => some (Keyed.insert partition n permits)

def release (s : Script) (partition : PartitionId) : Script :=
  { s with permits := give s.permits partition }

def releaseOpening (s : Script) (partition : PartitionId) : Script :=
  { s with openPermits := give s.openPermits partition }

/-! ## Playing -/

def lookup (s : Script) (_topic : String) (partition : PartitionId) : Lookup :=
  match s.partitions.lookup partition with
  | some p => ⟨p.oldest, p.firstAvailable⟩
  | none => ⟨.error (unknown partition), .error (unknown partition)⟩

/-- The opening behind its gate. -/
def enter (s : Script) (p : ScriptPartition) (partition : PartitionId) (start : Offset)
    (follow : Bool) : Opening ScriptCursor × Script :=
  match p.opening with
  | .opens =>
    (.opened ⟨partition, follow, p.steps⟩,
      { s with opened := s.opened ++ [(partition, start, follow)] })
  | .fails failure => (.failed failure, s)
  | .crashes => (.crashed, s)

def openCursor (s : Script) (target : TopicPartition) (start : Offset) (follow : Bool) :
    Opening ScriptCursor × Script :=
  match s.partitions.lookup target.partition with
  | none => (.failed (unknown target.partition), s)
  | some p =>
    if p.gated then
      match take? s.openPermits target.partition with
      | none => (.waiting, s)
      | some openPermits => enter { s with openPermits } p target.partition start follow
    else enter s p target.partition start follow

/-- Plays the steps that are left; `c` is the cursor they belong to. -/
def play (s : Script) (c : ScriptCursor) : List ScriptStep → Pull × ScriptCursor × Script
  | [] => (if c.follow then .waiting else .ended, { c with steps := [] }, s)
  | .gate :: rest =>
    match take? s.permits c.partition with
    | none => (.waiting, { c with steps := .gate :: rest }, s)
    | some permits => play { s with permits } c rest
  | .record raw :: rest => (.record raw, { c with steps := rest }, s)
  | .ended :: rest => (.ended, { c with steps := rest }, s)
  | .failed failure :: rest => (.failed failure, { c with steps := rest }, s)
  | .crashed :: rest => (.crashed, { c with steps := rest }, s)

def close (s : Script) (c : ScriptCursor) : ScriptCursor × Script :=
  (c, { s with closed := s.closed ++ [c.partition] })

def client : Client Script ScriptCursor where
  lookup := lookup
  openCursor := openCursor
  pull s c := play s c c.steps
  close := close
  bound s := s.partitions.foldr (fun (_, p) n ↦ p.steps.length + n) 2

end Script
end TopicView
