import TopicView.Read.Plan

/-!
# Summaries

How each worker of a read ended, and what the read delivered in all.
-/

namespace TopicView

inductive Outcome
  /-- Delivered up to the planned end, or the cursor ran dry. -/
  | completed
  | limitReached
  | cancelled
  | errored
  | panicked
  deriving DecidableEq, Repr

namespace Outcome

def isFailure : Outcome → Bool
  | errored | panicked => true
  | _ => false

def name : Outcome → String
  | completed => "completed"
  | limitReached => "limit-reached"
  | cancelled => "cancelled"
  | errored => "errored"
  | panicked => "panicked"

end Outcome

structure Report where
  partition : PartitionId
  plan : Plan
  outcome : Outcome
  emitted : UInt64
  deriving DecidableEq, Repr

structure Summary where
  emitted : UInt64
  reports : List Report
  deriving DecidableEq, Repr

namespace Summary

def failedPartitions (s : Summary) : List PartitionId :=
  (s.reports.filter (·.outcome.isFailure)).map (·.partition)

def outcomeOf? (s : Summary) (partition : PartitionId) : Option Outcome :=
  (s.reports.find? (·.partition = partition)).map (·.outcome)

end Summary

def Report.toJson (r : Report) : Json :=
  .obj [("partition", .int r.partition.toInt), ("plan", r.plan.toJson),
    ("outcome", .str r.outcome.name), ("emitted", .int r.emitted.toNat)]

def Summary.toJson (s : Summary) : Json :=
  .obj [("emitted", .int s.emitted.toNat), ("partitions", .arr (s.reports.map Report.toJson))]

end TopicView
