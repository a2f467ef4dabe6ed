import TopicView.Client
import TopicView.Read.Channel
import TopicView.Read.Filter
import TopicView.Read.Limit
import TopicView.Read.Summary

/-!
# Partition workers

One worker reads one partition.  It waits at three points: for its cursor to open, for the next
record, and for a slot of the channel; at each of them it looks first whether the read has been
cancelled.  Between them it claims the limit, sends, and closes its cursor, each in a step of its
own, so that the steps of several workers can be taken in any order.
-/

namespace TopicView

/-- What all workers of a read are to do. -/
structure Job where
  topic : String
  decoder : Decoder
  filter : Option Filter

/-- What the workers of a read share. -/
structure Shared where
  counter : Counter
  cancelled : Bool
  channel : Channel
  errors : List PartitionFailure
  deriving DecidableEq, Repr

namespace Shared

def cancel (sh : Shared) : Shared := { sh with cancelled := true }

/-- An error is dropped where nobody listens any more. -/
def report (sh : Shared) (f : PartitionFailure) : Shared :=
  if sh.channel.receiving then { sh with errors := sh.errors ++ [f] } else sh

end Shared

/-- A record that passed the filter, on its way to the channel. -/
structure Parcel where
  record : Record
  /-- Whether its offset is the last of the plan. -/
  isLast : Bool
  deriving DecidableEq, Repr

inductive Phase (κ : Type)
  | opening
  | pulling (cursor : κ)
  /-- Waiting for a slot of the channel. -/
  | reserving (cursor : κ) (parcel : Parcel)
  /-- Holding a slot, about to claim the limit. -/
  | claiming (cursor : κ) (parcel : Parcel)
  /-- Holding a slot and a granted claim. -/
  | sending (cursor : κ) (parcel : Parcel) (reachedLimit : Bool)
  /-- The last record of the limit has been sent; the other workers are to be stopped. -/
  | announcing (cursor : κ)
  | closing (cursor : κ) (outcome : Outcome)
  | finished (outcome : Outcome)
  | crashed
  deriving DecidableEq, Repr

/-- The worker takes no step any more. -/
def Phase.isOver {κ : Type} : Phase κ → Bool
  | finished _ | crashed => true
  | _ => false

structure Worker (κ : Type) where
  partition : PartitionId
  plan : Plan
  emitted : UInt64
  phase : Phase κ
  deriving DecidableEq, Repr

/-- The state after one worker has been given its turn.  A turn that had to wait has not `moved`;
all it may have changed is the cursor. -/
structure Turn (σ κ : Type) where
  client : σ
  shared : Shared
  worker : Worker κ
  moved : Bool

namespace Worker

variable {σ κ : Type}

def start (partition : PartitionId) (plan : Plan) : Worker κ := ⟨partition, plan, 0, .opening⟩

def go (w : Worker κ) (phase : Phase κ) : Worker κ := { w with phase }

def failure (w : Worker κ) (phase : ReadPhase) (source : Failure) : PartitionFailure :=
  ⟨w.partition, phase, source⟩

/-- Whether the plan ends before `offset`. -/
def isPast (p : Plan) (offset : Offset) : Bool :=
  match p.last with
  | some last => last < offset
  | none => false

/-- Where a worker goes on after a record that is done with. -/
def afterRecord (cursor : κ) (isLast : Bool) : Phase κ :=
  if isLast then .closing cursor .completed else .pulling cursor

/-- What is made of a record that the cursor has yielded. -/
def examine (job : Job) (w : Worker κ) (cursor : κ) (raw : RawRecord) : Phase κ :=
  if isPast w.plan raw.offset then .closing cursor .completed
  else
    let isLast : Bool := w.plan.last = some raw.offset
    let record := raw.decode job.decoder
    if admits job.filter record.key record.value then .reserving cursor ⟨record, isLast⟩
    else afterRecord cursor isLast

def turn (client : Client σ κ) (job : Job) (s : σ) (sh : Shared) (w : Worker κ) : Turn σ κ :=
  match w.phase with
  | .opening =>
    if sh.cancelled then ⟨s, sh, w.go (.finished .cancelled), true⟩
    else
      let target : TopicPartition := ⟨job.topic, w.partition⟩
      match client.openCursor s target w.plan.start (!w.plan.isBounded) with
      | (.waiting, _) => ⟨s, sh, w, false⟩
      | (.opened cursor, s) =>
        let phase := if w.plan.isEmpty then .closing cursor .completed else .pulling cursor
        ⟨s, sh, w.go phase, true⟩
      | (.failed f, s) => ⟨s, sh.report (w.failure .opening f), w.go (.finished .errored), true⟩
      | (.crashed, s) => ⟨s, sh, w.go .crashed, true⟩
  | .pulling cursor =>
    if sh.cancelled then ⟨s, sh, w.go (.closing cursor .cancelled), true⟩
    else match client.pull s cursor with
      | (.waiting, cursor, s) => ⟨s, sh, w.go (.pulling cursor), false⟩
      | (.record raw, cursor, s) => ⟨s, sh, w.go (examine job w cursor raw), true⟩
      | (.ended, cursor, s) => ⟨s, sh, w.go (.closing cursor .completed), true⟩
      | (.failed f, cursor, s) =>
        ⟨s, sh.report (w.failure .streaming f), w.go (.closing cursor .errored), true⟩
      | (.crashed, _, s) => ⟨s, sh, w.go .crashed, true⟩
  | .reserving cursor parcel =>
    if sh.cancelled || !sh.channel.receiving then
      ⟨s, sh, w.go (.closing cursor .cancelled), true⟩
    else if sh.channel.hasRoom then
      ⟨s, { sh with channel := sh.channel.reserve }, w.go (.claiming cursor parcel), true⟩
    else ⟨s, sh, w, false⟩
  | .claiming cursor parcel =>
    match sh.counter.claim with
    | (.refused, counter) =>
      ⟨s, { sh with counter, channel := sh.channel.release },
        w.go (.closing cursor .limitReached), true⟩
    | (.granted reachedLimit, counter) =>
      ⟨s, { sh with counter }, w.go (.sending cursor parcel reachedLimit), true⟩
  | .sending cursor parcel reachedLimit =>
    let phase := if reachedLimit then .announcing cursor else afterRecord cursor parcel.isLast
    ⟨s, { sh with channel := sh.channel.send parcel.record },
      { w with emitted := w.emitted + 1, phase }, true⟩
  | .announcing cursor => ⟨s, sh.cancel, w.go (.closing cursor .limitReached), true⟩
  | .closing cursor outcome =>
    let (_, s) := client.close s cursor
    ⟨s, sh, w.go (.finished outcome), true⟩
  | .finished _ | .crashed => ⟨s, sh, w, false⟩

/-- What is reported of a worker that is over.  A crashed one takes its count with it. -/
def report? (w : Worker κ) : Option Report :=
  match w.phase with
  | .finished outcome => some ⟨w.partition, w.plan, outcome, w.emitted⟩
  | .crashed => some ⟨w.partition, w.plan, .panicked, 0⟩
  | _ => none

end Worker
end TopicView
