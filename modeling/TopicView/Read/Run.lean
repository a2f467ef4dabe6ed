import TopicView.Read.Request
import TopicView.Read.Worker
import TopicView.Settings

/-!
# Reads

A read resolves the ranges of its partitions, plans them, and lets one worker run for each.  Its
state changes by turns of its workers and by the collecting of their reports, in any order.
-/

namespace TopicView

structure Read (κ : Type) where
  job : Job
  shared : Shared
  workers : List (Worker κ)
  /-- The reports collected so far, by partition. -/
  reports : List (PartitionId × Report)

/-- A read that was not refused. -/
inductive Started (κ : Type)
  /-- No partition has anything to read, so there is no worker. -/
  | emptyTopic
  | running (read : Read κ)

variable {σ κ : Type}

def planAll? (request : Request) (offsets : List (PartitionId × Offsets)) :
    Option (List (PartitionId × Plan)) :=
  offsets.mapM fun (partition, o) ↦
    (plan? request.mode request.limit (UInt64.ofNat request.partitions.size) o).map (partition, ·)

/-- A read with all its workers before their first step. -/
def Read.make (request : Request) (decoder : Decoder) (capacity : Nat) (cancelled : Bool)
    (plans : List (PartitionId × Plan)) : Read κ where
  job := ⟨request.topic, decoder, request.filter⟩
  shared := ⟨.start request.effectiveLimit, cancelled, .make capacity, []⟩
  workers := plans.map fun (partition, plan) ↦ .start partition plan
  reports := []

/-- The request and the settings are checked before the client is asked for anything. -/
def startRead (client : Client σ κ) (s : σ) (settings : ReaderSettings) (decoder : Decoder)
    (request : Request) (cancelled : Bool) : Result ReadError (Started κ) := do
  let () ← request.validate.mapError ReadError.invalidRequest
  let () ← settings.validate.mapError ReadError.configuration
  let offsets ← resolve request.topic (client.lookup s request.topic) request.partitions.toList
  if !offsets.any fun (_, o) ↦ isReadable request.mode o then return .emptyTopic
  else
    let plans ← planAll? request offsets
    let capacity := settings.channelCapacity.toNat
    if Channel.maxCapacity < capacity then .crash
    else return .running (.make request decoder capacity cancelled plans)

namespace Read

def plans (r : Read κ) : List (PartitionId × Plan) :=
  r.workers.map fun w ↦ (w.partition, w.plan)

/-- No worker can send or report any more. -/
def isOver (r : Read κ) : Bool := r.workers.all (·.phase.isOver)

def cancel (r : Read κ) : Read κ := { r with shared := r.shared.cancel }

/-- The caller leaves: what is queued is lost and the workers are stopped. -/
def hangUp (r : Read κ) : Read κ :=
  { r with shared :=
      { r.shared with channel := r.shared.channel.hangUp, errors := [], cancelled := true } }

/-- The summary, once the report of every worker has been collected. -/
def summary? (r : Read κ) : Option Summary :=
  if r.reports.length = r.workers.length then
    some ⟨r.shared.counter.emitted, r.reports.map Prod.snd⟩
  else none

/-! ## Steps -/

/-- Gives one worker its turn. -/
def turn (client : Client σ κ) (s : σ) (r : Read κ) (i : Nat) : Bool × σ × Read κ :=
  match r.workers[i]? with
  | none => (false, s, r)
  | some w =>
    let t := w.turn client r.job s r.shared
    (t.moved, t.client, { r with shared := t.shared, workers := r.workers.set i t.worker })

/-- Collects the report of a worker that is over.  The crash of a worker cancels the read. -/
def collect (r : Read κ) (i : Nat) : Bool × Read κ :=
  match r.workers[i]? with
  | none => (false, r)
  | some w =>
    match w.report? with
    | none => (false, r)
    | some report =>
      if (r.reports.lookup w.partition).isSome then (false, r)
      else
        let shared := if report.outcome = .panicked then r.shared.cancel else r.shared
        (true, { r with shared, reports := Keyed.insert w.partition report r.reports })

/-- One step of a read: a turn of a worker, or the collecting of its report. -/
def advance (client : Client σ κ) (s : σ) (r : Read κ) (i : Nat) : Bool × σ × Read κ :=
  match r.turn client s i with
  | (true, s, r) => (true, s, r)
  | (false, s, r) =>
    let (moved, r) := r.collect i
    (moved, s, r)

/-! ## A schedule -/

/-- One step for each worker in their order. -/
def sweep (client : Client σ κ) (s : σ) (r : Read κ) : Bool × σ × Read κ :=
  (List.range r.workers.length).foldl
    (fun (moved, s, r) i ↦
      let (here, s, r) := r.advance client s i
      (moved || here, s, r))
    (false, s, r)

/-- Sweeps until no worker can move, at most `fuel` times. -/
def settle (client : Client σ κ) (s : σ) (r : Read κ) : Nat → σ × Read κ
  | 0 => (s, r)
  | fuel + 1 =>
    match r.sweep client s with
    | (true, s, r) => settle client s r fuel
    | (false, s, r) => (s, r)

/-- More sweeps than can move anything: each record takes a worker four steps at most, and its
opening and end take a few more. -/
def sweeps (client : Client σ κ) (s : σ) (r : Read κ) : Nat :=
  (r.workers.length + 1) * (4 * client.bound s + 8)

/-- Lets every worker run until it is over or has to wait. -/
def run (client : Client σ κ) (s : σ) (r : Read κ) : σ × Read κ :=
  r.settle client s (r.sweeps client s)

end Read
end TopicView
