import TopicView.Proofs.Read.Cover
import TopicView.Proofs.Read.Delivery
import TopicView.Proofs.Read.Event
import TopicView.Proofs.Read.Plan
import TopicView.Proofs.Read.Report

/-!
# Faults of single partitions

A partition of a bounded read fails on its own.  Whatever the order of the moves, the partitions
without a fault deliver and end as they would if no other one had any, and the partitions with a
fault have delivered what comes before it.
-/

namespace TopicView

open Act

/-- What a read makes of raw records: they are decoded, and those that the filter lets pass
remain. -/
def matching (request : Request) (decoder : Decoder) (raws : List RawRecord) : List Record :=
  (raws.map (·.decode decoder)).filter fun a ↦ admits request.filter a.key a.value

namespace Log

variable {log : Log} {openings : List TopicPartition} {streams : List (TopicPartition × Nat)}
  {request : Request} {decoder : Decoder} {e : PartitionId × Plan} {part : PartitionLog}

def segment (log : Log) (topic : String) (e : PartitionId × Plan) : List RawRecord :=
  match log.partition ⟨topic, e.1⟩ with
  | .error _ => []
  | .ok p => p.segment e.2

theorem segment_eq (hp : log.partition ⟨request.topic, e.1⟩ = .ok part) :
    log.segment request.topic e = part.segment e.2 := by
  simp [segment, hp]

theorem selection_eq_matching (hp : log.partition ⟨request.topic, e.1⟩ = .ok part) :
    log.selection request decoder e = matching request decoder (part.segment e.2) := by
  simp [selection, matching, PartitionLog.segment, hp]

theorem offsets_failing (hfaults : log.faults = {}) (target : TopicPartition) :
    (log.failing openings streams).offsets target = log.offsets target := by
  unfold offsets
  rw [hfaults]
  rfl

theorem lookup_failing (hfaults : log.faults = {}) :
    (log.failing openings streams).lookup = log.lookup := by
  funext topic index
  simp only [lookup, oldestOffset, firstAvailableOffset, offsets_failing hfaults]

theorem startRead_failing (hfaults : log.faults = {}) (settings : ReaderSettings)
    (decoder : Decoder) (request : Request) (cancelled : Bool) :
    startRead client (log.failing openings streams) settings decoder request cancelled =
      startRead client log settings decoder request cancelled := by
  have hlookup : client.lookup (log.failing openings streams) = client.lookup log :=
    lookup_failing hfaults
  simp only [startRead, hlookup]

end Log

/-- A job shows of a segment what the read makes of it. -/
theorem shows_of_prefix {plan : Plan} {part : PartitionLog} {request : Request} {decoder : Decoder}
    (hbounded : plan.isBounded = true) {raws : List RawRecord} (h : raws <+: part.segment plan) :
    Job.shows ⟨request.topic, decoder, request.filter⟩ plan raws =
      matching request decoder raws := by
  have hall : raws.filter (fun raw ↦ !Worker.isPast plan raw.offset) = raws := by
    rw [List.filter_eq_self]
    intro raw hraw
    have hrange := (List.mem_filter.mp (h.subset hraw)).2
    simp only [decide_eq_true_eq] at hrange
    simpa using (Worker.isPast_eq_false_iff hbounded).mpr hrange.2
  rw [Job.shows, hall, matching]

namespace Stage

variable {δ : Type} {alter : δ → Log → Log} {log : Log} {job : Job} {x y : Stage Log LogCursor}

/-! ## One run -/

/-- What holds of a worker of a bounded read, whatever its partition has been told to fail at. -/
structure Attends (log : Log) (job : Job) (acts : List Act) (w : Worker LogCursor) : Prop where
  blames : ∀ f ∈ failedIn acts, f.partition = w.partition
  covers : ∃ part, log.Source job.topic w.partition part ∧ part.Holds w.plan ∧
    w.Covers log job (part.segment w.plan) acts

theorem Attends.step {acts : List Act} {act : Option Act} {w w' : Worker LogCursor} {s' : Log}
    {sh sh' : Shared} (h : Attends log job acts w)
    (hstep : w.Step Log.client job log sh act s' sh' w') :
    Attends log job (acts ++ act.toList) w' := by
  obtain ⟨hblames, part, hsource, hholds, hcovers⟩ := h
  refine ⟨?_, part, ?_, ?_, ?_⟩
  · intro f hf
    rw [failedIn_step, List.mem_append, Option.mem_toList] at hf
    rw [hstep.partition_eq]
    exact hf.elim (hblames f) (hstep.failure_partition f)
  · rwa [hstep.partition_eq]
  · rwa [hstep.plan_eq]
  · rw [hstep.plan_eq]
    exact hcovers.step hsource hholds hstep

structure Attended (log : Log) (job : Job) (bound : Nat) (x : Stage Log LogCursor) : Prop where
  calm : x.Calm log job
  attends : x.Each (Attends log job)
  bounded : x.history.length + ahead log job x + x.read.shared.errors.length ≤ bound

theorem Attended.next {bound : Nat} (h : Attended log job bound x) {m : Move δ}
    (hinner : m.IsInner) (hm : x.Next Log.client alter m y) : Attended log job bound y := by
  have hcalm := h.calm.next hinner hm
  obtain ⟨⟨rfl, rfl, -, hlistening⟩, hattends, hbounded⟩ := h
  refine ⟨hcalm, hattends.next (fun hstep hold ↦ hold.step hstep) hm, ?_⟩
  refine Nat.le_trans (ahead_next hm hinner hlistening ?_) hbounded
  intro i w act s sh w' hw hstep
  obtain ⟨-, part, hsource, hholds, hcovers⟩ := hattends i w hw
  simpa [toDoOn, hstep.partition_eq, hsource.found] using hcovers.toDo_le hsource hholds hstep

/-- How the worker of a partition has ended, as it is reported. -/
def outcome? {σ κ : Type} (x : Stage σ κ) (i : Nat) : Option Outcome :=
  (x.read.workers[i]?.bind Worker.report?).map Report.outcome

def failuresFrom {σ κ : Type} (x : Stage σ κ) (p : PartitionId) : List PartitionFailure :=
  x.reported.filter (·.partition = p)

/-- What is known of every stage of a bounded read that nobody disturbs. -/
structure Faced (log : Log) (request : Request) (decoder : Decoder) (r : Read LogCursor)
    (capacity bound : Nat) (x : Stage Log LogCursor) : Prop where
  attended : Attended log ⟨request.topic, decoder, request.filter⟩ bound x
  owned : x.Owned ⟨request.topic, decoder, request.filter⟩
  framed : x.Framed r
  channeled : x.Channeled capacity
  counted : x.Counted request.limit
  accounted : x.Accounted false
  distinct : (r.plans.map Prod.fst).Nodup

theorem faced_play {settings : ReaderSettings} {decoder : Decoder} {request : Request}
    {ranges : List (PartitionId × Offsets)} {r : Read LogCursor} (hlog : log.Indexed)
    (hmode : request.mode ≠ .live)
    (h : Launched Log.client log settings decoder request false ranges r)
    (hsource : ∀ e ∈ r.plans, ∃ part, log.Source request.topic e.1 part ∧ part.Holds e.2)
    {moves : List (Move δ)} (hinner : ∀ m ∈ moves, m.IsInner) :
    Faced log request decoder r settings.channelCapacity.toNat
      (ahead log ⟨request.topic, decoder, request.filter⟩ (start log r))
      ((start log r).play Log.client alter moves) := by
  have hlimit : request.effectiveLimit = some request.limit := by
    simp [Request.effectiveLimit, hmode]
  refine ⟨?_, owned_play hlog h moves fun change hchange ↦ (hinner _ hchange).elim,
    framed_play _ _ _ _ _, channeled_play h moves, counted_play h hlimit moves,
    accounted_play h moves, h.nodup_partitions⟩
  refine play_keeps Log.client alter (start log r) ?_ moves
    fun y m hm hy ↦ hy.next (hinner m hm) (next_step alter m)
  refine ⟨⟨rfl, ?_, ?_, ?_⟩, ?_, ?_⟩
  · rw [h.made]
    rfl
  · simp [Undisturbed, start]
  · rw [h.made]
    rfl
  · intro i w hw
    have hmem : w ∈ r.workers := List.mem_of_getElem? hw
    obtain ⟨part, hfound, hholds⟩ := hsource (w.partition, w.plan) (List.mem_map_of_mem hmem)
    refine ⟨fun f hf ↦ (List.not_mem_nil hf).elim, part, hfound, hholds, ?_⟩
    rw [h.eq_start hmem]
    exact Worker.covers_start _ _ _ _ _
  · rw [h.made]
    simp [start, Read.make]

namespace Faced

variable {request : Request} {decoder : Decoder} {r : Read LogCursor} {capacity bound i : Nat}
  {e : PartitionId × Plan} {w : Worker LogCursor}

theorem exists_worker (h : Faced log request decoder r capacity bound x)
    (hi : r.plans[i]? = some e) :
    ∃ w, x.read.workers[i]? = some w ∧ (w.partition, w.plan) = e := by
  rw [← h.framed.plans_eq] at hi
  simpa [Read.plans] using hi

theorem sentFrom_eq (h : Faced log request decoder r capacity bound x)
    (hw : x.read.workers[i]? = some w) : x.sentFrom w.partition = sentIn (x.actsOf i) :=
  Stage.sentFrom_eq h.framed h.distinct h.owned.partition_eq hw

theorem failuresFrom_eq (h : Faced log request decoder r capacity bound x)
    (hw : x.read.workers[i]? = some w) : x.failuresFrom w.partition = failedIn (x.actsOf i) :=
  shownFrom_eq h.framed h.distinct (fun j v hv ↦ (h.attended.attends j v hv).blames) hw

theorem sentFrom_prefix (h : Faced log request decoder r capacity bound x) (he : e ∈ r.plans) :
    x.sentFrom e.1 <+: log.selection request decoder e := by
  obtain ⟨i, hi⟩ := List.getElem?_of_mem he
  obtain ⟨w, hw, rfl⟩ := h.exists_worker hi
  have hrelays := h.owned.relays i w hw
  obtain ⟨-, part, hsource, hholds, hcovers⟩ := h.attended.attends i w hw
  have hselection : log.selection request decoder (w.partition, w.plan) =
      matching request decoder (part.segment w.plan) := Log.selection_eq_matching hsource.found
  rw [hselection, ← shows_of_prefix hholds.bounded List.prefix_rfl]
  change x.sentFrom w.partition <+: _
  rw [h.sentFrom_eq hw]
  exact (List.prefix_append _ _).trans
    (hrelays.within.trans (Job.shows_prefix hcovers.within))

/-- A read that stays below its limit stops nobody. -/
theorem not_isStopped (h : Faced log request decoder r capacity bound x)
    (hbelow : log.selected request decoder r.plans < request.limit.toNat)
    (hover : x.read.isOver = true) (hw : w ∈ x.read.workers) : ¬ w.IsStopped := by
  intro hstopped
  have hwhole : ∀ v ∈ x.read.workers, v.phase.outcome? ≠ some .panicked := by
    intro v hv
    obtain ⟨j, hj⟩ := List.getElem?_of_mem hv
    obtain ⟨-, part, -, -, hcovers⟩ := h.attended.attends j v hj
    exact hcovers.whole
  have hfull := h.counted.length_sent_of_stopped h.accounted hover h.attended.calm.undisturbed
    hwhole hw hstopped
  have hle : x.sent.length ≤ log.selected request decoder r.plans := by
    rw [length_sent_eq h.framed h.distinct h.owned.partition_eq]
    exact List.sum_le_sum fun e he ↦ (h.sentFrom_prefix he).length_le
  omega

theorem takenFrom_eq_sentFrom (h : Faced log request decoder r capacity bound x)
    (hdrained : x.IsDrained) (p : PartitionId) : x.takenFrom p = x.sentFrom p := by
  have hqueue := h.channeled.taken_append_queue h.attended.calm.listening
  rw [(isDrained_iff.mp hdrained).1, List.append_nil] at hqueue
  rw [takenFrom, hqueue, sentFrom]

/-- Every worker of a read that is over has come to one of the ends that its faults leave. -/
theorem ending_of_report (h : Faced log request decoder r capacity bound x)
    (hbelow : log.selected request decoder r.plans < request.limit.toNat)
    (hover : x.read.isOver = true) (hw : x.read.workers[i]? = some w) {report : Report}
    (hreport : w.report? = some report) :
    Worker.Ending log ⟨request.topic, w.partition⟩ (log.segment request.topic (w.partition, w.plan))
        report.outcome (pulledIn (x.actsOf i)) (failedIn (x.actsOf i)) ∧
      sentIn (x.actsOf i) = matching request decoder (pulledIn (x.actsOf i)) := by
  have hgoing := h.not_isStopped hbelow hover (List.mem_of_getElem? hw)
  have hout := Worker.outcome_of_report hreport
  have hrelays := h.owned.relays i w hw
  obtain ⟨-, part, hsource, hholds, hcovers⟩ := h.attended.attends i w hw
  have hsegment : log.segment request.topic (w.partition, w.plan) = part.segment w.plan :=
    Log.segment_eq hsource.found
  rw [hsegment, hrelays.sentIn_eq hout hgoing]
  exact ⟨hcovers.ending hout hgoing, shows_of_prefix hholds.bounded hcovers.within⟩

theorem exists_ending (h : Faced log request decoder r capacity bound x)
    (hbelow : log.selected request decoder r.plans < request.limit.toNat)
    (hdrained : x.IsDrained) (hi : r.plans[i]? = some e) :
    ∃ outcome pulled failures, Worker.Ending log ⟨request.topic, e.1⟩
        (log.segment request.topic e) outcome pulled failures ∧
      x.outcome? i = some outcome ∧ x.takenFrom e.1 = matching request decoder pulled ∧
      x.failuresFrom e.1 = failures := by
  have hover := (isDrained_iff.mp hdrained).2
  obtain ⟨w, hw, rfl⟩ := h.exists_worker hi
  obtain ⟨report, hreport⟩ := Option.isSome_iff_exists.mp
    (Worker.isSome_report (List.all_eq_true.mp hover w (List.mem_of_getElem? hw)))
  obtain ⟨hending, hsent⟩ := h.ending_of_report hbelow hover hw hreport
  refine ⟨report.outcome, _, _, hending, ?_, ?_, h.failuresFrom_eq hw⟩
  · simp [outcome?, hw, hreport]
  · change x.takenFrom w.partition = _
    rw [h.takenFrom_eq_sentFrom hdrained, h.sentFrom_eq hw, hsent]

/-- Exactly the partitions that have reported a failure are summed up as failed. -/
theorem mem_failedPartitions (h : Faced log request decoder r capacity bound x)
    (hbelow : log.selected request decoder r.plans < request.limit.toNat)
    {summary : Summary}
    (hreports : x.read.workers.map Worker.report? = summary.reports.map some) (p : PartitionId) :
    p ∈ summary.failedPartitions ↔ ∃ f ∈ x.reported, f.partition = p := by
  have hover := Reporting.isOver hreports
  constructor
  · intro hp
    obtain ⟨report, hfailed, rfl⟩ := List.mem_map.mp hp
    obtain ⟨hmem, hfails⟩ := List.mem_filter.mp hfailed
    obtain ⟨i, hi⟩ := List.getElem?_of_mem hmem
    obtain ⟨w, hw, hreport⟩ := Reporting.exists_worker hreports hi
    obtain ⟨hending, -⟩ := h.ending_of_report hbelow hover hw hreport
    obtain ⟨f, hf⟩ := List.exists_mem_of_ne_nil _ (hending.isFailure_iff.mp hfails)
    rw [← h.failuresFrom_eq hw] at hf
    obtain ⟨hreported, hpartition⟩ := List.mem_filter.mp hf
    refine ⟨f, hreported, ?_⟩
    rw [(Worker.report_eq hreport).1]
    exact of_decide_eq_true hpartition
  · rintro ⟨f, hf, rfl⟩
    obtain ⟨i, w, hw, hfailed⟩ := exists_worker_of_shown h.framed hf
    obtain ⟨report, hmem, hreport⟩ := List.mem_map.mp
      (hreports ▸ List.mem_map_of_mem (List.mem_of_getElem? hw))
    obtain ⟨hending, -⟩ := h.ending_of_report hbelow hover hw hreport.symm
    have hpartition := (h.attended.attends i w hw).blames f hfailed
    rw [hpartition, ← (Worker.report_eq hreport.symm).1]
    refine List.mem_map_of_mem (List.mem_filter.mpr ⟨hmem, ?_⟩)
    exact hending.isFailure_iff.mpr (List.ne_nil_of_mem hfailed)

theorem isDrained_of_atRest (h : Faced log request decoder r capacity bound x)
    (hpos : 0 < capacity) (hrest : x.AtRest Log.client) : x.IsDrained := by
  refine isDrained_iff.mpr ⟨queue_eq_nil_of_atRest hrest, ?_⟩
  apply h.channeled.isOver_of_atRest hpos h.attended.calm.listening hrest
  intro w hw hphase
  obtain ⟨i, hi⟩ := List.getElem?_of_mem hw
  obtain ⟨-, part, hsource, hholds, hcovers⟩ := h.attended.attends i w hi
  rw [h.attended.calm.state_eq, h.attended.calm.job_eq]
  exact hcovers.act_ne_none hsource hholds hphase _

end Faced

/-! ## Two runs -/

/-- What faults change in the course of one partition: `x` is a course of a log without faults, and
`y` one of the log with them. -/
structure Isolates (log : Log) (openings : List TopicPartition)
    (streams : List (TopicPartition × Nat)) (request : Request) (decoder : Decoder) (i : Nat)
    (e : PartitionId × Plan) (x y : Stage Log LogCursor) : Prop where
  completed : x.outcome? i = some .completed
  unharmed : ⟨request.topic, e.1⟩ ∉ openings → streams.lookup ⟨request.topic, e.1⟩ = none →
    y.takenFrom e.1 = x.takenFrom e.1 ∧ y.outcome? i = x.outcome? i ∧ y.failuresFrom e.1 = []
  unopened : ⟨request.topic, e.1⟩ ∈ openings →
    y.takenFrom e.1 = [] ∧ y.outcome? i = some .errored ∧ y.failuresFrom e.1 =
      [⟨e.1, .opening, (LogFault.opening ⟨request.topic, e.1⟩).failure⟩]
  cutOff : ⟨request.topic, e.1⟩ ∉ openings → ∀ n,
    streams.lookup ⟨request.topic, e.1⟩ = some n →
      y.takenFrom e.1 = matching request decoder ((log.segment request.topic e).take n) ∧
      (n < e.2.size → y.outcome? i = some .errored ∧ y.failuresFrom e.1 =
        [⟨e.1, .streaming, (LogFault.stream ⟨request.topic, e.1⟩).failure⟩]) ∧
      (e.2.size ≤ n → y.outcome? i = some .completed ∧ y.failuresFrom e.1 = [])

section Course

variable {openings : List TopicPartition} {streams : List (TopicPartition × Nat)}
  {settings : ReaderSettings} {decoder : Decoder} {request : Request} {r : Read LogCursor}

theorem Faced.isolates {capacity bound bound' i : Nat} {e : PartitionId × Plan}
    (hx : Faced log request decoder r capacity bound x)
    (hy : Faced (log.failing openings streams) request decoder r capacity bound' y)
    (hfaults : log.faults = {})
    (hbelow : log.selected request decoder r.plans < request.limit.toNat)
    (hdrained : x.IsDrained) (hdrained' : y.IsDrained) (hi : r.plans[i]? = some e)
    (hsize : (log.segment request.topic e).length = e.2.size) :
    Isolates log openings streams request decoder i e x y := by
  -- The faults alone settle how a worker ends, so the runs agree without a look at their moves.
  obtain ⟨outcome, pulled, failures, hending, hout, htaken, -⟩ :=
    hx.exists_ending hbelow hdrained hi
  obtain ⟨outcome', pulled', failures', hending', hout', htaken', hfailures'⟩ :=
    hy.exists_ending hbelow hdrained' hi
  obtain ⟨rfl, rfl, -⟩ := hending.of_no_fault (by simp [hfaults]) (by simp [hfaults])
  refine ⟨hout, ?_, ?_, ?_⟩
  · intro hopens hnone
    obtain ⟨rfl, rfl, rfl⟩ := hending'.of_no_fault hopens hnone
    exact ⟨htaken'.trans htaken.symm, hout'.trans hout.symm, hfailures'⟩
  · intro hfails
    obtain ⟨rfl, rfl, rfl⟩ := hending'.of_opening hfails
    exact ⟨htaken', hout', hfailures'⟩
  · intro hopens n hfails
    obtain ⟨rfl, hshort, hlong⟩ := hending'.of_stream hopens hfails
    refine ⟨htaken', fun hlt ↦ ?_, fun hle ↦ ?_⟩
    · obtain ⟨rfl, rfl⟩ := hshort (hsize ▸ hlt)
      exact ⟨hout', hfailures'⟩
    · obtain ⟨rfl, rfl⟩ := hlong (hsize ▸ hle)
      exact ⟨hout', hfailures'⟩

/-- A bounded read of a log that does not change, whose selections stay below its limit and which
nobody stops, comes to rest after a bounded number of moves also where partitions have been told to
fail, and only when it is drained.  In whatever order the moves are made with and without the
faults, a fault changes nothing but the end of its own partition, and exactly the partitions that
have reported a failure are summed up as failed. -/
theorem partition_failures_are_isolated (alter : δ → Log → Log) (hlog : log.Reachable)
    (hfaults : log.faults = {}) (openings : List TopicPartition)
    (streams : List (TopicPartition × Nat)) (hmode : request.mode ≠ .live)
    (hstart : startRead Log.client log settings decoder request false = .ok (.running r))
    (hbelow : log.selected request decoder r.plans < request.limit.toNat) :
    r.plans.map Prod.fst = request.partitions.toList ∧
    startRead Log.client (log.failing openings streams) settings decoder request false =
      .ok (.running r) ∧
    (∃ bound, ∀ (moves : List (Move δ)) (y : Stage Log LogCursor), (∀ m ∈ moves, m.IsInner) →
      (start (log.failing openings streams) r).play Log.client alter moves = y →
        y.history.length ≤ bound ∧ (y.AtRest Log.client → y.IsDrained) ∧
        y.heard ++ y.read.shared.errors = y.reported) ∧
    ∀ (moves moves' : List (Move δ)) (x y : Stage Log LogCursor), (∀ m ∈ moves, m.IsInner) →
      (∀ m ∈ moves', m.IsInner) → (start log r).play Log.client alter moves = x →
      (start (log.failing openings streams) r).play Log.client alter moves' = y →
      x.IsDrained → y.IsDrained →
        (∀ i e, r.plans[i]? = some e → Isolates log openings streams request decoder i e x y) ∧
        ∀ summary, y.read.summary? = some summary → ∀ p, p ∈ summary.failedPartitions ↔
          ∃ f ∈ y.reported, f.partition = p := by
  have hstart' : startRead Log.client (log.failing openings streams) settings decoder request
      false = .ok (.running r) :=
    (Log.startRead_failing hfaults settings decoder request false).trans hstart
  obtain ⟨ranges, hlaunched⟩ := exists_launched hstart
  obtain ⟨ranges', hlaunched'⟩ := exists_launched hstart'
  have hsource : ∀ e ∈ r.plans, ∃ part, log.Source request.topic e.1 part ∧ part.Holds e.2 := by
    intro e he
    obtain ⟨part, hsource, -, hholds⟩ := hlog.exists_holds hlaunched hmode he
    exact ⟨part, hsource, hholds⟩
  have hsource' : ∀ e ∈ r.plans, ∃ part,
      (log.failing openings streams).Source request.topic e.1 part ∧ part.Holds e.2 := by
    intro e he
    obtain ⟨part, ⟨hfound, hsound, hfits⟩, hholds⟩ := hsource e he
    exact ⟨part, ⟨hfound, hsound, hfits⟩, hholds⟩
  have hindexed : log.Indexed := hlog.sound.indexed
  have hindexed' : (log.failing openings streams).Indexed := hindexed
  have hfaced {moves : List (Move δ)} (hinner : ∀ m ∈ moves, m.IsInner) :
      Faced log request decoder r settings.channelCapacity.toNat
        (ahead log ⟨request.topic, decoder, request.filter⟩ (start log r))
        ((start log r).play Log.client alter moves) :=
    faced_play hindexed hmode hlaunched hsource hinner
  have hfaced' {moves : List (Move δ)} (hinner : ∀ m ∈ moves, m.IsInner) :
      Faced (log.failing openings streams) request decoder r settings.channelCapacity.toNat
        (ahead (log.failing openings streams) ⟨request.topic, decoder, request.filter⟩
          (start (log.failing openings streams) r))
        ((start (log.failing openings streams) r).play Log.client alter moves) :=
    faced_play hindexed' hmode hlaunched' hsource' hinner
  refine ⟨hlaunched.partitions_eq, hstart', ⟨ahead (log.failing openings streams)
    ⟨request.topic, decoder, request.filter⟩ (start (log.failing openings streams) r), ?_⟩, ?_⟩
  · rintro moves y hinner rfl
    have hvoiced : Voiced ((start (log.failing openings streams) r).play Log.client alter moves) :=
      voiced_play hlaunched' moves
    refine ⟨?_, (hfaced' hinner).isDrained_of_atRest hlaunched'.capacity_pos,
      hvoiced (hfaced' hinner).attended.calm.listening⟩
    have hbounded := (hfaced' hinner).attended.bounded
    omega
  · rintro moves moves' x y hinner hinner' rfl rfl hdrained hdrained'
    refine ⟨fun i e hi ↦ ?_, fun summary hsummary p ↦ ?_⟩
    · obtain ⟨part, ⟨hfound, hsound, hfits⟩, hholds⟩ := hsource e (List.mem_of_getElem? hi)
      have hsize := PartitionLog.length_segment hsound hfits hholds
      rw [← Log.segment_eq hfound] at hsize
      exact (hfaced hinner).isolates (hfaced' hinner') hfaults hbelow hdrained hdrained' hi hsize
    · have hreporting : Reporting r
          ((start (log.failing openings streams) r).play Log.client alter moves') :=
        reporting_play hlaunched' moves'
      have hascending := hlaunched'.partitions_eq ▸ request.partitions.ascending
      obtain ⟨-, hreports⟩ := hreporting.exists_reports hascending hsummary
      exact (hfaced' hinner').mem_failedPartitions hbelow hreports p

/-- The first partition of the sample fails after one record, and the other one at once. -/
def failingSample : Log := Log.sample.failing [⟨"t", 1⟩] [(⟨"t", 0⟩, 1)]

/-- Both workers have all their turns, their reports are collected, and the caller takes records. -/
def collectedMoves : List (Move Empty) := Move.oneByOne 13 8 3 ++ [.collect 0, .collect 1]

theorem partition_failures_are_isolated_in_sample :
    let x := (start Log.sample (sampleRead .beginning 4)).play Log.client Empty.elim
      (Move.oneByOne 13 8 3)
    let y := (start failingSample (sampleRead .beginning 4)).play Log.client Empty.elim
      collectedMoves
    Log.sample.Reachable ∧ Log.sample.faults = {} ∧ (sampleRequest .beginning 4).mode ≠ .live ∧
      startRead Log.client Log.sample {} .lossy (sampleRequest .beginning 4) false =
        .ok (.running (sampleRead .beginning 4)) ∧
      Log.sample.selected (sampleRequest .beginning 4) .lossy (sampleRead .beginning 4).plans <
        (sampleRequest .beginning 4).limit.toNat ∧
      x.IsDrained ∧ y.IsDrained ∧
      (∀ i e, (sampleRead .beginning 4).plans[i]? = some e →
        Isolates Log.sample [⟨"t", 1⟩] [(⟨"t", 0⟩, 1)] (sampleRequest .beginning 4) .lossy i e
          x y) ∧
      ∃ summary, y.read.summary? = some summary ∧ summary.failedPartitions = [0, 1] ∧
        ∀ p, p ∈ summary.failedPartitions ↔ ∃ f ∈ y.reported, f.partition = p := by
  have hstart : startRead Log.client Log.sample {} .lossy (sampleRequest .beginning 4) false =
      .ok (.running (sampleRead .beginning 4)) := rfl
  have hbelow : Log.sample.selected (sampleRequest .beginning 4) .lossy
      (sampleRead .beginning 4).plans < (sampleRequest .beginning 4).limit.toNat := by decide
  obtain ⟨-, -, -, hisolated⟩ := partition_failures_are_isolated Empty.elim Log.reachable_sample
    rfl [⟨"t", 1⟩] [(⟨"t", 0⟩, 1)] (by decide) hstart hbelow
  obtain ⟨hisolates, hfailed⟩ := hisolated (Move.oneByOne 13 8 3) collectedMoves _ _ (by decide)
    (by decide) rfl rfl rfl rfl
  exact ⟨Log.reachable_sample, rfl, by decide, hstart, hbelow, rfl, rfl, hisolates, _, rfl, rfl,
    hfailed _ rfl⟩

end Course

end Stage
end TopicView
