import TopicView.Proofs.Read.Progress

/-!
# Exact delivery of a bounded read

A bounded read of a log that does not change delivers from each partition the first records of its
selection, and as many over all partitions as the limit admits, in whatever order its workers take
their steps.  Every course of it is bounded, and comes to rest only when all has been delivered.
-/

namespace TopicView

open Act

/-- What a bounded read is to deliver from one partition: the records whose offset lies in its plan,
decoded, that pass the filter. -/
def Log.selection (log : Log) (request : Request) (decoder : Decoder)
    (e : PartitionId × Plan) : List Record :=
  match log.partition ⟨request.topic, e.1⟩ with
  | .error _ => []
  | .ok p =>
    ((p.records.filter fun raw ↦ e.2.start ≤ raw.offset ∧ raw.offset ≤ e.2.endOffset).map
      (·.decode decoder)).filter fun a ↦ admits request.filter a.key a.value

namespace Log

variable {log : Log} {request : Request} {decoder : Decoder} {e : PartitionId × Plan}
  {part : PartitionLog}

def selected (log : Log) (request : Request) (decoder : Decoder)
    (plans : List (PartitionId × Plan)) : Nat :=
  (plans.map fun e ↦ (log.selection request decoder e).length).sum

theorem selection_eq (hsource : log.Source request.topic e.1 part)
    (hbounded : e.2.isBounded = true) : log.selection request decoder e =
      Job.shows ⟨request.topic, decoder, request.filter⟩ e.2 (part.recordsFrom e.2.start) := by
  simp only [selection, hsource.found, Job.shows, PartitionLog.recordsFrom, List.filter_filter]
  congr 2
  refine List.filter_congr fun raw _ ↦ ?_
  rw [Bool.eq_iff_iff]
  simp [Worker.isPast_eq_false_iff hbounded, and_comm]

end Log

namespace Stage

variable {δ : Type} {alter : δ → Log → Log} {log : Log} {job : Job} {x y : Stage Log LogCursor}

/-- What holds of a worker of a bounded read. -/
structure Served (log : Log) (job : Job) (acts : List Act) (w : Worker LogCursor) : Prop where
  bounded : w.plan.isBounded = true
  relays : w.Relays job acts
  advances : ∃ part, log.Source job.topic w.partition part ∧ w.Advances job part acts

theorem Served.step {acts : List Act} {act : Option Act} {w w' : Worker LogCursor} {s' : Log}
    {sh sh' : Shared} (h : Served log job acts w) (hfaults : log.faults = {})
    (hstep : w.Step Log.client job log sh act s' sh' w') :
    Served log job (acts ++ act.toList) w' := by
  obtain ⟨hbounded, hrelays, part, hsource, hadvances⟩ := h
  refine ⟨hstep.plan_eq ▸ hbounded, hrelays.step hstep, part, hstep.partition_eq ▸ hsource, ?_⟩
  exact hadvances.step hsource hfaults hbounded hstep

structure Delivering (log : Log) (job : Job) (bound : Nat) (x : Stage Log LogCursor) : Prop where
  state_eq : x.state = log
  job_eq : x.read.job = job
  served : x.Each (Served log job)
  undisturbed : x.Undisturbed
  listening : x.read.shared.channel.receiving = true
  quiet : x.read.shared.errors = []
  bounded : x.history.length + ahead log job x ≤ bound

/-! ## One move -/

theorem Delivering.calm {bound : Nat} (h : Delivering log job bound x) : x.Calm log job :=
  ⟨h.state_eq, h.job_eq, h.undisturbed, h.listening⟩

theorem Delivering.quiet_next {bound : Nat} (h : Delivering log job bound x)
    (hfaults : log.faults = {}) {m : Move δ} (hinner : m.IsInner)
    (hm : x.Next Log.client alter m y) : y.read.shared.errors = [] := by
  obtain ⟨rfl, rfl, hserved, -, -, hquiet, -⟩ := h
  cases hm
  case worked hw hstep =>
    obtain ⟨hplan, -, part, hsource, hadvances⟩ := hserved _ _ hw
    obtain ⟨-, -, -, herrors⟩ := hadvances.smooth hsource hfaults hplan hstep
    exact herrors.trans hquiet
  case collected => simpa
  case heard f rest hqueue =>
    rw [hquiet] at hqueue
    cases hqueue
  case left => exact hinner.elim
  all_goals exact hquiet

theorem Delivering.next {bound : Nat} (h : Delivering log job bound x) (hfaults : log.faults = {})
    {m : Move δ} (hinner : m.IsInner) (hm : x.Next Log.client alter m y) :
    Delivering log job bound y := by
  have hquiet := h.quiet_next hfaults hinner hm
  obtain ⟨hstate, hjob, hcalm, hlistening⟩ := h.calm.next hinner hm
  obtain ⟨rfl, rfl, hserved, -, hlistening', hquiet', hbounded⟩ := h
  refine ⟨hstate, hjob, hserved.next (fun hstep hold ↦ hold.step hfaults hstep) hm, hcalm,
    hlistening, hquiet, ?_⟩
  have hless : y.history.length + ahead x.state x.read.job y + y.read.shared.errors.length ≤
      x.history.length + ahead x.state x.read.job x + x.read.shared.errors.length := by
    apply ahead_next hm hinner hlistening'
    intro i w act s sh w' hw hstep
    obtain ⟨hplan, -, part, hsource, hadvances⟩ := hserved i w hw
    simpa [toDoOn, hstep.partition_eq, hsource.found] using
      hadvances.toDo_le hsource hfaults hplan hstep
  rw [hquiet, hquiet'] at hless
  exact Nat.le_trans hless hbounded

/-! ## Along a course -/

theorem Served.sentIn_prefix {acts : List Act} {w : Worker LogCursor} {request : Request}
    {decoder : Decoder} (h : Served log ⟨request.topic, decoder, request.filter⟩ acts w) :
    sentIn acts <+: log.selection request decoder (w.partition, w.plan) := by
  obtain ⟨hbounded, hrelays, part, hsource, hadvances⟩ := h
  rw [Log.selection_eq hsource hbounded]
  exact (List.prefix_append _ _).trans
    (hrelays.within.trans (Job.shows_prefix hadvances.within))

theorem Served.sentIn_eq {acts : List Act} {w : Worker LogCursor} {request : Request}
    {decoder : Decoder} (h : Served log ⟨request.topic, decoder, request.filter⟩ acts w)
    (hout : w.phase.outcome? = some .completed) :
    sentIn acts = log.selection request decoder (w.partition, w.plan) := by
  obtain ⟨hbounded, hrelays, part, hsource, hadvances⟩ := h
  have hgoing : ¬ w.IsStopped := by simp [Worker.IsStopped, hout]
  rw [hrelays.sentIn_eq hout hgoing, hadvances.through (Or.inr hout),
    Log.selection_eq hsource hbounded]

theorem Served.partition_eq {acts : List Act} {w : Worker LogCursor} (h : Served log job acts w)
    {a : Record} (ha : a ∈ sentIn acts) : a.partition = w.partition := by
  obtain ⟨-, hrelays, part, hsource, hadvances⟩ := h
  refine hrelays.partition_eq (fun raw hraw ↦ ?_) ha
  have hmem := (PartitionLog.mem_recordsFrom.mp (hadvances.within.subset hraw)).1
  exact hsource.sound.partition_eq raw hmem

theorem Served.act_ne_none {acts : List Act} {w : Worker LogCursor} (h : Served log job acts w)
    (hfaults : log.faults = {}) (hphase : w.phase = .opening ∨ ∃ c, w.phase = .pulling c)
    (sh : Shared) : w.act? Log.client job log sh ≠ none := by
  obtain ⟨hbounded, -, part, hsource, hadvances⟩ := h
  cases hc : sh.cancelled with
  | true => rcases hphase with hphase | ⟨c, hphase⟩ <;> simp [Worker.act?, hphase, hc]
  | false =>
      rcases hphase with hphase | ⟨c, hphase⟩
      · simp [Worker.act?, hphase, hc, Worker.opens hsource hfaults hbounded]
      · rcases hanswer : Log.client.pull log c with ⟨answer, c', next⟩
        obtain ⟨-, ⟨raw, rfl, -⟩ | ⟨rfl, -⟩⟩ := hadvances.pull hsource hphase hanswer
        · simp [Worker.act?, hphase, hc, hanswer]
        · simp [Worker.act?, hphase, hc, hanswer]

section Course

variable {settings : ReaderSettings} {decoder : Decoder} {request : Request}
  {ranges : List (PartitionId × Offsets)} {r : Read LogCursor}

theorem delivering_play (hlog : log.Reachable) (hfaults : log.faults = {})
    (hmode : request.mode ≠ .live)
    (h : Launched Log.client log settings decoder request false ranges r)
    {moves : List (Move δ)} (hinner : ∀ m ∈ moves, m.IsInner) :
    Delivering log ⟨request.topic, decoder, request.filter⟩
      (ahead log ⟨request.topic, decoder, request.filter⟩ (start log r))
      ((start log r).play Log.client alter moves) := by
  refine play_keeps Log.client alter (start log r) ?_ moves
    fun y m hm hy ↦ hy.next hfaults (hinner m hm) (next_step alter m)
  refine ⟨rfl, by rw [h.made]; rfl, fun i w hw ↦ ?_, ?_, by rw [h.made]; rfl,
    by rw [h.made]; rfl, ?_⟩
  · have hmem : w ∈ r.workers := List.mem_of_getElem? hw
    have hplan : (w.partition, w.plan) ∈ r.plans := List.mem_map_of_mem hmem
    obtain ⟨part, hsource, -⟩ := hlog.exists_source h hplan
    refine ⟨h.isBounded hmode hplan, ?_, part, hsource, ?_⟩
    · rw [h.eq_start hmem]
      exact Worker.relays_start _ _ _
    · rw [h.eq_start hmem]
      exact Worker.advances_start _ _ _ _
  · simp [Undisturbed, start]
  · simp [start]

/-- What is known of every stage of an undisturbed bounded read. -/
structure Bounded (log : Log) (request : Request) (decoder : Decoder) (r : Read LogCursor)
    (capacity : Nat) (x : Stage Log LogCursor) : Prop where
  delivering : Delivering log ⟨request.topic, decoder, request.filter⟩
    (ahead log ⟨request.topic, decoder, request.filter⟩ (start log r)) x
  framed : x.Framed r
  channeled : x.Channeled capacity
  counted : x.Counted request.limit
  accounted : x.Accounted false
  distinct : (r.plans.map Prod.fst).Nodup

theorem bounded_play (hlog : log.Reachable) (hfaults : log.faults = {})
    (hmode : request.mode ≠ .live)
    (h : Launched Log.client log settings decoder request false ranges r)
    {moves : List (Move δ)} (hinner : ∀ m ∈ moves, m.IsInner) :
    Bounded log request decoder r settings.channelCapacity.toNat
      ((start log r).play Log.client alter moves) := by
  have hlimit : request.effectiveLimit = some request.limit := by
    simp [Request.effectiveLimit, hmode]
  exact ⟨delivering_play hlog hfaults hmode h hinner, framed_play _ _ _ _ _,
    channeled_play h moves, counted_play h hlimit moves, accounted_play h moves,
    h.nodup_partitions⟩

end Course

namespace Bounded

variable {request : Request} {decoder : Decoder} {r : Read LogCursor} {capacity : Nat}

theorem partition_eq (h : Bounded log request decoder r capacity x) :
    x.Each fun acts w ↦ ∀ a ∈ sentIn acts, a.partition = w.partition :=
  fun i w hw _ ha ↦ (h.delivering.served i w hw).partition_eq ha

/-- Each plan has its worker, whose sent records are those of the partition. -/
theorem exists_worker (h : Bounded log request decoder r capacity x) {e : PartitionId × Plan}
    (he : e ∈ r.plans) : ∃ acts w, w ∈ x.read.workers ∧ (w.partition, w.plan) = e ∧
      Served log ⟨request.topic, decoder, request.filter⟩ acts w ∧
        x.sentFrom e.1 = sentIn acts := by
  rw [← h.framed.plans_eq] at he
  obtain ⟨w, hw, rfl⟩ := List.mem_map.mp he
  obtain ⟨i, hi⟩ := List.getElem?_of_mem hw
  exact ⟨x.actsOf i, w, hw, rfl, h.delivering.served i w hi,
    sentFrom_eq h.framed h.distinct h.partition_eq hi⟩

theorem sentFrom_prefix (h : Bounded log request decoder r capacity x) {e : PartitionId × Plan}
    (he : e ∈ r.plans) : x.sentFrom e.1 <+: log.selection request decoder e := by
  obtain ⟨acts, w, -, rfl, hserved, hsent⟩ := h.exists_worker he
  rw [hsent]
  exact hserved.sentIn_prefix

theorem takenFrom_prefix (h : Bounded log request decoder r capacity x) {e : PartitionId × Plan}
    (he : e ∈ r.plans) : x.takenFrom e.1 <+: log.selection request decoder e :=
  (h.channeled.taken_prefix.filter _).trans (h.sentFrom_prefix he)

theorem taken_eq_sent (h : Bounded log request decoder r capacity x) (hdrained : x.IsDrained) :
    x.taken = x.sent := by
  have hqueue := h.channeled.taken_append_queue h.delivering.listening
  rwa [(isDrained_iff.mp hdrained).1, List.append_nil] at hqueue

theorem length_sent (h : Bounded log request decoder r capacity x) :
    x.sent.length = (r.plans.map fun e ↦ (x.sentFrom e.1).length).sum :=
  length_sent_eq h.framed h.distinct h.partition_eq

theorem length_taken (h : Bounded log request decoder r capacity x) (hdrained : x.IsDrained) :
    x.taken.length = min request.limit.toNat (log.selected request decoder r.plans) := by
  have hover := (isDrained_iff.mp hdrained).2
  rw [h.taken_eq_sent hdrained]
  have hle : x.sent.length ≤ log.selected request decoder r.plans := by
    rw [h.length_sent]
    exact List.sum_le_sum fun e he ↦ (h.sentFrom_prefix he).length_le
  have hlimit : x.sent.length ≤ request.limit.toNat := by
    have hbalance := h.counted.sent_add_pending
    have hbound := h.counted.emitted_le
    omega
  have hhealthy : ∀ w ∈ x.read.workers,
      w.phase.outcome? ≠ some .errored ∧ w.phase.outcome? ≠ some .panicked := fun w hw ↦ by
    obtain ⟨i, hi⟩ := List.getElem?_of_mem hw
    obtain ⟨-, -, part, -, hadvances⟩ := h.delivering.served i w hi
    exact hadvances.healthy
  -- Either all plans were completed, or a worker was stopped, which takes an exhausted limit.
  by_cases hall : ∀ w ∈ x.read.workers, w.phase.outcome? = some .completed
  · have heq : x.sent.length = log.selected request decoder r.plans := by
      rw [h.length_sent]
      refine congrArg List.sum (List.map_congr_left fun e he ↦ ?_)
      obtain ⟨acts, w, hw, rfl, hserved, hsent⟩ := h.exists_worker he
      rw [hsent, hserved.sentIn_eq (hall w hw)]
    omega
  · obtain ⟨w, hw, hout⟩ : ∃ w ∈ x.read.workers, w.phase.outcome? ≠ some .completed := by
      simpa using hall
    have hstopped : w.phase.outcome? = some .limitReached ∨
        w.phase.outcome? = some .cancelled := by
      obtain ⟨outcome, hw'⟩ := exists_outcome_of_isOver hover hw
      have hw'' := hhealthy w hw
      cases outcome <;> simp_all
    have hfull := h.counted.length_sent_of_stopped h.accounted hover h.delivering.undisturbed
      (fun v hv ↦ (hhealthy v hv).2) hw hstopped
    omega

theorem takenFrom_eq_selection (h : Bounded log request decoder r capacity x)
    (hdrained : x.IsDrained)
    (hall : log.selected request decoder r.plans ≤ request.limit.toNat)
    {e : PartitionId × Plan} (he : e ∈ r.plans) :
    x.takenFrom e.1 = log.selection request decoder e := by
  have hlength : x.sent.length = log.selected request decoder r.plans := by
    have htaken := h.length_taken hdrained
    rw [h.taken_eq_sent hdrained] at htaken
    omega
  have hsame : x.takenFrom e.1 = x.sentFrom e.1 := by
    rw [takenFrom, h.taken_eq_sent hdrained, sentFrom]
  rw [hsame]
  refine (h.sentFrom_prefix he).eq_of_length ?_
  by_contra hne
  have hlt : (r.plans.map fun e ↦ (x.sentFrom e.1).length).sum <
      (r.plans.map fun e ↦ (log.selection request decoder e).length).sum := by
    refine List.sum_lt_sum _ _ (fun e he ↦ (h.sentFrom_prefix he).length_le) ⟨e, he, ?_⟩
    exact Nat.lt_of_le_of_ne (h.sentFrom_prefix he).length_le hne
  rw [← h.length_sent, hlength] at hlt
  exact Nat.lt_irrefl _ hlt

end Bounded

/-- A bounded read of a reachable log that does not change, which nobody stops and whose caller
draws what comes, takes no more than a certain number of moves and comes to rest only when it is
drained.  Whatever the order of the moves, the records taken of each partition are the first ones
of its selection; once the read is drained they are as many over all partitions as the limit admits
of the selections, and the whole selections if it admits them all. -/
theorem bounded_read_delivers_selections (alter : δ → Log → Log) (hlog : log.Reachable)
    (hfaults : log.faults = {}) {settings : ReaderSettings} {decoder : Decoder}
    {request : Request} (hmode : request.mode ≠ .live) {r : Read LogCursor}
    (hstart : startRead Log.client log settings decoder request false = .ok (.running r)) :
    r.plans.map Prod.fst = request.partitions.toList ∧
    ∃ bound, ∀ (moves : List (Move δ)) (x : Stage Log LogCursor), (∀ m ∈ moves, m.IsInner) →
      (start log r).play Log.client alter moves = x →
        x.history.length ≤ bound ∧
        (x.AtRest Log.client → x.IsDrained) ∧
        (∀ e ∈ r.plans, x.takenFrom e.1 <+: log.selection request decoder e) ∧
        (x.IsDrained →
          x.taken.length = min request.limit.toNat (log.selected request decoder r.plans) ∧
          (log.selected request decoder r.plans ≤ request.limit.toNat →
            ∀ e ∈ r.plans, x.takenFrom e.1 = log.selection request decoder e)) := by
  obtain ⟨ranges, hlaunched⟩ := exists_launched hstart
  refine ⟨hlaunched.partitions_eq,
    ahead log ⟨request.topic, decoder, request.filter⟩ (start log r),
    fun moves x hinner hx ↦ ?_⟩
  have h : Bounded log request decoder r settings.channelCapacity.toNat x :=
    hx ▸ bounded_play hlog hfaults hmode hlaunched hinner
  refine ⟨Nat.le_trans (Nat.le_add_right _ _) h.delivering.bounded, fun hrest ↦ ?_,
    fun e he ↦ h.takenFrom_prefix he, fun hdrained ↦ ⟨h.length_taken hdrained, fun hall e he ↦
      h.takenFrom_eq_selection hdrained hall he⟩⟩
  refine isDrained_iff.mpr ⟨queue_eq_nil_of_atRest hrest, ?_⟩
  refine h.channeled.isOver_of_atRest hlaunched.capacity_pos h.delivering.listening hrest ?_
  intro w hw hphase
  obtain ⟨i, hi⟩ := List.getElem?_of_mem hw
  rw [h.delivering.state_eq, h.delivering.job_eq]
  exact (h.delivering.served i w hi).act_ne_none hfaults hphase _

theorem bounded_read_delivers_sample :
    Log.sample.Reachable ∧ Log.sample.faults = {} ∧ (sampleRequest .beginning 4).mode ≠ .live ∧
      startRead Log.client Log.sample {} .lossy (sampleRequest .beginning 4) false =
        .ok (.running (sampleRead .beginning 4)) ∧
      (∀ m ∈ Move.oneByOne 13 8 3, m.IsInner) ∧
      ((start Log.sample (sampleRead .beginning 4)).play Log.client Empty.elim
        (Move.oneByOne 13 8 3)).IsDrained ∧
      ((start Log.sample (sampleRead .beginning 4)).play Log.client Empty.elim
        (Move.oneByOne 13 8 3)).taken.length =
          min 4 (Log.sample.selected (sampleRequest .beginning 4) .lossy
            (sampleRead .beginning 4).plans) := by
  have hstart : startRead Log.client Log.sample {} .lossy (sampleRequest .beginning 4) false =
      .ok (.running (sampleRead .beginning 4)) := rfl
  have hdrained : ((start Log.sample (sampleRead .beginning 4)).play Log.client Empty.elim
      (Move.oneByOne 13 8 3)).IsDrained := rfl
  obtain ⟨-, bound, h⟩ := bounded_read_delivers_selections Empty.elim Log.reachable_sample rfl
    (by decide) hstart
  obtain ⟨-, -, -, hall⟩ := h (Move.oneByOne 13 8 3) _ (by decide) rfl
  exact ⟨Log.reachable_sample, rfl, by decide, hstart, by decide, hdrained,
    (hall hdrained).1⟩

end Stage
end TopicView
