import TopicView.Proofs.Log.Segment
import TopicView.Proofs.Read.Ask

/-!
# A worker and the faults of its partition

On a log that does not change, a worker goes up through the segment that its plan names.  It stops
short of the end of that segment only if somebody stops it, if its cursor has been told not to open,
or if its cursor has been told to fail before that end.
-/

namespace TopicView

open Act

theorem Plan.isEmpty_iff {plan : Plan} (h : plan.isBounded = true) :
    plan.isEmpty = true ↔ plan.size = 0 := by
  obtain ⟨last, hlast⟩ : ∃ last, plan.last = some last := Option.isSome_iff_exists.mp h
  simp only [isEmpty, size, endOffset, hlast, Option.getD_some, decide_eq_true_eq,
    Int64.lt_iff_toInt_lt]
  omega

namespace Worker

/-- A worker reports the failures of its own partition. -/
theorem Step.failure_partition {σ κ : Type} {client : Client σ κ} {job : Job} {s s' : σ}
    {sh sh' : Shared} {w w' : Worker κ} {act : Option Act}
    (h : w.Step client job s sh act s' sh' w') :
    ∀ f ∈ act.bind failure?, f.partition = w.partition := by
  cases h
  case openingFailed f phase live answer =>
    intro g hg
    obtain rfl := Option.some.inj hg
    rfl
  case pullingFailed f phase live answer =>
    intro g hg
    obtain rfl := Option.some.inj hg
    rfl
  all_goals simp [failure?]

/-- How a worker ends that nobody stops, with the records that it has pulled and the failures that
it has reported. -/
inductive Ending (log : Log) (target : TopicPartition) (segment : List RawRecord) :
    Outcome → List RawRecord → List PartitionFailure → Prop
  | completed (opens : target ∉ log.faults.openings)
      (holds : ∀ n, log.faults.streams.lookup target = some n → segment.length ≤ n) :
      Ending log target segment .completed segment []
  | unopened (fails : target ∈ log.faults.openings) :
      Ending log target segment .errored []
        [⟨target.partition, .opening, (LogFault.opening target).failure⟩]
  | cutOff {n : Nat} (opens : target ∉ log.faults.openings)
      (fails : log.faults.streams.lookup target = some n) (short : n < segment.length) :
      Ending log target segment .errored (segment.take n)
        [⟨target.partition, .streaming, (LogFault.stream target).failure⟩]

namespace Ending

variable {log : Log} {target : TopicPartition} {segment pulled : List RawRecord}
  {outcome : Outcome} {failures : List PartitionFailure}

theorem isFailure_iff (h : Ending log target segment outcome pulled failures) :
    outcome.isFailure = true ↔ failures ≠ [] := by
  cases h <;> simp [Outcome.isFailure]

theorem of_no_fault (h : Ending log target segment outcome pulled failures)
    (hopens : target ∉ log.faults.openings) (hnone : log.faults.streams.lookup target = none) :
    outcome = .completed ∧ pulled = segment ∧ failures = [] := by
  cases h with
  | completed => exact ⟨rfl, rfl, rfl⟩
  | unopened fails => exact (hopens fails).elim
  | cutOff _ fails => cases hnone.symm.trans fails

theorem of_opening (h : Ending log target segment outcome pulled failures)
    (hfails : target ∈ log.faults.openings) :
    outcome = .errored ∧ pulled = [] ∧
      failures = [⟨target.partition, .opening, (LogFault.opening target).failure⟩] := by
  cases h with
  | completed opens => exact (opens hfails).elim
  | unopened => exact ⟨rfl, rfl, rfl⟩
  | cutOff opens => exact (opens hfails).elim

theorem of_stream (h : Ending log target segment outcome pulled failures)
    (hopens : target ∉ log.faults.openings) {n : Nat}
    (hfails : log.faults.streams.lookup target = some n) :
    pulled = segment.take n ∧
      (n < segment.length → outcome = .errored ∧
        failures = [⟨target.partition, .streaming, (LogFault.stream target).failure⟩]) ∧
      (segment.length ≤ n → outcome = .completed ∧ failures = []) := by
  cases h with
  | completed _ holds =>
      have hle := holds n hfails
      exact ⟨(List.take_of_length_le hle).symm, fun hlt ↦ absurd hlt (Nat.not_lt.mpr hle),
        fun _ ↦ ⟨rfl, rfl⟩⟩
  | unopened fails => exact (hopens fails).elim
  | cutOff _ fails short =>
      obtain rfl := Option.some.inj (hfails.symm.trans fails)
      exact ⟨rfl, fun _ ↦ ⟨rfl, rfl⟩, fun hle ↦ absurd short (Nat.not_lt.mpr hle)⟩

end Ending

/-- The cursor has yielded some records of a plan and has not come to its fault. -/
structure Upto (log : Log) (target : TopicPartition) (plan : Plan) (count : Nat)
    (c : LogCursor) : Prop where
  opens : target ∉ log.faults.openings
  cursor_eq : c = ⟨target, c.position, false, log.faults.streams.lookup target, count, false⟩
  position_eq : c.position.toInt = plan.start.toInt + count
  count_le : ∀ n, log.faults.streams.lookup target = some n → count ≤ n

/-- A worker has pulled its segment up to its cursor, all of it if it is through, and what there was
before the fault if it has failed. -/
structure Covers (log : Log) (job : Job) (segment : List RawRecord) (acts : List Act)
    (w : Worker LogCursor) : Prop where
  within : pulledIn acts <+: segment
  fresh : w.phase = .opening → pulledIn acts = [] ∧ failedIn acts = []
  going : ∀ c, w.phase.cursor? = some c → w.phase.outcome? = none →
    Upto log ⟨job.topic, w.partition⟩ w.plan (pulledIn acts).length c ∧ failedIn acts = [] ∧
      (w.IsThrough ∨ (pulledIn acts).length < segment.length)
  through : w.IsThrough →
    Ending log ⟨job.topic, w.partition⟩ segment .completed (pulledIn acts) (failedIn acts)
  errored : w.phase.outcome? = some .errored →
    Ending log ⟨job.topic, w.partition⟩ segment .errored (pulledIn acts) (failedIn acts)
  whole : w.phase.outcome? ≠ some .panicked

variable {job : Job} {log s' : Log} {sh sh' : Shared} {w w' : Worker LogCursor}
  {acts : List Act} {act : Option Act} {part : PartitionLog} {segment : List RawRecord}

theorem covers_start (log : Log) (job : Job) (segment : List RawRecord) (p : PartitionId)
    (plan : Plan) : (start p plan).Covers log job segment [] := by
  refine ⟨List.nil_prefix, fun _ ↦ ⟨rfl, rfl⟩, nofun, ?_, nofun, nofun⟩
  rintro (⟨parcel, hparcel, -⟩ | hcompleted)
  · cases hparcel
  · cases hcompleted

/-! ## Every step -/

theorem Covers.quiet (h : w.Covers log job segment acts) (hquiet : w.Quiet act w')
    (hpartition : w'.partition = w.partition) (hplan : w'.plan = w.plan) :
    w'.Covers log job segment (acts ++ act.toList) := by
  have hpulled : pulledIn (acts ++ act.toList) = pulledIn acts := by
    simp [pulledIn_step, hquiet.raw_eq]
  have hfailed : failedIn (acts ++ act.toList) = failedIn acts := by
    simp [failedIn_step, hquiet.failure_eq]
  constructor
  case within =>
    rw [hpulled]
    exact h.within
  case fresh =>
    intro hopening
    rw [hpulled, hfailed]
    exact h.fresh (hquiet.opening hopening)
  case going =>
    intro c hc hout
    obtain ⟨hgoing, hthrough⟩ := hquiet.going hout
    obtain ⟨hupto, hnone, hleft⟩ := h.going c (hquiet.cursor c hc) hgoing
    rw [hpulled, hfailed, hpartition, hplan]
    exact ⟨hupto, hnone, hleft.imp_left hthrough⟩
  case through =>
    intro hthrough
    rw [hpulled, hfailed, hpartition]
    exact h.through (hquiet.through hthrough)
  case errored =>
    intro hout
    rw [hpulled, hfailed, hpartition]
    exact h.errored (hquiet.errored hout)
  case whole =>
    intro hout
    exact h.whole (hquiet.panicked hout)

/-- Once the partition has failed, only that counts. -/
theorem covers_failed {phase : Phase LogCursor} {f : PartitionFailure}
    (hwithin : pulledIn acts <+: segment) (hopening : phase ≠ .opening)
    (hout : phase.outcome? = some .errored) (hparcel : phase.parcel? = none)
    (hending : Ending log ⟨job.topic, w.partition⟩ segment .errored (pulledIn acts)
      (failedIn acts ++ [f])) :
    (w.go phase).Covers log job segment (acts ++ (some (Act.failed f)).toList) := by
  have hpulled : pulledIn (acts ++ (some (Act.failed f)).toList) = pulledIn acts := by
    rw [pulledIn_step]
    exact List.append_nil _
  have hfailed : failedIn (acts ++ (some (Act.failed f)).toList) = failedIn acts ++ [f] :=
    failedIn_step _ _
  constructor
  case within => rwa [hpulled]
  case fresh =>
    intro hphase
    exact (hopening hphase).elim
  case going =>
    intro c _ hnone
    cases hout.symm.trans hnone
  case through =>
    rintro (⟨parcel, hsome, -⟩ | hcompleted)
    · cases hparcel.symm.trans hsome
    · cases hout.symm.trans hcompleted
  case errored =>
    intro _
    rwa [hpulled, hfailed]
  case whole =>
    intro hpanicked
    cases hout.symm.trans hpanicked

/-- The last record of a plan brings a worker through it. -/
theorem isThrough_examine {c : LogCursor} {raw : RawRecord}
    (hlast : w.plan.last = some raw.offset) : (w.go (examine job w c raw)).IsThrough := by
  rcases examine_cases job w c raw with ⟨-, heq⟩ | ⟨-, -, heq⟩ | ⟨-, -, heq⟩
  · exact .inr (by simp [go, heq, Phase.outcome?])
  · exact .inl (by simp [go, heq, hlast, Phase.parcel?])
  · exact .inr (by simp [go, heq, hlast])

section Ask

variable (h : w.Covers log job (part.segment w.plan) acts)
  (hsource : log.Source job.topic w.partition part) (hholds : part.Holds w.plan)

include hsource hholds

theorem covers_opened (hopens : ⟨job.topic, w.partition⟩ ∉ log.faults.openings)
    (hpulled : pulledIn acts = []) (hfailed : failedIn acts = []) :
    (w.go (w.afterOpening ⟨⟨job.topic, w.partition⟩, w.plan.start, false,
      log.faults.streams.lookup ⟨job.topic, w.partition⟩, 0, false⟩)).Covers log job
        (part.segment w.plan) (acts ++ (some Act.opened).toList) := by
  have hpulled' : pulledIn (acts ++ (some Act.opened).toList) = [] := by
    rw [pulledIn_step, hpulled]
    rfl
  have hfailed' : failedIn (acts ++ (some Act.opened).toList) = [] := by
    rw [failedIn_step, hfailed]
    rfl
  have hlength := PartitionLog.length_segment hsource.sound hsource.fits hholds
  have hempty := Plan.isEmpty_iff hholds.bounded
  constructor
  case within =>
    rw [hpulled']
    exact List.nil_prefix
  case fresh => exact fun _ ↦ ⟨hpulled', hfailed'⟩
  case going =>
    intro c hc hout
    obtain rfl := Option.some.inj ((cursor_afterOpening _).symm.trans hc)
    rw [hpulled', hfailed']
    refine ⟨⟨hopens, rfl, by simp [go], fun n _ ↦ Nat.zero_le n⟩, rfl, .inr ?_⟩
    change 0 < (part.segment w.plan).length
    rw [hlength, Nat.pos_iff_ne_zero, ne_eq, ← hempty]
    intro hplan
    simp [go, outcome_afterOpening, hplan] at hout
  case through =>
    intro hthrough
    have hnil : part.segment w.plan = [] := by
      rw [← List.length_eq_zero_iff, hlength, ← hempty]
      exact isEmpty_of_isThrough_afterOpening hthrough
    rw [hpulled', hfailed', hnil]
    exact .completed hopens fun n _ ↦ Nat.zero_le n
  all_goals
    intro hout
    simp only [go, outcome_afterOpening] at hout
    split at hout <;> cases hout

include h

theorem Covers.opening (hphase : w.phase = .opening) {answer : Opening LogCursor}
    (hopen : Log.client.openCursor log ⟨job.topic, w.partition⟩ w.plan.start (!w.plan.isBounded) =
      (answer, s')) :
    (w.onOpening answer).2.Covers log job (part.segment w.plan)
      (acts ++ (w.onOpening answer).1.toList) := by
  obtain ⟨hpulled, hfailed⟩ := h.fresh hphase
  rw [hholds.bounded] at hopen
  rcases Log.openCursor_cases hsource.found w.plan.start false with ⟨hfault, heq⟩ | ⟨hopens, heq⟩
  · cases heq.symm.trans hopen
    refine covers_failed h.within (nofun : Phase.finished .errored ≠ .opening) rfl rfl ?_
    rw [hpulled, hfailed]
    exact .unopened hfault
  · cases heq.symm.trans hopen
    exact covers_opened hsource hholds hopens hpulled hfailed

/-- A cursor that is still to yield a record of the segment yields the next one or fails. -/
theorem Covers.pull_cases {c : LogCursor} (hphase : w.phase = .pulling c) :
    ⟨job.topic, w.partition⟩ ∉ log.faults.openings ∧ failedIn acts = [] ∧
    ((log.faults.streams.lookup ⟨job.topic, w.partition⟩ = some (pulledIn acts).length ∧
      (pulledIn acts).length < (part.segment w.plan).length ∧
      c.pull log = (.failed (LogFault.stream ⟨job.topic, w.partition⟩).failure, c.close)) ∨
    ∃ raw, (part.segment w.plan)[(pulledIn acts).length]? = some raw ∧
      c.pull log = (.record raw,
        { c with position := c.position + 1, delivered := c.delivered + 1 }) ∧
      part.recordsFrom c.position = raw :: part.recordsFrom (c.position + 1) ∧
      Upto log ⟨job.topic, w.partition⟩ w.plan ((pulledIn acts).length + 1)
        { c with position := c.position + 1, delivered := c.delivered + 1 }) := by
  obtain ⟨hupto, hfailed, hleft⟩ := h.going c (by rw [hphase]; rfl) (by rw [hphase]; rfl)
  have hgoing : ¬ w.IsThrough := by
    simp [IsThrough, hphase, Phase.parcel?, Phase.outcome?]
  have hshort := hleft.resolve_left hgoing
  obtain ⟨hopens, hcursor, hposition, hcount⟩ := hupto
  have htarget : c.target = ⟨job.topic, w.partition⟩ := by rw [hcursor]
  have hopen : c.closed = false := by rw [hcursor]
  have hafter : c.failAfter = log.faults.streams.lookup ⟨job.topic, w.partition⟩ := by rw [hcursor]
  have hdelivered : c.delivered = (pulledIn acts).length := by rw [hcursor]
  refine ⟨hopens, hfailed, ?_⟩
  -- The cursor looks for its fault before it looks for a record.
  by_cases hfault : c.failAfter = some c.delivered
  · refine .inl ⟨?_, hshort, ?_⟩
    · rw [← hafter, hfault, hdelivered]
    · rw [LogCursor.pull_of_fault hopen hfault, htarget]
  · have hraw := List.getElem?_eq_getElem hshort
    have hfound := hsource.found
    rw [← htarget] at hfound
    have hoffset := (PartitionLog.get?_of_segment hsource.sound hsource.fits hholds hraw).1
    have hmem := (List.mem_filter.mp (List.mem_of_getElem? hraw)).1
    have hlt := (PartitionLog.mem_range hsource.sound hsource.fits hmem).2
    have hsplit := PartitionLog.recordsFrom_of_mem hsource.sound hmem (Offset.toInt_add_one hlt)
    rw [Int64.toInt_inj.mp (hoffset.trans hposition.symm)] at hsplit hlt
    refine .inr ⟨_, hraw, LogCursor.pull_of_segment hsource.sound hsource.fits hholds hfound hopen
      hfault hposition hraw, hsplit, hopens, ?_, ?_, ?_⟩
    · rw [hcursor]
    · have hnext := Offset.toInt_add_one hlt
      push_cast
      omega
    · intro n hn
      have hle := hcount n hn
      have hne : n ≠ (pulledIn acts).length := by
        rintro rfl
        rw [hafter, hdelivered] at hfault
        exact hfault hn
      omega

theorem Covers.pulled {c : LogCursor} {raw : RawRecord}
    (hraw : (part.segment w.plan)[(pulledIn acts).length]? = some raw)
    (hfailed : failedIn acts = [])
    (hupto : Upto log ⟨job.topic, w.partition⟩ w.plan ((pulledIn acts).length + 1) c) :
    (w.go (examine job w c raw)).Covers log job (part.segment w.plan)
      (acts ++ (some (Act.pulled raw)).toList) := by
  have hpulled : pulledIn (acts ++ (some (Act.pulled raw)).toList) = pulledIn acts ++ [raw] :=
    pulledIn_step _ _
  have hfailed' : failedIn (acts ++ (some (Act.pulled raw)).toList) = [] := by
    rw [failedIn_step, hfailed]
    rfl
  have hlength := PartitionLog.length_segment hsource.sound hsource.fits hholds
  obtain ⟨hshort, -⟩ := List.getElem?_eq_some_iff.mp hraw
  have hwithin : pulledIn acts ++ [raw] <+: part.segment w.plan := by
    have hnext := List.take_prefix ((pulledIn acts).length + 1) (part.segment w.plan)
    rwa [List.take_add_one, ← List.prefix_iff_eq_take.mp h.within, hraw] at hnext
  have hoffset := (PartitionLog.get?_of_segment hsource.sound hsource.fits hholds hraw).1
  -- The worker stops at the record that is the last of the segment, before another pull.
  have hlast : isPast w.plan raw.offset = false ∧ (w.plan.last = some raw.offset ↔
      (pulledIn acts).length + 1 = (part.segment w.plan).length) := by
    obtain ⟨last, hlast⟩ : ∃ last, w.plan.last = some last :=
      Option.isSome_iff_exists.mp hholds.bounded
    have hsize : w.plan.size = (last.toInt + 1 - w.plan.start.toInt).toNat := by
      simp [Plan.size, Plan.endOffset, hlast]
    rw [hlast, isPast, hlast, decide_eq_false_iff_not, Std.not_lt, Int64.le_iff_toInt_le,
      Option.some_inj, ← Int64.toInt_inj]
    omega
  have hend (hthrough : (w.go (examine job w c raw)).IsThrough) :
      pulledIn acts ++ [raw] = part.segment w.plan := by
    refine hwithin.eq_of_length ?_
    rw [List.length_append, List.length_singleton, ← hlast.2]
    exact (isEnd_of_isThrough_examine hthrough).resolve_left (by simp [hlast.1])
  constructor
  case within => rwa [hpulled]
  case fresh =>
    intro hopening
    exact (onPull_ne_opening job w c (.record raw) hopening).elim
  case going =>
    intro d hd hout
    obtain rfl : c = d := Option.some.inj ((cursor_examine job w c raw).symm.trans hd)
    rw [hpulled, hfailed', List.length_append]
    refine ⟨hupto, rfl, ?_⟩
    by_cases hfinal : w.plan.last = some raw.offset
    · exact .inl (isThrough_examine hfinal)
    · have hne := fun heq ↦ hfinal (hlast.2.mpr heq)
      exact .inr (Nat.lt_of_le_of_ne hshort hne)
  case through =>
    intro hthrough
    rw [hpulled, hfailed', hend hthrough]
    refine .completed hupto.opens fun n hn ↦ ?_
    have hle := hupto.count_le n hn
    have hsame := congrArg List.length (hend hthrough)
    rw [List.length_append] at hsame
    exact hsame ▸ hle
  all_goals
    intro hout
    rcases outcome_examine job w c raw with heq | heq <;> cases heq.symm.trans hout

include h

theorem Covers.pulling {c c' : LogCursor} (hphase : w.phase = .pulling c) {answer : Pull}
    (hpull : Log.client.pull log c = (answer, c', s')) :
    (w.onPull job c' answer).2.Covers log job (part.segment w.plan)
      (acts ++ (w.onPull job c' answer).1.toList) := by
  have hcursor := (Log.pull_of_client hpull).1
  obtain ⟨hopens, hfailed, ⟨hfault, hshort, heq⟩ | ⟨raw, hraw, heq, -, hupto⟩⟩ :=
    h.pull_cases hsource hholds hphase
  · obtain ⟨rfl, rfl⟩ := Prod.mk.inj (hcursor.symm.trans heq)
    refine covers_failed h.within (nofun : Phase.closing c.close .errored ≠ .opening) rfl rfl ?_
    have hending := Ending.cutOff hopens hfault hshort
    rw [← List.prefix_iff_eq_take.mp h.within] at hending
    rwa [hfailed]
  · obtain ⟨rfl, rfl⟩ := Prod.mk.inj (hcursor.symm.trans heq)
    exact h.pulled hsource hholds hraw hfailed hupto

end Ask

theorem Covers.step (h : w.Covers log job (part.segment w.plan) acts)
    (hsource : log.Source job.topic w.partition part) (hholds : part.Holds w.plan)
    (hstep : w.Step Log.client job log sh act s' sh' w') :
    w'.Covers log job (part.segment w.plan) (acts ++ act.toList) := by
  rcases hstep.quiet_or_asks with hquiet | ⟨hphase, -, answer, hopen, rfl, rfl⟩ |
    ⟨c, answer, c', hphase, -, hpull, rfl, rfl⟩
  · exact h.quiet hquiet hstep.partition_eq hstep.plan_eq
  · exact h.opening hsource hholds hphase hopen
  · exact h.pulling hsource hholds hphase hpull

theorem Covers.ending (h : w.Covers log job segment acts) {outcome : Outcome}
    (hout : w.phase.outcome? = some outcome) (hgoing : ¬ w.IsStopped) :
    Ending log ⟨job.topic, w.partition⟩ segment outcome (pulledIn acts) (failedIn acts) := by
  cases outcome with
  | completed => exact h.through (.inr hout)
  | errored => exact h.errored hout
  | limitReached => exact (hgoing (.inl hout)).elim
  | cancelled => exact (hgoing (.inr hout)).elim
  | panicked => exact (h.whole hout).elim

/-! ## What is left to do -/

section Left

variable (h : w.Covers log job (part.segment w.plan) acts)
  (hsource : log.Source job.topic w.partition part) (hholds : part.Holds w.plan)

include h hsource hholds

theorem Covers.toDo_le (hstep : w.Step Log.client job log sh act s' sh' w') :
    act.toList.length + (act.bind record?).toList.length + (act.bind failure?).toList.length +
      w'.toDo part ≤ w.toDo part := by
  apply hstep.toDo_le
  · intro answer next _ hopen c hc
    subst hc
    rcases Log.openCursor_cases hsource.found w.plan.start (!w.plan.isBounded) with
      ⟨-, heq⟩ | ⟨-, heq⟩
    · cases heq.symm.trans hopen
    · cases heq.symm.trans hopen
      rfl
  · intro c answer c' next hphase hpull
    have hcursor := (Log.pull_of_client hpull).1
    obtain ⟨-, -, ⟨-, -, heq⟩ | ⟨raw, -, heq, hsplit, -⟩⟩ := h.pull_cases hsource hholds hphase
    · obtain ⟨rfl, rfl⟩ := Prod.mk.inj (hcursor.symm.trans heq)
      exact ⟨nofun, nofun⟩
    · obtain ⟨rfl, rfl⟩ := Prod.mk.inj (hcursor.symm.trans heq)
      refine ⟨nofun, fun _ _ ↦ ?_⟩
      rw [hsplit, List.length_cons]
      exact Nat.lt_succ_self _

theorem Covers.act_ne_none (hphase : w.phase = .opening ∨ ∃ c, w.phase = .pulling c)
    (sh : Shared) : w.act? Log.client job log sh ≠ none := by
  cases hc : sh.cancelled with
  | true => rcases hphase with hphase | ⟨c, hphase⟩ <;> simp [Worker.act?, hphase, hc]
  | false =>
      rcases hphase with hphase | ⟨c, hphase⟩
      · rcases Log.openCursor_cases hsource.found w.plan.start (!w.plan.isBounded) with
          ⟨-, heq⟩ | ⟨-, heq⟩ <;> simp [Worker.act?, hphase, hc, heq]
      · obtain ⟨-, -, ⟨-, -, heq⟩ | ⟨raw, -, heq, -, -⟩⟩ := h.pull_cases hsource hholds hphase <;>
          simp [Worker.act?, hphase, hc, Log.client, heq]

end Left

end Worker
end TopicView
