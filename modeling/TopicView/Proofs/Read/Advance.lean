import TopicView.Proofs.Log.Cursor
import TopicView.Proofs.Read.Limit
import TopicView.Proofs.Read.Relay

/-!
# How a worker of a bounded read advances

On a log that does not change, a worker pulls the records from the start of its plan on, one after
the other, and completes once the records of the plan are exhausted.  Every act brings it closer to
its end.
-/

namespace TopicView

open Act

namespace Worker

variable {κ : Type} {job : Job} {log s' : Log} {sh sh' : Shared} {w w' : Worker LogCursor}
  {acts acts' : List Act} {act : Option Act} {part : PartitionLog}

theorem Step.log_eq (h : w.Step Log.client job log sh act s' sh' w') : s' = log := by
  have hopen {target : TopicPartition} {start : Offset} {follow : Bool}
      {answer : Opening LogCursor} {next : Log}
      (ho : Log.client.openCursor log target start follow = (answer, next)) : next = log := by
    simp only [Log.client] at ho
    split at ho <;> exact (Prod.mk.inj ho).2.symm
  cases h
  case opened | openingFailed | openingCrashed => exact hopen ‹_›
  case waited | pulled | ended | pullingFailed | pullingCrashed => exact (Log.pull_of_client ‹_›).2
  case closed cursor cursor' outcome phase answer => exact (Prod.mk.inj answer).2.symm
  all_goals rfl

/-- The parcel in hand is the last of the plan, or the worker has come to the end of its plan. -/
def IsThrough (w : Worker κ) : Prop :=
  (∃ parcel, w.phase.parcel? = some parcel ∧ parcel.isLast = true) ∨
    w.phase.outcome? = some .completed

/-- A worker has pulled the records from the start of its plan up to the position of its cursor;
it is through only when none of its plan is left. -/
structure Advances (job : Job) (part : PartitionLog) (acts : List Act)
    (w : Worker LogCursor) : Prop where
  fresh : w.phase = .opening → pulledIn acts = []
  within : pulledIn acts <+: part.recordsFrom w.plan.start
  position : ∀ c, w.phase.cursor? = some c → c.Reads ⟨job.topic, w.partition⟩ false ∧
    pulledIn acts ++ part.recordsFrom c.position = part.recordsFrom w.plan.start
  through : w.IsThrough →
    job.shows w.plan (pulledIn acts) = job.shows w.plan (part.recordsFrom w.plan.start)
  healthy : w.phase.outcome? ≠ some .errored ∧ w.phase.outcome? ≠ some .panicked

theorem advances_start (job : Job) (part : PartitionLog) (p : PartitionId) (plan : Plan) :
    (start p plan).Advances job part [] := by
  refine ⟨fun _ ↦ rfl, List.nil_prefix, fun c hc ↦ (nomatch hc), ?_, (nomatch ·), (nomatch ·)⟩
  rintro (⟨parcel, hparcel, -⟩ | hcompleted)
  · cases hparcel
  · cases hcompleted

theorem Advances.congr (h : w.Advances job part acts) (hplan : w'.plan = w.plan)
    (hpartition : w'.partition = w.partition) (hpulled : pulledIn acts' = pulledIn acts)
    (hphase : w'.phase ≠ .opening)
    (hcursor : ∀ c, w'.phase.cursor? = some c → w.phase.cursor? = some c)
    (hthrough : w'.IsThrough → w.IsThrough)
    (hhealthy : w'.phase.outcome? ≠ some .errored ∧ w'.phase.outcome? ≠ some .panicked) :
    w'.Advances job part acts' := by
  refine ⟨fun hopening ↦ (hphase hopening).elim, ?_, fun c hc ↦ ?_, fun ht ↦ ?_, hhealthy⟩
  · rw [hpulled, hplan]
    exact h.within
  · rw [hpulled, hplan, hpartition]
    exact h.position c (hcursor c hc)
  · rw [hpulled, hplan]
    exact h.through (hthrough ht)

theorem isEnd_of_isThrough_examine {cursor : κ} {w : Worker κ} {raw : RawRecord}
    (h : (w.go (examine job w cursor raw)).IsThrough) :
    isPast w.plan raw.offset = true ∨ w.plan.last = some raw.offset := by
  rcases examine_cases job w cursor raw with ⟨hpast, -⟩ | ⟨-, -, heq⟩ | ⟨-, -, heq⟩
  · exact Or.inl hpast
  · simp only [IsThrough, go, heq] at h
    simpa [Phase.parcel?, Phase.outcome?] using Or.inr h
  · rcases afterRecord_cases cursor (decide (w.plan.last = some raw.offset)) with
      ⟨hlast, hafter⟩ | ⟨hlast, -⟩
    · simp only [IsThrough, go, heq, hafter] at h
      simp [Phase.parcel?, Phase.outcome?] at h
    · exact Or.inr (of_decide_eq_true hlast)

theorem advances_pulled {raw : RawRecord} {c : LogCursor}
    (hreads : c.Reads ⟨job.topic, w.partition⟩ false)
    (hsplit : pulledIn acts ++ raw :: part.recordsFrom c.position =
      part.recordsFrom w.plan.start)
    (hend : isPast w.plan raw.offset = true ∨ w.plan.last = some raw.offset →
      job.shows w.plan (part.recordsFrom c.position) = []) :
    (w.go (examine job w c raw)).Advances job part (acts ++ (some (Act.pulled raw)).toList) := by
  have hpulled : pulledIn (acts ++ (some (Act.pulled raw)).toList) = pulledIn acts ++ [raw] := by
    rw [pulledIn_step]
    rfl
  have hsplit' : pulledIn acts ++ [raw] ++ part.recordsFrom c.position =
      part.recordsFrom w.plan.start := by
    rw [← hsplit, List.append_assoc]
    rfl
  refine ⟨fun hopening ↦ ?_, ?_, fun c' hc' ↦ ?_, fun hthrough ↦ ?_, ?_⟩
  · have hcursor := cursor_examine job w c raw
    simp only [go] at hopening
    rw [hopening] at hcursor
    cases hcursor
  · rw [hpulled]
    exact ⟨_, hsplit'⟩
  · obtain rfl : c = c' := Option.some.inj ((cursor_examine job w c raw).symm.trans hc')
    rw [hpulled]
    exact ⟨hreads, hsplit'⟩
  · rw [hpulled]
    change job.shows w.plan _ = job.shows w.plan (part.recordsFrom w.plan.start)
    rw [← hsplit', Job.shows_append _ (part.recordsFrom c.position),
      hend (isEnd_of_isThrough_examine hthrough), List.append_nil]
  · rcases outcome_examine job w c raw with hout | hout <;> simp [go, hout]

theorem isPast_of_lt {plan : Plan} {a b : Offset}
    (h : isPast plan a = true ∨ plan.last = some a) (hlt : a < b) : isPast plan b = true := by
  cases hlast : plan.last with
  | none => simp [isPast, hlast] at h
  | some last =>
      have hle : last ≤ a := by
        rcases h with hpast | heq
        · simp only [isPast, hlast, decide_eq_true_eq] at hpast
          exact Std.le_of_lt hpast
        · obtain rfl : last = a := Option.some.inj (hlast.symm.trans heq)
          exact Std.le_refl last
      simpa [isPast, hlast] using Std.lt_of_le_of_lt hle hlt

theorem isPast_of_isEmpty {plan : Plan} (h : plan.isEmpty = true) {offset : Offset}
    (hle : plan.start ≤ offset) : isPast plan offset = true := by
  cases hlast : plan.last with
  | none => simp [Plan.isEmpty, hlast] at h
  | some last =>
      simp only [Plan.isEmpty, hlast, decide_eq_true_eq] at h
      simpa [isPast, hlast] using Std.lt_of_lt_of_le h hle

theorem isPast_eq_false_iff {plan : Plan} (h : plan.isBounded = true) {offset : Offset} :
    isPast plan offset = false ↔ offset ≤ plan.endOffset := by
  obtain ⟨last, hlast⟩ : ∃ last, plan.last = some last := Option.isSome_iff_exists.mp h
  simp [isPast, Plan.endOffset, hlast, Std.not_lt]

theorem shows_of_isEmpty {plan : Plan} (h : plan.isEmpty = true) :
    job.shows plan (part.recordsFrom plan.start) = [] :=
  Job.shows_eq_nil fun _ hraw ↦ isPast_of_isEmpty h (PartitionLog.mem_recordsFrom.mp hraw).2

/-- A worker that has just been opened is through only if its plan names no offset. -/
theorem isEmpty_of_isThrough_afterOpening {cursor : κ} {w : Worker κ}
    (h : (w.go (w.afterOpening cursor)).IsThrough) : w.plan.isEmpty = true := by
  rcases afterOpening_cases w cursor with ⟨-, heq⟩ | ⟨hempty, -⟩
  · simp [IsThrough, go, heq, Phase.parcel?, Phase.outcome?] at h
  · exact hempty

theorem shows_rest_of_isEnd {index : PartitionId} (hsound : part.Sound index)
    {plan : Plan} {raw : RawRecord} {a b : Offset}
    (hsplit : part.recordsFrom a = raw :: part.recordsFrom b)
    (hend : isPast plan raw.offset = true ∨ plan.last = some raw.offset) :
    job.shows plan (part.recordsFrom b) = [] := by
  have hsorted : (part.recordsFrom a).Pairwise fun x y ↦ x.offset < y.offset :=
    (PartitionLog.pairwise_offset hsound).filter _
  rw [hsplit] at hsorted
  exact Job.shows_eq_nil fun next hnext ↦
    isPast_of_lt hend ((List.pairwise_cons.mp hsorted).1 next hnext)

/-- Nothing has been pulled where the cursor has just been opened. -/
theorem advances_opened (part : PartitionLog) (hnone : pulledIn acts = []) :
    (w.go (w.afterOpening
      (⟨⟨job.topic, w.partition⟩, w.plan.start, false, none, 0, false⟩ : LogCursor))).Advances
        job part (acts ++ (some Act.opened).toList) := by
  have hpulled : pulledIn (acts ++ (some Act.opened).toList) = [] := by
    rw [pulledIn_step, hnone]
    rfl
  refine ⟨fun _ ↦ hpulled, ?_, fun c hc ↦ ?_, fun hthrough ↦ ?_, ?_⟩
  · rw [hpulled]
    exact List.nil_prefix
  · obtain rfl := Option.some.inj ((cursor_afterOpening _).symm.trans hc)
    rw [hpulled]
    exact ⟨⟨rfl, rfl, rfl, rfl⟩, rfl⟩
  · rw [hpulled]
    exact (shows_of_isEmpty (isEmpty_of_isThrough_afterOpening hthrough)).symm
  · simp only [go, outcome_afterOpening]
    split <;> simp

theorem advances_ended {c : LogCursor} (hreads : c.Reads ⟨job.topic, w.partition⟩ false)
    (hall : pulledIn acts = part.recordsFrom w.plan.start)
    (hnil : part.recordsFrom c.position = []) :
    (w.go (.closing c .completed)).Advances job part (acts ++ (some Act.ended).toList) := by
  have hpulled : pulledIn (acts ++ (some Act.ended).toList) = part.recordsFrom w.plan.start := by
    rw [pulledIn_step, hall]
    exact List.append_nil _
  refine ⟨fun hopening ↦ ?_, ?_, fun d hd ↦ ?_, fun _ ↦ ?_, ?_⟩
  · cases hopening
  · rw [hpulled]
    exact List.prefix_rfl
  · obtain rfl : c = d := Option.some.inj hd
    rw [hpulled, hnil, List.append_nil]
    exact ⟨hreads, rfl⟩
  · rw [hpulled]
    rfl
  · simp [go, Phase.outcome?]

/-! ## Every step -/

section Step

variable (h : w.Advances job part acts) (hsource : log.Source job.topic w.partition part)
  (hfaults : log.faults = {}) (hbounded : w.plan.isBounded = true)

include hsource hfaults hbounded in
theorem opens : Log.client.openCursor log ⟨job.topic, w.partition⟩ w.plan.start
    (!w.plan.isBounded) =
      (.opened ⟨⟨job.topic, w.partition⟩, w.plan.start, false, none, 0, false⟩, log) := by
  rw [Log.openCursor_eq hfaults hsource.found, hbounded]
  rfl

include h hsource in
/-- A pull takes the first of the records that are left, or there is none left. -/
theorem Advances.pull {c c' : LogCursor} {answer : Pull} (hphase : w.phase = .pulling c)
    (hanswer : Log.client.pull log c = (answer, c', s')) :
    c'.Reads ⟨job.topic, w.partition⟩ false ∧
      ((∃ raw, answer = .record raw ∧
        part.recordsFrom c.position = raw :: part.recordsFrom c'.position) ∨
      answer = .ended ∧ part.recordsFrom c.position = [] ∧ part.recordsFrom c'.position = []) := by
  have hreads := (h.position c (by rw [hphase]; rfl)).1
  have hcursor := (Log.pull_of_client hanswer).1
  rcases LogCursor.recordsFrom_of_pull hsource.sound hsource.fits hreads hsource.found with
    ⟨raw, c'', heq, hreads', -, hsplit⟩ | ⟨c'', heq, hreads', hnil, hnil'⟩
  · obtain ⟨rfl, rfl⟩ := Prod.mk.inj (hcursor.symm.trans heq)
    exact ⟨hreads', Or.inl ⟨raw, rfl, hsplit⟩⟩
  · obtain ⟨rfl, rfl⟩ := Prod.mk.inj (hcursor.symm.trans heq)
    exact ⟨hreads', Or.inr ⟨rfl, hnil, hnil'⟩⟩

include h hsource hfaults hbounded in
/-- No step fails, and none waits for the cursor. -/
theorem Advances.smooth (hstep : w.Step Log.client job log sh act s' sh' w') :
    (∀ f, act ≠ some (.failed f)) ∧ act ≠ some .crashed ∧ (act = none → w' = w ∧ sh' = sh) ∧
      sh'.errors = sh.errors := by
  have hopen := opens hsource hfaults hbounded
  cases hstep
  case openingFailed f phase live answer => cases hopen.symm.trans answer
  case openingCrashed phase live answer => cases hopen.symm.trans answer
  case waited cursor cursor' phase live answer =>
    obtain ⟨-, ⟨raw, hraw, -⟩ | ⟨hended, -⟩⟩ := h.pull hsource phase answer
    · cases hraw
    · cases hended
  case pullingFailed cursor cursor' f phase live answer =>
    obtain ⟨-, ⟨raw, hraw, -⟩ | ⟨hended, -⟩⟩ := h.pull hsource phase answer
    · cases hraw
    · cases hended
  case pullingCrashed cursor cursor' phase live answer =>
    obtain ⟨-, ⟨raw, hraw, -⟩ | ⟨hended, -⟩⟩ := h.pull hsource phase answer
    · cases hraw
    · cases hended
  all_goals simp [Shared.cancel]

include h hsource hfaults hbounded in
theorem Advances.step (hstep : w.Step Log.client job log sh act s' sh' w') :
    w'.Advances job part (acts ++ act.toList) := by
  obtain ⟨hfailed, hcrashed, hwaited, -⟩ := h.smooth hsource hfaults hbounded hstep
  have hopen := opens hsource hfaults hbounded
  cases hstep
  case idle => simpa using h
  case openingFailed f phase live answer => exact (hfailed _ rfl).elim
  case pullingFailed cursor cursor' f phase live answer => exact (hfailed _ rfl).elim
  case openingCrashed | pullingCrashed => exact (hcrashed rfl).elim
  case waited cursor cursor' phase live answer =>
    rw [(hwaited rfl).1]
    simpa using h
  case opened cursor phase live answer =>
    obtain ⟨rfl⟩ : _ = cursor := Opening.opened.inj (Prod.mk.inj (hopen.symm.trans answer)).1
    exact advances_opened part (h.fresh phase)
  case pulled cursor cursor' raw phase live answer =>
    obtain ⟨hreads, ⟨raw', hraw, hsplit⟩ | ⟨hended, -⟩⟩ := h.pull hsource phase answer
    · obtain rfl : raw = raw' := Pull.record.inj hraw
      have hrest := (h.position cursor (by rw [phase]; rfl)).2
      rw [hsplit] at hrest
      exact advances_pulled hreads hrest (shows_rest_of_isEnd hsource.sound hsplit)
    · cases hended
  case ended cursor cursor' phase live answer =>
    obtain ⟨hreads, ⟨raw, hraw, -⟩ | ⟨-, hnil, hnil'⟩⟩ := h.pull hsource phase answer
    · cases hraw
    · have hrest := (h.position cursor (by rw [phase]; rfl)).2
      rw [hnil, List.append_nil] at hrest
      exact advances_ended hreads hrest hnil'
  case sent cursor parcel b phase =>
    refine h.congr rfl rfl (by rw [pulledIn_step]; simp [raw?]) ?_ ?_ ?_ ?_ <;>
      obtain ⟨hb, heq⟩ | ⟨hb, hlast, heq⟩ | ⟨hb, hlast, heq⟩ :=
        afterSending_cases cursor parcel b <;>
      simp_all [IsThrough, Phase.cursor?, Phase.parcel?, Phase.outcome?]
  case granted cursor parcel b counter phase answer =>
    refine h.congr rfl rfl (by rw [pulledIn_step]; simp [raw?]) ?_ ?_ ?_ ?_ <;>
      cases b <;> simp_all [go, IsThrough, Phase.cursor?, Phase.parcel?, Phase.outcome?]
  case closed cursor cursor' outcome phase answer =>
    have hhealthy := h.healthy
    refine h.congr rfl rfl (by rw [pulledIn_step]; simp [raw?]) ?_ ?_ ?_ ?_ <;>
      simp_all [go, IsThrough, Phase.cursor?, Phase.parcel?, Phase.outcome?]
  all_goals
    refine h.congr rfl rfl (by rw [pulledIn_step]; simp [raw?]) ?_ ?_ ?_ ?_ <;>
      simp_all [go, IsThrough, Phase.cursor?, Phase.parcel?, Phase.outcome?]

end Step

/-! ## How much is left to do -/

/-- A bound on what the acts of a worker can still add to a history: the acts themselves, and for
each record that it may send the taking of that record. -/
def toDo (part : PartitionLog) (w : Worker LogCursor) : Nat :=
  match w.phase with
  | .opening => 5 * (part.recordsFrom w.plan.start).length + 4
  | .pulling c => 5 * (part.recordsFrom c.position).length + 3
  | .reserving c _ => 5 * (part.recordsFrom c.position).length + 7
  | .claiming c _ => 5 * (part.recordsFrom c.position).length + 6
  | .sending c _ _ => 5 * (part.recordsFrom c.position).length + 5
  | .announcing _ => 2
  | .closing _ _ => 1
  | .finished _ | .crashed => 0

theorem toDo_afterRecord (part : PartitionLog) (w : Worker LogCursor) (c : LogCursor)
    (isLast : Bool) :
    (w.go (afterRecord c isLast)).toDo part ≤ 5 * (part.recordsFrom c.position).length + 3 := by
  rcases afterRecord_cases c isLast with ⟨-, heq⟩ | ⟨-, heq⟩ <;> simp [toDo, go, heq]

theorem toDo_examine (job : Job) (part : PartitionLog) (w : Worker LogCursor) (c : LogCursor)
    (raw : RawRecord) :
    (w.go (examine job w c raw)).toDo part ≤ 5 * (part.recordsFrom c.position).length + 7 := by
  rcases examine_cases job w c raw with ⟨-, heq⟩ | ⟨-, -, heq⟩ | ⟨-, -, heq⟩
  · simp [toDo, go, heq]
  · simp [toDo, go, heq]
  · have hafter := toDo_afterRecord part w c (w.plan.last = some raw.offset)
    rw [heq]
    omega

theorem toDo_afterSending (part : PartitionLog) (w : Worker LogCursor) (emitted : UInt64)
    (c : LogCursor) (parcel : Parcel) (b : Bool) :
    toDo part { w with emitted, phase := afterSending c parcel b } ≤
      5 * (part.recordsFrom c.position).length + 3 := by
  rcases afterSending_cases c parcel b with ⟨-, heq⟩ | ⟨-, -, heq⟩ | ⟨-, -, heq⟩ <;>
    simp [toDo, heq]

/-- Where no answer is a wait, and what a cursor yields is no longer ahead of it, a step takes off
what it adds to the history and to the queues. -/
theorem Step.toDo_le (hstep : w.Step Log.client job log sh act s' sh' w')
    (hopens : ∀ answer next, w.phase = .opening →
      Log.client.openCursor log ⟨job.topic, w.partition⟩ w.plan.start (!w.plan.isBounded) =
        (answer, next) → ∀ c, answer = .opened c → c.position = w.plan.start)
    (hpulls : ∀ c answer c' next, w.phase = .pulling c →
      Log.client.pull log c = (answer, c', next) → answer ≠ .waiting ∧ ∀ raw, answer = .record raw →
        (part.recordsFrom c'.position).length < (part.recordsFrom c.position).length) :
    act.toList.length + (act.bind record?).toList.length + (act.bind failure?).toList.length +
      w'.toDo part ≤ w.toDo part := by
  cases hstep
  case idle => simp
  case waited cursor cursor' phase live answer => exact ((hpulls _ _ _ _ phase answer).1 rfl).elim
  case opened cursor phase live answer =>
    have hposition := hopens _ _ phase answer cursor rfl
    rcases afterOpening_cases w cursor with ⟨-, heq⟩ | ⟨-, heq⟩ <;>
      simp [toDo, go, heq, phase, record?, failure?, hposition]
    omega
  case pulled cursor cursor' raw phase live answer =>
    have hless := (hpulls _ _ _ _ phase answer).2 raw rfl
    have hle := toDo_examine job part w cursor' raw
    have hbefore : w.toDo part = 5 * (part.recordsFrom cursor.position).length + 3 := by
      simp [toDo, phase]
    simp only [hbefore, Option.toList_some, List.length_singleton, Option.bind_some, record?,
      failure?, Option.toList_none, List.length_nil]
    omega
  case sent cursor parcel b phase =>
    have hle := toDo_afterSending part w (w.emitted + 1) cursor parcel b
    have hbefore : w.toDo part = 5 * (part.recordsFrom cursor.position).length + 5 := by
      simp [toDo, phase]
    simp only [hbefore, Option.toList_some, List.length_singleton, Option.bind_some, record?,
      failure?, Option.toList_none, List.length_nil]
    omega
  all_goals
    simp [toDo, go, record?, failure?, *]
    try omega

theorem Advances.toDo_le (h : w.Advances job part acts)
    (hsource : log.Source job.topic w.partition part) (hfaults : log.faults = {})
    (hbounded : w.plan.isBounded = true)
    (hstep : w.Step Log.client job log sh act s' sh' w') :
    act.toList.length + (act.bind record?).toList.length + (act.bind failure?).toList.length +
      w'.toDo part ≤ w.toDo part := by
  refine hstep.toDo_le ?_ ?_
  · intro answer next _ hanswer c hc
    subst hc
    cases (opens hsource hfaults hbounded).symm.trans hanswer
    rfl
  · intro c answer c' next hphase hanswer
    obtain ⟨-, ⟨raw, rfl, hsplit⟩ | ⟨rfl, -⟩⟩ := h.pull hsource hphase hanswer
    · refine ⟨nofun, fun _ _ ↦ ?_⟩
      rw [hsplit, List.length_cons]
      exact Nat.lt_succ_self _
    · exact ⟨nofun, nofun⟩

end Worker
end TopicView
