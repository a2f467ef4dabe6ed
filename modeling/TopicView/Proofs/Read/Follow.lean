import TopicView.Proofs.Read.Ask

/-!
# How a worker of a live read follows its partition

A plan without an end leads a worker on until it is stopped, or its cursor crashes.
`Worker.Follows` holds whatever becomes of the partition; `Worker.Tails` accounts for every record
that has been appended to it, and a cursor crashes only once its offsets have run out.
-/

namespace TopicView

open Act

namespace Worker

variable {σ κ : Type} {client : Client σ κ} {job : Job} {s s' : σ} {sh sh' : Shared}
  {w w' : Worker κ} {act : Option Act}

/-- A step opens the cursor, pulls with it once, or at most drops it. -/
theorem Step.cursor_cases (h : w.Step client job s sh act s' sh' w') :
    (act.bind raw? = none ∧ (w'.phase = .opening → w.phase = .opening) ∧
      ∀ c, w'.phase.cursor? = some c → w.phase.cursor? = some c) ∨
    (∃ c, w.phase = .opening ∧ act.bind raw? = none ∧ w'.phase.cursor? = some c ∧
      client.openCursor s ⟨job.topic, w.partition⟩ w.plan.start (!w.plan.isBounded) =
        (.opened c, s')) ∨
    ∃ c c' answer, w.phase.cursor? = some c ∧ client.pull s c = (answer, c', s') ∧
      act.bind raw? = answer.raw? ∧ w'.phase ≠ .opening ∧
        ∀ d, w'.phase.cursor? = some d → answer ≠ .crashed ∧ d = c' := by
  rcases h.quiet_or_asks with hquiet | ⟨hphase, -, answer, hopen, rfl, rfl⟩ |
    ⟨c, answer, c', hphase, -, hpull, rfl, rfl⟩
  · exact Or.inl ⟨hquiet.raw_eq, hquiet.opening, hquiet.cursor⟩
  · cases answer with
    | waiting => exact Or.inl ⟨rfl, id, fun _ ↦ id⟩
    | opened c => exact Or.inr (Or.inl ⟨c, hphase, rfl, cursor_afterOpening c, hopen⟩)
    | failed f => exact Or.inl ⟨rfl, nofun, nofun⟩
    | crashed => exact Or.inl ⟨rfl, nofun, nofun⟩
  · refine Or.inr (Or.inr ⟨c, c', answer, by rw [hphase]; rfl, hpull, raw_onPull job w c' answer,
      onPull_ne_opening job w c' answer, fun d hd ↦ ⟨?_, cursor_onPull hd⟩⟩)
    rintro rfl
    cases hd

end Worker

/-! ## Following -/

namespace LogCursor

variable {log : Log} {target : TopicPartition} {p : PartitionLog} {c c' : LogCursor}
  {answer : Pull} {next : Log}

theorem Reads.answer_cases (hc : c.Reads target true) (hp : log.partition target = .ok p)
    (hanswer : Log.client.pull log c = (answer, c', next)) :
    c'.Reads target true ∧
      ((∃ raw ∈ p.records, answer = .record raw) ∨ answer = .crashed ∨ answer = .waiting) := by
  have hpull := (Log.pull_of_client hanswer).1
  rcases pull_eq hc hp with ⟨raw, d, heq, hd, hget, -⟩ | ⟨raw, heq, -⟩ | ⟨heq, -⟩
  · obtain ⟨rfl, rfl⟩ := Prod.mk.inj (hpull.symm.trans heq)
    obtain ⟨n, -, hn⟩ := Option.bind_eq_some_iff.mp hget
    exact ⟨hd, Or.inl ⟨raw, List.mem_of_getElem? hn, rfl⟩⟩
  · obtain ⟨rfl, rfl⟩ := Prod.mk.inj (hpull.symm.trans heq)
    exact ⟨hc.resume p.oldest, Or.inr (Or.inl rfl)⟩
  · obtain ⟨rfl, rfl⟩ := Prod.mk.inj (hpull.symm.trans heq)
    exact ⟨hc.resume p.oldest, Or.inr (Or.inr rfl)⟩

end LogCursor

namespace Worker

variable {job : Job} {log s' : Log} {sh sh' : Shared} {w w' : Worker LogCursor}
  {acts acts' : List Act} {act : Option Act} {p : PartitionLog}

/-- A worker without an end follows its own partition and is over only when it is stopped or has
crashed. -/
structure Follows (job : Job) (acts : List Act) (w : Worker LogCursor) : Prop where
  endless : w.plan.last = none
  reads : ∀ c, w.phase.cursor? = some c → c.Reads ⟨job.topic, w.partition⟩ true
  own : ∀ raw ∈ pulledIn acts, raw.partition = w.partition
  ongoing : ∀ parcel, w.phase.parcel? = some parcel → parcel.isLast = false
  unending : w.phase.outcome? = none ∨ w.IsStopped ∨ w.phase.outcome? = some .panicked

theorem follows_start (job : Job) (index : PartitionId) {plan : Plan} (h : plan.last = none) :
    (start index plan).Follows job [] :=
  ⟨h, fun _ hc ↦ (nomatch hc), fun _ hraw ↦ (nomatch hraw), fun _ hparcel ↦ (nomatch hparcel),
    Or.inl rfl⟩

section Step

variable (h : w.Follows job acts) (hfaults : log.faults = {})
  (hp : log.partition ⟨job.topic, w.partition⟩ = .ok p)
  (hstep : w.Step Log.client job log sh act s' sh' w')

include h in
theorem Follows.isPast_eq (offset : Offset) : isPast w.plan offset = false := by
  simp [isPast, h.endless]

include h in
theorem Follows.isEmpty_eq : w.plan.isEmpty = false := by
  simp [Plan.isEmpty, h.endless]

include h hfaults hp in
theorem Follows.openCursor_eq :
    Log.client.openCursor log ⟨job.topic, w.partition⟩ w.plan.start (!w.plan.isBounded) =
      (.opened ⟨⟨job.topic, w.partition⟩, w.plan.start, true, none, 0, false⟩, log) := by
  rw [Log.openCursor_eq hfaults hp, Plan.isBounded, h.endless]
  rfl

include h hfaults hp hstep in
theorem Follows.goesOn :
    (w'.phase.outcome? = none ∨ w'.IsStopped ∨ w'.phase.outcome? = some .panicked) ∧
    ∀ parcel, w'.phase.parcel? = some parcel → parcel.isLast = false := by
  have hopen := h.openCursor_eq hfaults hp
  have hanswer {c c' : LogCursor} {answer : Pull} {next : Log} (hphase : w.phase = .pulling c)
      (hpull : Log.client.pull log c = (answer, c', next)) :=
    ((h.reads c (by rw [hphase]; rfl)).answer_cases hp hpull).2
  cases hstep
  case idle => exact ⟨h.unending, h.ongoing⟩
  case openingFailed f phase live answer => cases hopen.symm.trans answer
  case openingCrashed phase live answer => cases hopen.symm.trans answer
  case opened c phase live answer =>
    rcases afterOpening_cases w c with ⟨-, heq⟩ | ⟨hempty, -⟩
    · simp [go, heq, Phase.outcome?, Phase.parcel?]
    · rw [h.isEmpty_eq] at hempty
      cases hempty
  case pulled c c' raw phase live answer =>
    rcases examine_cases job w c' raw with ⟨hpast, -⟩ | ⟨-, -, heq⟩ | ⟨-, -, heq⟩
    · rw [h.isPast_eq] at hpast
      cases hpast
    · simp [go, heq, Phase.outcome?, Phase.parcel?, h.endless]
    · simp [go, heq, afterRecord, Phase.outcome?, Phase.parcel?, h.endless]
  case ended c c' phase live answer =>
    rcases hanswer phase answer with ⟨raw, -, hraw⟩ | hcrashed | hwaiting
    · cases hraw
    · cases hcrashed
    · cases hwaiting
  case pullingFailed c c' f phase live answer =>
    rcases hanswer phase answer with ⟨raw, -, hraw⟩ | hcrashed | hwaiting
    · cases hraw
    · cases hcrashed
    · cases hwaiting
  case pullingCrashed c c' phase live answer => simp [go, Phase.outcome?, Phase.parcel?]
  case sent c parcel b phase =>
    have hlast := h.ongoing parcel (by rw [phase]; rfl)
    rcases afterSending_cases c parcel b with ⟨-, heq⟩ | ⟨-, -, heq⟩ | ⟨-, hlast', -⟩
    · simp [heq, IsStopped, Phase.outcome?, Phase.parcel?]
    · simp [heq, Phase.outcome?, Phase.parcel?]
    · rw [hlast] at hlast'
      cases hlast'
  case granted c parcel b counter phase answer =>
    have hongoing := h.ongoing
    cases b <;> simp_all [go, IsStopped, Phase.outcome?, Phase.parcel?]
  all_goals
    have hongoing := h.ongoing
    have hunending := h.unending
    simp_all [go, IsStopped, Phase.outcome?, Phase.parcel?]

include h hfaults hp hstep in
theorem Follows.step (hown : ∀ raw ∈ p.records, raw.partition = w.partition) :
    w'.Follows job (acts ++ act.toList) := by
  obtain ⟨hunending, hongoing⟩ := h.goesOn hfaults hp hstep
  refine ⟨hstep.plan_eq ▸ h.endless, fun d hd ↦ ?_, fun raw hraw ↦ ?_, hongoing, hunending⟩
  · rw [hstep.partition_eq]
    rcases hstep.cursor_cases with ⟨-, -, hkept⟩ | ⟨c, -, -, hc, hopened⟩ |
      ⟨c, c', answer, hc, hpull, -, -, hkept⟩
    · exact h.reads d (hkept d hd)
    · obtain rfl : c = d := Option.some.inj (hc.symm.trans hd)
      rw [h.openCursor_eq hfaults hp] at hopened
      obtain rfl := Opening.opened.inj (Prod.mk.inj hopened).1
      exact ⟨rfl, rfl, rfl, rfl⟩
    · rw [(hkept d hd).2]
      exact ((h.reads c hc).answer_cases hp hpull).1
  · rw [hstep.partition_eq]
    rw [pulledIn_step] at hraw
    rcases List.mem_append.mp hraw with hold | hnew
    · exact h.own raw hold
    · rcases hstep.cursor_cases with ⟨hnone, -⟩ | ⟨c, -, hnone, -⟩ |
        ⟨c, c', answer, hc, hpull, hact, -⟩
      · simp [hnone] at hnew
      · simp [hnone] at hnew
      · rw [hact] at hnew
        rcases ((h.reads c hc).answer_cases hp hpull).2 with ⟨a, ha, rfl⟩ | rfl | rfl
        · obtain rfl : raw = a := List.mem_singleton.mp hnew
          exact hown raw ha
        · cases hnew
        · cases hnew

include h hfaults hp hstep in
/-- A worker crashes only where its offsets have run out. -/
theorem Follows.not_fits_of_panicked (hsound : p.Sound w.partition)
    (hw : w.phase.outcome? = some .panicked → ¬ p.Fits)
    (hw' : w'.phase.outcome? = some .panicked) : ¬ p.Fits := by
  rcases hstep.quiet_or_asks with hquiet | ⟨-, -, answer, hopen, -, rfl⟩ |
    ⟨c, answer, c', hphase, -, hpull, -, rfl⟩
  · exact hw (hquiet.panicked hw')
  · rw [h.openCursor_eq hfaults hp] at hopen
    obtain rfl := (Prod.mk.inj hopen).1
    simp only [onOpening, go, outcome_afterOpening, h.isEmpty_eq] at hw'
    cases hw'
  · have hcursor := (Log.pull_of_client hpull).1
    have hreads := h.reads c (by rw [hphase]; rfl)
    rcases LogCursor.pull_of_sound hsound hreads hp with ⟨raw, d, heq, -⟩ | ⟨d, -, hfull⟩ |
      ⟨d, heq, -⟩
    · obtain ⟨rfl, rfl⟩ := Prod.mk.inj (hcursor.symm.trans heq)
      rcases outcome_examine job w c' raw with hnone | hdone <;> simp_all [onPull, go]
    · exact hfull
    · obtain ⟨rfl, rfl⟩ := Prod.mk.inj (hcursor.symm.trans heq)
      cases hw'

end Step

/-! ## Accounting for every record -/

/-- The cursor is about to pass over a record that is gone. -/
def Misses (w : Worker LogCursor) (p : PartitionLog) (raw : RawRecord) : Prop :=
  ∃ c, w.phase.cursor? = some c ∧ c.position ≤ raw.offset ∧ raw.offset < p.oldest

/-- What a worker has pulled of the records appended so far, in ascending order. -/
structure Tails (first : Offset) (appended : List RawRecord) (missed : RawRecord → Prop)
    (p : PartitionLog) (acts : List Act) (w : Worker LogCursor) : Prop where
  fresh : w.phase = .opening → pulledIn acts = []
  followed : ∀ c, w.phase.cursor? = some c →
    p.Followed first appended (pulledIn acts) missed c.position
  within : ∀ raw ∈ pulledIn acts, raw ∈ appended
  ascending : (pulledIn acts).Pairwise fun a b ↦ a.offset < b.offset
  full : w.phase.outcome? = some .panicked → ¬ p.Fits

variable {first : Offset} {appended : List RawRecord} {missed missed' : RawRecord → Prop}
  {added : Option RawRecord} {q : PartitionLog}

theorem tails_start (first : Offset) (appended : List RawRecord) (missed : RawRecord → Prop)
    (p : PartitionLog) (index : PartitionId) (plan : Plan) :
    (start index plan).Tails first appended missed p [] :=
  ⟨fun _ ↦ rfl, fun _ hc ↦ (nomatch hc), fun _ hraw ↦ (nomatch hraw), .nil, nofun⟩

theorem Tails.mono (h : w.Tails first appended missed p acts)
    (himp : ∀ raw, missed raw → missed' raw) : w.Tails first appended missed' p acts :=
  ⟨h.fresh, fun c hc ↦ (h.followed c hc).mono himp, h.within, h.ascending, h.full⟩

theorem Tails.effect (h : w.Tails first appended missed p acts)
    (htracks : p.Tracks w.partition first appended)
    (heffect : Log.Change.Effect w.partition p added q) :
    w.Tails first (appended ++ added.toList) missed q acts := by
  refine ⟨h.fresh, fun c hc ↦ (h.followed c hc).effect htracks heffect,
    fun raw hraw ↦ List.mem_append_left _ (h.within raw hraw), h.ascending, fun hpanicked ↦ ?_⟩
  -- A partition that is full is not changed any more.
  have hfits := (PartitionLog.effect_cases heffect htracks.sound.oldest_nonneg).1
  exact (h.full hpanicked hfits).elim

/-- A step that pulls nothing accounts for what the one before it did. -/
theorem Tails.keep (h : w.Tails first appended missed p acts)
    (hpulled : pulledIn acts' = pulledIn acts) (hopening : w'.phase = .opening → w.phase = .opening)
    (hfull : w'.phase.outcome? = some .panicked → ¬ p.Fits)
    (hfollowed : ∀ c, w'.phase.cursor? = some c →
      p.Followed first appended (pulledIn acts) missed' c.position) :
    w'.Tails first appended missed' p acts' := by
  refine ⟨fun ho ↦ ?_, fun c hc ↦ ?_, ?_, ?_, hfull⟩
  · rw [hpulled]
    exact h.fresh (hopening ho)
  · rw [hpulled]
    exact hfollowed c hc
  · rw [hpulled]
    exact h.within
  · rw [hpulled]
    exact h.ascending

/-- The next record that is pulled lies behind all that were pulled before. -/
theorem Tails.pull (h : w.Tails first appended missed p acts)
    (htracks : p.Tracks w.partition first appended) {c : LogCursor}
    (hc : w.phase.cursor? = some c) {raw : RawRecord} (hmem : raw ∈ p.records)
    (hle : c.position ≤ raw.offset) (hpulled : pulledIn acts' = pulledIn acts ++ [raw])
    (hopening : w'.phase ≠ .opening)
    (hfull : w'.phase.outcome? = some .panicked → ¬ p.Fits)
    (hfollowed : ∀ d, w'.phase.cursor? = some d →
      p.Followed first appended (pulledIn acts ++ [raw]) missed' d.position) :
    w'.Tails first appended missed' p acts' := by
  have hbefore := h.followed c hc
  refine ⟨fun ho ↦ (hopening ho).elim, fun d hd ↦ ?_, fun a ha ↦ ?_, ?_, hfull⟩
  · rw [hpulled]
    exact hfollowed d hd
  · rw [hpulled] at ha
    rcases List.mem_append.mp ha with ha | ha
    · exact h.within a ha
    · rw [List.mem_singleton.mp ha]
      exact htracks.appended_of_mem raw hmem (Std.le_trans hbefore.first_le hle)
  · rw [hpulled, List.pairwise_append]
    refine ⟨h.ascending, List.pairwise_singleton _ raw, fun a ha b hb ↦ ?_⟩
    rw [List.mem_singleton.mp hb]
    exact Std.lt_of_lt_of_le (hbefore.lt_position a ha) hle

theorem Tails.step (h : w.Tails first appended missed p acts) (hfollows : w.Follows job acts)
    (hfaults : log.faults = {}) (hp : log.partition ⟨job.topic, w.partition⟩ = .ok p)
    (htracks : p.Tracks w.partition first appended) (hstart : w.plan.start = first)
    (hstep : w.Step Log.client job log sh act s' sh' w') :
    w'.Tails first appended (fun raw ↦ missed raw ∨ w.Misses p raw) p (acts ++ act.toList) := by
  have hfull := hfollows.not_fits_of_panicked hfaults hp hstep htracks.sound h.full
  -- Only what the step does to the cursor matters.
  rcases hstep.cursor_cases with ⟨hnone, hopening, hkept⟩ | ⟨c, hopening, hnone, hc, hopened⟩ |
    ⟨c, c', answer, hc, hpull, hact, hopening, hkept⟩
  · have hpulled : pulledIn (acts ++ act.toList) = pulledIn acts := by
      rw [pulledIn_step, hnone]
      exact List.append_nil _
    exact h.keep hpulled hopening hfull fun d hd ↦ (h.followed d (hkept d hd)).mono fun _ ↦ Or.inl
  · have hpulled : pulledIn (acts ++ act.toList) = pulledIn acts := by
      rw [pulledIn_step, hnone]
      exact List.append_nil _
    rw [hfollows.openCursor_eq hfaults hp] at hopened
    obtain rfl := Opening.opened.inj (Prod.mk.inj hopened).1
    refine h.keep hpulled (fun _ ↦ hopening) hfull fun d hd ↦ ?_
    obtain rfl := Option.some.inj (hc.symm.trans hd)
    rw [h.fresh hopening, hstart]
    exact PartitionLog.followed_start htracks
  · have hbefore := h.followed c hc
    have hmisses {raw : RawRecord} (hmissed : missed raw ∨
        c.position ≤ raw.offset ∧ raw.offset < p.oldest) : missed raw ∨ w.Misses p raw :=
      hmissed.imp_right fun ⟨hle, hlt⟩ ↦ ⟨c, hc, hle, hlt⟩
    have hcursor := (Log.pull_of_client hpull).1
    rcases LogCursor.pull_of_sound htracks.sound (hfollows.reads c hc) hp with
      ⟨raw, d, heq, -, hmem, hle, hgap, hposition⟩ | ⟨d, heq, -⟩ | ⟨d, heq, -, -, hle, hgap⟩
    · obtain ⟨rfl, rfl⟩ := Prod.mk.inj (hcursor.symm.trans heq)
      have hpulled : pulledIn (acts ++ act.toList) = pulledIn acts ++ [raw] := by
        rw [pulledIn_step, hact]
        rfl
      refine h.pull htracks hc hmem hle hpulled hopening hfull fun d hd ↦ ?_
      rw [(hkept d hd).2]
      exact (hbefore.pull htracks hmem hle hgap hposition).mono fun _ ↦ hmisses
    · -- A crash takes the cursor with it.
      obtain ⟨rfl, rfl⟩ := Prod.mk.inj (hcursor.symm.trans heq)
      have hpulled : pulledIn (acts ++ act.toList) = pulledIn acts := by
        rw [pulledIn_step, hact]
        exact List.append_nil _
      refine h.keep hpulled (fun ho ↦ (hopening ho).elim) hfull fun d hd ↦ ?_
      exact ((hkept d hd).1 rfl).elim
    · obtain ⟨rfl, rfl⟩ := Prod.mk.inj (hcursor.symm.trans heq)
      have hpulled : pulledIn (acts ++ act.toList) = pulledIn acts := by
        rw [pulledIn_step, hact]
        exact List.append_nil _
      refine h.keep hpulled (fun ho ↦ (hopening ho).elim) hfull fun d hd ↦ ?_
      rw [(hkept d hd).2]
      exact (hbefore.wait htracks hle hgap).mono fun _ ↦ hmisses

end Worker
end TopicView
