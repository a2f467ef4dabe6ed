import TopicView.Proofs.Log.Content
import TopicView.Proofs.Read.Ask
import TopicView.Proofs.Read.Plan
import TopicView.Proofs.Read.Report

/-!
# Reads that never overflow

Pulls and counts are checked where that has not been done already.  On a log that is in range the
checks make no difference: a plan is made of the range of a partition, a cursor passes an offset for
each record that it yields, and a worker sends no more records than its cursor has yielded.
-/

namespace TopicView

open Act

namespace Counter

/-- A count without a limit is an atomic addition, which wraps around by definition. -/
def checkedClaim (c : Counter) : Option (Claim × Counter) :=
  match c.limit with
  | none => some c.claim
  | some limit =>
    if c.emitted < limit then do
      let next ← checkedCount (c.emitted.toNat + 1)
      return (.granted (limit.toNat ≤ next), { c with emitted := UInt64.ofNat next })
    else some (.refused, c)

theorem checkedClaim_eq (c : Counter) : c.checkedClaim = some c.claim := by
  unfold checkedClaim claim
  cases c.limit with
  | none => rfl
  | some limit =>
      dsimp only
      split
      · next hlt =>
          have hsucc := toNat_emitted_add_one hlt
          have hbound := (c.emitted + 1).toNat_lt
          have hnext : UInt64.ofNat (c.emitted.toNat + 1) = c.emitted + 1 := by
            rw [← hsucc, UInt64.ofNat_toNat]
          have hreached : (limit ≤ c.emitted + 1) ↔ limit.toNat ≤ c.emitted.toNat + 1 := by
            rw [UInt64.le_iff_toNat_le, hsucc]
          rw [checkedCount_eq (by omega)]
          simp [hnext, hreached]
      · rfl

end Counter

/-! ## Cursors of a read -/

namespace LogCursor

variable {log : Log} {c : LogCursor}

theorem counts_of_openCursor {target : TopicPartition} {start : Offset} {follow : Bool}
    (h : log.openCursor target start follow = .ok c) : c.Counts := by
  rw [Log.openCursor_ok h]
  unfold Counts
  exact Int.le_max_left 0 _

theorem delivered_pull (c : LogCursor) (log : Log) :
    (c.pull log).2.delivered = c.delivered + (c.pull log).1.raw?.toList.length := by
  have hresume (oldest : Offset) : (c.resume oldest).delivered = c.delivered := by
    rw [(c.resume_cases oldest).1]
  rcases hpull : c.pull log with ⟨answer, d⟩
  cases pulls_of_pull hpull with
  | closed => rfl
  | due => rfl
  | lost => rfl
  | record found retained next target_eq delivered_eq => exact delivered_eq
  | crashed found => exact hresume _
  | ended found => exact hresume _
  | waiting isOpen sturdy following found resumed none =>
      rw [resumed]
      exact hresume _

theorem Counts.afterPulls (hc : c.Counts) (h : log.InRange) (n : Nat) :
    (c.afterPulls log n).Counts := by
  induction n with
  | zero => exact hc
  | succ n ih => exact ih.pull h

end LogCursor

theorem Job.length_shows_le (job : Job) (plan : Plan) (raws : List RawRecord) :
    (job.shows plan raws).length ≤ raws.length := by
  have hpast := List.length_filter_le (fun raw ↦ !Worker.isPast plan raw.offset) raws
  refine Nat.le_trans (List.length_filter_le _ _) ?_
  rwa [List.length_map]

namespace Worker

variable {job : Job} {log s' : Log} {sh sh' : Shared} {w w' : Worker LogCursor}
  {acts : List Act} {act : Option Act}

/-- The turn of a worker, with the arithmetic of its cursor and of the two counts checked. -/
def checkedTurn (job : Job) (log : Log) (sh : Shared) (w : Worker LogCursor) :
    Option (Turn Log LogCursor) := do
  match w.phase with
  | .pulling c => if !sh.cancelled then let _ ← c.checkedPull log
  | .claiming _ _ => let _ ← sh.counter.checkedClaim
  | .sending _ _ _ => let _ ← checkedCount (w.emitted.toNat + 1)
  | _ => pure ()
  return w.turn Log.client job log sh

/-- What the worker has pulled has all come from the cursor that it holds. -/
structure Metered (acts : List Act) (w : Worker LogCursor) : Prop where
  fresh : w.phase = .opening → pulledIn acts = []
  counts : ∀ c, w.phase.cursor? = some c → c.Counts
  pulled_le : ∀ c, w.phase.cursor? = some c → (pulledIn acts).length ≤ c.delivered

theorem metered_start (index : PartitionId) (plan : Plan) : (start index plan).Metered [] :=
  ⟨fun _ ↦ rfl, nofun, nofun⟩

theorem Metered.step (h : w.Metered acts) (hlog : log.InRange)
    (hstep : w.Step Log.client job log sh act s' sh' w') : w'.Metered (acts ++ act.toList) := by
  rcases hstep.quiet_or_asks with hquiet | ⟨hphase, -, answer, hopen, rfl, rfl⟩ |
    ⟨c, answer, c', hphase, -, hpull, rfl, rfl⟩
  · -- The cursor and what it has yielded stay as they are.
    have hsame : pulledIn (acts ++ act.toList) = pulledIn acts := by
      rw [pulledIn_step, hquiet.raw_eq]
      exact List.append_nil _
    constructor
    · intro hopening
      rw [hsame]
      exact h.fresh (hquiet.opening hopening)
    · intro d hd
      exact h.counts d (hquiet.cursor d hd)
    · intro d hd
      rw [hsame]
      exact h.pulled_le d (hquiet.cursor d hd)
  · -- A cursor that has just been opened has yielded nothing.
    have hnone : pulledIn (acts ++ (w.onOpening answer).1.toList) = [] := by
      rw [pulledIn_step, raw_onOpening, h.fresh hphase]
      rfl
    constructor
    · intro _
      exact hnone
    · intro d hd
      rw [cursor_onOpening hphase hd] at hopen
      exact LogCursor.counts_of_openCursor (Log.openCursor_of_client hopen)
    · intro d hd
      rw [hnone]
      exact Nat.zero_le _
  · have hcursor : w.phase.cursor? = some c := by
      rw [hphase]
      rfl
    have hpull' := (Log.pull_of_client hpull).1
    have hcounts := (h.counts c hcursor).pull hlog
    have hdelivered := LogCursor.delivered_pull c log
    rw [hpull'] at hcounts hdelivered
    constructor
    · intro hopening
      exact (onPull_ne_opening job w c' answer hopening).elim
    · intro d hd
      rw [cursor_onPull hd]
      exact hcounts
    · intro d hd
      have hle := h.pulled_le c hcursor
      rw [cursor_onPull hd, pulledIn_step, raw_onPull, List.length_append]
      dsimp only at hdelivered
      omega

/-- A worker that is about to send has not sent more than can be counted. -/
theorem emitted_lt (h : w.Metered acts) (hrelays : w.Relays job acts) (htallies : w.Tallies acts)
    {c : LogCursor} {parcel : Parcel} {b : Bool} (hphase : w.phase = .sending c parcel b) :
    w.emitted.toNat + 1 < 2 ^ 64 := by
  have hcursor : w.phase.cursor? = some c := by
    rw [hphase]
    rfl
  have hhand : w.inHand.length = 1 := by simp [inHand, hphase, Phase.parcel?]
  have hsent := hrelays.within.length_le
  rw [List.length_append, hhand] at hsent
  have hshown := job.length_shows_le w.plan (pulledIn acts)
  have hpulled := h.pulled_le c hcursor
  have hcounts := h.counts c hcursor
  have hbound := c.position.toInt_lt
  unfold LogCursor.Counts at hcounts
  rw [htallies.emitted_eq, UInt64.toNat_ofNat', Nat.mod_eq_of_lt] <;> omega

theorem checkedTurn_eq (hlog : log.InRange) (h : w.Metered acts) (hrelays : w.Relays job acts)
    (htallies : w.Tallies acts) (sh : Shared) :
    w.checkedTurn job log sh = some (w.turn Log.client job log sh) := by
  unfold checkedTurn
  cases hphase : w.phase with
  | pulling c =>
      have hpull := LogCursor.checkedPull_eq hlog (h.counts c (by rw [hphase]; rfl))
      cases hc : sh.cancelled <;> simp [hpull]
  | claiming c parcel => simp [sh.counter.checkedClaim_eq]
  | sending c parcel b => simp [checkedCount_eq (emitted_lt h hrelays htallies hphase)]
  | _ => rfl

end Worker

/-! ## Courses -/

namespace Stage

variable {δ : Type} {alter : δ → Log → Log} {x y : Stage Log LogCursor} {job : Job}

structure Measured (job : Job) (x : Stage Log LogCursor) : Prop where
  inRange : x.state.InRange
  job_eq : x.read.job = job
  metered : x.Each Worker.Metered
  relays : x.Each (Worker.Relays job)
  tallies : x.Each Worker.Tallies

theorem Measured.next (h : x.Measured job) {m : Move δ} (hm : x.Next Log.client alter m y)
    (halter : ∀ change, m = .alter change → (alter change x.state).InRange) : y.Measured job := by
  obtain ⟨hinRange, rfl, hmetered, hrelays, htallies⟩ := h
  cases hm
  case unchanged => exact ⟨hinRange, rfl, hmetered, hrelays, htallies⟩
  case worked hw hstep =>
    obtain rfl := hstep.log_eq
    exact ⟨hinRange, rfl, hmetered.after hw fun hold ↦ hold.step hinRange hstep,
      hrelays.after hw fun hold ↦ hold.step hstep, htallies.after hw fun hold ↦ hold.step hstep⟩
  case altered change =>
    exact ⟨halter change rfl, rfl, hmetered.note rfl fun _ ↦ rfl, hrelays.note rfl fun _ ↦ rfl,
      htallies.note rfl fun _ ↦ rfl⟩
  all_goals
    exact ⟨hinRange, rfl, hmetered.note rfl fun _ ↦ rfl, hrelays.note rfl fun _ ↦ rfl,
      htallies.note rfl fun _ ↦ rfl⟩

theorem measured_play {log : Log} {settings : ReaderSettings} {decoder : Decoder}
    {request : Request} {cancelled : Bool} {r : Read LogCursor} (hlog : log.InRange)
    (h : startRead Log.client log settings decoder request cancelled = .ok (.running r))
    (alter : δ → Log → Log) (moves : List (Move δ))
    (halter : ∀ change, .alter change ∈ moves → ∀ log : Log, log.InRange →
      (alter change log).InRange) :
    ((start log r).play Log.client alter moves).Measured r.job := by
  obtain ⟨ranges, hlaunched⟩ := exists_launched h
  refine play_keeps Log.client alter (start log r) ?_ moves ?_
  · exact ⟨hlog, rfl, each_start hlaunched Worker.metered_start,
      each_start hlaunched (Worker.relays_start _), each_start hlaunched Worker.tallies_start⟩
  · intro y m hm hy
    refine hy.next (next_step alter m) ?_
    rintro change rfl
    exact halter change hm y.state hy.inRange

/-- The next turn of every worker is in range. -/
def InRange (x : Stage Log LogCursor) : Prop :=
  ∀ w ∈ x.read.workers, w.checkedTurn x.read.job x.state x.read.shared =
    some (w.turn Log.client x.read.job x.state x.read.shared)

theorem Measured.stageInRange (h : x.Measured job) : x.InRange := by
  intro w hmem
  obtain ⟨i, hw⟩ := List.getElem?_of_mem hmem
  rw [h.job_eq]
  exact Worker.checkedTurn_eq h.inRange (h.metered i w hw) (h.relays i w hw) (h.tallies i w hw) _

end Stage

namespace Log

/-- Nothing that is looked up, planned, pulled or read on a log overflows. -/
structure NeverOverflows (log : Log) : Prop where
  lookups : ∀ t, log.offsets t ≠ .crash
  ranges : ∀ t o, log.offsets t = .ok o →
    o.newest? = some o.newest ∧ o.recordCount? = some o.recordCount
  plans : ∀ t o mode limit count, log.offsets t = .ok o →
    plan? mode limit count o = some (plan mode limit count o)
  pulls : ∀ t start follow c n, log.openCursor t start follow = .ok c →
    (c.afterPulls log n).checkedPull log = some ((c.afterPulls log n).pull log) ∧
      ((c.afterPulls log n).pull log).1 ≠ .crashed
  turns : ∀ settings decoder request cancelled r,
    startRead client log settings decoder request cancelled = .ok (.running r) →
      ∀ (alter : Empty → Log → Log) moves, ((Stage.start log r).play client alter moves).InRange

theorem InRange.range_of_offsets {log : Log} (h : log.InRange) {t : TopicPartition} {o : Offsets}
    (ho : log.offsets t = .ok o) : 0 ≤ o.oldest.toInt ∧ o.oldest ≤ o.firstAvailable := by
  obtain ⟨-, p, hp, holdest, hnext⟩ := offsets_eq_ok_iff.mp ho
  have hsound := h.sound t p hp
  rw [PartitionLog.firstAvailable?_eq hsound.oldest_nonneg (h.fits t p hp)] at hnext
  rw [holdest, ← Option.some.inj hnext]
  exact ⟨hsound.oldest_nonneg, PartitionLog.oldest_le_firstAvailable hsound (h.fits t p hp)⟩

theorem InRange.neverOverflows {log : Log} (h : log.InRange) : log.NeverOverflows := by
  constructor
  · exact h.offsets_ne_crash
  · intro t o ho
    obtain ⟨holdest, hle⟩ := h.range_of_offsets ho
    have hle' := Int64.le_iff_toInt_le.mp hle
    exact ⟨Offsets.newest?_eq (by omega), Offsets.recordCount?_eq holdest hle⟩
  · intro t o mode limit count ho
    obtain ⟨holdest, hle⟩ := h.range_of_offsets ho
    exact plan?_eq (by omega) hle mode limit count
  · intro t start follow c n hc
    have hpull := LogCursor.checkedPull_eq h ((LogCursor.counts_of_openCursor hc).afterPulls h n)
    exact ⟨hpull, LogCursor.ne_crashed_of_checkedPull hpull⟩
  · intro settings decoder request cancelled r hr alter moves
    exact (Stage.measured_play h hr alter moves nofun).stageInRange

end Log

namespace Snapshot

/-- As long as every partition has an offset after its last record, a snapshot is loaded without an
overflow, and none comes later on the loaded log.  One that could be loaded otherwise, but in which
a partition has none, makes the program crash. -/
theorem loading_never_overflows (now : Timestamp) (s : Snapshot) :
    (s.Fits → s.load now ≠ .crash) ∧ (s.Loadable → ¬ s.Fits → s.load now = .crash) ∧
      ∀ log, s.load now = .ok log → s.Fits ∧ log.NeverOverflows := by
  refine ⟨load_ne_crash now, fun hloadable hfull ↦ ?_, fun log hload ↦ ?_⟩
  · rcases load_cases now hloadable with ⟨log, hload, -⟩ | ⟨hcrash, -⟩
    · exact (hfull (load_ok hload).2).elim
    · exact hcrash
  · obtain ⟨hinRange, hfits⟩ := load_ok hload
    exact ⟨hfits, hinRange.neverOverflows⟩

/-- The last offset but one is taken, and the last one is left for the next record. -/
def sampleSnapshot : Snapshot :=
  ⟨[⟨"t", [⟨9223372036854775806, [{ value := some "a", timestamp := some 0 }]⟩, {}]⟩]⟩

theorem loading_never_overflows_in_sample :
    let p : PartitionLog :=
      ⟨9223372036854775806, [⟨none, some [97], 0, 9223372036854775806, some 0, []⟩], Int64.maxValue⟩
    let log : Log := ⟨[("t", [p, .empty])], {}⟩
    sampleSnapshot.load 0 = .ok log ∧ log.NeverOverflows := by
  intro p log
  have hload : sampleSnapshot.load 0 = .ok log := rfl
  obtain ⟨-, -, hloaded⟩ := loading_never_overflows 0 sampleSnapshot
  exact ⟨hload, (hloaded log hload).2⟩

/-- The last offset is taken. -/
def fullSnapshot : Snapshot := ⟨[⟨"t", [⟨Int64.maxValue, [{ timestamp := some 0 }]⟩]⟩]⟩

/-- The record can be put down, but the end behind it is not an offset. -/
theorem loading_overflows_at_last_offset :
    fullSnapshot.Loadable ∧ ¬ fullSnapshot.Fits ∧ fullSnapshot.load 0 = .crash :=
  ⟨by decide, by decide, rfl⟩

end Snapshot
end TopicView
