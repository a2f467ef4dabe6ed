import TopicView.Proofs.Log.Reachable
import TopicView.Proofs.Log.Segment

/-!
# Pulling again and again

A cursor on a partition that does not change yields the records from its position on, one by one,
and then nothing more, or waits for more.  Told to fail after some of them, it fails once and is at
its end.  All this holds exactly as long as the offsets of the partition have not run out.
-/

namespace TopicView

theorem Offset.toInt_max (a b : Int64) : (max a b).toInt = max a.toInt b.toInt := by
  have hmax : max a b = if a ≤ b then b else a := rfl
  rw [hmax]
  split
  · next hle => rw [Int.max_eq_right (Int64.le_iff_toInt_le.mp hle)]
  · next hgt =>
      have hle := Int64.le_iff_toInt_le.mp (Std.le_of_lt (Std.not_le.mp hgt))
      rw [Int.max_eq_left hle]

theorem Log.openCursor_of_partition {log : Log} {target : TopicPartition} {p : PartitionLog}
    (hopenings : target ∉ log.faults.openings) (hp : log.partition target = .ok p) (start : Offset)
    (follow : Bool) : log.openCursor target start follow =
      .ok ⟨target, start, follow, log.faults.streams.lookup target, 0, false⟩ := by
  simp [openCursor, hopenings, hp, bind, Except.bind, pure, Except.pure]

namespace LogCursor

variable {log : Log} {target : TopicPartition} {follow : Bool} {p : PartitionLog}
  {index : PartitionId} {c d : LogCursor} {i : Nat}

/-- The answer where there is no record left. -/
def idle (c : LogCursor) : Pull := if c.follow then .waiting else .ended

theorem follow_of_idle (h : c.idle = .waiting) : c.follow = true := by
  by_contra hnot
  rw [idle, if_neg hnot] at h
  cases h

theorem idle_ne_failed {f : Failure} : c.idle ≠ .failed f := by
  unfold idle
  split <;> nofun

theorem pull_of_closed (h : c.closed = true) (log : Log) : c.pull log = (.ended, c) := by
  simp [pull, h]

theorem toInt_resume (c : LogCursor) (oldest : Offset) :
    (c.resume oldest).position.toInt = max c.position.toInt oldest.toInt := by
  unfold resume
  split
  · next hlt =>
      rw [Int64.lt_iff_toInt_lt] at hlt
      dsimp only
      omega
  · next hge =>
      rw [Int64.lt_iff_toInt_lt] at hge
      omega

/-- A pull that is not to fail yields the first retained record from the position on, or takes the
position to the end of the partition. -/
theorem pull_of_open (h : p.Sound index) (hfits : p.Fits) (hp : log.partition c.target = .ok p)
    (hopen : c.closed = false) (hdue : c.failAfter ≠ some c.delivered) :
    (∃ raw ∈ p.records, c.pull log = (.record raw,
        { c with position := raw.offset + 1, delivered := c.delivered + 1 }) ∧
      c.position ≤ raw.offset ∧ p.recordsFrom c.position = raw :: p.recordsFrom (raw.offset + 1)) ∨
    ∃ position, c.pull log = (c.idle, { c with position }) ∧ p.recordsFrom c.position = [] ∧
      p.firstAvailable ≤ position ∧ position.toInt = max c.position.toInt p.oldest.toInt := by
  obtain ⟨hresume, hposition, holdest, hgone⟩ := c.resume_cases p.oldest
  have hmax := c.toInt_resume p.oldest
  generalize (c.resume p.oldest).position = position at hresume hposition holdest hgone hmax
  have hfrom := PartitionLog.recordsFrom_congr h hposition hgone
  cases hget : p.get? position with
  | some raw =>
      obtain ⟨hmem, rfl⟩ := (PartitionLog.get?_eq_some_iff h holdest).mp hget
      have hlast := (PartitionLog.mem_range h hfits hmem).2
      have hnext := Offset.checkedAdd_one hlast
      refine Or.inl ⟨raw, hmem, ?_, hposition, ?_⟩
      · simp [pull, hopen, hdue, hp, hresume, hget, hnext]
      · rw [hfrom, PartitionLog.recordsFrom_of_mem h hmem (Offset.toInt_add_one hlast)]
  | none =>
      have hend : p.firstAvailable ≤ position := by
        rw [Int64.le_iff_toInt_le, PartitionLog.firstAvailable_of_fits h hfits]
        exact (PartitionLog.get?_eq_none_iff holdest).mp hget
      refine Or.inr ⟨position, ?_, ?_, hend, hmax⟩
      · simp [pull, hopen, hdue, hp, hresume, hget, idle]
      · rw [hfrom, PartitionLog.recordsFrom_eq_nil h hfits hend]

/-! ## Pulls in a row -/

/-- The answer to a pull that comes after some others. -/
def answer (log : Log) (c : LogCursor) (i : Nat) : Pull := ((c.afterPulls log i).pull log).1

/-- Some pulls have been made from `c`, and have not failed. -/
structure Underway (p : PartitionLog) (c : LogCursor) (i : Nat) (d : LogCursor) : Prop where
  target_eq : d.target = c.target
  follow_eq : d.follow = c.follow
  failAfter_eq : d.failAfter = c.failAfter
  isOpen : d.closed = false
  records_eq : p.recordsFrom d.position = (p.recordsFrom c.position).drop i
  delivered_eq : d.delivered = min i (p.recordsFrom c.position).length
  position_eq : max d.position.toInt p.firstAvailable.toInt =
    max c.position.toInt p.firstAvailable.toInt

theorem underway_start (hopen : c.closed = false) (hfresh : c.delivered = 0) :
    Underway p c 0 c :=
  ⟨rfl, rfl, rfl, hopen, rfl, by rw [hfresh, Nat.zero_min], rfl⟩

/-- The next pull yields the next record, or finds none left and takes the position to the end. -/
theorem Underway.pull (hd : Underway p c i d) (h : p.Sound index) (hfits : p.Fits)
    (hp : log.partition c.target = .ok p)
    (hdue : c.failAfter ≠ some (min i (p.recordsFrom c.position).length)) :
    Underway p c (i + 1) (d.pull log).2 ∧
      (d.pull log).1 = ((p.recordsFrom c.position)[i]?.map Pull.record).getD c.idle ∧
      ((p.recordsFrom c.position).length ≤ i →
        p.firstAvailable ≤ (d.pull log).2.position) := by
  obtain ⟨htarget, hfollow, hfail, hopen, hrecords, hdelivered, hposition⟩ := hd
  have hlog : log.partition d.target = .ok p := htarget ▸ hp
  have hready : d.failAfter ≠ some d.delivered := by rwa [hfail, hdelivered]
  rcases pull_of_open h hfits hlog hopen hready with
    ⟨raw, hmem, hpull, hle, hfrom⟩ | ⟨position, hpull, hnone, hend, hmax⟩
  · have hlength : i < (p.recordsFrom c.position).length := by
      by_contra hge
      rw [hrecords, List.drop_eq_nil_of_le (by omega)] at hfrom
      cases hfrom
    rw [hrecords, List.drop_eq_getElem_cons hlength] at hfrom
    obtain ⟨hraw, hrest⟩ := List.cons.inj hfrom
    have hlast := (PartitionLog.mem_range h hfits hmem).2
    have hnext := Offset.toInt_add_one hlast
    rw [Int64.lt_iff_toInt_lt] at hlast
    rw [Int64.le_iff_toInt_le] at hle
    rw [hpull]
    refine ⟨⟨htarget, hfollow, hfail, hopen, hrest.symm, ?_, ?_⟩, ?_, fun hge ↦ ?_⟩
    · dsimp only
      omega
    · dsimp only
      rw [hnext]
      omega
    · rw [List.getElem?_eq_getElem hlength, hraw]
      rfl
    · omega
  · rw [hrecords] at hnone
    have hlength := List.drop_eq_nil_iff.mp hnone
    have hidle : d.idle = c.idle := by rw [idle, idle, hfollow]
    have holdest := Int64.le_iff_toInt_le.mp (PartitionLog.oldest_le_firstAvailable h hfits)
    rw [hpull]
    refine ⟨⟨htarget, hfollow, hfail, hopen, ?_, ?_, ?_⟩, ?_, fun _ ↦ hend⟩
    · rw [PartitionLog.recordsFrom_eq_nil h hfits hend, List.drop_eq_nil_of_le (by omega)]
    · dsimp only
      omega
    · dsimp only
      omega
    · rw [List.getElem?_eq_none hlength, hidle]
      rfl

/-- As long as no pull is to fail, the records come one by one. -/
theorem underway_afterPulls (h : p.Sound index) (hfits : p.Fits)
    (hp : log.partition c.target = .ok p) (hopen : c.closed = false) (hfresh : c.delivered = 0)
    (hdue : ∀ j < i, c.failAfter ≠ some (min j (p.recordsFrom c.position).length)) :
    Underway p c i (c.afterPulls log i) := by
  induction i with
  | zero => exact underway_start hopen hfresh
  | succ i ih =>
      have hbefore := ih fun j hj ↦ hdue j (Nat.lt_succ_of_lt hj)
      exact (hbefore.pull h hfits hp (hdue i (Nat.lt_succ_self i))).1

theorem afterPulls_of_closed (hclosed : (c.afterPulls log i).closed = true) (n : Nat) :
    c.afterPulls log (i + n) = c.afterPulls log i := by
  induction n with
  | zero => rfl
  | succ n ih =>
      change ((c.afterPulls log (i + n)).pull log).2 = _
      rw [ih, pull_of_closed hclosed]

section Fault

variable (h : p.Sound index) (hfits : p.Fits) (hp : log.partition c.target = .ok p)
  (hopen : c.closed = false) (hfresh : c.delivered = 0)

include h hfits hp hopen hfresh

theorem answer_eq (hdue : ∀ j ≤ i, c.failAfter ≠ some (min j (p.recordsFrom c.position).length)) :
    c.answer log i = ((p.recordsFrom c.position)[i]?.map Pull.record).getD c.idle := by
  have hbefore := underway_afterPulls h hfits hp hopen hfresh fun j hj ↦ hdue j (Nat.le_of_lt hj)
  exact (hbefore.pull h hfits hp (hdue i (Nat.le_refl i))).2.1

variable {k : Nat} (hk : c.failAfter = some k) (hle : k ≤ (p.recordsFrom c.position).length)

include hk hle

theorem pull_at_fault : (c.afterPulls log k).pull log =
    (.failed (LogFault.stream c.target).failure, (c.afterPulls log k).close) := by
  have hd : Underway p c k (c.afterPulls log k) := by
    apply underway_afterPulls h hfits hp hopen hfresh
    intro j hj
    rw [hk, ne_eq, Option.some_inj]
    omega
  have hdelivered := hd.delivered_eq
  rw [Nat.min_eq_left hle] at hdelivered
  rw [pull_of_fault hd.isOpen (by rw [hd.failAfter_eq, hk, hdelivered]), hd.target_eq]

theorem closed_after_fault (hlt : k < i) : (c.afterPulls log i).closed = true := by
  have hclosed : (c.afterPulls log (k + 1)).closed = true :=
    congrArg (fun a ↦ a.2.closed) (pull_at_fault h hfits hp hopen hfresh hk hle)
  obtain ⟨n, rfl⟩ := Nat.exists_eq_add_of_lt hlt
  rw [Nat.add_right_comm, afterPulls_of_closed hclosed]
  exact hclosed

theorem answer_of_fault (i : Nat) :
    c.answer log i = (((p.recordsFrom c.position).take k)[i]?.map Pull.record).getD
      (if i = k then .failed (LogFault.stream c.target).failure else .ended) := by
  rcases Nat.lt_trichotomy i k with hlt | rfl | hgt
  · rw [List.getElem?_take_of_lt hlt, List.getElem?_eq_getElem (by omega)]
    rw [answer_eq h hfits hp hopen hfresh, List.getElem?_eq_getElem (by omega)]
    · rfl
    · intro j hj
      rw [hk, ne_eq, Option.some_inj]
      omega
  · rw [answer, pull_at_fault h hfits hp hopen hfresh hk hle, if_pos rfl,
      List.getElem?_eq_none (List.length_take_le i _)]
    rfl
  · have hclosed := closed_after_fault h hfits hp hopen hfresh hk hle hgt
    rw [answer, pull_of_closed hclosed, if_neg (Nat.ne_of_gt hgt),
      List.getElem?_eq_none (Nat.le_trans (List.length_take_le k _) (Nat.le_of_lt hgt))]
    rfl

end Fault

/-! ## What a cursor yields -/

/-- What becomes of a cursor that is pulled from again and again while the partition is `p`. -/
structure Yields (log : Log) (p : PartitionLog) (c : LogCursor) : Prop where
  ordered : (p.recordsFrom c.position).Pairwise fun a b ↦ a.offset < b.offset
  /-- Each record from the position on, and then nothing more for ever. -/
  records : (∀ k, c.failAfter = some k → (p.recordsFrom c.position).length < k) →
    ∀ i, c.answer log i = ((p.recordsFrom c.position)[i]?.map Pull.record).getD c.idle
  /-- A cursor that fails yields the records before, fails once, and then ends for ever. -/
  fails : ∀ k, c.failAfter = some k → k ≤ (p.recordsFrom c.position).length →
    ∀ i, c.answer log i = (((p.recordsFrom c.position).take k)[i]?.map Pull.record).getD
      (if i = k then .failed (LogFault.stream c.target).failure else .ended)
  /-- A cursor that waits stands at the end of the partition, or ahead of it where it began there.
  Whatever becomes of the log, it goes on with the first record at or after its position. -/
  waits : ∀ i, c.answer log i = .waiting →
    (c.afterPulls log (i + 1)).position = max c.position p.firstAvailable ∧
      ∀ log' q, log'.Reachable → log'.partition c.target = .ok q → q.Fits →
        ((c.afterPulls log (i + 1)).pull log').1 =
          ((q.recordsFrom (max c.position p.firstAvailable)).head?.map Pull.record).getD .waiting
  /-- Once it has failed or has been closed, it ends whatever becomes of the log. -/
  ended : ∀ i log', (∀ f, c.answer log i = .failed f →
      (c.afterPulls log (i + 1)).pull log' = (.ended, c.afterPulls log (i + 1))) ∧
    (c.afterPulls log i).close.pull log' = (.ended, (c.afterPulls log i).close)

theorem not_due_of_lt {n : Nat} (hfar : ∀ k, c.failAfter = some k → n < k) (j : Nat) :
    c.failAfter ≠ some (min j n) := by
  intro hk
  have := hfar _ hk
  omega

/-- While it waits, a cursor stands at the end, and is open for what comes behind. -/
theorem waits_of_underway (h : p.Sound index) (hfits : p.Fits) (hp : log.partition c.target = .ok p)
    (hd : Underway p c i d)
    (hfar : ∀ k, c.failAfter = some k → (p.recordsFrom c.position).length < k)
    (hend : (p.recordsFrom c.position).length ≤ i) (hfollow : c.follow = true) :
    (d.pull log).2.position = max c.position p.firstAvailable ∧
      ∀ log' q, log'.Reachable → log'.partition c.target = .ok q → q.Fits →
        ((d.pull log).2.pull log').1 =
          ((q.recordsFrom (max c.position p.firstAvailable)).head?.map
            Pull.record).getD .waiting := by
  obtain ⟨hnext, -, hbeyond⟩ := hd.pull h hfits hp (not_due_of_lt hfar i)
  have hposition : (d.pull log).2.position = max c.position p.firstAvailable := by
    have hmax := hnext.position_eq
    have hle := Int64.le_iff_toInt_le.mp (hbeyond hend)
    rw [← Int64.toInt_inj, Offset.toInt_max]
    omega
  refine ⟨hposition, fun log' q hlog' hq hfits' ↦ ?_⟩
  have hsound := hlog'.sound _ q hq
  rw [← hnext.target_eq] at hq
  have hready : (d.pull log).2.failAfter ≠ some (d.pull log).2.delivered := by
    rw [hnext.failAfter_eq, hnext.delivered_eq]
    exact not_due_of_lt hfar (i + 1)
  rw [← hposition]
  rcases pull_of_open hsound hfits' hq hnext.isOpen hready with
    ⟨raw, -, hpull, -, hfrom⟩ | ⟨position, hpull, hnone, -, -⟩
  · rw [hpull, hfrom]
    rfl
  · rw [hpull, hnone, idle, hnext.follow_eq, hfollow]
    rfl

/-- An answer that is no record comes behind all of them. -/
theorem length_le_of_answer {records : List RawRecord} {rest answer : Pull}
    (h : (records[i]?.map Pull.record).getD rest = answer) (hnot : ∀ raw, answer ≠ .record raw) :
    records.length ≤ i ∧ rest = answer := by
  cases hraw : records[i]? with
  | some raw =>
      rw [hraw] at h
      exact (hnot raw h.symm).elim
  | none =>
      rw [hraw] at h
      exact ⟨List.getElem?_eq_none_iff.mp hraw, h⟩

theorem yields (h : p.Sound index) (hfits : p.Fits) (hp : log.partition c.target = .ok p)
    (hopen : c.closed = false) (hfresh : c.delivered = 0) : c.Yields log p := by
  have hfails (k : Nat) (hk : c.failAfter = some k)
      (hle : k ≤ (p.recordsFrom c.position).length) :=
    answer_of_fault h hfits hp hopen hfresh hk hle
  have hordered := (PartitionLog.pairwise_offset h).filter (c.position ≤ ·.offset)
  by_cases hfar : ∀ k, c.failAfter = some k → (p.recordsFrom c.position).length < k
  case pos =>
    have hrecords (i : Nat) : c.answer log i = _ :=
      answer_eq h hfits hp hopen hfresh fun j _ ↦ not_due_of_lt hfar j
    refine ⟨hordered, fun _ ↦ hrecords, hfails, fun i hwaiting ↦ ?_,
      fun i log' ↦ ⟨fun f hf ↦ ?_, ?_⟩⟩
    · obtain ⟨hend, hidle⟩ := length_le_of_answer ((hrecords i).symm.trans hwaiting) nofun
      have hd : Underway p c i (c.afterPulls log i) :=
        underway_afterPulls h hfits hp hopen hfresh fun j _ ↦ not_due_of_lt hfar j
      exact waits_of_underway h hfits hp hd hfar hend (follow_of_idle hidle)
    · obtain ⟨-, hidle⟩ := length_le_of_answer ((hrecords i).symm.trans hf) nofun
      exact (idle_ne_failed hidle).elim
    · exact pull_of_closed rfl log'
  case neg =>
    obtain ⟨k, hnot⟩ := Classical.not_forall.mp hfar
    obtain ⟨hk, hnot⟩ := Classical.not_imp.mp hnot
    have hle := Nat.not_lt.mp hnot
    have hanswer := hfails k hk hle
    refine ⟨hordered, fun hfar ↦ (Nat.not_lt.mpr hle (hfar k hk)).elim, hfails,
      fun i hwaiting ↦ ?_, fun i log' ↦ ⟨fun f hf ↦ ?_, ?_⟩⟩
    · obtain ⟨-, hrest⟩ := length_le_of_answer ((hanswer i).symm.trans hwaiting) nofun
      split at hrest <;> cases hrest
    · obtain ⟨-, hrest⟩ := length_le_of_answer ((hanswer i).symm.trans hf) nofun
      split at hrest
      · next hik =>
          rw [hik]
          exact pull_of_closed
            (closed_after_fault h hfits hp hopen hfresh hk hle (Nat.lt_succ_self k)) log'
      · cases hrest
    · exact pull_of_closed rfl log'

/-- Once the offsets have run out, the last record has the last one. -/
theorem exists_last_of_not_fits (h : p.Sound index) (hfull : ¬ p.Fits) :
    ∃ raw ∈ p.records, raw.offset = Int64.maxValue := by
  have hlt := p.oldest.toInt_lt
  have hend := h.end_le
  have hmax := Int64.toInt_maxValue
  unfold PartitionLog.Fits at hfull
  have hlast : p.records.length - 1 < p.records.length := by omega
  have hoffset := PartitionLog.offset_of_getElem? h (List.getElem?_eq_getElem hlast)
  exact ⟨_, List.getElem_mem hlast, Int64.toInt_inj.mp (by omega)⟩

/-- A cursor that has come to the last offset crashes at its record. -/
theorem pull_at_last_offset (h : p.Sound index) (hp : log.partition c.target = .ok p)
    (hopen : c.closed = false) (hdue : c.failAfter ≠ some c.delivered) {raw : RawRecord}
    (hraw : raw ∈ p.records) (hlast : raw.offset = Int64.maxValue)
    (hposition : c.position = Int64.maxValue) : c.pull log = (.crashed, c) := by
  have hmax := Int64.toInt_maxValue
  have hone := Int64.toInt_one
  have hle := (PartitionLog.mem_bounds h hraw).1
  rw [hlast, ← hposition] at hle
  have hresume : c.resume p.oldest = c := if_neg (Std.not_lt.mpr hle)
  have hget : p.get? c.position = some raw :=
    (PartitionLog.get?_eq_some_iff h hle).mpr ⟨hraw, hlast.trans hposition.symm⟩
  have hnext : c.position.checkedAdd 1 = none := by
    rw [hposition]
    exact Offset.ofInt?_eq_none_iff.mpr (Or.inr (by omega))
  simp [pull, hopen, hdue, hp, hresume, hget, hnext]

/-- A cursor that is opened on a partition yields the records from its start on, fails where it has
been told to, and then ends or waits.  That it does so from every start, following or not, with
every fault, is the case exactly as long as the offsets of the partition have not run out.  Once
they have, the last record has the last offset, and a cursor crashes when it comes there. -/
theorem yields_iff_fits (hlog : log.Reachable) (hp : log.partition target = .ok p) :
    (target ∉ log.faults.openings → ∀ start follow, log.openCursor target start follow =
      .ok ⟨target, start, follow, log.faults.streams.lookup target, 0, false⟩) ∧
    ((∀ start follow failAfter, Yields log p ⟨target, start, follow, failAfter, 0, false⟩) ↔
      p.Fits) ∧
    (¬ p.Fits → (∃ raw ∈ p.records, raw.offset = Int64.maxValue) ∧
      ∀ c : LogCursor, c.target = target → c.closed = false → c.failAfter ≠ some c.delivered →
        c.position = Int64.maxValue → c.pull log = (.crashed, c)) := by
  have hsound := hlog.sound target p hp
  have hfull (hfull : ¬ p.Fits) : (∃ raw ∈ p.records, raw.offset = Int64.maxValue) ∧
      ∀ c : LogCursor, c.target = target → c.closed = false → c.failAfter ≠ some c.delivered →
        c.position = Int64.maxValue → c.pull log = (.crashed, c) := by
    obtain ⟨raw, hraw, hlast⟩ := exists_last_of_not_fits hsound hfull
    refine ⟨⟨raw, hraw, hlast⟩, fun c hc hopen hdue hposition ↦ ?_⟩
    exact pull_at_last_offset hsound (hc ▸ hp) hopen hdue hraw hlast hposition
  refine ⟨fun hopenings start follow ↦ ?_,
    ⟨fun hyields ↦ ?_, fun hfits start follow failAfter ↦ ?_⟩, hfull⟩
  · exact Log.openCursor_of_partition hopenings hp start follow
  · by_contra hnot
    -- A cursor that is opened at the last offset ought to yield its record.
    obtain ⟨⟨raw, hraw, hlast⟩, hcrash⟩ := hfull hnot
    let c : LogCursor := ⟨target, Int64.maxValue, false, none, 0, false⟩
    have hfirst := (hyields Int64.maxValue false none).records nofun 0
    have hcrashed : c.answer log 0 = .crashed := congrArg Prod.fst (hcrash c rfl rfl nofun rfl)
    have hmem : raw ∈ p.recordsFrom Int64.maxValue :=
      PartitionLog.mem_recordsFrom.mpr ⟨hraw, Std.le_of_eq hlast.symm⟩
    obtain ⟨first, rest, hfrom⟩ := List.exists_cons_of_ne_nil (List.ne_nil_of_mem hmem)
    rw [hcrashed, hfrom] at hfirst
    cases hfirst
  · exact yields hsound hfits hp rfl rfl

theorem yields_of_sample :
    let p : PartitionLog :=
      ⟨0, [⟨none, some [97], 0, 0, some 0, []⟩, ⟨none, some [98], 0, 1, some 0, []⟩], 2⟩
    Log.sample.Reachable ∧ Log.sample.partition ⟨"t", 0⟩ = .ok p ∧ p.Fits ∧
      ∀ start follow failAfter,
        Yields Log.sample p ⟨⟨"t", 0⟩, start, follow, failAfter, 0, false⟩ := by
  intro p
  have hp : Log.sample.partition ⟨"t", 0⟩ = .ok p := rfl
  have hfits : p.Fits := by
    unfold PartitionLog.Fits
    decide
  obtain ⟨-, hiff, -⟩ := yields_iff_fits Log.reachable_sample hp
  exact ⟨Log.reachable_sample, hp, hfits, hiff.mpr hfits⟩

/-- A partition whose only record lies at the last offset; the append that put it down crashed. -/
def fullPartition : PartitionLog :=
  ⟨Int64.maxValue, [⟨none, none, 0, Int64.maxValue, some 0, []⟩], Int64.maxValue⟩

def fullLog : Log := { topics := [("t", [fullPartition])] }

theorem reachable_fullLog : fullLog.Reachable := by
  have hcreated := Log.Reachable.createTopic .empty (show Log.createTopic {} "t" 1 = .ok _ from rfl)
  have hmoved := hcreated.startAt (show Log.startAt _ ⟨"t", 0⟩ Int64.maxValue = .ok _ from rfl)
  exact hmoved.append ⟨"t", 0⟩ ⟨none, none, [], 0⟩

def fullCursor : LogCursor := ⟨⟨"t", 0⟩, 0, false, none, 0, false⟩

/-- The record at the last offset ought to be yielded, but there is no position behind it. -/
theorem crashes_at_last_record :
    fullLog.Reachable ∧ fullLog.partition ⟨"t", 0⟩ = .ok fullPartition ∧
      fullLog.openCursor ⟨"t", 0⟩ 0 false = .ok fullCursor ∧
      ∃ raw, fullPartition.recordsFrom 0 = [raw] ∧ fullCursor.answer fullLog 0 = .crashed ∧
        ¬ fullCursor.Yields fullLog fullPartition := by
  have hcrashed : fullCursor.answer fullLog 0 = .crashed := by decide
  refine ⟨reachable_fullLog, rfl, rfl, ⟨none, none, 0, Int64.maxValue, some 0, []⟩, by decide,
    hcrashed, fun hyields ↦ ?_⟩
  have hyielded : fullCursor.answer fullLog 0 =
      .record ⟨none, none, 0, Int64.maxValue, some 0, []⟩ := hyields.records nofun 0
  rw [hcrashed] at hyielded
  cases hyielded

end LogCursor
end TopicView
