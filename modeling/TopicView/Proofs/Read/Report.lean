import Mathlib.Algebra.BigOperators.Group.List.Basic
import Mathlib.Data.List.Perm.Subperm
import Mathlib.Data.UInt
import TopicView.Proofs.Read.Limit
import TopicView.Proofs.Read.Relay
import TopicView.Script

/-!
# The summary of a read

A read counts twice what it delivers: every granted claim on the counter that its workers share, and
every record in the own count of the worker that sends it.  The two agree once the workers are
over.  A summary pairs the shared count with the own counts, as far as these are reported.
-/

namespace TopicView

open Act

namespace Worker

variable {σ κ : Type} {client : Client σ κ} {job : Job} {s s' : σ} {sh sh' : Shared}
  {w w' : Worker κ} {acts : List Act} {act : Option Act}

theorem Step.emitted_eq (h : w.Step client job s sh act s' sh' w') :
    w'.emitted = w.emitted + UInt64.ofNat (act.bind record?).toList.length := by
  cases h <;> simp [go, record?]

/-- No worker ends by panicking except where it crashes. -/
theorem Step.crashed_of_panicked (h : w.Step client job s sh act s' sh' w')
    (hw : w.phase.outcome? = some .panicked → w.phase = .crashed)
    (hw' : w'.phase.outcome? = some .panicked) : w'.phase = .crashed := by
  cases h
  case idle => exact hw hw'
  case openingCrashed => rfl
  case pullingCrashed => rfl
  case opened cursor phase live answer =>
    simp only [go, outcome_afterOpening] at hw'
    split at hw' <;> cases hw'
  case pulled cursor cursor' raw phase live answer =>
    rcases outcome_examine job w cursor' raw with hnone | hdone <;> simp_all [go]
  case granted cursor parcel b counter phase answer =>
    cases b <;> cases hw'
  case sent cursor parcel b phase =>
    rw [outcome_afterSending] at hw'
    split at hw'
    · cases hw'
    · split at hw' <;> cases hw'
  case closed cursor cursor' outcome phase answer =>
    have hpanicked := hw (by simpa [phase, go, Phase.outcome?] using hw')
    rw [phase] at hpanicked
    cases hpanicked
  all_goals cases hw'

structure Tallies (acts : List Act) (w : Worker κ) : Prop where
  emitted_eq : w.emitted = UInt64.ofNat (sentIn acts).length
  crashed : w.phase.outcome? = some .panicked → w.phase = .crashed

theorem tallies_start (p : PartitionId) (plan : Plan) : (start p plan : Worker κ).Tallies [] :=
  ⟨rfl, (nomatch ·)⟩

theorem Tallies.step (h : w.Tallies acts) (hstep : w.Step client job s sh act s' sh' w') :
    w'.Tallies (acts ++ act.toList) := by
  refine ⟨?_, hstep.crashed_of_panicked h.crashed⟩
  rw [hstep.emitted_eq, h.emitted_eq, sentIn_step, List.length_append, UInt64.ofNat_add]

/-- A report is of a worker that is over, and that gets no further. -/
theorem Step.report_of_some (h : w.Step client job s sh act s' sh' w') {report : Report}
    (hw : w.report? = some report) : w'.report? = some report := by
  cases h
  case idle => exact hw
  all_goals simp_all [report?]

theorem isSome_report (h : w.phase.isOver = true) : w.report?.isSome = true := by
  cases hphase : w.phase <;> simp_all [Phase.isOver, report?]

theorem isOver_of_report {report : Report} (h : w.report? = some report) :
    w.phase.isOver = true := by
  cases hphase : w.phase <;> simp_all [Phase.isOver, report?]

theorem report_eq {report : Report} (h : w.report? = some report) :
    report.partition = w.partition ∧ report.plan = w.plan := by
  unfold report? at h
  split at h <;> simp_all
  all_goals rw [← h]; exact ⟨rfl, rfl⟩

/-- A worker that has crashed is reported with an empty count. -/
theorem Tallies.emitted_of_report (h : w.Tallies acts) {report : Report}
    (hreport : w.report? = some report) : report.emitted =
      if report.outcome = .panicked then 0 else UInt64.ofNat (sentIn acts).length := by
  have hcrashed := h.crashed
  rw [outcome_of_report hreport, Option.some.injEq] at hcrashed
  unfold report? at hreport
  split at hreport
  · next outcome hphase =>
      obtain rfl := Option.some.inj hreport
      have hwhole : outcome ≠ .panicked := fun hpanicked ↦ by
        rw [hphase] at hcrashed
        exact nomatch hcrashed hpanicked
      simp [hwhole, h.emitted_eq]
  · obtain rfl := Option.some.inj hreport
    rfl
  · cases hreport

end Worker

namespace Stage

variable {σ κ δ : Type} {client : Client σ κ} {alter : δ → σ → σ} {x y : Stage σ κ}

/-! ## The two counts -/

/-- What the workers have counted on their own is what is sent, and their counter is ahead by the
claims that are still to be sent for. -/
structure Balanced (x : Stage σ κ) : Prop where
  counter_eq : x.read.shared.counter.emitted = UInt64.ofNat (x.sent.length + x.pending)
  workers_eq : (x.read.workers.map (·.emitted)).sum = UInt64.ofNat x.sent.length

theorem Balanced.after (h : Balanced x) {i : Nat} {w w' : Worker κ} {act : Option Act} {s : σ}
    {sh : Shared} (hw : x.read.workers[i]? = some w)
    (hstep : w.Step client x.read.job x.state x.read.shared act s sh w') :
    Balanced (x.after i act s sh w') := by
  have hpending : (x.after i act s sh w').pending + w.phase.isSending.toNat =
      x.pending + w'.phase.isSending.toNat := pending_after hw
  refine ⟨?_, ?_⟩
  · change sh.counter.emitted = _
    rw [sent_after, List.length_append]
    rcases hstep.claim_or_send with ⟨b, rfl, hclaim, hbefore, hafter⟩ | ⟨hcounter, -, hsend⟩
    · simp only [hbefore, hafter, Bool.toNat_false, Bool.toNat_true, Nat.add_zero] at hpending
      rw [(Counter.counts_of_granted hclaim).2, h.counter_eq, hpending, ← Nat.add_assoc]
      simp [record?, UInt64.ofNat_add]
    · rw [hcounter, h.counter_eq]
      congr 1
      omega
  · have hsum := sum_map_set_add (f := fun v : Worker κ ↦ v.emitted) (b := w') hw
    simp only [hstep.emitted_eq, h.workers_eq] at hsum
    rw [sent_after, List.length_append, UInt64.ofNat_add]
    refine add_right_cancel (b := w.emitted) (Eq.trans hsum ?_)
    ac_rfl

theorem Balanced.congr (h : Balanced x)
    (hcounter : y.read.shared.counter = x.read.shared.counter)
    (hworkers : y.read.workers = x.read.workers) (hsent : y.sent = x.sent) : Balanced y := by
  refine ⟨?_, ?_⟩
  · rw [hcounter, h.counter_eq, hsent, pending, pending, hworkers]
  · rw [hworkers, h.workers_eq, hsent]

theorem Balanced.next (h : Balanced x) {m : Move δ} (hm : x.Next client alter m y) :
    Balanced y := by
  cases hm
  case unchanged => exact h
  case worked hw hstep => exact h.after hw hstep
  case collected report hw hreport hfresh =>
    exact h.congr (by simp) rfl (by simp [Deed.sent?])
  all_goals exact h.congr rfl rfl (by simp [Deed.sent?])

theorem balanced_start {s : σ} {settings : ReaderSettings} {decoder : Decoder} {request : Request}
    {cancelled : Bool} {ranges : List (PartitionId × Offsets)} {r : Read κ}
    (h : Launched client s settings decoder request cancelled ranges r) :
    Balanced (start s r) := by
  refine ⟨?_, ?_⟩
  · rw [pending_start h, h.made]
    rfl
  · change (r.workers.map (·.emitted)).sum = 0
    refine List.sum_eq_zero fun n hn ↦ ?_
    obtain ⟨w, hw, rfl⟩ := List.mem_map.mp hn
    rw [h.eq_start hw]
    rfl

/-! ## The reports and their summary -/

/-- Every report that is filed is that of a worker, under its partition. -/
structure Filed (x : Stage σ κ) : Prop where
  ordered : Keyed.Ordered x.read.reports
  own : ∀ e ∈ x.read.reports, ∃ w ∈ x.read.workers, w.partition = e.1 ∧ w.report? = some e.2

theorem filed_start {s : σ} {r : Read κ} (h : r.reports = []) : Filed (start s r) := by
  refine ⟨?_, ?_⟩
  · simp [start, h, Keyed.Ordered]
  · simp [start, h]

theorem Filed.next (h : Filed x) {m : Move δ} (hm : x.Next client alter m y) : Filed y := by
  cases hm
  case worked i w w' act s sh hw hstep =>
    refine ⟨h.ordered, ?_⟩
    intro e he
    obtain ⟨v, hv, hpartition, hreport⟩ := h.own e he
    obtain ⟨j, hj⟩ := List.getElem?_of_mem hv
    by_cases hij : i = j
    · subst hij
      obtain rfl : w = v := Option.some.inj (hw.symm.trans hj)
      refine ⟨w', List.mem_set (List.getElem?_eq_some_iff.mp hw).1 _, ?_, ?_⟩
      · rw [hstep.partition_eq, hpartition]
      · exact hstep.report_of_some hreport
    · exact ⟨v, List.mem_of_getElem? ((List.getElem?_set_ne hij).trans hj), hpartition, hreport⟩
  case collected i w report hw hreport hfresh =>
    refine ⟨h.ordered.insert _ _, ?_⟩
    intro e he
    rcases Keyed.eq_or_mem_of_mem_insert he with rfl | he
    · exact ⟨w, List.mem_of_getElem? hw, rfl, hreport⟩
    · exact h.own e he
  all_goals exact ⟨h.ordered, h.own⟩

/-- Where the partitions ascend, a full set of reports is in the order of the workers. -/
theorem Filed.reports_eq (h : Filed x) (hascending : (x.read.plans.map Prod.fst).Pairwise (· < ·))
    (hfull : x.read.reports.length = x.read.workers.length) :
    x.read.workers.map (·.report?) = x.read.reports.map fun e ↦ some e.2 := by
  -- Both lists ascend, so it is enough that the same reports are in them.
  let filed := x.read.reports.map fun e ↦ (e.1, some e.2)
  let due := x.read.workers.map fun w ↦ (w.partition, w.report?)
  have hfiled : filed.Pairwise fun a b ↦ a.1 < b.1 := List.pairwise_map.mpr h.ordered
  have hdue : due.Pairwise fun a b ↦ a.1 < b.1 := by
    rw [Read.plans, List.map_map, List.pairwise_map] at hascending
    exact List.pairwise_map.mpr hascending
  have hsubset : filed ⊆ due := by
    intro e he
    obtain ⟨entry, hentry, rfl⟩ := List.mem_map.mp he
    obtain ⟨w, hw, hpartition, hreport⟩ := h.own entry hentry
    exact List.mem_map.mpr ⟨w, hw, by rw [hpartition, hreport]⟩
  have hnodup : filed.Nodup := by
    apply hfiled.imp
    rintro a b hlt rfl
    exact Std.lt_irrefl hlt
  have hperm : filed.Perm due :=
    (List.subperm_of_subset hnodup hsubset).perm_of_length_le (by simp [filed, due, hfull])
  have heq : filed = due := by
    refine hperm.eq_of_pairwise ?_ hfiled hdue
    intro a b _ _ hab hba
    exact (Int32.lt_asymm hab hba).elim
  have hsnd := congrArg (List.map Prod.snd) heq.symm
  rwa [List.map_map, List.map_map] at hsnd

/-- Once the workers are over, only reports that nobody collects keep the summary back. -/
theorem Filed.length_eq (h : Filed x) (hdistinct : (x.read.plans.map Prod.fst).Nodup)
    (hover : x.read.isOver = true) (hcollected : ∀ i, (x.collect i).history = x.history) :
    x.read.reports.length = x.read.workers.length := by
  have hkeys : (x.read.reports.map Prod.fst).Nodup := by
    refine List.pairwise_map.mpr (h.ordered.imp ?_)
    intro a b hlt
    exact Std.ne_of_lt hlt
  have hworkers : (x.read.plans.map Prod.fst).length = x.read.workers.length := by
    simp [Read.plans]
  apply Nat.le_antisymm
  · rw [← hworkers, ← List.length_map (f := Prod.fst)]
    refine (List.subperm_of_subset hkeys ?_).length_le
    intro p hp
    obtain ⟨e, he, rfl⟩ := List.mem_map.mp hp
    obtain ⟨w, hw, hpartition, -⟩ := h.own e he
    rw [← hpartition]
    exact List.mem_map_of_mem (f := Prod.fst) (List.mem_map_of_mem hw)
  · have hreports : (x.read.reports.map Prod.fst).length = x.read.reports.length :=
      List.length_map _
    rw [← hworkers, ← hreports]
    refine (List.subperm_of_subset hdistinct ?_).length_le
    intro p hp
    obtain ⟨w, hw, rfl⟩ : ∃ w ∈ x.read.workers, w.partition = p := by simpa [Read.plans] using hp
    obtain ⟨i, hi⟩ := List.getElem?_of_mem hw
    obtain ⟨report, hreport⟩ :=
      Option.isSome_iff_exists.mp (Worker.isSome_report (List.all_eq_true.mp hover w hw))
    have hthere : (x.read.reports.lookup w.partition).isSome = true := by
      by_contra hfresh
      have hmoved := hcollected i
      simp [collect, Read.collect, hi, hreport, hfresh, note] at hmoved
    obtain ⟨e, he, heq⟩ := List.lookup_isSome_iff.mp hthere
    exact List.mem_map.mpr ⟨e, he, (beq_iff_eq.mp heq).symm⟩

/-- What the workers that crashed have counted. -/
def lost (x : Stage σ κ) : UInt64 :=
  (x.read.workers.map fun w ↦ if w.phase.outcome? = some .panicked then w.emitted else 0).sum

/-- A summary of the workers as they ended.  The count of a crashed worker is missing from its
report, so the reported counts make up the total as far as no record of such a worker was sent. -/
structure Sums (plans : List (PartitionId × Plan)) (x : Stage σ κ) (summary : Summary) : Prop where
  plans_eq : summary.reports.map (fun report ↦ (report.partition, report.plan)) = plans
  ascending : summary.reports.Pairwise fun a b ↦ a.partition < b.partition
  outcomes_eq : summary.reports.map (fun report ↦ some report.outcome) =
    x.read.workers.map (·.phase.outcome?)
  count_eq : ∀ i report, summary.reports[i]? = some report → report.emitted =
    if report.outcome = .panicked then 0 else UInt64.ofNat (sentIn (x.actsOf i)).length
  total_eq : summary.emitted = UInt64.ofNat x.sent.length
  sum_eq : (summary.reports.map (·.emitted)).sum + x.lost = summary.emitted
  whole : (∀ i w, x.read.workers[i]? = some w → w.phase.outcome? = some .panicked →
      sentIn (x.actsOf i) = []) →
    (∀ i report, summary.reports[i]? = some report →
      report.emitted = UInt64.ofNat (sentIn (x.actsOf i)).length) ∧
    (summary.reports.map (·.emitted)).sum = summary.emitted

/-- What is known of the counts and reports at every stage of a read. -/
structure Reporting (r : Read κ) (x : Stage σ κ) : Prop where
  framed : x.Framed r
  balanced : x.Balanced
  filed : x.Filed
  tallies : x.Each Worker.Tallies

theorem reporting_play {s : σ} {settings : ReaderSettings} {decoder : Decoder} {request : Request}
    {cancelled : Bool} {ranges : List (PartitionId × Offsets)} {r : Read κ}
    (h : Launched client s settings decoder request cancelled ranges r) (moves : List (Move δ)) :
    Reporting r ((start s r).play client alter moves) := by
  refine ⟨framed_play client alter s r moves, ?_, ?_, ?_⟩
  · exact play_keeps client alter (start s r) (balanced_start h) moves
      fun _ m _ hy ↦ hy.next (next_step alter m)
  · refine play_keeps client alter (start s r) (filed_start ?_) moves
      fun _ m _ hy ↦ hy.next (next_step alter m)
    rw [h.made]
    rfl
  · exact play_keeps client alter (start s r) (each_start h Worker.tallies_start) moves
      fun _ m _ hy ↦ hy.next (fun hstep hw ↦ hw.step hstep) (next_step alter m)

theorem map_eq_map_of_map_some {α β γ : Type} {q : α → Option β} {f : β → γ} {g : α → γ}
    {l : List α} {k : List β} (hlk : l.map q = k.map some)
    (h : ∀ a ∈ l, ∀ b, q a = some b → f b = g a) : k.map f = l.map g := by
  induction l generalizing k with
  | nil =>
      obtain rfl : k = [] := by simpa using hlk.symm
      rfl
  | cons a l ih =>
      cases k with
      | nil => cases hlk
      | cons b k =>
          obtain ⟨hab, hrest⟩ := List.cons.inj hlk
          have htail := ih hrest fun c hc ↦ h c (List.mem_cons_of_mem a hc)
          rw [List.map_cons, List.map_cons, htail, h a List.mem_cons_self b hab]

namespace Reporting

variable {r : Read κ} {reports : List Report}

/-- The reports of a full summary are those of the workers, in their order. -/
theorem exists_reports (h : Reporting r x) (hascending : (r.plans.map Prod.fst).Pairwise (· < ·))
    {summary : Summary} (hsummary : x.read.summary? = some summary) :
    summary.emitted = x.read.shared.counter.emitted ∧
      x.read.workers.map Worker.report? = summary.reports.map some := by
  obtain ⟨hfull, rfl⟩ : x.read.reports.length = x.read.workers.length ∧
      (⟨x.read.shared.counter.emitted, x.read.reports.map Prod.snd⟩ : Summary) = summary := by
    simpa [Read.summary?] using hsummary
  refine ⟨rfl, ?_⟩
  rw [h.filed.reports_eq (h.framed.plans_eq ▸ hascending) hfull, List.map_map]
  rfl

theorem plans_eq (h : Reporting r x)
    (hreports : x.read.workers.map Worker.report? = reports.map some) :
    reports.map (fun report ↦ (report.partition, report.plan)) = r.plans := by
  rw [← h.framed.plans_eq]
  apply map_eq_map_of_map_some hreports
  intro w _ report hreport
  obtain ⟨hpartition, hplan⟩ := Worker.report_eq hreport
  rw [hpartition, hplan]

theorem isOver (hreports : x.read.workers.map Worker.report? = reports.map some) :
    x.read.isOver = true := by
  refine List.all_eq_true.mpr fun w hw ↦ ?_
  obtain ⟨report, -, hreport⟩ := List.mem_map.mp (hreports ▸ List.mem_map_of_mem hw)
  exact Worker.isOver_of_report hreport.symm

theorem exists_worker (hreports : x.read.workers.map Worker.report? = reports.map some) {i : Nat}
    {report : Report} (hi : reports[i]? = some report) :
    ∃ w, x.read.workers[i]? = some w ∧ w.report? = some report := by
  have hi' := congrArg (fun l ↦ l[i]?) hreports
  simpa [hi] using hi'

theorem count_eq (h : Reporting r x)
    (hreports : x.read.workers.map Worker.report? = reports.map some) {i : Nat} {report : Report}
    (hi : reports[i]? = some report) : report.emitted =
      if report.outcome = .panicked then 0 else UInt64.ofNat (sentIn (x.actsOf i)).length := by
  obtain ⟨w, hw, hreport⟩ := exists_worker hreports hi
  exact (h.tallies i w hw).emitted_of_report hreport

theorem total_eq (h : Reporting r x)
    (hreports : x.read.workers.map Worker.report? = reports.map some) :
    x.read.shared.counter.emitted = UInt64.ofNat x.sent.length := by
  rw [h.balanced.counter_eq, pending_of_isOver (isOver hreports), Nat.add_zero]

/-- What is missing from the reports is what the crashed workers have counted. -/
theorem sum_add_lost (h : Reporting r x)
    (hreports : x.read.workers.map Worker.report? = reports.map some) :
    (reports.map (·.emitted)).sum + x.lost = UInt64.ofNat x.sent.length := by
  have hcounts : reports.map (·.emitted) =
      x.read.workers.map fun w ↦ if w.phase.outcome? = some .panicked then 0 else w.emitted := by
    apply map_eq_map_of_map_some hreports
    intro w hw report hreport
    obtain ⟨i, hi⟩ := List.getElem?_of_mem hw
    have htallies := h.tallies i w hi
    rw [htallies.emitted_of_report hreport, Worker.outcome_of_report hreport, htallies.emitted_eq]
    simp only [Option.some.injEq]
  have hboth : ∀ w ∈ x.read.workers,
      (if w.phase.outcome? = some .panicked then 0 else w.emitted) +
        (if w.phase.outcome? = some .panicked then w.emitted else 0) = w.emitted := by
    intro w _
    split <;> simp
  rw [hcounts, lost, ← List.sum_map_add, List.map_congr_left hboth, h.balanced.workers_eq]

theorem lost_eq_zero (h : Reporting r x)
    (hnone : ∀ i w, x.read.workers[i]? = some w → w.phase.outcome? = some .panicked →
      sentIn (x.actsOf i) = []) : x.lost = 0 := by
  apply List.sum_eq_zero
  intro n hn
  obtain ⟨w, hw, rfl⟩ := List.mem_map.mp hn
  obtain ⟨i, hi⟩ := List.getElem?_of_mem hw
  split
  · next hpanicked =>
      rw [(h.tallies i w hi).emitted_eq, hnone i w hi hpanicked]
      rfl
  · rfl

theorem sums (h : Reporting r x) (hascending : (r.plans.map Prod.fst).Pairwise (· < ·))
    {summary : Summary} (hsummary : x.read.summary? = some summary) :
    x.Sums r.plans summary := by
  obtain ⟨hemitted, hreports⟩ := h.exists_reports hascending hsummary
  have hplans := h.plans_eq hreports
  have htotal := h.total_eq hreports
  have hsum := h.sum_add_lost hreports
  have hascending' : summary.reports.Pairwise fun a b ↦ a.partition < b.partition := by
    rw [← hplans, List.map_map, List.pairwise_map] at hascending
    exact hascending
  refine ⟨hplans, hascending', ?_, fun i report hi ↦ h.count_eq hreports hi,
    hemitted.trans htotal, hsum.trans (hemitted.trans htotal).symm, fun hnone ↦ ⟨?_, ?_⟩⟩
  · apply map_eq_map_of_map_some hreports
    intro w _ report hreport
    rw [Worker.outcome_of_report hreport]
  · intro i report hi
    rw [h.count_eq hreports hi]
    split
    · next hpanicked =>
        obtain ⟨w, hw, hreport⟩ := exists_worker hreports hi
        rw [hnone i w hw (hpanicked ▸ Worker.outcome_of_report hreport)]
        rfl
    · rfl
  · rw [h.lost_eq_zero hnone, add_zero] at hsum
    rw [hsum, hemitted, htotal]

end Reporting

/-- However the workers of a read finish, every course of it can be summed up once they are over
and their reports collected.  The summary has one report for each requested partition, in ascending
order and with its plan, which tells how the worker ended and, unless it crashed, how many records
it sent; the total is the number of all records sent. -/
theorem summary_accounts_for_workers (client : Client σ κ) (alter : δ → σ → σ) {s : σ}
    {settings : ReaderSettings} {decoder : Decoder} {request : Request} {cancelled : Bool}
    {r : Read κ}
    (hstart : startRead client s settings decoder request cancelled = .ok (.running r))
    (moves : List (Move δ)) {x : Stage σ κ} (hx : (start s r).play client alter moves = x) :
    r.plans.map Prod.fst = request.partitions.toList ∧
      (x.read.isOver = true → (∀ i, (x.collect i).history = x.history) →
        x.read.summary?.isSome = true) ∧
      ∀ summary, x.read.summary? = some summary → x.Sums r.plans summary := by
  obtain ⟨ranges, hlaunched⟩ := exists_launched hstart
  have h : Reporting r x := hx ▸ reporting_play hlaunched moves
  have hpartitions := hlaunched.partitions_eq
  refine ⟨hpartitions, ?_, ?_⟩
  · intro hover hcollected
    have hdistinct := h.framed.plans_eq ▸ hlaunched.nodup_partitions
    have hfull := h.filed.length_eq hdistinct hover hcollected
    simp [Read.summary?, hfull]
  · intro summary hsummary
    exact h.sums (hpartitions ▸ request.partitions.ascending) hsummary

/-- One worker crashes after its first record; the other one comes to its end. -/
def crashingScript : Script where
  partitions := [
    (0, ⟨.ok 0, .ok 2, false, .opens, [.record ⟨none, some [97], 0, 0, some 0, []⟩, .crashed]⟩),
    (1, ⟨.ok 0, .ok 1, false, .opens, [.record ⟨none, some [99], 1, 0, some 0, []⟩]⟩)]

def crashingRead : Read ScriptCursor :=
  .make (sampleRequest .beginning 4) .lossy 256 false
    (planAll (sampleRequest .beginning 4) [(0, ⟨0, 2⟩), (1, ⟨0, 1⟩)])

def crashingMoves : List (Move Empty) := Move.oneByOne 6 7 0 ++ [.collect 1, .collect 0]

theorem summary_accounts_for_crash :
    startRead Script.client crashingScript {} .lossy (sampleRequest .beginning 4) false =
        .ok (.running crashingRead) ∧
      ((start crashingScript crashingRead).play Script.client Empty.elim crashingMoves).Sums
        crashingRead.plans
        ⟨2, [⟨0, ⟨0, some 1⟩, .panicked, 0⟩, ⟨1, ⟨0, some 0⟩, .completed, 1⟩]⟩ := by
  have hstart : startRead Script.client crashingScript {} .lossy (sampleRequest .beginning 4)
      false = .ok (.running crashingRead) := rfl
  obtain ⟨-, -, hsums⟩ := summary_accounts_for_workers Script.client Empty.elim hstart
    crashingMoves rfl
  exact ⟨hstart, hsums _ rfl⟩

/-- The record of the crashed worker is counted in the total and missing from its report. -/
theorem summary_forgets_records_of_crash :
    let x := (start crashingScript crashingRead).play Script.client Empty.elim crashingMoves
    startRead Script.client crashingScript {} .lossy (sampleRequest .beginning 4) false =
        .ok (.running crashingRead) ∧
      ∃ report other total, x.read.summary? = some ⟨total, [report, other]⟩ ∧
        (sentIn (x.actsOf 0)).length = 1 ∧ report.emitted = 0 ∧
        total ≠ report.emitted + other.emitted :=
  ⟨rfl, _, _, _, rfl, rfl, rfl, by decide⟩

end Stage
end TopicView
