import Mathlib.Algebra.Group.Action.Defs
import Mathlib.Algebra.GroupWithZero.Nat
import Mathlib.Algebra.Order.BigOperators.Group.List
import Mathlib.Algebra.Order.Group.Nat
import Mathlib.Data.List.Nodup
import TopicView.Proofs.Read.Advance
import TopicView.Proofs.Read.Channel

/-!
# How a read goes on

A read that nobody stops, of a log that does not change, comes to an end: every move takes off what
is ahead of it as much as it adds to the history.
-/

namespace TopicView

open Act

namespace Stage

variable {δ : Type} {alter : δ → Log → Log} {log : Log} {job : Job} {x y : Stage Log LogCursor}

def toDoOn (log : Log) (job : Job) (w : Worker LogCursor) : Nat :=
  match log.partition ⟨job.topic, w.partition⟩ with
  | .error _ => 0
  | .ok part => w.toDo part

def uncollected (x : Stage Log LogCursor) : Nat :=
  x.read.workers.countP fun w ↦ (x.read.reports.lookup w.partition).isNone

/-- How much a history can still grow. -/
def ahead (log : Log) (job : Job) (x : Stage Log LogCursor) : Nat :=
  (x.read.workers.map (toDoOn log job)).sum + x.read.shared.channel.queue.length + x.uncollected

/-- Fewer elements have a property that is stronger and fails where the weaker one holds. -/
theorem countP_lt_countP {α : Type} {p q : α → Bool} {l : List α} {a : α} (ha : a ∈ l)
    (himp : ∀ b ∈ l, p b = true → q b = true) (hp : p a = false) (hq : q a = true) :
    l.countP p < l.countP q := by
  obtain ⟨before, rest, rfl⟩ := List.append_of_mem ha
  have hbefore : before.countP p ≤ before.countP q :=
    List.countP_mono_left fun b hb ↦ himp b (by simp [hb])
  have hrest : rest.countP p ≤ rest.countP q :=
    List.countP_mono_left fun b hb ↦ himp b (by simp [hb])
  simp only [List.countP_append, List.countP_cons, hp, hq]
  simp only [if_true, Bool.false_eq_true, if_false]
  omega

theorem uncollected_lt {i : Nat} {w : Worker LogCursor} (report : Report) (s : Log)
    (sh : Shared) (hw : x.read.workers[i]? = some w)
    (hfresh : (x.read.reports.lookup w.partition).isSome = false) :
    (x.note s { x.read with
      shared := sh, reports := Keyed.insert w.partition report x.read.reports }
      (.collected i)).uncollected < x.uncollected := by
  refine countP_lt_countP (List.mem_of_getElem? hw) (fun v _ hv ↦ ?_) ?_ ?_
  · simp only [read_note, Keyed.lookup_insert] at hv
    split at hv
    · cases hv
    · exact hv
  · simp [Keyed.lookup_insert]
  · simpa using hfresh

theorem uncollected_after {i : Nat} {w w' : Worker LogCursor} {act : Option Act} {s : Log}
    {sh : Shared} (hw : x.read.workers[i]? = some w)
    (hpartition : w'.partition = w.partition) :
    (x.after i act s sh w').uncollected = x.uncollected := by
  have hcount := countP_set_add (b := w')
    (p := fun v : Worker LogCursor ↦ (x.read.reports.lookup v.partition).isNone) hw
  rw [hpartition] at hcount
  exact Nat.add_right_cancel hcount

theorem ahead_after {i : Nat} {w w' : Worker LogCursor} {act : Option Act} {s : Log} {sh : Shared}
    (hw : x.read.workers[i]? = some w) (hlistening : x.read.shared.channel.receiving = true)
    (hstep : w.Step Log.client x.read.job x.state x.read.shared act s sh w')
    (hless : act.toList.length + (act.bind record?).toList.length +
      (act.bind failure?).toList.length + toDoOn log job w' ≤ toDoOn log job w) :
    (x.after i act s sh w').history.length + ahead log job (x.after i act s sh w') +
      sh.errors.length ≤ x.history.length + ahead log job x + x.read.shared.errors.length := by
  have hsum := sum_map_set_add (f := toDoOn log job) (b := w') hw
  have hhistory : (x.after i act s sh w').history.length =
      x.history.length + act.toList.length := by
    cases act <;> simp [Stage.after]
  have hqueue : sh.channel.queue.length =
      x.read.shared.channel.queue.length + (act.bind record?).toList.length := by
    rw [hstep.queue_eq, if_pos hlistening, List.length_append]
  have herrors : sh.errors.length =
      x.read.shared.errors.length + (act.bind failure?).toList.length := by
    rw [hstep.errors_eq, if_pos hlistening, List.length_append]
  simp only [ahead, hhistory, uncollected_after hw hstep.partition_eq, herrors]
  simp only [Stage.after, hqueue]
  omega

/-- What an undisturbed read adds to its history is taken off what is ahead of it and queued. -/
theorem ahead_next {m : Move δ} (hm : x.Next Log.client alter m y) (hinner : m.IsInner)
    (hlistening : x.read.shared.channel.receiving = true)
    (hless : ∀ (i : Nat) w act s sh w', x.read.workers[i]? = some w →
      w.Step Log.client x.read.job x.state x.read.shared act s sh w' →
        act.toList.length + (act.bind record?).toList.length +
          (act.bind failure?).toList.length + toDoOn log job w' ≤ toDoOn log job w) :
    y.history.length + ahead log job y + y.read.shared.errors.length ≤
      x.history.length + ahead log job x + x.read.shared.errors.length := by
  cases hm
  case unchanged => exact Nat.le_refl _
  case worked hw hstep => exact ahead_after hw hlistening hstep (hless _ _ _ _ _ _ hw hstep)
  case collected i w report hw hreport hfresh =>
    have hlost := uncollected_lt report x.state
      (if report.outcome = .panicked then x.read.shared.cancel else x.read.shared) hw hfresh
    simp only [ahead, read_note, Worker.channel_ite_cancel, Worker.errors_ite_cancel,
      length_history_note] at hlost ⊢
    omega
  case took a rest hqueue =>
    simp only [ahead, uncollected, hqueue, read_note, length_history_note, List.length_cons]
    omega
  case heard f rest hqueue =>
    simp only [ahead, uncollected, hqueue, read_note, length_history_note, List.length_cons]
    omega
  case cancelled => exact hinner.elim
  case left => exact hinner.elim
  case altered change => exact hinner.elim

/-- A read of a log that does not change, which nobody stops and whose caller listens. -/
structure Calm (log : Log) (job : Job) (x : Stage Log LogCursor) : Prop where
  state_eq : x.state = log
  job_eq : x.read.job = job
  undisturbed : x.Undisturbed
  listening : x.read.shared.channel.receiving = true

theorem Calm.next (h : x.Calm log job) {m : Move δ} (hinner : m.IsInner)
    (hm : x.Next Log.client alter m y) : y.Calm log job := by
  obtain ⟨rfl, rfl, hcalm, hlistening⟩ := h
  cases hm
  case unchanged => exact ⟨rfl, rfl, hcalm, hlistening⟩
  case worked hw hstep =>
    exact ⟨hstep.log_eq, rfl, by simpa, hstep.receiving_eq.trans hlistening⟩
  case collected => exact ⟨rfl, rfl, by simpa, by simpa⟩
  case took => exact ⟨rfl, rfl, by simpa, hlistening⟩
  case heard => exact ⟨rfl, rfl, by simpa, hlistening⟩
  case cancelled => exact hinner.elim
  case left => exact hinner.elim
  case altered change => exact hinner.elim

/-! ## What has been sent -/

theorem sum_ite_eq_count (p : PartitionId) (ps : List PartitionId) :
    (ps.map fun q ↦ if p = q then 1 else 0).sum = ps.count p := by
  induction ps with
  | nil => rfl
  | cons q rest ih =>
      rw [List.map_cons, List.sum_cons, ih, List.count_cons, Nat.add_comm]
      by_cases hp : p = q
      · simp [hp]
      · simp [hp, Ne.symm hp]

theorem sum_map_le_length_mul {α : Type} {l : List α} {f : α → Nat} {n : Nat}
    (h : ∀ a ∈ l, f a ≤ n) : (l.map f).sum ≤ l.length * n := by
  have hsum := List.sum_le_card_nsmul (l.map f) n (List.forall_mem_map.mpr h)
  rwa [List.length_map, smul_eq_mul] at hsum

theorem length_eq_sum {records : List Record} {ps : List PartitionId} (hps : ps.Nodup)
    (h : ∀ a ∈ records, a.partition ∈ ps) : records.length =
      (ps.map fun p ↦ (records.filter (·.partition = p)).length).sum := by
  induction records with
  | nil => simp
  | cons a rest ih =>
      have hrest := ih fun b hb ↦ h b (List.mem_cons_of_mem a hb)
      have hone : (ps.map fun p ↦ if a.partition = p then 1 else 0).sum = 1 := by
        rw [sum_ite_eq_count]
        exact List.count_eq_one_of_mem hps (h a List.mem_cons_self)
      have hcons (p : PartitionId) : ((a :: rest).filter (·.partition = p)).length =
          (rest.filter (·.partition = p)).length + if a.partition = p then 1 else 0 := by
        by_cases hp : a.partition = p <;> simp [hp]
      simp only [hcons, List.sum_map_add, hone, List.length_cons, hrest]

theorem length_sent_eq {σ κ : Type} {x : Stage σ κ} {r : Read κ} (hf : x.Framed r)
    (hdistinct : (r.plans.map Prod.fst).Nodup)
    (hown : x.Each fun acts w ↦ ∀ a ∈ sentIn acts, a.partition = w.partition) :
    x.sent.length = (r.plans.map fun e ↦ (x.sentFrom e.1).length).sum := by
  rw [length_eq_sum hdistinct fun a ha ↦ mem_partitions_of_sent hf hown ha, List.map_map]
  rfl

/-! ## The end -/

/-- The caller is told that no more records will come. -/
def IsDrained {σ κ : Type} (x : Stage σ κ) : Prop := x.read.takeRecord.1 = .closed

theorem isDrained_iff {σ κ : Type} {x : Stage σ κ} :
    x.IsDrained ↔ x.read.shared.channel.queue = [] ∧ x.read.isOver = true := by
  unfold IsDrained Read.takeRecord
  cases x.read.shared.channel.queue with
  | nil => cases x.read.isOver <;> simp
  | cons a rest => simp

end Stage
end TopicView
