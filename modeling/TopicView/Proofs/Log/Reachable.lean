import TopicView.Log.Basic
import TopicView.Proofs.Keyed
import TopicView.Proofs.Log.Partition
import TopicView.Proofs.Result

/-!
# Reachable logs

A log is reachable when it has come about by the operations on logs.  Every partition of such a
log is sound.
-/

namespace TopicView

namespace Log

variable {log log' : Log} {target : TopicPartition} {p q : PartitionLog}

/-! ## One partition at a time -/

theorem partition_eq_ok_iff : log.partition target = .ok p ↔
    ∃ ps, log.topics.lookup target.topic = some ps ∧ ¬ target.partition < 0 ∧
      ps[target.partition.toInt.toNat]? = some p := by
  unfold partition
  cases log.topics.lookup target.topic with
  | none => simp
  | some ps =>
      by_cases hneg : target.partition < 0
      · simp [hneg]
      · cases hp : ps[target.partition.toInt.toNat]? with
        | none => simp only [hneg, if_false, hp, reduceCtorEq, Option.some.injEq, exists_eq_left',
            and_false]
        | some a => simp only [hneg, if_false, hp, Except.ok.injEq, Option.some.injEq,
            exists_eq_left', not_false_iff, true_and]

theorem lookup_setPartition (topic : String) :
    (log.setPartition target q).topics.lookup topic = (log.topics.lookup topic).map fun ps ↦
      if topic = target.topic then ps.set target.partition.toInt.toNat q else ps := by
  unfold setPartition
  induction log.topics with
  | nil => rfl
  | cons head rest ih =>
      obtain ⟨name, ps⟩ := head
      by_cases hname : topic = name
      · by_cases htarget : name = target.topic <;> simp [hname, htarget]
      · rw [List.map_cons, Keyed.lookup_cons topic name ps rest, if_neg hname, ← ih]
        by_cases htarget : name = target.topic
        · dsimp only
          rw [if_pos htarget, Keyed.lookup_cons, if_neg hname]
        · dsimp only
          rw [if_neg htarget, Keyed.lookup_cons, if_neg hname]

theorem partition_setPartition (h : log.partition target = .ok p) (t : TopicPartition) :
    (log.setPartition target q).partition t = if t = target then .ok q else log.partition t := by
  obtain ⟨ps, hps, hpos, hp⟩ := partition_eq_ok_iff.mp h
  by_cases htopic : t.topic = target.topic
  · by_cases hindex : t.partition = target.partition
    · obtain rfl : t = target := by
        cases t; cases target; simp_all
      rw [if_pos rfl, partition_eq_ok_iff]
      refine ⟨_, by rw [lookup_setPartition, hps, Option.map_some, if_pos rfl], hpos, ?_⟩
      exact List.getElem?_set_self (List.getElem?_eq_some_iff.mp hp).1
    · have hne : t ≠ target := fun heq ↦ hindex (heq ▸ rfl)
      rw [if_neg hne]
      unfold partition
      rw [lookup_setPartition, htopic, hps, Option.map_some, if_pos rfl]
      by_cases hneg : t.partition < 0
      · simp only [hneg, if_true]
      · have hslot : target.partition.toInt.toNat ≠ t.partition.toInt.toNat := by
          intro heq
          rw [Int32.lt_iff_toInt_lt, Int32.toInt_zero] at hneg hpos
          exact hindex (Int32.toInt_inj.mp (by omega))
        simp only [hneg, if_false, List.getElem?_set_ne hslot]
  · have hne : t ≠ target := fun heq ↦ htopic (heq ▸ rfl)
    rw [if_neg hne]
    unfold partition
    rw [lookup_setPartition]
    cases log.topics.lookup t.topic <;> simp [htopic]

theorem offsets_eq_ok_iff {r : Offsets} : log.offsets target = .ok r ↔
    target ∉ log.faults.lookups ∧ ∃ p, log.partition target = .ok p ∧ r.oldest = p.oldest ∧
      p.firstAvailable? = some r.firstAvailable := by
  obtain ⟨oldest, firstAvailable⟩ := r
  unfold offsets
  split
  · simp [*]
  · cases hp : log.partition target with
    | error fault => simp
    | ok p =>
        cases hnext : p.firstAvailable? with
        | none => simp [*]
        | some next => simp [*, eq_comm]

theorem offsets_of_partition (hfault : target ∉ log.faults.lookups)
    (hp : log.partition target = .ok p) (hnonneg : 0 ≤ p.oldest.toInt) (hfits : p.Fits) :
    log.offsets target = .ok ⟨p.oldest, p.firstAvailable⟩ :=
  offsets_eq_ok_iff.mpr
    ⟨hfault, p, hp, rfl, PartitionLog.firstAvailable?_eq hnonneg hfits⟩

/-! ## Reachability -/

/-- The logs that operations lead to, also through an append that crashes. -/
inductive Reachable : Log → Prop
  | empty : Reachable {}
  | createTopic {log log' : Log} {topic : String} {count : PartitionId} (h : Reachable log)
      (done : log.createTopic topic count = .ok log') : Reachable log'
  | append {log : Log} (h : Reachable log) (target : TopicPartition) (entry : Entry) :
      Reachable (log.append target entry).2
  | startAt {log log' : Log} {target : TopicPartition} {offset : Offset} (h : Reachable log)
      (done : log.startAt target offset = .ok log') : Reachable log'
  | truncateBefore {log log' : Log} {target : TopicPartition} {offset : Offset} (h : Reachable log)
      (done : log.truncateBefore target offset = .ok log') : Reachable log'
  | failLookups {log : Log} (h : Reachable log) (target : TopicPartition) :
      Reachable (log.failLookups target)
  | failOpenings {log : Log} (h : Reachable log) (target : TopicPartition) :
      Reachable (log.failOpenings target)
  | failStreamAfter {log : Log} (h : Reachable log) (target : TopicPartition) (records : Nat) :
      Reachable (log.failStreamAfter target records)

/-- Every partition is sound and knows its own index. -/
def Sound (log : Log) : Prop :=
  ∀ target p, log.partition target = .ok p → p.Sound target.partition

theorem Sound.setPartition (h : log.Sound) (hp : log.partition target = .ok p)
    (hq : q.Sound target.partition) : (log.setPartition target q).Sound := by
  intro t a ha
  rw [partition_setPartition hp] at ha
  split at ha
  · next heq =>
      obtain rfl : q = a := by simpa using ha
      exact heq ▸ hq
  · exact h t a ha

theorem Sound.createTopic (h : log.Sound) {topic : String} {count : PartitionId}
    (done : log.createTopic topic count = .ok log') : log'.Sound := by
  unfold Log.createTopic at done
  split at done
  · cases done
  · split at done
    · cases done
    · cases done
      intro t p ht
      obtain ⟨ps, hps, hpos, hp⟩ := partition_eq_ok_iff.mp ht
      rw [Keyed.lookup_insert] at hps
      split at hps
      · obtain rfl : p = .empty := by
          rw [← Option.some.inj hps] at hp
          exact List.eq_of_mem_replicate (List.mem_of_getElem? hp)
        exact PartitionLog.sound_empty t.partition
      · exact h t p (partition_eq_ok_iff.mpr ⟨ps, hps, hpos, hp⟩)

/-- The record that an entry becomes at the end of a partition. -/
def Entry.recordOf (entry : Entry) (target : TopicPartition) (p : PartitionLog) : RawRecord :=
  ⟨entry.key, entry.value, target.partition, p.firstAvailable, some entry.timestamp, entry.headers⟩

/-- An append leaves the log as it is, or puts a record at the end of a partition that fits; it
returns unless that record has taken the last offset. -/
theorem append_cases (h : log.Sound) (target : TopicPartition) (entry : Entry) :
    (∃ fault, log.partition target = .error fault ∧
      log.append target entry = (.error fault, log)) ∨
    (∃ p, log.partition target = .ok p ∧ ¬ p.Fits ∧ log.append target entry = (.crash, log)) ∨
    ∃ p, log.partition target = .ok p ∧ p.Fits ∧ log.append target entry =
      (if (p.append (entry.recordOf target p)).Fits then .ok p.firstAvailable else .crash,
        log.setPartition target (p.append (entry.recordOf target p))) := by
  unfold append
  cases hp : log.partition target with
  | error fault => exact Or.inl ⟨fault, rfl, rfl⟩
  | ok p =>
      have hnonneg := (h target p hp).oldest_nonneg
      by_cases hfits : p.Fits
      · refine Or.inr (Or.inr ⟨p, rfl, hfits, ?_⟩)
        have hroom := PartitionLog.isSome_firstAvailable?_iff
          (p := p.append (entry.recordOf target p)) hnonneg
        simp only [PartitionLog.firstAvailable?_eq hnonneg hfits, ← hroom]
        rfl
      · refine Or.inr (Or.inl ⟨p, rfl, hfits, ?_⟩)
        simp only [PartitionLog.firstAvailable?_eq_none hfits]

theorem startAt_ok {offset : Offset} (done : log.startAt target offset = .ok log') :
    ∃ p, log.partition target = .ok p ∧ p.records = [] ∧ 0 ≤ offset.toInt ∧
      log' = log.setPartition target (p.startAt offset) := by
  by_cases hneg : offset < 0
  · simp [startAt, hneg, bind, Except.bind, throw, throwThe, MonadExceptOf.throw] at done
  · cases hp : log.partition target with
    | error fault => simp [startAt, hneg, hp, bind, Except.bind] at done
    | ok p =>
        cases hrecords : p.records with
        | cons raw rest =>
            simp [startAt, hneg, hp, hrecords, bind, Except.bind, throw, throwThe,
              MonadExceptOf.throw] at done
        | nil =>
            simp only [startAt, hneg, hp, hrecords, bind, Except.bind, pure, Except.pure, if_false,
              List.isEmpty_nil, if_true, Except.ok.injEq] at done
            rw [Int64.lt_iff_toInt_lt, Int64.toInt_zero] at hneg
            exact ⟨p, rfl, hrecords, by omega, done.symm⟩

theorem truncateBefore_eq_ok_iff {offset : Offset} :
    log.truncateBefore target offset = .ok log' ↔ ∃ p q, log.partition target = .ok p ∧
      p.truncateBefore? offset = some q ∧ log' = log.setPartition target q := by
  unfold truncateBefore
  cases hp : log.partition target with
  | error fault => simp
  | ok p => cases hq : p.truncateBefore? offset <;> simp [hq, eq_comm]

theorem truncateBefore_ok (h : log.Sound) {offset : Offset}
    (done : log.truncateBefore target offset = .ok log') :
    ∃ p, log.partition target = .ok p ∧ p.Fits ∧
      log' = log.setPartition target (p.truncateBefore offset) := by
  obtain ⟨p, q, hp, hq, rfl⟩ := truncateBefore_eq_ok_iff.mp done
  by_cases hfits : p.Fits
  · rw [PartitionLog.truncateBefore?_eq (h target p hp).oldest_nonneg hfits] at hq
    exact ⟨p, hp, hfits, by rw [Option.some.inj hq]⟩
  · rw [PartitionLog.truncateBefore?_eq_none hfits] at hq
    cases hq

theorem Sound.append (h : log.Sound) (target : TopicPartition) (entry : Entry) :
    (log.append target entry).2.Sound := by
  rcases append_cases h target entry with ⟨fault, -, heq⟩ | ⟨p, -, -, heq⟩ | ⟨p, hp, hfits, heq⟩
  · rwa [heq]
  · rwa [heq]
  · rw [heq]
    exact h.setPartition hp ((h _ p hp).append hfits rfl rfl)

theorem Reachable.sound (h : log.Reachable) : log.Sound := by
  induction h with
  | empty => exact fun t p hp ↦ (nomatch hp)
  | createTopic _ done ih => exact ih.createTopic done
  | append _ target entry ih => exact ih.append target entry
  | startAt _ done ih =>
      obtain ⟨p, hp, hempty, hoffset, rfl⟩ := startAt_ok done
      exact ih.setPartition hp ((ih _ p hp).startAt hempty hoffset)
  | truncateBefore _ done ih =>
      obtain ⟨p, hp, hfits, rfl⟩ := truncateBefore_ok ih done
      exact ih.setPartition hp ((ih _ p hp).truncateBefore hfits _)
  | failLookups _ target ih => exact ih
  | failOpenings _ target ih => exact ih
  | failStreamAfter _ target records ih => exact ih

/-- Two partitions of one topic; the first has two records and the second one. -/
def sample : Log where
  topics := [("t", [
    ⟨0, [⟨none, some [97], 0, 0, some 0, []⟩, ⟨none, some [98], 0, 1, some 0, []⟩], 2⟩,
    ⟨0, [⟨none, some [99], 1, 0, some 0, []⟩], 1⟩])]

theorem reachable_sample : sample.Reachable := by
  have hcreated := Reachable.createTopic .empty (show createTopic {} "t" 2 = .ok _ from rfl)
  exact ((hcreated.append ⟨"t", 0⟩ ⟨none, some [97], [], 0⟩).append
    ⟨"t", 0⟩ ⟨none, some [98], [], 0⟩).append ⟨"t", 1⟩ ⟨none, some [99], [], 0⟩

end Log
end TopicView
