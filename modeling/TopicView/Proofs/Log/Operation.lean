import TopicView.Proofs.Log.Archive

/-!
# Operations on a log

A log is used by one operation after the other: topics are created, partitions are written to,
looked up and truncated, and cursors are opened and pulled from.  `Edit` lists what an operation can
make of a partition.  What holds of every partition of a log in use is proved from that list.
-/

namespace TopicView

namespace Log

inductive Operation
  | createTopic (topic : String) (count : PartitionId)
  | append (target : TopicPartition) (entry : Entry)
  | startAt (target : TopicPartition) (offset : Offset)
  | truncateBefore (target : TopicPartition) (offset : Offset)
  | offsets (target : TopicPartition)
  | openCursor (target : TopicPartition) (start : Offset) (follow : Bool)
  | pull (cursor : Nat)
  | close (cursor : Nat)
  | failLookups (target : TopicPartition)
  | failOpenings (target : TopicPartition)
  | failStreamAfter (target : TopicPartition) (records : Nat)

inductive Reply
  | done
  | appended (offset : Offset)
  | range (offsets : Offsets)
  | pulled (answer : Pull)
  | refused (fault : LogFault)
  | crashed
  deriving DecidableEq, Repr

namespace Reply

def isError : Reply → Bool
  | refused _ | pulled (.failed _) => true
  | _ => false

def ofResult {α : Type} (f : α → Reply) : Result LogFault α → Reply
  | .ok a => f a
  | .error fault => refused fault
  | .crash => crashed

end Reply

/-- An operation names a partition as the one to be written to. -/
def Operation.Names (t : TopicPartition) : Operation → Prop
  | createTopic topic _ => topic = t.topic
  | append target _ | startAt target _ | truncateBefore target _ => target = t
  | _ => False

def Operation.writes : Operation → Bool
  | createTopic _ _ | append _ _ | startAt _ _ | truncateBefore _ _ => true
  | _ => false

/-- A log and all the cursors that have been opened on it. -/
structure InUse where
  log : Log := {}
  cursors : List LogCursor := []
  deriving DecidableEq, Repr

namespace InUse

def perform (x : InUse) : Operation → Reply × InUse
  | .createTopic topic count =>
    match x.log.createTopic topic count with
    | .ok log => (.done, { x with log })
    | .error fault => (.refused fault, x)
  | .append target entry =>
    let (answer, log) := x.log.append target entry
    (.ofResult .appended answer, { x with log })
  | .startAt target offset =>
    match x.log.startAt target offset with
    | .ok log => (.done, { x with log })
    | .error fault => (.refused fault, x)
  | .truncateBefore target offset =>
    match x.log.truncateBefore target offset with
    | .ok log => (.done, { x with log })
    | .error fault => (.refused fault, x)
    | .crash => (.crashed, x)
  | .offsets target => (.ofResult .range (x.log.offsets target), x)
  | .openCursor target start follow =>
    match x.log.openCursor target start follow with
    | .ok c => (.done, { x with cursors := x.cursors ++ [c] })
    | .error fault => (.refused fault, x)
  | .pull i =>
    match x.cursors[i]? with
    | some c =>
      let (answer, c) := c.pull x.log
      (.pulled answer, { x with cursors := x.cursors.set i c })
    | none => (.done, x)
  | .close i => (.done, { x with cursors := x.cursors.modify i LogCursor.close })
  | .failLookups target => (.done, { x with log := x.log.failLookups target })
  | .failOpenings target => (.done, { x with log := x.log.failOpenings target })
  | .failStreamAfter target records =>
    (.done, { x with log := x.log.failStreamAfter target records })

def after (x : InUse) (op : Operation) : InUse := (x.perform op).2

def play (x : InUse) (ops : List Operation) : InUse := ops.foldl after x

variable {x : InUse} {op : Operation} {t : TopicPartition} {p q : PartitionLog}

/-! ## What an operation does -/

/-- The offset that an operation has given to a new record of a partition. -/
def gives? (x : InUse) (t : TopicPartition) (op : Operation) : Option Offset :=
  match op, (x.perform op).1 with
  | .append target _, .appended offset => if target = t then some offset else none
  | _, _ => none

theorem gives?_of_not_names (ht : ¬ op.Names t) : x.gives? t op = none := by
  cases op with
  | append target entry =>
      unfold gives?
      split
      · next heq _ =>
          obtain ⟨rfl, -⟩ := Operation.append.inj heq
          exact if_neg ht
      · rfl
  | _ => rfl

/-- What an operation makes of a partition that is there, and the record it adds to it. -/
inductive Edit (t : TopicPartition) (p : PartitionLog) :
    Operation → Option RawRecord → PartitionLog → Prop
  | same (op : Operation) : Edit t p op none p
  | changed (op : Operation) {added : Option RawRecord} {q : PartitionLog}
      (effect : Change.Effect t.partition p added q) : Edit t p op added q
  | moved {offset : Offset} (empty : p.records = []) (nonneg : 0 ≤ offset.toInt) :
      Edit t p (.startAt t offset) none (p.startAt offset)

theorem partition_congr {log log' : Log} (h : log'.topics = log.topics) (t : TopicPartition) :
    log'.partition t = log.partition t := by
  unfold partition
  rw [h]

theorem topics_after_of_reads (h : op.writes = false) : (x.after op).log.topics = x.log.topics := by
  cases op with
  | pull i =>
      simp only [after, perform]
      split <;> rfl
  | offsets target => rfl
  | openCursor target start follow =>
      simp only [after, perform]
      split <;> rfl
  | close i => rfl
  | failLookups target => rfl
  | failOpenings target => rfl
  | failStreamAfter target records => rfl
  | _ => cases h

/-- A topic is created once, and with empty partitions. -/
theorem partition_createTopic {log log' : Log} {topic : String} {count : PartitionId}
    (done : log.createTopic topic count = .ok log') (t : TopicPartition) :
    topic ≠ t.topic ∧ log'.partition t = log.partition t ∨
      topic = t.topic ∧ (∀ p, log.partition t ≠ .ok p) ∧
        ∀ p, log'.partition t = .ok p → p = .empty := by
  unfold createTopic at done
  split at done
  · cases done
  · split at done
    · cases done
    · next hnew =>
        obtain rfl := Except.ok.inj done
        by_cases htopic : topic = t.topic
        · refine Or.inr ⟨htopic, fun p hp ↦ ?_, fun p hp ↦ ?_⟩
          · obtain ⟨ps, hps, -, -⟩ := partition_eq_ok_iff.mp hp
            rw [htopic, hps] at hnew
            exact hnew rfl
          · obtain ⟨ps, hps, -, hp⟩ := partition_eq_ok_iff.mp hp
            rw [Keyed.lookup_insert, if_pos htopic.symm] at hps
            rw [← Option.some.inj hps] at hp
            exact List.eq_of_mem_replicate (List.mem_of_getElem? hp)
        · refine Or.inl ⟨htopic, ?_⟩
          unfold partition
          rw [Keyed.lookup_insert, if_neg (Ne.symm htopic)]

/-- An operation leaves the topics as they are, or creates one, or edits the partition that it
names. -/
theorem after_cases (x : InUse) (op : Operation) :
    ((x.after op).log.topics = x.log.topics ∧ ∀ t, x.gives? t op = none) ∨
    (∃ topic count, op = .createTopic topic count ∧ (x.perform op).1 = .done ∧
      x.log.createTopic topic count = .ok (x.after op).log) ∨
    ∃ target p added q, (∀ t, op.Names t ↔ target = t) ∧ (x.perform op).1.isError = false ∧
      x.log.partition target = .ok p ∧ Edit target p op added q ∧
      (x.after op).log = x.log.setPartition target q ∧
      (q.firstAvailable?.isSome →
        ∀ t, x.gives? t op = if target = t then added.map RawRecord.offset else none) := by
  cases op with
  | createTopic topic count =>
      cases hdone : x.log.createTopic topic count with
      | error fault => exact Or.inl ⟨by simp [after, perform, hdone], fun _ ↦ rfl⟩
      | ok log =>
          have hperform : x.perform (.createTopic topic count) = (.done, { x with log }) := by
            simp only [perform, hdone]
          have hafter : x.after (.createTopic topic count) = { x with log } := by
            rw [after, hperform]
          exact Or.inr (Or.inl ⟨topic, count, rfl, by rw [hperform], by rw [hafter, hdone]⟩)
  | append target entry =>
      cases hp : x.log.partition target with
      | error fault =>
          exact Or.inl (by simp [after, gives?, perform, Log.append, hp, Reply.ofResult])
      | ok p =>
          cases hnext : p.firstAvailable? with
          | none =>
              exact Or.inl (by simp [after, gives?, perform, Log.append, hp, hnext, Reply.ofResult])
          | some offset =>
              refine Or.inr (Or.inr ⟨target, p, some ⟨entry.key, entry.value, target.partition,
                offset, some entry.timestamp, entry.headers⟩, _, fun _ ↦ Iff.rfl, ?_, hp,
                .changed _ (.added hnext rfl), ?_, fun hroom t ↦ ?_⟩)
              · simp only [perform, Log.append, hp, hnext]
                split <;> rfl
              · simp [after, perform, Log.append, hp, hnext]
              · simp [gives?, perform, Log.append, hp, hnext, hroom, Reply.ofResult]
  | startAt target offset =>
      cases hdone : x.log.startAt target offset with
      | error fault => exact Or.inl ⟨by simp [after, perform, hdone], fun _ ↦ rfl⟩
      | ok log =>
          obtain ⟨p, hp, hempty, hnonneg, rfl⟩ := startAt_ok hdone
          refine Or.inr (Or.inr ⟨target, p, none, _, fun _ ↦ Iff.rfl, ?_, hp,
            .moved hempty hnonneg, ?_, fun _ t ↦ (ite_self none).symm⟩)
          · simp [perform, hdone, Reply.isError]
          · simp [after, perform, hdone]
  | truncateBefore target offset =>
      cases hdone : x.log.truncateBefore target offset with
      | error fault => exact Or.inl ⟨by simp [after, perform, hdone], fun _ ↦ rfl⟩
      | crash => exact Or.inl ⟨by simp [after, perform, hdone], fun _ ↦ rfl⟩
      | ok log =>
          obtain ⟨p, q, hp, hq, rfl⟩ := truncateBefore_eq_ok_iff.mp hdone
          refine Or.inr (Or.inr ⟨target, p, none, q, fun _ ↦ Iff.rfl, ?_, hp,
            .changed _ (.truncated hq), ?_, fun _ t ↦ (ite_self none).symm⟩)
          · simp [perform, hdone, Reply.isError]
          · simp [after, perform, hdone]
  | _ => exact Or.inl ⟨topics_after_of_reads rfl, fun _ ↦ rfl⟩

theorem edit_after (hp : x.log.partition t = .ok p) (op : Operation) :
    ∃ added q, (x.after op).log.partition t = .ok q ∧ Edit t p op added q ∧
      (q.firstAvailable?.isSome → x.gives? t op = added.map RawRecord.offset) := by
  rcases after_cases x op with ⟨hsame, hnone⟩ | ⟨topic, count, rfl, -, hcreated⟩ |
    ⟨target, p', added, q, hnames, -, hp', hedit, hafter, hgives⟩
  · exact ⟨none, p, (partition_congr hsame t).trans hp, .same op, fun _ ↦ hnone t⟩
  · rcases partition_createTopic hcreated t with ⟨-, heq⟩ | ⟨-, hnone, -⟩
    · exact ⟨none, p, heq.trans hp, .same _, fun _ ↦ rfl⟩
    · exact (hnone p hp).elim
  · by_cases ht : target = t
    · subst ht
      obtain rfl : p' = p := Except.ok.inj (hp'.symm.trans hp)
      refine ⟨added, q, ?_, hedit, fun hroom ↦ ?_⟩
      · rw [hafter, partition_setPartition hp', if_pos rfl]
      · rw [hgives hroom, if_pos rfl]
    · refine ⟨none, p, ?_, .same op, fun _ ↦ ?_⟩
      · rw [hafter, partition_setPartition hp', if_neg (Ne.symm ht), hp]
      · exact gives?_of_not_names fun hnames' ↦ ht ((hnames t).mp hnames')

/-- A partition that was not there before is new and empty. -/
theorem eq_empty_of_created (hnone : ∀ p, x.log.partition t ≠ .ok p)
    (hq : (x.after op).log.partition t = .ok q) : q = .empty := by
  rcases after_cases x op with ⟨hsame, -⟩ | ⟨topic, count, rfl, -, hcreated⟩ |
    ⟨target, p, added, q', hnames, -, hp, -, hafter, -⟩
  · exact (hnone q ((partition_congr hsame t).symm.trans hq)).elim
  · rcases partition_createTopic hcreated t with ⟨-, heq⟩ | ⟨-, -, hempty⟩
    · exact (hnone q (heq.symm.trans hq)).elim
    · exact hempty q hq
  · have ht : t ≠ target := fun heq ↦ hnone p (heq ▸ hp)
    rw [hafter, partition_setPartition hp, if_neg ht] at hq
    exact (hnone q hq).elim

/-! ## What every operation keeps -/

theorem Edit.fits {added : Option RawRecord} (h : Edit t p op added q)
    (hnonneg : 0 ≤ p.oldest.toInt) (hfits : q.Fits) : p.Fits := by
  cases h with
  | same => exact hfits
  | changed _ effect => exact (PartitionLog.effect_cases effect hnonneg).1
  | moved empty _ => exact PartitionLog.fits_of_records_eq_nil empty

theorem Edit.sound {added : Option RawRecord} (h : Edit t p op added q)
    (hp : p.Sound t.partition) : q.Sound t.partition := by
  cases h with
  | same => exact hp
  | moved empty nonneg => exact hp.startAt empty nonneg
  | changed _ effect => exact hp.effect effect

theorem sound_after (h : x.log.Sound) (op : Operation) : (x.after op).log.Sound := by
  intro t q hq
  cases hp : x.log.partition t with
  | error fault =>
      have hnone : ∀ p, x.log.partition t ≠ .ok p := fun p ↦ by rw [hp]; nofun
      rw [eq_empty_of_created hnone hq]
      exact PartitionLog.sound_empty t.partition
  | ok p =>
      obtain ⟨added, q', hq', hedit, -⟩ := edit_after hp op
      obtain rfl : q = q' := Except.ok.inj (hq.symm.trans hq')
      exact hedit.sound (h t p hp)

theorem sound_play (h : x.log.Sound) (ops : List Operation) : (x.play ops).log.Sound := by
  induction ops generalizing x with
  | nil => exact h
  | cons op ops ih => exact ih (sound_after h op)

end InUse
end Log

namespace PartitionLog

variable {index : PartitionId} {p : PartitionLog}

/-- A partition as its readers find it. -/
structure Represents (index : PartitionId) (p : PartitionLog) : Prop where
  end_found : p.firstAvailable? = some p.firstAvailable
  oldest_nonneg : 0 ≤ p.oldest
  record_eq : ∀ (i : Nat) raw, p.records[i]? = some raw →
    raw.offset.toInt = p.oldest.toInt + i ∧ raw.partition = index
  firstAvailable_eq : p.firstAvailable.toInt = p.oldest.toInt + p.records.length
  watermark_eq : p.watermark = p.firstAvailable
  get?_eq_some : ∀ offset raw, p.get? offset = some raw ↔ raw ∈ p.records ∧ raw.offset = offset
  isSome_get? : ∀ offset, (p.get? offset).isSome ↔ p.oldest ≤ offset ∧ offset < p.firstAvailable

theorem Sound.represents (h : p.Sound index) (hfits : p.Fits) : p.Represents index := by
  refine ⟨firstAvailable?_eq h.oldest_nonneg hfits, ?_, ?_, firstAvailable_of_fits h hfits,
    h.watermark_eq hfits, ?_, ?_⟩
  · rw [Int64.le_iff_toInt_le, Int64.toInt_zero]
    exact h.oldest_nonneg
  · intro i raw hraw
    exact ⟨offset_of_getElem? h hraw, h.partition_eq raw (List.mem_of_getElem? hraw)⟩
  · intro offset raw
    by_cases hle : p.oldest ≤ offset
    · exact get?_eq_some_iff h hle
    · rw [get?_of_lt (Std.not_le.mp hle)]
      constructor
      · nofun
      · rintro ⟨hmem, rfl⟩
        exact (hle (mem_bounds h hmem).1).elim
  · intro offset
    by_cases hle : p.oldest ≤ offset
    · have hend := firstAvailable_of_fits h hfits
      rw [← Option.ne_none_iff_isSome, ne_eq, get?_eq_none_iff hle, Int64.lt_iff_toInt_lt, hend,
        Int.not_le]
      exact (and_iff_right hle).symm
    · rw [get?_of_lt (Std.not_le.mp hle)]
      constructor
      · nofun
      · intro hrange
        exact (hle hrange.1).elim

/-- What truncation leaves of a partition. -/
structure Truncates (offset : Offset) (p q : PartitionLog) : Prop where
  firstAvailable_eq : q.firstAvailable = p.firstAvailable
  oldest_le : p.oldest ≤ q.oldest
  records_eq : q.records = p.recordsFrom offset
  get?_eq : ∀ o, q.oldest ≤ o → q.get? o = p.get? o

theorem Sound.truncates (h : p.Sound index) (hfits : p.Fits) (offset : Offset) :
    p.Truncates offset (p.truncateBefore offset) := by
  have hend := firstAvailable_of_fits h hfits
  have hdrop := recordsFrom_eq_drop h offset
  have hbound := offset.toInt_lt
  obtain ⟨target, htarget⟩ : ∃ target, min offset p.firstAvailable = target := ⟨_, rfl⟩
  have htarget' : target.toInt = min offset.toInt p.firstAvailable.toInt := by
    rw [← htarget, Offset.toInt_min]
  by_cases hlt : p.oldest < target
  · have hlt' := Int64.lt_iff_toInt_lt.mp hlt
    have hq := truncateBefore_of_lt htarget hlt
    have hsound := h.truncateBefore hfits offset
    rw [hq] at hsound ⊢
    unfold Fits at hfits
    refine ⟨?_, Std.le_of_lt hlt, ?_, fun o ho ↦ ?_⟩
    · rw [← Int64.toInt_inj, firstAvailable_of_fits hsound, hend]
      · simp only [List.length_drop]
        omega
      · simp only [Fits, List.length_drop]
        omega
    · rw [hdrop]
      rcases Int.le_total offset.toInt p.firstAvailable.toInt with hwithin | hbeyond
      · rw [htarget', Int.min_eq_left hwithin]
      · rw [List.drop_eq_nil_of_le (by omega), List.drop_eq_nil_of_le (by omega)]
    · have hold : p.oldest ≤ o := Std.le_trans (Std.le_of_lt hlt) ho
      have ho' := Int64.le_iff_toInt_le.mp ho
      rw [get?_of_le ho, get?_of_le hold]
      dsimp only at ho' ⊢
      rw [List.getElem?_drop]
      congr 1
      omega
  · have hsame := truncateBefore_of_not_lt (htarget ▸ hlt)
    have hge := Int64.le_iff_toInt_le.mp (Std.not_lt.mp hlt)
    rw [hsame]
    refine ⟨rfl, Std.le_refl _, ?_, fun _ _ ↦ rfl⟩
    rw [hdrop]
    rcases Int.le_total offset.toInt p.oldest.toInt with hbelow | habove
    · rw [show (offset.toInt - p.oldest.toInt).toNat = 0 by omega, List.drop_zero]
    · rcases Int.le_total offset.toInt p.firstAvailable.toInt with hwithin | hbeyond
      · rw [show (offset.toInt - p.oldest.toInt).toNat = 0 by omega, List.drop_zero]
      · rw [show p.records = [] from List.eq_nil_of_length_eq_zero (by omega), List.drop_nil]

end PartitionLog

namespace Log
namespace InUse

end InUse
end Log
end TopicView
