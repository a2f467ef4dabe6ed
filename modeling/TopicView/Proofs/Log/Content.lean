import TopicView.Proofs.Log.Load
import TopicView.Proofs.Log.Yield

/-!
# What a loaded log holds

Each step of loading puts the partitions of one topic and leaves all other topics as they are.  So a
snapshot can be loaded exactly where each of its topics can and no partition runs out of offsets,
and the loaded log holds the listed partitions, with the listed records at consecutive offsets, and
nothing else.
-/

namespace TopicView

namespace Log

variable {log log' log'' : Log} {topic : String} {ps qs : List PartitionLog} {p q : PartitionLog}
  {i n : Nat}

/-- A topic has got other partitions, and everything else is as it was. -/
structure Puts (log : Log) (topic : String) (ps : List PartitionLog) (log' : Log) : Prop where
  faults_eq : log'.faults = log.faults
  lookup_eq : ∀ name, log'.topics.lookup name =
    if name = topic then some ps else log.topics.lookup name

theorem puts_self (h : log.topics.lookup topic = some ps) : log.Puts topic ps log := by
  refine ⟨rfl, fun name ↦ ?_⟩
  split
  · next heq => rw [heq, h]
  · rfl

theorem Puts.lookup_self (h : log.Puts topic ps log') : log'.topics.lookup topic = some ps := by
  rw [h.lookup_eq, if_pos rfl]

theorem Puts.trans (h : log.Puts topic ps log') (h' : log'.Puts topic qs log'') :
    log.Puts topic qs log'' := by
  refine ⟨h'.faults_eq.trans h.faults_eq, fun name ↦ ?_⟩
  rw [h'.lookup_eq, h.lookup_eq]
  split <;> rfl

theorem toNat_slot (hi : i < 2 ^ 31) : (Int32.ofNat i).toInt.toNat = i := by
  rw [Int32.toInt_ofNat_of_lt hi, Int.toNat_natCast]

theorem partition_of_slot (hps : log.topics.lookup topic = some ps) (hi : i < 2 ^ 31)
    (hp : ps[i]? = some p) : log.partition ⟨topic, Int32.ofNat i⟩ = .ok p := by
  rw [partition_eq_ok_iff]
  refine ⟨ps, hps, ?_, by rwa [toNat_slot hi]⟩
  rw [Int32.lt_iff_toInt_lt, Int32.toInt_ofNat_of_lt hi, Int32.toInt_zero]
  omega

theorem puts_setPartition (hps : log.topics.lookup topic = some ps) (hi : i < 2 ^ 31)
    (q : PartitionLog) :
    log.Puts topic (ps.set i q) (log.setPartition ⟨topic, Int32.ofNat i⟩ q) := by
  refine ⟨rfl, fun name ↦ ?_⟩
  rw [lookup_setPartition, toNat_slot hi]
  split
  · next heq => rw [heq, hps, Option.map_some]
  · exact Option.map_id'

theorem createTopic_ok_iff (hn : n < 2 ^ 31) :
    (∃ log', log.createTopic topic (Int32.ofNat n) = .ok log') ↔
      0 < n ∧ log.topics.lookup topic = none := by
  have hpos : Int32.ofNat n ≤ 0 ↔ n = 0 := by
    rw [Int32.le_iff_toInt_le, Int32.toInt_ofNat_of_lt hn, Int32.toInt_zero]
    omega
  unfold createTopic
  simp only [hpos]
  rcases Nat.eq_zero_or_pos n with hzero | hsome
  · simp [hzero]
  · cases log.topics.lookup topic <;> simp [hsome, Nat.ne_of_gt hsome]

theorem puts_createTopic (hn : n < 2 ^ 31)
    (done : log.createTopic topic (Int32.ofNat n) = .ok log') :
    log.Puts topic (List.replicate n .empty) log' := by
  unfold createTopic at done
  split at done
  · cases done
  · split at done
    · cases done
    · obtain rfl := Except.ok.inj done
      refine ⟨rfl, fun name ↦ ?_⟩
      rw [Keyed.lookup_insert, toNat_slot hn]

theorem startAt_of_empty {target : TopicPartition} {offset : Offset}
    (hp : log.partition target = .ok p) (hempty : p.records = []) (hnonneg : 0 ≤ offset) :
    log.startAt target offset = .ok (log.setPartition target (p.startAt offset)) := by
  simp [startAt, Std.not_lt.mpr hnonneg, hp, hempty, bind, Except.bind, pure, Except.pure]

end Log

namespace Snapshot

open Log

variable {now : Timestamp} {index : PartitionId} {log log' : Log} {topic : String}
  {ps : List PartitionLog} {p : PartitionLog} {i : Nat}

def RecordEntry.stored (now : Timestamp) (index : PartitionId) (offset : Offset) (r : RecordEntry) :
    RawRecord where
  key := r.key.map Utf8.encode
  value := r.value.map Utf8.encode
  partition := index
  offset := offset
  timestamp := some (r.timestamp.getD now)
  headers := r.headers.toList.map fun (name, value) ↦ (name, Utf8.encode value)

/-- A partition to which records have been appended. -/
def grow (now : Timestamp) (index : PartitionId) (records : List RecordEntry) (p : PartitionLog) :
    PartitionLog :=
  records.foldl (fun p r ↦ p.append (r.stored now index p.firstAvailable)) p

def PartitionEntry.stored (now : Timestamp) (index : PartitionId) (e : PartitionEntry) :
    PartitionLog :=
  grow now index e.records (PartitionLog.empty.startAt e.firstOffset)

/-- The partitions of a topic from the one at `i` on. -/
def storedFrom (now : Timestamp) (i : Nat) (entries : List PartitionEntry) : List PartitionLog :=
  entries.mapIdx fun j e ↦ e.stored now (Int32.ofNat (i + j))

theorem storedFrom_cons (i : Nat) (e : PartitionEntry) (rest : List PartitionEntry) :
    storedFrom now i (e :: rest) = e.stored now (Int32.ofNat i) :: storedFrom now (i + 1) rest := by
  simp [storedFrom, List.mapIdx_cons, Nat.add_assoc, Nat.add_comm 1]

theorem oldest_grow (records : List RecordEntry) (p : PartitionLog) :
    (grow now index records p).oldest = p.oldest := by
  induction records generalizing p with
  | nil => rfl
  | cons r rest ih => exact ih _

theorem records_grow (records : List RecordEntry) (p : PartitionLog) :
    (grow now index records p).records = p.records ++ records.mapIdx fun j r ↦
      r.stored now index (p.oldest + Int64.ofNat (p.records.length + j)) := by
  induction records generalizing p with
  | nil => exact (List.append_nil _).symm
  | cons r rest ih =>
      have hlength : (p.append (r.stored now index p.firstAvailable)).records.length =
          p.records.length + 1 := List.length_append
      rw [List.mapIdx_cons]
      change (grow now index rest (p.append _)).records = _
      rw [ih, hlength]
      simp [PartitionLog.append, PartitionLog.publish, PartitionLog.firstAvailable, Nat.add_assoc,
        Nat.add_comm 1]

theorem PartitionEntry.oldest_stored (now : Timestamp) (index : PartitionId) (e : PartitionEntry) :
    (e.stored now index).oldest = e.firstOffset := oldest_grow _ _

theorem PartitionEntry.getElem?_records_stored (now : Timestamp) (index : PartitionId)
    (e : PartitionEntry) (j : Nat) :
    (e.stored now index).records[j]? =
      e.records[j]?.map (RecordEntry.stored now index (e.firstOffset + Int64.ofNat j)) := by
  rw [stored, records_grow]
  simp [PartitionLog.startAt, PartitionLog.empty]

theorem PartitionEntry.length_records_stored (now : Timestamp) (index : PartitionId)
    (e : PartitionEntry) :
    (e.stored now index).records.length = e.records.length := by
  rw [stored, records_grow]
  simp [PartitionLog.startAt, PartitionLog.empty]

/-! ## Loading step by step -/

theorem loadRecords_puts (now : Timestamp) (records : List RecordEntry) (h : log.InRange)
    (hps : log.topics.lookup topic = some ps) (hi : i < 2 ^ 31) (hp : ps[i]? = some p)
    (hroom : p.oldest.toInt + p.records.length + records.length < 2 ^ 63) :
    ∃ log', loadRecords now ⟨topic, Int32.ofNat i⟩ records log = .ok log' ∧ log'.InRange ∧
      log.Puts topic (ps.set i (grow now (Int32.ofNat i) records p)) log' := by
  induction records generalizing log ps p with
  | nil =>
      have hsame : ps.set i p = ps := by
        obtain ⟨hlt, rfl⟩ := List.getElem?_eq_some_iff.mp hp
        exact List.set_getElem_self hlt
      exact ⟨log, rfl, h, hsame.symm ▸ puts_self hps⟩
  | cons r rest ih =>
      have hlt := (List.getElem?_eq_some_iff.mp hp).1
      have hput := puts_setPartition hps hi
        (p.append (r.stored now (Int32.ofNat i) p.firstAvailable))
      rw [List.length_cons] at hroom
      rcases h.append_cases (partition_of_slot hps hi hp) (r.entry now) with
        ⟨-, heq, hgrown⟩ | ⟨hfull, -⟩
      · obtain ⟨log', hload, hinRange, hputs⟩ := ih hgrown hput.lookup_self
          (List.getElem?_set_self hlt) (by
            rw [PartitionLog.oldest_append, PartitionLog.records_append, List.length_append,
              List.length_singleton]
            omega)
        rw [List.set_set] at hputs
        refine ⟨log', ?_, hinRange, hput.trans hputs⟩
        rw [loadRecords, heq]
        exact hload
      · omega

/-- The partitions of a topic are loaded if all of them have room, and otherwise loading crashes. -/
theorem loadPartitions_puts (now : Timestamp) (before : List PartitionLog)
    {entries : List PartitionEntry} (h : log.InRange)
    (hps : log.topics.lookup topic = some (before ++ List.replicate entries.length .empty))
    (hlength : before.length + entries.length < 2 ^ 31)
    (hnonneg : ∀ e ∈ entries, 0 ≤ e.firstOffset) :
    (∃ log', loadPartitions now topic before.length entries log = .ok log' ∧ log'.InRange ∧
      log.Puts topic (before ++ storedFrom now before.length entries) log') ∨
    loadPartitions now topic before.length entries log = .crash ∧ ∃ e ∈ entries, ¬ e.Fits := by
  induction entries generalizing log before with
  | nil => exact Or.inl ⟨log, rfl, h, puts_self hps⟩
  | cons e rest ih =>
      obtain ⟨hfirst, hrest⟩ := List.forall_mem_cons.mp hnonneg
      rw [List.length_cons] at hlength hps
      rw [List.replicate_succ] at hps
      have hi : before.length < 2 ^ 31 := by omega
      generalize hempty : List.replicate rest.length PartitionLog.empty = empties at hps
      have hset (q : PartitionLog) :
          (before ++ .empty :: empties).set before.length q = before ++ [q] ++ empties := by
        simp
      have hslot : (before ++ .empty :: empties)[before.length]? = some .empty := by simp
      have hmove := startAt_of_empty (partition_of_slot hps hi hslot) rfl hfirst
      have hmoved := puts_setPartition hps hi (PartitionLog.empty.startAt e.firstOffset)
      rw [loadPartitions, hmove, Result.lift_ok, Result.ok_bind]
      by_cases hroom : e.Fits
      · obtain ⟨filled, hfill, hinRange, hputs⟩ := loadRecords_puts now e.records (h.startAt hmove)
          hmoved.lookup_self hi (List.getElem?_set_self (by simp))
          (by simpa [PartitionEntry.Fits, PartitionLog.startAt, PartitionLog.empty] using hroom)
        have hfilled := hmoved.trans hputs
        rw [List.set_set, hset, ← hempty] at hfilled
        have hlater := ih _ hinRange hfilled.lookup_self (by simp; omega) hrest
        rw [List.length_append] at hlater
        rw [hfill, Result.ok_bind]
        rcases hlater with ⟨log', hload, hinRange', hputs'⟩ | ⟨hcrash, d, hd, hfull⟩
        · rw [← List.append_cons] at hputs'
          exact Or.inl ⟨log', hload, hinRange', storedFrom_cons .. ▸ hfilled.trans hputs'⟩
        · exact Or.inr ⟨hcrash, d, List.mem_cons_of_mem e hd, hfull⟩
      · rcases loadRecords_of_startAt now h hmove with ⟨hfits, -⟩ | ⟨-, hcrash⟩
        · exact (hroom hfits).elim
        · rw [hcrash]
          exact Or.inr ⟨rfl, e, List.mem_cons_self, hroom⟩

theorem nonneg_of_loadPartitions {entries : List PartitionEntry}
    (done : loadPartitions now topic i entries log = .ok log') :
    ∀ e ∈ entries, 0 ≤ e.firstOffset := by
  induction entries generalizing i log with
  | nil => nofun
  | cons e rest ih =>
      obtain ⟨moved, hmoved, hfill⟩ := Result.bind_eq_ok_iff.mp done
      obtain ⟨filled, -, hrest⟩ := Result.bind_eq_ok_iff.mp hfill
      have hfirst := (partition_of_startAt (Result.lift_eq_ok_iff.mp hmoved)).1
      exact List.forall_mem_cons.mpr ⟨Int64.le_iff_toInt_le.mpr hfirst, ih hrest⟩

/-- What a topic must be to be loaded where there is no topic of its name yet. -/
def TopicEntry.Loadable (t : TopicEntry) : Prop :=
  (1 ≤ t.partitions.length ∧ t.partitions.length ≤ 2147483647) ∧
    ∀ e ∈ t.partitions, 0 ≤ e.firstOffset

instance : DecidablePred TopicEntry.Loadable := fun t ↦
  inferInstanceAs (Decidable ((1 ≤ t.partitions.length ∧ t.partitions.length ≤ 2147483647) ∧
    ∀ e ∈ t.partitions, 0 ≤ e.firstOffset))

def TopicEntry.stored (now : Timestamp) (t : TopicEntry) : List PartitionLog :=
  storedFrom now 0 t.partitions

/-- One round of loading. -/
def loadTopic (now : Timestamp) (t : TopicEntry) (log : Log) : Result LoadFault Log := do
  let count := t.partitions.length
  if Nat.pow 2 31 ≤ count then .error (.tooManyPartitions t.name)
  else
    let log ← (log.createTopic t.name (Int32.ofNat count)).mapError LoadFault.log
    (loadPartitions now t.name 0 t.partitions log).mapError LoadFault.log

theorem loadTopics_cons (t : TopicEntry) (rest : List TopicEntry) :
    loadTopics now (t :: rest) log = loadTopic now t log >>= loadTopics now rest := by
  unfold loadTopic
  rw [loadTopics]
  by_cases hmany : Nat.pow 2 31 ≤ t.partitions.length
  · rw [if_pos hmany, if_pos hmany]
    rfl
  · rw [if_neg hmany, if_neg hmany]
    cases (log.createTopic t.name (Int32.ofNat t.partitions.length)).mapError LoadFault.log <;> rfl

theorem loadTopic_puts (now : Timestamp) {t : TopicEntry} (h : log.InRange) (ht : t.Loadable)
    (hnew : log.topics.lookup t.name = none) :
    (∃ log', loadTopic now t log = .ok log' ∧ log'.InRange ∧
      log.Puts t.name (t.stored now) log') ∨
    loadTopic now t log = .crash ∧ ∃ e ∈ t.partitions, ¬ e.Fits := by
  obtain ⟨⟨hpos, hmax⟩, hnonneg⟩ := ht
  have hcount : t.partitions.length < 2 ^ 31 := by omega
  have hfew : ¬ Nat.pow 2 31 ≤ t.partitions.length := Nat.not_le.mpr hcount
  obtain ⟨created, hcreate⟩ := (createTopic_ok_iff hcount).mpr ⟨hpos, hnew⟩
  have hcreated := puts_createTopic hcount hcreate
  have hload := loadPartitions_puts now [] (h.createTopic hcreate)
    hcreated.lookup_self (by simpa using hcount) hnonneg
  rw [loadTopic, if_neg hfew, hcreate]
  refine hload.imp (fun ⟨log', hload, hinRange, hputs⟩ ↦ ?_) fun ⟨hcrash, hfull⟩ ↦ ?_
  · exact ⟨log', Result.mapError_eq_ok_iff.mpr hload, hinRange, hcreated.trans hputs⟩
  · exact ⟨Result.mapError_eq_crash_iff.mpr hcrash, hfull⟩

theorem loadable_of_loadTopic {t : TopicEntry} (done : loadTopic now t log = .ok log') :
    t.Loadable ∧ log.topics.lookup t.name = none := by
  unfold loadTopic at done
  by_cases hmany : Nat.pow 2 31 ≤ t.partitions.length
  · rw [if_pos hmany] at done
    cases done
  · rw [if_neg hmany] at done
    have hcount : t.partitions.length < 2 ^ 31 := Nat.not_le.mp hmany
    obtain ⟨created, hcreate, hload⟩ := Result.bind_eq_ok_iff.mp done
    rw [Result.lift_mapError, Result.mapError_eq_ok_iff, Result.lift_eq_ok_iff] at hcreate
    have hnonneg := nonneg_of_loadPartitions (Result.mapError_eq_ok_iff.mp hload)
    obtain ⟨hpos, hnew⟩ := (createTopic_ok_iff hcount).mp ⟨created, hcreate⟩
    exact ⟨⟨⟨hpos, by omega⟩, hnonneg⟩, hnew⟩

/-- The topic of a name among those of a snapshot. -/
def topicNamed (topics : List TopicEntry) (name : String) : Option TopicEntry :=
  topics.find? (·.name = name)

theorem topicNamed_cons (t : TopicEntry) (rest : List TopicEntry) (name : String) :
    topicNamed (t :: rest) name = if name = t.name then some t else topicNamed rest name := by
  by_cases hname : t.name = name
  · simp [topicNamed, hname]
  · simp [topicNamed, hname, Ne.symm hname]

theorem topicNamed_eq_none {topics : List TopicEntry} {name : String}
    (h : ∀ t ∈ topics, t.name ≠ name) : topicNamed topics name = none :=
  List.find?_eq_none.mpr fun t ht ↦ by simpa using h t ht

theorem mem_of_topicNamed {topics : List TopicEntry} {name : String} {t : TopicEntry}
    (h : topicNamed topics name = some t) : t ∈ topics ∧ t.name = name :=
  ⟨List.mem_of_find?_eq_some h, by simpa using List.find?_some h⟩

theorem topicNamed_of_mem {topics : List TopicEntry} (hnodup : (topics.map (·.name)).Nodup)
    {t : TopicEntry} (ht : t ∈ topics) : topicNamed topics t.name = some t := by
  induction topics with
  | nil => cases ht
  | cons t' rest ih =>
      obtain ⟨hfresh, hnodup⟩ := List.nodup_cons.mp hnodup
      rw [topicNamed_cons]
      rcases List.mem_cons.mp ht with rfl | ht
      · rw [if_pos rfl]
      · have hne : t.name ≠ t'.name := fun heq ↦ hfresh (List.mem_map.mpr ⟨t, ht, heq⟩)
        rw [if_neg hne, ih hnodup ht]

theorem loadTopics_puts (now : Timestamp) {topics : List TopicEntry} (h : log.InRange)
    (hnodup : (topics.map (·.name)).Nodup)
    (hnew : ∀ t ∈ topics, log.topics.lookup t.name = none) (hload : ∀ t ∈ topics, t.Loadable) :
    (∃ log', loadTopics now topics log = .ok log' ∧ log'.faults = log.faults ∧
      ∀ name, log'.topics.lookup name =
        ((topicNamed topics name).map (·.stored now)).or (log.topics.lookup name)) ∨
    loadTopics now topics log = .crash ∧ ∃ t ∈ topics, ∃ e ∈ t.partitions, ¬ e.Fits := by
  induction topics generalizing log with
  | nil => exact Or.inl ⟨log, rfl, rfl, fun _ ↦ rfl⟩
  | cons t rest ih =>
      obtain ⟨hfresh, hnodup⟩ := List.nodup_cons.mp hnodup
      obtain ⟨hnew, hnewrest⟩ := List.forall_mem_cons.mp hnew
      obtain ⟨ht, hload⟩ := List.forall_mem_cons.mp hload
      have hother : ∀ t' ∈ rest, t'.name ≠ t.name := fun t' ht' heq ↦
        hfresh (List.mem_map.mpr ⟨t', ht', heq⟩)
      rw [loadTopics_cons]
      rcases loadTopic_puts now h ht hnew with ⟨loaded, htopic, hinRange, hputs⟩ |
        ⟨hcrash, hfull⟩
      · have hnewrest' : ∀ t' ∈ rest, loaded.topics.lookup t'.name = none := by
          intro t' ht'
          rw [hputs.lookup_eq, if_neg (hother t' ht'), hnewrest t' ht']
        rw [htopic, Result.ok_bind]
        refine (ih hinRange hnodup hnewrest' hload).imp
          (fun ⟨log', hrest, hfaults, hlookup⟩ ↦ ?_)
          fun ⟨hcrash, t', ht', hfull⟩ ↦ ⟨hcrash, t', List.mem_cons_of_mem t ht', hfull⟩
        refine ⟨log', hrest, hfaults.trans hputs.faults_eq, fun name ↦ ?_⟩
        rw [hlookup, hputs.lookup_eq, topicNamed_cons]
        split
        · next heq =>
            rw [heq, topicNamed_eq_none hother]
            rfl
        · rfl
      · rw [hcrash]
        exact Or.inr ⟨rfl, t, List.mem_cons_self, hfull⟩

theorem loadable_of_loadTopics {topics : List TopicEntry} (h : log.InRange)
    (done : loadTopics now topics log = .ok log') : (topics.map (·.name)).Nodup ∧
      (∀ t ∈ topics, log.topics.lookup t.name = none) ∧ ∀ t ∈ topics, t.Loadable := by
  induction topics generalizing log with
  | nil => exact ⟨List.nodup_nil, nofun, nofun⟩
  | cons t rest ih =>
      rw [loadTopics_cons] at done
      obtain ⟨loaded, htopic, hrest⟩ := Result.bind_eq_ok_iff.mp done
      obtain ⟨ht, hnew⟩ := loadable_of_loadTopic htopic
      obtain ⟨hinRange, hputs⟩ : loaded.InRange ∧ log.Puts t.name (t.stored now) loaded := by
        rcases loadTopic_puts now h ht hnew with ⟨loaded', htopic', hboth⟩ | ⟨hcrash, -⟩
        · exact Result.ok.inj (htopic'.symm.trans htopic) ▸ hboth
        · cases hcrash.symm.trans htopic
      obtain ⟨hnodup, hnewrest, hload⟩ := ih hinRange hrest
      have hother : ∀ t' ∈ rest, t'.name ≠ t.name ∧ log.topics.lookup t'.name = none := by
        intro t' ht'
        have hnone := hnewrest t' ht'
        rw [hputs.lookup_eq] at hnone
        split at hnone
        · cases hnone
        · next hne => exact ⟨hne, hnone⟩
      refine ⟨List.nodup_cons.mpr ⟨fun hmem ↦ ?_, hnodup⟩,
        List.forall_mem_cons.mpr ⟨hnew, fun t' ht' ↦ (hother t' ht').2⟩,
        List.forall_mem_cons.mpr ⟨ht, hload⟩⟩
      obtain ⟨t', ht', hname⟩ := List.mem_map.mp hmem
      exact (hother t' ht').1 hname

/-! ## Whole snapshots -/

def Loadable (s : Snapshot) : Prop :=
  (s.topics.map (·.name)).Nodup ∧ ∀ t ∈ s.topics, t.Loadable

instance : DecidablePred Loadable := fun s ↦
  inferInstanceAs (Decidable ((s.topics.map (·.name)).Nodup ∧ ∀ t ∈ s.topics, t.Loadable))

variable {s : Snapshot} {target : TopicPartition} {e : PartitionEntry}

/-- A log that has the topics of a snapshot, and no faults. -/
structure Stores (now : Timestamp) (s : Snapshot) (log : Log) : Prop where
  loadable : s.Loadable
  faults_eq : log.faults = {}
  lookup_eq : ∀ name, log.topics.lookup name = (topicNamed s.topics name).map (·.stored now)

theorem load_cases (now : Timestamp) (h : s.Loadable) :
    (∃ log, s.load now = .ok log ∧ s.Stores now log) ∨ s.load now = .crash ∧ ¬ s.Fits := by
  have hnew : ∀ t ∈ s.topics, ({} : Log).topics.lookup t.name = none := fun _ _ ↦ rfl
  refine (loadTopics_puts now inRange_empty h.1 hnew h.2).imp
    (fun ⟨log, hload, hfaults, hlookup⟩ ↦ ?_) fun ⟨hcrash, t, ht, e, he, hfull⟩ ↦ ?_
  · refine ⟨log, hload, h, hfaults, fun name ↦ ?_⟩
    rw [hlookup]
    exact Option.or_none
  · exact ⟨hcrash, fun hfits ↦ hfull (hfits t ht e he)⟩

theorem stores_of_load (h : s.load now = .ok log) : s.Stores now log := by
  obtain ⟨hnodup, -, htopics⟩ := loadable_of_loadTopics inRange_empty h
  rcases load_cases now ⟨hnodup, htopics⟩ with ⟨log', hload, hstores⟩ | ⟨hcrash, -⟩
  · obtain rfl := Result.ok.inj (hload.symm.trans h)
    exact hstores
  · cases hcrash.symm.trans h

namespace Stores

theorem partition_eq (h : s.Stores now log) {t : TopicEntry} (ht : t ∈ s.topics)
    (he : t.partitions[i]? = some e) :
    i < 2 ^ 31 ∧ log.partition ⟨t.name, Int32.ofNat i⟩ = .ok (e.stored now (Int32.ofNat i)) := by
  have hmax := (h.loadable.2 t ht).1.2
  have hi := (List.getElem?_eq_some_iff.mp he).1
  have hps := h.lookup_eq t.name
  rw [topicNamed_of_mem h.loadable.1 ht] at hps
  refine ⟨by omega, Log.partition_of_slot hps (by omega) ?_⟩
  simp [TopicEntry.stored, storedFrom, he]

theorem partitionCount_eq (h : s.Stores now log) (topic : String) :
    log.partitionCount topic = (topicNamed s.topics topic).elim (.error (.noTopic topic))
      fun t ↦ .ok (Int32.ofNat t.partitions.length) := by
  rw [Log.partitionCount, h.lookup_eq]
  cases topicNamed s.topics topic with
  | none => rfl
  | some t => simp [TopicEntry.stored, storedFrom]

theorem exists_partition_iff (h : s.Stores now log) :
    (∃ p, log.partition target = .ok p) ↔ ∃ t ∈ s.topics,
      t.name = target.topic ∧ ∃ i < t.partitions.length, target.partition = Int32.ofNat i := by
  constructor
  · rintro ⟨p, hp⟩
    obtain ⟨ps, hps, hnonneg, hslot⟩ := Log.partition_eq_ok_iff.mp hp
    rw [h.lookup_eq] at hps
    obtain ⟨t, hfind, rfl⟩ := Option.map_eq_some_iff.mp hps
    obtain ⟨ht, hname⟩ := mem_of_topicNamed hfind
    have hi := (List.getElem?_eq_some_iff.mp hslot).1
    rw [TopicEntry.stored, storedFrom, List.length_mapIdx] at hi
    refine ⟨t, ht, hname, _, hi, ?_⟩
    rw [Int32.lt_iff_toInt_lt, Int32.toInt_zero] at hnonneg
    have hbound := target.partition.toInt_lt
    rw [← Int32.toInt_inj, Int32.toInt_ofNat_of_lt (by omega)]
    omega
  · rintro ⟨t, ht, hname, i, hi, hindex⟩
    obtain ⟨-, hp⟩ := h.partition_eq ht (List.getElem?_eq_getElem hi)
    obtain ⟨topic, partition⟩ := target
    obtain rfl : t.name = topic := hname
    obtain rfl : partition = Int32.ofNat i := hindex
    exact ⟨_, hp⟩

end Stores

/-- A partition of the log has the range of an entry, and a cursor that starts at or below it yields
the listed records, in their order, and then ends. -/
structure PartitionEntry.Found (now : Timestamp) (e : PartitionEntry) (log : Log)
    (target : TopicPartition) : Prop where
  offsets : ∃ o, log.offsets target = .ok o ∧ o.oldest = e.firstOffset ∧
    o.firstAvailable.toInt = e.firstOffset.toInt + e.records.length
  yields : ∀ start ≤ e.firstOffset, ∃ c, log.openCursor target start false = .ok c ∧
    ∀ j, c.answer log j = (e.records[j]?.map fun r ↦ .record
      (r.stored now target.partition (e.firstOffset + Int64.ofNat j))).getD .ended
  consecutive : ∀ j < e.records.length,
    (e.firstOffset + Int64.ofNat j).toInt = e.firstOffset.toInt + j
  /-- Headers come in the order of their names. -/
  headers : ∀ r ∈ e.records, ∀ offset,
    Keyed.Ordered (r.stored now target.partition offset).headers

/-- A log holds what a snapshot lists, and nothing else. -/
structure Held (now : Timestamp) (s : Snapshot) (log : Log) : Prop where
  found : ∀ t ∈ s.topics, ∀ i e, t.partitions[i]? = some e →
    (Int32.ofNat i).toInt = i ∧ e.Found now log ⟨t.name, Int32.ofNat i⟩
  topics : ∀ topic, log.partitionCount topic = (topicNamed s.topics topic).elim
    (.error (.noTopic topic)) fun t ↦ .ok (Int32.ofNat t.partitions.length)
  partitions : ∀ target, (∃ p, log.partition target = .ok p) ↔ ∃ t ∈ s.topics,
    t.name = target.topic ∧ ∃ i < t.partitions.length, target.partition = Int32.ofNat i

theorem found_of_stored (hlog : log.InRange) (hfaults : log.faults = {})
    (hp : log.partition target = .ok (e.stored now target.partition)) : e.Found now log target := by
  have hsound := hlog.sound target _ hp
  have hfits := hlog.fits target _ hp
  have holdest := e.oldest_stored now target.partition
  have hlength := e.length_records_stored now target.partition
  have hrecords := e.getElem?_records_stored now target.partition
  generalize e.stored now target.partition = p at hp hsound hfits holdest hlength hrecords
  have hnonneg := hsound.oldest_nonneg
  have hroom : p.oldest.toInt + p.records.length < 2 ^ 63 := hfits
  rw [holdest] at hnonneg hroom
  rw [hlength] at hroom
  constructor
  case offsets =>
    refine ⟨_, Log.offsets_of_partition (by simp [hfaults]) hp hsound.oldest_nonneg hfits,
      holdest, ?_⟩
    rw [PartitionLog.firstAvailable_of_fits hsound hfits, holdest, hlength]
  case yields =>
    intro start hstart
    have hopen : log.openCursor target start false =
        .ok ⟨target, start, false, none, 0, false⟩ := by
      rw [Log.openCursor_of_partition (by simp [hfaults]) hp, hfaults]
      rfl
    refine ⟨_, hopen, fun j ↦ ?_⟩
    have hyields := LogCursor.yields (c := ⟨target, start, false, none, 0, false⟩) hsound hfits hp
      rfl rfl
    have hall : p.recordsFrom start = p.records := by
      have hle := Int64.le_iff_toInt_le.mp hstart
      rw [PartitionLog.recordsFrom_eq_drop hsound, holdest, Int.toNat_of_nonpos (by omega)]
      rfl
    rw [hyields.records nofun j, hall, hrecords, Option.map_map]
    rfl
  case consecutive =>
    intro j hj
    exact Offset.toInt_add_ofNat hnonneg (by omega)
  case headers =>
    intro r _ offset
    exact List.pairwise_map.mpr r.headers.ordered

theorem held_of_load (hload : s.load now = .ok log) : s.Held now log := by
  have hstores := stores_of_load hload
  refine ⟨fun t ht i e he ↦ ?_, hstores.partitionCount_eq, fun _ ↦ hstores.exists_partition_iff⟩
  obtain ⟨hi, hp⟩ := hstores.partition_eq ht he
  exact ⟨Int32.toInt_ofNat_of_lt hi, found_of_stored (load_ok hload).1 hstores.faults_eq hp⟩

/-- A snapshot can be loaded exactly where no name occurs twice, each topic has a partition and not
too many, no partition starts below zero, and none runs out of offsets; if it is only this that is
wrong, loading crashes.  The loaded log holds what is listed, and nothing else. -/
theorem loads_faithfully (now : Timestamp) (s : Snapshot) :
    ((∃ log, s.load now = .ok log) ↔ s.Loadable ∧ s.Fits) ∧
      (s.Loadable → (s.load now = .crash ↔ ¬ s.Fits)) ∧
      ∀ log, s.load now = .ok log → s.Held now log := by
  refine ⟨⟨fun ⟨log, hload⟩ ↦ ⟨(stores_of_load hload).loadable, (load_ok hload).2⟩,
    fun ⟨hloadable, hfits⟩ ↦ ?_⟩, fun hloadable ↦ ?_, fun _ ↦ held_of_load⟩
  · rcases load_cases now hloadable with ⟨log, hload, -⟩ | ⟨-, hfull⟩
    · exact ⟨log, hload⟩
    · exact (hfull hfits).elim
  · rcases load_cases now hloadable with ⟨log, hload, -⟩ | ⟨hcrash, hfull⟩
    · simp [hload, (load_ok hload).2]
    · simp [hcrash, hfull]

/-- Two topics, of which the second in the order of names comes first.  A record without a key is a
tombstone and is stamped when it is loaded, and a partition that is to start at the last offset has
no room for one. -/
def ordersSnapshot : Snapshot :=
  let paid : RecordEntry :=
    { key := some "k", value := some "é", timestamp := some 7,
      headers := .ofList [("b", ""), ("a", "1")] }
  ⟨[⟨"orders", [⟨40, [paid, {}]⟩, ⟨Int64.maxValue, []⟩]⟩, ⟨"audit", [{}]⟩]⟩

theorem loads_faithfully_in_orders : ordersSnapshot.Fits ∧ ordersSnapshot.Loadable ∧
    ∃ log, ordersSnapshot.load 5 = .ok log ∧ ordersSnapshot.Held 5 log := by
  have hfits : ordersSnapshot.Fits := by decide
  have hloadable : ordersSnapshot.Loadable := by decide
  obtain ⟨hiff, -, hheld⟩ := loads_faithfully 5 ordersSnapshot
  obtain ⟨log, hload⟩ := hiff.mpr ⟨hloadable, hfits⟩
  exact ⟨hfits, hloadable, log, hload, hheld log hload⟩

end Snapshot
end TopicView
