import TopicView.Proofs.Log.Overflow
import TopicView.Snapshot

/-!
# Loading snapshots

Records are loaded as long as there are offsets for them and one more.  So the log of a snapshot
that has been loaded is in range, and loading crashes only where the offsets of a partition run
out.
-/

namespace TopicView

namespace Snapshot

/-- The offset after the last record is still an offset. -/
def PartitionEntry.Fits (e : PartitionEntry) : Prop :=
  e.firstOffset.toInt + e.records.length < 2 ^ 63

instance : DecidablePred PartitionEntry.Fits := fun e ↦
  inferInstanceAs (Decidable (e.firstOffset.toInt + e.records.length < 2 ^ 63))

def Fits (s : Snapshot) : Prop := ∀ t ∈ s.topics, ∀ e ∈ t.partitions, e.Fits

instance : DecidablePred Fits := fun s ↦
  inferInstanceAs (Decidable (∀ t ∈ s.topics, ∀ e ∈ t.partitions, e.Fits))

variable {now : Timestamp} {log log' : Log} {target : TopicPartition} {p : PartitionLog}

theorem loadRecords_cases (now : Timestamp) (records : List RecordEntry) (h : log.InRange)
    (hp : log.partition target = .ok p) :
    p.oldest.toInt + p.records.length + records.length < 2 ^ 63 ∧
      (∃ log', loadRecords now target records log = .ok log' ∧ log'.InRange) ∨
    ¬ p.oldest.toInt + p.records.length + records.length < 2 ^ 63 ∧
      loadRecords now target records log = .crash := by
  induction records generalizing log p with
  | nil =>
      have hfits := h.fits target p hp
      unfold PartitionLog.Fits at hfits
      exact Or.inl ⟨by simpa using hfits, log, rfl, h⟩
  | cons r rest ih =>
      rw [List.length_cons]
      unfold loadRecords
      rcases h.append_cases hp (r.entry now) with ⟨-, heq, hgrown⟩ | ⟨hfull, hcrash⟩
      · have hp' : (log.setPartition target
            (p.append ((r.entry now).recordOf target p))).partition target =
              .ok (p.append ((r.entry now).recordOf target p)) := by
          rw [Log.partition_setPartition hp, if_pos rfl]
        rw [heq]
        have hrest := ih hgrown hp'
        rw [PartitionLog.oldest_append, PartitionLog.records_append, List.length_append,
          List.length_singleton] at hrest
        refine hrest.imp (fun ⟨hroom, hload⟩ ↦ ⟨by omega, hload⟩)
          fun ⟨hfull, hcrash⟩ ↦ ⟨by omega, hcrash⟩
      · dsimp only
        rw [hcrash]
        exact Or.inr ⟨by omega, rfl⟩

/-! ## Partitions and topics -/

theorem partition_of_startAt {offset : Offset} (done : log.startAt target offset = .ok log') :
    0 ≤ offset.toInt ∧ ∃ p, log'.partition target = .ok p ∧ p.oldest = offset ∧ p.records = [] := by
  obtain ⟨p, hp, hempty, hnonneg, rfl⟩ := Log.startAt_ok done
  refine ⟨hnonneg, p.startAt offset, ?_, rfl, hempty⟩
  rw [Log.partition_setPartition hp, if_pos rfl]

/-- One round of loading partitions. -/
theorem loadRecords_of_startAt (now : Timestamp) {e : PartitionEntry} (h : log.InRange)
    (done : log.startAt target e.firstOffset = .ok log') :
    e.Fits ∧ (∃ log'', loadRecords now target e.records log' = .ok log'' ∧ log''.InRange) ∨
      ¬ e.Fits ∧ loadRecords now target e.records log' = .crash := by
  obtain ⟨-, p, hp, holdest, hempty⟩ := partition_of_startAt done
  have hcases := loadRecords_cases now e.records (h.startAt done) hp
  rwa [holdest, hempty, List.length_nil, Int.natCast_zero, Int.add_zero] at hcases

theorem loadPartitions_ok {topic : String} {i : Nat} {entries : List PartitionEntry}
    (h : log.InRange) (done : loadPartitions now topic i entries log = .ok log') :
    log'.InRange ∧ ∀ e ∈ entries, e.Fits := by
  induction entries generalizing i log with
  | nil =>
      obtain rfl := Result.ok.inj done
      exact ⟨h, nofun⟩
  | cons e rest ih =>
      obtain ⟨moved, hmoved, hrecords⟩ := Result.bind_eq_ok_iff.mp done
      obtain ⟨loaded, hloaded, hrest⟩ := Result.bind_eq_ok_iff.mp hrecords
      rw [Result.lift_eq_ok_iff] at hmoved
      rcases loadRecords_of_startAt now h hmoved with ⟨hfits, log'', heq, hgrown⟩ | ⟨-, hcrash⟩
      · obtain rfl := Result.ok.inj (heq.symm.trans hloaded)
        obtain ⟨hinRange, hmore⟩ := ih hgrown hrest
        exact ⟨hinRange, List.forall_mem_cons.mpr ⟨hfits, hmore⟩⟩
      · cases hcrash.symm.trans hloaded

theorem loadTopics_ok {topics : List TopicEntry} (h : log.InRange)
    (done : loadTopics now topics log = .ok log') :
    log'.InRange ∧ ∀ t ∈ topics, ∀ e ∈ t.partitions, e.Fits := by
  induction topics generalizing log with
  | nil =>
      obtain rfl := Result.ok.inj done
      exact ⟨h, nofun⟩
  | cons t rest ih =>
      unfold loadTopics at done
      by_cases hmany : Nat.pow 2 31 ≤ t.partitions.length
      · rw [if_pos hmany] at done
        cases done
      · rw [if_neg hmany] at done
        obtain ⟨created, hcreated, hpartitions⟩ := Result.bind_eq_ok_iff.mp done
        obtain ⟨loaded, hloaded, hrest⟩ := Result.bind_eq_ok_iff.mp hpartitions
        rw [Result.lift_mapError, Result.mapError_eq_ok_iff, Result.lift_eq_ok_iff] at hcreated
        rw [Result.mapError_eq_ok_iff] at hloaded
        obtain ⟨hinRange, hfirst⟩ := loadPartitions_ok (h.createTopic hcreated) hloaded
        obtain ⟨hinRange', hfits⟩ := ih hinRange hrest
        exact ⟨hinRange', List.forall_mem_cons.mpr ⟨hfirst, hfits⟩⟩

/-! ## Loading what fits -/

theorem loadPartitions_ne_crash {topic : String} {i : Nat} {entries : List PartitionEntry}
    (h : log.InRange) (hfits : ∀ e ∈ entries, e.Fits) :
    loadPartitions now topic i entries log ≠ .crash := by
  induction entries generalizing i log with
  | nil => nofun
  | cons e rest ih =>
      obtain ⟨hfirst, hrest⟩ := List.forall_mem_cons.mp hfits
      intro hcrash
      rcases Result.bind_eq_crash_iff.mp hcrash with hmoved | ⟨moved, hmoved, hcrash⟩
      · cases hstart : log.startAt ⟨topic, Int32.ofNat i⟩ e.firstOffset <;> simp [hstart] at hmoved
      · rw [Result.lift_eq_ok_iff] at hmoved
        rcases loadRecords_of_startAt now h hmoved with ⟨-, log'', heq, hgrown⟩ | ⟨hfull, -⟩
        · rw [heq, Result.ok_bind] at hcrash
          exact ih hgrown hrest hcrash
        · exact hfull hfirst

theorem loadTopics_ne_crash {topics : List TopicEntry} (h : log.InRange)
    (hfits : ∀ t ∈ topics, ∀ e ∈ t.partitions, e.Fits) : loadTopics now topics log ≠ .crash := by
  induction topics generalizing log with
  | nil => nofun
  | cons t rest ih =>
      obtain ⟨hfirst, hrest⟩ := List.forall_mem_cons.mp hfits
      unfold loadTopics
      by_cases hmany : Nat.pow 2 31 ≤ t.partitions.length
      · rw [if_pos hmany]
        nofun
      · rw [if_neg hmany]
        intro hcrash
        rcases Result.bind_eq_crash_iff.mp hcrash with hcreated | ⟨created, hcreated, hcrash⟩
        · cases hnew : log.createTopic t.name (Int32.ofNat t.partitions.length) <;>
            simp [hnew, Result.mapError] at hcreated
        · rw [Result.lift_mapError, Result.mapError_eq_ok_iff, Result.lift_eq_ok_iff] at hcreated
          have hinRange := h.createTopic hcreated
          rcases Result.bind_eq_crash_iff.mp hcrash with hloaded | ⟨loaded, hloaded, hcrash⟩
          · exact loadPartitions_ne_crash hinRange hfirst (Result.mapError_eq_crash_iff.mp hloaded)
          · have hgrown := loadPartitions_ok hinRange (Result.mapError_eq_ok_iff.mp hloaded)
            exact ih hgrown.1 hrest hcrash

theorem load_ne_crash (now : Timestamp) {s : Snapshot} (h : s.Fits) : s.load now ≠ .crash :=
  loadTopics_ne_crash Log.inRange_empty h

theorem load_ok {s : Snapshot} (done : s.load now = .ok log) : log.InRange ∧ s.Fits :=
  loadTopics_ok Log.inRange_empty done

end Snapshot
end TopicView
