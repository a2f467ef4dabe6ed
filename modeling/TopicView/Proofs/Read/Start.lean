import TopicView.Proofs.Log.Reachable
import TopicView.Proofs.Log.Segment
import TopicView.Proofs.Read.Plan

/-!
# Starting a read

A read that runs was made of a valid request and valid settings, and of the ranges that the client
gave for exactly the requested partitions.
-/

namespace TopicView

variable {σ κ : Type}

/-- A resolution that succeeds has one range for each partition, as its own lookup gave it. -/
theorem resolve_ok {topic : String} {lookup : PartitionId → Lookup} {ps : List PartitionId}
    {ranges : List (PartitionId × Offsets)} (hps : ps.Pairwise (· < ·))
    (h : resolve topic lookup ps = .ok ranges) :
    ranges.map Prod.fst = ps ∧ ∀ e ∈ ranges, (lookup e.1).offsets = .ok e.2 := by
  induction ps generalizing ranges with
  | nil =>
      obtain rfl : [] = ranges := by simpa [resolve] using h
      simp
  | cons p ps ih =>
      obtain ⟨hfirst, hrest⟩ := List.pairwise_cons.mp hps
      unfold resolve at h
      cases ho : (lookup p).offsets with
      | error failure => simp [ho] at h
      | crash => simp [ho] at h
      | ok o =>
          simp only [ho] at h
          obtain ⟨rest, hr, rfl⟩ := Result.map_eq_ok_iff.mp h
          obtain ⟨hkeys, hvalues⟩ := ih hrest hr
          have hlt : ∀ e ∈ rest, p < e.1 := fun e he ↦
            hfirst e.1 (hkeys ▸ List.mem_map_of_mem he)
          rw [Keyed.insert_of_forall_lt hlt]
          refine ⟨by simp [hkeys], fun e he ↦ ?_⟩
          rcases List.mem_cons.mp he with rfl | he
          · exact ho
          · exact hvalues e he

/-- All that is known of a read that has been started. -/
structure Launched (client : Client σ κ) (s : σ) (settings : ReaderSettings) (decoder : Decoder)
    (request : Request) (cancelled : Bool) (ranges : List (PartitionId × Offsets))
    (r : Read κ) : Prop where
  valid : request.validate = .ok ()
  capacity_pos : 0 < settings.channelCapacity.toNat
  resolved : resolve request.topic (client.lookup s request.topic) request.partitions.toList =
    .ok ranges
  readable : ranges.any (fun e ↦ isReadable request.mode e.2) = true
  planned : planAll? request ranges = some r.plans
  made : r = .make request decoder settings.channelCapacity.toNat cancelled r.plans

theorem Read.plans_make (request : Request) (decoder : Decoder) (capacity : Nat) (cancelled : Bool)
    (plans : List (PartitionId × Plan)) :
    (Read.make request decoder capacity cancelled plans : Read κ).plans = plans := by
  rw [Read.plans, Read.make, List.map_map]
  exact List.map_id _

theorem exists_launched {client : Client σ κ} {s : σ} {settings : ReaderSettings}
    {decoder : Decoder} {request : Request} {cancelled : Bool} {r : Read κ}
    (h : startRead client s settings decoder request cancelled = .ok (.running r)) :
    ∃ ranges, Launched client s settings decoder request cancelled ranges r := by
  unfold startRead at h
  obtain ⟨⟨⟩, hvalid, h⟩ := Result.bind_eq_ok_iff.mp h
  obtain ⟨⟨⟩, hsettings, h⟩ := Result.bind_eq_ok_iff.mp h
  obtain ⟨ranges, hr, h⟩ := Result.bind_eq_ok_iff.mp h
  rw [Result.lift_mapError, Result.mapError_eq_ok_iff, Result.lift_eq_ok_iff] at hvalid hsettings
  split at h
  · cases h
  · next hreadable =>
      obtain ⟨plans, hplans, h⟩ := Result.bind_eq_ok_iff.mp h
      rw [Result.lift_option_eq_ok_iff] at hplans
      dsimp only at h
      split at h
      · cases h
      · obtain rfl := Started.running.inj (Result.ok.inj h)
        refine ⟨ranges, hvalid, ?_, hr, by simpa using hreadable, ?_, ?_⟩
        · have hne : settings.channelCapacity ≠ 0 := by
            intro hzero
            simp [ReaderSettings.validate, hzero] at hsettings
          exact Nat.pos_of_ne_zero fun hzero ↦ hne (UInt64.toNat_inj.mp hzero)
        · rwa [Read.plans_make]
        · rw [Read.plans_make]

namespace Launched

variable {client : Client σ κ} {s : σ} {settings : ReaderSettings} {decoder : Decoder}
  {request : Request} {cancelled : Bool} {ranges : List (PartitionId × Offsets)} {r : Read κ}

theorem keys_eq (h : Launched client s settings decoder request cancelled ranges r) :
    ranges.map Prod.fst = request.partitions.toList :=
  (resolve_ok request.partitions.ascending h.resolved).1

theorem partitions_eq (h : Launched client s settings decoder request cancelled ranges r) :
    r.plans.map Prod.fst = request.partitions.toList := by
  rw [(planAll?_eq_some h.planned).1, h.keys_eq]

theorem nodup_partitions (h : Launched client s settings decoder request cancelled ranges r) :
    (r.plans.map Prod.fst).Nodup := by
  rw [h.partitions_eq]
  exact request.partitions.ascending.imp Std.ne_of_lt

theorem eq_start (h : Launched client s settings decoder request cancelled ranges r)
    {w : Worker κ} (hw : w ∈ r.workers) : w = .start w.partition w.plan := by
  rw [h.made] at hw
  obtain ⟨e, -, rfl⟩ := List.mem_map.mp hw
  rfl

theorem isBounded (h : Launched client s settings decoder request cancelled ranges r)
    (hmode : request.mode ≠ .live) {e : PartitionId × Plan} (he : e ∈ r.plans) :
    e.2.isBounded = true := by
  obtain ⟨o, -, hplan⟩ := (planAll?_eq_some h.planned).2 e he
  rw [isBounded_of_plan? hplan]
  cases hm : request.mode with
  | live => exact (hmode hm).elim
  | beginning => rfl
  | mostRecent => rfl

end Launched

/-! ## Starting on the in-memory log -/

theorem PartitionLog.holds_plan {index : PartitionId} {p : PartitionLog} (h : p.Sound index)
    (hfits : p.Fits) {mode : Mode} (hmode : mode ≠ .live) (limit count : UInt64) :
    p.Holds (plan mode limit count ⟨p.oldest, p.firstAvailable⟩) := by
  obtain ⟨last, hlast, holdest, hstart, hend⟩ := plan_range hmode limit count
    (o := ⟨p.oldest, p.firstAvailable⟩) h.oldest_nonneg (oldest_le_firstAvailable h hfits)
  refine ⟨?_, holdest, ?_, ?_⟩
  · simp [Plan.isBounded, hlast]
  · simpa [Plan.endOffset, hlast] using hstart
  · simpa [Plan.endOffset, hlast] using hend

namespace Log

variable {log : Log} {topic : String} {index : PartitionId}

/-- A partition that exists and whose offsets do not run out. -/
structure Source (log : Log) (topic : String) (index : PartitionId) (p : PartitionLog) : Prop where
  found : log.partition ⟨topic, index⟩ = .ok p
  sound : p.Sound index
  fits : p.Fits

/-- Its range starts at no negative offset and is not inverted. -/
theorem Source.upright {p : PartitionLog} (h : log.Source topic index p) :
    0 ≤ p.oldest ∧ p.oldest ≤ p.firstAvailable :=
  ⟨Int64.le_iff_toInt_le.mpr h.sound.oldest_nonneg,
    PartitionLog.oldest_le_firstAvailable h.sound h.fits⟩

theorem Source.offsets_eq {p : PartitionLog} (h : log.Source topic index p)
    (hfault : ⟨topic, index⟩ ∉ log.faults.lookups) :
    log.offsets ⟨topic, index⟩ = .ok ⟨p.oldest, p.firstAvailable⟩ :=
  offsets_of_partition hfault h.found h.sound.oldest_nonneg h.fits

theorem Source.plan?_eq {p : PartitionLog} (h : log.Source topic index p) (mode : Mode)
    (limit count : UInt64) : plan? mode limit count ⟨p.oldest, p.firstAvailable⟩ =
      some (plan mode limit count ⟨p.oldest, p.firstAvailable⟩) := by
  have hnonneg := h.sound.oldest_nonneg
  have hlow : -2 ^ 63 < p.oldest.toInt := by omega
  have hle := PartitionLog.oldest_le_firstAvailable h.sound h.fits
  exact TopicView.plan?_eq (o := ⟨p.oldest, p.firstAvailable⟩) hlow hle mode limit count

theorem lookup_offsets_ok {o : Offsets} (h : (log.lookup topic index).offsets = .ok o) :
    log.offsets ⟨topic, index⟩ = .ok o := by
  unfold Lookup.offsets at h
  obtain ⟨oldest, holdest, h⟩ := Result.bind_eq_ok_iff.mp h
  obtain ⟨firstAvailable, hfirst, h⟩ := Result.bind_eq_ok_iff.mp h
  obtain ⟨range, hrange, rfl⟩ := Result.map_eq_ok_iff.mp (Result.mapError_eq_ok_iff.mp holdest)
  obtain ⟨range', hrange', rfl⟩ := Result.map_eq_ok_iff.mp (Result.mapError_eq_ok_iff.mp hfirst)
  obtain rfl := Result.ok.inj (hrange.symm.trans hrange')
  split at h
  · cases h
  · obtain rfl : range = o := Result.ok.inj h
    exact hrange

/-- What a lookup on a sound log gives is the range of a partition whose offsets do not run out. -/
theorem Sound.exists_source (hlog : log.Sound) {o : Offsets}
    (h : (log.lookup topic index).offsets = .ok o) :
    ∃ p, log.Source topic index p ∧ o = ⟨p.oldest, p.firstAvailable⟩ := by
  obtain ⟨-, p, hp, holdest, hnext⟩ := offsets_eq_ok_iff.mp (lookup_offsets_ok h)
  have hsound := hlog _ p hp
  have hfits := PartitionLog.fits_of_firstAvailable? hnext
  rw [PartitionLog.firstAvailable?_eq hsound.oldest_nonneg hfits] at hnext
  obtain ⟨oldest, firstAvailable⟩ := o
  obtain rfl : oldest = p.oldest := holdest
  obtain rfl : p.firstAvailable = firstAvailable := Option.some.inj hnext
  exact ⟨p, ⟨hp, hsound, hfits⟩, rfl⟩

section Launched

variable (hlog : log.Reachable) {settings : ReaderSettings} {decoder : Decoder} {request : Request}
  {cancelled : Bool} {ranges : List (PartitionId × Offsets)} {r : Read LogCursor}
  (h : Launched client log settings decoder request cancelled ranges r)

include hlog h

theorem Reachable.exists_source_of_range {e : PartitionId × Offsets} (he : e ∈ ranges) :
    ∃ p, log.Source request.topic e.1 p ∧ e.2 = ⟨p.oldest, p.firstAvailable⟩ :=
  hlog.sound.exists_source ((resolve_ok request.partitions.ascending h.resolved).2 e he)

theorem Reachable.plans_eq : r.plans = planAll request ranges := by
  have hplans : planAll? request ranges = some (planAll request ranges) := by
    refine planAll?_of_nonneg fun e he ↦ ?_
    obtain ⟨p, hsource, hrange⟩ := hlog.exists_source_of_range h he
    rw [hrange]
    exact hsource.upright
  exact Option.some.inj (h.planned.symm.trans hplans)

/-- A read of a reachable log has planned the partitions as they are. -/
theorem Reachable.exists_source {e : PartitionId × Plan} (he : e ∈ r.plans) :
    ∃ p, log.Source request.topic e.1 p ∧ e.2 = plan request.mode request.limit
      (UInt64.ofNat request.partitions.size) ⟨p.oldest, p.firstAvailable⟩ := by
  rw [hlog.plans_eq h] at he
  obtain ⟨range, hrange, rfl⟩ := List.mem_map.mp he
  obtain ⟨p, hsource, ho⟩ := hlog.exists_source_of_range h hrange
  exact ⟨p, hsource, by rw [← ho]⟩

/-- A bounded read of a reachable log plans what its partitions hold. -/
theorem Reachable.exists_holds (hmode : request.mode ≠ .live) {e : PartitionId × Plan}
    (he : e ∈ r.plans) : ∃ p, log.Source request.topic e.1 p ∧
      e.2 = plan request.mode request.limit
        (UInt64.ofNat request.partitions.size) ⟨p.oldest, p.firstAvailable⟩ ∧ p.Holds e.2 := by
  obtain ⟨p, hsource, hplan⟩ := hlog.exists_source h he
  refine ⟨p, hsource, hplan, ?_⟩
  rw [hplan]
  exact PartitionLog.holds_plan hsource.sound hsource.fits hmode _ _

end Launched

end Log

def sampleRequest (mode : Mode) (limit : UInt64) : Request :=
  ⟨"t", ⟨[0, 1], by decide⟩, mode, limit, none⟩

def sampleRead (mode : Mode) (limit : UInt64) : Read LogCursor :=
  .make (sampleRequest mode limit) .lossy 256 false
    (planAll (sampleRequest mode limit) [(0, ⟨0, 2⟩), (1, ⟨0, 1⟩)])

end TopicView
