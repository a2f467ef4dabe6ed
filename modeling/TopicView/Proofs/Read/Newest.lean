import TopicView.Proofs.Read.Delivery
import TopicView.Proofs.Read.Plan

/-!
# The newest records

A read of the newest records plans one record more of each partition than falls to it of the limit.
So it delivers the newest records exactly where every partition holds no more than its share;
elsewhere the limit cuts off newest records.
-/

namespace TopicView

def Request.share (request : Request) : Nat :=
  (TopicView.share request.limit (UInt64.ofNat request.partitions.size)).toInt.toNat

/-- The newest records of a partition that fall to it, in the order of their offsets. -/
def Log.newest (log : Log) (request : Request) (decoder : Decoder) (index : PartitionId) :
    List Record :=
  match log.partition ⟨request.topic, index⟩ with
  | .error _ => []
  | .ok p =>
    (p.records.drop (p.records.length - request.share)).map (·.decode decoder)

namespace Request

variable {request : Request}

theorem size_mul_share_le (request : Request) :
    request.partitions.size * request.share ≤ request.limit.toNat := by
  have hle := mul_share_le request.limit (UInt64.ofNat request.partitions.size)
  rwa [request.partitions.toNat_size] at hle

theorem share_pos (hpos : 0 < request.partitions.size)
    (hle : request.partitions.size ≤ request.limit.toNat) : 0 < request.share := by
  have hsize := request.partitions.toNat_size
  have hshare : 0 < (TopicView.share request.limit
      (UInt64.ofNat request.partitions.size)).toInt :=
    TopicView.share_pos (by omega) (by omega)
  unfold share
  omega

end Request

namespace Log

variable {log : Log} {request : Request} {decoder : Decoder} {e : PartitionId × Plan}
  {p : PartitionLog}

theorem newest_eq (hsource : log.Source request.topic e.1 p) : log.newest request decoder e.1 =
    (p.records.drop (p.records.length - request.share)).map (·.decode decoder) := by
  simp only [newest, hsource.found]

/-- The planned window holds one record more than the share, as far as there are records. -/
theorem selection_mostRecent (hsource : log.Source request.topic e.1 p)
    (hfilter : request.filter = none) (hplan : e.2 = plan .mostRecent request.limit
      (UInt64.ofNat request.partitions.size) ⟨p.oldest, p.firstAvailable⟩) :
    log.selection request decoder e =
      (p.records.drop (p.records.length - 1 - request.share)).map (·.decode decoder) := by
  have hsound := hsource.sound
  have hfits := hsource.fits
  have hnonneg := hsound.oldest_nonneg
  have hfirst := PartitionLog.firstAvailable_of_fits hsound hfits
  have hstart := toInt_start_mostRecent request.limit (UInt64.ofNat request.partitions.size)
    ⟨p.oldest, p.firstAvailable⟩ hnonneg (PartitionLog.oldest_le_firstAvailable hsound hfits)
  have hshare := TopicView.share_nonneg request.limit (UInt64.ofNat request.partitions.size)
  have hlast : e.2.last = some (p.firstAvailable - 1) := by
    simp only [hplan, plan, Offsets.newest]
  have hbounded : e.2.isBounded = true := by
    rw [Plan.isBounded, hlast]
    rfl
  have hwithin : ∀ raw ∈ p.recordsFrom e.2.start, Worker.isPast e.2 raw.offset = false := by
    intro raw hraw
    have hlt := (PartitionLog.mem_range hsound hfits (PartitionLog.mem_recordsFrom.mp hraw).1).2
    have hnewest : (p.firstAvailable - 1).toInt = p.firstAvailable.toInt - 1 :=
      Offsets.toInt_newest (o := ⟨p.oldest, p.firstAvailable⟩) (by dsimp only; omega)
    rw [Int64.lt_iff_toInt_lt] at hlt
    simp only [Worker.isPast, hlast, decide_eq_false_iff_not, Int64.lt_iff_toInt_lt]
    omega
  have hdrop : (e.2.start.toInt - p.oldest.toInt).toNat =
      p.records.length - 1 - request.share := by
    rw [hplan, hstart, Request.share]
    dsimp only
    omega
  rw [selection_eq hsource hbounded, Job.shows_eq_map hfilter hwithin,
    PartitionLog.recordsFrom_eq_drop hsound, hdrop]

end Log
/-- In ascending order, what is left after the next record does not begin like what is left
before it. -/
theorem not_prefix_of_ascending {raws : List RawRecord} (decoder : Decoder)
    (h : raws.Pairwise fun a b ↦ a.offset < b.offset) {i : Nat} (hi : i + 1 < raws.length) :
    ¬ (raws.drop (i + 1)).map (·.decode decoder) <+: (raws.drop i).map (·.decode decoder) := by
  intro hprefix
  rw [List.drop_eq_getElem_cons hi, List.drop_eq_getElem_cons (by omega : i < raws.length),
    List.map_cons, List.map_cons, List.cons_prefix_cons] at hprefix
  have hsame : raws[i + 1].offset = raws[i].offset := congrArg Record.offset hprefix.1
  have hlt := List.pairwise_iff_getElem.mp h i (i + 1) (by omega) hi (by omega)
  rw [hsame] at hlt
  exact Std.lt_irrefl hlt

namespace Stage

variable {δ : Type} {alter : δ → Log → Log} {log : Log} {request : Request} {decoder : Decoder}
  {r : Read LogCursor} {x : Stage Log LogCursor}

theorem selected_le_limit (hpartitions : r.plans.map Prod.fst = request.partitions.toList)
    (hle : ∀ e ∈ r.plans, (log.selection request decoder e).length ≤ request.share) :
    log.selected request decoder r.plans ≤ request.limit.toNat := by
  have hsum : log.selected request decoder r.plans ≤ r.plans.length * request.share :=
    Stage.sum_map_le_length_mul hle
  have hlength : r.plans.length = request.partitions.size := by
    rw [PartitionSet.size, ← hpartitions, List.length_map]
  rw [hlength] at hsum
  exact Nat.le_trans hsum request.size_mul_share_le

/-- A drained read of the newest records, unfiltered and with at least one record for each
partition, has delivered the newest records of every partition that fall to it exactly where no
partition holds more than its share. -/
theorem delivers_newest_iff (alter : δ → Log → Log) (hlog : log.Reachable)
    (hfaults : log.faults = {}) {settings : ReaderSettings} (hmode : request.mode = .mostRecent)
    (hfilter : request.filter = none)
    (hlimit : request.partitions.size ≤ request.limit.toNat)
    (hstart : startRead Log.client log settings decoder request false = .ok (.running r))
    {moves : List (Move δ)} (hinner : ∀ m ∈ moves, m.IsInner)
    (hx : (start log r).play Log.client alter moves = x) (hdrained : x.IsDrained) :
    (∀ index ∈ request.partitions.toList,
      x.takenFrom index = log.newest request decoder index) ↔
    ∀ index ∈ request.partitions.toList, ∀ p, log.partition ⟨request.topic, index⟩ = .ok p →
      p.records.length ≤ request.share := by
  obtain ⟨ranges, hlaunched⟩ := exists_launched hstart
  have hbounded : request.mode ≠ .live := by
    rw [hmode]
    nofun
  have h : Bounded log request decoder r settings.channelCapacity.toNat x :=
    hx ▸ bounded_play hlog hfaults hbounded hlaunched hinner
  have hplanned {e : PartitionId × Plan} (he : e ∈ r.plans) :
      ∃ p, log.Source request.topic e.1 p ∧ log.selection request decoder e =
        (p.records.drop (p.records.length - 1 - request.share)).map (·.decode decoder) := by
    obtain ⟨p, hsource, hplan⟩ := hlog.exists_source hlaunched he
    rw [hmode] at hplan
    exact ⟨p, hsource, Log.selection_mostRecent hsource hfilter hplan⟩
  rw [← hlaunched.partitions_eq]
  constructor
  · intro hall index hindex p hp
    obtain ⟨e, he, rfl⟩ := List.mem_map.mp hindex
    obtain ⟨p', hsource, hselection⟩ := hplanned he
    obtain rfl : p = p' := Except.ok.inj (hp.symm.trans hsource.found)
    by_contra hmore
    have hrequested : e.1 ∈ request.partitions.toList := hlaunched.partitions_eq ▸ hindex
    have hshare : 0 < request.share :=
      Request.share_pos (List.length_pos_of_mem hrequested) hlimit
    have hprefix := h.takenFrom_prefix he
    rw [hall e.1 hindex, Log.newest_eq hsource, hselection,
      show p.records.length - request.share = p.records.length - 1 - request.share + 1 by omega]
      at hprefix
    have hsorted := PartitionLog.pairwise_offset hsource.sound
    exact not_prefix_of_ascending decoder hsorted (by omega) hprefix
  · intro hfew index hindex
    obtain ⟨e, he, rfl⟩ := List.mem_map.mp hindex
    have hselected : log.selected request decoder r.plans ≤ request.limit.toNat := by
      refine selected_le_limit hlaunched.partitions_eq fun d hd ↦ ?_
      obtain ⟨q, hsource, hselection⟩ := hplanned hd
      have hle := hfew d.1 (List.mem_map_of_mem hd) q hsource.found
      rw [hselection, List.length_map, List.length_drop]
      omega
    obtain ⟨p, hsource, hselection⟩ := hplanned he
    have hle := hfew e.1 hindex p hsource.found
    rw [h.takenFrom_eq_selection hdrained hselected he, Log.newest_eq hsource, hselection,
      show p.records.length - 1 - request.share = p.records.length - request.share by omega]

theorem delivers_newest_of_sample :
    Log.sample.Reachable ∧ Log.sample.faults = {} ∧
      (sampleRequest .mostRecent 4).mode = .mostRecent ∧
      (sampleRequest .mostRecent 4).filter = none ∧
      (sampleRequest .mostRecent 4).partitions.size ≤ (sampleRequest .mostRecent 4).limit.toNat ∧
      startRead Log.client Log.sample {} .lossy (sampleRequest .mostRecent 4) false =
        .ok (.running (sampleRead .mostRecent 4)) ∧
      (∀ m ∈ Move.oneByOne 13 8 3, m.IsInner) ∧
      ((start Log.sample (sampleRead .mostRecent 4)).play Log.client Empty.elim
        (Move.oneByOne 13 8 3)).IsDrained ∧
      ∀ index ∈ (sampleRequest .mostRecent 4).partitions.toList,
        ((start Log.sample (sampleRead .mostRecent 4)).play Log.client Empty.elim
          (Move.oneByOne 13 8 3)).takenFrom index =
            Log.sample.newest (sampleRequest .mostRecent 4) .lossy index := by
  have hstart : startRead Log.client Log.sample {} .lossy (sampleRequest .mostRecent 4) false =
      .ok (.running (sampleRead .mostRecent 4)) := rfl
  have hdrained : ((start Log.sample (sampleRead .mostRecent 4)).play Log.client Empty.elim
      (Move.oneByOne 13 8 3)).IsDrained := rfl
  have hiff := delivers_newest_iff Empty.elim Log.reachable_sample rfl rfl rfl (by decide) hstart
    (by decide) rfl hdrained
  refine ⟨Log.reachable_sample, rfl, rfl, rfl, by decide, hstart, by decide, hdrained,
    hiff.mpr fun index hindex p hp ↦ ?_⟩
  obtain rfl | rfl : index = 0 ∨ index = 1 := by simpa [sampleRequest] using hindex
  · obtain rfl := Except.ok.inj hp
    decide
  · obtain rfl := Except.ok.inj hp
    decide

/-- Of two records in one partition a read of the newest one delivers the older one. -/
theorem misses_newest_of_sample :
    let request : Request := { sampleRequest .mostRecent 1 with partitions := ⟨[0], by decide⟩ }
    let r : Read LogCursor := .make request .lossy 256 false (planAll request [(0, ⟨0, 2⟩)])
    let x := (start Log.sample r).play Log.client Empty.elim (Move.oneByOne 13 0 1)
    Log.sample.Reachable ∧ Log.sample.faults = {} ∧
      startRead Log.client Log.sample {} .lossy request false = .ok (.running r) ∧
      (∀ m ∈ Move.oneByOne 13 0 1, m.IsInner) ∧ x.IsDrained ∧
      (x.takenFrom 0).map (·.offset) = [0] ∧
      (Log.sample.newest request .lossy 0).map (·.offset) = [1] :=
  ⟨Log.reachable_sample, rfl, rfl, by decide, rfl, rfl, rfl⟩

end Stage
end TopicView
