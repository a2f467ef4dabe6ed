import TopicView.Listing.Ranges
import TopicView.Proofs.Read.Errand
import TopicView.Proofs.Read.Newest

/-!
# Ranges and reads agree

The listing of the retained ranges computes on two offsets of each partition, a read goes through
its records.  Where the limit leaves room for all records, both tell the same of every partition.
-/

namespace TopicView

/-- The row of a range that is not inverted. -/
def RangeRow.make (partition : PartitionId) (o : Offsets) : RangeRow where
  partition := partition
  oldest := o.oldest
  newest := if o.isEmpty then none else some o.newest
  next := o.firstAvailable
  records := o.recordCount

theorem RangeRow.make?_eq {o : Offsets} (hnonneg : 0 ≤ o.oldest) (hle : o.oldest ≤ o.firstAvailable)
    (partition : PartitionId) : make? partition o = some (make partition o) := by
  have holdest : 0 ≤ o.oldest.toInt := Int64.le_iff_toInt_le.mp hnonneg
  have hle' := Int64.le_iff_toInt_le.mp hle
  rw [make?, Offsets.newest?_eq (by omega), Offsets.recordCount?_eq holdest hle, make]
  cases o.isEmpty <;> rfl

/-- A row tells what these records of its partition are. -/
structure RangeRow.Describes (row : RangeRow) (records : List Record) : Prop where
  count : row.records.toNat = records.length
  first : ∀ a, records.head? = some a → a.offset = row.oldest
  last : records.getLast?.map (·.offset) = row.newest
  absent : row.newest = none ↔ records = []
  next : row.next = row.oldest ↔ records = []

namespace PartitionLog

variable {index : PartitionId} {p : PartitionLog}

def offsets (p : PartitionLog) : Offsets := ⟨p.oldest, p.firstAvailable⟩

theorem isEmpty_offsets (h : p.Sound index) (hfits : p.Fits) :
    p.offsets.isEmpty = true ↔ p.records = [] := by
  have hfirst := firstAvailable_of_fits h hfits
  rw [← List.length_eq_zero_iff, Offsets.isEmpty, decide_eq_true_eq, ← Int64.toInt_inj]
  change p.firstAvailable.toInt = p.oldest.toInt ↔ _
  omega

theorem toNat_recordCount (h : p.Sound index) (hfits : p.Fits) :
    p.offsets.recordCount.toNat = p.records.length := by
  have hfirst := firstAvailable_of_fits h hfits
  have hcount := Offsets.toNat_recordCount (o := p.offsets) h.oldest_nonneg
    (oldest_le_firstAvailable h hfits)
  rw [hcount]
  change (p.firstAvailable.toInt - p.oldest.toInt).toNat = _
  omega

theorem newest_eq_getLast (h : p.Sound index) (hfits : p.Fits) :
    (if p.offsets.isEmpty then none else some p.offsets.newest) =
      p.records.getLast?.map (·.offset) := by
  by_cases hnil : p.records = []
  · rw [if_pos ((isEmpty_offsets h hfits).mpr hnil), hnil]
    rfl
  · have hfirst := firstAvailable_of_fits h hfits
    have hpos := List.length_pos_of_ne_nil hnil
    have hnonneg := h.oldest_nonneg
    have hnewest : p.offsets.newest.toInt = p.firstAvailable.toInt - 1 :=
      Offsets.toInt_newest (show -2 ^ 63 < p.firstAvailable.toInt by omega)
    have hlast : p.records[p.records.length - 1]? = some (p.records.getLast hnil) := by
      rw [← List.getLast?_eq_getElem?, List.getLast?_eq_some_getLast hnil]
    have hoffset := offset_of_getElem? h hlast
    have heq : p.offsets.newest = (p.records.getLast hnil).offset :=
      Int64.toInt_inj.mp (by omega)
    rw [if_neg fun hempty ↦ hnil ((isEmpty_offsets h hfits).mp hempty),
      List.getLast?_eq_some_getLast hnil, heq]
    rfl

/-- The row of a partition tells what its records are. -/
theorem describes (h : p.Sound index) (hfits : p.Fits) (decoder : Decoder) (index : PartitionId) :
    (RangeRow.make index p.offsets).Describes (p.records.map (·.decode decoder)) := by
  have hempty := isEmpty_offsets h hfits
  constructor
  case count => rw [List.length_map]; exact toNat_recordCount h hfits
  case first =>
    intro a ha
    rw [List.head?_map, List.head?_eq_getElem?] at ha
    obtain ⟨raw, hraw, rfl⟩ := Option.map_eq_some_iff.mp ha
    have hoffset : raw.offset.toInt = p.oldest.toInt := by
      simpa using offset_of_getElem? h hraw
    exact Int64.toInt_inj.mp hoffset
  case last =>
    rw [List.getLast?_map, Option.map_map]
    exact (newest_eq_getLast h hfits).symm
  case absent =>
    rw [List.map_eq_nil_iff, ← hempty]
    cases hisEmpty : p.offsets.isEmpty <;> simp [RangeRow.make, hisEmpty]
  case next =>
    rw [List.map_eq_nil_iff, ← hempty]
    simp [RangeRow.make, Offsets.isEmpty]

end PartitionLog

/-! ## Plans that hold everything -/

/-- Where the share covers all records, the plan is the retained range. -/
theorem plan_of_length_le {index : PartitionId} {p : PartitionLog} (h : p.Sound index)
    (hfits : p.Fits) {mode : Mode} (hmode : mode ≠ .live) {limit count : UInt64}
    (hle : p.records.length ≤ (share limit count).toInt) :
    plan mode limit count p.offsets = ⟨p.oldest, some p.offsets.newest⟩ := by
  have hfirst := PartitionLog.firstAvailable_of_fits h hfits
  have hnonneg := h.oldest_nonneg
  have hlt := p.firstAvailable.toInt_lt
  have hshare := toInt_share limit count
  have hnewest : p.offsets.newest.toInt = p.firstAvailable.toInt - 1 :=
    Offsets.toInt_newest (show -2 ^ 63 < p.firstAvailable.toInt by omega)
  generalize limit.toNat / count.toNat = q at hshare
  cases mode with
  | live => exact (hmode rfl).elim
  | beginning =>
      have hreach : ¬ clamp (p.oldest.toInt + (share limit count).toInt) < p.offsets.newest := by
        rw [Int64.lt_iff_toInt_lt, toInt_clamp, hnewest]
        omega
      simp only [plan]
      rw [if_neg]
      · rfl
      · exact hreach
  | mostRecent =>
      have hstart := toInt_start_mostRecent limit count p.offsets hnonneg
        (PartitionLog.oldest_le_firstAvailable h hfits)
      have hwhole : (plan .mostRecent limit count p.offsets).start = p.oldest := by
        apply Int64.toInt_inj.mp
        rw [hstart]
        change max p.oldest.toInt (p.firstAvailable.toInt - 1 - _) = p.oldest.toInt
        omega
      rw [← hwhole]
      rfl

namespace Log

variable {log : Log} {request : Request} {decoder : Decoder} {e : PartitionId × Plan}
  {p : PartitionLog}

/-- A plan that is the retained range selects all records. -/
theorem selection_whole (hsource : log.Source request.topic e.1 p) (hfilter : request.filter = none)
    (hplan : e.2 = ⟨p.oldest, some p.offsets.newest⟩) :
    log.selection request decoder e = p.records.map (·.decode decoder) := by
  have hall : ∀ raw ∈ p.records, e.2.start ≤ raw.offset ∧ raw.offset ≤ e.2.endOffset := by
    intro raw hraw
    obtain ⟨hle, hlt⟩ := PartitionLog.mem_range hsource.sound hsource.fits hraw
    have hnonneg := hsource.sound.oldest_nonneg
    rw [Int64.le_iff_toInt_le] at hle
    rw [Int64.lt_iff_toInt_lt] at hlt
    have hnewest : p.offsets.newest.toInt = p.firstAvailable.toInt - 1 :=
      Offsets.toInt_newest (show -2 ^ 63 < p.firstAvailable.toInt by omega)
    rw [hplan, Int64.le_iff_toInt_le, Int64.le_iff_toInt_le]
    refine ⟨hle, ?_⟩
    simp only [Plan.endOffset, Option.getD_some]
    omega
  have hfiltered : p.records.filter (fun raw ↦ e.2.start ≤ raw.offset ∧
      raw.offset ≤ e.2.endOffset) = p.records :=
    List.filter_eq_self.mpr fun raw hraw ↦ decide_eq_true (hall raw hraw)
  simp only [selection, hsource.found, hfiltered, hfilter]
  exact List.filter_eq_self.mpr fun a _ ↦ rfl

theorem give_of_source {topic : String} {index : PartitionId} (hfaults : log.faults = {})
    (hsource : log.Source topic index p) : (log.lookup topic index).replies.Give p.offsets := by
  have hoffsets : log.offsets ⟨topic, index⟩ = .ok p.offsets :=
    hsource.offsets_eq (by simp [hfaults])
  refine ⟨?_, ?_, PartitionLog.oldest_le_firstAvailable hsource.sound hsource.fits⟩
  · change log.oldestOffset ⟨topic, index⟩ = _
    rw [oldestOffset, hoffsets]
    rfl
  · change log.firstAvailableOffset ⟨topic, index⟩ = _
    rw [firstAvailableOffset, hoffsets]
    rfl

end Log

/-! ## The listing and the read -/

/-- The read of all that a listing lists. -/
def RangeQuery.request (q : RangeQuery) (mode : Mode) (limit : UInt64) : Request :=
  ⟨q.topic, .ofList q.partitions, mode, limit, none⟩

/-- What is listed can be read: some partitions that exist, whose offsets have not run out, of a
topic with a name. -/
structure RangeQuery.Readable (log : Log) (q : RangeQuery) : Prop where
  topic : ∃ c ∈ q.topic.toList, Text.isBlank c = false
  partitions : q.partitions ≠ []
  exist : ∀ index ∈ q.partitions, ∃ p, log.partition ⟨q.topic, index⟩ = .ok p ∧ p.Fits

theorem PartitionSet.mem_ofList {index : PartitionId} {partitions : List PartitionId} :
    index ∈ (ofList partitions).toList ↔ index ∈ partitions :=
  Keyed.mem_sortedSet

namespace RangeQuery

variable {log : Log} {q : RangeQuery}

theorem Readable.exists_source (h : q.Readable log) (hlog : log.Reachable) {index : PartitionId}
    (hindex : index ∈ q.partitions) : ∃ p, log.Source q.topic index p := by
  obtain ⟨p, hp, hfits⟩ := h.exist index hindex
  exact ⟨p, hp, hlog.sound _ p hp, hfits⟩

theorem upright_of_source {ranges : List (PartitionId × Offsets)}
    (h : ∀ e ∈ ranges, ∃ p, log.Source q.topic e.1 p ∧ e.2 = p.offsets) :
    ∀ e ∈ ranges, 0 ≤ e.2.oldest ∧ e.2.oldest ≤ e.2.firstAvailable := by
  intro e he
  obtain ⟨p, hsource, hoffsets⟩ := h e he
  rw [hoffsets]
  exact hsource.upright

/-- The listing has one row for each partition, made of the offsets of the partition. -/
theorem exists_rows (hlog : log.Reachable) (hfaults : log.faults = {}) (h : q.Readable log) :
    ∃ ranges, resolve q.topic (log.lookup q.topic) (PartitionSet.ofList q.partitions).toList =
        .ok ranges ∧
      q.rows log = .ok (ranges.map fun e ↦ .make e.1 e.2) ∧
      ranges.map Prod.fst = (PartitionSet.ofList q.partitions).toList ∧
      ∀ e ∈ ranges, ∃ p, log.Source q.topic e.1 p ∧ e.2 = p.offsets := by
  have hgive : ∀ index ∈ (PartitionSet.ofList q.partitions).toList,
      ∃ o, (log.lookup q.topic index).replies.Give o := by
    intro index hindex
    obtain ⟨p, hp⟩ := h.exists_source hlog (PartitionSet.mem_ofList.mp hindex)
    exact ⟨p.offsets, Log.give_of_source hfaults hp⟩
  obtain ⟨ranges, hranges⟩ := exists_resolve_ok q.topic hgive
  obtain ⟨hkeys, hown⟩ :=
    (resolve_eq_ok_iff (PartitionSet.ofList q.partitions).ascending).mp hranges
  have hown' : ∀ e ∈ ranges, ∃ p, log.Source q.topic e.1 p ∧ e.2 = p.offsets := by
    intro e he
    have hindex : e.1 ∈ q.partitions :=
      PartitionSet.mem_ofList.mp (hkeys ▸ List.mem_map_of_mem he)
    obtain ⟨p, hp⟩ := h.exists_source hlog hindex
    exact ⟨p, hp, (hown e he).eq (Lookup.single_replies _) (Log.give_of_source hfaults hp)⟩
  have hmade : ∀ e ∈ ranges, RangeRow.make? e.1 e.2 = some (.make e.1 e.2) := by
    intro e he
    obtain ⟨hnonneg, hle⟩ := upright_of_source hown' e he
    exact RangeRow.make?_eq hnonneg hle e.1
  have hwanted : partitionsToRead log q.topic q.partitions = .ok q.partitions := by
    simp [partitionsToRead, h.partitions]
    rfl
  refine ⟨ranges, hranges, ?_, hkeys, hown'⟩
  rw [rows, hwanted, Result.lift_ok, Result.ok_bind, hranges]
  change ranges.mapM (fun e ↦ (liftM (RangeRow.make? e.1 e.2) : Result ListingError RangeRow)) = _
  exact Result.mapM_eq_ok fun e he ↦ by rw [hmade e he, Result.lift_some]

/-- The errand of reading what is listed. -/
def errand (q : RangeQuery) (settings : ReaderSettings) (decoder : Decoder) (mode : Mode)
    (limit : UInt64) : Errand := ⟨settings, decoder, q.request mode limit, false⟩

theorem Readable.valid (h : q.Readable log) {settings : ReaderSettings}
    (hcapacity : settings.channelCapacity ≠ 0) (decoder : Decoder) (mode : Mode) (limit : UInt64) :
    (q.errand settings decoder mode limit).Valid := by
  obtain ⟨index, hindex⟩ := List.exists_mem_of_ne_nil _ h.partitions
  refine ⟨h.topic, ?_, fun p hp ↦ ?_, hcapacity⟩
  · exact List.ne_nil_of_mem (PartitionSet.mem_ofList.mpr hindex)
  · obtain ⟨part, hpart, -⟩ := h.exist p (PartitionSet.mem_ofList.mp hp)
    obtain ⟨-, -, hnonneg, -⟩ := Log.partition_eq_ok_iff.mp hpart
    exact Std.not_lt.mp hnonneg

end RangeQuery

namespace Stage

variable {δ : Type} {alter : δ → Log → Log} {log : Log} {q : RangeQuery}
  {settings : ReaderSettings} {decoder : Decoder} {mode : Mode} {limit : UInt64}
  {ranges : List (PartitionId × Offsets)} {r : Read LogCursor}

theorem Bounded.isDrained_of_atRest {request : Request} {capacity : Nat}
    {x : Stage Log LogCursor} (h : Bounded log request decoder r capacity x)
    (hfaults : log.faults = {}) (hpos : 0 < capacity) (hrest : x.AtRest Log.client) :
    x.IsDrained := by
  refine isDrained_iff.mpr ⟨queue_eq_nil_of_atRest hrest, ?_⟩
  apply h.channeled.isOver_of_atRest hpos h.delivering.listening hrest
  intro w hw hphase
  obtain ⟨i, hi⟩ := List.getElem?_of_mem hw
  rw [h.delivering.state_eq, h.delivering.job_eq]
  exact (h.delivering.served i w hi).act_ne_none hfaults hphase _

/-- Where the limit leaves room for all records, a drained read has delivered what the rows
describe. -/
theorem describes_takenFrom (hlog : log.Reachable) (hfaults : log.faults = {})
    (hmode : mode ≠ .live)
    (hlaunched : Launched Log.client log settings decoder (q.request mode limit) false ranges r)
    (hown : ∀ e ∈ ranges, ∃ p, log.Source q.topic e.1 p ∧ e.2 = p.offsets)
    (hshare : ∀ e ∈ ranges, e.2.recordCount.toNat ≤ (q.request mode limit).share)
    {moves : List (Move δ)} (hinner : ∀ m ∈ moves, m.IsInner) {x : Stage Log LogCursor}
    (hx : (start log r).play Log.client alter moves = x) (hdrained : x.IsDrained)
    {e : PartitionId × Offsets} (he : e ∈ ranges) :
    (RangeRow.make e.1 e.2).Describes (x.takenFrom e.1) := by
  have h : Bounded log (q.request mode limit) decoder r settings.channelCapacity.toNat x :=
    hx ▸ bounded_play hlog hfaults hmode hlaunched hinner
  have hwhole : ∀ d ∈ r.plans, ∃ p, log.Source q.topic d.1 p ∧ (d.1, p.offsets) ∈ ranges ∧
      log.selection (q.request mode limit) decoder d = p.records.map (·.decode decoder) := by
    intro d hd
    rw [hlog.plans_eq hlaunched] at hd
    obtain ⟨e, he, rfl⟩ := List.mem_map.mp hd
    obtain ⟨p, hsource, hoffsets⟩ := hown e he
    have hcount := PartitionLog.toNat_recordCount hsource.sound hsource.fits
    have hle := hshare e he
    rw [hoffsets, hcount] at hle
    have hplan : plan mode limit (UInt64.ofNat (q.request mode limit).partitions.size) e.2 =
        ⟨p.oldest, some p.offsets.newest⟩ := by
      rw [hoffsets]
      apply plan_of_length_le hsource.sound hsource.fits hmode
      exact (Int.le_toNat (share_nonneg _ _)).mp hle
    refine ⟨p, hsource, ?_, Log.selection_whole hsource rfl hplan⟩
    rw [← hoffsets]
    exact he
  have hselected : log.selected (q.request mode limit) decoder r.plans ≤ limit.toNat := by
    refine selected_le_limit hlaunched.partitions_eq fun d hd ↦ ?_
    obtain ⟨p, hsource, hmem, hselection⟩ := hwhole d hd
    have hle := hshare _ hmem
    rw [hselection, List.length_map]
    rwa [PartitionLog.toNat_recordCount hsource.sound hsource.fits] at hle
  have hindex : e.1 ∈ r.plans.map Prod.fst := by
    rw [hlaunched.partitions_eq, ← hlaunched.keys_eq]
    exact List.mem_map_of_mem he
  obtain ⟨d, hd, hde⟩ := List.mem_map.mp hindex
  obtain ⟨p, hsource, -, hselection⟩ := hwhole d hd
  obtain ⟨p', hsource', hoffsets⟩ := hown e he
  rw [← hde] at hsource'
  obtain rfl : p = p' := Except.ok.inj (hsource.found.symm.trans hsource'.found)
  rw [← hde, h.takenFrom_eq_selection hdrained hselected hd, hselection, hoffsets]
  exact PartitionLog.describes hsource.sound hsource.fits decoder d.1

/-- A row counts no record exactly where a bounded read finds nothing to read. -/
theorem recordCount_eq_zero_iff (hmode : mode ≠ .live) {e : PartitionId × Offsets}
    (h : ∃ p, log.Source q.topic e.1 p ∧ e.2 = p.offsets) :
    (RangeRow.make e.1 e.2).records = 0 ↔ isReadable mode e.2 = false := by
  obtain ⟨p, hsource, hoffsets⟩ := h
  have hcount := PartitionLog.toNat_recordCount hsource.sound hsource.fits
  rw [isReadable_eq_false_iff, and_iff_right hmode, hoffsets,
    PartitionLog.isEmpty_offsets hsource.sound hsource.fits, ← List.length_eq_zero_iff, ← hcount,
    ← UInt64.toNat_inj]
  rfl

theorem describes_nil (hmode : mode ≠ .live) {e : PartitionId × Offsets}
    (h : ∃ p, log.Source q.topic e.1 p ∧ e.2 = p.offsets)
    (hzero : (RangeRow.make e.1 e.2).records = 0) : (RangeRow.make e.1 e.2).Describes [] := by
  have hnone := (isReadable_eq_false_iff.mp ((recordCount_eq_zero_iff hmode h).mp hzero)).2
  obtain ⟨p, hsource, hoffsets⟩ := h
  rw [hoffsets] at hnone ⊢
  have hnil := (PartitionLog.isEmpty_offsets hsource.sound hsource.fits).mp hnone
  have hdescribes := PartitionLog.describes hsource.sound hsource.fits .lossy e.1
  rwa [hnil] at hdescribes

/-- The listing of the ranges and an unfiltered read agree on a log that does not change.  For each
partition asked for there is one row, and where the limit leaves room for all records it tells the
number, the first and the last of the records that a read delivers, in both bounded modes. -/
theorem rows_describe_reads (alter : δ → Log → Log) (hlog : log.Reachable)
    (hfaults : log.faults = {}) (h : q.Readable log) :
    ∃ rows, q.rows log = .ok rows ∧
      rows.map (·.partition) = (PartitionSet.ofList q.partitions).toList ∧
      ∀ (settings : ReaderSettings) (decoder : Decoder) (mode : Mode) (limit : UInt64),
        mode ≠ .live → 0 < settings.channelCapacity.toNat →
        settings.channelCapacity.toNat ≤ Channel.maxCapacity →
        (∀ row ∈ rows, row.records.toNat ≤ (q.request mode limit).share) →
        (startRead Log.client log settings decoder (q.request mode limit) false = .ok .emptyTopic ↔
          ∀ row ∈ rows, row.records = 0) ∧
        ((∀ row ∈ rows, row.records = 0) → ∀ row ∈ rows, row.Describes []) ∧
        ((∃ row ∈ rows, row.records ≠ 0) → ∃ r,
          startRead Log.client log settings decoder (q.request mode limit) false =
            .ok (.running r) ∧
          ∃ bound, ∀ (moves : List (Move δ)) (x : Stage Log LogCursor), (∀ m ∈ moves, m.IsInner) →
            (start log r).play Log.client alter moves = x →
              x.history.length ≤ bound ∧ (x.AtRest Log.client → x.IsDrained) ∧
              (x.IsDrained → ∀ row ∈ rows, row.Describes (x.takenFrom row.partition))) := by
  obtain ⟨ranges, hranges, hrows, hkeys, hown⟩ := RangeQuery.exists_rows hlog hfaults h
  refine ⟨_, hrows, ?_, ?_⟩
  · rw [List.map_map, ← hkeys]
    rfl
  intro settings decoder mode limit hmode hpos hmax hshare
  have hshare' : ∀ e ∈ ranges, e.2.recordCount.toNat ≤ (q.request mode limit).share :=
    fun e he ↦ hshare _ (List.mem_map_of_mem he)
  have hcapacity : settings.channelCapacity ≠ 0 := by
    rintro hzero
    simp [hzero] at hpos
  have hstart : startRead Log.client log settings decoder (q.request mode limit) false =
      (q.errand settings decoder mode limit).launch ranges := by
    have hvalid := h.valid hcapacity decoder mode limit
    exact (Errand.start_of_valid hvalid).trans
      (congrArg (· >>= (q.errand settings decoder mode limit).launch) hranges)
  have hall : (∀ row ∈ ranges.map fun e ↦ RangeRow.make e.1 e.2, row.records = 0) ↔
      ∀ e ∈ ranges, isReadable mode e.2 = false := by
    rw [List.forall_mem_map]
    exact forall₂_congr fun e he ↦ recordCount_eq_zero_iff hmode (hown e he)
  have hempty : (∀ row ∈ ranges.map fun e ↦ RangeRow.make e.1 e.2, row.records = 0) →
      ∀ row ∈ ranges.map fun e ↦ RangeRow.make e.1 e.2, row.Describes [] := by
    intro hzero row hmem
    obtain ⟨e, he, rfl⟩ := List.mem_map.mp hmem
    exact describes_nil hmode (hown e he) (hzero _ hmem)
  have hplanned : planAll? (q.request mode limit) ranges =
      some (planAll (q.request mode limit) ranges) :=
    planAll?_of_nonneg (RangeQuery.upright_of_source hown)
  rcases (q.errand settings decoder mode limit).launch_cases LogCursor ranges with
    ⟨hlaunch, hunreadable⟩ | ⟨⟨e, he, hread⟩, ⟨-, hnone | hlarge⟩ | ⟨plans, -, -, hlaunch⟩⟩
  · rw [hstart, hlaunch]
    refine ⟨iff_of_true rfl (hall.mpr hunreadable), hempty, ?_⟩
    rintro ⟨row, hmem, hne⟩
    exact (hne (hall.mpr hunreadable row hmem)).elim
  · cases hplanned.symm.trans hnone
  · exact (Nat.not_lt.mpr hmax hlarge).elim
  · have hsome : ¬ ∀ row ∈ ranges.map fun e ↦ RangeRow.make e.1 e.2, row.records = 0 := by
      intro hzero
      exact Bool.false_ne_true ((hall.mp hzero e he).symm.trans hread)
    obtain ⟨r, hr⟩ : ∃ r, (q.errand settings decoder mode limit).launch ranges =
        .ok (.running r) := ⟨_, hlaunch⟩
    rw [hr] at hstart
    obtain ⟨ranges', hlaunched⟩ := exists_launched hstart
    obtain rfl : ranges = ranges' := Result.ok.inj (hranges.symm.trans hlaunched.resolved)
    refine ⟨iff_of_false (by rw [hstart]; nofun) hsome, hempty, fun _ ↦ ⟨r, hstart,
      ahead log ⟨q.topic, decoder, none⟩ (start log r), fun moves x hinner hx ↦ ?_⟩⟩
    have hbounded : Bounded log (q.request mode limit) decoder r _ x :=
      hx ▸ bounded_play hlog hfaults hmode hlaunched hinner
    refine ⟨Nat.le_trans (Nat.le_add_right _ _) hbounded.delivering.bounded,
      hbounded.isDrained_of_atRest hfaults hlaunched.capacity_pos, fun hdrained row hmem ↦ ?_⟩
    obtain ⟨d, hd, rfl⟩ := List.mem_map.mp hmem
    exact describes_takenFrom hlog hfaults hmode hlaunched hown hshare' hinner hx hdrained hd

theorem rows_describe_reads_of_sample :
    let q : RangeQuery := ⟨"t", [1, 0]⟩
    let x := (start Log.sample (sampleRead .mostRecent 4)).play Log.client Empty.elim
      (Move.oneByOne 13 8 3)
    Log.sample.Reachable ∧ Log.sample.faults = {} ∧ q.Readable Log.sample ∧
      startRead Log.client Log.sample {} .lossy (q.request .mostRecent 4) false =
        .ok (.running (sampleRead .mostRecent 4)) ∧
      x.IsDrained ∧ ∃ rows, q.rows Log.sample = .ok rows ∧
        rows.map (·.records) = [2, 1] ∧
        ∀ row ∈ rows, row.Describes (x.takenFrom row.partition) := by
  intro q x
  have hreadable : q.Readable Log.sample := by
    refine ⟨⟨'t', by decide, by decide⟩, by decide, fun index hindex ↦ ?_⟩
    obtain rfl | rfl := List.mem_pair.mp hindex
    · exact ⟨_, rfl, by decide⟩
    · exact ⟨_, rfl, by decide⟩
  have hstart : startRead Log.client Log.sample {} .lossy (q.request .mostRecent 4) false =
      .ok (.running (sampleRead .mostRecent 4)) := by
    have hrequest : q.request .mostRecent 4 = sampleRequest .mostRecent 4 := by decide
    rw [hrequest]
    rfl
  have hdrained : x.IsDrained := rfl
  obtain ⟨rows, hrows, -, h⟩ := rows_describe_reads Empty.elim Log.reachable_sample rfl hreadable
  have hlisted : q.rows Log.sample = .ok [⟨0, 0, some 1, 2, 2⟩, ⟨1, 0, some 0, 1, 1⟩] := rfl
  obtain rfl := Result.ok.inj (hrows.symm.trans hlisted)
  obtain ⟨-, -, hread⟩ := h {} .lossy .mostRecent 4 nofun (by decide) (by decide) (by decide)
  obtain ⟨r, hr, bound, hcourse⟩ := hread ⟨_, List.mem_cons_self, by decide⟩
  obtain rfl := Started.running.inj (Result.ok.inj (hstart.symm.trans hr))
  obtain ⟨-, -, hdescribes⟩ := hcourse (Move.oneByOne 13 8 3) x (by decide) rfl
  exact ⟨Log.reachable_sample, rfl, hreadable, hstart, hdrained, _, hlisted, rfl,
    hdescribes hdrained⟩

/-- A topic whose name is blank can hold records.  Its range is listed, but no read of it is
accepted. -/
theorem blank_topic_is_listed_but_not_read :
    let log : Log := { topics := [(" ", [⟨0, [⟨none, some [118], 0, 0, some 0, []⟩], 1⟩])] }
    let q : RangeQuery := ⟨" ", [0]⟩
    log.Reachable ∧ log.faults = {} ∧ (∃ p, log.partition ⟨" ", 0⟩ = .ok p ∧ p.Fits) ∧
      q.rows log = .ok [⟨0, 0, some 0, 1, 1⟩] ∧
      ∀ settings decoder mode limit,
        startRead Log.client log settings decoder (q.request mode limit) false =
          .error (.invalidRequest .blankTopic) := by
  intro log q
  have hcreated := Log.Reachable.createTopic .empty (show Log.createTopic {} " " 1 = .ok _ from rfl)
  have hreachable : log.Reachable := hcreated.append ⟨" ", 0⟩ ⟨none, some [118], [], 0⟩
  refine ⟨hreachable, rfl, ⟨_, rfl, by decide⟩, rfl, ?_⟩
  intro settings decoder mode limit
  have hblank : (q.request mode limit).validate = .error .blankTopic :=
    if_pos (show Text.trim " " = "" by decide)
  exact Errand.start_rejected (e := q.errand settings decoder mode limit) hblank

end Stage
end TopicView
