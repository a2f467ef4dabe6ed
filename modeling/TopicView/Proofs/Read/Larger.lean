import TopicView.Proofs.Read.Extent
import TopicView.Proofs.Read.Fault
import TopicView.Proofs.Read.Range

/-!
# Larger limits

A read of one partition delivers all that it would deliver with a smaller limit.  The window of the
newest records goes back further for a larger limit and is read from its front, but what lies in
front of the smaller window is never more than the limit has grown by.
-/

namespace TopicView

/-! ## Windows -/

theorem share_one_growth {limit limit' : UInt64} (h : limit ≤ limit') :
    (share limit' 1).toInt - (share limit 1).toInt ≤ limit'.toNat - limit.toNat := by
  have hle := UInt64.le_iff_toNat_le.mp h
  have hshare := toInt_share limit 1
  have hshare' := toInt_share limit' 1
  rw [UInt64.toNat_one, Nat.div_one] at hshare hshare'
  generalize limit.toNat = n at *
  generalize limit'.toNat = n' at *
  omega

/-- Of the only partition of a read a larger limit plans more; it goes back by no more offsets than
the limit has grown by. -/
theorem plan_widens {o : Offsets} (holdest : 0 ≤ o.oldest.toInt) (hle : o.oldest ≤ o.firstAvailable)
    {mode : Mode} (hmode : mode ≠ .live) {limit limit' : UInt64} (h : limit ≤ limit') :
    (plan mode limit' 1 o).start.toInt ≤ (plan mode limit 1 o).start.toInt ∧
      (plan mode limit 1 o).endOffset.toInt ≤ (plan mode limit' 1 o).endOffset.toInt ∧
      (plan mode limit 1 o).start.toInt - (plan mode limit' 1 o).start.toInt ≤
        limit'.toNat - limit.toNat := by
  have hmono := share_mono 1 h
  have hgrowth := share_one_growth h
  cases mode with
  | live => exact (hmode rfl).elim
  | beginning =>
      have hstart (n : UInt64) : (plan .beginning n 1 o).start = o.oldest := rfl
      rw [hstart, hstart, toInt_end_beginning limit 1 holdest hle,
        toInt_end_beginning limit' 1 holdest hle]
      split_ifs <;> omega
  | mostRecent =>
      have hend (n : UInt64) : (plan .mostRecent n 1 o).endOffset = o.newest := rfl
      rw [hend, hend, toInt_start_mostRecent limit 1 o holdest hle,
        toInt_start_mostRecent limit' 1 o holdest hle]
      omega

namespace PartitionLog

variable {index : PartitionId} {p : PartitionLog}

/-- The segment of a plan lies in the segment of a wider one, behind at most as many records as the
wider one starts earlier. -/
theorem segment_within {inner outer : Plan} (h : p.Sound index)
    (hinner : p.Holds inner) (houter : p.Holds outer)
    (hstart : outer.start.toInt ≤ inner.start.toInt)
    (hend : inner.endOffset.toInt ≤ outer.endOffset.toInt) :
    ∃ front back, p.segment outer = front ++ p.segment inner ++ back ∧
      front.length ≤ (inner.start.toInt - outer.start.toInt).toNat := by
  have hstarts := hinner.start_le
  have holdest := houter.oldest_le
  obtain ⟨d, hd⟩ : ∃ d : Nat, inner.start.toInt = outer.start.toInt + d :=
    ⟨(inner.start.toInt - outer.start.toInt).toNat, by omega⟩
  obtain ⟨rest, hsize⟩ : ∃ rest, outer.size = d + (inner.size + rest) :=
    ⟨outer.size - (d + inner.size), by unfold Plan.size; omega⟩
  have hdrop : (inner.start.toInt - p.oldest.toInt).toNat =
      (outer.start.toInt - p.oldest.toInt).toNat + d := by omega
  rw [segment_eq h houter, segment_eq h hinner, hsize, List.take_add, List.take_add,
    List.drop_drop, ← hdrop, ← List.append_assoc]
  refine ⟨_, _, rfl, ?_⟩
  rw [List.length_take]
  omega

/-- Of the only partition of a read a larger limit plans the same records, some in front of them
and some behind them; in front no more than the limit has grown by. -/
theorem segment_plan_widens (h : p.Sound index) (hfits : p.Fits) {mode : Mode}
    (hmode : mode ≠ .live) {limit limit' : UInt64} (hle : limit ≤ limit') :
    ∃ front back, p.segment (plan mode limit' 1 p.offsets) =
        front ++ p.segment (plan mode limit 1 p.offsets) ++ back ∧
      front.length + limit.toNat ≤ limit'.toNat := by
  obtain ⟨hstart, hend, hgrowth⟩ := plan_widens (o := p.offsets) h.oldest_nonneg
    (oldest_le_firstAvailable h hfits) hmode hle
  obtain ⟨front, back, hsegment, hlength⟩ := segment_within h
    (holds_plan h hfits hmode limit 1) (holds_plan h hfits hmode limit' 1) hstart hend
  have hle' := UInt64.le_iff_toNat_le.mp hle
  refine ⟨front, back, hsegment, ?_⟩
  change front.length ≤ ((plan mode limit 1 p.offsets).start.toInt -
    (plan mode limit' 1 p.offsets).start.toInt).toNat at hlength
  omega

end PartitionLog

theorem matching_append (request : Request) (decoder : Decoder) (raws more : List RawRecord) :
    matching request decoder (raws ++ more) =
      matching request decoder raws ++ matching request decoder more := by
  simp only [matching, List.map_append, List.filter_append]

theorem length_matching_le (request : Request) (decoder : Decoder) (raws : List RawRecord) :
    (matching request decoder raws).length ≤ raws.length :=
  (List.length_filter_le _ _).trans (List.length_map _).le

/-- A prefix that may be longer by what has been put in front of the list reaches as far. -/
theorem take_infix_take {α : Type} {front l back : List α} {n m : Nat}
    (h : front.length + n ≤ m) : l.take n <:+: (front ++ l ++ back).take m := by
  obtain ⟨k, rfl⟩ := Nat.exists_eq_add_of_le h
  rw [List.append_assoc, Nat.add_assoc, List.take_length_add_append, List.take_add]
  have hfront : l.take n <+: (l ++ back).take n := by
    rw [List.prefix_take_iff]
    exact ⟨(List.take_prefix n l).trans (List.prefix_append l back), List.length_take_le n l⟩
  exact ((hfront.trans (List.prefix_append _ _)).isInfix).trans (List.suffix_append _ _).isInfix

namespace Log

variable {log : Log} {request : Request} {decoder : Decoder} {index : PartitionId}
  {p : PartitionLog} {limit' : UInt64}

theorem selection_widens (hsource : log.Source request.topic index p) (hmode : request.mode ≠ .live)
    (hlimit : request.limit ≤ limit') :
    ∃ front back, log.selection { request with limit := limit' } decoder
        (index, plan request.mode limit' 1 p.offsets) =
      front ++ log.selection request decoder
        (index, plan request.mode request.limit 1 p.offsets) ++ back ∧
      front.length + request.limit.toNat ≤ limit'.toNat := by
  obtain ⟨front, back, hsegment, hlength⟩ :=
    PartitionLog.segment_plan_widens hsource.sound hsource.fits hmode hlimit
  have hinner : log.selection request decoder (index, plan request.mode request.limit 1 p.offsets) =
      matching request decoder (p.segment (plan request.mode request.limit 1 p.offsets)) :=
    selection_eq_matching hsource.found
  have houter : log.selection { request with limit := limit' } decoder
      (index, plan request.mode limit' 1 p.offsets) =
        matching request decoder (p.segment (plan request.mode limit' 1 p.offsets)) :=
    selection_eq_matching hsource.found
  refine ⟨matching request decoder front, matching request decoder back, ?_, ?_⟩
  · rw [hinner, houter, hsegment, matching_append, matching_append]
  · exact (Nat.add_le_add_right (length_matching_le request decoder front) _).trans hlength

end Log

/-! ## Reads of one partition -/

theorem Errand.exists_running_iff {κ : Type} {e : Errand} {ranges : List (PartitionId × Offsets)}
    (h : ∀ d ∈ ranges, 0 ≤ d.2.oldest ∧ d.2.oldest ≤ d.2.firstAvailable) :
    (∃ r : Read κ, e.launch ranges = .ok (.running r)) ↔
      (∃ d ∈ ranges, isReadable e.request.mode d.2 = true) ∧
        e.settings.channelCapacity.toNat ≤ Channel.maxCapacity := by
  rcases e.launch_cases κ ranges with
    ⟨hlaunch, hunreadable⟩ | ⟨hreadable, ⟨hlaunch, hcrash⟩ | ⟨plans, -, hcapacity, hlaunch⟩⟩
  · refine iff_of_false (by rw [hlaunch]; rintro ⟨r, hr⟩; cases hr) ?_
    rintro ⟨⟨d, hd, hread⟩, -⟩
    exact Bool.false_ne_true ((hunreadable d hd).symm.trans hread)
  · refine iff_of_false (by rw [hlaunch]; rintro ⟨r, hr⟩; cases hr) fun hcapacity ↦ ?_
    rcases hcrash with hnone | hlarge
    · cases (planAll?_of_nonneg h).symm.trans hnone
    · exact Nat.not_lt.mpr hcapacity.2 hlarge
  · exact iff_of_true ⟨_, hlaunch⟩ ⟨hreadable, hcapacity⟩

/-- Whether a read of a log is started does not depend on its limit. -/
theorem exists_start_of_limit {log : Log} (hlog : log.Reachable) {settings : ReaderSettings}
    {decoder : Decoder} {request : Request} {cancelled : Bool} {r : Read LogCursor}
    (h : startRead Log.client log settings decoder request cancelled = .ok (.running r))
    (limit' : UInt64) : ∃ r', startRead Log.client log settings decoder
      { request with limit := limit' } cancelled = .ok (.running r') := by
  obtain ⟨ranges, hlaunched⟩ := exists_launched h
  let e : Errand := ⟨settings, decoder, request, cancelled⟩
  let e' : Errand := ⟨settings, decoder, { request with limit := limit' }, cancelled⟩
  have hsettings : settings.channelCapacity ≠ 0 := fun hzero ↦ by
    have hpos := hlaunched.capacity_pos
    rw [hzero] at hpos
    exact Nat.lt_irrefl 0 hpos
  obtain ⟨htopic, hpartitions, hnonneg⟩ := Request.validate_eq_ok_iff.mp hlaunched.valid
  have hstart : e.start Log.client log = e.launch ranges :=
    (Errand.start_of_valid ⟨htopic, hpartitions, hnonneg, hsettings⟩).trans
      (congrArg (· >>= e.launch) hlaunched.resolved)
  have hstart' : e'.start Log.client log = e'.launch ranges :=
    (Errand.start_of_valid ⟨htopic, hpartitions, hnonneg, hsettings⟩).trans
      (congrArg (· >>= e'.launch) hlaunched.resolved)
  have hupright : ∀ d ∈ ranges, 0 ≤ d.2.oldest ∧ d.2.oldest ≤ d.2.firstAvailable := by
    intro d hd
    obtain ⟨p, hsource, hrange⟩ := hlog.exists_source_of_range hlaunched hd
    rw [hrange]
    exact hsource.upright
  obtain ⟨r', hr'⟩ : ∃ r' : Read LogCursor, e'.launch ranges = .ok (.running r') :=
    (Errand.exists_running_iff hupright).mpr
      ((Errand.exists_running_iff (e := e) hupright).mp ⟨r, hstart.symm.trans h⟩)
  exact ⟨r', hstart'.trans hr'⟩

namespace Stage

variable {δ : Type} {alter : δ → Log → Log} {log : Log} {request : Request} {decoder : Decoder}
  {r : Read LogCursor} {capacity : Nat} {x : Stage Log LogCursor} {e : PartitionId × Plan}

namespace Bounded

/-- Of its only partition a read delivers the first records of the selection, up to the limit. -/
theorem taken_prefix (h : Bounded log request decoder r capacity x) (hone : r.plans = [e]) :
    x.taken <+: (log.selection request decoder e).take request.limit.toNat := by
  have he : e ∈ r.plans := hone ▸ List.mem_singleton_self e
  have hall : x.takenFrom e.1 = x.taken := by
    refine List.filter_eq_self.mpr fun a ha ↦ decide_eq_true ?_
    have hmem := mem_partitions_of_sent h.framed h.partition_eq (h.channeled.taken_prefix.subset ha)
    rwa [hone, List.map_singleton, List.mem_singleton] at hmem
  have hcounted := h.counted.sent_add_pending
  have hlimit := h.counted.emitted_le
  have hlength := h.channeled.taken_prefix.length_le
  rw [List.prefix_take_iff]
  exact ⟨hall ▸ h.takenFrom_prefix he, by omega⟩

theorem taken_eq_take (h : Bounded log request decoder r capacity x) (hone : r.plans = [e])
    (hdrained : x.IsDrained) :
    x.taken = (log.selection request decoder e).take request.limit.toNat := by
  have hlength := h.length_taken hdrained
  rw [hone, Log.selected, List.map_singleton, List.sum_singleton] at hlength
  exact (h.taken_prefix hone).eq_of_length (by rw [hlength, List.length_take])

end Bounded

/-- The plan of a read of one partition. -/
theorem exists_only_plan (hlog : log.Reachable) {settings : ReaderSettings}
    {ranges : List (PartitionId × Offsets)} {index : PartitionId}
    (hlaunched : Launched Log.client log settings decoder request false ranges r)
    (hone : request.partitions.toList = [index]) : ∃ p, log.Source request.topic index p ∧
      r.plans = [(index, plan request.mode request.limit 1 p.offsets)] := by
  have hkeys := hlaunched.partitions_eq
  rw [hone] at hkeys
  obtain ⟨e, he, rfl⟩ := List.map_eq_singleton_iff.mp hkeys
  obtain ⟨p, hsource, hplan⟩ := hlog.exists_source hlaunched (he ▸ List.mem_singleton_self e)
  have hsize : request.partitions.size = 1 := congrArg List.length hone
  rw [hsize] at hplan
  exact ⟨p, hsource, he.trans (congrArg (fun plan ↦ [(e.1, plan)]) hplan)⟩

/-- With a larger limit a read of one partition is started as well, takes no more than a certain
number of moves, and comes to rest only when it is drained.  Then it has delivered, in one piece,
every record that the read with the smaller limit delivers in any of its courses, whatever the
filter. -/
theorem larger_limit_keeps_records (alter : δ → Log → Log) (hlog : log.Reachable)
    (hfaults : log.faults = {}) {settings : ReaderSettings} (hmode : request.mode ≠ .live)
    {index : PartitionId} (hone : request.partitions.toList = [index]) {limit' : UInt64}
    (hlimit : request.limit ≤ limit')
    (hstart : startRead Log.client log settings decoder request false = .ok (.running r)) :
    ∃ r', startRead Log.client log settings decoder { request with limit := limit' } false =
        .ok (.running r') ∧
      ∃ bound, ∀ (moves' : List (Move δ)) (y : Stage Log LogCursor), (∀ m ∈ moves', m.IsInner) →
        (start log r').play Log.client alter moves' = y →
          y.history.length ≤ bound ∧ (y.AtRest Log.client → y.IsDrained) ∧
          (y.IsDrained → ∀ (moves : List (Move δ)) (x : Stage Log LogCursor),
            (∀ m ∈ moves, m.IsInner) → (start log r).play Log.client alter moves = x →
              x.taken <:+: y.taken) := by
  obtain ⟨r', hstart'⟩ := exists_start_of_limit hlog hstart limit'
  obtain ⟨ranges, hlaunched⟩ := exists_launched hstart
  obtain ⟨ranges', hlaunched'⟩ := exists_launched hstart'
  refine ⟨r', hstart', ahead log ⟨request.topic, decoder, request.filter⟩ (start log r'),
    fun moves' y hinner' hy ↦ ?_⟩
  have hmode' : { request with limit := limit' }.mode ≠ .live := hmode
  have hbounded' : Bounded log { request with limit := limit' } decoder r'
      settings.channelCapacity.toNat y := hy ▸ bounded_play hlog hfaults hmode' hlaunched' hinner'
  refine ⟨Nat.le_trans (Nat.le_add_right _ _) hbounded'.delivering.bounded,
    hbounded'.isDrained_of_atRest hfaults hlaunched'.capacity_pos,
    fun hdrained moves x hinner hx ↦ ?_⟩
  have hbounded : Bounded log request decoder r settings.channelCapacity.toNat x :=
    hx ▸ bounded_play hlog hfaults hmode hlaunched hinner
  obtain ⟨p, hsource, hplans⟩ := exists_only_plan hlog hlaunched hone
  obtain ⟨p', hsource', hplans'⟩ := exists_only_plan hlog hlaunched' hone
  obtain rfl : p = p' := Except.ok.inj (hsource.found.symm.trans hsource'.found)
  obtain ⟨front, back, hselection, hlength⟩ := Log.selection_widens hsource hmode hlimit
  refine (hbounded.taken_prefix hplans).isInfix.trans ?_
  rw [hbounded'.taken_eq_take hplans' hdrained]
  change _ <:+: (log.selection { request with limit := limit' } decoder
    (index, plan request.mode limit' 1 p.offsets)).take limit'.toNat
  rw [hselection]
  exact take_infix_take hlength

/-- The newest records of the first partition only. -/
def newestRequest (limit : UInt64) : Request :=
  { sampleRequest .mostRecent limit with partitions := ⟨[0], by decide⟩ }

def newestRead (limit : UInt64) : Read LogCursor :=
  .make (newestRequest limit) .lossy 256 false (planAll (newestRequest limit) [(0, ⟨0, 2⟩)])

/-- Of two records the window of the newest one holds both; a limit of one cuts off the newer one,
a limit of two delivers both. -/
theorem larger_limit_keeps_sample :
    let x := (start Log.sample (newestRead 1)).play Log.client Empty.elim (Move.oneByOne 13 0 1)
    let y := (start Log.sample (newestRead 2)).play Log.client Empty.elim (Move.oneByOne 13 0 2)
    Log.sample.Reachable ∧ Log.sample.faults = {} ∧ (newestRequest 1).mode ≠ .live ∧
      (newestRequest 1).partitions.toList = [0] ∧ (newestRequest 1).limit ≤ 2 ∧
      startRead Log.client Log.sample {} .lossy (newestRequest 1) false =
        .ok (.running (newestRead 1)) ∧
      startRead Log.client Log.sample {} .lossy { newestRequest 1 with limit := 2 } false =
        .ok (.running (newestRead 2)) ∧
      (∀ m ∈ Move.oneByOne 13 0 1, m.IsInner) ∧ (∀ m ∈ Move.oneByOne 13 0 2, m.IsInner) ∧
      y.IsDrained ∧ x.taken.map (·.offset) = [0] ∧ y.taken.map (·.offset) = [0, 1] ∧
      x.taken <:+: y.taken := by
  intro x y
  have hstart : startRead Log.client Log.sample {} .lossy (newestRequest 1) false =
      .ok (.running (newestRead 1)) := rfl
  have hstart' : startRead Log.client Log.sample {} .lossy { newestRequest 1 with limit := 2 }
      false = .ok (.running (newestRead 2)) := rfl
  have hmode : (newestRequest 1).mode ≠ .live := nofun
  have hdrained : y.IsDrained := rfl
  obtain ⟨r', hr', bound, h⟩ := larger_limit_keeps_records Empty.elim Log.reachable_sample rfl
    hmode rfl (show (newestRequest 1).limit ≤ 2 by decide) hstart
  obtain rfl := Started.running.inj (Result.ok.inj (hstart'.symm.trans hr'))
  obtain ⟨-, -, hkeeps⟩ := h (Move.oneByOne 13 0 2) y (by decide) rfl
  exact ⟨Log.reachable_sample, rfl, hmode, rfl, by decide, hstart, hstart', by decide, by decide,
    hdrained, rfl, rfl, hkeeps hdrained (Move.oneByOne 13 0 1) x (by decide) rfl⟩

end Stage
end TopicView
