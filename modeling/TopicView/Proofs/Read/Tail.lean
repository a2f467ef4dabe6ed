import TopicView.Proofs.Read.Channel
import TopicView.Proofs.Read.Follow

/-!
# The tail of a log that changes

A live read shows what is appended to its partitions while it runs, whatever is appended to or
truncated in the meantime, and in whatever order the workers take their steps: nothing old, nothing
twice, and nothing lost but what was truncated before its cursor came to it.  Once the offsets of a
partition have run out its worker may crash, and what it has shown stays as it is.
-/

namespace TopicView

open Act

def Move.record? (log : Log) (target : TopicPartition) : Move Log.Change → Option RawRecord
  | alter change => change.record? log target
  | _ => none

theorem Move.record?_eq_none {m : Move Log.Change} (h : ∀ change, m ≠ .alter change) (log : Log)
    (target : TopicPartition) : m.record? log target = none := by
  cases m with
  | alter change => exact (h change rfl).elim
  | _ => rfl

namespace Stage

variable {x y : Stage Log LogCursor} {job : Job} {index : PartitionId} {first : Offset}
  {arrived : List RawRecord} {missed missed' : RawRecord → Prop}

/-- Every worker of a live read follows its partition, which stays where it is. -/
structure Live (job : Job) (x : Stage Log LogCursor) : Prop where
  faults_eq : x.state.faults = {}
  indexed : x.state.Indexed
  job_eq : x.read.job = job
  present : ∀ w ∈ x.read.workers, ∃ p, x.state.partition ⟨job.topic, w.partition⟩ = .ok p
  follows : x.Each (Worker.Follows job)
  relays : x.Each (Worker.Relays job)

theorem Live.after (h : x.Live job) {i : Nat} {w w' : Worker LogCursor} {act : Option Act}
    {s : Log} {sh : Shared} (hw : x.read.workers[i]? = some w)
    (hstep : w.Step Log.client x.read.job x.state x.read.shared act s sh w') :
    (x.after i act s sh w').Live job := by
  obtain ⟨hfaults, hindexed, rfl, hpresent, hfollows, hrelays⟩ := h
  obtain rfl := hstep.log_eq
  obtain ⟨p, hp⟩ := hpresent w (List.mem_of_getElem? hw)
  refine ⟨hfaults, hindexed, rfl, fun v hv ↦ ?_, ?_, ?_⟩
  · rcases List.mem_or_eq_of_mem_set hv with hv | rfl
    · exact hpresent v hv
    · exact ⟨p, hstep.partition_eq ▸ hp⟩
  · exact hfollows.after hw fun hold ↦ hold.step hfaults hp hstep (hindexed _ p hp)
  · exact hrelays.after hw fun hold ↦ hold.step hstep

theorem Live.alter (h : x.Live job) (change : Log.Change) :
    (x.note (change.apply x.state) x.read .altered).Live job := by
  refine ⟨?_, h.indexed.apply change, h.job_eq, fun w hw ↦ ?_, ?_, ?_⟩
  · exact (change.faults_apply x.state).trans h.faults_eq
  · obtain ⟨p, hp⟩ := h.present w hw
    rcases change.partition_apply hp with ⟨hsame, -⟩ | ⟨q, hq, -⟩
    · exact ⟨p, hsame⟩
    · exact ⟨q, hq⟩
  · exact h.follows.note rfl fun _ ↦ rfl
  · exact h.relays.note rfl fun _ ↦ rfl

theorem Live.next (h : x.Live job) {m : Move Log.Change}
    (hm : x.Next Log.client Log.Change.apply m y) : y.Live job := by
  cases hm
  case unchanged => exact h
  case worked hw hstep => exact h.after hw hstep
  case altered change => exact h.alter change
  all_goals
    exact ⟨h.faults_eq, h.indexed, h.job_eq, h.present, h.follows.note rfl fun _ ↦ rfl,
      h.relays.note rfl fun _ ↦ rfl⟩

theorem Live.partition_eq (h : x.Live job) :
    x.Each fun acts w ↦ ∀ a ∈ sentIn acts, a.partition = w.partition := by
  intro i w hw a ha
  exact (h.relays i w hw).partition_eq (h.follows i w hw).own ha

/-! ## What has been appended, pulled and missed -/

/-- All the records that a course adds to a partition. -/
def appended (target : TopicPartition) (x : Stage Log LogCursor) :
    List (Move Log.Change) → List RawRecord
  | [] => []
  | m :: rest => (m.record? x.state target).toList ++
      appended target (x.step Log.client Log.Change.apply m) rest

theorem appended_concat (target : TopicPartition) (x : Stage Log LogCursor)
    (moves : List (Move Log.Change)) (m : Move Log.Change) :
    x.appended target (moves ++ [m]) = x.appended target moves ++
      (m.record? (x.play Log.client Log.Change.apply moves).state target).toList := by
  induction moves generalizing x with
  | nil => simp [appended]
  | cons head rest ih => simp [appended, ih, play]

/-- At this stage the cursor on a partition is about to pass over a record that is gone. -/
def Misses (x : Stage Log LogCursor) (target : TopicPartition) (raw : RawRecord) : Prop :=
  ∃ w ∈ x.read.workers, w.partition = target.partition ∧
    ∃ p, x.state.partition target = .ok p ∧ w.Misses p raw

/-- A partition is accounted for by what has arrived there and by its worker. -/
def Tailing (job : Job) (index : PartitionId) (first : Offset) (arrived : List RawRecord)
    (missed : RawRecord → Prop) (x : Stage Log LogCursor) : Prop :=
  ∃ p, x.state.partition ⟨job.topic, index⟩ = .ok p ∧ p.Tracks index first arrived ∧
    x.Each fun acts w ↦ w.partition = index → w.Tails first arrived missed p acts

theorem Tailing.mono (h : x.Tailing job index first arrived missed)
    (himp : ∀ raw, missed raw → missed' raw) : x.Tailing job index first arrived missed' := by
  obtain ⟨p, hp, htracks, heach⟩ := h
  exact ⟨p, hp, htracks, heach.imp fun acts w hw hindex ↦ (hw hindex).mono himp⟩

theorem Tailing.alter (h : x.Tailing job index first arrived missed) (change : Log.Change) :
    (x.note (change.apply x.state) x.read .altered).Tailing job index first
      (arrived ++ (change.record? x.state ⟨job.topic, index⟩).toList) missed := by
  obtain ⟨p, hp, htracks, heach⟩ := h
  rcases change.partition_apply hp with ⟨hsame, hnone⟩ | ⟨q, hq, heffect⟩
  · rw [hnone, Option.toList_none, List.append_nil]
    exact ⟨p, hsame, htracks, heach.note rfl fun _ ↦ rfl⟩
  · have heach' : x.Each fun acts w ↦ w.partition = index →
        w.Tails first (arrived ++ (change.record? x.state ⟨job.topic, index⟩).toList) missed q
          acts := heach.imp fun acts w hw hindex ↦ by
      subst hindex
      exact (hw rfl).effect htracks heffect
    exact ⟨q, hq, htracks.effect heffect, heach'.note rfl fun _ ↦ rfl⟩

theorem Tailing.after (h : x.Tailing job index first arrived missed) (hlive : x.Live job)
    {i : Nat} {w w' : Worker LogCursor} {act : Option Act} {s : Log} {sh : Shared}
    (hw : x.read.workers[i]? = some w)
    (hstep : w.Step Log.client x.read.job x.state x.read.shared act s sh w')
    (hstart : w.partition = index → w.plan.start = first) :
    (x.after i act s sh w').Tailing job index first arrived
      fun raw ↦ missed raw ∨ x.Misses ⟨job.topic, index⟩ raw := by
  obtain ⟨p, hp, htracks, heach⟩ := h
  obtain rfl := hlive.job_eq
  obtain rfl := hstep.log_eq
  have hold : x.Each fun acts v ↦ v.partition = index →
      v.Tails first arrived (fun raw ↦ missed raw ∨ x.Misses ⟨x.read.job.topic, index⟩ raw) p
        acts :=
    heach.imp fun acts v hv hindex ↦ (hv hindex).mono fun _ ↦ Or.inl
  refine ⟨p, hp, htracks, hold.after hw fun _ hindex ↦ ?_⟩
  rw [hstep.partition_eq] at hindex
  subst hindex
  have hnew := (heach i w hw rfl).step (hlive.follows i w hw) hlive.faults_eq hp htracks
    (hstart rfl) hstep
  exact hnew.mono fun raw hraw ↦ hraw.imp_right fun hmiss ↦
    ⟨w, List.mem_of_getElem? hw, rfl, p, hp, hmiss⟩

theorem Tailing.note (h : x.Tailing job index first arrived missed) {r : Read LogCursor}
    {deed : Deed} (hworkers : r.workers = x.read.workers) (hdeed : ∀ i, deed.actOf? i = none) :
    (x.note x.state r deed).Tailing job index first arrived missed := by
  obtain ⟨p, hp, htracks, heach⟩ := h
  exact ⟨p, hp, htracks, heach.note hworkers hdeed⟩

theorem Tailing.next (h : x.Tailing job index first arrived missed) (hlive : x.Live job)
    (hstart : ∀ w ∈ x.read.workers, w.partition = index → w.plan.start = first)
    {m : Move Log.Change} (hm : x.Next Log.client Log.Change.apply m y) :
    y.Tailing job index first (arrived ++ (m.record? x.state ⟨job.topic, index⟩).toList)
      fun raw ↦ missed raw ∨ x.Misses ⟨job.topic, index⟩ raw := by
  cases hm
  case unchanged hown =>
    rw [Move.record?_eq_none hown, Option.toList_none, List.append_nil]
    exact h.mono fun _ ↦ Or.inl
  case worked i w w' act s sh hw hstep =>
    change Tailing job index first (arrived ++ []) _ _
    rw [List.append_nil]
    exact h.after hlive hw hstep (hstart w (List.mem_of_getElem? hw))
  case altered change => exact (h.alter change).mono fun _ ↦ Or.inl
  all_goals
    change Tailing job index first (arrived ++ []) _ _
    rw [List.append_nil]
    exact (h.note rfl fun _ ↦ rfl).mono fun _ ↦ Or.inl

/-! ## In every course -/

section Course

variable {log : Log} {settings : ReaderSettings} {decoder : Decoder} {request : Request}
  {cancelled : Bool} {ranges : List (PartitionId × Offsets)} {r : Read LogCursor}

/-- At some stage of a course the cursor on a partition passed over a record that was gone. -/
def Missed (x : Stage Log LogCursor) (target : TopicPartition) (moves : List (Move Log.Change))
    (raw : RawRecord) : Prop :=
  ∃ before, before <+: moves ∧ (x.play Log.client Log.Change.apply before).Misses target raw

theorem exists_live_plan (hlog : log.Reachable) (hmode : request.mode = .live)
    (h : Launched Log.client log settings decoder request cancelled ranges r)
    {e : PartitionId × Plan} (he : e ∈ r.plans) :
    ∃ p, log.Source request.topic e.1 p ∧ e.2 = ⟨p.firstAvailable, none⟩ := by
  obtain ⟨p, hsource, hplan⟩ := hlog.exists_source h he
  rw [hmode] at hplan
  exact ⟨p, hsource, hplan⟩

theorem live_play (hlog : log.Reachable) (hfaults : log.faults = {}) (hmode : request.mode = .live)
    (h : Launched Log.client log settings decoder request cancelled ranges r)
    (moves : List (Move Log.Change)) :
    ((start log r).play Log.client Log.Change.apply moves).Live
      ⟨request.topic, decoder, request.filter⟩ := by
  refine play_keeps Log.client Log.Change.apply (start log r) ?_ moves
    fun _ m _ hy ↦ hy.next (next_step Log.Change.apply m)
  have hplan {w : Worker LogCursor} (hw : w ∈ r.workers) :=
    exists_live_plan hlog hmode h (e := (w.partition, w.plan)) (List.mem_map_of_mem hw)
  refine ⟨hfaults, hlog.sound.indexed, by rw [h.made]; rfl, fun w hw ↦ ?_, fun i w hw ↦ ?_,
    each_start h (Worker.relays_start _)⟩
  · obtain ⟨p, hsource, -⟩ := hplan hw
    exact ⟨p, hsource.found⟩
  · have hmem : w ∈ r.workers := List.mem_of_getElem? hw
    obtain ⟨p, -, hlive⟩ := hplan hmem
    rw [h.eq_start hmem]
    exact Worker.follows_start _ _ (congrArg Plan.last hlive)

theorem tailing_play (hlog : log.Reachable) (hfaults : log.faults = {})
    (hmode : request.mode = .live)
    (h : Launched Log.client log settings decoder request cancelled ranges r)
    {p : PartitionLog} (hsource : log.Source request.topic index p)
    (moves : List (Move Log.Change)) :
    ((start log r).play Log.client Log.Change.apply moves).Tailing
      ⟨request.topic, decoder, request.filter⟩ index p.firstAvailable
      ((start log r).appended ⟨request.topic, index⟩ moves)
      ((start log r).Missed ⟨request.topic, index⟩ moves) := by
  -- Each move needs what holds before it, so the course grows at its end.
  induction moves using List.reverseRecOn with
  | nil =>
      have htracks := PartitionLog.tracks_start hsource.sound hsource.fits
      refine ⟨p, hsource.found, htracks, fun i w hw _ ↦ ?_⟩
      rw [h.eq_start (List.mem_of_getElem? hw)]
      exact Worker.tails_start _ _ _ _ _ _
  | append_singleton moves m ih =>
      have hframed := framed_play Log.client Log.Change.apply log r moves
      have hlive := live_play hlog hfaults hmode h moves
      rw [play_concat, appended_concat]
      refine (ih.next hlive (fun w hw hindex ↦ ?_) (next_step Log.Change.apply m)).mono
        fun raw hraw ↦ ?_
      · have hplan : (w.partition, w.plan) ∈ r.plans :=
          hframed.plans_eq ▸ List.mem_map_of_mem hw
        obtain ⟨q, hq, hstart⟩ := exists_live_plan hlog hmode h hplan
        subst hindex
        obtain rfl : q = p := Except.ok.inj (hq.found.symm.trans hsource.found)
        exact congrArg Plan.start hstart
      · rcases hraw with ⟨before, hbefore, hmisses⟩ | hmisses
        · exact ⟨before, hbefore.trans (List.prefix_append moves [m]), hmisses⟩
        · exact ⟨moves, List.prefix_append moves [m], hmisses⟩

end Course

/-- From a partition a read has shown a tail of what has `arrived` there: in ascending order, from
`first` on, without what the filter does not let pass, and while the read goes on without any gap
but for what it `missed`.  Its worker goes on with it unless the offsets have run out. -/
structure ShowsTail (request : Request) (decoder : Decoder) (index : PartitionId) (first : Offset)
    (arrived : List RawRecord) (missed : RawRecord → Prop) (x : Stage Log LogCursor) : Prop where
  taken_prefix : x.takenFrom index <+: x.sentFrom index
  ascending : (x.sentFrom index).Pairwise fun a b ↦ a.offset < b.offset
  /-- What is shown was appended at its offset, and nothing else was. -/
  shown : ∀ a ∈ x.sentFrom index, first ≤ a.offset ∧
    admits request.filter a.key a.value = true ∧ ∃ raw ∈ arrived, raw.decode decoder = a ∧
      ∀ other ∈ arrived, other.offset = a.offset → other = raw
  /-- What is below the position of the cursor was pulled, and is shown or still in hand if it
  passes the filter, or it was missed. -/
  settled : x.read.shared.cancelled = false → x.read.shared.counter.isExhausted = false →
    ∃ i w p, x.read.workers[i]? = some w ∧ w.partition = index ∧
      x.state.partition ⟨request.topic, index⟩ = .ok p ∧
      (w.phase.outcome? = none ∨ w.phase.outcome? = some .panicked ∧ ¬ p.Fits) ∧
      ∀ c, w.phase.cursor? = some c → ∀ raw ∈ arrived, raw.offset < c.position →
        .act i (.pulled raw) ∈ x.history ∧
          (admits request.filter (raw.decode decoder).key (raw.decode decoder).value = true →
            raw.decode decoder ∈ x.sentFrom index ++ w.inHand) ∨ missed raw

theorem showsTail_of_tails {request : Request} {decoder : Decoder} {cancelled : Bool}
    {capacity i : Nat} {w : Worker LogCursor} {p : PartitionLog}
    (hlive : x.Live ⟨request.topic, decoder, request.filter⟩)
    (hchanneled : x.Channeled capacity) (haccounted : x.Accounted cancelled)
    (hw : x.read.workers[i]? = some w)
    (hsent : x.sentFrom w.partition = sentIn (x.actsOf i))
    (hp : x.state.partition ⟨request.topic, w.partition⟩ = .ok p)
    (htracks : p.Tracks w.partition first arrived)
    (htails : w.Tails first arrived missed p (x.actsOf i)) :
    x.ShowsTail request decoder w.partition first arrived missed := by
  have hfollows := hlive.follows i w hw
  have hrelays := hlive.relays i w hw
  have hwithin : x.sentFrom w.partition <+:
      Job.shows ⟨request.topic, decoder, request.filter⟩ w.plan (pulledIn (x.actsOf i)) := by
    rw [hsent]
    exact (List.prefix_append _ _).trans hrelays.within
  refine ⟨hchanneled.taken_prefix.filter _, ?_, fun a ha ↦ ?_, fun hrunning hlimit ↦ ?_⟩
  · exact (Job.pairwise_shows htails.ascending).sublist hwithin.sublist
  · obtain ⟨raw, hraw, -, rfl, hadmits⟩ := Job.mem_shows.mp (hwithin.subset ha)
    have harrived := htails.within raw hraw
    exact ⟨(htracks.mem_bounds harrived).1, hadmits, raw, harrived, rfl,
      fun other hother heq ↦ htracks.eq_of_offset_eq hother harrived heq⟩
  · have hgoing : ¬ w.IsStopped := fun hstopped ↦ by
      rcases haccounted.stopped w (List.mem_of_getElem? hw) hstopped with hc | hfull
      · simp [hrunning] at hc
      · simp [hlimit] at hfull
    have hending : w.phase.outcome? = none ∨ w.phase.outcome? = some .panicked ∧ ¬ p.Fits := by
      rcases hfollows.unending with hnone | hstopped | hpanicked
      · exact .inl hnone
      · exact (hgoing hstopped).elim
      · exact .inr ⟨hpanicked, htails.full hpanicked⟩
    refine ⟨i, w, p, hw, rfl, hp, hending, fun c hc raw hraw hlt ↦ ?_⟩
    refine ((htails.followed c hc).settled raw hraw hlt).imp_left fun hpulled ↦ ?_
    refine ⟨mem_actsOf.mp (mem_pulledIn.mp hpulled), fun hadmits ↦ ?_⟩
    rw [hsent, hrelays.whole hgoing]
    exact Job.mem_shows.mpr ⟨raw, hpulled, hfollows.isPast_eq raw.offset, rfl, hadmits⟩

/-- In every course of a live read of a reachable log, among appends and truncations of any
partitions, each partition is shown as a tail from its first available offset at the start on. -/
theorem live_read_shows_tail {log : Log} (hlog : log.Reachable) (hfaults : log.faults = {})
    {settings : ReaderSettings} {decoder : Decoder} {request : Request}
    (hmode : request.mode = .live) {cancelled : Bool} {r : Read LogCursor}
    (hstart : startRead Log.client log settings decoder request cancelled = .ok (.running r))
    (moves : List (Move Log.Change))
    (hx : (start log r).play Log.client Log.Change.apply moves = x)
    (hindex : index ∈ request.partitions.toList) :
    ∃ o, log.offsets ⟨request.topic, index⟩ = .ok o ∧
      x.ShowsTail request decoder index o.firstAvailable
        ((start log r).appended ⟨request.topic, index⟩ moves)
        ((start log r).Missed ⟨request.topic, index⟩ moves) := by
  obtain ⟨ranges, hlaunched⟩ := exists_launched hstart
  have hframed := framed_play Log.client Log.Change.apply log r moves
  have hlive := live_play hlog hfaults hmode hlaunched moves
  have hchanneled : ((start log r).play Log.client Log.Change.apply moves).Channeled
      settings.channelCapacity.toNat := channeled_play hlaunched moves
  have haccounted : ((start log r).play Log.client Log.Change.apply moves).Accounted cancelled :=
    accounted_play hlaunched moves
  rw [← hlaunched.partitions_eq] at hindex
  obtain ⟨e, he, rfl⟩ := List.mem_map.mp hindex
  obtain ⟨p₀, hsource, -⟩ := exists_live_plan hlog hmode hlaunched he
  obtain ⟨p, hp, htracks, heach⟩ := tailing_play hlog hfaults hmode hlaunched hsource moves
  rw [hx] at hframed hlive hchanneled haccounted hp heach
  refine ⟨_, hsource.offsets_eq (by simp [hfaults]), ?_⟩
  obtain ⟨w, hw, hplan⟩ := List.mem_map.mp (hframed.plans_eq ▸ he : e ∈ x.read.plans)
  obtain ⟨i, hi⟩ := List.getElem?_of_mem hw
  have hpartition : w.partition = e.1 := congrArg Prod.fst hplan
  have hsent := sentFrom_eq hframed hlaunched.nodup_partitions hlive.partition_eq hi
  rw [← hpartition] at hp htracks heach ⊢
  exact showsTail_of_tails hlive hchanneled haccounted hi hsent hp htracks (heach i w hi rfl)

/-- A worker opens its cursor, a record is appended to its partition, and it has some more turns. -/
def appendMeanwhile (turns : Nat) : List (Move Log.Change) :=
  [.turn 0, .alter (.append ⟨"t", 0⟩ ⟨none, some [100], [], 0⟩)] ++ List.replicate turns (.turn 0)

theorem live_read_shows_tail_of_sample :
    Log.sample.Reachable ∧ Log.sample.faults = {} ∧ (sampleRequest .live 4).mode = .live ∧
      startRead Log.client Log.sample {} .lossy (sampleRequest .live 4) false =
        .ok (.running (sampleRead .live 4)) ∧
      0 ∈ (sampleRequest .live 4).partitions.toList ∧
      ((start Log.sample (sampleRead .live 4)).play Log.client Log.Change.apply
        (appendMeanwhile 4)).ShowsTail (sampleRequest .live 4) .lossy 0 2
          [⟨none, some [100], 0, 2, some 0, []⟩]
          ((start Log.sample (sampleRead .live 4)).Missed ⟨"t", 0⟩ (appendMeanwhile 4)) := by
  have hstart : startRead Log.client Log.sample {} .lossy (sampleRequest .live 4) false =
      .ok (.running (sampleRead .live 4)) := rfl
  have hindex : 0 ∈ (sampleRequest .live 4).partitions.toList := by decide
  obtain ⟨o, ho, htail⟩ := live_read_shows_tail Log.reachable_sample rfl rfl hstart
    (appendMeanwhile 4) rfl hindex
  obtain rfl := Result.ok.inj ho
  exact ⟨Log.reachable_sample, rfl, rfl, hstart, hindex, htail⟩

end Stage
end TopicView
