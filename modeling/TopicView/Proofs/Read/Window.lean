import TopicView.Proofs.Log.Archive
import TopicView.Proofs.Read.Ask
import TopicView.Proofs.Read.Channel
import TopicView.Proofs.Read.Plan

/-!
# A bounded read of a log that moves

The plan of a bounded read is made of what its partitions hold when it starts.  Whatever is appended
and truncated from then on, a worker shows only records that were there at that time and that are
still there when its cursor yields them, and it completes only when every other record of its plan
was dropped before the cursor came to it.
-/

namespace TopicView

open Act

namespace Worker

variable {job : Job} {log s' : Log} {sh sh' : Shared} {w w' : Worker LogCursor}
  {acts acts' : List Act} {act : Option Act} {p p₀ : PartitionLog} {index : PartitionId}
  {target : TopicPartition} {plan : Plan} {pulled : List RawRecord}
  {pulls pulls' : Log → LogCursor → Prop} {raw : RawRecord}

/-- One of the pulls yielded the record, which was retained then. -/
def Yields (target : TopicPartition) (pulls : Log → LogCursor → Prop) (raw : RawRecord) : Prop :=
  ∃ s c p, pulls s c ∧ s.partition target = .ok p ∧ raw ∈ p.records ∧ (c.pull s).1 = .record raw

/-- At one of the pulls the cursor had not come to the record, which was gone. -/
def Skips (target : TopicPartition) (pulls : Log → LogCursor → Prop) (raw : RawRecord) : Prop :=
  ∃ s c p, pulls s c ∧ s.partition target = .ok p ∧ c.position ≤ raw.offset ∧ raw.offset < p.oldest

/-- A record has been pulled, or it was gone before. -/
def Settled (target : TopicPartition) (pulls : Log → LogCursor → Prop) (pulled : List RawRecord)
    (raw : RawRecord) : Prop := raw ∈ pulled ∨ Skips target pulls raw

/-- A worker goes up through what its partition held at first, and leaves out only what is
skipped. -/
structure Scans (target : TopicPartition) (plan : Plan) (p₀ : PartitionLog)
    (pulls : Log → LogCursor → Prop) (pulled : List RawRecord) (w : Worker LogCursor) : Prop where
  fresh : w.phase = .opening → pulled = []
  reads : ∀ c, w.phase.cursor? = some c → c.Reads target false
  start_le : ∀ raw ∈ pulled, plan.start ≤ raw.offset
  known : ∀ raw ∈ pulled, isPast plan raw.offset = false → raw ∈ p₀.records
  yielded : ∀ raw ∈ pulled, Yields target pulls raw
  ascending : pulled.Pairwise fun a b ↦ a.offset < b.offset
  position : ∀ c, w.phase.cursor? = some c → w.phase.outcome? = none →
    plan.start ≤ c.position ∧ ∀ raw ∈ pulled, raw.offset < c.position
  settled : ∀ c, w.phase.cursor? = some c → w.phase.outcome? = none →
    ∀ raw ∈ p₀.records, plan.start ≤ raw.offset → raw.offset < c.position →
      Settled target pulls pulled raw
  through : w.IsThrough → ∀ raw ∈ p₀.records, plan.start ≤ raw.offset →
    isPast plan raw.offset = false → Settled target pulls pulled raw

theorem scans_start (target : TopicPartition) (p₀ : PartitionLog)
    (pulls : Log → LogCursor → Prop) (index : PartitionId) (plan : Plan) :
    (start index plan).Scans target plan p₀ pulls [] := by
  refine ⟨fun _ ↦ rfl, nofun, nofun, nofun, nofun, .nil, nofun, nofun, ?_⟩
  rintro (⟨parcel, hparcel, -⟩ | hcompleted)
  · cases hparcel
  · cases hcompleted

section Mono

variable (himp : ∀ s c, pulls s c → pulls' s c)

include himp

theorem Yields.mono (h : Yields target pulls raw) : Yields target pulls' raw := by
  obtain ⟨s, c, p, hpulls, hyields⟩ := h
  exact ⟨s, c, p, himp s c hpulls, hyields⟩

theorem Settled.mono (h : Settled target pulls pulled raw) : Settled target pulls' pulled raw := by
  rcases h with hpulled | ⟨s, c, p, hpulls, hskips⟩
  · exact .inl hpulled
  · exact .inr ⟨s, c, p, himp s c hpulls, hskips⟩

theorem Scans.mono (h : w.Scans target plan p₀ pulls pulled) :
    w.Scans target plan p₀ pulls' pulled :=
  { h with
    yielded := fun raw hraw ↦ (h.yielded raw hraw).mono himp
    settled := fun c hc hout raw hraw hle hlt ↦ (h.settled c hc hout raw hraw hle hlt).mono himp
    through := fun hthrough raw hraw hle hwithin ↦
      (h.through hthrough raw hraw hle hwithin).mono himp }

end Mono

theorem Scans.quiet (h : w.Scans target plan p₀ pulls pulled) (hquiet : w.Quiet act w') :
    w'.Scans target plan p₀ pulls pulled :=
  { h with
    fresh := fun hopening ↦ h.fresh (hquiet.opening hopening)
    reads := fun c hc ↦ h.reads c (hquiet.cursor c hc)
    position := fun c hc hout ↦ h.position c (hquiet.cursor c hc) (hquiet.going hout).1
    settled := fun c hc hout ↦ h.settled c (hquiet.cursor c hc) (hquiet.going hout).1
    through := fun hthrough ↦ h.through (hquiet.through hthrough) }

theorem scans_opened (target : TopicPartition) (p₀ : PartitionLog)
    (pulls : Log → LogCursor → Prop) (w : Worker LogCursor) :
    (w.go (w.afterOpening (⟨target, w.plan.start, false, none, 0, false⟩ : LogCursor))).Scans target
      w.plan p₀ pulls [] := by
  have hcursor {c : LogCursor} (hc : (w.afterOpening
      (⟨target, w.plan.start, false, none, 0, false⟩ : LogCursor)).cursor? = some c) :
      c = ⟨target, w.plan.start, false, none, 0, false⟩ :=
    Option.some.inj (hc.symm.trans (cursor_afterOpening _))
  constructor
  case fresh => exact fun _ ↦ rfl
  case reads =>
    intro c hc
    rw [hcursor hc]
    exact ⟨rfl, rfl, rfl, rfl⟩
  case ascending => exact .nil
  case position =>
    intro c hc _
    rw [hcursor hc]
    exact ⟨Std.le_refl _, nofun⟩
  case settled =>
    intro c hc _ raw _ hle hlt
    rw [hcursor hc] at hlt
    exact absurd hlt (Std.not_lt.mpr hle)
  case through =>
    intro hthrough raw _ hle hwithin
    rw [isPast_of_isEmpty (isEmpty_of_isThrough_afterOpening hthrough) hle] at hwithin
    cases hwithin
  all_goals exact nofun

theorem Scans.crashed (h : w.Scans target plan p₀ pulls pulled) :
    (w.go .crashed).Scans target plan p₀ pulls pulled := by
  refine { h with
    fresh := nofun, reads := nofun, position := nofun, settled := nofun, through := ?_ }
  rintro (⟨parcel, hparcel, -⟩ | hcompleted)
  · cases hparcel
  · cases hcompleted

section Pull

variable {c c' : LogCursor} (h : w.Scans target plan p₀ pulls pulled)
  (hphase : w.phase = .pulling c) (hp : log.partition target = .ok p) (hpulls : pulls log c)

include h hphase hp hpulls

/-- What lies below an offset is settled once nothing is left between the cursor and that offset. -/
theorem Scans.settled_below {next : Offset} (hgap : ∀ o, c.position ≤ o → o < next → o < p.oldest)
    (ha : raw ∈ p₀.records) (hstart : plan.start ≤ raw.offset) (hlt : raw.offset < next) :
    Settled target pulls pulled raw := by
  by_cases hbelow : raw.offset < c.position
  · exact h.settled c (by rw [hphase]; rfl) (by rw [hphase]; rfl) raw ha hstart hbelow
  · have hle := Std.not_lt.mp hbelow
    exact .inr ⟨log, c, p, hpulls, hp, hle, hgap raw.offset hle hlt⟩

theorem Scans.ended (hreads : c'.Reads target false)
    (hend : ∀ a ∈ p₀.records, a.offset < c'.position)
    (hgap : ∀ o, c.position ≤ o → o < c'.position → o < p.oldest) :
    (w.go (.closing c' .completed)).Scans target plan p₀ pulls pulled := by
  refine { h with fresh := nofun, reads := ?_, position := nofun, settled := nofun, through := ?_ }
  · intro d hd
    obtain rfl : c' = d := Option.some.inj hd
    exact hreads
  · intro _ a ha hstart _
    exact h.settled_below hphase hp hpulls hgap ha hstart (hend a ha)

theorem Scans.record (hplan : w.plan = plan) (hreads : c'.Reads target false)
    (hanswer : (c.pull log).1 = .record raw) (hmem : raw ∈ p.records)
    (hle : c.position ≤ raw.offset)
    (hgap : ∀ o, c.position ≤ o → o < raw.offset → o < p.oldest)
    (hnext : c'.position.toInt = raw.offset.toInt + 1)
    (hknown : isPast plan raw.offset = false → raw ∈ p₀.records)
    (hsame : ∀ a ∈ p₀.records, a.offset = raw.offset → a = raw) :
    (w.go (examine job w c' raw)).Scans target plan p₀ pulls (pulled ++ [raw]) := by
  subst hplan
  have hsettled : ∀ a ∈ p₀.records, w.plan.start ≤ a.offset → a.offset ≤ raw.offset →
      Settled target pulls (pulled ++ [raw]) a := by
    intro a ha hstart hbelow
    by_cases heq : a.offset = raw.offset
    · rw [hsame a ha heq]
      exact .inl (by simp)
    · have hlt := Std.lt_of_le_of_ne hbelow heq
      exact (h.settled_below hphase hp hpulls hgap ha hstart hlt).imp_left (List.mem_append_left _)
  obtain ⟨hposition, hbefore⟩ := h.position c (by rw [hphase]; rfl) (by rw [hphase]; rfl)
  have hstart : w.plan.start ≤ raw.offset := Std.le_trans hposition hle
  have hcursor {d : LogCursor} (hd : (examine job w c' raw).cursor? = some d) : d = c' :=
    Option.some.inj (hd.symm.trans (cursor_examine job w c' raw))
  have hlt : raw.offset < c'.position := by
    rw [Int64.lt_iff_toInt_lt]
    omega
  constructor
  case fresh =>
    intro hopening
    exact (onPull_ne_opening job w c' (.record raw) hopening).elim
  case reads =>
    intro d hd
    rw [hcursor hd]
    exact hreads
  case start_le =>
    exact List.forall_mem_append.mpr ⟨h.start_le, List.forall_mem_singleton.mpr hstart⟩
  case known =>
    exact List.forall_mem_append.mpr
      ⟨h.known, List.forall_mem_singleton.mpr hknown⟩
  case yielded =>
    exact List.forall_mem_append.mpr ⟨h.yielded, List.forall_mem_singleton.mpr
      ⟨log, c, p, hpulls, hp, hmem, hanswer⟩⟩
  case ascending =>
    refine List.pairwise_append.mpr ⟨h.ascending, List.pairwise_singleton _ raw, ?_⟩
    intro a ha b hb
    rw [List.mem_singleton.mp hb]
    exact Std.lt_of_lt_of_le (hbefore a ha) hle
  case position =>
    intro d hd _
    rw [hcursor hd]
    refine ⟨Std.le_of_lt (Std.lt_of_le_of_lt hstart hlt), ?_⟩
    refine List.forall_mem_append.mpr ⟨fun a ha ↦ ?_, List.forall_mem_singleton.mpr hlt⟩
    exact Std.lt_trans (Std.lt_of_lt_of_le (hbefore a ha) hle) hlt
  case settled =>
    intro d hd _ a ha hstart' hbelow
    rw [hcursor hd, Int64.lt_iff_toInt_lt] at hbelow
    apply hsettled a ha hstart'
    rw [Int64.le_iff_toInt_le]
    omega
  case through =>
    intro hthrough a ha hstart' hwithin
    refine hsettled a ha hstart' (Std.not_lt.mp fun hlt ↦ ?_)
    rw [isPast_of_lt (isEnd_of_isThrough_examine hthrough) hlt] at hwithin
    cases hwithin

end Pull

theorem Scans.step (h : w.Scans ⟨job.topic, w.partition⟩ w.plan p₀ pulls pulled)
    (hfaults : log.faults = {}) (hp : log.partition ⟨job.topic, w.partition⟩ = .ok p)
    (hdescends : p₀.Descends p) (hsound : p₀.Sound index) (hfits : p₀.Fits)
    (hholds : p₀.Holds w.plan)
    (hpulls : ∀ c, w.phase = .pulling c → sh.cancelled = false → pulls log c)
    (hstep : w.Step Log.client job log sh act s' sh' w') :
    w'.Scans ⟨job.topic, w.partition⟩ w.plan p₀ pulls (pulled ++ (act.bind raw?).toList) := by
  rcases hstep.quiet_or_asks with hquiet | ⟨hphase, -, answer, hopen, rfl, rfl⟩ |
    ⟨c, answer, c', hphase, hlive, hpull, rfl, rfl⟩
  · rw [hquiet.raw_eq]
    simpa using h.quiet hquiet
  · rw [Log.openCursor_eq hfaults hp, hholds.bounded] at hopen
    obtain ⟨rfl, -⟩ := Prod.mk.inj hopen
    rw [h.fresh hphase]
    exact scans_opened _ p₀ pulls w
  · have hcursor := (Log.pull_of_client hpull).1
    have hreads := h.reads c (by rw [hphase]; rfl)
    rw [raw_onPull]
    rcases LogCursor.pull_of_descends hdescends hsound hfits hreads hp with
      ⟨raw, d, heq, hreads', hmem, hle, hgap, hnext, hknown, hsame⟩ | ⟨d, heq, -⟩ |
      ⟨d, heq, hreads', hend, -, hgap⟩
    · obtain ⟨rfl, rfl⟩ := Prod.mk.inj (hcursor.symm.trans heq)
      have hrange (hpast : isPast w.plan raw.offset = false) : raw.offset < p₀.firstAvailable :=
        hholds.lt_of_le ((isPast_eq_false_iff hholds.bounded).mp hpast)
      exact h.record hphase hp (hpulls c hphase hlive) rfl hreads' (by rw [heq]) hmem hle hgap hnext
        (fun hpast ↦ hknown (hrange hpast)) hsame
    · obtain ⟨rfl, rfl⟩ := Prod.mk.inj (hcursor.symm.trans heq)
      change Scans _ _ _ _ (pulled ++ []) _
      rw [List.append_nil]
      exact h.crashed
    · obtain ⟨rfl, rfl⟩ := Prod.mk.inj (hcursor.symm.trans heq)
      change Scans _ _ _ _ (pulled ++ []) _
      rw [List.append_nil]
      exact h.ended hphase hp (hpulls c hphase hlive) hreads' hend hgap

end Worker

/-! ## Along a course -/

namespace Stage

variable {x y : Stage Log LogCursor} {job : Job} {e : PartitionId × Plan} {p₀ : PartitionLog}
  {pulls pulls' : Log → LogCursor → Prop} {i : Nat} {moves : List (Move Log.Change)}

/-- In the course a worker had its turn to pull with a cursor on a log. -/
def Pulls (x : Stage Log LogCursor) (i : Nat) (moves : List (Move Log.Change)) (s : Log)
    (c : LogCursor) : Prop :=
  ∃ before w, before ++ [.turn i] <+: moves ∧
    (x.play Log.client Log.Change.apply before).state = s ∧
    (x.play Log.client Log.Change.apply before).read.workers[i]? = some w ∧
    w.phase = .pulling c ∧ (x.play Log.client Log.Change.apply before).read.shared.cancelled = false

theorem Pulls.mono {s : Log} {c : LogCursor} (h : x.Pulls i moves s c) (m : Move Log.Change) :
    x.Pulls i (moves ++ [m]) s c := by
  obtain ⟨before, w, hbefore, hpulls⟩ := h
  exact ⟨before, w, hbefore.trans (List.prefix_append _ _), hpulls⟩

/-- A worker with its partition, which goes back to what the read was planned on. -/
structure Scanning (job : Job) (e : PartitionId × Plan) (p₀ : PartitionLog)
    (pulls : Log → LogCursor → Prop) (i : Nat) (x : Stage Log LogCursor) : Prop where
  faults_eq : x.state.faults = {}
  job_eq : x.read.job = job
  partition : ∃ p, x.state.partition ⟨job.topic, e.1⟩ = .ok p ∧ p₀.Descends p
  worker : ∃ w, x.read.workers[i]? = some w ∧ (w.partition, w.plan) = e ∧
    w.Scans ⟨job.topic, e.1⟩ e.2 p₀ pulls (pulledIn (x.actsOf i))

theorem Scanning.alter (h : x.Scanning job e p₀ pulls i) (change : Log.Change) :
    (x.note (change.apply x.state) x.read .altered).Scanning job e p₀ pulls i := by
  obtain ⟨hfaults, hjob, ⟨p, hp, hdescends⟩, w, hw, he, hscans⟩ := h
  refine ⟨(change.faults_apply x.state).trans hfaults, hjob, ?_, w, hw, he, ?_⟩
  · rcases change.partition_apply hp with ⟨hsame, -⟩ | ⟨q, hq, heffect⟩
    · exact ⟨p, hsame, hdescends⟩
    · exact ⟨q, hq, hdescends.effect heffect⟩
  · rw [actsOf_note]
    simpa [Deed.actOf?] using hscans

theorem Scanning.note (h : x.Scanning job e p₀ pulls i) {r : Read LogCursor} {deed : Deed}
    (hjob : r.job = x.read.job) (hworkers : r.workers = x.read.workers)
    (hdeed : deed.actOf? i = none) : (x.note x.state r deed).Scanning job e p₀ pulls i := by
  obtain ⟨hfaults, rfl, hpartition, w, hw, he, hscans⟩ := h
  refine ⟨hfaults, hjob, hpartition, w, hworkers ▸ hw, he, ?_⟩
  rw [actsOf_note, hdeed]
  simpa using hscans

theorem Scanning.mono (h : x.Scanning job e p₀ pulls i) (himp : ∀ s c, pulls s c → pulls' s c) :
    x.Scanning job e p₀ pulls' i := by
  obtain ⟨hfaults, hjob, hpartition, w, hw, he, hscans⟩ := h
  exact ⟨hfaults, hjob, hpartition, w, hw, he, hscans.mono himp⟩

/-- What the plan of a worker relies on. -/
structure Planned (e : PartitionId × Plan) (p₀ : PartitionLog) : Prop where
  sound : p₀.Sound e.1
  fits : p₀.Fits
  holds : p₀.Holds e.2

theorem Scanning.after (h : x.Scanning job e p₀ pulls i) (hplanned : Planned e p₀) {j : Nat}
    {v v' : Worker LogCursor} {act : Option Act} {s : Log} {sh : Shared}
    (hv : x.read.workers[j]? = some v)
    (hstep : v.Step Log.client x.read.job x.state x.read.shared act s sh v')
    (hpulls : ∀ c, j = i → v.phase = .pulling c → x.read.shared.cancelled = false →
      pulls x.state c) : (x.after j act s sh v').Scanning job e p₀ pulls i := by
  obtain ⟨hfaults, rfl, ⟨p, hp, hdescends⟩, w, hw, he, hscans⟩ := h
  obtain rfl := hstep.log_eq
  refine ⟨hfaults, rfl, ⟨p, hp, hdescends⟩, ?_⟩
  by_cases hij : j = i
  · subst hij
    obtain rfl : v = w := Option.some.inj (hv.symm.trans hw)
    subst he
    refine ⟨v', ?_, by rw [hstep.partition_eq, hstep.plan_eq], ?_⟩
    · simp [Stage.after, List.getElem?_set_self (List.getElem?_eq_some_iff.mp hv).1]
    · rw [actsOf_after_self, pulledIn_step]
      exact hscans.step hfaults hp hdescends hplanned.sound hplanned.fits hplanned.holds
        (fun c ↦ hpulls c rfl) hstep
  · refine ⟨w, ?_, he, ?_⟩
    · simpa [Stage.after, List.getElem?_set_ne hij] using hw
    · rwa [actsOf_after_ne hij]

theorem Scanning.next (h : x.Scanning job e p₀ pulls i) (hplanned : Planned e p₀)
    {m : Move Log.Change} (hm : x.Next Log.client Log.Change.apply m y)
    (hpulls : ∀ w c, m = .turn i → x.read.workers[i]? = some w → w.phase = .pulling c →
      x.read.shared.cancelled = false → pulls x.state c) : y.Scanning job e p₀ pulls i := by
  cases hm
  case unchanged => exact h
  case worked j w w' act s sh hw hstep =>
    refine h.after hplanned hw hstep ?_
    rintro c rfl
    exact hpulls w c rfl hw
  case altered change => exact h.alter change
  all_goals exact h.note rfl rfl rfl

theorem scanning_play {log : Log} {settings : ReaderSettings} {decoder : Decoder}
    {request : Request} {cancelled : Bool} {ranges : List (PartitionId × Offsets)}
    {r : Read LogCursor} (hfaults : log.faults = {})
    (h : Launched Log.client log settings decoder request cancelled ranges r)
    (hp₀ : log.partition ⟨request.topic, e.1⟩ = .ok p₀) (hplanned : Planned e p₀)
    (hi : r.plans[i]? = some e) (moves : List (Move Log.Change)) :
    ((start log r).play Log.client Log.Change.apply moves).Scanning
      ⟨request.topic, decoder, request.filter⟩ e p₀ ((start log r).Pulls i moves) i := by
  induction moves using List.reverseRecOn with
  | nil =>
      obtain ⟨w, hw, rfl⟩ : ∃ w, r.workers[i]? = some w ∧ (w.partition, w.plan) = e := by
        simpa [Read.plans] using hi
      refine ⟨hfaults, ?_, ⟨p₀, hp₀, PartitionLog.descends_start hplanned.sound⟩, w, hw, rfl, ?_⟩
      · rw [h.made]
        rfl
      · rw [h.eq_start (List.mem_of_getElem? hw)]
        exact Worker.scans_start _ _ _ _ _
  | append_singleton moves m ih =>
      rw [play_concat]
      refine (ih.mono fun s c hpulls ↦ hpulls.mono m).next hplanned (next_step _ m) ?_
      rintro w c rfl hw hphase hlive
      exact ⟨moves, w, List.prefix_rfl, rfl, hw, hphase, hlive⟩

/-! ## What is shown -/

/-- From a partition a read shows, in ascending order, matching records of its plan that the
partition held at first.  It has pulled each while it was retained, and once its worker has
completed the plan it has left out only what had been dropped before the cursor came to it. -/
structure StaysWithin (request : Request) (decoder : Decoder) (e : PartitionId × Plan)
    (p₀ : PartitionLog) (pulls : Log → LogCursor → Prop) (i : Nat) (x : Stage Log LogCursor) :
    Prop where
  taken_prefix : x.takenFrom e.1 <+: x.sentFrom e.1
  taken_eq : x.read.shared.channel.receiving = true → x.read.shared.channel.queue = [] →
    x.takenFrom e.1 = x.sentFrom e.1
  ascending : (x.sentFrom e.1).Pairwise fun a b ↦ a.offset < b.offset
  shown : ∀ a ∈ x.sentFrom e.1, e.2.start ≤ a.offset ∧ a.offset ≤ e.2.endOffset ∧
    admits request.filter a.key a.value = true ∧ ∃ raw ∈ p₀.records, raw.decode decoder = a ∧
      Worker.Yields ⟨request.topic, e.1⟩ pulls raw
  complete : ∀ w, x.read.workers[i]? = some w → w.phase.outcome? = some .completed →
    ∀ raw ∈ p₀.records, e.2.start ≤ raw.offset → raw.offset ≤ e.2.endOffset →
      admits request.filter (raw.decode decoder).key (raw.decode decoder).value = true →
        raw.decode decoder ∈ x.sentFrom e.1 ∨ Worker.Skips ⟨request.topic, e.1⟩ pulls raw

theorem Scanning.staysWithin {request : Request} {decoder : Decoder} {capacity : Nat}
    (h : x.Scanning ⟨request.topic, decoder, request.filter⟩ e p₀ pulls i)
    (howned : x.Owned ⟨request.topic, decoder, request.filter⟩)
    (hchanneled : x.Channeled capacity) {r : Read LogCursor} (hframed : x.Framed r)
    (hdistinct : (r.plans.map Prod.fst).Nodup) (hbounded : e.2.isBounded = true) :
    x.StaysWithin request decoder e p₀ pulls i := by
  obtain ⟨-, -, -, w, hw, rfl, hscans⟩ := h
  have hrelays := howned.relays i w hw
  have hsent : x.sentFrom w.partition = sentIn (x.actsOf i) :=
    sentFrom_eq hframed hdistinct howned.partition_eq hw
  have hwithin : x.sentFrom w.partition <+:
      Job.shows ⟨request.topic, decoder, request.filter⟩ w.plan (pulledIn (x.actsOf i)) := by
    rw [hsent]
    exact (List.prefix_append _ _).trans hrelays.within
  refine ⟨hchanneled.taken_prefix.filter _, ?_, ?_, ?_, ?_⟩
  · intro hlistening hqueue
    have htaken := hchanneled.taken_append_queue hlistening
    rw [hqueue, List.append_nil] at htaken
    rw [takenFrom, htaken, sentFrom]
  · exact (Job.pairwise_shows hscans.ascending).sublist hwithin.sublist
  · intro a ha
    obtain ⟨raw, hraw, hpast, rfl, hadmits⟩ := Job.mem_shows.mp (hwithin.subset ha)
    exact ⟨hscans.start_le raw hraw, (Worker.isPast_eq_false_iff hbounded).mp hpast, hadmits, raw,
      hscans.known raw hraw hpast, rfl, hscans.yielded raw hraw⟩
  · intro v hv hout raw hraw hstart hend hadmits
    obtain rfl : w = v := Option.some.inj (hw.symm.trans hv)
    have hpast := (Worker.isPast_eq_false_iff hbounded).mpr hend
    refine (hscans.through (.inr hout) raw hraw hstart hpast).imp_left fun hpulled ↦ ?_
    rw [hsent, hrelays.sentIn_eq hout (by simp [Worker.IsStopped, hout])]
    exact Job.mem_shows.mpr ⟨raw, hpulled, hpast, rfl, hadmits⟩

/-- What a bounded read has planned of a reachable log. -/
theorem exists_planned {log : Log} (hlog : log.Reachable) {settings : ReaderSettings}
    {decoder : Decoder} {request : Request} (hmode : request.mode ≠ .live) {cancelled : Bool}
    {ranges : List (PartitionId × Offsets)} {r : Read LogCursor}
    (h : Launched Log.client log settings decoder request cancelled ranges r) (he : e ∈ r.plans) :
    ∃ p₀, log.Source request.topic e.1 p₀ ∧ plan? request.mode request.limit
      (UInt64.ofNat request.partitions.size) ⟨p₀.oldest, p₀.firstAvailable⟩ = some e.2 ∧
        Planned e p₀ := by
  obtain ⟨p₀, hsource, hplan, hholds⟩ := hlog.exists_holds h hmode he
  exact ⟨p₀, hsource, hplan ▸ hsource.plan?_eq _ _ _, hsource.sound, hsource.fits, hholds⟩

/-- In every course of a bounded read of a reachable log, among appends and truncations of any
partitions, each partition is shown as far as its plan goes and as it was when the read started. -/
theorem bounded_read_stays_within_plan {log : Log} (hlog : log.Reachable)
    (hfaults : log.faults = {}) {settings : ReaderSettings} {decoder : Decoder}
    {request : Request} (hmode : request.mode ≠ .live) {cancelled : Bool} {r : Read LogCursor}
    (hstart : startRead Log.client log settings decoder request cancelled = .ok (.running r))
    (moves : List (Move Log.Change))
    (hx : (start log r).play Log.client Log.Change.apply moves = x) :
    r.plans.map Prod.fst = request.partitions.toList ∧
    ∀ i e, r.plans[i]? = some e → ∃ p₀ o, log.partition ⟨request.topic, e.1⟩ = .ok p₀ ∧
      log.offsets ⟨request.topic, e.1⟩ = .ok o ∧
      plan? request.mode request.limit (UInt64.ofNat request.partitions.size) o = some e.2 ∧
      x.StaysWithin request decoder e p₀ ((start log r).Pulls i moves) i := by
  obtain ⟨ranges, hlaunched⟩ := exists_launched hstart
  refine ⟨hlaunched.partitions_eq, fun i e hi ↦ ?_⟩
  obtain ⟨p₀, hsource, hplan, hplanned⟩ :=
    exists_planned hlog hmode hlaunched (List.mem_of_getElem? hi)
  have howned := owned_play hlog.sound.indexed hlaunched moves
    fun change _ log hindexed ↦ hindexed.apply change
  have hscanning := scanning_play hfaults hlaunched hsource.found hplanned hi moves
  have hoffsets := hsource.offsets_eq (by simp [hfaults])
  refine ⟨p₀, _, hsource.found, hoffsets, hplan, hx ▸ ?_⟩
  exact hscanning.staysWithin howned (channeled_play hlaunched moves) (framed_play _ _ _ _ moves)
    hlaunched.nodup_partitions hplanned.holds.bounded

/-- A worker pulls one record, all others of its partition are dropped and one is appended, and it
has some more turns. -/
def truncateMeanwhile (turns : Nat) : List (Move Log.Change) :=
  List.replicate 2 (.turn 0) ++ [.alter (.append ⟨"t", 0⟩ ⟨none, some [100], [], 0⟩),
    .alter (.truncateBefore ⟨"t", 0⟩ 2)] ++ List.replicate turns (.turn 0)

theorem bounded_read_stays_within_plan_of_sample :
    let x := (start Log.sample (sampleRead .beginning 4)).play Log.client Log.Change.apply
      (truncateMeanwhile 6)
    Log.sample.Reachable ∧ Log.sample.faults = {} ∧ (sampleRequest .beginning 4).mode ≠ .live ∧
      startRead Log.client Log.sample {} .lossy (sampleRequest .beginning 4) false =
        .ok (.running (sampleRead .beginning 4)) ∧
      (sampleRead .beginning 4).plans[0]? = some (0, ⟨0, some 1⟩) ∧
      (∃ w, x.read.workers[0]? = some w ∧ w.phase.outcome? = some .completed) ∧
      (x.sentFrom 0).map (·.offset) = [0] ∧
      ∃ p₀, Log.sample.partition ⟨"t", 0⟩ = .ok p₀ ∧
        x.StaysWithin (sampleRequest .beginning 4) .lossy (0, ⟨0, some 1⟩) p₀
          ((start Log.sample (sampleRead .beginning 4)).Pulls 0 (truncateMeanwhile 6)) 0 := by
  have hstart : startRead Log.client Log.sample {} .lossy (sampleRequest .beginning 4) false =
      .ok (.running (sampleRead .beginning 4)) := rfl
  have hplan : (sampleRead .beginning 4).plans[0]? = some (0, ⟨0, some 1⟩) := rfl
  obtain ⟨-, hall⟩ := bounded_read_stays_within_plan Log.reachable_sample rfl (by decide) hstart
    (truncateMeanwhile 6) rfl
  obtain ⟨p₀, -, hp₀, -, -, hstays⟩ := hall 0 _ hplan
  exact ⟨Log.reachable_sample, rfl, by decide, hstart, hplan, ⟨_, rfl, rfl⟩, rfl, p₀, hp₀, hstays⟩

end Stage
end TopicView
