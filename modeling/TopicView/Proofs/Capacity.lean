import TopicView.Program
import TopicView.Proofs.Log.Load
import TopicView.Proofs.Read.Attempt

/-!
# Capacities that reads can be run with

The capacity of the record channel comes from an option, the environment or a file, and is checked
before a read starts.  The channel itself is only made when the ranges are known and one of them can
be read.  What the check accepts can be run exactly where a channel can have that capacity.
-/

namespace TopicView

variable {σ κ δ : Type}

/-- The read runs, or there is nothing to read. -/
def Standing.IsStarted : Standing σ κ → Prop
  | .emptyTopic | .running _ => True
  | .called _ | .resolving _ | .refused _ | .crashed => False

namespace Errand

/-- The read can be run. -/
structure Runs (client : Client σ κ) (alter : δ → σ → σ) (e : Errand) (s : σ) : Prop where
  /-- Its channel can be made, whatever the client answers and in whatever order: it crashes only
  with a lookup, or where a range starts at the least offset. -/
  crashed : ∀ calls, Attempt.Reached client alter e s ⟨calls, .crashed⟩ →
    (∃ p ∈ e.request.partitions, (repliesIn calls p).Crash) ∨ e.HasLowest (repliesIn calls)
  /-- Once every lookup has succeeded it can start, and it can come to nothing else. -/
  starts : ∀ calls s', Attempt.Reached client alter e s ⟨calls, .resolving s'⟩ →
    e.Located (repliesIn calls) → ¬ e.HasLowest (repliesIn calls) →
      (∃ b, Attempt.Step client alter e ⟨calls, .resolving s'⟩ b ∧ b.standing.IsStarted) ∧
      ∀ b, Attempt.Step client alter e ⟨calls, .resolving s'⟩ b →
        b.standing.IsStarted ∨ ∃ change, b = ⟨calls, .resolving (alter change s')⟩
  /-- It starts at once where every lookup succeeds at once. -/
  at_once : e.Located (client.replies s e.request.topic) →
    ¬ e.HasLowest (client.replies s e.request.topic) →
      ∃ started, e.start client s = .ok started

variable {client : Client σ κ} {alter : δ → σ → σ} {e : Errand} {s : σ} {calls : List Call}

/-- A launch that does not crash is a start. -/
theorem isStarted_launch {ranges : List (PartitionId × Offsets)}
    (h : (e.launch ranges : Result ReadError (Started κ)) ≠ .crash) (s : σ) :
    (Standing.of s (e.launch ranges : Result ReadError (Started κ))).IsStarted := by
  rcases e.launch_cases κ ranges with ⟨hlaunch, -⟩ | ⟨-, ⟨hlaunch, -⟩ | ⟨plans, -, -, hlaunch⟩⟩
  · rw [hlaunch]
    trivial
  · exact (h hlaunch).elim
  · rw [hlaunch]
    trivial

/-- With a capacity that a channel cannot have, exactly the reads crash that have something to
read. -/
theorem start_eq_crash_iff (hvalid : e.Valid)
    (hlocated : e.Located (client.replies s e.request.topic))
    (hlowest : ¬ e.HasLowest (client.replies s e.request.topic)) :
    e.start client s = .crash ↔
      Channel.maxCapacity < e.settings.channelCapacity.toNat ∧
        ∃ p ∈ e.request.partitions, ∃ o, (client.replies s e.request.topic p).Give o ∧
          isReadable e.request.mode o = true := by
  obtain ⟨ranges, hranges⟩ := exists_resolve_ok e.request.topic hlocated
  obtain ⟨hkeys, hown⟩ := (resolve_eq_ok_iff e.request.partitions.ascending).mp hranges
  rw [start_of_valid hvalid, hranges, Result.ok_bind]
  constructor
  · intro hcrash
    rcases e.launch_cases κ ranges with ⟨hlaunch, -⟩ |
      ⟨⟨r, hr, hread⟩, ⟨-, hnone | hlarge⟩ | ⟨plans, -, -, hlaunch⟩⟩
    · cases hcrash.symm.trans hlaunch
    · refine (hlowest (hasLowest_of_unplanned (fun r hr ↦ ?_) hnone)).elim
      exact ⟨mem_of_keys_eq hkeys hr, hown r hr⟩
    · exact ⟨hlarge, r.1, mem_of_keys_eq hkeys hr, r.2, hown r hr, hread⟩
    · cases hcrash.symm.trans hlaunch
  · rintro ⟨hlarge, p, hp, o, hgive, hread⟩
    obtain ⟨r, hr, rfl⟩ := List.mem_map.mp (hkeys ▸ hp : p ∈ ranges.map Prod.fst)
    obtain rfl := (hown r hr).eq (Lookup.single_replies _) hgive
    rcases e.launch_cases κ ranges with ⟨-, hnone⟩ | ⟨-, ⟨hlaunch, -⟩ | ⟨plans, -, hle, -⟩⟩
    · cases hread.symm.trans (hnone r hr)
    · exact hlaunch
    · exact (Nat.not_lt.mpr hle hlarge).elim

/-- Once every lookup has succeeded, the read goes on with its ranges unless somebody changes the
client first. -/
theorem Located.step_cases (hasked : e.Asked calls) (h : e.Located (repliesIn calls)) {s' : σ}
    {b : Attempt σ κ} (hstep : Attempt.Step client alter e ⟨calls, .resolving s'⟩ b) :
    e.GoesOn calls s' b ∨ ∃ change, b = ⟨calls, .resolving (alter change s')⟩ := by
  have hanswered {p : PartitionId} (hp : p ∈ e.request.partitions) (edge : Edge) :
      ∃ a, repliesIn calls p edge a := by
    obtain ⟨o, ho⟩ := h p hp
    cases edge with
    | oldest => exact ⟨_, ho.oldest⟩
    | firstAvailable => exact ⟨_, ho.firstAvailable⟩
  cases hstep with
  | altered change => exact .inr ⟨change, rfl⟩
  | answered requested waiting _ =>
      obtain ⟨a, ha⟩ := hanswered requested _
      exact (waiting a ha).elim
  | crashed requested waiting _ =>
      obtain ⟨a, ha⟩ := hanswered requested _
      exact (waiting a ha).elim
  | @failed _ _ p f requested failure =>
      obtain ⟨o, ho⟩ := h p requested
      exact (ho.not_fail (hasked.single p) failure).elim
  | @resolved _ _ lookup ranges replies success =>
      exact .inl ⟨ranges, ranged_of_resolve replies success, rfl⟩

theorem runs_of_le (client : Client σ κ) (alter : δ → σ → σ) (s : σ) (hvalid : e.Valid)
    (hcapacity : e.settings.channelCapacity.toNat ≤ Channel.maxCapacity) :
    e.Runs client alter s := by
  have hwhole := starts_whole client alter e s hcapacity
  constructor
  case crashed => exact fun calls h ↦ (hwhole.crashed calls h).2
  case starts =>
    intro calls s' h hlocated hlowest
    cases h.sound with
    | resolving _ asked calm =>
        have hstarted {b : Attempt σ κ} (hb : e.GoesOn calls s' b) : b.standing.IsStarted := by
          obtain ⟨ranges, hranged, rfl⟩ := hb
          refine isStarted_launch (fun hcrash ↦ ?_) s'
          refine hlowest (hasLowest_of_launch hcapacity (fun r hr ↦ ?_) hcrash)
          exact ⟨mem_of_keys_eq hranged.keys_eq hr, hranged.own r hr⟩
        constructor
        · have hanswered : ∀ p ∈ e.request.partitions, ∀ edge, ∃ a, repliesIn calls p edge a := by
            intro p hp edge
            obtain ⟨o, ho⟩ := hlocated p hp
            cases edge with
            | oldest => exact ⟨_, ho.oldest⟩
            | firstAvailable => exact ⟨_, ho.firstAvailable⟩
          obtain ⟨b, hstep, hb⟩ := (exists_goesOn_iff asked hanswered).mpr hlocated
          exact ⟨b, hstep, hstarted hb⟩
        · exact fun b hstep ↦ (hlocated.step_cases asked hstep).imp_left hstarted
  case at_once =>
    intro hlocated hlowest
    exact ((starts_at_once client s hvalid hcapacity).started hlocated).resolve_right hlowest

theorem give_sample : (Log.client.replies Log.sample "t" 0).Give ⟨0, 2⟩ :=
  Lookup.offsets_eq_ok_iff.mp rfl

theorem give_sample_second : (Log.client.replies Log.sample "t" 1).Give ⟨0, 1⟩ :=
  Lookup.offsets_eq_ok_iff.mp rfl

theorem located_sample (capacity : UInt64) : (sample capacity).Located
    (Log.client.replies Log.sample (sample capacity).request.topic) := by
  intro p hp
  obtain rfl | rfl := List.mem_pair.mp hp
  · exact ⟨⟨0, 2⟩, give_sample⟩
  · exact ⟨⟨0, 1⟩, give_sample_second⟩

/-- On a sound log every range starts at zero or above. -/
theorem not_hasLowest_of_sound {log : Log} (h : log.Sound) (e : Errand) :
    ¬ e.HasLowest (Log.client.replies log e.request.topic) := by
  rintro ⟨p, -, o, hgive, hlow⟩
  obtain ⟨q, hsource, rfl⟩ := h.exists_source (Lookup.offsets_eq_ok_iff.mpr hgive)
  have hnonneg := hsource.sound.oldest_nonneg
  have hmin := Int64.toInt_minValue
  rw [show q.oldest = Int64.minValue from hlow] at hnonneg
  omega

theorem not_crash_of_inRange {log : Log} (h : log.InRange) (topic : String) (p : PartitionId) :
    ¬ (Log.client.replies log topic p).Crash := by
  rintro ⟨edge, hcrash⟩
  cases edge with
  | oldest =>
      have hmap := Result.mapError_eq_crash_iff.mp hcrash
      exact h.offsets_ne_crash _ (Result.map_eq_crash_iff.mp hmap)
  | firstAvailable =>
      have hmap := Result.mapError_eq_crash_iff.mp hcrash
      exact h.offsets_ne_crash _ (Result.map_eq_crash_iff.mp hmap)

/-- On a log in range a read crashes only where its channel cannot be made. -/
theorem lt_of_start_eq_crash {log : Log} (h : log.InRange)
    (hcrash : e.start Log.client log = .crash) :
    Channel.maxCapacity < e.settings.channelCapacity.toNat := by
  by_contra hle
  by_cases hvalid : e.Valid
  · rcases (starts_at_once Log.client log hvalid (Nat.not_lt.mp hle)).crashed hcrash with
      ⟨p, hlookup, -⟩ | hlowest
    · exact not_crash_of_inRange h _ p hlookup
    · exact not_hasLowest_of_sound h.sound e hlowest
  · obtain ⟨error, herror, -⟩ := exists_start_error Log.client log hvalid
    cases hcrash.symm.trans herror

end Errand

/-! ## Listings -/

namespace RecordQuery

/-- A listing crashes only with its read. -/
theorem exists_start_of_list {log : Log} {settings : ReaderSettings} {format : OutputFormat}
    {q : RecordQuery} (h : q.list log settings format = .crash) : ∃ ps,
      Errand.start ⟨q.readerSettings settings, q.decoder.decoder, q.request ps, false⟩ Log.client
        log = .crash := by
  unfold list at h
  rcases Result.bind_eq_crash_iff.mp h with hstart | ⟨started, -, h⟩
  · unfold start at hstart
    rcases Result.bind_eq_crash_iff.mp hstart with hps | ⟨ps, -, hstart⟩
    · cases hp : partitionsToRead log q.topic q.partitions <;> simp [hp] at hps
    · exact ⟨ps, Result.mapError_eq_crash_iff.mp hstart⟩
  · cases started with
    | emptyTopic => cases h
    | running r => cases h

end RecordQuery

/-- The log of a snapshot that has been loaded is in range. -/
theorem Program.inRange_of_loadLog {around : Surroundings} {path : Option String} {log : Log}
    (h : loadLog around path = .ok log) : log.InRange := by
  unfold loadLog at h
  cases path with
  | none => cases h
  | some path =>
      dsimp only at h
      split at h
      · cases h
      · split at h
        · cases h
        · split at h
          · cases h
          · exact (Snapshot.load_ok (Result.mapError_eq_ok_iff.mp h)).1

/-- A program that lists records crashes only while its log is loaded, or with its read. -/
theorem Program.carryOut_crash_cases {around : Surroundings} {i : Invocation} {q : RecordQuery}
    {loaded : Settings} (hcommand : i.command = .records q)
    (hload : loadSettings around i = .ok loaded) (hcrash : carryOut around i = .crash) :
    loadLog around i.fixture = .crash ∨ ∃ ps log, log.InRange ∧
      Errand.start ⟨q.readerSettings loaded.reader, q.decoder.decoder, q.request ps, false⟩
        Log.client log = .crash := by
  unfold carryOut at hcrash
  rw [hload, Result.lift_ok, Result.ok_bind] at hcrash
  rcases Result.bind_eq_crash_iff.mp hcrash with hlog | ⟨log, hlog, hcrash⟩
  · exact .inl hlog
  · rw [hcommand, runCommand] at hcrash
    cases hlist : q.list log loaded.reader i.format with
    | ok listing =>
        rw [hlist] at hcrash
        cases hcrash
    | error e =>
        rw [hlist] at hcrash
        cases hcrash
    | crash =>
        obtain ⟨ps, hstart⟩ := RecordQuery.exists_start_of_list hlist
        exact .inr ⟨ps, log, inRange_of_loadLog hlog, hstart⟩

/-! ## Usable settings -/

namespace ReaderSettings

/-- Whatever is requested of whatever client, it can be read with these settings, wherever they
come from. -/
structure Usable (settings : ReaderSettings) : Prop where
  reads : ∀ {σ κ δ : Type} (client : Client σ κ) (alter : δ → σ → σ) (s : σ) (decoder : Decoder)
    (request : Request) (cancelled : Bool), request.validate = .ok () →
      Errand.Runs client alter ⟨settings, decoder, request, cancelled⟩ s
  /-- A program that reads with them crashes at most while it loads its log, be they from a file,
  from the environment or from an option. -/
  programs : ∀ (around : Program.Surroundings) (i : Invocation) (q : RecordQuery)
    (loaded : Settings), i.command = .records q → Program.loadSettings around i = .ok loaded →
      q.readerSettings loaded.reader = settings → Program.carryOut around i = .crash →
        Program.loadLog around i.fixture = .crash

theorem usable_of_le {settings : ReaderSettings} (haccepted : settings.validate = .ok ())
    (hcapacity : settings.channelCapacity.toNat ≤ Channel.maxCapacity) : settings.Usable := by
  constructor
  case reads =>
    intro σ κ δ client alter s decoder request cancelled hrequest
    have hvalid : Errand.Valid ⟨settings, decoder, request, cancelled⟩ :=
      Errand.valid_iff.mpr ⟨hrequest, haccepted⟩
    exact Errand.runs_of_le client alter s hvalid hcapacity
  case programs =>
    intro around i q loaded hcommand hload hsettings hcrash
    rcases Program.carryOut_crash_cases hcommand hload hcrash with hlog | ⟨ps, log, hlog, hstart⟩
    · exact hlog
    · rw [hsettings] at hstart
      exact (Nat.not_lt.mpr hcapacity (Errand.lt_of_start_eq_crash hlog hstart)).elim

/-- A read that has something to read shows whether a channel can have the capacity. -/
theorem Usable.le {settings : ReaderSettings} (h : settings.Usable)
    (haccepted : settings.validate = .ok ()) :
    settings.channelCapacity.toNat ≤ Channel.maxCapacity := by
  have hrequest : (sampleRequest .beginning 3).validate = .ok () := by decide
  have hvalid : (Errand.sample settings.channelCapacity).Valid :=
    Errand.valid_iff.mpr ⟨hrequest, haccepted⟩
  have hlocated := Errand.located_sample settings.channelCapacity
  have hlowest := Errand.not_hasLowest_of_sound Log.reachable_sample.sound
    (Errand.sample settings.channelCapacity)
  have hruns : (Errand.sample settings.channelCapacity).Runs Log.client (fun (_ : Unit) ↦ id)
      Log.sample := h.reads Log.client _ Log.sample .lossy _ false hrequest
  obtain ⟨started, hstarted⟩ := hruns.at_once hlocated hlowest
  by_contra hlarge
  have hcrash : (Errand.sample settings.channelCapacity).start Log.client Log.sample = .crash := by
    apply (Errand.start_eq_crash_iff hvalid hlocated hlowest).mpr
    exact ⟨Nat.not_le.mp hlarge, 0, List.mem_cons_self, ⟨0, 2⟩, Errand.give_sample, rfl⟩
  cases hcrash.symm.trans hstarted

/-- Settings that are accepted are usable exactly where a channel can have their capacity. -/
theorem usable_iff {settings : ReaderSettings} (h : settings.validate = .ok ()) :
    settings.Usable ↔ settings.channelCapacity.toNat ≤ Channel.maxCapacity :=
  ⟨fun husable ↦ husable.le h, usable_of_le h⟩

theorem usable_by_default : ({} : ReaderSettings).validate = .ok () ∧
    ({} : ReaderSettings).Usable :=
  ⟨rfl, (usable_iff rfl).mpr (by decide)⟩

end ReaderSettings

/-- There are a topic with one record and a settings file, and perhaps a capacity in the
environment. -/
def Program.sampleSurroundings (capacity : Option String) : Surroundings where
  lookup name := if name = Settings.capacityVariable then capacity else none
  file path :=
    if path = "topics" then .ok (Utf8.encode "[[[\"t\",[[0,[[]]]]]]]")
    else .ok (Utf8.encode "[reader]\nchannel_capacity = 2305843009213693952\n")
  now := 0

/-- The smallest capacity that no channel can have is accepted, and the program crashes on it
wherever it comes from. -/
theorem ReaderSettings.accepted_but_unusable :
    (⟨2305843009213693952⟩ : ReaderSettings).validate = .ok () ∧
    ¬ (⟨2305843009213693952⟩ : ReaderSettings).Usable ∧
    (Program.run (Program.sampleSurroundings none)
      ["-f", "topics", "consume", "t"]).exit = .code 0 ∧
    (Program.run (Program.sampleSurroundings none)
      ["-f", "topics", "-c", "settings", "consume", "t"]).exit = .code 101 ∧
    (Program.run (Program.sampleSurroundings (some "2305843009213693952"))
      ["-f", "topics", "consume", "t"]).exit = .code 101 ∧
    (Program.run (Program.sampleSurroundings none)
      ["-f", "topics", "consume", "t", "--channel-capacity", "2305843009213693952"]).exit =
        .code 101 := by
  have haccepted : (⟨2305843009213693952⟩ : ReaderSettings).validate = .ok () := rfl
  have hlarge : ¬ (2305843009213693952 : UInt64).toNat ≤ Channel.maxCapacity := by decide
  refine ⟨haccepted, fun husable ↦ hlarge (husable.le haccepted), ?_, ?_, ?_, ?_⟩
  all_goals decide +kernel

end TopicView
