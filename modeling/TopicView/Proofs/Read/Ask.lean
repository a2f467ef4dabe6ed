import TopicView.Proofs.Log.Change
import TopicView.Proofs.Read.Advance

/-!
# Asking the client

A worker asks its client for a cursor, and its cursor for records.  Every other step keeps to what
it has been answered, so what a worker makes of its client is settled by these two.  On an
in-memory log they never leave the partition of the worker.
-/

namespace TopicView

open Act

def Pull.raw? : Pull → Option RawRecord
  | record raw => some raw
  | _ => none

namespace Worker

variable {σ κ : Type} {client : Client σ κ} {job : Job} {s s' : σ} {sh sh' : Shared}
  {w w' : Worker κ} {act : Option Act}

/-! ## The steps that ask and the others -/

def onOpening (w : Worker κ) : Opening κ → Option Act × Worker κ
  | .waiting => (none, w)
  | .opened c => (some .opened, w.go (w.afterOpening c))
  | .failed f => (some (.failed (w.failure .opening f)), w.go (.finished .errored))
  | .crashed => (some .crashed, w.go .crashed)

def onPull (job : Job) (w : Worker κ) (c : κ) : Pull → Option Act × Worker κ
  | .waiting => (none, w.go (.pulling c))
  | .record raw => (some (.pulled raw), w.go (examine job w c raw))
  | .ended => (some .ended, w.go (.closing c .completed))
  | .failed f => (some (.failed (w.failure .streaming f)), w.go (.closing c .errored))
  | .crashed => (some .crashed, w.go .crashed)

/-- What a step keeps that does not ask. -/
structure Quiet (w : Worker κ) (act : Option Act) (w' : Worker κ) : Prop where
  raw_eq : act.bind raw? = none
  failure_eq : act.bind failure? = none
  opening : w'.phase = .opening → w.phase = .opening
  cursor : ∀ c, w'.phase.cursor? = some c → w.phase.cursor? = some c
  through : w'.IsThrough → w.IsThrough
  going : w'.phase.outcome? = none → w.phase.outcome? = none ∧ (w.IsThrough → w'.IsThrough)
  errored : w'.phase.outcome? = some .errored → w.phase.outcome? = some .errored
  panicked : w'.phase.outcome? = some .panicked → w.phase.outcome? = some .panicked

theorem Step.quiet_or_asks (h : w.Step client job s sh act s' sh' w') :
    w.Quiet act w' ∨
    (w.phase = .opening ∧ sh.cancelled = false ∧ ∃ answer,
      client.openCursor s ⟨job.topic, w.partition⟩ w.plan.start (!w.plan.isBounded) =
        (answer, s') ∧ act = (w.onOpening answer).1 ∧ w' = (w.onOpening answer).2) ∨
    ∃ c answer c', w.phase = .pulling c ∧ sh.cancelled = false ∧
      client.pull s c = (answer, c', s') ∧ act = (w.onPull job c' answer).1 ∧
        w' = (w.onPull job c' answer).2 := by
  cases h
  case opened phase live answer => exact .inr (.inl ⟨phase, live, _, answer, rfl, rfl⟩)
  case openingFailed phase live answer => exact .inr (.inl ⟨phase, live, _, answer, rfl, rfl⟩)
  case openingCrashed phase live answer => exact .inr (.inl ⟨phase, live, _, answer, rfl, rfl⟩)
  case waited phase live answer => exact .inr (.inr ⟨_, _, _, phase, live, answer, rfl, rfl⟩)
  case pulled phase live answer => exact .inr (.inr ⟨_, _, _, phase, live, answer, rfl, rfl⟩)
  case ended phase live answer => exact .inr (.inr ⟨_, _, _, phase, live, answer, rfl, rfl⟩)
  case pullingFailed phase live answer => exact .inr (.inr ⟨_, _, _, phase, live, answer, rfl, rfl⟩)
  case pullingCrashed phase live answer =>
    exact .inr (.inr ⟨_, _, _, phase, live, answer, rfl, rfl⟩)
  case idle => exact .inl ⟨rfl, rfl, id, fun _ ↦ id, id, fun h ↦ ⟨h, id⟩, id, id⟩
  case sent c parcel b phase =>
    refine .inl ?_
    rcases afterSending_cases c parcel b with ⟨hb, heq⟩ | ⟨hb, hlast, heq⟩ | ⟨hb, hlast, heq⟩ <;>
      constructor <;> simp_all [raw?, failure?, IsThrough, Phase.cursor?, Phase.parcel?,
        Phase.outcome?]
  case granted c parcel b counter phase answer =>
    refine .inl ?_
    cases b <;> constructor <;>
      simp_all [raw?, failure?, go, IsThrough, Phase.cursor?, Phase.parcel?, Phase.outcome?]
  all_goals
    refine .inl ?_
    constructor <;>
      simp_all [raw?, failure?, go, IsThrough, Phase.cursor?, Phase.parcel?, Phase.outcome?]

theorem raw_onOpening (w : Worker κ) (answer : Opening κ) :
    (w.onOpening answer).1.bind raw? = none := by
  cases answer <;> rfl

theorem cursor_onOpening (hphase : w.phase = .opening) {answer : Opening κ} {c : κ}
    (hc : (w.onOpening answer).2.phase.cursor? = some c) : answer = .opened c := by
  cases answer with
  | waiting => simp [onOpening, hphase, Phase.cursor?] at hc
  | opened d => rw [Option.some.inj ((cursor_afterOpening d).symm.trans hc)]
  | failed f => cases hc
  | crashed => cases hc

theorem raw_onPull (job : Job) (w : Worker κ) (c : κ) (answer : Pull) :
    (w.onPull job c answer).1.bind raw? = answer.raw? := by
  cases answer <;> rfl

theorem cursor_onPull {c d : κ} {answer : Pull}
    (hd : (w.onPull job c answer).2.phase.cursor? = some d) : d = c := by
  cases answer with
  | record raw => exact Option.some.inj (hd.symm.trans (cursor_examine job w c raw))
  | crashed => cases hd
  | waiting => exact (Option.some.inj hd).symm
  | ended => exact (Option.some.inj hd).symm
  | failed f => exact (Option.some.inj hd).symm

theorem onPull_ne_opening (job : Job) (w : Worker κ) (c : κ) (answer : Pull) :
    (w.onPull job c answer).2.phase ≠ .opening := by
  cases answer with
  | record raw =>
      have hcursor := cursor_examine job w c raw
      intro hopening
      simp only [onPull, go] at hopening
      rw [hopening] at hcursor
      cases hcursor
  | waiting => simp [onPull, go]
  | ended => simp [onPull, go]
  | failed f => simp [onPull, go]
  | crashed => simp [onPull, go]

end Worker

/-! ## Asking the in-memory log -/

namespace Log

variable {log next : Log} {target : TopicPartition} {start : Offset} {follow : Bool}
  {c c' : LogCursor} {raw : RawRecord}

theorem target_of_openCursor
    (h : client.openCursor log target start follow = (.opened c, next)) : c.target = target := by
  rw [openCursor_ok (openCursor_of_client h)]

theorem mem_of_pull (h : (c.pull log).1 = .record raw) :
    ∃ p, log.partition c.target = .ok p ∧ raw ∈ p.records := by
  unfold LogCursor.pull at h
  split at h
  · cases h
  · split at h
    · cases h
    · split at h
      · cases h
      · next p hp =>
          refine ⟨p, hp, ?_⟩
          dsimp only at h
          split at h
          · next a hget =>
              split at h
              · obtain rfl := Pull.record.inj h
                obtain ⟨n, -, hn⟩ := Option.bind_eq_some_iff.mp hget
                exact List.mem_of_getElem? hn
              · cases h
          · split at h <;> cases h

end Log

namespace Worker

variable {job : Job} {log s' : Log} {sh sh' : Shared} {w w' : Worker LogCursor}
  {acts : List Act} {act : Option Act}

/-- The cursor and what it has yielded belong to the partition of the worker. -/
structure Owns (job : Job) (acts : List Act) (w : Worker LogCursor) : Prop where
  target_eq : ∀ c, w.phase.cursor? = some c → c.target = ⟨job.topic, w.partition⟩
  own : ∀ raw ∈ pulledIn acts, raw.partition = w.partition

theorem owns_start (job : Job) (index : PartitionId) (plan : Plan) :
    (start index plan).Owns job [] :=
  ⟨fun _ hc ↦ (nomatch hc), fun _ hraw ↦ (nomatch hraw)⟩

theorem Owns.step (h : w.Owns job acts) (hindexed : log.Indexed)
    (hstep : w.Step Log.client job log sh act s' sh' w') : w'.Owns job (acts ++ act.toList) := by
  have hown (hnew : ∀ raw ∈ act.bind raw?, raw.partition = w.partition) :
      ∀ raw ∈ pulledIn (acts ++ act.toList), raw.partition = w.partition := by
    intro raw hraw
    rw [pulledIn_step, List.mem_append, Option.mem_toList] at hraw
    exact hraw.elim (h.own raw) (hnew raw)
  constructor
  · intro d hd
    rw [hstep.partition_eq]
    rcases hstep.quiet_or_asks with hquiet | ⟨hphase, -, answer, hopen, rfl, rfl⟩ |
      ⟨c, answer, c', hphase, -, hpull, rfl, rfl⟩
    · exact h.target_eq d (hquiet.cursor d hd)
    · rw [cursor_onOpening hphase hd] at hopen
      exact Log.target_of_openCursor hopen
    · have hafter := Log.target_pull c log
      rw [(Log.pull_of_client hpull).1] at hafter
      rw [cursor_onPull hd, hafter]
      exact h.target_eq c (by rw [hphase]; rfl)
  · rw [hstep.partition_eq]
    apply hown
    intro raw hraw
    rcases hstep.quiet_or_asks with hquiet | ⟨hphase, -, answer, hopen, rfl, rfl⟩ |
      ⟨c, answer, c', hphase, -, hpull, rfl, rfl⟩
    · rw [hquiet.raw_eq] at hraw
      cases hraw
    · rw [raw_onOpening] at hraw
      cases hraw
    · rw [raw_onPull] at hraw
      cases answer with
      | record a =>
          obtain rfl : raw = a := (Option.some.inj hraw).symm
          have hfirst : (c.pull log).1 = .record raw := by rw [(Log.pull_of_client hpull).1]
          obtain ⟨p, hp, hmem⟩ := Log.mem_of_pull hfirst
          rw [h.target_eq c (by rw [hphase]; rfl)] at hp
          exact hindexed _ p hp raw hmem
      | _ => cases hraw

end Worker

namespace Stage

variable {δ : Type} {alter : δ → Log → Log} {x y : Stage Log LogCursor} {job : Job}

/-- What holds of every worker of a read of an in-memory log. -/
structure Owned (job : Job) (x : Stage Log LogCursor) : Prop where
  indexed : x.state.Indexed
  job_eq : x.read.job = job
  owns : x.Each (Worker.Owns job)
  relays : x.Each (Worker.Relays job)

theorem Owned.next (h : x.Owned job) {m : Move δ} (hm : x.Next Log.client alter m y)
    (halter : ∀ change, m = .alter change → (alter change x.state).Indexed) : y.Owned job := by
  obtain ⟨hindexed, rfl, howns, hrelays⟩ := h
  cases hm
  case unchanged => exact ⟨hindexed, rfl, howns, hrelays⟩
  case worked hw hstep =>
    obtain rfl := hstep.log_eq
    exact ⟨hindexed, rfl, howns.after hw fun hold ↦ hold.step hindexed hstep,
      hrelays.after hw fun hold ↦ hold.step hstep⟩
  case altered change =>
    exact ⟨halter change rfl, rfl, howns.note rfl fun _ ↦ rfl, hrelays.note rfl fun _ ↦ rfl⟩
  all_goals exact ⟨hindexed, rfl, howns.note rfl fun _ ↦ rfl, hrelays.note rfl fun _ ↦ rfl⟩

theorem Owned.partition_eq (h : x.Owned job) :
    x.Each fun acts w ↦ ∀ a ∈ sentIn acts, a.partition = w.partition := by
  intro i w hw a ha
  exact (h.relays i w hw).partition_eq (h.owns i w hw).own ha

theorem owned_play {log : Log} {settings : ReaderSettings} {decoder : Decoder}
    {request : Request} {cancelled : Bool} {ranges : List (PartitionId × Offsets)}
    {r : Read LogCursor} (hlog : log.Indexed)
    (h : Launched Log.client log settings decoder request cancelled ranges r)
    (moves : List (Move δ))
    (halter : ∀ change, .alter change ∈ moves → ∀ log : Log, log.Indexed →
      (alter change log).Indexed) :
    ((start log r).play Log.client alter moves).Owned
      ⟨request.topic, decoder, request.filter⟩ := by
  refine play_keeps Log.client alter (start log r) ?_ moves ?_
  · refine ⟨hlog, ?_, each_start h (Worker.owns_start _), each_start h (Worker.relays_start _)⟩
    rw [h.made]
    rfl
  · intro y m hm hy
    refine hy.next (next_step alter m) ?_
    rintro change rfl
    exact halter change hm y.state hy.indexed

end Stage
end TopicView
