import Mathlib.Data.List.Nodup
import Mathlib.Data.List.ProdSigma
import Mathlib.Logic.Relation
import TopicView.Proofs.Read.Errand
import TopicView.Proofs.Read.Relay

/-!
# Starting a read, step by step

The request and the settings are checked, the lookups are answered one by one while others change
the client, and the read is refused, or has nothing to read, or crashes, or runs.  An attempt keeps
every call that the client has got.  `startRead` is the attempt in which the lookups are answered at
once.
-/

namespace TopicView

/-- What the client is asked for, and in the case of a lookup its answer. -/
inductive Call
  | lookup (partition : PartitionId) (edge : Edge) (answer : Result Failure Offset)
  | opening (partition : PartitionId)
  | pull (partition : PartitionId)
  | close (partition : PartitionId)

/-- The answers that the lookups of a partition have got. -/
def repliesIn (calls : List Call) (p : PartitionId) : Replies :=
  fun edge a ↦ .lookup p edge a ∈ calls

variable {σ κ δ : Type}

/-- The call that a worker makes when it is given its turn. -/
def Worker.call? (sh : Shared) (w : Worker κ) : Option Call :=
  match w.phase with
  | .opening => if sh.cancelled then none else some (.opening w.partition)
  | .pulling _ => if sh.cancelled then none else some (.pull w.partition)
  | .closing _ _ => some (.close w.partition)
  | _ => none

/-- Where no call is made, the client does not matter. -/
theorem Worker.turn_eq_of_no_call {sh : Shared} {w : Worker κ} (h : w.call? sh = none)
    (client client' : Client σ κ) (job : Job) (s : σ) :
    w.turn client job s sh = w.turn client' job s sh := by
  unfold call? at h
  cases hphase : w.phase <;> simp_all [turn]

/-- Where no cursor is to be opened, it does not matter how cursors open. -/
theorem Worker.turn_eq_of_no_opening {sh : Shared} {w : Worker κ}
    (h : w.call? sh ≠ some (.opening w.partition)) (client : Client σ κ)
    (openCursor : σ → TopicPartition → Offset → Bool → Opening κ × σ) (job : Job) (s : σ) :
    w.turn { client with openCursor } job s sh = w.turn client job s sh := by
  unfold call? at h
  cases hphase : w.phase <;> simp_all [turn]

def Stage.calls (x : Stage σ κ) : Move δ → List Call
  | .turn i => (x.read.workers[i]?.bind (·.call? x.read.shared)).toList
  | _ => []

/-! ## Attempts -/

/-- How far a read has come. -/
inductive Standing (σ κ : Type)
  | called (s : σ)
  | resolving (s : σ)
  | refused (error : ReadError)
  | emptyTopic
  | crashed
  | running (x : Stage σ κ)

structure Attempt (σ κ : Type) where
  calls : List Call
  standing : Standing σ κ

def Standing.of (s : σ) : Result ReadError (Started κ) → Standing σ κ
  | .error error => .refused error
  | .crash => .crashed
  | .ok .emptyTopic => .emptyTopic
  | .ok (.running r) => .running (.start s r)

namespace Attempt

variable (client : Client σ κ) (alter : δ → σ → σ) (e : Errand)

/-- The steps of an attempt.  The lookups are all under way at once: any of them may be answered
next, each once, and the first failure that is seen ends the resolution.  A lookup that crashes
takes the attempt with it. -/
inductive Step : Attempt σ κ → Attempt σ κ → Prop
  | rejected {calls : List Call} {s : σ} {fault : RequestFault}
      (invalid : e.request.validate = .error fault) :
      Step ⟨calls, .called s⟩ ⟨calls, .refused (.invalidRequest fault)⟩
  | misconfigured {calls : List Call} {s : σ} {fault : SettingFault}
      (valid : e.request.validate = .ok ()) (invalid : e.settings.validate = .error fault) :
      Step ⟨calls, .called s⟩ ⟨calls, .refused (.configuration fault)⟩
  | accepted {calls : List Call} {s : σ} (valid : e.request.validate = .ok ())
      (configured : e.settings.validate = .ok ()) : Step ⟨calls, .called s⟩ ⟨calls, .resolving s⟩
  | altered {calls : List Call} {s : σ} (change : δ) :
      Step ⟨calls, .resolving s⟩ ⟨calls, .resolving (alter change s)⟩
  | answered {calls : List Call} {s : σ} {p : PartitionId} {edge : Edge}
      (requested : p ∈ e.request.partitions) (waiting : ∀ a, ¬ repliesIn calls p edge a)
      (calm : (client.lookup s e.request.topic p).answer edge ≠ .crash) :
      Step ⟨calls, .resolving s⟩
        ⟨calls ++ [.lookup p edge ((client.lookup s e.request.topic p).answer edge)], .resolving s⟩
  | crashed {calls : List Call} {s : σ} {p : PartitionId} {edge : Edge}
      (requested : p ∈ e.request.partitions) (waiting : ∀ a, ¬ repliesIn calls p edge a)
      (crash : (client.lookup s e.request.topic p).answer edge = .crash) :
      Step ⟨calls, .resolving s⟩ ⟨calls ++ [.lookup p edge .crash], .crashed⟩
  | failed {calls : List Call} {s : σ} {p : PartitionId} {f : Failure}
      (requested : p ∈ e.request.partitions) (failure : (repliesIn calls p).Fail f) :
      Step ⟨calls, .resolving s⟩ ⟨calls, .refused (.offsetFetch ⟨e.request.topic, p⟩ f)⟩
  | resolved {calls : List Call} {s : σ} {lookup : PartitionId → Lookup}
      {ranges : List (PartitionId × Offsets)}
      (replies : ∀ p ∈ e.request.partitions, ∀ edge,
        repliesIn calls p edge ((lookup p).answer edge))
      (success : resolve e.request.topic lookup e.request.partitions.toList = .ok ranges) :
      Step ⟨calls, .resolving s⟩ ⟨calls, .of s (e.launch ranges)⟩
  | moved {calls : List Call} {x : Stage σ κ} (m : Move δ) :
      Step ⟨calls, .running x⟩ ⟨calls ++ x.calls m, .running (x.step client alter m)⟩

/-- What an errand can come to that is given to the reader in a state of the client. -/
def Reached (s : σ) : Attempt σ κ → Prop :=
  Relation.ReflTransGen (Step client alter e) ⟨[], .called s⟩

end Attempt

/-! ## What an attempt has come to -/

theorem Replies.Give.mono {A B : Replies} {o : Offsets} (h : A.Give o)
    (hAB : ∀ edge a, A edge a → B edge a) : B.Give o :=
  ⟨hAB _ _ h.oldest, hAB _ _ h.firstAvailable, h.upright⟩

namespace Errand

variable {e : Errand} {calls : List Call} {ranges : List (PartitionId × Offsets)}

/-- Only lookups of requested partitions have been made, each of them once. -/
structure Asked (e : Errand) (calls : List Call) : Prop where
  lookups : ∀ c ∈ calls, ∃ p ∈ e.request.partitions, ∃ edge a, c = .lookup p edge a
  single : ∀ p, (repliesIn calls p).Single

/-- One range for each requested partition, the one that its own lookups gave. -/
structure Ranged (e : Errand) (calls : List Call) (ranges : List (PartitionId × Offsets)) :
    Prop where
  keys_eq : ranges.map Prod.fst = e.request.partitions.toList
  own : ∀ r ∈ ranges, (repliesIn calls r.1).Give r.2

theorem asked_nil (e : Errand) : e.Asked [] := ⟨nofun, fun _ _ _ _ h ↦ nomatch h⟩

theorem Asked.concat (h : e.Asked calls) {p : PartitionId} {edge : Edge}
    (hp : p ∈ e.request.partitions) (hwaiting : ∀ a, ¬ repliesIn calls p edge a)
    (a : Result Failure Offset) : e.Asked (calls ++ [.lookup p edge a]) := by
  constructor
  · intro c hc
    rcases List.mem_append.mp hc with hc | hc
    · exact h.lookups c hc
    · exact ⟨p, hp, edge, a, List.mem_singleton.mp hc⟩
  · intro q edge' b c hb hc
    simp only [repliesIn, List.mem_append, List.mem_singleton, Call.lookup.injEq] at hb hc
    rcases hb with hb | ⟨rfl, rfl, rfl⟩ <;> rcases hc with hc | ⟨hq, hedge, rfl⟩
    · exact h.single q edge' b c hb hc
    · subst hq hedge
      exact (hwaiting b hb).elim
    · exact (hwaiting c hc).elim
    · rfl

theorem Ranged.append (h : e.Ranged calls ranges) (more : List Call) :
    e.Ranged (calls ++ more) ranges :=
  ⟨h.keys_eq, fun r hr ↦ (h.own r hr).mono fun _ _ ↦ List.mem_append_left more⟩

/-- The ranges of a resolution are those of the replies that it was made of. -/
theorem ranged_of_resolve {lookup : PartitionId → Lookup}
    (hreplies : ∀ p ∈ e.request.partitions, ∀ edge,
      repliesIn calls p edge ((lookup p).answer edge))
    (h : resolve e.request.topic lookup e.request.partitions.toList = .ok ranges) :
    e.Ranged calls ranges := by
  obtain ⟨hkeys, hown⟩ := (resolve_eq_ok_iff e.request.partitions.ascending).mp h
  refine ⟨hkeys, fun r hr ↦ (hown r hr).mono ?_⟩
  rintro edge a rfl
  have hp : r.1 ∈ e.request.partitions.toList := hkeys ▸ List.mem_map_of_mem hr
  exact hreplies r.1 hp edge

/-- The lookups of every requested partition have given a range. -/
def Located (e : Errand) (A : PartitionId → Replies) : Prop :=
  ∀ p ∈ e.request.partitions, ∃ o, (A p).Give o

/-- The range of a requested partition starts at the least offset, and no plan of it could end below
its start. -/
def HasLowest (e : Errand) (A : PartitionId → Replies) : Prop :=
  ∃ p ∈ e.request.partitions, ∃ o, (A p).Give o ∧ o.oldest = Int64.minValue

/-- What crashes a valid errand: a lookup, or a plan or a channel that cannot be made. -/
inductive Crashes (e : Errand) (calls : List Call) : Prop
  | lookup {p : PartitionId} (requested : p ∈ e.request.partitions)
      (crash : (repliesIn calls p).Crash) : Crashes e calls
  | plan {ranges : List (PartitionId × Offsets)} (ranged : e.Ranged calls ranges)
      (unplanned : planAll? e.request ranges = none) : Crashes e calls
  | channel (large : Channel.maxCapacity < e.settings.channelCapacity.toNat) : Crashes e calls

theorem Ranged.exists_give (h : e.Ranged calls ranges) {p : PartitionId}
    (hp : p ∈ e.request.partitions) : ∃ r ∈ ranges, r.1 = p ∧ (repliesIn calls p).Give r.2 := by
  obtain ⟨r, hr, rfl⟩ := List.mem_map.mp (h.keys_eq ▸ hp : p ∈ ranges.map Prod.fst)
  exact ⟨r, hr, rfl, h.own r hr⟩

theorem mem_of_keys_eq (hkeys : ranges.map Prod.fst = e.request.partitions.toList)
    {r : PartitionId × Offsets} (hr : r ∈ ranges) : r.1 ∈ e.request.partitions := by
  change r.1 ∈ e.request.partitions.toList
  rw [← hkeys]
  exact List.mem_map_of_mem hr

/-- Only of a range at the least offset no plan can be made. -/
theorem hasLowest_of_unplanned {A : PartitionId → Replies}
    (hown : ∀ r ∈ ranges, r.1 ∈ e.request.partitions ∧ (A r.1).Give r.2)
    (h : planAll? e.request ranges = none) : e.HasLowest A := by
  by_contra hlow
  have hplans : planAll? e.request ranges = some (planAll e.request ranges) := by
    refine planAll?_eq fun r hr ↦ ?_
    obtain ⟨hmem, hgive⟩ := hown r hr
    refine ⟨?_, hgive.upright⟩
    have hne : r.2.oldest ≠ Int64.minValue := fun heq ↦ hlow ⟨r.1, hmem, r.2, hgive, heq⟩
    have hmin := Int64.toInt_minValue
    have hle := r.2.oldest.le_toInt
    rw [ne_eq, ← Int64.toInt_inj] at hne
    omega
  rw [hplans] at h
  cases h

end Errand

namespace Attempt

variable {client : Client σ κ} {alter : δ → σ → σ} {e : Errand} {s : σ} {a b : Attempt σ κ}

/-- How an attempt can stand, and what is known then of the calls that led there. -/
inductive Sound (e : Errand) (s : σ) : Attempt σ κ → Prop
  | called : Sound e s ⟨[], .called s⟩
  | resolving {calls : List Call} {s' : σ} (valid : e.Valid) (asked : e.Asked calls)
      (calm : ∀ p, ¬ (repliesIn calls p).Crash) : Sound e s ⟨calls, .resolving s'⟩
  | rejected {fault : RequestFault} (invalid : e.request.validate = .error fault) :
      Sound e s ⟨[], .refused (.invalidRequest fault)⟩
  | misconfigured {fault : SettingFault} (valid : e.request.validate = .ok ())
      (invalid : e.settings.validate = .error fault) :
      Sound e s ⟨[], .refused (.configuration fault)⟩
  | failed {calls : List Call} {p : PartitionId} {f : Failure} (valid : e.Valid)
      (asked : e.Asked calls) (requested : p ∈ e.request.partitions)
      (failure : (repliesIn calls p).Fail f) :
      Sound e s ⟨calls, .refused (.offsetFetch ⟨e.request.topic, p⟩ f)⟩
  | emptyTopic {calls : List Call} {ranges : List (PartitionId × Offsets)} (valid : e.Valid)
      (asked : e.Asked calls) (ranged : e.Ranged calls ranges)
      (unreadable : ∀ r ∈ ranges, isReadable e.request.mode r.2 = false) :
      Sound e s ⟨calls, .emptyTopic⟩
  | crashed {calls : List Call} (valid : e.Valid) (asked : e.Asked calls)
      (cause : e.Crashes calls) : Sound e s ⟨calls, .crashed⟩
  | running {calls : List Call} {x : Stage σ κ} {ranges : List (PartitionId × Offsets)}
      {plans : List (PartitionId × Plan)} (valid : e.Valid) (ranged : e.Ranged calls ranges)
      (readable : ∃ r ∈ ranges, isReadable e.request.mode r.2 = true)
      (planned : planAll? e.request ranges = some plans)
      (framed : x.Framed (.make e.request e.decoder e.settings.channelCapacity.toNat e.cancelled
        plans)) :
      Sound e s ⟨calls, .running x⟩

theorem calm_concat {calls : List Call} (h : ∀ p, ¬ (repliesIn calls p).Crash) {p : PartitionId}
    {edge : Edge} {a : Result Failure Offset} (ha : a ≠ .crash) (q : PartitionId) :
    ¬ (repliesIn (calls ++ [.lookup p edge a]) q).Crash := by
  rintro ⟨edge', hcrash⟩
  rcases List.mem_append.mp hcrash with hcrash | hcrash
  · exact h q ⟨edge', hcrash⟩
  · obtain ⟨-, -, heq⟩ := Call.lookup.inj (List.mem_singleton.mp hcrash)
    exact ha heq.symm

theorem Sound.step (ha : a.Sound e s) (h : Step client alter e a b) : b.Sound e s := by
  cases h with
  | rejected invalid =>
      cases ha
      exact .rejected invalid
  | misconfigured valid invalid =>
      cases ha
      exact .misconfigured valid invalid
  | accepted valid configured =>
      cases ha
      exact .resolving (Errand.valid_iff.mpr ⟨valid, configured⟩) e.asked_nil nofun
  | altered change =>
      obtain _ | ⟨valid, asked, calm⟩ := ha
      exact .resolving valid asked calm
  | answered requested waiting quiet =>
      obtain _ | ⟨valid, asked, calm⟩ := ha
      exact .resolving valid (asked.concat requested waiting _) (calm_concat calm quiet)
  | @crashed calls s' p edge requested waiting crash =>
      obtain _ | ⟨valid, asked, -⟩ := ha
      have hcrash : (repliesIn (calls ++ [.lookup p edge .crash]) p).Crash :=
        ⟨edge, List.mem_append_right calls List.mem_cons_self⟩
      exact .crashed valid (asked.concat requested waiting _) (.lookup requested hcrash)
  | failed requested failure =>
      obtain _ | ⟨valid, asked, -⟩ := ha
      exact .failed valid asked requested failure
  | @resolved calls s' lookup ranges replies success =>
      obtain _ | ⟨valid, asked, -⟩ := ha
      have hranged := Errand.ranged_of_resolve replies success
      rcases e.launch_cases κ ranges with ⟨hlaunch, hunreadable⟩ |
        ⟨hreadable, ⟨hlaunch, hcause⟩ | ⟨plans, hplanned, -, hlaunch⟩⟩
      · rw [hlaunch]
        exact .emptyTopic valid asked hranged hunreadable
      · rw [hlaunch]
        exact .crashed valid asked (hcause.elim (.plan hranged) .channel)
      · rw [hlaunch]
        exact .running valid hranged hreadable hplanned (Stage.framed_start _ _)
  | moved m =>
      cases ha with
      | running valid ranged readable planned framed =>
          exact .running valid (ranged.append _) readable planned
            (framed.next (Stage.next_step alter m))

theorem Reached.sound (h : Reached client alter e s a) : a.Sound e s := by
  induction h with
  | refl => exact .called
  | tail _ hstep ih => exact ih.step hstep

/-- Nothing but the refusal of an invalid errand can follow from it. -/
theorem Sound.of_not_valid (ha : a.Sound e s) (h : ¬ e.Valid) :
    a.calls = [] ∧ (a.standing = .called s ∨
      (∃ fault, e.request.validate = .error fault ∧
        a.standing = .refused (.invalidRequest fault)) ∨
      ∃ fault, e.request.validate = .ok () ∧ e.settings.validate = .error fault ∧
        a.standing = .refused (.configuration fault)) := by
  cases ha with
  | called => exact ⟨rfl, .inl rfl⟩
  | rejected invalid => exact ⟨rfl, .inr (.inl ⟨_, invalid, rfl⟩)⟩
  | misconfigured valid invalid => exact ⟨rfl, .inr (.inr ⟨_, valid, invalid, rfl⟩)⟩
  | resolving valid _ _ => exact (h valid).elim
  | failed valid _ _ _ => exact (h valid).elim
  | emptyTopic valid _ _ _ => exact (h valid).elim
  | crashed valid _ _ => exact (h valid).elim
  | running valid _ _ _ _ => exact (h valid).elim

end Attempt

namespace Errand

variable {client : Client σ κ} {alter : δ → σ → σ} {e : Errand} {s : σ}

/-- A lookup and the answer that the client has for it. -/
def ask (client : Client σ κ) (s : σ) (e : Errand) (q : PartitionId × Edge) : Call :=
  .lookup q.1 q.2 ((client.lookup s e.request.topic q.1).answer q.2)

theorem repliesIn_ask {qs : List (PartitionId × Edge)} {p : PartitionId} {edge : Edge}
    {a : Result Failure Offset} : repliesIn (qs.map (e.ask client s)) p edge a ↔
      (p, edge) ∈ qs ∧ client.replies s e.request.topic p edge a := by
  simp only [repliesIn, List.mem_map, ask, Call.lookup.injEq, Prod.exists]
  constructor
  · rintro ⟨q, edge', hq, rfl, rfl, ha⟩
    exact ⟨hq, ha⟩
  · rintro ⟨hq, ha⟩
    exact ⟨p, edge, hq, rfl, rfl, ha⟩

/-- While nobody changes the client, the lookups may be answered in any order. -/
theorem reached_ask (h : e.Valid) {qs : List (PartitionId × Edge)} (hqs : qs.Nodup)
    (hrequested : ∀ q ∈ qs, q.1 ∈ e.request.partitions)
    (hcalm : ∀ q ∈ qs, (client.lookup s e.request.topic q.1).answer q.2 ≠ .crash) :
    Attempt.Reached client alter e s ⟨qs.map (e.ask client s), .resolving s⟩ := by
  induction qs using List.reverseRecOn with
  | nil =>
      obtain ⟨hrequest, hsettings⟩ := valid_iff.mp h
      exact .single (.accepted hrequest hsettings)
  | append_singleton qs q ih =>
      obtain ⟨hfirst, -, hfresh⟩ := List.nodup_append.mp hqs
      have hbefore := ih hfirst (fun q' hq' ↦ hrequested q' (List.mem_append_left _ hq'))
        (fun q' hq' ↦ hcalm q' (List.mem_append_left _ hq'))
      have hwaiting : ∀ a, ¬ repliesIn (qs.map (e.ask client s)) q.1 q.2 a := by
        intro a ha
        exact hfresh q (repliesIn_ask.mp ha).1 q List.mem_cons_self rfl
      rw [List.map_append]
      exact hbefore.tail (.answered (hrequested q (by simp)) hwaiting (hcalm q (by simp)))

def edges : List Edge := [.oldest, .firstAvailable]

theorem mem_edges (edge : Edge) : edge ∈ edges := by
  cases edge <;> decide

/-- Where every lookup gives its part of a range, they are all answered at some time. -/
theorem exists_reached_located (client : Client σ κ) (alter : δ → σ → σ) (s : σ) (h : e.Valid)
    (hlocated : e.Located (client.replies s e.request.topic)) :
    ∃ calls, Attempt.Reached client alter e s ⟨calls, .resolving s⟩ ∧
      ∀ p ∈ e.request.partitions,
        repliesIn calls p = client.replies s e.request.topic p := by
  have hnodup : e.request.partitions.toList.Nodup :=
    e.request.partitions.ascending.imp Std.ne_of_lt
  have hmem (q : PartitionId × Edge) :
      q ∈ e.request.partitions.toList ×ˢ edges ↔ q.1 ∈ e.request.partitions :=
    List.mem_product.trans (and_iff_left (mem_edges q.2))
  refine ⟨_, reached_ask h (hnodup.product (by decide : edges.Nodup))
    (fun q hq ↦ (hmem q).mp hq) ?_, fun p hp ↦ ?_⟩
  · intro q hq hcrash
    obtain ⟨o, ho⟩ := hlocated q.1 ((hmem q).mp hq)
    exact ho.not_crash (Lookup.single_replies _) ⟨q.2, hcrash⟩
  · funext edge a
    exact propext (repliesIn_ask.trans (and_iff_right ((hmem (p, edge)).mpr hp)))

/-- Where the lookups of a partition fail, it can be their answers that are seen first. -/
theorem exists_reached_fail (client : Client σ κ) (alter : δ → σ → σ) (s : σ) (h : e.Valid)
    {p : PartitionId} (hp : p ∈ e.request.partitions) {f : Failure}
    (hfail : (client.replies s e.request.topic p).Fail f) :
    ∃ calls, Attempt.Reached client alter e s ⟨calls, .resolving s⟩ ∧
      (repliesIn calls p).Fail f := by
  cases hfail with
  | lookup edge answer =>
      refine ⟨[e.ask client s (p, edge)], reached_ask h (List.nodup_singleton _) ?_ ?_, ?_⟩
      · simpa using hp
      · intro q hq hcrash
        obtain rfl := List.mem_singleton.mp hq
        cases answer.symm.trans hcrash
      · exact .lookup edge (repliesIn_ask.mpr ⟨List.mem_singleton_self _, answer⟩)
  | inverted atOldest atFirst below =>
      refine ⟨[(p, .oldest), (p, .firstAvailable)].map (e.ask client s),
        reached_ask h (by simp) ?_ ?_, ?_⟩
      · simpa using hp
      · intro q hq hcrash
        obtain rfl | rfl := List.mem_pair.mp hq
        · cases atOldest.symm.trans hcrash
        · cases atFirst.symm.trans hcrash
      · exact .inverted (repliesIn_ask.mpr ⟨by simp, atOldest⟩)
          (repliesIn_ask.mpr ⟨by simp, atFirst⟩) below

/-- What `startRead` answers can be reached. -/
theorem exists_reached_start (client : Client σ κ) (alter : δ → σ → σ) (e : Errand) (s : σ) :
    ∃ calls, Attempt.Reached client alter e s ⟨calls, .of s (e.start client s)⟩ := by
  have hascending := e.request.partitions.ascending
  cases hrequest : e.request.validate with
  | error fault =>
      rw [start_rejected hrequest]
      exact ⟨[], .single (.rejected hrequest)⟩
  | ok u =>
      cases hsettings : e.settings.validate with
      | error fault =>
          rw [start_misconfigured hrequest hsettings]
          exact ⟨[], .single (.misconfigured hrequest hsettings)⟩
      | ok v =>
          have hvalid := valid_iff.mpr ⟨hrequest, hsettings⟩
          rw [start_of_valid hvalid]
          cases hresolve : resolve e.request.topic (client.lookup s e.request.topic)
              e.request.partitions.toList with
          | ok ranges =>
              have hlocated := (exists_resolve_ok_iff _ hascending).mp ⟨ranges, hresolve⟩
              obtain ⟨calls, hreached, hreplies⟩ :=
                exists_reached_located client alter s hvalid hlocated
              refine ⟨calls, hreached.tail (.resolved (fun p hp edge ↦ ?_) hresolve)⟩
              rw [hreplies p hp]
              rfl
          | error error =>
              obtain ⟨p, f, hp, hfail, rfl⟩ := exists_of_resolve_error hascending hresolve
              obtain ⟨calls, hreached, hfailed⟩ :=
                exists_reached_fail client alter s hvalid hp.mem hfail
              exact ⟨calls, hreached.tail (.failed hp.mem hfailed)⟩
          | crash =>
              obtain ⟨p, hp, edge, hcrash⟩ := exists_of_resolve_crash hascending hresolve
              have haccepted : Attempt.Reached client alter e s ⟨[], .resolving s⟩ :=
                .single (.accepted hrequest hsettings)
              exact ⟨_, haccepted.tail (.crashed hp.mem nofun hcrash)⟩

/-- The read goes on with the ranges that its lookups gave. -/
def GoesOn (e : Errand) (calls : List Call) (s : σ) (b : Attempt σ κ) : Prop :=
  ∃ ranges, e.Ranged calls ranges ∧ b = ⟨calls, .of s (e.launch ranges)⟩

/-- The read is refused for a requested partition whose own lookups failed with that cause. -/
def IsRefused (e : Errand) (calls : List Call) (b : Attempt σ κ) : Prop :=
  ∃ p ∈ e.request.partitions, ∃ f, (repliesIn calls p).Fail f ∧
    b = ⟨calls, .refused (.offsetFetch ⟨e.request.topic, p⟩ f)⟩

def OnlyLookups (e : Errand) (calls : List Call) : Prop :=
  ∀ c ∈ calls, ∃ p ∈ e.request.partitions, ∃ edge a, c = .lookup p edge a

/-- What `startRead` makes of a valid errand. -/
structure StartsAtOnce (e : Errand) (client : Client σ κ) (s : σ) : Prop where
  /-- The ranges are resolved where every lookup succeeds. -/
  resolved_iff : (∃ ranges, resolve e.request.topic (client.lookup s e.request.topic)
      e.request.partitions.toList = .ok ranges) ↔
    e.Located (client.replies s e.request.topic)
  /-- So nothing is started where one does not. -/
  located : (∃ started, e.start client s = .ok started) →
    e.Located (client.replies s e.request.topic)
  started : e.Located (client.replies s e.request.topic) →
    (∃ started, e.start client s = .ok started) ∨
      e.HasLowest (client.replies s e.request.topic)
  /-- A refusal names the smallest partition without a range, and its own cause. -/
  refused : ∀ error, e.start client s = .error error → ∃ p f,
    error = .offsetFetch ⟨e.request.topic, p⟩ f ∧
      (client.replies s e.request.topic p).Fail f ∧
      Foremost (client.lookup s e.request.topic) e.request.partitions.toList p
  crashed : e.start client s = .crash →
    (∃ p, (client.replies s e.request.topic p).Crash ∧
      Foremost (client.lookup s e.request.topic) e.request.partitions.toList p) ∨
    e.HasLowest (client.replies s e.request.topic)

/-- A read starts completely or not at all. -/
structure StartsWhole (client : Client σ κ) (alter : δ → σ → σ) (e : Errand) (s : σ) : Prop where
  /-- An invalid errand is refused, and no call is ever made for it. -/
  invalid : ¬ e.Valid → ∃ error, e.start client s = .error error ∧
    ((∃ fault, error = .invalidRequest fault) ∨ ∃ fault, error = .configuration fault) ∧
    ∀ a, Attempt.Reached client alter e s a →
      a.calls = [] ∧ (a.standing = .called s ∨ a.standing = .refused error)
  /-- A valid one is refused only for a lookup, before any cursor is opened. -/
  refused : e.Valid → ∀ calls error, Attempt.Reached client alter e s ⟨calls, .refused error⟩ →
    e.IsRefused (σ := σ) (κ := κ) calls ⟨calls, .refused error⟩ ∧ e.OnlyLookups calls
  /-- Once all lookups are answered the read goes on if each partition has a range, and is refused
  if one has not. -/
  answered : ∀ calls s', Attempt.Reached client alter e s ⟨calls, .resolving s'⟩ →
    (∀ p ∈ e.request.partitions, ∀ edge, ∃ a, repliesIn calls p edge a) →
    ((∃ b, Attempt.Step client alter e ⟨calls, .resolving s'⟩ b ∧ e.GoesOn calls s' b) ↔
      ∀ p ∈ e.request.partitions, ∃ o, (repliesIn calls p).Give o) ∧
    ((∃ b, Attempt.Step client alter e ⟨calls, .resolving s'⟩ b ∧ e.IsRefused calls b) ↔
      ¬ ∀ p ∈ e.request.partitions, ∃ o, (repliesIn calls p).Give o)
  /-- There is nothing to read where the mode is bounded and all ranges are empty, and no cursor is
  opened. -/
  emptyTopic : ∀ calls, Attempt.Reached client alter e s ⟨calls, .emptyTopic⟩ →
    e.request.mode ≠ .live ∧ e.OnlyLookups calls ∧
      ∃ ranges, e.Ranged calls ranges ∧ ∀ r ∈ ranges, r.2.isEmpty = true
  /-- In every other case one worker runs for each requested partition, on the plan of the range
  that its own lookups gave. -/
  running : ∀ calls x, Attempt.Reached client alter e s ⟨calls, .running x⟩ →
    ∃ ranges, e.Ranged calls ranges ∧
      (e.request.mode = .live ∨ ∃ r ∈ ranges, r.2.isEmpty = false) ∧
      planAll? e.request ranges = some x.read.plans ∧
      x.read.workers.map (·.partition) = e.request.partitions.toList
  /-- It crashes only with one of its lookups, or where a range starts at the least offset. -/
  crashed : ∀ calls, Attempt.Reached client alter e s ⟨calls, .crashed⟩ →
    e.OnlyLookups calls ∧
      ((∃ p ∈ e.request.partitions, (repliesIn calls p).Crash) ∨ e.HasLowest (repliesIn calls))
  /-- Nothing follows a refusal, a crash or the news that there is nothing to read. -/
  final : ∀ calls standing b,
    (∃ error, standing = .refused error) ∨ standing = .emptyTopic ∨ standing = .crashed →
      ¬ Attempt.Step client alter e ⟨calls, standing⟩ b
  /-- What `startRead` answers is one of these courses. -/
  at_once : (∃ calls, Attempt.Reached client alter e s ⟨calls, .of s (e.start client s)⟩) ∧
    (e.Valid → e.StartsAtOnce client s)

/-- Once the lookups of a partition are both answered, their replies are those of a lookup. -/
theorem Asked.exists_lookup {calls : List Call} (h : e.Asked calls)
    (hanswered : ∀ p ∈ e.request.partitions, ∀ edge, ∃ a, repliesIn calls p edge a) :
    ∃ lookup : PartitionId → Lookup,
      ∀ p ∈ e.request.partitions, repliesIn calls p = (lookup p).replies := by
  have hone : ∀ p, ∃ l : Lookup, p ∈ e.request.partitions → repliesIn calls p = l.replies := by
    intro p
    by_cases hp : p ∈ e.request.partitions
    · obtain ⟨a, ha⟩ := hanswered p hp .oldest
      obtain ⟨b, hb⟩ := hanswered p hp .firstAvailable
      refine ⟨⟨a, b⟩, fun _ ↦ ?_⟩
      funext edge c
      cases edge with
      | oldest => exact propext ⟨h.single p _ _ _ ha, fun hac ↦ hac ▸ ha⟩
      | firstAvailable => exact propext ⟨h.single p _ _ _ hb, fun hbc ↦ hbc ▸ hb⟩
    · exact ⟨⟨.ok 0, .ok 0⟩, fun hp' ↦ (hp hp').elim⟩
  choose lookup hlookup using hone
  exact ⟨lookup, hlookup⟩

section Answered

variable {calls : List Call} {s' : σ}

theorem exists_goesOn_iff (h : e.Asked calls)
    (hanswered : ∀ p ∈ e.request.partitions, ∀ edge, ∃ a, repliesIn calls p edge a) :
    (∃ b, Attempt.Step client alter e ⟨calls, .resolving s'⟩ b ∧ e.GoesOn calls s' b) ↔
      ∀ p ∈ e.request.partitions, ∃ o, (repliesIn calls p).Give o := by
  constructor
  · rintro ⟨b, -, ranges, hranged, rfl⟩ p hp
    obtain ⟨r, -, -, hgive⟩ := hranged.exists_give hp
    exact ⟨r.2, hgive⟩
  · intro hgive
    obtain ⟨lookup, hlookup⟩ := h.exists_lookup hanswered
    obtain ⟨ranges, hranges⟩ : ∃ ranges,
        resolve e.request.topic lookup e.request.partitions.toList = .ok ranges := by
      refine exists_resolve_ok e.request.topic fun p hp ↦ ?_
      rw [← hlookup p hp]
      exact hgive p hp
    have hreplies : ∀ p ∈ e.request.partitions, ∀ edge,
        repliesIn calls p edge ((lookup p).answer edge) := by
      intro p hp edge
      rw [hlookup p hp]
      rfl
    exact ⟨_, .resolved hreplies hranges, ranges, ranged_of_resolve hreplies hranges, rfl⟩

theorem exists_isRefused_iff (h : e.Asked calls) (hcalm : ∀ p, ¬ (repliesIn calls p).Crash)
    (hanswered : ∀ p ∈ e.request.partitions, ∀ edge, ∃ a, repliesIn calls p edge a) :
    (∃ b, Attempt.Step client alter e ⟨calls, .resolving s'⟩ b ∧ e.IsRefused calls b) ↔
      ¬ ∀ p ∈ e.request.partitions, ∃ o, (repliesIn calls p).Give o := by
  constructor
  · rintro ⟨b, -, p, hp, f, hfail, -⟩ hgive
    obtain ⟨o, ho⟩ := hgive p hp
    exact ho.not_fail (h.single p) hfail
  · intro hnot
    push Not at hnot
    obtain ⟨p, hp, hnone⟩ := hnot
    obtain ⟨lookup, hlookup⟩ := h.exists_lookup hanswered
    rcases (lookup p).give_or_fail_or_crash with ⟨o, ho⟩ | ⟨f, hf⟩ | hcrash
    · exact (hnone o (by rwa [hlookup p hp])).elim
    · have hfail : (repliesIn calls p).Fail f := by rwa [hlookup p hp]
      exact ⟨_, .failed hp hfail, p, hp, f, hfail, rfl⟩
    · exact (hcalm p (by rwa [hlookup p hp])).elim

end Answered

/-- With a channel that can be made, only a range at the least offset keeps a read from starting. -/
theorem hasLowest_of_launch {A : PartitionId → Replies} {ranges : List (PartitionId × Offsets)}
    (hcapacity : e.settings.channelCapacity.toNat ≤ Channel.maxCapacity)
    (hown : ∀ r ∈ ranges, r.1 ∈ e.request.partitions ∧ (A r.1).Give r.2)
    (h : (e.launch ranges : Result ReadError (Started κ)) = .crash) : e.HasLowest A := by
  obtain ⟨hlaunch, -⟩ | ⟨-, ⟨-, hnone | hlarge⟩ | ⟨plans, -, -, hlaunch⟩⟩ :=
    e.launch_cases κ ranges
  · cases h.symm.trans hlaunch
  · exact hasLowest_of_unplanned hown hnone
  · exact (Nat.not_lt.mpr hcapacity hlarge).elim
  · cases h.symm.trans hlaunch

theorem launch_ne_error (e : Errand) (ranges : List (PartitionId × Offsets)) (error : ReadError) :
    (e.launch ranges : Result ReadError (Started κ)) ≠ .error error := by
  rcases e.launch_cases κ ranges with ⟨hlaunch, -⟩ | ⟨-, ⟨hlaunch, -⟩ | ⟨plans, -, -, hlaunch⟩⟩
  all_goals
    rw [hlaunch]
    exact nofun

theorem starts_at_once (client : Client σ κ) (s : σ) (h : e.Valid)
    (hcapacity : e.settings.channelCapacity.toNat ≤ Channel.maxCapacity) :
    e.StartsAtOnce client s := by
  have hascending := e.request.partitions.ascending
  have hiff : (∃ ranges, resolve e.request.topic (client.lookup s e.request.topic)
      e.request.partitions.toList = .ok ranges) ↔ e.Located (client.replies s e.request.topic) :=
    exists_resolve_ok_iff e.request.topic hascending
  have hown {ranges : List (PartitionId × Offsets)} (hranges : resolve e.request.topic
      (client.lookup s e.request.topic) e.request.partitions.toList = .ok ranges) :
      ∀ r ∈ ranges, r.1 ∈ e.request.partitions ∧
        (client.lookup s e.request.topic r.1).replies.Give r.2 := by
    obtain ⟨hkeys, hgive⟩ := (resolve_eq_ok_iff hascending).mp hranges
    exact fun r hr ↦ ⟨mem_of_keys_eq hkeys hr, hgive r hr⟩
  have hstart : e.start client s = resolve e.request.topic (client.lookup s e.request.topic)
      e.request.partitions.toList >>= e.launch := start_of_valid h
  constructor
  case resolved_iff => exact hiff
  case located =>
    rintro ⟨started, hstarted⟩
    obtain ⟨ranges, hranges, -⟩ := Result.bind_eq_ok_iff.mp (hstart.symm.trans hstarted)
    exact hiff.mp ⟨ranges, hranges⟩
  case started =>
    intro hlocated
    obtain ⟨ranges, hranges⟩ := hiff.mpr hlocated
    rw [hstart, hranges, Result.ok_bind]
    cases hlaunch : (e.launch ranges : Result ReadError (Started κ)) with
    | ok started => exact .inl ⟨started, rfl⟩
    | error error => exact (e.launch_ne_error ranges error hlaunch).elim
    | crash => exact .inr (hasLowest_of_launch hcapacity (hown hranges) hlaunch)
  case refused =>
    intro error herror
    rcases Result.bind_eq_error_iff.mp (hstart.symm.trans herror) with hresolve | ⟨ranges, -, hl⟩
    · obtain ⟨p, f, hp, hfail, rfl⟩ := exists_of_resolve_error hascending hresolve
      exact ⟨p, f, rfl, hfail, hp⟩
    · exact (e.launch_ne_error ranges error hl).elim
  case crashed =>
    intro hcrash
    rcases Result.bind_eq_crash_iff.mp (hstart.symm.trans hcrash) with hresolve | ⟨ranges, hr, hl⟩
    · obtain ⟨p, hp, hcrash⟩ := exists_of_resolve_crash hascending hresolve
      exact .inl ⟨p, hcrash, hp⟩
    · exact .inr (hasLowest_of_launch hcapacity (hown hr) hl)

theorem exists_start_error (client : Client σ κ) (s : σ) (h : ¬ e.Valid) :
    ∃ error, e.start client s = .error error ∧
      ((∃ fault, error = .invalidRequest fault) ∨ ∃ fault, error = .configuration fault) := by
  cases hrequest : e.request.validate with
  | error fault => exact ⟨_, start_rejected hrequest, .inl ⟨fault, rfl⟩⟩
  | ok u =>
      cases hsettings : e.settings.validate with
      | error fault => exact ⟨_, start_misconfigured hrequest hsettings, .inr ⟨fault, rfl⟩⟩
      | ok v => exact (h (valid_iff.mpr ⟨hrequest, hsettings⟩)).elim

/-- A read starts completely or not at all, if its channel can be made. -/
theorem starts_whole (client : Client σ κ) (alter : δ → σ → σ) (e : Errand) (s : σ)
    (hcapacity : e.settings.channelCapacity.toNat ≤ Channel.maxCapacity) :
    StartsWhole client alter e s := by
  constructor
  case invalid =>
    intro hinvalid
    obtain ⟨error, herror, hkind⟩ := exists_start_error client s hinvalid
    refine ⟨error, herror, hkind, fun a ha ↦ ?_⟩
    obtain ⟨hcalls, hstanding⟩ := ha.sound.of_not_valid hinvalid
    refine ⟨hcalls, ?_⟩
    rcases hstanding with hcalled | ⟨fault, hfault, hrefused⟩ | ⟨fault, hvalid, hfault, hrefused⟩
    · exact .inl hcalled
    · obtain rfl := Result.error.inj (herror.symm.trans (start_rejected hfault))
      exact .inr hrefused
    · obtain rfl := Result.error.inj (herror.symm.trans (start_misconfigured hvalid hfault))
      exact .inr hrefused
  case refused =>
    intro hvalid calls error h
    obtain ⟨hrequest, hsettings⟩ := valid_iff.mp hvalid
    cases h.sound with
    | rejected invalid => cases hrequest.symm.trans invalid
    | misconfigured _ invalid => cases hsettings.symm.trans invalid
    | failed _ asked requested failure => exact ⟨⟨_, requested, _, failure, rfl⟩, asked.lookups⟩
  case answered =>
    intro calls s' h hanswered
    cases h.sound with
    | resolving _ asked calm =>
        exact ⟨exists_goesOn_iff asked hanswered, exists_isRefused_iff asked calm hanswered⟩
  case emptyTopic =>
    intro calls h
    cases h.sound with
    | @emptyTopic _ ranges valid asked ranged unreadable =>
        have hempty := fun r hr ↦ isReadable_eq_false_iff.mp (unreadable r hr)
        obtain ⟨p, hp⟩ := List.exists_mem_of_ne_nil _ valid.partitions
        obtain ⟨r, hr, -, -⟩ := ranged.exists_give hp
        exact ⟨(hempty r hr).1, asked.lookups, ranges, ranged, fun r hr ↦ (hempty r hr).2⟩
  case running =>
    intro calls x h
    cases h.sound with
    | @running _ _ ranges plans valid ranged readable planned framed =>
        obtain ⟨r, hr, hread⟩ := readable
        have hplans : x.read.plans = plans := by rw [framed.plans_eq, Read.plans_make]
        have hworkers : x.read.workers.map (·.partition) = e.request.partitions.toList := by
          rw [← ranged.keys_eq, ← (planAll?_eq_some planned).1, ← hplans, Read.plans, List.map_map]
          rfl
        refine ⟨ranges, ranged, ?_, hplans ▸ planned, hworkers⟩
        exact (isReadable_eq_true_iff.mp hread).imp_right fun hsome ↦ ⟨r, hr, hsome⟩
  case crashed =>
    intro calls h
    cases h.sound with
    | crashed valid asked cause =>
        refine ⟨asked.lookups, ?_⟩
        cases cause with
        | lookup requested crash => exact .inl ⟨_, requested, crash⟩
        | plan ranged unplanned =>
            refine .inr (hasLowest_of_unplanned (fun r hr ↦ ?_) unplanned)
            exact ⟨mem_of_keys_eq ranged.keys_eq hr, ranged.own r hr⟩
        | channel large => exact (Nat.not_lt.mpr hcapacity large).elim
  case final =>
    rintro calls standing b (⟨error, rfl⟩ | rfl | rfl) hstep
    · cases hstep
    · cases hstep
    · cases hstep
  case at_once =>
    exact ⟨exists_reached_start client alter e s, fun hvalid ↦
      starts_at_once client s hvalid hcapacity⟩

def sample (capacity : UInt64) : Errand := ⟨⟨capacity⟩, .lossy, sampleRequest .beginning 3, false⟩

theorem starts_whole_sample : (sample 256).settings.channelCapacity.toNat ≤ Channel.maxCapacity ∧
    StartsWhole Log.client (fun log (_ : Log) ↦ log) (sample 256) Log.sample :=
  ⟨by decide, starts_whole Log.client (fun log _ ↦ log) (sample 256) Log.sample (by decide)⟩

/-- A capacity that is accepted may still be too large for a channel: the request is valid, every
lookup succeeds and there are records, but no worker runs. -/
theorem crashes_beyond_maxCapacity : (sample 2305843009213693952).Valid ∧
    (∀ p ∈ (sample 2305843009213693952).request.partitions, ∃ o,
      (Log.client.lookup Log.sample "t" p).replies.Give o ∧ o.isEmpty = false) ∧
    (sample 2305843009213693952).start Log.client Log.sample = .crash ∧
    ∃ calls, Attempt.Reached Log.client (fun log (_ : Log) ↦ log) (sample 2305843009213693952)
      Log.sample ⟨calls, .crashed⟩ := by
  have hstart : (sample 2305843009213693952).start Log.client Log.sample = .crash := rfl
  refine ⟨valid_iff.mpr ⟨by decide, by decide⟩, ?_, hstart, ?_⟩
  · intro p hp
    obtain rfl | rfl := List.mem_pair.mp hp
    · exact ⟨⟨0, 2⟩, Lookup.offsets_eq_ok_iff.mp rfl, by decide⟩
    · exact ⟨⟨0, 1⟩, Lookup.offsets_eq_ok_iff.mp rfl, by decide⟩
  · have hreached := exists_reached_start Log.client (fun log (_ : Log) ↦ log)
      (sample 2305843009213693952) Log.sample
    rwa [hstart] at hreached

end Errand
end TopicView
