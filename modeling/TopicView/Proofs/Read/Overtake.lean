import TopicView.Proofs.Log.Change
import TopicView.Proofs.Read.Attempt

/-!
# Lookups that are overtaken

The two lookups of a partition are answered one after the other, and others append and truncate
meanwhile.  Both ends of the retained range only move upwards.  So a start that is looked up first
is not above the end; an end that is looked up first may be passed by the start, once everything
below it has been dropped, and then the range is refused.
-/

namespace TopicView

open Log (Change)

section Pairs

variable {α : Type} {u v x : α} {l : List α}

theorem pair_sublist_concat_iff :
    [u, v].Sublist (l ++ [x]) ↔ [u, v].Sublist l ∨ u ∈ l ∧ v = x := by
  have hback (m : List α) : [u, v].reverse.Sublist m.reverse ↔ [u, v].Sublist m :=
    List.reverse_sublist
  rw [← hback, ← hback l, List.reverse_concat]
  simp [List.sublist_cons_iff, and_comm]

theorem pair_sublist_or_swap (hu : u ∈ l) (hv : v ∈ l) (hne : u ≠ v) :
    [u, v].Sublist l ∨ [v, u].Sublist l := by
  obtain ⟨before, after, rfl⟩ := List.append_of_mem hu
  rcases List.mem_append.mp hv with hv | hv
  · have hsecond : [u].Sublist (u :: after) := List.singleton_sublist.mpr List.mem_cons_self
    exact .inr ((List.singleton_sublist.mpr hv).append hsecond)
  · have hafter : v ∈ after := (List.mem_cons.mp hv).resolve_left (Ne.symm hne)
    have hboth : [u, v].Sublist (u :: after) := (List.singleton_sublist.mpr hafter).cons_cons u
    exact .inl (hboth.trans (List.sublist_append_right before _))

end Pairs

/-! ## The ends of a partition -/

namespace PartitionLog

variable {index : PartitionId} {p q : PartitionLog} {added : Option RawRecord}

/-- The ends as integers, which do not run out. -/
def edge (p : PartitionLog) : Edge → Int
  | .oldest => p.oldest.toInt
  | .firstAvailable => p.oldest.toInt + p.records.length

theorem edge_le_edge (p : PartitionLog) : p.edge .oldest ≤ p.edge .firstAvailable := by
  simp only [edge]
  omega

theorem edge_le_of_effect (h : p.Sound index) (heffect : Change.Effect index p added q)
    (edge : Edge) : p.edge edge ≤ q.edge edge := by
  obtain ⟨hfits, ⟨raw, -, -, -, rfl⟩ | ⟨-, offset, rfl⟩⟩ := effect_cases heffect h.oldest_nonneg
  · cases edge with
    | oldest => exact Int.le_refl _
    | firstAvailable =>
        simp only [PartitionLog.edge, oldest_append, records_append, List.length_append]
        omega
  · rcases truncateBefore_cases h hfits offset with heq | ⟨n, target, hn, htarget, heq⟩
    · exact Int.le_of_eq (congrArg (fun q ↦ PartitionLog.edge q edge) heq.symm)
    · have hnonneg := h.oldest_nonneg
      have htarget' : target.toInt = p.oldest.toInt + n := by
        unfold Fits at hfits
        rw [htarget, Offset.toInt_add_ofNat hnonneg (by omega)]
      rw [heq]
      cases edge with
      | oldest =>
          simp only [PartitionLog.edge]
          omega
      | firstAvailable =>
          simp only [PartitionLog.edge, List.length_drop]
          omega

end PartitionLog

/-- A lookup that is answered gives the end as it is. -/
theorem Log.answer_cases {log : Log} {topic : String} {index : PartitionId} {p : PartitionLog}
    (hfault : ⟨topic, index⟩ ∉ log.faults.lookups) (hp : log.partition ⟨topic, index⟩ = .ok p)
    (h : p.Sound index) (edge : Edge) :
    (p.Fits ∧ ∃ o, (Log.client.lookup log topic index).answer edge = .ok o ∧
      o.toInt = p.edge edge) ∨
    ¬ p.Fits ∧ (Log.client.lookup log topic index).answer edge = .crash := by
  by_cases hfits : p.Fits
  · have hoffsets := Log.offsets_of_partition hfault hp h.oldest_nonneg hfits
    have hend := PartitionLog.firstAvailable_of_fits h hfits
    refine .inl ⟨hfits, ?_⟩
    cases edge with
    | oldest => exact ⟨p.oldest, by simp [client, lookup, oldestOffset, Lookup.answer, hoffsets,
        Result.mapError], rfl⟩
    | firstAvailable => exact ⟨p.firstAvailable, by simp [client, lookup, firstAvailableOffset,
        Lookup.answer, hoffsets, Result.mapError], hend⟩
  · have hcrash : log.offsets ⟨topic, index⟩ = .crash := by
      rw [offsets, if_neg hfault, hp, Result.lift_ok, Result.ok_bind,
        PartitionLog.firstAvailable?_eq_none hfits]
      rfl
    refine .inr ⟨hfits, ?_⟩
    cases edge <;> simp [client, lookup, oldestOffset, firstAvailableOffset, Lookup.answer, hcrash,
      Result.mapError]

/-! ## What the answers tell -/

/-- The start of a range was looked up before its end. -/
def StartFirst (calls : List Call) (index : PartitionId) (o : Offsets) : Prop :=
  [.lookup index .oldest (.ok o.oldest),
    .lookup index .firstAvailable (.ok o.firstAvailable)].Sublist calls

/-- The end of a range was looked up before its start. -/
def EndFirst (calls : List Call) (index : PartitionId) (o : Offsets) : Prop :=
  [.lookup index .firstAvailable (.ok o.firstAvailable),
    .lookup index .oldest (.ok o.oldest)].Sublist calls

/-- The answers that the lookups of a partition have got while it went from `p` to `q`. -/
structure Told (index : PartitionId) (p : PartitionLog) (calls : List Call) (q : PartitionLog) :
    Prop where
  edge_le : ∀ edge, p.edge edge ≤ q.edge edge
  answered : ∀ edge a, repliesIn calls index edge a →
    ∃ o : Offset, a = .ok o ∧ p.edge edge ≤ o.toInt ∧ o.toInt ≤ q.edge edge
  upright : ∀ o, StartFirst calls index o → o.oldest ≤ o.firstAvailable

namespace Told

variable {index : PartitionId} {p q r : PartitionLog} {calls : List Call}

theorem start (index : PartitionId) (p : PartitionLog) : Told index p [] p := by
  refine ⟨fun edge ↦ Int.le_refl _, nofun, fun o ho ↦ ?_⟩
  cases ho

theorem climb (h : Told index p calls q) (hle : ∀ edge, q.edge edge ≤ r.edge edge) :
    Told index p calls r := by
  refine ⟨fun edge ↦ Int.le_trans (h.edge_le edge) (hle edge), fun edge a ha ↦ ?_, h.upright⟩
  obtain ⟨o, ho, hlow, hhigh⟩ := h.answered edge a ha
  exact ⟨o, ho, hlow, Int.le_trans hhigh (hle edge)⟩

theorem bounds (h : Told index p calls q) {edge : Edge} {o : Offset}
    (ho : repliesIn calls index edge (.ok o)) : p.edge edge ≤ o.toInt ∧ o.toInt ≤ q.edge edge := by
  obtain ⟨o', heq, hbounds⟩ := h.answered edge _ ho
  obtain rfl := Result.ok.inj heq
  exact hbounds

/-- The lookup of another partition tells nothing of this one. -/
theorem concat (h : Told index p calls q) {c : Call} (hc : ∀ edge a, c = .lookup index edge a →
      ∃ o : Offset, a = .ok o ∧ o.toInt = q.edge edge) : Told index p (calls ++ [c]) q := by
  refine ⟨h.edge_le, fun edge a ha ↦ ?_, fun o ho ↦ ?_⟩
  · rcases List.mem_append.mp ha with ha | ha
    · exact h.answered edge a ha
    · obtain ⟨o, rfl, ho⟩ := hc edge a (List.mem_singleton.mp ha).symm
      exact ⟨o, rfl, ho ▸ h.edge_le edge, Int.le_of_eq ho⟩
  · rcases pair_sublist_concat_iff.mp ho with ho | ⟨hfirst, hlast⟩
    · exact h.upright o ho
    · -- What was the start before is not above the start now, and this is not above the end.
      have hstart : o.oldest.toInt ≤ q.edge .oldest := (h.bounds hfirst).2
      obtain ⟨o', heq, hend⟩ := hc _ _ hlast.symm
      obtain rfl := Result.ok.inj heq
      have hle := q.edge_le_edge
      rw [Int64.le_iff_toInt_le, hend]
      exact Int.le_trans hstart hle

/-- Only a range whose end was looked up first can be inverted. -/
theorem fail_iff (h : Told index p calls q) {f : Failure} : (repliesIn calls index).Fail f ↔
    ∃ o, EndFirst calls index o ∧ o.firstAvailable < o.oldest ∧
      f = invertedFailure o.firstAvailable o.oldest := by
  constructor
  · rintro (⟨edge, answer⟩ | @⟨a, b, atOldest, atFirst, below⟩)
    · obtain ⟨o, ho, -⟩ := h.answered edge _ answer
      cases ho
    · refine ⟨⟨a, b⟩, ?_, below, rfl⟩
      rcases pair_sublist_or_swap atOldest atFirst (by simp) with hstart | hend
      · exact (Std.not_lt.mpr (h.upright ⟨a, b⟩ hstart) below).elim
      · exact hend
  · rintro ⟨o, ho, hbelow, rfl⟩
    exact .inverted (ho.subset (by simp)) (ho.subset (by simp)) hbelow

end Told

/-- What the resolution of ranges can come to that begins in a state of the client.  Whether the
errand is valid does not matter any more. -/
def Attempt.Resolves {σ κ δ : Type} (client : Client σ κ) (alter : δ → σ → σ) (e : Errand) (s : σ) :
    Attempt σ κ → Prop :=
  Relation.ReflTransGen (Attempt.Step client alter e) ⟨[], .resolving s⟩

namespace Errand

variable {e : Errand} {index : PartitionId} {log : Log} {p : PartitionLog}

/-- Ranges that are known lead to no refusal. -/
theorem standing_launch (e : Errand) (s : Log) (ranges : List (PartitionId × Offsets)) :
    Standing.of s (e.launch ranges : Result ReadError (Started LogCursor)) = .emptyTopic ∨
      Standing.of s (e.launch ranges : Result ReadError (Started LogCursor)) = .crashed ∨
      ∃ x, Standing.of s (e.launch ranges : Result ReadError (Started LogCursor)) = .running x := by
  rcases e.launch_cases LogCursor ranges with ⟨hlaunch, -⟩ | ⟨-, ⟨hlaunch, -⟩ | ⟨_, -, -, hlaunch⟩⟩
  · exact .inl (by rw [hlaunch]; rfl)
  · exact .inr (.inl (by rw [hlaunch]; rfl))
  · exact .inr (.inr ⟨_, by rw [hlaunch]; rfl⟩)

/-- A resolution on a log, while a partition that was `p` when it began is looked up. -/
def Consults (e : Errand) (index : PartitionId) (log : Log) (p : PartitionLog) :
    Attempt Log LogCursor → Prop
  | ⟨_, .called _⟩ => False
  | ⟨calls, .resolving s⟩ => e.Asked calls ∧ s.faults = log.faults ∧
    ∃ q, s.partition ⟨e.request.topic, index⟩ = .ok q ∧ q.Sound index ∧ Told index p calls q
  | _ => True

theorem Consults.step (hfault : ⟨e.request.topic, index⟩ ∉ log.faults.lookups)
    {a b : Attempt Log LogCursor} (ha : e.Consults index log p a)
    (h : Attempt.Step Log.client Change.apply e a b) : e.Consults index log p b := by
  cases h with
  | rejected invalid => trivial
  | misconfigured valid invalid => trivial
  | accepted valid configured => exact ha.elim
  | @altered calls s change =>
      obtain ⟨hasked, hfaults, q, hq, hsound, htold⟩ := ha
      refine ⟨hasked, (Change.faults_apply change s).trans hfaults, ?_⟩
      rcases Change.partition_apply change hq with ⟨hsame, -⟩ | ⟨r, hr, heffect⟩
      · exact ⟨q, hsame, hsound, htold⟩
      · have hle := PartitionLog.edge_le_of_effect hsound heffect
        exact ⟨r, hr, hsound.effect heffect, htold.climb hle⟩
  | @answered calls s partition edge requested waiting calm =>
      obtain ⟨hasked, hfaults, q, hq, hsound, htold⟩ := ha
      refine ⟨hasked.concat requested waiting _, hfaults, q, hq, hsound, htold.concat ?_⟩
      rintro edge' a heq
      obtain ⟨rfl, rfl, rfl⟩ := Call.lookup.inj heq
      rcases Log.answer_cases (hfaults ▸ hfault) hq hsound edge with ⟨-, ho⟩ | ⟨-, hcrash⟩
      · exact ho
      · exact (calm hcrash).elim
  | crashed requested waiting crash => trivial
  | failed requested failure => trivial
  | @resolved calls s lookup ranges replies success =>
      rcases e.standing_launch s ranges with hlaunch | hlaunch | ⟨x, hlaunch⟩
      all_goals
        rw [hlaunch]
        trivial
  | moved m => trivial

theorem consults_of_resolves (hlog : log.Reachable)
    (hfault : ⟨e.request.topic, index⟩ ∉ log.faults.lookups)
    (hp : log.partition ⟨e.request.topic, index⟩ = .ok p) {a : Attempt Log LogCursor}
    (h : Attempt.Resolves Log.client Change.apply e log a) : e.Consults index log p a := by
  induction h with
  | refl => exact ⟨e.asked_nil, rfl, p, hp, hlog.sound _ p hp, .start index p⟩
  | tail _ hstep ih => exact ih.step hfault hstep

theorem Asked.requested {calls : List Call} (h : e.Asked calls) {edge : Edge}
    {a : Result Failure Offset} (ha : repliesIn calls index edge a) :
    index ∈ e.request.partitions := by
  obtain ⟨index', hrequested, edge', a', heq⟩ := h.lookups _ ha
  rwa [(Call.lookup.inj heq).1]

theorem step_refused_iff {calls : List Call} {s : Log} (h : e.Asked calls) {f : Failure} :
    Attempt.Step Log.client Change.apply e ⟨calls, .resolving s⟩
        ⟨calls, .refused (.offsetFetch ⟨e.request.topic, index⟩ f)⟩ ↔
      (repliesIn calls index).Fail f := by
  constructor
  · intro hstep
    generalize hb : (⟨calls, .refused (.offsetFetch ⟨e.request.topic, index⟩ f)⟩ :
      Attempt Log LogCursor) = b at hstep
    cases hstep with
    | altered change => cases hb
    | answered requested waiting calm => cases congrArg Attempt.standing hb
    | crashed requested waiting crash => cases congrArg Attempt.standing hb
    | failed requested failure =>
        cases hb
        exact failure
    | @resolved _ _ lookup ranges replies success =>
        rcases e.standing_launch s ranges with hlaunch | hlaunch | ⟨x, hlaunch⟩
        all_goals
          rw [hlaunch] at hb
          cases hb
  · intro hfail
    refine .failed ?_ hfail
    cases hfail with
    | lookup edge answer => exact h.requested answer
    | inverted atOldest atFirst below => exact h.requested atOldest

/-- What the lookups of a partition come to that was `p` when they began and is `q` now. -/
structure Settles (e : Errand) (index : PartitionId) (p : PartitionLog) (calls : List Call)
    (log : Log) (q : PartitionLog) : Prop where
  /-- A lookup gives the end as it is, as long as there is an offset for the next record. -/
  succeeds : q.Fits → ∀ edge, ∃ o,
    (Log.client.lookup log e.request.topic index).answer edge = .ok o ∧ o.toInt = q.edge edge
  /-- No lookup has failed, and each has given an end that lies between what it was and what it
  is. -/
  answered : ∀ edge a, repliesIn calls index edge a →
    ∃ o : Offset, a = .ok o ∧ p.edge edge ≤ o.toInt ∧ o.toInt ≤ q.edge edge
  /-- A range whose start was looked up first is accepted. -/
  start_first : ∀ o, StartFirst calls index o → (repliesIn calls index).Give o
  /-- A range whose end was looked up first is accepted unless the start has passed the end. -/
  end_first : ∀ o, EndFirst calls index o →
    ((repliesIn calls index).Give o ↔ o.oldest ≤ o.firstAvailable)
  /-- The read is refused for the partition where it has, and for nothing else. -/
  refused_iff : ∀ f, Attempt.Step Log.client Change.apply e ⟨calls, .resolving log⟩
      ⟨calls, .refused (.offsetFetch ⟨e.request.topic, index⟩ f)⟩ ↔
    ∃ o, EndFirst calls index o ∧ o.firstAvailable < o.oldest ∧
      f = invertedFailure o.firstAvailable o.oldest
  /-- Then what was retained at first has been dropped, and so has a record appended since. -/
  overtaken : ∀ f, (repliesIn calls index).Fail f →
    p.edge .firstAvailable < q.edge .oldest ∧ ∀ raw ∈ p.records, raw.offset < q.oldest
  returned : ∀ ranges, e.Ranged calls ranges → ∀ r ∈ ranges, r.1 = index →
    p.oldest ≤ r.2.oldest ∧ r.2.oldest ≤ r.2.firstAvailable ∧
      r.2.firstAvailable.toInt ≤ q.edge .firstAvailable

/-- While others append to a partition and truncate it, its range is refused only where the end was
looked up first and the start has passed it since. -/
theorem refused_only_when_overtaken {log log' : Log} (hlog : log.Reachable)
    (hfault : ⟨e.request.topic, index⟩ ∉ log.faults.lookups)
    (hp : log.partition ⟨e.request.topic, index⟩ = .ok p) {calls : List Call}
    (h : Attempt.Resolves Log.client Change.apply e log ⟨calls, .resolving log'⟩)
    {q : PartitionLog} (hq : log'.partition ⟨e.request.topic, index⟩ = .ok q) :
    e.Settles index p calls log' q := by
  obtain ⟨hasked, hfaults, q', hq', hsound, htold⟩ := consults_of_resolves hlog hfault hp h
  obtain rfl : q' = q := Except.ok.inj (hq'.symm.trans hq)
  constructor
  case succeeds =>
    intro hfits edge
    rcases Log.answer_cases (hfaults ▸ hfault) hq hsound edge with ⟨-, ho⟩ | ⟨hfull, -⟩
    · exact ho
    · exact (hfull hfits).elim
  case answered => exact htold.answered
  case start_first =>
    intro o ho
    exact ⟨ho.subset (by simp), ho.subset (by simp), htold.upright o ho⟩
  case end_first =>
    intro o ho
    exact ⟨Replies.Give.upright, fun hle ↦ ⟨ho.subset (by simp), ho.subset (by simp), hle⟩⟩
  case refused_iff =>
    intro f
    rw [step_refused_iff hasked, htold.fail_iff]
  case overtaken =>
    intro f hfail
    obtain ⟨o, ho, hbelow, -⟩ := htold.fail_iff.mp hfail
    have hatStart : o.oldest.toInt ≤ q'.edge .oldest := (htold.bounds (ho.subset (by simp))).2
    have hatEnd : p.edge .firstAvailable ≤ o.firstAvailable.toInt :=
      (htold.bounds (ho.subset (by simp))).1
    have hpassed : p.edge .firstAvailable < q'.edge .oldest :=
      Int.lt_of_le_of_lt hatEnd (Int.lt_of_lt_of_le (Int64.lt_iff_toInt_lt.mp hbelow) hatStart)
    refine ⟨hpassed, fun raw hraw ↦ Int64.lt_iff_toInt_lt.mpr ?_⟩
    exact Int.lt_trans (PartitionLog.mem_bounds (hlog.sound _ p hp) hraw).2 hpassed
  case returned =>
    rintro ranges hranged r hr rfl
    have hgive := hranged.own r hr
    have hstart := (htold.bounds hgive.oldest).1
    exact ⟨Int64.le_iff_toInt_le.mpr hstart, hgive.upright, (htold.bounds hgive.firstAvailable).2⟩

/-- A record is appended behind the two of the first partition, and all three are dropped. -/
def overtaking : List Change :=
  [.append ⟨"t", 0⟩ ⟨none, some [100], [], 0⟩, .truncateBefore ⟨"t", 0⟩ 3]

def overtakenLog : Log := overtaking.foldl (fun log change ↦ change.apply log) Log.sample

/-- One end of the first partition is looked up before all records are dropped, and the other one
afterwards. -/
theorem resolves_overtaken (edge edge' : Edge) (hne : edge ≠ edge') :
    Attempt.Resolves Log.client Change.apply (sample 256) Log.sample
      ⟨[.lookup 0 edge ((Log.sample.lookup "t" 0).answer edge),
        .lookup 0 edge' ((overtakenLog.lookup "t" 0).answer edge')], .resolving overtakenLog⟩ := by
  have hrequested : (0 : PartitionId) ∈ (sample 256).request.partitions := List.mem_cons_self
  have hbegun : Attempt.Resolves Log.client Change.apply (sample 256) Log.sample
      ⟨[], .resolving Log.sample⟩ := .refl
  have hnone : ∀ a, ¬ repliesIn [] 0 edge a := nofun
  have hcalm : (Log.client.lookup Log.sample "t" 0).answer edge ≠ .crash := by
    cases edge <;> decide
  have hcalm' : (Log.client.lookup overtakenLog "t" 0).answer edge' ≠ .crash := by
    cases edge' <;> decide
  have hfirst := hbegun.tail (.answered hrequested hnone hcalm)
  have hchanged := (hfirst.tail (.altered overtaking[0])).tail (.altered overtaking[1])
  have hwaiting (answer : Result Failure Offset) :
      ∀ a, ¬ repliesIn ([] ++ [.lookup 0 edge answer]) 0 edge' a := by
    intro a ha
    obtain ⟨-, heq, -⟩ := Call.lookup.inj (List.mem_singleton.mp ha)
    exact hne heq.symm
  exact hchanged.tail (.answered hrequested (hwaiting _) hcalm')

theorem refused_only_when_overtaken_of_sample :
    let q : PartitionLog := ⟨3, [], 3⟩
    let calls : List Call := [.lookup 0 .oldest (.ok 0), .lookup 0 .firstAvailable (.ok 3)]
    overtakenLog.partition ⟨"t", 0⟩ = .ok q ∧
      Attempt.Resolves Log.client Change.apply (sample 256) Log.sample
        ⟨calls, .resolving overtakenLog⟩ ∧
      (∃ p, Log.sample.partition ⟨"t", 0⟩ = .ok p ∧
        (sample 256).Settles 0 p calls overtakenLog q) ∧ (repliesIn calls 0).Give ⟨0, 3⟩ := by
  intro q calls
  have hresolves : Attempt.Resolves Log.client Change.apply (sample 256) Log.sample
      ⟨calls, .resolving overtakenLog⟩ := resolves_overtaken .oldest .firstAvailable nofun
  have hsettles : (sample 256).Settles 0 _ calls overtakenLog q :=
    refused_only_when_overtaken Log.reachable_sample (by decide) rfl hresolves rfl
  exact ⟨rfl, hresolves, ⟨_, rfl, hsettles⟩, hsettles.start_first ⟨0, 3⟩ (.refl _)⟩

/-- Here the end has been looked up first.  Nothing is wrong with the log, and the read is
refused. -/
theorem refused_when_overtaken_in_sample :
    let q : PartitionLog := ⟨3, [], 3⟩
    let calls : List Call := [.lookup 0 .firstAvailable (.ok 2), .lookup 0 .oldest (.ok 3)]
    Log.sample.Reachable ∧ Log.sample.faults = {} ∧
      overtakenLog.partition ⟨"t", 0⟩ = .ok q ∧ q.Fits ∧
      Attempt.Resolves Log.client Change.apply (sample 256) Log.sample
        ⟨calls, .resolving overtakenLog⟩ ∧
      Attempt.Step Log.client Change.apply (sample 256) ⟨calls, .resolving overtakenLog⟩
        ⟨calls, .refused (.offsetFetch ⟨"t", 0⟩ (invertedFailure 2 3))⟩ := by
  intro q calls
  have hfits : q.Fits := by decide
  have hend : repliesIn calls 0 .firstAvailable (.ok 2) := List.mem_cons_self
  have hstart : repliesIn calls 0 .oldest (.ok 3) := List.mem_cons_of_mem _ List.mem_cons_self
  have hresolves := resolves_overtaken .firstAvailable .oldest nofun
  refine ⟨Log.reachable_sample, rfl, rfl, hfits, hresolves, ?_⟩
  exact .failed List.mem_cons_self (.inverted hstart hend (by decide))

end Errand
end TopicView
