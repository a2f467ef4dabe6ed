import TopicView.Proofs.Read.Start

/-!
# Resolving ranges

Two lookups are made for each partition, and each of them may fail or crash.  What they come to is
stated of their replies alone, so that it is the same whenever and in whatever order they are
answered.
-/

namespace TopicView

/-- The two ends of a retained range. -/
inductive Edge
  | oldest
  | firstAvailable
  deriving DecidableEq, Repr

/-- Which answers the two lookups of one partition have got. -/
abbrev Replies := Edge → Result Failure Offset → Prop

namespace Replies

variable {A : Replies} {o o' : Offsets} {f : Failure}

/-- Both lookups succeeded with a range that is not inverted. -/
structure Give (A : Replies) (o : Offsets) : Prop where
  oldest : A .oldest (.ok o.oldest)
  firstAvailable : A .firstAvailable (.ok o.firstAvailable)
  upright : o.oldest ≤ o.firstAvailable

/-- One lookup failed, or the range is inverted; the failure is the cause. -/
inductive Fail (A : Replies) : Failure → Prop
  | lookup (edge : Edge) {f : Failure} (answer : A edge (.error f)) : Fail A f
  | inverted {oldest firstAvailable : Offset} (atOldest : A .oldest (.ok oldest))
      (atFirst : A .firstAvailable (.ok firstAvailable)) (below : firstAvailable < oldest) :
      Fail A (invertedFailure firstAvailable oldest)

/-- One lookup crashed. -/
def Crash (A : Replies) : Prop := ∃ edge, A edge .crash

/-- No lookup is answered twice. -/
def Single (A : Replies) : Prop := ∀ edge a b, A edge a → A edge b → a = b

theorem Give.eq (hA : A.Single) (h : A.Give o) (h' : A.Give o') : o = o' := by
  obtain ⟨first, next⟩ := o
  obtain ⟨first', next'⟩ := o'
  have hfirst := Result.ok.inj (hA _ _ _ h.oldest h'.oldest)
  have hnext := Result.ok.inj (hA _ _ _ h.firstAvailable h'.firstAvailable)
  simp_all

theorem Give.not_fail (hA : A.Single) (h : A.Give o) : ¬ A.Fail f := by
  intro hfail
  cases hfail with
  | lookup edge answer =>
      cases edge with
      | oldest => cases hA _ _ _ h.oldest answer
      | firstAvailable => cases hA _ _ _ h.firstAvailable answer
  | inverted atOldest atFirst below =>
      cases hA _ _ _ h.oldest atOldest
      cases hA _ _ _ h.firstAvailable atFirst
      exact Std.not_lt.mpr h.upright below

theorem Give.not_crash (hA : A.Single) (h : A.Give o) : ¬ A.Crash := by
  rintro ⟨edge, answer⟩
  cases edge with
  | oldest => cases hA _ _ _ h.oldest answer
  | firstAvailable => cases hA _ _ _ h.firstAvailable answer

end Replies

namespace Lookup

variable {l : Lookup} {o : Offsets} {f : Failure}

def answer (l : Lookup) : Edge → Result Failure Offset
  | .oldest => l.oldest
  | .firstAvailable => l.firstAvailable

/-- The replies of a partition whose lookups are both answered. -/
def replies (l : Lookup) : Replies := fun edge a ↦ l.answer edge = a

theorem single_replies (l : Lookup) : l.replies.Single := by
  rintro edge a b rfl rfl
  rfl

theorem offsets_eq_ok_iff : l.offsets = .ok o ↔ l.replies.Give o := by
  obtain ⟨first, next⟩ := l
  obtain ⟨oldest, firstAvailable⟩ := o
  unfold offsets
  rw [Result.bind_eq_ok_iff]
  constructor
  · rintro ⟨a, hfirst, h⟩
    obtain ⟨b, hnext, h⟩ := Result.bind_eq_ok_iff.mp h
    split at h
    · cases h
    · next hle =>
        obtain ⟨rfl, rfl⟩ := Offsets.mk.inj (Result.ok.inj h)
        exact ⟨hfirst, hnext, Std.not_lt.mp hle⟩
  · rintro ⟨hfirst, hnext, hle⟩
    refine ⟨oldest, hfirst, Result.bind_eq_ok_iff.mpr ⟨firstAvailable, hnext, ?_⟩⟩
    rw [if_neg (Std.not_lt.mpr hle)]
    rfl

theorem fail_of_offsets (h : l.offsets = .error f) : l.replies.Fail f := by
  unfold offsets at h
  rcases Result.bind_eq_error_iff.mp h with hfirst | ⟨a, hfirst, h⟩
  · exact .lookup .oldest hfirst
  · rcases Result.bind_eq_error_iff.mp h with hnext | ⟨b, hnext, h⟩
    · exact .lookup .firstAvailable hnext
    · split at h
      · next hbelow =>
          obtain rfl := Result.error.inj h
          exact .inverted hfirst hnext hbelow
      · cases h

theorem crash_of_offsets (h : l.offsets = .crash) : l.replies.Crash := by
  unfold offsets at h
  rcases Result.bind_eq_crash_iff.mp h with hfirst | ⟨a, -, h⟩
  · exact ⟨.oldest, hfirst⟩
  · rcases Result.bind_eq_crash_iff.mp h with hnext | ⟨b, -, h⟩
    · exact ⟨.firstAvailable, hnext⟩
    · split at h
      · cases h
      · cases h

/-- Two answers that neither fail nor crash anywhere give a range. -/
theorem give_or_fail_or_crash (l : Lookup) :
    (∃ o, l.replies.Give o) ∨ (∃ f, l.replies.Fail f) ∨ l.replies.Crash := by
  cases h : l.offsets with
  | ok o => exact .inl ⟨o, offsets_eq_ok_iff.mp h⟩
  | error f => exact .inr (.inl ⟨f, fail_of_offsets h⟩)
  | crash => exact .inr (.inr (crash_of_offsets h))

end Lookup

/-- The replies of a client whose lookups are all answered at once. -/
abbrev Client.replies {σ κ : Type} (client : Client σ κ) (s : σ) (topic : String) :
    PartitionId → Replies :=
  fun p ↦ (client.lookup s topic p).replies

/-! ## All partitions -/

variable {topic : String} {lookup : PartitionId → Lookup} {ps : List PartitionId}
  {ranges : List (PartitionId × Offsets)} {e : ReadError}

/-- The resolution is complete: one range for each partition, the one that its own lookups gave. -/
theorem resolve_eq_ok_iff (hps : ps.Pairwise (· < ·)) :
    resolve topic lookup ps = .ok ranges ↔
      ranges.map Prod.fst = ps ∧ ∀ e ∈ ranges, (lookup e.1).replies.Give e.2 := by
  constructor
  · intro h
    obtain ⟨hkeys, hown⟩ := resolve_ok hps h
    exact ⟨hkeys, fun e he ↦ Lookup.offsets_eq_ok_iff.mp (hown e he)⟩
  · rintro ⟨rfl, hown⟩
    induction ranges with
    | nil => rfl
    | cons e ranges ih =>
        obtain ⟨hfirst, hrest⟩ := List.pairwise_cons.mp hps
        have hlt : ∀ e' ∈ ranges, e.1 < e'.1 := fun e' he' ↦ hfirst _ (List.mem_map_of_mem he')
        have ho := Lookup.offsets_eq_ok_iff.mpr (hown e List.mem_cons_self)
        have htail := ih (fun e' he' ↦ hown e' (List.mem_cons_of_mem e he')) hrest
        rw [List.map_cons, resolve, ho, htail]
        exact congrArg Result.ok (Keyed.insert_of_forall_lt hlt)

theorem exists_resolve_ok (topic : String) (h : ∀ p ∈ ps, ∃ o, (lookup p).replies.Give o) :
    ∃ ranges, resolve topic lookup ps = .ok ranges := by
  induction ps with
  | nil => exact ⟨[], rfl⟩
  | cons p ps ih =>
      obtain ⟨o, ho⟩ := h p List.mem_cons_self
      obtain ⟨rest, hrest⟩ := ih fun q hq ↦ h q (List.mem_cons_of_mem p hq)
      refine ⟨Keyed.insert p o rest, ?_⟩
      rw [resolve, Lookup.offsets_eq_ok_iff.mpr ho, hrest]
      rfl

theorem exists_resolve_ok_iff (topic : String) (hps : ps.Pairwise (· < ·)) :
    (∃ ranges, resolve topic lookup ps = .ok ranges) ↔
      ∀ p ∈ ps, ∃ o, (lookup p).replies.Give o := by
  constructor
  · rintro ⟨ranges, h⟩ p hp
    obtain ⟨hkeys, hown⟩ := (resolve_eq_ok_iff hps).mp h
    obtain ⟨r, hr, rfl⟩ := List.mem_map.mp (hkeys ▸ hp)
    exact ⟨r.2, hown r hr⟩
  · exact exists_resolve_ok topic

/-- Every partition below this one has its range. -/
structure Foremost (lookup : PartitionId → Lookup) (ps : List PartitionId) (p : PartitionId) :
    Prop where
  mem : p ∈ ps
  give_of_lt : ∀ q ∈ ps, q < p → ∃ o, (lookup q).replies.Give o

theorem foremost_head {p : PartitionId} (h : ∀ q ∈ ps, p < q) : Foremost lookup (p :: ps) p := by
  refine ⟨List.mem_cons_self, List.forall_mem_cons.mpr ⟨?_, fun q hq hlt ↦ ?_⟩⟩
  · exact fun hlt ↦ (Std.lt_irrefl hlt).elim
  · exact (Std.lt_irrefl (Std.lt_trans hlt (h q hq))).elim

theorem Foremost.cons {p q : PartitionId} {o : Offsets} (ho : (lookup p).replies.Give o)
    (h : Foremost lookup ps q) : Foremost lookup (p :: ps) q :=
  ⟨List.mem_cons_of_mem p h.mem, List.forall_mem_cons.mpr ⟨fun _ ↦ ⟨o, ho⟩, h.give_of_lt⟩⟩

/-- A resolution that comes to no ranges has come upon a partition whose lookups fail or crash, and
it is the first. -/
theorem resolve_cases (topic : String) (lookup : PartitionId → Lookup)
    (hps : ps.Pairwise (· < ·)) : (∃ ranges, resolve topic lookup ps = .ok ranges) ∨
    ∃ p, Foremost lookup ps p ∧
      ((∃ f, (lookup p).replies.Fail f ∧
        resolve topic lookup ps = .error (.offsetFetch ⟨topic, p⟩ f)) ∨
      (lookup p).replies.Crash ∧ resolve topic lookup ps = .crash) := by
  induction ps with
  | nil => exact .inl ⟨[], rfl⟩
  | cons p ps ih =>
      obtain ⟨hfirst, hrest⟩ := List.pairwise_cons.mp hps
      rw [resolve]
      cases ho : (lookup p).offsets with
      | error f =>
          exact .inr ⟨p, foremost_head hfirst, .inl ⟨f, Lookup.fail_of_offsets ho, rfl⟩⟩
      | crash => exact .inr ⟨p, foremost_head hfirst, .inr ⟨Lookup.crash_of_offsets ho, rfl⟩⟩
      | ok o =>
          have hgive := Lookup.offsets_eq_ok_iff.mp ho
          rcases ih hrest with ⟨ranges, hr⟩ | ⟨q, hq, ⟨f, hfail, hr⟩ | ⟨hcrash, hr⟩⟩
          · exact .inl ⟨Keyed.insert p o ranges, by rw [hr]; rfl⟩
          · exact .inr ⟨q, hq.cons hgive, .inl ⟨f, hfail, by rw [hr]; rfl⟩⟩
          · exact .inr ⟨q, hq.cons hgive, .inr ⟨hcrash, by rw [hr]; rfl⟩⟩

/-- A resolution that fails names the first partition that does, with its own cause. -/
theorem exists_of_resolve_error (hps : ps.Pairwise (· < ·))
    (h : resolve topic lookup ps = .error e) :
    ∃ p f, Foremost lookup ps p ∧ (lookup p).replies.Fail f ∧ e = .offsetFetch ⟨topic, p⟩ f := by
  rcases resolve_cases topic lookup hps with ⟨ranges, hr⟩ | ⟨p, hp, ⟨f, hfail, hr⟩ | ⟨-, hr⟩⟩
  · rw [hr] at h
    cases h
  · rw [hr] at h
    exact ⟨p, f, hp, hfail, (Result.error.inj h).symm⟩
  · rw [hr] at h
    cases h

/-- A resolution crashes with the lookups of the first partition without a range. -/
theorem exists_of_resolve_crash (hps : ps.Pairwise (· < ·))
    (h : resolve topic lookup ps = .crash) :
    ∃ p, Foremost lookup ps p ∧ (lookup p).replies.Crash := by
  rcases resolve_cases topic lookup hps with ⟨ranges, hr⟩ | ⟨p, hp, ⟨f, -, hr⟩ | ⟨hcrash, -⟩⟩
  · rw [hr] at h
    cases h
  · rw [hr] at h
    cases h
  · exact ⟨p, hp, hcrash⟩

end TopicView
