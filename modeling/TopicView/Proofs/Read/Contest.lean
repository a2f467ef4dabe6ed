import Mathlib.Data.List.Induction
import Mathlib.Logic.Function.Basic
import Mathlib.Logic.Relation
import TopicView.Proofs.Read.Claims
import TopicView.Proofs.Read.Course
import TopicView.Proofs.Read.Start

/-!
# Claims at the same time

Workers that claim on one counter do not wait for each other.  Each reads the count first and then
exchanges it for the next one, if nobody has been faster.  In whatever order they do so, their
claims are answered like claims made in a row.
-/

namespace TopicView

/-- Workers that claim on one counter, each in its own time. -/
structure Contest where
  counter : Counter
  /-- What a worker in the middle of a claim has read of the count. -/
  seen : Nat → Option UInt64
  /-- The answers so far, each with its worker and the counter as it was then. -/
  answers : List (Nat × Claim × Counter)

namespace Contest

def start (limit : Option UInt64) : Contest := ⟨.start limit, fun _ ↦ none, []⟩

/-- A worker reads a count. -/
def look (x : Contest) (i : Nat) (n : UInt64) : Contest :=
  { x with seen := Function.update x.seen i (some n) }

/-- A worker gets its answer and leaves a count behind. -/
def answer (x : Contest) (i : Nat) (claim : Claim) (emitted : UInt64) : Contest where
  counter := { x.counter with emitted }
  seen := Function.update x.seen i none
  answers := x.answers ++ [(i, claim, { x.counter with emitted })]

/-- The steps of a contest.  Without a limit a claim is one addition.  Under a limit it is a loop:
the count that has been read, which need not be the newest one, is exchanged for the next one if it
still stands, and read anew if it does not. -/
inductive Step (x : Contest) : Contest → Prop
  | counted {i : Nat} (unlimited : x.counter.limit = none) :
      Step x (x.answer i (.granted false) (x.counter.emitted + 1))
  | looked {i : Nat} {L n : UInt64} (limited : x.counter.limit = some L) (idle : x.seen i = none)
      (past : n ≤ x.counter.emitted) : Step x (x.look i n)
  | exchanged {i : Nat} {L n : UInt64} (limited : x.counter.limit = some L)
      (seen : x.seen i = some n) (below : n < L) (current : x.counter.emitted = n) :
      Step x (x.answer i (.granted (L ≤ n + 1)) (n + 1))
  /-- An exchange may also fail for no reason. -/
  | retried {i : Nat} {L m n : UInt64} (limited : x.counter.limit = some L)
      (seen : x.seen i = some m) (below : m < L) (past : n ≤ x.counter.emitted) :
      Step x (x.look i n)
  | refused {i : Nat} {L n : UInt64} (limited : x.counter.limit = some L)
      (seen : x.seen i = some n) (full : ¬ n < L) :
      Step x (x.answer i .refused x.counter.emitted)

def Reached (limit : Option UInt64) : Contest → Prop := Relation.ReflTransGen Step (start limit)

def workers (x : Contest) : List Nat := x.answers.map Prod.fst

def results (x : Contest) : List (Claim × Counter) := x.answers.map Prod.snd

variable {x y : Contest} {limit : Option UInt64}

/-- The answers of a contest are those of claims in a row, and nobody has read more than has been
counted. -/
structure InRow (limit : Option UInt64) (x : Contest) : Prop where
  counter_eq : x.counter = (Counter.start limit).after x.answers.length
  results_eq : x.results = (Counter.start limit).claims x.answers.length
  seen_le : ∀ L, limit = some L → ∀ i n, x.seen i = some n → n ≤ x.counter.emitted

theorem InRow.limit_eq (h : x.InRow limit) : x.counter.limit = limit := by
  rw [h.counter_eq, Counter.limit_after]
  rfl

/-- The answer is the one of a claim made at this moment. -/
theorem answer_eq {i : Nat} {claim : Claim} {emitted : UInt64}
    (h : x.counter.claim = (claim, { x.counter with emitted })) :
    (x.answer i claim emitted).answers = x.answers ++ [(i, x.counter.claim)] ∧
      (x.answer i claim emitted).counter = x.counter.claim.2 := by
  rw [h]
  exact ⟨rfl, rfl⟩

theorem InRow.answer (h : x.InRow limit) {i : Nat} {claim : Claim} {emitted : UInt64}
    (hclaim : x.counter.claim = (claim, { x.counter with emitted }))
    (hle : ∀ L, limit = some L → x.counter.emitted ≤ emitted) :
    (x.answer i claim emitted).InRow limit := by
  obtain ⟨hanswers, hcounter⟩ := answer_eq (i := i) hclaim
  have hlength : (x.answer i claim emitted).answers.length = x.answers.length + 1 := by
    rw [hanswers, List.length_append, List.length_singleton]
  constructor
  case counter_eq => rw [hcounter, hlength, Counter.after, ← h.counter_eq]
  case results_eq =>
    rw [hlength, Counter.claims_concat, ← h.results_eq, ← h.counter_eq, results, hanswers,
      List.map_append]
    rfl
  case seen_le =>
    intro L hL j n hn
    by_cases hij : j = i
    · subst hij
      simp [Contest.answer] at hn
    · have hj : x.seen j = some n := by simpa [Contest.answer, hij] using hn
      exact UInt64.le_trans (h.seen_le L hL j n hj) (hle L hL)

theorem InRow.look (h : x.InRow limit) (i : Nat) {n : UInt64} (hn : n ≤ x.counter.emitted) :
    (x.look i n).InRow limit := by
  refine ⟨h.counter_eq, h.results_eq, fun L hL j m hm ↦ ?_⟩
  by_cases hij : j = i
  · subst hij
    obtain rfl : n = m := by simpa [Contest.look] using hm
    exact hn
  · exact h.seen_le L hL j m (by simpa [Contest.look, hij] using hm)

theorem InRow.step (h : x.InRow limit) (hstep : x.Step y) : y.InRow limit := by
  cases hstep with
  | @counted i unlimited =>
      refine h.answer (Counter.claim_of_unlimited unlimited) fun L hL ↦ ?_
      rw [h.limit_eq, hL] at unlimited
      cases unlimited
  | @looked i L n limited idle past => exact h.look i past
  | @exchanged i L n limited seen below current =>
      subst current
      refine h.answer (Counter.claim_of_below limited below) fun L' hL' ↦ ?_
      rw [UInt64.le_iff_toNat_le, Counter.toNat_emitted_add_one below]
      exact Nat.le_succ _
  | @retried i L m n limited seen below past => exact h.look i past
  | @refused i L n limited seen full =>
      -- What has been read is not above the count, so the count has reached the limit as well.
      have hread : n ≤ x.counter.emitted := h.seen_le L (h.limit_eq ▸ limited) i n seen
      have hfull : ¬ x.counter.emitted < L := fun hlt ↦ full (UInt64.lt_of_le_of_lt hread hlt)
      exact h.answer (Counter.claim_of_full limited hfull) fun L' hL' ↦ UInt64.le_refl _

theorem Reached.inRow (h : Reached limit x) : x.InRow limit := by
  induction h with
  | refl => exact ⟨rfl, rfl, nofun⟩
  | tail _ hstep ih => exact ih.step hstep

/-! ## Any workers in any order -/

/-- Nobody is in the middle of a claim. -/
def Idle (x : Contest) : Prop := ∀ i, x.seen i = none

theorem idle_answer_look (h : x.Idle) (i : Nat) (n : UInt64) (claim : Claim) (emitted : UInt64) :
    ((x.look i n).answer i claim emitted).Idle := by
  intro j
  by_cases hij : j = i
  · simp [answer, look, hij]
  · simpa [answer, look, hij] using h j

/-- While nobody else claims, a worker that does gets the answer of the counter as it is. -/
theorem exists_answered (h : Reached limit x) (hidle : x.Idle) (i : Nat) :
    ∃ y, Reached limit y ∧ y.Idle ∧ y.answers = x.answers ++ [(i, x.counter.claim)] ∧
      y.counter = x.counter.claim.2 := by
  cases hlimit : x.counter.limit with
  | none =>
      refine ⟨_, h.tail (.counted (i := i) hlimit), fun j ↦ ?_,
        answer_eq (Counter.claim_of_unlimited hlimit)⟩
      by_cases hij : j = i
      · simp [answer, hij]
      · simpa [answer, hij] using hidle j
  | some L =>
      have hlooked : Reached limit (x.look i x.counter.emitted) :=
        h.tail (.looked hlimit (hidle i) (UInt64.le_refl _))
      have hseen : (x.look i x.counter.emitted).seen i = some x.counter.emitted :=
        Function.update_self i _ _
      by_cases hlt : x.counter.emitted < L
      · exact ⟨_, hlooked.tail (.exchanged hlimit hseen hlt rfl), idle_answer_look hidle i _ _ _,
          answer_eq (x := x.look i x.counter.emitted) (Counter.claim_of_below hlimit hlt)⟩
      · exact ⟨_, hlooked.tail (.refused hlimit hseen hlt), idle_answer_look hidle i _ _ _,
          answer_eq (x := x.look i x.counter.emitted) (Counter.claim_of_full hlimit hlt)⟩

theorem exists_reached_workers (limit : Option UInt64) (workers : List Nat) :
    ∃ x, Reached limit x ∧ x.Idle ∧ x.workers = workers := by
  induction workers using List.reverseRecOn with
  | nil => exact ⟨start limit, .refl, fun _ ↦ rfl, rfl⟩
  | append_singleton workers i ih =>
      obtain ⟨x, hx, hidle, rfl⟩ := ih
      obtain ⟨y, hy, hidle', hanswers, -⟩ := exists_answered hx hidle i
      refine ⟨y, hy, hidle', ?_⟩
      rw [workers, hanswers, List.map_append]
      rfl

/-- Any workers may claim in any order, and whenever they read and exchange the count, their claims
are answered as if they were made in a row: the grants come first, as many as the limit allows, the
last of them is told so, and the count is theirs at any time. -/
theorem claims_rationed (limit : Option UInt64) (workers : List Nat) :
    (∃ x, Reached limit x ∧ x.workers = workers) ∧
    ∀ x, Reached limit x → x.workers = workers →
      x.results = (Counter.start limit).claims workers.length ∧
      x.counter = (Counter.start limit).after workers.length ∧
      (∀ L, limit = some L → Counter.Rationed L x.results) ∧
      (limit = none → Counter.Unrationed x.results) := by
  constructor
  · obtain ⟨x, hx, -, hworkers⟩ := exists_reached_workers limit workers
    exact ⟨x, hx, hworkers⟩
  · rintro x hx rfl
    have hlength : x.workers.length = x.answers.length := List.length_map _
    have hresults := hx.inRow.results_eq
    rw [hlength]
    refine ⟨hresults, hx.inRow.counter_eq, ?_, ?_⟩
    · rintro L rfl
      rw [hresults]
      exact Counter.rationed_claims L _
    · rintro rfl
      rw [hresults]
      exact Counter.unrationed_claims _

/-- Two workers read the count at once.  The second one is faster, so the first one has to read
again and takes the last slot, and its next claim is refused. -/
def race : Contest :=
  (((((((start (some 2)).look 0 0).look 1 0).answer 1 (.granted false) 1).look 0 1).answer 0
    (.granted true) 2).look 0 2).answer 0 .refused 2

theorem reached_race : Reached (some 2) race :=
  .tail (.tail (.tail (.tail (.tail (.tail (.tail .refl
    (.looked (i := 0) (L := 2) rfl rfl (by decide)))
    (.looked (i := 1) (L := 2) rfl rfl (by decide)))
    (.exchanged (i := 1) (L := 2) (n := 0) rfl rfl (by decide) rfl))
    (.retried (i := 0) (L := 2) (m := 0) rfl rfl (by decide) (by decide)))
    (.exchanged (i := 0) (L := 2) (n := 1) rfl rfl (by decide) rfl))
    (.looked (i := 0) (L := 2) rfl rfl (by decide)))
    (.refused (i := 0) (L := 2) (n := 2) rfl rfl (by decide))

theorem claims_rationed_in_race : Reached (some 2) race ∧ race.workers = [1, 0, 0] ∧
    race.results.map Prod.fst = [.granted false, .granted true, .refused] ∧
    Counter.Rationed 2 race.results := by
  obtain ⟨-, hrationed⟩ := claims_rationed (some 2) [1, 0, 0]
  obtain ⟨-, -, hlimited, -⟩ := hrationed race reached_race rfl
  exact ⟨reached_race, rfl, rfl, hlimited 2 rfl⟩

end Contest

/-! ## The claims of a read -/

def Act.claim? : Act → Option Claim
  | claimed claim => some claim
  | _ => none

def Deed.claim? : Deed → Option (Nat × Claim)
  | act i a => a.claim?.map fun claim ↦ (i, claim)
  | _ => none

theorem Worker.Step.claim_cases {σ κ : Type} {client : Client σ κ} {job : Job} {s s' : σ}
    {sh sh' : Shared} {w w' : Worker κ} {act : Option Act}
    (h : w.Step client job s sh act s' sh' w') :
    (∃ claim, act = some (.claimed claim) ∧ sh.counter.claim = (claim, sh'.counter)) ∨
      sh'.counter = sh.counter ∧ act.bind Act.claim? = none := by
  cases h
  case granted reachedLimit counter phase answer => exact .inl ⟨_, rfl, answer⟩
  case refused counter phase answer => exact .inl ⟨_, rfl, answer⟩
  all_goals exact .inr ⟨by simp [Shared.cancel], rfl⟩

namespace Stage

variable {σ κ δ : Type} {client : Client σ κ} {alter : δ → σ → σ} {x y : Stage σ κ}

/-- The claims made so far, in order, each with its worker. -/
def claims (x : Stage σ κ) : List (Nat × Claim) := x.history.filterMap Deed.claim?

/-- The claims made so far are those of a contest that can be reached. -/
def Contested (limit : Option UInt64) (x : Stage σ κ) : Prop :=
  ∃ contest, Contest.Reached limit contest ∧ contest.Idle ∧
    contest.counter = x.read.shared.counter ∧
    contest.answers.map (fun a ↦ (a.1, a.2.1)) = x.claims

theorem Contested.add {limit : Option UInt64} (h : x.Contested limit) {more : List Deed}
    (hhistory : y.history = x.history ++ more)
    (hcounter : y.read.shared.counter = x.read.shared.counter)
    (hmore : more.filterMap Deed.claim? = []) : y.Contested limit := by
  obtain ⟨contest, hreached, hidle, hshared, hclaims⟩ := h
  refine ⟨contest, hreached, hidle, hshared.trans hcounter.symm, ?_⟩
  rw [claims, hhistory, List.filterMap_append, hmore, List.append_nil]
  exact hclaims

theorem Contested.next {limit : Option UInt64} (h : x.Contested limit) {m : Move δ}
    (hm : x.Next client alter m y) : y.Contested limit := by
  cases hm
  case unchanged => exact h
  case worked i w w' act s sh hw hstep =>
    rcases hstep.claim_cases with ⟨claim, rfl, hclaim⟩ | ⟨hcounter, hact⟩
    · obtain ⟨contest, hreached, hidle, hshared, hclaims⟩ := h
      obtain ⟨next, hnext, hidle', hanswers, hcounter⟩ := Contest.exists_answered hreached hidle i
      rw [hshared, hclaim] at hanswers hcounter
      refine ⟨next, hnext, hidle', hcounter, ?_⟩
      rw [hanswers, List.map_append, hclaims, claims, claims, after, List.filterMap_append]
      rfl
    · apply h.add rfl hcounter
      cases act with
      | none => rfl
      | some a =>
          have ha : a.claim? = none := hact
          simp [Deed.claim?, ha]
  case collected report hw hreport hfresh => exact h.add rfl (by simp) rfl
  all_goals exact h.add rfl rfl rfl

/-- In every course of a read the workers' claims are answered as in a contest. -/
theorem contested_play {s : σ} {settings : ReaderSettings} {decoder : Decoder} {request : Request}
    {cancelled : Bool} {r : Read κ}
    (h : startRead client s settings decoder request cancelled = .ok (.running r))
    (moves : List (Move δ)) :
    ((start s r).play client alter moves).Contested request.effectiveLimit := by
  obtain ⟨ranges, hlaunched⟩ := exists_launched h
  have hstart : (start s r).Contested request.effectiveLimit := by
    rw [hlaunched.made]
    exact ⟨.start _, .refl, fun _ ↦ rfl, rfl, rfl⟩
  exact play_keeps client alter (start s r) hstart moves
    fun _ m _ hy ↦ hy.next (next_step alter m)

end Stage
end TopicView
