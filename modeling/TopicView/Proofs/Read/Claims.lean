import TopicView.Read.Limit

/-!
# The limit counter

A counter that is exhausted refuses a claim, and any other one counts it.  Claims made one after
another are numbered by their counter: under a limit the first ones are granted, as many as it
allows, the last of these is told so, and the count never passes the limit.  Without a limit all are
granted.
-/

namespace TopicView

def Claim.isGranted : Claim → Bool
  | granted _ => true
  | refused => false

namespace Counter

variable {c c' : Counter} {L : UInt64} {b : Bool}

theorem claim_of_unlimited (h : c.limit = none) :
    c.claim = (.granted false, { c with emitted := c.emitted + 1 }) := by
  rw [claim, h]

theorem claim_of_below (hL : c.limit = some L) (h : c.emitted < L) :
    c.claim = (.granted (decide (L ≤ c.emitted + 1)), { c with emitted := c.emitted + 1 }) := by
  obtain ⟨emitted, limit⟩ := c
  subst hL
  exact if_pos h

theorem claim_of_full (hL : c.limit = some L) (h : ¬ c.emitted < L) : c.claim = (.refused, c) := by
  obtain ⟨emitted, limit⟩ := c
  subst hL
  exact if_neg h

theorem toNat_emitted_add_one (h : c.emitted < L) :
    (c.emitted + 1).toNat = c.emitted.toNat + 1 := by
  have hlt := UInt64.lt_iff_toNat_lt.mp h
  have hbound := L.toNat_lt
  rw [UInt64.toNat_add, UInt64.toNat_one]
  omega

theorem isExhausted_iff (hL : c.limit = some L) :
    c.isExhausted = true ↔ L.toNat ≤ c.emitted.toNat := by
  simp [isExhausted, hL, UInt64.le_iff_toNat_le]

/-- A counter that is exhausted refuses, and any other one counts. -/
theorem refuses_or_counts (c : Counter) : c.isExhausted = true ∧ c.claim = (.refused, c) ∨
    c.isExhausted = false ∧ ∃ b, c.claim = (.granted b, { c with emitted := c.emitted + 1 }) := by
  obtain hL | ⟨L, hL⟩ := Option.eq_none_or_eq_some c.limit
  · exact .inr ⟨by simp [isExhausted, hL], false, claim_of_unlimited hL⟩
  · have hexhausted : c.isExhausted = true ↔ ¬ c.emitted < L := by
      rw [isExhausted_iff hL, UInt64.lt_iff_toNat_lt, Nat.not_lt]
    by_cases hlt : c.emitted < L
    · exact .inr ⟨by simpa [hlt] using hexhausted, _, claim_of_below hL hlt⟩
    · exact .inl ⟨hexhausted.mpr hlt, claim_of_full hL hlt⟩

theorem exhausted_of_refused (h : c.claim = (.refused, c')) : c.isExhausted = true ∧ c' = c := by
  obtain ⟨hexhausted, hclaim⟩ | ⟨-, b, hclaim⟩ := c.refuses_or_counts
  · exact ⟨hexhausted, congrArg Prod.snd (h.symm.trans hclaim)⟩
  · cases h.symm.trans hclaim

theorem counts_of_granted (h : c.claim = (.granted b, c')) :
    c.isExhausted = false ∧ c' = { c with emitted := c.emitted + 1 } := by
  obtain ⟨-, hclaim⟩ | ⟨hexhausted, b', hclaim⟩ := c.refuses_or_counts
  · cases h.symm.trans hclaim
  · exact ⟨hexhausted, congrArg Prod.snd (h.symm.trans hclaim)⟩

theorem limit_eq_of_granted (h : c.claim = (.granted b, c')) : c'.limit = c.limit := by
  rw [(counts_of_granted h).2]

theorem limit_claim (c : Counter) : c.claim.2.limit = c.limit := by
  obtain ⟨-, hclaim⟩ | ⟨-, b, hclaim⟩ := c.refuses_or_counts
  · rw [hclaim]
  · rw [hclaim]

/-- A claim under a limit is granted below it, counts one, and is told whether it was the last. -/
theorem emitted_of_granted (hL : c.limit = some L) (h : c.claim = (.granted b, c')) :
    c.emitted.toNat < L.toNat ∧ c'.emitted.toNat = c.emitted.toNat + 1 ∧
      (b = true ↔ c'.emitted.toNat = L.toNat) := by
  by_cases hlt : c.emitted < L
  · have hlt' := UInt64.lt_iff_toNat_lt.mp hlt
    have hadd := toNat_emitted_add_one hlt
    rw [claim_of_below hL hlt] at h
    obtain ⟨hb, rfl⟩ := Prod.mk.inj h
    obtain rfl := Claim.granted.inj hb
    refine ⟨hlt', hadd, ?_⟩
    rw [decide_eq_true_iff, UInt64.le_iff_toNat_le, hadd]
    omega
  · rw [claim_of_full hL hlt] at h
    cases h

theorem isExhausted_of_granted_true (h : c.claim = (.granted true, c')) :
    c'.isExhausted = true := by
  obtain hL | ⟨L, hL⟩ := Option.eq_none_or_eq_some c.limit
  · rw [claim_of_unlimited hL] at h
    cases h
  · rw [isExhausted_iff ((limit_eq_of_granted h).trans hL)]
    exact Nat.le_of_eq ((emitted_of_granted hL h).2.2.mp rfl).symm

/-! ## Claims in a row -/

/-- The counter after `n` claims. -/
def after (c : Counter) : Nat → Counter
  | 0 => c
  | n + 1 => (c.after n).claim.2

theorem after_claim (c : Counter) (n : Nat) : c.claim.2.after n = (c.after n).claim.2 := by
  induction n with
  | zero => rfl
  | succ n ih => rw [after, after, ih]

theorem limit_after (c : Counter) (n : Nat) : (c.after n).limit = c.limit := by
  induction n with
  | zero => rfl
  | succ n ih => rw [after, limit_claim, ih]

theorem claims_concat (c : Counter) (n : Nat) :
    c.claims (n + 1) = c.claims n ++ [(c.after n).claim] := by
  induction n generalizing c with
  | zero => rfl
  | succ n ih => rw [claims, ih, claims, after_claim, List.cons_append, after]

theorem claims_eq_map (c : Counter) (n : Nat) :
    c.claims n = (List.range n).map fun k ↦ (c.after k).claim := by
  induction n with
  | zero => rfl
  | succ n ih => rw [claims_concat, ih, List.range_succ, List.map_append]; rfl

theorem length_claims (c : Counter) (n : Nat) : (c.claims n).length = n := by
  rw [claims_eq_map, List.length_map, List.length_range]

/-- The counts that claims in a row show: the one before them and the one after each. -/
theorem counters_claims (c : Counter) (n : Nat) :
    c :: (c.claims n).map Prod.snd = (List.range (n + 1)).map c.after := by
  induction n with
  | zero => rfl
  | succ n ih =>
      rw [claims_concat, List.map_append, ← List.cons_append, ih, List.range_succ (n := n + 1),
        List.map_append]
      rfl

theorem emitted_after (L : UInt64) (n : Nat) :
    ((start (some L)).after n).emitted.toNat = min n L.toNat := by
  induction n with
  | zero => exact (Nat.zero_min _).symm
  | succ n ih =>
      have hlimit := limit_after (start (some L)) n
      rw [after]
      by_cases h : ((start (some L)).after n).emitted < L
      · have hlt := UInt64.lt_iff_toNat_lt.mp h
        rw [claim_of_below hlimit h]
        change (_ + 1 : UInt64).toNat = _
        rw [toNat_emitted_add_one h]
        omega
      · have hle := Nat.not_lt.mp (mt UInt64.lt_iff_toNat_lt.mpr h)
        rw [claim_of_full hlimit h]
        change ((start (some L)).after n).emitted.toNat = _
        omega

theorem emitted_after_lt_iff {n : Nat} :
    ((start (some L)).after n).emitted < L ↔ n < L.toNat := by
  rw [UInt64.lt_iff_toNat_lt, emitted_after]
  omega

/-- The claim after `n` others is granted while the limit is not reached, and the one that reaches
it is told so. -/
theorem claim_after (L : UInt64) (n : Nat) : ((start (some L)).after n).claim.1 =
    if n < L.toNat then .granted (decide (n + 1 = L.toNat)) else .refused := by
  have hlimit := limit_after (start (some L)) n
  by_cases h : n < L.toNat
  · have hbelow := emitted_after_lt_iff.mpr h
    have hlast : L ≤ ((start (some L)).after n).emitted + 1 ↔ n + 1 = L.toNat := by
      rw [UInt64.le_iff_toNat_le, toNat_emitted_add_one hbelow, emitted_after]
      omega
    rw [claim_of_below hlimit hbelow, if_pos h]
    simp only [hlast]
  · rw [claim_of_full hlimit (mt emitted_after_lt_iff.mp h), if_neg h]

theorem emitted_after_of_unlimited {n : Nat} (h : n < UInt64.size) :
    ((start none).after n).emitted.toNat = n := by
  induction n with
  | zero => rfl
  | succ n ih =>
      have hbefore := ih (Nat.lt_of_succ_lt h)
      rw [after, claim_of_unlimited (limit_after (start none) n)]
      change (_ + 1 : UInt64).toNat = _
      rw [UInt64.toNat_add, hbefore, UInt64.toNat_one]
      exact Nat.mod_eq_of_lt h

/-! ## What claims in a row come to -/

/-- How many of the first `k` claims are granted. -/
def grants (answers : List (Claim × Counter)) (k : Nat) : Nat :=
  (answers.take k).countP (·.1.isGranted)

/-- The counter before the claims, and after each of them. -/
def counters (limit : Option UInt64) (answers : List (Claim × Counter)) : List Counter :=
  start limit :: answers.map Prod.snd

/-- What claims come to under a limit. -/
structure Rationed (L : UInt64) (answers : List (Claim × Counter)) : Prop where
  /-- As many are granted as the limit allows, and they come first. -/
  grants_first : answers.map (·.1.isGranted) =
    List.replicate (min answers.length L.toNat) true ++
      List.replicate (answers.length - L.toNat) false
  /-- The one that takes the last slot is told so, and no other. -/
  last_iff : ∀ k, (∃ c, answers[k]? = some (.granted true, c)) ↔
    k < answers.length ∧ k + 1 = L.toNat
  /-- At any time the count is the number of grants so far, and within the limit. -/
  emitted_eq : ∀ k c, (counters (some L) answers)[k]? = some c →
    c.emitted.toNat = grants answers k ∧ c.emitted ≤ L
  exhausted_iff : ∀ k c, (counters (some L) answers)[k]? = some c →
    (c.isExhausted = true ↔ L.toNat ≤ grants answers k)

/-- What claims come to without a limit. -/
structure Unrationed (answers : List (Claim × Counter)) : Prop where
  granted : ∀ a ∈ answers, a.1 = .granted false
  /-- The count is right as long as it is a number of 64 bits. -/
  emitted_eq : ∀ k c, (counters none answers)[k]? = some c → k < UInt64.size →
    c.emitted.toNat = k
  not_exhausted : ∀ c ∈ counters none answers, c.isExhausted = false

theorem take_claims (c : Counter) {k n : Nat} (h : k ≤ n) :
    (c.claims n).take k = c.claims k := by
  rw [claims_eq_map, claims_eq_map, ← List.map_take, List.take_range, Nat.min_eq_left h]

theorem isGranted_claim_after (L : UInt64) (n : Nat) :
    ((start (some L)).after n).claim.1.isGranted = decide (n < L.toNat) := by
  rw [claim_after]
  by_cases h : n < L.toNat
  · rw [if_pos h, decide_eq_true h]
    rfl
  · rw [if_neg h, decide_eq_false h]
    rfl

theorem grants_claims (L : UInt64) {k n : Nat} (h : k ≤ n) :
    grants ((start (some L)).claims n) k = min k L.toNat := by
  rw [grants, take_claims _ h]
  clear h
  induction k with
  | zero => exact (Nat.zero_min _).symm
  | succ k ih =>
      rw [claims_concat, List.countP_append, ih, List.countP_singleton, isGranted_claim_after]
      by_cases hlt : k < L.toNat
      · rw [if_pos (decide_eq_true hlt)]
        omega
      · rw [if_neg (by simpa using hlt)]
        omega

theorem map_isGranted_claims (L : UInt64) (n : Nat) :
    ((start (some L)).claims n).map (·.1.isGranted) =
      List.replicate (min n L.toNat) true ++ List.replicate (n - L.toNat) false := by
  induction n with
  | zero => simp [claims]
  | succ n ih =>
      rw [claims_concat, List.map_append, ih, List.map_singleton, isGranted_claim_after]
      by_cases h : n < L.toNat
      · have hgrants : min (n + 1) L.toNat = min n L.toNat + 1 := by omega
        have hnone : n - L.toNat = 0 ∧ n + 1 - L.toNat = 0 := by omega
        rw [decide_eq_true h, hnone.1, hnone.2, hgrants, List.replicate_succ']
        simp
      · have hgrants : min (n + 1) L.toNat = min n L.toNat := by omega
        have hmore : n + 1 - L.toNat = n - L.toNat + 1 := by omega
        rw [decide_eq_false h, hgrants, hmore, List.replicate_succ', List.append_assoc]

theorem getElem?_counters_claims {limit : Option UInt64} {n k : Nat} {c : Counter}
    (h : (counters limit ((start limit).claims n))[k]? = some c) :
    k ≤ n ∧ (start limit).after k = c := by
  rw [counters, counters_claims, List.getElem?_map, Option.map_eq_some_iff] at h
  obtain ⟨j, hj, hc⟩ := h
  obtain ⟨hlt, rfl⟩ := List.getElem?_eq_some_iff.mp hj
  rw [List.length_range] at hlt
  rw [List.getElem_range] at hc
  exact ⟨Nat.le_of_lt_succ hlt, hc⟩

theorem rationed_claims (L : UInt64) (n : Nat) : Rationed L ((start (some L)).claims n) := by
  constructor
  case grants_first =>
    rw [length_claims]
    exact map_isGranted_claims L n
  case last_iff =>
    intro k
    rw [length_claims, claims_eq_map, List.getElem?_map]
    constructor
    · rintro ⟨c, hc⟩
      obtain ⟨j, hj, hclaim⟩ := Option.map_eq_some_iff.mp hc
      obtain ⟨hlt, rfl⟩ := List.getElem?_eq_some_iff.mp hj
      rw [List.length_range] at hlt
      have hfirst := congrArg Prod.fst hclaim
      rw [List.getElem_range, claim_after] at hfirst
      split at hfirst
      · exact ⟨hlt, by simpa using hfirst⟩
      · cases hfirst
    · rintro ⟨hlt, hlast⟩
      refine ⟨((start (some L)).after k).claim.2, ?_⟩
      rw [List.getElem?_range hlt, Option.map_some]
      have hfirst := claim_after L k
      rw [if_pos (by omega), decide_eq_true hlast] at hfirst
      rw [← hfirst]
  case emitted_eq =>
    intro k c hc
    obtain ⟨hk, rfl⟩ := getElem?_counters_claims hc
    rw [grants_claims L hk, UInt64.le_iff_toNat_le, emitted_after]
    exact ⟨rfl, Nat.min_le_right k L.toNat⟩
  case exhausted_iff =>
    intro k c hc
    obtain ⟨hk, rfl⟩ := getElem?_counters_claims hc
    rw [isExhausted_iff (limit_after _ k), grants_claims L hk, emitted_after]

theorem unrationed_claims (n : Nat) : Unrationed ((start none).claims n) := by
  constructor
  case granted =>
    intro a ha
    rw [claims_eq_map] at ha
    obtain ⟨k, -, rfl⟩ := List.mem_map.mp ha
    rw [claim_of_unlimited (limit_after (start none) k)]
  case emitted_eq =>
    intro k c hc hk
    obtain ⟨-, rfl⟩ := getElem?_counters_claims hc
    exact emitted_after_of_unlimited hk
  case not_exhausted =>
    intro c hc
    obtain ⟨k, hk⟩ := List.getElem?_of_mem hc
    obtain ⟨-, rfl⟩ := getElem?_counters_claims hk
    rw [isExhausted, limit_after]
    rfl

end Counter
end TopicView
