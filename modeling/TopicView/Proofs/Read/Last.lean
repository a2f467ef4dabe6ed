import TopicView.Proofs.Read.Limit
import TopicView.Proofs.Read.Relay

/-!
# The last slot of the limit

The claims of a capped read are numbered by its counter, and the last one is told so.  Between that
claim and the cancellation of the read its worker does not wait: it sends, and tells the others.
-/

namespace TopicView

open Act

namespace Worker

variable {σ κ : Type} {client : Client σ κ} {job : Job} {s s' : σ} {sh sh' : Shared}
  {w w' : Worker κ} {acts : List Act} {act : Option Act}

/-- What is behind a worker that was told that its claim took the last slot: it goes on to send and
to stop the others without a wait in between. -/
def TakesLast (acts : List Act) : Phase κ → Prop
  | .sending _ _ reachedLimit => ∃ front, acts = front ++ [.claimed (.granted reachedLimit)] ∧
      (.claimed (.granted true) ∈ front → .announced ∈ front)
  | .announcing _ => ∃ front record, acts = front ++ [.claimed (.granted true), .sent record]
  | _ => .claimed (.granted true) ∈ acts → .announced ∈ acts

theorem takesLast_iff {phase : Phase κ} (hsending : phase.isSending = false)
    (hout : phase.outcome? ≠ some .limitReached) :
    TakesLast acts phase ↔ (.claimed (.granted true) ∈ acts → .announced ∈ acts) := by
  cases phase with
  | sending => cases hsending
  | announcing cursor => exact (hout rfl).elim
  | _ => exact Iff.rfl

theorem announced_of_claimed (h : .claimed (.granted true) ∈ acts → .announced ∈ acts)
    (hact : act ≠ some (.claimed (.granted true)))
    (hmem : .claimed (.granted true) ∈ acts ++ act.toList) : .announced ∈ acts ++ act.toList := by
  rcases List.mem_append.mp hmem with hmem | hmem
  · exact List.mem_append_left _ (h hmem)
  · exact (hact (Option.mem_toList.mp hmem)).elim

theorem Step.takesLast (h : w.Step client job s sh act s' sh' w')
    (hw : TakesLast acts w.phase) : TakesLast (acts ++ act.toList) w'.phase := by
  cases h
  case idle => simpa using hw
  case granted cursor parcel reachedLimit counter phase answer =>
    rw [phase] at hw
    exact ⟨acts, rfl, hw⟩
  case announced cursor phase =>
    exact fun _ ↦ List.mem_append_right acts (List.mem_singleton_self _)
  case sent cursor parcel reachedLimit phase =>
    rw [phase] at hw
    obtain ⟨front, rfl, hfront⟩ := hw
    cases reachedLimit with
    | true => exact ⟨front, parcel.record, by simp⟩
    | false =>
        have hout : (afterSending cursor parcel false).outcome? ≠ some .limitReached := by
          rw [outcome_afterSending]
          cases parcel.isLast <;> decide
        apply (takesLast_iff (isSending_afterSending cursor parcel false) hout).mpr
        simpa using hfront
  case opened cursor phase live answer =>
    have hout : (w.afterOpening cursor).outcome? ≠ some .limitReached := by
      rw [outcome_afterOpening]
      cases w.plan.isEmpty <;> decide
    rw [phase] at hw
    exact (takesLast_iff (isSending_afterOpening cursor) hout).mpr (announced_of_claimed hw nofun)
  case pulled cursor cursor' raw phase live answer =>
    have hout : (examine job w cursor' raw).outcome? ≠ some .limitReached := by
      rcases outcome_examine job w cursor' raw with h | h <;> rw [h] <;> decide
    rw [phase] at hw
    exact (takesLast_iff (isSending_examine cursor' raw) hout).mpr (announced_of_claimed hw nofun)
  all_goals
    simp only [*] at hw
    exact announced_of_claimed hw nofun

end Worker

/-! ## The claims of a course -/

/-- Whether this is a claim that took a slot of the limit. -/
def Act.isGrant : Act → Bool
  | claimed (.granted _) => true
  | _ => false

def Deed.isGrant : Deed → Bool
  | act _ a => a.isGrant
  | _ => false

theorem Worker.Step.grant_cases {σ κ : Type} {client : Client σ κ} {job : Job} {s s' : σ}
    {sh sh' : Shared} {w w' : Worker κ} {act : Option Act}
    (h : w.Step client job s sh act s' sh' w') :
    (∃ reachedLimit, act = some (.claimed (.granted reachedLimit)) ∧
      sh.counter.claim = (.granted reachedLimit, sh'.counter)) ∨
    sh'.counter = sh.counter ∧ act.any Act.isGrant = false := by
  cases h
  case granted reachedLimit counter phase answer => exact Or.inl ⟨reachedLimit, rfl, answer⟩
  case refused phase answer => exact Or.inr ⟨(Counter.exhausted_of_refused answer).2, rfl⟩
  all_goals exact Or.inr ⟨by simp [Shared.cancel], rfl⟩

namespace Stage

variable {σ κ δ : Type} {client : Client σ κ} {alter : δ → σ → σ} {x y : Stage σ κ} {L : UInt64}

/-- The claims granted so far, in their order. -/
structure Numbered (L : UInt64) (x : Stage σ κ) : Prop where
  limit_eq : x.read.shared.counter.limit = some L
  grants_eq : x.history.countP Deed.isGrant = x.read.shared.counter.emitted.toNat
  last : x.read.shared.counter.emitted.toNat = L.toNat → 0 < L.toNat →
    ∃ front i back, x.history = front ++ .act i (.claimed (.granted true)) :: back ∧
      back.countP Deed.isGrant = 0

theorem Numbered.add (h : x.Numbered L) {more : List Deed}
    (hhistory : y.history = x.history ++ more)
    (hcounter : y.read.shared.counter = x.read.shared.counter)
    (hmore : more.countP Deed.isGrant = 0) : y.Numbered L := by
  refine ⟨hcounter ▸ h.limit_eq, ?_, fun hfull hpos ↦ ?_⟩
  · rw [hhistory, List.countP_append, hmore, hcounter, h.grants_eq, Nat.add_zero]
  · rw [hcounter] at hfull
    obtain ⟨front, i, back, hbefore, hback⟩ := h.last hfull hpos
    refine ⟨front, i, back ++ more, ?_, ?_⟩
    · rw [hhistory, hbefore, List.append_assoc, List.cons_append]
    · rw [List.countP_append, hback, hmore]

theorem Numbered.next (h : x.Numbered L) {m : Move δ} (hm : x.Next client alter m y) :
    y.Numbered L := by
  cases hm
  case unchanged => exact h
  case worked i w w' act s sh hw hstep =>
    rcases hstep.grant_cases with ⟨reachedLimit, rfl, hclaim⟩ | ⟨hcounter, hact⟩
    · obtain ⟨-, hone, hlast⟩ := Counter.emitted_of_granted h.limit_eq hclaim
      refine ⟨(Counter.limit_eq_of_granted hclaim).trans h.limit_eq, ?_, fun hfull hpos ↦ ?_⟩
      · change _ = sh.counter.emitted.toNat
        rw [hone, ← h.grants_eq]
        simp [after, Deed.isGrant, Act.isGrant]
      · obtain rfl := hlast.mpr hfull
        exact ⟨x.history, i, [], rfl, rfl⟩
    · apply h.add rfl hcounter
      cases act with
      | none => rfl
      | some a =>
          have ha : a.isGrant = false := by simpa using hact
          simp [Deed.isGrant, ha]
  case collected report hw hreport hfresh => exact h.add rfl (by simp) rfl
  all_goals exact h.add rfl rfl rfl

theorem Next.cancelled_of_cancelled {m : Move δ} (hm : x.Next client alter m y)
    (hc : x.read.shared.cancelled = true) : y.read.shared.cancelled = true := by
  cases hm
  case worked hw hstep => exact hstep.cancelled_of_cancelled hc
  case collected report hw hreport hfresh =>
    rw [read_note]
    dsimp only
    split
    · rfl
    · exact hc
  case cancelled => rfl
  case left => rfl
  all_goals exact hc

/-- A worker that has told the others to stop has cancelled the read. -/
def Heeded (x : Stage σ κ) : Prop :=
  ∀ i, .act i .announced ∈ x.history → x.read.shared.cancelled = true

theorem Heeded.next (h : x.Heeded) {m : Move δ} (hm : x.Next client alter m y) : y.Heeded := by
  intro j hj
  by_cases hold : .act j .announced ∈ x.history
  · exact hm.cancelled_of_cancelled (h j hold)
  · cases hm
    case unchanged => exact (hold hj).elim
    case worked i w w' act s sh hw hstep =>
      rcases List.mem_append.mp hj with hj | hj
      · exact (hold hj).elim
      · obtain ⟨a, ha, hdeed⟩ := Option.map_eq_some_iff.mp (Option.mem_toList.mp hj)
        obtain ⟨-, rfl⟩ := Deed.act.inj hdeed
        subst ha
        cases hstep with
        | announced phase => rfl
    all_goals
      exact (hold (by simpa [note] using hj)).elim

/-! ## The worker that sent the last record -/

/-- A worker has sent the record of the last slot, and its next turn cancels the read. -/
structure Announces (client : Client σ κ) (L : UInt64) (x : Stage σ κ) (i : Nat) : Prop where
  phase : ∃ w cursor, x.read.workers[i]? = some w ∧ w.phase = .announcing cursor
  last : ∃ front record, x.actsOf i = front ++ [.claimed (.granted true), .sent record]
  number : ∃ front back, x.history = front ++ .act i (.claimed (.granted true)) :: back ∧
    front.countP Deed.isGrant + 1 = L.toNat ∧ back.countP Deed.isGrant = 0
  turn : (x.turn client i).read.shared.cancelled = true

theorem exists_announces (client : Client σ κ) {r : Read κ} (hframed : x.Framed r)
    (hcounted : Counted L x) (hnumbered : x.Numbered L) (htakes : x.Each fun acts w ↦
      Worker.TakesLast acts w.phase) (hheeded : x.Heeded) (hpos : 0 < L.toNat)
    (hsent : x.sent.length = L.toNat) (hc : x.read.shared.cancelled = false) :
    ∃ i, x.Announces client L i := by
  have hbalance := hcounted.sent_add_pending
  have hbound := hcounted.emitted_le
  have hfull : x.read.shared.counter.emitted.toNat = L.toNat := by omega
  obtain ⟨front, i, back, hhistory, hback⟩ := hnumbered.last hfull hpos
  have hnumber : front.countP Deed.isGrant + 1 = L.toNat := by
    have hgrants := hnumbered.grants_eq
    rw [hhistory, List.countP_append, List.countP_cons, hback, hfull] at hgrants
    simpa [Deed.isGrant, Act.isGrant] using hgrants
  have hclaimed : .act i (.claimed (.granted true)) ∈ x.history := by simp [hhistory]
  have hi := hframed.present i _ hclaimed
  obtain ⟨w, hw⟩ : ∃ w, x.read.workers[i]? = some w := ⟨_, List.getElem?_eq_getElem hi⟩
  have hidle : w.phase.isSending = false := by
    have hnone : x.pending = 0 := by omega
    simpa using List.countP_eq_zero.mp hnone w (List.mem_of_getElem? hw)
  have hlast : Worker.TakesLast (x.actsOf i) w.phase := htakes i w hw
  cases hphase : w.phase with
  | announcing cursor =>
      rw [hphase] at hlast
      refine ⟨i, ⟨w, cursor, hw, hphase⟩, hlast, ⟨front, back, hhistory, hnumber, hback⟩, ?_⟩
      rw [turn_eq_after hw]
      simp [after, Worker.turn, hphase, Shared.cancel]
  | sending cursor parcel reachedLimit =>
      rw [hphase] at hidle
      cases hidle
  | _ =>
      -- Every other worker with this claim has already told the others.
      rw [hphase] at hlast
      have hannounced := mem_actsOf.mp (hlast (mem_actsOf.mpr hclaimed))
      rw [hheeded i hannounced] at hc
      cases hc

end Stage
end TopicView
