import TopicView.Proofs.Read.Claims
import TopicView.Proofs.Read.Event

/-!
# The limit in every course of a read

Claiming, sending and stopping the other workers are steps of their own.  Two invariants tie them
together along every course: `Counted` balances what has been sent and what is about to be sent
with the counter, and `Accounted` names the cause of every stop.
-/

namespace TopicView

namespace Worker

variable {σ κ : Type} {client : Client σ κ} {job : Job} {s s' : σ} {sh sh' : Shared}
  {w w' : Worker κ} {act : Option Act}

/-- Either a step is a granted claim, or it leaves the counter alone and turns a pending send into
a record on the channel, or neither. -/
theorem Step.claim_or_send (h : w.Step client job s sh act s' sh' w') :
    (∃ b, act = some (.claimed (.granted b)) ∧ sh.counter.claim = (.granted b, sh'.counter) ∧
      w.phase.isSending = false ∧ w'.phase.isSending = true) ∨
    (sh'.counter = sh.counter ∧ act.any Act.isLastClaim = false ∧
      (act.bind Act.record?).toList.length + w'.phase.isSending.toNat =
        w.phase.isSending.toNat) := by
  cases h
  case granted b counter phase answer =>
    exact Or.inl ⟨b, rfl, answer, by simp [phase, Phase.isSending], rfl⟩
  case refused phase answer =>
    refine Or.inr ⟨(Counter.exhausted_of_refused answer).2, rfl, ?_⟩
    simp [phase, Act.record?, Phase.isSending, go]
  all_goals
    refine Or.inr ⟨by simp [Shared.cancel], rfl, ?_⟩
    simp_all [Act.record?, go]
    try simp [Phase.isSending]

theorem Step.exhausted_of_exhausted (h : w.Step client job s sh act s' sh' w')
    (hx : sh.counter.isExhausted = true) : sh'.counter.isExhausted = true := by
  rcases h.claim_or_send with ⟨b, -, hclaim, -, -⟩ | ⟨heq, -, -⟩
  · simp [(Counter.counts_of_granted hclaim).1] at hx
  · rwa [heq]

theorem Step.outcome_of_some (h : w.Step client job s sh act s' sh' w') {outcome : Outcome}
    (hw : w.phase.outcome? = some outcome) : w'.phase.outcome? = some outcome := by
  cases h
  case sent cursor parcel b phase =>
    cases b with
    | true => simpa [phase, Phase.outcome?, afterSending] using hw
    | false => simp [phase, Phase.outcome?] at hw
  all_goals simp_all [Phase.outcome?, go]

theorem Step.exhausted_of_limitReached (h : w.Step client job s sh act s' sh' w')
    (hw : w.phase.outcome? ≠ some .limitReached) (hw' : w'.phase.outcome? = some .limitReached) :
    sh'.counter.isExhausted = true := by
  cases h
  case granted b counter phase answer =>
    cases b with
    | true => exact Counter.isExhausted_of_granted_true answer
    | false => simp [Phase.outcome?, go] at hw'
  case refused phase answer =>
    obtain ⟨hexhausted, rfl⟩ := Counter.exhausted_of_refused answer
    exact hexhausted
  case sent cursor parcel b phase =>
    cases b with
    | true => simp [phase, Phase.outcome?] at hw
    | false => rw [outcome_afterSending] at hw'; split at hw' <;> simp_all
  case pulled cursor cursor' raw phase live answer =>
    rcases outcome_examine job w cursor' raw with hnone | hdone <;> simp_all [go]
  case opened cursor phase live answer =>
    simp only [go, outcome_afterOpening] at hw'
    split at hw' <;> simp_all
  all_goals simp_all [Phase.outcome?, go]

theorem Step.stop_of_cancelled (h : w.Step client job s sh act s' sh' w')
    (hw : w.phase.outcome? ≠ some .cancelled) (hw' : w'.phase.outcome? = some .cancelled) :
    sh'.cancelled = true ∨ sh'.channel.receiving = false := by
  cases h
  case stopReserving phase stop => exact stop
  case sent cursor parcel b phase =>
    rw [outcome_afterSending] at hw'
    split at hw' <;> simp_all
  case pulled cursor cursor' raw phase live answer =>
    rcases outcome_examine job w cursor' raw with hnone | hdone <;> simp_all [go]
  case opened cursor phase live answer =>
    simp only [go, outcome_afterOpening] at hw'
    split at hw' <;> simp_all
  case granted b counter phase answer => cases b <;> simp [Phase.outcome?, go] at hw'
  all_goals simp_all [Phase.outcome?, go]

end Worker

namespace Stage

variable {σ κ δ : Type} {client : Client σ κ} {alter : δ → σ → σ} {x y : Stage σ κ}

/-- What is sent and what is about to be sent is what the counter counts, within the limit. -/
structure Counted (L : UInt64) (x : Stage σ κ) : Prop where
  limit_eq : x.read.shared.counter.limit = some L
  sent_add_pending : x.sent.length + x.pending = x.read.shared.counter.emitted.toNat
  emitted_le : x.read.shared.counter.emitted.toNat ≤ L.toNat
  lastClaims : x.lastClaims = 0 ∨
    x.lastClaims = 1 ∧ x.read.shared.counter.emitted.toNat = L.toNat

theorem Counted.congr {L : UInt64} (h : Counted L x)
    (hcounter : y.read.shared.counter = x.read.shared.counter) (hsent : y.sent = x.sent)
    (hpending : y.pending = x.pending) (hlast : y.lastClaims = x.lastClaims) : Counted L y := by
  obtain ⟨hl, hs, he, hc⟩ := h
  exact ⟨by rw [hcounter, hl], by rw [hcounter, hsent, hpending, hs], by rwa [hcounter],
    by rwa [hcounter, hlast]⟩

theorem Counted.after {L : UInt64} (h : Counted L x) {i : Nat} {w w' : Worker κ}
    {act : Option Act} {s : σ} {sh : Shared} (hw : x.read.workers[i]? = some w)
    (hstep : w.Step client x.read.job x.state x.read.shared act s sh w') :
    Counted L (x.after i act s sh w') := by
  have hpending : (x.after i act s sh w').pending + w.phase.isSending.toNat =
      x.pending + w'.phase.isSending.toNat := pending_after hw
  have hbalance := h.sent_add_pending
  rcases hstep.claim_or_send with ⟨b, rfl, hclaim, hbefore, hafter⟩ | ⟨hcounter, hact, hsend⟩
  · obtain ⟨hlt, hone, hlast⟩ := Counter.emitted_of_granted h.limit_eq hclaim
    have hnone : x.lastClaims = 0 := by
      rcases h.lastClaims with hnone | ⟨-, hfull⟩
      · exact hnone
      · omega
    refine ⟨(Counter.limit_eq_of_granted hclaim).trans h.limit_eq, ?_, ?_, ?_⟩
    · rw [hbefore, hafter] at hpending
      simp only [sent_after, Option.bind_some, Act.record?, Option.toList_none, List.append_nil]
      simp only [Bool.toNat_false, Bool.toNat_true] at hpending
      change _ = sh.counter.emitted.toNat
      omega
    · change sh.counter.emitted.toNat ≤ _
      omega
    · rw [lastClaims_after, hnone]
      cases b with
      | true => exact Or.inr ⟨rfl, hlast.mp rfl⟩
      | false => exact Or.inl rfl
  · have hcounter' : (x.after i act s sh w').read.shared.counter = x.read.shared.counter := hcounter
    refine ⟨hcounter' ▸ h.limit_eq, ?_, hcounter' ▸ h.emitted_le, ?_⟩
    · rw [hcounter', sent_after, List.length_append]
      omega
    · rw [hcounter', lastClaims_after, hact]
      exact h.lastClaims

theorem Counted.next {L : UInt64} (h : Counted L x) {m : Move δ} (hm : x.Next client alter m y) :
    Counted L y := by
  cases hm
  case unchanged => exact h
  case worked hw hstep => exact h.after hw hstep
  case collected report hw hreport hfresh =>
    exact h.congr (by simp) (by simp [Deed.sent?]) rfl (by simp [Deed.isLastClaim])
  all_goals exact h.congr rfl (by simp [Deed.sent?]) rfl (by simp [Deed.isLastClaim])

/-! ## The causes of a stop -/

/-- Every worker that stops before its end has the limit or a cancellation to name, and every
cancellation the limit, an intervention, or a panic. -/
structure Accounted (cancelled : Bool) (x : Stage σ κ) : Prop where
  deaf : x.read.shared.channel.receiving = false → x.read.shared.cancelled = true
  stopped : ∀ w ∈ x.read.workers,
    w.phase.outcome? = some .limitReached ∨ w.phase.outcome? = some .cancelled →
      x.read.shared.cancelled = true ∨ x.read.shared.counter.isExhausted = true
  cause : x.read.shared.cancelled = true → x.read.shared.counter.isExhausted = true ∨
    cancelled = true ∨ ¬ x.Undisturbed ∨
      ∃ w ∈ x.read.workers, w.phase.outcome? = some .panicked

theorem Accounted.after {cancelled : Bool} (h : Accounted cancelled x) {i : Nat}
    {w w' : Worker κ} {act : Option Act} {s : σ} {sh : Shared}
    (hw : x.read.workers[i]? = some w)
    (hstep : w.Step client x.read.job x.state x.read.shared act s sh w') :
    Accounted cancelled (x.after i act s sh w') := by
  have hmem : w ∈ x.read.workers := List.mem_of_getElem? hw
  have hdeaf : sh.channel.receiving = false → sh.cancelled = true := fun hr ↦
    hstep.cancelled_of_cancelled (h.deaf (hstep.receiving_eq ▸ hr))
  have hstopped : ∀ v ∈ x.read.workers,
      v.phase.outcome? = some .limitReached ∨ v.phase.outcome? = some .cancelled →
        sh.cancelled = true ∨ sh.counter.isExhausted = true := fun v hv hout ↦
    (h.stopped v hv hout).imp hstep.cancelled_of_cancelled hstep.exhausted_of_exhausted
  refine ⟨hdeaf, fun v hv hout ↦ ?_, fun hc ↦ ?_⟩
  · rcases List.mem_or_eq_of_mem_set hv with hv | rfl
    · exact hstopped v hv hout
    · rcases hout with hout | hout
      · by_cases hbefore : w.phase.outcome? = some .limitReached
        · exact hstopped w hmem (Or.inl hbefore)
        · exact Or.inr (hstep.exhausted_of_limitReached hbefore hout)
      · by_cases hbefore : w.phase.outcome? = some .cancelled
        · exact hstopped w hmem (Or.inr hbefore)
        · exact Or.inl ((hstep.stop_of_cancelled hbefore hout).elim id hdeaf)
  · have hcause : x.read.shared.counter.isExhausted = true ∨ cancelled = true ∨
        ¬ x.Undisturbed ∨ ∃ w ∈ x.read.workers, w.phase.outcome? = some .panicked := by
      cases hbefore : x.read.shared.cancelled with
      | true => exact h.cause hbefore
      | false =>
          obtain ⟨cursor, hphase⟩ := hstep.announcing_of_cancelled hbefore hc
          have hlimit : w.phase.outcome? = some .limitReached := by rw [hphase]; rfl
          rcases h.stopped w hmem (Or.inl hlimit) with hcancelled | hfull
          · exact h.cause hcancelled
          · exact Or.inl hfull
    rcases hcause with hfull | hcancelled | hdisturbed | ⟨v, hv, hpanic⟩
    · exact Or.inl (hstep.exhausted_of_exhausted hfull)
    · exact Or.inr (Or.inl hcancelled)
    · exact Or.inr (Or.inr (Or.inl (by rwa [undisturbed_after])))
    · obtain ⟨j, hj⟩ := List.getElem?_of_mem hv
      refine Or.inr (Or.inr (Or.inr ?_))
      by_cases hij : i = j
      · subst hij
        obtain rfl : w = v := Option.some.inj (hw.symm.trans hj)
        exact ⟨w', List.mem_set (List.getElem?_eq_some_iff.mp hw).1 _,
          hstep.outcome_of_some hpanic⟩
      · exact ⟨v, List.mem_of_getElem? ((List.getElem?_set_ne hij).trans hj), hpanic⟩

theorem Accounted.next {cancelled : Bool} (h : Accounted cancelled x) {m : Move δ}
    (hm : x.Next client alter m y) : Accounted cancelled y := by
  cases hm
  case unchanged => exact h
  case worked hw hstep => exact h.after hw hstep
  case collected i w report hw hreport hfresh =>
    by_cases hpanic : report.outcome = .panicked
    · have hw' : w.phase.outcome? = some .panicked := hpanic ▸ Worker.outcome_of_report hreport
      simp only [hpanic, if_true]
      exact ⟨fun _ ↦ rfl, fun _ _ _ ↦ Or.inl rfl,
        fun _ ↦ Or.inr (Or.inr (Or.inr ⟨w, List.mem_of_getElem? hw, hw'⟩))⟩
    · simp only [hpanic, if_false]
      exact ⟨h.deaf, h.stopped, fun hc ↦ by simpa using h.cause hc⟩
  case took hqueue => exact ⟨h.deaf, h.stopped, fun hc ↦ by simpa using h.cause hc⟩
  case heard hqueue => exact ⟨h.deaf, h.stopped, fun hc ↦ by simpa using h.cause hc⟩
  case cancelled =>
    exact ⟨fun _ ↦ rfl, fun _ _ _ ↦ Or.inl rfl, fun _ ↦ Or.inr (Or.inr (Or.inl (by simp)))⟩
  case left =>
    exact ⟨fun _ ↦ rfl, fun _ _ _ ↦ Or.inl rfl, fun _ ↦ Or.inr (Or.inr (Or.inl (by simp)))⟩
  case altered change => exact ⟨h.deaf, h.stopped, fun hc ↦ by simpa using h.cause hc⟩

/-! ## Courses from the start -/

section Start

variable {s : σ} {settings : ReaderSettings} {decoder : Decoder} {request : Request}
  {cancelled : Bool} {ranges : List (PartitionId × Offsets)} {r : Read κ}

theorem pending_start (h : Launched client s settings decoder request cancelled ranges r) :
    (start s r).pending = 0 := by
  rw [h.made, pending, List.countP_eq_zero]
  intro w hw
  obtain ⟨e, -, rfl⟩ := List.mem_map.mp hw
  simp [Worker.start, Phase.isSending]

theorem counted_start {L : UInt64}
    (h : Launched client s settings decoder request cancelled ranges r)
    (hL : request.effectiveLimit = some L) : Counted L (start s r) := by
  have hpending := pending_start h
  rw [h.made] at hpending ⊢
  refine ⟨hL, ?_, ?_, Or.inl rfl⟩
  · rw [hpending]
    rfl
  · exact Nat.zero_le _

theorem accounted_start (h : Launched client s settings decoder request cancelled ranges r) :
    Accounted cancelled (start s r) := by
  rw [h.made]
  refine ⟨(nomatch ·), fun w hw hout ↦ ?_, fun hc ↦ Or.inr (Or.inl hc)⟩
  obtain ⟨e, -, rfl⟩ := List.mem_map.mp hw
  simp [Worker.start, Phase.outcome?] at hout

theorem counted_play {L : UInt64}
    (h : Launched client s settings decoder request cancelled ranges r)
    (hL : request.effectiveLimit = some L) (moves : List (Move δ)) :
    Counted L ((start s r).play client alter moves) :=
  play_keeps client alter (start s r) (counted_start h hL) moves
    fun _ m _ hy ↦ hy.next (next_step alter m)

theorem accounted_play (h : Launched client s settings decoder request cancelled ranges r)
    (moves : List (Move δ)) : Accounted cancelled ((start s r).play client alter moves) :=
  play_keeps client alter (start s r) (accounted_start h) moves
    fun _ m _ hy ↦ hy.next (next_step alter m)

end Start

theorem pending_of_isOver (h : x.read.isOver = true) : x.pending = 0 := by
  rw [pending, List.countP_eq_zero]
  intro w hw
  have hover := List.all_eq_true.mp h w hw
  cases hphase : w.phase <;> simp_all [Phase.isOver, Phase.isSending]

theorem exists_outcome_of_isOver (h : x.read.isOver = true) {w : Worker κ}
    (hw : w ∈ x.read.workers) : ∃ outcome, w.phase.outcome? = some outcome := by
  have hover := List.all_eq_true.mp h w hw
  cases hphase : w.phase <;> simp_all [Phase.isOver, Phase.outcome?]

/-- Without an intervention or a panic, only the limit stops a worker before its end. -/
theorem Counted.length_sent_of_stopped {L : UInt64} (h : Counted L x) (ha : Accounted false x)
    (hover : x.read.isOver = true) (hcalm : x.Undisturbed)
    (hpanic : ∀ w ∈ x.read.workers, w.phase.outcome? ≠ some .panicked) {w : Worker κ}
    (hw : w ∈ x.read.workers)
    (hout : w.phase.outcome? = some .limitReached ∨ w.phase.outcome? = some .cancelled) :
    x.sent.length = L.toNat := by
  have hfull : x.read.shared.counter.isExhausted = true := by
    rcases ha.stopped w hw hout with hc | hfull
    · rcases ha.cause hc with hfull | hfalse | hdisturbed | ⟨v, hv, hv'⟩
      · exact hfull
      · cases hfalse
      · exact (hdisturbed hcalm).elim
      · exact (hpanic v hv hv').elim
    · exact hfull
  have hle := (Counter.isExhausted_iff h.limit_eq).mp hfull
  have hbalance := h.sent_add_pending
  have hbound := h.emitted_le
  rw [pending_of_isOver hover] at hbalance
  omega

/-- In every course of a capped read what has been sent and reported is on its way to the caller or
given to it, as long as the caller listens.  The records sent, together with those whose claim is
granted and that are about to be sent, are what the counter counts, and never more than the limit;
at most one claim is told that it was the last.  Once all workers are over, without an intervention
or a panic, a worker that did not come to its end means that the limit has been used up. -/
theorem limit_holds_in_every_course (client : Client σ κ) (alter : δ → σ → σ) {s : σ}
    {settings : ReaderSettings} {decoder : Decoder} {request : Request} {cancelled : Bool}
    {r : Read κ} {L : UInt64}
    (hstart : startRead client s settings decoder request cancelled = .ok (.running r))
    (hL : request.effectiveLimit = some L) (moves : List (Move δ)) {x : Stage σ κ}
    (hx : (start s r).play client alter moves = x) :
    (x.read.shared.channel.receiving = true →
        x.taken ++ x.read.shared.channel.queue = x.sent ∧
        x.heard ++ x.read.shared.errors = x.reported) ∧
      x.sent.length + x.pending = x.read.shared.counter.emitted.toNat ∧
      x.read.shared.counter.emitted.toNat ≤ L.toNat ∧
      x.lastClaims ≤ 1 ∧
      (x.read.isOver = true → cancelled = false → x.Undisturbed →
        (∀ w ∈ x.read.workers, w.phase.outcome? ≠ some .panicked) →
          ((∃ w ∈ x.read.workers, w.phase.outcome? = some .limitReached ∨
              w.phase.outcome? = some .cancelled) → x.sent.length = L.toNat) ∧
          (x.sent.length < L.toNat → ∀ w ∈ x.read.workers,
            w.phase.outcome? = some .completed ∨ w.phase.outcome? = some .errored)) := by
  obtain ⟨ranges, hlaunched⟩ := exists_launched hstart
  subst hx
  have hcounted : Counted L ((start s r).play client alter moves) :=
    counted_play hlaunched hL moves
  have haccounted : Accounted cancelled ((start s r).play client alter moves) :=
    accounted_play hlaunched moves
  refine ⟨conserved_play hlaunched rfl, hcounted.sent_add_pending, hcounted.emitted_le, ?_,
    fun hover hc hcalm hpanic ↦ ?_⟩
  · rcases hcounted.lastClaims with hnone | ⟨hone, -⟩ <;> omega
  · subst hc
    have hstop {w : Worker κ} :=
      hcounted.length_sent_of_stopped haccounted hover hcalm hpanic (w := w)
    refine ⟨fun ⟨w, hw, hout⟩ ↦ hstop hw hout, fun hlt w hw ↦ ?_⟩
    obtain ⟨outcome, hout⟩ := exists_outcome_of_isOver hover hw
    cases outcome with
    | completed => exact Or.inl hout
    | errored => exact Or.inr hout
    | limitReached => exact absurd (hstop hw (Or.inl hout)) (Nat.ne_of_lt hlt)
    | cancelled => exact absurd (hstop hw (Or.inr hout)) (Nat.ne_of_lt hlt)
    | panicked => exact absurd hout (hpanic w hw)

theorem limit_holds_in_sample :
    startRead Log.client Log.sample {} .lossy (sampleRequest .mostRecent 2) false =
        .ok (.running (sampleRead .mostRecent 2)) ∧
      (sampleRequest .mostRecent 2).effectiveLimit = some 2 ∧
      ((start Log.sample (sampleRead .mostRecent 2)).play Log.client Empty.elim
        (Move.oneByOne 14 8 2)).read.isOver = true ∧
      ((start Log.sample (sampleRead .mostRecent 2)).play Log.client Empty.elim
        (Move.oneByOne 14 8 2)).sent.length = 2 := by
  have hstart : startRead Log.client Log.sample {} .lossy (sampleRequest .mostRecent 2) false =
      .ok (.running (sampleRead .mostRecent 2)) := rfl
  obtain ⟨-, -, -, -, hfinished⟩ := limit_holds_in_every_course Log.client Empty.elim hstart rfl
    (Move.oneByOne 14 8 2) rfl
  have hfull := (hfinished rfl rfl ⟨by decide, by decide⟩ (by decide)).1 (by decide)
  exact ⟨hstart, rfl, rfl, hfull⟩

end Stage
end TopicView
