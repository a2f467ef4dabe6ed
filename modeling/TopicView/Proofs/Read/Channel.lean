import TopicView.Proofs.Read.Course
import TopicView.Proofs.Read.Start

/-!
# The channel in every course of a read

What the caller takes and what is queued make up what was sent, in that order, and every reserved
slot belongs to a worker that is about to fill or release it.  So a read can come to rest only when
its workers are over.
-/

namespace TopicView

namespace Worker

variable {σ κ : Type} {client : Client σ κ} {job : Job} {s s' : σ} {sh sh' : Shared}
  {w w' : Worker κ} {act : Option Act}

theorem Step.queue_eq (h : w.Step client job s sh act s' sh' w') :
    sh'.channel.queue = sh.channel.queue ++
      if sh.channel.receiving then (act.bind Act.record?).toList else [] := by
  cases h
  case sent parcel b phase =>
    cases hr : sh.channel.receiving <;> simp [Channel.send, hr, Act.record?]
  all_goals simp [Channel.reserve, Channel.release, Shared.cancel, Act.record?]

theorem Step.errors_eq (h : w.Step client job s sh act s' sh' w') :
    sh'.errors = sh.errors ++
      if sh.channel.receiving then (act.bind Act.failure?).toList else [] := by
  cases h
  case openingFailed f phase live answer =>
    cases hr : sh.channel.receiving <;> simp [Shared.report, hr, Act.failure?]
  case pullingFailed f phase live answer =>
    cases hr : sh.channel.receiving <;> simp [Shared.report, hr, Act.failure?]
  all_goals simp [Shared.cancel, Act.failure?]

theorem Step.reserved_add (h : w.Step client job s sh act s' sh' w')
    (hslot : w.phase.holdsSlot = true → 0 < sh.channel.reserved) :
    sh'.channel.reserved + w.phase.holdsSlot.toNat =
      sh.channel.reserved + w'.phase.holdsSlot.toNat := by
  cases h
  case opened cursor phase live answer =>
    have hbefore : w.phase.holdsSlot = false := by rw [phase]; rfl
    simp [hbefore, go, holdsSlot_afterOpening]
  case pulled cursor cursor' raw phase live answer =>
    have hbefore : w.phase.holdsSlot = false := by rw [phase]; rfl
    simp [hbefore, go, holdsSlot_examine]
  case sent cursor parcel b phase =>
    have hbefore : w.phase.holdsSlot = true := by rw [phase]; rfl
    have hpos := hslot hbefore
    simp only [hbefore, holdsSlot_afterSending, Channel.send, Bool.toNat_true, Bool.toNat_false]
    omega
  case refused cursor parcel counter phase answer =>
    have hbefore : w.phase.holdsSlot = true := by rw [phase]; rfl
    have hpos := hslot hbefore
    have hafter : (w.go (.closing cursor .limitReached)).phase.holdsSlot = false := rfl
    simp only [hbefore, hafter, Channel.release, Bool.toNat_true, Bool.toNat_false]
    omega
  all_goals simp_all [go, Channel.reserve, Shared.cancel, Phase.holdsSlot]

theorem Step.room (h : w.Step client job s sh act s' sh' w')
    (hslot : w.phase.holdsSlot = true → 0 < sh.channel.reserved)
    (hroom : sh.channel.queue.length + sh.channel.reserved ≤ sh.channel.capacity) :
    sh'.channel.queue.length + sh'.channel.reserved ≤ sh'.channel.capacity := by
  cases h
  case sent cursor parcel b phase =>
    have hpos := hslot (by rw [phase]; rfl)
    cases hr : sh.channel.receiving <;> simp [Channel.send, hr] <;> omega
  case reserved cursor parcel phase live listening room =>
    simp only [Channel.hasRoom, decide_eq_true_eq] at room
    simp only [Channel.reserve]
    omega
  case refused cursor parcel counter phase answer =>
    simp only [Channel.release]
    omega
  all_goals simpa [Shared.cancel] using hroom

end Worker

/-! ## Along a course -/

namespace Stage

variable {σ κ δ : Type} {client : Client σ κ} {alter : δ → σ → σ} {x y : Stage σ κ}

structure Channeled (capacity : Nat) (x : Stage σ κ) : Prop where
  capacity_eq : x.read.shared.channel.capacity = capacity
  taken_append_queue : x.read.shared.channel.receiving = true →
    x.taken ++ x.read.shared.channel.queue = x.sent
  taken_prefix : x.taken <+: x.sent
  silent : x.read.shared.channel.receiving = false → x.read.shared.channel.queue = []
  reserved_eq : x.read.shared.channel.reserved = x.read.workers.countP (·.phase.holdsSlot)
  room : x.read.shared.channel.queue.length + x.read.shared.channel.reserved ≤ capacity

theorem Channeled.next {capacity : Nat} (h : Channeled capacity x) {m : Move δ}
    (hm : x.Next client alter m y) : Channeled capacity y := by
  obtain ⟨hcapacity, hqueue, hprefix, hsilent, hreserved, hroom⟩ := h
  cases hm
  case unchanged => exact ⟨hcapacity, hqueue, hprefix, hsilent, hreserved, hroom⟩
  case worked i w w' act s sh hw hstep =>
    have hslot : w.phase.holdsSlot = true → 0 < x.read.shared.channel.reserved := fun hw' ↦ by
      rw [hreserved, List.countP_pos_iff]
      exact ⟨w, List.mem_of_getElem? hw, hw'⟩
    have hbalance := hstep.reserved_add hslot
    have hcount := countP_set_add (p := fun v : Worker κ ↦ v.phase.holdsSlot) (b := w') hw
    refine ⟨hstep.capacity_eq.trans hcapacity, fun hr ↦ ?_, ?_, fun hr ↦ ?_, ?_, ?_⟩
    · have hr' : x.read.shared.channel.receiving = true := hstep.receiving_eq ▸ hr
      rw [taken_after, sent_after, ← hqueue hr', List.append_assoc]
      simp only [after]
      rw [hstep.queue_eq, if_pos hr']
    · rw [taken_after, sent_after]
      exact hprefix.trans (List.prefix_append _ _)
    · have hr' : x.read.shared.channel.receiving = false := hstep.receiving_eq ▸ hr
      simp only [after]
      rw [hstep.queue_eq, hsilent hr', hr']
      rfl
    · simp only [after]
      omega
    · exact hcapacity ▸ hstep.capacity_eq ▸ hstep.room hslot (hcapacity ▸ hroom)
  case collected report hw hreport hfresh =>
    refine ⟨?_, ?_, ?_, ?_, ?_, ?_⟩ <;> simpa [Deed.sent?, Deed.took?]
  case took a rest hq =>
    have hlistening : x.read.shared.channel.receiving = true := by
      cases hr : x.read.shared.channel.receiving with
      | true => rfl
      | false => simp [hsilent hr] at hq
    have hsent : x.taken ++ a :: rest = x.sent := hq ▸ hqueue hlistening
    refine ⟨hcapacity, fun _ ↦ ?_, ?_, fun hr ↦ ?_, hreserved, ?_⟩
    · simpa [Deed.took?, Deed.sent?] using hsent
    · refine ⟨rest, ?_⟩
      simpa [Deed.took?, Deed.sent?] using hsent
    · rw [read_note, hlistening] at hr
      cases hr
    · rw [hq, List.length_cons] at hroom
      simp only [read_note]
      omega
  case left =>
    refine ⟨hcapacity, fun hr ↦ ?_, ?_, fun _ ↦ rfl, hreserved, ?_⟩
    · cases hr
    · simpa [Deed.took?, Deed.sent?] using hprefix
    · simp only [read_note, Read.hangUp, Channel.hangUp, List.length_nil]
      omega
  all_goals
    refine ⟨hcapacity, ?_, ?_, hsilent, hreserved, hroom⟩
    · simpa [Deed.sent?, Deed.took?, Read.cancel, Shared.cancel] using hqueue
    · simpa [Deed.sent?, Deed.took?] using hprefix

theorem channeled_play {s : σ} {settings : ReaderSettings} {decoder : Decoder} {request : Request}
    {cancelled : Bool} {ranges : List (PartitionId × Offsets)} {r : Read κ}
    (h : Launched client s settings decoder request cancelled ranges r) (moves : List (Move δ)) :
    Channeled settings.channelCapacity.toNat ((start s r).play client alter moves) := by
  refine play_keeps client alter (start s r) ?_ moves fun _ m _ hy ↦ hy.next (next_step alter m)
  rw [h.made]
  refine ⟨rfl, fun _ ↦ rfl, List.prefix_rfl, fun _ ↦ rfl, ?_, Nat.zero_le _⟩
  symm
  change List.countP _ _ = 0
  rw [List.countP_eq_zero]
  intro w hw
  obtain ⟨e, -, rfl⟩ := List.mem_map.mp hw
  simp [Worker.start, Phase.holdsSlot]

/-! ## Coming to rest -/

theorem act_eq_none_of_atRest (h : x.AtRest client) {w : Worker κ} (hw : w ∈ x.read.workers) :
    w.act? client x.read.job x.state x.read.shared = none := by
  obtain ⟨i, hi⟩ := List.getElem?_of_mem hw
  have hturn := h.1 i
  rw [turn_eq_after hi] at hturn
  simpa [after] using hturn

theorem queue_eq_nil_of_atRest (h : x.AtRest client) : x.read.shared.channel.queue = [] := by
  cases hq : x.read.shared.channel.queue with
  | nil => rfl
  | cons a rest =>
      have htake := h.2
      simp [takeRecord, Read.takeRecord, hq, note] at htake

theorem act_ne_none_of_holdsSlot {w : Worker κ} (h : w.phase.holdsSlot = true) (job : Job) (s : σ)
    (sh : Shared) : w.act? client job s sh ≠ none := by
  cases hphase : w.phase <;> simp_all [Phase.holdsSlot, Worker.act?]

/-- A read at rest whose caller listens is over, unless one of its workers has to wait for its
cursor. -/
theorem Channeled.isOver_of_atRest {capacity : Nat} (h : Channeled capacity x) (hpos : 0 < capacity)
    (hlistening : x.read.shared.channel.receiving = true) (hrest : x.AtRest client)
    (hready : ∀ w ∈ x.read.workers, w.phase = .opening ∨ (∃ c, w.phase = .pulling c) →
      w.act? client x.read.job x.state x.read.shared ≠ none) : x.read.isOver = true := by
  have hfree : x.read.shared.channel.reserved = 0 := by
    rw [h.reserved_eq, List.countP_eq_zero]
    intro v hv hslot
    exact act_ne_none_of_holdsSlot hslot _ _ _ (act_eq_none_of_atRest hrest hv)
  refine List.all_eq_true.mpr fun w hw ↦ ?_
  have hact := act_eq_none_of_atRest hrest hw
  cases hphase : w.phase with
  | opening => exact (hready w hw (Or.inl hphase) hact).elim
  | pulling c => exact (hready w hw (Or.inr ⟨c, hphase⟩) hact).elim
  | reserving c parcel =>
      have hroom : x.read.shared.channel.hasRoom = true := by
        rw [Channel.hasRoom, queue_eq_nil_of_atRest hrest, hfree, h.capacity_eq]
        simpa using hpos
      cases hc : x.read.shared.cancelled <;>
        simp [Worker.act?, hphase, hc, hlistening, hroom] at hact
  | finished outcome => rfl
  | crashed => rfl
  | _ => simp [Worker.act?, hphase] at hact

end Stage
end TopicView
