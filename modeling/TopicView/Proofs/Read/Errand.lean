import Mathlib.Data.List.DropRight
import Mathlib.Data.List.TakeWhile
import TopicView.Proofs.Read.Resolve

/-!
# What a reader is sent for

A request, the settings it is read with, and what `startRead` makes of them: a refusal where one of
them is not valid, and otherwise what the resolution of the ranges leaves to be done.
-/

namespace TopicView

theorem Text.trim_eq_empty_iff {s : String} :
    Text.trim s = "" ↔ ∀ c ∈ s.toList, Text.isBlank c = true := by
  have hempty : Text.trim s = "" ↔
      (s.toList.dropWhile Text.isBlank).rdropWhile Text.isBlank = [] := by
    rw [← String.toList_inj]
    simp [Text.trim, Text.trimChars, List.rdropWhile]
  rw [hempty, List.rdropWhile_eq_nil_iff]
  constructor
  · intro h c hc
    rw [← List.takeWhile_append_dropWhile (p := Text.isBlank) (l := s.toList)] at hc
    rcases List.mem_append.mp hc with hc | hc
    · exact List.mem_takeWhile_imp hc
    · exact h c hc
  · intro h c hc
    exact h c ((List.dropWhile_sublist _).subset hc)

theorem isReadable_eq_false_iff {mode : Mode} {o : Offsets} :
    isReadable mode o = false ↔ mode ≠ .live ∧ o.isEmpty = true := by
  simp [isReadable]

theorem isReadable_eq_true_iff {mode : Mode} {o : Offsets} :
    isReadable mode o = true ↔ mode = .live ∨ o.isEmpty = false := by
  simp [isReadable]

theorem Request.validate_eq_ok_iff {r : Request} :
    r.validate = .ok () ↔ (∃ c ∈ r.topic.toList, Text.isBlank c = false) ∧
      r.partitions.toList ≠ [] ∧ ∀ p ∈ r.partitions, 0 ≤ p := by
  have htopic : (∃ c ∈ r.topic.toList, Text.isBlank c = false) ↔ Text.trim r.topic ≠ "" := by
    simp [Text.trim_eq_empty_iff]
  rw [htopic, Request.validate]
  by_cases hblank : Text.trim r.topic = ""
  · simp [hblank]
  · by_cases hnone : r.partitions.toList = []
    · simp [hblank, hnone]
    · rw [if_neg hblank, if_neg hnone]
      cases hfind : r.partitions.toList.find? (· < 0) with
      | none =>
          have hall : ∀ p ∈ r.partitions, 0 ≤ p := fun p hp ↦
            Std.not_lt.mp (by simpa using List.find?_eq_none.mp hfind p hp)
          exact iff_of_true rfl ⟨hblank, hnone, hall⟩
      | some p =>
          have hneg : p < 0 := by simpa using List.find?_some hfind
          refine iff_of_false nofun fun h ↦ ?_
          exact Std.not_lt.mpr (h.2.2 p (List.mem_of_find?_eq_some hfind)) hneg

/-- What a reader is given when it is to read. -/
structure Errand where
  settings : ReaderSettings
  decoder : Decoder
  request : Request
  cancelled : Bool

namespace Errand

structure Valid (e : Errand) : Prop where
  topic : ∃ c ∈ e.request.topic.toList, Text.isBlank c = false
  partitions : e.request.partitions.toList ≠ []
  nonneg : ∀ p ∈ e.request.partitions, 0 ≤ p
  capacity : e.settings.channelCapacity ≠ 0

theorem valid_iff {e : Errand} :
    e.Valid ↔ e.request.validate = .ok () ∧ e.settings.validate = .ok () := by
  have hsettings : e.settings.validate = .ok () ↔ e.settings.channelCapacity ≠ 0 := by
    unfold ReaderSettings.validate
    split <;> simp_all
  rw [Request.validate_eq_ok_iff, hsettings]
  constructor
  · rintro ⟨ht, hp, hn, hc⟩
    exact ⟨⟨ht, hp, hn⟩, hc⟩
  · rintro ⟨⟨ht, hp, hn⟩, hc⟩
    exact ⟨ht, hp, hn, hc⟩

/-! ## What is made of it -/

variable {σ κ : Type}

/-- What is made of a read whose ranges are known. -/
def launch (e : Errand) (ranges : List (PartitionId × Offsets)) : Result ReadError (Started κ) := do
  if !ranges.any fun (_, o) ↦ isReadable e.request.mode o then return .emptyTopic
  else
    let plans ← planAll? e.request ranges
    let capacity := e.settings.channelCapacity.toNat
    if Channel.maxCapacity < capacity then .crash
    else return .running (.make e.request e.decoder capacity e.cancelled plans)

def start (e : Errand) (client : Client σ κ) (s : σ) : Result ReadError (Started κ) :=
  startRead client s e.settings e.decoder e.request e.cancelled

/-- Where something is readable, the read runs on the plans of the ranges, unless one of them cannot
be made or the channel cannot. -/
theorem launch_cases (e : Errand) (κ : Type) (ranges : List (PartitionId × Offsets)) :
    (e.launch ranges : Result ReadError (Started κ)) = .ok .emptyTopic ∧
        (∀ r ∈ ranges, isReadable e.request.mode r.2 = false) ∨
    (∃ r ∈ ranges, isReadable e.request.mode r.2 = true) ∧
      ((e.launch ranges : Result ReadError (Started κ)) = .crash ∧
          (planAll? e.request ranges = none ∨
            Channel.maxCapacity < e.settings.channelCapacity.toNat) ∨
        ∃ plans, planAll? e.request ranges = some plans ∧
          e.settings.channelCapacity.toNat ≤ Channel.maxCapacity ∧
          (e.launch ranges : Result ReadError (Started κ)) = .ok (.running (.make e.request
            e.decoder e.settings.channelCapacity.toNat e.cancelled plans))) := by
  unfold launch
  by_cases hany : ranges.any (fun r ↦ isReadable e.request.mode r.2) = true
  · rw [if_neg (by simpa using hany)]
    refine .inr ⟨List.any_eq_true.mp hany, ?_⟩
    cases hplans : planAll? e.request ranges with
    | none => exact .inl ⟨rfl, .inl rfl⟩
    | some plans =>
        by_cases hlarge : Channel.maxCapacity < e.settings.channelCapacity.toNat
        · exact .inl ⟨if_pos hlarge, .inr hlarge⟩
        · exact .inr ⟨plans, rfl, Nat.not_lt.mp hlarge, if_neg hlarge⟩
  · rw [if_pos (by simpa using hany)]
    refine .inl ⟨rfl, fun r hr ↦ ?_⟩
    exact Bool.eq_false_iff.mpr fun hread ↦ hany (List.any_eq_true.mpr ⟨r, hr, hread⟩)

section

variable {client : Client σ κ} {e : Errand} {s : σ}

theorem start_rejected {fault : RequestFault} (h : e.request.validate = .error fault) :
    e.start client s = .error (.invalidRequest fault) := by
  rw [start, startRead, h]
  rfl

theorem start_misconfigured {fault : SettingFault} (hr : e.request.validate = .ok ())
    (h : e.settings.validate = .error fault) :
    e.start client s = .error (.configuration fault) := by
  rw [start, startRead, hr, h]
  rfl

theorem start_of_valid (h : e.Valid) : e.start client s =
    resolve e.request.topic (client.lookup s e.request.topic) e.request.partitions.toList >>=
      e.launch := by
  obtain ⟨hrequest, hsettings⟩ := valid_iff.mp h
  rw [start, startRead, hrequest, hsettings]
  rfl

end

end Errand
end TopicView
