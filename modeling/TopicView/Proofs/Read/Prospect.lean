import TopicView.Proofs.Read.Claims
import TopicView.Proofs.Read.Relay

/-!
# What a worker makes of a script

A worker that is given all it waits for does what the records ahead of it, its plan, the filter and
the counter leave it to do.  First this is written down act by act; then it is said in terms of the
records as a whole how much of them is sent, how the worker ends, and how far it reads.
-/

namespace TopicView

open Act

namespace Counter

variable {c c' : Counter}

/-- How many claims will still be granted, where there is a limit. -/
def room (c : Counter) : Option Nat := c.limit.map fun limit ↦ limit.toNat - c.emitted.toNat

/-- As many of the records as there is room for. -/
def cut (c : Counter) (records : List Record) : List Record :=
  match c.room with
  | none => records
  | some k => records.take k

/-- The room is no more than for `m` records, of which there is at least one. -/
def UsedUpBy (c : Counter) (m : Nat) : Prop := 1 ≤ m ∧ ∃ k, c.room = some k ∧ k ≤ m

/-- There is room for one record less, and still for one. -/
def Counts (c c' : Counter) : Prop :=
  c.room = none ∧ c'.room = none ∨ ∃ k, c.room = some (k + 2) ∧ c'.room = some (k + 1)

theorem room_eq {limit : UInt64} (h : c.limit = some limit) {k : Nat}
    (hk : limit.toNat - c.emitted.toNat = k) : c.room = some k := by
  rw [room, h, ← hk]
  rfl

theorem claim_cases (c : Counter) : c.claim = (.refused, c) ∧ c.room = some 0 ∨
    (∃ c', c.claim = (.granted true, c') ∧ c.room = some 1) ∨
    ∃ c', c.claim = (.granted false, c') ∧ c.Counts c' := by
  obtain hL | ⟨L, hL⟩ := Option.eq_none_or_eq_some c.limit
  · exact .inr (.inr ⟨_, claim_of_unlimited hL, .inl (by simp [room, hL])⟩)
  · by_cases hlt : c.emitted < L
    · obtain ⟨b, c', hclaim⟩ : ∃ b c', c.claim = (.granted b, c') := ⟨_, _, claim_of_below hL hlt⟩
      obtain ⟨hroom, hone, hlast⟩ := emitted_of_granted hL hclaim
      cases b with
      | true =>
          have hfull := hlast.mp rfl
          exact .inr (.inl ⟨c', hclaim, room_eq hL (by omega)⟩)
      | false =>
          have hmore : c'.emitted.toNat ≠ L.toNat := mt hlast.mpr nofun
          have hbefore : L.toNat - c.emitted.toNat = L.toNat - c.emitted.toNat - 2 + 2 := by omega
          have hafter : L.toNat - c'.emitted.toNat = L.toNat - c.emitted.toNat - 2 + 1 := by omega
          exact .inr (.inr ⟨c', hclaim, .inr ⟨_, room_eq hL hbefore,
            room_eq ((limit_eq_of_granted hclaim).trans hL) hafter⟩⟩)
    · have hle := Nat.not_lt.mp (mt UInt64.lt_iff_toNat_lt.mpr hlt)
      exact .inl ⟨claim_of_full hL hlt, room_eq hL (Nat.sub_eq_zero_of_le hle)⟩

theorem not_usedUpBy_zero : ¬ c.UsedUpBy 0 := fun h ↦ nomatch h.1

theorem cut_nil : c.cut [] = [] := by
  unfold cut
  split
  · rfl
  · exact List.take_nil

theorem Counts.cut_cons (h : c.Counts c') (a : Record) (records : List Record) :
    c.cut (a :: records) = a :: c'.cut records := by
  obtain ⟨h, h'⟩ | ⟨k, h, h'⟩ := h
  · simp only [cut, h, h']
  · simp only [cut, h, h', List.take_succ_cons]

theorem Counts.usedUpBy_succ (h : c.Counts c') (m : Nat) :
    c.UsedUpBy (m + 1) ↔ c'.UsedUpBy m := by
  obtain ⟨h, h'⟩ | ⟨k, h, h'⟩ := h
  · simp [UsedUpBy, h, h']
  · simp only [UsedUpBy, h, h', Option.some.injEq, exists_eq_left']
    omega

end Counter

namespace Plan

variable {plan : Plan} {raw : RawRecord} {raws : List RawRecord}

/-- Whether the plan goes no further than an offset. -/
def isReached (plan : Plan) (offset : Offset) : Bool :=
  match plan.last with
  | some last => last ≤ offset
  | none => false

/-- The records up to the first one past the plan, and no further than the first one at its end. -/
def scope (plan : Plan) (raws : List RawRecord) : List RawRecord :=
  let within := raws.takeWhile fun raw ↦ !Worker.isPast plan raw.offset
  within.take (within.findIdx (plan.last = some ·.offset) + 1)

theorem isReached_iff : plan.isReached raw.offset = true ↔
    Worker.isPast plan raw.offset = true ∨ plan.last = some raw.offset := by
  unfold isReached Worker.isPast
  cases plan.last with
  | none => simp
  | some last =>
      rw [decide_eq_true_iff, decide_eq_true_iff, Option.some.injEq]
      exact Int64.le_iff_lt_or_eq

theorem scope_of_isPast (h : Worker.isPast plan raw.offset = true) :
    plan.scope (raw :: raws) = [] := by
  simp [scope, h]

theorem isPast_of_last (h : plan.last = some raw.offset) :
    Worker.isPast plan raw.offset = false := by
  simp [Worker.isPast, h]

theorem scope_of_last (h : plan.last = some raw.offset) : plan.scope (raw :: raws) = [raw] := by
  simp [scope, isPast_of_last h, h, List.findIdx_cons]

theorem scope_cons (hpast : Worker.isPast plan raw.offset = false)
    (hlast : plan.last ≠ some raw.offset) :
    plan.scope (raw :: raws) = raw :: plan.scope raws := by
  simp [scope, hpast, hlast, List.findIdx_cons]

end Plan

/-! ## Act by act -/

/-- What a worker has still to do, and how it ends. -/
structure Prospect where
  acts : List Act
  outcome : Outcome

namespace Prospect

def behind (acts : List Act) (next : Prospect) : Prospect := ⟨acts ++ next.acts, next.outcome⟩

def after (act : Act) (next : Prospect) : Prospect := behind [act] next

theorem behind_append (acts more : List Act) (next : Prospect) :
    behind (acts ++ more) next = behind acts (behind more next) := by
  rw [behind, List.append_assoc]
  rfl

def close (outcome : Outcome) : Prospect := ⟨[.closed], outcome⟩

@[simp] theorem mem_after {act a : Act} {next : Prospect} :
    a ∈ (after act next).acts ↔ a = act ∨ a ∈ next.acts := List.mem_cons

@[simp] theorem mem_close {a : Act} {outcome : Outcome} :
    a ∈ (close outcome).acts ↔ a = .closed := List.mem_singleton

/-- With a slot of the channel and a claim.  `onward` is what comes of the further records. -/
def sending (onward : Counter → Prospect) (c : Counter) (parcel : Parcel) (reachedLimit : Bool) :
    Prospect :=
  .after (.sent parcel.record) <|
    if reachedLimit then .after .announced (.close .limitReached)
    else if parcel.isLast then .close .completed
    else onward c

/-- With a slot of the channel. -/
def claiming (onward : Counter → Prospect) (c : Counter) (parcel : Parcel) : Prospect :=
  .after (.claimed c.claim.1) <|
    match c.claim with
    | (.refused, _) => .close .limitReached
    | (.granted reachedLimit, c) => sending onward c parcel reachedLimit

variable {κ : Type}

/-- From any phase on. -/
def of (plan : Plan) (onward : Counter → Prospect) (c : Counter) : Phase κ → Prospect
  | .opening => .after .opened (if plan.isEmpty then .close .completed else onward c)
  | .pulling _ => onward c
  | .reserving _ parcel => .after .reserved (claiming onward c parcel)
  | .claiming _ parcel => claiming onward c parcel
  | .sending _ parcel reachedLimit => sending onward c parcel reachedLimit
  | .announcing _ => .after .announced (.close .limitReached)
  | .closing _ outcome => .close outcome
  | .finished outcome => ⟨[], outcome⟩
  | .crashed => ⟨[], .panicked⟩

/-- From the first of these records on.  Behind them the cursor ends, or fails. -/
def script (job : Job) (p : PartitionId) (plan : Plan) (stop : Option Failure) :
    List RawRecord → Counter → Prospect
  | [], _ =>
    match stop with
    | none => .after .ended (.close .completed)
    | some f => .after (.failed ⟨p, .streaming, f⟩) (.close .errored)
  | raw :: raws, c =>
    .after (.pulled raw) (of plan (script job p plan stop raws) c
      (Worker.examine job (.start p plan) () raw))

/-- From the first turn of the worker on. -/
def whole (job : Job) (p : PartitionId) (plan : Plan) (stop : Option Failure)
    (raws : List RawRecord) (c : Counter) : Prospect :=
  .after .opened (if plan.isEmpty then .close .completed else script job p plan stop raws c)

theorem acts_script_ne_nil {job : Job} {p : PartitionId} {plan : Plan} {stop : Option Failure}
    {raws : List RawRecord} {c : Counter} : (script job p plan stop raws c).acts ≠ [] := by
  cases raws with
  | nil => cases stop <;> exact List.cons_ne_nil _ _
  | cons raw raws => exact List.cons_ne_nil _ _

/-! ## What that comes to -/

section Ends

variable {job : Job} {p : PartitionId} {plan : Plan} {c c' : Counter} {raw : RawRecord}
  {raws : List RawRecord} {stop : Option Failure} {e : Prospect}

variable (job plan c) in
/-- These records bring the worker to the end of its plan or use up the room. -/
def Decide (raws : List RawRecord) : Prop :=
  (∃ raw ∈ raws, plan.isReached raw.offset = true) ∨ c.UsedUpBy (job.shows plan raws).length

variable (job plan c raws) in
/-- The worker reads no further than to the record that decides how it ends. -/
structure ReadsTo (acts : List Act) : Prop where
  pulled : pulledIn acts <+: raws
  undecided (front : List RawRecord) (h : front <+: pulledIn acts) (hne : front ≠ pulledIn acts) :
    ¬ Decide job plan c front
  asked (h : .ended ∈ acts ∨ failedIn acts ≠ []) : pulledIn acts = raws ∧ ¬ Decide job plan c raws

variable (job p plan c raws stop) in
/-- What a worker sends of a script, how it ends, and how far it reads. -/
structure Concludes (e : Prospect) : Prop where
  sent : sentIn e.acts = c.cut (job.shows plan (plan.scope raws))
  limitReached (h : c.UsedUpBy (job.shows plan (plan.scope raws)).length) :
    e.outcome = .limitReached ∧ failedIn e.acts = []
  completed (h : ¬ c.UsedUpBy (job.shows plan (plan.scope raws)).length)
    (hend : (∃ raw ∈ raws, plan.isReached raw.offset = true) ∨ stop = none) :
    e.outcome = .completed ∧ failedIn e.acts = []
  errored {f : Failure} (h : ¬ c.UsedUpBy (job.shows plan (plan.scope raws)).length)
    (hend : ¬ ∃ raw ∈ raws, plan.isReached raw.offset = true) (hstop : stop = some f) :
    e.outcome = .errored ∧ failedIn e.acts = [⟨p, .streaming, f⟩]
  reads : ReadsTo job plan c raws e.acts

theorem not_decide_nil : ¬ Decide job plan c [] := by
  rintro (⟨raw, hraw, -⟩ | hused)
  · cases hraw
  · exact Counter.not_usedUpBy_zero hused

/-- A record that decides. -/
theorem readsTo_one {acts : List Act} (hpulled : pulledIn acts = [raw]) (hended : .ended ∉ acts)
    (hfailed : failedIn acts = []) : ReadsTo job plan c (raw :: raws) acts where
  pulled := hpulled ▸ List.prefix_append [raw] raws
  undecided front h hne := by
    rw [hpulled] at h hne
    cases front with
    | nil => exact not_decide_nil
    | cons r front =>
        obtain ⟨rfl, hnil⟩ := List.cons_prefix_cons.mp h
        exact absurd (congrArg _ (List.prefix_nil.mp hnil)) hne
  asked h := (h.elim hended (absurd hfailed)).elim

/-- A record that does not decide, and after which as much room is left as `c'` has. -/
structure Passes (job : Job) (plan : Plan) (c c' : Counter) (raw : RawRecord) : Prop where
  past : Worker.isPast plan raw.offset = false
  last : plan.last ≠ some raw.offset
  cut (records : List Record) : c.cut (job.shows plan [raw] ++ records) =
    job.shows plan [raw] ++ c'.cut records
  usedUpBy (m : Nat) : c.UsedUpBy ((job.shows plan [raw]).length + m) ↔ c'.UsedUpBy m

theorem shows_cons (job : Job) (plan : Plan) (raw : RawRecord) (raws : List RawRecord) :
    job.shows plan (raw :: raws) = job.shows plan [raw] ++ job.shows plan raws :=
  Job.shows_append [raw] raws

namespace Passes

variable (h : Passes job plan c c' raw)

include h

theorem isReached_eq : plan.isReached raw.offset = false := by
  rw [← Bool.not_eq_true, Plan.isReached_iff, h.past]
  simp [h.last]

theorem exists_reached_cons :
    (∃ r ∈ raw :: raws, plan.isReached r.offset = true) ↔
      ∃ r ∈ raws, plan.isReached r.offset = true := by
  simp [h.isReached_eq]

theorem decide_cons : Decide job plan c (raw :: raws) ↔ Decide job plan c' raws := by
  rw [Decide, Decide, h.exists_reached_cons, shows_cons, List.length_append, h.usedUpBy]

theorem shows_scope : job.shows plan (plan.scope (raw :: raws)) =
    job.shows plan [raw] ++ job.shows plan (plan.scope raws) := by
  rw [Plan.scope_cons h.past h.last, shows_cons]

theorem usedUpBy_scope : c.UsedUpBy (job.shows plan (plan.scope (raw :: raws))).length ↔
    c'.UsedUpBy (job.shows plan (plan.scope raws)).length := by
  rw [h.shows_scope, List.length_append, h.usedUpBy]

theorem readsTo_cons {acts acts' : List Act} (hreads : ReadsTo job plan c' raws acts)
    (hpulled : pulledIn acts' = raw :: pulledIn acts) (hended : .ended ∈ acts' → .ended ∈ acts)
    (hfailed : failedIn acts' = failedIn acts) : ReadsTo job plan c (raw :: raws) acts' where
  pulled := hpulled ▸ List.cons_prefix_cons.mpr ⟨rfl, hreads.pulled⟩
  undecided front hfront hne := by
    rw [hpulled] at hfront hne
    cases front with
    | nil => exact not_decide_nil
    | cons r front =>
        obtain ⟨rfl, hprefix⟩ := List.cons_prefix_cons.mp hfront
        rw [h.decide_cons]
        exact hreads.undecided front hprefix fun heq ↦ hne (congrArg _ heq)
  asked hasked := by
    rw [hfailed] at hasked
    rw [h.decide_cons, hpulled, List.cons.injEq]
    obtain ⟨heq, hnot⟩ := hreads.asked (hasked.imp_left hended)
    exact ⟨⟨rfl, heq⟩, hnot⟩

theorem concludes_cons {e' : Prospect} (hconcludes : Concludes job p plan c' raws stop e)
    (hsent : sentIn e'.acts = job.shows plan [raw] ++ sentIn e.acts)
    (houtcome : e'.outcome = e.outcome) (hpulled : pulledIn e'.acts = raw :: pulledIn e.acts)
    (hended : .ended ∈ e'.acts → .ended ∈ e.acts) (hfailed : failedIn e'.acts = failedIn e.acts) :
    Concludes job p plan c (raw :: raws) stop e' := by
  obtain ⟨sent, limitReached, completed, errored, reads⟩ := hconcludes
  refine ⟨?_, ?_, ?_, ?_, h.readsTo_cons reads hpulled hended hfailed⟩
  · rw [hsent, sent, h.shows_scope, h.cut]
  · rw [h.usedUpBy_scope, houtcome, hfailed]
    exact limitReached
  · rw [h.usedUpBy_scope, h.exists_reached_cons, houtcome, hfailed]
    exact completed
  · intro f
    rw [h.usedUpBy_scope, h.exists_reached_cons, houtcome, hfailed]
    exact errored

end Passes

theorem concludes_nil : Concludes job p plan c [] stop (script job p plan stop [] c) where
  sent := by
    rw [Plan.scope, List.takeWhile_nil, List.take_nil, Job.shows_nil, Counter.cut_nil]
    cases stop <;> rfl
  limitReached h := absurd h Counter.not_usedUpBy_zero
  completed _ hend := by
    obtain ⟨raw, hraw, -⟩ | rfl := hend
    · cases hraw
    · exact ⟨rfl, rfl⟩
  errored _ _ hstop := by
    subst hstop
    exact ⟨rfl, rfl⟩
  reads := by
    have hpulled : pulledIn (script job p plan stop [] c).acts = [] := by cases stop <;> rfl
    refine ⟨?_, fun front h hne ↦ ?_, fun _ ↦ ⟨hpulled, not_decide_nil⟩⟩
    · simp only [hpulled, List.nil_prefix]
    · rw [hpulled] at h hne
      exact absurd (List.prefix_nil.mp h) hne

/-- The end of the plan, reached with room left. -/
theorem concludes_reached {shown : List Record} (hreached : plan.isReached raw.offset = true)
    (hshown : job.shows plan (plan.scope (raw :: raws)) = shown) (hcut : c.cut shown = shown)
    (hroom : ¬ c.UsedUpBy shown.length) (hsent : sentIn e.acts = shown)
    (houtcome : e.outcome = .completed) (hpulled : pulledIn e.acts = [raw])
    (hended : .ended ∉ e.acts) (hfailed : failedIn e.acts = []) :
    Concludes job p plan c (raw :: raws) stop e where
  sent := by rw [hshown, hcut, hsent]
  limitReached h := absurd (hshown ▸ h) hroom
  completed _ _ := ⟨houtcome, hfailed⟩
  errored _ hend _ := absurd ⟨raw, List.mem_cons_self, hreached⟩ hend
  reads := readsTo_one hpulled hended hfailed

/-- The last of the room, or none. -/
theorem concludes_limit {a : Record} (hpast : Worker.isPast plan raw.offset = false)
    (hshown : job.shows plan [raw] = [a]) {k : Nat} (hroom : c.room = some k) (hk : k ≤ 1)
    (hsent : sentIn e.acts = [a].take k) (houtcome : e.outcome = .limitReached)
    (hpulled : pulledIn e.acts = [raw]) (hended : .ended ∉ e.acts)
    (hfailed : failedIn e.acts = []) : Concludes job p plan c (raw :: raws) stop e := by
  obtain ⟨more, hmore⟩ : ∃ more, plan.scope (raw :: raws) = raw :: more := by
    by_cases hlast : plan.last = some raw.offset
    · exact ⟨[], Plan.scope_of_last hlast⟩
    · exact ⟨plan.scope raws, Plan.scope_cons hpast hlast⟩
  have hall : job.shows plan (plan.scope (raw :: raws)) = a :: job.shows plan more := by
    rw [hmore, shows_cons, hshown]
    rfl
  have hused : c.UsedUpBy (job.shows plan (plan.scope (raw :: raws))).length := by
    rw [hall, List.length_cons]
    exact ⟨Nat.succ_pos _, k, hroom, by omega⟩
  refine ⟨?_, fun _ ↦ ⟨houtcome, hfailed⟩, fun h ↦ absurd hused h, fun h ↦ absurd hused h,
    readsTo_one hpulled hended hfailed⟩
  rw [hall, hsent]
  simp only [Counter.cut, hroom]
  obtain rfl | rfl := Nat.le_one_iff_eq_zero_or_eq_one.mp hk
  · rfl
  · rfl

theorem script_cons_cases (job : Job) (p : PartitionId) (plan : Plan) (stop : Option Failure)
    (raw : RawRecord) (raws : List RawRecord) (c : Counter) :
    Worker.isPast plan raw.offset = true ∧
      script job p plan stop (raw :: raws) c = .after (.pulled raw) (.close .completed) ∨
    (Worker.isPast plan raw.offset = false ∧ job.shows plan [raw] = [raw.decode job.decoder] ∧
      script job p plan stop (raw :: raws) c = .after (.pulled raw) (.after .reserved
        (claiming (script job p plan stop raws) c
          ⟨raw.decode job.decoder, plan.last = some raw.offset⟩))) ∨
    (Worker.isPast plan raw.offset = false ∧ job.shows plan [raw] = [] ∧
      script job p plan stop (raw :: raws) c = .after (.pulled raw)
        (if plan.last = some raw.offset then .close .completed
          else script job p plan stop raws c)) := by
  rw [script]
  obtain ⟨hpast, h⟩ | ⟨hpast, hadmits, h⟩ | ⟨hpast, hadmits, h⟩ :=
    Worker.examine_cases job (.start p plan) () raw
  · exact .inl ⟨hpast, congrArg _ (congrArg _ h)⟩
  · exact .inr (.inl ⟨hpast, Job.shows_of_admits hpast hadmits, congrArg _ (congrArg _ h)⟩)
  · refine .inr (.inr ⟨hpast, Job.shows_of_not_admits hadmits, ?_⟩)
    rw [h]
    by_cases hlast : plan.last = some raw.offset
    · simp [Worker.start, Worker.afterRecord, hlast, of]
    · simp [Worker.start, Worker.afterRecord, hlast, of]

theorem concludes_past (hpast : Worker.isPast plan raw.offset = true) :
    Concludes job p plan c (raw :: raws) stop (.after (.pulled raw) (.close .completed)) := by
  have hnone : job.shows plan (plan.scope (raw :: raws)) = [] := by
    rw [Plan.scope_of_isPast hpast]
    rfl
  exact concludes_reached (Plan.isReached_iff.mpr (.inl hpast)) hnone Counter.cut_nil
    Counter.not_usedUpBy_zero rfl rfl rfl (by simp) rfl

section Onward

variable (ih : ∀ c, Concludes job p plan c raws stop (script job p plan stop raws c))
  (hpast : Worker.isPast plan raw.offset = false)

include ih hpast

/-- A record that the filter does not let pass leaves the room as it is. -/
theorem concludes_hidden (hshown : job.shows plan [raw] = []) :
    Concludes job p plan c (raw :: raws) stop (.after (.pulled raw)
      (if plan.last = some raw.offset then .close .completed
        else script job p plan stop raws c)) := by
  by_cases hlast : plan.last = some raw.offset
  · have hnone : job.shows plan (plan.scope (raw :: raws)) = [] := by
      rw [Plan.scope_of_last hlast, hshown]
    rw [if_pos hlast]
    exact concludes_reached (Plan.isReached_iff.mpr (.inr hlast)) hnone Counter.cut_nil
      Counter.not_usedUpBy_zero rfl rfl rfl (by simp) rfl
  · have hpasses : Passes job plan c c raw := by
      refine ⟨hpast, hlast, fun records ↦ ?_, fun m ↦ ?_⟩
      · rw [hshown]
        rfl
      · rw [hshown, List.length_nil, Nat.zero_add]
    rw [if_neg hlast]
    refine hpasses.concludes_cons (ih c) ?_ rfl rfl ?_ rfl
    · rw [hshown]
      rfl
    · simp

variable (hshown : job.shows plan [raw] = [raw.decode job.decoder])

include hshown

/-- A claim that leaves room for more. -/
theorem concludes_counted (hcounts : c.Counts c') :
    Concludes job p plan c (raw :: raws) stop (.after (.pulled raw) (.after .reserved
      (.after (.claimed (.granted false)) (sending (script job p plan stop raws) c'
        ⟨raw.decode job.decoder, plan.last = some raw.offset⟩ false)))) := by
  by_cases hlast : plan.last = some raw.offset
  · have hone : job.shows plan (plan.scope (raw :: raws)) = [raw.decode job.decoder] := by
      rw [Plan.scope_of_last hlast, hshown]
    have hcut : c.cut [raw.decode job.decoder] = [raw.decode job.decoder] := by
      rw [hcounts.cut_cons, Counter.cut_nil]
    have hroom : ¬ c.UsedUpBy 1 := (hcounts.usedUpBy_succ 0).not.mpr Counter.not_usedUpBy_zero
    simp only [sending, hlast, decide_true, if_true, Bool.false_eq_true, if_false]
    exact concludes_reached (Plan.isReached_iff.mpr (.inr hlast)) hone hcut hroom rfl rfl rfl
      (by simp) rfl
  · have hpasses : Passes job plan c c' raw := by
      refine ⟨hpast, hlast, fun records ↦ ?_, fun m ↦ ?_⟩
      · rw [hshown]
        exact hcounts.cut_cons _ records
      · rw [hshown, List.length_singleton, Nat.add_comm]
        exact hcounts.usedUpBy_succ m
    simp only [sending, hlast, decide_false, Bool.false_eq_true, if_false]
    refine hpasses.concludes_cons (ih c') ?_ rfl rfl ?_ rfl
    · rw [hshown]
      rfl
    · simp

theorem concludes_shown :
    Concludes job p plan c (raw :: raws) stop (.after (.pulled raw) (.after .reserved
      (claiming (script job p plan stop raws) c
        ⟨raw.decode job.decoder, plan.last = some raw.offset⟩))) := by
  obtain ⟨hclaim, hroom⟩ | ⟨c', hclaim, hroom⟩ | ⟨c', hclaim, hcounts⟩ := c.claim_cases
  · simp only [claiming, hclaim]
    exact concludes_limit hpast hshown hroom (Nat.zero_le 1) rfl rfl rfl
      (by simp) rfl
  · simp only [claiming, hclaim, sending, if_true]
    exact concludes_limit hpast hshown hroom (Nat.le_refl 1) rfl rfl rfl
      (by simp) rfl
  · simp only [claiming, hclaim]
    exact concludes_counted ih hpast hshown hcounts

end Onward

/-- What follows from a script, from whatever room is left. -/
theorem concludes_script (job : Job) (p : PartitionId) (plan : Plan) (stop : Option Failure)
    (raws : List RawRecord) (c : Counter) :
    Concludes job p plan c raws stop (script job p plan stop raws c) := by
  induction raws generalizing c with
  | nil => exact concludes_nil
  | cons raw raws ih =>
      obtain ⟨hpast, h⟩ | ⟨hpast, hshown, h⟩ | ⟨hpast, hshown, h⟩ :=
        script_cons_cases job p plan stop raw raws c
      · exact h ▸ concludes_past hpast
      · exact h ▸ concludes_shown ih hpast hshown
      · exact h ▸ concludes_hidden ih hpast hshown

theorem whole_of_isEmpty (h : plan.isEmpty = true) :
    whole job p plan stop raws c = ⟨[.opened, .closed], .completed⟩ := by
  rw [whole, if_pos h]
  rfl

theorem concludes_whole (h : plan.isEmpty = false) :
    Concludes job p plan c raws stop (whole job p plan stop raws c) := by
  have hwhole : whole job p plan stop raws c = .after .opened (script job p plan stop raws c) := by
    rw [whole, h]
    rfl
  obtain ⟨sent, limitReached, completed, errored, pulled, undecided, asked⟩ :=
    concludes_script job p plan stop raws c
  rw [hwhole]
  refine ⟨sent, limitReached, completed, errored, pulled, undecided, fun hasked ↦ asked ?_⟩
  exact hasked.imp_left fun hended ↦ by simpa using hended

end Ends

end Prospect
end TopicView
