import TopicView.Proofs.Read.Course
import TopicView.Proofs.Read.Start

/-!
# From the cursor to the channel

A worker sends what its job shows of the records that its cursor yields, in their order.  Between
the two there is at most one record in hand, and only a stop loses it.
-/

namespace TopicView

/-- The records that do not lie past the plan, decoded, as far as the filter lets them pass. -/
def Job.shows (job : Job) (plan : Plan) (raws : List RawRecord) : List Record :=
  ((raws.filter fun raw ↦ !Worker.isPast plan raw.offset).map (·.decode job.decoder)).filter
    fun a ↦ admits job.filter a.key a.value

namespace Job

variable {job : Job} {plan : Plan} {raw : RawRecord}

@[simp] theorem shows_nil : job.shows plan [] = [] := rfl

theorem shows_append (raws more : List RawRecord) :
    job.shows plan (raws ++ more) = job.shows plan raws ++ job.shows plan more := by
  simp [shows]

theorem shows_prefix {raws more : List RawRecord} (h : raws <+: more) :
    job.shows plan raws <+: job.shows plan more := by
  obtain ⟨rest, rfl⟩ := h
  rw [shows_append]
  exact List.prefix_append _ _

theorem shows_of_isPast (h : Worker.isPast plan raw.offset = true) :
    job.shows plan [raw] = [] := by
  simp [shows, h]

theorem shows_of_admits (h : Worker.isPast plan raw.offset = false)
    (hadmits :
      admits job.filter (raw.decode job.decoder).key (raw.decode job.decoder).value = true) :
    job.shows plan [raw] = [raw.decode job.decoder] := by
  simp [shows, h, hadmits]

theorem shows_of_not_admits
    (hadmits :
      admits job.filter (raw.decode job.decoder).key (raw.decode job.decoder).value = false) :
    job.shows plan [raw] = [] := by
  cases h : Worker.isPast plan raw.offset <;> simp [shows, h, hadmits]

theorem mem_shows {raws : List RawRecord} {a : Record} :
    a ∈ job.shows plan raws ↔ ∃ raw ∈ raws, Worker.isPast plan raw.offset = false ∧
      raw.decode job.decoder = a ∧ admits job.filter a.key a.value = true := by
  simp only [shows, List.mem_filter, List.mem_map, Bool.not_eq_true']
  constructor
  · rintro ⟨⟨raw, ⟨hmem, hpast⟩, rfl⟩, hadmits⟩
    exact ⟨raw, hmem, hpast, rfl, hadmits⟩
  · rintro ⟨raw, hmem, hpast, rfl, hadmits⟩
    exact ⟨⟨raw, ⟨hmem, hpast⟩, rfl⟩, hadmits⟩

theorem shows_eq_map {raws : List RawRecord} (hfilter : job.filter = none)
    (h : ∀ raw ∈ raws, Worker.isPast plan raw.offset = false) :
    job.shows plan raws = raws.map (·.decode job.decoder) := by
  have hall : raws.filter (fun raw ↦ !Worker.isPast plan raw.offset) = raws :=
    List.filter_eq_self.mpr fun raw hraw ↦ by simp [h raw hraw]
  rw [shows, hall, List.filter_eq_self]
  intro a _
  simp [admits, hfilter]

theorem shows_eq_nil {raws : List RawRecord}
    (h : ∀ raw ∈ raws, Worker.isPast plan raw.offset = true) : job.shows plan raws = [] := by
  refine List.eq_nil_iff_forall_not_mem.mpr fun a ha ↦ ?_
  obtain ⟨raw, hmem, hpast, -, -⟩ := mem_shows.mp ha
  simp [h raw hmem] at hpast

theorem pairwise_shows {raws : List RawRecord}
    (h : raws.Pairwise fun a b ↦ a.offset < b.offset) :
    (job.shows plan raws).Pairwise fun a b ↦ a.offset < b.offset := by
  have hmap : ((raws.filter fun raw ↦ !Worker.isPast plan raw.offset).map
      (·.decode job.decoder)).Pairwise fun a b ↦ a.offset < b.offset :=
    List.pairwise_map.mpr (h.filter _)
  exact hmap.filter _

end Job

/-! ## The acts of one worker -/

namespace Act

def pulledIn (acts : List Act) : List RawRecord := acts.filterMap raw?

def sentIn (acts : List Act) : List Record := acts.filterMap record?

def failedIn (acts : List Act) : List PartitionFailure := acts.filterMap failure?

theorem mem_pulledIn {acts : List Act} {raw : RawRecord} :
    raw ∈ pulledIn acts ↔ .pulled raw ∈ acts := by
  simp only [pulledIn, List.mem_filterMap]
  constructor
  · rintro ⟨a, ha, hraw⟩
    cases a <;> simp_all [raw?]
  · exact fun h ↦ ⟨_, h, rfl⟩

theorem filterMap_step {β : Type} (q : Act → Option β) (acts : List Act) (act : Option Act) :
    (acts ++ act.toList).filterMap q = acts.filterMap q ++ (act.bind q).toList := by
  cases act with
  | none => simp
  | some a => cases h : q a <;> simp [h]

theorem pulledIn_step (acts : List Act) (act : Option Act) :
    pulledIn (acts ++ act.toList) = pulledIn acts ++ (act.bind raw?).toList :=
  filterMap_step raw? acts act

theorem sentIn_step (acts : List Act) (act : Option Act) :
    sentIn (acts ++ act.toList) = sentIn acts ++ (act.bind record?).toList :=
  filterMap_step record? acts act

theorem failedIn_step (acts : List Act) (act : Option Act) :
    failedIn (acts ++ act.toList) = failedIn acts ++ (act.bind failure?).toList :=
  filterMap_step failure? acts act

end Act

open Act

namespace Worker

variable {σ κ : Type} {client : Client σ κ} {job : Job} {s s' : σ} {sh sh' : Shared}
  {w w' : Worker κ} {acts acts' : List Act} {act : Option Act}

/-- The record that the worker has pulled and not yet sent. -/
def inHand (w : Worker κ) : List Record := (w.phase.parcel?.map Parcel.record).toList

/-- The worker has been told to stop before the end of its plan. -/
def IsStopped (w : Worker κ) : Prop :=
  w.phase.outcome? = some .limitReached ∨ w.phase.outcome? = some .cancelled

/-- What has been sent and what is in hand is what the job shows of the records pulled. -/
structure Relays (job : Job) (acts : List Act) (w : Worker κ) : Prop where
  within : sentIn acts ++ w.inHand <+: job.shows w.plan (pulledIn acts)
  whole : ¬ w.IsStopped → sentIn acts ++ w.inHand = job.shows w.plan (pulledIn acts)

theorem relays_start (job : Job) (p : PartitionId) (plan : Plan) :
    (start p plan : Worker κ).Relays job [] :=
  ⟨List.prefix_rfl, fun _ ↦ rfl⟩

theorem Relays.congr (h : w.Relays job acts) (hplan : w'.plan = w.plan)
    (hpulled : pulledIn acts' = pulledIn acts)
    (hsent : sentIn acts' ++ w'.inHand = sentIn acts ++ w.inHand)
    (hstopped : w.IsStopped → w'.IsStopped) : w'.Relays job acts' := by
  refine ⟨?_, fun hgoing ↦ ?_⟩
  · rw [hplan, hpulled, hsent]
    exact h.within
  · rw [hplan, hpulled, hsent]
    exact h.whole (fun hs ↦ hgoing (hstopped hs))

/-- A stop may lose the record in hand. -/
theorem Relays.stop (h : w.Relays job acts) (hplan : w'.plan = w.plan)
    (hpulled : pulledIn acts' = pulledIn acts) (hsent : sentIn acts' = sentIn acts)
    (hempty : w'.inHand = []) (hstopped : w'.IsStopped) : w'.Relays job acts' := by
  refine ⟨?_, fun hgoing ↦ (hgoing hstopped).elim⟩
  rw [hplan, hpulled, hsent, hempty, List.append_nil]
  exact (List.prefix_append _ _).trans h.within

theorem Relays.step (h : w.Relays job acts) (hstep : w.Step client job s sh act s' sh' w') :
    w'.Relays job (acts ++ act.toList) := by
  cases hstep
  case idle => simpa using h
  case pulled cursor cursor' raw phase live answer =>
    have hgoing : ¬ w.IsStopped := by simp [IsStopped, phase, Phase.outcome?]
    have hsent : sentIn acts = job.shows w.plan (pulledIn acts) := by
      simpa [inHand, phase, Phase.parcel?] using h.whole hgoing
    have hshown : (w.go (examine job w cursor' raw)).inHand = job.shows w.plan [raw] := by
      by_cases hpast : isPast w.plan raw.offset = true
      · simp [Job.shows_of_isPast hpast, examine, hpast, inHand, go, Phase.parcel?]
      · rw [Bool.not_eq_true] at hpast
        cases hadmits : admits job.filter (raw.decode job.decoder).key
            (raw.decode job.decoder).value with
        | true =>
            simp [Job.shows_of_admits hpast hadmits, examine, hpast, hadmits, inHand, go,
              Phase.parcel?]
        | false => simp [Job.shows_of_not_admits hadmits, examine, hpast, hadmits, inHand, go]
    have heq : sentIn (acts ++ (some (Act.pulled raw)).toList) ++
        (w.go (examine job w cursor' raw)).inHand =
          job.shows w.plan (pulledIn (acts ++ (some (Act.pulled raw)).toList)) := by
      rw [sentIn_step, pulledIn_step, hshown, Job.shows_append, hsent]
      simp [record?, raw?]
    exact ⟨heq ▸ List.prefix_rfl, fun _ ↦ heq⟩
  case stopReserving cursor parcel phase stop =>
    exact h.stop rfl (by rw [pulledIn_step]; simp [raw?])
      (by rw [sentIn_step]; simp [record?]) rfl (Or.inr rfl)
  case refused cursor parcel counter phase answer =>
    exact h.stop rfl (by rw [pulledIn_step]; simp [raw?])
      (by rw [sentIn_step]; simp [record?]) rfl (Or.inl rfl)
  case sent cursor parcel b phase =>
    refine h.congr rfl (by rw [pulledIn_step]; simp [raw?]) ?_ fun hs ↦ ?_
    · rw [sentIn_step]
      simp [record?, inHand, phase]
      simp [Phase.parcel?]
    · cases b with
      | true => exact Or.inl rfl
      | false => simp [IsStopped, phase, Phase.outcome?] at hs
  all_goals
    refine h.congr rfl (by rw [pulledIn_step]; simp [raw?]) ?_ ?_
    · rw [sentIn_step]
      simp_all [record?, inHand, go]
      try simp [Phase.parcel?]
    · simp_all [IsStopped, go, Phase.outcome?]

/-- A worker that has come to its end without being stopped has sent all that its job shows. -/
theorem Relays.sentIn_eq (h : w.Relays job acts) {outcome : Outcome}
    (hout : w.phase.outcome? = some outcome) (hgoing : ¬ w.IsStopped) :
    sentIn acts = job.shows w.plan (pulledIn acts) := by
  have hempty : w.inHand = [] := by
    cases hphase : w.phase with
    | sending cursor parcel reachedLimit =>
        cases reachedLimit with
        | true => exact (hgoing (Or.inl (by rw [hphase]; rfl))).elim
        | false =>
            rw [hphase] at hout
            cases hout
    | _ => simp_all [inHand, Phase.outcome?, Phase.parcel?]
  have hwhole := h.whole hgoing
  rwa [hempty, List.append_nil] at hwhole

theorem Relays.partition_eq (h : w.Relays job acts)
    (hown : ∀ raw ∈ pulledIn acts, raw.partition = w.partition) {a : Record}
    (ha : a ∈ sentIn acts) : a.partition = w.partition := by
  have hshown := h.within.subset (List.mem_append_left _ ha)
  obtain ⟨raw, hraw, -, rfl, -⟩ := Job.mem_shows.mp hshown
  exact hown raw hraw

end Worker

/-! ## In a course -/

namespace Deed

def actOf? (i : Nat) : Deed → Option Act
  | act j a => if j = i then some a else none
  | _ => none

/-- What a deed shows as the act of a worker. -/
def shown? {β : Type} (q : Act → Option β) : Deed → Option β
  | act _ a => q a
  | _ => none

end Deed

namespace Stage

variable {σ κ δ : Type} {client : Client σ κ} {alter : δ → σ → σ} {x y : Stage σ κ}

def actsOf (x : Stage σ κ) (i : Nat) : List Act := x.history.filterMap (Deed.actOf? i)

theorem actsOf_after_self {i : Nat} {act : Option Act} {s : σ} {sh : Shared} {w : Worker κ} :
    (x.after i act s sh w).actsOf i = x.actsOf i ++ act.toList := by
  cases act <;> simp [actsOf, after, Deed.actOf?]

theorem actsOf_after_ne {i j : Nat} (hij : i ≠ j) {act : Option Act} {s : σ} {sh : Shared}
    {w : Worker κ} : (x.after i act s sh w).actsOf j = x.actsOf j := by
  cases act <;> simp [actsOf, after, Deed.actOf?, hij]

@[simp] theorem actsOf_note {i : Nat} {s : σ} {r : Read κ} {deed : Deed} :
    (x.note s r deed).actsOf i = x.actsOf i ++ (deed.actOf? i).toList := by
  cases h : deed.actOf? i <;> simp [actsOf, note, h]

/-- Something holds of every worker and its own acts. -/
def Each (P : List Act → Worker κ → Prop) (x : Stage σ κ) : Prop :=
  ∀ i w, x.read.workers[i]? = some w → P (x.actsOf i) w

theorem Each.imp {P Q : List Act → Worker κ → Prop} (h : x.Each P)
    (himp : ∀ acts w, P acts w → Q acts w) : x.Each Q :=
  fun i w hw ↦ himp _ w (h i w hw)

theorem each_start {P : List Act → Worker κ → Prop} {s : σ} {settings : ReaderSettings}
    {decoder : Decoder} {request : Request} {cancelled : Bool}
    {ranges : List (PartitionId × Offsets)} {r : Read κ}
    (h : Launched client s settings decoder request cancelled ranges r)
    (hstart : ∀ p plan, P [] (.start p plan)) : (start s r).Each P := by
  intro i w hw
  rw [h.eq_start (List.mem_of_getElem? hw)]
  exact hstart _ _

theorem Each.after {P : List Act → Worker κ → Prop} (h : x.Each P) {i : Nat} {w w' : Worker κ}
    {act : Option Act} {s : σ} {sh : Shared} (hw : x.read.workers[i]? = some w)
    (hnew : P (x.actsOf i) w → P (x.actsOf i ++ act.toList) w') :
    (x.after i act s sh w').Each P := by
  intro j v hv
  by_cases hij : i = j
  · subst hij
    obtain rfl : w' = v := by
      simpa [Stage.after, List.getElem?_set_self (List.getElem?_eq_some_iff.mp hw).1] using hv
    rw [actsOf_after_self]
    exact hnew (h i w hw)
  · rw [actsOf_after_ne hij]
    exact h j v (by simpa [Stage.after, List.getElem?_set_ne hij] using hv)

theorem Each.note {P : List Act → Worker κ → Prop} (h : x.Each P) {s : σ} {r : Read κ}
    {deed : Deed} (hworkers : r.workers = x.read.workers) (hdeed : ∀ i, deed.actOf? i = none) :
    (x.note s r deed).Each P := by
  intro i w hw
  rw [actsOf_note, hdeed]
  simpa using h i w (hworkers ▸ hw)

theorem Each.next {P : List Act → Worker κ → Prop} (h : x.Each P)
    (hkeep : ∀ {acts act w w' s' sh'},
      w.Step client x.read.job x.state x.read.shared act s' sh' w' → P acts w →
        P (acts ++ act.toList) w')
    {m : Move δ} (hm : x.Next client alter m y) : y.Each P := by
  cases hm
  case unchanged => exact h
  case worked hw hstep => exact h.after hw (hkeep hstep)
  all_goals exact h.note rfl fun _ ↦ rfl

theorem map_set_of_eq {α β : Type} {f : α → β} {l : List α} {i : Nat} {a b : α}
    (h : l[i]? = some a) (hf : f b = f a) : (l.set i b).map f = l.map f := by
  refine List.ext_getElem? fun j ↦ ?_
  rw [List.getElem?_map, List.getElem?_map]
  by_cases hij : i = j
  · subst hij
    rw [List.getElem?_set_self (List.getElem?_eq_some_iff.mp h).1, h]
    simp [hf]
  · rw [List.getElem?_set_ne hij]

/-- The job and the plans stay, and only workers that are there act. -/
structure Framed (r : Read κ) (x : Stage σ κ) : Prop where
  job_eq : x.read.job = r.job
  plans_eq : x.read.plans = r.plans
  present : ∀ i a, .act i a ∈ x.history → i < x.read.workers.length

theorem framed_start (s : σ) (r : Read κ) : (start s r).Framed r :=
  ⟨rfl, rfl, fun _ _ h ↦ nomatch h⟩

theorem Framed.next {r : Read κ} (h : x.Framed r) {m : Move δ} (hm : x.Next client alter m y) :
    y.Framed r := by
  cases hm
  case unchanged => exact h
  case worked i w w' act s sh hw hstep =>
    have hi := (List.getElem?_eq_some_iff.mp hw).1
    refine ⟨h.job_eq, ?_, fun j a hdeed ↦ ?_⟩
    · have hsame : (w'.partition, w'.plan) = (w.partition, w.plan) := by
        rw [hstep.partition_eq, hstep.plan_eq]
      rw [← h.plans_eq]
      exact map_set_of_eq hw hsame
    · simp only [after, List.length_set]
      rcases List.mem_append.mp hdeed with hdeed | hdeed
      · exact h.present j a hdeed
      · cases act with
        | none => simp at hdeed
        | some b =>
            obtain ⟨rfl, -⟩ : j = i ∧ a = b := by simpa using hdeed
            exact hi
  all_goals
    refine ⟨h.job_eq, h.plans_eq, fun j a hdeed ↦ ?_⟩
    exact h.present j a (by simpa [note] using hdeed)

theorem framed_play (client : Client σ κ) (alter : δ → σ → σ) (s : σ) (r : Read κ)
    (moves : List (Move δ)) : ((start s r).play client alter moves).Framed r :=
  play_keeps client alter (start s r) (framed_start s r) moves
    fun _ m _ hy ↦ hy.next (next_step alter m)

theorem mem_actsOf {i : Nat} {a : Act} : a ∈ x.actsOf i ↔ .act i a ∈ x.history := by
  simp only [actsOf, List.mem_filterMap]
  constructor
  · rintro ⟨deed, hdeed, hact⟩
    cases deed <;> simp only [Deed.actOf?, reduceCtorEq] at hact
    split at hact
    · next hj =>
        obtain rfl := Option.some.inj hact
        exact hj ▸ hdeed
    · cases hact
  · exact fun h ↦ ⟨_, h, by simp [Deed.actOf?]⟩

theorem filter_shown_eq {β : Type} {q : Act → Option β} {key : β → PartitionId}
    {history : List Deed} {i : Nat} {p : PartitionId}
    (h : ∀ j a b, .act j a ∈ history → q a = some b → (key b = p ↔ j = i)) :
    (history.filterMap (Deed.shown? q)).filter (key · = p) =
      (history.filterMap (Deed.actOf? i)).filterMap q := by
  induction history with
  | nil => rfl
  | cons deed rest ih =>
      have hrest := ih fun j a b hmem ↦ h j a b (List.mem_cons_of_mem deed hmem)
      cases deed with
      | act j a =>
          cases hb : q a with
          | none => by_cases hj : j = i <;> simp [Deed.shown?, Deed.actOf?, hb, hj, hrest]
          | some b =>
              have hiff := h j a b List.mem_cons_self hb
              by_cases hj : j = i
              · have hp := hiff.mpr hj
                simp [Deed.shown?, Deed.actOf?, hb, hj, hp, hrest]
              · have hp : ¬ key b = p := fun hp ↦ hj (hiff.mp hp)
                simp [Deed.shown?, Deed.actOf?, hb, hj, hp, hrest]
      | _ => rwa [List.filterMap_cons_none rfl, List.filterMap_cons_none rfl]

/-- Where the partitions are distinct and what a worker shows is of its own partition, what is shown
of a partition is what its worker has shown. -/
theorem shownFrom_eq {β : Type} {q : Act → Option β} {key : β → PartitionId} {r : Read κ}
    (hf : x.Framed r) (hdistinct : (r.plans.map Prod.fst).Nodup)
    (hown : x.Each fun acts w ↦ ∀ b ∈ acts.filterMap q, key b = w.partition) {i : Nat}
    {w : Worker κ} (hw : x.read.workers[i]? = some w) :
    (x.history.filterMap (Deed.shown? q)).filter (key · = w.partition) =
      (x.actsOf i).filterMap q := by
  refine filter_shown_eq fun j a b hdeed hb ↦ ?_
  obtain ⟨v, hv⟩ : ∃ v, x.read.workers[j]? = some v :=
    ⟨_, List.getElem?_eq_getElem (hf.present j _ hdeed)⟩
  have hkey : key b = v.partition :=
    hown j v hv b (List.mem_filterMap.mpr ⟨a, mem_actsOf.mpr hdeed, hb⟩)
  rw [hkey]
  constructor
  · intro hsame
    rw [← hf.plans_eq] at hdistinct
    have hj : (x.read.plans.map Prod.fst)[j]? = some v.partition := by simp [Read.plans, hv]
    have hi : (x.read.plans.map Prod.fst)[i]? = some w.partition := by simp [Read.plans, hw]
    have hlt := (List.getElem?_eq_some_iff.mp hj).1
    exact (List.getElem?_inj hlt hdistinct).mp (by rw [hi, hj, hsame])
  · rintro rfl
    rw [Option.some.inj (hw.symm.trans hv)]

theorem sent_eq_shown : x.sent = x.history.filterMap (Deed.shown? record?) := rfl

/-- Where the partitions are distinct and every worker sends records of its own, the records of a
partition are those that its worker has sent. -/
theorem sentFrom_eq {r : Read κ} (hf : x.Framed r) (hdistinct : (r.plans.map Prod.fst).Nodup)
    (hown : x.Each fun acts w ↦ ∀ a ∈ sentIn acts, a.partition = w.partition) {i : Nat}
    {w : Worker κ} (hw : x.read.workers[i]? = some w) :
    x.sentFrom w.partition = sentIn (x.actsOf i) := by
  rw [sentFrom, sent_eq_shown]
  exact shownFrom_eq hf hdistinct hown hw

/-- What is shown was shown by a worker. -/
theorem exists_worker_of_shown {β : Type} {q : Act → Option β} {r : Read κ} (hf : x.Framed r)
    {b : β} (hb : b ∈ x.history.filterMap (Deed.shown? q)) :
    ∃ i w, x.read.workers[i]? = some w ∧ b ∈ (x.actsOf i).filterMap q := by
  obtain ⟨deed, hdeed, hshown⟩ := List.mem_filterMap.mp hb
  cases deed <;> simp only [Deed.shown?, reduceCtorEq] at hshown
  next i a =>
    exact ⟨i, _, List.getElem?_eq_getElem (hf.present i a hdeed),
      List.mem_filterMap.mpr ⟨a, mem_actsOf.mpr hdeed, hshown⟩⟩

theorem mem_partitions_of_sent {r : Read κ} (hf : x.Framed r)
    (hown : x.Each fun acts w ↦ ∀ a ∈ sentIn acts, a.partition = w.partition) {a : Record}
    (ha : a ∈ x.sent) : a.partition ∈ r.plans.map Prod.fst := by
  obtain ⟨i, w, hw, hsent⟩ := exists_worker_of_shown hf (sent_eq_shown ▸ ha)
  rw [hown i w hw a hsent, ← hf.plans_eq]
  exact List.mem_map_of_mem (f := Prod.fst) (List.mem_map_of_mem (List.mem_of_getElem? hw))

end Stage
end TopicView
