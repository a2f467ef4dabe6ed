import TopicView.Proofs.Read.Event
import TopicView.Proofs.Read.Relay

/-!
# Reads with another decoder

A read whose filter does not look at values goes the same way with every decoder.  If `f` turns the
records of one decoder into those of another one, it turns each step, each course and each summary
of a read with the first decoder into that with the second.
-/

namespace TopicView

/-- `f` turns what `d` makes of a record into what `d'` makes of it, and the filter decides the
same of both. -/
structure Recodes (filter : Option Filter) (d d' : Decoder) (f : Record → Record) : Prop where
  decode_eq : ∀ raw : RawRecord, f (raw.decode d) = raw.decode d'
  admits_eq : ∀ raw : RawRecord, admits filter (raw.decode d').key (raw.decode d').value =
    admits filter (raw.decode d).key (raw.decode d).value

variable {σ κ δ : Type} {f : Record → Record} {d d' : Decoder}

def Parcel.map (f : Record → Record) (p : Parcel) : Parcel := { p with record := f p.record }

def Phase.map (f : Record → Record) : Phase κ → Phase κ
  | .reserving c p => .reserving c (p.map f)
  | .claiming c p => .claiming c (p.map f)
  | .sending c p reachedLimit => .sending c (p.map f) reachedLimit
  | phase => phase

def Worker.map (f : Record → Record) (w : Worker κ) : Worker κ := w.go (w.phase.map f)

def Channel.map (f : Record → Record) (ch : Channel) : Channel :=
  { ch with queue := ch.queue.map f }

def Shared.map (f : Record → Record) (sh : Shared) : Shared :=
  { sh with channel := sh.channel.map f }

def Job.recode (d' : Decoder) (job : Job) : Job := { job with decoder := d' }

def Turn.map (f : Record → Record) (t : Turn σ κ) : Turn σ κ :=
  { t with shared := t.shared.map f, worker := t.worker.map f }

def Act.map (f : Record → Record) : Act → Act
  | .sent a => .sent (f a)
  | act => act

def Read.map (f : Record → Record) (d' : Decoder) (r : Read κ) : Read κ where
  job := r.job.recode d'
  shared := r.shared.map f
  workers := r.workers.map (·.map f)
  reports := r.reports

def Answer.map {α β : Type} (f : α → β) : Answer α → Answer β
  | .item a => .item (f a)
  | .pending => .pending
  | .closed => .closed

section Shared

variable (sh : Shared) (ch : Channel)

@[simp] theorem Channel.hasRoom_map : (ch.map f).hasRoom = ch.hasRoom := by
  simp [hasRoom, map]

@[simp] theorem Channel.reserve_map : (ch.map f).reserve = ch.reserve.map f := rfl

@[simp] theorem Channel.release_map : (ch.map f).release = ch.release.map f := rfl

@[simp] theorem Channel.send_map (a : Record) : (ch.map f).send (f a) = (ch.send a).map f := by
  cases h : ch.receiving <;> simp [send, map, h]

@[simp] theorem Channel.hangUp_map : (ch.map f).hangUp = ch.hangUp.map f := rfl

@[simp] theorem Shared.report_map (failure : PartitionFailure) :
    (sh.map f).report failure = (sh.report failure).map f := by
  have hlistens : (sh.map f).channel.receiving = sh.channel.receiving := rfl
  rw [report, report, hlistens]
  split <;> rfl

@[simp] theorem Shared.cancel_map : (sh.map f).cancel = sh.cancel.map f := rfl

end Shared

namespace Worker

variable {client : Client σ κ} {job : Job} {s : σ} {sh : Shared} {w : Worker κ}

theorem map_afterRecord (c : κ) (isLast : Bool) :
    (afterRecord c isLast).map f = afterRecord c isLast := by
  rcases afterRecord_cases c isLast with ⟨-, h⟩ | ⟨-, h⟩ <;> rw [h] <;> rfl

theorem examine_map (hf : Recodes job.filter job.decoder d' f) (w : Worker κ) (c : κ)
    (raw : RawRecord) :
    examine (job.recode d') (w.map f) c raw = (examine job w c raw).map f := by
  have hadmits := hf.admits_eq raw
  have hplan : (w.map f).plan = w.plan := rfl
  rcases examine_cases job w c raw with ⟨hpast, h⟩ | ⟨hpast, hpass, h⟩ | ⟨hpast, hpass, h⟩
  · rw [h, examine, hplan, if_pos hpast]
    rfl
  · rw [hpass] at hadmits
    rw [h, examine, hplan, hpast]
    simp only [Bool.false_eq_true, ↓reduceIte, Job.recode, hadmits, Phase.map, Parcel.map,
      hf.decode_eq]
  · rw [hpass] at hadmits
    rw [h, examine, hplan, hpast, map_afterRecord]
    simp only [Bool.false_eq_true, ↓reduceIte, Job.recode, hadmits]

theorem map_afterSending (c : κ) (parcel : Parcel) (reachedLimit : Bool) :
    (afterSending c parcel reachedLimit).map f = afterSending c (parcel.map f) reachedLimit := by
  cases reachedLimit with
  | true => rfl
  | false => exact map_afterRecord c parcel.isLast

theorem map_afterOpening (w : Worker κ) (c : κ) : (w.afterOpening c).map f = w.afterOpening c := by
  rcases afterOpening_cases w c with ⟨-, h⟩ | ⟨-, h⟩ <;> rw [h] <;> rfl

/-- A turn does to the mapped worker what it does to the worker. -/
theorem turn_map (hf : Recodes job.filter job.decoder d' f) (client : Client σ κ) (s : σ)
    (sh : Shared) (w : Worker κ) :
    (w.map f).turn client (job.recode d') s (sh.map f) = (w.turn client job s sh).map f := by
  obtain ⟨p, plan, emitted, phase⟩ := w
  have hcancelled : (sh.map f).cancelled = sh.cancelled := rfl
  cases phase with
  | opening =>
      change turn client (job.recode d') s (sh.map f) ⟨p, plan, emitted, .opening⟩ = _
      simp only [turn, Job.recode, hcancelled]
      split
      · rfl
      · rcases client.openCursor s ⟨job.topic, p⟩ plan.start (!plan.isBounded) with ⟨answer, s'⟩
        cases answer with
        | opened c =>
            exact congrArg
              (fun phase ↦ (⟨s', sh.map f, ⟨p, plan, emitted, phase⟩, true⟩ : Turn σ κ))
              (map_afterOpening ⟨p, plan, emitted, .opening⟩ c).symm
        | failed e =>
            simp only [Shared.report_map]
            rfl
        | waiting => rfl
        | crashed => rfl
  | pulling c =>
      change turn client (job.recode d') s (sh.map f) ⟨p, plan, emitted, .pulling c⟩ = _
      simp only [turn, hcancelled]
      split
      · rfl
      · rcases client.pull s c with ⟨answer, c', s'⟩
        cases answer with
        | record raw =>
            exact congrArg
              (fun phase ↦ (⟨s', sh.map f, ⟨p, plan, emitted, phase⟩, true⟩ : Turn σ κ))
              (examine_map hf ⟨p, plan, emitted, .pulling c⟩ c' raw)
        | failed e =>
            simp only [Shared.report_map]
            rfl
        | waiting => rfl
        | ended => rfl
        | crashed => rfl
  | reserving c parcel =>
      change turn client (job.recode d') s (sh.map f)
        ⟨p, plan, emitted, .reserving c (parcel.map f)⟩ = _
      have hreceiving : (sh.map f).channel.receiving = sh.channel.receiving := rfl
      have hroom : (sh.map f).channel.hasRoom = sh.channel.hasRoom := Channel.hasRoom_map _
      simp only [turn, hcancelled, hreceiving, hroom]
      split
      · rfl
      · split <;> rfl
  | claiming c parcel =>
      change turn client (job.recode d') s (sh.map f)
        ⟨p, plan, emitted, .claiming c (parcel.map f)⟩ = _
      have hcounter : (sh.map f).counter = sh.counter := rfl
      simp only [turn, hcounter]
      rcases sh.counter.claim with ⟨answer, counter⟩
      cases answer <;> rfl
  | sending c parcel reachedLimit =>
      have hsend := Channel.send_map (f := f) sh.channel parcel.record
      have hphase := map_afterSending (f := f) c parcel reachedLimit
      exact congr (congrArg (fun channel phase ↦ (⟨s, { sh with channel },
        ⟨p, plan, emitted + 1, phase⟩, true⟩ : Turn σ κ)) hsend) hphase.symm
  | announcing c => rfl
  | closing c outcome => rfl
  | finished outcome => rfl
  | crashed => rfl

/-- What is seen of the turn is mapped. -/
theorem act_map (client : Client σ κ) (s : σ) (sh : Shared) (w : Worker κ) :
    (w.map f).act? client (job.recode d') s (sh.map f) =
      (w.act? client job s sh).map (Act.map f) := by
  obtain ⟨p, plan, emitted, phase⟩ := w
  have hcancelled : (sh.map f).cancelled = sh.cancelled := rfl
  cases phase with
  | opening =>
      change act? client (job.recode d') s (sh.map f) ⟨p, plan, emitted, .opening⟩ = _
      simp only [act?, Job.recode, hcancelled]
      split
      · rfl
      · cases (client.openCursor s ⟨job.topic, p⟩ plan.start (!plan.isBounded)).1 <;> rfl
  | pulling c =>
      change act? client (job.recode d') s (sh.map f) ⟨p, plan, emitted, .pulling c⟩ = _
      simp only [act?, hcancelled]
      split
      · rfl
      · cases (client.pull s c).1 <;> rfl
  | reserving c parcel =>
      change act? client (job.recode d') s (sh.map f)
        ⟨p, plan, emitted, .reserving c (parcel.map f)⟩ = _
      have hreceiving : (sh.map f).channel.receiving = sh.channel.receiving := rfl
      have hroom : (sh.map f).channel.hasRoom = sh.channel.hasRoom := Channel.hasRoom_map _
      simp only [act?, hcancelled, hreceiving, hroom]
      split
      · rfl
      · split <;> rfl
  | claiming c parcel => rfl
  | sending c parcel reachedLimit => rfl
  | announcing c => rfl
  | closing c outcome => rfl
  | finished outcome => rfl
  | crashed => rfl

@[simp] theorem report_map (w : Worker κ) : (w.map f).report? = w.report? := by
  obtain ⟨p, plan, emitted, phase⟩ := w
  cases phase <;> rfl

@[simp] theorem isOver_map (w : Worker κ) : (w.map f).phase.isOver = w.phase.isOver := by
  obtain ⟨p, plan, emitted, phase⟩ := w
  cases phase <;> rfl

end Worker

/-! ## A read -/

namespace Read

variable {client : Client σ κ} {s : σ} {r : Read κ} {i : Nat}

/-- The state and the read after some steps, mapped. -/
def image (f : Record → Record) (d' : Decoder) (t : Bool × σ × Read κ) : Bool × σ × Read κ :=
  (t.1, t.2.1, t.2.2.map f d')

theorem getElem_workers_map (r : Read κ) (i : Nat) :
    (r.map f d').workers[i]? = r.workers[i]?.map (·.map f) := List.getElem?_map

@[simp] theorem isOver_map (r : Read κ) : (r.map f d').isOver = r.isOver := by
  simp [isOver, map, List.all_map, Function.comp_def]

theorem turn_map (hf : Recodes r.job.filter r.job.decoder d' f) (client : Client σ κ) (s : σ)
    (i : Nat) : (r.map f d').turn client s i = image f d' (r.turn client s i) := by
  cases hw : r.workers[i]? with
  | none => simp [turn, getElem_workers_map, hw, image]
  | some w =>
      have hturn := Worker.turn_map hf client s r.shared w
      have hmap : (r.map f d').workers[i]? = some (w.map f) := by
        rw [getElem_workers_map, hw]
        rfl
      simp only [turn, hmap, hw, image]
      rw [show (r.map f d').job = r.job.recode d' from rfl,
        show (r.map f d').shared = r.shared.map f from rfl, hturn]
      simp [Turn.map, map, List.map_set]

theorem collect_map (r : Read κ) (i : Nat) :
    (r.map f d').collect i = ((r.collect i).1, (r.collect i).2.map f d') := by
  cases hw : r.workers[i]? with
  | none => simp [collect, getElem_workers_map, hw]
  | some w =>
      have hmap : (r.map f d').workers[i]? = some (w.map f) := by
        rw [getElem_workers_map, hw]
        rfl
      have hpartition : (w.map f).partition = w.partition := rfl
      have hreports : (r.map f d').reports = r.reports := rfl
      simp only [collect, hmap, hw, Worker.report_map, hpartition, hreports]
      cases w.report? with
      | none => rfl
      | some report =>
          dsimp only
          split
          · rfl
          · split <;> rfl

theorem takeRecord_map (r : Read κ) :
    (r.map f d').takeRecord = (r.takeRecord.1.map f, r.takeRecord.2.map f d') := by
  have hqueue : (r.map f d').shared.channel.queue = r.shared.channel.queue.map f := rfl
  simp only [takeRecord, hqueue, isOver_map]
  cases r.shared.channel.queue with
  | nil => cases r.isOver <;> rfl
  | cons a rest => rfl

theorem takeError_map (r : Read κ) :
    (r.map f d').takeError = (r.takeError.1, r.takeError.2.map f d') := by
  have herrors : (r.map f d').shared.errors = r.shared.errors := rfl
  simp only [takeError, herrors, isOver_map]
  cases r.shared.errors with
  | nil => cases r.isOver <;> rfl
  | cons a rest => rfl

@[simp] theorem summary_map (r : Read κ) : (r.map f d').summary? = r.summary? := by
  simp [summary?, map, Shared.map]

theorem job_turn (client : Client σ κ) (s : σ) (r : Read κ) (i : Nat) :
    (r.turn client s i).2.2.job = r.job := by
  unfold turn
  split <;> rfl

theorem job_collect (r : Read κ) (i : Nat) : (r.collect i).2.job = r.job := by
  unfold collect
  split
  · rfl
  · split
    · rfl
    · split <;> rfl

theorem job_advance (client : Client σ κ) (s : σ) (r : Read κ) (i : Nat) :
    (r.advance client s i).2.2.job = r.job := by
  have hturn := job_turn client s r i
  unfold advance
  rcases h : r.turn client s i with ⟨moved, s', r'⟩
  rw [h] at hturn
  cases moved with
  | true => exact hturn
  | false => exact (job_collect r' i).trans hturn

theorem advance_map (hf : Recodes r.job.filter r.job.decoder d' f) (client : Client σ κ) (s : σ)
    (i : Nat) : (r.map f d').advance client s i = image f d' (r.advance client s i) := by
  rw [advance, advance, turn_map hf]
  rcases r.turn client s i with ⟨moved, s', r'⟩
  cases moved with
  | true => rfl
  | false => simp only [image, collect_map]

/-- What a sweep does for one worker. -/
def pass (client : Client σ κ) (t : Bool × σ × Read κ) (i : Nat) : Bool × σ × Read κ :=
  let here := t.2.2.advance client t.2.1 i
  (t.1 || here.1, here.2)

theorem pass_map {t : Bool × σ × Read κ} (hf : Recodes t.2.2.job.filter t.2.2.job.decoder d' f)
    (client : Client σ κ) (i : Nat) :
    pass client (image f d' t) i = image f d' (pass client t i) := by
  simp only [pass, image, advance_map hf]

theorem sweep_map (hf : Recodes r.job.filter r.job.decoder d' f) (client : Client σ κ) (s : σ) :
    (r.map f d').sweep client s = image f d' (r.sweep client s) ∧
      (r.sweep client s).2.2.job = r.job := by
  have hpart (l : List Nat) (t : Bool × σ × Read κ) (ht : t.2.2.job = r.job) :
      l.foldl (pass client) (image f d' t) = image f d' (l.foldl (pass client) t) ∧
        (l.foldl (pass client) t).2.2.job = r.job := by
    induction l generalizing t with
    | nil => exact ⟨rfl, ht⟩
    | cons i l ih =>
        rw [List.foldl_cons, List.foldl_cons, pass_map (ht ▸ hf)]
        exact ih _ ((job_advance client t.2.1 t.2.2 i).trans ht)
  have hlength : (r.map f d').workers.length = r.workers.length := List.length_map _
  rw [sweep, sweep, hlength]
  exact hpart _ (false, s, r) rfl

theorem settle_map (hf : Recodes r.job.filter r.job.decoder d' f) (client : Client σ κ) (s : σ)
    (fuel : Nat) : (r.map f d').settle client s fuel =
      ((r.settle client s fuel).1, (r.settle client s fuel).2.map f d') := by
  induction fuel generalizing r s with
  | zero => rfl
  | succ fuel ih =>
      obtain ⟨hsweep, hjob⟩ := sweep_map hf client s
      rw [settle, settle, hsweep]
      rcases h : r.sweep client s with ⟨moved, s', r'⟩
      rw [h] at hjob
      change r'.job = r.job at hjob
      cases moved with
      | true => exact ih (hjob ▸ hf) s'
      | false => rfl

/-- Stopping a read ends in the same summary and leaves the client in the same state. -/
theorem finish_map (hf : Recodes r.job.filter r.job.decoder d' f) (client : Client σ κ) (s : σ) :
    (r.map f d').finish client s = r.finish client s := by
  have hhangUp : (r.map f d').hangUp = r.hangUp.map f d' := rfl
  have hsweeps : (r.hangUp.map f d').sweeps client s = r.hangUp.sweeps client s := by
    simp [sweeps, map]
  have hrun : (r.map f d').hangUp.run client s =
      ((r.hangUp.run client s).1, (r.hangUp.run client s).2.map f d') := by
    rw [run, run, hhangUp, hsweeps]
    exact settle_map (r := r.hangUp) hf client s _
  rw [finish, finish, hrun]
  simp only [summary_map]
  rfl

end Read

/-! ## A course -/

def Deed.map (f : Record → Record) : Deed → Deed
  | .act i a => .act i (a.map f)
  | .took a => .took (f a)
  | deed => deed

namespace Stage

variable {client : Client σ κ} {alter : δ → σ → σ} {x : Stage σ κ}

def map (f : Record → Record) (d' : Decoder) (x : Stage σ κ) : Stage σ κ :=
  ⟨x.state, x.read.map f d', x.history.map (Deed.map f)⟩

theorem note_map (x : Stage σ κ) (s : σ) (r : Read κ) (deed : Deed) :
    (x.map f d').note s (r.map f d') (deed.map f) = (x.note s r deed).map f d' := by
  simp [note, map]

theorem after_map (x : Stage σ κ) (i : Nat) (act : Option Act) (s : σ) (sh : Shared)
    (w : Worker κ) : (x.map f d').after i (act.map (Act.map f)) s (sh.map f) (w.map f) =
      (x.after i act s sh w).map f d' := by
  cases act <;> simp [after, map, Read.map, List.map_set, Deed.map]

theorem turn_map (hf : Recodes x.read.job.filter x.read.job.decoder d' f) (client : Client σ κ)
    (i : Nat) : (x.map f d').turn client i = (x.turn client i).map f d' := by
  cases hw : x.read.workers[i]? with
  | none =>
      have hmap : (x.map f d').read.workers[i]? = none := by
        simp [map, Read.getElem_workers_map, hw]
      simp only [turn, hw, hmap]
  | some w =>
      have hmap : (x.map f d').read.workers[i]? = some (w.map f) := by
        simp [map, Read.getElem_workers_map, hw]
      have hturn : (w.map f).turn client (x.map f d').read.job x.state (x.map f d').read.shared =
          (w.turn client x.read.job x.state x.read.shared).map f :=
        Worker.turn_map hf client x.state x.read.shared w
      have hact : (w.map f).act? client (x.map f d').read.job x.state (x.map f d').read.shared =
          (w.act? client x.read.job x.state x.read.shared).map (Act.map f) :=
        Worker.act_map client x.state x.read.shared w
      rw [turn_eq_after hmap, turn_eq_after hw, ← after_map, ← hact]
      rw [show (x.map f d').state = x.state from rfl, hturn]
      rfl

theorem step_map (hf : Recodes x.read.job.filter x.read.job.decoder d' f) (client : Client σ κ)
    (alter : δ → σ → σ) (m : Move δ) :
    (x.map f d').step client alter m = (x.step client alter m).map f d' := by
  cases m with
  | turn i => exact turn_map hf client i
  | collect i =>
      have hcollect : (x.map f d').read.collect i = _ := x.read.collect_map i
      simp only [step, collect, hcollect]
      rcases x.read.collect i with ⟨moved, r⟩
      cases moved with
      | true => exact note_map x x.state r (.collected i)
      | false => rfl
  | takeRecord =>
      have htake : (x.map f d').read.takeRecord = _ := x.read.takeRecord_map
      simp only [step, takeRecord, htake]
      rcases x.read.takeRecord with ⟨answer, r⟩
      cases answer with
      | item a => exact note_map x x.state r (.took a)
      | pending => rfl
      | closed => rfl
  | takeError =>
      have htake : (x.map f d').read.takeError = _ := x.read.takeError_map
      simp only [step, takeError, htake]
      rcases x.read.takeError with ⟨answer, r⟩
      cases answer with
      | item a => exact note_map x x.state r (.heard a)
      | pending => rfl
      | closed => rfl
  | cancel => exact note_map x x.state x.read.cancel .cancelled
  | hangUp => exact note_map x x.state x.read.hangUp .left
  | alter change => exact note_map x (alter change x.state) x.read .altered

/-- A whole course is mapped, whatever its moves. -/
theorem play_map {r : Read κ} (hf : Recodes r.job.filter r.job.decoder d' f)
    (client : Client σ κ) (alter : δ → σ → σ) (s : σ) (moves : List (Move δ)) :
    (start s (r.map f d')).play client alter moves =
      ((start s r).play client alter moves).map f d' := by
  induction moves using List.reverseRecOn with
  | nil => rfl
  | append_singleton moves m ih =>
      have hjob := (framed_play client alter s r moves).job_eq
      rw [play_concat, play_concat, ih]
      exact step_map (hjob ▸ hf) client alter m

theorem taken_map (x : Stage σ κ) : (x.map f d').taken = x.taken.map f := by
  have htook (deed : Deed) : (deed.map f).took? = deed.took?.map f := by cases deed <;> rfl
  rw [taken, taken, map, List.filterMap_map, List.map_filterMap]
  exact congrArg (List.filterMap · _) (funext htook)

theorem heard_map (x : Stage σ κ) : (x.map f d').heard = x.heard := by
  rw [heard, map, List.filterMap_map]
  congr 1
  funext deed
  cases deed <;> rfl

theorem reported_map (x : Stage σ κ) : (x.map f d').reported = x.reported := by
  rw [reported, map, List.filterMap_map]
  congr 1
  funext deed
  cases deed with
  | act i a => cases a <;> rfl
  | _ => rfl

end Stage
end TopicView
