import TopicView.Proofs.Log.Operation

/-!
# Partitions that only grow upwards

As long as an empty partition is only ever moved to its end or beyond, no offset is given away
twice: the offsets of new records, the start and the end of what is retained all ascend, and a
cursor passes over an offset only by yielding its record, or once the record has been dropped.
-/

namespace TopicView

namespace PartitionLog

variable {index : PartitionId} {p q r : PartitionLog} {given more : List Offset}

/-- A partition that has got from `p` to `q`, and the offsets that it has given away meanwhile. -/
structure Climbs (p : PartitionLog) (given : List Offset) (q : PartitionLog) : Prop where
  fits : p.Fits
  oldest_le : p.oldest ≤ q.oldest
  end_le : p.firstAvailable ≤ q.firstAvailable
  ascending : given.Pairwise (· < ·)
  within : ∀ o ∈ given, p.firstAvailable ≤ o ∧ o < q.firstAvailable

theorem climbs_of_fits (h : p.Fits) : p.Climbs [] p := by
  refine ⟨h, Std.le_refl _, Std.le_refl _, List.Pairwise.nil, ?_⟩
  intro o ho
  cases ho

theorem Climbs.trans (h : p.Climbs given q) (h' : q.Climbs more r) :
    p.Climbs (given ++ more) r := by
  refine ⟨h.fits, Std.le_trans h.oldest_le h'.oldest_le, Std.le_trans h.end_le h'.end_le, ?_, ?_⟩
  · apply List.pairwise_append.mpr
    refine ⟨h.ascending, h'.ascending, ?_⟩
    intro a ha b hb
    exact Std.lt_of_lt_of_le (h.within a ha).2 (h'.within b hb).1
  · intro o ho
    rcases List.mem_append.mp ho with ho | ho
    · obtain ⟨hlow, hhigh⟩ := h.within o ho
      exact ⟨hlow, Std.lt_of_lt_of_le hhigh h'.end_le⟩
    · obtain ⟨hlow, hhigh⟩ := h'.within o ho
      exact ⟨Std.le_trans h.end_le hlow, hhigh⟩

end PartitionLog

namespace LogCursor

variable {log : Log} {p : PartitionLog} {index : PartitionId} {c : LogCursor}

/-- A pull passes over an offset only where its record is gone. -/
theorem pull_passes (h : p.Sound index) (hp : log.partition c.target = .ok p) {o : Offset}
    (ho : c.position ≤ o) :
    (∃ raw, (c.pull log).1 = .record raw ∧ raw.offset = o) ∨ o < p.oldest ∨
      (c.pull log).2.position ≤ o := by
  obtain ⟨-, -, holdest, hgone⟩ := c.resume_cases p.oldest
  by_cases hgap : o < (c.resume p.oldest).position
  · exact Or.inr (Or.inl (hgone o ho hgap))
  · have hreached := Std.not_lt.mp hgap
    unfold pull
    split
    · exact Or.inr (Or.inr ho)
    · split
      · exact Or.inr (Or.inr ho)
      · rw [hp]
        dsimp only
        split
        · next raw hget =>
            obtain ⟨-, hoffset⟩ := (PartitionLog.get?_eq_some_iff h holdest).mp hget
            split
            · next next hnext =>
                have hone := Int64.toInt_one
                have hsucc := Offset.checkedAdd_eq_some_iff.mp hnext
                by_cases hsame : raw.offset = o
                · exact Or.inl ⟨raw, rfl, hsame⟩
                · refine Or.inr (Or.inr ?_)
                  rw [← Int64.toInt_inj, hoffset] at hsame
                  rw [Int64.le_iff_toInt_le] at hreached ⊢
                  dsimp only
                  omega
            · exact Or.inr (Or.inr hreached)
        · exact Or.inr (Or.inr hreached)

end LogCursor

namespace Log
namespace InUse

open PartitionLog

variable {x : InUse} {op : Operation} {ops more : List Operation} {t : TopicPartition}
  {p q : PartitionLog} {added : Option RawRecord}

/-- The offsets that the records get which are appended to a partition. -/
def given (t : TopicPartition) : InUse → List Operation → List Offset
  | _, [] => []
  | x, op :: ops => (x.gives? t op).toList ++ given t (x.after op) ops

/-- An operation does not move the start of an empty partition below its end. -/
def Forward (t : TopicPartition) (x : InUse) (op : Operation) : Prop :=
  ∀ offset p, op = .startAt t offset → x.log.partition t = .ok p → p.records = [] →
    0 ≤ offset.toInt → p.firstAvailable ≤ offset

def Ascends (t : TopicPartition) : InUse → List Operation → Prop
  | _, [] => True
  | x, op :: ops => Forward t x op ∧ Ascends t (x.after op) ops

theorem play_append (x : InUse) (ops more : List Operation) :
    x.play (ops ++ more) = (x.play ops).play more := List.foldl_append

theorem ascends_append :
    Ascends t x (ops ++ more) ↔ Ascends t x ops ∧ Ascends t (x.play ops) more := by
  induction ops generalizing x with
  | nil => simp [Ascends, play]
  | cons op ops ih =>
      simp only [List.cons_append, Ascends]
      rw [ih, and_assoc]
      rfl

/-! ## One operation -/

theorem Edit.climbs (h : Edit t p op added q) (hp : p.Sound t.partition)
    (hforward : ∀ offset, op = .startAt t offset → p.records = [] → 0 ≤ offset.toInt →
      p.firstAvailable ≤ offset) (hfits : q.Fits) :
    p.Climbs (added.map RawRecord.offset).toList q := by
  have hq := h.sound hp
  have hbefore := h.fits hp.oldest_nonneg hfits
  have hend := firstAvailable_of_fits hp hbefore
  have hend' := firstAvailable_of_fits hq hfits
  cases h with
  | same => exact climbs_of_fits hfits
  | @moved offset empty nonneg =>
      have hle := hforward offset rfl empty nonneg
      have hsame : (p.startAt offset).firstAvailable = offset := (hq.watermark_eq hfits).symm
      rw [empty, List.length_nil] at hend
      refine ⟨hbefore, ?_, ?_, List.Pairwise.nil, nofun⟩
      · rw [Int64.le_iff_toInt_le] at hle ⊢
        change p.oldest.toInt ≤ offset.toInt
        omega
      · rw [hsame]
        exact hle
  | changed _ effect =>
      obtain ⟨-, ⟨raw, rfl, hoffset, -, rfl⟩ | ⟨rfl, offset, rfl⟩⟩ :=
        effect_cases effect hp.oldest_nonneg
      · have hlt : p.firstAvailable < (p.append raw).firstAvailable := by
          rw [Int64.lt_iff_toInt_lt, hend, hend', oldest_append, records_append,
            List.length_append, List.length_singleton]
          omega
        refine ⟨hbefore, Std.le_refl _, Std.le_of_lt hlt, List.pairwise_singleton _ _, ?_⟩
        intro o ho
        obtain rfl : o = raw.offset := by simpa using ho
        rw [hoffset]
        exact ⟨Std.le_refl _, hlt⟩
      · have htruncates := hp.truncates hbefore offset
        refine ⟨hbefore, htruncates.oldest_le, ?_, List.Pairwise.nil, nofun⟩
        exact Std.le_of_eq htruncates.firstAvailable_eq.symm

/-! ## Whole runs and cursors -/

theorem climbs_play (hsound : p.Sound t.partition) (hp : x.log.partition t = .ok p)
    (h : Ascends t x ops) : ∃ q, (x.play ops).log.partition t = .ok q ∧ q.Sound t.partition ∧
      (q.Fits → p.Climbs (given t x ops) q) := by
  induction ops generalizing x p with
  | nil => exact ⟨p, hp, hsound, climbs_of_fits⟩
  | cons op ops ih =>
      obtain ⟨hforward, hrest⟩ := h
      obtain ⟨added, p', hp', hedit, hgives⟩ := edit_after hp op
      have hsound' := hedit.sound hsound
      obtain ⟨q, hq, hsound'', hclimbs⟩ := ih hsound' hp' hrest
      refine ⟨q, hq, hsound'', fun hfits ↦ ?_⟩
      have hlater := hclimbs hfits
      have hfirst := hedit.climbs hsound (fun offset hop ↦ hforward offset p hop hp) hlater.fits
      have hroom := (isSome_firstAvailable?_iff hsound'.oldest_nonneg).mpr hlater.fits
      rw [given, hgives hroom]
      exact hfirst.trans hlater

theorem gives?_of_absent (habsent : ∀ p, x.log.partition t ≠ .ok p) : x.gives? t op = none := by
  rcases after_cases x op with ⟨-, hnone⟩ | ⟨topic, count, rfl, -, -⟩ |
    ⟨target, p, added, q, hnames, -, hp, -⟩
  · exact hnone t
  · rfl
  · refine gives?_of_not_names fun ht ↦ ?_
    obtain rfl := (hnames t).mp ht
    exact habsent p hp

theorem ascending_given (hsound : x.log.Sound) (h : Ascends t x ops)
    (hfits : ∀ q, (x.play ops).log.partition t = .ok q → q.Fits) :
    (given t x ops).Pairwise (· < ·) := by
  induction ops generalizing x with
  | nil => exact List.Pairwise.nil
  | cons op ops ih =>
      cases hp : x.log.partition t with
      | ok p =>
          obtain ⟨q, hq, -, hclimbs⟩ := climbs_play (hsound t p hp) hp h
          exact (hclimbs (hfits q hq)).ascending
      | error fault =>
          have habsent : ∀ p, x.log.partition t ≠ .ok p := fun p ↦ by rw [hp]; nofun
          rw [given, gives?_of_absent habsent]
          exact ih (sound_after hsound op) h.2 hfits

/-- The record that a cursor yields in an operation. -/
def yields? (x : InUse) (i : Nat) (op : Operation) : Option RawRecord :=
  match op, (x.perform op).1 with
  | .pull j, .pulled (.record raw) => if j = i then some raw else none
  | _, _ => none

def yielded (i : Nat) : InUse → List Operation → List RawRecord
  | _, [] => []
  | x, op :: ops => (x.yields? i op).toList ++ yielded i (x.after op) ops

theorem cursor_after {i : Nat} {c : LogCursor} (hc : x.cursors[i]? = some c) (op : Operation) :
    ∃ d, (x.after op).cursors[i]? = some d ∧ d.target = c.target ∧
      (d.position = c.position ∨ op = .pull i ∧ d = (c.pull x.log).2 ∧
        ∀ raw, (c.pull x.log).1 = .record raw → x.yields? i op = some raw) := by
  have hi := (List.getElem?_eq_some_iff.mp hc).1
  cases op with
  | pull j =>
      by_cases hij : j = i
      · subst hij
        have hperform : x.perform (.pull j) = (.pulled (c.pull x.log).1,
            { x with cursors := x.cursors.set j (c.pull x.log).2 }) := by simp [perform, hc]
        refine ⟨_, ?_, target_pull c x.log, Or.inr ⟨rfl, rfl, ?_⟩⟩
        · rw [after, hperform]
          exact List.getElem?_set_self hi
        · intro raw hraw
          simp [yields?, hperform, hraw]
      · refine ⟨c, ?_, rfl, Or.inl rfl⟩
        simp only [after, perform]
        split
        · exact (List.getElem?_set_ne hij).trans hc
        · exact hc
  | close j =>
      by_cases hij : j = i
      · subst hij
        exact ⟨c.close, by simp [after, perform, hc], rfl, Or.inl rfl⟩
      · exact ⟨c, by simp [after, perform, hc, hij], rfl, Or.inl rfl⟩
  | openCursor target start follow =>
      refine ⟨c, ?_, rfl, Or.inl rfl⟩
      simp only [after, perform]
      split
      · exact (List.getElem?_append_left hi).trans hc
      · exact hc
  | append target entry => exact ⟨c, hc, rfl, Or.inl rfl⟩
  | offsets target => exact ⟨c, hc, rfl, Or.inl rfl⟩
  | failLookups target => exact ⟨c, hc, rfl, Or.inl rfl⟩
  | failOpenings target => exact ⟨c, hc, rfl, Or.inl rfl⟩
  | failStreamAfter target records => exact ⟨c, hc, rfl, Or.inl rfl⟩
  | _ =>
      refine ⟨c, ?_, rfl, Or.inl rfl⟩
      simp only [after, perform]
      split <;> exact hc

theorem play_passes {i : Nat} {c : LogCursor} (hsound : p.Sound t.partition)
    (hp : x.log.partition t = .ok p) (hc : x.cursors[i]? = some c) (ht : c.target = t)
    (h : Ascends t x ops) : ∃ d, (x.play ops).cursors[i]? = some d ∧
      ∀ q, (x.play ops).log.partition t = .ok q → q.Fits → ∀ o, c.position ≤ o →
        (∃ raw ∈ yielded i x ops, raw.offset = o) ∨ o < q.oldest ∨ d.position ≤ o := by
  induction ops generalizing x p c with
  | nil => exact ⟨c, hc, fun _ _ _ o ho ↦ Or.inr (Or.inr ho)⟩
  | cons op ops ih =>
      obtain ⟨hforward, hrest⟩ := h
      obtain ⟨added, p', hp', hedit, -⟩ := edit_after hp op
      obtain ⟨c', hc', ht', hmoves⟩ := cursor_after hc op
      obtain ⟨d, hd, hpasses⟩ := ih (hedit.sound hsound) hp' hc' (ht'.trans ht) hrest
      refine ⟨d, hd, fun q hq hfits o ho ↦ ?_⟩
      obtain ⟨q', hq', -, hclimbs⟩ := climbs_play (hedit.sound hsound) hp' hrest
      obtain rfl : q = q' := Except.ok.inj (hq.symm.trans hq')
      have hlater := hclimbs hfits
      have hfirst := hedit.climbs hsound (fun offset hop ↦ hforward offset p hop hp) hlater.fits
      -- An offset that the first step leaves ahead is left to the others.
      have hahead (hle : c'.position ≤ o) : (∃ raw ∈ yielded i x (op :: ops), raw.offset = o) ∨
          o < q.oldest ∨ d.position ≤ o := by
        rcases hpasses q hq hfits o hle with ⟨raw, hraw, hoffset⟩ | hgone | hahead
        · exact Or.inl ⟨raw, List.mem_append_right _ hraw, hoffset⟩
        · exact Or.inr (Or.inl hgone)
        · exact Or.inr (Or.inr hahead)
      rcases hmoves with hsame | ⟨rfl, rfl, hyields⟩
      · apply hahead
        rwa [hsame]
      · have hpull := LogCursor.pull_passes hsound (ht ▸ hp) ho
        rcases hpull with ⟨raw, hraw, hoffset⟩ | hgone | hle
        · refine Or.inl ⟨raw, ?_, hoffset⟩
          apply List.mem_append_left
          rw [hyields raw hraw]
          exact List.mem_singleton_self raw
        · refine Or.inr (Or.inl (Std.lt_of_lt_of_le hgone ?_))
          exact Std.le_trans hfirst.oldest_le hlater.oldest_le
        · exact hahead hle

/-- Where empty partitions are only moved upwards, the offsets of new records ascend over the whole
run, and so do the start and the end of what is retained.  What is appended lies behind every range
looked up before, and a cursor opened before yields it, unless it is dropped first. -/
theorem offsets_ascend (before later : List Operation) (t : TopicPartition) {x y : InUse}
    (hx : play {} before = x) (hy : x.play later = y) (hascends : Ascends t {} (before ++ later))
    (hfits : ∀ q, y.log.partition t = .ok q → q.Fits) :
    (given t {} (before ++ later)).Pairwise (· < ·) ∧
      ∀ p, x.log.partition t = .ok p → ∃ q, y.log.partition t = .ok q ∧
        p.oldest ≤ q.oldest ∧ p.firstAvailable ≤ q.firstAvailable ∧
        ∀ o ∈ given t x later, p.firstAvailable ≤ o ∧
          ∀ i c, x.cursors[i]? = some c → c.target = t → c.position ≤ o →
            ∃ d, y.cursors[i]? = some d ∧ ((∃ raw ∈ yielded i x later, raw.offset = o) ∨
              o < q.oldest ∨ d.position ≤ o ∧ (q.get? o).isSome) := by
  subst hx hy
  have hempty : ({} : InUse).log.Sound := fun t p hp ↦ nomatch hp
  constructor
  · apply ascending_given hempty hascends
    rwa [play_append]
  · intro p hp
    have hsound := sound_play hempty before t p hp
    obtain ⟨-, hlater⟩ := ascends_append.mp hascends
    obtain ⟨q, hq, hsound', hclimbs⟩ := climbs_play hsound hp hlater
    have hclimbs := hclimbs (hfits q hq)
    refine ⟨q, hq, hclimbs.oldest_le, hclimbs.end_le, fun o ho ↦ ?_⟩
    obtain ⟨hbehind, hwithin⟩ := hclimbs.within o ho
    refine ⟨hbehind, fun i c hc ht hle ↦ ?_⟩
    obtain ⟨d, hd, hpasses⟩ := play_passes hsound hp hc ht hlater
    refine ⟨d, hd, ?_⟩
    rcases hpasses q hq (hfits q hq) o hle with hyielded | hgone | hahead
    · exact Or.inl hyielded
    · exact Or.inr (Or.inl hgone)
    · by_cases hretained : q.oldest ≤ o
      · have hrepresents := hsound'.represents (hfits q hq)
        exact Or.inr (Or.inr ⟨hahead, (hrepresents.isSome_get? o).mpr ⟨hretained, hwithin⟩⟩)
      · exact Or.inr (Or.inl (Std.not_le.mp hretained))

/-- A record is appended while a cursor waits for it; then the partition is emptied, moved upwards,
and appended to. -/
def upwardUse : List Operation × List Operation :=
  ([.createTopic "t" 1, .openCursor ⟨"t", 0⟩ 0 true, .pull 0],
    [.append ⟨"t", 0⟩ ⟨none, some [97], [], 0⟩, .pull 0, .truncateBefore ⟨"t", 0⟩ 1,
      .startAt ⟨"t", 0⟩ 5, .append ⟨"t", 0⟩ ⟨none, some [98], [], 0⟩])

theorem offsets_ascend_upwards :
    given ⟨"t", 0⟩ {} (upwardUse.1 ++ upwardUse.2) = [0, 5] ∧
      (given ⟨"t", 0⟩ {} (upwardUse.1 ++ upwardUse.2)).Pairwise (· < ·) ∧
      (play {} upwardUse.1).log.partition ⟨"t", 0⟩ = .ok .empty ∧
      ∃ q, ((play {} upwardUse.1).play upwardUse.2).log.partition ⟨"t", 0⟩ = .ok q ∧
        PartitionLog.empty.firstAvailable ≤ q.firstAvailable := by
  have hascends : Ascends ⟨"t", 0⟩ {} (upwardUse.1 ++ upwardUse.2) := by
    refine ⟨nofun, nofun, nofun, nofun, nofun, nofun, ?_, nofun, trivial⟩
    intro offset p hop hp _ _
    obtain ⟨-, rfl⟩ := Operation.startAt.inj hop
    obtain rfl : PartitionLog.mk 1 [] 1 = p := Except.ok.inj hp
    decide
  have hfits : ∀ q, ((play {} upwardUse.1).play upwardUse.2).log.partition ⟨"t", 0⟩ = .ok q →
      q.Fits := by
    intro q hq
    obtain rfl : PartitionLog.mk 5 [⟨none, some [98], 0, 5, some 0, []⟩] 6 = q := Except.ok.inj hq
    unfold Fits
    decide
  obtain ⟨hpairwise, hlater⟩ :=
    offsets_ascend upwardUse.1 upwardUse.2 ⟨"t", 0⟩ rfl rfl hascends hfits
  obtain ⟨q, hq, -, hend, -⟩ := hlater .empty rfl
  exact ⟨rfl, hpairwise, rfl, q, hq, hend⟩

/-- The only record of a partition is dropped, and the partition is moved back to its start. -/
def restartedUse : List Operation × List Operation :=
  ([.createTopic "t" 1, .append ⟨"t", 0⟩ ⟨none, some [97], [], 0⟩, .truncateBefore ⟨"t", 0⟩ 1],
    [.startAt ⟨"t", 0⟩ 0, .append ⟨"t", 0⟩ ⟨none, some [98], [], 0⟩])

theorem offset_given_twice :
    given ⟨"t", 0⟩ {} (restartedUse.1 ++ restartedUse.2) = [0, 0] ∧
      ¬ (given ⟨"t", 0⟩ {} (restartedUse.1 ++ restartedUse.2)).Pairwise (· < ·) ∧
      ∃ p q, (play {} restartedUse.1).log.topics = [("t", [p])] ∧ p.Fits ∧
        ((play {} restartedUse.1).play restartedUse.2).log.topics = [("t", [q])] ∧ q.Fits ∧
        q.oldest < p.oldest := by
  refine ⟨rfl, by decide, ⟨1, [], 1⟩, ⟨0, [⟨none, some [98], 0, 0, some 0, []⟩], 1⟩, rfl, ?_, rfl,
    ?_, by decide⟩
  · unfold Fits
    decide
  · unfold Fits
    decide

end InUse
end Log
end TopicView
