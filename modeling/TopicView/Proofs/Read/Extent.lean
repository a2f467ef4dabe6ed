import TopicView.Proofs.Read.Split

/-!
# The extent of a plan

The offsets that a plan names, for every limit, every number of partitions and every range that is
not inverted.  Whatever words these are, the arithmetic of a plan is exact; the plan names only
retained offsets, at least as many as fall to the partition, and no fewer for a larger limit.
-/

namespace TopicView

variable {mode : Mode} {limit limit' count : UInt64} {o : Offsets} {offset : Offset}

/-- A quotient, if there is one. -/
def checkedDiv (a b : UInt64) : Option UInt64 := if b = 0 then none else some (a / b)

/-- The part of the limit that falls to each of `count` partitions, converted only where it is a
word. -/
def checkedShare (limit count : UInt64) : Option Int64 :=
  let part := (checkedDiv limit count).getD 0
  if Int64.maxValue.toInt < part.toNat then some Int64.maxValue else Offset.ofInt? part.toNat

theorem checkedDiv_getD (limit count : UInt64) :
    (checkedDiv limit count).getD 0 = limit / count := by
  unfold checkedDiv
  split
  · next hzero =>
      rw [hzero, UInt64.div_zero]
      rfl
  · rfl

theorem checkedShare_eq (limit count : UInt64) :
    checkedShare limit count = some (share limit count) := by
  have hmax := Int64.toInt_maxValue
  have hshare := toInt_share limit count
  rw [← UInt64.toNat_div] at hshare
  simp only [checkedShare, checkedDiv_getD]
  split
  · next hlarge =>
      congr 1
      rw [← Int64.toInt_inj]
      omega
  · next hword =>
      rw [Offset.ofInt?_eq_some_iff]
      omega

theorem share_mono (count : UInt64) (h : limit ≤ limit') :
    (share limit count).toInt ≤ (share limit' count).toInt := by
  have hdiv := Nat.div_le_div_right (c := count.toNat) (UInt64.le_iff_toNat_le.mp h)
  rw [toInt_share, toInt_share]
  generalize limit.toNat / count.toNat = q at hdiv
  generalize limit'.toNat / count.toNat = q' at hdiv
  omega

/-! ## Names -/

/-- A plan without an end names every offset from its start on. -/
def Plan.Names (plan : Plan) (offset : Offset) : Prop :=
  plan.start ≤ offset ∧ ∀ last, plan.last = some last → offset ≤ last

def Offsets.Retains (o : Offsets) (offset : Offset) : Prop :=
  o.oldest ≤ offset ∧ offset < o.firstAvailable

theorem Offsets.retains_iff : o.Retains offset ↔
    o.oldest.toInt ≤ offset.toInt ∧ offset.toInt < o.firstAvailable.toInt := by
  rw [Retains, Int64.le_iff_toInt_le, Int64.lt_iff_toInt_lt]

theorem Plan.names_iff {plan : Plan} (h : plan.isBounded) : plan.Names offset ↔
    plan.start.toInt ≤ offset.toInt ∧ offset.toInt ≤ plan.endOffset.toInt := by
  obtain ⟨last, hlast⟩ := Option.isSome_iff_exists.mp h
  simp [Names, endOffset, hlast, Int64.le_iff_toInt_le]

theorem names_live : (plan .live limit count o).Names offset ↔ o.firstAvailable ≤ offset := by
  simp [Plan.Names, plan]

theorem isReadable_iff (holdest : 0 ≤ o.oldest.toInt) (hle : o.oldest ≤ o.firstAvailable) :
    isReadable mode o = true ↔ mode = .live ∨ 0 < o.recordCount.toNat := by
  have hle' := Int64.le_iff_toInt_le.mp hle
  have hempty : o.firstAvailable = o.oldest ↔ o.firstAvailable.toInt = o.oldest.toInt :=
    Int64.toInt_inj.symm
  rw [Offsets.toNat_recordCount holdest hle]
  simp only [isReadable, Offsets.isEmpty, hempty, Bool.or_eq_true, decide_eq_true_eq,
    Bool.not_eq_true', decide_eq_false_iff_not]
  refine or_congr_right ?_
  omega

section Range

variable (holdest : 0 ≤ o.oldest.toInt) (hle : o.oldest ≤ o.firstAvailable)

include holdest hle

theorem names_beginning : (plan .beginning limit count o).Names offset ↔
    o.oldest.toInt ≤ offset.toInt ∧ offset.toInt ≤
      if o.oldest.toInt + (share limit count).toInt < o.firstAvailable.toInt - 1
      then o.oldest.toInt + (share limit count).toInt - 1 else o.firstAvailable.toInt - 1 := by
  rw [Plan.names_iff rfl, toInt_end_beginning limit count holdest hle]
  rfl

theorem names_mostRecent : (plan .mostRecent limit count o).Names offset ↔
    max o.oldest.toInt (o.firstAvailable.toInt - 1 - (share limit count).toInt) ≤ offset.toInt ∧
      offset.toInt < o.firstAvailable.toInt := by
  have hle' := Int64.le_iff_toInt_le.mp hle
  have hend : (plan .mostRecent limit count o).endOffset.toInt = o.firstAvailable.toInt - 1 :=
    Offsets.toInt_newest (by omega)
  rw [Plan.names_iff rfl, toInt_start_mostRecent limit count o holdest hle, hend]
  omega

theorem names_mono (h : limit ≤ limit') (hnames : (plan mode limit count o).Names offset) :
    (plan mode limit' count o).Names offset := by
  have hshare := share_mono count h
  cases mode with
  | live => exact names_live.mpr (names_live.mp hnames)
  | beginning =>
      rw [names_beginning holdest hle] at hnames ⊢
      split_ifs at hnames ⊢ <;> omega
  | mostRecent =>
      rw [names_mostRecent holdest hle] at hnames ⊢
      omega

theorem retains_of_names (hmode : mode ≠ .live) (hnames : (plan mode limit count o).Names offset) :
    o.Retains offset := by
  obtain ⟨last, hlast, hlow, -, hhigh⟩ := plan_range hmode limit count holdest hle
  have hstart := Int64.le_iff_toInt_le.mp hnames.1
  have hend := Int64.le_iff_toInt_le.mp (hnames.2 last hlast)
  rw [Offsets.retains_iff]
  omega

theorem le_size_plan (hmode : mode ≠ .live) :
    min (share limit count).toInt.toNat o.recordCount.toNat ≤ (plan mode limit count o).size := by
  cases mode with
  | live => exact (hmode rfl).elim
  | beginning =>
      rw [size_plan_beginning limit count holdest hle]
      split_ifs <;> omega
  | mostRecent =>
      rw [size_plan_mostRecent limit count holdest hle]
      omega

/-- A plan from the oldest record on names the oldest records that fall to the partition. -/
theorem names_oldest (hretains : o.Retains offset)
    (hshare : offset.toInt < o.oldest.toInt + (share limit count).toInt) :
    (plan .beginning limit count o).Names offset := by
  obtain ⟨hlow, hhigh⟩ := Offsets.retains_iff.mp hretains
  rw [names_beginning holdest hle]
  split_ifs <;> omega

/-- A plan of the newest records names the newest ones that fall to the partition. -/
theorem names_newest (hretains : o.Retains offset)
    (hshare : o.firstAvailable.toInt - (share limit count).toInt ≤ offset.toInt) :
    (plan .mostRecent limit count o).Names offset := by
  obtain ⟨hlow, hhigh⟩ := Offsets.retains_iff.mp hretains
  rw [names_mostRecent holdest hle]
  omega

theorem names_of_retains (hmode : mode ≠ .live)
    (hshare : o.recordCount.toNat ≤ (share limit count).toInt.toNat) (hretains : o.Retains offset) :
    (plan mode limit count o).Names offset := by
  have hnonneg := share_nonneg limit count
  obtain ⟨hlow, hhigh⟩ := Offsets.retains_iff.mp hretains
  rw [Offsets.toNat_recordCount holdest hle] at hshare
  cases mode with
  | live => exact (hmode rfl).elim
  | beginning => exact names_oldest holdest hle hretains (by omega)
  | mostRecent => exact names_newest holdest hle hretains (by omega)

end Range

/-! ## Plans -/

/-- What is planned for one of `count` partitions whose range is `o`. -/
structure Planned (mode : Mode) (limit count : UInt64) (o : Offsets) : Prop where
  computed : checkedShare limit count = some (share limit count) ∧
    o.newest? = some o.newest ∧ o.recordCount? = some o.recordCount ∧
    plan? mode limit count o = some (plan mode limit count o)
  readable : isReadable mode o = true ↔ mode = .live ∨ 0 < o.recordCount.toNat
  share_le : 0 ≤ (share limit count).toInt ∧
    (share limit count).toInt * count.toNat ≤ limit.toNat
  bounded : (plan mode limit count o).isBounded = mode.isBounded
  /-- A plan that names nothing ends right before its start. -/
  within : ∀ last, (plan mode limit count o).last = some last →
    o.oldest ≤ (plan mode limit count o).start ∧ last ≤ o.newest ∧
      (plan mode limit count o).start.toInt - 1 ≤ last.toInt
  retained : mode ≠ .live → ∀ offset, (plan mode limit count o).Names offset → o.Retains offset
  covers : mode ≠ .live →
    min (share limit count).toInt.toNat o.recordCount.toNat ≤ (plan mode limit count o).size
  oldest : mode = .beginning → (plan mode limit count o).start = o.oldest ∧
    ∀ offset, o.Retains offset → offset.toInt < o.oldest.toInt + (share limit count).toInt →
      (plan mode limit count o).Names offset
  newest : mode = .mostRecent → (plan mode limit count o).last = some o.newest ∧
    ∀ offset, o.Retains offset →
      o.firstAvailable.toInt - (share limit count).toInt ≤ offset.toInt →
        (plan mode limit count o).Names offset
  whole : mode ≠ .live → o.recordCount.toNat ≤ (share limit count).toInt.toNat →
    ∀ offset, o.Retains offset → (plan mode limit count o).Names offset
  widens : ∀ limit', limit ≤ limit' → ∀ offset, (plan mode limit count o).Names offset →
    (plan mode limit' count o).Names offset

/-- Every plan for a range that is not inverted is computed without an overflow.  It names retained
offsets only, enough of them for the share of the partition, and no fewer for a larger limit. -/
theorem plan_sufficient (mode : Mode) (limit count : UInt64) {o : Offsets} (hnonneg : 0 ≤ o.oldest)
    (hle : o.oldest ≤ o.firstAvailable) : Planned mode limit count o := by
  have holdest : 0 ≤ o.oldest.toInt := Int64.le_iff_toInt_le.mp hnonneg
  have hle' := Int64.le_iff_toInt_le.mp hle
  have hnewest : o.newest.toInt = o.firstAvailable.toInt - 1 := Offsets.toInt_newest (by omega)
  constructor
  case computed =>
    exact ⟨checkedShare_eq limit count, Offsets.newest?_eq (by omega),
      Offsets.recordCount?_eq holdest hle, plan?_eq (by omega) hle mode limit count⟩
  case readable => exact isReadable_iff holdest hle
  case share_le =>
    have hshare := share_nonneg limit count
    have hmul := mul_share_le limit count
    refine ⟨hshare, ?_⟩
    rw [← Int.toNat_of_nonneg hshare, Int.mul_comm]
    exact_mod_cast hmul
  case bounded => exact isBounded_plan mode limit count o
  case within =>
    intro last hlast
    have hmode : mode ≠ .live := by
      rintro rfl
      cases hlast
    obtain ⟨last', hlast', hlow, hstart, hhigh⟩ := plan_range hmode limit count holdest hle
    obtain rfl : last' = last := Option.some.inj (hlast'.symm.trans hlast)
    rw [Int64.le_iff_toInt_le, Int64.le_iff_toInt_le]
    omega
  case retained => exact fun hmode _ ↦ retains_of_names holdest hle hmode
  case covers => exact le_size_plan holdest hle
  case oldest =>
    rintro rfl
    exact ⟨rfl, fun _ ↦ names_oldest holdest hle⟩
  case newest =>
    rintro rfl
    exact ⟨rfl, fun _ ↦ names_newest holdest hle⟩
  case whole => exact fun hmode hshare _ ↦ names_of_retains holdest hle hmode hshare
  case widens => exact fun _ hlimit _ ↦ names_mono holdest hle hlimit

/-- The last seven offsets are retained.  Of the largest limit as many records fall to the only
partition as there are offsets, and of a limit of two for no partition at all none. -/
theorem plan_sufficient_of_sample :
    let o : Offsets := ⟨9223372036854775800, Int64.maxValue⟩
    0 ≤ o.oldest ∧ o.oldest ≤ o.firstAvailable ∧
      plan .beginning 18446744073709551615 1 o = ⟨o.oldest, some o.newest⟩ ∧
      Planned .beginning 18446744073709551615 1 o ∧
      plan .beginning 2 0 o = ⟨o.oldest, some (o.oldest - 1)⟩ ∧ Planned .beginning 2 0 o ∧
      Planned .mostRecent 2 0 o ∧ Planned .live 2 0 o := by
  intro o
  have holdest : 0 ≤ o.oldest := by decide
  have hle : o.oldest ≤ o.firstAvailable := by decide
  exact ⟨holdest, hle, by decide, plan_sufficient _ _ _ holdest hle, by decide,
    plan_sufficient _ _ _ holdest hle, plan_sufficient _ _ _ holdest hle,
    plan_sufficient _ _ _ holdest hle⟩

end TopicView
