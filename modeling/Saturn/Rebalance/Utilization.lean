import Saturn.Rebalance.Accrual

/-!
# Utilization

The rate at which `cal_user_total_asset_in_marginfi` accrues interest depends on liabilities over
assets. Assets are shares times share value, but liabilities are shares *divided by* share value: as
debt accrues, the utilization falls instead of growing. It is the one of the amounts only where that
is lost in rounding (`utilization_iff`), as it is while a share of debt is worth one.
-/

namespace Saturn

open Machine

namespace Bank

variable {b : Bank} {u u' w : I80F48}

/-- Liabilities over assets, where both are shares times share value. -/
def utilizationOfAmounts (b : Bank) : Option I80F48 := do
  let totalAssets ← b.totalAssetShares.checkedMul b.assetShareValue
  let totalLiabilities ← b.totalLiabilityShares.checkedMul b.liabilityShareValue
  totalLiabilities.checkedDiv totalAssets

def withLiabilityShareValue (b : Bank) (value : I80F48) : Bank :=
  { b with liabilityShareValue := value }

def assets (b : Bank) : ℤ := b.totalAssetShares.bits * b.assetShareValue.bits / 2 ^ 48

def dividedLiabilities (b : Bank) : ℤ :=
  b.totalLiabilityShares.bits * 2 ^ 48 / b.liabilityShareValue.bits

/-- A bank in use. -/
structure InUse (b : Bank) : Prop where
  totalAssetShares : 0 < b.totalAssetShares.bits
  assetShareValue : 0 < b.assetShareValue.bits
  liabilityShareValue : 0 < b.liabilityShareValue.bits
  totalLiabilityShares : 0 ≤ b.totalLiabilityShares.bits

theorem InUse.assets_nonneg (h : b.InUse) : 0 ≤ b.assets :=
  Int.ediv_nonneg (mul_nonneg h.totalAssetShares.le h.assetShareValue.le) (by decide)

theorem InUse.dividedLiabilities_nonneg (h : b.InUse) : 0 ≤ b.dividedLiabilities :=
  Int.ediv_nonneg (mul_nonneg h.totalLiabilityShares (by decide)) h.liabilityShareValue.le

/-- What the code takes for the utilization. It is defined where the amounts and their quotient are
in range. -/
theorem InUse.utilizationRate_eq_some (h : b.InUse) : b.utilizationRate = some u ↔
    (∃ ta : I80F48, ta.bits = b.assets) ∧ (∃ tl : I80F48, tl.bits = b.dividedLiabilities) ∧
      0 < b.assets ∧ u.bits = b.dividedLiabilities * 2 ^ 48 / b.assets := by
  have hassets (ta : I80F48) : b.totalAssetShares.checkedMul b.assetShareValue = some ta ↔
      ta.bits = b.assets := Fixed.checkedMul_eq_some
  have hdebt (tl : I80F48) : b.totalLiabilityShares.checkedDiv b.liabilityShareValue = some tl ↔
      tl.bits = b.dividedLiabilities := by
    rw [Fixed.checkedDiv_eq_some_of_nonneg h.totalLiabilityShares]
    exact and_iff_right h.liabilityShareValue.ne'
  have hquotient (ta tl : I80F48) (hta : ta.bits = b.assets)
    (htl : tl.bits = b.dividedLiabilities) :
      tl.checkedDiv ta = some u ↔ 0 < b.assets ∧
        u.bits = b.dividedLiabilities * 2 ^ 48 / b.assets := by
    have hnonneg : 0 ≤ tl.bits := by
      rw [htl]
      exact h.dividedLiabilities_nonneg
    rw [Fixed.checkedDiv_eq_some_of_nonneg hnonneg, hta, htl, h.assets_nonneg.lt_iff_ne, ne_comm]
    rfl
  simp only [utilizationRate, getAssetAmount, getLiabilityAmount, Option.bind_eq_bind,
    Option.bind_eq_some_iff, toOption_eq_some, okOr_eq_ok, hassets, hdebt]
  constructor
  · rintro ⟨ta, hta, tl, htl, hu⟩
    exact ⟨⟨ta, hta⟩, ⟨tl, htl⟩, (hquotient ta tl hta htl).mp hu⟩
  · rintro ⟨⟨ta, hta⟩, ⟨tl, htl⟩, hu⟩
    exact ⟨ta, hta, tl, htl, (hquotient ta tl hta htl).mpr hu⟩

/-- The more a share of debt is worth, the less the code takes the debt for. -/
theorem InUse.dividedLiabilities_anti {value : I80F48} (h : b.InUse)
    (hle : b.liabilityShareValue.bits ≤ value.bits) :
    (b.withLiabilityShareValue value).dividedLiabilities ≤ b.dividedLiabilities := by
  have hpos := h.liabilityShareValue
  have hdebt : 0 ≤ b.totalLiabilityShares.bits * 2 ^ 48 :=
    mul_nonneg h.totalLiabilityShares (by decide)
  -- what the larger value goes into, the smaller one goes into as well
  apply Int.le_ediv_of_mul_le hpos
  calc b.totalLiabilityShares.bits * 2 ^ 48 / value.bits * b.liabilityShareValue.bits
      ≤ b.totalLiabilityShares.bits * 2 ^ 48 / value.bits * value.bits :=
        mul_le_mul_of_nonneg_left hle (Int.ediv_nonneg hdebt (by omega))
    _ ≤ b.totalLiabilityShares.bits * 2 ^ 48 := Int.ediv_mul_le _ (by omega)

/-! ### Up to rounding -/

/-- `u` is shares of debt times their value over shares of assets times theirs, up to a unit of
`2 ^ -48` in each of the two products and in the quotient. -/
def UpToRounding (b : Bank) (u : I80F48) : Prop :=
  |u.toRat * (b.totalAssetShares.toRat * b.assetShareValue.toRat)
      - b.totalLiabilityShares.toRat * b.liabilityShareValue.toRat|
    ≤ (u.toRat + b.totalAssetShares.toRat * b.assetShareValue.toRat + 1) / 2 ^ 48

theorem upToRounding_iff : b.UpToRounding u ↔
    |u.bits * (b.totalAssetShares.bits * b.assetShareValue.bits)
        - b.totalLiabilityShares.bits * b.liabilityShareValue.bits * 2 ^ 48|
      ≤ u.bits * 2 ^ 48 + b.totalAssetShares.bits * b.assetShareValue.bits + 2 ^ 96 := by
  have hleft : u.toRat * (b.totalAssetShares.toRat * b.assetShareValue.toRat)
        - b.totalLiabilityShares.toRat * b.liabilityShareValue.toRat
      = (u.bits * (b.totalAssetShares.bits * b.assetShareValue.bits)
        - b.totalLiabilityShares.bits * b.liabilityShareValue.bits * 2 ^ 48 : ℤ) / 2 ^ 144 := by
    simp only [Fixed.toRat, FixedFormat.i80f48]
    push_cast
    ring
  have hright : (u.toRat + b.totalAssetShares.toRat * b.assetShareValue.toRat + 1) / 2 ^ 48
      = (u.bits * 2 ^ 48 + b.totalAssetShares.bits * b.assetShareValue.bits + 2 ^ 96 : ℤ)
        / 2 ^ 144 := by
    simp only [Fixed.toRat, FixedFormat.i80f48]
    push_cast
    ring
  rw [UpToRounding, hleft, hright, abs_div, abs_of_pos (by norm_num : (0 : ℚ) < 2 ^ 144),
    div_le_div_iff_of_pos_right (by norm_num), ← Int.cast_abs, Int.cast_le]

/-- While a share of debt is worth one, or nothing is owed, there is nothing to mix up. -/
theorem InUse.upToRounding (h : b.InUse) (hu : b.utilizationRate = some u)
    (hplain : b.liabilityShareValue = I80F48.ofU64 1 ∨ b.totalLiabilityShares.bits = 0) :
    b.UpToRounding u := by
  obtain ⟨-, -, hassets, hubits⟩ := h.utilizationRate_eq_some.mp hu
  have hone : (I80F48.ofU64 1).bits = 2 ^ 48 := by decide
  -- multiplied or divided, the debt is the shares
  have hdivided : b.dividedLiabilities = b.totalLiabilityShares.bits := by
    unfold dividedLiabilities
    rcases hplain with hvalue | hdebt
    · rw [hvalue, hone, Int.mul_ediv_cancel _ (by decide)]
    · rw [hdebt, zero_mul, Int.zero_ediv]
  have hmultiplied : b.totalLiabilityShares.bits * b.liabilityShareValue.bits
      = b.totalLiabilityShares.bits * 2 ^ 48 := by
    rcases hplain with hvalue | hdebt
    · rw [hvalue, hone]
    · rw [hdebt, zero_mul, zero_mul]
  rw [upToRounding_iff, hmultiplied]
  rw [hdivided] at hubits
  have hnonneg : 0 ≤ u.bits := by
    rw [hubits]
    exact Int.ediv_nonneg (mul_nonneg h.totalLiabilityShares (by decide)) hassets.le
  have hlow : u.bits * b.assets ≤ b.totalLiabilityShares.bits * 2 ^ 48 := by
    rw [hubits]
    exact Int.ediv_mul_le _ hassets.ne'
  have hhigh : b.totalLiabilityShares.bits * 2 ^ 48 < (u.bits + 1) * b.assets := by
    rw [hubits]
    exact Int.lt_ediv_add_one_mul_self _ hassets
  -- the assets are rounded down
  obtain ⟨rest, hrest, hlt, hsplit⟩ : ∃ rest, 0 ≤ rest ∧ rest < 2 ^ 48 ∧
      b.totalAssetShares.bits * b.assetShareValue.bits = b.assets * 2 ^ 48 + rest :=
    ⟨_, Int.emod_nonneg _ (by decide), Int.emod_lt_of_pos _ (by decide),
      (Int.ediv_mul_add_emod _ _).symm⟩
  have hdropped : 0 ≤ u.bits * rest ∧ u.bits * rest ≤ u.bits * 2 ^ 48 :=
    ⟨mul_nonneg hnonneg hrest, mul_le_mul_of_nonneg_left hlt.le hnonneg⟩
  rw [hsplit, mul_add, ← mul_assoc, abs_le]
  rw [add_mul, one_mul] at hhigh
  constructor <;> omega

/-- One share of assets and so many shares of debt at the same value of a share of debt. -/
def indebted (b : Bank) (shares : UInt64) : Bank :=
  { b with
    totalAssetShares := I80F48.ofU64 1
    assetShareValue := I80F48.ofU64 1
    totalLiabilityShares := I80F48.ofU64 shares }

theorem indebted_inUse (hvalue : 0 < b.liabilityShareValue.bits) (n : UInt64) :
    (b.indebted n).InUse where
  totalAssetShares := show 0 < (I80F48.ofU64 1).bits by decide
  assetShareValue := show 0 < (I80F48.ofU64 1).bits by decide
  liabilityShareValue := hvalue
  totalLiabilityShares := show (0 : ℤ) ≤ n.toNat * 2 ^ 48 by positivity

/-- What `indebted` takes for its debt, and what it owes, are no more than a unit of each apart. -/
def Alike (shares value : ℤ) : Prop :=
  |shares * 2 ^ 96 / value - shares * value| * 2 ^ 96
    ≤ shares * 2 ^ 96 / value * 2 ^ 48 + 2 * 2 ^ 96

theorem not_alike_one {value : ℤ} (h : 2 ^ 49 ≤ value) : ¬ Alike 1 value := by
  have hpos : 0 < value := by omega
  have hdivided : 1 * 2 ^ 96 / value ≤ 2 ^ 47 := by
    apply Int.ediv_le_of_le_mul hpos
    omega
  rw [Alike, abs_of_nonpos (by omega)]
  omega

theorem not_alike_thousand {value : ℤ} (hpos : 0 < value) (hlt : value < 2 ^ 49)
    (hne : value ≠ 2 ^ 48) :
    ¬ Alike 1024 value := by
  rcases lt_or_gt_of_ne hne with hless | hmore
  · -- below one, at least as much is added as multiplying takes away
    have hdivided : 2 ^ 58 + 1024 * (2 ^ 48 - value) ≤ 1024 * 2 ^ 96 / value := by
      apply Int.le_ediv_of_mul_le hpos
      have hsquare : 0 ≤ (2 ^ 48 - value) * (2 ^ 48 - value) := mul_self_nonneg _
      linarith
    rw [Alike, abs_of_nonneg (by omega)]
    omega
  · -- above one, at least half as much is taken away as multiplying adds
    have hdivided : 1024 * 2 ^ 96 / value ≤ 2 ^ 58 - 512 * (value - 2 ^ 48) := by
      apply Int.ediv_le_of_le_mul hpos
      have hproduct : 0 ≤ (value - 2 ^ 48) * (2 ^ 49 - value) := mul_nonneg (by omega) (by omega)
      linarith
    rw [Alike, abs_of_nonpos (by omega)]
    omega

theorem exists_indebted {n : UInt64} (hn : n.toNat ≤ 1024) (hvalue : 0 < b.liabilityShareValue.bits)
    (hfits : n.toNat * b.liabilityShareValue.bits < 2 ^ 127) :
    ∃ w, (b.indebted n).utilizationRate = some w ∧
      (b.indebted n).utilizationOfAmounts.isSome = true ∧
      ((b.indebted n).UpToRounding w ↔ Alike n.toNat b.liabilityShareValue.bits) := by
  have huse := indebted_inUse hvalue n
  have hassets : (b.indebted n).assets = 2 ^ 48 := by
    show (I80F48.ofU64 1).bits * (I80F48.ofU64 1).bits / 2 ^ 48 = _
    decide
  have hdivided : (b.indebted n).dividedLiabilities
      = n.toNat * 2 ^ 96 / b.liabilityShareValue.bits := by
    show n.toNat * 2 ^ 48 * 2 ^ 48 / b.liabilityShareValue.bits = _
    rw [mul_assoc]
    rfl
  -- both amounts are in range, and dividing by one token of assets keeps them there
  have hle : (n.toNat * 2 ^ 96 : ℤ) / b.liabilityShareValue.bits ≤ n.toNat * 2 ^ 96 :=
    Int.ediv_le_self _ (by positivity)
  obtain ⟨w, hw⟩ : ∃ w : I80F48, w.bits = n.toNat * 2 ^ 96 / b.liabilityShareValue.bits := by
    have hnonneg : (0 : ℤ) ≤ n.toNat * 2 ^ 96 / b.liabilityShareValue.bits :=
      Int.ediv_nonneg (by positivity) hvalue.le
    refine ⟨⟨_, le_trans (by decide) hnonneg, lt_of_le_of_lt hle ?_⟩, rfl⟩
    show (n.toNat * 2 ^ 96 : ℤ) < 2 ^ 127
    omega
  obtain ⟨l, hl⟩ : ∃ l : I80F48, l.bits = n.toNat * b.liabilityShareValue.bits := by
    have hnonneg : (0 : ℤ) ≤ n.toNat * b.liabilityShareValue.bits :=
      mul_nonneg (by positivity) hvalue.le
    exact ⟨⟨_, le_trans (by decide) hnonneg, hfits⟩, rfl⟩
  refine ⟨w, ?_, ?_, ?_⟩
  · rw [huse.utilizationRate_eq_some, hassets, hdivided, Int.mul_ediv_cancel _ (by decide)]
    exact ⟨⟨I80F48.ofU64 1, by decide⟩, ⟨w, hw⟩, by decide, hw⟩
  · have hmul : (b.indebted n).totalLiabilityShares.checkedMul (b.indebted n).liabilityShareValue
        = some l := by
      rw [Fixed.checkedMul_eq_some, hl]
      show _ = n.toNat * 2 ^ 48 * b.liabilityShareValue.bits / 2 ^ 48
      rw [mul_right_comm, Int.mul_ediv_cancel _ (by decide)]
    have hone : (b.indebted n).totalAssetShares.checkedMul (b.indebted n).assetShareValue
        = some (I80F48.ofU64 1) := I80F48.checkedMul_one _
    rw [utilizationOfAmounts, hone, hmul]
    apply Option.isSome_iff_exists.mpr
    refine ⟨l, (I80F48.checkedDiv_ofU64 (n := 1) ?_ (by decide)).mpr ?_⟩
    · rw [hl]
      exact mul_nonneg (by positivity) hvalue.le
    · exact (Int.ediv_one _).symm
  · rw [upToRounding_iff, hw]
    show |_ * ((2 : ℤ) ^ 48 * 2 ^ 48) - n.toNat * 2 ^ 48 * b.liabilityShareValue.bits * 2 ^ 48|
      ≤ _ * 2 ^ 48 + 2 ^ 48 * 2 ^ 48 + 2 ^ 96 ↔ _
    rw [Alike]
    generalize (n.toNat * 2 ^ 96 : ℤ) / b.liabilityShareValue.bits = divided
    have hfactor : divided * ((2 : ℤ) ^ 48 * 2 ^ 48)
        - n.toNat * 2 ^ 48 * b.liabilityShareValue.bits * 2 ^ 48
        = (divided - n.toNat * b.liabilityShareValue.bits) * 2 ^ 96 := by ring
    have hunits : divided * (2 : ℤ) ^ 48 + 2 ^ 48 * 2 ^ 48 + 2 ^ 96
        = divided * 2 ^ 48 + 2 * 2 ^ 96 := by
      ring
    rw [hfactor, hunits, abs_mul, abs_of_pos (by decide : (0 : ℤ) < 2 ^ 96)]

/-- The utilization is the one of the amounts in every bank with this value of a share of debt. -/
def ComparesLikeWithLike (value : I80F48) : Prop :=
  ∀ (c : Bank) (w : I80F48), c.InUse → c.liabilityShareValue = value → c.utilizationRate = some w →
    c.utilizationOfAmounts.isSome = true → c.UpToRounding w

theorem comparesLikeWithLike_iff (hvalue : 0 < b.liabilityShareValue.bits) :
    ComparesLikeWithLike b.liabilityShareValue ↔ b.liabilityShareValue = I80F48.ofU64 1 := by
  constructor
  · intro h
    by_contra hone
    have hne : b.liabilityShareValue.bits ≠ 2 ^ 48 := fun hbits => hone (Fixed.ext hbits)
    have hlt : b.liabilityShareValue.bits < 2 ^ 127 := b.liabilityShareValue.lt_hi
    rcases le_or_gt (2 ^ 49) b.liabilityShareValue.bits with hlarge | hsmall
    · obtain ⟨w, hw, hdefined, hiff⟩ := exists_indebted (b := b) (n := 1) (by decide) hvalue
        (by rw [UInt64.toNat_one]; omega)
      exact not_alike_one hlarge (hiff.mp (h _ w (indebted_inUse hvalue 1) rfl hw hdefined))
    · obtain ⟨w, hw, hdefined, hiff⟩ := exists_indebted (b := b) (n := 1024) (by decide) hvalue
        (by rw [show (1024 : UInt64).toNat = 1024 from rfl]; omega)
      exact not_alike_thousand hvalue hsmall hne
        (hiff.mp (h _ w (indebted_inUse hvalue 1024) rfl hw hdefined))
  · intro hone c w huse hsame hw _
    exact huse.upToRounding hw (.inl (hsame.trans hone))

/-! ### Growing debt -/

/-- The utilization is not less at any larger value of a share of debt. -/
def NeverFalls (b : Bank) (u : I80F48) : Prop :=
  ∀ value u', b.liabilityShareValue.bits ≤ value.bits →
    (b.withLiabilityShareValue value).utilizationRate = some u' → u.bits ≤ u'.bits

theorem InUse.withLiabilityShareValue {value : I80F48} (h : b.InUse)
    (hle : b.liabilityShareValue.bits ≤ value.bits) : (b.withLiabilityShareValue value).InUse :=
  ⟨h.totalAssetShares, h.assetShareValue, lt_of_lt_of_le h.liabilityShareValue hle,
    h.totalLiabilityShares⟩

/-- Where it is defined it is defined at every larger value too, and no larger. -/
theorem InUse.exists_larger {value : I80F48} (h : b.InUse) (hu : b.utilizationRate = some u)
    (hle : b.liabilityShareValue.bits ≤ value.bits) :
    ∃ u', (b.withLiabilityShareValue value).utilizationRate = some u' ∧ u'.bits ≤ u.bits := by
  obtain ⟨hassets, ⟨tl, htl⟩, hpos, hbits⟩ := h.utilizationRate_eq_some.mp hu
  have huse := h.withLiabilityShareValue hle
  have hzero : (I80F48.ofU64 0).bits = 0 := by decide
  have hanti := h.dividedLiabilities_anti hle
  have hnonneg := huse.dividedLiabilities_nonneg
  -- what is less than a number in range is in range
  have htl' : ∃ tl' : I80F48, tl'.bits = (b.withLiabilityShareValue value).dividedLiabilities :=
    Fixed.exists_bits (a := I80F48.ofU64 0) (b := tl) (by omega) (by omega)
  have hless : (b.withLiabilityShareValue value).dividedLiabilities * 2 ^ 48 / b.assets
      ≤ u.bits := by
    rw [hbits]
    exact Int.ediv_le_ediv hpos (by omega)
  have hdefined : 0 ≤ (b.withLiabilityShareValue value).dividedLiabilities * 2 ^ 48 / b.assets :=
    Int.ediv_nonneg (by omega) hpos.le
  obtain ⟨u', hu'⟩ := Fixed.exists_bits (a := I80F48.ofU64 0) (b := u) (by omega) hless
  exact ⟨u', huse.utilizationRate_eq_some.mpr ⟨hassets, htl', hpos, hu'⟩, by omega⟩

/-- At twice the value the utilization is at most half of what it was, so it has to be zero. -/
theorem InUse.neverFalls_iff_zero (h : b.InUse) (hu : b.utilizationRate = some u)
    (hlt : b.liabilityShareValue.bits < 2 ^ 126) :
    b.NeverFalls u ↔ b.dividedLiabilities * 2 ^ 48 < b.assets := by
  obtain ⟨-, -, hpos, hbits⟩ := h.utilizationRate_eq_some.mp hu
  constructor
  · intro hnever
    have hvalue := h.liabilityShareValue
    -- twice the value of a share: the debt is divided by it, and at least halves
    obtain ⟨value, htwice⟩ : ∃ value : I80F48, value.bits = b.liabilityShareValue.bits * 2 := by
      refine ⟨⟨_, ?_, ?_⟩, rfl⟩
      · show -2 ^ 127 ≤ b.liabilityShareValue.bits * 2
        omega
      · show b.liabilityShareValue.bits * 2 < 2 ^ 127
        omega
    have hle : b.liabilityShareValue.bits ≤ value.bits := by omega
    obtain ⟨u', hu', -⟩ := h.exists_larger hu hle
    obtain ⟨-, -, -, hbits'⟩ := (h.withLiabilityShareValue hle).utilizationRate_eq_some.mp hu'
    have hnotless := hnever value u' hle hu'
    have hhalf : (b.withLiabilityShareValue value).dividedLiabilities
        = b.dividedLiabilities / 2 := by
      show b.totalLiabilityShares.bits * 2 ^ 48 / value.bits = _
      rw [htwice, ← Int.ediv_ediv_of_nonneg hvalue.le]
      rfl
    have hnonneg : 0 ≤ u'.bits := by
      rw [hbits']
      exact Int.ediv_nonneg (mul_nonneg (h.withLiabilityShareValue hle).dividedLiabilities_nonneg
        (by decide)) hpos.le
    have htwo : u'.bits * 2 ≤ u.bits := by
      rw [hbits]
      apply Int.le_ediv_of_mul_le hpos
      have hlow : u'.bits * b.assets ≤ b.dividedLiabilities / 2 * 2 ^ 48 := by
        rw [hbits', hhalf]
        exact Int.ediv_mul_le _ hpos.ne'
      rw [mul_right_comm]
      omega
    -- no number but zero is at most its half
    have hhigh : b.dividedLiabilities * 2 ^ 48 < (u.bits + 1) * b.assets := by
      rw [hbits]
      exact Int.lt_ediv_add_one_mul_self _ hpos
    rwa [show u.bits + 1 = 1 by omega, one_mul] at hhigh
  · intro hlost value u' hle hu'
    obtain ⟨-, -, -, hbits'⟩ := (h.withLiabilityShareValue hle).utilizationRate_eq_some.mp hu'
    have hdebt : 0 ≤ b.dividedLiabilities * 2 ^ 48 :=
      mul_nonneg h.dividedLiabilities_nonneg (by decide)
    rw [hbits, Int.ediv_eq_zero_of_lt hdebt hlost, hbits']
    exact Int.ediv_nonneg (mul_nonneg (h.withLiabilityShareValue hle).dividedLiabilities_nonneg
      (by decide)) hpos.le

/-- The largest value of a share of debt, `I80F48::MAX`. -/
def maxShareValue : I80F48 := ⟨2 ^ 127 - 1, by decide, by decide⟩

theorem InUse.neverFalls_iff_max (h : b.InUse) (hu : b.utilizationRate = some u) :
    b.NeverFalls u ↔ b.dividedLiabilities * 2 ^ 48 / b.assets
      = b.totalLiabilityShares.bits * 2 ^ 48 / (2 ^ 127 - 1) * 2 ^ 48 / b.assets := by
  obtain ⟨-, -, hpos, hbits⟩ := h.utilizationRate_eq_some.mp hu
  have hlargest (value : I80F48) : value.bits ≤ maxShareValue.bits :=
    Int.le_sub_one_of_lt value.lt_hi
  have hmax := hlargest b.liabilityShareValue
  obtain ⟨w, hw, hwu⟩ := h.exists_larger hu hmax
  obtain ⟨-, -, -, hwbits⟩ := (h.withLiabilityShareValue hmax).utilizationRate_eq_some.mp hw
  rw [← hbits]
  constructor
  · intro hnever
    exact (le_antisymm (hnever _ _ hmax hw) hwu).trans hwbits
  · intro heq value u' hle hu'
    obtain ⟨w', hw', hle'⟩ := (h.withLiabilityShareValue hle).exists_larger hu' (hlargest value)
    obtain rfl : w = w' := Option.some.inj (hw.symm.trans hw')
    have huw : u.bits = w.bits := heq.trans hwbits.symm
    omega

/-- No debt is left of the utilization to fall: it is rounded to zero. Past half of `I80F48::MAX` no
share value is twice as large, and it is enough that the quotient is the same at the largest one. -/
def DebtLost (b : Bank) : Prop :=
  if b.liabilityShareValue.bits < 2 ^ 126 then
    b.dividedLiabilities * 2 ^ 48 < b.assets
  else
    b.dividedLiabilities * 2 ^ 48 / b.assets
      = b.totalLiabilityShares.bits * 2 ^ 48 / (2 ^ 127 - 1) * 2 ^ 48 / b.assets

/-- The utilization is the one of the amounts up to rounding while a share of debt is worth one, or
nothing is owed; at any other value of a share of debt there are banks where it is not. It never
falls as the debt grows only where it is zero from the start. -/
theorem utilization_iff (h : b.InUse) (hu : b.utilizationRate = some u) :
    (b.liabilityShareValue = I80F48.ofU64 1 ∨ b.totalLiabilityShares.bits = 0 → b.UpToRounding u) ∧
    (ComparesLikeWithLike b.liabilityShareValue ↔ b.liabilityShareValue = I80F48.ofU64 1) ∧
    (b.NeverFalls u ↔ b.DebtLost) := by
  refine ⟨h.upToRounding hu, comparesLikeWithLike_iff h.liabilityShareValue, ?_⟩
  unfold DebtLost
  split
  · exact h.neverFalls_iff_zero hu ‹_›
  · exact h.neverFalls_iff_max hu

end Bank

theorem lendingBank_inUse (n : UInt64) (h : 0 < n) :
    (lendingBank.withLiabilityShareValue (I80F48.ofU64 n)).InUse where
  totalAssetShares := show 0 < (I80F48.ofU64 100).bits by decide
  assetShareValue := show 0 < (I80F48.ofU64 1).bits by decide
  liabilityShareValue := by
    have hpos : 0 < n.toNat := UInt64.lt_iff_toNat_lt.mp h
    show (0 : ℤ) < n.toNat * 2 ^ 48
    positivity
  totalLiabilityShares := show 0 ≤ (I80F48.ofU64 60).bits by decide

/-- The bank with its debt at one token a share: the utilization is right, but it will fall. -/
theorem utilization_iff_one :
    ∃ u, lendingBank.utilizationRate = some u ∧ lendingBank.UpToRounding u ∧
    ¬ lendingBank.NeverFalls u := by
  obtain ⟨u, hu⟩ := Option.isSome_iff_exists.mp
    (show lendingBank.utilizationRate.isSome = true by decide +kernel)
  obtain ⟨hplain, -, hfalls⟩ :=
    Bank.utilization_iff (b := lendingBank) (lendingBank_inUse 1 (by decide)) hu
  refine ⟨u, hu, hplain (.inl rfl), fun hnever => ?_⟩
  have hkept : ¬ lendingBank.dividedLiabilities * 2 ^ 48 < lendingBank.assets := by decide +kernel
  have hlost := hfalls.mp hnever
  rw [Bank.DebtLost, if_pos (by decide)] at hlost
  exact hkept hlost

/-- With the debt at two tokens a share the utilization is more than one. The code takes it for less
than a third, and for more than a half with the debt at one. -/
theorem debt_lowers_utilization : ∃ u u' w,
    (lendingBank.withLiabilityShareValue (I80F48.ofU64 1)).InUse ∧
    (lendingBank.withLiabilityShareValue (I80F48.ofU64 2)).InUse ∧
    (lendingBank.withLiabilityShareValue (I80F48.ofU64 1)).utilizationRate = some u ∧
    (lendingBank.withLiabilityShareValue (I80F48.ofU64 2)).utilizationRate = some u' ∧
    (lendingBank.withLiabilityShareValue (I80F48.ofU64 2)).utilizationOfAmounts = some w ∧
    1 / 2 < u.toRat ∧ u'.toRat < 1 / 3 ∧ 1 < w.toRat ∧
    ¬ (lendingBank.withLiabilityShareValue (I80F48.ofU64 2)).UpToRounding u' ∧
    ¬ (lendingBank.withLiabilityShareValue (I80F48.ofU64 1)).NeverFalls u := by
  obtain ⟨u, hu, hlo⟩ := (Option.any_eq_true _ _).mp
    (show (lendingBank.withLiabilityShareValue (I80F48.ofU64 1)).utilizationRate.any
      (fun u => decide (1 / 2 < u.toRat)) = true by decide +kernel)
  obtain ⟨u', hu', hhi⟩ := (Option.any_eq_true _ _).mp
    (show (lendingBank.withLiabilityShareValue (I80F48.ofU64 2)).utilizationRate.any
      (fun u => decide (0 ≤ u.toRat ∧ u.toRat < 1 / 3)) = true by decide +kernel)
  obtain ⟨w, hw, hmore⟩ := (Option.any_eq_true _ _).mp
    (show (lendingBank.withLiabilityShareValue (I80F48.ofU64 2)).utilizationOfAmounts.any
      (fun w => decide (1 < w.toRat)) = true by decide +kernel)
  obtain ⟨hnonneg, hthird⟩ := of_decide_eq_true hhi
  have hhalf : 1 / 2 < u.toRat := of_decide_eq_true hlo
  refine ⟨u, u', w, lendingBank_inUse 1 (by decide), lendingBank_inUse 2 (by decide), hu, hu', hw,
    hhalf, hthird, of_decide_eq_true hmore, ?_, ?_⟩
  · -- a third of a hundred is not a hundred and twenty
    intro hround
    have hassets : (I80F48.ofU64 100).toRat * (I80F48.ofU64 1).toRat = 100 := by decide +kernel
    have hdebt : (I80F48.ofU64 60).toRat * (I80F48.ofU64 2).toRat = 120 := by decide +kernel
    have hbound : |u'.toRat * ((I80F48.ofU64 100).toRat * (I80F48.ofU64 1).toRat)
        - (I80F48.ofU64 60).toRat * (I80F48.ofU64 2).toRat|
      ≤ (u'.toRat + (I80F48.ofU64 100).toRat * (I80F48.ofU64 1).toRat + 1) / 2 ^ 48 := hround
    rw [hassets, hdebt, abs_le] at hbound
    linarith [hbound.1]
  · intro hnever
    have hle := Fixed.toRat_le_toRat (hnever (I80F48.ofU64 2) u' (by decide) hu')
    linarith

end Saturn
