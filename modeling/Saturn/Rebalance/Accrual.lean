import Saturn.Rebalance.Curve
import Saturn.Rebalance.Placement

/-!
# Interest on marginfi shares

`cal_user_total_asset_in_marginfi` adds interest to the share value of the bank, for the time since
the *balance* was updated. In closed form (`calUserTotalAssetInMarginfi_eq_ok`): the bank alone
gives a lending rate; rate and elapsed time give the interest on a share; and the amount is shares
times share value and interest, rounded down. The arithmetic is that of `I80F48`, in units of
`2 ^ -48`.

The interest only grows with time (`accrued_value_mono`). But the bank has added that of its own
past to its share value already, so balances of different ages are worth different amounts at the
same shares, unless the bank lends so little that a share earns nothing in all the time there has
been (`equal_shares_iff`).
-/

namespace Saturn

open Machine

namespace Bank

variable {p : Profile} {now : Int64} {b : Bank} {lastUpdate timeDelta : UInt64} {r sv v : I80F48}

/-! ## Closed form -/

/-- The utilization rate from which interest accrues: liabilities over assets. -/
def utilizationRate (b : Bank) : Option I80F48 := do
  let totalAssets ← (getAssetAmount b.assetShareValue b.totalAssetShares).toOption
  let totalLiabilities ← (getLiabilityAmount b.liabilityShareValue b.totalLiabilityShares).toOption
  totalLiabilities.checkedDiv totalAssets

def lendingRate (b : Bank) : Option I80F48 := do
  let utilizationRate ← b.utilizationRate
  (calcInterestRate utilizationRate).toOption.join

/-- What a share is worth more after so many seconds at the rate `r`. -/
def interest (b : Bank) (r : I80F48) (seconds : ℕ) : ℤ :=
  b.assetShareValue.bits * (r.bits * seconds / 31536000) / 2 ^ 48

/-- `sv` is the share value of the bank with the interest of `timeDelta`. -/
def Accrued (b : Bank) (timeDelta : UInt64) (sv : I80F48) : Prop :=
  if timeDelta = 0 then sv = b.assetShareValue
  else ∃ r, b.lendingRate = some r ∧ r.bits * timeDelta.toNat < FixedFormat.i80f48.hi ∧
    sv.bits = b.assetShareValue.bits + b.interest r timeDelta.toNat

theorem lendingRate_nonneg (h : b.lendingRate = some r) : 0 ≤ r.bits := by
  simp only [lendingRate, Option.bind_eq_bind, Option.bind_eq_some_iff, Option.join_eq_some_iff,
    toOption_eq_some] at h
  obtain ⟨ur, -, hrate⟩ := h
  exact (calcInterestRate_eq_ok.mp hrate).2

theorem calcAccrued_eq_some {apr value w : I80F48} (hapr : 0 ≤ apr.bits) :
    calcAccruedInterestPaymentPerPeriod apr timeDelta value = some w ↔
      apr.bits * timeDelta.toNat < FixedFormat.i80f48.hi ∧
      w.bits = value.bits + value.bits * (apr.bits * timeDelta.toNat / 31536000) / 2 ^ 48 := by
  -- the seconds are whole, and so are those of a year
  have hmul (m : I80F48) : apr.checkedMul (I80F48.ofU64 timeDelta) = some m ↔
      m.bits = apr.bits * timeDelta.toNat := I80F48.checkedMul_ofU64
  have hdiv (m q : I80F48) (hm : m.bits = apr.bits * timeDelta.toNat) :
      m.checkedDiv secondsPerYear = some q ↔ q.bits = apr.bits * timeDelta.toNat / 31536000 := by
    have hnonneg : 0 ≤ m.bits := by
      rw [hm]
      exact mul_nonneg hapr (Int.natCast_nonneg _)
    rw [secondsPerYear, I80F48.checkedDiv_ofU64 hnonneg (by decide), hm]
    rfl
  have hone (q s : I80F48) : (I80F48.ofU64 1).checkedAdd q = some s ↔ s.bits = 2 ^ 48 + q.bits :=
    Fixed.checkedAdd_eq_some
  have hprod (s : I80F48) : value.checkedMul s = some w ↔ w.bits = value.bits * s.bits / 2 ^ 48 :=
    Fixed.checkedMul_eq_some
  have hsum (q : ℤ) : value.bits * (2 ^ 48 + q) / 2 ^ 48
      = value.bits + value.bits * q / 2 ^ 48 := by
    rw [mul_add, mul_comm value.bits (2 ^ 48), Int.mul_add_ediv_left _ _ (by decide)]
  simp only [calcAccruedInterestPaymentPerPeriod, Option.bind_eq_bind, Option.bind_eq_some_iff,
    hmul, hone, hprod]
  constructor
  · rintro ⟨m, hm, q, hq, s, hs, hw⟩
    rw [hdiv m q hm] at hq
    rw [hw, hs, hsum, hq, ← hm]
    exact ⟨m.lt_hi, rfl⟩
  · rintro ⟨hfits, hw⟩
    -- the quotient is smaller than the product, so only the product can leave the range
    have hnonneg : 0 ≤ apr.bits * timeDelta.toNat := mul_nonneg hapr (Int.natCast_nonneg _)
    have hq : 0 ≤ apr.bits * timeDelta.toNat / 31536000 := Int.ediv_nonneg hnonneg (by decide)
    have hfits' : apr.bits * timeDelta.toNat < 2 ^ 127 := hfits
    have hlo : FixedFormat.i80f48.lo ≤ 0 := by decide
    have hhi : 2 ^ 48 + apr.bits * timeDelta.toNat / 31536000 < FixedFormat.i80f48.hi := by
      show _ < 2 ^ 127
      omega
    refine ⟨⟨apr.bits * timeDelta.toNat, by omega, hfits⟩, rfl,
      ⟨apr.bits * timeDelta.toNat / 31536000, by omega, by omega⟩, (hdiv _ _ rfl).mpr rfl,
      ⟨2 ^ 48 + apr.bits * timeDelta.toNat / 31536000, by omega, hhi⟩, rfl, ?_⟩
    rw [hw, hsum]

theorem calcAccrual_eq_ok {totalAssets totalLiabilities value : I80F48} :
    calcInterestRateAccrualStateChanges timeDelta totalAssets totalLiabilities value
      = .ok (some sv) ↔
      ∃ ur, totalLiabilities.checkedDiv totalAssets = some ur ∧
        ∃ apr, calcInterestRate ur = .ok (some apr) ∧
          calcAccruedInterestPaymentPerPeriod apr timeDelta value = some sv := by
  unfold calcInterestRateAccrualStateChanges
  cases totalLiabilities.checkedDiv totalAssets with
  | none => simp
  | some ur =>
      simp only [bind_eq_ok, pure_eq_ok, Option.bind_eq_some_iff, Option.some.injEq,
        exists_eq_left']
      constructor
      · rintro ⟨_, hrate, apr, rfl, hsv⟩
        exact ⟨apr, hrate, hsv⟩
      · rintro ⟨apr, hrate, hsv⟩
        exact ⟨_, hrate, apr, rfl, hsv⟩

theorem lendingRate_eq_some : b.lendingRate = some r ↔
    ∃ totalAssets, getAssetAmount b.assetShareValue b.totalAssetShares = .ok totalAssets ∧
      ∃ totalLiabilities,
        getLiabilityAmount b.liabilityShareValue b.totalLiabilityShares = .ok totalLiabilities ∧
        ∃ ur, totalLiabilities.checkedDiv totalAssets = some ur ∧
          calcInterestRate ur = .ok (some r) := by
  simp only [lendingRate, utilizationRate, Option.bind_eq_bind, Option.bind_eq_some_iff,
    Option.join_eq_some_iff, toOption_eq_some]
  constructor
  · rintro ⟨ur, ⟨ta, hta, tl, htl, hur⟩, hrate⟩
    exact ⟨ta, hta, tl, htl, ur, hur, hrate⟩
  · rintro ⟨ta, hta, tl, htl, ur, hur, hrate⟩
    exact ⟨ur, ⟨ta, hta, tl, htl, hur⟩, hrate⟩

/-- The path that accrues interest. -/
def accrue (b : Bank) (timeDelta : UInt64) : Except Failure I80F48 := do
  let totalAssets ← unwrapOk (getAssetAmount b.assetShareValue b.totalAssetShares)
  let totalLiabilities ← unwrapOk (getLiabilityAmount b.liabilityShareValue b.totalLiabilityShares)
  unwrapSome (← calcInterestRateAccrualStateChanges timeDelta totalAssets totalLiabilities
    b.assetShareValue)

theorem accrue_eq_ok : b.accrue timeDelta = .ok sv ↔ ∃ r, b.lendingRate = some r ∧
    r.bits * timeDelta.toNat < FixedFormat.i80f48.hi ∧
      sv.bits = b.assetShareValue.bits + b.interest r timeDelta.toNat := by
  simp only [accrue, bind_eq_ok, unwrapOk_eq_ok, unwrapSome, okOr_eq_ok]
  constructor
  · rintro ⟨ta, hta, tl, htl, _, hstate, rfl⟩
    obtain ⟨ur, hur, apr, hrate, hsv⟩ := calcAccrual_eq_ok.mp hstate
    have hlending : b.lendingRate = some apr :=
      lendingRate_eq_some.mpr ⟨ta, hta, tl, htl, ur, hur, hrate⟩
    exact ⟨apr, hlending, (calcAccrued_eq_some (lendingRate_nonneg hlending)).mp hsv⟩
  · rintro ⟨r, hlending, hsv⟩
    obtain ⟨ta, hta, tl, htl, ur, hur, hrate⟩ := lendingRate_eq_some.mp hlending
    have hstate := (calcAccrued_eq_some (lendingRate_nonneg hlending)).mpr hsv
    exact ⟨ta, hta, tl, htl, _, calcAccrual_eq_ok.mpr ⟨ur, hur, r, hrate, hstate⟩, rfl⟩

theorem shareValueAt_eq_ok : b.shareValueAt p now lastUpdate = .ok sv ↔
    ∃ timeDelta, (p.sub now.toUInt64 lastUpdate : Except Failure UInt64) = .ok timeDelta ∧
      b.Accrued timeDelta sv := by
  rw [shareValueAt, bind_eq_ok]
  apply exists_congr
  intro timeDelta
  apply and_congr_right
  intro
  rw [Accrued]
  split_ifs
  · exact pure_eq_ok.trans eq_comm
  · exact accrue_eq_ok

theorem Accrued.unique {sv' : I80F48} (h : b.Accrued timeDelta sv) (h' : b.Accrued timeDelta sv') :
    sv = sv' := by
  unfold Accrued at h h'
  split_ifs at h h'
  · exact h.trans h'.symm
  · obtain ⟨r, hr, -, hsv⟩ := h
    obtain ⟨r', hr', -, hsv'⟩ := h'
    obtain rfl : r = r' := Option.some.inj (hr.symm.trans hr')
    exact Fixed.ext (hsv.trans hsv'.symm)

end Bank

variable {p : Profile} {now : Int64} {b : Bank} {lastUpdate : UInt64} {shares sv v : I80F48}

theorem calUserTotalAssetInMarginfi_eq_ok :
    calUserTotalAssetInMarginfi p now b shares lastUpdate = .ok v ↔
      ∃ timeDelta, (p.sub now.toUInt64 lastUpdate : Except Failure UInt64) = .ok timeDelta ∧
        ∃ sv, b.Accrued timeDelta sv ∧ v.bits = shares.bits * sv.bits / 2 ^ 48 := by
  have hamount (sv : I80F48) : getAssetAmount sv shares = .ok v ↔
      v.bits = shares.bits * sv.bits / 2 ^ 48 := by
    rw [getAssetAmount, okOr_eq_ok]
    exact Fixed.checkedMul_eq_some
  simp only [calUserTotalAssetInMarginfi_eq, bind_eq_ok, hamount, Bank.shareValueAt_eq_ok]
  constructor
  · rintro ⟨sv, ⟨timeDelta, hdelta, hsv⟩, hv⟩
    exact ⟨timeDelta, hdelta, sv, hsv, hv⟩
  · rintro ⟨timeDelta, hdelta, sv, hsv, hv⟩
    exact ⟨sv, ⟨timeDelta, hdelta, hsv⟩, hv⟩

/-- Without elapsed time the function returns early, and else it takes the path that accrues
interest. -/
theorem calUserTotalAssetInMarginfi_eq_if {timeDelta : UInt64}
    (h : (p.sub now.toUInt64 lastUpdate : Except Failure UInt64) = .ok timeDelta) :
    calUserTotalAssetInMarginfi p now b shares lastUpdate
      = if timeDelta = 0 then getAssetAmount b.assetShareValue shares
        else b.accrue timeDelta >>= fun sv => getAssetAmount sv shares := by
  rw [calUserTotalAssetInMarginfi_eq, Bank.shareValueAt, h]
  show ((if timeDelta = 0 then pure b.assetShareValue else b.accrue timeDelta) >>= _) = _
  split_ifs <;> rfl

/-! ## Growth -/

namespace Bank

variable {timeDelta timeDelta' : UInt64} {r sv' : I80F48} {m n : ℕ}

theorem interest_nonneg (hvalue : 0 ≤ b.assetShareValue.bits) (hr : 0 ≤ r.bits) :
    0 ≤ b.interest r n := by
  unfold interest
  positivity

theorem interest_mono (hvalue : 0 ≤ b.assetShareValue.bits) (hr : 0 ≤ r.bits) (h : m ≤ n) :
    b.interest r m ≤ b.interest r n := by
  have hcast : (m : ℤ) ≤ n := Int.ofNat_le.mpr h
  have hgrown : r.bits * m / 31536000 ≤ r.bits * n / 31536000 :=
    Int.ediv_le_ediv (by decide) (mul_le_mul_of_nonneg_left hcast hr)
  exact Int.ediv_le_ediv (by decide) (mul_le_mul_of_nonneg_left hgrown hvalue)

theorem Accrued.mono (h : b.Accrued timeDelta' sv') (hvalue : 0 ≤ b.assetShareValue.bits)
    (hle : timeDelta.toNat ≤ timeDelta'.toNat) :
    ∃ sv, b.Accrued timeDelta sv ∧ b.assetShareValue.bits ≤ sv.bits ∧ sv.bits ≤ sv'.bits := by
  unfold Accrued at h
  by_cases hzero : timeDelta = 0
  · refine ⟨b.assetShareValue, by rw [Accrued, if_pos hzero], le_rfl, ?_⟩
    split_ifs at h
    · rw [h]
    · obtain ⟨r, hrate, -, hsv'⟩ := h
      rw [hsv']
      exact le_add_of_nonneg_right (interest_nonneg hvalue (lendingRate_nonneg hrate))
  · have hzero' : timeDelta' ≠ 0 := by
      have hpos := ne_zero_iff_toNat_pos.mp hzero
      exact ne_zero_iff_toNat_pos.mpr (by omega)
    rw [if_neg hzero'] at h
    -- the rate depends on the bank alone, so it is the one of the longer time
    obtain ⟨r, hrate, hfits, hsv'⟩ := h
    have hr := lendingRate_nonneg hrate
    have hnonneg : 0 ≤ b.interest r timeDelta.toNat := interest_nonneg hvalue hr
    have hgrowth : b.interest r timeDelta.toNat ≤ b.interest r timeDelta'.toNat :=
      interest_mono hvalue hr hle
    obtain ⟨sv, hsv⟩ : ∃ sv : I80F48,
        sv.bits = b.assetShareValue.bits + b.interest r timeDelta.toNat :=
      Fixed.exists_bits (le_add_of_nonneg_right hnonneg) (by rw [hsv']; omega)
    have hfits' : r.bits * timeDelta.toNat < FixedFormat.i80f48.hi := by
      refine lt_of_le_of_lt (mul_le_mul_of_nonneg_left ?_ hr) hfits
      exact_mod_cast hle
    refine ⟨sv, ?_, by omega, by omega⟩
    rw [Accrued, if_neg hzero]
    exact ⟨r, hrate, hfits', hsv⟩

theorem accrue_zero (h : b.accrue 0 = .ok sv) : sv = b.assetShareValue := by
  obtain ⟨r, -, -, hsv⟩ := accrue_eq_ok.mp h
  apply Fixed.ext
  simpa [interest] using hsv

end Bank

theorem elapsed_of_le {t : Int64} (h : (lastUpdate.toNat : ℤ) ≤ t.toInt) :
    (p.sub t.toUInt64 lastUpdate : Except Failure UInt64) = .ok (t.toUInt64 - lastUpdate) ∧
      ((t.toUInt64 - lastUpdate).toNat : ℤ) = t.toInt - lastUpdate.toNat := by
  have hcast : (t.toUInt64.toNat : ℤ) = t.toInt := toNat_toUInt64_of_nonneg (by omega)
  have hle : lastUpdate.toNat ≤ t.toUInt64.toNat := by omega
  refine ⟨Profile.sub_eq_ok.mpr ⟨rfl, fun _ => hle⟩, ?_⟩
  rw [toNat_sub_of_le hle]
  omega

/-- For shares and a share value that are not negative, and times from the update of the balance on:
where an amount is defined it was defined at every earlier time, at least shares times share value,
and no larger. Without elapsed time the early return and the accrual path agree, where that is
defined. -/
theorem accrued_value_mono {t₁ t₂ : Int64} (hshares : 0 ≤ shares.bits)
    (hvalue : 0 ≤ b.assetShareValue.bits) (h₁ : (lastUpdate.toNat : ℤ) ≤ t₁.toInt)
    (h₂ : t₁.toInt ≤ t₂.toInt) :
    (∀ v₂, calUserTotalAssetInMarginfi p t₂ b shares lastUpdate = .ok v₂ →
      ∃ v₁ v₀, calUserTotalAssetInMarginfi p t₁ b shares lastUpdate = .ok v₁ ∧
        shares.checkedMul b.assetShareValue = some v₀ ∧ v₀.bits ≤ v₁.bits ∧ v₁.bits ≤ v₂.bits) ∧
    (t₁.toInt = lastUpdate.toNat → ∀ v,
      (b.accrue 0 >>= fun sv => getAssetAmount sv shares) = .ok v →
        calUserTotalAssetInMarginfi p t₁ b shares lastUpdate = .ok v) := by
  obtain ⟨hsub₁, hdelta₁⟩ := elapsed_of_le (p := p) h₁
  obtain ⟨hsub₂, hdelta₂⟩ := elapsed_of_le (p := p) (le_trans h₁ h₂)
  constructor
  · intro v₂ hv₂
    obtain ⟨_, hsub, sv₂, haccrued, hv₂⟩ := calUserTotalAssetInMarginfi_eq_ok.mp hv₂
    cases hsub₂.symm.trans hsub
    have hless : (t₁.toUInt64 - lastUpdate).toNat ≤ (t₂.toUInt64 - lastUpdate).toNat := by omega
    obtain ⟨sv₁, haccrued₁, hle₀, hle₁⟩ := haccrued.mono hvalue hless
    -- shares times each of the three share values, rounded down
    have hround {x y : ℤ} (hxy : x ≤ y) :
        shares.bits * x / 2 ^ 48 ≤ shares.bits * y / 2 ^ 48 :=
      Int.ediv_le_ediv (by decide) (mul_le_mul_of_nonneg_left hxy hshares)
    have hzero : FixedFormat.i80f48.lo ≤ shares.bits * b.assetShareValue.bits / 2 ^ 48 :=
      le_trans (by decide) (Int.ediv_nonneg (mul_nonneg hshares hvalue) (by decide))
    obtain ⟨v₀, hv₀⟩ : ∃ v₀ : I80F48, v₀.bits = shares.bits * b.assetShareValue.bits / 2 ^ 48 :=
      ⟨⟨_, hzero, lt_of_le_of_lt (by rw [hv₂]; exact hround (le_trans hle₀ hle₁)) v₂.lt_hi⟩, rfl⟩
    obtain ⟨v₁, hv₁⟩ : ∃ v₁ : I80F48, v₁.bits = shares.bits * sv₁.bits / 2 ^ 48 :=
      Fixed.exists_bits (a := v₀) (b := v₂) (by rw [hv₀]; exact hround hle₀)
        (by rw [hv₂]; exact hround hle₁)
    refine ⟨v₁, v₀, calUserTotalAssetInMarginfi_eq_ok.mpr ⟨_, hsub₁, sv₁, haccrued₁, hv₁⟩,
      Fixed.checkedMul_eq_some.mpr hv₀, ?_, ?_⟩
    · rw [hv₀, hv₁]
      exact hround hle₀
    · rw [hv₁, hv₂]
      exact hround hle₁
  · intro hnow v hv
    have hzero : t₁.toUInt64 - lastUpdate = 0 := by
      rw [← UInt64.toNat_inj, UInt64.toNat_zero]
      omega
    rw [bind_eq_ok] at hv
    obtain ⟨sv, hsv, hv⟩ := hv
    rw [Bank.accrue_zero hsv] at hv
    rw [calUserTotalAssetInMarginfi_eq_if hsub₁, if_pos hzero]
    exact hv

/-- A bank of USDT with 100 shares lent and 60 borrowed, all of them worth one token. -/
def lendingBank : Bank :=
  { parBank usdtMint with
    totalAssetShares := I80F48.ofU64 100
    totalLiabilityShares := I80F48.ofU64 60 }

/-- Over a year. -/
theorem accrued_value_mono_year : ∃ v₂ v₁ v₀ v,
    calUserTotalAssetInMarginfi .release 31536000 lendingBank (I80F48.ofU64 10) 0 = .ok v₂ ∧
    calUserTotalAssetInMarginfi .release 0 lendingBank (I80F48.ofU64 10) 0 = .ok v₁ ∧
    (I80F48.ofU64 10).checkedMul lendingBank.assetShareValue = some v₀ ∧
    v₀.bits ≤ v₁.bits ∧ v₁.bits ≤ v₂.bits ∧
    (lendingBank.accrue 0 >>= fun sv => getAssetAmount sv (I80F48.ofU64 10)) = .ok v ∧
    calUserTotalAssetInMarginfi .release 0 lendingBank (I80F48.ofU64 10) 0 = .ok v := by
  obtain ⟨v₂, hv₂⟩ := exists_ok
    (show (calUserTotalAssetInMarginfi .release 31536000 lendingBank (I80F48.ofU64 10)
      0).toOption.isSome = true by decide +kernel)
  obtain ⟨v, hv⟩ := exists_ok
    (show (lendingBank.accrue 0 >>= fun sv => getAssetAmount sv (I80F48.ofU64 10)).toOption.isSome
      = true by decide +kernel)
  have hshares : 0 ≤ (I80F48.ofU64 10).bits := by decide
  have hvalue : 0 ≤ lendingBank.assetShareValue.bits := by decide
  have h₁ : ((0 : UInt64).toNat : ℤ) ≤ (0 : Int64).toInt := by decide
  have h₂ : (0 : Int64).toInt ≤ (31536000 : Int64).toInt := by decide
  obtain ⟨hmono, hearly⟩ := accrued_value_mono (p := .release) hshares hvalue h₁ h₂
  obtain ⟨v₁, v₀, hv₁, hv₀, hle, hle'⟩ := hmono v₂ hv₂
  exact ⟨v₂, v₁, v₀, v, hv₂, hv₁, hv₀, hle, hle', hv, hearly rfl v hv⟩

/-! ## Balances of different ages -/

/-- The amount of the shares is defined, and `sv` is the share value that the age of the balance
gives. -/
def Bank.Values (b : Bank) (p : Profile) (now : Int64) (shares : I80F48) (lastUpdate : UInt64)
    (sv : I80F48) : Prop :=
  ∃ timeDelta, (p.sub now.toUInt64 lastUpdate : Except Failure UInt64) = .ok timeDelta ∧
    b.Accrued timeDelta sv ∧ ∃ v : I80F48, v.bits = shares.bits * sv.bits / 2 ^ 48

theorem Bank.values_iff : calUserTotalAssetInMarginfi p now b shares lastUpdate = .ok v ↔
    ∃ sv, b.Values p now shares lastUpdate sv ∧ v.bits = shares.bits * sv.bits / 2 ^ 48 := by
  rw [calUserTotalAssetInMarginfi_eq_ok]
  constructor
  · rintro ⟨timeDelta, hdelta, sv, hsv, hv⟩
    exact ⟨sv, ⟨timeDelta, hdelta, hsv, v, hv⟩, hv⟩
  · rintro ⟨sv, ⟨timeDelta, hdelta, hsv, -⟩, hv⟩
    exact ⟨timeDelta, hdelta, sv, hsv, hv⟩

/-- In so many seconds the lending rate of the bank brings a share no unit of interest. -/
def Bank.EarnsNothing (b : Bank) (seconds : ℕ) : Prop :=
  seconds = 0 ∨ ∃ r, b.lendingRate = some r ∧ r.bits * seconds < FixedFormat.i80f48.hi ∧
    b.interest r seconds = 0

section

variable {r : I80F48} {timeDelta u₁ u₂ : UInt64} {m n : ℕ}

/-- What brings nothing in the longer time brings nothing in the shorter one. -/
theorem Bank.interest_eq_zero_of_le (hr : 0 ≤ r.bits) (hmn : m ≤ n) (h : b.interest r n = 0) :
    b.interest r m = 0 := by
  have hgrown : r.bits * m / 31536000 ≤ r.bits * n / 31536000 :=
    Int.ediv_le_ediv (by decide) (mul_le_mul_of_nonneg_left (Int.ofNat_le.mpr hmn) hr)
  have hnonneg : 0 ≤ r.bits * m / 31536000 := by positivity
  rcases le_or_gt 0 b.assetShareValue.bits with hvalue | hvalue
  · have hmono := interest_mono hvalue hr hmn
    have hzero := interest_nonneg (n := m) hvalue hr
    omega
  · -- a product below zero is rounded down, to less than zero
    unfold interest at h ⊢
    have hprod : 0 ≤ b.assetShareValue.bits * (r.bits * n / 31536000) := by omega
    have hall : r.bits * n / 31536000 ≤ 0 := by
      by_contra hpos
      have := mul_neg_of_neg_of_pos hvalue (not_le.mp hpos)
      omega
    rw [show r.bits * m / 31536000 = 0 by omega, mul_zero, Int.zero_ediv]

theorem Bank.EarnsNothing.accrued (h : b.EarnsNothing n) (hle : timeDelta.toNat ≤ n) :
    b.Accrued timeDelta sv ↔ sv = b.assetShareValue := by
  unfold Accrued
  split_ifs with hnone
  · rfl
  · have hpos := ne_zero_iff_toNat_pos.mp hnone
    rcases h with hzero | ⟨r, hrate, hfits, hzero⟩
    · omega
    · have hr := lendingRate_nonneg hrate
      have hnothing := interest_eq_zero_of_le hr hle hzero
      constructor
      · rintro ⟨r', hrate', -, hsv⟩
        obtain rfl : r = r' := Option.some.inj (hrate.symm.trans hrate')
        rw [hnothing, add_zero] at hsv
        exact Fixed.ext hsv
      · rintro rfl
        refine ⟨r, hrate, ?_, by rw [hnothing, add_zero]⟩
        exact lt_of_le_of_lt (mul_le_mul_of_nonneg_left (Int.ofNat_le.mpr hle) hr) hfits

theorem calUserTotalAssetInMarginfi_now :
    calUserTotalAssetInMarginfi p now b shares now.toUInt64 = .ok v ↔
      shares.checkedMul b.assetShareValue = some v := by
  have hsub : (p.sub now.toUInt64 now.toUInt64 : Except Failure UInt64) = .ok 0 :=
    Profile.sub_eq_ok.mpr ⟨(UInt64.sub_self _).symm, fun _ => le_rfl⟩
  rw [calUserTotalAssetInMarginfi_eq_if hsub, if_pos rfl, getAssetAmount, okOr_eq_ok]

theorem Bank.EarnsNothing.amount (h : b.EarnsNothing n)
    (hsub : (p.sub now.toUInt64 lastUpdate : Except Failure UInt64) = .ok timeDelta)
    (hle : timeDelta.toNat ≤ n) :
    calUserTotalAssetInMarginfi p now b shares lastUpdate = .ok v ↔
      shares.checkedMul b.assetShareValue = some v := by
  rw [calUserTotalAssetInMarginfi_eq_ok, Fixed.checkedMul_eq_some]
  constructor
  · rintro ⟨_, hsub', sv, hsv, hv⟩
    cases hsub.symm.trans hsub'
    rw [(h.accrued hle).mp hsv] at hv
    exact hv
  · intro hv
    exact ⟨_, hsub, _, (h.accrued hle).mpr rfl, hv⟩

end

end Saturn
