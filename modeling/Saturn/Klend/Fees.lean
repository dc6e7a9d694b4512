import Saturn.Klend.ReserveRuns

/-!
# Fees, and what a borrower gets

`ReserveFees::calculate_fees` takes a part of an amount, at least one token, and leaves a part of it
to the referrer. `Reserve::calculate_borrow` adds the fees to the amount asked for, or takes them
out of the most that can be borrowed.

What the protocol and the referrer get adds up to the whole fee (`calculateFees_bounds`). What a
loan takes out of the reserve is what the borrower and the two get, to the token
(`calculateBorrow_split`), and it is within the limits it was given.
-/

namespace Saturn.Klend

open Machine

/-- `FeeCalculation`. -/
inductive FeeCalculation where
  | exclusive
  | inclusive
  deriving DecidableEq

namespace ReserveFees

def feeRate (feeSf : UInt64) : U68F60 where
  bits := feeSf.toNat
  lo_le := Int.natCast_nonneg _
  lt_hi := by
    have := feeSf.toNat_lt
    simp only [FixedFormat.u68f60]
    omega

variable (p : Profile)

/-- The fee in `calculate_fees`, before the minimum and the rounding. -/
def borrowFeeAmount (amount borrowFeeRate : U68F60) (feeCalculation : FeeCalculation) :
    Except Failure U68F60 :=
  match feeCalculation with
  | .exclusive => .ok (amount.mul borrowFeeRate)
  | .inclusive => do
      let borrowFeeRate ← borrowFeeRate.div (← borrowFeeRate.add p U68F60.one)
      return amount.mul borrowFeeRate

/-- What `calculate_fees` leaves to the referrer. -/
def referralFee (borrowFeeF : U68F60) (borrowFee : UInt64) (referralFeeBps : UInt16)
    (hasReferrer : Bool) : UInt64 :=
  if U68F60.zero < fromBps referralFeeBps.toUInt64 ∧ hasReferrer = true then
    if referralFeeBps = 10000 then borrowFee
    else toFloor (borrowFeeF.mul (fromBps referralFeeBps.toUInt64))
  else 0

/-- `ReserveFees::calculate_fees`: what the protocol gets, and the referrer. -/
def calculateFees (amount : U68F60) (feeSf : UInt64) (feeCalculation : FeeCalculation)
    (referralFeeBps : UInt16) (hasReferrer : Bool) : Except Failure (UInt64 × UInt64) :=
  if U68F60.zero < feeRate feeSf ∧ U68F60.zero < amount then do
    let minimumFee : UInt64 := 1
    let borrowFeeAmount ← borrowFeeAmount p amount (feeRate feeSf) feeCalculation
    let borrowFeeF := max borrowFeeAmount (U68F60.ofU64 minimumFee)
    require (borrowFeeF < amount) (Failure.lending .borrowTooSmall)
    let borrowFee := toRound borrowFeeF
    let referralFee := referralFee borrowFeeF borrowFee referralFeeBps hasReferrer
    let protocolFee ← p.sub borrowFee referralFee
    return (protocolFee, referralFee)
  else .ok (0, 0)

variable (fees : ReserveFees)

/-- `ReserveFees::calculate_borrow_fees`. -/
def calculateBorrowFees (borrowAmount : U68F60) (feeCalculation : FeeCalculation)
    (referralFeeBps : UInt16) (hasReferrer : Bool) : Except Failure (UInt64 × UInt64) :=
  calculateFees p borrowAmount fees.borrowFeeSf feeCalculation referralFeeBps hasReferrer

end ReserveFees

/-- `ReserveConfig::get_borrow_factor`. -/
def ReserveConfig.getBorrowFactor (config : ReserveConfig) : U68F60 :=
  max U68F60.one (fromPercent config.borrowFactorPct)

/-- `CalculateBorrowResult`. -/
structure CalculateBorrowResult where
  borrowAmountF : U68F60
  receiveAmount : UInt64
  borrowFee : UInt64
  referrerFee : UInt64

namespace Reserve

variable (p : Profile) (r : Reserve)

/-- `Reserve::borrow_factor_f`. -/
def borrowFactorF (isInElevationGroup : Bool) : U68F60 :=
  if isInElevationGroup then U68F60.one else r.config.getBorrowFactor

/-- `10u64.checked_pow` of the decimals, which are cast to 32 bits. -/
def decimalsFactor : Except Failure UInt64 :=
  let factor := 10 ^ r.liquidity.mintDecimals.toUInt32.toNat
  if factor < 2 ^ 64 then .ok (UInt64.ofNat factor) else .error (.lending .mathOverflow)

/-- `Reserve::calculate_borrow`. -/
def calculateBorrow (amountToBorrow : UInt64)
    (maxBorrowFactorAdjustedDebtValue remainingReserveBorrow : U68F60) (referralFeeBps : UInt16)
    (isInElevationGroup hasReferrer : Bool) : Except Failure CalculateBorrowResult := do
  let decimals ← r.decimalsFactor
  let marketPriceF := r.liquidity.marketPriceSf
  if amountToBorrow.toNat = 2 ^ 64 - 1 then
    let value ← maxBorrowFactorAdjustedDebtValue.mulInt p decimals.toNat
    let most ← (← value.div marketPriceF).div (r.borrowFactorF isInElevationGroup)
    let borrowAmountF :=
      min (min most remainingReserveBorrow) (U68F60.ofU64 r.liquidity.availableAmount)
    let (borrowFee, referrerFee) ←
      r.config.fees.calculateBorrowFees p borrowAmountF .inclusive referralFeeBps hasReferrer
    let borrowAmount := toFloor borrowAmountF
    let receiveAmount ← p.sub (← p.sub borrowAmount borrowFee) referrerFee
    return { borrowAmountF, receiveAmount, borrowFee, referrerFee }
  else
    let receiveAmount := amountToBorrow
    let borrowAmountF := U68F60.ofU64 receiveAmount
    let (borrowFee, referrerFee) ←
      r.config.fees.calculateBorrowFees p borrowAmountF .exclusive referralFeeBps hasReferrer
    let borrowAmountF ← borrowAmountF.add p (U68F60.ofU64 (← p.add borrowFee referrerFee))
    let value ← U68F60.divInt (borrowAmountF.mul marketPriceF) decimals.toNat
    let borrowFactorAdjustedDebtValue := value.mul (r.borrowFactorF isInElevationGroup)
    require (borrowFactorAdjustedDebtValue ≤ maxBorrowFactorAdjustedDebtValue)
      (Failure.lending .borrowTooLarge)
    return { borrowAmountF, receiveAmount, borrowFee, referrerFee }

end Reserve

/-! ## Fees -/

section

variable {p : Profile} {amount : U68F60} {feeSf : UInt64} {calculation : FeeCalculation}
  {bps : UInt16} {referrer : Bool} {protocol referral : UInt64}

/-- The part of an amount that is the fee. -/
def FeeCalculation.part (calculation : FeeCalculation) (feeSf : UInt64) : ℤ :=
  match calculation with
  | .exclusive => feeSf.toNat
  | .inclusive => feeSf.toNat * 2 ^ 60 / (feeSf.toNat + 2 ^ 60)

/-- The fee on an amount, in bits: its part, or one token. -/
def feeBits (calculation : FeeCalculation) (feeSf : UInt64) (amount : U68F60) : ℤ :=
  max (amount.bits * calculation.part feeSf / 2 ^ 60) (2 ^ 60)

theorem bits_inclusiveRate {a b : U68F60}
    (ha : (ReserveFees.feeRate feeSf).add p U68F60.one = (.ok a : Except Failure U68F60))
    (hb : (ReserveFees.feeRate feeSf).div a = (.ok b : Except Failure U68F60)) :
    b.bits = FeeCalculation.inclusive.part feeSf := by
  have hlt := feeSf.toNat_lt
  have hrate : (ReserveFees.feeRate feeSf).bits = feeSf.toNat := rfl
  obtain ⟨rfl, -⟩ := Fixed.exact_eq_ok.mp ha
  obtain ⟨-, hb⟩ := U68F60.div_eq_ok.mp hb
  rw [U68F60.bits_wrap (by rw [hrate, U68F60.bits_one]; omega)
    (by rw [hrate, U68F60.bits_one]; omega), hrate, U68F60.bits_one] at hb
  rw [hb, FeeCalculation.part]
  have hle : (feeSf.toNat * 2 ^ 60 : ℤ) / (feeSf.toNat + 2 ^ 60) ≤ feeSf.toNat * 2 ^ 60 :=
    Int.ediv_le_self _ (by positivity)
  exact Int.emod_eq_of_lt (Int.ediv_nonneg (by positivity) (by positivity)) (by omega)

theorem part_bounds : 0 ≤ calculation.part feeSf ∧ calculation.part feeSf < 2 ^ 64 := by
  have hlt := feeSf.toNat_lt
  cases calculation with
  | exclusive =>
      simp only [FeeCalculation.part]
      omega
  | inclusive =>
      simp only [FeeCalculation.part]
      have hpos : (0 : ℤ) < feeSf.toNat + 2 ^ 60 := by positivity
      refine ⟨Int.ediv_nonneg (by positivity) hpos.le, Int.ediv_lt_of_lt_mul hpos ?_⟩
      omega

theorem bits_borrowFeeAmount {f : U68F60} (hamount : amount.bits < 2 ^ 124)
    (hf : ReserveFees.borrowFeeAmount p amount (ReserveFees.feeRate feeSf) calculation = .ok f) :
    f.bits = amount.bits * calculation.part feeSf / 2 ^ 60 := by
  have hpart : 0 ≤ calculation.part feeSf ∧ calculation.part feeSf < 2 ^ 64 := part_bounds
  have hnonneg := U68F60.bits_nonneg amount
  have hprod : amount.bits * calculation.part feeSf < 2 ^ 188 := by
    calc amount.bits * calculation.part feeSf ≤ amount.bits * 2 ^ 64 :=
          mul_le_mul_of_nonneg_left hpart.2.le hnonneg
      _ < 2 ^ 188 := by omega
  cases calculation with
  | exclusive =>
      cases hf
      exact U68F60.bits_mul hprod
  | inclusive =>
      simp only [ReserveFees.borrowFeeAmount, bind_eq_ok, pure_eq_ok] at hf
      obtain ⟨a, ha, b, hb, rfl⟩ := hf
      have hrate := bits_inclusiveRate ha hb
      rw [U68F60.bits_mul (by rw [hrate]; exact hprod), hrate]

theorem toNat_toRound {f : U68F60} (hf : f.bits ≤ (2 ^ 64 - 1) * 2 ^ 60) :
    ((toRound f).toNat : ℤ) = (f.bits + 2 ^ 59) / 2 ^ 60 := by
  have hnonneg := U68F60.bits_nonneg f
  have hround : (U68F60.round f).bits = (f.bits + 2 ^ 59) / 2 ^ 60 * 2 ^ 60 :=
    U68F60.bits_round (by omega)
  have htrunc := U68F60.toNat_toU64 (a := U68F60.round f) (by rw [hround]; omega)
  rw [hround, Int.mul_ediv_cancel _ (by norm_num)] at htrunc
  exact htrunc

/-- The referrer gets nothing of what there is no referrer for, and no more than its part, which is
at most all. -/
theorem referralFee_bounds {f : U68F60} (hf : f.bits ≤ (2 ^ 64 - 1) * 2 ^ 60)
    (hbps : bps.toNat ≤ 10000) :
    (ReserveFees.referralFee f (toRound f) bps referrer).toNat ≤ (toRound f).toNat ∧
      (referrer = false → ReserveFees.referralFee f (toRound f) bps referrer = 0) ∧
      (bps.toNat < 10000 →
        ((ReserveFees.referralFee f (toRound f) bps referrer).toNat : ℤ) * 2 ^ 60 * 10000
          ≤ f.bits * bps.toNat) := by
  have hnonneg := U68F60.bits_nonneg f
  have hrate : (fromBps bps.toUInt64).bits * 10000 ≤ bps.toNat * 2 ^ 60 := by
    rw [fromBps, ofRatio_bits, UInt16.toNat_toUInt64]
    exact Int.ediv_mul_le _ (by norm_num)
  -- three roundings, all of them down
  have hpart : ((toFloor (f.mul (fromBps bps.toUInt64))).toNat : ℤ) * 2 ^ 60 * 10000
      ≤ f.bits * bps.toNat := by
    have hfloor := U68F60.toNat_toU64_le (f.mul (fromBps bps.toUInt64))
    have hmul := U68F60.bits_mul_le f (fromBps bps.toUInt64)
    have hscaled := mul_le_mul_of_nonneg_left hrate hnonneg
    have hdiv : f.bits * (fromBps bps.toUInt64).bits / 2 ^ 60 * 2 ^ 60
        ≤ f.bits * (fromBps bps.toUInt64).bits := Int.ediv_mul_le _ (by norm_num)
    show ((f.mul (fromBps bps.toUInt64)).toU64.toNat : ℤ) * 2 ^ 60 * 10000 ≤ _
    linarith
  have hall : f.bits * bps.toNat ≤ f.bits * 10000 :=
    mul_le_mul_of_nonneg_left (by exact_mod_cast hbps) hnonneg
  have hround := toNat_toRound hf
  unfold ReserveFees.referralFee
  split_ifs with hassess hfull
  · refine ⟨le_rfl, fun hnone => absurd (hnone ▸ hassess.2) Bool.false_ne_true, fun hlt => ?_⟩
    have hbps' : bps.toNat = 10000 := congrArg UInt16.toNat hfull
    omega
  · exact ⟨by omega, fun hnone => absurd (hnone ▸ hassess.2) Bool.false_ne_true, fun _ => hpart⟩
  · refine ⟨Nat.zero_le _, fun _ => rfl, fun _ => ?_⟩
    have hzero : ((0 : UInt64).toNat : ℤ) = 0 := rfl
    rw [hzero, zero_mul, zero_mul]
    exact mul_nonneg hnonneg (Int.natCast_nonneg _)

/-- Where something is charged, it is the fee rounded to the nearest token, at least one and less
than the amount before rounding; the protocol and the referrer share it, and the referrer gets no
more than its part. -/
theorem calculateFees_bounds (hamount : amount.bits ≤ (2 ^ 64 - 1) * 2 ^ 60)
    (hbps : bps.toNat ≤ 10000)
    (h : ReserveFees.calculateFees p amount feeSf calculation bps referrer
      = .ok (protocol, referral)) :
    if feeSf = 0 ∨ amount = U68F60.zero then protocol = 0 ∧ referral = 0
    else feeBits calculation feeSf amount < amount.bits ∧
      (protocol.toNat + referral.toNat : ℤ) = (feeBits calculation feeSf amount + 2 ^ 59) / 2 ^ 60 ∧
      (referrer = false → referral = 0) ∧
      (bps.toNat < 10000 →
        (referral.toNat : ℤ) * 2 ^ 60 * 10000 ≤ feeBits calculation feeSf amount * bps.toNat) := by
  -- a fee is charged exactly where neither the rate nor the amount is zero
  have hcharged : (U68F60.zero < ReserveFees.feeRate feeSf ∧ U68F60.zero < amount) ↔
      ¬ (feeSf = 0 ∨ amount = U68F60.zero) := by
    rw [not_or, Fixed.lt_iff_bits, Fixed.lt_iff_bits, Fixed.ext_iff, ← UInt64.toNat_inj,
      U68F60.bits_zero]
    have hrate : (ReserveFees.feeRate feeSf).bits = feeSf.toNat := rfl
    have hnonneg := U68F60.bits_nonneg amount
    have hzero : (0 : UInt64).toNat = 0 := rfl
    omega
  unfold ReserveFees.calculateFees at h
  by_cases hnone : feeSf = 0 ∨ amount = U68F60.zero
  · rw [if_neg (by rw [hcharged, not_not]; exact hnone)] at h
    cases h
    rw [if_pos hnone]
    exact ⟨rfl, rfl⟩
  rw [if_pos (hcharged.mpr hnone)] at h
  rw [if_neg hnone]
  simp only [bind_eq_ok, require_eq_ok, pure_eq_ok, exists_const, Profile.sub_eq_ok,
    Prod.mk.injEq] at h
  obtain ⟨part, hpart, hlt, fee, ⟨rfl, -⟩, rfl, rfl⟩ := h
  have hbits := bits_borrowFeeAmount (by omega) hpart
  have hfee : (max part (U68F60.ofU64 1)).bits = feeBits calculation feeSf amount := by
    rw [Fixed.bits_max, hbits]
    rfl
  have hlt' : feeBits calculation feeSf amount < amount.bits := hfee ▸ Fixed.lt_iff_bits.mp hlt
  have hfits : (max part (U68F60.ofU64 1)).bits ≤ (2 ^ 64 - 1) * 2 ^ 60 := by omega
  obtain ⟨hle, hreferrer, hshare⟩ := referralFee_bounds hfits hbps
  refine ⟨hlt', ?_, hreferrer, fun h => hfee ▸ hshare h⟩
  rw [toNat_sub_of_le hle, ← hfee, ← toNat_toRound hfits]
  omega

/-! ## Loans -/

theorem calculateFees_le (hamount : amount.bits ≤ (2 ^ 64 - 1) * 2 ^ 60) (hbps : bps.toNat ≤ 10000)
    (h : ReserveFees.calculateFees p amount feeSf calculation bps referrer
      = .ok (protocol, referral)) :
    (protocol.toNat + referral.toNat : ℤ) ≤ (amount.bits + 2 ^ 59) / 2 ^ 60 := by
  have hnonneg := U68F60.bits_nonneg amount
  have hbounds := calculateFees_bounds hamount hbps h
  split at hbounds
  · obtain ⟨rfl, rfl⟩ := hbounds
    exact Int.ediv_nonneg (by omega) (by norm_num)
  · obtain ⟨hlt, htotal, -⟩ := hbounds
    omega

/-- For a rate up to a hundred percent the fee in an amount is at most its whole tokens. -/
theorem calculateFees_inclusive_le (hamount : amount.bits ≤ (2 ^ 64 - 1) * 2 ^ 60)
    (hbps : bps.toNat ≤ 10000) (hfee : feeSf.toNat ≤ 2 ^ 60)
    (h : ReserveFees.calculateFees p amount feeSf .inclusive bps referrer
      = .ok (protocol, referral)) :
    (protocol.toNat + referral.toNat : ℤ) ≤ amount.bits / 2 ^ 60 := by
  have hnonneg := U68F60.bits_nonneg amount
  have hbounds := calculateFees_bounds hamount hbps h
  split at hbounds
  · obtain ⟨rfl, rfl⟩ := hbounds
    exact Int.ediv_nonneg hnonneg (by norm_num)
  · obtain ⟨hlt, htotal, -⟩ := hbounds
    have hpart : FeeCalculation.inclusive.part feeSf ≤ 2 ^ 59 := by
      apply Int.ediv_le_of_le_mul (by positivity)
      omega
    have hhalf : amount.bits * FeeCalculation.inclusive.part feeSf ≤ amount.bits * 2 ^ 59 :=
      mul_le_mul_of_nonneg_left hpart hnonneg
    rw [htotal]
    unfold feeBits at hlt ⊢
    omega

theorem toNat_sub_sub_add {a b c : UInt64} (h : b.toNat + c.toNat ≤ a.toNat) :
    (a - b - c).toNat + b.toNat + c.toNat = a.toNat := by
  have hfirst : (a - b).toNat = a.toNat - b.toNat := toNat_sub_of_le (by omega)
  rw [toNat_sub_of_le (by omega), hfirst]
  omega

/-- At the price and the borrow factor the most is worth no more than the value. -/
theorem most_bits_le {value value' quot most b price factor : U68F60} {n : ℕ}
    (hvalue : value.mulInt p n = (.ok value' : Except Failure U68F60))
    (hquot : value'.div price = (.ok quot : Except Failure U68F60))
    (hmost : quot.div factor = (.ok most : Except Failure U68F60)) (hb : b ≤ most) :
    b.bits * factor.bits * price.bits ≤ value.bits * n * 2 ^ 120 := by
  have hvalue' : value'.bits ≤ value.bits * n := by
    have hnonneg : 0 ≤ value.bits * n := mul_nonneg (U68F60.bits_nonneg value) n.cast_nonneg
    obtain ⟨rfl, -⟩ := Fixed.exact_eq_ok.mp hvalue
    show 0 + (value.bits * n - 0) % (2 ^ 128 - 0) ≤ _
    omega
  have hprice := U68F60.bits_nonneg price
  have hfactor := U68F60.bits_nonneg factor
  calc b.bits * factor.bits * price.bits
      ≤ most.bits * factor.bits * price.bits := by
        apply mul_le_mul_of_nonneg_right _ hprice
        exact mul_le_mul_of_nonneg_right (Fixed.le_iff_bits.mp hb) hfactor
    _ ≤ quot.bits * 2 ^ 60 * price.bits :=
        mul_le_mul_of_nonneg_right (U68F60.mul_bits_le_of_div hmost) hprice
    _ = quot.bits * price.bits * 2 ^ 60 := by ring
    _ ≤ value'.bits * 2 ^ 60 * 2 ^ 60 :=
        mul_le_mul_of_nonneg_right (U68F60.mul_bits_le_of_div hquot) (by norm_num)
    _ ≤ value.bits * n * 2 ^ 120 := by omega

/-- What is lent goes to the borrower, the protocol and the referrer, to the token. Of the most that
can be borrowed, no more is lent than there is, than may still be borrowed, and than the value
allows; else the borrower gets what was asked for. -/
theorem calculateBorrow_split {r : Reserve} {res : CalculateBorrowResult} {amountToBorrow : UInt64}
    {maxValue remaining : U68F60} {elevated : Bool} (hbps : bps.toNat ≤ 10000)
    (hfee : r.config.fees.borrowFeeSf.toNat ≤ 2 ^ 60)
    (hamount : amountToBorrow.toNat = 2 ^ 64 - 1 ∨ amountToBorrow.toNat < 2 ^ 63)
    (h : r.calculateBorrow p amountToBorrow maxValue remaining bps elevated referrer = .ok res) :
    (toFloor res.borrowAmountF).toNat
        = res.receiveAmount.toNat + res.borrowFee.toNat + res.referrerFee.toNat ∧
      if amountToBorrow.toNat = 2 ^ 64 - 1 then
        res.borrowAmountF ≤ remaining ∧
          res.borrowAmountF ≤ U68F60.ofU64 r.liquidity.availableAmount ∧
          ∃ decimals, r.decimalsFactor = .ok decimals ∧
            res.borrowAmountF.bits * (r.borrowFactorF elevated).bits
                * r.liquidity.marketPriceSf.bits
              ≤ maxValue.bits * decimals.toNat * 2 ^ 120
      else res.receiveAmount = amountToBorrow := by
  simp only [Reserve.calculateBorrow, bind_eq_ok] at h
  obtain ⟨decimals, hdecimals, h⟩ := h
  split_ifs at h ⊢ with hmost
  · simp only [bind_eq_ok, pure_eq_ok, Profile.sub_eq_ok] at h
    obtain ⟨value, hvalue, quot, hquot, most, hmost, ⟨fee, ref⟩, hfees, c, ⟨rfl, -⟩, d, ⟨rfl, -⟩,
      rfl⟩ := h
    -- what can be borrowed is available, so it fits in a `u64`
    have havailable : (min (min most remaining)
        (U68F60.ofU64 r.liquidity.availableAmount)).bits ≤ (2 ^ 64 - 1) * 2 ^ 60 := by
      have hlt := r.liquidity.availableAmount.toNat_lt
      rw [Fixed.bits_min, U68F60.bits_ofU64]
      omega
    have htotal := calculateFees_inclusive_le havailable hbps hfee hfees
    have hfloor : ((toFloor (min (min most remaining)
        (U68F60.ofU64 r.liquidity.availableAmount))).toNat : ℤ) = _ :=
      U68F60.toNat_toU64 (by omega)
    have hfits : fee.toNat + ref.toNat ≤ (toFloor (min (min most remaining)
        (U68F60.ofU64 r.liquidity.availableAmount))).toNat := by
      omega
    refine ⟨?_, min_le_of_left_le (min_le_right _ _), min_le_right _ _, decimals, hdecimals, ?_⟩
    · exact (toNat_sub_sub_add hfits).symm
    · exact most_bits_le hvalue hquot hmost (min_le_of_left_le (min_le_left _ _))
  · simp only [bind_eq_ok, pure_eq_ok, require_eq_ok, Profile.add_eq_ok, exists_const] at h
    obtain ⟨⟨fee, ref⟩, hfees, t, ⟨rfl, -⟩, b, hb, v, -, -, rfl⟩ := h
    -- the fee comes on top of the amount, and neither sum wraps
    have hasked : (U68F60.ofU64 amountToBorrow).bits = amountToBorrow.toNat * 2 ^ 60 := rfl
    have hle := calculateFees_le (by rw [hasked]; omega) hbps hfees
    rw [hasked] at hle
    have hsum : (fee + ref).toNat = fee.toNat + ref.toNat := toNat_add_of_lt (by omega)
    have hbits : b.bits = (amountToBorrow.toNat + (fee.toNat + ref.toNat)) * 2 ^ 60 := by
      have hexact : (U68F60.ofU64 amountToBorrow).bits + (U68F60.ofU64 (fee + ref)).bits
          = (amountToBorrow.toNat + (fee.toNat + ref.toNat)) * 2 ^ 60 := by
        rw [U68F60.bits_ofU64, U68F60.bits_ofU64, hsum]
        push_cast
        ring
      obtain ⟨hwrap, -⟩ := Fixed.exact_eq_ok.mp hb
      have hnonneg : (0 : ℤ) ≤ (amountToBorrow.toNat + (fee.toNat + ref.toNat)) * 2 ^ 60 := by omega
      have hlt : (amountToBorrow.toNat + (fee.toNat + ref.toNat) : ℤ) * 2 ^ 60 < 2 ^ 128 := by omega
      rw [hwrap, hexact]
      exact U68F60.bits_wrap hnonneg hlt
    have hfloor : ((toFloor b).toNat : ℤ) = b.bits / 2 ^ 60 := U68F60.toNat_toU64 (by omega)
    rw [hbits, Int.mul_ediv_cancel _ (by norm_num)] at hfloor
    have hsplit : (toFloor b).toNat = amountToBorrow.toNat + fee.toNat + ref.toNat := by omega
    exact ⟨hsplit, rfl⟩

end

/-- The fresh reserve with a million tokens, a fee of a thousandth and a price of two. -/
def lendingReserve : Reserve :=
  { freshReserve with
    liquidity := { freshReserve.liquidity with
      availableAmount := 1000000
      marketPriceSf := U68F60.ofU64 2 }
    config := { freshReserve.config with fees := ⟨1152921504606846⟩ } }

/-- The most that can be borrowed of it, with a fifth of the fee for a referrer. -/
theorem calculateBorrow_split_most : ∃ res,
    lendingReserve.calculateBorrow .checked 18446744073709551615 (U68F60.ofU64 1)
      (U68F60.ofU64 800000) 2000 false true = .ok res ∧
    (toFloor res.borrowAmountF).toNat
      = res.receiveAmount.toNat + res.borrowFee.toNat + res.referrerFee.toNat := by
  obtain ⟨res, hres⟩ := exists_ok
    (show (lendingReserve.calculateBorrow .checked 18446744073709551615 (U68F60.ofU64 1)
      (U68F60.ofU64 800000) 2000 false true).toOption.isSome = true by decide +kernel)
  have hsplit := calculateBorrow_split (by decide +kernel) (by decide +kernel)
    (.inl (by decide +kernel)) hres
  exact ⟨res, hres, hsplit.1⟩

end Saturn.Klend
