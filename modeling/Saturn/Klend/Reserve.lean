import Saturn.Klend.Curve
import Mathlib.Tactic.Simps.Basic

/-!
# The reserve of klend

`state/reserve.rs`: the liquidity of a reserve, the collateral issued for it, the configuration its
methods read, and the methods that change it. Amounts that may be fractions of a token are
`Fraction`s; their fields end in `Sf`.

The fields of the accounts that no modelled method reads or writes (keys, paddings, farms, limits of
elevation groups, withdrawal caps, token information) are left out.
-/

namespace Saturn.Klend

open Machine

/-! ## Last update -/

/-- `LastUpdate`. -/
structure LastUpdate where
  slot : UInt64
  stale : UInt8
  priceStatus : UInt8
  deriving DecidableEq

namespace LastUpdate

/-- `LastUpdate::new`. -/
def new (slot : UInt64) : LastUpdate := ⟨slot, 1, 0⟩

variable (u : LastUpdate)

/-- `LastUpdate::slots_elapsed`. -/
def slotsElapsed (slot : UInt64) : Except Failure UInt64 := do
  require (u.slot ≤ slot) (Failure.lending .mathOverflow)
  return slot - u.slot

/-- `LastUpdate::update_slot`. -/
def updateSlot (slot : UInt64) (priceStatus : Option UInt8) : LastUpdate where
  slot
  stale := 0
  priceStatus := priceStatus.getD u.priceStatus

/-- `LastUpdate::mark_stale`. -/
def markStale : LastUpdate := { u with stale := 1 }

/-- `LastUpdate::get_price_status`: the bits of the six flags there are. -/
def getPriceStatus : UInt8 := u.priceStatus &&& 63

/-- `LastUpdate::is_stale`; `STALE_AFTER_SLOTS_ELAPSED` is `1`. -/
def isStale (slot : UInt64) (minPriceStatus : UInt8) : Except Failure Bool :=
  if u.stale ≠ 0 then return true
  else do
    let elapsed ← u.slotsElapsed slot
    return decide (1 ≤ elapsed) || decide (u.getPriceStatus &&& minPriceStatus ≠ minPriceStatus)

end LastUpdate

/-! ## Accounts -/

/-- `ReserveLiquidity`. -/
structure ReserveLiquidity where
  availableAmount : UInt64
  borrowedAmountSf : U68F60
  marketPriceSf : U68F60
  mintDecimals : UInt64
  depositLimitCrossedSlot : UInt64
  borrowLimitCrossedSlot : UInt64
  cumulativeBorrowRateBsf : BigFraction
  accumulatedProtocolFeesSf : U68F60
  accumulatedReferrerFeesSf : U68F60
  pendingReferrerFeesSf : U68F60
  absoluteReferralRateSf : U68F60

/-- `ReserveCollateral`. -/
structure ReserveCollateral where
  mintTotalSupply : UInt64

/-- `ReserveFees`. -/
structure ReserveFees where
  borrowFeeSf : UInt64

/-- `ReserveConfig`. -/
structure ReserveConfig where
  hostFixedInterestRateBps : UInt16
  protocolTakeRatePct : UInt8
  fees : ReserveFees
  borrowRateCurve : BorrowRateCurve
  borrowFactorPct : UInt64
  depositLimit : UInt64
  borrowLimit : UInt64

/-- `Reserve`. -/
structure Reserve where
  lastUpdate : LastUpdate
  liquidity : ReserveLiquidity
  collateral : ReserveCollateral
  config : ReserveConfig

/-- `ReferrerTokenState`. -/
structure ReferrerTokenState where
  amountUnclaimedSf : U68F60

/-- `SLOTS_PER_YEAR` -/
def slotsPerYear : ℕ := 63072000

/-! ## Interest -/

/-- `approximate_compounded_interest`: the power itself up to the exponent four, and four terms of
its binomial series beyond. -/
def approximateCompoundedInterest (p : Profile) (rate : U68F60) (elapsedSlots : UInt64) :
    Except Failure U68F60 := do
  let base ← U68F60.divInt rate slotsPerYear
  let onePlusBase : Except Failure U68F60 := U68F60.one.add p base
  match elapsedSlots.toNat with
  | 0 => return U68F60.one
  | 1 => onePlusBase
  | 2 => return (← onePlusBase).mul (← onePlusBase)
  | 3 => return ((← onePlusBase).mul (← onePlusBase)).mul (← onePlusBase)
  | 4 =>
      let powTwo := (← onePlusBase).mul (← onePlusBase)
      return powTwo.mul powTwo
  | exp =>
      let basePowerTwo := base.mul base
      let basePowerThree := basePowerTwo.mul base
      let firstTerm ← base.mulInt p exp
      let secondTerm ← U68F60.divInt (← (← basePowerTwo.mulInt p exp).mulInt p (exp - 1)) 2
      let thirdTerm ← U68F60.divInt
        (← (← (← basePowerThree.mulInt p exp).mulInt p (exp - 1)).mulInt p (exp - 2)) 6
      (← (← U68F60.one.add p firstTerm).add p secondTerm).add p thirdTerm

/-! ## Liquidity -/

namespace ReserveLiquidity

variable (p : Profile) (l : ReserveLiquidity)

/-- `ReserveLiquidity::total_supply`. -/
def totalSupply : Except Failure U68F60 := do
  let s ← (U68F60.ofU64 l.availableAmount).add p l.borrowedAmountSf
  let s ← s.sub p l.accumulatedProtocolFeesSf
  let s ← s.sub p l.accumulatedReferrerFeesSf
  s.sub p l.pendingReferrerFeesSf

/-- `ReserveLiquidity::total_borrow`. -/
def totalBorrow : U68F60 := l.borrowedAmountSf

/-- `ReserveLiquidity::utilization_rate`. -/
def utilizationRate : Except Failure U68F60 := do
  let totalSupply ← l.totalSupply p
  if totalSupply = U68F60.zero then return U68F60.zero
  else l.borrowedAmountSf.div totalSupply

/-- `ReserveLiquidity::new`. -/
def new (mintDecimals : UInt8) (marketPriceSf : U68F60) : ReserveLiquidity where
  availableAmount := 0
  borrowedAmountSf := U68F60.zero
  marketPriceSf
  mintDecimals := mintDecimals.toUInt64
  depositLimitCrossedSlot := 0
  borrowLimitCrossedSlot := 0
  cumulativeBorrowRateBsf := .ofFraction U68F60.one
  accumulatedProtocolFeesSf := U68F60.zero
  accumulatedReferrerFeesSf := U68F60.zero
  pendingReferrerFeesSf := U68F60.zero
  absoluteReferralRateSf := U68F60.zero

/-- `u64::checked_add`, and the error for none. -/
def checkedAdd (a b : UInt64) : Except Failure UInt64 := do
  require (a.toNat + b.toNat < 2 ^ 64) (Failure.lending .mathOverflow)
  return a + b

/-- `u64::checked_sub`, and the error for none. -/
def checkedSub (a b : UInt64) : Except Failure UInt64 := do
  require (b ≤ a) (Failure.lending .mathOverflow)
  return a - b

/-- `ReserveLiquidity::deposit`. -/
def deposit (liquidityAmount : UInt64) : Except Failure ReserveLiquidity := do
  return { l with availableAmount := ← checkedAdd l.availableAmount liquidityAmount }

/-- `ReserveLiquidity::withdraw`. -/
def withdraw (liquidityAmount : UInt64) : Except Failure ReserveLiquidity := do
  require (liquidityAmount ≤ l.availableAmount) (Failure.lending .insufficientLiquidity)
  return { l with availableAmount := ← checkedSub l.availableAmount liquidityAmount }

/-- `ReserveLiquidity::borrow`. -/
def borrow (borrowF : U68F60) : Except Failure ReserveLiquidity := do
  let borrowAmount := toFloor borrowF
  require (borrowAmount ≤ l.availableAmount) (Failure.lending .insufficientLiquidity)
  return { l with
    availableAmount := ← p.sub l.availableAmount borrowAmount
    borrowedAmountSf := ← l.borrowedAmountSf.add p borrowF }

/-- `ReserveLiquidity::repay`. -/
def repay (repayAmount : UInt64) (settleAmount : U68F60) : Except Failure ReserveLiquidity := do
  let availableAmount ← checkedAdd l.availableAmount repayAmount
  let safeSettleAmount := min settleAmount l.borrowedAmountSf
  let borrowedAmountSf ← okOr (l.borrowedAmountSf.checkedSub safeSettleAmount)
    (.lending .mathOverflow)
  return { l with availableAmount, borrowedAmountSf }

/-- `ReserveLiquidity::redeem_fees`. -/
def redeemFees (withdrawAmount : UInt64) : Except Failure ReserveLiquidity := do
  let availableAmount ← checkedSub l.availableAmount withdrawAmount
  let accumulatedProtocolFeesSf ←
    okOr (l.accumulatedProtocolFeesSf.checkedSub (U68F60.ofU64 withdrawAmount))
      (.lending .mathOverflow)
  return { l with availableAmount, accumulatedProtocolFeesSf }

/-- `ReserveLiquidity::withdraw_referrer_fees`. -/
def withdrawReferrerFees (withdrawAmount : UInt64) (referrerTokenState : ReferrerTokenState) :
    Except Failure (ReserveLiquidity × ReferrerTokenState) := do
  let availableAmount ← checkedSub l.availableAmount withdrawAmount
  let accumulatedReferrerFeesSf ←
    okOr (l.accumulatedReferrerFeesSf.checkedSub (U68F60.ofU64 withdrawAmount))
      (.lending .mathOverflow)
  let amountUnclaimedSf ←
    okOr (referrerTokenState.amountUnclaimedSf.checkedSub (U68F60.ofU64 withdrawAmount))
      (.lending .mathOverflow)
  return ({ l with availableAmount, accumulatedReferrerFeesSf }, ⟨amountUnclaimedSf⟩)

/-- `ReserveLiquidity::forgive_debt`. -/
def forgiveDebt (liquidityAmount : U68F60) : Except Failure ReserveLiquidity := do
  return { l with borrowedAmountSf := ← l.borrowedAmountSf.sub p liquidityAmount }

/-- `ReserveLiquidity::compound_interest`. -/
def compoundInterest (currentBorrowRate hostFixedInterestRate : U68F60) (slotsElapsed : UInt64)
    (protocolTakeRate referralRate : U68F60) : Except Failure ReserveLiquidity := do
  let compoundedInterestRate ← approximateCompoundedInterest p
    (← currentBorrowRate.add p hostFixedInterestRate) slotsElapsed
  let compoundedFixedRate ← approximateCompoundedInterest p hostFixedInterestRate slotsElapsed
  let newCumulativeBorrowRate ←
    l.cumulativeBorrowRateBsf.mul (.ofFraction compoundedInterestRate)
  let newDebt := l.borrowedAmountSf.mul compoundedInterestRate
  let fixedHostFee ← (l.borrowedAmountSf.mul compoundedFixedRate).sub p l.borrowedAmountSf
  let netNewVariableDebt ← (← newDebt.sub p l.borrowedAmountSf).sub p fixedHostFee
  let variableProtocolFee := netNewVariableDebt.mul protocolTakeRate
  let absoluteReferralRate := protocolTakeRate.mul referralRate
  let maxReferrersFees := netNewVariableDebt.mul absoluteReferralRate
  let newAccProtocolFees ←
    (← (← l.accumulatedProtocolFeesSf.add p fixedHostFee).add p variableProtocolFee).sub p
      maxReferrersFees
  return { l with
    cumulativeBorrowRateBsf := newCumulativeBorrowRate
    pendingReferrerFeesSf := ← l.pendingReferrerFeesSf.add p maxReferrersFees
    accumulatedProtocolFeesSf := newAccProtocolFees
    borrowedAmountSf := newDebt
    absoluteReferralRateSf := absoluteReferralRate }

end ReserveLiquidity

/-! ## Collateral -/

/-- `CollateralExchangeRate`. -/
structure CollateralExchangeRate where
  rate : U68F60

namespace CollateralExchangeRate

/-- `CollateralExchangeRate::collateral_to_liquidity`. -/
def collateralToLiquidity (r : CollateralExchangeRate) (collateralAmount : UInt64) :
    Except Failure UInt64 := do
  return toFloor (← (U68F60.ofU64 collateralAmount).div r.rate)

/-- `CollateralExchangeRate::liquidity_to_collateral`. -/
def liquidityToCollateral (p : Profile) (r : CollateralExchangeRate) (liquidityAmount : UInt64) :
    Except Failure UInt64 := do
  return toFloor (← r.rate.mulInt p liquidityAmount.toNat)

end CollateralExchangeRate

namespace ReserveCollateral

variable (c : ReserveCollateral)

/-- `ReserveCollateral::mint`. -/
def mint (collateralAmount : UInt64) : Except Failure ReserveCollateral := do
  return ⟨← ReserveLiquidity.checkedAdd c.mintTotalSupply collateralAmount⟩

/-- `ReserveCollateral::burn`. -/
def burn (collateralAmount : UInt64) : Except Failure ReserveCollateral := do
  return ⟨← ReserveLiquidity.checkedSub c.mintTotalSupply collateralAmount⟩

/-- `ReserveCollateral::exchange_rate`; `INITIAL_COLLATERAL_RATE` is one. -/
def exchangeRate (totalLiquidity : U68F60) : Except Failure CollateralExchangeRate := do
  if c.mintTotalSupply = 0 ∨ totalLiquidity = U68F60.zero then return ⟨U68F60.one⟩
  else return ⟨← (U68F60.ofU64 c.mintTotalSupply).div totalLiquidity⟩

end ReserveCollateral

/-! ## Reserves -/

namespace Reserve

variable (p : Profile) (r : Reserve)

omit p r in
/-- `Reserve::current_borrow_rate`. -/
def currentBorrowRate : Except Failure U68F60 := do
  let utilizationRate ← r.liquidity.utilizationRate p
  r.config.borrowRateCurve.getBorrowRate p utilizationRate

/-- `Reserve::collateral_exchange_rate`. -/
def collateralExchangeRate : Except Failure CollateralExchangeRate := do
  let totalLiquidity ← r.liquidity.totalSupply p
  r.collateral.exchangeRate totalLiquidity

/-- `Reserve::deposit_liquidity`. -/
def depositLiquidity (liquidityAmount : UInt64) : Except Failure (UInt64 × Reserve) := do
  let collateralExchangeRate ← r.collateralExchangeRate p
  let collateralAmount ← collateralExchangeRate.liquidityToCollateral p liquidityAmount
  let liquidity ← r.liquidity.deposit liquidityAmount
  let collateral ← r.collateral.mint collateralAmount
  return (collateralAmount, { r with liquidity, collateral })

/-- `Reserve::redeem_collateral`. -/
def redeemCollateral (collateralAmount : UInt64) : Except Failure (UInt64 × Reserve) := do
  let collateralExchangeRate ← r.collateralExchangeRate p
  let liquidityAmount ← collateralExchangeRate.collateralToLiquidity collateralAmount
  let collateral ← r.collateral.burn collateralAmount
  let liquidity ← r.liquidity.withdraw liquidityAmount
  return (liquidityAmount, { r with liquidity, collateral })

/-- `Reserve::accrue_interest`. -/
def accrueInterest (currentSlot : UInt64) (referralFeeBps : UInt16) : Except Failure Reserve := do
  let slotsElapsed ← r.lastUpdate.slotsElapsed currentSlot
  if 0 < slotsElapsed then
    let currentBorrowRate ← r.currentBorrowRate p
    let liquidity ← r.liquidity.compoundInterest p currentBorrowRate
      (fromBps r.config.hostFixedInterestRateBps.toUInt64) slotsElapsed
      (fromPercent r.config.protocolTakeRatePct.toUInt64) (fromBps referralFeeBps.toUInt64)
    return { r with liquidity }
  else return r

/-- `Reserve::deposit_limit_crossed`. -/
def depositLimitCrossed : Except Failure Bool := do
  let totalSupply ← r.liquidity.totalSupply p
  return decide (U68F60.ofU64 r.config.depositLimit < totalSupply)

/-- `Reserve::borrow_limit_crossed`. -/
def borrowLimitCrossed : Bool :=
  decide (U68F60.ofU64 r.config.borrowLimit < r.liquidity.totalBorrow)

/-- The slot at which a limit was crossed, asked again: kept from the first time on, and forgotten
when the limit is not crossed. -/
def crossedSlot (crossed : Bool) (slot currentSlot : UInt64) : UInt64 :=
  if crossed then if slot = 0 then currentSlot else slot else 0

/-- `Reserve::update_deposit_limit_crossed_slot`. -/
def updateDepositLimitCrossedSlot (currentSlot : UInt64) : Except Failure Reserve := do
  let crossed ← r.depositLimitCrossed p
  return { r with liquidity := { r.liquidity with
    depositLimitCrossedSlot :=
      crossedSlot crossed r.liquidity.depositLimitCrossedSlot currentSlot } }

/-- `Reserve::update_borrow_limit_crossed_slot`. -/
def updateBorrowLimitCrossedSlot (currentSlot : UInt64) : Reserve :=
  { r with liquidity := { r.liquidity with
    borrowLimitCrossedSlot :=
      crossedSlot r.borrowLimitCrossed r.liquidity.borrowLimitCrossedSlot currentSlot } }

end Reserve

end Saturn.Klend
