import Saturn.Klend.Reserve
import Saturn.Keyed.Slots
import Saturn.State.Account

/-!
# The obligation of klend

`state/obligation.rs`: collateral in eight slots and debt in five, a slot being free where its
reserve is the default key, and for each slot the asset tier of its reserve, `u8::MAX` where the
slot is free.

The functions that hand out a mutable reference to a slot return its index here, and the obligation
with what they wrote. The fields that no modelled function reads or writes (tag, owner, market,
elevation groups, paddings) are left out, and so are the messages that are only logged.
-/

namespace Saturn.Klend

open Machine Keyed

/-- `AssetTier`. -/
inductive AssetTier where
  | regular
  | isolatedCollateral
  | isolatedDebt
  deriving DecidableEq

namespace AssetTier

/-- `From<AssetTier> for u8`. -/
def toU8 : AssetTier → UInt8
  | regular => 0
  | isolatedCollateral => 1
  | isolatedDebt => 2

/-- `TryFrom<u8> for AssetTier`. -/
def ofU8 (n : UInt8) : Option AssetTier :=
  if n = 0 then some regular
  else if n = 1 then some isolatedCollateral
  else if n = 2 then some isolatedDebt
  else none

theorem ofU8_toU8 (t : AssetTier) : ofU8 t.toU8 = some t := by
  cases t <;> rfl

end AssetTier

/-! ## Collateral -/

/-- `ObligationCollateral`. -/
structure ObligationCollateral where
  depositReserve : Pubkey
  depositedAmount : UInt64
  marketValueSf : U68F60
  borrowedAmountAgainstThisCollateralInElevationGroup : UInt64
  deriving DecidableEq

namespace ObligationCollateral

/-- `ObligationCollateral::new`; the default is that of the default key. -/
def new (depositReserve : Pubkey) : ObligationCollateral := ⟨depositReserve, 0, U68F60.zero, 0⟩

variable (c : ObligationCollateral)

/-- `ObligationCollateral::deposit`. -/
def deposit (collateralAmount : UInt64) : Except Failure ObligationCollateral := do
  return { c with
    depositedAmount := ← ReserveLiquidity.checkedAdd c.depositedAmount collateralAmount }

/-- `ObligationCollateral::withdraw`. -/
def withdraw (collateralAmount : UInt64) : Except Failure ObligationCollateral := do
  return { c with
    depositedAmount := ← ReserveLiquidity.checkedSub c.depositedAmount collateralAmount }

end ObligationCollateral

/-! ## Debt -/

/-- `ObligationLiquidity`. -/
structure ObligationLiquidity where
  borrowReserve : Pubkey
  cumulativeBorrowRateBsf : BigFraction
  borrowedAmountSf : U68F60
  marketValueSf : U68F60
  borrowFactorAdjustedMarketValueSf : U68F60
  borrowedAmountOutsideElevationGroups : UInt64
  deriving DecidableEq

namespace ObligationLiquidity

/-- `ObligationLiquidity::new`. -/
def new (borrowReserve : Pubkey) (cumulativeBorrowRateBf : BigFraction) : ObligationLiquidity :=
  ⟨borrowReserve, cumulativeBorrowRateBf, U68F60.zero, U68F60.zero, U68F60.zero, 0⟩

/-- `ObligationLiquidity::default`. -/
def default : ObligationLiquidity := new 0 ⟨0, by norm_num⟩

variable (p : Profile) (l : ObligationLiquidity)

/-- `ObligationLiquidity::repay`. -/
def repay (settleAmount : U68F60) : Except Failure ObligationLiquidity := do
  return { l with borrowedAmountSf := ← l.borrowedAmountSf.sub p settleAmount }

/-- `ObligationLiquidity::borrow`. -/
def borrow (borrowAmount : U68F60) : Except Failure ObligationLiquidity := do
  return { l with borrowedAmountSf := ← l.borrowedAmountSf.add p borrowAmount }

/-- `ObligationLiquidity::accrue_interest`; the operators of `U256` panic on overflow and on a zero
divisor. -/
def accrueInterest (newCumulativeBorrowRate : BigFraction) : Except Failure ObligationLiquidity :=
  if newCumulativeBorrowRate.bits < l.cumulativeBorrowRateBsf.bits then
    .error (.lending .negativeInterestRate)
  else if newCumulativeBorrowRate.bits = l.cumulativeBorrowRateBsf.bits then .ok l
  else do
    let product := l.borrowedAmountSf.bits.toNat * newCumulativeBorrowRate.bits
    require (product < 2 ^ 256) .panic
    require (l.cumulativeBorrowRateBsf.bits ≠ 0) .panic
    let borrowedAmountSf ←
      okOr (Fixed.ofBits? (product / l.cumulativeBorrowRateBsf.bits : ℕ)) (.lending .mathOverflow)
    return { l with borrowedAmountSf, cumulativeBorrowRateBsf := newCumulativeBorrowRate }

end ObligationLiquidity

/-! ## Obligations -/

/-- `WithdrawResult`. -/
inductive WithdrawResult where
  | fullWithdrawal
  | partialWithdrawal
  deriving DecidableEq

/-- `Obligation`. -/
structure Obligation where
  lastUpdate : LastUpdate
  deposits : Fin 8 → ObligationCollateral
  depositedValueSf : U68F60
  borrows : Fin 5 → ObligationLiquidity
  borrowFactorAdjustedDebtValueSf : U68F60
  borrowedAssetsMarketValueSf : U68F60
  allowedBorrowValueSf : U68F60
  unhealthyBorrowValueSf : U68F60
  depositsAssetTiers : Fin 8 → UInt8
  borrowsAssetTiers : Fin 5 → UInt8
  hasDebt : UInt8
  referrer : Pubkey

namespace Obligation

/-- `Obligation::init`. -/
def init (currentSlot : UInt64) (deposits : Fin 8 → ObligationCollateral)
    (borrows : Fin 5 → ObligationLiquidity) (referrer : Pubkey) : Obligation where
  lastUpdate := .new currentSlot
  deposits
  depositedValueSf := U68F60.zero
  borrows
  borrowFactorAdjustedDebtValueSf := U68F60.zero
  borrowedAssetsMarketValueSf := U68F60.zero
  allowedBorrowValueSf := U68F60.zero
  unhealthyBorrowValueSf := U68F60.zero
  depositsAssetTiers := fun _ => 255
  borrowsAssetTiers := fun _ => 255
  hasDebt := 0
  referrer

variable (p : Profile) (o : Obligation)

/-- `Obligation::repay`. -/
def repay (settleAmount : U68F60) (liquidityIndex : Fin 5) : Except Failure Obligation := do
  let liquidity := o.borrows liquidityIndex
  if settleAmount = liquidity.borrowedAmountSf then
    return { o with
      borrows := Function.update o.borrows liquidityIndex .default
      borrowsAssetTiers := Function.update o.borrowsAssetTiers liquidityIndex 255 }
  else
    return { o with
      borrows := Function.update o.borrows liquidityIndex (← liquidity.repay p settleAmount) }

/-- `Obligation::withdraw`. -/
def withdraw (withdrawAmount : UInt64) (collateralIndex : Fin 8) :
    Except Failure (WithdrawResult × Obligation) := do
  let collateral := o.deposits collateralIndex
  if withdrawAmount = collateral.depositedAmount then
    return (.fullWithdrawal, { o with
      deposits := Function.update o.deposits collateralIndex (.new 0)
      depositsAssetTiers := Function.update o.depositsAssetTiers collateralIndex 255 })
  else
    return (.partialWithdrawal, { o with
      deposits :=
        Function.update o.deposits collateralIndex (← collateral.withdraw withdrawAmount) })

/-- `Obligation::deposits_empty`. -/
def depositsEmpty : Bool := decide (∀ i, (o.deposits i).depositReserve = 0)

/-- `Obligation::borrows_empty`. -/
def borrowsEmpty : Bool := decide (∀ i, (o.borrows i).borrowReserve = 0)

/-- `Obligation::position_of_collateral_in_deposits`. -/
def positionOfCollateralInDeposits (depositReserve : Pubkey) : Except Failure (Fin 8) := do
  require (o.depositsEmpty = false) (Failure.lending .obligationDepositsEmpty)
  okOr (slotOf ObligationCollateral.depositReserve o.deposits depositReserve)
    (.lending .invalidObligationCollateral)

/-- `Obligation::find_or_add_collateral_to_deposits`. -/
def findOrAddCollateralToDeposits (depositReserve : Pubkey) (depositReserveAssetTier : AssetTier)
    (initFunction : ObligationCollateral → Except Failure ObligationCollateral) :
    Except Failure (Fin 8 × Obligation) :=
  match slotOf ObligationCollateral.depositReserve o.deposits depositReserve with
  | some collateralIndex => .ok (collateralIndex, o)
  | none =>
      match slotOf ObligationCollateral.depositReserve o.deposits 0 with
      | some collateralIndex => do
          let collateral ← initFunction (.new depositReserve)
          return (collateralIndex, { o with
            deposits := Function.update o.deposits collateralIndex collateral
            depositsAssetTiers :=
              Function.update o.depositsAssetTiers collateralIndex depositReserveAssetTier.toU8 })
      | none => .error (.lending .obligationReserveLimit)

/-- `Obligation::find_liquidity_in_borrows` and `Obligation::find_liquidity_in_borrows_mut`: the
index. -/
def findLiquidityInBorrows (borrowReserve : Pubkey) : Except Failure (Fin 5) := do
  require (o.borrowsEmpty = false) (Failure.lending .obligationBorrowsEmpty)
  okOr (slotOf ObligationLiquidity.borrowReserve o.borrows borrowReserve)
    (.lending .invalidObligationLiquidity)

/-- `Obligation::find_or_add_liquidity_to_borrows`. -/
def findOrAddLiquidityToBorrows (borrowReserve : Pubkey) (cumulativeBorrowRate : BigFraction)
    (borrowReserveAssetTier : AssetTier) : Except Failure (Fin 5 × Obligation) :=
  match slotOf ObligationLiquidity.borrowReserve o.borrows borrowReserve with
  | some liquidityIndex => .ok (liquidityIndex, o)
  | none =>
      match slotOf ObligationLiquidity.borrowReserve o.borrows 0 with
      | some index => .ok (index, { o with
          borrows := Function.update o.borrows index (.new borrowReserve cumulativeBorrowRate)
          borrowsAssetTiers :=
            Function.update o.borrowsAssetTiers index borrowReserveAssetTier.toU8 })
      | none => .error (.lending .obligationReserveLimit)

/-- `Obligation::get_deposit_asset_tiers`: the tiers of the slots in use that hold something. -/
def getDepositAssetTiers : Except Failure (List AssetTier) :=
  ((List.finRange 8).filter fun i =>
    decide ((o.deposits i).depositReserve ≠ 0 ∧ 0 < (o.deposits i).depositedAmount)).mapM
    fun i => unwrap (AssetTier.ofU8 (o.depositsAssetTiers i))

/-- `Obligation::get_borrows_asset_tiers`. -/
def getBorrowsAssetTiers : Except Failure (List AssetTier) :=
  ((List.finRange 5).filter fun i =>
    decide ((o.borrows i).borrowReserve ≠ 0 ∧ U68F60.zero < (o.borrows i).borrowedAmountSf)).mapM
    fun i => unwrap (AssetTier.ofU8 (o.borrowsAssetTiers i))

/-- `Obligation::update_has_debt`. -/
def updateHasDebt : Obligation := { o with hasDebt := if o.borrowsEmpty then 0 else 1 }

end Obligation

end Saturn.Klend
