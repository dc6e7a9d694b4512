import Saturn.Instructions.Lending
import Saturn.Machine.Fixed

/-!
# `get_value_in_kamino`, `get_value_in_marginfi` and `get_value_in_meteora`

Each reads what another program recorded and converts it to token amounts: klend collateral at the
reserve's exchange rate (`kamino_utils.rs`), marginfi shares at a share value with interest accrued
up to now (`marginfi_utils.rs`), and Meteora LP tokens at the pool's virtual price. The first two
also write the treasury. All three return the values they computed.
-/

namespace Saturn

open Machine

variable {F : Type} [F64 F]

/-- `Option::unwrap`. -/
def unwrapSome {α : Type} (o : Option α) : Except Failure α := okOr o .panic

/-- `Result::unwrap`. -/
def unwrapOk {α : Type} (m : Except Failure α) : Except Failure α := m.mapError fun _ => .panic

/-- `values.iter().sum()`. -/
def sumValues {n : ℕ} (values : Vector F n) : F := values.foldl (· + ·) 0

/-! ## klend -/

/-- `LastUpdate`, without the price status: staleness is asked with `PriceStatusFlags::NONE`, which
every status contains. -/
structure LastUpdate where
  slot : UInt64
  stale : UInt8

/-- `LastUpdate::slots_elapsed`. -/
def LastUpdate.slotsElapsed (u : LastUpdate) (slot : UInt64) : Except Failure UInt64 := do
  require (u.slot ≤ slot) (Failure.lending .mathOverflow)
  return slot - u.slot

/-- `LastUpdate::is_stale`; `STALE_AFTER_SLOTS_ELAPSED` is `1`. -/
def LastUpdate.isStale (u : LastUpdate) (slot : UInt64) : Except Failure Bool :=
  if u.stale ≠ 0 then return true
  else return decide (1 ≤ (← u.slotsElapsed slot))

/-- What the valuation reads off a reserve. -/
structure Reserve extends ReserveHeader where
  lastUpdate : LastUpdate
  availableAmount : UInt64
  borrowedAmount : U68F60
  accumulatedProtocolFees : U68F60
  accumulatedReferrerFees : U68F60
  pendingReferrerFees : U68F60
  mintTotalSupply : UInt64

/-- `ObligationCollateral`. -/
structure ObligationCollateral where
  depositReserve : Pubkey
  depositedAmount : UInt64

/-- What the valuation reads off an obligation. -/
structure Obligation extends ObligationHeader where
  deposits : Vector ObligationCollateral 8

namespace Reserve

variable (r : Reserve)

/-- `ReserveLiquidity::total_supply`. -/
def totalSupply (p : Profile) : Except Failure U68F60 := do
  let s : U68F60 ← Fixed.exact p ((U68F60.ofU64 r.availableAmount).bits + r.borrowedAmount.bits)
  let s : U68F60 ← Fixed.exact p (s.bits - r.accumulatedProtocolFees.bits)
  let s : U68F60 ← Fixed.exact p (s.bits - r.accumulatedReferrerFees.bits)
  Fixed.exact p (s.bits - r.pendingReferrerFees.bits)

/-- `Reserve::collateral_exchange_rate`; `INITIAL_COLLATERAL_RATE` is one. -/
def collateralExchangeRate (p : Profile) : Except Failure U68F60 := do
  let totalLiquidity ← r.totalSupply p
  if r.mintTotalSupply = 0 ∨ totalLiquidity.bits = 0 then return U68F60.ofU64 1
  else Fixed.div (U68F60.ofU64 r.mintTotalSupply) totalLiquidity

/-- `redeem_collateral`. -/
def redeemCollateral (p : Profile) (collateralAmount : UInt64) : Except Failure UInt64 := do
  let rate ← r.collateralExchangeRate p
  let liquidity ← Fixed.div (U68F60.ofU64 collateralAmount) rate
  return liquidity.toU64

/-- `redeem_reserve_collateral`. -/
def redeemReserveCollateral (p : Profile) (collateralAmount : UInt64) (clock : Clock) :
    Except Failure UInt64 := do
  require (collateralAmount ≠ 0) (.lending .invalidAmount)
  require ((← r.lastUpdate.isStale clock.slot) = false) (.lending .reserveStale)
  r.redeemCollateral p collateralAmount

variable {r} in
theorem redeemReserveCollateral_eq_ok {p : Profile} {clock : Clock} {c n : UInt64} :
    r.redeemReserveCollateral p c clock = .ok n ↔
      c ≠ 0 ∧ r.lastUpdate.isStale clock.slot = .ok false ∧ r.redeemCollateral p c = .ok n := by
  simp only [redeemReserveCollateral, bind_eq_ok, require_eq_ok]
  constructor
  · rintro ⟨_, hc, stale, hstale, _, rfl, hn⟩
    exact ⟨hc, hstale, hn⟩
  · rintro ⟨hc, hstale, hn⟩
    exact ⟨(), hc, false, hstale, (), rfl, hn⟩

end Reserve

/-- `GetValueInKamino`. -/
structure GetValueInKamino where
  signer : Pubkey
  lendingMarket : Pubkey
  solReserve : Loaded Reserve
  usdcReserve : Loaded Reserve
  usdtReserve : Loaded Reserve
  wbtcReserve : Loaded Reserve
  wethReserve : Loaded Reserve
  bonkReserve : Loaded Reserve
  obligation : Loaded Obligation

namespace GetValueInKamino

variable (a : GetValueInKamino)

def requireReserve (lendingMarket mint : Pubkey) (r : Reserve) : Except Failure Unit := do
  require (r.lendingMarket = lendingMarket) (.anchor .constraint)
  require (r.liquidityMintPubkey = mint) (.anchor .constraint)

omit [F64 F] in
def constraints (d : Deployment) (env : Env) (_ : World F) : Except Failure Unit := do
  requireAuthority d env a.signer
  requireReserve a.lendingMarket solMint a.solReserve.data
  requireReserve a.lendingMarket usdcMint a.usdcReserve.data
  requireReserve a.lendingMarket usdtMint a.usdtReserve.data
  requireReserve a.lendingMarket wbtcMint a.wbtcReserve.data
  requireReserve a.lendingMarket wethMint a.wethReserve.data
  requireReserve a.lendingMarket bonkMint a.bonkReserve.data
  require (a.obligation.data.lendingMarket = a.lendingMarket) (.anchor .constraint)
  require (a.obligation.data.owner = d.treasuryAuthority) (.anchor .constraint)

/-- The collateral that the obligation records under a key. -/
def collateralAmount (key : Pubkey) : Except Failure UInt64 := do
  let c ← unwrapSome (a.obligation.data.deposits.find? fun c => c.depositReserve == key)
  return c.depositedAmount

def handle (d : Deployment) (env : Env) (x : Exec F) : Except Failure (Vector F 6 × Exec F) := do
  let redeem (r : Loaded Reserve) (c : UInt64) : Except Failure UInt64 :=
    r.data.redeemReserveCollateral d.profile c env.clock
  let sol ← redeem a.solReserve (← a.collateralAmount a.solReserve.key)
  -- the collateral of the SOL reserve, at the rate of the USDC reserve
  let usdcCollateral ← a.collateralAmount a.solReserve.key
  let usdc ← redeem a.usdcReserve usdcCollateral
  let usdt ← redeem a.usdtReserve (← a.collateralAmount a.usdtReserve.key)
  let wbtc ← redeem a.wbtcReserve (← a.collateralAmount a.wbtcReserve.key)
  let weth ← redeem a.wethReserve (← a.collateralAmount a.wethReserve.key)
  let bonk ← redeem a.bonkReserve (← a.collateralAmount a.bonkReserve.key)
  let values : Vector F 6 := #v[F64.ofU64 sol, F64.ofU64 usdc, F64.ofU64 usdt, F64.ofU64 wbtc,
    F64.ofU64 weth, F64.ofU64 bonk]
  return (values, x.setTreasury { x.world.treasury with
    kaminoLendAssets := usdcCollateral
    kaminoLendValue := sumValues values })

/-! ### What an accepted valuation did -/

/-- The collateral amounts and what they redeem for. There is none for USDC: the handler takes that
of SOL. -/
structure Reading where
  solCollateral : UInt64
  usdtCollateral : UInt64
  wbtcCollateral : UInt64
  wethCollateral : UInt64
  bonkCollateral : UInt64
  sol : UInt64
  usdc : UInt64
  usdt : UInt64
  wbtc : UInt64
  weth : UInt64
  bonk : UInt64

/-- The handler read these. -/
structure Reading.Accepted (r : Reading) (a : GetValueInKamino) (d : Deployment) (env : Env) :
    Prop where
  solCollateral : a.collateralAmount a.solReserve.key = .ok r.solCollateral
  usdtCollateral : a.collateralAmount a.usdtReserve.key = .ok r.usdtCollateral
  wbtcCollateral : a.collateralAmount a.wbtcReserve.key = .ok r.wbtcCollateral
  wethCollateral : a.collateralAmount a.wethReserve.key = .ok r.wethCollateral
  bonkCollateral : a.collateralAmount a.bonkReserve.key = .ok r.bonkCollateral
  sol : a.solReserve.data.redeemReserveCollateral d.profile r.solCollateral env.clock = .ok r.sol
  usdc : a.usdcReserve.data.redeemReserveCollateral d.profile r.solCollateral env.clock = .ok r.usdc
  usdt : a.usdtReserve.data.redeemReserveCollateral d.profile r.usdtCollateral env.clock
    = .ok r.usdt
  wbtc : a.wbtcReserve.data.redeemReserveCollateral d.profile r.wbtcCollateral env.clock
    = .ok r.wbtc
  weth : a.wethReserve.data.redeemReserveCollateral d.profile r.wethCollateral env.clock
    = .ok r.weth
  bonk : a.bonkReserve.data.redeemReserveCollateral d.profile r.bonkCollateral env.clock
    = .ok r.bonk

def Reading.values (r : Reading) : Vector F 6 :=
  #v[F64.ofU64 r.sol, F64.ofU64 r.usdc, F64.ofU64 r.usdt, F64.ofU64 r.wbtc, F64.ofU64 r.weth,
    F64.ofU64 r.bonk]

@[simps] def Reading.treasury (r : Reading) (t : Treasury F) : Treasury F :=
  { t with
    kaminoLendAssets := r.solCollateral
    kaminoLendValue := sumValues r.values }

variable {a} in
theorem handle_eq_ok {d : Deployment} {env : Env} {x y : Exec F} {values : Vector F 6} :
    a.handle d env x = .ok (values, y) ↔ ∃ r : Reading, r.Accepted a d env ∧ values = r.values ∧
      y = x.setTreasury (r.treasury x.world.treasury) := by
  simp only [handle, bind_eq_ok, pure_eq_ok]
  constructor
  · rintro ⟨solCollateral, hsolCollateral, sol, hsol, c, hc, usdc, husdc, usdtCollateral,
      husdtCollateral, usdt, husdt, wbtcCollateral, hwbtcCollateral, wbtc, hwbtc, wethCollateral,
      hwethCollateral, weth, hweth, bonkCollateral, hbonkCollateral, bonk, hbonk, h⟩
    obtain rfl : c = solCollateral := Except.ok.inj (hc.symm.trans hsolCollateral)
    cases h
    exact ⟨⟨c, usdtCollateral, wbtcCollateral, wethCollateral, bonkCollateral, sol, usdc, usdt,
      wbtc, weth, bonk⟩, ⟨hsolCollateral, husdtCollateral, hwbtcCollateral, hwethCollateral,
      hbonkCollateral, hsol, husdc, husdt, hwbtc, hweth, hbonk⟩, rfl, rfl⟩
  · rintro ⟨r, h, rfl, rfl⟩
    exact ⟨_, h.solCollateral, _, h.sol, _, h.solCollateral, _, h.usdc, _, h.usdtCollateral, _,
      h.usdt, _, h.wbtcCollateral, _, h.wbtc, _, h.wethCollateral, _, h.weth, _,
      h.bonkCollateral, _, h.bonk, rfl⟩

end GetValueInKamino

/-! ## marginfi -/

/-- `Balance`. -/
structure Balance where
  active : Bool
  bankPk : Pubkey
  assetShares : I80F48
  lastUpdate : UInt64

/-- What the valuation reads off a marginfi account. -/
structure MarginfiAccount extends MarginfiAccountHeader where
  balances : Vector Balance 16

/-- What the valuation reads off a bank. -/
structure Bank where
  group : Pubkey
  mint : Pubkey
  totalAssetShares : I80F48
  totalLiabilityShares : I80F48
  assetShareValue : I80F48
  liabilityShareValue : I80F48

/-- `get_asset_amount`. -/
def getAssetAmount (assetShareValue shares : I80F48) : Except Failure I80F48 :=
  okOr (shares.checkedMul assetShareValue) (.marginfi .mathError)

/-- `get_liability_amount`. It divides by the share value. -/
def getLiabilityAmount (liabilityShareValue value : I80F48) : Except Failure I80F48 :=
  okOr (value.checkedDiv liabilityShareValue) (.marginfi .mathError)

/-- `I80F48!(0.6)` -/
def optimalUr : I80F48 := ⟨168884986026394, by decide, by decide⟩

/-- `I80F48!(0.40)` -/
def plateauIr : I80F48 := ⟨112589990684262, by decide, by decide⟩

/-- `I80F48!(3)` -/
def maxIr : I80F48 := I80F48.ofU64 3

/-- `SECONDS_PER_YEAR` -/
def secondsPerYear : I80F48 := I80F48.ofU64 31536000

theorem lo_le_sub_optimalUr {ur : I80F48} (h : ¬ ur.bits ≤ optimalUr.bits) :
    FixedFormat.i80f48.lo ≤ ur.bits - optimalUr.bits := by
  have hlt := ur.lt_hi
  simp only [optimalUr, FixedFormat.i80f48] at *
  omega

theorem sub_optimalUr_lt_hi {ur : I80F48} (h : ¬ ur.bits ≤ optimalUr.bits) :
    ur.bits - optimalUr.bits < FixedFormat.i80f48.hi := by
  have hlt := ur.lt_hi
  simp only [optimalUr, FixedFormat.i80f48] at *
  omega

/-- `interest_rate_curve`. None of its subtractions can leave the range. -/
def interestRateCurve (ur : I80F48) : Option I80F48 :=
  if h : ur.bits ≤ optimalUr.bits then do
    (← ur.checkedDiv optimalUr).checkedMul plateauIr
  else do
    let above : I80F48 := ⟨ur.bits - optimalUr.bits, lo_le_sub_optimalUr h, sub_optimalUr_lt_hi h⟩
    let rest : I80F48 := ⟨(I80F48.ofU64 1).bits - optimalUr.bits, by decide, by decide⟩
    let slope : I80F48 := ⟨maxIr.bits - plateauIr.bits, by decide, by decide⟩
    (← (← above.checkedDiv rest).checkedMul slope).checkedAdd plateauIr

/-- `calc_interest_rate`: `Ok None` where the arithmetic is undefined, and the assertion. -/
def calcInterestRate (utilizationRatio : I80F48) : Except Failure (Option I80F48) :=
  match (interestRateCurve utilizationRatio).bind (·.checkedMul utilizationRatio) with
  | none => .ok none
  | some lendingRate => do
      require (0 ≤ lendingRate.bits) Failure.panic
      return some lendingRate

theorem calcInterestRate_eq_ok {u r : I80F48} : calcInterestRate u = .ok (some r) ↔
    (interestRateCurve u).bind (·.checkedMul u) = some r ∧ 0 ≤ r.bits := by
  unfold calcInterestRate
  cases h : (interestRateCurve u).bind (·.checkedMul u) with
  | none => simp
  | some s =>
      simp only [bind_eq_ok, require_eq_ok, pure_eq_ok, Option.some.injEq]
      constructor
      · rintro ⟨_, hnonneg, rfl⟩
        exact ⟨rfl, hnonneg⟩
      · rintro ⟨rfl, hnonneg⟩
        exact ⟨(), hnonneg, rfl⟩

/-- `calc_accrued_interest_payment_per_period`. -/
def calcAccruedInterestPaymentPerPeriod (apr : I80F48) (timeDelta : UInt64) (value : I80F48) :
    Option I80F48 := do
  let irPerPeriod ← (← apr.checkedMul (I80F48.ofU64 timeDelta)).checkedDiv secondsPerYear
  value.checkedMul (← (I80F48.ofU64 1).checkedAdd irPerPeriod)

/-- `calc_interest_rate_accrual_state_changes`. -/
def calcInterestRateAccrualStateChanges (timeDelta : UInt64)
    (totalAssetsAmount totalLiabilitiesAmount assetShareValue : I80F48) :
    Except Failure (Option I80F48) :=
  match totalLiabilitiesAmount.checkedDiv totalAssetsAmount with
  | none => .ok none
  | some utilizationRate => do
      let lendingApr ← calcInterestRate utilizationRate
      return lendingApr.bind fun apr =>
        calcAccruedInterestPaymentPerPeriod apr timeDelta assetShareValue

/-- `cal_user_total_asset_in_marginfi`. -/
def calUserTotalAssetInMarginfi (p : Profile) (currentTimestamp : Int64) (bank : Bank)
    (userAssetShares : I80F48) (lastUpdate : UInt64) : Except Failure I80F48 := do
  let timeDelta ← p.sub currentTimestamp.toUInt64 lastUpdate
  if timeDelta = 0 then getAssetAmount bank.assetShareValue userAssetShares
  else
    let totalAssets ← unwrapOk (getAssetAmount bank.assetShareValue bank.totalAssetShares)
    let totalLiabilities ←
      unwrapOk (getLiabilityAmount bank.liabilityShareValue bank.totalLiabilityShares)
    let changedAssetShareValue ← unwrapSome (← calcInterestRateAccrualStateChanges timeDelta
      totalAssets totalLiabilities bank.assetShareValue)
    getAssetAmount changedAssetShareValue userAssetShares

/-- `GetValueInMarginFi`. -/
structure GetValueInMarginFi where
  signer : Pubkey
  marginfiGroup : Pubkey
  marginfiAccount : Loaded MarginfiAccount
  solBank : Loaded Bank
  usdcBank : Loaded Bank
  usdtBank : Loaded Bank
  wbtcBank : Loaded Bank
  wethBank : Loaded Bank
  bonkBank : Loaded Bank

namespace GetValueInMarginFi

variable (a : GetValueInMarginFi)

def requireBank (marginfiGroup mint : Pubkey) (b : Bank) : Except Failure Unit := do
  require (b.group = marginfiGroup) (.anchor .constraint)
  require (b.mint = mint) (.anchor .constraint)

omit [F64 F] in
def constraints (d : Deployment) (env : Env) (_ : World F) : Except Failure Unit := do
  requireAuthority d env a.signer
  require (a.marginfiAccount.data.group = a.marginfiGroup) (.anchor .constraint)
  require (a.marginfiAccount.data.authority = d.treasuryAuthority) (.anchor .constraint)
  requireBank a.marginfiGroup solMint a.solBank.data
  requireBank a.marginfiGroup usdcMint a.usdcBank.data
  requireBank a.marginfiGroup usdtMint a.usdtBank.data
  requireBank a.marginfiGroup wbtcMint a.wbtcBank.data
  requireBank a.marginfiGroup wethMint a.wethBank.data
  requireBank a.marginfiGroup bonkMint a.bonkBank.data

def assetBalance (bank : Loaded Bank) : Except Failure Balance :=
  unwrapSome (a.marginfiAccount.data.balances.find? fun b => b.active && b.bankPk == bank.key)

def valueInMarginfi (d : Deployment) (env : Env) (bank : Loaded Bank) :
    Except Failure I80F48 := do
  let balance ← a.assetBalance bank
  unwrapOk (calUserTotalAssetInMarginfi d.profile env.clock.unixTimestamp bank.data
    balance.assetShares balance.lastUpdate)

def handle (d : Deployment) (env : Env) (x : Exec F) : Except Failure (Vector F 6 × Exec F) := do
  let sol ← a.valueInMarginfi d env a.solBank
  let usdc ← a.valueInMarginfi d env a.usdcBank
  let usdtBalance ← a.assetBalance a.usdtBank
  let usdt ← a.valueInMarginfi d env a.usdtBank
  let wbtc ← a.valueInMarginfi d env a.wbtcBank
  let weth ← a.valueInMarginfi d env a.wethBank
  let bonk ← a.valueInMarginfi d env a.bonkBank
  let values : Vector F 6 := #v[F64.lit sol.toRat, F64.lit usdc.toRat, F64.lit usdt.toRat,
    F64.lit wbtc.toRat, F64.lit weth.toRat, F64.lit bonk.toRat]
  return (values, x.setTreasury { x.world.treasury with
    marginfiLendAssets := usdtBalance.assetShares.toU64
    marginfiLendValue := sumValues values })

/-! ### What an accepted valuation did -/

/-- The asset amounts, and the balance of USDT. -/
structure Reading where
  usdtBalance : Balance
  sol : I80F48
  usdc : I80F48
  usdt : I80F48
  wbtc : I80F48
  weth : I80F48
  bonk : I80F48

/-- The handler read these. -/
structure Reading.Accepted (r : Reading) (a : GetValueInMarginFi) (d : Deployment) (env : Env) :
    Prop where
  usdtBalance : a.assetBalance a.usdtBank = .ok r.usdtBalance
  sol : a.valueInMarginfi d env a.solBank = .ok r.sol
  usdc : a.valueInMarginfi d env a.usdcBank = .ok r.usdc
  usdt : a.valueInMarginfi d env a.usdtBank = .ok r.usdt
  wbtc : a.valueInMarginfi d env a.wbtcBank = .ok r.wbtc
  weth : a.valueInMarginfi d env a.wethBank = .ok r.weth
  bonk : a.valueInMarginfi d env a.bonkBank = .ok r.bonk

def Reading.values (r : Reading) : Vector F 6 :=
  #v[F64.lit r.sol.toRat, F64.lit r.usdc.toRat, F64.lit r.usdt.toRat, F64.lit r.wbtc.toRat,
    F64.lit r.weth.toRat, F64.lit r.bonk.toRat]

@[simps] def Reading.treasury (r : Reading) (t : Treasury F) : Treasury F :=
  { t with
    marginfiLendAssets := r.usdtBalance.assetShares.toU64
    marginfiLendValue := sumValues r.values }

variable {a} in
theorem handle_eq_ok {d : Deployment} {env : Env} {x y : Exec F} {values : Vector F 6} :
    a.handle d env x = .ok (values, y) ↔ ∃ r : Reading, r.Accepted a d env ∧ values = r.values ∧
      y = x.setTreasury (r.treasury x.world.treasury) := by
  simp only [handle, bind_eq_ok, pure_eq_ok]
  constructor
  · rintro ⟨sol, hsol, usdc, husdc, usdtBalance, husdtBalance, usdt, husdt, wbtc, hwbtc, weth,
      hweth, bonk, hbonk, h⟩
    cases h
    exact ⟨⟨usdtBalance, sol, usdc, usdt, wbtc, weth, bonk⟩, ⟨husdtBalance, hsol, husdc, husdt,
      hwbtc, hweth, hbonk⟩, rfl, rfl⟩
  · rintro ⟨r, h, rfl, rfl⟩
    exact ⟨_, h.sol, _, h.usdc, _, h.usdtBalance, _, h.usdt, _, h.wbtc, _, h.weth, _, h.bonk, rfl⟩

end GetValueInMarginFi

/-! ## Meteora -/

/-- `LockedProfitTracker`. -/
structure LockedProfitTracker where
  lastUpdatedLockedProfit : UInt64
  lastReport : UInt64
  lockedProfitDegradation : UInt64

/-- `LOCKED_PROFIT_DEGRADATION_DENOMINATOR` -/
def lockedProfitDegradationDenominator : ℕ := 1000000000000

/-- `PRICE_PRECISION` -/
def pricePrecision : ℕ := 1000000000000

/-- `LockedProfitTracker::calculate_locked_profit`. Its `u128` products cannot overflow, and the
result does not exceed the locked profit it starts from. -/
def LockedProfitTracker.calculateLockedProfit (t : LockedProfitTracker) (currentTime : UInt64) :
    Option UInt64 :=
  if t.lastReport ≤ currentTime then
    let duration := (currentTime - t.lastReport).toNat
    let lockedFundRatio := duration * t.lockedProfitDegradation.toNat
    if lockedProfitDegradationDenominator < lockedFundRatio then some 0
    else some (UInt64.ofNat (t.lastUpdatedLockedProfit.toNat
      * (lockedProfitDegradationDenominator - lockedFundRatio)
      / lockedProfitDegradationDenominator))
  else none

/-- What the valuation reads off a vault. -/
structure Vault where
  totalAmount : UInt64
  lockedProfitTracker : LockedProfitTracker

/-- `Vault::get_unlocked_amount`. -/
def Vault.getUnlockedAmount (v : Vault) (currentTime : UInt64) : Option UInt64 := do
  let locked ← v.lockedProfitTracker.calculateLockedProfit currentTime
  if locked ≤ v.totalAmount then some (v.totalAmount - locked) else none

/-- What the valuation reads off a pool. -/
structure Pool where
  lpMint : Pubkey
  aVault : Pubkey
  bVault : Pubkey
  totalLockedLp : UInt64

/-- `GetValueInMeteora`. -/
structure GetValueInMeteora where
  signer : Pubkey
  pool : Pool
  aVault : Loaded Vault
  bVault : Loaded Vault
  userPoolLp : Pubkey

namespace GetValueInMeteora

variable (a : GetValueInMeteora)

omit [F64 F] in
def constraints (d : Deployment) (env : Env) (w : World F) : Except Failure Unit := do
  requireAuthority d env a.signer
  require (a.aVault.key = a.pool.aVault) (.anchor .constraint)
  require (a.bVault.key = a.pool.bVault) (.anchor .constraint)
  requireTokenMint w.ledger a.userPoolLp a.pool.lpMint

/-- The handler writes nothing. Its `u128` products and sum cannot overflow. -/
def handle (d : Deployment) (env : Env) (x : Exec F) : Except Failure F := do
  let currentTime ← unwrapU64 env.clock.unixTimestamp
  let aLpAmount := (← unwrapSome (a.aVault.data.getUnlockedAmount currentTime)).toNat
    * pricePrecision
  -- the unlocked amount of the first vault again
  let bLpAmount := (← unwrapSome (a.aVault.data.getUnlockedAmount currentTime)).toNat
    * pricePrecision
  require (a.pool.totalLockedLp ≠ 0) Failure.panic
  let virtualPrice := (aLpAmount + bLpAmount) / a.pool.totalLockedLp.toNat
  require (virtualPrice < 2 ^ 64) Failure.panic
  let userPoolLp ← okOr (x.world.ledger.tokenAccount a.userPoolLp)
    (.anchor .accountNotInitialized)
  return F64.ofU64 (← d.profile.mul userPoolLp.amount (UInt64.ofNat virtualPrice))

variable {a} in
/-- The price is twice what the first vault has unlocked, scaled and divided. -/
theorem handle_eq_ok {d : Deployment} {env : Env} {x : Exec F} {v : F} :
    a.handle d env x = .ok v ↔ 0 ≤ env.clock.unixTimestamp.toInt ∧
      ∃ n, a.aVault.data.getUnlockedAmount env.clock.unixTimestamp.toUInt64 = some n ∧
      2 * n.toNat * pricePrecision < 2 ^ 64 * a.pool.totalLockedLp.toNat ∧
      ∃ lp amount, x.world.ledger.tokenAccount a.userPoolLp = some lp ∧
      (d.profile.mul lp.amount (UInt64.ofNat
        (2 * n.toNat * pricePrecision / a.pool.totalLockedLp.toNat)) : Except Failure UInt64)
          = .ok amount ∧
      F64.ofU64 amount = v := by
  have htwice : ∀ n : UInt64, n.toNat * pricePrecision + n.toNat * pricePrecision
      = 2 * n.toNat * pricePrecision := fun n => by ring
  simp only [handle, bind_eq_ok, unwrapU64_eq_ok, unwrapSome, okOr_eq_ok, require_eq_ok, pure_eq_ok]
  constructor
  · rintro ⟨now, ⟨hnow, rfl⟩, n, hn, n', hn', -, hlocked, -, hprice, lp, hlp, amount, hamount, hv⟩
    obtain rfl : n' = n := Option.some.inj (hn'.symm.trans hn)
    have hpos := ne_zero_iff_toNat_pos.mp hlocked
    rw [htwice] at hprice hamount
    exact ⟨hnow, n', hn, (Nat.div_lt_iff_lt_mul hpos).mp hprice, lp, amount, hlp, hamount, hv⟩
  · rintro ⟨hnow, n, hn, hprice, lp, amount, hlp, hamount, hv⟩
    have hpos : 0 < a.pool.totalLockedLp.toNat :=
      Nat.pos_of_ne_zero fun hzero => by simp [hzero] at hprice
    rw [← htwice] at hprice hamount
    exact ⟨_, ⟨hnow, rfl⟩, n, hn, n, hn, (), ne_zero_iff_toNat_pos.mpr hpos, (),
      (Nat.div_lt_iff_lt_mul hpos).mpr hprice, lp, hlp, amount, hamount, hv⟩

end GetValueInMeteora

end Saturn
