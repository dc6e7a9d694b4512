import Saturn.Instructions.Staking

/-!
# `initialize`, `calcu_balance` and `reallocate`

`initialize` writes the treasury and the seven flags. `calcu_balance` recounts the treasury from its
balances, the oracle readings and the stored position values, and opens a rebalance epoch by
resetting the flags. `reallocate` spreads the four budgets of `PLATFORM_ALLOCATION` over seven
platforms by their ratings (`re_allocate` in `utils.rs`).
-/

namespace Saturn

open Machine

variable {F : Type} [F64 F]

/-! ## `initialize` -/

/-- `Initialize`: the one account that is not fixed by its seeds. -/
structure Initialize where
  admin : Pubkey

/-- What `initialize` writes to the new treasury. -/
@[simps] def Initialize.treasury (a : Initialize) : Treasury F :=
  { (Treasury.default : Treasury F) with
    treasuryAdmin := a.admin
    stakingIndex := 1
    tokenStaked := 0 }

/-- What `initialize` writes to the new flags. -/
@[simps] def Initialize.sequenceFlag : SequenceFlag where
  flagCalcuBalance := false
  flagReallocate := false
  flagMarginfi := false
  flagKamino := false
  flagMeteora := false
  flagJupiter := false
  flagSwap := false

/-- `handle`. -/
def Initialize.handle (a : Initialize) (x : Exec F) : Exec F :=
  (x.setTreasury a.treasury).setSequenceFlag Initialize.sequenceFlag

/-- The world `initialize` leaves behind: no user has an account yet. -/
@[simps -fullyApplied]
def Initialize.world (a : Initialize) (l : Ledger) : World F where
  treasury := a.treasury
  sequenceFlag := Initialize.sequenceFlag
  stakeAccounts := fun _ => none
  escrows := fun _ => none
  ledger := l

/-! ## `calcu_balance` -/

/-- `CalcuBalance`. -/
structure CalcuBalance where
  signer : Pubkey
  usdcTokenAccount : Pubkey
  wbtcTokenAccount : Pubkey
  solPriceUpdate : Pubkey
  usdcPriceUpdate : Pubkey
  wbtcPriceUpdate : Pubkey

/-- `signer.key() == treasury_authority.key()`, the form most contexts state. -/
def requireAuthority (d : Deployment) (env : Env) (signer : Pubkey) : Except Failure Unit := do
  requireSigner env signer
  require (signer = d.treasuryAuthority) (.anchor .constraint)

/-- `signer.key() == treasury.treasury_admin.key()`, the form of the others. -/
def requireAdmin (env : Env) (t : Treasury F) (signer : Pubkey) : Except Failure Unit := do
  requireSigner env signer
  require (signer = t.treasuryAdmin) (.anchor .constraint)

omit [F64 F] in
@[simp] theorem requireAuthority_eq_ok {d : Deployment} {env : Env} {k : Pubkey} {u : Unit} :
    requireAuthority d env k = .ok u ↔ k ∈ env.signers ∧ k = d.treasuryAuthority := by
  simp [requireAuthority]

omit [F64 F] in
@[simp] theorem requireAdmin_eq_ok {env : Env} {t : Treasury F} {k : Pubkey} {u : Unit} :
    requireAdmin env t k = .ok u ↔ k ∈ env.signers ∧ k = t.treasuryAdmin := by
  simp [requireAdmin]

/-- `token::mint = mint` on a token account. -/
def requireTokenMint (l : Ledger) (k mint : Pubkey) : Except Failure Unit := do
  let a ← okOr (l.tokenAccount k) (.anchor .accountNotInitialized)
  require (a.mint = mint) (.anchor .constraint)

/-- `u64::try_from(x).unwrap()`. -/
def unwrapU64 (x : Int64) : Except Failure UInt64 := do
  require (0 ≤ x.toInt) Failure.panic
  return x.toUInt64

/-- `10u64.pow(u32::try_from(exponent).unwrap())`: `10 ^ 19` is the last power that fits. -/
def pow10 (p : Profile) (exponent : Int32) : Except Failure UInt64 := do
  require (0 ≤ exponent.toInt) Failure.panic
  p.guard (decide (exponent.toInt ≤ 19)) (UInt64.ofNat (10 ^ exponent.toInt.toNat))

/-- The worth of a balance: whole tokens, times the price, times the power of ten. -/
def balanceValue (p : Profile) (balance unit : UInt64) (price : Int64) (exponent : Int32) :
    Except Failure UInt64 := do
  let whole ← div balance unit
  p.mul (← p.mul whole (← unwrapU64 price)) (← pow10 p exponent)

/-- The result of `balanceValue`, wrapped. -/
def worth (balance unit : UInt64) (price : Int64) (exponent : Int32) : UInt64 :=
  balance / unit * price.toUInt64 * UInt64.ofNat (10 ^ exponent.toInt.toNat)

theorem unwrapU64_eq_ok {z : Int64} {n : UInt64} :
    unwrapU64 z = .ok n ↔ 0 ≤ z.toInt ∧ n = z.toUInt64 := by
  simp only [unwrapU64, bind_eq_ok, require_eq_ok, pure_eq_ok, eq_comm (b := n)]
  exact exists_const Unit

theorem pow10_eq_ok {p : Profile} {exponent : Int32} {n : UInt64} :
    pow10 p exponent = .ok n ↔ 0 ≤ exponent.toInt ∧
      n = UInt64.ofNat (10 ^ exponent.toInt.toNat) ∧
      (p.overflowChecks = true → exponent.toInt ≤ 19) := by
  simp only [pow10, bind_eq_ok, require_eq_ok, Profile.guard_eq_ok, decide_eq_true_eq]
  exact exists_const Unit

theorem toNat_unwrapU64 {price : Int64} (h : 0 ≤ price.toInt) :
    price.toUInt64.toNat = price.toInt.toNat := by
  have := toNat_toUInt64_of_nonneg h
  omega

theorem toNat_pow10 {exponent : Int32} (h : exponent.toInt ≤ 19) :
    (UInt64.ofNat (10 ^ exponent.toInt.toNat)).toNat = 10 ^ exponent.toInt.toNat := by
  rw [UInt64.toNat_ofNat', Nat.mod_eq_of_lt]
  exact lt_of_le_of_lt (Nat.pow_le_pow_right (by decide) (Int.toNat_le_toNat h)) (by decide)

/-- When a balance is valued: no sign conversion fails, and where the build checks it no product
leaves 64 bits. -/
theorem balanceValue_eq_ok {p : Profile} {balance unit v : UInt64} {price : Int64}
    {exponent : Int32} : balanceValue p balance unit price exponent = .ok v ↔
      unit ≠ 0 ∧ 0 ≤ price.toInt ∧ 0 ≤ exponent.toInt ∧ v = worth balance unit price exponent ∧
        (p.overflowChecks = true → exponent.toInt ≤ 19 ∧
          balance.toNat / unit.toNat * price.toInt.toNat * 10 ^ exponent.toInt.toNat < 2 ^ 64) := by
  simp only [balanceValue, bind_eq_ok, div_eq_ok, unwrapU64_eq_ok, pow10_eq_ok, Profile.mul_eq_ok]
  constructor
  · rintro ⟨_, ⟨hunit, rfl⟩, _, ⟨hprice, rfl⟩, _, ⟨rfl, hwhole⟩, _, ⟨hexponent, rfl, hpow⟩, rfl,
      hprod⟩
    refine ⟨hunit, hprice, hexponent, rfl, ?_⟩
    intro hp
    have hfits := hprod hp
    rw [toNat_mul_of_lt (hwhole hp), UInt64.toNat_div, toNat_unwrapU64 hprice,
      toNat_pow10 (hpow hp)] at hfits
    exact ⟨hpow hp, hfits⟩
  · rintro ⟨hunit, hprice, hexponent, rfl, hchecks⟩
    have hwhole : p.overflowChecks = true →
        (balance / unit).toNat * price.toUInt64.toNat < 2 ^ 64 := by
      intro hp
      rw [UInt64.toNat_div, toNat_unwrapU64 hprice]
      exact lt_of_le_of_lt (Nat.le_mul_of_pos_right _ (Nat.pow_pos (by decide))) (hchecks hp).2
    refine ⟨_, ⟨hunit, rfl⟩, _, ⟨hprice, rfl⟩, _, ⟨rfl, hwhole⟩, _, ⟨hexponent, rfl, ?_⟩, rfl, ?_⟩
    · intro hp
      exact (hchecks hp).1
    · intro hp
      rw [toNat_mul_of_lt (hwhole hp), UInt64.toNat_div, toNat_unwrapU64 hprice,
        toNat_pow10 (hchecks hp).1]
      exact (hchecks hp).2

theorem balanceValue_eq {p : Profile} {balance unit v : UInt64} {price : Int64} {exponent : Int32}
    (h : balanceValue p balance unit price exponent = .ok v) :
    0 ≤ price.toInt ∧ 0 ≤ exponent.toInt ∧ v = worth balance unit price exponent := by
  obtain ⟨-, hprice, hexponent, hv, -⟩ := balanceValue_eq_ok.mp h
  exact ⟨hprice, hexponent, hv⟩

/-- The worth is the exact product of whole tokens, price and power of ten, modulo `2 ^ 64`. -/
theorem toNat_worth {balance unit : UInt64} {price : Int64} {exponent : Int32}
    (hprice : 0 ≤ price.toInt) : (worth balance unit price exponent).toNat
      = balance.toNat / unit.toNat * price.toInt.toNat * 10 ^ exponent.toInt.toNat % 2 ^ 64 := by
  rw [worth, UInt64.toNat_mul, UInt64.toNat_mul, UInt64.toNat_div, toNat_unwrapU64 hprice,
    UInt64.toNat_ofNat', Nat.mod_mul_mod, Nat.mul_mod_mod]

namespace CalcuBalance

variable (a : CalcuBalance)

omit [F64 F] in
def constraints (d : Deployment) (env : Env) (w : World F) : Except Failure Unit := do
  requireAuthority d env a.signer
  requireTokenMint w.ledger a.usdcTokenAccount usdcMint
  requireTokenMint w.ledger a.wbtcTokenAccount wbtcMint

def handle (d : Deployment) (env : Env) (x : Exec F) : Except Failure (Exec F) := do
  let treasury := x.world.treasury
  let solPrice ← okOr (env.getPriceNoOlderThan a.solPriceUpdate 30 .sol) .price
  let usdcPrice ← okOr (env.getPriceNoOlderThan a.usdcPriceUpdate 30 .usdc) .price
  let wbtcPrice ← okOr (env.getPriceNoOlderThan a.wbtcPriceUpdate 30 .wbtc) .price
  let usdc ← okOr (x.world.ledger.tokenAccount a.usdcTokenAccount) (.anchor .accountNotInitialized)
  let wbtc ← okOr (x.world.ledger.tokenAccount a.wbtcTokenAccount) (.anchor .accountNotInitialized)
  let solVal ← balanceValue d.profile (x.world.ledger.lamports d.treasuryAuthority) 1000000000
    solPrice.price solPrice.exponent
  -- scaled by the exponent of the SOL reading
  let usdcVal ← balanceValue d.profile usdc.amount 1000000 usdcPrice.price solPrice.exponent
  let wbtcVal ← balanceValue d.profile wbtc.amount 100000000 wbtcPrice.price wbtcPrice.exponent
  let x := x.setTreasury { treasury with
    solValue := F64.ofU64 solVal
    usdcValue := F64.ofU64 usdcVal
    wbtcValue := F64.ofU64 wbtcVal
    treasuryValue := treasury.marginfiLendValue + treasury.kaminoLendValue
      + treasury.meteoraDepositValue + treasury.jupiterPerpsValue
      + F64.ofU64 solVal + F64.ofU64 usdcVal + F64.ofU64 wbtcVal }
  return x.setSequenceFlag { x.world.sequenceFlag with
    flagCalcuBalance := true
    flagReallocate := false
    flagMarginfi := false
    flagKamino := false
    flagMeteora := false
    flagJupiter := false }

/-! ### What an accepted recount did -/

/-- The readings and balances of a recount, and what they are worth. -/
structure Recount where
  solPrice : Price
  usdcPrice : Price
  wbtcPrice : Price
  usdc : TokenAccount
  wbtc : TokenAccount
  solVal : UInt64
  usdcVal : UInt64
  wbtcVal : UInt64

/-- The handler read these and computed these. -/
structure Recount.Accepted (r : Recount) (a : CalcuBalance) (d : Deployment) (env : Env)
    (w : World F) : Prop where
  solPrice : env.getPriceNoOlderThan a.solPriceUpdate 30 .sol = some r.solPrice
  usdcPrice : env.getPriceNoOlderThan a.usdcPriceUpdate 30 .usdc = some r.usdcPrice
  wbtcPrice : env.getPriceNoOlderThan a.wbtcPriceUpdate 30 .wbtc = some r.wbtcPrice
  usdc : w.ledger.tokenAccount a.usdcTokenAccount = some r.usdc
  wbtc : w.ledger.tokenAccount a.wbtcTokenAccount = some r.wbtc
  solVal : balanceValue d.profile (w.ledger.lamports d.treasuryAuthority) 1000000000
    r.solPrice.price r.solPrice.exponent = .ok r.solVal
  usdcVal : balanceValue d.profile r.usdc.amount 1000000 r.usdcPrice.price r.solPrice.exponent
    = .ok r.usdcVal
  wbtcVal : balanceValue d.profile r.wbtc.amount 100000000 r.wbtcPrice.price r.wbtcPrice.exponent
    = .ok r.wbtcVal

@[simps] def Recount.treasury (r : Recount) (t : Treasury F) : Treasury F :=
  { t with
    solValue := F64.ofU64 r.solVal
    usdcValue := F64.ofU64 r.usdcVal
    wbtcValue := F64.ofU64 r.wbtcVal
    treasuryValue := t.marginfiLendValue + t.kaminoLendValue + t.meteoraDepositValue
      + t.jupiterPerpsValue + F64.ofU64 r.solVal + F64.ofU64 r.usdcVal + F64.ofU64 r.wbtcVal }

def opened (s : SequenceFlag) : SequenceFlag :=
  { s with
    flagCalcuBalance := true
    flagReallocate := false
    flagMarginfi := false
    flagKamino := false
    flagMeteora := false
    flagJupiter := false }

/-- The recount writes the worth of the balances and the total, and opens an epoch. -/
theorem handle_eq_ok {a : CalcuBalance} {d : Deployment} {env : Env} {x y : Exec F} :
    a.handle d env x = .ok y ↔ ∃ r : Recount, r.Accepted a d env x.world ∧
      y = (x.setTreasury (r.treasury x.world.treasury)).setSequenceFlag
        (opened x.world.sequenceFlag) := by
  simp only [handle, bind_eq_ok, okOr_eq_ok, pure_eq_ok]
  constructor
  · rintro ⟨solPrice, hsol, usdcPrice, husdc, wbtcPrice, hwbtc, usdc, husdcAccount, wbtc,
      hwbtcAccount, solVal, hsolVal, usdcVal, husdcVal, wbtcVal, hwbtcVal, rfl⟩
    exact ⟨⟨solPrice, usdcPrice, wbtcPrice, usdc, wbtc, solVal, usdcVal, wbtcVal⟩,
      ⟨hsol, husdc, hwbtc, husdcAccount, hwbtcAccount, hsolVal, husdcVal, hwbtcVal⟩, rfl⟩
  · rintro ⟨r, h, rfl⟩
    exact ⟨_, h.solPrice, _, h.usdcPrice, _, h.wbtcPrice, _, h.usdc, _, h.wbtc, _, h.solVal, _,
      h.usdcVal, _, h.wbtcVal, rfl⟩

end CalcuBalance

/-! ## `re_allocate` -/

/-- `Platform` in `utils.rs`. -/
structure Platform (F : Type) where
  id : UInt8
  returnRate : F
  riskRating : F
  allocation : F
  platformType : UInt8

/-- `PLATFORM_ALLOCATION`. -/
def platformAllocation : Vector F 4 :=
  #v[F64.lit 35, F64.lit 25, F64.lit 10, F64.lit 30]

/-- Return over risk, and `0.0` for a platform without a risk rating. -/
def Platform.rating (q : Platform F) : F :=
  if F64.isZero q.riskRating then 0 else q.returnRate / q.riskRating

/-- `platform_type_ratings` after the first loop: the ratings of each type added up in order, `0.0`
where there are none. The loop also adds up the old allocations, which nothing reads. -/
def platformTypeRatings (treasur : List (Platform F)) : UInt8 → F :=
  treasur.foldl (fun m q => Function.update m q.platformType (m q.platformType + q.rating))
    (fun _ => 0)

omit [F64 F] in
/-- `platform_type_counts` after the first loop. Nothing reads it either, but a count is a `u8`: the
256th platform of a type overflows it. -/
def platformTypeCounts (p : Profile) (treasur : List (Platform F)) :
    Except Failure (UInt8 → UInt8) :=
  treasur.foldlM (fun m q => do
    let count ← p.guard (decide ((m q.platformType).toNat + 1 < 256)) (m q.platformType + 1)
    return Function.update m q.platformType count) (fun _ => 0)

/-- `platform_allocation[(platform_type - 1) as usize]`. -/
def typeBudget (p : Profile) (budget : Vector F 4) (platformType : UInt8) : Except Failure F := do
  let i ← p.guard (decide (1 ≤ platformType.toNat)) (platformType - 1)
  okOr budget[i.toNat]? Failure.panic

/-- The body of the second loop. -/
def Platform.reallocated (p : Profile) (ratings : UInt8 → F) (budget : Vector F 4)
    (q : Platform F) : Except Failure (Platform F) := do
  let totalRating := ratings q.platformType
  let totalAllocation ← typeBudget p budget q.platformType
  return { q with
    allocation :=
      if F64.isZero totalRating then 0 else q.rating / totalRating * totalAllocation }

/-- `re_allocate`. -/
def reAllocate (p : Profile) (treasur : List (Platform F)) (budget : Vector F 4) :
    Except Failure (List (Platform F)) := do
  let _ ← platformTypeCounts p treasur
  treasur.mapM (Platform.reallocated p (platformTypeRatings treasur) budget)

theorem reAllocate_eq_ok {p : Profile} {treasur l : List (Platform F)} {budget : Vector F 4} :
    reAllocate p treasur budget = .ok l ↔ (∃ counts, platformTypeCounts p treasur = .ok counts) ∧
      treasur.mapM (Platform.reallocated p (platformTypeRatings treasur) budget) = .ok l := by
  simp only [reAllocate, bind_eq_ok]
  exact exists_and_right

/-! ## `reallocate` -/

/-- `ReAllocate`. -/
structure ReAllocate where
  signer : Pubkey

namespace ReAllocate

variable (a : ReAllocate)

omit [F64 F] in
def constraints (env : Env) (w : World F) : Except Failure Unit := do
  requireAdmin env w.treasury a.signer
  require (w.sequenceFlag.flagCalcuBalance = true) (.anchor .constraint)
  require (w.sequenceFlag.flagReallocate = false) (.anchor .constraint)

/-- The seven platforms, with their share of the treasury as the old allocation. -/
def platforms (treasury : Treasury F) (returnRate riskRating : Vector F 7) : List (Platform F) :=
  let share (balance : F) : F := balance / treasury.treasuryValue
  [ ⟨1, returnRate[0], riskRating[0], share treasury.marginfiLendValue, 1⟩,
    ⟨2, returnRate[1], riskRating[1], share treasury.kaminoLendValue, 1⟩,
    ⟨3, returnRate[2], riskRating[2], share treasury.meteoraDepositValue, 2⟩,
    ⟨4, returnRate[3], riskRating[3], 0, 3⟩,
    ⟨5, returnRate[4], riskRating[4], share treasury.usdcValue, 4⟩,
    ⟨6, returnRate[5], riskRating[5], share treasury.wbtcValue, 4⟩,
    ⟨7, returnRate[6], riskRating[6], share treasury.solValue, 4⟩ ]

def handle (d : Deployment) (returnRate riskRating : Vector F 7) (x : Exec F) :
    Except Failure (Exec F) := do
  let treasury := x.world.treasury
  let newAllocation ← reAllocate d.profile (platforms treasury returnRate riskRating)
    platformAllocation
  let allocation (i : ℕ) : Except Failure F :=
    okOr (newAllocation[i]?.map Platform.allocation) Failure.panic
  let x := x.setTreasury { treasury with
    marginfiAllocation := ← allocation 0
    kaminoAllocation := ← allocation 1
    meteoraAllocation := ← allocation 2
    jupiterAllocation := ← allocation 3
    usdcAllocation := ← allocation 4
    wbtcAllocation := ← allocation 5
    solAllocation := ← allocation 6 }
  return x.setSequenceFlag { x.world.sequenceFlag with flagReallocate := true }

/-- The reallocation writes the seven allocations and marks the epoch reallocated. -/
theorem handle_eq_ok {d : Deployment} {returnRate riskRating : Vector F 7} {x y : Exec F}
    (h : handle d returnRate riskRating x = .ok y) :
    ∃ l, reAllocate d.profile (platforms x.world.treasury returnRate riskRating)
        platformAllocation = .ok l ∧
      ∃ q₀ q₁ q₂ q₃ q₄ q₅ q₆, l[0]? = some q₀ ∧ l[1]? = some q₁ ∧ l[2]? = some q₂ ∧
        l[3]? = some q₃ ∧ l[4]? = some q₄ ∧ l[5]? = some q₅ ∧ l[6]? = some q₆ ∧
        y = (x.setTreasury { x.world.treasury with
          marginfiAllocation := q₀.allocation
          kaminoAllocation := q₁.allocation
          meteoraAllocation := q₂.allocation
          jupiterAllocation := q₃.allocation
          usdcAllocation := q₄.allocation
          wbtcAllocation := q₅.allocation
          solAllocation := q₆.allocation }).setSequenceFlag
            { x.world.sequenceFlag with flagReallocate := true } := by
  simp only [handle, bind_eq_ok, okOr_eq_ok, Option.map_eq_some_iff, pure_eq_ok] at h
  obtain ⟨l, hl, _, ⟨q₀, h₀, rfl⟩, _, ⟨q₁, h₁, rfl⟩, _, ⟨q₂, h₂, rfl⟩, _, ⟨q₃, h₃, rfl⟩, _,
    ⟨q₄, h₄, rfl⟩, _, ⟨q₅, h₅, rfl⟩, _, ⟨q₆, h₆, rfl⟩, rfl⟩ := h
  exact ⟨l, hl, q₀, q₁, q₂, q₃, q₄, q₅, q₆, h₀, h₁, h₂, h₃, h₄, h₅, h₆, rfl⟩

end ReAllocate

end Saturn
