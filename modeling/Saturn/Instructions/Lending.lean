import Saturn.Instructions.Balance

/-!
# Lending and withdrawing

The four instructions that move the treasury's funds into and out of klend and marginfi, the two
that do the same for the Meteora pool, and `init_lending_accounts`. Each has one CPI to make (the
last has three); they differ in the amount, in the flags they wait for and set, and in what they do
with the `Result`: the marginfi handlers drop it.

The accounts of the other programs come with the fields their constraints read.
-/

namespace Saturn

open Machine

variable {F : Type} [F64 F]

/-- An account passed to the program, with the part of its data that is read. -/
structure Loaded (α : Type) where
  key : Pubkey
  data : α

/-! ## The flag guards -/

/-- The flags of `klend_withdraw` and `marginfi_withdraw`: an epoch is open, reallocated, and this
protocol's withdrawal is still due. -/
def requireWithdrawable (s : SequenceFlag) (withdrawn : Bool) : Except Failure Unit := do
  require (s.flagCalcuBalance = true) (.anchor .constraint)
  require (s.flagReallocate = true) (.anchor .constraint)
  require (withdrawn = false) (.anchor .constraint)

/-- The flags of `klend_lend`, `marginfi_lend`, `meteora_deposit` and `meteora_withdraw`: an epoch
is open, reallocated, and all three protocols are marked withdrawn. -/
def requireLendable (s : SequenceFlag) : Except Failure Unit := do
  require (s.flagCalcuBalance = true) (.anchor .constraint)
  require (s.flagReallocate = true) (.anchor .constraint)
  require ((s.flagKamino && s.flagMarginfi && s.flagMeteora) = true) (.anchor .constraint)

@[simp] theorem requireLendable_eq_ok {s : SequenceFlag} {u : Unit} :
    requireLendable s = .ok u ↔ s.flagCalcuBalance = true ∧ s.flagReallocate = true ∧
      s.flagKamino = true ∧ s.flagMarginfi = true ∧ s.flagMeteora = true := by
  simp [requireLendable, and_assoc]

@[simp] theorem requireWithdrawable_eq_ok {s : SequenceFlag} {b : Bool} {u : Unit} :
    requireWithdrawable s b = .ok u ↔
      s.flagCalcuBalance = true ∧ s.flagReallocate = true ∧ b = false := by
  simp [requireWithdrawable]

/-! ## klend -/

/-- What the constraints read off an obligation. -/
structure ObligationHeader where
  lendingMarket : Pubkey
  owner : Pubkey

/-- What the constraints read off a reserve. -/
structure ReserveHeader where
  lendingMarket : Pubkey
  liquidityMintPubkey : Pubkey
  liquiditySupplyVault : Pubkey
  collateralMintPubkey : Pubkey
  collateralSupplyVault : Pubkey

/-- The constraints on obligation, reserve and vaults that both klend contexts state. -/
def klendConstraints (d : Deployment) (l : Ledger) (obligation : ObligationHeader)
    (reserve : ReserveHeader) (lendingMarket reserveLiquiditySupply reserveCollateralMint
    reserveCollateralSupply userLiquidity userDestinationCollateral : Pubkey) :
    Except Failure Unit := do
  require (obligation.lendingMarket = lendingMarket) (.anchor .constraint)
  require (obligation.owner = d.treasuryAuthority) (.anchor .constraint)
  require (reserve.lendingMarket = lendingMarket) (.anchor .constraint)
  require (reserveLiquiditySupply = reserve.liquiditySupplyVault) (.anchor .constraint)
  require (reserveCollateralMint = reserve.collateralMintPubkey) (.anchor .constraint)
  require (reserveCollateralSupply = reserve.collateralSupplyVault) (.anchor .constraint)
  requireTokenMint l userLiquidity reserve.liquidityMintPubkey
  requireTokenMint l userDestinationCollateral reserveCollateralMint

/-- `KaminoLend`. -/
structure KaminoLend where
  signer : Pubkey
  obligation : Loaded ObligationHeader
  lendingMarket : Pubkey
  lendingMarketAuthority : Pubkey
  reserve : Loaded ReserveHeader
  reserveLiquiditySupply : Pubkey
  reserveCollateralMint : Pubkey
  reserveDestinationDepositCollateral : Pubkey
  userSourceLiquidity : Pubkey
  userDestinationCollateral : Pubkey

/-- `allocation * treasury_value * 1_000_000 as f64`, cast to `u64`. -/
def Treasury.lendAmount (t : Treasury F) (allocation : F) : UInt64 :=
  F64.toU64 ((allocation * t.treasuryValue) * F64.lit 1000000)

namespace KaminoLend

variable (a : KaminoLend)

omit [F64 F] in
def constraints (d : Deployment) (env : Env) (w : World F) : Except Failure Unit := do
  requireAdmin env w.treasury a.signer
  requireLendable w.sequenceFlag
  klendConstraints d w.ledger a.obligation.data a.reserve.data a.lendingMarket
    a.reserveLiquiditySupply a.reserveCollateralMint a.reserveDestinationDepositCollateral
    a.userSourceLiquidity a.userDestinationCollateral

def amount (t : Treasury F) : UInt64 := t.lendAmount t.kaminoAllocation

def deposit (d : Deployment) (amount : UInt64) : Cpi :=
  ⟨.depositReserveLiquidityAndObligationCollateral
    { owner := d.treasuryAuthority
      obligation := a.obligation.key
      lendingMarket := a.lendingMarket
      lendingMarketAuthority := a.lendingMarketAuthority
      reserve := a.reserve.key
      reserveLiquiditySupply := a.reserveLiquiditySupply
      reserveCollateralMint := a.reserveCollateralMint
      reserveDestinationDepositCollateral := a.reserveDestinationDepositCollateral
      userSourceLiquidity := a.userSourceLiquidity
      userDestinationCollateral := a.userDestinationCollateral } amount, [.treasuryAuthority]⟩

def handle (d : Deployment) (env : Env) (x : Exec F) : Except Failure (Exec F) :=
  x.invoke env (a.deposit d (amount x.world.treasury))

end KaminoLend

/-- `KlendWithdraw`. -/
structure KlendWithdraw where
  signer : Pubkey
  userDestinationLiquidity : Pubkey
  obligation : Loaded ObligationHeader
  lendingMarket : Pubkey
  withdrawReserve : Loaded ReserveHeader
  reserveSourceCollateral : Pubkey
  reserveCollateralMint : Pubkey
  reserveLiquiditySupply : Pubkey
  lendingMarketAuthority : Pubkey
  userDestinationCollateral : Pubkey

namespace KlendWithdraw

variable (a : KlendWithdraw)

omit [F64 F] in
def constraints (d : Deployment) (env : Env) (w : World F) : Except Failure Unit := do
  requireAuthority d env a.signer
  requireWithdrawable w.sequenceFlag w.sequenceFlag.flagKamino
  klendConstraints d w.ledger a.obligation.data a.withdrawReserve.data a.lendingMarket
    a.reserveLiquiditySupply a.reserveCollateralMint a.reserveSourceCollateral
    a.userDestinationLiquidity a.userDestinationCollateral

def redeem (d : Deployment) (amount : UInt64) : Cpi :=
  ⟨.withdrawObligationCollateralAndRedeemReserveCollateral
    { owner := d.treasuryAuthority
      obligation := a.obligation.key
      lendingMarket := a.lendingMarket
      lendingMarketAuthority := a.lendingMarketAuthority
      withdrawReserve := a.withdrawReserve.key
      reserveLiquiditySupply := a.reserveLiquiditySupply
      reserveCollateralMint := a.reserveCollateralMint
      userDestinationCollateral := a.userDestinationCollateral
      userDestinationLiquidity := a.userDestinationLiquidity
      reserveSourceCollateral := a.reserveSourceCollateral } amount, [.treasuryAuthority]⟩

omit [F64 F] in
def handle (d : Deployment) (env : Env) (x : Exec F) : Except Failure (Exec F) := do
  let x ← x.invoke env (a.redeem d x.world.treasury.kaminoLendAssets)
  return x.setSequenceFlag { x.world.sequenceFlag with flagKamino := true }

omit [F64 F] in
variable {a} in
theorem handle_eq_ok {d : Deployment} {env : Env} {x y : Exec F} : a.handle d env x = .ok y ↔
    ∃ z, x.invoke env (a.redeem d x.world.treasury.kaminoLendAssets) = .ok z ∧
      y = z.setSequenceFlag { z.world.sequenceFlag with flagKamino := true } := by
  simp only [handle, bind_eq_ok, pure_eq_ok, eq_comm (b := y)]

end KlendWithdraw

/-! ## marginfi -/

/-- What the constraints read off a marginfi account. -/
structure MarginfiAccountHeader where
  group : Pubkey
  authority : Pubkey

/-- The constraints on account and bank that both marginfi contexts state. -/
def marginfiConstraints (d : Deployment) (marginfiGroup bankGroup : Pubkey)
    (account : MarginfiAccountHeader) : Except Failure Unit := do
  require (account.group = marginfiGroup) (.anchor .constraint)
  require (account.authority = d.treasuryAuthority) (.anchor .constraint)
  require (bankGroup = marginfiGroup) (.anchor .constraint)

/-- `MarginfiLend`. The data of `bank` is its group. -/
structure MarginfiLend where
  signer : Pubkey
  marginfiGroup : Pubkey
  marginfiAccount : Loaded MarginfiAccountHeader
  bank : Loaded Pubkey
  userLiquidity : Pubkey
  bankLiquidityVault : Pubkey

namespace MarginfiLend

variable (a : MarginfiLend)

omit [F64 F] in
def constraints (d : Deployment) (env : Env) (w : World F) : Except Failure Unit := do
  requireAuthority d env a.signer
  requireLendable w.sequenceFlag
  marginfiConstraints d a.marginfiGroup a.bank.data a.marginfiAccount.data
  let _ ← okOr (w.ledger.tokenAccount a.userLiquidity) (.anchor .accountNotInitialized)

def amount (t : Treasury F) : UInt64 := t.lendAmount t.marginfiAllocation

def deposit (d : Deployment) (amount : UInt64) : Cpi :=
  ⟨.lendingAccountDeposit
    { marginfiGroup := a.marginfiGroup
      marginfiAccount := a.marginfiAccount.key
      signer := d.treasuryAuthority
      bank := a.bank.key
      signerTokenAccount := a.userLiquidity
      bankLiquidityVault := a.bankLiquidityVault } amount, [.treasuryAuthority]⟩

def handle (d : Deployment) (env : Env) (x : Exec F) : Except Failure (Exec F) :=
  return x.invokeIgnore env (a.deposit d (amount x.world.treasury))

end MarginfiLend

/-- `MarginfiWithdraw`. The data of `bank` is its group. -/
structure MarginfiWithdraw where
  signer : Pubkey
  marginfiGroup : Pubkey
  marginfiAccount : Loaded MarginfiAccountHeader
  bank : Loaded Pubkey
  userLiquidity : Pubkey
  bankLiquidityVault : Pubkey
  bankLiquidityVaultAuthority : Pubkey

namespace MarginfiWithdraw

variable (a : MarginfiWithdraw)

omit [F64 F] in
def constraints (d : Deployment) (env : Env) (w : World F) : Except Failure Unit := do
  requireAuthority d env a.signer
  requireWithdrawable w.sequenceFlag w.sequenceFlag.flagMarginfi
  marginfiConstraints d a.marginfiGroup a.bank.data a.marginfiAccount.data
  let _ ← okOr (w.ledger.tokenAccount a.userLiquidity) (.anchor .accountNotInitialized)
  let _ ← okOr (w.ledger.tokenAccount a.bankLiquidityVault) (.anchor .accountNotInitialized)

def redeem (d : Deployment) (amount : UInt64) : Cpi :=
  ⟨.lendingAccountWithdraw
    { marginfiGroup := a.marginfiGroup
      marginfiAccount := a.marginfiAccount.key
      signer := d.treasuryAuthority
      bank := a.bank.key
      destinationTokenAccount := a.userLiquidity
      bankLiquidityVaultAuthority := a.bankLiquidityVaultAuthority
      bankLiquidityVault := a.bankLiquidityVault } amount none, [.treasuryAuthority]⟩

omit [F64 F] in
def handle (d : Deployment) (env : Env) (x : Exec F) : Except Failure (Exec F) :=
  let x := x.invokeIgnore env (a.redeem d x.world.treasury.marginfiLendAssets)
  return x.setSequenceFlag { x.world.sequenceFlag with flagMarginfi := true }

end MarginfiWithdraw

/-! ## Meteora -/

/-- The accounts of `MeteoraDeposit` and `MeteoraWithdraw`, which state the same constraints. -/
structure MeteoraLiquidity where
  signer : Pubkey
  accounts : BalanceLiquidity
  dynamicAmmProgram : Pubkey

/-- `dynamic_amm::ID`, `Eo7WjKq67rjJQSZxS6z3YkapzY3eMj6Xy8X5EQVn5UaB`. -/
def dynamicAmmId : Pubkey := 0xccf802d4cccc84d7fb21b5f73b49d81a16c5b4c88ee32394e1c91d3588cc4080

omit [F64 F] in
/-- Both contexts wait for the same flags, those that admit lending. -/
def MeteoraLiquidity.constraints (a : MeteoraLiquidity) (d : Deployment) (env : Env)
    (w : World F) : Except Failure Unit := do
  requireAuthority d env a.signer
  requireLendable w.sequenceFlag
  requireSigner env a.accounts.user
  require (a.dynamicAmmProgram = dynamicAmmId) (.anchor .constraint)

namespace MeteoraDeposit

omit [F64 F] in
def handle (a : MeteoraLiquidity) (env : Env)
    (poolTokenAmount maximumTokenAAmount maximumTokenBAmount : UInt64) (x : Exec F) :
    Except Failure (Exec F) :=
  x.invoke env ⟨.addBalanceLiquidity a.accounts poolTokenAmount maximumTokenAAmount
    maximumTokenBAmount, []⟩

end MeteoraDeposit

namespace MeteoraWithdraw

omit [F64 F] in
def handle (a : MeteoraLiquidity) (env : Env)
    (poolTokenAmount maximumTokenAAmount maximumTokenBAmount : UInt64) (x : Exec F) :
    Except Failure (Exec F) :=
  x.invoke env ⟨.removeBalanceLiquidity a.accounts poolTokenAmount maximumTokenAAmount
    maximumTokenBAmount, []⟩

end MeteoraWithdraw

/-! ## `init_lending_accounts` -/

/-- `InitLendingAccount`. -/
structure InitLendingAccount where
  owner : Pubkey
  marginfiGroup : Pubkey
  seed1Account : Pubkey
  seed2Account : Pubkey
  lendingMarket : Pubkey
  obligation : Pubkey
  userMetadata : Pubkey
  marginfiAccount : Pubkey

namespace InitLendingAccount

variable (a : InitLendingAccount)

omit [F64 F] in
/-- Any signer passes as `owner`. -/
def constraints (env : Env) (_ : World F) : Except Failure Unit := do
  requireSigner env a.owner
  requireSigner env a.marginfiAccount

omit [F64 F] in
def handle (d : Deployment) (env : Env) (x : Exec F) : Except Failure (Exec F) := do
  let x ← x.invoke env ⟨.initUserMetadata d.treasuryAuthority a.owner a.userMetadata 0,
    [.treasuryAuthority]⟩
  let x ← x.invoke env ⟨.initObligation
    { obligationOwner := d.treasuryAuthority
      feePayer := a.owner
      obligation := a.obligation
      lendingMarket := a.lendingMarket
      seed1Account := a.seed1Account
      seed2Account := a.seed2Account
      ownerUserMetadata := a.userMetadata }, [.treasuryAuthority]⟩
  x.invoke env ⟨.marginfiAccountInitialize a.marginfiGroup a.marginfiAccount d.treasuryAuthority
    a.owner, [.treasuryAuthority]⟩

omit [F64 F] in
variable {a} in
theorem handle_invoked {d : Deployment} {env : Env} {x y : Exec F}
    (h : a.handle d env x = .ok y) : x.Invoked y := by
  simp only [handle, bind_eq_ok] at h
  obtain ⟨x₁, h₁, x₂, h₂, h₃⟩ := h
  exact (Exec.Invoked.of_invoke h₁).trans ((Exec.Invoked.of_invoke h₂).trans (.of_invoke h₃))

end InitLendingAccount

end Saturn
