import Saturn.State.Account
import Saturn.Machine.Float

/-!
# The state a call runs on, and the CPIs it makes

`World` is what the handlers read and write: the program's own accounts, and the ledger of all other
accounts that a CPI can change. The program's per-user accounts are kept under the user whose key is
in their seeds (`[PERSONAL_SEED, user]` and `[ESCROW, user]`), so distinct users have distinct ones.

Other programs are not modelled here. A handler hands a `Cpi` to its environment and gets a new
ledger or an error back; `Env.cpi` is any function, and it sees how many CPIs the call has made
before, so two equal CPIs may end differently. What a result needs to know about the token program
is a hypothesis on `Env.cpi` (`Saturn.State.Token`).

During a call the state is an `Exec`: the world so far and the trace of the CPIs made, each with
whether it returned `Ok`.
-/

namespace Saturn

open Machine

/-! ## The ledger -/

/-- A token account of the SPL token program. -/
structure TokenAccount where
  mint : Pubkey
  owner : Pubkey
  amount : UInt64
  deriving DecidableEq

/-- A mint of the SPL token program. -/
structure Mint where
  decimals : UInt8
  supply : UInt64
  deriving DecidableEq

/-- What an account outside the program holds, as far as the handlers look. -/
inductive AccountData where
  | empty
  | tokenAccount (a : TokenAccount)
  | mint (m : Mint)
  | other
  deriving DecidableEq

structure Ledger where
  data : Pubkey → AccountData
  lamports : Pubkey → UInt64

/-- `Account<TokenAccount>`: the token account at a key, if one is there. -/
def Ledger.tokenAccount (l : Ledger) (k : Pubkey) : Option TokenAccount :=
  match l.data k with
  | .tokenAccount a => some a
  | _ => none

/-- `Account<Mint>`. -/
def Ledger.mint (l : Ledger) (k : Pubkey) : Option Mint :=
  match l.data k with
  | .mint m => some m
  | _ => none

/-! ## Cross-program invocations -/

/-- The PDAs the program signs for: the treasury authority, and `[WSOL_SEED, bump]`. -/
inductive SignerSeed where
  | treasuryAuthority
  | wsol (bump : UInt8)
  deriving DecidableEq

structure AccountMeta where
  pubkey : Pubkey
  isSigner : Bool
  isWritable : Bool
  deriving DecidableEq

/-- Accounts of klend's `deposit_reserve_liquidity_and_obligation_collateral`. -/
structure KlendDeposit where
  owner : Pubkey
  obligation : Pubkey
  lendingMarket : Pubkey
  lendingMarketAuthority : Pubkey
  reserve : Pubkey
  reserveLiquiditySupply : Pubkey
  reserveCollateralMint : Pubkey
  reserveDestinationDepositCollateral : Pubkey
  userSourceLiquidity : Pubkey
  userDestinationCollateral : Pubkey
  deriving DecidableEq

/-- Accounts of klend's `withdraw_obligation_collateral_and_redeem_reserve_collateral`. -/
structure KlendRedeem where
  owner : Pubkey
  obligation : Pubkey
  lendingMarket : Pubkey
  lendingMarketAuthority : Pubkey
  withdrawReserve : Pubkey
  reserveLiquiditySupply : Pubkey
  reserveCollateralMint : Pubkey
  userDestinationCollateral : Pubkey
  userDestinationLiquidity : Pubkey
  reserveSourceCollateral : Pubkey
  deriving DecidableEq

/-- Accounts of klend's `init_obligation`; its `tag` and `id` are both `0`. -/
structure KlendInitObligation where
  obligationOwner : Pubkey
  feePayer : Pubkey
  obligation : Pubkey
  lendingMarket : Pubkey
  seed1Account : Pubkey
  seed2Account : Pubkey
  ownerUserMetadata : Pubkey
  deriving DecidableEq

/-- Accounts of marginfi's `lending_account_deposit`. -/
structure MarginfiDeposit where
  marginfiGroup : Pubkey
  marginfiAccount : Pubkey
  signer : Pubkey
  bank : Pubkey
  signerTokenAccount : Pubkey
  bankLiquidityVault : Pubkey
  deriving DecidableEq

/-- Accounts of marginfi's `lending_account_withdraw`. -/
structure MarginfiRedeem where
  marginfiGroup : Pubkey
  marginfiAccount : Pubkey
  signer : Pubkey
  bank : Pubkey
  destinationTokenAccount : Pubkey
  bankLiquidityVaultAuthority : Pubkey
  bankLiquidityVault : Pubkey
  deriving DecidableEq

/-- Accounts of the dynamic AMM's `add_balance_liquidity` and `remove_balance_liquidity`. -/
structure BalanceLiquidity where
  pool : Pubkey
  lpMint : Pubkey
  userPoolLp : Pubkey
  aVaultLp : Pubkey
  bVaultLp : Pubkey
  aVault : Pubkey
  bVault : Pubkey
  aVaultLpMint : Pubkey
  bVaultLpMint : Pubkey
  aTokenVault : Pubkey
  bTokenVault : Pubkey
  userAToken : Pubkey
  userBToken : Pubkey
  user : Pubkey
  vaultProgram : Pubkey
  deriving DecidableEq

/-- The instructions of other programs that the handlers invoke, with the arguments they pass. -/
inductive CpiInstruction where
  -- SPL token
  | transfer (source destination authority : Pubkey) (amount : UInt64)
  | transferChecked (source mint destination authority : Pubkey) (amount : UInt64)
      (decimals : UInt8)
  | mintTo (mint destination authority : Pubkey) (amount : UInt64)
  | initializeAccount3 (account mint authority : Pubkey)
  | closeAccount (account destination authority : Pubkey)
  -- system program
  | systemTransfer (source destination : Pubkey) (lamports : UInt64)
  | createAccount (source newAccount : Pubkey) (lamports space : UInt64) (owner : Pubkey)
  -- Jupiter
  | jupiter (accounts : List AccountMeta) (data : List UInt8)
  -- klend
  | initUserMetadata (owner feePayer userMetadata userLookupTable : Pubkey)
  | initObligation (accounts : KlendInitObligation)
  | depositReserveLiquidityAndObligationCollateral (accounts : KlendDeposit) (amount : UInt64)
  | withdrawObligationCollateralAndRedeemReserveCollateral (accounts : KlendRedeem)
      (amount : UInt64)
  -- marginfi
  | marginfiAccountInitialize (marginfiGroup marginfiAccount authority feePayer : Pubkey)
  | lendingAccountDeposit (accounts : MarginfiDeposit) (amount : UInt64)
  | lendingAccountWithdraw (accounts : MarginfiRedeem) (amount : UInt64)
      (withdrawAll : Option Bool)
  -- dynamic AMM
  | addBalanceLiquidity (accounts : BalanceLiquidity)
      (poolTokenAmount maximumTokenAAmount maximumTokenBAmount : UInt64)
  | removeBalanceLiquidity (accounts : BalanceLiquidity)
      (poolTokenAmount minimumTokenAAmount minimumTokenBAmount : UInt64)
  deriving DecidableEq

structure Cpi where
  instruction : CpiInstruction
  signerSeeds : List SignerSeed
  deriving DecidableEq

/-- A CPI made during a call, and whether it returned `Ok`. -/
structure CpiRecord where
  cpi : Cpi
  ok : Bool
  deriving DecidableEq

/-! ## The environment of a call -/

/-- The `Clock` sysvar. -/
structure Clock where
  slot : UInt64
  unixTimestamp : Int64

/-- A reading of a Pyth feed: `price * 10 ^ exponent`, give or take `conf`. -/
structure Price where
  price : Int64
  conf : UInt64
  exponent : Int32

/-- What a call is given from outside the program. -/
structure Env where
  clock : Clock
  /-- The keys that signed the transaction. -/
  signers : List Pubkey
  /-- `PriceUpdateV2::get_price_no_older_than` at the clock: the update account, the maximum age
  and the feed asked for. -/
  getPriceNoOlderThan : Pubkey → UInt64 → FeedId → Option Price
  /-- `Rent::minimum_balance`. -/
  rentMinimumBalance : UInt64 → UInt64
  /-- What the invoked programs do. The first argument counts the CPIs of the call so far. -/
  cpi : ℕ → Cpi → Ledger → Except CpiError Ledger

/-- How and where the program was deployed. -/
structure Deployment where
  profile : Profile
  /-- The PDA of `[TREASURY_AUTHORITY_SEED]`. -/
  treasuryAuthority : Pubkey
  /-- The PDA of `[mint]`, with its bump. -/
  treasuryTokenPda : Pubkey → Pubkey × UInt8

/-! ## World and execution state -/

/-- The program's accounts once `initialize` has run, and the ledger. -/
structure World (F : Type) where
  treasury : Treasury F
  sequenceFlag : SequenceFlag
  stakeAccounts : Pubkey → Option UserStakeAccount
  escrows : Pubkey → Option Escrow
  ledger : Ledger

structure Exec (F : Type) where
  world : World F
  trace : List CpiRecord

variable {F : Type}

@[simps -fullyApplied]
def Exec.start (w : World F) : Exec F := ⟨w, []⟩

namespace Exec

variable (x : Exec F)

@[simps -fullyApplied]
def setTreasury (t : Treasury F) : Exec F := { x with world := { x.world with treasury := t } }

@[simps -fullyApplied]
def setSequenceFlag (s : SequenceFlag) : Exec F :=
  { x with world := { x.world with sequenceFlag := s } }

@[simps -fullyApplied]
def setStakeAccount (user : Pubkey) (a : UserStakeAccount) : Exec F :=
  { x with world :=
    { x.world with stakeAccounts := Function.update x.world.stakeAccounts user (some a) } }

@[simps -fullyApplied]
def setEscrow (user : Pubkey) (e : Escrow) : Exec F :=
  { x with world := { x.world with escrows := Function.update x.world.escrows user (some e) } }

/-- The state after a CPI: the new ledger if it returned `Ok`, and one more record. -/
@[simps -fullyApplied]
def afterCpi (c : Cpi) (l : Ledger) (ok : Bool) : Exec F :=
  { world := { x.world with ledger := l }, trace := x.trace ++ [⟨c, ok⟩] }

/-- Make a CPI and hand its `Result` back. -/
def call (env : Env) (c : Cpi) : Except CpiError Unit × Exec F :=
  match env.cpi x.trace.length c x.world.ledger with
  | .ok l => (.ok (), x.afterCpi c l true)
  | .error e => (.error e, x.afterCpi c x.world.ledger false)

/-- Make a CPI and pass its error on: `cpi(..)?`. -/
def invoke (env : Env) (c : Cpi) : Except Failure (Exec F) :=
  match x.call env c with
  | (.ok _, y) => .ok y
  | (.error e, _) => .error (.cpi e)

/-- Make a CPI and drop its `Result`: `let _ = cpi(..)`. -/
def invokeIgnore (env : Env) (c : Cpi) : Exec F := (x.call env c).2

variable {x} {env : Env} {c : Cpi}

theorem invoke_eq_ok {y : Exec F} : x.invoke env c = .ok y ↔
    ∃ l, env.cpi x.trace.length c x.world.ledger = .ok l ∧ y = x.afterCpi c l true := by
  unfold invoke call
  cases h : env.cpi x.trace.length c x.world.ledger <;> simp [eq_comm]

theorem invoke_ne_panic : x.invoke env c ≠ .error .panic := by
  unfold invoke call
  cases h : env.cpi x.trace.length c x.world.ledger <;> simp

theorem invokeIgnore_cases (x : Exec F) (env : Env) (c : Cpi) :
    (∃ l, env.cpi x.trace.length c x.world.ledger = .ok l ∧
      x.invokeIgnore env c = x.afterCpi c l true) ∨
    ((∃ e, env.cpi x.trace.length c x.world.ledger = .error e) ∧
      x.invokeIgnore env c = x.afterCpi c x.world.ledger false) := by
  unfold invokeIgnore call
  cases h : env.cpi x.trace.length c x.world.ledger with
  | ok l => exact .inl ⟨l, rfl, rfl⟩
  | error e => exact .inr ⟨⟨e, rfl⟩, rfl⟩

/-! ### Calls that only invoke -/

/-- Between `x` and `y` nothing happened but CPIs that returned `Ok`. -/
def Invoked (x y : Exec F) : Prop :=
  ∃ l t, y = ⟨{ x.world with ledger := l }, x.trace ++ t⟩ ∧ ∀ r ∈ t, r.ok = true

namespace Invoked

variable {y z : Exec F}

theorem refl (x : Exec F) : x.Invoked x := ⟨x.world.ledger, [], by simp, by simp⟩

theorem trans (h : x.Invoked y) (h' : y.Invoked z) : x.Invoked z := by
  obtain ⟨l, t, rfl, ht⟩ := h
  obtain ⟨l', t', rfl, ht'⟩ := h'
  refine ⟨l', t ++ t', by simp, ?_⟩
  intro r hr
  rcases List.mem_append.mp hr with hr | hr
  · exact ht r hr
  · exact ht' r hr

theorem of_invoke (h : x.invoke env c = .ok y) : x.Invoked y := by
  obtain ⟨l, -, rfl⟩ := invoke_eq_ok.mp h
  exact ⟨l, [⟨c, true⟩], rfl, by simp⟩

theorem all_ok (h : x.Invoked y) (hx : ∀ r ∈ x.trace, r.ok = true) :
    ∀ r ∈ y.trace, r.ok = true := by
  obtain ⟨l, t, rfl, ht⟩ := h
  intro r hr
  rcases List.mem_append.mp hr with hr | hr
  · exact hx r hr
  · exact ht r hr

theorem sequenceFlag_eq (h : x.Invoked y) : y.world.sequenceFlag = x.world.sequenceFlag := by
  obtain ⟨l, t, rfl, -⟩ := h
  rfl

end Invoked

end Exec

end Saturn
