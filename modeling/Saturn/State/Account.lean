import Saturn.Machine.Word
import Mathlib.Data.Fintype.EquivFin
import Mathlib.Tactic.Simps.Basic

/-!
# Accounts, constants and errors

The four account types the program owns, field by field, the addresses it compares against, and the
ways a call can fail. The `f64` fields of `Treasury` are over an arbitrary carrier `F`
(`Machine.F64`), so the records themselves commit to no arithmetic.
-/

namespace Saturn

open Machine

/-! ## Public keys -/

/-- A 32-byte public key, read as a big-endian number. -/
structure Pubkey where
  val : Fin (2 ^ 256)
  deriving DecidableEq

instance (n : Nat) : OfNat Pubkey n := ⟨⟨Fin.ofNat (2 ^ 256) n⟩⟩

/-- There are finitely many keys, so sums over all of them make sense. -/
noncomputable instance : Fintype Pubkey :=
  Fintype.ofInjective Pubkey.val fun a b h => by cases a; cases b; simp_all

/-! ### Addresses the code compares with

`constants.rs` spells them in base58; the numbers are the decoded bytes. -/

/-- `11111111111111111111111111111111` -/
def solMint : Pubkey := 0

/-- `9cmYPgxT1wGP6ySgSDHCmTrLYzeDp1iVssy4grjdjDyQ` -/
def usdcMint : Pubkey := 0x80072fc89be76dcb9275313728f67ab1ee4b67384bd254bfc70a922ab3ee6e47

/-- `GAKS74QSGdt4tN4SLH6bHhJfAucYu3e8Dwf6hRRcJaU1` -/
def bonkMint : Pubkey := 0xe1425f8d58c1c6da7b8160f260f9fd45766fd28887c9cc1573f51b64466a079a

/-- `Es9vMFrzaCERmJfrF4H2FYD4KCoNkY11McCe8BenwNYB` -/
def usdtMint : Pubkey := 0xce010e60afedb22717bd63192f54145a3f965a33bb82d2c7029eb2ce1e208264

/-- `So11111111111111111111111111111111111111112` -/
def wsolMint : Pubkey := 0x69b8857feab8184fb687f634618c035dac439dc1aeb3b5598a0f00000000001

/-- `7vfCXTUXx5WJV5JADk17DUJ4ksgau7utNKj4b963voxs` -/
def wethMint : Pubkey := 0x66e5188a1308a1db90b6d31f3fbdca8c3df2678c8112dfdd3d192c5a3cc457a8

/-- `3NZ9JMVBmGAqocybic2c7LQCJScmgsAZ6vQqTDzcqmJh` -/
def wbtcMint : Pubkey := 0x233cea474d6cb513dad421c82e681f80ed7512455dfb91fc68363b99d9156582

/-- `3HWcdN9fxD3ytB7L2FG5c3WJXQin3QFUNZoESCQriLD7` -/
def stfMint : Pubkey := 0x21f226d8da8b79ed6a356623b9f35fb0a6c789b29ab41810ef2f79b87e4a5a82

/-- The SPL token program, `TokenkegQfeZyiNwAJbNbGKPFXCWuBvf9Ss623VQ5DA`. -/
def tokenProgram : Pubkey := 0x6ddf6e1d765a193d9cbe146ceeb79ac1cb485ed5f5b37913a8cf5857eff00a9

/-- The Pyth feeds `constants.rs` names. -/
inductive FeedId where
  | wbtc
  | bonk
  | usdc
  | sol
  deriving DecidableEq

/-! ## Accounts -/

/-- `account/treasury.rs`. -/
structure Treasury (F : Type) where
  treasuryAdmin : Pubkey
  stakingIndex : UInt64
  treasuryValue : F
  tokenMinted : UInt64
  tokenStaked : UInt64
  meteoraDepositAssets : UInt64
  meteoraDepositValue : F
  meteoraAllocation : F
  kaminoLendAssets : UInt64
  kaminoLendValue : F
  kaminoAllocation : F
  marginfiLendAssets : UInt64
  marginfiLendValue : F
  marginfiAllocation : F
  jupiterPerpsValue : F
  jupiterAllocation : F
  usdcAllocation : F
  usdcValue : F
  wbtcAllocation : F
  wbtcValue : F
  solAllocation : F
  solValue : F

/-- `#[derive(Default)]` on `Treasury`. -/
@[simps] def Treasury.default {F : Type} [Zero F] : Treasury F where
  treasuryAdmin := 0
  stakingIndex := 0
  treasuryValue := 0
  tokenMinted := 0
  tokenStaked := 0
  meteoraDepositAssets := 0
  meteoraDepositValue := 0
  meteoraAllocation := 0
  kaminoLendAssets := 0
  kaminoLendValue := 0
  kaminoAllocation := 0
  marginfiLendAssets := 0
  marginfiLendValue := 0
  marginfiAllocation := 0
  jupiterPerpsValue := 0
  jupiterAllocation := 0
  usdcAllocation := 0
  usdcValue := 0
  wbtcAllocation := 0
  wbtcValue := 0
  solAllocation := 0
  solValue := 0

namespace Treasury

variable {F : Type} (t : Treasury F)

/-- Write `token_staked`. -/
@[simps] def setTokenStaked (tokenStaked : UInt64) : Treasury F := { t with tokenStaked }

@[simps] def setBond (tokenMinted stakingIndex : UInt64) (treasuryValue : F) : Treasury F :=
  { t with tokenMinted, stakingIndex, treasuryValue }

@[simps] def setCashout (tokenMinted : UInt64) (treasuryValue : F) : Treasury F :=
  { t with tokenMinted, treasuryValue }

end Treasury

/-- `account/sequence_flag.rs`. -/
structure SequenceFlag where
  flagCalcuBalance : Bool
  flagReallocate : Bool
  flagMarginfi : Bool
  flagKamino : Bool
  flagMeteora : Bool
  flagJupiter : Bool
  flagSwap : Bool
  deriving DecidableEq

/-- `account/userstakeaccount.rs`. -/
structure UserStakeAccount where
  totalStakedIndex : UInt64
  totalPoints : UInt64
  deriving DecidableEq

/-- Write `total_staked_index`. -/
@[simps] def UserStakeAccount.setTotalStakedIndex (a : UserStakeAccount)
    (totalStakedIndex : UInt64) : UserStakeAccount :=
  { a with totalStakedIndex }

/-- `#[derive(Default)]` on `UserStakeAccount`, what `init_if_needed` finds in a new account. -/
def UserStakeAccount.default : UserStakeAccount := ⟨0, 0⟩

/-- `account/escrow.rs`. -/
structure Escrow where
  creator : Pubkey
  tokenMint : Pubkey
  tokenAmount : UInt64
  startTimestamp : Int64
  endTimestamp : Int64
  numTokenToRedeem : UInt64
  isFinished : UInt64
  deriving DecidableEq

/-- Write `is_finished`. -/
@[simps] def Escrow.setIsFinished (e : Escrow) (isFinished : UInt64) : Escrow :=
  { e with isFinished }

/-! ## Errors -/

/-- `BondError` in `error.rs`. -/
inductive BondError where
  | insufficientFundsError
  | tokenMintError
  | backPriceError
  | spotPriceError
  | deductionError
  | treasuryFundError
  | collateralError
  | bondNotFinished
  | creatorError
  | alreadyRedeem
  | unstakingError
  | incorrectOwner
  deriving DecidableEq

/-- The errors of klend that the program's own Kamino helpers return. -/
inductive LendingError where
  | invalidAmount
  | mathOverflow
  | reserveStale
  deriving DecidableEq

/-- The error of marginfi that the program's own marginfi helpers return. -/
inductive MarginfiError where
  | mathError
  deriving DecidableEq

/-- What Anchor reports before, or instead of, the handler's own checks. -/
inductive AnchorError where
  /-- A constraint of the account context does not hold. -/
  | constraint
  /-- A required signature is missing. -/
  | accountNotSigner
  /-- `init` on an account that exists. -/
  | accountAlreadyInUse
  /-- An account that has to exist does not, or is of another type. -/
  | accountNotInitialized
  /-- `load_init` on an account whose discriminator is set. -/
  | accountDiscriminatorAlreadySet
  /-- `try_deserialize` on bytes of another type. -/
  | accountDidNotDeserialize
  deriving DecidableEq

/-- The error code another program's instruction ended with. -/
structure CpiError where
  code : UInt64
  deriving DecidableEq

/-- Why a call did not return `Ok`. -/
inductive Failure where
  | bond (e : BondError)
  | lending (e : LendingError)
  | marginfi (e : MarginfiError)
  | anchor (e : AnchorError)
  /-- The price feed had no acceptable reading. -/
  | price
  /-- A CPI failed and the handler passed its error on. -/
  | cpi (e : CpiError)
  | panic
  deriving DecidableEq

instance : Panics Failure := ⟨.panic⟩

end Saturn
