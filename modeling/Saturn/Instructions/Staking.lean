import Saturn.State.Token

/-!
# `stake_stf` and `unstake_stf`

Staking moves STF to the treasury and credits the amount divided by the staking index; unstaking
debits that many units and pays them times the index. Neither checks which mint it is given: the
assertion against `STF_MINT` is commented out in both handlers.
-/

namespace Saturn

open Machine

variable {F : Type}

/-! ## Account checks -/

/-- `Signer<'info>`. -/
def requireSigner (env : Env) (k : Pubkey) : Except Failure Unit :=
  require (k ∈ env.signers) (.anchor .accountNotSigner)

/-- A token account with the mint and the owner its constraints ask for. -/
def requireTokenAccount (l : Ledger) (k mint owner : Pubkey) : Except Failure Unit := do
  let a ← okOr (l.tokenAccount k) (.anchor .accountNotInitialized)
  require (a.mint = mint ∧ a.owner = owner) (.anchor .constraint)

/-- `Account<'info, Mint>`. -/
def requireMint (l : Ledger) (k : Pubkey) : Except Failure Unit := do
  let _ ← okOr (l.mint k) (.anchor .accountNotInitialized)
  return ()

@[simp] theorem requireSigner_eq_ok {env : Env} {k : Pubkey} {u : Unit} :
    requireSigner env k = .ok u ↔ k ∈ env.signers := by
  simp [requireSigner]

@[simp] theorem requireTokenAccount_eq_ok {l : Ledger} {k mint owner : Pubkey} {u : Unit} :
    requireTokenAccount l k mint owner = .ok u ↔
      ∃ a, l.tokenAccount k = some a ∧ a.mint = mint ∧ a.owner = owner := by
  simp [requireTokenAccount]

@[simp] theorem requireMint_eq_ok {l : Ledger} {k : Pubkey} {u : Unit} :
    requireMint l k = .ok u ↔ ∃ m, l.mint k = some m := by
  simp only [requireMint, bind_eq_ok, okOr_eq_ok, pure_eq_ok]
  constructor
  · rintro ⟨m, hm, -⟩
    exact ⟨m, hm⟩
  · rintro ⟨m, hm⟩
    exact ⟨m, hm, trivial⟩

/-! ## The contexts -/

/-- `StakeSTF`. The stake account, the treasury and its authority are fixed by their seeds. -/
structure StakeSTF where
  user : Pubkey
  userTokenAccount : Pubkey
  treasuryTokenAccount : Pubkey
  stfTokenMint : Pubkey

/-- `UnStakeSTF`, with the same accounts as `StakeSTF`. -/
structure UnStakeSTF where
  user : Pubkey
  userTokenAccount : Pubkey
  treasuryTokenAccount : Pubkey
  stfTokenMint : Pubkey

/-- The constraints both contexts state. -/
def stakingConstraints (d : Deployment) (env : Env) (l : Ledger)
    (user userTokenAccount treasuryTokenAccount stfTokenMint : Pubkey) : Except Failure Unit := do
  requireSigner env user
  requireTokenAccount l userTokenAccount stfTokenMint user
  requireTokenAccount l treasuryTokenAccount stfTokenMint d.treasuryAuthority
  requireMint l stfTokenMint

def StakeSTF.constraints (a : StakeSTF) (d : Deployment) (env : Env) (w : World F) :
    Except Failure Unit :=
  stakingConstraints d env w.ledger a.user a.userTokenAccount a.treasuryTokenAccount
    a.stfTokenMint

def UnStakeSTF.constraints (a : UnStakeSTF) (d : Deployment) (env : Env) (w : World F) :
    Except Failure Unit :=
  stakingConstraints d env w.ledger a.user a.userTokenAccount a.treasuryTokenAccount
    a.stfTokenMint

theorem stakingConstraints_eq_ok {d : Deployment} {env : Env} {l : Ledger}
    {user userTokenAccount treasuryTokenAccount stfTokenMint : Pubkey} {u : Unit} :
    stakingConstraints d env l user userTokenAccount treasuryTokenAccount stfTokenMint = .ok u ↔
      user ∈ env.signers ∧
        (∃ a, l.tokenAccount userTokenAccount = some a ∧ a.mint = stfTokenMint ∧ a.owner = user) ∧
        (∃ b, l.tokenAccount treasuryTokenAccount = some b ∧ b.mint = stfTokenMint ∧
          b.owner = d.treasuryAuthority) ∧
        ∃ m, l.mint stfTokenMint = some m := by
  simp only [stakingConstraints, bind_eq_ok, requireSigner_eq_ok, requireTokenAccount_eq_ok,
    requireMint_eq_ok]
  constructor
  · rintro ⟨_, hsigner, _, hua, _, hta, hm⟩
    exact ⟨hsigner, hua, hta, hm⟩
  · rintro ⟨hsigner, hua, hta, hm⟩
    exact ⟨(), hsigner, (), hua, (), hta, hm⟩

/-- The stake account of `user`, which `init_if_needed` creates zeroed. -/
def World.stakeAccount (w : World F) (user : Pubkey) : UserStakeAccount :=
  (w.stakeAccounts user).getD .default

/-! ## The handlers -/

def StakeSTF.deposit (a : StakeSTF) (amount : UInt64) : Cpi :=
  ⟨.transfer a.userTokenAccount a.treasuryTokenAccount a.user amount, []⟩

def UnStakeSTF.payout (a : UnStakeSTF) (d : Deployment) (amount : UInt64) : Cpi :=
  ⟨.transferChecked a.treasuryTokenAccount a.stfTokenMint a.userTokenAccount d.treasuryAuthority
    amount 2, [.treasuryAuthority]⟩

def StakeSTF.handle (a : StakeSTF) (d : Deployment) (env : Env) (amountToStake : UInt64)
    (x : Exec F) : Except Failure (Exec F) := do
  let treasury := x.world.treasury
  let userStakeAccount := x.world.stakeAccount a.user
  let x ← x.invoke env (a.deposit amountToStake)
  let amountToTransfer ← div amountToStake treasury.stakingIndex
  let totalStakedIndex ← d.profile.add userStakeAccount.totalStakedIndex amountToTransfer
  let tokenStaked ← d.profile.add treasury.tokenStaked amountToTransfer
  return (x.setStakeAccount a.user
    (userStakeAccount.setTotalStakedIndex totalStakedIndex)).setTreasury
    (treasury.setTokenStaked tokenStaked)

def UnStakeSTF.handle (a : UnStakeSTF) (d : Deployment) (env : Env) (amountToUnstake : UInt64)
    (x : Exec F) : Except Failure (Exec F) := do
  let treasury := x.world.treasury
  let personalAccount := x.world.stakeAccount a.user
  require (amountToUnstake < personalAccount.totalStakedIndex) (.bond .unstakingError)
  let amountToTransfer ← d.profile.mul amountToUnstake treasury.stakingIndex
  let totalStakedIndex ← d.profile.sub personalAccount.totalStakedIndex amountToUnstake
  let tokenStaked ← d.profile.sub treasury.tokenStaked amountToUnstake
  let x := (x.setStakeAccount a.user
    (personalAccount.setTotalStakedIndex totalStakedIndex)).setTreasury
    (treasury.setTokenStaked tokenStaked)
  -- the `Result` of the transfer is dropped
  return x.invokeIgnore env (a.payout d amountToTransfer)

/-! ## What an accepted call did -/

variable {d : Deployment} {env : Env} {n : UInt64} {x y : Exec F}

theorem StakeSTF.handle_eq_ok {a : StakeSTF} : a.handle d env n x = .ok y ↔
    ∃ l, env.cpi x.trace.length (a.deposit n) x.world.ledger = .ok l ∧
      x.world.treasury.stakingIndex ≠ 0 ∧
      (d.profile.overflowChecks = true →
        (x.world.stakeAccount a.user).totalStakedIndex.toNat
          + (n / x.world.treasury.stakingIndex).toNat < 2 ^ 64) ∧
      (d.profile.overflowChecks = true →
        x.world.treasury.tokenStaked.toNat + (n / x.world.treasury.stakingIndex).toNat < 2 ^ 64) ∧
      y = ((x.afterCpi (a.deposit n) l true).setStakeAccount a.user
          ((x.world.stakeAccount a.user).setTotalStakedIndex
            ((x.world.stakeAccount a.user).totalStakedIndex
              + n / x.world.treasury.stakingIndex))).setTreasury
          (x.world.treasury.setTokenStaked
            (x.world.treasury.tokenStaked + n / x.world.treasury.stakingIndex)) := by
  simp only [StakeSTF.handle, bind_eq_ok, Exec.invoke_eq_ok, div_eq_ok, Profile.add_eq_ok,
    pure_eq_ok]
  constructor
  · rintro ⟨_, ⟨l, hcpi, rfl⟩, _, ⟨hindex, rfl⟩, _, ⟨rfl, huser⟩, _, ⟨rfl, htotal⟩, rfl⟩
    exact ⟨l, hcpi, hindex, huser, htotal, rfl⟩
  · rintro ⟨l, hcpi, hindex, huser, htotal, rfl⟩
    exact ⟨_, ⟨l, hcpi, rfl⟩, _, ⟨hindex, rfl⟩, _, ⟨rfl, huser⟩, _, ⟨rfl, htotal⟩, rfl⟩

/-- The accounts after the two writes of `unstake_stf`, before its transfer. -/
@[simps -fullyApplied]
def UnStakeSTF.debited (a : UnStakeSTF) (n : UInt64) (x : Exec F) : Exec F where
  world := { x.world with
    treasury := x.world.treasury.setTokenStaked (x.world.treasury.tokenStaked - n)
    stakeAccounts := Function.update x.world.stakeAccounts a.user
      (some ((x.world.stakeAccount a.user).setTotalStakedIndex
        ((x.world.stakeAccount a.user).totalStakedIndex - n))) }
  trace := x.trace

theorem UnStakeSTF.handle_eq_ok {a : UnStakeSTF} : a.handle d env n x = .ok y ↔
    n < (x.world.stakeAccount a.user).totalStakedIndex ∧
      (d.profile.overflowChecks = true →
        n.toNat * x.world.treasury.stakingIndex.toNat < 2 ^ 64) ∧
      (d.profile.overflowChecks = true → n.toNat ≤ x.world.treasury.tokenStaked.toNat) ∧
      y = (a.debited n x).invokeIgnore env (a.payout d (n * x.world.treasury.stakingIndex)) := by
  simp only [UnStakeSTF.handle, bind_eq_ok, require_eq_ok, Profile.mul_eq_ok, Profile.sub_eq_ok,
    pure_eq_ok]
  constructor
  · rintro ⟨_, hlt, _, ⟨rfl, hpay⟩, _, ⟨rfl, -⟩, _, ⟨rfl, htotal⟩, rfl⟩
    exact ⟨hlt, hpay, htotal, rfl⟩
  · rintro ⟨hlt, hpay, htotal, rfl⟩
    have hle : n.toNat ≤ (x.world.stakeAccount a.user).totalStakedIndex.toNat :=
      (UInt64.lt_iff_toNat_lt.mp hlt).le
    exact ⟨(), hlt, _, ⟨rfl, hpay⟩, _, ⟨rfl, fun _ => hle⟩, _, ⟨rfl, htotal⟩, rfl⟩

end Saturn
