import Saturn.Instructions.Staking

/-!
# `apply_bond`, `finish_bond` and `cashingout_reedem`

A bond takes a payment in one of three collaterals, prices STF between its backing and the spot
price, mints the stakers' share to the treasury at once and records the creator's share in an
escrow. Two weeks later `finish_bond` mints what the escrow records; `cashingout_reedem` buys STF
back against USDC.

`bondTerms` is the pricing arithmetic of `apply_bond` in the order the handler computes it. The
three collateral branches differ in the scale of the payment, the CPI that moves it and the feed
that prices it, and share the rest.
-/

namespace Saturn

open Machine

variable {F : Type} [F64 F]

/-! ## `apply_bond` -/

/-- What a bond can be paid with. -/
inductive Collateral where
  | sol
  | usdc
  | bonk
  deriving DecidableEq

namespace Collateral

/-- The branch `mint_pubkey` selects. -/
def ofMint (m : Pubkey) : Option Collateral :=
  if m = solMint then some .sol
  else if m = usdcMint then some .usdc
  else if m = bonkMint then some .bonk
  else none

/-- Base units in one token, as the branch multiplies them. -/
def scale : Collateral → UInt64
  | .sol => 1000000000
  | .usdc => 1000000
  | .bonk => 1000

def feedId : Collateral → FeedId
  | .sol => .sol
  | .usdc => .usdc
  | .bonk => .bonk

end Collateral

/-- The numbers a bond is struck at. -/
structure BondTerms where
  backingPrice : UInt64
  bondPrice : UInt64
  numTokenToMint : UInt64
  numTokenToRedeem : UInt64
  deriving DecidableEq

/-- The share of the gap between backing and spot price, in percent, that the bond price gives
up. -/
def deduction (diff : UInt64) : UInt64 :=
  if diff < 25 then 20
  else if diff < 50 then 35
  else if diff < 100 then 50
  else 70

/-- `treasury_value / token_minted as f64`, cast to `u64`. -/
def Treasury.backingPrice (t : Treasury F) : UInt64 :=
  F64.toU64 (t.treasuryValue / F64.ofU64 t.tokenMinted)

/-- The pricing of a bond: `total` is `total_price as u64`. -/
def bondTerms (p : Profile) (backingPrice spotPrice total : UInt64) :
    Except Failure BondTerms := do
  let diff ← div (← p.mul (← p.sub spotPrice backingPrice) 100) backingPrice
  let bondPrice ← p.add backingPrice
    (← div (← p.mul (← p.sub spotPrice backingPrice) (deduction diff)) 100)
  let numTokenToMint ←
    div (← div (← p.mul (← p.sub bondPrice backingPrice) total) backingPrice) bondPrice
  let numTokenToRedeem ← div (← div (← p.mul backingPrice total) backingPrice) bondPrice
  return { backingPrice, bondPrice, numTokenToMint, numTokenToRedeem }

structure ApplyBondArgs where
  tokenAmount : UInt64
  spotPrice : UInt64

/-- `ApplyBond`. The escrow is the one of `creator`. -/
structure ApplyBond where
  creator : Pubkey
  creatorTokenAccount : Pubkey
  treasuryTokenAccount : Pubkey
  treasuryStfTokenAccount : Pubkey
  solPriceUpdate : Pubkey
  usdcPriceUpdate : Pubkey
  bonkPriceUpdate : Pubkey
  tokenMintAddress : Pubkey
  stfTokenMint : Pubkey

namespace ApplyBond

variable (a : ApplyBond)

omit [F64 F] in
def constraints (d : Deployment) (env : Env) (w : World F) : Except Failure Unit := do
  requireSigner env a.creator
  requireTokenAccount w.ledger a.creatorTokenAccount a.tokenMintAddress a.creator
  requireTokenAccount w.ledger a.treasuryTokenAccount a.tokenMintAddress d.treasuryAuthority
  requireTokenAccount w.ledger a.treasuryStfTokenAccount a.stfTokenMint d.treasuryAuthority

def priceUpdate : Collateral → Pubkey
  | .sol => a.solPriceUpdate
  | .usdc => a.usdcPriceUpdate
  | .bonk => a.bonkPriceUpdate

def payment (d : Deployment) (c : Collateral) (amount : UInt64) : CpiInstruction :=
  match c with
  | .sol => .systemTransfer a.creator d.treasuryAuthority amount
  | .usdc | .bonk => .transfer a.creatorTokenAccount a.treasuryTokenAccount a.creator amount

def reward (d : Deployment) (amount : UInt64) : Cpi :=
  ⟨.mintTo a.stfTokenMint a.treasuryStfTokenAccount d.treasuryAuthority amount,
    [.treasuryAuthority]⟩

def handle (d : Deployment) (env : Env) (args : ApplyBondArgs) (x : Exec F) :
    Except Failure (Exec F) := do
  -- `load_init`
  require (x.world.escrows a.creator = none) (.anchor .accountDiscriminatorAlreadySet)
  let treasury := x.world.treasury
  require (a.stfTokenMint = stfMint) Failure.panic
  let c ← okOr (Collateral.ofMint a.tokenMintAddress) (.bond .tokenMintError)
  let x ← x.invoke env ⟨a.payment d c (← d.profile.mul args.tokenAmount c.scale), []⟩
  let price ← okOr (env.getPriceNoOlderThan (a.priceUpdate c) 30 c.feedId) .price
  let totalPrice ← d.profile.mulI64 price.price args.tokenAmount.toInt64
  let terms ← bondTerms d.profile treasury.backingPrice args.spotPrice totalPrice.toUInt64
  let tokenMinted ← d.profile.add treasury.tokenMinted terms.numTokenToMint
  let stakingIndex ← d.profile.add treasury.stakingIndex
    (← div terms.numTokenToMint treasury.tokenStaked)
  let treasuryValue := treasury.treasuryValue + F64.ofI64 totalPrice
  let x := x.setTreasury (treasury.setBond tokenMinted stakingIndex treasuryValue)
  let x ← x.invoke env (a.reward d (← d.profile.mul terms.numTokenToMint 100))
  let startTimestamp := env.clock.unixTimestamp
  -- 14 days
  let endTimestamp ← d.profile.addI64 startTimestamp (60 * 60 * 24 * 14)
  return x.setEscrow a.creator
    { creator := a.creator
      tokenMint := a.tokenMintAddress
      tokenAmount := args.tokenAmount
      numTokenToRedeem := terms.numTokenToRedeem
      startTimestamp, endTimestamp
      isFinished := 1 }

/-! ### What an accepted bond did -/

/-- What a bond is struck at and what its two CPIs left behind. -/
structure Sale where
  collateral : Collateral
  price : Price
  totalPrice : Int64
  terms : BondTerms
  /-- After the payment. -/
  paid : Ledger
  /-- After the stakers' share is minted. -/
  minted : Ledger
  endTimestamp : Int64

variable {a} {d : Deployment} {env : Env} {args : ApplyBondArgs} {x y : Exec F} {s : Sale}

/-- The checks of the handler passed with these values. -/
structure Sale.Accepted (s : Sale) (a : ApplyBond) (d : Deployment) (env : Env)
    (args : ApplyBondArgs) (x : Exec F) : Prop where
  fresh : x.world.escrows a.creator = none
  stf : a.stfTokenMint = stfMint
  collateral : Collateral.ofMint a.tokenMintAddress = some s.collateral
  scaled : d.profile.overflowChecks = true →
    args.tokenAmount.toNat * s.collateral.scale.toNat < 2 ^ 64
  paid : env.cpi x.trace.length
    ⟨a.payment d s.collateral (args.tokenAmount * s.collateral.scale), []⟩ x.world.ledger
      = .ok s.paid
  price : env.getPriceNoOlderThan (a.priceUpdate s.collateral) 30 s.collateral.feedId
    = some s.price
  total : (d.profile.mulI64 s.price.price args.tokenAmount.toInt64 : Except Failure Int64)
    = .ok s.totalPrice
  terms : bondTerms d.profile x.world.treasury.backingPrice args.spotPrice s.totalPrice.toUInt64
    = .ok s.terms
  supply : d.profile.overflowChecks = true →
    x.world.treasury.tokenMinted.toNat + s.terms.numTokenToMint.toNat < 2 ^ 64
  staked : x.world.treasury.tokenStaked ≠ 0
  index : d.profile.overflowChecks = true → x.world.treasury.stakingIndex.toNat
    + (s.terms.numTokenToMint / x.world.treasury.tokenStaked).toNat < 2 ^ 64
  reward : d.profile.overflowChecks = true → s.terms.numTokenToMint.toNat * 100 < 2 ^ 64
  minted : env.cpi (x.trace.length + 1) (a.reward d (s.terms.numTokenToMint * 100)) s.paid
    = .ok s.minted
  ends : (d.profile.addI64 env.clock.unixTimestamp (60 * 60 * 24 * 14) : Except Failure Int64)
    = .ok s.endTimestamp

@[simps] def Sale.escrow (s : Sale) (a : ApplyBond) (env : Env) (args : ApplyBondArgs) :
    Escrow where
  creator := a.creator
  tokenMint := a.tokenMintAddress
  tokenAmount := args.tokenAmount
  startTimestamp := env.clock.unixTimestamp
  endTimestamp := s.endTimestamp
  numTokenToRedeem := s.terms.numTokenToRedeem
  isFinished := 1

@[simps] def Sale.treasury (s : Sale) (t : Treasury F) : Treasury F :=
  { t with
    tokenMinted := t.tokenMinted + s.terms.numTokenToMint
    stakingIndex := t.stakingIndex + s.terms.numTokenToMint / t.tokenStaked
    treasuryValue := t.treasuryValue + F64.ofI64 s.totalPrice }

@[simps -fullyApplied]
def Sale.result (s : Sale) (a : ApplyBond) (d : Deployment) (env : Env)
    (args : ApplyBondArgs) (x : Exec F) : Exec F where
  world := { x.world with
    treasury := s.treasury x.world.treasury
    escrows := Function.update x.world.escrows a.creator (some (s.escrow a env args))
    ledger := s.minted }
  trace := x.trace ++
    [⟨⟨a.payment d s.collateral (args.tokenAmount * s.collateral.scale), []⟩, true⟩,
      ⟨a.reward d (s.terms.numTokenToMint * 100), true⟩]

theorem handle_eq_ok : a.handle d env args x = .ok y ↔
    ∃ s : Sale, s.Accepted a d env args x ∧ y = s.result a d env args x := by
  simp only [handle, bind_eq_ok, Exec.invoke_eq_ok, require_eq_ok, okOr_eq_ok, div_eq_ok,
    Profile.add_eq_ok, Profile.mul_eq_ok, pure_eq_ok]
  constructor
  · rintro ⟨_, hfresh, _, hstf, c, hc, _, ⟨rfl, hscaled⟩, _, ⟨paid, hpaid, rfl⟩, price, hprice,
      total, htotal, terms, hterms, _, ⟨rfl, hsupply⟩, _, ⟨hstaked, rfl⟩, _, ⟨rfl, hindex⟩,
      _, ⟨rfl, hreward⟩, _, ⟨minted, hminted, rfl⟩, ends, hends, rfl⟩
    refine ⟨⟨c, price, total, terms, paid, minted, ends⟩, ?_, ?_⟩
    · refine ⟨hfresh, hstf, hc, hscaled, hpaid, hprice, htotal, hterms, hsupply, hstaked, hindex,
        hreward, ?_, hends⟩
      simpa using hminted
    · simp [Sale.result, Sale.treasury, Sale.escrow, Exec.setEscrow, Exec.afterCpi,
        Exec.setTreasury, Treasury.setBond]
  · rintro ⟨s, h, rfl⟩
    refine ⟨(), h.fresh, (), h.stf, _, h.collateral, _, ⟨rfl, h.scaled⟩, _, ⟨_, h.paid, rfl⟩, _,
      h.price, _, h.total, _, h.terms, _, ⟨rfl, h.supply⟩, _, ⟨h.staked, rfl⟩, _, ⟨rfl, h.index⟩,
      _, ⟨rfl, h.reward⟩, _, ⟨s.minted, ?_, rfl⟩, _, h.ends, ?_⟩
    · simpa using h.minted
    · simp [Sale.result, Sale.treasury, Sale.escrow, Exec.setEscrow, Exec.afterCpi,
        Exec.setTreasury, Treasury.setBond]

end ApplyBond

/-! ## `finish_bond` -/

/-- `FinishBond`. The escrow is the one of `user`. -/
structure FinishBond where
  user : Pubkey
  destStfAccount : Pubkey
  stfTokenMint : Pubkey

namespace FinishBond

variable (a : FinishBond)

omit [F64 F] in
def constraints (env : Env) (w : World F) : Except Failure Unit := do
  requireSigner env a.user
  requireTokenAccount w.ledger a.destStfAccount a.stfTokenMint a.user
  require ((w.escrows a.user).isSome) (.anchor .accountNotInitialized)

def redemption (d : Deployment) (amount : UInt64) : Cpi :=
  ⟨.mintTo a.stfTokenMint a.destStfAccount d.treasuryAuthority amount, [.treasuryAuthority]⟩

omit [F64 F] in
def handle (d : Deployment) (env : Env) (x : Exec F) : Except Failure (Exec F) := do
  let timestamp := env.clock.unixTimestamp
  let escrow ← okOr (x.world.escrows a.user) (.anchor .accountNotInitialized)
  require (¬ timestamp < escrow.endTimestamp) (.bond .bondNotFinished)
  require (escrow.creator = a.user) (.bond .creatorError)
  require (escrow.isFinished = 1) (.bond .alreadyRedeem)
  let x ← x.invoke env (a.redemption d escrow.numTokenToRedeem)
  return x.setEscrow a.user (escrow.setIsFinished 2)

variable {a} {d : Deployment} {env : Env} {x y : Exec F}

omit [F64 F] in
theorem handle_eq_ok : a.handle d env x = .ok y ↔
    ∃ e l, x.world.escrows a.user = some e ∧ e.endTimestamp ≤ env.clock.unixTimestamp ∧
      e.creator = a.user ∧ e.isFinished = 1 ∧
      env.cpi x.trace.length (a.redemption d e.numTokenToRedeem) x.world.ledger = .ok l ∧
      y = (x.afterCpi (a.redemption d e.numTokenToRedeem) l true).setEscrow a.user
        (e.setIsFinished 2) := by
  simp only [handle, bind_eq_ok, Exec.invoke_eq_ok, require_eq_ok, okOr_eq_ok, pure_eq_ok,
    Int64.not_lt]
  constructor
  · rintro ⟨e, he, _, hend, _, hcreator, _, hopen, _, ⟨l, hcpi, rfl⟩, rfl⟩
    exact ⟨e, l, he, hend, hcreator, hopen, hcpi, rfl⟩
  · rintro ⟨e, l, he, hend, hcreator, hopen, hcpi, rfl⟩
    exact ⟨e, he, (), hend, (), hcreator, (), hopen, _, ⟨l, hcpi, rfl⟩, rfl⟩

end FinishBond

/-! ## `cashingout_reedem` -/

/-- `CashingoutReedem`. The escrow is the one of `user`, who need not sign. -/
structure CashingoutReedem where
  signer : Pubkey
  user : Pubkey
  userTokenAccount : Pubkey
  treasuryTokenAccount : Pubkey
  feeWalletTokenAccount : Pubkey
  treasuryStfTokenAccount : Pubkey
  tokenMintAddress : Pubkey
  stfTokenMint : Pubkey

namespace CashingoutReedem

variable (a : CashingoutReedem)

omit [F64 F] in
def constraints (d : Deployment) (env : Env) (w : World F) : Except Failure Unit := do
  requireSigner env a.signer
  require (a.signer = d.treasuryAuthority) (.anchor .constraint)
  require ((w.escrows a.user).isSome) (.anchor .accountNotInitialized)
  requireTokenAccount w.ledger a.userTokenAccount usdcMint a.user
  let treasuryTokenAccount ← okOr (w.ledger.tokenAccount a.treasuryTokenAccount)
    (.anchor .accountNotInitialized)
  -- these two compare the address of the account, not its mint
  require (a.treasuryTokenAccount = usdcMint ∧
    treasuryTokenAccount.owner = d.treasuryAuthority) (.anchor .constraint)
  let _ ← okOr (w.ledger.tokenAccount a.feeWalletTokenAccount) (.anchor .accountNotInitialized)
  require (a.feeWalletTokenAccount = usdcMint) (.anchor .constraint)
  requireTokenAccount w.ledger a.treasuryStfTokenAccount a.stfTokenMint d.treasuryAuthority
  requireMint w.ledger a.stfTokenMint

def payout (d : Deployment) (destination : Pubkey) (amount : UInt64) : Cpi :=
  ⟨.transfer a.treasuryTokenAccount destination d.treasuryAuthority amount, []⟩

def handle (d : Deployment) (env : Env) (amount : UInt64) (x : Exec F) :
    Except Failure (Exec F) := do
  let escrow ← okOr (x.world.escrows a.user) Failure.panic
  let treasury := x.world.treasury
  require (¬ amount < escrow.numTokenToRedeem) (.bond .insufficientFundsError)
  let backingPrice := treasury.treasuryValue / F64.ofU64 (← d.profile.mul treasury.tokenMinted 100)
  let cashingoutValue := F64.ofU64 amount * backingPrice
  let reedem := F64.toU64 (cashingoutValue * F64.lit 0.99)
  let fee := F64.toU64 (cashingoutValue * F64.lit 0.05)
  let x ← x.invoke env (a.payout d a.userTokenAccount reedem)
  let x ← x.invoke env (a.payout d a.feeWalletTokenAccount fee)
  let tokenMinted ← d.profile.sub treasury.tokenMinted amount
  let treasuryValue := treasury.treasuryValue - F64.ofU64 reedem - F64.ofU64 fee
  return x.setTreasury (treasury.setCashout tokenMinted treasuryValue)

/-! ### What an accepted cash-out did -/

/-- `cashingout_value`, from the product that `token_minted * 100` came to. -/
def cashingoutValue (t : Treasury F) (scaled amount : UInt64) : F :=
  F64.ofU64 amount * (t.treasuryValue / F64.ofU64 scaled)

def reedem (t : Treasury F) (amount : UInt64) : UInt64 :=
  F64.toU64 (cashingoutValue t (t.tokenMinted * 100) amount * F64.lit 0.99)

def fee (t : Treasury F) (amount : UInt64) : UInt64 :=
  F64.toU64 (cashingoutValue t (t.tokenMinted * 100) amount * F64.lit 0.05)

variable {a} {d : Deployment} {env : Env} {n : UInt64} {x y : Exec F}

theorem handle_eq_ok : a.handle d env n x = .ok y ↔
    ∃ e l l', x.world.escrows a.user = some e ∧ e.numTokenToRedeem ≤ n ∧
      (d.profile.overflowChecks = true → x.world.treasury.tokenMinted.toNat * 100 < 2 ^ 64) ∧
      env.cpi x.trace.length (a.payout d a.userTokenAccount (reedem x.world.treasury n))
        x.world.ledger = .ok l ∧
      env.cpi (x.trace.length + 1)
        (a.payout d a.feeWalletTokenAccount (fee x.world.treasury n)) l = .ok l' ∧
      (d.profile.overflowChecks = true → n.toNat ≤ x.world.treasury.tokenMinted.toNat) ∧
      y = ((x.afterCpi (a.payout d a.userTokenAccount (reedem x.world.treasury n)) l
          true).afterCpi (a.payout d a.feeWalletTokenAccount (fee x.world.treasury n)) l'
          true).setTreasury
        (x.world.treasury.setCashout (x.world.treasury.tokenMinted - n)
          (x.world.treasury.treasuryValue - F64.ofU64 (reedem x.world.treasury n)
            - F64.ofU64 (fee x.world.treasury n))) := by
  simp only [handle, bind_eq_ok, Exec.invoke_eq_ok, require_eq_ok, okOr_eq_ok, pure_eq_ok,
    UInt64.not_lt, Profile.mul_eq_ok, Profile.sub_eq_ok]
  constructor
  · rintro ⟨e, he, _, hle, _, ⟨rfl, hscaled⟩, _, ⟨l, hcpi, rfl⟩, _, ⟨l', hcpi', rfl⟩, _,
      ⟨rfl, hsupply⟩, rfl⟩
    refine ⟨e, l, l', he, hle, hscaled, hcpi, ?_, hsupply, rfl⟩
    simpa [fee, cashingoutValue] using hcpi'
  · rintro ⟨e, l, l', he, hle, hscaled, hcpi, hcpi', hsupply, rfl⟩
    refine ⟨e, he, (), hle, _, ⟨rfl, hscaled⟩, _, ⟨l, hcpi, rfl⟩, _, ⟨l', ?_, rfl⟩, _,
      ⟨rfl, hsupply⟩, rfl⟩
    simpa [fee, cashingoutValue] using hcpi'

end CashingoutReedem

end Saturn
