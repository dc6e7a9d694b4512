import Saturn.Instructions.Balance

/-!
# The treasury's own accounts

A recount values three holdings: the lamports of the authority and the USDC and wBTC in its token
accounts. The worth of each is whole tokens times price times a power of ten; that of USDC takes the
power from the reading of SOL.
-/

namespace Saturn

open Machine

variable {F : Type} [F64 F]

/-- What the treasury holds in accounts of its own. -/
inductive Asset where
  | sol
  | usdc
  | wbtc
  deriving DecidableEq

namespace Asset

def unit : Asset → UInt64
  | sol => 1000000000
  | usdc => 1000000
  | wbtc => 100000000

def feedId : Asset → FeedId
  | sol => .sol
  | usdc => .usdc
  | wbtc => .wbtc

def priceUpdate (a : CalcuBalance) : Asset → Pubkey
  | sol => a.solPriceUpdate
  | usdc => a.usdcPriceUpdate
  | wbtc => a.wbtcPriceUpdate

/-- The asset whose reading gives the exponent. -/
def scaledBy : Asset → Asset
  | sol => sol
  | usdc => sol
  | wbtc => wbtc

/-- The reading of the asset's feed that a recount gets. -/
def reading (a : CalcuBalance) (env : Env) (s : Asset) : Option Price :=
  env.getPriceNoOlderThan (s.priceUpdate a) 30 s.feedId

def balance (a : CalcuBalance) (d : Deployment) (w : World F) : Asset → Option UInt64
  | sol => some (w.ledger.lamports d.treasuryAuthority)
  | usdc => (w.ledger.tokenAccount a.usdcTokenAccount).map TokenAccount.amount
  | wbtc => (w.ledger.tokenAccount a.wbtcTokenAccount).map TokenAccount.amount

def value (t : Treasury F) : Asset → F
  | sol => t.solValue
  | usdc => t.usdcValue
  | wbtc => t.wbtcValue

/-- `sol_val`, `usdc_val` and `wbtc_val`. -/
def val (r : CalcuBalance.Recount) : Asset → UInt64
  | sol => r.solVal
  | usdc => r.usdcVal
  | wbtc => r.wbtcVal

variable {a : CalcuBalance} {d : Deployment} {env : Env} {x y : Exec F} {w : World F} {h : UInt64}
  {price scale : Price} {r : CalcuBalance.Recount}

omit [F64 F] in
/-- What a recount computed of an asset, from the balance and the two readings. -/
theorem balanceValue_eq_val (s : Asset) (hr : r.Accepted a d env w)
    (hbalance : s.balance a d w = some h)
    (hprice : s.reading a env = some price) (hscale : s.scaledBy.reading a env = some scale) :
    balanceValue d.profile h s.unit price.price scale.exponent = .ok (s.val r) := by
  cases s with
  | sol =>
      cases hbalance
      obtain rfl : r.solPrice = price := Option.some.inj (hr.solPrice.symm.trans hprice)
      obtain rfl : r.solPrice = scale := Option.some.inj (hr.solPrice.symm.trans hscale)
      exact hr.solVal
  | usdc =>
      obtain rfl : r.usdcPrice = price := Option.some.inj (hr.usdcPrice.symm.trans hprice)
      obtain rfl : r.solPrice = scale := Option.some.inj (hr.solPrice.symm.trans hscale)
      rw [balance, hr.usdc] at hbalance
      cases hbalance
      exact hr.usdcVal
  | wbtc =>
      obtain rfl : r.wbtcPrice = price := Option.some.inj (hr.wbtcPrice.symm.trans hprice)
      obtain rfl : r.wbtcPrice = scale := Option.some.inj (hr.wbtcPrice.symm.trans hscale)
      rw [balance, hr.wbtc] at hbalance
      cases hbalance
      exact hr.wbtcVal

theorem valuation_of_recount (s : Asset) (hrec : a.handle d env x = .ok y)
    (hbalance : s.balance a d x.world = some h) (hprice : s.reading a env = some price)
    (hscale : s.scaledBy.reading a env = some scale) :
    ∃ v, balanceValue d.profile h s.unit price.price scale.exponent = .ok v ∧
      s.value y.world.treasury = F64.ofU64 v := by
  obtain ⟨r, hr, rfl⟩ := CalcuBalance.handle_eq_ok.mp hrec
  refine ⟨s.val r, s.balanceValue_eq_val hr hbalance hprice hscale, ?_⟩
  cases s <;> rfl

theorem value_of_recount (s : Asset) (hrec : a.handle d env x = .ok y)
    (hbalance : s.balance a d x.world = some h) (hprice : s.reading a env = some price)
    (hscale : s.scaledBy.reading a env = some scale) :
    0 ≤ price.price.toInt ∧ 0 ≤ scale.exponent.toInt ∧
      s.value y.world.treasury = F64.ofU64 (worth h s.unit price.price scale.exponent) := by
  obtain ⟨v, hv, hvalue⟩ := s.valuation_of_recount hrec hbalance hprice hscale
  obtain ⟨hp, he, rfl⟩ := balanceValue_eq hv
  exact ⟨hp, he, hvalue⟩

theorem exists_reading (s : Asset) (hrec : a.handle d env x = .ok y) :
    ∃ h price scale, s.balance a d x.world = some h ∧ s.reading a env = some price ∧
      s.scaledBy.reading a env = some scale := by
  obtain ⟨r, hr, -⟩ := CalcuBalance.handle_eq_ok.mp hrec
  cases s with
  | sol => exact ⟨_, _, _, rfl, hr.solPrice, hr.solPrice⟩
  | usdc =>
    exact ⟨_, _, _, congrArg (Option.map TokenAccount.amount) hr.usdc, hr.usdcPrice, hr.solPrice⟩
  | wbtc =>
    exact ⟨_, _, _, congrArg (Option.map TokenAccount.amount) hr.wbtc, hr.wbtcPrice, hr.wbtcPrice⟩

/-- Two recounts with the same readings record the same of the same balance. -/
theorem value_congr {x' y' : Exec F} (s : Asset) (hrec : a.handle d env x = .ok y)
    (hrec' : a.handle d env x' = .ok y') (hsame : s.balance a d x'.world = s.balance a d x.world) :
    s.value y'.world.treasury = s.value y.world.treasury := by
  obtain ⟨h, price, scale, hbalance, hprice, hscale⟩ := s.exists_reading hrec
  obtain ⟨-, -, hvalue⟩ := s.value_of_recount hrec hbalance hprice hscale
  obtain ⟨-, -, hvalue'⟩ := s.value_of_recount hrec' (hsame.trans hbalance) hprice hscale
  rw [hvalue, hvalue']

end Asset

/-- The accounts that the treasury's authority recounts. -/
def smallRecount : CalcuBalance where
  signer := 9
  usdcTokenAccount := 12
  wbtcTokenAccount := 16
  solPriceUpdate := 0
  usdcPriceUpdate := 0
  wbtcPriceUpdate := 0

end Saturn
