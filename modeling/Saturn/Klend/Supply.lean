import Saturn.Klend.Reserve
import Mathlib.Tactic.Positivity

/-!
# The supply of a reserve, and its shares

`ReserveLiquidity.supply` is the exact value of what `total_supply` computes, in bits of a
`Fraction`. For each method there is the condition under which it succeeds and what it leaves, and
from these what it does to the supply.

Collateral tokens are shares of the supply. A deposit mints at most what it pays for
(`depositLiquidity_fair`). A redemption can pay more than its shares are worth, since the exchange
rate it divides by was rounded down itself, but by less than sixteen shares
(`redeemCollateral_fair`).
-/

namespace Saturn.Klend

open Machine

/-! ## Liquidity -/

namespace ReserveLiquidity

variable {p : Profile} {l l' : ReserveLiquidity} {a b c n : UInt64} {f s : U68F60}

def supply (l : ReserveLiquidity) : ℤ :=
  l.availableAmount.toNat * 2 ^ 60 + l.borrowedAmountSf.bits - l.accumulatedProtocolFeesSf.bits
    - l.accumulatedReferrerFeesSf.bits - l.pendingReferrerFeesSf.bits

theorem bits_totalSupply (hp : p.overflowChecks = true) (h : l.totalSupply p = .ok s) :
    s.bits = l.supply := by
  simp only [totalSupply, bind_eq_ok, Fixed.add_eq_ok hp, Fixed.sub_eq_ok hp,
    U68F60.bits_ofU64] at h
  obtain ⟨s₁, h₁, s₂, h₂, s₃, h₃, h₄⟩ := h
  rw [supply, h₄, h₃, h₂, h₁]

theorem checkedAdd_eq_ok : checkedAdd a b = .ok c ↔ c.toNat = a.toNat + b.toNat := by
  simp only [checkedAdd, bind_eq_ok, require_eq_ok, pure_eq_ok, exists_const]
  constructor
  · rintro ⟨hlt, rfl⟩
    exact toNat_add_of_lt hlt
  · intro hc
    have hlt : a.toNat + b.toNat < 2 ^ 64 := hc ▸ c.toNat_lt
    refine ⟨hlt, ?_⟩
    rw [← UInt64.toNat_inj, toNat_add_of_lt hlt, hc]

theorem checkedSub_eq_ok : checkedSub a b = .ok c ↔ c.toNat + b.toNat = a.toNat := by
  simp only [checkedSub, bind_eq_ok, require_eq_ok, pure_eq_ok, exists_const]
  constructor
  · rintro ⟨hle, rfl⟩
    have hle := UInt64.le_iff_toNat_le.mp hle
    rw [toNat_sub_of_le hle]
    omega
  · intro hc
    have hle : b.toNat ≤ a.toNat := by omega
    refine ⟨UInt64.le_iff_toNat_le.mpr hle, ?_⟩
    rw [← UInt64.toNat_inj, toNat_sub_of_le hle]
    omega

theorem deposit_eq_ok : l.deposit n = .ok l' ↔
    ∃ c, c.toNat = l.availableAmount.toNat + n.toNat ∧ { l with availableAmount := c } = l' := by
  simp only [deposit, bind_eq_ok, pure_eq_ok, checkedAdd_eq_ok]

theorem withdraw_eq_ok : l.withdraw n = .ok l' ↔
    ∃ c, c.toNat + n.toNat = l.availableAmount.toNat ∧ { l with availableAmount := c } = l' := by
  simp only [withdraw, bind_eq_ok, require_eq_ok, pure_eq_ok, checkedSub_eq_ok, exists_const]
  constructor
  · rintro ⟨-, h⟩
    exact h
  · rintro ⟨c, hc, rfl⟩
    exact ⟨UInt64.le_iff_toNat_le.mpr (by omega), c, hc, rfl⟩

theorem borrow_eq_ok : l.borrow p f = .ok l' ↔
    ∃ c, c.toNat + (toFloor f).toNat = l.availableAmount.toNat ∧
      ∃ d, l.borrowedAmountSf.add p f = (.ok d : Except Failure U68F60) ∧
        { l with availableAmount := c, borrowedAmountSf := d } = l' := by
  simp only [borrow, bind_eq_ok, require_eq_ok, pure_eq_ok, Profile.sub_eq_ok, exists_const]
  constructor
  · rintro ⟨hle, c, ⟨rfl, -⟩, d, hd, rfl⟩
    have hle := UInt64.le_iff_toNat_le.mp hle
    refine ⟨_, ?_, d, hd, rfl⟩
    rw [toNat_sub_of_le hle]
    omega
  · rintro ⟨c, hc, d, hd, rfl⟩
    have hle : (toFloor f).toNat ≤ l.availableAmount.toNat := by omega
    refine ⟨UInt64.le_iff_toNat_le.mpr hle, c, ⟨?_, fun _ => hle⟩, d, hd, rfl⟩
    rw [← UInt64.toNat_inj, toNat_sub_of_le hle]
    omega

theorem repay_eq_ok : l.repay n f = .ok l' ↔
    ∃ c, c.toNat = l.availableAmount.toNat + n.toNat ∧
      ∃ d, d.bits = l.borrowedAmountSf.bits - min f.bits l.borrowedAmountSf.bits ∧
        { l with availableAmount := c, borrowedAmountSf := d } = l' := by
  simp only [repay, bind_eq_ok, pure_eq_ok, checkedAdd_eq_ok, okOr_eq_ok, Fixed.checkedSub_eq_some,
    Fixed.bits_min]

theorem redeemFees_eq_ok : l.redeemFees n = .ok l' ↔
    ∃ c, c.toNat + n.toNat = l.availableAmount.toNat ∧
      ∃ d, d.bits = l.accumulatedProtocolFeesSf.bits - n.toNat * 2 ^ 60 ∧
        { l with availableAmount := c, accumulatedProtocolFeesSf := d } = l' := by
  simp only [redeemFees, bind_eq_ok, pure_eq_ok, checkedSub_eq_ok, okOr_eq_ok,
    Fixed.checkedSub_eq_some, U68F60.bits_ofU64]

theorem withdrawReferrerFees_eq_ok {t t' : ReferrerTokenState} :
    l.withdrawReferrerFees n t = .ok (l', t') ↔
    ∃ c, c.toNat + n.toNat = l.availableAmount.toNat ∧
      ∃ d, d.bits = l.accumulatedReferrerFeesSf.bits - n.toNat * 2 ^ 60 ∧
        t'.amountUnclaimedSf.bits = t.amountUnclaimedSf.bits - n.toNat * 2 ^ 60 ∧
        { l with availableAmount := c, accumulatedReferrerFeesSf := d } = l' := by
  simp only [withdrawReferrerFees, bind_eq_ok, pure_eq_ok, checkedSub_eq_ok, okOr_eq_ok,
    Fixed.checkedSub_eq_some, U68F60.bits_ofU64, Prod.mk.injEq]
  constructor
  · rintro ⟨c, hc, d, hd, u, hu, rfl, rfl⟩
    exact ⟨c, hc, d, hd, hu, rfl⟩
  · rintro ⟨c, hc, d, hd, hu, rfl⟩
    exact ⟨c, hc, d, hd, t'.amountUnclaimedSf, hu, rfl, rfl⟩

/-! What the methods do to the supply, in a build with overflow checks. -/

theorem supply_deposit (h : l.deposit n = .ok l') : l'.supply = l.supply + n.toNat * 2 ^ 60 := by
  obtain ⟨c, hc, rfl⟩ := deposit_eq_ok.mp h
  simp only [supply, hc]
  push_cast
  ring

theorem supply_withdraw (h : l.withdraw n = .ok l') :
    l'.supply = l.supply - n.toNat * 2 ^ 60 := by
  obtain ⟨c, hc, rfl⟩ := withdraw_eq_ok.mp h
  simp only [supply, ← hc]
  push_cast
  ring

theorem supply_borrow (hp : p.overflowChecks = true) (h : l.borrow p f = .ok l') :
    l.supply ≤ l'.supply := by
  obtain ⟨c, hc, d, hd, rfl⟩ := borrow_eq_ok.mp h
  rw [Fixed.add_eq_ok hp] at hd
  have hfloor : ((toFloor f).toNat : ℤ) * 2 ^ 60 ≤ f.bits := U68F60.toNat_toU64_le f
  simp only [supply, ← hc, hd]
  push_cast
  linarith

theorem supply_repay (hpaid : f.bits ≤ n.toNat * 2 ^ 60) (h : l.repay n f = .ok l') :
    l.supply ≤ l'.supply := by
  obtain ⟨c, hc, d, hd, rfl⟩ := repay_eq_ok.mp h
  have hmin : min f.bits l.borrowedAmountSf.bits ≤ f.bits := min_le_left _ _
  simp only [supply, hc, hd]
  push_cast
  linarith

theorem supply_redeemFees (h : l.redeemFees n = .ok l') : l'.supply = l.supply := by
  obtain ⟨c, hc, d, hd, rfl⟩ := redeemFees_eq_ok.mp h
  simp only [supply, ← hc, hd]
  push_cast
  ring

theorem supply_withdrawReferrerFees {t t' : ReferrerTokenState}
    (h : l.withdrawReferrerFees n t = .ok (l', t')) : l'.supply = l.supply := by
  obtain ⟨c, hc, d, hd, -, rfl⟩ := withdrawReferrerFees_eq_ok.mp h
  simp only [supply, ← hc, hd]
  push_cast
  ring

/-- Where the protocol takes no more than all of it, interest is not negative for the others. -/
theorem supply_compoundInterest (hp : p.overflowChecks = true)
    {rate hostRate take referral : U68F60}
    (htake : take ≤ U68F60.one) (h : l.compoundInterest p rate hostRate n take referral = .ok l') :
    l'.availableAmount = l.availableAmount ∧ l.supply ≤ l'.supply := by
  simp only [compoundInterest, bind_eq_ok, pure_eq_ok, Fixed.add_eq_ok hp, Fixed.sub_eq_ok hp] at h
  obtain ⟨-, -, interest, -, fixed, -, cumulative, -, hostFee, hhost, grown, hgrown, net, hnet,
    fees₁, hfees₁, fees₂, hfees₂, fees₃, hfees₃, pending, hpending, rfl⟩ := h
  have hnonneg : 0 ≤ net.bits := U68F60.bits_nonneg net
  have hpart : (net.mul take).bits ≤ net.bits * take.bits / 2 ^ 60 := U68F60.bits_mul_le net take
  have htake' : take.bits ≤ 2 ^ 60 := htake
  have hall : net.bits * take.bits ≤ net.bits * 2 ^ 60 :=
    mul_le_mul_of_nonneg_left htake' hnonneg
  refine ⟨rfl, ?_⟩
  simp only [supply]
  omega

end ReserveLiquidity

/-! ## Shares -/

namespace Reserve

variable {p : Profile} {r r' : Reserve} {c n q : UInt64} {x : CollateralExchangeRate}

/-- What the exchange rate is taken to be before there are shares or a supply. -/
def Initial (r : Reserve) : Prop := r.collateral.mintTotalSupply = 0 ∨ r.liquidity.supply = 0

theorem collateralExchangeRate_eq_div (hp : p.overflowChecks = true) (hinit : ¬ r.Initial)
    (h : r.collateralExchangeRate p = .ok x) : ∃ s : U68F60, s.bits = r.liquidity.supply ∧
      Fixed.div (U68F60.ofU64 r.collateral.mintTotalSupply) s
        = (.ok x.rate : Except Failure U68F60) := by
  simp only [collateralExchangeRate, ReserveCollateral.exchangeRate, bind_eq_ok] at h
  obtain ⟨s, hs, h⟩ := h
  have hsupply : s.bits = r.liquidity.supply := ReserveLiquidity.bits_totalSupply hp hs
  have hne : ¬ (r.collateral.mintTotalSupply = 0 ∨ s = U68F60.zero) := by
    intro hor
    apply hinit
    apply hor.imp_right
    intro h
    rw [← hsupply, h, U68F60.bits_zero]
  rw [if_neg hne] at h
  simp only [bind_eq_ok, pure_eq_ok] at h
  obtain ⟨rate, hrate, rfl⟩ := h
  exact ⟨s, hsupply, hrate⟩

/-- The rate is never rounded up. -/
theorem rate_mul_supply_le (hp : p.overflowChecks = true) (h : r.collateralExchangeRate p = .ok x)
    (hne : ¬ r.Initial) :
    x.rate.bits * r.liquidity.supply ≤ r.collateral.mintTotalSupply.toNat * 2 ^ 120 := by
  obtain ⟨s, hs, hdiv⟩ := collateralExchangeRate_eq_div hp hne h
  have hle := U68F60.mul_bits_le_of_div hdiv
  rw [hs, U68F60.bits_ofU64] at hle
  linarith

/-- It is rounded down by less than a unit of the last place, where the supply is not tiny. -/
theorem lt_rate_mul_supply (hp : p.overflowChecks = true) (h : r.collateralExchangeRate p = .ok x)
    (hne : ¬ r.Initial) (hsupply : 2 ^ 56 ≤ r.liquidity.supply) :
    r.collateral.mintTotalSupply.toNat * 2 ^ 120
      < x.rate.bits * r.liquidity.supply + r.liquidity.supply := by
  obtain ⟨s, hs, hdiv⟩ := collateralExchangeRate_eq_div hp hne h
  have hlt := r.collateral.mintTotalSupply.toNat_lt
  have hshort := U68F60.lt_mul_bits_of_div hdiv (by rw [hs, U68F60.bits_ofU64]; omega)
  rw [hs, U68F60.bits_ofU64] at hshort
  linarith

theorem depositLiquidity_moves (h : r.depositLiquidity p n = .ok (c, r')) :
    (∃ x, r.collateralExchangeRate p = .ok x ∧ x.liquidityToCollateral p n = .ok c) ∧
      (r.liquidity.deposit n = .ok r'.liquidity ∧
        r'.collateral.mintTotalSupply.toNat = r.collateral.mintTotalSupply.toNat + c.toNat) ∧
      r'.config = r.config := by
  simp only [depositLiquidity, ReserveCollateral.mint, bind_eq_ok, pure_eq_ok,
    ReserveLiquidity.checkedAdd_eq_ok, Prod.mk.injEq] at h
  obtain ⟨x, hx, k, hk, l, hl, m, ⟨s, hs, rfl⟩, rfl, rfl⟩ := h
  exact ⟨⟨x, hx, hk⟩, ⟨hl, hs⟩, rfl⟩

theorem redeemCollateral_moves (h : r.redeemCollateral p c = .ok (q, r')) :
    (∃ x, r.collateralExchangeRate p = .ok x ∧ x.collateralToLiquidity c = .ok q) ∧
      (r.liquidity.withdraw q = .ok r'.liquidity ∧
        r'.collateral.mintTotalSupply.toNat + c.toNat = r.collateral.mintTotalSupply.toNat) ∧
      r'.config = r.config := by
  simp only [redeemCollateral, ReserveCollateral.burn, bind_eq_ok, pure_eq_ok,
    ReserveLiquidity.checkedSub_eq_ok, Prod.mk.injEq] at h
  obtain ⟨x, hx, k, hk, m, ⟨s, hs, rfl⟩, l, hl, rfl, rfl⟩ := h
  exact ⟨⟨x, hx, hk⟩, ⟨hl, hs⟩, rfl⟩

theorem liquidityToCollateral_le (hp : p.overflowChecks = true)
    (h : x.liquidityToCollateral p n = .ok c) : (c.toNat : ℤ) * 2 ^ 60 ≤ x.rate.bits * n.toNat := by
  simp only [CollateralExchangeRate.liquidityToCollateral, bind_eq_ok, pure_eq_ok,
    Fixed.mulInt_eq_ok hp] at h
  obtain ⟨y, hy, rfl⟩ := h
  exact hy ▸ U68F60.toNat_toU64_le y

theorem collateralToLiquidity_le (h : x.collateralToLiquidity c = .ok q) :
    (q.toNat : ℤ) * x.rate.bits ≤ c.toNat * 2 ^ 60 := by
  simp only [CollateralExchangeRate.collateralToLiquidity, bind_eq_ok, pure_eq_ok] at h
  obtain ⟨y, hy, rfl⟩ := h
  have hfloor : ((toFloor y).toNat : ℤ) * 2 ^ 60 ≤ y.bits := U68F60.toNat_toU64_le y
  have hdiv := U68F60.mul_bits_le_of_div hy
  rw [U68F60.bits_ofU64] at hdiv
  have hscaled : ((toFloor y).toNat : ℤ) * 2 ^ 60 * x.rate.bits ≤ y.bits * x.rate.bits :=
    mul_le_mul_of_nonneg_right hfloor (U68F60.bits_nonneg x.rate)
  linarith

theorem depositLiquidity_fair (hp : p.overflowChecks = true)
    (h : r.depositLiquidity p n = .ok (c, r'))
    (hne : r.collateral.mintTotalSupply = 0 → r.liquidity.supply = 0) :
    c.toNat * r.liquidity.supply ≤ n.toNat * 2 ^ 60 * r.collateral.mintTotalSupply.toNat := by
  obtain ⟨⟨x, hx, hc⟩, -, -⟩ := depositLiquidity_moves h
  by_cases hinit : r.Initial
  · have hzero : r.liquidity.supply = 0 := hinit.elim hne id
    rw [hzero, mul_zero]
    positivity
  have hsupply : 0 ≤ r.liquidity.supply := by
    obtain ⟨s, hs, -⟩ := collateralExchangeRate_eq_div hp hinit hx
    exact hs ▸ U68F60.bits_nonneg s
  have hminted := mul_le_mul_of_nonneg_right (liquidityToCollateral_le hp hc) hsupply
  have hrate := mul_le_mul_of_nonneg_left (rate_mul_supply_le hp hx hinit)
    (Int.natCast_nonneg n.toNat)
  linarith

theorem redeemCollateral_fair (hp : p.overflowChecks = true)
    (h : r.redeemCollateral p c = .ok (q, r')) (hne : r.collateral.mintTotalSupply ≠ 0)
    (hsupply : 2 ^ 56 ≤ r.liquidity.supply) :
    q.toNat * 2 ^ 60 * r.collateral.mintTotalSupply.toNat
      ≤ (c.toNat + 16) * r.liquidity.supply := by
  obtain ⟨⟨x, hx, hq⟩, -, -⟩ := redeemCollateral_moves h
  have hinit : ¬ r.Initial := by
    rintro (hzero | hzero)
    · exact hne hzero
    · omega
  have hlt : (q.toNat : ℤ) ≤ 2 ^ 64 := by exact_mod_cast q.toNat_lt.le
  have hrate := mul_le_mul_of_nonneg_left (lt_rate_mul_supply hp hx hinit hsupply).le
    (Int.natCast_nonneg q.toNat)
  have hpaid := mul_le_mul_of_nonneg_right (collateralToLiquidity_le hq)
    (by omega : 0 ≤ r.liquidity.supply)
  have hround := mul_le_mul_of_nonneg_right hlt (by omega : 0 ≤ r.liquidity.supply)
  linarith

end Reserve

end Saturn.Klend
