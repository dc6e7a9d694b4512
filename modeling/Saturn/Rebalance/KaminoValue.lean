import Saturn.Klend.ReserveRuns
import Saturn.Instructions.Valuation

/-!
# The Kamino valuation over runs of a reserve

`kamino_utils.rs` repeats the redemption of klend without its effects. Over a reserve of klend it
answers what the redemption pays (`redeemCollateral_iff_valued`), and what it answers for the same
collateral does not fall while others use the reserve, but for rounding (`value_run`).
-/

namespace Saturn.Klend

open Machine Transition

/-- What the valuation reads off a reserve of klend, next to the keys in its header. -/
def Reserve.read (r : Reserve) (header : ReserveHeader) : Saturn.Reserve where
  toReserveHeader := header
  lastUpdate := ⟨r.lastUpdate.slot, r.lastUpdate.stale⟩
  availableAmount := r.liquidity.availableAmount
  borrowedAmount := r.liquidity.borrowedAmountSf
  accumulatedProtocolFees := r.liquidity.accumulatedProtocolFeesSf
  accumulatedReferrerFees := r.liquidity.accumulatedReferrerFeesSf
  pendingReferrerFees := r.liquidity.pendingReferrerFeesSf
  mintTotalSupply := r.collateral.mintTotalSupply

section

variable {p : Profile} {r r' : Reserve} {header : ReserveHeader} {clock : Clock} {c n q : UInt64}
  {x : CollateralExchangeRate}

theorem totalSupply_read {s : U68F60} :
    (r.read header).totalSupply p = .ok s ↔ r.liquidity.totalSupply p = .ok s := by
  simp only [Saturn.Reserve.totalSupply, ReserveLiquidity.totalSupply, Fixed.add, Fixed.sub,
    bind_eq_ok, Fixed.exact_eq_ok]
  rfl

theorem collateralExchangeRate_read {rate : U68F60} :
    (r.read header).collateralExchangeRate p = .ok rate ↔
      r.collateralExchangeRate p = .ok ⟨rate⟩ := by
  simp only [Saturn.Reserve.collateralExchangeRate, Reserve.collateralExchangeRate, bind_eq_ok,
    totalSupply_read, ReserveCollateral.exchangeRate, Fixed.ext_iff (b := U68F60.zero),
    U68F60.bits_zero]
  apply exists_congr
  intro s
  apply and_congr_right
  intro _
  show (if r.collateral.mintTotalSupply = 0 ∨ s.bits = 0 then _ else _) = _ ↔ _
  split_ifs
  · simp only [pure_eq_ok, CollateralExchangeRate.mk.injEq]
    rfl
  · simp only [bind_eq_ok, pure_eq_ok, CollateralExchangeRate.mk.injEq, exists_eq_right,
      U68F60.div_eq_ok]
    rfl

theorem isStale_read {u : LastUpdate} {slot : UInt64} :
    Saturn.LastUpdate.isStale ⟨u.slot, u.stale⟩ slot = .ok false ↔
      u.isStale slot 0 = .ok false := by
  have hnone : u.getPriceStatus &&& 0 = 0 := UInt8.and_zero
  simp only [Saturn.LastUpdate.isStale, LastUpdate.isStale, hnone, Saturn.LastUpdate.slotsElapsed,
    LastUpdate.slotsElapsed]
  split_ifs
  · simp
  · simp only [bind_eq_ok, pure_eq_ok, require_eq_ok, Bool.or_eq_false_iff, ne_eq,
      not_true_eq_false, decide_false, and_true]

theorem redeemCollateral_read : (r.read header).redeemCollateral p c = .ok n ↔
    ∃ x, r.collateralExchangeRate p = .ok x ∧ x.collateralToLiquidity c = .ok n := by
  simp only [Saturn.Reserve.redeemCollateral, CollateralExchangeRate.collateralToLiquidity,
    bind_eq_ok, pure_eq_ok, collateralExchangeRate_read, U68F60.div_eq_ok]
  constructor
  · intro h
    obtain ⟨rate, hrate, y, hy, hn⟩ := h
    exact ⟨⟨rate⟩, hrate, y, hy, hn⟩
  · intro h
    obtain ⟨x, hx, y, hy, hn⟩ := h
    exact ⟨x.rate, hx, y, hy, hn⟩

theorem redeemReserveCollateral_read :
    (r.read header).redeemReserveCollateral p c clock = .ok n ↔ c ≠ 0 ∧
      r.lastUpdate.isStale clock.slot 0 = .ok false ∧
      ∃ x, r.collateralExchangeRate p = .ok x ∧ x.collateralToLiquidity c = .ok n := by
  rw [Saturn.Reserve.redeemReserveCollateral_eq_ok, redeemCollateral_read]
  apply and_congr_right
  intro _
  exact and_congr_left fun _ => isStale_read

theorem exists_checkedSub {a b : UInt64} : (∃ k : UInt64, k.toNat + b.toNat = a.toNat) ↔ b ≤ a := by
  rw [UInt64.le_iff_toNat_le]
  constructor
  · intro h
    obtain ⟨k, hk⟩ := h
    omega
  · intro hle
    refine ⟨a - b, ?_⟩
    rw [toNat_sub_of_le hle]
    omega

/-- What is recorded for collateral is what redeeming it pays, as far as there are the shares and
the tokens. -/
theorem redeemCollateral_iff_valued
    (h : (r.read header).redeemReserveCollateral p c clock = .ok n) :
    (∃ r', r.redeemCollateral p c = .ok (q, r')) ↔ q = n ∧
      c ≤ r.collateral.mintTotalSupply ∧ n ≤ r.liquidity.availableAmount := by
  obtain ⟨-, -, x, hx, hn⟩ := redeemReserveCollateral_read.mp h
  constructor
  · intro h
    obtain ⟨r', hr'⟩ := h
    obtain ⟨⟨y, hy, hq⟩, ⟨hl, hm⟩, -⟩ := Reserve.redeemCollateral_moves hr'
    obtain rfl := Except.ok.inj (hx.symm.trans hy)
    obtain rfl := Except.ok.inj (hn.symm.trans hq)
    obtain ⟨k, hk, -⟩ := ReserveLiquidity.withdraw_eq_ok.mp hl
    exact ⟨rfl, exists_checkedSub.mp ⟨_, hm⟩, exists_checkedSub.mp ⟨k, hk⟩⟩
  · intro h
    obtain ⟨hq, hshares, htokens⟩ := h
    obtain ⟨s, hs⟩ := exists_checkedSub.mpr hshares
    obtain ⟨k, hk⟩ := exists_checkedSub.mpr htokens
    subst hq
    simp only [Reserve.redeemCollateral, ReserveCollateral.burn, bind_eq_ok, pure_eq_ok,
      ReserveLiquidity.checkedSub_eq_ok, ReserveLiquidity.withdraw_eq_ok, Prod.mk.injEq]
    exact ⟨_, x, hx, q, hn, ⟨s⟩, ⟨s, hs, rfl⟩, _, ⟨k, hk, rfl⟩, rfl, rfl⟩

/-! ## Over a run -/

theorem rate_pos (h : x.collateralToLiquidity c = .ok q) : 0 < x.rate.bits := by
  simp only [CollateralExchangeRate.collateralToLiquidity, bind_eq_ok, U68F60.div_eq_ok] at h
  obtain ⟨y, ⟨hne, -⟩, -⟩ := h
  exact lt_of_le_of_ne (U68F60.bits_nonneg _) (Ne.symm hne)

theorem lt_collateralToLiquidity (hfits : (c.toNat : ℤ) < 2 ^ 4 * x.rate.bits)
    (h : x.collateralToLiquidity c = .ok q) :
    (c.toNat : ℤ) * 2 ^ 60 < (q.toNat + 1) * x.rate.bits := by
  have hpos := rate_pos h
  simp only [CollateralExchangeRate.collateralToLiquidity, bind_eq_ok, pure_eq_ok, U68F60.div_eq_ok,
    U68F60.bits_ofU64] at h
  obtain ⟨y, ⟨-, hy⟩, rfl⟩ := h
  have hscaled : (c.toNat : ℤ) * 2 ^ 60 * 2 ^ 60 < 2 ^ 124 * x.rate.bits := by linarith
  have hquot : (c.toNat : ℤ) * 2 ^ 60 * 2 ^ 60 / x.rate.bits < 2 ^ 124 :=
    Int.ediv_lt_of_lt_mul hpos hscaled
  have hnonneg : 0 ≤ (c.toNat : ℤ) * 2 ^ 60 * 2 ^ 60 / x.rate.bits :=
    Int.ediv_nonneg (by positivity) hpos.le
  rw [Int.emod_eq_of_lt hnonneg (by omega)] at hy
  have hfloor : ((toFloor y).toNat : ℤ) = (c.toNat : ℤ) * 2 ^ 60 / x.rate.bits := by
    have hcast : ((toFloor y).toNat : ℤ) = y.bits / 2 ^ 60 := U68F60.toNat_toU64 (by omega)
    rw [hcast, hy, Int.ediv_ediv_of_nonneg hpos.le, Int.mul_ediv_mul_of_pos_left _ _ (by norm_num)]
  rw [hfloor]
  exact Int.lt_ediv_add_one_mul_self _ hpos

/-- What collateral is worth in tokens, unrounded. -/
def Reserve.worth (r : Reserve) (c : UInt64) : ℚ := c.toNat * r.sharePrice / 2 ^ 60

theorem worth_eq (r : Reserve) (c : UInt64) : r.worth c =
    c.toNat * r.liquidity.supply / (r.collateral.mintTotalSupply.toNat * 2 ^ 60) := by
  rw [Reserve.worth, Reserve.sharePrice, Vault.price, ← mul_div_assoc, div_div]

theorem not_initial (hpos : 0 < r.collateral.mintTotalSupply.toNat)
    (hlo : 2 ^ 56 ≤ r.liquidity.supply) : ¬ r.Initial := by
  intro hor
  rcases hor with hzero | hzero
  · rw [hzero] at hpos
    exact absurd hpos (by decide)
  · omega

theorem worth_lt_value (hp : p.overflowChecks = true) (hx : r.collateralExchangeRate p = .ok x)
    (hq : x.collateralToLiquidity c = .ok q) (hc : c.toNat ≤ r.collateral.mintTotalSupply.toNat)
    (hpos : 0 < r.collateral.mintTotalSupply.toNat) (hlo : 2 ^ 56 ≤ r.liquidity.supply)
    (hhi : r.liquidity.supply < 2 ^ 123) : r.worth c < q.toNat + 1 := by
  have hsupply : 0 < r.liquidity.supply := by omega
  have hle := Reserve.rate_mul_supply_le hp hx (not_initial hpos hlo)
  have hlt := Reserve.lt_rate_mul_supply hp hx (not_initial hpos hlo) hlo
  have hrate := rate_pos hq
  have hfits : (c.toNat : ℤ) < 2 ^ 4 * x.rate.bits := by
    have hbound : (x.rate.bits + 1) * r.liquidity.supply ≤ (x.rate.bits + 1) * 2 ^ 123 :=
      mul_le_mul_of_nonneg_left hhi.le (by omega)
    have hless : (r.collateral.mintTotalSupply.toNat : ℤ) * 2 ^ 120
        < (x.rate.bits + 1) * 2 ^ 123 := by
      linarith
    omega
  have hround := mul_lt_mul_of_pos_right (lt_collateralToLiquidity hfits hq) hsupply
  have hscaled := mul_le_mul_of_nonneg_left hle (by positivity : (0 : ℤ) ≤ q.toNat + 1)
  have hbits : (c.toNat : ℤ) * r.liquidity.supply
      < (q.toNat + 1) * (r.collateral.mintTotalSupply.toNat * 2 ^ 60) := by
    linarith
  rw [worth_eq, div_lt_iff₀ (by positivity)]
  exact_mod_cast hbits

/-- What is recorded is at most the worth, but for the rounding of the rate. -/
theorem value_le_worth (hp : p.overflowChecks = true) (hx : r.collateralExchangeRate p = .ok x)
    (hq : x.collateralToLiquidity c = .ok q) (hpos : 0 < r.collateral.mintTotalSupply.toNat)
    (hlo : 2 ^ 56 ≤ r.liquidity.supply) :
    (q.toNat * x.rate.bits : ℚ) ≤ r.worth c * (x.rate.bits + 1) := by
  have hlt := Reserve.lt_rate_mul_supply hp hx (not_initial hpos hlo) hlo
  have hpaid := mul_le_mul_of_nonneg_right (Reserve.collateralToLiquidity_le hq)
    (by positivity : (0 : ℤ) ≤ r.collateral.mintTotalSupply.toNat * 2 ^ 60)
  have hscaled := mul_le_mul_of_nonneg_left hlt.le (Int.natCast_nonneg c.toNat)
  have hbits : (q.toNat * x.rate.bits : ℤ) * (r.collateral.mintTotalSupply.toNat * 2 ^ 60)
      ≤ c.toNat * r.liquidity.supply * (x.rate.bits + 1) := by
    linarith
  rw [worth_eq, div_mul_eq_mul_div, le_div_iff₀ (by positivity)]
  exact_mod_cast hbits

/-- A run that leaves `m` shares leaves the part of the worth that it leaves of the price. -/
theorem worth_run (hp : p.overflowChecks = true) {m : ℕ} (hm : 16 ≤ m) {es : List ReserveEvent}
    (hshares : m ≤ r.collateral.mintTotalSupply.toNat)
    (hrun : Run (Guarded (Reserve.Step p) (Careful m)) r es r') :
    (1 - 16 / m : ℚ) ^ (es.map ReserveEvent.redemptions).sum * r.worth c ≤ r'.worth c := by
  apply hrun.pow_mul_le (kept_part_nonneg hm) (fun r => m ≤ r.collateral.mintTotalSupply.toNat)
    hshares
  · intro a e b hstep hinv
    exact hstep.1.shares_le hstep.2 hinv
  · intro a e b hstep hinv
    have hprice := mul_le_mul_of_nonneg_left (hstep.1.sharePrice_le hp (by omega) hstep.2 hinv)
      (Nat.cast_nonneg c.toNat)
    rw [Reserve.worth, Reserve.worth, ← mul_div_assoc, div_le_div_iff_of_pos_right (by norm_num)]
    linarith

theorem shares_run {m : ℕ} {es : List ReserveEvent}
    (hshares : m ≤ r.collateral.mintTotalSupply.toNat)
    (hrun : Run (Guarded (Reserve.Step p) (Careful m)) r es r') :
    m ≤ r'.collateral.mintTotalSupply.toNat := by
  induction hrun with
  | nil => exact hshares
  | snoc _ hstep ih => exact hstep.1.shares_le hstep.2 ih

/-- While others use the reserve and leave as many shares as a position holds, its recorded value
falls by less than a token, what the rate is rounded by, and the part `16 / m` at each redemption;
and it is what redeeming the position pays. -/
theorem value_run (hp : p.overflowChecks = true) {m : ℕ} (hm : 16 ≤ m) (hc : c.toNat ≤ m)
    {es : List ReserveEvent} {header' : ReserveHeader} {clock' : Clock} {n' : UInt64}
    (hshares : m ≤ r.collateral.mintTotalSupply.toNat) (hlo : 2 ^ 56 ≤ r.liquidity.supply)
    (hrun : Run (Guarded (Reserve.Step p) (Careful m)) r es r')
    (hlo' : 2 ^ 56 ≤ r'.liquidity.supply) (hhi' : r'.liquidity.supply < 2 ^ 123)
    (hn : (r.read header).redeemReserveCollateral p c clock = .ok n)
    (hn' : (r'.read header').redeemReserveCollateral p c clock' = .ok n') :
    (∃ x, r.collateralExchangeRate p = .ok x ∧
      (1 - 16 / m : ℚ) ^ (es.map ReserveEvent.redemptions).sum * (n.toNat * x.rate.bits)
        < (n'.toNat + 1) * (x.rate.bits + 1)) ∧
      ∀ q r'', r'.redeemCollateral p c = .ok (q, r'') → q = n' := by
  obtain ⟨-, -, x, hx, hq⟩ := redeemReserveCollateral_read.mp hn
  obtain ⟨-, -, x', hx', hq'⟩ := redeemReserveCollateral_read.mp hn'
  have hshares' := shares_run hshares hrun
  have hrate : (0 : ℚ) < x.rate.bits + 1 := by
    have hpos := rate_pos hq
    positivity
  have hpart := kept_part_nonneg hm
  refine ⟨⟨x, hx, ?_⟩, fun q r'' h => ((redeemCollateral_iff_valued hn').mp ⟨r'', h⟩).1⟩
  calc (1 - 16 / m : ℚ) ^ (es.map ReserveEvent.redemptions).sum * (n.toNat * x.rate.bits)
      ≤ (1 - 16 / m : ℚ) ^ (es.map ReserveEvent.redemptions).sum
          * (r.worth c * (x.rate.bits + 1)) := by
        apply mul_le_mul_of_nonneg_left _ (pow_nonneg hpart _)
        exact value_le_worth hp hx hq (by omega) hlo
    _ = (1 - 16 / m : ℚ) ^ (es.map ReserveEvent.redemptions).sum * r.worth c
          * (x.rate.bits + 1) := by ring
    _ ≤ r'.worth c * (x.rate.bits + 1) :=
        mul_le_mul_of_nonneg_right (worth_run hp hm hshares hrun) hrate.le
    _ < (n'.toNat + 1) * (x.rate.bits + 1) :=
        mul_lt_mul_of_pos_right
          (worth_lt_value hp hx' hq' (by omega) (by omega) hlo' hhi') hrate

end

/-- The fresh reserve with a million tokens and shares, refreshed in the current slot. -/
def refreshedReserve : Reserve :=
  { freshReserve with
    lastUpdate := ⟨0, 0, 0⟩
    liquidity := { freshReserve.liquidity with availableAmount := 1000000 }
    collateral := ⟨1000000⟩ }

def reserveHeader : ReserveHeader := ⟨1, 2, 3, 4, 5⟩

/-- A loan, and the refresh that the next valuation asks for. -/
def refreshedLoan : List ReserveEvent := loanEvents ++ [⟨.updateSlot 1000 none, 0⟩]

/-- A position of a thousand shares before and after a loan. -/
theorem value_run_loan : ∃ r' x,
    Run (Guarded (Reserve.Step .checked) (Careful 1000000)) refreshedReserve
      refreshedLoan r' ∧
    refreshedReserve.collateralExchangeRate .checked = .ok x ∧
    (1 - 16 / (1000000 : ℕ) : ℚ) ^ 1 * ((1000 : UInt64).toNat * x.rate.bits)
      < ((1000 : UInt64).toNat + 1) * (x.rate.bits + 1) := by
  have hrun :
    (refreshedLoan.foldlM (fun a e => if Careful 1000000 a e then a.next .checked e else none)
      refreshedReserve).any (fun r' => decide (2 ^ 56 ≤ r'.liquidity.supply) &&
        decide (r'.liquidity.supply < 2 ^ 123) &&
        decide (((r'.read reserveHeader).redeemReserveCollateral .checked 1000 ⟨1000, 0⟩).toOption
          = some 1000)) = true := by
    decide +kernel
  obtain ⟨r', hr', htest⟩ := (Option.any_eq_true _ _).mp hrun
  simp only [Bool.and_eq_true, decide_eq_true_eq] at htest
  obtain ⟨⟨hlo, hhi⟩, hn'⟩ := htest
  have hn :
    ((refreshedReserve.read reserveHeader).redeemReserveCollateral .checked 1000 ⟨0, 0⟩).toOption
      = some 1000 := by
    decide +kernel
  obtain ⟨⟨x, hx, hlt⟩, -⟩ :=
    value_run rfl (by norm_num) (by decide) (by decide) (by decide +kernel)
      (carefulRun hr') hlo hhi (toOption_eq_some.mp hn) (toOption_eq_some.mp hn')
  exact ⟨r', x, carefulRun hr', hx, hlt⟩

end Saturn.Klend
