import Saturn.Rebalance.Accrual

/-!
# The six lent coins

The valuations of Kamino and of marginfi go through the same six coins. That of Kamino reads the
collateral of each under the key of its reserve, but for USDC, which it reads under the key of SOL
(`kamino_valued_by_own_iff`). Both give up where a coin is not held (`portfolio_valued_iff`), and
the one of marginfi stores shares for a withdrawal that expects tokens (`stores_position_iff`).
-/

namespace Saturn

open Machine

variable {F : Type} [F64 F] {d : Deployment} {env : Env}

/-- The coins that both protocols are asked about. -/
inductive Coin where
  | sol
  | usdc
  | usdt
  | wbtc
  | weth
  | bonk
  deriving DecidableEq

namespace Coin

def index : Coin → Fin 6
  | sol => 0
  | usdc => 1
  | usdt => 2
  | wbtc => 3
  | weth => 4
  | bonk => 5

def reserve (a : GetValueInKamino) : Coin → Loaded Reserve
  | sol => a.solReserve
  | usdc => a.usdcReserve
  | usdt => a.usdtReserve
  | wbtc => a.wbtcReserve
  | weth => a.wethReserve
  | bonk => a.bonkReserve

def bank (a : GetValueInMarginFi) : Coin → Loaded Bank
  | sol => a.solBank
  | usdc => a.usdcBank
  | usdt => a.usdtBank
  | wbtc => a.wbtcBank
  | weth => a.wethBank
  | bonk => a.bonkBank

/-- The coin under the key of whose reserve the collateral is looked up. -/
def lookedUp : Coin → Coin
  | usdc => sol
  | k => k

end Coin

/-- What a withdrawal asks the protocol for, once the treasury has the record `t`. -/
def Protocol.Requests (k : Protocol) (t : Treasury F) (n : UInt64) : Prop :=
  ∀ (d : Deployment) (w w' : World F) (e : Event F), k.assets w.treasury = k.assets t →
    Step d w e w' → k.withdraws e = true → ∃ r ∈ e.trace, r.cpi.instruction.redeemed = some (k, n)

theorem Protocol.requests_assets (k : Protocol) (t : Treasury F) : k.Requests t (k.assets t) := by
  intro d w w' e hassets hstep he
  rw [← hassets]
  exact hstep.requests he

/-! ## Kamino -/

/-- What collateral redeems for: the collateral over the rate, rounded down and modulo `2 ^ 64`. -/
theorem Reserve.redeemCollateral_eq_ok {r : Reserve} {p : Profile} {c n : UInt64} :
    r.redeemCollateral p c = .ok n ↔ ∃ rate, r.collateralExchangeRate p = .ok rate ∧
      rate.bits ≠ 0 ∧ (n.toNat : ℤ) = c.toNat * 2 ^ 60 / rate.bits % 2 ^ 64 := by
  have hquot (rate : U68F60) (hne : rate.bits ≠ 0) :
      Fixed.quotBits (U68F60.ofU64 c) rate / 2 ^ 60 = c.toNat * 2 ^ 60 / rate.bits := by
    have hnonneg : (0 : ℤ) ≤ c.toNat * 2 ^ 60 * 2 ^ 60 := by positivity
    have hpos : 0 < rate.bits := lt_of_le_of_ne rate.lo_le hne.symm
    show ((c.toNat * 2 ^ 60 * 2 ^ 60 : ℤ).tdiv rate.bits) / 2 ^ 60 = _
    rw [Int.tdiv_eq_ediv_of_nonneg hnonneg, Int.ediv_ediv_of_nonneg hpos.le,
      Int.mul_ediv_mul_of_pos_left _ _ (by decide)]
  simp only [redeemCollateral, Fixed.div, bind_eq_ok, pure_eq_ok]
  constructor
  · rintro ⟨rate, hrate, q, hq, rfl⟩
    split_ifs at hq with hzero
    cases hq
    exact ⟨rate, hrate, hzero, by rw [U68F60.toNat_toU64_wrap, hquot rate hzero]⟩
  · rintro ⟨rate, hrate, hne, hn⟩
    refine ⟨rate, hrate, _, if_neg hne, ?_⟩
    rw [← UInt64.toNat_inj, ← Nat.cast_inj (R := ℤ), U68F60.toNat_toU64_wrap, hquot rate hne, hn]

theorem Reserve.exists_redeemCollateral {r : Reserve} {p : Profile} {rate : U68F60}
    (hrate : r.collateralExchangeRate p = .ok rate) (hne : rate.bits ≠ 0) (c : UInt64) :
    ∃ n, r.redeemCollateral p c = .ok n := by
  simp only [redeemCollateral, Fixed.div, bind_eq_ok, pure_eq_ok]
  exact ⟨_, rate, hrate, _, if_neg hne, rfl⟩

namespace GetValueInKamino

variable {a : GetValueInKamino} {x y : Exec F} {values : Vector F 6} {key : Pubkey} {c : UInt64}

/-- The collateral that the obligation records under a key, none if there is no entry. -/
def recorded (a : GetValueInKamino) (key : Pubkey) : UInt64 :=
  (a.collateralAmount key).toOption.getD 0

theorem recorded_eq (h : a.collateralAmount key = .ok c) : a.recorded key = c := by
  rw [recorded, h]
  rfl

theorem collateralAmount_recorded (h : a.recorded key ≠ 0) :
    a.collateralAmount key = .ok (a.recorded key) := by
  unfold recorded at h ⊢
  cases hc : a.collateralAmount key with
  | error e =>
      rw [hc] at h
      exact absurd rfl h
  | ok c => rfl

/-- What the valuation makes of one coin. -/
def Redeems (a : GetValueInKamino) (d : Deployment) (env : Env) (k : Coin) (n : UInt64) : Prop :=
  a.collateralAmount (k.lookedUp.reserve a).key = .ok (a.recorded (k.lookedUp.reserve a).key) ∧
    a.recorded (k.lookedUp.reserve a).key ≠ 0 ∧
    (k.reserve a).data.lastUpdate.isStale env.clock.slot = .ok false ∧
    (k.reserve a).data.redeemCollateral d.profile (a.recorded (k.lookedUp.reserve a).key) = .ok n

theorem redeems_iff {k : Coin} {n : UInt64} : a.Redeems d env k n ↔
    ∃ c, a.collateralAmount (k.lookedUp.reserve a).key = .ok c ∧
      (k.reserve a).data.redeemReserveCollateral d.profile c env.clock = .ok n := by
  simp only [Reserve.redeemReserveCollateral_eq_ok]
  constructor
  · rintro ⟨hc, hn⟩
    exact ⟨_, hc, hn⟩
  · rintro ⟨c, hc, hn⟩
    obtain rfl := recorded_eq hc
    exact ⟨hc, hn⟩

theorem redeems_of_handle (h : a.handle d env x = .ok (values, y)) :
    (∀ k : Coin, ∃ n, a.Redeems d env k n ∧ values.get k.index = F64.ofU64 n) ∧
      y.world.treasury.kaminoLendAssets = a.recorded a.solReserve.key := by
  obtain ⟨r, hr, rfl, rfl⟩ := handle_eq_ok.mp h
  refine ⟨?_, (recorded_eq hr.solCollateral).symm⟩
  intro k
  cases k with
  | sol => exact ⟨r.sol, redeems_iff.mpr ⟨_, hr.solCollateral, hr.sol⟩, rfl⟩
  | usdc => exact ⟨r.usdc, redeems_iff.mpr ⟨_, hr.solCollateral, hr.usdc⟩, rfl⟩
  | usdt => exact ⟨r.usdt, redeems_iff.mpr ⟨_, hr.usdtCollateral, hr.usdt⟩, rfl⟩
  | wbtc => exact ⟨r.wbtc, redeems_iff.mpr ⟨_, hr.wbtcCollateral, hr.wbtc⟩, rfl⟩
  | weth => exact ⟨r.weth, redeems_iff.mpr ⟨_, hr.wethCollateral, hr.weth⟩, rfl⟩
  | bonk => exact ⟨r.bonk, redeems_iff.mpr ⟨_, hr.bonkCollateral, hr.bonk⟩, rfl⟩

theorem exists_handle {n : Coin → UInt64} (h : ∀ k : Coin, a.Redeems d env k (n k)) :
    ∃ values y, a.handle d env x = .ok (values, y) := by
  refine ⟨_, _, handle_eq_ok.mpr ⟨⟨a.recorded a.solReserve.key, a.recorded a.usdtReserve.key,
    a.recorded a.wbtcReserve.key, a.recorded a.wethReserve.key, a.recorded a.bonkReserve.key,
    n .sol, n .usdc, n .usdt, n .wbtc, n .weth, n .bonk⟩, ?_, rfl, rfl⟩⟩
  exact ⟨(h .sol).1, (h .usdt).1, (h .wbtc).1, (h .weth).1, (h .bonk).1,
    Reserve.redeemReserveCollateral_eq_ok.mpr (h .sol).2,
    Reserve.redeemReserveCollateral_eq_ok.mpr (h .usdc).2,
    Reserve.redeemReserveCollateral_eq_ok.mpr (h .usdt).2,
    Reserve.redeemReserveCollateral_eq_ok.mpr (h .wbtc).2,
    Reserve.redeemReserveCollateral_eq_ok.mpr (h .weth).2,
    Reserve.redeemReserveCollateral_eq_ok.mpr (h .bonk).2⟩

/-- Each value is what the coin's own collateral redeems for at its own reserve, and the treasury
has the collateral of USDC on record, which is what a withdrawal asks for. -/
structure ValuedByOwn (a : GetValueInKamino) (d : Deployment) (values : Vector F 6)
    (t : Treasury F) :
    Prop where
  value : ∀ k : Coin, ∃ n,
    (k.reserve a).data.redeemCollateral d.profile (a.recorded (k.reserve a).key) = .ok n ∧
      values.get k.index = F64.ofU64 n
  assets : t.kaminoLendAssets = a.recorded a.usdcReserve.key
  requests : Protocol.kamino.Requests t (a.recorded a.usdcReserve.key)

/-- An accepted valuation is by each coin's own reserve if and only if the obligation records as
much collateral of USDC as of SOL. -/
theorem kamino_valued_by_own_iff (h : a.handle d env x = .ok (values, y)) :
    a.ValuedByOwn d values y.world.treasury ↔
      a.recorded a.usdcReserve.key = a.recorded a.solReserve.key := by
  obtain ⟨hredeems, hassets⟩ := redeems_of_handle h
  constructor
  · intro hown
    rw [← hown.assets, hassets]
  · intro heq
    have hassets' : y.world.treasury.kaminoLendAssets = a.recorded a.usdcReserve.key := by
      rw [hassets, heq]
    refine ⟨?_, hassets', ?_⟩
    · intro k
      obtain ⟨n, ⟨-, -, -, hn⟩, hvalue⟩ := hredeems k
      refine ⟨n, ?_, hvalue⟩
      cases k with
      | usdc =>
          -- redeemed was the collateral of SOL, of which there is as much
          show a.usdcReserve.data.redeemCollateral d.profile (a.recorded a.usdcReserve.key) = .ok n
          rw [heq]
          exact hn
      | _ => exact hn
    · rw [← hassets']
      exact Protocol.kamino.requests_assets _

end GetValueInKamino

/-- Up-to-date reserves that redeem one for one, and an obligation with these deposits. -/
def parReserves (deposits : Vector ObligationCollateral 8) : GetValueInKamino where
  signer := 9
  lendingMarket := 30
  solReserve := ⟨61, idleReserve solMint 1000000 1000000⟩
  usdcReserve := ⟨32, idleReserve usdcMint 1000000 1000000⟩
  usdtReserve := ⟨63, idleReserve usdtMint 1000000 1000000⟩
  wbtcReserve := ⟨64, idleReserve wbtcMint 1000000 1000000⟩
  wethReserve := ⟨65, idleReserve wethMint 1000000 1000000⟩
  bonkReserve := ⟨66, idleReserve bonkMint 1000000 1000000⟩
  obligation := ⟨31, ⟨⟨30, 9⟩, deposits⟩⟩

def noDeposit : ObligationCollateral := ⟨0, 0⟩

theorem parReserves_fresh (deposits : Vector ObligationCollateral 8) (k : Coin) :
    (k.reserve (parReserves deposits)).data.lastUpdate.isStale (unitEnv 0).clock.slot
      = .ok false := by
  have hfresh : (⟨0, 0⟩ : LastUpdate).isStale 0 = .ok false := by
    simp [LastUpdate.isStale, LastUpdate.slotsElapsed, require]
  cases k <;> exact hfresh

def oneOfEach : Vector ObligationCollateral 8 :=
  #v[⟨61, 1⟩, ⟨32, 1⟩, ⟨63, 1⟩, ⟨64, 1⟩, ⟨65, 1⟩, ⟨66, 1⟩, noDeposit, noDeposit]

/-- One unit of each coin, so as much of USDC as of SOL. -/
theorem kamino_valued_by_own_iff_each : ∃ values y,
    (parReserves oneOfEach).handle (smallDeployment .release) (unitEnv 0) (.start smallWorld)
      = .ok (values, y) ∧
    (parReserves oneOfEach).ValuedByOwn (smallDeployment .release) values y.world.treasury := by
  obtain ⟨⟨values, y⟩, hy⟩ := exists_ok
    (show ((parReserves oneOfEach).handle (smallDeployment .release) (unitEnv 0)
      (.start smallWorld)).toOption.isSome = true by decide +kernel)
  exact ⟨values, y, hy, (GetValueInKamino.kamino_valued_by_own_iff hy).mpr rfl⟩

def fiveUsdc : Vector ObligationCollateral 8 := oneOfEach.set 1 ⟨32, 5⟩

/-- The five units of USDC are reported as one, and one is what a withdrawal asks for. -/
theorem usdc_valued_as_sol : ∃ values y,
    (parReserves fiveUsdc).handle (smallDeployment .release) (unitEnv 0) (.start smallWorld)
      = .ok (values, y) ∧
    (parReserves fiveUsdc).recorded 32 = 5 ∧ values.get 1 = 1 ∧
    y.world.treasury.kaminoLendAssets = 1 ∧
    ¬ (parReserves fiveUsdc).ValuedByOwn (smallDeployment .release) values y.world.treasury := by
  obtain ⟨⟨values, y⟩, hy, hread⟩ := exists_eq_ok (fun r : Vector ℚ 6 × Exec ℚ =>
      decide (r.1.get 1 = 1 ∧ r.2.world.treasury.kaminoLendAssets = 1))
    (show ((parReserves fiveUsdc).handle (smallDeployment .release) (unitEnv 0)
      (.start smallWorld)).toOption.any _ = true by decide +kernel)
  obtain ⟨hvalue, hassets⟩ := of_decide_eq_true hread
  have hfive : (parReserves fiveUsdc).recorded 32 = 5 := by decide
  refine ⟨values, y, hy, hfive, hvalue, hassets, ?_⟩
  intro hown
  have := hassets.symm.trans (hown.assets.trans hfive)
  exact absurd this (by decide)

/-! ## Any portfolio -/

namespace GetValueInKamino

variable {a : GetValueInKamino} {x : Exec F}

/-- The valuation succeeds and finds nothing in the coins that are not held. -/
def Covers (a : GetValueInKamino) (d : Deployment) (env : Env) (x : Exec F) : Prop :=
  ∃ values y, a.handle d env x = .ok (values, y) ∧
    ∀ k : Coin, a.recorded (k.reserve a).key = 0 → values.get k.index = 0

/-- Every reserve has a rate to redeem at, every coin but USDC is held, and USDC is held or the
collateral of SOL redeems for nothing at its rate. -/
structure HoldsAll (a : GetValueInKamino) (d : Deployment) : Prop where
  rate : ∀ k : Coin, ∃ rate, (k.reserve a).data.collateralExchangeRate d.profile = .ok rate ∧
    rate.bits ≠ 0
  held : ∀ k ≠ Coin.usdc, a.recorded (k.reserve a).key ≠ 0
  usdc : a.recorded a.usdcReserve.key = 0 → ∀ rate,
    a.usdcReserve.data.collateralExchangeRate d.profile = .ok rate →
      (a.recorded a.solReserve.key).toNat * 2 ^ 60 / rate.bits % 2 ^ 64 = 0

theorem covers_iff
    (hfresh : ∀ k : Coin, (k.reserve a).data.lastUpdate.isStale env.clock.slot = .ok false) :
    a.Covers d env x ↔ a.HoldsAll d := by
  constructor
  · rintro ⟨values, y, h, hzero⟩
    obtain ⟨hredeems, -⟩ := redeems_of_handle h
    refine ⟨?_, ?_, ?_⟩
    · intro k
      obtain ⟨n, ⟨-, -, -, hn⟩, -⟩ := hredeems k
      obtain ⟨rate, hrate, hne, -⟩ := Reserve.redeemCollateral_eq_ok.mp hn
      exact ⟨rate, hrate, hne⟩
    · intro k hk
      obtain ⟨n, ⟨-, hheld, -⟩, -⟩ := hredeems k
      cases k with
      | usdc => exact absurd rfl hk
      | _ => exact hheld
    · intro hnone rate hrate
      obtain ⟨n, ⟨-, -, -, hn⟩, hvalue⟩ := hredeems .usdc
      have hn0 : n = 0 := (F64.ofU64_eq_zero n).mp (hvalue.symm.trans (hzero .usdc hnone))
      obtain ⟨rate', hrate', -, hn⟩ := Reserve.redeemCollateral_eq_ok.mp hn
      obtain rfl : rate = rate' := Except.ok.inj (hrate.symm.trans hrate')
      rw [hn0] at hn
      exact hn.symm
  · rintro ⟨hrate, hheld, husdc⟩
    -- no collateral is looked up under the key of USDC
    have hlookedUp (k : Coin) : a.recorded (k.lookedUp.reserve a).key ≠ 0 := by
      apply hheld
      cases k <;> decide
    have hredeems (k : Coin) : ∃ n, a.Redeems d env k n := by
      obtain ⟨rate, hrate, hne⟩ := hrate k
      obtain ⟨n, hn⟩ := Reserve.exists_redeemCollateral hrate hne
        (a.recorded (k.lookedUp.reserve a).key)
      exact ⟨n, collateralAmount_recorded (hlookedUp k), hlookedUp k, hfresh k, hn⟩
    choose n hn using hredeems
    obtain ⟨values, y, h⟩ := exists_handle (x := x) hn
    refine ⟨values, y, h, ?_⟩
    intro k hnone
    by_cases hk : k = .usdc
    · -- what is reported for USDC is the collateral of SOL at the rate of USDC
      subst hk
      obtain ⟨n, ⟨-, -, -, hn⟩, hvalue⟩ := (redeems_of_handle h).1 .usdc
      obtain ⟨rate, hrate, -, hn⟩ := Reserve.redeemCollateral_eq_ok.mp hn
      have hn0 : n.toNat = 0 := by
        have := husdc hnone rate hrate
        exact_mod_cast hn.trans this
      exact hvalue.trans ((F64.ofU64_eq_zero n).mpr (UInt64.toNat_inj.mp hn0))
    · exact absurd hnone (hheld k hk)

end GetValueInKamino

namespace GetValueInMarginFi

variable {m : GetValueInMarginFi} {x y : Exec F} {values : Vector F 6}

/-- The account has shares in the bank of the coin. -/
def Holds (m : GetValueInMarginFi) (k : Coin) : Prop :=
  ∃ b : Balance, m.assetBalance (k.bank m) = .ok b ∧ b.assetShares.bits ≠ 0

/-- The valuation succeeds and finds nothing in the coins that are not held. -/
def Covers (m : GetValueInMarginFi) (d : Deployment) (env : Env) (x : Exec F) : Prop :=
  ∃ values y, m.handle d env x = .ok (values, y) ∧
    ∀ k : Coin, ¬ m.Holds k → values.get k.index = 0

/-- There is an active balance in the bank of the coin, and the amount of its shares is defined. -/
def Valuable (m : GetValueInMarginFi) (d : Deployment) (env : Env) (k : Coin) : Prop :=
  ∃ b : Balance, m.assetBalance (k.bank m) = .ok b ∧ ∃ sv, (k.bank m).data.Values d.profile
    env.clock.unixTimestamp b.assetShares b.lastUpdate sv

theorem valueInMarginfi_eq_ok {bank : Loaded Bank} {v : I80F48} :
    m.valueInMarginfi d env bank = .ok v ↔ ∃ b : Balance, m.assetBalance bank = .ok b ∧
      ∃ sv, bank.data.Values d.profile env.clock.unixTimestamp b.assetShares b.lastUpdate sv ∧
        v.bits = b.assetShares.bits * sv.bits / 2 ^ 48 := by
  simp only [valueInMarginfi, bind_eq_ok, unwrapOk_eq_ok, Bank.values_iff]

theorem value_of_handle (h : m.handle d env x = .ok (values, y)) (k : Coin) :
    ∃ v, m.valueInMarginfi d env (k.bank m) = .ok v ∧ values.get k.index = F64.lit v.toRat := by
  obtain ⟨r, hr, rfl, -⟩ := handle_eq_ok.mp h
  cases k with
  | sol => exact ⟨r.sol, hr.sol, rfl⟩
  | usdc => exact ⟨r.usdc, hr.usdc, rfl⟩
  | usdt => exact ⟨r.usdt, hr.usdt, rfl⟩
  | wbtc => exact ⟨r.wbtc, hr.wbtc, rfl⟩
  | weth => exact ⟨r.weth, hr.weth, rfl⟩
  | bonk => exact ⟨r.bonk, hr.bonk, rfl⟩

theorem exists_handle {v : Coin → I80F48}
    (h : ∀ k : Coin, m.valueInMarginfi d env (k.bank m) = .ok (v k)) :
    ∃ values y, m.handle d env x = .ok (values, y) := by
  obtain ⟨b, hb, -⟩ := valueInMarginfi_eq_ok.mp (h .usdt)
  exact ⟨_, _, handle_eq_ok.mpr ⟨⟨b, v .sol, v .usdc, v .usdt, v .wbtc, v .weth, v .bonk⟩,
    ⟨hb, h .sol, h .usdc, h .usdt, h .wbtc, h .weth, h .bonk⟩, rfl, rfl⟩⟩

theorem covers_iff : m.Covers d env x ↔ ∀ k : Coin, m.Valuable d env k := by
  constructor
  · rintro ⟨values, y, h, -⟩ k
    obtain ⟨v, hv, -⟩ := value_of_handle h k
    obtain ⟨b, hb, sv, hsv, -⟩ := valueInMarginfi_eq_ok.mp hv
    exact ⟨b, hb, sv, hsv⟩
  · intro hall
    have hvalue (k : Coin) : ∃ v, m.valueInMarginfi d env (k.bank m) = .ok v := by
      obtain ⟨b, hb, sv, hsv⟩ := hall k
      obtain ⟨-, -, -, v, hv⟩ := id hsv
      exact ⟨v, valueInMarginfi_eq_ok.mpr ⟨b, hb, sv, hsv, hv⟩⟩
    choose v hv using hvalue
    obtain ⟨values, y, h⟩ := exists_handle (x := x) hv
    refine ⟨values, y, h, ?_⟩
    intro k hnone
    obtain ⟨v, hv, hvalue⟩ := value_of_handle h k
    obtain ⟨b, hb, sv, -, hbits⟩ := valueInMarginfi_eq_ok.mp hv
    have hshares : b.assetShares.bits = 0 := by
      by_contra hne
      exact hnone ⟨b, hb, hne⟩
    rw [hvalue, Fixed.toRat, hbits, hshares, zero_mul, Int.zero_ediv, Int.cast_zero, zero_div,
      F64.lit_zero]

end GetValueInMarginFi

/-- For every portfolio: with up-to-date reserves the valuation of Kamino covers it if and only if
every coin is held, but for USDC where the collateral of SOL is worth nothing in it; and the
valuation of marginfi covers it if and only if there is a balance in every bank whose amount is
defined. -/
theorem portfolio_valued_iff {a : GetValueInKamino} {m : GetValueInMarginFi} {x : Exec F}
    (hfresh : ∀ k : Coin, (k.reserve a).data.lastUpdate.isStale env.clock.slot = .ok false) :
    (a.Covers d env x ↔ a.HoldsAll d) ∧ (m.Covers d env x ↔ ∀ k : Coin, m.Valuable d env k) :=
  ⟨GetValueInKamino.covers_iff hfresh, GetValueInMarginFi.covers_iff⟩

/-- Portfolios with something of each coin, and with an empty balance of each. -/
theorem portfolio_valued_iff_each :
    (parReserves oneOfEach).Covers (smallDeployment .release) (unitEnv 0) (.start smallWorld) ∧
    nothingLent.Covers (smallDeployment .release) (unitEnv 0) (.start smallWorld) := by
  obtain ⟨hkamino, hmarginfi⟩ :=
    portfolio_valued_iff (d := smallDeployment .release) (m := nothingLent)
      (x := .start smallWorld) (parReserves_fresh oneOfEach)
  constructor
  · refine hkamino.mpr ⟨?_, ?_, ?_⟩
    · intro k
      obtain ⟨rate, hrate, hne⟩ := exists_eq_ok (fun rate : U68F60 => decide (rate.bits ≠ 0))
        (show
          ((k.reserve (parReserves oneOfEach)).data.collateralExchangeRate .release).toOption.any _
          = true by cases k <;> decide +kernel)
      exact ⟨rate, hrate, of_decide_eq_true hne⟩
    · intro k _
      cases k <;> decide
    · intro h
      exact absurd h (by decide)
  · apply hmarginfi.mpr
    intro k
    obtain ⟨v, hv⟩ := exists_ok
      (show (nothingLent.valueInMarginfi (smallDeployment .release) (unitEnv 0)
        (k.bank nothingLent)).toOption.isSome = true by cases k <;> decide +kernel)
    obtain ⟨b, hb, sv, hsv, -⟩ := GetValueInMarginFi.valueInMarginfi_eq_ok.mp hv
    exact ⟨b, hb, sv, hsv⟩

def usdcDeposit : Vector ObligationCollateral 8 :=
  #v[⟨32, 1000000⟩, noDeposit, noDeposit, noDeposit, noDeposit, noDeposit, noDeposit, noDeposit]

def fundedBank (mint : Pubkey) : Bank :=
  { parBank mint with totalAssetShares := I80F48.ofU64 1000000 }

/-- The accounts of a valuation of marginfi, with a million shares of USDC and no other balance. -/
def usdcOnlyLent : GetValueInMarginFi where
  signer := 9
  marginfiGroup := 40
  marginfiAccount :=
    { key := 41
      data :=
        { group := 40
          authority := 9
          balances := (Vector.replicate 16 closedBalance).set 0 (activeBalance 72 1000000) } }
  solBank := ⟨71, fundedBank solMint⟩
  usdcBank := ⟨72, fundedBank usdcMint⟩
  usdtBank := ⟨73, fundedBank usdtMint⟩
  wbtcBank := ⟨74, fundedBank wbtcMint⟩
  wethBank := ⟨75, fundedBank wethMint⟩
  bonkBank := ⟨76, fundedBank bonkMint⟩

/-- Neither protocol can be valued after a single deposit. -/
theorem single_deposit_panics :
    (parReserves usdcDeposit).recorded 32 = 1000000 ∧
    (parReserves usdcDeposit).handle (smallDeployment .release) (unitEnv 0)
      (.start smallWorld) = .error .panic ∧
    usdcOnlyLent.Holds .usdc ∧
    usdcOnlyLent.handle (smallDeployment .release) (unitEnv 0) (.start smallWorld) = .error .panic ∧
    ¬ (parReserves usdcDeposit).Covers (smallDeployment .release) (unitEnv 0) (.start smallWorld) ∧
    ¬ usdcOnlyLent.Covers (smallDeployment .release) (unitEnv 0) (.start smallWorld) := by
  have hkamino : (parReserves usdcDeposit).handle (smallDeployment .release) (unitEnv 0)
      (.start smallWorld) = .error .panic := rfl
  have hmarginfi : usdcOnlyLent.handle (smallDeployment .release) (unitEnv 0) (.start smallWorld)
      = .error .panic := rfl
  refine ⟨by decide, hkamino, ⟨activeBalance 72 1000000, rfl, by decide⟩, hmarginfi, ?_, ?_⟩
  · rintro ⟨values, y, h, -⟩
    rw [hkamino] at h
    cases h
  · rintro ⟨values, y, h, -⟩
    rw [hmarginfi] at h
    cases h

/-! ## The size of the position in marginfi -/

section

variable {p : Profile} {now : Int64} {bank : Bank} {b : Balance} {sv v : I80F48}
  {values : Vector ℚ 6} {t : Treasury ℚ} {oldest lastUpdate age n : UInt64}

/-- The treasury records the integer part of the USDT it finds, and that is what a withdrawal asks
for. -/
def StoresPosition (values : Vector ℚ 6) (t : Treasury ℚ) : Prop :=
  ∃ n : UInt64, t.marginfiLendAssets = n ∧ (n.toNat : ℤ) = ⌊values.get 2⌋ ∧
    Protocol.marginfi.Requests t n

/-- A valuation at that time finds the balance `b` in a bank of USDT, and is accepted. -/
def Valued (bank : Bank) (p : Profile) (now : Int64) (b : Balance) (values : Vector ℚ 6)
    (t : Treasury ℚ) :
    Prop :=
  ∃ (m : GetValueInMarginFi) (d : Deployment) (env : Env) (x y : Exec ℚ), d.profile = p ∧
    env.clock.unixTimestamp = now ∧ m.usdtBank.data = bank ∧ m.assetBalance m.usdtBank = .ok b ∧
    m.constraints d env x.world = .ok () ∧ m.handle d env x = .ok (values, y) ∧ y.world.treasury = t

/-- A balance updated at `lastUpdate` is no older than one updated at `oldest`. -/
def NoOlder (p : Profile) (now : Int64) (oldest lastUpdate : UInt64) : Prop :=
  ∃ age age', (p.sub now.toUInt64 oldest : Except Failure UInt64) = .ok age ∧
    (p.sub now.toUInt64 lastUpdate : Except Failure UInt64) = .ok age' ∧ age'.toNat ≤ age.toNat

/-- Every position no older than that is stored as it is. -/
def StoresEveryPosition (bank : Bank) (p : Profile) (now : Int64) (oldest : UInt64) : Prop :=
  ∀ b values t, Valued bank p now b values t → NoOlder p now oldest b.lastUpdate →
    0 ≤ b.assetShares.bits → b.assetShares.bits < 2 ^ 112 → StoresPosition values t

/-- A share is worth a token, and the interest of that time is less than a unit. -/
def Bank.KeepsPar (bank : Bank) (p : Profile) (now : Int64) (oldest : UInt64) : Prop :=
  ∀ age, (p.sub now.toUInt64 oldest : Except Failure UInt64) = .ok age →
    bank.assetShareValue = I80F48.ofU64 1 ∧
      ∀ r, bank.lendingRate = some r → r.bits * age.toNat < 31536000

/-- The code stores the whole shares, modulo `2 ^ 64`, and reports shares times share value with
interest. -/
theorem Valued.storesPosition_iff (h : Valued bank p now b values t) :
    ∃ (age : UInt64) (sv v : I80F48),
      (p.sub now.toUInt64 b.lastUpdate : Except Failure UInt64) = .ok age ∧ bank.Accrued age sv ∧
      v.bits = b.assetShares.bits * sv.bits / 2 ^ 48 ∧
      (StoresPosition values t ↔ b.assetShares.floor % 2 ^ 64 = v.floor) := by
  obtain ⟨m, d, env, x, y, rfl, rfl, rfl, hb, -, h, rfl⟩ := h
  obtain ⟨r, hr, hvalues, rfl⟩ := GetValueInMarginFi.handle_eq_ok.mp h
  obtain rfl : r.usdtBalance = b := Except.ok.inj (hr.usdtBalance.symm.trans hb)
  obtain ⟨b', hb', sv, ⟨age, hage, hsv, -⟩, hv⟩ :=
    GetValueInMarginFi.valueInMarginfi_eq_ok.mp hr.usdt
  obtain rfl : r.usdtBalance = b' := Except.ok.inj (hb.symm.trans hb')
  have hreported : ⌊values.get 2⌋ = r.usdt.floor := by
    rw [hvalues, ← Fixed.floor_toRat]
    rfl
  have hstored : ((r.treasury x.world.treasury).marginfiLendAssets.toNat : ℤ)
      = r.usdtBalance.assetShares.floor % 2 ^ 64 := Fixed.toNat_toU64 _
  refine ⟨age, sv, r.usdt, hage, hsv, hv, ?_⟩
  rw [← hreported, ← hstored]
  constructor
  · rintro ⟨n, rfl, hn, -⟩
    exact hn
  · intro hn
    exact ⟨_, rfl, hn, Protocol.marginfi.requests_assets _⟩

theorem Bank.KeepsPar.eq_one (h : bank.KeepsPar p now oldest)
    (hold : NoOlder p now oldest lastUpdate)
    (hage : (p.sub now.toUInt64 lastUpdate : Except Failure UInt64) = .ok age)
    (hsv : bank.Accrued age sv) :
    sv = I80F48.ofU64 1 := by
  obtain ⟨greatest, age', hgreatest, hage', hle⟩ := hold
  cases hage.symm.trans hage'
  obtain ⟨hone, hrate⟩ := h greatest hgreatest
  unfold Accrued at hsv
  split_ifs at hsv
  · exact hsv.trans hone
  · obtain ⟨r, hr, -, hsv⟩ := hsv
    have hnonneg : 0 ≤ r.bits * age.toNat :=
      mul_nonneg (lendingRate_nonneg hr) (Int.natCast_nonneg _)
    have hless : r.bits * age.toNat ≤ r.bits * greatest.toNat :=
      mul_le_mul_of_nonneg_left (Int.ofNat_le.mpr hle) (lendingRate_nonneg hr)
    have hlt := hrate r hr
    rw [interest, Int.ediv_eq_zero_of_lt hnonneg (by omega), mul_zero, Int.zero_ediv,
      add_zero] at hsv
    rw [← hone]
    exact Fixed.ext hsv

/-- At par a position is stored as it is if and only if its shares are a `u64`. -/
theorem Bank.KeepsPar.storesPosition_iff (hpar : bank.KeepsPar p now oldest)
    (h : Valued bank p now b values t) (hold : NoOlder p now oldest b.lastUpdate) :
    StoresPosition values t ↔ 0 ≤ b.assetShares.bits ∧ b.assetShares.bits < 2 ^ 112 := by
  obtain ⟨age, sv, v, hage, hsv, hv, hiff⟩ := h.storesPosition_iff
  rw [hpar.eq_one hold hage hsv] at hv
  have hone : (I80F48.ofU64 1).bits = 2 ^ 48 := by decide
  rw [hone, Int.mul_ediv_cancel _ (by decide)] at hv
  rw [hiff, show v.floor = b.assetShares.floor by rw [Fixed.floor, hv]; rfl, Fixed.floor]
  show b.assetShares.bits / 2 ^ 48 % 2 ^ 64 = b.assetShares.bits / 2 ^ 48 ↔ _
  omega

/-- With another share value one share or `2 ^ 48` shares are not the tokens they are worth. -/
theorem exists_shares_ne (h : sv.bits ≠ 2 ^ 48) : ∃ (n : UInt64) (v : I80F48),
    v.bits = (I80F48.ofU64 n).bits * sv.bits / 2 ^ 48 ∧
      (I80F48.ofU64 n).floor % 2 ^ 64 ≠ v.floor := by
  have hlo := sv.lo_le
  have hhi := sv.lt_hi
  by_cases hwhole : sv.bits / 2 ^ 48 = 1
  · -- a whole token and a fraction: as many shares as the fraction has units in a token
    obtain ⟨v, hv⟩ : ∃ v : I80F48, v.bits = 2 ^ 48 * sv.bits := by
      refine ⟨⟨_, ?_, ?_⟩, rfl⟩
      · show -2 ^ 127 ≤ 2 ^ 48 * sv.bits
        omega
      · show 2 ^ 48 * sv.bits < 2 ^ 127
        omega
    have hbits : (I80F48.ofU64 281474976710656).bits = 2 ^ 48 * 2 ^ 48 := by decide
    refine ⟨281474976710656, v, ?_, ?_⟩
    · rw [hv, hbits, mul_right_comm, Int.mul_ediv_cancel _ (by decide)]
    · rw [Fixed.floor, Fixed.floor, hv, hbits]
      show 2 ^ 48 * 2 ^ 48 / 2 ^ 48 % 2 ^ 64 ≠ 2 ^ 48 * sv.bits / 2 ^ 48
      omega
  · have hbits : (I80F48.ofU64 1).bits = 2 ^ 48 := by decide
    refine ⟨1, sv, ?_, ?_⟩
    · rw [hbits, Int.mul_ediv_cancel_left _ (by decide)]
    · rw [Fixed.floor, hbits]
      show 2 ^ 48 / 2 ^ 48 % 2 ^ 64 ≠ sv.bits / 2 ^ 48
      omega

/-- The accounts of a valuation with so many shares of a bank of USDT, and none of the five
others. -/
def usdtAccounts (bank : Bank) (now shares lastUpdate : UInt64) : GetValueInMarginFi :=
  { nothingLent with
    marginfiGroup := bank.group
    marginfiAccount :=
      { key := 41
        data :=
          { group := bank.group
            authority := 9
            balances := #v[⟨true, 71, I80F48.ofU64 0, now⟩, ⟨true, 72, I80F48.ofU64 0, now⟩,
              ⟨true, 73, I80F48.ofU64 shares, lastUpdate⟩, ⟨true, 74, I80F48.ofU64 0, now⟩,
              ⟨true, 75, I80F48.ofU64 0, now⟩, ⟨true, 76, I80F48.ofU64 0, now⟩, closedBalance,
              closedBalance, closedBalance, closedBalance, closedBalance, closedBalance,
              closedBalance, closedBalance, closedBalance, closedBalance] } }
    solBank := ⟨71, { parBank solMint with group := bank.group }⟩
    usdcBank := ⟨72, { parBank usdcMint with group := bank.group }⟩
    usdtBank := ⟨73, bank⟩
    wbtcBank := ⟨74, { parBank wbtcMint with group := bank.group }⟩
    wethBank := ⟨75, { parBank wethMint with group := bank.group }⟩
    bonkBank := ⟨76, { parBank bonkMint with group := bank.group }⟩ }

theorem usdtAccounts_valued (hmint : bank.mint = usdtMint)
    (hage : (p.sub now.toUInt64 lastUpdate : Except Failure UInt64) = .ok age)
    (hsv : bank.Accrued age sv) (hv : v.bits = (I80F48.ofU64 n).bits * sv.bits / 2 ^ 48) :
    ∃ values t, Valued bank p now ⟨true, 73, I80F48.ofU64 n, lastUpdate⟩ values t := by
  have hnone (mint : Pubkey) :
      calUserTotalAssetInMarginfi p now { parBank mint with group := bank.group }
        (I80F48.ofU64 0) now.toUInt64 = .ok (I80F48.ofU64 0) :=
    calUserTotalAssetInMarginfi_now.mpr (I80F48.checkedMul_one _)
  have hvalue (k : Coin) : ∃ w, (usdtAccounts bank now.toUInt64 n lastUpdate).valueInMarginfi
      (smallDeployment p) (splEnv now [9] fun _ => none)
      (k.bank (usdtAccounts bank now.toUInt64 n lastUpdate))
        = .ok w := by
    cases k with
    | usdt =>
        refine ⟨v, GetValueInMarginFi.valueInMarginfi_eq_ok.mpr
          ⟨⟨true, 73, I80F48.ofU64 n, lastUpdate⟩, rfl, sv, ⟨age, hage, hsv, v, hv⟩, hv⟩⟩
    | sol => exact ⟨_, bind_eq_ok.mpr ⟨_, rfl, unwrapOk_eq_ok.mpr (hnone solMint)⟩⟩
    | usdc => exact ⟨_, bind_eq_ok.mpr ⟨_, rfl, unwrapOk_eq_ok.mpr (hnone usdcMint)⟩⟩
    | wbtc => exact ⟨_, bind_eq_ok.mpr ⟨_, rfl, unwrapOk_eq_ok.mpr (hnone wbtcMint)⟩⟩
    | weth => exact ⟨_, bind_eq_ok.mpr ⟨_, rfl, unwrapOk_eq_ok.mpr (hnone wethMint)⟩⟩
    | bonk => exact ⟨_, bind_eq_ok.mpr ⟨_, rfl, unwrapOk_eq_ok.mpr (hnone bonkMint)⟩⟩
  choose w hw using hvalue
  obtain ⟨values, y, h⟩ := GetValueInMarginFi.exists_handle (x := .start smallWorld) hw
  refine ⟨values, y.world.treasury, _, smallDeployment p, splEnv now [9] fun _ => none, _, y, rfl,
    rfl, rfl, rfl, ?_, h, rfl⟩
  have hbank (mint : Pubkey) (b : Bank) (hgroup : b.group = bank.group) (hb : b.mint = mint) :
      GetValueInMarginFi.requireBank bank.group mint b = .ok () :=
    bind_eq_ok.mpr ⟨(), require_eq_ok.mpr hgroup, require_eq_ok.mpr hb⟩
  simp only [GetValueInMarginFi.constraints, bind_eq_ok]
  exact ⟨(), rfl, (), require_eq_ok.mpr rfl, (), require_eq_ok.mpr rfl, (), hbank solMint _ rfl rfl,
    (), hbank usdcMint _ rfl rfl, (), hbank usdtMint bank rfl hmint, (), hbank wbtcMint _ rfl rfl,
    (), hbank wethMint _ rfl rfl, hbank bonkMint _ rfl rfl⟩

/-- A rate that gives a unit in that time gives one at an age at which its interest is defined. -/
theorem exists_earning_age {r : I80F48}
    (hage : (p.sub now.toUInt64 oldest : Except Failure UInt64) = .ok age)
    (hlarge : ¬ r.bits * age.toNat < 31536000) : ∃ u age', NoOlder p now oldest u ∧
      (p.sub now.toUInt64 u : Except Failure UInt64) = .ok age' ∧
      r.bits * age'.toNat < 2 ^ 127 ∧ 31536000 ≤ r.bits * age'.toNat := by
  rcases lt_or_ge (r.bits * age.toNat) (2 ^ 127) with hfits | hoverflows
  · exact ⟨oldest, age, ⟨age, age, hage, hage, le_rfl⟩, hage, hfits, not_lt.mp hlarge⟩
  · -- so high a rate gives more than a unit in a second
    have hrate : 2 ^ 63 ≤ r.bits := by
      by_contra hlow
      have hsmall := mul_le_mul_of_nonneg_right (not_le.mp hlow).le (Int.natCast_nonneg age.toNat)
      have hlt := age.toNat_lt
      omega
    have hpos : 0 < age.toNat := by
      rcases Nat.eq_zero_or_pos age.toNat with hzero | hpos
      · rw [hzero] at hoverflows
        norm_num at hoverflows
      · exact hpos
    have hlast : (p.sub now.toUInt64 (now.toUInt64 - 1) : Except Failure UInt64) = .ok 1 := by
      rw [Profile.sub_eq_ok]
      refine ⟨by grind, fun hp => ?_⟩
      obtain ⟨hsubAge, hchecked⟩ := Profile.sub_eq_ok.mp hage
      have hle := hchecked hp
      rw [hsubAge, toNat_sub_of_le hle] at hpos
      have hless : (1 : UInt64).toNat ≤ now.toUInt64.toNat := by
        rw [UInt64.toNat_one]
        omega
      rw [toNat_sub_of_le hless]
      omega
    refine ⟨_, 1, ⟨age, 1, hage, hlast, ?_⟩, hlast, ?_, ?_⟩
    · rw [UInt64.toNat_one]
      omega
    · rw [UInt64.toNat_one, Nat.cast_one, mul_one]
      exact r.lt_hi
    · rw [UInt64.toNat_one, Nat.cast_one, mul_one]
      omega

theorem Bank.keepsPar_of_eq_one (hpar : ∀ {lastUpdate age : UInt64} {sv : I80F48},
    NoOlder p now oldest lastUpdate →
      (p.sub now.toUInt64 lastUpdate : Except Failure UInt64) = .ok age →
      bank.Accrued age sv → sv.bits = 2 ^ 48) : bank.KeepsPar p now oldest := by
  intro age hage
  have hsub : (p.sub now.toUInt64 now.toUInt64 : Except Failure UInt64) = .ok 0 :=
    Profile.sub_eq_ok.mpr ⟨(UInt64.sub_self _).symm, fun _ => le_rfl⟩
  have hone : bank.assetShareValue = I80F48.ofU64 1 :=
    Fixed.ext (hpar ⟨age, 0, hage, hsub, Nat.zero_le _⟩ hsub (by rw [Bank.Accrued, if_pos rfl]))
  refine ⟨hone, fun r hr => ?_⟩
  by_contra hlarge
  obtain ⟨u, age', hold, hage', hfits, hearned⟩ := exists_earning_age hage hlarge
  obtain ⟨sv, hsv⟩ : ∃ sv : I80F48, sv.bits = 2 ^ 48 + r.bits * age'.toNat / 31536000 := by
    refine ⟨⟨_, ?_, ?_⟩, rfl⟩
    · show -2 ^ 127 ≤ 2 ^ 48 + r.bits * age'.toNat / 31536000
      omega
    · show 2 ^ 48 + r.bits * age'.toNat / 31536000 < 2 ^ 127
      omega
  have hone' : bank.assetShareValue.bits = 2 ^ 48 := by
    rw [hone]
    decide
  have hne : age' ≠ 0 := by
    rintro rfl
    rw [UInt64.toNat_zero, Nat.cast_zero, mul_zero] at hearned
    omega
  have haccrued : bank.Accrued age' sv := by
    rw [Bank.Accrued, if_neg hne]
    refine ⟨r, hr, hfits, ?_⟩
    rw [hsv, hone', Bank.interest, hone', Int.mul_ediv_cancel_left _ (by decide)]
  have hpar' := hpar hold hage' haccrued
  omega

/-- What the valuation stores of a position in USDT is what it reports, for every position no older
than that, if and only if a share is worth a token for all that time. Then it does for exactly the
positions of a `u64` of shares. -/
theorem stores_position_iff (hmint : bank.mint = usdtMint) :
    (StoresEveryPosition bank p now oldest ↔ bank.KeepsPar p now oldest) ∧
    (bank.KeepsPar p now oldest → ∀ b values t, Valued bank p now b values t →
      NoOlder p now oldest b.lastUpdate →
        (StoresPosition values t ↔ 0 ≤ b.assetShares.bits ∧ b.assetShares.bits < 2 ^ 112)) := by
  refine ⟨⟨?_, ?_⟩, fun hpar b values t h hold => hpar.storesPosition_iff h hold⟩
  · intro hall
    -- a share is worth a token at every age that counts
    have hpar {lastUpdate age : UInt64} {sv : I80F48} (hold : NoOlder p now oldest lastUpdate)
        (hage : (p.sub now.toUInt64 lastUpdate : Except Failure UInt64) = .ok age)
        (hsv : bank.Accrued age sv) : sv.bits = 2 ^ 48 := by
      by_contra hne
      obtain ⟨n, v, hv, hdiffers⟩ := exists_shares_ne hne
      obtain ⟨values, t, h⟩ := usdtAccounts_valued hmint hage hsv hv
      obtain ⟨age', sv', v', hage', hsv', hv', hiff⟩ := h.storesPosition_iff
      cases hage.symm.trans hage'
      obtain rfl := hsv.unique hsv'
      obtain rfl : v = v' := Fixed.ext (hv.trans hv'.symm)
      refine hdiffers (hiff.mp (hall _ values t h hold ?_ ?_))
      · show (0 : ℤ) ≤ n.toNat * 2 ^ 48
        positivity
      · show (n.toNat * 2 ^ 48 : ℤ) < 2 ^ 112
        have hlt := n.toNat_lt
        omega
    exact Bank.keepsPar_of_eq_one hpar
  · intro hpar b values t h hold hnonneg hlt
    exact (hpar.storesPosition_iff h hold).mpr ⟨hnonneg, hlt⟩

end

theorem fundedBank_keepsPar : (fundedBank usdtMint).KeepsPar .release 31536000 0 := by
  have hrate : (fundedBank usdtMint).lendingRate.all (fun r => decide (r.bits = 0)) = true := by
    decide +kernel
  rw [Option.all_eq_true] at hrate
  refine fun age _ => ⟨rfl, fun r hr => ?_⟩
  rw [of_decide_eq_true (hrate r hr), zero_mul]
  decide

/-- A bank that nobody borrows from, and a hundred shares of it after a year. -/
theorem stores_position_iff_one : StoresEveryPosition (fundedBank usdtMint) .release 31536000 0 ∧
    ∃ values t,
      Valued (fundedBank usdtMint) .release 31536000 ⟨true, 73, I80F48.ofU64 100, 0⟩ values t ∧
      StoresPosition values t := by
  obtain ⟨hevery, hone⟩ := @stores_position_iff .release 31536000 (fundedBank usdtMint) 0 rfl
  refine ⟨hevery.mpr fundedBank_keepsPar, ?_⟩
  obtain ⟨⟨values, y⟩, hy⟩ := exists_ok
    (show ((usdtAccounts (fundedBank usdtMint) 31536000 100 0).handle (smallDeployment .release)
      (splEnv 31536000 [9] fun _ => none) (.start smallWorld)).toOption.isSome
        = true by decide +kernel)
  have hvalued :
    Valued (fundedBank usdtMint) .release 31536000 ⟨true, 73, I80F48.ofU64 100, 0⟩ values
      y.world.treasury := ⟨_, _, _, _, y, rfl, rfl, rfl, rfl, rfl, hy, rfl⟩
  refine ⟨values, _, hvalued, (hone fundedBank_keepsPar _ values _ hvalued ?_).mpr (by decide)⟩
  exact ⟨31536000, 31536000, rfl, rfl, le_rfl⟩

def twoTokenBank : Bank := { fundedBank usdtMint with assetShareValue := I80F48.ofU64 2 }

/-- At a share value of two a position of two hundred tokens is recorded as a hundred. -/
theorem half_position_stored : ∃ values t,
    Valued twoTokenBank .release 0 ⟨true, 73, I80F48.ofU64 100, 0⟩ values t ∧ values.get 2 = 200 ∧
      t.marginfiLendAssets = 100 ∧ ¬ StoresPosition values t := by
  obtain ⟨⟨values, y⟩, hy, hread⟩ := exists_eq_ok (fun r : Vector ℚ 6 × Exec ℚ =>
      decide (r.1.get 2 = 200 ∧ r.2.world.treasury.marginfiLendAssets = 100))
    (show ((usdtAccounts twoTokenBank 0 100 0).handle (smallDeployment .release) (unitEnv 0)
      (.start smallWorld)).toOption.any _ = true by decide +kernel)
  obtain ⟨hvalue, hassets⟩ := of_decide_eq_true hread
  refine ⟨values, y.world.treasury, ⟨_, _, _, _, y, rfl, rfl, rfl, rfl, rfl, hy, rfl⟩, hvalue,
    hassets, ?_⟩
  rintro ⟨n, hn, hfloor, -⟩
  rw [← hn, hassets, hvalue] at hfloor
  exact absurd hfloor (by decide +kernel)

end Saturn
