import Saturn.Rebalance.Placement

/-!
# From a valuation to the total

The three valuations and the recount meet in fields of the treasury: `calcu_balance` adds up what
the valuations of Kamino, marginfi and Meteora are to have written there. The first two write the
sum of the values they return. `get_value_in_meteora` returns a value and writes nothing, and no
other instruction writes `meteora_deposit_value`; so what it returns is in the total only if it was
there already (`valuation_recorded_iff`).
-/

namespace Saturn

open Machine Transition

variable {F : Type} [F64 F]

/-! ## The three valuations -/

/-- The protocols with a valuation. -/
inductive Venue where
  | kamino
  | marginfi
  | meteora
  deriving DecidableEq

/-- The field of the treasury for the protocol. -/
def Venue.value (t : Treasury F) : Venue → F
  | kamino => t.kaminoLendValue
  | marginfi => t.marginfiLendValue
  | meteora => t.meteoraDepositValue

/-- `get_value_in_kamino`, `get_value_in_marginfi` and `get_value_in_meteora`, with their
accounts. -/
inductive Valuation where
  | kamino (a : GetValueInKamino)
  | marginfi (a : GetValueInMarginFi)
  | meteora (a : GetValueInMeteora)

namespace Valuation

def venue : Valuation → Venue
  | kamino _ => .kamino
  | marginfi _ => .marginfi
  | meteora _ => .meteora

/-- The handler, with the values it returns. -/
def handle (d : Deployment) (env : Env) (x : Exec F) : Valuation → Except Failure (List F × Exec F)
  | kamino a => do
      let (values, y) ← a.handle d env x
      return (values.toList, y)
  | marginfi a => do
      let (values, y) ← a.handle d env x
      return (values.toList, y)
  | meteora a => do
      let value ← a.handle d env x
      return ([value], x)

end Valuation

/-! ### What the Meteora position is worth -/

namespace GetValueInMeteora

def unlocked (a : GetValueInMeteora) (env : Env) : ℕ :=
  (a.aVault.data.getUnlockedAmount env.clock.unixTimestamp.toUInt64).elim 0 UInt64.toNat

/-- The LP tokens at the virtual price of the pool, which counts the first vault twice. -/
def lpWorth (a : GetValueInMeteora) (env : Env) (l : Ledger) : ℕ :=
  (l.tokenAccount a.userPoolLp).elim 0 (fun lp => lp.amount.toNat)
    * (2 * a.unlocked env * pricePrecision / a.pool.totalLockedLp.toNat) % 2 ^ 64

theorem handle_eq {a : GetValueInMeteora} {d : Deployment} {env : Env} {x : Exec ℚ} {v : ℚ}
    (h : a.handle d env x = .ok v) : v = a.lpWorth env x.world.ledger := by
  obtain ⟨-, n, hn, -, lp, amount, hlp, hamount, rfl⟩ := handle_eq_ok.mp h
  rw [lpWorth, unlocked, hn, hlp, (Profile.mul_eq_ok.mp hamount).1, ofU64_rat, toNat_mul_ofNat]
  rfl

end GetValueInMeteora

/-! ## What a valuation writes -/

namespace Valuation

variable {v : Valuation} {d : Deployment} {env : Env} {x y : Exec ℚ} {values : List ℚ}

theorem sum_toList (values : Vector ℚ 6) : values.toList.sum = sumValues values := by
  obtain ⟨⟨l⟩, hl⟩ := values
  simp only [sumValues, Vector.foldl_mk, List.foldl_toArray, Vector.toList_mk]
  exact List.sum_eq_foldl

/-- A valuation of Kamino or marginfi writes the sum of its values and no field of another
protocol. -/
theorem handle_lending (h : v.handle d env x = .ok (values, y)) (hv : v.venue ≠ .meteora) :
    v.venue.value y.world.treasury = values.sum ∧
      (∀ p ≠ v.venue, p.value y.world.treasury = p.value x.world.treasury) ∧
      y.world.treasury.jupiterPerpsValue = x.world.treasury.jupiterPerpsValue ∧
      y.world.ledger = x.world.ledger := by
  cases v with
  | kamino a =>
      simp only [handle, bind_eq_ok, pure_eq_ok] at h
      obtain ⟨⟨vs, z⟩, hz, heq⟩ := h
      obtain ⟨rfl, rfl⟩ := Prod.mk.inj heq
      obtain ⟨r, -, rfl, rfl⟩ := GetValueInKamino.handle_eq_ok.mp hz
      refine ⟨(sum_toList r.values).symm, ?_, rfl, rfl⟩
      intro p hp
      cases p with
      | kamino => exact absurd rfl hp
      | _ => rfl
  | marginfi a =>
      simp only [handle, bind_eq_ok, pure_eq_ok] at h
      obtain ⟨⟨vs, z⟩, hz, heq⟩ := h
      obtain ⟨rfl, rfl⟩ := Prod.mk.inj heq
      obtain ⟨r, -, rfl, rfl⟩ := GetValueInMarginFi.handle_eq_ok.mp hz
      refine ⟨(sum_toList r.values).symm, ?_, rfl, rfl⟩
      intro p hp
      cases p with
      | marginfi => exact absurd rfl hp
      | _ => rfl
  | meteora a => exact absurd rfl hv

theorem handle_meteora {a : GetValueInMeteora} (h : (meteora a).handle d env x = .ok (values, y)) :
    values = [(a.lpWorth env x.world.ledger : ℚ)] ∧ y = x := by
  simp only [handle, bind_eq_ok, pure_eq_ok] at h
  obtain ⟨value, hvalue, heq⟩ := h
  obtain ⟨rfl, rfl⟩ := Prod.mk.inj heq
  rw [GetValueInMeteora.handle_eq hvalue]
  exact ⟨rfl, rfl⟩

/-- The valuation is of Kamino or marginfi, or the treasury already has the worth of the LP
tokens. -/
def Known (v : Valuation) (env : Env) (x : Exec ℚ) : Prop :=
  match v with
  | kamino _ | marginfi _ => True
  | meteora a => x.world.treasury.meteoraDepositValue = a.lpWorth env x.world.ledger

/-- An accepted valuation leaves the sum of its values in the treasury iff it is known. -/
theorem recorded_iff (h : v.handle d env x = .ok (values, y)) :
    v.venue.value y.world.treasury = values.sum ↔ v.Known env x := by
  cases v with
  | meteora a =>
      obtain ⟨rfl, rfl⟩ := handle_meteora h
      simp only [Known, venue, Venue.value, List.sum_singleton]
  | _ =>
      constructor
      · intro _
        trivial
      · intro _
        exact (handle_lending h (by simp [venue])).1

/-- No valuation writes the field for Meteora, the one for Jupiter or the ledger. -/
theorem handle_keeps (h : v.handle d env x = .ok (values, y)) :
    y.world.treasury.meteoraDepositValue = x.world.treasury.meteoraDepositValue ∧
      y.world.treasury.jupiterPerpsValue = x.world.treasury.jupiterPerpsValue ∧
      y.world.ledger = x.world.ledger := by
  cases v with
  | meteora a =>
      obtain ⟨-, rfl⟩ := handle_meteora h
      exact ⟨rfl, rfl, rfl⟩
  | _ =>
      obtain ⟨-, hothers, hjupiter, hledger⟩ := handle_lending h (by simp [venue])
      exact ⟨hothers .meteora (by simp [venue]), hjupiter, hledger⟩

end Valuation

/-! ## A sequence of valuations -/

/-- An accepted valuation: what it was given and what it returned. -/
structure Refresh where
  env : Env
  valuation : Valuation
  values : List ℚ

/-- The valuation `r` leads from `x` to `y`. -/
def RefreshStep (d : Deployment) (x : Exec ℚ) (r : Refresh) (y : Exec ℚ) : Prop :=
  r.valuation.handle d r.env x = .ok (r.values, y)

def lastRefresh (p : Venue) (rs : List Refresh) : Option Refresh :=
  (rs.filter fun r => r.valuation.venue = p).getLast?

variable {d : Deployment} {env : Env} {x y z : Exec ℚ} {rs : List Refresh} {r k m t : Refresh}
  {p : Venue} {b : CalcuBalance}

theorem lastRefresh_snoc : lastRefresh p (rs ++ [r])
    = if r.valuation.venue = p then some r else lastRefresh p rs := by
  unfold lastRefresh
  rw [List.filter_append]
  split_ifs with h
  · simp [h]
  · simp [h]

theorem Run.refresh_keeps (hrun : Run (RefreshStep d) x rs y) :
    y.world.treasury.meteoraDepositValue = x.world.treasury.meteoraDepositValue ∧
      y.world.treasury.jupiterPerpsValue = x.world.treasury.jupiterPerpsValue ∧
      y.world.ledger = x.world.ledger := by
  induction hrun with
  | nil => exact ⟨rfl, rfl, rfl⟩
  | snoc _ hstep ih =>
      obtain ⟨hmeteora, hjupiter, hledger⟩ := Valuation.handle_keeps hstep
      exact ⟨hmeteora.trans ih.1, hjupiter.trans ih.2.1, hledger.trans ih.2.2⟩

/-- The treasury holds the sum of the values that the last valuation of Kamino returned, and of
marginfi. -/
theorem Run.refresh_value (hrun : Run (RefreshStep d) x rs y) (hp : p ≠ .meteora)
    (hlast : lastRefresh p rs = some k) : p.value y.world.treasury = k.values.sum := by
  induction hrun with
  | nil => cases hlast
  | @snoc rs v y r _ hstep ih =>
      rw [lastRefresh_snoc] at hlast
      split_ifs at hlast with h
      · obtain rfl := Option.some.inj hlast
        subst h
        exact (Valuation.handle_lending hstep hp).1
      · -- another protocol was valued, or Meteora, which writes nothing
        rw [← ih hlast]
        by_cases hv : r.valuation.venue = .meteora
        · cases hval : r.valuation with
          | meteora a =>
              rw [RefreshStep, hval] at hstep
              obtain ⟨-, rfl⟩ := Valuation.handle_meteora hstep
              rfl
          | _ =>
              rw [hval] at hv
              cases hv
        · exact (Valuation.handle_lending hstep hv).2.1 p (Ne.symm h)

/-- What the last valuation of Meteora returned is the worth of the position in the first state. -/
theorem Run.refresh_known (hrun : Run (RefreshStep d) x rs y)
    (hlast : lastRefresh .meteora rs = some t) :
    x.world.treasury.meteoraDepositValue = t.values.sum ↔ t.valuation.Known t.env x := by
  induction hrun with
  | nil => cases hlast
  | @snoc rs v y r hrun hstep ih =>
      rw [lastRefresh_snoc] at hlast
      split_ifs at hlast with h
      · obtain rfl := Option.some.inj hlast
        obtain ⟨hmeteora, -, hledger⟩ := Run.refresh_keeps hrun
        cases hval : r.valuation with
        | meteora a =>
            rw [RefreshStep, hval] at hstep
            obtain ⟨hvalues, -⟩ := Valuation.handle_meteora hstep
            rw [hvalues, hledger, List.sum_singleton]
            rfl
        | _ =>
            rw [hval] at h
            cases h
      · exact ih hlast

/-- For each valuation that returns `Ok`: the treasury's field for the protocol is the sum of the
returned values, if and only if the protocol is Kamino or marginfi, or the field for Meteora is
already what the LP tokens are worth. And a recount directly after valuations of all three adds
exactly the values they returned, if and only if it is. -/
theorem valuation_recorded_iff (d : Deployment) :
    (∀ (v : Valuation) (env : Env) (x y : Exec ℚ) (values : List ℚ),
      v.handle d env x = .ok (values, y) →
        (v.venue.value y.world.treasury = values.sum ↔ v.Known env x)) ∧
    ∀ (env : Env) (b : CalcuBalance) (rs : List Refresh) (x y z : Exec ℚ)
      (k m t : Refresh), Run (RefreshStep d) x rs y → lastRefresh .kamino rs = some k →
      lastRefresh .marginfi rs = some m → lastRefresh .meteora rs = some t →
      b.handle d env y = .ok z →
        (z.world.treasury.treasuryValue = k.values.sum + m.values.sum + t.values.sum
            + z.world.treasury.jupiterPerpsValue + Asset.sol.value z.world.treasury
            + Asset.usdc.value z.world.treasury + Asset.wbtc.value z.world.treasury ↔
          t.valuation.Known t.env x) := by
  refine ⟨fun v env x y values h => Valuation.recorded_iff h, ?_⟩
  intro env b rs x y z k m t hrun hk hm ht hrec
  have hkamino : y.world.treasury.kaminoLendValue = k.values.sum :=
    Run.refresh_value hrun (p := .kamino) (by decide) hk
  have hmarginfi : y.world.treasury.marginfiLendValue = m.values.sum :=
    Run.refresh_value hrun (p := .marginfi) (by decide) hm
  obtain ⟨hmeteora, -, -⟩ := Run.refresh_keeps hrun
  have hjupiter : z.world.treasury.jupiterPerpsValue = y.world.treasury.jupiterPerpsValue := by
    obtain ⟨r, -, rfl⟩ := CalcuBalance.handle_eq_ok.mp hrec
    rfl
  -- kamino and marginfi record the sum as it stands, so only meteora decides
  rw [← Run.refresh_known hrun ht, ← hmeteora, CalcuBalance.total_eq hrec, Treasury.invested,
    hkamino, hmarginfi, hjupiter]
  constructor
  · intro h
    linarith
  · intro h
    linarith

/-! ### In a run of the program -/

section

variable {w w' : World F} {e : Event F} {es : List (Event F)} {d : Deployment}

end

/-! ### Ten LP tokens -/

/-- The treasury has `n` LP tokens of the mint `50` in the account `18`, and no USDC or wBTC. -/
def lpHolding (n : UInt64) : Exec ℚ :=
  .start { smallWorld with
    ledger := (usdcHolding 0).world.ledger.setTokenAccount 18 ⟨50, 9, n⟩ }

/-- A pool in which an LP token is worth one. -/
def lpValuation : GetValueInMeteora where
  signer := 9
  pool := ⟨50, 51, 52, 200000000000000⟩
  aVault := ⟨51, ⟨100, ⟨0, 0, 0⟩⟩⟩
  bVault := ⟨52, ⟨100, ⟨0, 0, 0⟩⟩⟩
  userPoolLp := 18

def unitCollateral : GetValueInKamino where
  signer := 9
  lendingMarket := 30
  solReserve := ⟨61, idleReserve solMint 1 1⟩
  usdcReserve := ⟨62, idleReserve usdcMint 1 1⟩
  usdtReserve := ⟨63, idleReserve usdtMint 1 1⟩
  wbtcReserve := ⟨64, idleReserve wbtcMint 1 1⟩
  wethReserve := ⟨65, idleReserve wethMint 1 1⟩
  bonkReserve := ⟨66, idleReserve bonkMint 1 1⟩
  obligation := ⟨31, ⟨⟨30, 9⟩, #v[⟨61, 1⟩, ⟨62, 1⟩, ⟨63, 1⟩, ⟨64, 1⟩, ⟨65, 1⟩, ⟨66, 1⟩, ⟨0, 0⟩,
    ⟨0, 0⟩]⟩⟩

/-- The three valuations of a treasury with `n` LP tokens, and what they return. -/
def threeRefreshes (n : ℚ) : List Refresh :=
  [⟨unitEnv 0, .kamino unitCollateral, [1, 1, 1, 1, 1, 1]⟩,
    ⟨unitEnv 0, .marginfi (nothingLent.reading (usdcShares 7)), [0, 7, 0, 0, 0, 0]⟩,
    ⟨unitEnv 0, .meteora lpValuation, [n]⟩]

/-- The state after a valuation, if it returns what the record says. -/
def Refresh.next (d : Deployment) (x : Exec ℚ) (r : Refresh) : Option (Exec ℚ) :=
  match r.valuation.handle d r.env x with
  | .ok (values, y) => if values = r.values then some y else none
  | .error _ => none

theorem Refresh.next_eq_some {d : Deployment} {x y : Exec ℚ} {r : Refresh}
    (h : r.next d x = some y) :
    RefreshStep d x r y := by
  rw [next] at h
  split at h
  · next values z hz =>
    split_ifs at h with heq
    cases h
    rw [RefreshStep, hz, heq]
  · cases h

/-- The three valuations of a treasury with `n` LP tokens are accepted, and after them a recount. -/
theorem exists_threeRefreshes (n : UInt64) (m total : ℚ)
    (h : ((threeRefreshes m).foldlM (Refresh.next (smallDeployment .release)) (lpHolding n)).any
      (fun y =>
      (smallRecount.handle (smallDeployment .release) (unitEnv 0) y).toOption.any fun z =>
        decide (z.world.treasury.treasuryValue = total)) = true) :
    ∃ y z, Run (RefreshStep (smallDeployment .release)) (lpHolding n) (threeRefreshes m) y ∧
      smallRecount.handle (smallDeployment .release) (unitEnv 0) y = .ok z ∧
      z.world.treasury.treasuryValue = total := by
  obtain ⟨y, hy, hrest⟩ := (Option.any_eq_true _ _).mp h
  obtain ⟨z, hz, htotal⟩ := exists_eq_ok _ hrest
  exact ⟨y, z, .of_foldlM (fun _ _ _ => Refresh.next_eq_some) hy, hz, of_decide_eq_true htotal⟩

/-- With no LP tokens, both parts hold. -/
theorem valuation_recorded_iff_none : ∃ y z : Exec ℚ,
    Run (RefreshStep (smallDeployment .release)) (lpHolding 0) (threeRefreshes 0) y ∧
      smallRecount.handle (smallDeployment .release) (unitEnv 0) y = .ok z ∧
      z.world.treasury.treasuryValue = 6 + 7 + 0 + z.world.treasury.jupiterPerpsValue
        + z.world.treasury.solValue + z.world.treasury.usdcValue + z.world.treasury.wbtcValue ∧
      ∃ values y', (Valuation.meteora lpValuation).handle (smallDeployment .release) (unitEnv 0)
          (lpHolding 0) = .ok (values, y') ∧
        y'.world.treasury.meteoraDepositValue = values.sum := by
  obtain ⟨y, z, hrun, hz, -⟩ := exists_threeRefreshes 0 0 13 (by decide +kernel)
  obtain ⟨⟨values, y'⟩, hy'⟩ := exists_ok
    (show ((Valuation.meteora lpValuation).handle (smallDeployment .release) (unitEnv 0)
      (lpHolding 0)).toOption.isSome = true by decide +kernel)
  have hknown : (Valuation.meteora lpValuation).Known (unitEnv 0) (lpHolding 0) := by
    show (0 : ℚ) = ((0 : ℕ) : ℚ)
    norm_num
  have hk : lastRefresh .kamino (threeRefreshes 0)
      = some ⟨unitEnv 0, .kamino unitCollateral, [1, 1, 1, 1, 1, 1]⟩ := rfl
  have hm : lastRefresh .marginfi (threeRefreshes 0)
      = some ⟨unitEnv 0, .marginfi (nothingLent.reading (usdcShares 7)), [0, 7, 0, 0, 0, 0]⟩ := rfl
  have ht : lastRefresh .meteora (threeRefreshes 0)
      = some ⟨unitEnv 0, .meteora lpValuation, [0]⟩ := rfl
  have htotal := ((valuation_recorded_iff _).2 _ _ _ _ _ _ _ _ _ hrun hk hm ht hz).mpr hknown
  refine ⟨y, z, hrun, hz, ?_, values, y', hy',
    ((valuation_recorded_iff _).1 _ _ _ _ _ hy').mpr hknown⟩
  rw [htotal]
  norm_num [Asset.value]

/-- Ten LP tokens are valued at ten, and the recount after it finds thirteen without them. -/
theorem meteora_left_out : ∃ (y z : Exec ℚ),
    Run (RefreshStep (smallDeployment .release)) (lpHolding 10) (threeRefreshes 10) y ∧
      lastRefresh .meteora (threeRefreshes 10) = some ⟨unitEnv 0, .meteora lpValuation, [10]⟩ ∧
      y.world.treasury.meteoraDepositValue = 0 ∧
      smallRecount.handle (smallDeployment .release) (unitEnv 0) y = .ok z ∧
      z.world.treasury.treasuryValue = 6 + 7 := by
  obtain ⟨y, z, hrun, hz, htotal⟩ := exists_threeRefreshes 10 10 13 (by decide +kernel)
  refine ⟨y, z, hrun, rfl, (Run.refresh_keeps hrun).1.trans rfl, hz, ?_⟩
  rw [htotal]
  norm_num

end Saturn
