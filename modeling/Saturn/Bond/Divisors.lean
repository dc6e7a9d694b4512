import Saturn.Steps
import Saturn.Bond.Terms
import Saturn.Staking.Ledger
import Saturn.Rebalance.Wallet
import Saturn.Machine.Double

/-!
# The divisors of a bond

`apply_bond` divides by the backing price, by the bond price and by `token_staked`. None of the
three is compared with zero first: `BackPriceError` and `SpotPriceError` are declared and never
returned. A treasury as `initialize` leaves it has no value and no tokens, `0.0 / 0.0` casts to
zero, and the first bond panics.

What an `f64` is matters here, so this module is about IEEE doubles. The fields a bond is priced
from are numbers in every state (`Treasury.Numeric`): each payment is at most `2 ^ 64`, and a value
that has grown to `2 ^ 120` rounds such a payment away. So the quotient of value and supply is
rounded once, and it casts to zero unless the value is positive and no less than the supply, as a
double.
-/

namespace Saturn

open Machine Transition

/-! ## Reaching a division -/

section

variable {F : Type} [F64 F]

/-- The checks before the pricing pass, the total price being `total`. -/
def ApplyBond.Priced (a : ApplyBond) (d : Deployment) (env : Env) (args : ApplyBondArgs)
    (x : Exec F) (total : Int64) : Prop :=
  x.world.escrows a.creator = none ∧ a.stfTokenMint = stfMint ∧ ∃ c price l,
    Collateral.ofMint a.tokenMintAddress = some c ∧
    (d.profile.overflowChecks = true → args.tokenAmount.toNat * c.scale.toNat < 2 ^ 64) ∧
    env.cpi x.trace.length ⟨a.payment d c (args.tokenAmount * c.scale), []⟩ x.world.ledger = .ok l ∧
    env.getPriceNoOlderThan (a.priceUpdate c) 30 c.feedId = some price ∧
    (d.profile.mulI64 price.price args.tokenAmount.toInt64 : Except Failure Int64) = .ok total

/-- At the spot price `S` and the total price `T`, one of the divisions is the first to be reached
with a zero divisor. In a build with overflow checks, no operation before it overflowed. -/
inductive ZeroDivisor (p : Profile) (t : Treasury F) (S T : UInt64) : Prop
  | backing (hfits : p.overflowChecks = true → S.toNat * 100 < 2 ^ 64) (h : t.backingPrice = 0)
  | bond (hfits : p.overflowChecks = true →
        t.backingPrice.toNat + (premium t.backingPrice S).toNat < 2 ^ 64)
      (hB : t.backingPrice ≠ 0) (h : bondPriceOf t.backingPrice S = 0)
  | staked (hfits : p.overflowChecks = true → PricesExactly t.backingPrice S T ∧
        t.tokenMinted.toNat + (stakersMint t.backingPrice S T).toNat < 2 ^ 64)
      (hB : t.backingPrice ≠ 0) (hbond : bondPriceOf t.backingPrice S ≠ 0) (h : t.tokenStaked = 0)

/-- The handler reaches a division with a zero divisor. -/
def ApplyBond.DividesByZero (a : ApplyBond) (d : Deployment) (env : Env) (args : ApplyBondArgs)
    (x : Exec F) : Prop :=
  ∃ total, a.Priced d env args x total ∧
    ZeroDivisor d.profile x.world.treasury args.spotPrice total.toUInt64

theorem bondTerms_eq_panic_iff {p : Profile} {B S T : UInt64} : bondTerms p B S T = .error .panic ↔
    ¬ (B ≠ 0 ∧ bondPriceOf B S ≠ 0 ∧ (p.overflowChecks = true → PricesExactly B S T)) := by
  have honly : OnlyPanics (bondTerms p B S T) := by
    unfold bondTerms
    repeat' first
      | exact .guard _ _ _
      | exact .div _ _
      | exact .pure _
      | (refine .bind ?_ fun _ => ?_)
  rw [show (.error .panic : Except Failure BondTerms) = .error panic from rfl, honly.eq_panic_iff]
  constructor
  · rintro h ⟨hB, hprice, hexact⟩
    exact h _ (bondTerms_eq_ok.mpr ⟨hB, hprice, hexact, rfl⟩)
  · intro h t ht
    obtain ⟨hB, hprice, hexact, -⟩ := bondTerms_eq_ok.mp ht
    exact h ⟨hB, hprice, hexact⟩

variable {a : ApplyBond} {d : Deployment} {env : Env} {args : ApplyBondArgs} {x : Exec F}

theorem ApplyBond.DividesByZero.panics (h : a.DividesByZero d env args x) :
    a.handle d env args x = .error .panic := by
  obtain ⟨total, ⟨hfresh, hstf, c, price, l, hc, hscaled, hpaid, hprice, htotal⟩, hzero⟩ := h
  simp only [handle, bind_eq_error, require_eq_ok, okOr_eq_ok, Exec.invoke_eq_ok, Profile.mul_eq_ok]
  refine .inr ⟨(), hfresh, .inr ⟨(), hstf, .inr ⟨c, hc, .inr ⟨_, ⟨rfl, hscaled⟩,
    .inr ⟨_, ⟨l, hpaid, rfl⟩, .inr ⟨price, hprice, .inr ⟨total, htotal, ?_⟩⟩⟩⟩⟩⟩⟩
  cases hzero with
  | backing hfits hB =>
      left
      rw [bondTerms_eq_panic_iff, hB]
      simp
  | bond hfits hB hbond =>
      left
      rw [bondTerms_eq_panic_iff, hbond]
      simp
  | staked hfits hB hbond hstaked =>
      right
      have hterms := bondTerms_eq_ok.mpr ⟨hB, hbond, fun hp => (hfits hp).1, rfl⟩
      exact ⟨_, hterms, .inr ⟨_, Profile.add_eq_ok.mpr ⟨rfl, fun hp => (hfits hp).2⟩,
        .inl (div_eq_error.mpr ⟨hstaked, rfl⟩)⟩⟩

theorem ApplyBond.dividesByZero_of_panic (hd : d.profile.overflowChecks = false)
    (hstf : a.stfTokenMint = stfMint) (h : a.handle d env args x = .error .panic) :
    a.DividesByZero d env args x := by
  simp only [handle, bind_eq_error, require_eq_error, require_eq_ok, okOr_eq_error, okOr_eq_ok,
    Exec.invoke_ne_panic, Exec.invoke_eq_ok, Profile.add_ne_error hd, Profile.mul_ne_error hd,
    Profile.addI64_ne_error hd, Profile.mulI64_ne_error hd, Profile.add_eq_ok, Profile.mul_eq_ok,
    div_eq_error, div_eq_ok, pure, Except.pure, hstf, not_true, reduceCtorEq, and_false, false_and,
    false_or, or_false, exists_false, true_and] at h
  obtain ⟨_, hfresh, _, c, hc, _, ⟨rfl, hscaled⟩, _, ⟨l, hpaid, rfl⟩, price, hprice, total, htotal,
    hterms | ⟨terms, hterms, _, ⟨rfl, -⟩, hstaked, -⟩⟩ := h
  all_goals
    refine ⟨total, ⟨hfresh, hstf, c, price, l, hc, hscaled, hpaid, hprice, htotal⟩, ?_⟩
  · rw [bondTerms_eq_panic_iff] at hterms
    by_cases hB : x.world.treasury.backingPrice = 0
    · exact .backing (by simp [hd]) hB
    · refine .bond (by simp [hd]) hB ?_
      by_contra hbond
      exact hterms ⟨hB, hbond, by simp [hd]⟩
  · obtain ⟨hB, hbond, -⟩ := bondTerms_eq_ok.mp hterms
    exact .staked (by simp [hd]) hB hbond hstaked

end

/-! ## Numbers -/

/-- The fields that a bond is priced from, and those that a recount adds up, are numbers, and of a
size that no sum of them is infinite. -/
structure Treasury.Numeric (t : Treasury Double) : Prop where
  treasuryValue : t.treasuryValue.Within (2 ^ (120 : ℤ))
  marginfi : t.marginfiLendValue.Within (2 ^ (90 : ℤ))
  kamino : t.kaminoLendValue.Within (2 ^ (90 : ℤ))
  meteora : t.meteoraDepositValue.Within (2 ^ (90 : ℤ))
  jupiter : t.jupiterPerpsValue.Within (2 ^ (90 : ℤ))

theorem within_sumValues {values : Vector Double 6} (h : ∀ x ∈ values, x.Within (2 ^ 80)) :
    (sumValues values).Within (2 ^ (90 : ℤ)) := by
  rw [sumValues, ← Vector.foldl_toList]
  have hl : ∀ x ∈ values.toList, x.Within (2 ^ (80 : ℤ)) := by simpa using h
  have hlength : values.toList.length ≤ 6 := by simp
  generalize values.toList = l at hl hlength
  -- each of the sums is at most twice the last
  have hacc : ∀ (k : ℤ) (acc : Double), 80 ≤ k → k + l.length ≤ 90 → acc.Within (2 ^ k) →
      (l.foldl (· + ·) acc).Within (2 ^ (k + l.length)) := by
    clear hlength
    induction l with
    | nil =>
        intro k acc _ _ hacc
        simpa using hacc
    | cons x l ih =>
        intro k acc hk hbound hacc
        rw [List.length_cons, Nat.cast_succ] at hbound
        have hx :=
          (hl x List.mem_cons_self).mono (zpow_le_zpow_right₀ (by norm_num) hk : _ ≤ (2 : ℚ) ^ k)
        have hsum := hacc.add hx (by omega : k + 1 < 1024) (by omega) (by
          rw [zpow_add₀ (by norm_num), zpow_one]
          linarith)
        have hrest :=
          ih (fun y hy => hl y (List.mem_cons_of_mem _ hy)) (k + 1) _ (by omega) (by omega) hsum
        rw [List.length_cons, Nat.cast_succ,
          show k + ((l.length : ℤ) + 1) = k + 1 + l.length by ring]
        exact hrest
  have hzero : (0 : Double).Within (2 ^ (80 : ℤ)) := Double.within_zero.mono (by norm_num)
  exact (hacc 80 0 le_rfl (by omega) hzero).mono (zpow_le_zpow_right₀ (by norm_num) (by omega))

theorem within_lit_toRat (a : I80F48) : (F64.lit a.toRat : Double).Within (2 ^ 80) := by
  apply Double.within_round (k := 80) (by norm_num) (by norm_num)
  have hlo : (-2 ^ 127 : ℚ) ≤ a.bits := by exact_mod_cast a.lo_le
  have hhi : (a.bits : ℚ) ≤ 2 ^ 127 := by exact_mod_cast a.lt_hi.le
  have hdiv : a.toRat = a.bits / 2 ^ 48 := rfl
  rw [hdiv, abs_div, abs_of_pos (by norm_num : (0 : ℚ) < 2 ^ 48), div_le_iff₀ (by norm_num)]
  apply (abs_le.mpr ⟨hlo, hhi⟩).trans
  norm_num

theorem Initialize.numeric (a : Initialize) : (a.treasury : Treasury Double).Numeric := by
  have hzero (k : ℤ) : (0 : Double).Within (2 ^ k) := Double.within_zero.mono (two_zpow_pos k).le
  exact ⟨hzero _, hzero _, hzero _, hzero _, hzero _⟩

section

variable {d : Deployment} {w w' : World Double} {e : Event Double} {es : List (Event Double)}

theorem Treasury.Numeric.step (h : w.treasury.Numeric) (hstep : HandlerStep d w e w') :
    w'.treasury.Numeric := by
  apply hstep.treasury_cases (motive := Treasury.Numeric)
  case initializeTreasury =>
    intro a _
    exact Initialize.numeric a
  case applyBond =>
    intro a args s _ _
    have hvalue := h.treasuryValue.add_small (Double.within_ofI64 s.totalPrice)
      (by norm_num) (by norm_num) (by norm_num)
    exact { h with treasuryValue := hvalue }
  case cashingoutReedem =>
    intro a n _
    have hpaid := h.treasuryValue.sub_small
      (Double.within_ofU64 (CashingoutReedem.reedem w.treasury n))
      (by norm_num) (by norm_num) (by norm_num)
    have hvalue := hpaid.sub_small
      (Double.within_ofU64 (CashingoutReedem.fee w.treasury n))
      (by norm_num) (by norm_num) (by norm_num)
    exact { h with treasuryValue := hvalue }
  case calcuBalance =>
    intro a r _ _
    -- a sum of two numbers is at most twice the larger one
    have htotal : (2 : ℚ) ^ (96 : ℤ) ≤ 2 ^ (120 : ℤ) :=
      zpow_le_zpow_right₀ (by norm_num) (by norm_num)
    have h₁ := h.marginfi.add h.kamino (by norm_num : (91 : ℤ) < 1024) (by norm_num) (by norm_num)
    have h₂ := h₁.add h.meteora (by norm_num : (92 : ℤ) < 1024) (by norm_num) (by norm_num)
    have h₃ := h₂.add h.jupiter (by norm_num : (93 : ℤ) < 1024) (by norm_num) (by norm_num)
    have h₄ := h₃.add (Double.within_ofU64 r.solVal) (by norm_num : (94 : ℤ) < 1024) (by norm_num)
      (by norm_num)
    have h₅ := h₄.add (Double.within_ofU64 r.usdcVal) (by norm_num : (95 : ℤ) < 1024) (by norm_num)
      (by norm_num)
    have h₆ := h₅.add (Double.within_ofU64 r.wbtcVal) (by norm_num : (96 : ℤ) < 1024) (by norm_num)
      (by norm_num)
    exact { h with treasuryValue := h₆.mono htotal }
  case getValueInKamino =>
    intro a r _
    have hu64 (n : UInt64) : (F64.ofU64 n : Double).Within (2 ^ 80) :=
      (Double.within_ofU64 n).mono (by norm_num)
    have hvalue : (sumValues (F := Double) r.values).Within (2 ^ (90 : ℤ)) := within_sumValues <| by
      simp [GetValueInKamino.Reading.values, hu64]
    exact { h with kamino := hvalue }
  case getValueInMarginfi =>
    intro a r _
    have hvalue : (sumValues (F := Double) r.values).Within (2 ^ (90 : ℤ)) := within_sumValues <| by
      simp [GetValueInMarginFi.Reading.values, within_lit_toRat]
    exact { h with marginfi := hvalue }
  -- the other instructions write none of these fields
  all_goals
    intros
    exact { h with }

/-- In every state that `initialize` leads to. -/
theorem Run.numeric {a : Initialize} {l : Ledger}
    (hrun : Run (HandlerStep d) (a.world l) es w) : w.treasury.Numeric :=
  hrun.invariant (fun v => v.treasury.Numeric) (Initialize.numeric a)
    fun _ _ _ hstep h => h.step hstep

end

/-! ## Where the divisors are not zero -/

/-- A value that is positive and no less than the supply as a double makes a backing price; where
overflow wraps, a spot price from the backing price on, or one whose premium does not complete the
backing price to `2 ^ 64`, makes a bond price; and something is staked. A build with overflow checks
need not have what a division asks for that an earlier check keeps it from. -/
structure NonzeroDivisors (p : Profile) (t : Treasury Double) (S T : UInt64) : Prop where
  backing : (p.overflowChecks = true → S.toNat * 100 < 2 ^ 64) →
    ∃ v : ℚ, t.treasuryValue.toRat? = some v ∧ 0 < v ∧ nearest t.tokenMinted.toNat ≤ v
  bond : p.overflowChecks = false → t.backingPrice ≤ S ∨
    t.backingPrice.toNat + (premium t.backingPrice S).toNat ≠ 2 ^ 64
  staked : (p.overflowChecks = true → PricesExactly t.backingPrice S T ∧
      t.tokenMinted.toNat + (stakersMint t.backingPrice S T).toNat < 2 ^ 64) → t.tokenStaked ≠ 0

theorem Treasury.Numeric.backingPrice_ne_zero_iff {t : Treasury Double} (h : t.Numeric) :
    t.backingPrice ≠ 0 ↔
      ∃ v : ℚ, t.treasuryValue.toRat? = some v ∧ 0 < v ∧ nearest t.tokenMinted.toNat ≤ v := by
  obtain ⟨v, hv, -⟩ := h.treasuryValue
  rw [Treasury.backingPrice, Double.toU64_div_ofU64_ne_zero_iff hv]
  constructor
  · intro hpos
    exact ⟨v, hv, hpos⟩
  · rintro ⟨q, hq, hpos⟩
    obtain rfl : v = q := Option.some.inj (hv.symm.trans hq)
    exact hpos

theorem bondPriceOf_eq_zero_iff {B S : UInt64} (hB : B ≠ 0) :
    bondPriceOf B S = 0 ↔ B.toNat + (premium B S).toNat = 2 ^ 64 := by
  have hpos := ne_zero_iff_toNat_pos.mp hB
  have hlt := B.toNat_lt
  have hlt' := (premium B S).toNat_lt
  rw [← UInt64.toNat_inj, bondPriceOf, UInt64.toNat_add]
  show (B.toNat + (premium B S).toNat) % 2 ^ 64 = 0 ↔ _
  omega

theorem bondPriceOf_ne_zero {B S : UInt64} (hB : B ≠ 0) (hle : B ≤ S) : bondPriceOf B S ≠ 0 := by
  obtain ⟨hbond, -⟩ := bondPriceOf_between_iff.mpr hle
  have hpos := ne_zero_iff_toNat_pos.mp hB
  exact ne_zero_iff_toNat_pos.mpr (hpos.trans_le (UInt64.le_iff_toNat_le.mp hbond))

/-- No division is the first to be reached with a zero divisor, iff none of them is zero where it
matters. -/
theorem not_zeroDivisor_iff {p : Profile} {t : Treasury Double} {S T : UInt64} (h : t.Numeric) :
    ¬ ZeroDivisor p t S T ↔ NonzeroDivisors p t S T := by
  constructor
  · intro hnot
    refine ⟨?_, ?_, ?_⟩
    · intro hfits
      rw [← h.backingPrice_ne_zero_iff]
      intro hB
      exact hnot (.backing hfits hB)
    · intro hp
      by_cases hB : t.backingPrice = 0
      · left
        rw [hB, UInt64.le_iff_toNat_le]
        exact Nat.zero_le _
      · right
        intro hsum
        exact hnot (.bond (by simp [hp]) hB ((bondPriceOf_eq_zero_iff hB).mpr hsum))
    · intro hfits hstaked
      by_cases hB : t.backingPrice = 0
      · -- a backing price of zero is divided by before the staked tokens are
        refine hnot (.backing ?_ hB)
        intro hp
        have hpercent := (hfits hp).1.percent
        rwa [hB, UInt64.sub_zero] at hpercent
      · by_cases hbond : bondPriceOf t.backingPrice S = 0
        · exact hnot (.bond (fun hp => (hfits hp).1.bond) hB hbond)
        · exact hnot (.staked hfits hB hbond hstaked)
  · intro hne hzero
    cases hzero with
    | backing hfits hB => exact h.backingPrice_ne_zero_iff.mpr (hne.backing hfits) hB
    | bond hfits hB hbond =>
        have hsum := (bondPriceOf_eq_zero_iff hB).mp hbond
        cases hp : p.overflowChecks with
        | false =>
            rcases hne.bond hp with hle | hother
            · exact bondPriceOf_ne_zero hB hle hbond
            · exact hother hsum
        | true =>
            -- a sum that wraps to zero does not fit
            have hlt := hfits hp
            omega
    | staked hfits hB hbond hstaked => exact hne.staked hfits hstaked

/-- In every state that a run leads to from the one `initialize` writes, `apply_bond` reaches no
division with a zero divisor if and only if the divisors are not zero once the checks before the
pricing pass. A zero divisor makes the handler panic; where overflow wraps, and the mint is the
right one, nothing else does. -/
theorem bond_divisors_iff {d : Deployment} {w : World Double} {es : List (Event Double)}
    {b : Initialize}
    {l : Ledger} (hrun : Run (HandlerStep d) (b.world l) es w) (a : ApplyBond) (env : Env)
    (args : ApplyBondArgs) :
    (¬ a.DividesByZero d env args (.start w) ↔ ∀ total, a.Priced d env args (.start w) total →
      NonzeroDivisors d.profile w.treasury args.spotPrice total.toUInt64) ∧
    (a.DividesByZero d env args (.start w) → a.handle d env args (.start w) = .error .panic) ∧
    (d.profile.overflowChecks = false → a.stfTokenMint = stfMint →
      a.handle d env args (.start w) = .error .panic → a.DividesByZero d env args (.start w)) := by
  have hnumeric := Run.numeric hrun
  refine ⟨?_, ApplyBond.DividesByZero.panics, ApplyBond.dividesByZero_of_panic⟩
  constructor
  · intro hnot total hpriced
    rw [← not_zeroDivisor_iff hnumeric]
    intro hzero
    exact hnot ⟨total, hpriced, hzero⟩
  · rintro hne ⟨total, hpriced, hzero⟩
    exact (not_zeroDivisor_iff hnumeric).mpr (hne total hpriced) hzero

/-! ### The first bond -/

/-- The treasury holds a dollar in `12` and no WBTC in `16`; user `1` holds a hundred units of
STF. -/
def dollarLedger : Ledger :=
  (stfLedger.setTokenAccount 12 ⟨usdcMint, 9, 1000000⟩).setTokenAccount 16 ⟨wbtcMint, 9, 0⟩

def hundredFeeds : Env := splEnv 0 [1, 9] fun _ => some ⟨100, 0, 0⟩

/-- Ten units are staked, and the dollar is counted. -/
def stakeAndRecount : List (Call Double) :=
  [⟨hundredFeeds, .stakeSTF
      { user := 1
        userTokenAccount := 14
        treasuryTokenAccount := 13
        stfTokenMint := stfMint } 10⟩,
    ⟨hundredFeeds, .calcuBalance smallRecount⟩]

/-- Then the first bond divides by the largest `u64`, by a bond price that wrapped, and by ten. -/
theorem bond_divisors_iff_counted : ∃ (es : List (Event Double)) (w : World Double),
    es.map Event.call = stakeAndRecount ∧
      Run (HandlerStep (smallDeployment .release)) (Initialize.world ⟨7⟩ dollarLedger) es w ∧
      ¬ usdcBuyer.DividesByZero (smallDeployment .release) hundredFeeds ⟨50, 200⟩ (.start w) := by
  obtain ⟨es, w, hrun, hcalls, hp⟩ := exists_run_of_replay
    (fun c w => c.perform (smallDeployment .release) w) (Initialize.world ⟨7⟩ dollarLedger)
    stakeAndRecount (fun _ w => decide (w.treasury.treasuryValue.toRat? = some 100 ∧
      w.treasury.tokenMinted = 0 ∧ w.treasury.tokenStaked = 10 ∧
      w.treasury.backingPrice = 18446744073709551615)) (by decide +kernel)
  obtain ⟨hvalue, hminted, hstaked, hB⟩ := of_decide_eq_true hp
  refine ⟨es, w, hcalls, hrun, (bond_divisors_iff hrun _ _ _).1.mpr ?_⟩
  intro total _
  refine ⟨?_, ?_, ?_⟩
  · intro _
    refine ⟨100, hvalue, by norm_num, ?_⟩
    rw [hminted]
    show nearest ((0 : ℕ) : ℚ) ≤ 100
    simp
  · intro _
    rw [hB]
    right
    decide
  · intro _
    rw [hstaked]
    decide

/-- A treasury as `initialize` leaves it: the first bond, at a price of a hundred, panics at the
first division. -/
theorem first_bond_panics : ∃ total : Int64,
    usdcBuyer.Priced (smallDeployment .release) hundredFeeds ⟨50, 200⟩
      (.start (Initialize.world ⟨7⟩ smallLedger : World Double)) total ∧
    usdcBuyer.DividesByZero (smallDeployment .release) hundredFeeds ⟨50, 200⟩
      (.start (Initialize.world ⟨7⟩ smallLedger : World Double)) ∧
    usdcBuyer.handle (smallDeployment .release) hundredFeeds ⟨50, 200⟩
      (.start (Initialize.world ⟨7⟩ smallLedger : World Double)) = .error .panic := by
  obtain ⟨l, hpaid⟩ := exists_ok
    (show
      (hundredFeeds.cpi 0 ⟨usdcBuyer.payment (smallDeployment .release) .usdc (50 * 1000000), []⟩
      smallLedger).toOption.isSome = true by decide +kernel)
  have hpriced : usdcBuyer.Priced (smallDeployment .release) hundredFeeds ⟨50, 200⟩
      (.start (Initialize.world ⟨7⟩ smallLedger : World Double)) 5000 :=
    ⟨rfl, rfl, .usdc, ⟨100, 0, 0⟩, l, rfl, fun h => absurd h (by decide), hpaid, rfl, rfl⟩
  have hzero : usdcBuyer.DividesByZero (smallDeployment .release) hundredFeeds ⟨50, 200⟩
      (.start (Initialize.world ⟨7⟩ smallLedger : World Double)) :=
    ⟨5000, hpriced, .backing (fun _ => by decide) F64.toU64_zero_div_zero⟩
  exact ⟨5000, hpriced, hzero, hzero.panics⟩

end Saturn
