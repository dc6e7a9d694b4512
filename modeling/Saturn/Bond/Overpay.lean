import Saturn.Steps
import Saturn.Bond.Cashout
import Saturn.Rebalance.Placement
import Mathlib.Algebra.Order.Floor.Semifield

/-!
# Cash-outs and the backing of the tokens

`cashingout_reedem` pays ninety-nine hundredths of the backing to the user and five hundredths to
the fee wallet, four hundredths more than there is. Only rounding and saturation hide that: the two
payouts stay within the backing where it is below twenty base units, or below forty with little
behind the point, or so large that the payout to the user saturates (`payouts_le_iff`). A build that
wraps `token_minted * 100` prices the tokens even higher.

A cash-out of no more than the outstanding tokens leaves a value that is not negative where it stays
within its backing, or leaves the four hundredths; and so does every run of such cash-outs
(`cashout_covered`).
-/

namespace Saturn

open Machine Transition

/-! ## Ninety-nine and five hundredths, rounded down -/

/-- The two payouts for a value, each rounded down and saturated. -/
def payouts (v : ℚ) : ℕ := min ⌊v * 0.99⌋₊ maxU64 + min ⌊v * 0.05⌋₊ maxU64

section

variable {v x : ℚ}

theorem floor_twentieth (v : ℚ) : ⌊v * 0.05⌋₊ = ⌊v⌋₊ / 20 := by
  have hdiv : v * 0.05 = v / (20 : ℕ) := by
    push_cast
    ring
  rw [hdiv, Nat.floor_div_natCast]

/-- Where nothing saturates: ninety-nine hundredths against what a fee of `q` leaves of the floor
`n`. -/
theorem ninety_nine_lt_iff {n q : ℕ} (hn : n ≤ v) (hnext : v < n + 1) (hlo : 20 * q ≤ n)
    (hhi : n < 20 * q + 20) (hsmall : v * 0.99 < maxU64) :
    v * 0.99 < n - q + 1 ↔ v < 20 ∨ (v < 40 ∧ 99 * (v - n) < n) ∨ maxU64 + q ≤ n := by
  have hloQ : 20 * (q : ℚ) ≤ n := by exact_mod_cast hlo
  have hhiQ : (n : ℚ) + 1 ≤ 20 * q + 20 := by exact_mod_cast hhi
  rcases q with _ | _ | q
  · -- below twenty there is no fee
    constructor
    · intro _
      left
      push_cast at hhiQ
      linarith
    · intro _
      push_cast
      linarith
  · -- from twenty to forty the fee is one unit
    push_cast at hloQ hhiQ ⊢
    constructor
    · intro h
      right; left
      exact ⟨by linarith, by linarith⟩
    · rintro (h | ⟨-, h⟩ | h)
      · linarith
      · linarith
      · exfalso
        have hbig : (maxU64 : ℚ) + 1 ≤ n := by exact_mod_cast h
        have hmax : (100 : ℚ) ≤ maxU64 := by exact_mod_cast (by decide : 100 ≤ maxU64)
        linarith
  · -- from forty on, five hundredths are more than one hundredth
    push_cast at hloQ hhiQ ⊢
    have hq : (0 : ℚ) ≤ q := Nat.cast_nonneg q
    constructor
    · intro h
      exfalso
      linarith
    · rintro (h | ⟨h, -⟩ | h)
      · exfalso
        linarith
      · exfalso
        linarith
      · exfalso
        have hbig : (maxU64 : ℚ) + (q + 1 + 1) ≤ n := by exact_mod_cast h
        linarith

theorem payouts_le_iff (hv : 0 ≤ v) : (payouts v : ℚ) ≤ v ↔
    v < 20 ∨ (v < 40 ∧ 99 * (v - ⌊v⌋₊) < ⌊v⌋₊) ∨ maxU64 + ⌊v⌋₊ / 20 ≤ ⌊v⌋₊ := by
  have hfloor := Nat.floor_le hv
  have hnext := Nat.lt_floor_add_one v
  have h99 : 0 ≤ v * 0.99 := by positivity
  rw [← Nat.le_floor_iff hv, payouts, floor_twentieth]
  rcases lt_or_ge ⌊v * 0.99⌋₊ maxU64 with hlt | hge
  · -- nothing saturates
    have hfee : ⌊v⌋₊ / 20 ≤ ⌊v * 0.99⌋₊ := by
      rw [← floor_twentieth]
      exact Nat.floor_le_floor (by linarith)
    have hsmall : v * 0.99 < maxU64 := (Nat.floor_lt h99).mp hlt
    have hsplit : ⌊v * 0.99⌋₊ + ⌊v⌋₊ / 20 ≤ ⌊v⌋₊ ↔
        ⌊v * 0.99⌋₊ < ⌊v⌋₊ - ⌊v⌋₊ / 20 + 1 := by omega
    rw [min_eq_left hlt.le, min_eq_left (hfee.trans hlt.le), hsplit, Nat.floor_lt h99,
      ← ninety_nine_lt_iff hfloor hnext (by omega) (by omega) hsmall, Nat.cast_add,
      Nat.cast_sub (by omega), Nat.cast_one]
  · -- the payout to the user saturates, far beyond forty
    have hbig : (maxU64 : ℚ) ≤ v * 0.99 := (Nat.le_floor_iff h99).mp hge
    have hmax : (100 : ℚ) ≤ maxU64 := by exact_mod_cast (by decide : 100 ≤ maxU64)
    rw [min_eq_right hge]
    constructor
    · intro h
      right; right
      omega
    · rintro (h | ⟨h, -⟩ | h)
      · linarith
      · linarith
      · omega

theorem payouts_of_lt_two (hv : 0 ≤ v) (h : v * 0.99 < 2) : payouts v = ⌊v * 0.99⌋₊ := by
  have h99 : 0 ≤ v * 0.99 := by positivity
  have hfloor : ⌊v⌋₊ < 20 := (Nat.floor_lt hv).mpr (by push_cast; linarith)
  have huser : ⌊v * 0.99⌋₊ < 2 := (Nat.floor_lt h99).mpr (by exact_mod_cast h)
  have hmax : 2 ≤ maxU64 := by decide
  rw [payouts, floor_twentieth, Nat.div_eq_of_lt hfloor, Nat.zero_min, Nat.add_zero]
  exact min_eq_left (huser.le.trans hmax)

/-- Beyond half the value they are within `x` only as long as they come to one unit, or `x` is as
large as they can get. -/
theorem payouts_le_half_iff (hx : 0 ≤ x) (h : 2 * x ≤ v) : (payouts v : ℚ) ≤ x ↔
    v * 0.99 < 1 ∨ (1 ≤ x ∧ v * 0.99 < 2) ∨ (maxU64 + min (⌊v⌋₊ / 20) maxU64 : ℕ) ≤ x := by
  have hv : 0 ≤ v := by linarith
  have h99 : 0 ≤ v * 0.99 := by positivity
  have hmax : (1 : ℚ) ≤ (maxU64 + min (⌊v⌋₊ / 20) maxU64 : ℕ) := by
    exact_mod_cast Nat.le_add_right_of_le (by decide : 1 ≤ maxU64)
  rcases lt_or_ge (v * 0.99) 2 with htwo | htwo
  · rw [payouts_of_lt_two hv htwo]
    rcases lt_or_ge (v * 0.99) 1 with hone | hone
    · rw [Nat.floor_eq_zero.mpr hone]
      simp [hone, hx]
    · have hfloor : ⌊v * 0.99⌋₊ = 1 :=
        (Nat.floor_eq_iff h99).mpr ⟨by exact_mod_cast hone, by push_cast; linarith⟩
      rw [hfloor, Nat.cast_one]
      constructor
      · intro hle
        exact .inr (.inl ⟨hle, htwo⟩)
      · rintro (hlt | ⟨hle, -⟩ | hle)
        · linarith
        · exact hle
        · exact hmax.trans hle
  · rw [payouts, floor_twentieth]
    constructor
    · intro hle
      -- unless it saturates, the payout to the user alone exceeds half the value
      have hsat : maxU64 ≤ ⌊v * 0.99⌋₊ := by
        by_contra hlt
        have huser : 2 ≤ ⌊v * 0.99⌋₊ := Nat.le_floor htwo
        have hnext := Nat.lt_floor_add_one (v * 0.99)
        have hpart : (⌊v * 0.99⌋₊ : ℚ) ≤ x := by
          rw [min_eq_left (not_le.mp hlt).le] at hle
          exact le_trans (Nat.cast_le.mpr (Nat.le_add_right _ _)) hle
        have huserQ : (2 : ℚ) ≤ ⌊v * 0.99⌋₊ := by exact_mod_cast huser
        linarith
      rw [min_eq_right hsat] at hle
      exact .inr (.inr hle)
    · rintro (hlt | ⟨-, hlt⟩ | hle)
      · linarith
      · linarith
      · exact le_trans (Nat.cast_le.mpr (Nat.add_le_add_right (min_le_right _ _) _)) hle

end

/-! ## One cash-out -/

namespace CashingoutReedem

/-- The backing of `n` base units. -/
def backing (t : Treasury ℚ) (n : UInt64) : ℚ :=
  n.toNat * t.treasuryValue / (100 * t.tokenMinted.toNat)

/-- The same with the product of the supply as a build without overflow checks computes it. -/
def wrappedBacking (t : Treasury ℚ) (n : UInt64) : ℚ :=
  n.toNat * t.treasuryValue / (t.tokenMinted * 100).toNat

/-- There is a price, and a cash-out of `n` at it, with the CPIs `trace`, pays out of its
backing. -/
def Covered (a : CashingoutReedem) (d : Deployment) (t : Treasury ℚ) (n : UInt64)
    (trace : List CpiRecord) : Prop :=
  t.tokenMinted * 100 ≠ 0 ∧ ∃ p q : UInt64, trace =
      [⟨a.payout d a.userTokenAccount p, true⟩, ⟨a.payout d a.feeWalletTokenAccount q, true⟩] ∧
    (p.toNat + q.toNat : ℚ) ≤ backing t n

/-- There is a price. Where the product of the supply fits, the backing is below twenty base units,
or below forty with less than a ninety-ninth of it behind the point, or what five hundredths of it
leave is no `u64`. Where it wraps, the wrapped backing is below one unit, or it is below two and the
exact one is not below one, or the exact one exceeds the largest `u64` by the fee. -/
def PaysWithin (t : Treasury ℚ) (n : UInt64) : Prop :=
  t.tokenMinted * 100 ≠ 0 ∧
    if t.tokenMinted.toNat * 100 ≤ maxU64 then
      backing t n < 20 ∨
        (backing t n < 40 ∧ 99 * (backing t n - ⌊backing t n⌋₊) < ⌊backing t n⌋₊) ∨
        maxU64 + ⌊backing t n⌋₊ / 20 ≤ ⌊backing t n⌋₊
    else
      wrappedBacking t n * 0.99 < 1 ∨ (1 ≤ backing t n ∧ wrappedBacking t n * 0.99 < 2) ∨
        (maxU64 + min (⌊wrappedBacking t n⌋₊ / 20) maxU64 : ℕ) ≤ backing t n

variable {a : CashingoutReedem} {d : Deployment} {t : Treasury ℚ} {n : UInt64}

theorem backing_nonneg (ht : 0 ≤ t.treasuryValue) : 0 ≤ backing t n := by
  unfold backing
  positivity

theorem reedem_add_fee (t : Treasury ℚ) (n : UInt64) :
    ((reedem t n).toNat + (fee t n).toNat : ℚ) = payouts (wrappedBacking t n) := by
  have hvalue : cashingoutValue t (t.tokenMinted * 100) n = wrappedBacking t n := by
    rw [cashingoutValue, wrappedBacking, ofU64_rat, ofU64_rat, mul_div_assoc]
  rw [reedem, fee, hvalue, toNat_toU64_rat, toNat_toU64_rat, lit_rat, lit_rat, payouts,
    Nat.cast_add]

theorem wrappedBacking_of_fits (h : t.tokenMinted.toNat * 100 ≤ maxU64) :
    wrappedBacking t n = backing t n := by
  have hexact : (t.tokenMinted * 100).toNat = t.tokenMinted.toNat * 100 :=
    toNat_mul_of_lt (Nat.lt_of_le_of_lt h (by decide))
  rw [wrappedBacking, backing, hexact]
  push_cast
  rw [mul_comm (100 : ℚ)]

theorem two_mul_backing_le (ht : 0 ≤ t.treasuryValue) (hne : t.tokenMinted * 100 ≠ 0)
    (h : ¬ t.tokenMinted.toNat * 100 ≤ maxU64) : 2 * backing t n ≤ wrappedBacking t n := by
  have hmod : (t.tokenMinted * 100).toNat = t.tokenMinted.toNat * 100 % 2 ^ 64 :=
    UInt64.toNat_mul _ _
  have hpos := ne_zero_iff_toNat_pos.mp hne
  have hwraps : 1 ≤ t.tokenMinted.toNat * 100 / 2 ^ 64 := by
    have hmax : maxU64 = 2 ^ 64 - 1 := rfl
    omega
  have hhalf : 2 * (t.tokenMinted * 100).toNat ≤ 100 * t.tokenMinted.toNat := by omega
  have hhalfQ : 2 * ((t.tokenMinted * 100).toNat : ℚ) ≤ 100 * t.tokenMinted.toNat := by
    exact_mod_cast hhalf
  have hposQ : (0 : ℚ) < (t.tokenMinted * 100).toNat := by exact_mod_cast hpos
  have hnum : (0 : ℚ) ≤ n.toNat * t.treasuryValue := by positivity
  rw [backing, wrappedBacking, ← mul_div_assoc, div_le_div_iff₀ (by linarith) hposQ]
  calc 2 * (n.toNat * t.treasuryValue) * (t.tokenMinted * 100).toNat
      = n.toNat * t.treasuryValue * (2 * (t.tokenMinted * 100).toNat) := by ring
    _ ≤ n.toNat * t.treasuryValue * (100 * t.tokenMinted.toNat) :=
      mul_le_mul_of_nonneg_left hhalfQ hnum

/-- The two amounts stay within the backing iff the backing is at one of its two ends. -/
theorem reedem_add_fee_le_iff (ht : 0 ≤ t.treasuryValue) (hne : t.tokenMinted * 100 ≠ 0) :
    ((reedem t n).toNat + (fee t n).toNat : ℚ) ≤ backing t n ↔ PaysWithin t n := by
  have hx := backing_nonneg (n := n) ht
  rw [reedem_add_fee, PaysWithin, and_iff_right hne]
  split_ifs with hfits
  · rw [wrappedBacking_of_fits hfits]
    exact payouts_le_iff hx
  · exact payouts_le_half_iff hx (two_mul_backing_le ht hne hfits)

/-- The backing of no more than what is outstanding is no more than the value. -/
theorem backing_le_of_le {k : ℚ} (ht : 0 ≤ t.treasuryValue)
    (h : k * n.toNat ≤ 100 * t.tokenMinted.toNat) : k * backing t n ≤ t.treasuryValue := by
  rcases Nat.eq_zero_or_pos t.tokenMinted.toNat with hzero | hpos
  · rw [backing, hzero, Nat.cast_zero, mul_zero, div_zero, mul_zero]
    exact ht
  · have hposQ : (0 : ℚ) < 100 * t.tokenMinted.toNat := by positivity
    rw [backing, ← mul_div_assoc, div_le_iff₀ hposQ, ← mul_assoc, mul_comm t.treasuryValue]
    exact mul_le_mul_of_nonneg_right h ht

/-- The two amounts never come to more than a hundred and four hundredths of the wrapped backing. -/
theorem reedem_add_fee_le (ht : 0 ≤ t.treasuryValue) :
    ((reedem t n).toNat + (fee t n).toNat : ℚ) ≤ 1.04 * wrappedBacking t n := by
  have hv : 0 ≤ wrappedBacking t n := by
    unfold wrappedBacking
    positivity
  have huser := Nat.floor_le (a := wrappedBacking t n * 0.99) (by positivity)
  have hfee := Nat.floor_le (a := wrappedBacking t n * 0.05) (by positivity)
  have huser' : ((min ⌊wrappedBacking t n * 0.99⌋₊ maxU64 : ℕ) : ℚ)
      ≤ ⌊wrappedBacking t n * 0.99⌋₊ :=
    Nat.cast_le.mpr (min_le_left _ _)
  have hfee' : ((min ⌊wrappedBacking t n * 0.05⌋₊ maxU64 : ℕ) : ℚ) ≤ ⌊wrappedBacking t n * 0.05⌋₊ :=
    Nat.cast_le.mpr (min_le_left _ _)
  rw [reedem_add_fee, payouts, Nat.cast_add]
  linarith

end CashingoutReedem

/-! ## Runs -/

/-- A cash-out takes no more than the outstanding tokens, and pays within its backing or leaves four
hundredths of a product of the supply that fits; the total price of a bond is not negative, and a
recount finds no negative position. -/
def KeepsValue (w : World ℚ) (e : Event ℚ) : Prop :=
  match e.call.instruction with
  | .cashingoutReedem _ n =>
      n.toNat ≤ 100 * w.treasury.tokenMinted.toNat ∧
        (CashingoutReedem.PaysWithin w.treasury n ∨
          (w.treasury.tokenMinted.toNat * 100 ≤ maxU64 ∧
            1.04 * (n.toNat : ℚ) ≤ 100 * w.treasury.tokenMinted.toNat))
  | .applyBond a args => ∀ c price, Collateral.ofMint a.tokenMintAddress = some c →
      e.call.env.getPriceNoOlderThan (a.priceUpdate c) 30 c.feedId = some price →
      0 ≤ (price.price * args.tokenAmount.toInt64).toInt
  | .calcuBalance _ => 0 ≤ w.treasury.invested
  | _ => True

section

variable {d : Deployment} {w w' : World ℚ} {e : Event ℚ} {es : List (Event ℚ)}

/-- An accepted cash-out is paid out of its backing iff it pays within it. -/
theorem HandlerStep.covered_iff {a : CashingoutReedem} {n : UInt64} (h : HandlerStep d w e w')
    (hi : e.call.instruction = .cashingoutReedem a n) (hv : 0 ≤ w.treasury.treasuryValue) :
    a.Covered d w.treasury n e.trace ↔ CashingoutReedem.PaysWithin w.treasury n := by
  constructor
  · rintro ⟨hne, p, q, htrace, hle⟩
    rw [h.cashingoutReedem_trace hi] at htrace
    simp only [CashingoutReedem.payout, List.cons.injEq, CpiRecord.mk.injEq, Cpi.mk.injEq,
      CpiInstruction.transfer.injEq, and_true, true_and] at htrace
    obtain ⟨rfl, rfl⟩ := htrace
    exact (CashingoutReedem.reedem_add_fee_le_iff hv hne).mp hle
  · intro hpays
    exact ⟨hpays.1, _, _, h.cashingoutReedem_trace hi,
      (CashingoutReedem.reedem_add_fee_le_iff hv hpays.1).mpr hpays⟩

theorem CashingoutReedem.paid_le {t : Treasury ℚ} {n : UInt64} (ht : 0 ≤ t.treasuryValue)
    (hn : n.toNat ≤ 100 * t.tokenMinted.toNat)
    (h : PaysWithin t n ∨ (t.tokenMinted.toNat * 100 ≤ maxU64 ∧
      1.04 * (n.toNat : ℚ) ≤ 100 * t.tokenMinted.toNat)) :
    ((reedem t n).toNat + (fee t n).toNat : ℚ) ≤ t.treasuryValue := by
  rcases h with hpays | ⟨hfits, hless⟩
  · have hn' : 1 * (n.toNat : ℚ) ≤ 100 * t.tokenMinted.toNat := by
      rw [one_mul]
      exact_mod_cast hn
    have hbacking := backing_le_of_le ht hn'
    rw [one_mul] at hbacking
    exact ((reedem_add_fee_le_iff ht hpays.1).mpr hpays).trans hbacking
  · have hpaid := reedem_add_fee_le (n := n) ht
    rw [wrappedBacking_of_fits hfits] at hpaid
    exact hpaid.trans (backing_le_of_le ht hless)

/-- An admitted step keeps the value from falling below zero. -/
theorem KeepsValue.step (h : Guarded (HandlerStep d) KeepsValue w e w')
    (hv : 0 ≤ w.treasury.treasuryValue) : 0 ≤ w'.treasury.treasuryValue := by
  obtain ⟨hstep, hkeeps⟩ := h
  rw [KeepsValue] at hkeeps
  apply hstep.treasury_cases (motive := fun t => 0 ≤ t.treasuryValue)
  case initializeTreasury =>
    intro a _
    exact le_rfl
  case cashingoutReedem =>
    intro a n hi
    rw [hi] at hkeeps
    have hpaid := CashingoutReedem.paid_le hv hkeeps.1 hkeeps.2
    rw [Treasury.setCashout_treasuryValue, ofU64_rat, ofU64_rat]
    linarith
  case applyBond =>
    intro a args s hi hs
    rw [hi] at hkeeps
    obtain ⟨htotal, -⟩ := Profile.mulI64_eq_ok.mp hs.total
    have hadded : (0 : ℚ) ≤ s.totalPrice.toInt := by
      rw [htotal]
      exact_mod_cast hkeeps s.collateral s.price hs.collateral hs.price
    rw [ApplyBond.Sale.treasury_treasuryValue, ofI64_rat]
    linarith
  case calcuBalance =>
    intro a r hi _
    rw [hi] at hkeeps
    rw [CalcuBalance.Recount.treasury_treasuryValue, ofU64_rat, ofU64_rat, ofU64_rat]
    have hinvested : 0 ≤ w.treasury.marginfiLendValue + w.treasury.kaminoLendValue
      + w.treasury.meteoraDepositValue + w.treasury.jupiterPerpsValue := hkeeps
    positivity
  -- the other instructions leave the value
  all_goals
    intros
    exact hv

/-- An accepted cash-out is paid out of its backing if and only if it pays within it; and every run
in which each cash-out takes no more than what is outstanding, and pays within its backing or leaves
four hundredths, keeps the value of the treasury from falling below zero. -/
theorem cashout_covered (d : Deployment) :
    (∀ (w w' : World ℚ) (e : Event ℚ) (a : CashingoutReedem) (n : UInt64),
      HandlerStep d w e w' → e.call.instruction = .cashingoutReedem a n →
      0 ≤ w.treasury.treasuryValue → 1 ≤ w.treasury.tokenMinted.toNat →
      (a.Covered d w.treasury n e.trace ↔ CashingoutReedem.PaysWithin w.treasury n)) ∧
    ∀ (w₀ : World ℚ) (es : List (Event ℚ)) (w : World ℚ),
      Run (Guarded (HandlerStep d) KeepsValue) w₀ es w →
      0 ≤ w₀.treasury.treasuryValue → 0 ≤ w.treasury.treasuryValue := by
  refine ⟨?_, ?_⟩
  · intro w w' e a n hstep hi hv _
    exact hstep.covered_iff hi hv
  · intro w₀ es w hrun hv
    exact hrun.invariant (fun v => 0 ≤ v.treasury.treasuryValue) hv
      fun _ _ _ hstep hv' => KeepsValue.step hstep hv'

end

/-! ### Of three thousand units, all and fourteen fifteenths -/

/-- A bond that leaves three thousand base units outstanding and a value of six thousand, then a
cash-out. -/
theorem exists_bond_cashout (n : UInt64) (v : ℚ)
    (h : (replay (fun c w => c.perform (smallDeployment .release) w) feeWorld
        [usdcBond 0 100 50 200]).any (fun r =>
      decide (r.2.treasury.treasuryValue = 6000 ∧ r.2.treasury.tokenMinted = 30) &&
        (replay (fun c w => c.perform (smallDeployment .release) w) r.2 [usdcCashout n]).any
          fun q => decide (q.2.treasury.treasuryValue = v)) = true) :
    ∃ (e f : Event ℚ) (w₁ w₂ : World ℚ), e.call = usdcBond 0 100 50 200 ∧ f.call = usdcCashout n ∧
      HandlerStep (smallDeployment .release) feeWorld e w₁ ∧
      HandlerStep (smallDeployment .release) w₁ f w₂ ∧ w₁.treasury.treasuryValue = 6000 ∧
      w₁.treasury.tokenMinted = 30 ∧ w₂.treasury.treasuryValue = v := by
  obtain ⟨⟨es, w₁⟩, hreplay, hp⟩ := (Option.any_eq_true _ _).mp h
  obtain ⟨hrun, hcalls⟩ := run_of_replay hreplay
  rw [Bool.and_eq_true, decide_eq_true_eq] at hp
  obtain ⟨⟨hvalue, hminted⟩, hrest⟩ := hp
  obtain ⟨⟨fs, w₂⟩, hreplay', hp'⟩ := (Option.any_eq_true _ _).mp hrest
  obtain ⟨hrun', hcalls'⟩ := run_of_replay hreplay'
  obtain ⟨e, rfl, he⟩ := List.map_eq_singleton_iff.mp hcalls
  obtain ⟨f, rfl, hf⟩ := List.map_eq_singleton_iff.mp hcalls'
  obtain ⟨w, hstep, hnil⟩ := hrun.split_cons
  obtain ⟨w', hstep', hnil'⟩ := hrun'.split_cons
  rw [Run.nil_iff] at hnil hnil'
  subst hnil hnil'
  exact ⟨e, f, _, _, he, hf, hstep, hstep', hvalue, hminted, of_decide_eq_true hp'⟩

/-- Cashing out 2800 of the three thousand pays 5824 for a backing of 5600, and leaves 176. -/
theorem cashout_covered_most : ∃ (e f : Event ℚ) (w₁ w₂ : World ℚ),
    e.call = usdcBond 0 100 50 200 ∧ f.call = usdcCashout 2800 ∧
      Run (HandlerStep (smallDeployment .release)) feeWorld [e, f] w₂ ∧
      (∀ a, f.call.instruction = .cashingoutReedem a 2800 →
        (a.Covered (smallDeployment .release) w₁.treasury 2800 f.trace ↔
          CashingoutReedem.PaysWithin w₁.treasury 2800)) ∧
      0 ≤ w₂.treasury.treasuryValue := by
  obtain ⟨e, f, w₁, w₂, he, hf, hbond, hcash, hvalue, hminted, -⟩ :=
    exists_bond_cashout 2800 176 (by decide +kernel)
  have hkeeps : KeepsValue feeWorld e := by
    rw [KeepsValue, he]
    intro c price hc hprice
    cases hprice
    decide
  have hkeeps' : KeepsValue w₁ f := by
    rw [KeepsValue, hf]
    refine ⟨?_, .inr ⟨?_, ?_⟩⟩
    · rw [hminted]
      decide
    · rw [hminted]
      decide
    · rw [hminted]
      show 1.04 * ((2800 : ℕ) : ℚ) ≤ 100 * (30 : ℕ)
      norm_num
  refine ⟨e, f, w₁, w₂, he, hf, .cons hbond (.single hcash), ?_, ?_⟩
  · intro a ha
    exact (cashout_covered _).1 _ _ _ _ _ hcash ha (by rw [hvalue]; norm_num)
      (by rw [hminted]; decide)
  · exact (cashout_covered _).2 _ [e, f] _ (.cons ⟨hbond, hkeeps⟩ (.single ⟨hcash, hkeeps'⟩))
      (by decide +kernel)

/-- Cashing out all three thousand pays 6240, and leaves a value below zero. -/
theorem cashout_beyond_backing : ∃ (e f : Event ℚ) (w₁ w₂ : World ℚ),
    e.call = usdcBond 0 100 50 200 ∧ f.call = usdcCashout 3000 ∧
      HandlerStep (smallDeployment .release) feeWorld e w₁ ∧
      HandlerStep (smallDeployment .release) w₁ f w₂ ∧
      w₁.treasury.treasuryValue = 6000 ∧ w₁.treasury.tokenMinted = 30 ∧
      (∀ a, f.call.instruction = .cashingoutReedem a 3000 →
        ¬ a.Covered (smallDeployment .release) w₁.treasury 3000 f.trace) ∧
      w₂.treasury.treasuryValue = -240 := by
  obtain ⟨e, f, w₁, w₂, he, hf, hbond, hcash, hvalue, hminted, hnegative⟩ :=
    exists_bond_cashout 3000 (-240) (by decide +kernel)
  refine ⟨e, f, w₁, w₂, he, hf, hbond, hcash, hvalue, hminted, ?_, hnegative⟩
  intro a ha
  have hbacking : CashingoutReedem.backing w₁.treasury 3000 = (6000 : ℕ) := by
    rw [CashingoutReedem.backing, hvalue, hminted]
    show ((3000 : ℕ) : ℚ) * 6000 / (100 * (30 : ℕ)) = (6000 : ℕ)
    norm_num
  rw [hcash.covered_iff ha (by rw [hvalue]; norm_num), CashingoutReedem.PaysWithin, hbacking,
    Nat.floor_natCast, if_pos (by rw [hminted]; decide)]
  norm_num [maxU64]

end Saturn
