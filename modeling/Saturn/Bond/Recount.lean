import Saturn.Program
import Saturn.Rebalance.Wallet
import Saturn.Bond.Pricing
import Saturn.Machine.Double

/-!
# A payment as the bond values it and as the recount does

`apply_bond` adds the mantissa of the price times the whole tokens paid to `treasury_value`, cast to
a double; a recount values the same tokens with the exponent as well, in a `u64`. So the two agree
where the exponent is zero and the cast is exact, and nowhere else, payments that are worth nothing
apart.
-/

namespace Saturn

open Machine

def Asset.collateral : Asset → Option Collateral
  | .sol => some .sol
  | .usdc => some .usdc
  | .wbtc => none

/-- The total price of the bond, and the worth of the holding `h'` after it, fit their types. -/
structure NothingOverflows (s : Asset) (price scale : Price) (args : ApplyBondArgs) (h' : UInt64) :
    Prop where
  total : price.price.toInt * args.tokenAmount.toNat < 2 ^ 63
  recount : h'.toNat / s.unit.toNat * price.price.toInt.toNat * 10 ^ scale.exponent.toInt.toNat
    < 2 ^ 64

section

variable {s : Asset} {price scale : Price} {args : ApplyBondArgs} {h h' : UInt64}

theorem NothingOverflows.toInt_total (hfits : NothingOverflows s price scale args h')
    (hprice : 0 ≤ price.price.toInt) : (price.price * args.tokenAmount.toInt64).toInt
      = price.price.toInt * args.tokenAmount.toNat := by
  have htotal := hfits.total
  rcases eq_or_lt_of_le hprice with hzero | hpos
  · have hp : price.price = 0 := Int64.toInt_inj.mp hzero.symm
    rw [hp, Int64.zero_mul]
    show (0 : ℤ) = 0 * _
    rw [zero_mul]
  · have hle : (args.tokenAmount.toNat : ℤ) ≤ price.price.toInt * args.tokenAmount.toNat :=
      le_mul_of_one_le_left (Int.natCast_nonneg _) hpos
    have hamount : args.tokenAmount.toInt64.toInt = args.tokenAmount.toNat :=
      toInt_toInt64_of_lt (by omega)
    rw [toInt_mul_of_fits, hamount]
    rw [hamount, fitsI64, decide_eq_true_eq]
    exact ⟨by linarith [mul_nonneg hprice (Int.natCast_nonneg args.tokenAmount.toNat)], htotal⟩

theorem NothingOverflows.worth_growth (hfits : NothingOverflows s price scale args h')
    (hprice : 0 ≤ price.price.toInt)
    (hadd : h'.toNat = h.toNat + args.tokenAmount.toNat * s.unit.toNat) :
    (worth h' s.unit price.price scale.exponent).toNat
      = (worth h s.unit price.price scale.exponent).toNat
        + args.tokenAmount.toNat * price.price.toInt.toNat * 10 ^ scale.exponent.toInt.toNat := by
  have hunit : 0 < s.unit.toNat := by cases s <;> decide
  have hwhole : h'.toNat / s.unit.toNat = h.toNat / s.unit.toNat + args.tokenAmount.toNat := by
    rw [hadd, Nat.add_mul_div_right _ _ hunit]
  have hrecount := hfits.recount
  rw [hwhole, add_mul, add_mul] at hrecount
  rw [toNat_worth hprice, toNat_worth hprice, hwhole, add_mul, add_mul,
    Nat.mod_eq_of_lt hrecount, Nat.mod_eq_of_lt (lt_of_le_of_lt (Nat.le_add_right _ _) hrecount)]

end

/-! ## What is added, and what a recount grows by -/

/-- What a bond adds to the value of the treasury: `total_price as f64`. -/
def bondAddend {F : Type} [F64 F] (price : Price) (args : ApplyBondArgs) : F :=
  F64.ofI64 (price.price * args.tokenAmount.toInt64)

section

variable {F : Type} [F64 F] {a : ApplyBond} {d : Deployment} {env : Env} {args : ApplyBondArgs}
  {x y : Exec F} {price : Price}

theorem treasuryValue_of_bond {c : Collateral} (hbond : a.handle d env args x = .ok y)
    (hc : Collateral.ofMint a.tokenMintAddress = some c)
    (hprice : env.getPriceNoOlderThan (a.priceUpdate c) 30 c.feedId = some price) :
    y.world.treasury.treasuryValue = x.world.treasury.treasuryValue + bondAddend price args := by
  obtain ⟨s, hs, rfl⟩ := ApplyBond.handle_eq_ok.mp hbond
  have hcoll : s.collateral = c := Option.some.inj (hs.collateral.symm.trans hc)
  have hread := hs.price
  rw [hcoll, hprice] at hread
  obtain rfl : price = s.price := Option.some.inj hread
  obtain ⟨htotal, -⟩ := Profile.mulI64_eq_ok.mp hs.total
  rw [bondAddend, ← htotal]
  rfl

end

variable {a : ApplyBond} {b : CalcuBalance} {d : Deployment} {env env' : Env}
  {args : ApplyBondArgs} {x y : Exec Double} {w w' : World Double} {r r' : CalcuBalance.Recount}

/-- A product of naturals, as a double, is ten times itself or more only if it is zero. -/
theorem nearest_eq_mul_pow_iff {m k : ℕ} :
    nearest m = (m * 10 ^ k : ℕ) ↔ m = 0 ∨ (k = 0 ∧ Representable m) := by
  rcases Nat.eq_zero_or_pos m with rfl | hpos
  · simp
  rw [or_iff_right hpos.ne', representable_iff]
  rcases Nat.eq_zero_or_pos k with rfl | hk
  · simp
  rw [iff_false_intro fun h : k = 0 ∧ _ => hk.ne' h.1, iff_false]
  intro heq
  have hone : (1 : ℚ) ≤ m := by exact_mod_cast hpos
  have htwice := nearest_le_two_mul (two_zpow_le_natCast hpos)
  have hten : (10 : ℚ) ≤ 10 ^ k := le_self_pow₀ (by norm_num) hk.ne'
  rw [heq] at htwice
  push_cast at htwice
  nlinarith

/-- A bond of whole tokens of SOL or USDC adds to the value of the treasury what the value of the
holding grows by from a recount without the tokens to one with them, if and only if the exponent
they scale by is zero and price times tokens is a number that a double can be, or price times tokens
is zero. -/
theorem bond_recount_agree_iff {s : Asset} {c : Collateral} {price scale : Price} {h h' : UInt64}
    (hc : s.collateral = some c) (hmint : Collateral.ofMint a.tokenMintAddress = s.collateral)
    (hbond : a.handle d env args x = .ok y)
    (hbondPrice : env.getPriceNoOlderThan (a.priceUpdate c) 30 c.feedId = some price)
    (hwithout : r.Accepted b d env' w) (hwith : r'.Accepted b d env' w')
    (hprice : s.reading b env' = some price) (hscale : s.scaledBy.reading b env' = some scale)
    (hbefore : s.balance b d w = some h) (hafter : s.balance b d w' = some h')
    (hadd : h'.toNat = h.toNat + args.tokenAmount.toNat * s.unit.toNat)
    (hfits : NothingOverflows s price scale args h') :
    y.world.treasury.treasuryValue = x.world.treasury.treasuryValue + bondAddend price args ∧
    ((bondAddend price args : Double).toRat? = some (((s.val r').toNat : ℚ) - (s.val r).toNat) ↔
      (scale.exponent = 0 ∧ Representable (price.price.toInt.toNat * args.tokenAmount.toNat : ℕ)) ∨
        price.price = 0 ∨ args.tokenAmount = 0) := by
  refine ⟨treasuryValue_of_bond hbond (hmint.trans hc) hbondPrice, ?_⟩
  obtain ⟨hp, he, hval⟩ := balanceValue_eq (s.balanceValue_eq_val hwithout hbefore hprice hscale)
  obtain ⟨-, -, hval'⟩ := balanceValue_eq (s.balanceValue_eq_val hwith hafter hprice hscale)
  have hgrowth := hfits.worth_growth hp hadd
  have htotal := hfits.toInt_total hp
  obtain ⟨p, hpn⟩ : ∃ p : ℕ, price.price.toInt = p := Int.eq_ofNat_of_zero_le hp
  obtain ⟨k, hkn⟩ : ∃ k : ℕ, scale.exponent.toInt = k := Int.eq_ofNat_of_zero_le he
  have hexponent : scale.exponent = 0 ↔ k = 0 := by
    rw [← Int32.toInt_inj, hkn]
    exact Int.natCast_eq_zero
  have hzero : price.price = 0 ↔ p = 0 := by
    rw [← Int64.toInt_inj, hpn]
    exact Int.natCast_eq_zero
  have hnone : args.tokenAmount = 0 ↔ args.tokenAmount.toNat = 0 := by
    rw [← UInt64.toNat_inj]
    rfl
  rw [hpn, hkn, Int.toNat_natCast, Int.toNat_natCast] at hgrowth
  rw [hpn] at htotal
  have haddend : (bondAddend price args : Double).toRat?
      = some (nearest (p * args.tokenAmount.toNat : ℕ)) := by
    rw [bondAddend, Double.toRat?_ofI64, htotal, ← Int.natCast_mul, Int.cast_natCast,
      rounded_of_nonneg (Nat.cast_nonneg _)]
  -- the two recounts differ by the exact product, scaled
  have hdiff : (((s.val r').toNat : ℚ) - (s.val r).toNat)
      = ((p * args.tokenAmount.toNat) * 10 ^ k : ℕ) := by
    rw [hval, hval', hgrowth]
    push_cast
    ring
  rw [haddend, hdiff, Option.some_inj, nearest_eq_mul_pow_iff, hexponent, hzero, hnone, hpn,
    Int.toNat_natCast, Nat.mul_eq_zero, or_comm]

/-! ### Fifty USDC at a price of a hundred -/

/-- Every feed reads a hundred, with this exponent. -/
def hundredEnv (signer : Pubkey) (exponent : Int32) : Env :=
  splEnv 0 [signer] fun _ => some ⟨100, 0, exponent⟩

/-- The treasury has `n` base units of USDC, and no wBTC. -/
def usdcHolding (n : UInt64) : Exec ℚ :=
  .start { smallWorld with
    ledger :=
      (smallLedger.setTokenAccount 12 ⟨usdcMint, 9, n⟩).setTokenAccount 16 ⟨wbtcMint, 9, 0⟩ }

/-- A treasury worth a thousand, with ten STF minted and one staked. -/
def countedWorld {F : Type} [F64 F] (l : Ledger) : World F where
  treasury := { (Treasury.default : Treasury F) with
    stakingIndex := 1
    treasuryValue := F64.lit 1000
    tokenMinted := 10
    tokenStaked := 1 }
  sequenceFlag := Initialize.sequenceFlag
  stakeAccounts _ := none
  escrows _ := none
  ledger := l

/-- It holds `n` base units of USDC. -/
def countedHolding {F : Type} [F64 F] (n : UInt64) : World F :=
  countedWorld
    ((smallLedger.setTokenAccount 12 ⟨usdcMint, 9, n⟩).setTokenAccount 16 ⟨wbtcMint, 9, 0⟩)

/-- A recount of `n` base units of USDC at a hundred. -/
def hundredRecount (n v : UInt64) (exponent : Int32) : CalcuBalance.Recount where
  solPrice := ⟨100, 0, exponent⟩
  usdcPrice := ⟨100, 0, exponent⟩
  wbtcPrice := ⟨100, 0, exponent⟩
  usdc := ⟨usdcMint, 9, n⟩
  wbtc := ⟨wbtcMint, 9, 0⟩
  solVal := 0
  usdcVal := v
  wbtcVal := 0

/-- At the exponent zero, bond and recounts agree on five thousand. -/
theorem bond_recount_agree_iff_zero : ∃ y : Exec Double,
    usdcBuyer.handle (smallDeployment .release) (hundredEnv 1 0) ⟨50, 200⟩
        (.start (countedWorld smallLedger)) = .ok y ∧
      y.world.treasury.treasuryValue = F64.lit 1000 + bondAddend ⟨100, 0, 0⟩ ⟨50, 200⟩ ∧
      (bondAddend ⟨100, 0, 0⟩ ⟨50, 200⟩ : Double).toRat? = some (((5500 : ℕ) : ℚ) - (500 : ℕ)) := by
  obtain ⟨y, hy⟩ := exists_ok
    (show (usdcBuyer.handle (smallDeployment .release) (hundredEnv 1 0) ⟨50, 200⟩
      (.start (countedWorld smallLedger : World Double))).toOption.isSome = true by decide +kernel)
  have hwithout : (hundredRecount 5000000 500 0).Accepted smallRecount (smallDeployment .release)
      (hundredEnv 9 0) (countedHolding 5000000 : World Double) :=
        ⟨rfl, rfl, rfl, rfl, rfl, rfl, rfl, rfl⟩
  have hwith : (hundredRecount 55000000 5500 0).Accepted smallRecount (smallDeployment .release)
      (hundredEnv 9 0) (countedHolding 55000000 : World Double) :=
        ⟨rfl, rfl, rfl, rfl, rfl, rfl, rfl, rfl⟩
  obtain ⟨hadded, hagree⟩ :=
    bond_recount_agree_iff (s := Asset.usdc) rfl rfl hy rfl hwithout hwith rfl rfl rfl
    rfl (by decide) ⟨by decide, by decide⟩
  have hexact : Representable (5000 : ℕ) := representable_natCast (by norm_num)
  exact ⟨y, hy, hadded, hagree.mpr (.inl ⟨rfl, hexact⟩)⟩

/-- At the exponent one the bond adds five thousand, and `usdc_val` grows by fifty thousand. -/
theorem bond_ignores_exponent : ∃ y : Exec Double,
    usdcBuyer.handle (smallDeployment .release) (hundredEnv 1 1) ⟨50, 200⟩
        (.start (countedWorld smallLedger)) = .ok y ∧
      (hundredRecount 5000000 5000 1).Accepted smallRecount (smallDeployment .release)
      (hundredEnv 9 1) (countedHolding 5000000 : World Double) ∧
      (hundredRecount 55000000 55000 1).Accepted smallRecount (smallDeployment .release)
      (hundredEnv 9 1) (countedHolding 55000000 : World Double) ∧
      y.world.treasury.treasuryValue = F64.lit 1000 + bondAddend ⟨100, 0, 1⟩ ⟨50, 200⟩ ∧
      (bondAddend ⟨100, 0, 1⟩ ⟨50, 200⟩ : Double).toRat? = some 5000 := by
  obtain ⟨y, hy, hvalue⟩ := exists_eq_ok (fun y : Exec Double =>
      decide (y.world.treasury.treasuryValue = F64.lit 1000 + bondAddend ⟨100, 0, 1⟩ ⟨50, 200⟩))
    (show (usdcBuyer.handle (smallDeployment .release) (hundredEnv 1 1) ⟨50, 200⟩
      (.start (countedWorld smallLedger))).toOption.any _ = true by decide +kernel)
  refine ⟨y, hy, ⟨rfl, rfl, rfl, rfl, rfl, rfl, rfl, rfl⟩, ⟨rfl, rfl, rfl, rfl, rfl, rfl, rfl, rfl⟩,
    of_decide_eq_true hvalue, ?_⟩
  decide +kernel

end Saturn
