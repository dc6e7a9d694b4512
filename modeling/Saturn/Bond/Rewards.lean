import Saturn.Program
import Saturn.Bond.Pricing

/-!
# What of a reward reaches the stakers

`apply_bond` mints `100 * num_token_to_mint` base units for the stakers and raises the staking index
by `num_token_to_mint / token_staked`: the hundredfold is in the one and not in the other. So all
but a rounding remainder reaches them only where the hundredfold is less than one unit per staked
unit, and the index does not move at all.
-/

namespace Saturn

open Machine

variable {F : Type} [F64 F] {a : ApplyBond} {d : Deployment} {env : Env} {args : ApplyBondArgs}
  {x y : Exec F} {c : Collateral} {price : Price}

/-- What is minted for the stakers beyond the rise of their claims. -/
def undistributed (x y : Exec F) (minted : UInt64) : ℤ :=
  minted.toNat - x.world.treasury.tokenStaked.toNat *
    (y.world.treasury.stakingIndex.toNat - x.world.treasury.stakingIndex.toNat : ℤ)

/-- The hundredfold of a reward of `m` that moves the index by `m / t` is distributed up to a
remainder of `t` only if nothing is distributed. -/
theorem hundredfold_lt_iff {m t : ℕ} (ht : 0 < t) :
    100 * m < t * (m / t) + t ↔ 100 * m < t := by
  have hdiv := Nat.div_add_mod m t
  have hmod := Nat.mod_lt m ht
  constructor
  · intro h
    rcases Nat.eq_zero_or_pos (m / t) with hzero | hpos
    · rw [hzero] at h
      omega
    · have hle : t ≤ t * (m / t) := Nat.le_mul_of_pos_right t hpos
      omega
  · intro h
    omega

/-- A reward of `m` whose hundredfold is minted is distributed up to a remainder of `t` if and only
if it is less than a hundredth of `t`, rounded up. -/
theorem remainder_iff {m t : ℕ} (ht : 0 < t) :
    (0 ≤ (100 * m - (t * (m / t) : ℕ) : ℤ) ∧ (100 * m - (t * (m / t) : ℕ) : ℤ) < t) ↔
      m < (t + 99) / 100 := by
  have hdiv := Nat.mul_div_le m t
  have hiff := hundredfold_lt_iff (m := m) ht
  constructor
  · intro h
    have h100 := hiff.mp (by omega)
    omega
  · intro h
    have hle := hiff.mpr (by omega)
    omega

/-- Without overflow, the hundredfold of the reward is minted and the index rises by the reward over
the staked units. -/
theorem ApplyBond.Sale.Accepted.undistributed_eq {s : ApplyBond.Sale}
    (hs : s.Accepted a d env args x) (hd : d.profile.overflowChecks = true) :
    undistributed x (s.result a d env args x) (s.terms.numTokenToMint * 100)
      = 100 * s.terms.numTokenToMint.toNat - (x.world.treasury.tokenStaked.toNat *
        (s.terms.numTokenToMint.toNat / x.world.treasury.tokenStaked.toNat) : ℕ) := by
  have hindex : (s.result a d env args x).world.treasury.stakingIndex.toNat
      = x.world.treasury.stakingIndex.toNat
        + s.terms.numTokenToMint.toNat / x.world.treasury.tokenStaked.toNat := by
    rw [← UInt64.toNat_div]
    exact toNat_add_of_lt (hs.index hd)
  have hhundred : (s.terms.numTokenToMint * 100).toNat = s.terms.numTokenToMint.toNat * 100 :=
    toNat_mul_of_lt (hs.reward hd)
  rw [undistributed, hindex, hhundred]
  push_cast
  ring

/-- For a bond accepted without overflow: what is minted for the stakers and does not reach them is
at least nothing and less than a unit per staked unit, if and only if the premium times the total
price is below a hundredth of the staked units, rounded up, times the backing price and the bond
price. -/
theorem rewards_distributed_iff (hd : d.profile.overflowChecks = true)
    (hc : Collateral.ofMint a.tokenMintAddress = some c)
    (hprice : env.getPriceNoOlderThan (a.priceUpdate c) 30 c.feedId = some price)
    (h : a.handle d env args x = .ok y) :
    ∃ r minted, y.trace = x.trace ++ [r, ⟨a.reward d minted, true⟩] ∧
      ((0 ≤ undistributed x y minted ∧
          undistributed x y minted < x.world.treasury.tokenStaked.toNat) ↔
        (premium x.world.treasury.backingPrice args.spotPrice).toNat *
            (totalPriceOf price args).toNat
          < (x.world.treasury.tokenStaked.toNat + 99) / 100 *
            (x.world.treasury.backingPrice.toNat *
              (bondPriceOf x.world.treasury.backingPrice args.spotPrice).toNat)) := by
  obtain ⟨s, hs, rfl⟩ := ApplyBond.handle_eq_ok.mp h
  obtain ⟨hB, hbond, hexact, hmint, -⟩ := hs.terms_eq
  refine ⟨_, s.terms.numTokenToMint * 100, rfl, ?_⟩
  rw [hs.undistributed_eq hd, remainder_iff (ne_zero_iff_toNat_pos.mp hs.staked), hmint,
    toNat_stakersMint (hexact hd), hs.totalPrice_eq hc hprice, Nat.div_lt_iff_lt_mul]
  exact Nat.mul_pos (ne_zero_iff_toNat_pos.mp hB) (ne_zero_iff_toNat_pos.mp hbond)

/-- Where ten thousand units are staked, a bond that mints twenty tokens to the stakers moves no
index. -/
theorem rewards_distributed_iff_small :
    ∃ y minted, (usdcBond 0 100 50 200).perform (smallDeployment .checked)
        { smallWorld with treasury := smallTreasury.setTokenStaked 10000 } = .ok y ∧
      0 ≤ undistributed
        (.start { smallWorld with treasury := smallTreasury.setTokenStaked 10000 }) y minted ∧
      undistributed
        (.start { smallWorld with treasury := smallTreasury.setTokenStaked 10000 }) y minted
          < 10000 := by
  obtain ⟨y, hy⟩ := exists_ok
    (show ((usdcBond 0 100 50 200).perform (smallDeployment .checked)
      { smallWorld with treasury := smallTreasury.setTokenStaked 10000 }).toOption.isSome = true by
        decide +kernel)
  obtain ⟨r, minted, -, hiff⟩ :=
    rewards_distributed_iff (c := .usdc) (a := usdcBuyer) rfl rfl rfl hy
  obtain ⟨hnonneg, hlt⟩ := hiff.mpr (by decide +kernel)
  exact ⟨y, minted, hy, hnonneg, hlt⟩

/-- Where one unit is staked, two thousand base units are minted and its claim rises by twenty. -/
theorem rewards_undistributed :
    ∃ y, (usdcBond 0 100 50 200).perform (smallDeployment .checked) smallWorld = .ok y ∧
      y.trace.getLast? = some ⟨usdcBuyer.reward (smallDeployment .checked) 2000, true⟩ ∧
      undistributed (.start smallWorld) y 2000 = 1980 ∧
      ¬ undistributed (.start smallWorld) y 2000 < smallWorld.treasury.tokenStaked.toNat := by
  obtain ⟨y, hy, hp⟩ := exists_eq_ok (fun y : Exec ℚ =>
      decide (y.trace.getLast? =
          some ⟨usdcBuyer.reward (smallDeployment .checked) 2000, true⟩) &&
        decide (undistributed (.start smallWorld) y 2000 = 1980))
    (show ((usdcBond 0 100 50 200).perform (smallDeployment .checked)
      smallWorld).toOption.any _ = true by decide +kernel)
  rw [Bool.and_eq_true, decide_eq_true_eq, decide_eq_true_eq] at hp
  refine ⟨y, hy, hp.1, hp.2, ?_⟩
  rw [hp.2]
  decide

end Saturn
