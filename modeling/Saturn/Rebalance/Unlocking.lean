import Saturn.Rebalance.Vaults
import Mathlib.Data.Nat.Cast.Order.Field

/-!
# Profit that a vault releases

A Meteora vault releases the profit of its last report by and by, in proportion to the seconds since
(`LockedProfitTracker`), and converts between tokens and shares at what is released.

* What is released follows a straight line up to the whole, but for less than a token, and never
  falls (`getUnlockedAmount_line`).
* Converting tokens to shares and back gives nothing away, and takes less than a share is worth and
  one token (`Vault.convert_back`).
* Where only time passes, the value that Saturn reads off a Meteora position never falls, and
  follows the line (`GetValueInMeteora.value_over_time`).
-/

namespace Saturn

open Machine

variable {v : Vault} {t t' n out share supply : UInt64}

/-! ## Over time -/

/-- The part of the profit that is still locked, times the denominator. -/
def LockedProfitTracker.lockedRatio (k : LockedProfitTracker) (time : UInt64) : ℕ :=
  lockedProfitDegradationDenominator - (time.toNat - k.lastReport.toNat)
    * k.lockedProfitDegradation.toNat

theorem LockedProfitTracker.calculateLockedProfit_eq_some {k : LockedProfitTracker} :
    k.calculateLockedProfit t = some n ↔ k.lastReport.toNat ≤ t.toNat ∧
      n.toNat = k.lastUpdatedLockedProfit.toNat * k.lockedRatio t
        / lockedProfitDegradationDenominator := by
  unfold calculateLockedProfit lockedRatio
  simp only [UInt64.le_iff_toNat_le]
  split
  case isFalse hlate => simp [hlate]
  case isTrue hle =>
    have hprofit := k.lastUpdatedLockedProfit.toNat_lt
    rw [and_iff_right hle, ← UInt64.toNat_sub_of_le _ _ (UInt64.le_iff_toNat_le.mpr hle)]
    split
    case isTrue hover =>
      rw [Nat.sub_eq_zero_of_le hover.le, mul_zero, Nat.zero_div, Option.some.injEq,
        ← UInt64.toNat_inj, eq_comm]
      rfl
    case isFalse hwithin =>
      have hlt : k.lastUpdatedLockedProfit.toNat * (lockedProfitDegradationDenominator
          - (t - k.lastReport).toNat * k.lockedProfitDegradation.toNat)
            / lockedProfitDegradationDenominator < 2 ^ 64 := by
        apply lt_of_le_of_lt _ hprofit
        apply Nat.div_le_of_le_mul
        rw [mul_comm]
        exact Nat.mul_le_mul_right _ (Nat.sub_le _ _)
      rw [Option.some.injEq, ← UInt64.toNat_inj, UInt64.toNat_ofNat', Nat.mod_eq_of_lt hlt, eq_comm]

theorem Vault.getUnlockedAmount_eq_some : v.getUnlockedAmount t = some n ↔
    ∃ locked, v.lockedProfitTracker.calculateLockedProfit t = some locked ∧
      n.toNat + locked.toNat = v.totalAmount.toNat := by
  simp only [Vault.getUnlockedAmount, Option.bind_eq_bind, Option.bind_eq_some_iff,
    Option.ite_none_right_eq_some, Option.some.injEq]
  constructor
  · rintro ⟨locked, hlocked, hle, rfl⟩
    have hle := UInt64.le_iff_toNat_le.mp hle
    exact ⟨locked, hlocked, by rw [toNat_sub_of_le hle]; omega⟩
  · rintro ⟨locked, hlocked, hsum⟩
    have hle : locked.toNat ≤ v.totalAmount.toNat := by omega
    refine ⟨locked, hlocked, UInt64.le_iff_toNat_le.mpr hle, ?_⟩
    rw [← UInt64.toNat_inj, toNat_sub_of_le hle]
    omega

/-- What is released at a time, on the straight line. -/
def Vault.released (v : Vault) (time : UInt64) : ℚ :=
  v.totalAmount.toNat - v.lockedProfitTracker.lastUpdatedLockedProfit.toNat
    * v.lockedProfitTracker.lockedRatio time / lockedProfitDegradationDenominator

theorem LockedProfitTracker.lockedRatio_anti {k : LockedProfitTracker} (h : t ≤ t') :
    k.lockedRatio t' ≤ k.lockedRatio t := by
  have hle := UInt64.le_iff_toNat_le.mp h
  apply Nat.sub_le_sub_left
  exact Nat.mul_le_mul_right _ (by omega)

/-- Once a vault answers, it answers at all later times, and never less: what it has released is on
the line, rounded up. -/
theorem Vault.getUnlockedAmount_line (h : v.getUnlockedAmount t = some n) (hle : t ≤ t') :
    ∃ n', v.getUnlockedAmount t' = some n' ∧ n ≤ n' ∧ (n'.toNat : ℤ) = ⌈v.released t'⌉ := by
  obtain ⟨locked, hlocked, hsum⟩ := getUnlockedAmount_eq_some.mp h
  obtain ⟨hreport, hlocked⟩ := LockedProfitTracker.calculateLockedProfit_eq_some.mp hlocked
  have htime := UInt64.le_iff_toNat_le.mp hle
  let left :=
    v.lockedProfitTracker.lastUpdatedLockedProfit.toNat * v.lockedProfitTracker.lockedRatio t'
      / lockedProfitDegradationDenominator
  have hleft : left ≤ locked.toNat := by
    rw [hlocked]
    exact Nat.div_le_div_right (Nat.mul_le_mul_left _ (LockedProfitTracker.lockedRatio_anti hle))
  have hleftNat : (UInt64.ofNat left).toNat = left := by
    have hlt := locked.toNat_lt
    rw [UInt64.toNat_ofNat', Nat.mod_eq_of_lt (by omega)]
  have hbound := v.totalAmount.toNat_lt
  have hn' : (UInt64.ofNat (v.totalAmount.toNat - left)).toNat = v.totalAmount.toNat - left := by
    rw [UInt64.toNat_ofNat', Nat.mod_eq_of_lt (by omega)]
  refine ⟨UInt64.ofNat (v.totalAmount.toNat - left), ?_, ?_, ?_⟩
  · refine getUnlockedAmount_eq_some.mpr ⟨UInt64.ofNat left, ?_, by omega⟩
    exact LockedProfitTracker.calculateLockedProfit_eq_some.mpr ⟨by omega, hleftNat⟩
  · rw [UInt64.le_iff_toNat_le]
    omega
  · have hfloor : ⌊(v.lockedProfitTracker.lastUpdatedLockedProfit.toNat
        * v.lockedProfitTracker.lockedRatio t' / lockedProfitDegradationDenominator : ℚ)⌋
          = left := by
      rw [← Nat.cast_mul, Rat.floor_natCast_div_natCast]
      rfl
    rw [hn', released, sub_eq_add_neg, Int.ceil_natCast_add, Int.ceil_neg, hfloor]
    omega

/-! ## Shares -/

/-- `u128` arithmetic on `a * b / c`, and its conversion to `u64`. -/
def mulDivU64 (a b c : UInt64) : Option UInt64 :=
  if c = 0 then none
  else if a.toNat * b.toNat / c.toNat < 2 ^ 64 then
    some (UInt64.ofNat (a.toNat * b.toNat / c.toNat))
  else none

theorem mulDivU64_eq_some {a b c : UInt64} : mulDivU64 a b c = some n ↔
    0 < c.toNat ∧ n.toNat = a.toNat * b.toNat / c.toNat := by
  unfold mulDivU64
  split
  case isTrue hzero => simp [hzero]
  case isFalse hne =>
    have hpos := ne_zero_iff_toNat_pos.mp hne
    have hbound := n.toNat_lt
    rw [and_iff_right hpos, Option.ite_none_right_eq_some, Option.some.injEq]
    constructor
    · rintro ⟨hlt, rfl⟩
      rw [UInt64.toNat_ofNat', Nat.mod_eq_of_lt hlt]
    · intro heq
      rw [← heq]
      exact ⟨hbound, UInt64.ofNat_toNat⟩

/-- `Vault::get_amount_by_share`. -/
def Vault.getAmountByShare (v : Vault) (currentTime share totalSupply : UInt64) :
    Option UInt64 := do
  let totalAmount ← v.getUnlockedAmount currentTime
  mulDivU64 share totalAmount totalSupply

/-- `Vault::get_unmint_amount`. -/
def Vault.getUnmintAmount (v : Vault) (currentTime outToken totalSupply : UInt64) :
    Option UInt64 := do
  let totalAmount ← v.getUnlockedAmount currentTime
  mulDivU64 outToken totalSupply totalAmount

theorem Vault.getAmountByShare_eq_some : v.getAmountByShare t share supply = some n ↔
    ∃ total, v.getUnlockedAmount t = some total ∧ 0 < supply.toNat ∧
      n.toNat = share.toNat * total.toNat / supply.toNat := by
  simp only [getAmountByShare, Option.bind_eq_bind, Option.bind_eq_some_iff, mulDivU64_eq_some]

theorem Vault.getUnmintAmount_eq_some : v.getUnmintAmount t out supply = some n ↔
    ∃ total, v.getUnlockedAmount t = some total ∧ 0 < total.toNat ∧
      n.toNat = out.toNat * supply.toNat / total.toNat := by
  simp only [getUnmintAmount, Option.bind_eq_bind, Option.bind_eq_some_iff, mulDivU64_eq_some]

/-- Tokens converted to shares, and these back at any later time: at the same time, no more than
there were, and never less by what a share was worth and a token. Shares converted to tokens, and
these back at any later time, are no more than there were. -/
theorem Vault.convert_back (hle : t ≤ t') :
    (∀ out shares back, v.getUnmintAmount t out supply = some shares →
      v.getAmountByShare t' shares supply = some back → (t = t' → back ≤ out) ∧
        ∃ total, v.getUnlockedAmount t = some total ∧
          out.toNat * supply.toNat < (back.toNat + 1) * supply.toNat + total.toNat) ∧
    ∀ shares tokens back, v.getAmountByShare t shares supply = some tokens →
      v.getUnmintAmount t' tokens supply = some back → back ≤ shares := by
  constructor
  · -- shares taken for tokens, then turned back into tokens
    intro out shares back hunmint hamount
    obtain ⟨total, htotal, hpos, hshares⟩ := getUnmintAmount_eq_some.mp hunmint
    obtain ⟨total', htotal', hsupply, hback⟩ := getAmountByShare_eq_some.mp hamount
    obtain ⟨grown, hgrown, hmono, -⟩ := getUnlockedAmount_line htotal hle
    obtain rfl : grown = total' := Option.some.inj (hgrown.symm.trans htotal')
    have hmono := UInt64.le_iff_toNat_le.mp hmono
    have hlower : shares.toNat * total.toNat ≤ out.toNat * supply.toNat := by
      rw [hshares]
      exact Nat.div_mul_le_self _ _
    have hupper : out.toNat * supply.toNat < (shares.toNat + 1) * total.toNat := by
      rw [hshares, mul_comm (_ + 1)]
      exact Nat.lt_mul_div_succ _ hpos
    have hgrow : shares.toNat * total.toNat ≤ shares.toNat * grown.toNat :=
      Nat.mul_le_mul_left _ hmono
    have hworth : shares.toNat * grown.toNat < (back.toNat + 1) * supply.toNat := by
      rw [hback, mul_comm (_ + 1)]
      exact Nat.lt_mul_div_succ _ hsupply
    refine ⟨?_, total, htotal, by linarith⟩
    rintro rfl
    obtain rfl : total = grown := Option.some.inj (htotal.symm.trans hgrown)
    rw [UInt64.le_iff_toNat_le, hback]
    apply Nat.div_le_of_le_mul
    rw [mul_comm supply.toNat]
    exact hlower
  · -- tokens taken for shares, then turned back into shares
    intro shares tokens back hamount hunmint
    obtain ⟨total, htotal, hsupply, htokens⟩ := getAmountByShare_eq_some.mp hamount
    obtain ⟨total', htotal', hpos, hback⟩ := getUnmintAmount_eq_some.mp hunmint
    obtain ⟨grown, hgrown, hmono, -⟩ := getUnlockedAmount_line htotal hle
    obtain rfl : grown = total' := Option.some.inj (hgrown.symm.trans htotal')
    have hmono := UInt64.le_iff_toNat_le.mp hmono
    rw [UInt64.le_iff_toNat_le, hback]
    apply Nat.div_le_of_le_mul
    calc tokens.toNat * supply.toNat ≤ shares.toNat * total.toNat := by
          rw [htokens]
          exact Nat.div_mul_le_self _ _
      _ ≤ shares.toNat * grown.toNat := Nat.mul_le_mul_left _ hmono
      _ = grown.toNat * shares.toNat := mul_comm _ _

/-- A hundred tokens, thirty of them profit that is released in a hundred seconds. -/
def releasingVault : Vault := ⟨100, ⟨30, 0, 10000000000⟩⟩

/-- Forty of seventy released tokens, of a hundred shares: fifty-seven, and these at once are
thirty-nine. -/
theorem Vault.convert_back_forty :
    ∃ shares back, releasingVault.getUnmintAmount 0 40 100 = some shares ∧
    releasingVault.getAmountByShare 0 shares 100 = some back ∧ back ≤ 40 := by
  have hshares : releasingVault.getUnmintAmount 0 40 100 = some 57 := by decide +kernel
  have hback : releasingVault.getAmountByShare 0 57 100 = some 39 := by decide +kernel
  obtain ⟨hle, -⟩ := (Vault.convert_back (UInt64.le_refl 0)).1 40 57 39 hshares hback
  exact ⟨57, 39, hshares, hback, hle rfl⟩

/-! ## The value of a position -/

section

variable {a : GetValueInMeteora} {d : Deployment} {env env' : Env} {x : Exec Double}
  {value value' : Double}

theorem GetValueInMeteora.toNat_amount (hp : d.profile.overflowChecks = true) {lp amount n : UInt64}
    (hfits : 2 * n.toNat * pricePrecision < 2 ^ 64 * a.pool.totalLockedLp.toNat)
    (h : (d.profile.mul lp
      (UInt64.ofNat (2 * n.toNat * pricePrecision / a.pool.totalLockedLp.toNat))
      : Except Failure UInt64) = .ok amount) :
    amount.toNat = lp.toNat * (2 * n.toNat * pricePrecision / a.pool.totalLockedLp.toNat) := by
  have hpos : 0 < a.pool.totalLockedLp.toNat :=
    Nat.pos_of_ne_zero fun hzero => by simp [hzero] at hfits
  have hprice : 2 * n.toNat * pricePrecision / a.pool.totalLockedLp.toNat < 2 ^ 64 :=
    (Nat.div_lt_iff_lt_mul hpos).mpr hfits
  obtain ⟨rfl, hchecked⟩ := Profile.mul_eq_ok.mp h
  have hlt := hchecked hp
  rw [toNat_mul_of_lt hlt, UInt64.toNat_ofNat', Nat.mod_eq_of_lt hprice]

/-- While the accounts stay as they are, the value of a position never falls from one time to a
later one. It is the double closest to an amount, and that is the one of the tokens at the price on
the line, but for the price of a token and a unit of the price. -/
theorem GetValueInMeteora.value_over_time (hp : d.profile.overflowChecks = true)
    (htime : env.clock.unixTimestamp ≤ env'.clock.unixTimestamp) (h : a.handle d env x = .ok value)
    (h' : a.handle d env' x = .ok value') :
    ∃ (amount amount' : UInt64) (lp : TokenAccount),
      x.world.ledger.tokenAccount a.userPoolLp = some lp ∧
      value.toRat? = some (nearest amount.toNat) ∧ value'.toRat? = some (nearest amount'.toNat) ∧
      amount ≤ amount' ∧ nearest amount.toNat ≤ nearest amount'.toNat ∧
      let price (tokens : ℚ) : ℚ := 2 * tokens * pricePrecision / a.pool.totalLockedLp.toNat
      lp.amount.toNat * (price (a.aVault.data.released env'.clock.unixTimestamp.toUInt64) - 1)
        ≤ amount'.toNat ∧
      amount'.toNat
        ≤ lp.amount.toNat
          * price (a.aVault.data.released env'.clock.unixTimestamp.toUInt64 + 1) := by
  obtain ⟨hnow, n, hn, hfits, lp, amount, hlp, hamount, rfl⟩ := handle_eq_ok.mp h
  obtain ⟨hnow', n', hn', hfits', lp', amount', hlp', hamount', rfl⟩ := handle_eq_ok.mp h'
  obtain rfl : lp = lp' := Option.some.inj (hlp.symm.trans hlp')
  have hle : env.clock.unixTimestamp.toUInt64 ≤ env'.clock.unixTimestamp.toUInt64 := by
    have hcast := toNat_toUInt64_of_nonneg hnow
    have hcast' := toNat_toUInt64_of_nonneg hnow'
    have htime := Int64.le_iff_toInt_le.mp htime
    rw [UInt64.le_iff_toNat_le]
    omega
  -- what is unlocked is the straight line between the two, rounded up
  obtain ⟨grown, hgrown, hmono, hline⟩ := Vault.getUnlockedAmount_line hn hle
  obtain rfl : grown = n' := Option.some.inj (hgrown.symm.trans hn')
  have hmono := UInt64.le_iff_toNat_le.mp hmono
  have hpos' : 0 < a.pool.totalLockedLp.toNat :=
    Nat.pos_of_ne_zero fun hzero => by simp [hzero] at hfits
  have hpos : (0 : ℚ) < a.pool.totalLockedLp.toNat := Nat.cast_pos.mpr hpos'
  have hline : (grown.toNat : ℚ)
      = (⌈a.aVault.data.released env'.clock.unixTimestamp.toUInt64⌉ : ℤ) := by
    rw [← hline, Int.cast_natCast]
  have hlower : a.aVault.data.released env'.clock.unixTimestamp.toUInt64 ≤ grown.toNat :=
    hline ▸ Int.le_ceil _
  have hupper : (grown.toNat : ℚ) ≤ a.aVault.data.released env'.clock.unixTimestamp.toUInt64 + 1 :=
    hline ▸ (Int.ceil_lt_add_one _).le
  have hgrows : amount.toNat ≤ amount'.toNat := by
    rw [toNat_amount hp hfits hamount, toNat_amount hp hfits' hamount']
    apply Nat.mul_le_mul_left
    apply Nat.div_le_div_right
    exact Nat.mul_le_mul_right _ (Nat.mul_le_mul_left _ hmono)
  refine ⟨amount, amount', lp, hlp, Double.toRat?_ofU64 _, Double.toRat?_ofU64 _,
    UInt64.le_iff_toNat_le.mpr hgrows, nearest_mono (Nat.cast_nonneg _) (Nat.cast_le.mpr hgrows),
    ?_, ?_⟩
  · rw [toNat_amount hp hfits' hamount', Nat.cast_mul]
    apply mul_le_mul_of_nonneg_left _ (Nat.cast_nonneg _)
    -- the division drops less than one
    have hprice : (2 * grown.toNat * pricePrecision : ℚ)
        ≤ a.pool.totalLockedLp.toNat
          * ((2 * grown.toNat * pricePrecision / a.pool.totalLockedLp.toNat : ℕ) + 1) := by
      exact_mod_cast (Nat.lt_mul_div_succ (2 * grown.toNat * pricePrecision) hpos').le
    rw [sub_le_iff_le_add, div_le_iff₀ hpos, mul_comm (_ + _)]
    refine le_trans ?_ hprice
    gcongr
  · rw [toNat_amount hp hfits' hamount', Nat.cast_mul]
    apply mul_le_mul_of_nonneg_left _ (Nat.cast_nonneg _)
    refine le_trans Nat.cast_div_le ?_
    push_cast
    gcongr

/-- Seventy released tokens at first, eighty-five after fifty seconds. -/
theorem GetValueInMeteora.value_over_time_fifty :
    ∃ (value value' : Double) (amount amount' : UInt64),
      (vaultsIn releasingVault releasingVault 200000000000000).handle (smallDeployment .checked)
      (splEnv 0 [9] fun _ => none) (.start (lpWorld 100)) = .ok value ∧
    (vaultsIn releasingVault releasingVault 200000000000000).handle (smallDeployment .checked)
      (splEnv 50 [9] fun _ => none) (.start (lpWorld 100)) = .ok value' ∧
    value.toRat? = some (nearest amount.toNat) ∧ value'.toRat? = some (nearest amount'.toNat) ∧
      amount ≤ amount' := by
  obtain ⟨value, h⟩ := exists_ok
    (show ((vaultsIn releasingVault releasingVault 200000000000000).handle
      (smallDeployment .checked) (splEnv 0 [9] fun _ => none)
      (.start (lpWorld 100))).toOption.isSome = true by decide +kernel)
  obtain ⟨value', h'⟩ := exists_ok
    (show ((vaultsIn releasingVault releasingVault 200000000000000).handle
      (smallDeployment .checked) (splEnv 50 [9] fun _ => none)
      (.start (lpWorld 100))).toOption.isSome = true by decide +kernel)
  obtain ⟨amount, amount', -, -, hvalue, hvalue', hle, -⟩ :=
    GetValueInMeteora.value_over_time rfl (by decide) h h'
  exact ⟨value, value', amount, amount', h, h', hvalue, hvalue', hle⟩

end

end Saturn
