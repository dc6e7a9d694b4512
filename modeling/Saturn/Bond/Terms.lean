import Saturn.Bond.Pricing
import Saturn.Program

/-!
# The terms of a bond and the spot price

The bond price is the backing price plus a share of the gap to the spot price. So it lies between
the two wherever there is a gap to share, that is where the spot price is not below the backing
price; below it the subtraction wraps and the bond price is far above either (`priced_between_iff`).
What the creator is promised never costs more than the payment, in any build.

Where nothing overflows the three numbers of a bond are monotone in the spot price
(`bond_terms_mono`): the deduction rises over its steps, with it the premium, and both quotients
follow the premium.
-/

namespace Saturn

open Machine

variable {B S S' T : UInt64}

/-! ## Between backing and spot price -/

theorem toNat_deduction_le (diff : UInt64) : (deduction diff).toNat ≤ 70 := by
  unfold deduction
  split_ifs
  all_goals decide

theorem toNat_premium_le_gap (h : B ≤ S) : (premium B S).toNat ≤ S.toNat - B.toNat := by
  have hsub : (S - B).toNat = S.toNat - B.toNat := toNat_sub_of_le (UInt64.le_iff_toNat_le.mp h)
  have hwrapped : ((S - B) * deduction ((S - B) * 100 / B)).toNat
      ≤ (S - B).toNat * (deduction ((S - B) * 100 / B)).toNat := toNat_mul_le
  have hshare := Nat.mul_le_mul_left (S - B).toNat (toNat_deduction_le ((S - B) * 100 / B))
  have hdiv : (premium B S).toNat = ((S - B) * deduction ((S - B) * 100 / B)).toNat / 100 :=
    UInt64.toNat_div _ _
  omega

/-- The bond price is between the two prices precisely where these are in order. -/
theorem bondPriceOf_between_iff : B ≤ bondPriceOf B S ∧ bondPriceOf B S ≤ S ↔ B ≤ S := by
  constructor
  · rintro ⟨hbacking, hspot⟩
    exact UInt64.le_trans hbacking hspot
  · intro h
    have hgap := toNat_premium_le_gap h
    have hle := UInt64.le_iff_toNat_le.mp h
    have hlt := S.toNat_lt
    have hsum : (bondPriceOf B S).toNat = B.toNat + (premium B S).toNat :=
      toNat_add_of_lt (show B.toNat + (premium B S).toNat < 2 ^ 64 by omega)
    constructor
    · rw [UInt64.le_iff_toNat_le, hsum]
      exact Nat.le_add_right _ _
    · rw [UInt64.le_iff_toNat_le, hsum]
      omega

/-- What the creator is promised costs no more than the total price. -/
theorem toNat_creatorRedeem_mul_le (hB : B ≠ 0) :
    (creatorRedeem B S T).toNat * (bondPriceOf B S).toNat ≤ T.toNat := by
  rw [creatorRedeem, UInt64.toNat_div, UInt64.toNat_div]
  calc (B * T).toNat / B.toNat / (bondPriceOf B S).toNat * (bondPriceOf B S).toNat
      ≤ (B * T).toNat / B.toNat := Nat.div_mul_le_self _ _
    _ ≤ B.toNat * T.toNat / B.toNat := Nat.div_le_div_right toNat_mul_le
    _ = T.toNat := Nat.mul_div_cancel_left _ (ne_zero_iff_toNat_pos.mp hB)

/-- Nor does the total price, wrapped or not, exceed the product it stands for. -/
theorem toNat_totalPriceOf_le {price : Price} (args : ApplyBondArgs) (h : 0 ≤ price.price.toInt) :
    ((totalPriceOf price args).toNat : ℤ) ≤ price.price.toInt * args.tokenAmount.toNat := by
  have hcast : (price.price.toUInt64.toNat : ℤ) = price.price.toInt := toNat_toUInt64_of_nonneg h
  have hmul : (totalPriceOf price args).toNat
      ≤ price.price.toUInt64.toNat * args.tokenAmount.toNat := by
    rw [totalPriceOf, Int64.toUInt64_mul, UInt64.toUInt64_toInt64]
    exact toNat_mul_le
  rw [← hcast]
  exact_mod_cast hmul

/-! ## Monotonicity -/

theorem deduction_mono {m n : UInt64} (h : m ≤ n) : (deduction m).toNat ≤ (deduction n).toNat := by
  have hle := UInt64.le_iff_toNat_le.mp h
  have h25 : (25 : UInt64).toNat = 25 := rfl
  have h50 : (50 : UInt64).toNat = 50 := rfl
  have h100 : (100 : UInt64).toNat = 100 := rfl
  -- a later step of `n` than of `m`, or the same one
  unfold deduction
  simp only [UInt64.lt_iff_toNat_lt, h25, h50, h100]
  split_ifs
  all_goals first | decide | omega

section Exact

variable (h : PricesExactly B S T) (h' : PricesExactly B S' T)

include h

theorem toNat_percent : ((S - B) * 100 / B).toNat = (S.toNat - B.toNat) * 100 / B.toNat := by
  have hmul : ((S - B) * 100).toNat = (S - B).toNat * 100 := toNat_mul_of_lt h.percent
  rw [UInt64.toNat_div, hmul, toNat_sub_of_le h.spot]

theorem toNat_premium : (premium B S).toNat
    = (S.toNat - B.toNat) * (deduction ((S - B) * 100 / B)).toNat / 100 := by
  rw [premium, UInt64.toNat_div, toNat_mul_of_lt h.share, toNat_sub_of_le h.spot]
  rfl

include h'

/-- A higher spot price, a higher premium: the gap widens and the deduction does not fall. -/
theorem premium_mono (hle : S ≤ S') : (premium B S).toNat ≤ (premium B S').toNat := by
  have hgap : S.toNat - B.toNat ≤ S'.toNat - B.toNat :=
    Nat.sub_le_sub_right (UInt64.le_iff_toNat_le.mp hle) _
  have hpercent : (S - B) * 100 / B ≤ (S' - B) * 100 / B := by
    rw [UInt64.le_iff_toNat_le, toNat_percent h, toNat_percent h']
    exact Nat.div_le_div_right (Nat.mul_le_mul_right _ hgap)
  rw [toNat_premium h, toNat_premium h']
  exact Nat.div_le_div_right (Nat.mul_le_mul hgap (deduction_mono hpercent))

theorem bondPriceOf_mono (hle : S ≤ S') : bondPriceOf B S ≤ bondPriceOf B S' := by
  rw [UInt64.le_iff_toNat_le, toNat_bondPriceOf h, toNat_bondPriceOf h']
  exact Nat.add_le_add_left (premium_mono h h' hle) _

theorem creatorRedeem_anti (hprice : bondPriceOf B S ≠ 0) (hB : B ≠ 0) (hle : S ≤ S') :
    creatorRedeem B S' T ≤ creatorRedeem B S T := by
  have hpos := Nat.mul_pos (ne_zero_iff_toNat_pos.mp hB) (ne_zero_iff_toNat_pos.mp hprice)
  have hmono := UInt64.le_iff_toNat_le.mp (bondPriceOf_mono h h' hle)
  rw [UInt64.le_iff_toNat_le, toNat_creatorRedeem h, toNat_creatorRedeem h']
  exact Nat.div_le_div_left (Nat.mul_le_mul_left _ hmono) hpos

theorem stakersMint_mono (hprice : bondPriceOf B S ≠ 0) (hprice' : bondPriceOf B S' ≠ 0)
    (hB : B ≠ 0) (hle : S ≤ S') : stakersMint B S T ≤ stakersMint B S' T := by
  have hBpos := ne_zero_iff_toNat_pos.mp hB
  have hpos := Nat.mul_pos hBpos (ne_zero_iff_toNat_pos.mp hprice)
  have hpos' := Nat.mul_pos hBpos (ne_zero_iff_toNat_pos.mp hprice')
  have hmono := premium_mono h h' hle
  rw [UInt64.le_iff_toNat_le, toNat_stakersMint h, toNat_stakersMint h',
    Nat.le_div_iff_mul_le hpos', toNat_bondPriceOf h']
  rw [toNat_bondPriceOf h] at hpos ⊢
  generalize (premium B S).toNat = p at *
  generalize (premium B S').toNat = p' at *
  -- `p / (B + p)` rises with `p`: the cross products differ by `(p' - p) * B`
  have hcross : p * (B.toNat + p') ≤ p' * (B.toNat + p) := by
    rw [Nat.mul_add, Nat.mul_add, Nat.mul_comm p' p]
    exact Nat.add_le_add_right (Nat.mul_le_mul_right _ hmono) _
  have hfloor := Nat.div_mul_le_self (p * T.toNat) (B.toNat * (B.toNat + p))
  refine Nat.le_of_mul_le_mul_right ?_ hpos
  calc p * T.toNat / (B.toNat * (B.toNat + p)) * (B.toNat * (B.toNat + p'))
        * (B.toNat * (B.toNat + p))
      = p * T.toNat / (B.toNat * (B.toNat + p)) * (B.toNat * (B.toNat + p))
        * (B.toNat * (B.toNat + p')) := by ring
    _ ≤ p * T.toNat * (B.toNat * (B.toNat + p')) := Nat.mul_le_mul_right _ hfloor
    _ = p * (B.toNat + p') * (T.toNat * B.toNat) := by ring
    _ ≤ p' * (B.toNat + p) * (T.toNat * B.toNat) := Nat.mul_le_mul_right _ hcross
    _ = p' * T.toNat * (B.toNat * (B.toNat + p)) := by ring

end Exact

/-! ## Accepted bonds -/

section

variable {F : Type} [F64 F] {a a' : ApplyBond} {d : Deployment} {env env' : Env}
  {args args' : ApplyBondArgs} {x : Exec F} {s s' : ApplyBond.Sale}

theorem ApplyBond.Sale.Accepted.terms_mk (h : s.Accepted a d env args x) :
    s.terms = ⟨x.world.treasury.backingPrice,
      bondPriceOf x.world.treasury.backingPrice args.spotPrice,
      stakersMint x.world.treasury.backingPrice args.spotPrice s.totalPrice.toUInt64,
      creatorRedeem x.world.treasury.backingPrice args.spotPrice s.totalPrice.toUInt64⟩ :=
  (bondTerms_eq_ok.mp h.terms).2.2.2

/-- For every accepted bond at a price that is not negative, in every build: its bond price lies
between backing and spot price, and the creator is promised no more than the payment buys, if and
only if the spot price is at least the backing price. -/
theorem priced_between_iff (h : s.Accepted a d env args x) (hprice : 0 ≤ s.price.price.toInt) :
    (x.world.treasury.backingPrice ≤ s.terms.bondPrice ∧ s.terms.bondPrice ≤ args.spotPrice ∧
      (s.terms.numTokenToRedeem.toNat * s.terms.bondPrice.toNat : ℤ)
        ≤ s.price.price.toInt * args.tokenAmount.toNat) ↔
      x.world.treasury.backingPrice ≤ args.spotPrice := by
  have hterms := h.terms_mk
  have htotal : s.totalPrice.toUInt64 = totalPriceOf s.price args :=
    h.totalPrice_eq h.collateral h.price
  have hredeem := toNat_creatorRedeem_mul_le (S := args.spotPrice) (T := s.totalPrice.toUInt64)
    h.terms_eq.1
  have hpaid := toNat_totalPriceOf_le args hprice
  rw [← htotal] at hpaid
  rw [hterms]
  constructor
  · rintro ⟨hbacking, hspot, -⟩
    exact bondPriceOf_between_iff.mp ⟨hbacking, hspot⟩
  · intro hle
    obtain ⟨hbacking, hspot⟩ := bondPriceOf_between_iff.mpr hle
    refine ⟨hbacking, hspot, le_trans ?_ hpaid⟩
    exact_mod_cast hredeem

/-- In a build that rejects overflow, of two bonds of one total price accepted in one state the one
at the higher spot price has the higher bond price, promises no more to its creator and mints no
less to the stakers. -/
theorem bond_terms_mono (hd : d.profile.overflowChecks = true) (h : s.Accepted a d env args x)
    (h' : s'.Accepted a' d env' args' x) (htotal : s'.totalPrice = s.totalPrice)
    (hle : args.spotPrice ≤ args'.spotPrice) :
    s.terms.bondPrice ≤ s'.terms.bondPrice ∧
      s'.terms.numTokenToRedeem ≤ s.terms.numTokenToRedeem ∧
      s.terms.numTokenToMint ≤ s'.terms.numTokenToMint := by
  obtain ⟨hB, hprice, hexact, -⟩ := h.terms_eq
  obtain ⟨-, hprice', hexact', -⟩ := h'.terms_eq
  have hE := hexact hd
  have hE' := hexact' hd
  rw [htotal] at hE'
  rw [h.terms_mk, h'.terms_mk, htotal]
  exact ⟨bondPriceOf_mono hE hE' hle, creatorRedeem_anti hE hE' hprice hB hle,
    stakersMint_mono hE hE' hprice hprice' hB hle⟩

end

/-! ### Spot prices around a backing price of a hundred -/

/-- The sale of fifty units at a price of a hundred, if it is accepted at the spot price. -/
theorem exists_smallSale (p : Profile) (spotPrice : UInt64)
    (h : ((usdcBond 0 100 50 spotPrice).perform
    (smallDeployment p) smallWorld).toOption.isSome = true) :
    ∃ s : ApplyBond.Sale, s.Accepted usdcBuyer (smallDeployment p) (usdcBond 0 100 50 spotPrice).env
      ⟨50, spotPrice⟩ (.start smallWorld) ∧ s.totalPrice = 5000 ∧ s.price.price = 100 := by
  obtain ⟨y, hy⟩ := Option.isSome_iff_exists.mp h
  cases hcall : (usdcBond 0 100 50 spotPrice).perform (smallDeployment p) smallWorld with
  | error e =>
      rw [hcall] at hy
      cases hy
  | ok z =>
      obtain ⟨s, hs, -⟩ := ApplyBond.handle_eq_ok.mp hcall
      have hc : s.collateral = .usdc := Option.some.inj hs.collateral.symm
      have hread := hs.price
      rw [hc] at hread
      have hprice : s.price = ⟨100, 0, 0⟩ := (Option.some.inj hread).symm
      obtain ⟨htotal, -⟩ := Profile.mulI64_eq_ok.mp hs.total
      refine ⟨s, hs, ?_, ?_⟩
      · rw [htotal, hprice]
        rfl
      · rw [hprice]

/-- At a spot price of two hundred the bond price is between the two. -/
theorem priced_between_iff_small : ∃ s : ApplyBond.Sale,
    s.Accepted usdcBuyer (smallDeployment .release) (usdcBond 0 100 50 200).env ⟨50, 200⟩
      (.start smallWorld) ∧
    100 ≤ s.terms.bondPrice ∧ s.terms.bondPrice ≤ 200 := by
  obtain ⟨s, hs, -, hprice⟩ := exists_smallSale .release 200 (by decide +kernel)
  have hpos : 0 ≤ s.price.price.toInt := by
    rw [hprice]
    decide
  have hB : smallWorld.treasury.backingPrice = 100 := by decide +kernel
  have hle : smallWorld.treasury.backingPrice ≤ 200 := by
    rw [hB]
    decide
  obtain ⟨hbacking, hspot, -⟩ := (priced_between_iff hs hpos).mpr hle
  rw [Exec.start_world, hB] at hbacking
  exact ⟨s, hs, hbacking, hspot⟩

/-- At a spot price of fifty a token costs a hundredth of `2 ^ 64`. -/
theorem bond_above_spot : ∃ s : ApplyBond.Sale,
    s.Accepted usdcBuyer (smallDeployment .release) (usdcBond 0 100 50 50).env ⟨50, 50⟩
      (.start smallWorld) ∧
    s.price.price = 100 ∧ smallWorld.treasury.backingPrice = 100 ∧
    s.terms.bondPrice = 184467440737095581 ∧ ¬ s.terms.bondPrice ≤ 50 := by
  obtain ⟨s, hs, -, hprice⟩ := exists_smallSale .release 50 (by decide +kernel)
  have hB : smallWorld.treasury.backingPrice = 100 := by decide +kernel
  have hbond : s.terms.bondPrice = 184467440737095581 := by
    rw [hs.terms_mk, Exec.start_world, hB]
    show bondPriceOf 100 50 = 184467440737095581
    decide
  refine ⟨s, hs, hprice, hB, hbond, ?_⟩
  rw [hbond]
  decide

/-- From a spot price of two hundred to one of three hundred the bond price rises. -/
theorem bond_terms_mono_small : ∃ s s' : ApplyBond.Sale,
    s.Accepted usdcBuyer (smallDeployment .checked) (usdcBond 0 100 50 200).env ⟨50, 200⟩
      (.start smallWorld) ∧
    s'.Accepted usdcBuyer (smallDeployment .checked) (usdcBond 0 100 50 300).env ⟨50, 300⟩
      (.start smallWorld) ∧
    s.terms.bondPrice ≤ s'.terms.bondPrice ∧
      s'.terms.numTokenToRedeem ≤ s.terms.numTokenToRedeem ∧
      s.terms.numTokenToMint ≤ s'.terms.numTokenToMint := by
  obtain ⟨s, hs, htotal, -⟩ := exists_smallSale .checked 200 (by decide +kernel)
  obtain ⟨s', hs', htotal', -⟩ := exists_smallSale .checked 300 (by decide +kernel)
  exact ⟨s, s', hs, hs', bond_terms_mono rfl hs hs' (htotal'.trans htotal.symm) (by decide)⟩

end Saturn
