import Saturn.Instructions.Bond
import Mathlib.Tactic.Ring

/-!
# The pricing of a bond

`bondTerms` computes with wrapping `u64`s, checked or not according to the build. This module reads
its result back as functions of the backing price `B`, the spot price `S` and the total price `T`,
and gives the two bounds the rest of the development rests on:

* in every build no more tokens are minted to the stakers than base units of value are paid
  (`toNat_stakersMint_le`);
* without overflow, what is minted and what is redeemed is together worth at most the payment at the
  backing price (`backing_mul_le`).
-/

namespace Saturn

open Machine

variable {p : Profile} {B S T : UInt64} {t : BondTerms}

/-- `(spot_price - backing_price) * deduction / 100`. -/
def premium (B S : UInt64) : UInt64 := (S - B) * deduction ((S - B) * 100 / B) / 100

/-- `bond_price` -/
def bondPriceOf (B S : UInt64) : UInt64 := B + premium B S

/-- `num_token_to_mint` -/
def stakersMint (B S T : UInt64) : UInt64 := premium B S * T / B / bondPriceOf B S

/-- `num_token_to_redeem` -/
def creatorRedeem (B S T : UInt64) : UInt64 := B * T / B / bondPriceOf B S

/-- `total_price as u64` -/
def totalPriceOf (price : Price) (args : ApplyBondArgs) : UInt64 :=
  (price.price * args.tokenAmount.toInt64).toUInt64

/-- No operation of the pricing leaves `u64`. -/
structure PricesExactly (B S T : UInt64) : Prop where
  spot : B.toNat ≤ S.toNat
  percent : (S - B).toNat * 100 < 2 ^ 64
  share : (S - B).toNat * (deduction ((S - B) * 100 / B)).toNat < 2 ^ 64
  bond : B.toNat + (premium B S).toNat < 2 ^ 64
  mint : (premium B S).toNat * T.toNat < 2 ^ 64
  redeem : B.toNat * T.toNat < 2 ^ 64

theorem bondPriceOf_sub : bondPriceOf B S - B = premium B S := by
  rw [bondPriceOf, UInt64.add_comm]
  exact UInt64.add_sub_cancel _ _

theorem bondTerms_eq_ok : (bondTerms p B S T : Except Failure BondTerms) = .ok t ↔
    B ≠ 0 ∧ bondPriceOf B S ≠ 0 ∧ (p.overflowChecks = true → PricesExactly B S T) ∧
      t = ⟨B, bondPriceOf B S, stakersMint B S T, creatorRedeem B S T⟩ := by
  simp only [bondTerms, bind_eq_ok, Profile.sub_eq_ok, Profile.mul_eq_ok, div_eq_ok,
    Profile.add_eq_ok, pure_eq_ok]
  constructor
  · rintro ⟨_, ⟨rfl, hspot⟩, _, ⟨rfl, hpercent⟩, _, ⟨hB, rfl⟩, _, ⟨rfl, -⟩, _, ⟨rfl, hshare⟩, _,
      ⟨-, rfl⟩, _, ⟨rfl, hbond⟩, _, ⟨rfl, -⟩, _, ⟨rfl, hmint⟩, _, ⟨-, rfl⟩, _, ⟨hprice, rfl⟩, _,
      ⟨rfl, hredeem⟩, _, ⟨-, rfl⟩, _, ⟨-, rfl⟩, rfl⟩
    have hsub : B + (S - B) * deduction ((S - B) * 100 / B) / 100 - B = premium B S :=
      bondPriceOf_sub
    rw [hsub] at hmint ⊢
    exact ⟨hB, hprice, fun h => ⟨hspot h, hpercent h, hshare h, hbond h, hmint h, hredeem h⟩, rfl⟩
  · rintro ⟨hB, hprice, hexact, rfl⟩
    refine ⟨_, ⟨rfl, fun h => (hexact h).spot⟩, _, ⟨rfl, fun h => (hexact h).percent⟩, _,
      ⟨hB, rfl⟩, _, ⟨rfl, fun h => (hexact h).spot⟩, _, ⟨rfl, fun h => (hexact h).share⟩, _,
      ⟨by decide, rfl⟩, _, ⟨rfl, fun h => (hexact h).bond⟩, _, ⟨rfl, ?_⟩, _, ⟨rfl, ?_⟩, _,
      ⟨hB, rfl⟩, _, ⟨hprice, rfl⟩, _, ⟨rfl, fun h => (hexact h).redeem⟩, _, ⟨hB, rfl⟩, _,
      ⟨hprice, rfl⟩, ?_⟩
    · intro h
      have hsum := toNat_add_of_lt (hexact h).bond
      show B.toNat ≤ (B + premium B S).toNat
      omega
    · intro h
      have hsub : bondPriceOf B S - B = premium B S := bondPriceOf_sub
      show (bondPriceOf B S - B).toNat * T.toNat < 2 ^ 64
      rw [hsub]
      exact (hexact h).mint
    · have hsub : bondPriceOf B S - B = premium B S := bondPriceOf_sub
      show _ = BondTerms.mk B (bondPriceOf B S) (premium B S * T / B / bondPriceOf B S) _
      rw [← hsub]
      rfl

/-! ## Bounds that hold in every build -/

theorem toNat_premium_lt : (premium B S).toNat < 2 ^ 63 := by
  rw [premium, UInt64.toNat_div]
  have h := UInt64.toNat_lt ((S - B) * deduction ((S - B) * 100 / B))
  have h100 : (100 : UInt64).toNat = 100 := rfl
  rw [h100]
  omega

/-- Even a bond price that wrapped leaves the premium below backing price times bond price. -/
theorem toNat_premium_le (hB : B ≠ 0) (hprice : bondPriceOf B S ≠ 0) :
    (premium B S).toNat ≤ B.toNat * (bondPriceOf B S).toNat := by
  have hBpos := ne_zero_iff_toNat_pos.mp hB
  have hpos := ne_zero_iff_toNat_pos.mp hprice
  by_cases hfits : B.toNat + (premium B S).toNat < 2 ^ 64
  · have hsum : (bondPriceOf B S).toNat = B.toNat + (premium B S).toNat := toNat_add_of_lt hfits
    calc (premium B S).toNat ≤ (bondPriceOf B S).toNat := by omega
      _ ≤ B.toNat * (bondPriceOf B S).toNat := Nat.le_mul_of_pos_left _ hBpos
  · have hlt := toNat_premium_lt (B := B) (S := S)
    calc (premium B S).toNat ≤ B.toNat := by omega
      _ ≤ B.toNat * (bondPriceOf B S).toNat := Nat.le_mul_of_pos_right _ hpos

theorem toNat_stakersMint_mul_le :
    (stakersMint B S T).toNat * (B.toNat * (bondPriceOf B S).toNat)
      ≤ (premium B S).toNat * T.toNat := by
  rw [stakersMint, UInt64.toNat_div, UInt64.toNat_div, Nat.div_div_eq_div_mul]
  calc _ ≤ (premium B S * T).toNat := Nat.div_mul_le_self _ _
    _ ≤ (premium B S).toNat * T.toNat := toNat_mul_le

/-- No more whole tokens are minted to the stakers than the total price counts. -/
theorem toNat_stakersMint_le (hB : B ≠ 0) (hprice : bondPriceOf B S ≠ 0) :
    (stakersMint B S T).toNat ≤ T.toNat := by
  have hBpos := ne_zero_iff_toNat_pos.mp hB
  have hpos := ne_zero_iff_toNat_pos.mp hprice
  have hmul := toNat_stakersMint_mul_le (B := B) (S := S) (T := T)
  have hle := Nat.mul_le_mul_right T.toNat (toNat_premium_le hB hprice)
  have hchain := hmul.trans hle
  rw [Nat.mul_comm] at hchain
  exact Nat.le_of_mul_le_mul_left hchain (Nat.mul_pos hBpos hpos)

/-! ## Bounds without overflow -/

section Exact

variable (h : PricesExactly B S T)

include h

theorem toNat_bondPriceOf : (bondPriceOf B S).toNat = B.toNat + (premium B S).toNat :=
  toNat_add_of_lt h.bond

theorem toNat_stakersMint : (stakersMint B S T).toNat
    = (premium B S).toNat * T.toNat / (B.toNat * (bondPriceOf B S).toNat) := by
  rw [stakersMint, UInt64.toNat_div, UInt64.toNat_div, toNat_mul_of_lt h.mint,
    Nat.div_div_eq_div_mul]

theorem toNat_creatorRedeem : (creatorRedeem B S T).toNat
    = B.toNat * T.toNat / (B.toNat * (bondPriceOf B S).toNat) := by
  rw [creatorRedeem, UInt64.toNat_div, UInt64.toNat_div, toNat_mul_of_lt h.redeem,
    Nat.div_div_eq_div_mul]

/-- At the backing price, both shares of a bond are together worth at most the payment. -/
theorem backing_mul_le (hprice : bondPriceOf B S ≠ 0) :
    B.toNat * ((stakersMint B S T).toNat + (creatorRedeem B S T).toNat) ≤ T.toNat := by
  have hpos := ne_zero_iff_toNat_pos.mp hprice
  have hsum := toNat_bondPriceOf h
  rw [toNat_stakersMint h, toNat_creatorRedeem h]
  have hmint := Nat.div_mul_le_self ((premium B S).toNat * T.toNat)
    (B.toNat * (bondPriceOf B S).toNat)
  have hredeem := Nat.div_mul_le_self (B.toNat * T.toNat) (B.toNat * (bondPriceOf B S).toNat)
  generalize (premium B S).toNat * T.toNat / (B.toNat * (bondPriceOf B S).toNat) = m at *
  generalize B.toNat * T.toNat / (B.toNat * (bondPriceOf B S).toNat) = r at *
  refine Nat.le_of_mul_le_mul_left ?_ hpos
  calc (bondPriceOf B S).toNat * (B.toNat * (m + r))
      = m * (B.toNat * (bondPriceOf B S).toNat) + r * (B.toNat * (bondPriceOf B S).toNat) := by
        ring
    _ ≤ (premium B S).toNat * T.toNat + B.toNat * T.toNat := Nat.add_le_add hmint hredeem
    _ = (bondPriceOf B S).toNat * T.toNat := by
        rw [hsum]
        ring

end Exact

/-! ## The terms of an accepted bond -/

namespace ApplyBond.Sale.Accepted

variable {F : Type} [F64 F] {a : ApplyBond} {d : Deployment} {env : Env} {args : ApplyBondArgs}
  {x : Exec F} {s : Sale}

theorem terms_eq (h : s.Accepted a d env args x) :
    x.world.treasury.backingPrice ≠ 0 ∧
      bondPriceOf x.world.treasury.backingPrice args.spotPrice ≠ 0 ∧
      (d.profile.overflowChecks = true →
        PricesExactly x.world.treasury.backingPrice args.spotPrice s.totalPrice.toUInt64) ∧
      s.terms.numTokenToMint =
        stakersMint x.world.treasury.backingPrice args.spotPrice s.totalPrice.toUInt64 ∧
      s.terms.numTokenToRedeem =
        creatorRedeem x.world.treasury.backingPrice args.spotPrice s.totalPrice.toUInt64 := by
  obtain ⟨hB, hprice, hexact, ht⟩ := bondTerms_eq_ok.mp h.terms
  rw [ht]
  exact ⟨hB, hprice, hexact, rfl, rfl⟩

theorem totalPrice_eq {c : Collateral} {price : Price} (h : s.Accepted a d env args x)
    (hc : Collateral.ofMint a.tokenMintAddress = some c)
    (hprice : env.getPriceNoOlderThan (a.priceUpdate c) 30 c.feedId = some price) :
    s.totalPrice.toUInt64 = totalPriceOf price args := by
  have hcoll : s.collateral = c := Option.some.inj (h.collateral.symm.trans hc)
  have hread : s.price = price := by
    have hread := h.price
    rw [hcoll, hprice] at hread
    exact (Option.some.inj hread).symm
  obtain ⟨htotal, -⟩ := Profile.mulI64_eq_ok.mp h.total
  rw [htotal, hread, totalPriceOf]

/-- The scaled payment leaves no room for an amount that `as i64` would change. -/
theorem amount_lt (h : s.Accepted a d env args x) (hd : d.profile.overflowChecks = true) :
    args.tokenAmount.toNat < 2 ^ 63 := by
  have hscaled := h.scaled hd
  have hscale : 1000 ≤ s.collateral.scale.toNat := by cases s.collateral <;> decide
  have hmul := Nat.mul_le_mul_left args.tokenAmount.toNat hscale
  omega

/-- At a positive price the total price is not negative, and its two casts agree. -/
theorem toNat_totalPrice (h : s.Accepted a d env args x) (hd : d.profile.overflowChecks = true)
    (hpos : 0 < s.price.price.toInt) :
    (s.totalPrice.toUInt64.toNat : ℤ) = s.totalPrice.toInt := by
  obtain ⟨htotal, hfits⟩ := Profile.mulI64_eq_ok.mp h.total
  have hamount := toInt_toInt64_of_lt (h.amount_lt hd)
  apply toNat_toUInt64_of_nonneg
  rw [htotal, toInt_mul_of_fits (hfits hd), hamount]
  positivity

end ApplyBond.Sale.Accepted

end Saturn
