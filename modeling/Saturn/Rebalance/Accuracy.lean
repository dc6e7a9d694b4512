import Saturn.Rebalance.Placement
import Saturn.Machine.Decimal
import Saturn.Machine.Double
import Mathlib.Tactic.FieldSimp

/-!
# How accurate a recount is

Read exactly, a balance is worth balance times price times power of ten over the base units in one
token. A recount drops the tokens below a whole one and refuses negative exponents, which are the
ones Pyth publishes; the power of ten of USDC comes from the reading of SOL; and what it computed is
rounded to a double and added up in doubles. So a recount is accurate only under narrow conditions
on its inputs (`recount_accurate_iff`), and what it records of USDC depends on the reading of SOL
(`priced_by_own_feed_iff`).
-/

namespace Saturn

open Machine

namespace Asset

variable {s : Asset} {p : Profile} {h : UInt64} {q scale : Price}

/-! ## The exact worth -/

def whole (s : Asset) (h : UInt64) (q : Price) : ℕ := h.toNat / s.unit.toNat * q.price.toInt.toNat

/-- What the base units beyond the whole tokens are worth. -/
def rest (s : Asset) (h : UInt64) (q : Price) : ℚ :=
  (h.toNat % s.unit.toNat : ℕ) * q.price.toInt * 10 ^ q.exponent.toInt / s.unit.toNat

/-- Whole tokens times price, times the power of ten that is applied. -/
def scaled (s : Asset) (h : UInt64) (q scale : Price) : ℕ :=
  s.whole h q * 10 ^ scale.exponent.toInt.toNat

end Asset

section

variable {a : CalcuBalance} {d : Deployment} {env : Env} {x y : Exec Double} {h : Asset → UInt64}
  {q : Asset → Price} {qs rs : List ℚ}

end

/-- Every feed reads 130 dollars the way Pyth publishes it. -/
def pythPrice : Price := ⟨13000000000, 0, -8⟩

section

variable {a a' : CalcuBalance} {d d' : Deployment} {env env' : Env} {x x' y y' : Exec Double}
  {h : UInt64} {q scale scale' : Price}

/-- Two recounts agree on the balance of the asset and on the reading of its own feed. -/
def Asset.Agree (s : Asset) (a : CalcuBalance) (d : Deployment) (env : Env) (x : Exec Double)
    (a' : CalcuBalance) (d' : Deployment) (env' : Env) (x' : Exec Double) : Prop :=
  s.balance a' d' x'.world = s.balance a d x.world ∧ s.reading a' env' = s.reading a env

/-- The products that two exponents give are the same as far as a recount records them: the
exponents agree, or there is nothing to scale, or a product wraps and what is left of the two rounds
to one double. -/
def Asset.ScaledAlike (s : Asset) (h : UInt64) (q scale scale' : Price) : Prop :=
  scale.exponent = scale'.exponent ∨ s.whole h q = 0 ∨
    (2 ^ 64 ≤ s.scaled h q scale ∨ 2 ^ 64 ≤ s.scaled h q scale') ∧
      nearest (s.scaled h q scale % 2 ^ 64 : ℕ) = nearest (s.scaled h q scale' % 2 ^ 64 : ℕ)

theorem Asset.scaledAlike_iff (s : Asset) (he : 0 ≤ scale.exponent.toInt)
    (he' : 0 ≤ scale'.exponent.toInt) :
    s.ScaledAlike h q scale scale' ↔
      nearest (s.scaled h q scale % 2 ^ 64 : ℕ) = nearest (s.scaled h q scale' % 2 ^ 64 : ℕ) := by
  have hexponent : scale.exponent.toInt.toNat = scale'.exponent.toInt.toNat ↔
      scale.exponent = scale'.exponent := by
    rw [← Int32.toInt_inj]
    omega
  rw [ScaledAlike]
  constructor
  · rintro (heq | hzero | ⟨-, halike⟩)
    · rw [scaled, scaled, heq]
    · rw [scaled, scaled, hzero, Nat.zero_mul, Nat.zero_mul]
    · exact halike
  · intro halike
    by_cases hfits : s.scaled h q scale < 2 ^ 64 ∧ s.scaled h q scale' < 2 ^ 64
    · -- without wrapping two powers of ten are told apart
      rw [Nat.mod_eq_of_lt hfits.1, Nat.mod_eq_of_lt hfits.2, scaled, scaled] at halike
      push_cast at halike
      rw [nearest_scale_eq_iff, hexponent] at halike
      exact halike.imp_right .inl
    · exact .inr (.inr ⟨by omega, halike⟩)

/-- Two recounts that agree on an asset value it alike if and only if the exponents that they scale
it by make no difference. -/
theorem Asset.value_eq_iff (s : Asset) (hrec : a.handle d env x = .ok y)
    (hrec' : a'.handle d' env' x' = .ok y') (hagree : s.Agree a d env x a' d' env' x')
    (hbalance : s.balance a d x.world = some h) (hreading : s.reading a env = some q)
    (hscale : s.scaledBy.reading a env = some scale)
    (hscale' : s.scaledBy.reading a' env' = some scale') :
    s.value y.world.treasury = s.value y'.world.treasury ↔ s.ScaledAlike h q scale scale' := by
  obtain ⟨hp, he, hvalue⟩ := s.value_of_recount hrec hbalance hreading hscale
  obtain ⟨-, he', hvalue'⟩ := s.value_of_recount hrec' (hagree.1.trans hbalance)
    (hagree.2.trans hreading) hscale'
  rw [hvalue, hvalue', Double.ofU64_inj, toNat_worth hp, toNat_worth hp, s.scaledAlike_iff he he']
  rfl

/-- For any two recounts that succeed: what each records of an asset depends on no more than the
balance and the reading of its own feed if and only if, where they agree on USDC, the exponents of
SOL make no difference to it. -/
theorem priced_by_own_feed_iff (hrec : a.handle d env x = .ok y)
    (hrec' : a'.handle d' env' x' = .ok y') (hbalance : Asset.usdc.balance a d x.world = some h)
    (hreading : Asset.usdc.reading a env = some q) (hsol : Asset.sol.reading a env = some scale)
    (hsol' : Asset.sol.reading a' env' = some scale') :
    (∀ s : Asset, s.Agree a d env x a' d' env' x' →
        s.value y.world.treasury = s.value y'.world.treasury) ↔
      (Asset.usdc.Agree a d env x a' d' env' x' → Asset.usdc.ScaledAlike h q scale scale') := by
  constructor
  · intro hall hagree
    exact (Asset.usdc.value_eq_iff hrec hrec' hagree hbalance hreading hsol hsol').mp
      (hall .usdc hagree)
  · intro husdc s hagree
    -- SOL and wBTC are scaled by the reading they agree on
    have hown (hs : s.scaledBy = s) : s.value y.world.treasury = s.value y'.world.treasury := by
      obtain ⟨h, q, scale, hb, hq, hscale⟩ := s.exists_reading hrec
      have hscale' : s.scaledBy.reading a' env' = some scale := by
        rw [hs] at hscale ⊢
        exact hagree.2.trans hscale
      exact (s.value_eq_iff hrec hrec' hagree hb hq hscale hscale').mpr (.inl rfl)
    cases s with
    | sol => exact hown rfl
    | usdc =>
        exact (Asset.usdc.value_eq_iff hrec hrec' hagree hbalance hreading hsol hsol').mpr
          (husdc hagree)
    | wbtc => exact hown rfl

end

/-- SOL reads this, and the other feeds one. -/
def solEnv (q : Price) : Env := splEnv 0 [9] fun f => some (if f = .sol then q else ⟨1, 0, 0⟩)

/-- Whether SOL is at one or at seven, five dollars are worth the same at its exponent. -/
theorem priced_by_own_feed_iff_five : ∃ y y',
    smallRecount.handle (smallDeployment .release) (solEnv ⟨1, 0, 1⟩)
      (.start (countedHolding 5000000 : World Double)) = .ok y ∧
    smallRecount.handle (smallDeployment .release) (solEnv ⟨7, 0, 1⟩)
      (.start (countedHolding 5000000 : World Double)) = .ok y' ∧
    Asset.usdc.value y.world.treasury = Asset.usdc.value y'.world.treasury := by
  obtain ⟨y, hy⟩ := exists_ok
    (show (smallRecount.handle (smallDeployment .release) (solEnv ⟨1, 0, 1⟩)
      (.start (countedHolding 5000000 : World Double))).toOption.isSome = true by decide +kernel)
  obtain ⟨y', hy'⟩ := exists_ok
    (show (smallRecount.handle (smallDeployment .release) (solEnv ⟨7, 0, 1⟩)
      (.start (countedHolding 5000000 : World Double))).toOption.isSome = true by decide +kernel)
  refine ⟨y, y', hy, hy', ?_⟩
  exact (priced_by_own_feed_iff hy hy' rfl rfl rfl rfl).mpr (fun _ => .inl rfl) .usdc ⟨rfl, rfl⟩

/-- With the exponent of SOL at one instead of zero, the same five dollars at the same reading are
fifty. -/
theorem usdc_priced_by_sol : ∃ y y',
    smallRecount.handle (smallDeployment .release) (solEnv ⟨1, 0, 0⟩)
      (.start (countedHolding 5000000 : World Double)) = .ok y ∧
    smallRecount.handle (smallDeployment .release) (solEnv ⟨1, 0, 1⟩)
      (.start (countedHolding 5000000 : World Double)) = .ok y' ∧
    Asset.usdc.Agree smallRecount (smallDeployment .release) (solEnv ⟨1, 0, 0⟩)
      (.start (countedHolding 5000000)) smallRecount (smallDeployment .release) (solEnv ⟨1, 0, 1⟩)
      (.start (countedHolding 5000000)) ∧
    y.world.treasury.usdcValue = F64.lit 5 ∧ y'.world.treasury.usdcValue = F64.lit 50 := by
  obtain ⟨y, hy, hv⟩ := exists_eq_ok
    (fun y : Exec Double => decide (y.world.treasury.usdcValue = F64.lit 5))
    (show (smallRecount.handle (smallDeployment .release) (solEnv ⟨1, 0, 0⟩)
      (.start (countedHolding 5000000))).toOption.any _ = true by decide +kernel)
  obtain ⟨y', hy', hv'⟩ := exists_eq_ok
    (fun y : Exec Double => decide (y.world.treasury.usdcValue = F64.lit 50))
    (show (smallRecount.handle (smallDeployment .release) (solEnv ⟨1, 0, 1⟩)
      (.start (countedHolding 5000000))).toOption.any _ = true by decide +kernel)
  exact ⟨y, y', hy, hy', ⟨rfl, rfl⟩, of_decide_eq_true hv, of_decide_eq_true hv'⟩

end Saturn
