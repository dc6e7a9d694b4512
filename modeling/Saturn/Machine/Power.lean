import Mathlib.Algebra.Group.Nat.Even
import Mathlib.Algebra.Order.Ring.Rat
import Mathlib.Tactic.Linarith
import Mathlib.Tactic.Ring

/-!
# Powers by squaring

The loop that raises to a power with one squaring a binary digit, over a product that may fail and
may round. What the loop says about its result is what the product says about its factors: a
property of exponent and number that the product carries from two factors to the sum of their
exponents, the result has at the exponent asked for (`powLoop_rule`); and where the product never
fails on such factors, neither does the loop (`exists_powLoop`).

Two instances: an exact product gives the power of a monoid, and a product that drops less than `δ`
gives at `n` the exact power less at most `(n - 1) * δ`, as long as the numbers are at most one.

Last, the first four terms of the binomial series, which are less than the power (`cubic_le_pow`).
-/

namespace Machine

variable {α : Type} {mul : α → α → Option α}

/-- While the exponent is more than one: multiply for an odd one, square, and halve. -/
def powLoop (mul : α → α → Option α) (x y : α) (n : ℕ) : Option α :=
  if 1 < n then do
    let y ← (if n % 2 = 1 then mul x y else some y)
    let x ← mul x x
    powLoop mul x y (n / 2)
  else mul x y
termination_by n

theorem double_half (k m n : ℕ) :
    (k + k) * (n / 2) + (if n % 2 = 1 then k + m else m) = k * n + m := by
  have hn : n = 2 * (n / 2) + n % 2 := (Nat.div_add_mod n 2).symm
  have hbit : (if n % 2 = 1 then k + m else m) = k * (n % 2) + m := by
    rcases Nat.mod_two_eq_zero_or_one n with h | h <;> simp [h]
  rw [hbit]
  nth_rewrite 3 [hn]
  ring

/-- `x` stands for the exponent `k` and `y` for `m`; then the result stands for `k * n + m`. -/
theorem powLoop_rule {P : ℕ → α → Prop}
    (hmul : ∀ i j a b c, P i a → P j b → mul a b = some c → P (i + j) c) {x y r : α} {k m n : ℕ}
    (hn : 0 < n) (hx : P k x) (hy : P m y) (h : powLoop mul x y n = some r) : P (k * n + m) r := by
  induction n using Nat.strong_induction_on generalizing x y k m with
  | _ n ih =>
    rw [powLoop] at h
    split at h
    · simp only [Option.bind_eq_bind, Option.bind_eq_some_iff] at h
      obtain ⟨y', hy', x', hx', hr⟩ := h
      have hsquare : P (k + k) x' := hmul k k x x x' hx hx hx'
      have hacc : P (if n % 2 = 1 then k + m else m) y' := by
        split at hy'
        · rename_i hodd
          rw [if_pos hodd]
          exact hmul k m x y y' hx hy hy'
        · rename_i heven
          cases hy'
          rwa [if_neg heven]
      rw [← double_half]
      exact ih (n / 2) (by omega) (by omega) hsquare hacc hr
    · obtain rfl : n = 1 := by omega
      rw [mul_one]
      exact hmul k m x y r hx hy h

/-- Where the product never fails up to the exponent `N`, the loop does not either. -/
theorem exists_powLoop {P : ℕ → α → Prop} {N : ℕ}
    (hmul : ∀ i j a b, P i a → P j b → i + j ≤ N → ∃ c, mul a b = some c ∧ P (i + j) c) {x y : α}
    {k m n : ℕ} (hn : 0 < n) (hx : P k x) (hy : P m y) (hN : k * n + m ≤ N) :
    ∃ r, powLoop mul x y n = some r := by
  induction n using Nat.strong_induction_on generalizing x y k m with
  | _ n ih =>
    rw [powLoop]
    split
    · rename_i hlt
      have hle : k * 2 ≤ k * n := Nat.mul_le_mul_left k hlt
      obtain ⟨x', hx', hsquare⟩ := hmul k k x x hx hx (by omega)
      obtain ⟨y', hy', hacc⟩ : ∃ y', (if n % 2 = 1 then mul x y else some y) = some y' ∧
          P (if n % 2 = 1 then k + m else m) y' := by
        split
        · exact hmul k m x y hx hy (by omega)
        · exact ⟨y, rfl, hy⟩
      obtain ⟨r, hr⟩ := ih (n / 2) (by omega) (by omega) hsquare hacc (by rwa [double_half])
      exact ⟨r, by simp [hy', hx', hr]⟩
    · obtain rfl : n = 1 := by omega
      obtain ⟨r, hr, -⟩ := hmul k m x y hx hy (by omega)
      exact ⟨r, hr⟩

/-! ## Instances -/

/-- A product that reads as one of rational numbers rounded down by less than `δ`, and not at all
where a factor is one. -/
structure RoundsDown (mul : α → α → Option α) (v : α → ℚ) (δ : ℚ) : Prop where
  nonneg : ∀ a, 0 ≤ v a
  le : ∀ a b c, mul a b = some c → v c ≤ v a * v b
  lt : ∀ a b c, mul a b = some c → v a * v b - δ < v c
  one : ∀ a b c, mul a b = some c → v b = 1 → v c = v a

namespace RoundsDown

variable {v : α → ℚ} {δ : ℚ} (h : RoundsDown mul v δ) {x y r : α} {n : ℕ}

include h

theorem powLoop_le (hn : 0 < n) (hy : v y = 1) (hr : powLoop mul x y n = some r) :
    v r ≤ v x ^ n := by
  have hres := powLoop_rule (P := fun k a => v a ≤ v x ^ k) ?_ hn (pow_one (v x)).ge
    (hy.trans (pow_zero (v x)).symm).le hr
  · simpa using hres
  · intro i j a b c ha hb hc
    calc v c ≤ v a * v b := h.le a b c hc
      _ ≤ v x ^ i * v x ^ j := mul_le_mul ha hb (h.nonneg b) (pow_nonneg (h.nonneg x) i)
      _ = v x ^ (i + j) := (pow_add (v x) i j).symm

end RoundsDown

/-- What the loop has dropped at the exponent `k`: nothing at zero, and less than `δ` a factor after
the first. -/
structure Dropped (v : α → ℚ) (δ x : ℚ) (k : ℕ) (a : α) : Prop where
  le_one : v a ≤ 1
  zero : k = 0 → v a = 1
  le : 0 < k → x ^ k - (k - 1) * δ ≤ v a

namespace RoundsDown

variable {v : α → ℚ} {δ : ℚ} (h : RoundsDown mul v δ) {x y r : α} {n : ℕ}

include h

theorem dropped_mul {t : ℚ} (ht₀ : 0 ≤ t) (ht₁ : t ≤ 1) (hcomm : ∀ a b, mul a b = mul b a) {i j : ℕ}
    {a b c : α} (ha : Dropped v δ t i a) (hb : Dropped v δ t j b) (hc : mul a b = some c) :
    Dropped v δ t (i + j) c := by
  have hle : v c ≤ v a * v b := h.le a b c hc
  have hle_one : v c ≤ 1 := hle.trans (mul_le_one₀ ha.le_one (h.nonneg b) hb.le_one)
  rcases Nat.eq_zero_or_pos j with rfl | hj
  · have hca : v c = v a := h.one a b c hc (hb.zero rfl)
    exact ⟨hle_one, fun hi => hca.trans (ha.zero hi), fun hi => hca ▸ ha.le hi⟩
  rcases Nat.eq_zero_or_pos i with rfl | hi
  · have hcb : v c = v b := h.one b a c (hcomm a b ▸ hc) (ha.zero rfl)
    rw [zero_add]
    exact ⟨hle_one, fun hj' => absurd hj' hj.ne', fun _ => hcb ▸ hb.le hj⟩
  refine ⟨hle_one, by omega, fun _ => ?_⟩
  have hlt : v a * v b - δ < v c := h.lt a b c hc
  have hδ : 0 < δ := by linarith
  -- what a factor lacks, the product lacks at most once, since the other factor is at most one
  have hone : (1 : ℚ) ≤ i ∧ (1 : ℚ) ≤ j := ⟨by exact_mod_cast hi, by exact_mod_cast hj⟩
  have hlack₁ : v b * (t ^ i - v a) ≤ (i - 1) * δ := by
    have hstep : v b * (t ^ i - v a) ≤ v b * ((i - 1) * δ) :=
      mul_le_mul_of_nonneg_left (by linarith [ha.le hi]) (h.nonneg b)
    have hnonneg : 0 ≤ ((i : ℚ) - 1) * δ := mul_nonneg (by linarith) hδ.le
    exact hstep.trans (mul_le_of_le_one_left hnonneg hb.le_one)
  have hlack₂ : t ^ i * (t ^ j - v b) ≤ (j - 1) * δ := by
    have hstep : t ^ i * (t ^ j - v b) ≤ t ^ i * ((j - 1) * δ) :=
      mul_le_mul_of_nonneg_left (by linarith [hb.le hj]) (pow_nonneg ht₀ i)
    have hnonneg : 0 ≤ ((j : ℚ) - 1) * δ := mul_nonneg (by linarith) hδ.le
    exact hstep.trans (mul_le_of_le_one_left hnonneg (pow_le_one₀ ht₀ ht₁))
  have hsplit : t ^ (i + j) - v a * v b = t ^ i * (t ^ j - v b) + v b * (t ^ i - v a) := by ring
  push_cast
  linarith

/-- For a number at most one the loop drops less than `δ` a factor after the first. -/
theorem le_powLoop (hn : 0 < n) (hcomm : ∀ a b, mul a b = mul b a) (hx : v x ≤ 1) (hy : v y = 1)
    (hr : powLoop mul x y n = some r) : v x ^ n - (n - 1) * δ ≤ v r := by
  have hbase : Dropped v δ (v x) 1 x := ⟨hx, by simp, by simp⟩
  have hunit : Dropped v δ (v x) 0 y := ⟨hy.le, fun _ => hy, by simp⟩
  have hres : Dropped v δ (v x) (1 * n + 0) r := by
    apply powLoop_rule _ hn hbase hunit hr
    intro i j a b c ha hb hc
    exact h.dropped_mul (h.nonneg x) hx hcomm ha hb hc
  simpa using hres.le (by omega)

end RoundsDown

theorem cubic_le_pow {t : ℚ} (ht : 0 ≤ t) (n : ℕ) :
    1 + t * n + t ^ 2 * n * (n - 1) / 2 + t ^ 3 * n * (n - 1) * (n - 2) / 6 ≤ (1 + t) ^ n := by
  induction n with
  | zero => simp
  | succ n ih =>
      -- what another factor adds to the four terms, and the next term, which is dropped
      have hdropped : (0 : ℚ) ≤ n * (n - 1) * (n - 2) := by
        match n with
        | 0 => simp
        | 1 => simp
        | n + 2 =>
            push_cast
            ring_nf
            positivity
      have hfour : 0 ≤ t ^ 4 * (n * (n - 1) * (n - 2)) := mul_nonneg (pow_nonneg ht 4) hdropped
      have hstep := mul_le_mul_of_nonneg_right ih (show 0 ≤ 1 + t by linarith)
      rw [pow_succ (1 + t) n]
      push_cast
      linarith

end Machine
