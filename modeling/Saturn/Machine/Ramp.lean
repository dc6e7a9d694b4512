import Mathlib.Algebra.Order.Ring.Int
import Mathlib.Tactic.Linarith

/-!
# Straight pieces in fixed point

Numbers are read as multiples of `1 / one`. A straight piece divides first and multiplies then, and
each time what does not fit is dropped. Still it starts at zero, reaches its height exactly, and
never falls; so a curve with a kink never jumps down at the kink, whatever the two divisions drop
(`Kink.rate_mono`).
-/

namespace Machine

/-- The straight line from `0` at `0` to `height` at `width`. -/
def ramp (one width height x : ℤ) : ℤ := x * one / width * height / one

section

variable {one width height x y : ℤ}

theorem ramp_nonneg (hone : 0 < one) (hwidth : 0 < width) (hheight : 0 ≤ height) (hx : 0 ≤ x) :
    0 ≤ ramp one width height x := by
  have hquot : 0 ≤ x * one / width := Int.ediv_nonneg (mul_nonneg hx hone.le) hwidth.le
  exact Int.ediv_nonneg (mul_nonneg hquot hheight) hone.le

theorem ramp_mono (hone : 0 < one) (hwidth : 0 < width) (hheight : 0 ≤ height) (h : x ≤ y) :
    ramp one width height x ≤ ramp one width height y := by
  have hquot : x * one / width ≤ y * one / width :=
    Int.ediv_le_ediv hwidth (mul_le_mul_of_nonneg_right h hone.le)
  exact Int.ediv_le_ediv hone (mul_le_mul_of_nonneg_right hquot hheight)

theorem ramp_width (hone : 0 < one) (hwidth : 0 < width) :
    ramp one width height width = height := by
  rw [ramp, Int.mul_ediv_cancel_left one hwidth.ne', Int.mul_ediv_cancel_left height hone.ne']

theorem ramp_le (hone : 0 < one) (hwidth : 0 < width) (hheight : 0 ≤ height) (h : x ≤ width) :
    ramp one width height x ≤ height :=
  (ramp_mono hone hwidth hheight h).trans_eq (ramp_width hone hwidth)

theorem quot_le_one (hone : 0 < one) (hwidth : 0 < width) (h : x ≤ width) :
    x * one / width ≤ one := by
  apply Int.ediv_le_of_le_mul hwidth
  rw [mul_comm]
  exact mul_le_mul_of_nonneg_left h hone.le

end

/-- A curve of two straight pieces: up to `plateau` at `optimal`, and from there to `max` at one. -/
structure Kink where
  one : ℤ
  optimal : ℤ
  plateau : ℤ
  max : ℤ
  optimal_pos : 0 < optimal
  optimal_lt_one : optimal < one
  plateau_nonneg : 0 ≤ plateau
  plateau_le_max : plateau ≤ max

namespace Kink

variable (k : Kink) {x y : ℤ}

def rate (x : ℤ) : ℤ :=
  if x ≤ k.optimal then ramp k.one k.optimal k.plateau x
  else ramp k.one (k.one - k.optimal) (k.max - k.plateau) (x - k.optimal) + k.plateau

theorem one_pos : 0 < k.one := k.optimal_pos.trans k.optimal_lt_one

theorem rest_pos : 0 < k.one - k.optimal := by
  have := k.optimal_lt_one
  omega

theorem slope_nonneg : 0 ≤ k.max - k.plateau := by
  have := k.plateau_le_max
  omega

theorem rate_of_le (h : x ≤ k.optimal) : k.rate x = ramp k.one k.optimal k.plateau x := if_pos h

theorem rate_of_lt (h : k.optimal < x) :
    k.rate x = ramp k.one (k.one - k.optimal) (k.max - k.plateau) (x - k.optimal) + k.plateau :=
  if_neg (not_le.mpr h)

theorem rate_le_plateau (h : x ≤ k.optimal) : k.rate x ≤ k.plateau := by
  rw [k.rate_of_le h]
  exact ramp_le k.one_pos k.optimal_pos k.plateau_nonneg h

theorem plateau_le_rate (h : k.optimal < x) : k.plateau ≤ k.rate x := by
  have hramp := ramp_nonneg k.one_pos k.rest_pos k.slope_nonneg (show 0 ≤ x - k.optimal by omega)
  rw [k.rate_of_lt h]
  omega

theorem rate_nonneg (h : 0 ≤ x) : 0 ≤ k.rate x := by
  rcases le_or_gt x k.optimal with hle | hlt
  · rw [k.rate_of_le hle]
    exact ramp_nonneg k.one_pos k.optimal_pos k.plateau_nonneg h
  · exact k.plateau_nonneg.trans (k.plateau_le_rate hlt)

theorem rate_le_max (h : x ≤ k.one) : k.rate x ≤ k.max := by
  rcases le_or_gt x k.optimal with hle | hlt
  · exact (k.rate_le_plateau hle).trans k.plateau_le_max
  · have hramp := ramp_le k.one_pos k.rest_pos k.slope_nonneg
      (show x - k.optimal ≤ k.one - k.optimal by omega)
    rw [k.rate_of_lt hlt]
    omega

theorem rate_mono (h : x ≤ y) : k.rate x ≤ k.rate y := by
  rcases le_or_gt y k.optimal with hy | hy
  · rw [k.rate_of_le hy, k.rate_of_le (h.trans hy)]
    exact ramp_mono k.one_pos k.optimal_pos k.plateau_nonneg h
  · rcases le_or_gt x k.optimal with hx | hx
    · exact (k.rate_le_plateau hx).trans (k.plateau_le_rate hy)
    · have hramp := ramp_mono k.one_pos k.rest_pos k.slope_nonneg
        (show x - k.optimal ≤ y - k.optimal by omega)
      rw [k.rate_of_lt hx, k.rate_of_lt hy]
      omega

theorem mul_rate_nonneg (h : 0 ≤ x) : 0 ≤ k.rate x * x / k.one :=
  Int.ediv_nonneg (mul_nonneg (k.rate_nonneg h) h) k.one_pos.le

theorem mul_rate_le_max (h₀ : 0 ≤ x) (h₁ : x ≤ k.one) : k.rate x * x / k.one ≤ k.max := by
  have hmax : 0 ≤ k.max := k.plateau_nonneg.trans k.plateau_le_max
  apply Int.ediv_le_of_le_mul k.one_pos
  exact mul_le_mul (k.rate_le_max h₁) h₁ h₀ hmax

theorem mul_rate_mono (h₀ : 0 ≤ x) (h : x ≤ y) : k.rate x * x / k.one ≤ k.rate y * y / k.one := by
  have hy := k.rate_nonneg (h₀.trans h)
  exact Int.ediv_le_ediv k.one_pos (mul_le_mul (k.rate_mono h) h h₀ hy)

end Kink

end Machine
