import Mathlib.Algebra.Order.Floor.Ring
import Mathlib.Data.Rat.Floor
import Mathlib.Tactic.Positivity
import Mathlib.Tactic.Linarith

/-!
# Floating point, abstractly and exactly

Nothing in the kernel computes with `f64`, and most facts about code that carries an `f64` around do
not depend on how it rounds. `F64 F` is the interface such code uses: the four operations, the two
integer casts into `F`, the saturating cast back, and the test against `0.0`. A result stated for
every `F64 F` holds of IEEE doubles.

The instance on `ℚ` is the *exact* reading: no rounding, no overflow. Its cast back to `u64` is
Rust's: truncate towards zero and saturate at both ends.
-/

namespace Machine

/-- The operations on `f64` that compiled code uses. -/
class F64 (F : Type) extends Zero F, Add F, Sub F, Mul F, Div F where
  /-- The `f64` closest to a rational: a literal such as `0.99`, or a fixed point number cast. -/
  lit : ℚ → F
  /-- `u64 as f64`. -/
  ofU64 : UInt64 → F
  /-- `i64 as f64`. -/
  ofI64 : Int64 → F
  /-- `f64 as u64`: truncates, saturates, and sends `NaN` to `0`. -/
  toU64 : F → UInt64
  /-- `x == 0.0`. -/
  isZero : F → Bool
  lit_zero : lit 0 = 0
  /-- Zero casts to zero, and nothing else does. -/
  ofU64_eq_zero : ∀ n, ofU64 n = 0 ↔ n = 0
  /-- `0.0 / 0.0` is `NaN`. -/
  toU64_zero_div_zero : toU64 (0 / ofU64 0) = 0

/-- The largest `u64`. -/
def maxU64 : ℕ := 2 ^ 64 - 1

/-- Rust's cast of an exact rational to `u64`. -/
def ratToU64 (q : ℚ) : UInt64 := UInt64.ofNat (min ⌊q⌋₊ maxU64)

instance : F64 ℚ where
  lit q := q
  ofU64 n := n.toNat
  ofI64 z := z.toInt
  toU64 := ratToU64
  isZero q := decide (q = 0)
  lit_zero := rfl
  ofU64_eq_zero n := Nat.cast_eq_zero.trans (UInt64.toNat_inj (b := 0))
  toU64_zero_div_zero := by decide +kernel

section Exact

variable {q r : ℚ}

@[simp] theorem lit_rat (q : ℚ) : (F64.lit q : ℚ) = q := rfl

@[simp] theorem ofU64_rat (n : UInt64) : (F64.ofU64 n : ℚ) = n.toNat := rfl

@[simp] theorem ofI64_rat (z : Int64) : (F64.ofI64 z : ℚ) = z.toInt := rfl

@[simp] theorem isZero_rat : F64.isZero q = decide (q = 0) := rfl

@[simp] theorem toNat_toU64_rat (q : ℚ) : (F64.toU64 q).toNat = min ⌊q⌋₊ maxU64 := by
  show (UInt64.ofNat (min ⌊q⌋₊ maxU64)).toNat = _
  rw [UInt64.toNat_ofNat', Nat.mod_eq_of_lt]
  exact lt_of_le_of_lt (min_le_right _ _) (by decide)

/-- Two floors of numbers that add up to three times `x` or more stay within `x` only if neither
reaches one. -/
theorem floor_add_floor_le_iff {x : ℚ} (hx : 0 ≤ x) (h : 3 * x ≤ q + r) :
    (⌊q⌋₊ + ⌊r⌋₊ : ℚ) ≤ x ↔ q < 1 ∧ r < 1 := by
  have hqfloor := Nat.lt_floor_add_one q
  have hrfloor := Nat.lt_floor_add_one r
  constructor
  · intro hsum
    have hlt : ((⌊q⌋₊ + ⌊r⌋₊ : ℕ) : ℚ) < (1 : ℕ) := by
      push_cast
      linarith
    have hzero : ⌊q⌋₊ + ⌊r⌋₊ < 1 := Nat.cast_lt.mp hlt
    exact ⟨Nat.floor_eq_zero.mp (by omega), Nat.floor_eq_zero.mp (by omega)⟩
  · rintro ⟨hq1, hr1⟩
    rw [Nat.floor_eq_zero.mpr hq1, Nat.floor_eq_zero.mpr hr1]
    simpa using hx

/-- The same of two casts, which also stay within `x` where they saturate far enough. -/
theorem toU64_rat_add_le_iff {x : ℚ} (hx : 0 ≤ x) (hq : 0 ≤ q) (hr : 0 ≤ r) (h : 3 * x ≤ q + r) :
    ((F64.toU64 q).toNat + (F64.toU64 r).toNat : ℚ) ≤ x ↔
      (q < 1 ∧ r < 1) ∨ (maxU64 ≤ x ∧ (⌊min q r⌋₊ : ℚ) ≤ x - maxU64) ∨ 2 * maxU64 ≤ x := by
  -- the statement is symmetric in the two numbers
  wlog hle : q ≤ r generalizing q r with hswap
  · have hcomm := hswap hr hq (by linarith) (le_of_not_ge hle)
    rw [add_comm, min_comm, and_comm (a := q < 1)]
    exact hcomm
  rw [min_eq_left hle, toNat_toU64_rat, toNat_toU64_rat]
  have hmono : ⌊q⌋₊ ≤ ⌊r⌋₊ := Nat.floor_le_floor hle
  have hmax : (1 : ℚ) ≤ maxU64 := by exact_mod_cast (by decide : 1 ≤ maxU64)
  by_cases hsat : maxU64 ≤ ⌊r⌋₊
  · -- the larger cast saturates
    have hrbig : (maxU64 : ℚ) ≤ r := (Nat.cast_le.mpr hsat).trans (Nat.floor_le hr)
    rw [min_eq_right hsat]
    rcases le_total maxU64 ⌊q⌋₊ with hsat' | hsat'
    · have hqbig : (maxU64 : ℚ) ≤ ⌊q⌋₊ := Nat.cast_le.mpr hsat'
      rw [min_eq_right hsat']
      constructor
      · intro hsum
        right; right
        linarith
      · rintro (⟨-, hlt⟩ | ⟨-, hrest⟩ | hbig) <;> linarith
    · have hqsmall : (⌊q⌋₊ : ℚ) ≤ maxU64 := Nat.cast_le.mpr hsat'
      have hpos : (0 : ℚ) ≤ ⌊q⌋₊ := Nat.cast_nonneg _
      rw [min_eq_left hsat']
      constructor
      · intro hsum
        right; left
        exact ⟨by linarith, by linarith⟩
      · rintro (⟨-, hlt⟩ | ⟨-, hrest⟩ | hbig) <;> linarith
  · -- neither does, and `x` is below the largest `u64`
    have hrlt : ⌊r⌋₊ < maxU64 := not_le.mp hsat
    have hrsmall : (⌊r⌋₊ : ℚ) + 1 ≤ maxU64 := by exact_mod_cast hrlt
    have hrfloor := Nat.lt_floor_add_one r
    rw [min_eq_left hrlt.le, min_eq_left (hmono.trans hrlt.le), floor_add_floor_le_iff hx h]
    constructor
    · intro hsmall
      exact .inl hsmall
    · rintro (hsmall | ⟨hbig, -⟩ | hbig)
      · exact hsmall
      · linarith
      · linarith

end Exact

end Machine
