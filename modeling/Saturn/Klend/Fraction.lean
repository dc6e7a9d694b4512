import Saturn.Machine.Fraction
import Saturn.Machine.Power

/-!
# `Fraction` in klend

klend computes with `U68F60` under the name `Fraction` (`utils/fraction.rs`): conversions from and
to basis points and percents, powers by squaring, and `BigFraction`, the same fractional bits in 256
bits, whose operators panic on overflow in every build.

A power is never rounded up. It fails only where the exact power does not fit, and for numbers up to
one it is short of the exact power by at most one unit of the last place a factor
(`powFraction_accurate`).
-/

namespace Saturn.Klend

open Machine

/-! ## Errors -/

/-- `LendingError`, as far as the modelled functions return it. -/
inductive LendingError where
  | mathOverflow
  | integerOverflow
  | insufficientLiquidity
  | borrowTooSmall
  | borrowTooLarge
  | obligationReserveLimit
  | obligationDepositsEmpty
  | obligationBorrowsEmpty
  | invalidObligationCollateral
  | invalidObligationLiquidity
  | negativeInterestRate
  | invalidUtilizationRate
  | invalidBorrowRateCurvePoint
  | invalidOracleConfig
  | invalidTwapConfig
  | invalidPythPriceAccount
  | invalidSwitchboardAccount
  | invalidScopePriceAccount
  | switchboardV2Error
  | couldNotDeserializeScope
  | noPriceFound
  | priceNotValid
  | priceIsZero
  | priceTooOld
  | priceConfidenceTooWide
  | priceTooDivergentFromTwap
  | priceIsLowerThanHeuristic
  | priceIsBiggerThanHeuristic
  deriving DecidableEq

/-- Why a function of klend did not return `Ok`. -/
inductive Failure where
  | lending (e : LendingError)
  | panic
  deriving DecidableEq

instance : Panics Failure := ⟨.panic⟩

/-- `Option::unwrap`. -/
def unwrap {α : Type} (o : Option α) : Except Failure α := okOr o .panic

@[simp] theorem unwrap_eq_ok {α : Type} {o : Option α} {a : α} : unwrap o = .ok a ↔ o = some a :=
  okOr_eq_ok

/-! ## Powers -/

/-- `pow_fraction`. -/
def powFraction (fraction : U68F60) (power : UInt32) : Option U68F60 :=
  if power = 0 then some U68F60.one
  else powLoop Fixed.checkedMul fraction U68F60.one power.toNat

/-! ## Basis points and percents -/

/-- `checked_to_num` to an unsigned integer of the width. -/
def checkedToNum (width : ℕ) (a : U68F60) : Option ℕ :=
  if a.floor < 2 ^ width then some a.floor.toNat else none

/-- `n` over a positive `d`, rounded down: what `from_percent` and `from_bps` return. -/
def ofRatio (n : UInt64) (d : ℕ) : U68F60 where
  bits := n.toNat * 2 ^ 60 / d
  lo_le := Int.ediv_nonneg (by positivity) d.cast_nonneg
  lt_hi := by
    have hlt := n.toNat_lt
    have hle : (n.toNat * 2 ^ 60 : ℤ) / d ≤ n.toNat * 2 ^ 60 := Int.ediv_le_self _ (by positivity)
    simp only [FixedFormat.u68f60]
    omega

/-- `FractionExtra::from_percent`. -/
def fromPercent (percent : UInt64) : U68F60 := ofRatio percent 100

/-- `FractionExtra::from_bps`. -/
def fromBps (bps : UInt64) : U68F60 := ofRatio bps 10000

/-- `x * scale`, rounded, as an integer of the width. -/
def toRatio (p : Profile) (width scale : ℕ) (x : U68F60) : Except Failure (Option ℕ) := do
  let scaled ← x.mulInt p scale
  return checkedToNum width (U68F60.round scaled)

/-- `FractionExtra::to_bps`. -/
def toBps (p : Profile) (width : ℕ) (x : U68F60) : Except Failure (Option ℕ) :=
  toRatio p width 10000 x

/-- `FractionExtra::to_floor::<u64>`. -/
def toFloor (x : U68F60) : UInt64 := x.toU64

/-- `FractionExtra::to_round::<u64>`. -/
def toRound (x : U68F60) : UInt64 := (U68F60.round x).toU64

/-! ## `BigFraction` -/

/-- `BigFraction`: the bits of a `U256`. -/
structure BigFraction where
  bits : ℕ
  lt : bits < 2 ^ 256
  deriving DecidableEq

namespace BigFraction

@[ext] theorem ext {a b : BigFraction} (h : a.bits = b.bits) : a = b := by
  cases a
  cases b
  cases h
  rfl

/-- `From<Fraction>`. -/
def ofFraction (a : U68F60) : BigFraction where
  bits := a.bits.toNat
  lt := by
    have := a.bits_lt
    omega

/-- The operator `*`. -/
def mul (a b : BigFraction) : Except Failure BigFraction :=
  if h : a.bits * b.bits < 2 ^ 256 then
    .ok ⟨a.bits * b.bits / 2 ^ 60, lt_of_le_of_lt (Nat.div_le_self _ _) h⟩
  else .error .panic

theorem mul_eq_ok {a b c : BigFraction} :
    a.mul b = .ok c ↔ a.bits * b.bits < 2 ^ 256 ∧ c.bits = a.bits * b.bits / 2 ^ 60 := by
  unfold mul
  split
  · rename_i h
    rw [and_iff_right h]
    simp [BigFraction.ext_iff, eq_comm]
  · rename_i h
    simp only [reduceCtorEq, false_iff, not_and]
    exact fun h' => absurd h' h

end BigFraction

/-! ## Powers are accurate -/

section

variable {x y : U68F60} {n : UInt32}

theorem toRat_eq (x : U68F60) : x.toRat = x.bits / 2 ^ 60 := rfl

theorem toRat_one : U68F60.one.toRat = 1 := by
  rw [toRat_eq, U68F60.bits_one]
  norm_num

theorem toRat_mul_toRat (x y : U68F60) : x.toRat * y.toRat = x.bits * y.bits / 2 ^ 120 := by
  rw [toRat_eq, toRat_eq]
  ring

theorem checkedMul_roundsDown :
    RoundsDown (Fixed.checkedMul (f := .u68f60)) Fixed.toRat (1 / 2 ^ 60) where
  nonneg a := Fixed.toRat_nonneg a.lo_le
  le a b c h := by
    have hbits : c.bits = a.bits * b.bits / 2 ^ 60 := Fixed.checkedMul_eq_some.mp h
    have hle : c.bits * 2 ^ 60 ≤ a.bits * b.bits := hbits ▸ Int.ediv_mul_le _ (by norm_num)
    have hcast : (c.bits : ℚ) * 2 ^ 60 ≤ a.bits * b.bits := by exact_mod_cast hle
    rw [toRat_mul_toRat, toRat_eq]
    linarith
  lt a b c h := by
    have hbits : c.bits = a.bits * b.bits / 2 ^ 60 := Fixed.checkedMul_eq_some.mp h
    have hlt : a.bits * b.bits < c.bits * 2 ^ 60 + 2 ^ 60 := by omega
    have hcast : (a.bits * b.bits : ℚ) < c.bits * 2 ^ 60 + 2 ^ 60 := by exact_mod_cast hlt
    rw [toRat_mul_toRat, toRat_eq]
    linarith
  one a b c h hb := by
    have hbits : c.bits = a.bits * b.bits / 2 ^ 60 := Fixed.checkedMul_eq_some.mp h
    have hone : b.bits = 2 ^ 60 := by
      rw [toRat_eq] at hb
      field_simp at hb
      exact_mod_cast hb
    rw [toRat_eq, toRat_eq, hbits, hone, Int.mul_ediv_cancel _ (by norm_num)]

theorem checkedMul_comm (a b : U68F60) : a.checkedMul b = b.checkedMul a := by
  rw [Fixed.checkedMul, Fixed.checkedMul, mul_comm]

theorem exists_checkedMul (h : x.toRat * y.toRat < 2 ^ 68) : ∃ z, x.checkedMul y = some z := by
  have hnonneg : 0 ≤ x.bits * y.bits := mul_nonneg (U68F60.bits_nonneg x) (U68F60.bits_nonneg y)
  have hlt : x.bits * y.bits < 2 ^ 188 := by
    rw [toRat_mul_toRat, div_lt_iff₀ (by norm_num)] at h
    norm_num at h
    exact_mod_cast h
  have hfits : x.bits * y.bits / 2 ^ 60 < 2 ^ 128 := by omega
  exact ⟨⟨x.bits * y.bits / 2 ^ 60, Int.ediv_nonneg hnonneg (by norm_num), hfits⟩,
    Fixed.checkedMul_eq_some.mpr rfl⟩

theorem pow_le_max {t : ℚ} (ht : 0 ≤ t) {k n : ℕ} (h : k ≤ n) : t ^ k ≤ max 1 (t ^ n) := by
  rcases le_total t 1 with hle | hge
  · exact le_max_of_le_left (pow_le_one₀ ht hle)
  · exact le_max_of_le_right (pow_le_pow_right₀ hge h)

theorem exists_powFraction (h : x.toRat ^ n.toNat < 2 ^ 68) : ∃ y, powFraction x n = some y := by
  unfold powFraction
  split
  · exact ⟨_, rfl⟩
  rename_i hne
  have hpos : 0 < n.toNat := by
    rw [Nat.pos_iff_ne_zero, ne_eq, ← UInt32.toNat_inj] at *
    exact hne
  have hmax : max 1 (x.toRat ^ n.toNat) < 2 ^ 68 := max_lt (by norm_num) h
  have hstep (i j : ℕ) (a b : U68F60) (ha : a.toRat ≤ x.toRat ^ i) (hb : b.toRat ≤ x.toRat ^ j)
      (hij : i + j ≤ n.toNat) : ∃ c, a.checkedMul b = some c ∧ c.toRat ≤ x.toRat ^ (i + j) := by
    have hx : 0 ≤ x.toRat := checkedMul_roundsDown.nonneg x
    have hprod : a.toRat * b.toRat ≤ x.toRat ^ (i + j) := by
      rw [pow_add]
      exact mul_le_mul ha hb (checkedMul_roundsDown.nonneg b) (pow_nonneg hx i)
    obtain ⟨c, hc⟩ := exists_checkedMul ((hprod.trans (pow_le_max hx hij)).trans_lt hmax)
    exact ⟨c, hc, (checkedMul_roundsDown.le a b c hc).trans hprod⟩
  apply exists_powLoop (P := fun k a => a.toRat ≤ x.toRat ^ k) hstep hpos (pow_one _).ge
    (m := 0) ?_ (by omega)
  rw [toRat_one, pow_zero]

/-- A power is never rounded up; for numbers up to one it is short of the exact power by at most a
unit of the last place a factor; and it fails only where the exact power does not fit. -/
theorem powFraction_accurate :
    (∀ y, powFraction x n = some y → y.toRat ≤ x.toRat ^ n.toNat ∧
      (x ≤ U68F60.one → x.toRat ^ n.toNat - n.toNat / 2 ^ 60 ≤ y.toRat)) ∧
    (x.toRat ^ n.toNat < 2 ^ 68 → ∃ y, powFraction x n = some y) := by
  refine ⟨?_, exists_powFraction⟩
  intro y hy
  unfold powFraction at hy
  split at hy
  · rename_i hzero
    cases hy
    simp [hzero, toRat_one]
  rename_i hne
  have hpos : 0 < n.toNat := by
    rw [Nat.pos_iff_ne_zero, ne_eq, ← UInt32.toNat_inj] at *
    exact hne
  refine ⟨checkedMul_roundsDown.powLoop_le hpos toRat_one hy, fun hle => ?_⟩
  have hx : x.toRat ≤ 1 := toRat_one ▸ Fixed.toRat_le_toRat hle
  have hshort := checkedMul_roundsDown.le_powLoop hpos checkedMul_comm hx toRat_one hy
  linarith

/-- Half to the power of ten. -/
theorem powFraction_accurate_half : ∃ y, powFraction (fromPercent 50) 10 = some y ∧
    y.toRat ≤ (fromPercent 50).toRat ^ 10 ∧
      (fromPercent 50).toRat ^ 10 - 10 / 2 ^ 60 ≤ y.toRat := by
  have hhalf : (fromPercent 50).toRat = 1 / 2 := by decide +kernel
  have hten : (10 : UInt32).toNat = 10 := rfl
  obtain ⟨hbounds, hdefined⟩ := powFraction_accurate (x := fromPercent 50) (n := 10)
  rw [hten] at hbounds hdefined
  obtain ⟨y, hy⟩ := hdefined (by rw [hhalf]; norm_num)
  obtain ⟨hle, hge⟩ := hbounds y hy
  exact ⟨y, hy, hle, hge (by decide)⟩

end

/-! ## Basis points and percents read back -/

section

variable {p : Profile} {d : ℕ}

theorem ofRatio_bits (n : UInt64) (d : ℕ) : (ofRatio n d).bits = n.toNat * 2 ^ 60 / d := rfl

end

end Saturn.Klend
