import Saturn.Machine.Word
import Mathlib.Data.Rat.Defs
import Mathlib.Data.Rat.Floor
import Mathlib.Algebra.Order.Ring.Int
import Mathlib.Tactic.Linarith

/-!
# Fixed point numbers

A fixed point number is an integer within the bounds of its format, read as a multiple of
`2 ^ -frac`. The bounds are part of the value, so a number out of range cannot be built: an
operation either says that its result does not fit (`checkedMul`, ...) or wraps.

The product is rounded down and the quotient towards zero.
-/

namespace Machine

/-- The number of fractional bits and the half-open range of the underlying integer. -/
structure FixedFormat where
  frac : ℕ
  lo : ℤ
  hi : ℤ
  lo_lt_hi : lo < hi

/-- A number of a fixed point format. -/
structure Fixed (f : FixedFormat) where
  bits : ℤ
  lo_le : f.lo ≤ bits
  lt_hi : bits < f.hi

namespace Fixed

variable {f : FixedFormat}

/-- The number with these bits, if they are in range. -/
def ofBits? (z : ℤ) : Option (Fixed f) :=
  if h : f.lo ≤ z ∧ z < f.hi then some ⟨z, h.1, h.2⟩ else none

/-- The number whose bits are congruent to `z`. -/
def wrap (z : ℤ) : Fixed f where
  bits := f.lo + (z - f.lo) % (f.hi - f.lo)
  lo_le := by
    have hne : f.hi - f.lo ≠ 0 := by have := f.lo_lt_hi; omega
    have := Int.emod_nonneg (z - f.lo) hne
    omega
  lt_hi := by
    have hpos : 0 < f.hi - f.lo := by have := f.lo_lt_hi; omega
    have := Int.emod_lt_of_pos (z - f.lo) hpos
    omega

/-- `checked_add`. -/
def checkedAdd (a b : Fixed f) : Option (Fixed f) := ofBits? (a.bits + b.bits)

/-- `checked_mul`: the exact product rounded down. -/
def checkedMul (a b : Fixed f) : Option (Fixed f) := ofBits? (a.bits * b.bits / 2 ^ f.frac)

/-- The exact quotient rounded towards zero, in bits. -/
def quotBits (a b : Fixed f) : ℤ := (a.bits * 2 ^ f.frac).tdiv b.bits

/-- `checked_div`. -/
def checkedDiv (a b : Fixed f) : Option (Fixed f) :=
  if b.bits = 0 then none else ofBits? (quotBits a b)

/-- The result with bits `z` of an operator such as `+`: out of range, it wraps unless the build
checks overflow. -/
def exact {ε : Type} [Panics ε] (p : Profile) (z : ℤ) : Except ε (Fixed f) :=
  p.guard (decide (f.lo ≤ z ∧ z < f.hi)) (wrap z)

/-- The operator `/`. It checks its range with a debug assertion only, so it wraps in every release
build; a zero divisor panics. -/
def div {ε : Type} [Panics ε] (a b : Fixed f) : Except ε (Fixed f) :=
  if b.bits = 0 then .error panic else .ok (wrap (quotBits a b))

def floor (a : Fixed f) : ℤ := a.bits / 2 ^ f.frac

/-- `to_num::<u64>`: the integer part, which wraps in every release build. -/
def toU64 (a : Fixed f) : UInt64 := UInt64.ofInt a.floor

def toRat (a : Fixed f) : ℚ := a.bits / 2 ^ f.frac

end Fixed

/-- The format of `I80F48`. -/
def FixedFormat.i80f48 : FixedFormat := ⟨48, -2 ^ 127, 2 ^ 127, by decide⟩

/-- The format of `U68F60`. -/
def FixedFormat.u68f60 : FixedFormat := ⟨60, 0, 2 ^ 128, by decide⟩

abbrev I80F48 := Fixed .i80f48

abbrev U68F60 := Fixed .u68f60

/-- `I80F48::from` on a `u64`. -/
def I80F48.ofU64 (n : UInt64) : I80F48 where
  bits := n.toNat * 2 ^ 48
  lo_le := by
    have : (0 : ℤ) ≤ n.toNat * 2 ^ 48 := by positivity
    exact le_trans (by decide) this
  lt_hi := by
    have := n.toNat_lt
    simp only [FixedFormat.i80f48]
    omega

/-- `U68F60::from` on a `u64`. -/
def U68F60.ofU64 (n : UInt64) : U68F60 where
  bits := n.toNat * 2 ^ 60
  lo_le := by
    have : (0 : ℤ) ≤ n.toNat * 2 ^ 60 := by positivity
    exact this
  lt_hi := by
    have := n.toNat_lt
    simp only [FixedFormat.u68f60]
    omega

/-! ## Checked results

A result is a number of the format whose bits are those of the rounded one. That they are in range
is part of it. -/

namespace Fixed

variable {f : FixedFormat} {a b c : Fixed f} {z : ℤ}

@[ext] theorem ext (h : a.bits = b.bits) : a = b := by
  cases a
  cases b
  cases h
  rfl

theorem ofBits?_eq_some : (ofBits? z : Option (Fixed f)) = some c ↔ c.bits = z := by
  unfold ofBits?
  constructor
  · intro h
    split at h
    · cases h
      rfl
    · cases h
  · rintro rfl
    rw [dif_pos ⟨c.lo_le, c.lt_hi⟩]

theorem checkedAdd_eq_some : a.checkedAdd b = some c ↔ c.bits = a.bits + b.bits := ofBits?_eq_some

theorem checkedMul_eq_some : a.checkedMul b = some c ↔ c.bits = a.bits * b.bits / 2 ^ f.frac :=
  ofBits?_eq_some

theorem checkedDiv_eq_some :
    a.checkedDiv b = some c ↔ b.bits ≠ 0 ∧ c.bits = (a.bits * 2 ^ f.frac).tdiv b.bits := by
  unfold checkedDiv
  split
  · simp_all
  · simp_all [ofBits?_eq_some, quotBits]

theorem checkedDiv_eq_some_of_nonneg (ha : 0 ≤ a.bits) :
    a.checkedDiv b = some c ↔ b.bits ≠ 0 ∧ c.bits = a.bits * 2 ^ f.frac / b.bits := by
  rw [checkedDiv_eq_some, Int.tdiv_eq_ediv_of_nonneg (by positivity)]

theorem exists_bits (hlo : a.bits ≤ z) (hhi : z ≤ b.bits) : ∃ c : Fixed f, c.bits = z :=
  ⟨⟨z, le_trans a.lo_le hlo, lt_of_le_of_lt hhi b.lt_hi⟩, rfl⟩

/-! The exact values are ordered as the bits are. -/

theorem toRat_le_toRat (h : a.bits ≤ b.bits) : a.toRat ≤ b.toRat := by
  have hcast : (a.bits : ℚ) ≤ b.bits := Int.cast_le.mpr h
  exact div_le_div_of_nonneg_right hcast (by positivity)

theorem toRat_nonneg (h : 0 ≤ a.bits) : 0 ≤ a.toRat := by
  have hcast : (0 : ℚ) ≤ a.bits := Int.cast_nonneg h
  exact div_nonneg hcast (by positivity)

end Fixed

/-! ## Arithmetic with one -/

theorem Fixed.wrap_bits {f : FixedFormat} (a : Fixed f) : (Fixed.wrap a.bits : Fixed f) = a := by
  have hlo := a.lo_le
  have hhi := a.lt_hi
  have hmod : f.lo + (a.bits - f.lo) % (f.hi - f.lo) = a.bits := by
    rw [Int.emod_eq_of_lt (by omega) (by omega)]
    ring
  cases a
  simp only [Fixed.wrap, Fixed.mk.injEq]
  exact hmod

theorem U68F60.div_one {ε : Type} [Panics ε] (a : U68F60) :
    (Fixed.div a (U68F60.ofU64 1) : Except ε U68F60) = .ok a := by
  have hquot : Fixed.quotBits a (U68F60.ofU64 1) = a.bits :=
    Int.mul_tdiv_cancel a.bits (by decide : (2 ^ 60 : ℤ) ≠ 0)
  have hne : (U68F60.ofU64 1).bits ≠ 0 := by decide
  rw [Fixed.div, if_neg hne, hquot, Fixed.wrap_bits]

theorem U68F60.toU64_ofU64 (n : UInt64) : (U68F60.ofU64 n).toU64 = n := by
  have hfloor : (U68F60.ofU64 n).floor = n.toNat :=
    Int.mul_ediv_cancel n.toNat (by decide : (2 ^ 60 : ℤ) ≠ 0)
  have hlt := n.toNat_lt
  rw [Fixed.toU64, hfloor, UInt64.ofInt, Int.emod_eq_of_lt (by omega) (by omega), Int.toNat_natCast,
    UInt64.ofNat_toNat]

theorem Fixed.toNat_toU64 {f : FixedFormat} (a : Fixed f) :
    (a.toU64.toNat : ℤ) = a.floor % 2 ^ 64 := by
  have hnonneg : 0 ≤ a.floor % 2 ^ 64 := Int.emod_nonneg _ (by decide)
  have hlt : a.floor % 2 ^ 64 < 2 ^ 64 := Int.emod_lt_of_pos _ (by decide)
  rw [toU64, UInt64.ofInt, UInt64.toNat_ofNat']
  omega

theorem Fixed.floor_toRat {f : FixedFormat} (a : Fixed f) : ⌊a.toRat⌋ = a.floor := by
  have hcast : a.toRat = (a.bits : ℚ) / ((2 ^ f.frac : ℕ) : ℚ) := by
    rw [Fixed.toRat]
    push_cast
    rfl
  rw [hcast, Rat.floor_intCast_div_natCast, Fixed.floor]
  push_cast
  rfl

theorem U68F60.toNat_toU64_wrap (z : ℤ) :
    ((Fixed.wrap z : U68F60).toU64.toNat : ℤ) = z / 2 ^ 60 % 2 ^ 64 := by
  have hfloor : (Fixed.wrap z : U68F60).floor = z % 2 ^ 128 / 2 ^ 60 := by
    show (0 + (z - 0) % (2 ^ 128 - 0)) / 2 ^ 60 = _
    rw [zero_add, sub_zero, sub_zero]
  rw [Fixed.toNat_toU64, hfloor]
  omega

/-! ## Arithmetic with whole numbers -/

theorem I80F48.checkedMul_ofU64 {a c : I80F48} {n : UInt64} :
    a.checkedMul (I80F48.ofU64 n) = some c ↔ c.bits = a.bits * n.toNat := by
  have hbits : a.bits * (I80F48.ofU64 n).bits / 2 ^ FixedFormat.i80f48.frac = a.bits * n.toNat := by
    show a.bits * (n.toNat * 2 ^ 48) / 2 ^ 48 = _
    rw [← mul_assoc, Int.mul_ediv_cancel _ (by decide)]
  rw [Fixed.checkedMul_eq_some, hbits]

theorem I80F48.checkedDiv_ofU64 {a c : I80F48} {n : UInt64} (ha : 0 ≤ a.bits) (hn : n ≠ 0) :
    a.checkedDiv (I80F48.ofU64 n) = some c ↔ c.bits = a.bits / n.toNat := by
  have hpos : 0 < n.toNat := ne_zero_iff_toNat_pos.mp hn
  have hbits : a.bits * 2 ^ FixedFormat.i80f48.frac / (I80F48.ofU64 n).bits = a.bits / n.toNat :=
    Int.mul_ediv_mul_of_pos_left _ _ (by decide)
  have hne : (I80F48.ofU64 n).bits ≠ 0 := by
    show (n.toNat * 2 ^ 48 : ℤ) ≠ 0
    positivity
  rw [Fixed.checkedDiv_eq_some_of_nonneg ha, hbits, and_iff_right hne]

theorem I80F48.checkedMul_one (a : I80F48) : a.checkedMul (I80F48.ofU64 1) = some a :=
  checkedMul_ofU64.mpr (mul_one a.bits).symm

end Machine
