import Saturn.Machine.Fixed
import Mathlib.Order.Lattice
import Mathlib.Order.MinMax

/-!
# Operators on fixed point numbers

`+`, `-` and the product with an integer leave the range as the build says (`Fixed.exact`). The
product of two numbers, and `ceil` and `round`, check the range with a debug assertion only, as `/`
does, so they wrap in every release build. Numbers are compared by their bits.

The second half is about the unsigned format `U68F60`: what the operators return where the exact
result fits.
-/

namespace Machine

namespace Fixed

variable {f : FixedFormat} {ε : Type} [Panics ε]

theorem bits_injective : Function.Injective (Fixed.bits (f := f)) := fun _ _ => Fixed.ext

instance : LinearOrder (Fixed f) := LinearOrder.lift' Fixed.bits bits_injective

instance : DecidableEq (Fixed f) :=
  fun a b => decidable_of_iff (a.bits = b.bits) ⟨ext, congrArg bits⟩

/-- The operator `+`. -/
def add (p : Profile) (a b : Fixed f) : Except ε (Fixed f) := exact p (a.bits + b.bits)

/-- The operator `-`. -/
def sub (p : Profile) (a b : Fixed f) : Except ε (Fixed f) := exact p (a.bits - b.bits)

/-- The operator `*`. -/
def mul (a b : Fixed f) : Fixed f := wrap (a.bits * b.bits / 2 ^ f.frac)

/-- The operator `*` with an integer. -/
def mulInt (p : Profile) (a : Fixed f) (n : ℕ) : Except ε (Fixed f) := exact p (a.bits * n)

/-- `checked_sub`. -/
def checkedSub (a b : Fixed f) : Option (Fixed f) := ofBits? (a.bits - b.bits)

variable {a b c : Fixed f} {p : Profile} {z : ℤ} {n : ℕ}

theorem le_iff_bits : a ≤ b ↔ a.bits ≤ b.bits := Iff.rfl

theorem lt_iff_bits : a < b ↔ a.bits < b.bits := Iff.rfl

@[simp] theorem bits_min : (min a b).bits = min a.bits b.bits := by
  rcases le_total a b with h | h
  · rw [min_eq_left h, min_eq_left (le_iff_bits.mp h)]
  · rw [min_eq_right h, min_eq_right (le_iff_bits.mp h)]

@[simp] theorem bits_max : (max a b).bits = max a.bits b.bits := by
  rcases le_total a b with h | h
  · rw [max_eq_right h, max_eq_right (le_iff_bits.mp h)]
  · rw [max_eq_left h, max_eq_left (le_iff_bits.mp h)]

theorem bits_wrap (hlo : f.lo ≤ z) (hhi : z < f.hi) : (wrap z : Fixed f).bits = z := by
  have h := congrArg bits (wrap_bits (⟨z, hlo, hhi⟩ : Fixed f))
  exact h

theorem exact_eq_ok : (exact p z : Except ε (Fixed f)) = .ok c ↔
    c = wrap z ∧ (p.overflowChecks = true → f.lo ≤ z ∧ z < f.hi) := by
  simp [exact, Profile.guard_eq_ok]

theorem exact_of_range (hlo : f.lo ≤ z) (hhi : z < f.hi) :
    (exact p z : Except ε (Fixed f)) = .ok ⟨z, hlo, hhi⟩ := by
  apply exact_eq_ok.mpr
  exact ⟨ext (bits_wrap hlo hhi).symm, fun _ => ⟨hlo, hhi⟩⟩

theorem exists_exact (p : Profile) (ε : Type) [Panics ε] (hlo : f.lo ≤ z) (hhi : z < f.hi) :
    ∃ c : Fixed f, (exact p z : Except ε (Fixed f)) = .ok c ∧ c.bits = z :=
  ⟨_, exact_of_range hlo hhi, rfl⟩

theorem exact_eq_ok_of_checked (hp : p.overflowChecks = true) :
    (exact p z : Except ε (Fixed f)) = .ok c ↔ c.bits = z := by
  rw [exact_eq_ok]
  constructor
  · rintro ⟨rfl, hrange⟩
    exact bits_wrap (hrange hp).1 (hrange hp).2
  · rintro rfl
    exact ⟨(wrap_bits c).symm, fun _ => ⟨c.lo_le, c.lt_hi⟩⟩

theorem add_eq_ok (hp : p.overflowChecks = true) :
    (add p a b : Except ε (Fixed f)) = .ok c ↔ c.bits = a.bits + b.bits := exact_eq_ok_of_checked hp

theorem sub_eq_ok (hp : p.overflowChecks = true) :
    (sub p a b : Except ε (Fixed f)) = .ok c ↔ c.bits = a.bits - b.bits := exact_eq_ok_of_checked hp

theorem mulInt_eq_ok (hp : p.overflowChecks = true) :
    (mulInt p a n : Except ε (Fixed f)) = .ok c ↔ c.bits = a.bits * n := exact_eq_ok_of_checked hp

theorem checkedSub_eq_some : a.checkedSub b = some c ↔ c.bits = a.bits - b.bits := ofBits?_eq_some

end Fixed

namespace U68F60

/-- `Fraction::ZERO` -/
def zero : U68F60 := ofU64 0

/-- `Fraction::ONE` -/
def one : U68F60 := ofU64 1

/-- `round`: ties go up. -/
def round (a : U68F60) : U68F60 := Fixed.wrap ((a.bits + 2 ^ 59) / 2 ^ 60 * 2 ^ 60)

def divInt {ε : Type} [Panics ε] (a : U68F60) (n : ℕ) : Except ε U68F60 :=
  if n = 0 then .error panic
  else .ok ⟨a.bits / n, Int.ediv_nonneg a.lo_le n.cast_nonneg,
    lt_of_le_of_lt (Int.ediv_le_self _ a.lo_le) a.lt_hi⟩

variable {ε : Type} [Panics ε] {a b c : U68F60} {p : Profile} {z : ℤ} {n : ℕ}

theorem bits_nonneg (a : U68F60) : 0 ≤ a.bits := a.lo_le

theorem bits_lt (a : U68F60) : a.bits < 2 ^ 128 := a.lt_hi

@[simp] theorem bits_zero : zero.bits = 0 := rfl

@[simp] theorem bits_one : one.bits = 2 ^ 60 := rfl

@[simp] theorem bits_ofU64 (n : UInt64) : (ofU64 n).bits = n.toNat * 2 ^ 60 := rfl

theorem bits_wrap (hlo : 0 ≤ z) (hhi : z < 2 ^ 128) : (Fixed.wrap z : U68F60).bits = z :=
  Fixed.bits_wrap hlo hhi

theorem divInt_eq_ok : (divInt a n : Except ε U68F60) = .ok c ↔ n ≠ 0 ∧ c.bits = a.bits / n := by
  unfold divInt
  split
  · simp_all
  · simp_all [Fixed.ext_iff, eq_comm]

theorem bits_mul_le (a b : U68F60) : (a.mul b).bits ≤ a.bits * b.bits / 2 ^ 60 := by
  have hnonneg : 0 ≤ a.bits * b.bits / 2 ^ 60 :=
    Int.ediv_nonneg (mul_nonneg a.bits_nonneg b.bits_nonneg) (by norm_num)
  show 0 + (a.bits * b.bits / 2 ^ 60 - 0) % (2 ^ 128 - 0) ≤ _
  omega

theorem bits_mul (h : a.bits * b.bits < 2 ^ 188) : (a.mul b).bits = a.bits * b.bits / 2 ^ 60 := by
  apply bits_wrap
  · exact Int.ediv_nonneg (mul_nonneg a.bits_nonneg b.bits_nonneg) (by norm_num)
  · show a.bits * b.bits / 2 ^ 60 < 2 ^ 128
    omega

theorem div_eq_ok :
    (Fixed.div a b : Except ε U68F60) = .ok c ↔
      b.bits ≠ 0 ∧ c.bits = a.bits * 2 ^ 60 / b.bits % 2 ^ 128 := by
  have hquot : Fixed.quotBits a b = a.bits * 2 ^ 60 / b.bits :=
    Int.tdiv_eq_ediv_of_nonneg (mul_nonneg a.bits_nonneg (by norm_num))
  have hwrap : (Fixed.wrap (Fixed.quotBits a b) : U68F60).bits
      = a.bits * 2 ^ 60 / b.bits % 2 ^ 128 := by
    rw [hquot]
    show 0 + (a.bits * 2 ^ 60 / b.bits - 0) % (2 ^ 128 - 0) = _
    rw [zero_add, sub_zero, sub_zero]
  unfold Fixed.div
  split
  · rename_i hzero
    simp [hzero]
  · rename_i hne
    rw [Except.ok.injEq, Fixed.ext_iff, hwrap, and_iff_right hne, eq_comm]

theorem mul_bits_le_of_div (h : (Fixed.div a b : Except ε U68F60) = .ok c) :
    c.bits * b.bits ≤ a.bits * 2 ^ 60 := by
  obtain ⟨hne, hc⟩ := div_eq_ok.mp h
  have hpos : 0 < b.bits := lt_of_le_of_ne b.bits_nonneg (Ne.symm hne)
  have hnonneg : 0 ≤ a.bits * 2 ^ 60 / b.bits :=
    Int.ediv_nonneg (mul_nonneg a.bits_nonneg (by norm_num)) hpos.le
  have hle : c.bits ≤ a.bits * 2 ^ 60 / b.bits := by omega
  exact (mul_le_mul_of_nonneg_right hle hpos.le).trans (Int.ediv_mul_le _ hne)

/-- Where it fits it is short of the exact one by less than a unit of the last place. -/
theorem lt_mul_bits_of_div (h : (Fixed.div a b : Except ε U68F60) = .ok c)
    (hfits : a.bits * 2 ^ 60 < 2 ^ 128 * b.bits) :
    a.bits * 2 ^ 60 < c.bits * b.bits + b.bits := by
  obtain ⟨hne, hc⟩ := div_eq_ok.mp h
  have hpos : 0 < b.bits := lt_of_le_of_ne b.bits_nonneg (Ne.symm hne)
  have hnonneg : 0 ≤ a.bits * 2 ^ 60 / b.bits :=
    Int.ediv_nonneg (mul_nonneg a.bits_nonneg (by norm_num)) hpos.le
  rw [Int.emod_eq_of_lt hnonneg (Int.ediv_lt_of_lt_mul hpos hfits)] at hc
  have hlt := Int.lt_ediv_add_one_mul_self (a.bits * 2 ^ 60) hpos
  rwa [← hc, add_mul, one_mul] at hlt

theorem bits_round (h : a.bits < 2 ^ 128 - 2 ^ 59) :
    a.round.bits = (a.bits + 2 ^ 59) / 2 ^ 60 * 2 ^ 60 := by
  have := a.bits_nonneg
  exact bits_wrap (by omega) (by omega)

theorem toNat_toU64 (h : a.bits < 2 ^ 124) : (a.toU64.toNat : ℤ) = a.bits / 2 ^ 60 := by
  have hnonneg := a.bits_nonneg
  rw [Fixed.toNat_toU64]
  show a.bits / 2 ^ 60 % 2 ^ 64 = _
  exact Int.emod_eq_of_lt (by omega) (by omega)

theorem toNat_toU64_le (a : U68F60) : (a.toU64.toNat : ℤ) * 2 ^ 60 ≤ a.bits := by
  have hnonneg := a.bits_nonneg
  have hcast : (a.toU64.toNat : ℤ) = a.bits / 2 ^ 60 % 2 ^ 64 := Fixed.toNat_toU64 a
  omega

end U68F60

end Machine
