import Saturn.Machine.Float
import Saturn.Machine.Nearest
import Saturn.Machine.Word

/-!
# IEEE doubles

`Double` is binary64: a sign and a magnitude that fits, the two infinities and `NaN`. An operation
computes the exact result and rounds it once, to nearest and ties to even; where the rounded
magnitude does not fit, the result is an infinity. A zero has the sign that IEEE 754 gives it.

`toRat?` is the number a double stands for. What the rest of the development uses of the operations
is how they act on it: `toRat?_ofU64`, `toRat?_add` and `toU64_div_ofU64_ne_zero_iff`.
-/

namespace Machine

/-- Where finite doubles end. -/
def Double.limit : ℚ := 2 ^ (1024 : ℤ)

/-- What a finite double can be, apart from its sign. -/
@[ext] structure Magnitude where
  value : ℚ
  nonneg : 0 ≤ value
  nearest_eq : nearest value = value
  lt_limit : value < Double.limit
  deriving DecidableEq

/-- An IEEE double. -/
inductive Double where
  | nan
  | inf (negative : Bool)
  | fin (negative : Bool) (magnitude : Magnitude)
  deriving DecidableEq

theorem limit_pos : 0 < Double.limit := two_zpow_pos _

def Magnitude.zero : Magnitude := ⟨0, le_rfl, nearest_zero, limit_pos⟩

theorem nearest_nearest (q : ℚ) : nearest (nearest q) = nearest q :=
  (representable_nearest q).nearest_eq

namespace Double

/-- A sign and the rounded size of a number. -/
def ofSize (negative : Bool) (q : ℚ) : Double :=
  if h : nearest |q| < limit then
    .fin negative ⟨nearest |q|, nearest_nonneg _, nearest_nearest _, h⟩
  else .inf negative

def round (zero : Bool) (q : ℚ) : Double := ofSize (if q = 0 then zero else decide (q < 0)) q

/-- What a sign and a magnitude stand for. -/
def signed (negative : Bool) (m : Magnitude) : ℚ := if negative then -m.value else m.value

/-- The number a finite double is. -/
def toRat? : Double → Option ℚ
  | fin negative m => some (signed negative m)
  | _ => none

def neg : Double → Double
  | nan => nan
  | inf s => inf !s
  | fin s m => fin (!s) m

def add : Double → Double → Double
  | fin s m, fin t n => round (s && t) (signed s m + signed t n)
  | inf s, inf t => if s = t then inf s else nan
  | inf s, fin _ _ | fin _ _, inf s => inf s
  | nan, _ | _, nan => nan

def sub (x y : Double) : Double := x.add y.neg

def mul : Double → Double → Double
  | fin s m, fin t n => round (xor s t) (signed s m * signed t n)
  | inf s, inf t => inf (xor s t)
  | inf s, fin t m | fin t m, inf s => if m.value = 0 then nan else inf (xor s t)
  | nan, _ | _, nan => nan

def div : Double → Double → Double
  | fin s m, fin t n =>
      if n.value = 0 then if m.value = 0 then nan else inf (xor s t)
      else round (xor s t) (signed s m / signed t n)
  | inf s, fin t _ => inf (xor s t)
  | fin s _, inf t => fin (xor s t) .zero
  | inf _, inf _ => nan
  | nan, _ | _, nan => nan

def toU64 : Double → UInt64
  | nan => 0
  | inf negative => if negative then 0 else UInt64.ofNat maxU64
  | fin negative m => ratToU64 (signed negative m)

/-- `x == 0.0`: either zero is. -/
def isZero : Double → Bool
  | fin _ m => decide (m.value = 0)
  | _ => false

theorem nearest_of_ofSize_eq_zero {negative : Bool} {q : ℚ}
    (h : ofSize negative q = fin false .zero) : nearest |q| = 0 := by
  unfold ofSize at h
  split_ifs at h
  injection h with _ hm
  exact congrArg Magnitude.value hm

theorem round_natCast_eq_zero {n : ℕ} : round false n = fin false .zero ↔ n = 0 := by
  constructor
  · intro h
    by_contra hne
    have hone : (1 : ℚ) ≤ n := by exact_mod_cast Nat.one_le_iff_ne_zero.mpr hne
    have hle : nearest 1 ≤ nearest |(n : ℚ)| := by
      rw [Nat.abs_cast]
      exact nearest_mono zero_le_one hone
    rw [nearest_of_ofSize_eq_zero h] at hle
    exact absurd hle (by decide +kernel)
  · rintro rfl
    rw [Nat.cast_zero]
    decide +kernel

end Double

instance : F64 Double where
  zero := .fin false .zero
  add := .add
  sub := .sub
  mul := .mul
  div := .div
  lit q := .round false q
  ofU64 n := .round false n.toNat
  ofI64 z := .round false z.toInt
  toU64 := Double.toU64
  isZero := Double.isZero
  lit_zero := by decide +kernel
  ofU64_eq_zero n := Double.round_natCast_eq_zero.trans (UInt64.toNat_inj (b := 0))
  toU64_zero_div_zero := by decide +kernel

/-! ## Rounded numbers -/

/-- The number that a rational is rounded to, where that fits. -/
def rounded (q : ℚ) : ℚ := if q < 0 then -nearest |q| else nearest |q|

section

variable {x y : Double} {q r b : ℚ} {zero : Bool} {n : UInt64} {k : ℤ}

theorem abs_rounded (q : ℚ) : |rounded q| = nearest |q| := by
  unfold rounded
  split_ifs
  · rw [abs_neg, abs_of_nonneg (nearest_nonneg _)]
  · exact abs_of_nonneg (nearest_nonneg _)

theorem rounded_of_nonneg (hq : 0 ≤ q) : rounded q = nearest q := by
  rw [rounded, if_neg hq.not_gt, abs_of_nonneg hq]

namespace Double

theorem toRat?_round :
    (round zero q).toRat? = if nearest |q| < limit then some (rounded q) else none := by
  unfold round ofSize
  split_ifs with hfits hzero hneg
  · -- either zero stands for zero
    subst hzero
    cases zero <;> simp [toRat?, signed, rounded]
  · simp only [toRat?, signed, rounded]
    by_cases hneg : q < 0 <;> simp [hneg]
  · rfl
  · rfl

theorem toRat?_round_eq_some :
    (round zero q).toRat? = some r ↔ nearest |q| < limit ∧ r = rounded q := by
  rw [toRat?_round]
  split_ifs with h
  · simp [h, eq_comm]
  · simp [h]

theorem nearest_lt_limit (hk : k < 1024) (h : |q| ≤ 2 ^ k) (hk' : -1074 ≤ k) :
    nearest |q| < limit := by
  exact lt_of_le_of_lt ((representable_two_zpow hk').nearest_le (abs_nonneg q) h)
    (zpow_lt_zpow_right₀ (by norm_num) hk)

/-- A `u64` casts to a double that is not negative, and not even the negative zero. -/
theorem ofU64_eq (n : UInt64) :
    ∃ m : Magnitude, (F64.ofU64 n : Double) = fin false m ∧ m.value = nearest n.toNat := by
  have hn : |(n.toNat : ℚ)| ≤ 2 ^ (64 : ℤ) := by
    rw [abs_of_nonneg (Nat.cast_nonneg _)]
    exact_mod_cast n.toNat_lt.le
  have hneg : ¬ (n.toNat : ℚ) < 0 := (Nat.cast_nonneg _).not_gt
  have hsign : (if (n.toNat : ℚ) = 0 then false else decide ((n.toNat : ℚ) < 0)) = false := by
    simp [hneg]
  refine ⟨⟨_, nearest_nonneg _, nearest_nearest _,
    nearest_lt_limit (by norm_num) hn (by norm_num)⟩, ?_, ?_⟩
  · show round false n.toNat = _
    rw [round, hsign, ofSize, dif_pos]
  · show nearest |(n.toNat : ℚ)| = _
    rw [abs_of_nonneg (Nat.cast_nonneg _)]

theorem toRat?_ofU64 (n : UInt64) : (F64.ofU64 n : Double).toRat? = some (nearest n.toNat) := by
  obtain ⟨m, hm, hvalue⟩ := ofU64_eq n
  rw [hm, ← hvalue]
  rfl

/-- Two `u64` cast to the same double if they are rounded to the same number. -/
theorem ofU64_inj {n n' : UInt64} :
    (F64.ofU64 n : Double) = F64.ofU64 n' ↔ nearest n.toNat = nearest n'.toNat := by
  constructor
  · intro h
    have hrat := congrArg toRat? h
    rw [toRat?_ofU64, toRat?_ofU64] at hrat
    exact Option.some.inj hrat
  · intro h
    obtain ⟨m, hm, hv⟩ := ofU64_eq n
    obtain ⟨m', hm', hv'⟩ := ofU64_eq n'
    have heq : m = m' := Magnitude.ext (hv.trans (h.trans hv'.symm))
    rw [hm, hm', heq]

theorem toRat?_ofI64 (z : Int64) : (F64.ofI64 z : Double).toRat? = some (rounded z.toInt) := by
  have hz : |(z.toInt : ℚ)| ≤ 2 ^ (64 : ℤ) := by
    have hlt := z.toInt_lt
    have hle := z.le_toInt
    rw [abs_le]
    constructor
    · exact_mod_cast (by omega : -(2 ^ 64 : ℤ) ≤ z.toInt)
    · exact_mod_cast (by omega : z.toInt ≤ (2 ^ 64 : ℤ))
  exact toRat?_round_eq_some.mpr ⟨nearest_lt_limit (by norm_num) hz (by norm_num), rfl⟩

theorem exists_fin (h : x.toRat? = some q) : ∃ s m, x = fin s m ∧ q = signed s m := by
  cases x with
  | fin s m => exact ⟨s, m, rfl, (Option.some.inj h).symm⟩
  | nan => cases h
  | inf s => cases h

theorem toRat?_add (hx : x.toRat? = some q) (hy : y.toRat? = some r) :
    (x + y).toRat? = if nearest |q + r| < limit then some (rounded (q + r)) else none := by
  obtain ⟨s, m, rfl, rfl⟩ := exists_fin hx
  obtain ⟨t, n, rfl, rfl⟩ := exists_fin hy
  exact toRat?_round

theorem toRat?_neg : x.neg.toRat? = x.toRat?.map (-·) := by
  cases x with
  | fin s m => cases s <;> simp [neg, toRat?, signed]
  | nan => rfl
  | inf s => rfl

theorem representable_abs (hx : x.toRat? = some q) : Representable |q| := by
  obtain ⟨s, m, rfl, rfl⟩ := exists_fin hx
  rw [representable_iff]
  cases s <;> simp [signed, abs_of_nonneg m.nonneg, m.nearest_eq]

/-! ## Numbers of bounded size -/

/-- A number of at most this size. -/
def Within (x : Double) (b : ℚ) : Prop := ∃ q, x.toRat? = some q ∧ |q| ≤ b

theorem Within.mono {c : ℚ} (h : x.Within b) (hbc : b ≤ c) : x.Within c := by
  obtain ⟨q, hx, hq⟩ := h
  exact ⟨q, hx, hq.trans hbc⟩

theorem within_zero : (0 : Double).Within 0 := ⟨0, rfl, by simp⟩

theorem within_round (hk : k < 1024) (hk' : -1074 ≤ k) (h : |q| ≤ 2 ^ k) :
    (round zero q).Within (2 ^ k) := by
  refine ⟨rounded q, toRat?_round_eq_some.mpr ⟨nearest_lt_limit hk h hk', rfl⟩, ?_⟩
  rw [abs_rounded]
  exact (representable_two_zpow hk').nearest_le (abs_nonneg q) h

theorem within_ofU64 (n : UInt64) : (F64.ofU64 n : Double).Within (2 ^ (64 : ℤ)) := by
  apply within_round (by norm_num) (by norm_num)
  rw [abs_of_nonneg (Nat.cast_nonneg _)]
  exact_mod_cast n.toNat_lt.le

theorem within_ofI64 (z : Int64) : (F64.ofI64 z : Double).Within (2 ^ (64 : ℤ)) := by
  apply within_round (by norm_num) (by norm_num)
  have hlt := z.toInt_lt
  have hle := z.le_toInt
  rw [abs_le]
  constructor
  · exact_mod_cast (by omega : -(2 ^ 64 : ℤ) ≤ z.toInt)
  · exact_mod_cast (by omega : z.toInt ≤ (2 ^ 64 : ℤ))

theorem Within.add {c : ℚ} (hx : x.Within b) (hy : y.Within c) (hk : k < 1024) (hk' : -1074 ≤ k)
    (hbc : b + c ≤ 2 ^ k) : (x + y).Within (2 ^ k) := by
  obtain ⟨q, hq, hqb⟩ := hx
  obtain ⟨r, hr, hrc⟩ := hy
  have hsum : |q + r| ≤ 2 ^ k := (abs_add_le q r).trans ((add_le_add hqb hrc).trans hbc)
  refine ⟨rounded (q + r), ?_, ?_⟩
  · rw [toRat?_add hq hr, if_pos (nearest_lt_limit hk hsum hk')]
  · rw [abs_rounded]
    exact (representable_two_zpow hk').nearest_le (abs_nonneg _) hsum

/-- Small changes do not take a double past a power of two: they are rounded away first. -/
theorem Within.add_small {c : ℚ} (hx : x.Within (2 ^ k)) (hy : y.Within c) (hk : k < 1000)
    (hk' : -1000 ≤ k) (hc : c < 2 ^ (k - 53)) : (x + y).Within (2 ^ k) := by
  obtain ⟨q, hq, hqb⟩ := hx
  obtain ⟨r, hr, hrc⟩ := hy
  have hsum : |q + r| < 2 ^ k + 2 ^ (k - 53) :=
    lt_of_le_of_lt (abs_add_le q r) (add_lt_add_of_le_of_lt hqb (lt_of_le_of_lt hrc hc))
  have hle := nearest_le_two_zpow hk' (abs_nonneg _) hsum
  refine ⟨rounded (q + r), ?_, by rwa [abs_rounded]⟩
  rw [toRat?_add hq hr, if_pos]
  exact lt_of_le_of_lt hle (zpow_lt_zpow_right₀ (by norm_num) (by omega))

theorem Within.neg (hx : x.Within b) : x.neg.Within b := by
  obtain ⟨q, hq, hqb⟩ := hx
  refine ⟨-q, ?_, by rwa [abs_neg]⟩
  rw [toRat?_neg, hq]
  rfl

theorem Within.sub_small {c : ℚ} (hx : x.Within (2 ^ k)) (hy : y.Within c) (hk : k < 1000)
    (hk' : -1000 ≤ k) (hc : c < 2 ^ (k - 53)) : (x - y).Within (2 ^ k) :=
  hx.add_small hy.neg hk hk' hc

/-! ## Sums -/

theorem ratToU64_ne_zero_iff : ratToU64 q ≠ 0 ↔ 1 ≤ q := by
  have hcast : (ratToU64 q).toNat = min ⌊q⌋₊ maxU64 := toNat_toU64_rat q
  have hmax : maxU64 ≠ 0 := by decide
  rw [ne_zero_iff_toNat_pos, hcast, Nat.pos_iff_ne_zero, ne_eq, Nat.min_eq_zero_iff,
    or_iff_left hmax, Nat.floor_eq_zero, not_lt]

theorem toU64_ne_zero_of_toRat? (h : x.toRat? = some q) : F64.toU64 x ≠ 0 ↔ 1 ≤ q := by
  obtain ⟨s, m, rfl, rfl⟩ := exists_fin h
  exact ratToU64_ne_zero_iff

/-- A double divided by a `u64` casts to zero unless it is positive and at least what the `u64` is
as a double: where it is and the divisor is zero, the quotient is an infinity and casts to the
largest `u64`. -/
theorem toU64_div_ofU64_ne_zero_iff (hx : x.toRat? = some q) :
    F64.toU64 (x / F64.ofU64 n) ≠ 0 ↔ 0 < q ∧ nearest n.toNat ≤ q := by
  obtain ⟨s, m, rfl, rfl⟩ := exists_fin hx
  obtain ⟨d, hd, hdn⟩ := ofU64_eq n
  have hdiv : (fin s m / F64.ofU64 n : Double) = (fin s m).div (fin false d) := by
    rw [hd]
    rfl
  rw [hdiv, div, ← hdn]
  rcases eq_or_ne d.value 0 with hzero | hne
  · -- no token was minted
    rw [if_pos hzero, hzero]
    split_ifs with hm
    · cases s <;> simp [signed, hm, F64.toU64, toU64]
    · have hmpos := m.nonneg.lt_of_ne' hm
      cases s <;> simp [signed, hmpos, hmpos.le, F64.toU64, toU64, maxU64]
  · have hpos : 0 < d.value := d.nonneg.lt_of_ne' hne
    have hden : signed false d = d.value := rfl
    have hfits : nearest |signed s m / d.value| < limit := by
      -- the divisor is at least one
      have hone : 1 ≤ d.value := by
        have hn : (1 : ℕ) ≤ n.toNat := by
          rw [Nat.one_le_iff_ne_zero]
          intro hzero
          rw [hdn, hzero, Nat.cast_zero, nearest_zero] at hne
          exact hne rfl
        rw [hdn, ← Nat.cast_one, ← nearest_natCast (by norm_num : 1 ≤ 2 ^ 53)]
        exact nearest_mono (Nat.cast_nonneg _) (Nat.cast_le.mpr hn)
      have hsize : |signed s m| = m.value := by
        cases s <;> simp [signed, abs_of_nonneg m.nonneg]
      rw [abs_div, abs_of_pos hpos, hsize]
      have hle := nearest_mono (div_nonneg m.nonneg hpos.le) (div_le_self m.nonneg hone)
      rw [m.nearest_eq] at hle
      exact lt_of_le_of_lt hle m.lt_limit
    rw [if_neg hne, hden, toU64_ne_zero_of_toRat? (toRat?_round_eq_some.mpr ⟨hfits, rfl⟩)]
    rcases lt_or_ge 0 (signed s m) with hq | hq
    · have hrep := representable_abs (x := fin s m) rfl
      rw [abs_of_pos hq] at hrep
      rw [rounded_of_nonneg (div_nonneg hq.le hpos.le),
        one_le_nearest_div_iff hrep (representable_iff.mpr d.nearest_eq) hq.le hpos]
      simp [hq]
    · -- nothing below zero is rounded to one
      have hle : rounded (signed s m / d.value) ≤ 0 := by
        rcases hq.eq_or_lt with heq | hneg
        · simp [heq, rounded]
        · have hdiv : signed s m / d.value < 0 := div_neg_of_neg_of_pos hneg hpos
          simp [rounded, hdiv, nearest_nonneg]
      constructor
      · intro hone
        linarith
      · rintro ⟨hq', -⟩
        exact absurd hq' hq.not_gt

end Double

end

end Machine
