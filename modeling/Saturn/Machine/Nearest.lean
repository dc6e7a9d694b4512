import Mathlib.Data.Int.Log
import Mathlib.Data.Rat.Floor
import Mathlib.Tactic.Linarith
import Mathlib.Tactic.Positivity
import Mathlib.Tactic.Ring
import Mathlib.Tactic.FieldSimp

/-!
# Rounding to the nearest double

The magnitudes that IEEE 754 binary64 can hold are the multiples `m * 2 ^ e` of a power of two from
`2 ^ -1074` on, with at most 53 bits in `m` (`Representable`). `nearest` rounds a nonnegative
rational to one of them, and a tie to the one with an even `m`. What the largest finite double is
does not matter here.

The order facts follow from three: `nearest` is monotone, what it returns is representable, and it
leaves what is representable alone.
-/

namespace Machine

/-! ## To the nearest integer -/

/-- The integer closest to a nonnegative rational, the even one of two. -/
def roundEven (q : ℚ) : ℕ :=
  if q - ⌊q⌋₊ < 1 / 2 then ⌊q⌋₊
  else if 1 / 2 < q - ⌊q⌋₊ then ⌊q⌋₊ + 1
  else ⌊q⌋₊ + ⌊q⌋₊ % 2

section

variable {q r : ℚ} {n : ℕ}

@[simp] theorem roundEven_natCast (n : ℕ) : roundEven n = n := by
  simp [roundEven]

theorem floor_le_roundEven (q : ℚ) : ⌊q⌋₊ ≤ roundEven q := by
  unfold roundEven
  split_ifs <;> omega

theorem roundEven_le_floor_add_one (q : ℚ) : roundEven q ≤ ⌊q⌋₊ + 1 := by
  unfold roundEven
  split_ifs <;> omega

theorem roundEven_mono (h : q ≤ r) : roundEven q ≤ roundEven r := by
  rcases (Nat.floor_le_floor h).lt_or_eq with hlt | heq
  · -- already the floors are an integer apart
    calc roundEven q ≤ ⌊q⌋₊ + 1 := roundEven_le_floor_add_one q
      _ ≤ ⌊r⌋₊ := hlt
      _ ≤ roundEven r := floor_le_roundEven r
  · unfold roundEven
    rw [heq]
    split_ifs <;> first | omega | linarith

theorem roundEven_eq_of_lt (hn : n ≤ q) (hlt : q < n + 1 / 2) : roundEven q = n := by
  have hfloor : ⌊q⌋₊ = n := by
    apply (Nat.floor_eq_iff (by linarith [n.cast_nonneg (α := ℚ)])).mpr
    exact ⟨hn, by linarith⟩
  rw [roundEven, hfloor, if_pos (by linarith)]

end

/-! ## To the nearest double -/

/-- A number that a double can be, apart from its sign and the largest exponent. -/
def Representable (x : ℚ) : Prop := ∃ (m : ℕ) (e : ℤ), m ≤ 2 ^ 53 ∧ -1074 ≤ e ∧ x = m * 2 ^ e

/-- How far the doubles around a number lie apart. -/
def spacing (q : ℚ) : ℚ := 2 ^ max (Int.log 2 q - 52) (-1074)

/-- The double closest to a nonnegative rational. -/
def nearest (q : ℚ) : ℚ := roundEven (q / spacing q) * spacing q

section

variable {q r x y : ℚ} {n : ℕ} {k : ℤ}

theorem spacing_pos (q : ℚ) : 0 < spacing q := zpow_pos (by norm_num) _

theorem two_zpow_pos (k : ℤ) : (0 : ℚ) < 2 ^ k := zpow_pos (by norm_num) k

theorem div_spacing_lt (q : ℚ) : q / spacing q < 2 ^ 53 := by
  rw [div_lt_iff₀ (spacing_pos q)]
  calc q < 2 ^ (Int.log 2 q + 1) := Int.lt_zpow_succ_log_self (by norm_num) q
    _ = 2 ^ 53 * 2 ^ (Int.log 2 q - 52) := by
      rw [← zpow_natCast, ← zpow_add₀ (by norm_num)]
      congr 1
      push_cast
      ring
    _ ≤ 2 ^ 53 * spacing q :=
      mul_le_mul_of_nonneg_left (zpow_le_zpow_right₀ (by norm_num) (le_max_left _ _)) (by norm_num)

theorem roundEven_div_spacing_le (q : ℚ) : roundEven (q / spacing q) ≤ 2 ^ 53 := by
  have hlt : q / spacing q ≤ (2 ^ 53 : ℕ) := by
    push_cast
    exact (div_spacing_lt q).le
  have h := roundEven_mono hlt
  rwa [roundEven_natCast] at h

theorem nearest_nonneg (q : ℚ) : 0 ≤ nearest q := mul_nonneg (Nat.cast_nonneg _) (spacing_pos q).le

theorem representable_nearest (q : ℚ) : Representable (nearest q) :=
  ⟨_, _, roundEven_div_spacing_le q, le_max_right _ _, rfl⟩

theorem Representable.exists_mul_spacing (h : Representable x) : ∃ n : ℕ, x = n * spacing x := by
  obtain ⟨m, e, hm, he, hx⟩ := h
  rcases Nat.eq_zero_or_pos m with rfl | hpos
  · exact ⟨0, by rw [hx]; simp⟩
  have hx0 : 0 < x := by
    rw [hx]
    exact mul_pos (Nat.cast_pos.mpr hpos) (two_zpow_pos e)
  rcases hm.lt_or_eq with hlt | rfl
  · -- `m` is below `2 ^ 53`, so the spacing is at most `2 ^ e`
    have hlog : Int.log 2 x - 52 ≤ e := by
      have hlt' : x < (2 : ℕ) ^ (e + 53) := by
        rw [hx, zpow_add₀ (by norm_num), mul_comm]
        push_cast
        exact mul_lt_mul_of_pos_left (by exact_mod_cast hlt) (two_zpow_pos e)
      have := (Int.lt_zpow_iff_log_lt (by norm_num) hx0).mp hlt'
      omega
    obtain ⟨k, hk⟩ := Int.eq_ofNat_of_zero_le (sub_nonneg.mpr (max_le hlog he))
    refine ⟨m * 2 ^ k, ?_⟩
    have hsplit : e = k + max (Int.log 2 x - 52) (-1074) := by omega
    calc x = m * 2 ^ e := hx
      _ = m * (2 ^ (k : ℤ) * spacing x) := by
        rw [spacing, ← zpow_add₀ (by norm_num), ← hsplit]
      _ = _ := by
        push_cast
        rw [zpow_natCast]
        ring
  · -- `2 ^ 53 * 2 ^ e` is the first number of the next binade
    have hx' : x = (2 : ℕ) ^ (e + 53) := by
      rw [hx, zpow_add₀ (by norm_num), mul_comm]
      push_cast
      norm_num
    have hlog : Int.log 2 x = e + 53 := by
      rw [hx']
      exact Int.log_zpow (by norm_num) _
    refine ⟨2 ^ 52, ?_⟩
    have hmax : max (Int.log 2 x - 52) (-1074) = e + 1 := by omega
    rw [spacing, hmax, hx', show e + 53 = 52 + (e + 1) by ring, zpow_add₀ (by norm_num)]
    push_cast
    norm_num

theorem Representable.nearest_eq (h : Representable x) : nearest x = x := by
  obtain ⟨n, hn⟩ := h.exists_mul_spacing
  have hdiv : x / spacing x = n := by
    rw [div_eq_iff (spacing_pos x).ne']
    exact hn
  rw [nearest, hdiv, roundEven_natCast]
  exact hn.symm

theorem representable_iff : Representable x ↔ nearest x = x := by
  constructor
  · exact Representable.nearest_eq
  · intro h
    rw [← h]
    exact representable_nearest x

theorem representable_natCast (h : n ≤ 2 ^ 53) : Representable n :=
  ⟨n, 0, h, by norm_num, by simp⟩

theorem representable_zero : Representable 0 := by
  simpa using representable_natCast (Nat.zero_le (2 ^ 53))

theorem representable_two_zpow (hk : -1074 ≤ k) : Representable (2 ^ k) :=
  ⟨1, k, by norm_num, hk, by simp⟩

@[simp] theorem nearest_zero : nearest 0 = 0 := representable_zero.nearest_eq

theorem nearest_natCast (h : n ≤ 2 ^ 53) : nearest n = n := (representable_natCast h).nearest_eq

theorem nearest_mono (hq : 0 ≤ q) (h : q ≤ r) : nearest q ≤ nearest r := by
  rcases hq.eq_or_lt with rfl | hpos
  · rw [nearest_zero]
    exact nearest_nonneg r
  have hlog := Int.log_mono_right (b := 2) hpos h
  rcases (max_le_max_right (-1074) (sub_le_sub_right hlog 52)).lt_or_eq with hlt | heq
  · -- a power of two that both sides know lies between
    set e := max (Int.log 2 r - 52) (-1074) with he
    have hlt' : Int.log 2 q - 52 < e ∧ e = Int.log 2 r - 52 := by omega
    have hpow : Representable (2 ^ (e + 52)) := ⟨2 ^ 52, e, by norm_num, by omega, by
      rw [zpow_add₀ (by norm_num), mul_comm]
      push_cast
      norm_num⟩
    have hbelow : nearest q ≤ 2 ^ (e + 52) := by
      have hle : roundEven (q / spacing q) * spacing q ≤ 2 ^ 53 * spacing q := by
        apply mul_le_mul_of_nonneg_right _ (spacing_pos q).le
        exact_mod_cast roundEven_div_spacing_le q
      apply hle.trans
      rw [spacing, ← zpow_natCast, ← zpow_add₀ (by norm_num)]
      exact zpow_le_zpow_right₀ (by norm_num) (by push_cast; omega)
    have habove : (2 : ℚ) ^ (e + 52) ≤ nearest r := by
      have hr : (2 : ℚ) ^ (e + 52) ≤ r := by
        have hself := Int.zpow_log_le_self (b := 2) (by norm_num) (hpos.trans_le h)
        rwa [show Int.log 2 r = e + 52 by omega] at hself
      have hdiv : ((2 ^ 52 : ℕ) : ℚ) ≤ r / spacing r := by
        rw [le_div_iff₀ (spacing_pos r), spacing, ← he]
        refine le_trans (le_of_eq ?_) hr
        rw [add_comm, zpow_add₀ (by norm_num)]
        push_cast
        norm_num
      have hround := roundEven_mono hdiv
      rw [roundEven_natCast] at hround
      calc (2 : ℚ) ^ (e + 52) = (2 ^ 52 : ℕ) * spacing r := by
            rw [spacing, ← he, add_comm, zpow_add₀ (by norm_num)]
            push_cast
            norm_num
        _ ≤ nearest r := mul_le_mul_of_nonneg_right (by exact_mod_cast hround) (spacing_pos r).le
    exact hbelow.trans habove
  · -- the same spacing: rounding to integers is monotone
    have hspacing : spacing q = spacing r := by rw [spacing, spacing, heq]
    rw [nearest, nearest, hspacing]
    apply mul_le_mul_of_nonneg_right _ (spacing_pos r).le
    have hdiv := div_le_div_of_nonneg_right h (spacing_pos r).le
    exact_mod_cast roundEven_mono hdiv

theorem Representable.le_nearest (h : Representable x) (hx : 0 ≤ x) (hle : x ≤ q) :
    x ≤ nearest q := by
  rw [← h.nearest_eq]
  exact nearest_mono hx hle

theorem Representable.nearest_le (h : Representable x) (hq : 0 ≤ q) (hle : q ≤ x) :
    nearest q ≤ x := by
  rw [← h.nearest_eq]
  exact nearest_mono hq hle

theorem nearest_le_two_mul (h : 2 ^ (-1074 : ℤ) ≤ q) : nearest q ≤ 2 * q := by
  have hpos : 0 < q := (two_zpow_pos _).trans_le h
  have hlog : -1074 ≤ Int.log 2 q := by
    apply (Int.zpow_le_iff_le_log (by norm_num) hpos).mp
    exact_mod_cast h
  have hup := (representable_two_zpow (by omega : -1074 ≤ Int.log 2 q + 1)).nearest_le hpos.le
    (by exact_mod_cast (Int.lt_zpow_succ_log_self (by norm_num) q).le)
  have hlow := Int.zpow_log_le_self (b := 2) (by norm_num) hpos
  push_cast at hlow
  rw [zpow_add₀ (by norm_num), zpow_one] at hup
  linarith

theorem half_le_nearest (h : 2 ^ (-1074 : ℤ) ≤ q) : q / 2 ≤ nearest q := by
  have hpos : 0 < q := (two_zpow_pos _).trans_le h
  have hlog : -1074 ≤ Int.log 2 q := by
    apply (Int.zpow_le_iff_le_log (by norm_num) hpos).mp
    exact_mod_cast h
  have hself : (2 : ℚ) ^ Int.log 2 q ≤ q := by
    exact_mod_cast Int.zpow_log_le_self (b := 2) (by norm_num) hpos
  have hlow := (representable_two_zpow hlog).le_nearest (two_zpow_pos _).le hself
  have hlt : q < 2 ^ (Int.log 2 q + 1) := by
    exact_mod_cast Int.lt_zpow_succ_log_self (b := 2) (by norm_num) q
  rw [zpow_add₀ (by norm_num), zpow_one] at hlt
  linarith

theorem two_zpow_le_natCast (h : 0 < n) : (2 : ℚ) ^ (-1074 : ℤ) ≤ n :=
  (zpow_le_one_of_nonpos₀ (by norm_num) (by norm_num)).trans (by exact_mod_cast h)

theorem nearest_le_two_zpow (hk : -1000 ≤ k) (hq : 0 ≤ q) (h : q < 2 ^ k + 2 ^ (k - 53)) :
    nearest q ≤ 2 ^ k := by
  rcases le_or_gt q (2 ^ k) with hle | hgt
  · exact (representable_two_zpow (by omega)).nearest_le hq hle
  have hpos : 0 < q := (two_zpow_pos k).trans hgt
  have hlog : Int.log 2 q = k := by
    have hlow := (Int.zpow_le_iff_le_log (b := 2) (by norm_num) hpos).mp (by exact_mod_cast hgt.le)
    have hhigh : Int.log 2 q < k + 1 := by
      apply (Int.lt_zpow_iff_log_lt (by norm_num) hpos).mp
      push_cast
      have hsmall : (2 : ℚ) ^ (k - 53) ≤ 2 ^ k := zpow_le_zpow_right₀ (by norm_num) (by omega)
      rw [zpow_add₀ (by norm_num), zpow_one]
      linarith
    omega
  have hspacing : spacing q = 2 ^ (k - 52) := by
    rw [spacing, hlog, max_eq_left (by omega)]
  have hsplit : (2 : ℚ) ^ k = 2 ^ 52 * 2 ^ (k - 52) := by
    rw [← zpow_natCast, ← zpow_add₀ (by norm_num)]
    congr 1
    push_cast
    ring
  have hhalf : (2 : ℚ) ^ (k - 53) = 1 / 2 * 2 ^ (k - 52) := by
    rw [show k - 52 = (k - 53) + 1 by ring, zpow_add₀ (by norm_num), zpow_one]
    ring
  -- less than half a spacing above the power
  have hround : roundEven (q / spacing q) = 2 ^ 52 := by
    apply roundEven_eq_of_lt
    · rw [le_div_iff₀ (spacing_pos q), hspacing]
      push_cast
      linarith
    · rw [div_lt_iff₀ (spacing_pos q), hspacing]
      push_cast
      rw [add_mul]
      linarith
  rw [nearest, hround, hspacing, hsplit]
  push_cast
  exact le_rfl

/-! ### Quotients of doubles -/

theorem add_two_zpow_le {a b : ℕ} {i j : ℤ} (hi : k ≤ i) (hj : k ≤ j)
    (h : (a : ℚ) * 2 ^ i < b * 2 ^ j) :
    a * 2 ^ i + 2 ^ k ≤ (b * 2 ^ j : ℚ) := by
  obtain ⟨m, hm⟩ := Int.eq_ofNat_of_zero_le (sub_nonneg.mpr hi)
  obtain ⟨n, hn⟩ := Int.eq_ofNat_of_zero_le (sub_nonneg.mpr hj)
  have hsplit {e : ℤ} {l : ℕ} (he : e - k = l) : (2 : ℚ) ^ e = (2 ^ l : ℕ) * 2 ^ k := by
    rw [show e = l + k by omega, zpow_add₀ (by norm_num), zpow_natCast]
    push_cast
    rfl
  rw [hsplit hm, hsplit hn, ← mul_assoc, ← mul_assoc] at h ⊢
  have hlt := lt_of_mul_lt_mul_right h (two_zpow_pos k).le
  have hle : (a * (2 ^ m : ℕ) + 1 : ℚ) ≤ b * (2 ^ n : ℕ) := by exact_mod_cast hlt
  have hmul := mul_le_mul_of_nonneg_right hle (two_zpow_pos k).le
  rwa [add_mul, one_mul] at hmul

theorem Representable.add_le (hx : Representable x) (hy : Representable y) (hlt : x < y) :
    x + 2 ^ (-53 : ℤ) * y ≤ y := by
  obtain ⟨a, i, ha, -, rfl⟩ := hx
  obtain ⟨b, j, hb, -, rfl⟩ := hy
  have hbit {c : ℕ} {e : ℤ} (hc : c ≤ 2 ^ 53) : (2 : ℚ) ^ (-53 : ℤ) * (c * 2 ^ e) ≤ 2 ^ e := by
    have hc' : (c : ℚ) ≤ 2 ^ 53 := by exact_mod_cast hc
    have h := mul_le_mul_of_nonneg_right hc' (two_zpow_pos e).le
    norm_num
    linarith
  rcases le_or_gt j i with hji | hij
  · exact (add_le_add_right (hbit hb) _).trans (add_two_zpow_le hji le_rfl hlt)
  -- from here on `y` has the larger exponent
  have htop : (a : ℚ) * 2 ^ i ≤ (1 : ℕ) * 2 ^ (i + 53) := by
    have ha' : (a : ℚ) ≤ 2 ^ 53 := by exact_mod_cast ha
    rw [zpow_add₀ (by norm_num)]
    have h := mul_le_mul_of_nonneg_right ha' (two_zpow_pos i).le
    norm_num at h ⊢
    linarith
  rcases le_or_gt ((b : ℚ) * 2 ^ j) ((1 : ℕ) * 2 ^ (i + 53)) with hle | hgt
  · -- the smaller spacing is still the last bit of `y`
    have hlast : (2 : ℚ) ^ (-53 : ℤ) * (b * 2 ^ j) ≤ 2 ^ i := by
      have h := mul_le_mul_of_nonneg_left hle (two_zpow_pos (-53)).le
      rw [zpow_add₀ (by norm_num)] at h
      norm_num at h ⊢
      linarith
    exact (add_le_add_right hlast _).trans (add_two_zpow_le le_rfl hij.le hlt)
  rcases le_or_gt j (i + 53) with hj | hj
  · -- `y` is past the binade of `x`, and so is the last bit
    have hgap := add_two_zpow_le hj le_rfl hgt
    have hlast := hbit (e := j) hb
    linarith
  · -- `y` is even twice as large
    have hb0 : (1 : ℚ) ≤ b := by
      rcases Nat.eq_zero_or_pos b with rfl | hpos
      · have := two_zpow_pos (i + 53)
        norm_num at hgt
        linarith
      · exact_mod_cast hpos
    have htwice : (2 : ℚ) * 2 ^ (i + 53) ≤ 2 ^ j := by
      rw [← zpow_one_add₀ (by norm_num)]
      exact zpow_le_zpow_right₀ (by norm_num) (by omega)
    have hy := le_mul_of_one_le_left (two_zpow_pos j).le hb0
    have hsmall : (2 : ℚ) ^ (-53 : ℤ) ≤ 1 / 2 := by norm_num
    have hlast := mul_le_mul_of_nonneg_right hsmall ((two_zpow_pos j).le.trans hy)
    rw [Nat.cast_one, one_mul] at htop
    calc (a : ℚ) * 2 ^ i + 2 ^ (-53 : ℤ) * (b * 2 ^ j)
        ≤ 1 / 2 * (b * 2 ^ j) + 1 / 2 * (b * 2 ^ j) := add_le_add (by linarith) hlast
      _ = b * 2 ^ j := by ring

/-- The quotient of two doubles is rounded to one or more only if it is one or more. -/
theorem one_le_nearest_div_iff (hx : Representable x) (hy : Representable y) (hx0 : 0 ≤ x)
    (hy0 : 0 < y) :
    1 ≤ nearest (x / y) ↔ y ≤ x := by
  constructor
  · intro hone
    by_contra hlt
    have hgap := hx.add_le hy (not_le.mp hlt)
    have hdiv : x / y ≤ ((2 ^ 53 - 1 : ℕ) : ℚ) * 2 ^ (-53 : ℤ) := by
      rw [div_le_iff₀ hy0]
      norm_num at hgap ⊢
      linarith
    have hbelow : Representable (((2 ^ 53 - 1 : ℕ) : ℚ) * 2 ^ (-53 : ℤ)) :=
      ⟨_, _, Nat.sub_le _ _, by norm_num, rfl⟩
    have hlast := hone.trans (hbelow.nearest_le (div_nonneg hx0 hy0.le) hdiv)
    norm_num at hlast
  · intro hle
    have hone : Representable 1 := by simpa using representable_natCast (by norm_num : 1 ≤ 2 ^ 53)
    exact hone.le_nearest zero_le_one ((one_le_div hy0).mpr hle)

end

end Machine
