import Saturn.Klend.ReserveRuns

/-!
# Interest

`approximate_compounded_interest` computes a power itself up to the exponent four, and four terms of
its binomial series beyond. `compoundedBits` is what it computes in bits. It lies between simple
interest and the exact power (`approximateCompoundedInterest_bounds`), and neither a longer time nor
a higher rate lowers it, also not where the formula changes (`approximateCompoundedInterest_mono`).

So the index of a reserve never falls (`cumulativeBorrowRate_le`).
-/

namespace Saturn.Klend

open Machine Transition

/-! ## In bits -/

section

variable {a b c : ℤ} {n : ℕ}

def squareBits (b : ℤ) : ℤ := b * b / 2 ^ 60

def cubeBits (b : ℤ) : ℤ := squareBits b * b / 2 ^ 60

/-- Four terms of the binomial series. -/
def seriesBits (b : ℤ) (n : ℕ) : ℤ :=
  2 ^ 60 + b * n + squareBits b * n * (n - 1 : ℕ) / 2
    + cubeBits b * n * (n - 1 : ℕ) * (n - 2 : ℕ) / 6

/-- The bits of the interest on one, for a slot's rate with the bits `b`. -/
def compoundedBits (b : ℤ) (n : ℕ) : ℤ :=
  match n with
  | 0 => 2 ^ 60
  | 1 => 2 ^ 60 + b
  | 2 => squareBits (2 ^ 60 + b)
  | 3 => cubeBits (2 ^ 60 + b)
  | 4 => squareBits (squareBits (2 ^ 60 + b))
  | n => seriesBits b n

theorem squareBits_nonneg : 0 ≤ squareBits b := Int.ediv_nonneg (mul_self_nonneg b) (by norm_num)

theorem cubeBits_nonneg (hb : 0 ≤ b) : 0 ≤ cubeBits b :=
  Int.ediv_nonneg (mul_nonneg squareBits_nonneg hb) (by norm_num)

theorem squareBits_le_squareBits (ha : 0 ≤ a) (h : a ≤ b) : squareBits a ≤ squareBits b :=
  Int.ediv_le_ediv (by norm_num) (mul_self_le_mul_self ha h)

theorem cubeBits_le_cubeBits (ha : 0 ≤ a) (h : a ≤ b) : cubeBits a ≤ cubeBits b := by
  apply Int.ediv_le_ediv (by norm_num)
  exact mul_le_mul (squareBits_le_squareBits ha h) h ha squareBits_nonneg

/-- The square of one and a number is exact but for the square of the number. -/
theorem squareBits_one_add : squareBits (2 ^ 60 + b) = 2 ^ 60 + 2 * b + squareBits b := by
  have hsplit : (2 ^ 60 + b) * (2 ^ 60 + b) = b * b + (2 ^ 60 + 2 * b) * 2 ^ 60 := by ring
  rw [squareBits, squareBits, hsplit, Int.add_mul_ediv_right _ _ (by norm_num)]
  ring

theorem mul_one_add_div : c * (2 ^ 60 + b) / 2 ^ 60 = c + c * b / 2 ^ 60 := by
  have hsplit : c * (2 ^ 60 + b) = c * b + c * 2 ^ 60 := by ring
  rw [hsplit, Int.add_mul_ediv_right _ _ (by norm_num)]
  ring

theorem seriesBits_mono {m : ℕ} (ha : 0 ≤ a) (hab : a ≤ b) (hnm : n ≤ m) :
    seriesBits a n ≤ seriesBits b m := by
  have hsquare := squareBits_le_squareBits ha hab
  have hcube := cubeBits_le_cubeBits ha hab
  have hb : 0 ≤ b := ha.trans hab
  have hsquare_mul : 0 ≤ squareBits b * m := mul_nonneg squareBits_nonneg (Int.natCast_nonneg m)
  have hcube_nonneg : 0 ≤ cubeBits b := cubeBits_nonneg hb
  have hcube_mul : 0 ≤ cubeBits b * m := mul_nonneg hcube_nonneg (Int.natCast_nonneg m)
  have hcube_mul_pred : 0 ≤ cubeBits b * m * (m - 1 : ℕ) :=
    mul_nonneg hcube_mul (Int.natCast_nonneg _)
  have hsquare_nonneg : 0 ≤ squareBits b := squareBits_nonneg
  have hpred : ((n - 1 : ℕ) : ℤ) ≤ (m - 1 : ℕ) := by omega
  have hpred_two : ((n - 2 : ℕ) : ℤ) ≤ (m - 2 : ℕ) := by omega
  have hlinear : a * n ≤ b * m := by gcongr
  have hquad : squareBits a * n * (n - 1 : ℕ) ≤ squareBits b * m * (m - 1 : ℕ) := by gcongr
  have hcubic : cubeBits a * n * (n - 1 : ℕ) * (n - 2 : ℕ)
      ≤ cubeBits b * m * (m - 1 : ℕ) * (m - 2 : ℕ) := by
    gcongr
  have hquad' := Int.ediv_le_ediv (show (0 : ℤ) < 2 by norm_num) hquad
  have hcubic' := Int.ediv_le_ediv (show (0 : ℤ) < 6 by norm_num) hcubic
  unfold seriesBits
  linarith

theorem squareBits_squareBits_le (hb : 0 ≤ b) (hb' : b ≤ 2 ^ 60) :
    squareBits (squareBits (2 ^ 60 + b)) ≤ seriesBits b 5 := by
  have hseries : seriesBits b 5 = 2 ^ 60 + 5 * b + 10 * squareBits b + 10 * cubeBits b := by
    unfold seriesBits
    push_cast
    omega
  have hfour : squareBits (squareBits (2 ^ 60 + b))
      = 2 ^ 60 + 2 * (2 * b + squareBits b) + squareBits (2 * b + squareBits b) := by
    rw [squareBits_one_add, add_assoc, squareBits_one_add]
  rw [hseries, hfour]
  have hsquare := squareBits_nonneg (b := b)
  have hcube := cubeBits_nonneg hb
  rcases lt_or_ge b (2 ^ 20) with hlt | hge
  -- the square of a small number is nothing, also of its double
  · have hnone (c : ℤ) (hc : 0 ≤ c) (hlt : c < 2 ^ 22) : squareBits c = 0 := by
      apply Int.ediv_eq_zero_of_lt (mul_self_nonneg c)
      have := mul_self_le_mul_self hc hlt.le
      omega
    rw [hnone b hb (by omega), add_zero, hnone (2 * b) (by omega) (by omega)]
    omega
  -- else the roundings are less than the number itself
  · have hle : squareBits b * 2 ^ 60 ≤ b * b := Int.ediv_mul_le _ (by norm_num)
    have hlt : b * b < squareBits b * 2 ^ 60 + 2 ^ 60 := by
      have := Int.lt_ediv_add_one_mul_self (b * b) (show (0 : ℤ) < 2 ^ 60 by norm_num)
      rwa [add_mul, one_mul] at this
    have hlt' : squareBits b * b < cubeBits b * 2 ^ 60 + 2 ^ 60 := by
      have := Int.lt_ediv_add_one_mul_self (squareBits b * b) (show (0 : ℤ) < 2 ^ 60 by norm_num)
      rwa [add_mul, one_mul] at this
    have hsquare_le : squareBits b ≤ b := by
      have : b * b ≤ b * 2 ^ 60 := mul_le_mul_of_nonneg_left hb' hb
      omega
    have hsquare_sq : squareBits b * squareBits b ≤ squareBits b * b :=
      mul_le_mul_of_nonneg_left hsquare_le hsquare
    have hdouble : squareBits (2 * b + squareBits b) ≤ 4 * squareBits b + 5 * cubeBits b + 9 := by
      have hsplit : (2 * b + squareBits b) * (2 * b + squareBits b)
          = 4 * (b * b) + 4 * (squareBits b * b) + squareBits b * squareBits b := by ring
      rw [squareBits, hsplit]
      omega
    omega

theorem compoundedBits_of_le (hn : 5 ≤ n) : compoundedBits b n = seriesBits b n := by
  unfold compoundedBits
  split <;> omega

theorem compoundedBits_succ (hb : 0 ≤ b) (hb' : b ≤ 2 ^ 60) :
    compoundedBits b n ≤ compoundedBits b (n + 1) := by
  have hone : (0 : ℤ) ≤ 2 ^ 60 + b := by omega
  have hsquare := squareBits_nonneg (b := b)
  match n with
  | 0 => exact le_add_of_nonneg_right hb
  | 1 =>
      show 2 ^ 60 + b ≤ squareBits (2 ^ 60 + b)
      rw [squareBits_one_add]
      omega
  | 2 =>
      show squareBits (2 ^ 60 + b) ≤ squareBits (2 ^ 60 + b) * (2 ^ 60 + b) / 2 ^ 60
      rw [mul_one_add_div]
      exact le_add_of_nonneg_right
        (Int.ediv_nonneg (mul_nonneg squareBits_nonneg hb) (by norm_num))
  | 3 =>
      apply Int.ediv_le_ediv (by norm_num)
      apply mul_le_mul_of_nonneg_left _ squareBits_nonneg
      rw [squareBits_one_add]
      omega
  | 4 => exact squareBits_squareBits_le hb hb'
  | n + 5 =>
      rw [compoundedBits_of_le (by omega), compoundedBits_of_le (by omega)]
      exact seriesBits_mono hb le_rfl (by omega)

theorem compoundedBits_le_compoundedBits (ha : 0 ≤ a) (hab : a ≤ b) :
    compoundedBits a n ≤ compoundedBits b n := by
  have hone : (0 : ℤ) ≤ 2 ^ 60 + a := by omega
  have hle : 2 ^ 60 + a ≤ 2 ^ 60 + b := by omega
  unfold compoundedBits
  split
  · exact le_rfl
  · exact hle
  · exact squareBits_le_squareBits hone hle
  · exact cubeBits_le_cubeBits hone hle
  · exact squareBits_le_squareBits squareBits_nonneg (squareBits_le_squareBits hone hle)
  · exact seriesBits_mono ha hab le_rfl

theorem compoundedBits_mono {m : ℕ} (ha : 0 ≤ a) (hab : a ≤ b) (hb : b ≤ 2 ^ 60) (hnm : n ≤ m) :
    compoundedBits a n ≤ compoundedBits b m := by
  have hmono : Monotone (compoundedBits b) :=
    monotone_nat_of_le_succ fun n => compoundedBits_succ (by omega) hb
  exact (compoundedBits_le_compoundedBits ha hab).trans (hmono hnm)

theorem simple_le_compoundedBits (hb : 0 ≤ b) : 2 ^ 60 + b * n ≤ compoundedBits b n := by
  have hsquare := squareBits_nonneg (b := b)
  match n with
  | 0 => simp [compoundedBits]
  | 1 => simp [compoundedBits]
  | 2 =>
      show _ ≤ squareBits (2 ^ 60 + b)
      rw [squareBits_one_add]
      push_cast
      omega
  | 3 =>
      show _ ≤ squareBits (2 ^ 60 + b) * (2 ^ 60 + b) / 2 ^ 60
      have hone : 2 ^ 60 ≤ squareBits (2 ^ 60 + b) := by
        rw [squareBits_one_add]
        omega
      have hpart : b ≤ squareBits (2 ^ 60 + b) * b / 2 ^ 60 := by
        apply Int.le_ediv_of_mul_le (by norm_num)
        rw [mul_comm]
        exact mul_le_mul_of_nonneg_right hone hb
      have hsplit := squareBits_one_add (b := b)
      rw [mul_one_add_div]
      omega
  | 4 =>
      show _ ≤ squareBits (squareBits (2 ^ 60 + b))
      rw [squareBits_one_add, add_assoc, squareBits_one_add]
      have := squareBits_nonneg (b := 2 * b + squareBits b)
      push_cast
      omega
  | n + 5 =>
      -- from five slots on the series has the simple interest among its terms
      rw [compoundedBits_of_le (by omega), seriesBits]
      have hcube := cubeBits_nonneg hb
      have hquad : 0 ≤ squareBits b * (n + 5 : ℕ) * (n + 5 - 1 : ℕ) / 2 := by positivity
      have hcubic : 0 ≤ cubeBits b * (n + 5 : ℕ) * (n + 5 - 1 : ℕ) * (n + 5 - 2 : ℕ) / 6 := by
        positivity
      linarith

/-! In units of one nothing is rounded up. -/

theorem squareBits_div_le : (squareBits a : ℚ) / 2 ^ 60 ≤ (a / 2 ^ 60) ^ 2 := by
  have hle : squareBits a * 2 ^ 60 ≤ a * a := Int.ediv_mul_le _ (by norm_num)
  have hcast : (squareBits a * 2 ^ 60 : ℚ) ≤ a * a := by exact_mod_cast hle
  linarith

theorem cubeBits_div_le (ha : 0 ≤ a) : (cubeBits a : ℚ) / 2 ^ 60 ≤ (a / 2 ^ 60) ^ 3 := by
  have hle : cubeBits a * 2 ^ 60 ≤ squareBits a * a := Int.ediv_mul_le _ (by norm_num)
  have hcast : (cubeBits a * 2 ^ 60 : ℚ) ≤ squareBits a * a := by exact_mod_cast hle
  have hnonneg : (0 : ℚ) ≤ a / 2 ^ 60 := by positivity
  have hsquare := mul_le_mul_of_nonneg_right (squareBits_div_le (a := a)) hnonneg
  linarith

theorem ediv_cast_le (z d : ℤ) (hd : 0 < d) : ((z / d : ℤ) : ℚ) ≤ z / d := by
  rw [le_div_iff₀ (by exact_mod_cast hd)]
  exact_mod_cast Int.ediv_mul_le z hd.ne'

theorem seriesBits_div_le (hb : 0 ≤ b) (hn : 2 ≤ n) :
    (seriesBits b n : ℚ) / 2 ^ 60 ≤ (1 + b / 2 ^ 60) ^ n := by
  have hpos : (0 : ℚ) ≤ n * (n - 1) := by
    have : (2 : ℚ) ≤ n := by exact_mod_cast hn
    nlinarith
  have hpos' : (0 : ℚ) ≤ n * (n - 1) * (n - 2) := by
    have : (2 : ℚ) ≤ n := by exact_mod_cast hn
    exact mul_nonneg hpos (by linarith)
  have hquad := ediv_cast_le (squareBits b * n * (n - 1 : ℕ)) 2 (by norm_num)
  have hcubic := ediv_cast_le (cubeBits b * n * (n - 1 : ℕ) * (n - 2 : ℕ)) 6 (by norm_num)
  have hsquare := mul_le_mul_of_nonneg_right (squareBits_div_le (a := b)) hpos
  have hcube := mul_le_mul_of_nonneg_right (cubeBits_div_le hb) hpos'
  have hseries := cubic_le_pow (t := b / 2 ^ 60) (by positivity) n
  rw [seriesBits]
  push_cast [Nat.cast_sub (show 1 ≤ n by omega), Nat.cast_sub hn] at hquad hcubic ⊢
  linarith

theorem compoundedBits_div_le (hb : 0 ≤ b) :
    (compoundedBits b n : ℚ) / 2 ^ 60 ≤ (1 + b / 2 ^ 60) ^ n := by
  have hone : (1 + b / 2 ^ 60 : ℚ) = ((2 ^ 60 + b : ℤ) : ℚ) / 2 ^ 60 := by
    push_cast
    ring
  match n with
  | 0 => norm_num [compoundedBits]
  | 1 => simp [compoundedBits, hone]
  | 2 => exact hone ▸ squareBits_div_le
  | 3 => exact hone ▸ cubeBits_div_le (by omega)
  | 4 =>
      have hsquare := squareBits_div_le (a := 2 ^ 60 + b)
      have hfour := squareBits_div_le (a := squareBits (2 ^ 60 + b))
      have hnonneg : (0 : ℚ) ≤ squareBits (2 ^ 60 + b) / 2 ^ 60 :=
        div_nonneg (by exact_mod_cast squareBits_nonneg) (by norm_num)
      calc (compoundedBits b 4 : ℚ) / 2 ^ 60 ≤ (squareBits (2 ^ 60 + b) / 2 ^ 60) ^ 2 := hfour
        _ ≤ (((2 ^ 60 + b : ℤ) / 2 ^ 60) ^ 2) ^ 2 := pow_le_pow_left₀ hnonneg hsquare 2
        _ = (1 + b / 2 ^ 60) ^ 4 := by rw [hone, ← pow_mul]
  | n + 5 =>
      rw [compoundedBits_of_le (by omega)]
      exact seriesBits_div_le hb (by omega)

end

/-! ## What the function returns -/

section

variable {p : Profile} {a x y rate rate' : U68F60} {n m : UInt64}

def slotRateBits (rate : U68F60) : ℤ := rate.bits / slotsPerYear

theorem slotRateBits_nonneg (rate : U68F60) : 0 ≤ slotRateBits rate :=
  Int.ediv_nonneg (U68F60.bits_nonneg rate) (by norm_num)

theorem slotRateBits_mono (h : rate ≤ rate') : slotRateBits rate ≤ slotRateBits rate' :=
  Int.ediv_le_ediv (by norm_num [slotsPerYear]) h

theorem bits_mul_self (h : a.bits < 2 ^ 94) : (a.mul a).bits = squareBits a.bits := by
  have hnonneg := U68F60.bits_nonneg a
  have hlt : a.bits * a.bits < 2 ^ 94 * 2 ^ 94 := mul_lt_mul'' h h hnonneg hnonneg
  exact U68F60.bits_mul (by omega)

theorem squareBits_lt {b : ℤ} (hb : 0 ≤ b) (h : b < 2 ^ 62) : squareBits b < 2 ^ 64 := by
  have hlt : b * b < 2 ^ 62 * 2 ^ 62 := mul_lt_mul'' h h hb hb
  apply Int.ediv_lt_of_lt_mul (by norm_num)
  omega

theorem bits_mul_mul_self (h : a.bits < 2 ^ 62) :
    ((a.mul a).mul a).bits = cubeBits a.bits := by
  have hnonneg := U68F60.bits_nonneg a
  have hsquare : (a.mul a).bits = squareBits a.bits := bits_mul_self (by omega)
  have hlt : squareBits a.bits * a.bits < 2 ^ 64 * 2 ^ 62 :=
    mul_lt_mul'' (squareBits_lt hnonneg h) h squareBits_nonneg hnonneg
  rw [U68F60.bits_mul (by rw [hsquare]; omega), hsquare]
  rfl

theorem bits_approximateCompoundedInterest (hp : p.overflowChecks = true)
    (hrate : slotRateBits rate ≤ 2 ^ 60) (h : approximateCompoundedInterest p rate n = .ok x) :
    x.bits = compoundedBits (slotRateBits rate) n.toNat := by
  simp only [approximateCompoundedInterest, bind_eq_ok, U68F60.divInt_eq_ok] at h
  obtain ⟨base, ⟨-, hbase⟩, h⟩ := h
  have hbits : slotRateBits rate = base.bits := hbase.symm
  have hnonneg := U68F60.bits_nonneg base
  rw [hbits] at hrate ⊢
  have hadd {c : U68F60} : (U68F60.one.add p base : Except Failure U68F60) = .ok c ↔
      c.bits = 2 ^ 60 + base.bits := Fixed.add_eq_ok hp
  split at h
  · rename_i hn
    cases h
    rw [hn]
    rfl
  · rename_i hn
    rw [hn, hadd.mp h]
    rfl
  · rename_i hn
    simp only [bind_eq_ok, hadd, pure_eq_ok] at h
    obtain ⟨c, hc, d, hd, rfl⟩ := h
    -- the code adds one to the rate anew for each factor
    obtain rfl : c = d := Fixed.ext (hc.trans hd.symm)
    rw [hn, bits_mul_self (by omega), hc]
    rfl
  · rename_i hn
    simp only [bind_eq_ok, hadd, pure_eq_ok] at h
    obtain ⟨c, hc, d, hd, e, he, rfl⟩ := h
    obtain rfl : c = d := Fixed.ext (hc.trans hd.symm)
    obtain rfl : c = e := Fixed.ext (hc.trans he.symm)
    rw [hn, bits_mul_mul_self (by omega), hc]
    rfl
  · rename_i hn
    simp only [bind_eq_ok, hadd, pure_eq_ok] at h
    obtain ⟨c, hc, d, hd, rfl⟩ := h
    obtain rfl : c = d := Fixed.ext (hc.trans hd.symm)
    have hsquare : (c.mul c).bits = squareBits c.bits := bits_mul_self (by omega)
    have hlt := squareBits_lt (U68F60.bits_nonneg c) (by omega)
    rw [hn, bits_mul_self (by rw [hsquare]; omega), hsquare, hc]
    rfl
  · rename_i h₀ h₁ h₂ h₃ h₄
    simp only [imp_false] at h₀ h₁ h₂ h₃ h₄
    -- five slots or more: the series
    have hn : 5 ≤ n.toNat := by omega
    simp only [bind_eq_ok, Fixed.mulInt_eq_ok hp, Fixed.add_eq_ok hp, U68F60.divInt_eq_ok,
      U68F60.bits_one] at h
    obtain ⟨first, hfirst, s₁, hs₁, s₂, hs₂, second, ⟨-, hsecond⟩, t₁, ht₁, t₂, ht₂, t₃, ht₃,
      third, ⟨-, hthird⟩, u, hu, v, hv, hx⟩ := h
    have hsquare : (base.mul base).bits = squareBits base.bits := bits_mul_self (by omega)
    have hcube : ((base.mul base).mul base).bits = cubeBits base.bits :=
      bits_mul_mul_self (by omega)
    rw [hx, hv, hu, hfirst, hsecond, hs₂, hs₁, hthird, ht₃, ht₂, ht₁, hsquare, hcube,
      compoundedBits_of_le hn]
    rfl

/-- The rate of a slot as the code has it: a year's rate over the slots of a year, truncated. -/
def slotRate (rate : U68F60) : ℚ := slotRateBits rate / 2 ^ 60

/-- For a truncated slot rate of at most a hundred percent, compounded interest lies between simple
interest at that rate and its exact power. -/
theorem approximateCompoundedInterest_bounds (hp : p.overflowChecks = true)
    (hrate : slotRate rate ≤ 1) (h : approximateCompoundedInterest p rate n = .ok x) :
    1 + n.toNat * slotRate rate ≤ x.toRat ∧ x.toRat ≤ (1 + slotRate rate) ^ n.toNat := by
  have hrate' : slotRateBits rate ≤ 2 ^ 60 := by
    rw [slotRate, div_le_one (by norm_num)] at hrate
    exact_mod_cast hrate
  have hbits := bits_approximateCompoundedInterest hp hrate' h
  have hnonneg := slotRateBits_nonneg rate
  rw [toRat_eq, hbits]
  refine ⟨?_, compoundedBits_div_le hnonneg⟩
  have hsimple : (2 ^ 60 + slotRateBits rate * n.toNat : ℚ)
      ≤ compoundedBits (slotRateBits rate) n.toNat := by
    exact_mod_cast simple_le_compoundedBits hnonneg
  rw [slotRate, le_div_iff₀ (by norm_num)]
  linarith

/-- Neither a longer time nor a higher rate makes less interest. -/
theorem approximateCompoundedInterest_mono (hp : p.overflowChecks = true) (hle : rate ≤ rate')
    (hrate : slotRate rate' ≤ 1) (hnm : n ≤ m) (hx : approximateCompoundedInterest p rate n = .ok x)
    (hy : approximateCompoundedInterest p rate' m = .ok y) : x ≤ y := by
  have hrate' : slotRateBits rate' ≤ 2 ^ 60 := by
    rw [slotRate, div_le_one (by norm_num)] at hrate
    exact_mod_cast hrate
  have hslot := slotRateBits_mono hle
  rw [Fixed.le_iff_bits, bits_approximateCompoundedInterest hp (hslot.trans hrate') hx,
    bits_approximateCompoundedInterest hp hrate' hy]
  exact compoundedBits_mono (slotRateBits_nonneg rate) hslot hrate' (UInt64.le_iff_toNat_le.mp hnm)

/-- Five percent a year, for a year. -/
theorem approximateCompoundedInterest_bounds_year : ∃ x,
    approximateCompoundedInterest .checked (fromPercent 5) 63072000 = .ok x ∧
    1 + 63072000 * slotRate (fromPercent 5) ≤ x.toRat ∧
    x.toRat ≤ (1 + slotRate (fromPercent 5)) ^ 63072000 := by
  obtain ⟨x, hx⟩ := exists_ok
    (show (approximateCompoundedInterest .checked (fromPercent 5) 63072000).toOption.isSome
      = true by
      decide +kernel)
  have hn : (63072000 : UInt64).toNat = 63072000 := rfl
  have hbounds := approximateCompoundedInterest_bounds rfl (by decide +kernel) hx
  rw [hn] at hbounds
  exact ⟨x, hx, by exact_mod_cast hbounds.1, hbounds.2⟩

/-- Five percent for four slots, six percent for five. -/
theorem approximateCompoundedInterest_mono_slots : ∃ x y,
    approximateCompoundedInterest .checked (fromPercent 5) 4 = .ok x ∧
    approximateCompoundedInterest .checked (fromPercent 6) 5 = .ok y ∧ x ≤ y := by
  obtain ⟨x, hx⟩ := exists_ok
    (show (approximateCompoundedInterest .checked (fromPercent 5) 4).toOption.isSome = true by
      decide +kernel)
  obtain ⟨y, hy⟩ := exists_ok
    (show (approximateCompoundedInterest .checked (fromPercent 6) 5).toOption.isSome = true by
      decide +kernel)
  exact ⟨x, y, hx, hy,
    approximateCompoundedInterest_mono rfl (by decide +kernel) (by decide +kernel)
      (by decide) hx hy⟩

/-! ## The index of a reserve -/

theorem bits_fromBps_le {n : UInt64} (h : n.toNat < 2 ^ 32) : (fromBps n).bits ≤ 2 ^ 80 := by
  rw [fromBps, ofRatio_bits]
  omega

/-- The rates of a validated curve and of the host are less than a hundred percent a slot. -/
theorem slotRateBits_currentBorrowRate {r : Reserve} {rate sum : U68F60}
    (hp : p.overflowChecks = true)
    (hvalid : r.config.borrowRateCurve.validate = .ok ()) (hrate : r.currentBorrowRate p = .ok rate)
    (hsum : rate.add p (fromBps r.config.hostFixedInterestRateBps.toUInt64) =
      (.ok sum : Except Failure U68F60)) : slotRateBits sum ≤ 2 ^ 60 := by
  have hcurve := BorrowRateCurve.validate_eq_ok.mp hvalid
  simp only [Reserve.currentBorrowRate, bind_eq_ok] at hrate
  obtain ⟨u, -, hu⟩ := hrate
  obtain ⟨rate', hrate', -, hle⟩ := hcurve.exists_getBorrowRate p u
  obtain rfl : rate = rate' := Except.ok.inj (hu.symm.trans hrate')
  have hpoint := (r.config.borrowRateCurve.points.get 10).borrowRateBps.toNat_lt
  have hlast : (r.config.borrowRateCurve.points.get 10).rate.bits ≤ 2 ^ 80 :=
    bits_fromBps_le (by rwa [UInt32.toNat_toUInt64])
  have hhost : (fromBps r.config.hostFixedInterestRateBps.toUInt64).bits ≤ 2 ^ 80 := by
    apply bits_fromBps_le
    have := r.config.hostFixedInterestRateBps.toNat_lt
    rw [UInt16.toNat_toUInt64]
    omega
  have hbits := (Fixed.add_eq_ok hp).mp hsum
  have hle' := Fixed.le_iff_bits.mp hle
  rw [slotRateBits, slotsPerYear, hbits]
  omega

theorem Reserve.index_le_accrueInterest {r r' : Reserve} {slot : UInt64} {bps : UInt16}
    (hp : p.overflowChecks = true) (hvalid : r.config.borrowRateCurve.validate = .ok ())
    (h : r.accrueInterest p slot bps = .ok r') :
    r.liquidity.cumulativeBorrowRateBsf.bits ≤ r'.liquidity.cumulativeBorrowRateBsf.bits := by
  simp only [accrueInterest, bind_eq_ok] at h
  obtain ⟨n, -, h⟩ := h
  split at h
  · simp only [ReserveLiquidity.compoundInterest, bind_eq_ok, pure_eq_ok] at h
    obtain ⟨rate, hrate, l, ⟨sum, hsum, interest, hinterest, fixed, -, index, hindex, h⟩, rfl⟩ := h
    have hslot := slotRateBits_currentBorrowRate hp hvalid hrate hsum
    have hone : 2 ^ 60 ≤ interest.bits := by
      rw [bits_approximateCompoundedInterest hp hslot hinterest]
      have hsimple := simple_le_compoundedBits (n := n.toNat) (slotRateBits_nonneg sum)
      have hnonneg := mul_nonneg (slotRateBits_nonneg sum) (Int.natCast_nonneg n.toNat)
      omega
    have hindex' : l.cumulativeBorrowRateBsf = index := by
      obtain ⟨_, -, _, -, _, -, _, -, _, -, _, -, _, -, _, -, rfl⟩ := h
      rfl
    rw [hindex', (BigFraction.mul_eq_ok.mp hindex).2]
    have hone' : 2 ^ 60 ≤ (BigFraction.ofFraction interest).bits := by
      show 2 ^ 60 ≤ interest.bits.toNat
      omega
    rw [Nat.le_div_iff_mul_le (by norm_num)]
    exact Nat.mul_le_mul_left _ hone'
  · cases h
    exact le_rfl

/-- In a build with overflow checks the index of a reserve with a validated curve never falls,
whatever is called. -/
theorem cumulativeBorrowRate_le {r r' : Reserve} {es : List ReserveEvent}
    (hp : p.overflowChecks = true) (hvalid : r.config.borrowRateCurve.validate = .ok ())
    (hrun : Run (Reserve.Step p) r es r') :
    r.liquidity.cumulativeBorrowRateBsf.bits ≤ r'.liquidity.cumulativeBorrowRateBsf.bits := by
  have hboth : r'.config = r.config ∧
      r.liquidity.cumulativeBorrowRateBsf.bits ≤ r'.liquidity.cumulativeBorrowRateBsf.bits := by
    induction hrun with
    | nil => exact ⟨rfl, le_rfl⟩
    | @snoc es a b e hrun hs ih =>
        obtain ⟨hconfig, hindex⟩ := hs.frame
        refine ⟨hconfig.trans ih.1, ih.2.trans ?_⟩
        rcases hindex with ⟨slot, bps, hop⟩ | hindex
        · rw [Reserve.Step, hop] at hs
          simp only [ReserveOp.apply, bind_eq_ok, pure_eq_ok, Prod.mk.injEq] at hs
          obtain ⟨b', hb, -, rfl⟩ := hs
          exact Reserve.index_le_accrueInterest hp (by rw [ih.1, hvalid]) hb
        · rw [hindex]
  exact hboth.2

end

end Saturn.Klend
