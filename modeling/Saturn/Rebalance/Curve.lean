import Saturn.Instructions.Valuation
import Saturn.Machine.Ramp

/-!
# The interest curve

`interest_rate_curve` is a curve of two straight pieces in `I80F48`: up to the plateau at the
optimal utilization, then up to the maximum at one. The constants are rounded, yet both pieces end
exactly where they should, so up to a utilization of one the curve is defined, bounded and monotone
(`interestRate_mono`).
-/

namespace Saturn

open Machine

variable {u v : I80F48}

def interestKink : Kink where
  one := (I80F48.ofU64 1).bits
  optimal := optimalUr.bits
  plateau := plateauIr.bits
  max := maxIr.bits
  optimal_pos := by decide
  optimal_lt_one := by decide
  plateau_nonneg := by decide
  plateau_le_max := by decide

theorem exists_ramp (x width height : I80F48) (hx : 0 ≤ x.bits) (hwidth : 0 < width.bits)
    (hheight : 0 ≤ height.bits) (hle : x.bits ≤ width.bits) :
    ∃ q r : I80F48, x.checkedDiv width = some q ∧ q.checkedMul height = some r ∧
      r.bits = ramp (I80F48.ofU64 1).bits width.bits height.bits x.bits := by
  have hone : 0 < (I80F48.ofU64 1).bits := by decide
  obtain ⟨q, hq⟩ := Fixed.exists_bits (a := I80F48.ofU64 0) (b := I80F48.ofU64 1)
    (Int.ediv_nonneg (mul_nonneg hx hone.le) hwidth.le) (quot_le_one hone hwidth hle)
  obtain ⟨r, hr⟩ := Fixed.exists_bits (a := I80F48.ofU64 0) (b := height)
    (ramp_nonneg hone hwidth hheight hx) (ramp_le hone hwidth hheight hle)
  refine ⟨q, r, (Fixed.checkedDiv_eq_some_of_nonneg hx).mpr ⟨hwidth.ne', hq⟩, ?_, hr⟩
  rw [Fixed.checkedMul_eq_some, hr, hq]
  rfl

theorem exists_interestRateCurve (h₀ : 0 ≤ u.bits) (h₁ : u.bits ≤ (I80F48.ofU64 1).bits) :
    ∃ c, interestRateCurve u = some c ∧ c.bits = interestKink.rate u.bits := by
  rcases le_or_gt u.bits optimalUr.bits with hle | hlt
  · obtain ⟨q, r, hq, hr, hbits⟩ := exists_ramp u optimalUr plateauIr h₀ (by decide) (by decide) hle
    refine ⟨r, ?_, hbits.trans (interestKink.rate_of_le hle).symm⟩
    rw [interestRateCurve, dif_pos hle, hq, Option.bind_eq_bind, Option.bind_some, hr]
  · have hnle := not_le.mpr hlt
    obtain ⟨q, r, hq, hr, hbits⟩ := exists_ramp
      ⟨u.bits - optimalUr.bits, lo_le_sub_optimalUr hnle, sub_optimalUr_lt_hi hnle⟩
      ⟨(I80F48.ofU64 1).bits - optimalUr.bits, by decide, by decide⟩
      ⟨maxIr.bits - plateauIr.bits, by decide, by decide⟩ (sub_nonneg.mpr hlt.le) (by decide)
      (by decide) (sub_le_sub_right h₁ _)
    have hrate : interestKink.rate u.bits = r.bits + plateauIr.bits := by
      rw [hbits]
      exact interestKink.rate_of_lt hlt
    -- the plateau is added last, and the sum stays below the maximum
    obtain ⟨c, hc⟩ := Fixed.exists_bits (a := I80F48.ofU64 0) (b := maxIr)
      (interestKink.rate_nonneg h₀) (interestKink.rate_le_max h₁)
    refine ⟨c, ?_, hc⟩
    rw [interestRateCurve, dif_neg hnle]
    simp only [hq, hr, Option.bind_eq_bind, Option.bind_some]
    rw [Fixed.checkedAdd_eq_some, hc, hrate]

theorem exists_calcInterestRate (h₀ : 0 ≤ u.bits) (h₁ : u.bits ≤ (I80F48.ofU64 1).bits) :
    ∃ r, calcInterestRate u = .ok (some r) ∧
      r.bits = interestKink.rate u.bits * u.bits / interestKink.one := by
  obtain ⟨c, hc, hbits⟩ := exists_interestRateCurve h₀ h₁
  have hnonneg := interestKink.mul_rate_nonneg h₀
  obtain ⟨r, hr⟩ := Fixed.exists_bits (a := I80F48.ofU64 0) (b := maxIr) hnonneg
    (interestKink.mul_rate_le_max h₀ h₁)
  have hmul : c.checkedMul u = some r := by
    rw [Fixed.checkedMul_eq_some, hr, hbits]
    rfl
  refine ⟨r, calcInterestRate_eq_ok.mpr ⟨?_, hr ▸ hnonneg⟩, hr⟩
  rw [hc, Option.bind_some, hmul]

theorem maxIr_toRat : maxIr.toRat = 3 := by
  have hbits : maxIr.bits = 3 * 2 ^ 48 := by decide
  rw [Fixed.toRat, hbits]
  norm_num [FixedFormat.i80f48]

/-- For all utilizations up to one: the curve and the rate are defined, the assertion holds, and
both are monotone and at most three. -/
theorem interestRate_mono (h₀ : 0 ≤ u.bits) (h : u.bits ≤ v.bits)
    (h₁ : v.bits ≤ (I80F48.ofU64 1).bits) :
    (∃ cu cv, interestRateCurve u = some cu ∧ interestRateCurve v = some cv ∧
      0 ≤ cu.toRat ∧ cu.toRat ≤ cv.toRat ∧ cv.toRat ≤ 3) ∧
    ∃ ru rv, calcInterestRate u = .ok (some ru) ∧ calcInterestRate v = .ok (some rv) ∧
      0 ≤ ru.toRat ∧ ru.toRat ≤ rv.toRat ∧ rv.toRat ≤ 3 := by
  have hv₀ := h₀.trans h
  constructor
  · -- the curve is the kinked line on the bits, and so is the product
    obtain ⟨cu, hcu, hubits⟩ := exists_interestRateCurve h₀ (h.trans h₁)
    obtain ⟨cv, hcv, hvbits⟩ := exists_interestRateCurve hv₀ h₁
    refine ⟨cu, cv, hcu, hcv, Fixed.toRat_nonneg ?_, Fixed.toRat_le_toRat ?_, ?_⟩
    · rw [hubits]
      exact interestKink.rate_nonneg h₀
    · rw [hubits, hvbits]
      exact interestKink.rate_mono h
    · rw [← maxIr_toRat]
      exact Fixed.toRat_le_toRat (hvbits ▸ interestKink.rate_le_max h₁)
  · obtain ⟨ru, hru, hubits⟩ := exists_calcInterestRate h₀ (h.trans h₁)
    obtain ⟨rv, hrv, hvbits⟩ := exists_calcInterestRate hv₀ h₁
    refine ⟨ru, rv, hru, hrv, Fixed.toRat_nonneg ?_, Fixed.toRat_le_toRat ?_, ?_⟩
    · rw [hubits]
      exact interestKink.mul_rate_nonneg h₀
    · rw [hubits, hvbits]
      exact interestKink.mul_rate_mono h₀ h
    · rw [← maxIr_toRat]
      exact Fixed.toRat_le_toRat (hvbits ▸ interestKink.mul_rate_le_max hv₀ h₁)

/-- From the optimal utilization to the next number after it. -/
theorem interestRate_mono_kink :
    (∃ cu cv, interestRateCurve optimalUr = some cu ∧
      interestRateCurve ⟨optimalUr.bits + 1, by decide, by decide⟩ = some cv ∧
      0 ≤ cu.toRat ∧ cu.toRat ≤ cv.toRat ∧ cv.toRat ≤ 3) ∧
    ∃ ru rv, calcInterestRate optimalUr = .ok (some ru) ∧
      calcInterestRate ⟨optimalUr.bits + 1, by decide, by decide⟩ = .ok (some rv) ∧
      0 ≤ ru.toRat ∧ ru.toRat ≤ rv.toRat ∧ rv.toRat ≤ 3 :=
  interestRate_mono (by decide) (by decide) (by decide)

end Saturn
