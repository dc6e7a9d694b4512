import Saturn.Program

/-!
# What the lending platforms are lent

`reallocate` stores each platform's allocation in percent: the two lending platforms share
thirty-five. `klend_lend` and `marginfi_lend` multiply the treasury value by it as if it were a
fraction, so together they ask for thirty-five times the treasury. That stays within the treasury
only where the casts to `u64` cut it away: at amounts below one base unit, or where they saturate.
-/

namespace Saturn

open Machine

/-! ## The ratings and the allocations -/

section

variable {F : Type} [F64 F] {d : Deployment} {returnRate riskRating : Vector F 7} {x y : Exec F}

def ratingOf (returnRate riskRating : F) : F :=
  if F64.isZero riskRating then 0 else returnRate / riskRating

theorem ratings_one (t : Treasury F) :
    platformTypeRatings (ReAllocate.platforms t returnRate riskRating) 1
      = (0 : F) + ratingOf (returnRate.get 0) (riskRating.get 0)
        + ratingOf (returnRate.get 1) (riskRating.get 1) := by
  simp [platformTypeRatings, ReAllocate.platforms, Function.update, Platform.rating, ratingOf]
  rfl

theorem Platform.reallocated_one {p : Profile} {ratings : UInt8 → F} {q q' : Platform F}
    (h : q.reallocated p ratings platformAllocation = .ok q') (hq : q.platformType = 1) :
    q'.allocation =
      if F64.isZero (ratings 1) then 0 else q.rating / ratings 1 * F64.lit 35 := by
  simp only [Platform.reallocated, typeBudget, bind_eq_ok, okOr_eq_ok, pure_eq_ok] at h
  obtain ⟨budget, ⟨i, hi, hbudget⟩, rfl⟩ := h
  obtain ⟨rfl, -⟩ := Profile.guard_eq_ok.mp hi
  rw [hq] at hbudget ⊢
  cases hbudget
  rfl

theorem ReAllocate.lending_eq (h : ReAllocate.handle d returnRate riskRating x = .ok y) :
    ∃ total : F, total = (0 : F) + ratingOf (returnRate.get 0) (riskRating.get 0)
        + ratingOf (returnRate.get 1) (riskRating.get 1) ∧
      y.world.treasury.treasuryValue = x.world.treasury.treasuryValue ∧
      y.world.treasury.marginfiAllocation = (if F64.isZero total then (0 : F)
        else ratingOf (returnRate.get 0) (riskRating.get 0) / total * F64.lit 35) ∧
      y.world.treasury.kaminoAllocation = (if F64.isZero total then (0 : F)
        else ratingOf (returnRate.get 1) (riskRating.get 1) / total * F64.lit 35) := by
  obtain ⟨l, hl, q₀, q₁, q₂, q₃, q₄, q₅, q₆, h₀, h₁, -, -, -, -, -, rfl⟩ := handle_eq_ok h
  obtain ⟨-, hl⟩ := reAllocate_eq_ok.mp hl
  obtain ⟨m, hm, hm'⟩ := mapM_getElem? hl h₀
  obtain ⟨k, hk, hk'⟩ := mapM_getElem? hl h₁
  cases hm
  cases hk
  have hmarginfi := Platform.reallocated_one hm' rfl
  have hkamino := Platform.reallocated_one hk' rfl
  rw [ratings_one] at hmarginfi hkamino
  exact ⟨_, rfl, rfl, hmarginfi, hkamino⟩

end

/-! ## The amounts, read exactly -/

/-- A platform's share, by its rating `ρ` and that `ρ'` of the other, of thirty-five times the
total. -/
def lendingShare (total ρ ρ' : ℚ) : ℚ := ρ / (ρ + ρ') * 35 * total

/-- Both shares are below one base unit; or the total is at least the largest `u64`, and exceeds it
by the smaller share or by as much again. -/
def CutToTotal (total ρ ρ' : ℚ) : Prop :=
  (lendingShare total ρ ρ' < 1 ∧ lendingShare total ρ' ρ < 1) ∨
    (maxU64 ≤ total ∧
      (⌊min (lendingShare total ρ ρ') (lendingShare total ρ' ρ)⌋₊ : ℚ) ≤ total - maxU64) ∨
    2 * maxU64 ≤ total

instance (total ρ ρ' : ℚ) : Decidable (CutToTotal total ρ ρ') := by
  unfold CutToTotal
  infer_instance

variable {d : Deployment} {returnRate riskRating : Vector ℚ 7} {x y : Exec ℚ}

theorem ratingOf_rat (q r : ℚ) : ratingOf q r = q / r := by
  rw [ratingOf, isZero_rat]
  by_cases h : r = 0
  · simp [h]
  · simp [h]

/-- Both amounts are the casts of the shares of thirty-five times the treasury in USDC base
units. -/
theorem lend_amounts (h : ReAllocate.handle d returnRate riskRating x = .ok y) :
    MarginfiLend.amount y.world.treasury = F64.toU64 (lendingShare
        (x.world.treasury.treasuryValue * 10 ^ 6) (returnRate.get 0 / riskRating.get 0)
        (returnRate.get 1 / riskRating.get 1)) ∧
      KaminoLend.amount y.world.treasury = F64.toU64 (lendingShare
        (x.world.treasury.treasuryValue * 10 ^ 6) (returnRate.get 1 / riskRating.get 1)
        (returnRate.get 0 / riskRating.get 0)) := by
  obtain ⟨total, rfl, hvalue, hmarginfi, hkamino⟩ := ReAllocate.lending_eq h
  rw [ratingOf_rat, ratingOf_rat, zero_add, isZero_rat, lit_rat] at hmarginfi hkamino
  have hshare : ∀ ρ ρ' : ℚ, (if decide (ρ + ρ' = 0) = true then 0 else ρ / (ρ + ρ') * 35)
      = ρ / (ρ + ρ') * 35 := by
    intro ρ ρ'
    by_cases hzero : ρ + ρ' = 0
    · simp [hzero]
    · simp [hzero]
  rw [hshare] at hmarginfi
  rw [add_comm, hshare] at hkamino
  refine ⟨?_, ?_⟩
  · rw [MarginfiLend.amount, Treasury.lendAmount, hvalue, hmarginfi, lit_rat, lendingShare]
    congr 1
    ring
  · rw [KaminoLend.amount, Treasury.lendAmount, hvalue, hkamino, lit_rat, lendingShare]
    congr 1
    ring

/-- After a reallocation the two lending platforms are asked to take no more than the whole
treasury, in USDC base units, if and only if the casts cut their thirty-five fold share of it down
to that. -/
theorem lending_within_treasury_iff (hvalue : 0 ≤ x.world.treasury.treasuryValue)
    (hreturn : ∀ i : Fin 7, 0 ≤ returnRate.get i) (hrisk : ∀ i : Fin 7, 0 ≤ riskRating.get i)
    (h : ReAllocate.handle d returnRate riskRating x = .ok y) :
    ((MarginfiLend.amount y.world.treasury).toNat + (KaminoLend.amount y.world.treasury).toNat : ℚ)
        ≤ x.world.treasury.treasuryValue * 10 ^ 6 ↔
      CutToTotal (x.world.treasury.treasuryValue * 10 ^ 6) (returnRate.get 0 / riskRating.get 0)
        (returnRate.get 1 / riskRating.get 1) := by
  obtain ⟨hmarginfi, hkamino⟩ := lend_amounts h
  have hm : 0 ≤ returnRate.get 0 / riskRating.get 0 := div_nonneg (hreturn 0) (hrisk 0)
  have hk : 0 ≤ returnRate.get 1 / riskRating.get 1 := div_nonneg (hreturn 1) (hrisk 1)
  rw [hmarginfi, hkamino]
  generalize returnRate.get 0 / riskRating.get 0 = ρ at hm
  generalize returnRate.get 1 / riskRating.get 1 = ρ' at hk
  have htotal : 0 ≤ x.world.treasury.treasuryValue * 10 ^ 6 := by positivity
  generalize x.world.treasury.treasuryValue * 10 ^ 6 = total at htotal
  have hpos : 0 ≤ lendingShare total ρ ρ' := by
    rw [lendingShare]
    positivity
  have hpos' : 0 ≤ lendingShare total ρ' ρ := by
    rw [lendingShare]
    positivity
  by_cases hzero : ρ + ρ' = 0
  · -- no platform is rated, and nothing is lent
    have hnone : lendingShare total ρ ρ' = 0 ∧ lendingShare total ρ' ρ = 0 := by
      rw [lendingShare, lendingShare, add_comm ρ' ρ, hzero]
      simp
    rw [CutToTotal, hnone.1, hnone.2]
    constructor
    · intro _
      left
      norm_num
    · intro _
      simpa using htotal
  · apply toU64_rat_add_le_iff htotal hpos hpos'
    -- the two shares together are thirty-five times the total
    have hsum : lendingShare total ρ ρ' + lendingShare total ρ' ρ = 35 * total := by
      rw [lendingShare, lendingShare, add_comm ρ' ρ]
      field_simp
    rw [hsum]
    linarith

/-! ### Equal ratings -/

/-- A world worth `v`. -/
def worldOfValue (v : ℚ) : World ℚ :=
  { smallWorld with treasury := { smallTreasury with treasuryValue := v } }

/-- A treasury of a hundred-millionth of a dollar is lent nothing. -/
theorem lending_within_treasury_iff_small :
    ∃ y, ReAllocate.handle (smallDeployment .release) (.replicate 7 1) (.replicate 7 1)
        (.start (worldOfValue (1 / 10 ^ 8))) = .ok y ∧
      ((MarginfiLend.amount y.world.treasury).toNat
        + (KaminoLend.amount y.world.treasury).toNat : ℚ) ≤ 1 / 10 ^ 8 * 10 ^ 6 := by
  obtain ⟨y, hy⟩ := exists_ok
    (show (ReAllocate.handle (smallDeployment .release) (.replicate 7 1) (.replicate 7 1)
      (.start (worldOfValue (1 / 10 ^ 8)))).toOption.isSome = true by decide +kernel)
  refine ⟨y, hy, (lending_within_treasury_iff ?_ ?_ ?_ hy).mpr ?_⟩
  · decide +kernel
  · decide +kernel
  · decide +kernel
  · decide +kernel

/-- Of a treasury of a thousand dollars, thirty-five thousand are lent. -/
theorem lends_more_than_treasury :
    ∃ y, ReAllocate.handle (smallDeployment .release) (.replicate 7 1) (.replicate 7 1)
        (.start smallWorld) = .ok y ∧
      (MarginfiLend.amount y.world.treasury).toNat = 17500000000 ∧
      (KaminoLend.amount y.world.treasury).toNat = 17500000000 ∧
      ¬ ((MarginfiLend.amount y.world.treasury).toNat
        + (KaminoLend.amount y.world.treasury).toNat : ℚ)
          ≤ smallWorld.treasury.treasuryValue * 10 ^ 6 := by
  obtain ⟨y, hy, hp⟩ := exists_eq_ok (fun y : Exec ℚ =>
      decide ((MarginfiLend.amount y.world.treasury).toNat = 17500000000) &&
        decide ((KaminoLend.amount y.world.treasury).toNat = 17500000000))
    (show (ReAllocate.handle (smallDeployment .release) (.replicate 7 1) (.replicate 7 1)
      (.start smallWorld)).toOption.any _ = true by decide +kernel)
  rw [Bool.and_eq_true, decide_eq_true_eq, decide_eq_true_eq] at hp
  refine ⟨y, hy, hp.1, hp.2, ?_⟩
  rw [hp.1, hp.2]
  decide +kernel

end Saturn
