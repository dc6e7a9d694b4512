import Saturn.Klend.Interest
import Saturn.Klend.Obligation
import Saturn.Machine.Float

/-!
# The debt of an obligation

The debt of an obligation is brought up to an index of its reserve by the ratio of the indices,
rounded down. How often that happens on the way hardly matters: the debt is never more than the
exact ratio gives, nor than one step to the last index gives, and short of the exact by less than
one unit of the last place a step, times the ratio (`accrueInterest_steps`).

The index of the reserve never falls, so an obligation that took it over at some time can be
refreshed at any later time without failing for a negative rate, and where it is, the debt is not
lower (`accrueInterest_after_run`).
-/

namespace Saturn.Klend

open Machine Transition

namespace ObligationLiquidity

variable {l l' l'' : ObligationLiquidity} {rate : BigFraction} {rates : List BigFraction}

theorem accrueInterest_eq_ok : l.accrueInterest rate = .ok l' ↔
    (rate = l.cumulativeBorrowRateBsf ∧ l = l') ∨
      (l.cumulativeBorrowRateBsf.bits < rate.bits ∧
        l.borrowedAmountSf.bits.toNat * rate.bits < 2 ^ 256 ∧ l.cumulativeBorrowRateBsf.bits ≠ 0 ∧
        ∃ d : U68F60, d.bits =
            (l.borrowedAmountSf.bits.toNat * rate.bits / l.cumulativeBorrowRateBsf.bits : ℕ) ∧
          { l with borrowedAmountSf := d, cumulativeBorrowRateBsf := rate } = l') := by
  unfold accrueInterest
  split
  · rename_i hlt
    simp only [reduceCtorEq, false_iff, not_or, not_and]
    exact ⟨fun heq => absurd (heq ▸ hlt) (lt_irrefl _), fun hlt' => absurd hlt' hlt.not_gt⟩
  split
  · rename_i heq
    simp only [Except.ok.injEq, BigFraction.ext heq, true_and, lt_irrefl, false_and, or_false]
  · rename_i hle hne
    have hlt : l.cumulativeBorrowRateBsf.bits < rate.bits := by omega
    have hne' : rate ≠ l.cumulativeBorrowRateBsf := fun h => hne (congrArg BigFraction.bits h)
    simp only [bind_eq_ok, require_eq_ok, okOr_eq_ok, pure_eq_ok, exists_const,
      Fixed.ofBits?_eq_some, hne', hlt, false_and, false_or, true_and]

/-- A step rounds down by less than a unit of the last place, and does not lower the debt. -/
theorem accrueInterest_bounds (hpos : 0 < l.cumulativeBorrowRateBsf.bits)
    (h : l.accrueInterest rate = .ok l') :
    l'.cumulativeBorrowRateBsf = rate ∧ l.cumulativeBorrowRateBsf.bits ≤ rate.bits ∧
      l'.borrowedAmountSf.bits * l.cumulativeBorrowRateBsf.bits
        ≤ l.borrowedAmountSf.bits * rate.bits ∧
      l.borrowedAmountSf.bits * rate.bits
        < (l'.borrowedAmountSf.bits + 1) * l.cumulativeBorrowRateBsf.bits := by
  have hpos' : (0 : ℤ) < l.cumulativeBorrowRateBsf.bits := by exact_mod_cast hpos
  rcases accrueInterest_eq_ok.mp h with ⟨rfl, rfl⟩ | ⟨hlt, -, -, d, hd, rfl⟩
  · refine ⟨rfl, le_rfl, le_rfl, ?_⟩
    rw [add_mul, one_mul]
    exact lt_add_of_pos_right _ hpos'
  · have hnonneg := U68F60.bits_nonneg l.borrowedAmountSf
    have hcast : (l.borrowedAmountSf.bits.toNat : ℤ) = l.borrowedAmountSf.bits :=
      Int.toNat_of_nonneg hnonneg
    push_cast [hcast] at hd
    refine ⟨rfl, hlt.le, ?_, ?_⟩
    · show d.bits * _ ≤ _
      rw [hd]
      exact Int.ediv_mul_le _ hpos'.ne'
    · show _ < (d.bits + 1) * _
      rw [hd]
      exact Int.lt_ediv_add_one_mul_self _ hpos'

/-- Brought up to any indices one after the other, the debt is at most in the exact ratio to the
last index, and at least what is in that ratio of as many units of the last place less as there were
steps. One step to the last index does not make it less. -/
theorem accrueInterest_steps (hpos : 0 < l.cumulativeBorrowRateBsf.bits)
    (h : rates.foldlM accrueInterest l = .ok l') :
    l'.borrowedAmountSf.bits * l.cumulativeBorrowRateBsf.bits
        ≤ l.borrowedAmountSf.bits * l'.cumulativeBorrowRateBsf.bits ∧
      (l.borrowedAmountSf.bits - rates.length) * l'.cumulativeBorrowRateBsf.bits
        ≤ l'.borrowedAmountSf.bits * l.cumulativeBorrowRateBsf.bits ∧
      ∀ l'', l.accrueInterest l'.cumulativeBorrowRateBsf = .ok l'' →
        l'.borrowedAmountSf ≤ l''.borrowedAmountSf := by
  have hpos' : (0 : ℤ) < l.cumulativeBorrowRateBsf.bits := by exact_mod_cast hpos
  have hbounds : l'.borrowedAmountSf.bits * l.cumulativeBorrowRateBsf.bits
        ≤ l.borrowedAmountSf.bits * l'.cumulativeBorrowRateBsf.bits ∧
      (l.borrowedAmountSf.bits - rates.length) * l'.cumulativeBorrowRateBsf.bits
        ≤ l'.borrowedAmountSf.bits * l.cumulativeBorrowRateBsf.bits := by
    induction rates generalizing l with
    | nil =>
        cases h
        simp
    | cons rate rates ih =>
        rw [List.foldlM_cons, bind_eq_ok] at h
        obtain ⟨l₁, hstep, hrest⟩ := h
        obtain ⟨rfl, hindex, hle, hlt⟩ := accrueInterest_bounds hpos hstep
        -- the first step and the others, both multiplied out by the index in between
        have hpos₁ : 0 < l₁.cumulativeBorrowRateBsf.bits := hpos.trans_le hindex
        have hpos₁' : (0 : ℤ) < l₁.cumulativeBorrowRateBsf.bits := by exact_mod_cast hpos₁
        have hindex' : (l.cumulativeBorrowRateBsf.bits : ℤ) ≤ l₁.cumulativeBorrowRateBsf.bits := by
          exact_mod_cast hindex
        obtain ⟨hupper, hlower⟩ := ih hpos₁ hrest hpos₁'
        have hlast : (0 : ℤ) ≤ l'.cumulativeBorrowRateBsf.bits := Int.natCast_nonneg _
        constructor
        · apply le_of_mul_le_mul_right _ hpos₁'
          have hfirst := mul_le_mul_of_nonneg_right hle hlast
          have hothers := mul_le_mul_of_nonneg_right hupper hpos'.le
          linarith
        · apply le_of_mul_le_mul_right _ hpos₁'
          have hfirst := mul_le_mul_of_nonneg_right hlt.le hlast
          have hothers := mul_le_mul_of_nonneg_right hlower hpos'.le
          have hlength := mul_le_mul_of_nonneg_right
            (mul_le_mul_of_nonneg_left hindex' (Int.natCast_nonneg (rates.length + 1))) hlast
          push_cast [List.length_cons] at hlength ⊢
          linarith
  refine ⟨hbounds.1, hbounds.2, fun l'' hone => ?_⟩
  obtain ⟨-, -, -, hlt⟩ := accrueInterest_bounds hpos hone
  -- many small steps drop at least as much as one
  have hlt' := lt_of_mul_lt_mul_right (hbounds.1.trans_lt hlt) hpos'.le
  exact Fixed.le_iff_bits.mpr (by omega)

/-- A debt of a thousand at one, brought up to one and a half and then to two, and to two at
once. -/
theorem accrueInterest_steps_twice : ∃ l' l'',
    [.ofFraction (fromPercent 150), .ofFraction (fromPercent 200)].foldlM accrueInterest
      ⟨7, .ofFraction U68F60.one, U68F60.ofU64 1000, U68F60.zero, U68F60.zero, 0⟩ = .ok l' ∧
    accrueInterest ⟨7, .ofFraction U68F60.one, U68F60.ofU64 1000, U68F60.zero, U68F60.zero, 0⟩
      l'.cumulativeBorrowRateBsf = .ok l'' ∧ l'.borrowedAmountSf ≤ l''.borrowedAmountSf := by
  obtain ⟨l', hl', htest⟩ := exists_eq_ok
    (fun l' : ObligationLiquidity => (accrueInterest
      ⟨7, .ofFraction U68F60.one, U68F60.ofU64 1000, U68F60.zero, U68F60.zero, 0⟩
      l'.cumulativeBorrowRateBsf).toOption.isSome)
    (show ([.ofFraction (fromPercent 150), .ofFraction (fromPercent 200)].foldlM accrueInterest
      ⟨7, .ofFraction U68F60.one, U68F60.ofU64 1000, U68F60.zero, U68F60.zero, 0⟩).toOption.any _
        = true by decide +kernel)
  obtain ⟨l'', hl''⟩ := exists_ok htest
  have hbounds := accrueInterest_steps (by decide +kernel) hl'
  exact ⟨l', l'', hl', hl'', hbounds.2.2 l'' hl''⟩

end ObligationLiquidity

/-- Debt that took over the index of a reserve finds no negative rate after any run of the reserve,
and is not lower where it is refreshed. -/
theorem accrueInterest_after_run {p : Profile} {r r' : Reserve} {es : List ReserveEvent}
    {l : ObligationLiquidity} (hp : p.overflowChecks = true)
    (hvalid : r.config.borrowRateCurve.validate = .ok ()) (hrun : Run (Reserve.Step p) r es r')
    (hindex : l.cumulativeBorrowRateBsf = r.liquidity.cumulativeBorrowRateBsf) :
    l.accrueInterest r'.liquidity.cumulativeBorrowRateBsf
      ≠ .error (.lending .negativeInterestRate) ∧
      ∀ l', l.accrueInterest r'.liquidity.cumulativeBorrowRateBsf = .ok l' →
        l.borrowedAmountSf ≤ l'.borrowedAmountSf := by
  have hle : l.cumulativeBorrowRateBsf.bits ≤ r'.liquidity.cumulativeBorrowRateBsf.bits :=
    hindex ▸ cumulativeBorrowRate_le hp hvalid hrun
  constructor
  · intro herror
    simp only [ObligationLiquidity.accrueInterest, hle.not_gt, if_false] at herror
    split at herror
    · cases herror
    · simp [bind_eq_error, require_eq_error, okOr_eq_error, pure, Except.pure] at herror
  · intro l' h
    -- an index of zero cannot be divided by, so it is the one that was there
    rcases Nat.eq_zero_or_pos l.cumulativeBorrowRateBsf.bits with hzero | hpos
    · rcases ObligationLiquidity.accrueInterest_eq_ok.mp h with ⟨-, rfl⟩ | ⟨-, -, hne, -⟩
      · exact Fixed.le_iff_bits.mpr le_rfl
      · exact absurd hzero hne
    have hpos' : (0 : ℤ) < l.cumulativeBorrowRateBsf.bits := by exact_mod_cast hpos
    obtain ⟨-, -, -, hlt⟩ := ObligationLiquidity.accrueInterest_bounds hpos h
    have hgrown : l.borrowedAmountSf.bits * l.cumulativeBorrowRateBsf.bits
        ≤ l.borrowedAmountSf.bits * r'.liquidity.cumulativeBorrowRateBsf.bits :=
      mul_le_mul_of_nonneg_left (by exact_mod_cast hle) (U68F60.bits_nonneg _)
    have hlt' := lt_of_mul_lt_mul_right (hgrown.trans_lt hlt) hpos'.le
    exact Fixed.le_iff_bits.mpr (by omega)

/-- A debt of five hundred, at the index of the fresh reserve. -/
def fiveHundredOwed : ObligationLiquidity :=
  ⟨7, .ofFraction U68F60.one, U68F60.ofU64 500, U68F60.zero, U68F60.zero, 0⟩

/-- After the loan of the fresh reserve, and its interest. -/
theorem accrueInterest_after_run_loan :
    ∃ r' l', Run (Reserve.Step .checked) freshReserve loanEvents r' ∧
    fiveHundredOwed.accrueInterest r'.liquidity.cumulativeBorrowRateBsf = .ok l' ∧
    fiveHundredOwed.borrowedAmountSf ≤ l'.borrowedAmountSf ∧
    fiveHundredOwed.borrowedAmountSf < l'.borrowedAmountSf := by
  have hrun : (loanEvents.foldlM (Reserve.next .checked) freshReserve).any (fun r' =>
      (fiveHundredOwed.accrueInterest r'.liquidity.cumulativeBorrowRateBsf).toOption.any fun l' =>
        decide (fiveHundredOwed.borrowedAmountSf < l'.borrowedAmountSf)) = true := by
    decide +kernel
  obtain ⟨r', hr', htest⟩ := (Option.any_eq_true _ _).mp hrun
  obtain ⟨l', hl', hmore⟩ := exists_eq_ok
    (fun l' : ObligationLiquidity =>
      decide (fiveHundredOwed.borrowedAmountSf < l'.borrowedAmountSf)) htest
  have hrun' := Run.of_foldlM (fun _ _ _ => Reserve.next_eq_some.mp) hr'
  have hrefresh := accrueInterest_after_run (l := fiveHundredOwed) rfl (by decide +kernel) hrun' rfl
  exact ⟨r', l', hrun', hl', hrefresh.2 l' hl', of_decide_eq_true hmore⟩

/-! ## The debt of a reserve -/

section

variable {p : Profile} {r r' : Reserve} {e : ReserveEvent} {M : ℕ}
  {es : List (ReserveLiquidity × ReserveEvent)}

def ReserveLiquidity.index (l : ReserveLiquidity) : ℚ := l.cumulativeBorrowRateBsf.bits

/-- The debt in units that grow with the index. -/
def ReserveLiquidity.units (l : ReserveLiquidity) : ℚ := l.borrowedAmountSf.bits / l.index

/-- What a call adds to the debt, in bits. -/
def ReserveEvent.booked (l : ReserveLiquidity) (e : ReserveEvent) : ℤ :=
  match e.op with
  | .borrow f => f.bits
  | .repay _ f => -min f.bits l.borrowedAmountSf.bits
  | .forgiveDebt f => -f.bits
  | _ => 0

/-- Whether interest is accrued. -/
def ReserveEvent.accrues (e : ReserveEvent) : Bool :=
  match e.op with
  | .accrueInterest _ _ => true
  | _ => false

/-- What the calls booked, each at the index of its time. -/
def bookedUnits (es : List (ReserveLiquidity × ReserveEvent)) : ℚ :=
  (es.map fun x => (x.2.booked x.1 : ℚ) / x.1.index).sum

/-- A debt and an index that are multiplied by the same factor, each rounded down. -/
theorem grown_bounds {debt index factor index' : ℤ} (hindex : 0 < index) (hdebt : 0 ≤ debt)
    (hindex' : index' = index * factor / 2 ^ 60) (hfits : debt * (index' + 1) ≤ 2 ^ 128 * index) :
    debt * factor < 2 ^ 188 ∧ debt * index' ≤ (debt * factor / 2 ^ 60 + 1) * index ∧
      debt * factor / 2 ^ 60 * index ≤ debt * (index' + 1) := by
  have hle : index' * 2 ^ 60 ≤ index * factor := by
    rw [hindex']
    exact Int.ediv_mul_le _ (by norm_num)
  have hlt : index * factor < (index' + 1) * 2 ^ 60 := by
    rw [hindex']
    exact Int.lt_ediv_add_one_mul_self _ (by norm_num)
  have hgrown : debt * factor < (debt * factor / 2 ^ 60 + 1) * 2 ^ 60 :=
    Int.lt_ediv_add_one_mul_self _ (by norm_num)
  have hfloor : debt * factor / 2 ^ 60 * 2 ^ 60 ≤ debt * factor := Int.ediv_mul_le _ (by norm_num)
  have hdebtle := mul_le_mul_of_nonneg_left hle hdebt
  have hdebtlt := mul_le_mul_of_nonneg_left hlt.le hdebt
  refine ⟨?_, ?_, ?_⟩
  · rcases hdebt.eq_or_lt with rfl | hpos
    · norm_num
    · have hstrict := mul_lt_mul_of_pos_left hlt hpos
      apply lt_of_mul_lt_mul_right _ hindex.le
      linarith
  · have hscaled := mul_le_mul_of_nonneg_right hgrown.le hindex.le
    linarith
  · have hscaled := mul_le_mul_of_nonneg_right hfloor hindex.le
    linarith

/-- In units of the index, the two roundings are less than a unit of the last place and than the
debt over the square of the index. -/
theorem grown_div_bounds {debt index debt' index' m : ℚ} (hindex : 0 < index) (hle : index ≤ index')
    (hdebt : 0 ≤ debt) (hm : debt ≤ m) (hlower : debt * index' ≤ (debt' + 1) * index)
    (hupper : debt' * index ≤ debt * (index' + 1)) :
    debt / index - 1 / index ≤ debt' / index' ∧ debt' / index' ≤ debt / index + m / index ^ 2 := by
  have hindex' : 0 < index' := hindex.trans_le hle
  constructor
  · have hgrown : debt / index ≤ (debt' + 1) / index' := by
      rw [div_le_div_iff₀ hindex hindex']
      exact hlower
    have hunit : 1 / index' ≤ 1 / index := one_div_le_one_div_of_le hindex hle
    rw [add_div] at hgrown
    linarith
  · have hgrown : debt' / index' ≤ debt * (index' + 1) / (index * index') := by
      rw [div_le_div_iff₀ hindex' (mul_pos hindex hindex')]
      have hscaled := mul_le_mul_of_nonneg_right hupper hindex'.le
      linarith
    have hsplit : debt * (index' + 1) / (index * index')
        = debt / index + debt / (index * index') := by
      field_simp
    have hsmall : debt / (index * index') ≤ m / index ^ 2 := by
      rw [sq]
      exact div_le_div₀ (hdebt.trans hm) hm (mul_pos hindex hindex)
        (mul_le_mul_of_nonneg_left hle hindex.le)
    linarith

/-- Interest makes the debt grow with the index, but for the two roundings. -/
theorem Reserve.debt_accrueInterest {slot : UInt64} {bps : UInt16}
    (h : r.accrueInterest p slot bps = .ok r') (hpos : 0 < r.liquidity.cumulativeBorrowRateBsf.bits)
    (hfits : r.liquidity.borrowedAmountSf.bits * (r'.liquidity.cumulativeBorrowRateBsf.bits + 1)
      ≤ 2 ^ 128 * r.liquidity.cumulativeBorrowRateBsf.bits) :
    r.liquidity.borrowedAmountSf.bits * r'.liquidity.cumulativeBorrowRateBsf.bits
        ≤ (r'.liquidity.borrowedAmountSf.bits + 1) * r.liquidity.cumulativeBorrowRateBsf.bits ∧
      r'.liquidity.borrowedAmountSf.bits * r.liquidity.cumulativeBorrowRateBsf.bits
        ≤ r.liquidity.borrowedAmountSf.bits * (r'.liquidity.cumulativeBorrowRateBsf.bits + 1) := by
  have hpos' : (0 : ℤ) < r.liquidity.cumulativeBorrowRateBsf.bits := by exact_mod_cast hpos
  have hdebt := U68F60.bits_nonneg r.liquidity.borrowedAmountSf
  simp only [accrueInterest, bind_eq_ok] at h
  obtain ⟨n, -, h⟩ := h
  split at h
  · simp only [ReserveLiquidity.compoundInterest, bind_eq_ok, pure_eq_ok] at h
    obtain ⟨rate, -, l, ⟨sum, -, interest, -, fixed, -, index, hindex, h⟩, rfl⟩ := h
    obtain ⟨_, -, _, -, _, -, _, -, _, -, _, -, _, -, _, -, rfl⟩ := h
    have hnonneg := U68F60.bits_nonneg interest
    have hfactor : ((BigFraction.ofFraction interest).bits : ℤ) = interest.bits :=
      Int.toNat_of_nonneg (U68F60.bits_nonneg interest)
    have hindex : (index.bits : ℤ)
        = r.liquidity.cumulativeBorrowRateBsf.bits * interest.bits / 2 ^ 60 := by
      rw [(BigFraction.mul_eq_ok.mp hindex).2]
      push_cast [hfactor]
      rfl
    obtain ⟨hlt, hlower, hupper⟩ := grown_bounds hpos' hdebt hindex hfits
    have hgrown := U68F60.bits_mul hlt
    exact ⟨hgrown ▸ hlower, hgrown ▸ hupper⟩
  · cases h
    constructor <;> linarith

/-- A call that accrues nothing changes the debt by what it books. -/
theorem Reserve.Step.debt_booked (hp : p.overflowChecks = true) (h : r.Step p e r')
    (haccrues : e.accrues = false) :
    r'.liquidity.borrowedAmountSf.bits
      = r.liquidity.borrowedAmountSf.bits + e.booked r.liquidity := by
  obtain ⟨op, out⟩ := e
  unfold Reserve.Step at h
  cases op with
  | accrueInterest slot bps => cases haccrues
  | depositLiquidity n =>
      obtain ⟨-, ⟨hl, -⟩, -⟩ := Reserve.depositLiquidity_moves h
      obtain ⟨c, -, hl⟩ := ReserveLiquidity.deposit_eq_ok.mp hl
      simp [ReserveEvent.booked, ← hl]
  | redeemCollateral c =>
      obtain ⟨-, ⟨hl, -⟩, -⟩ := Reserve.redeemCollateral_moves h
      obtain ⟨c, -, hl⟩ := ReserveLiquidity.withdraw_eq_ok.mp hl
      simp [ReserveEvent.booked, ← hl]
  | borrow f =>
      simp only [ReserveOp.apply, bind_eq_ok, pure_eq_ok, Prod.mk.injEq] at h
      obtain ⟨l, hl, -, rfl⟩ := h
      obtain ⟨c, -, d, hd, rfl⟩ := ReserveLiquidity.borrow_eq_ok.mp hl
      exact (Fixed.add_eq_ok hp).mp hd
  | repay n f =>
      simp only [ReserveOp.apply, bind_eq_ok, pure_eq_ok, Prod.mk.injEq] at h
      obtain ⟨l, hl, -, rfl⟩ := h
      obtain ⟨c, -, d, hd, rfl⟩ := ReserveLiquidity.repay_eq_ok.mp hl
      exact hd
  | forgiveDebt f =>
      simp only [ReserveOp.apply, ReserveLiquidity.forgiveDebt, bind_eq_ok, pure_eq_ok,
        Prod.mk.injEq, Fixed.sub_eq_ok hp] at h
      obtain ⟨_, ⟨d, hd, rfl⟩, -, rfl⟩ := h
      exact hd
  | redeemFees n | withdrawReferrerFees n t | updateDepositLimitCrossedSlot slot =>
      simp only [ReserveOp.apply, ReserveLiquidity.redeemFees,
        ReserveLiquidity.withdrawReferrerFees, Reserve.updateDepositLimitCrossedSlot, bind_eq_ok,
        pure_eq_ok, Prod.mk.injEq] at h
      grind [ReserveEvent.booked]
  | updateBorrowLimitCrossedSlot slot | updateSlot slot status | markStale =>
      cases h
      exact (add_zero _).symm

/-- The units after a call: what it books at the index, and for interest the two roundings. -/
theorem Reserve.Step.units (hp : p.overflowChecks = true)
    (hvalid : r.config.borrowRateCurve.validate = .ok ()) (h : r.Step p e r')
    (hpos : 0 < r.liquidity.cumulativeBorrowRateBsf.bits)
    (hM : r.liquidity.borrowedAmountSf.bits ≤ M)
    (hfits : M * (r'.liquidity.cumulativeBorrowRateBsf.bits + 1)
      ≤ 2 ^ 128 * r.liquidity.cumulativeBorrowRateBsf.bits) :
    r.liquidity.units + e.booked r.liquidity / r.liquidity.index
        - e.accrues.toNat / r.liquidity.index
      ≤ r'.liquidity.units ∧
      r'.liquidity.units ≤ r.liquidity.units + e.booked r.liquidity / r.liquidity.index
        + e.accrues.toNat * M / r.liquidity.index ^ 2 := by
  have hindex : 0 < r.liquidity.index := Nat.cast_pos.mpr hpos
  cases haccrues : e.accrues with
  | false =>
      -- without interest the index stays, and the amount is booked at it
      have hsame : r'.liquidity.index = r.liquidity.index := by
        rcases h.frame.2 with ⟨slot, bps, hop⟩ | hsame
        · simp [ReserveEvent.accrues, hop] at haccrues
        · rw [ReserveLiquidity.index, hsame]
          rfl
      have hunits : r'.liquidity.units
          = r.liquidity.units + e.booked r.liquidity / r.liquidity.index := by
        rw [ReserveLiquidity.units, hsame, h.debt_booked hp haccrues, ReserveLiquidity.units]
        push_cast
        exact add_div _ _ _
      rw [hunits]
      simp
  | true =>
      obtain ⟨op, out⟩ := e
      cases op with
      | accrueInterest slot bps =>
          simp only [Reserve.Step, ReserveOp.apply, bind_eq_ok, pure_eq_ok, Prod.mk.injEq] at h
          obtain ⟨r₁, hr, -, rfl⟩ := h
          -- interest multiplies index and debt by the same factor, each rounded down
          have hgrows : r.liquidity.index ≤ r₁.liquidity.index :=
            Nat.cast_le.mpr (Reserve.index_le_accrueInterest hp hvalid hr)
          have hfits' : r.liquidity.borrowedAmountSf.bits
                * (r₁.liquidity.cumulativeBorrowRateBsf.bits + 1)
              ≤ 2 ^ 128 * r.liquidity.cumulativeBorrowRateBsf.bits :=
            (mul_le_mul_of_nonneg_right hM (by positivity)).trans (by exact_mod_cast hfits)
          obtain ⟨hlower, hupper⟩ := Reserve.debt_accrueInterest hr hpos hfits'
          have hlower' : (r.liquidity.borrowedAmountSf.bits : ℚ) * r₁.liquidity.index
              ≤ (r₁.liquidity.borrowedAmountSf.bits + 1) * r.liquidity.index := by
            unfold ReserveLiquidity.index
            exact_mod_cast hlower
          have hupper' : (r₁.liquidity.borrowedAmountSf.bits : ℚ) * r.liquidity.index
              ≤ r.liquidity.borrowedAmountSf.bits * (r₁.liquidity.index + 1) := by
            unfold ReserveLiquidity.index
            exact_mod_cast hupper
          have hbounds := grown_div_bounds (m := M) hindex hgrows
            (by exact_mod_cast U68F60.bits_nonneg _) (by exact_mod_cast hM) hlower' hupper'
          simp only [ReserveEvent.booked, Int.cast_zero, zero_div, add_zero, Bool.toNat_true,
            Nat.cast_one, one_mul]
          exact hbounds
      | _ => cases haccrues

def accruals (es : List (ReserveLiquidity × ReserveEvent)) : ℕ := es.countP fun x => x.2.accrues

theorem units_run (hp : p.overflowChecks = true)
    (hvalid : r.config.borrowRateCurve.validate = .ok ())
    (hrun : Run (Observed (Reserve.Step p) Reserve.liquidity) r es r')
    (hpos : 0 < r.liquidity.cumulativeBorrowRateBsf.bits)
    (hM : ∀ x ∈ es, x.1.borrowedAmountSf.bits ≤ M)
    (hfits : M * (r'.liquidity.cumulativeBorrowRateBsf.bits + 1)
      ≤ 2 ^ 128 * r.liquidity.cumulativeBorrowRateBsf.bits) :
    r.liquidity.index ≤ r'.liquidity.index ∧
      r.liquidity.units + bookedUnits es - accruals es / r.liquidity.index ≤ r'.liquidity.units ∧
      r'.liquidity.units
        ≤ r.liquidity.units + bookedUnits es + accruals es * M / r.liquidity.index ^ 2 := by
  have hindex : 0 < r.liquidity.index := Nat.cast_pos.mpr hpos
  induction hrun with
  | nil => simp [bookedUnits, accruals]
  | @snoc es a b x hrun hs ih =>
      obtain ⟨l, e⟩ := x
      obtain ⟨rfl, hs⟩ := hs
      have hconfig : a.config = r.config :=
        hrun.invariant (fun s => s.config = r.config) rfl fun _ _ _ hs h => hs.2.frame.1.trans h
      have hvalid' : a.config.borrowRateCurve.validate = .ok () := hconfig ▸ hvalid
      have hgrows := cumulativeBorrowRate_le hp hvalid' (Run.single hs)
      -- the index only grows, so the bound at the end covers the run so far
      have hfits' : M * (a.liquidity.cumulativeBorrowRateBsf.bits + 1)
          ≤ 2 ^ 128 * r.liquidity.cumulativeBorrowRateBsf.bits :=
        (Nat.mul_le_mul_left M (Nat.succ_le_succ hgrows)).trans hfits
      obtain ⟨hle, hlower, hupper⟩ := ih (fun x hx => hM x (List.mem_append_left _ hx)) hfits'
      have hle' : r.liquidity.cumulativeBorrowRateBsf.bits
          ≤ a.liquidity.cumulativeBorrowRateBsf.bits :=
        Nat.cast_le.mp hle
      obtain ⟨hlower', hupper'⟩ := hs.units hp hvalid' (hpos.trans_le hle')
        (hM (a.liquidity, e) (List.mem_append_right _ (List.mem_singleton_self _)))
        (hfits.trans (Nat.mul_le_mul_left _ hle'))
      -- an accrual later in the run is rounded at a larger index
      have hround : (e.accrues.toNat : ℚ) / a.liquidity.index
          ≤ e.accrues.toNat / r.liquidity.index :=
        div_le_div_of_nonneg_left (Nat.cast_nonneg _) hindex hle
      have hround' : (e.accrues.toNat * M : ℚ) / a.liquidity.index ^ 2
          ≤ e.accrues.toNat * M / r.liquidity.index ^ 2 :=
        div_le_div_of_nonneg_left (by positivity) (by positivity) (pow_le_pow_left₀ hindex.le hle 2)
      have hbooked : bookedUnits (es ++ [(a.liquidity, e)])
          = bookedUnits es + e.booked a.liquidity / a.liquidity.index := by
        simp [bookedUnits]
      have haccruals : accruals (es ++ [(a.liquidity, e)]) = accruals es + e.accrues.toNat := by
        rw [accruals, List.countP_append, List.countP_singleton]
        cases e.accrues <;> rfl
      rw [hbooked, haccruals]
      push_cast
      rw [add_div, add_mul, add_div]
      refine ⟨hle.trans (Nat.cast_le.mpr hgrows), by linarith, by linarith⟩

/-- Over every run, the debt of a reserve is what its calls booked, each amount grown with the index
since it was booked: short of that by at most a unit of the last place an accrual, and more by at
most one part in the bits of the first index an accrual, of the largest debt there was, these too
grown with the index. -/
theorem debt_ledger (hp : p.overflowChecks = true)
    (hvalid : r.config.borrowRateCurve.validate = .ok ())
    (hrun : Run (Observed (Reserve.Step p) Reserve.liquidity) r es r')
    (hpos : 0 < r.liquidity.cumulativeBorrowRateBsf.bits)
    (hM : ∀ x ∈ es, x.1.borrowedAmountSf.bits ≤ M)
    (hfits : M * (r'.liquidity.cumulativeBorrowRateBsf.bits + 1)
      ≤ 2 ^ 128 * r.liquidity.cumulativeBorrowRateBsf.bits) :
    (r.liquidity.units + bookedUnits es - accruals es / r.liquidity.index) * r'.liquidity.index
        ≤ r'.liquidity.borrowedAmountSf.bits ∧
      r'.liquidity.borrowedAmountSf.bits ≤ (r.liquidity.units + bookedUnits es
        + accruals es * M / r.liquidity.index ^ 2) * r'.liquidity.index := by
  obtain ⟨hle, hlower, hupper⟩ := units_run hp hvalid hrun hpos hM hfits
  have hindex : 0 < r'.liquidity.index := lt_of_lt_of_le (Nat.cast_pos.mpr hpos) hle
  exact ⟨(le_div_iff₀ hindex).mp hlower, (div_le_iff₀ hindex).mp hupper⟩

/-- The loan of the fresh reserve: what was lent and settled, and a thousand slots of interest. -/
theorem debt_ledger_loan :
    ∃ es r', Run (Observed (Reserve.Step .checked) Reserve.liquidity) freshReserve es r' ∧
    accruals es = 1 ∧
    (bookedUnits es - 1 / 2 ^ 60) * r'.liquidity.index ≤ r'.liquidity.borrowedAmountSf.bits ∧
    r'.liquidity.borrowedAmountSf.bits
      ≤ (bookedUnits es + 2 ^ 84 / 2 ^ 120) * r'.liquidity.index := by
  have hreplay :
    (observe Reserve.liquidity (Reserve.next .checked) freshReserve loanEvents).any (fun x =>
        decide (∀ y ∈ x.1, y.1.borrowedAmountSf.bits ≤ ((2 ^ 84 : ℕ) : ℤ)) &&
        decide (2 ^ 84 * (x.2.liquidity.cumulativeBorrowRateBsf.bits + 1)
          ≤ 2 ^ 128 * freshReserve.liquidity.cumulativeBorrowRateBsf.bits) &&
        decide (accruals x.1 = 1)) = true := by
    decide +kernel
  obtain ⟨⟨es, r'⟩, hr', htest⟩ := (Option.any_eq_true _ _).mp hreplay
  simp only [Bool.and_eq_true, decide_eq_true_eq] at htest
  obtain ⟨⟨hM, hfits⟩, haccruals⟩ := htest
  have hrun := Run.of_observe (fun _ _ _ => Reserve.next_eq_some.mp) hr'
  have hledger := debt_ledger rfl (by decide +kernel) hrun (by decide +kernel) hM hfits
  have hindex : freshReserve.liquidity.index = 2 ^ 60 := by
    show ((2 ^ 60 : ℕ) : ℚ) = 2 ^ 60
    norm_num
  have hunits : freshReserve.liquidity.units = 0 := zero_div _
  rw [hindex, hunits, haccruals] at hledger
  norm_num at hledger ⊢
  exact ⟨_, r', hrun, haccruals, hledger⟩

end

end Saturn.Klend
