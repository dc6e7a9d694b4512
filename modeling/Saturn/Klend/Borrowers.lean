import Saturn.Klend.Debt

/-!
# What borrowers owe and what a reserve is owed

A reserve keeps one number for all its debt, and each obligation one for its own. Both grow with the
index of the reserve, the first at every accrual, the others when they are refreshed, and each is
rounded on its way. Where the same amounts were booked on both sides at the same indices, in
whatever order, the sum of the debts of the borrowers is the debt of the reserve, but for a unit of
the last place a rounding (`debts_agree`).
-/

namespace Saturn.Klend

open Machine Transition

/-! ## Bookings -/

/-- What amounts come to in units of the index each was booked at. -/
def unitsOf (bookings : List (ℤ × ℕ)) : ℚ := (bookings.map fun b => (b.1 : ℚ) / b.2).sum

/-- The bookings of an amount. -/
def nonzero (bookings : List (ℤ × ℕ)) : List (ℤ × ℕ) := bookings.filter fun b => b.1 ≠ 0

theorem unitsOf_append (bs cs : List (ℤ × ℕ)) : unitsOf (bs ++ cs) = unitsOf bs + unitsOf cs := by
  simp [unitsOf]

theorem unitsOf_nonzero (bs : List (ℤ × ℕ)) : unitsOf (nonzero bs) = unitsOf bs := by
  induction bs with
  | nil => rfl
  | cons b bs ih =>
      by_cases hb : b.1 = 0
      · simp_all [unitsOf, nonzero]
      · simp_all [unitsOf, nonzero]

/-- What the calls on a reserve booked, and at which index. -/
def reserveBookings (es : List (ReserveLiquidity × ReserveEvent)) : List (ℤ × ℕ) :=
  es.map fun x => (x.2.booked x.1, x.1.cumulativeBorrowRateBsf.bits)

theorem unitsOf_reserveBookings (es : List (ReserveLiquidity × ReserveEvent)) :
    unitsOf (reserveBookings es) = bookedUnits es := by
  rw [unitsOf, reserveBookings, List.map_map]
  rfl

/-! ## The debt of a borrower -/

/-- A call of a method of the debt of an obligation. -/
inductive LiquidityOp
  | borrow (borrowAmount : U68F60)
  | repay (settleAmount : U68F60)
  | accrueInterest (newCumulativeBorrowRate : BigFraction)

namespace LiquidityOp

def apply (p : Profile) (op : LiquidityOp) (l : ObligationLiquidity) :
    Except Failure ObligationLiquidity :=
  match op with
  | borrow f => l.borrow p f
  | repay f => l.repay p f
  | accrueInterest rate => l.accrueInterest rate

/-- What the call adds to the debt, in bits. -/
def booked (op : LiquidityOp) : ℤ :=
  match op with
  | borrow f => f.bits
  | repay f => -f.bits
  | accrueInterest _ => 0

def refreshes (op : LiquidityOp) : ℕ :=
  match op with
  | accrueInterest _ => 1
  | _ => 0

end LiquidityOp

namespace ObligationLiquidity

/-- A call that succeeds. -/
def Step (p : Profile) (l : ObligationLiquidity) (op : LiquidityOp) (l' : ObligationLiquidity) :
    Prop :=
  op.apply p l = .ok l'

/-- The debt in units that grow with the index it was refreshed at. -/
def units (l : ObligationLiquidity) : ℚ := l.borrowedAmountSf.bits / l.cumulativeBorrowRateBsf.bits

end ObligationLiquidity

/-- What the calls on a debt booked, and at which index. -/
def borrowerBookings (calls : List (ObligationLiquidity × LiquidityOp)) : List (ℤ × ℕ) :=
  calls.map fun x => (x.2.booked, x.1.cumulativeBorrowRateBsf.bits)

def refreshed (calls : List (ObligationLiquidity × LiquidityOp)) : ℕ :=
  (calls.map fun x => x.2.refreshes).sum

variable {p : Profile} {l l' : ObligationLiquidity} {op : LiquidityOp}
  {calls : List (ObligationLiquidity × LiquidityOp)}

/-- A call books its amount at the index; where it refreshes the debt, it takes less than a unit of
the last place. -/
theorem ObligationLiquidity.Step.units (hp : p.overflowChecks = true) (h : l.Step p op l')
    (hpos : 0 < l.cumulativeBorrowRateBsf.bits) :
    l.cumulativeBorrowRateBsf.bits ≤ l'.cumulativeBorrowRateBsf.bits ∧
      l.units + op.booked / l.cumulativeBorrowRateBsf.bits
          - op.refreshes / l.cumulativeBorrowRateBsf.bits
        ≤ l'.units ∧
      l'.units ≤ l.units + op.booked / l.cumulativeBorrowRateBsf.bits := by
  have hpos' : (0 : ℚ) < l.cumulativeBorrowRateBsf.bits := Nat.cast_pos.mpr hpos
  unfold Step at h
  cases op with
  | borrow f =>
      simp only [LiquidityOp.apply, borrow, bind_eq_ok, pure_eq_ok, Fixed.add_eq_ok hp] at h
      obtain ⟨d, hd, rfl⟩ := h
      have hunits : (d.bits : ℚ) / l.cumulativeBorrowRateBsf.bits
          = l.units + f.bits / l.cumulativeBorrowRateBsf.bits := by
        rw [hd, units, ← add_div]
        push_cast
        rfl
      simp [units, LiquidityOp.booked, LiquidityOp.refreshes, hunits]
  | repay f =>
      simp only [LiquidityOp.apply, repay, bind_eq_ok, pure_eq_ok, Fixed.sub_eq_ok hp] at h
      obtain ⟨d, hd, rfl⟩ := h
      have hunits : (d.bits : ℚ) / l.cumulativeBorrowRateBsf.bits
          = l.units + (-f.bits : ℤ) / l.cumulativeBorrowRateBsf.bits := by
        rw [hd, units, ← add_div]
        push_cast
        rw [← sub_eq_add_neg]
      simp [units, LiquidityOp.booked, LiquidityOp.refreshes, hunits]
  | accrueInterest rate =>
      obtain ⟨rfl, hindex, hupper, hlower⟩ := accrueInterest_bounds hpos h
      have hle : (l.cumulativeBorrowRateBsf.bits : ℚ) ≤ l'.cumulativeBorrowRateBsf.bits :=
        Nat.cast_le.mpr hindex
      have hdebt : (0 : ℚ) ≤ l.borrowedAmountSf.bits := by exact_mod_cast U68F60.bits_nonneg _
      have hupper' : (l'.borrowedAmountSf.bits : ℚ) * l.cumulativeBorrowRateBsf.bits
          ≤ l.borrowedAmountSf.bits * l'.cumulativeBorrowRateBsf.bits := by
        exact_mod_cast hupper
      have hlower' : (l.borrowedAmountSf.bits : ℚ) * l'.cumulativeBorrowRateBsf.bits
          ≤ (l'.borrowedAmountSf.bits + 1) * l.cumulativeBorrowRateBsf.bits := by
        exact_mod_cast hlower.le
      obtain ⟨hrounded, -⟩ := grown_div_bounds hpos' hle hdebt le_rfl hlower' (by linarith)
      -- in units of the index a refreshed debt can only have lost what the division dropped
      have hgrown : l'.units ≤ l.units := by
        rw [units, units, div_le_div_iff₀ (hpos'.trans_le hle) hpos']
        exact hupper'
      simp only [LiquidityOp.booked, LiquidityOp.refreshes, Int.cast_zero, zero_div, add_zero,
        Nat.cast_one]
      exact ⟨hindex, hrounded, hgrown⟩

/-- Over every run of calls, a debt is what they booked, less a unit of the last place a refresh at
most. -/
theorem ObligationLiquidity.units_run (hp : p.overflowChecks = true) {index : ℕ}
    (hindex : 0 < index) (hrun : Run (Observed (Step p) id) l calls l')
    (hfirst : index ≤ l.cumulativeBorrowRateBsf.bits) :
    index ≤ l'.cumulativeBorrowRateBsf.bits ∧
      l.units + unitsOf (borrowerBookings calls) - refreshed calls / index ≤ l'.units ∧
      l'.units ≤ l.units + unitsOf (borrowerBookings calls) := by
  induction hrun with
  | nil => simp [unitsOf, borrowerBookings, refreshed, hfirst]
  | @snoc calls a b x hrun hs ih =>
      obtain ⟨m, op⟩ := x
      obtain ⟨rfl, hs⟩ := hs
      obtain ⟨hle, hlower, hupper⟩ := ih
      obtain ⟨hle', hlower', hupper'⟩ := hs.units hp (hindex.trans_le hle)
      have hindex' : (0 : ℚ) < index := Nat.cast_pos.mpr hindex
      have hround : (op.refreshes : ℚ) / m.cumulativeBorrowRateBsf.bits ≤ op.refreshes / index :=
        div_le_div_of_nonneg_left (Nat.cast_nonneg _) hindex' (Nat.cast_le.mpr hle)
      have hbookings : unitsOf (borrowerBookings (calls ++ [(m, op)]))
          = unitsOf (borrowerBookings calls) + op.booked / m.cumulativeBorrowRateBsf.bits := by
        simp [borrowerBookings, unitsOf]
      have hrefreshed : refreshed (calls ++ [(m, op)]) = refreshed calls + op.refreshes := by
        simp [refreshed]
      rw [hbookings, hrefreshed]
      push_cast
      rw [add_div]
      exact ⟨hle.trans hle', by linarith, by linarith⟩

/-! ## Both together -/

/-- A borrower: a debt, the calls on it, and what they lead to. -/
structure Borrower where
  first : ObligationLiquidity
  calls : List (ObligationLiquidity × LiquidityOp)
  last : ObligationLiquidity

/-- There is no debt at first, at an index not below the first of the reserve, and it is refreshed
at the end. -/
structure Borrower.Follows (p : Profile) (b : Borrower) (r r' : Reserve) : Prop where
  run : Run (Observed (ObligationLiquidity.Step p) id) b.first b.calls b.last
  zero : b.first.borrowedAmountSf = U68F60.zero
  first_le : r.liquidity.cumulativeBorrowRateBsf.bits ≤ b.first.cumulativeBorrowRateBsf.bits
  last_eq : b.last.cumulativeBorrowRateBsf = r'.liquidity.cumulativeBorrowRateBsf

/-- What the borrowers owe together, in bits. -/
def totalDebt (bs : List Borrower) : ℚ := (bs.map fun b => (b.last.borrowedAmountSf.bits : ℚ)).sum

variable {r r' : Reserve} {bs : List Borrower} {es : List (ReserveLiquidity × ReserveEvent)} {M : ℕ}

/-- In units of the last index, the borrowers owe what they booked, less a unit of the last place a
refresh at most. -/
theorem totalDebt_bounds (hp : p.overflowChecks = true)
    (hpos : 0 < r.liquidity.cumulativeBorrowRateBsf.bits)
    (hpos' : 0 < r'.liquidity.cumulativeBorrowRateBsf.bits) (hbs : ∀ b ∈ bs, b.Follows p r r') :
    (unitsOf (bs.flatMap fun b => borrowerBookings b.calls)
        - (bs.map fun b => refreshed b.calls).sum / r.liquidity.index) * r'.liquidity.index
          ≤ totalDebt bs ∧
      totalDebt bs
        ≤ unitsOf (bs.flatMap fun b => borrowerBookings b.calls) * r'.liquidity.index := by
  have hindex' : 0 < r'.liquidity.index := Nat.cast_pos.mpr hpos'
  induction bs with
  | nil => simp [unitsOf, totalDebt]
  | cons b bs ih =>
      rw [List.forall_mem_cons] at hbs
      obtain ⟨⟨hrun, hzero, hfirst, hlast⟩, hrest⟩ := hbs
      obtain ⟨hlower, hupper⟩ := ih hrest
      obtain ⟨-, hlower', hupper'⟩ := ObligationLiquidity.units_run hp hpos hrun hfirst
      -- each borrower starts without debt
      have hnone : b.first.units = 0 := by
        rw [ObligationLiquidity.units, hzero]
        exact zero_div _
      rw [hnone, zero_add, ObligationLiquidity.units, hlast] at hlower' hupper'
      have howed := (le_div_iff₀ hindex').mp hlower'
      have howed' := (div_le_iff₀ hindex').mp hupper'
      have htotal : totalDebt (b :: bs) = b.last.borrowedAmountSf.bits + totalDebt bs := by
        simp [totalDebt]
      rw [htotal, List.flatMap_cons, unitsOf_append, List.map_cons, List.sum_cons, Nat.cast_add,
        add_div]
      constructor
      · calc _ = (unitsOf (borrowerBookings b.calls) - refreshed b.calls / r.liquidity.index)
                  * r'.liquidity.index + (unitsOf (bs.flatMap fun b => borrowerBookings b.calls)
                  - ((bs.map fun b => refreshed b.calls).sum : ℕ) / r.liquidity.index)
                  * r'.liquidity.index := by ring
          _ ≤ _ := add_le_add howed hlower
      · rw [add_mul]
        exact add_le_add howed' hupper

/-- Where the borrowers booked what the reserve booked, each amount at the same index but in
whatever order, they owe together the debt of the reserve: more by at most a unit of the last place
an accrual, and less by at most a unit a refresh and, for each accrual, the largest debt over the
bits of the first index, all of it grown with the index. -/
theorem debts_agree (hp : p.overflowChecks = true)
    (hvalid : r.config.borrowRateCurve.validate = .ok ())
    (hrun : Run (Observed (Reserve.Step p) Reserve.liquidity) r es r')
    (hpos : 0 < r.liquidity.cumulativeBorrowRateBsf.bits)
    (hzero : r.liquidity.borrowedAmountSf = U68F60.zero)
    (hM : ∀ x ∈ es, x.1.borrowedAmountSf.bits ≤ M)
    (hfits : M * (r'.liquidity.cumulativeBorrowRateBsf.bits + 1)
      ≤ 2 ^ 128 * r.liquidity.cumulativeBorrowRateBsf.bits)
    (hbs : ∀ b ∈ bs, b.Follows p r r')
    (hbook : (nonzero (bs.flatMap fun b => borrowerBookings b.calls)).Perm
      (nonzero (reserveBookings es))) :
    totalDebt bs ≤ r'.liquidity.borrowedAmountSf.bits
        + accruals es * (r'.liquidity.index / r.liquidity.index) ∧
      r'.liquidity.borrowedAmountSf.bits ≤ totalDebt bs
        + ((bs.map fun b => refreshed b.calls).sum + accruals es * M / r.liquidity.index)
          * (r'.liquidity.index / r.liquidity.index) := by
  obtain ⟨hle, hlower, hupper⟩ := units_run hp hvalid hrun hpos hM hfits
  have hindex : 0 < r.liquidity.index := Nat.cast_pos.mpr hpos
  have hindex' : 0 < r'.liquidity.index := hindex.trans_le hle
  obtain ⟨howed, howed'⟩ := totalDebt_bounds hp hpos (Nat.cast_pos.mp hindex') hbs
  -- the order of the bookings does not matter for their sum
  have hsame : unitsOf (bs.flatMap fun b => borrowerBookings b.calls) = bookedUnits es := by
    rw [← unitsOf_nonzero, ← unitsOf_reserveBookings, ← unitsOf_nonzero (reserveBookings es)]
    exact (hbook.map _).sum_eq
  have hnone : r.liquidity.units = 0 := by
    rw [ReserveLiquidity.units, hzero]
    exact zero_div _
  rw [hnone, zero_add, ReserveLiquidity.units] at hlower hupper
  have hdebt := (le_div_iff₀ hindex').mp hlower
  have hdebt' := (div_le_iff₀ hindex').mp hupper
  rw [hsame] at howed howed'
  constructor
  · calc totalDebt bs ≤ bookedUnits es * r'.liquidity.index := howed'
      _ = (bookedUnits es - accruals es / r.liquidity.index) * r'.liquidity.index
          + accruals es * (r'.liquidity.index / r.liquidity.index) := by
        field_simp
        ring
      _ ≤ _ := by linarith
  · calc (r'.liquidity.borrowedAmountSf.bits : ℚ)
        ≤ (bookedUnits es + accruals es * M / r.liquidity.index ^ 2) * r'.liquidity.index := hdebt'
      _ = (bookedUnits es - (bs.map fun b => refreshed b.calls).sum / r.liquidity.index)
        * r'.liquidity.index
          + ((bs.map fun b => refreshed b.calls).sum + accruals es * M / r.liquidity.index)
            * (r'.liquidity.index / r.liquidity.index) := by
        field_simp
        ring
      _ ≤ _ := by linarith

/-- Where a call leads, if it succeeds. -/
def ObligationLiquidity.next (p : Profile) (l : ObligationLiquidity) (op : LiquidityOp) :
    Option ObligationLiquidity := (op.apply p l).toOption

/-- The calls on the debt of the only borrower of the fresh reserve, up to an index. -/
def loanCalls (rate : BigFraction) : List LiquidityOp :=
  [.borrow (U68F60.ofU64 600000), .accrueInterest rate, .repay (U68F60.ofU64 200000)]

/-- The debt of the only borrower is that of the fresh reserve. -/
theorem debts_agree_loan : ∃ r' b, b.Follows .checked freshReserve r' ∧
    totalDebt [b] ≤ r'.liquidity.borrowedAmountSf.bits + r'.liquidity.index / 2 ^ 60 := by
  -- both ledgers are replayed in one evaluation, the borrower on the indices of the reserve
  have hreplay :
    (observe Reserve.liquidity (Reserve.next .checked) freshReserve loanEvents).any (fun x =>
      decide (∀ y ∈ x.1, y.1.borrowedAmountSf.bits ≤ ((2 ^ 84 : ℕ) : ℤ)) &&
      decide (2 ^ 84 * (x.2.liquidity.cumulativeBorrowRateBsf.bits + 1)
        ≤ 2 ^ 128 * freshReserve.liquidity.cumulativeBorrowRateBsf.bits) &&
      decide (accruals x.1 = 1) &&
      (observe id (ObligationLiquidity.next .checked) (.new 7 (.ofFraction U68F60.one))
        (loanCalls x.2.liquidity.cumulativeBorrowRateBsf)).any fun y =>
          decide (y.2.cumulativeBorrowRateBsf = x.2.liquidity.cumulativeBorrowRateBsf) &&
          decide ((nonzero (borrowerBookings y.1)).Perm (nonzero (reserveBookings x.1))))
            = true := by
    decide +kernel
  obtain ⟨⟨es, r'⟩, hr', htest⟩ := (Option.any_eq_true _ _).mp hreplay
  simp only [Bool.and_eq_true, decide_eq_true_eq] at htest
  obtain ⟨⟨⟨hM, hfits⟩, haccruals⟩, hborrower⟩ := htest
  obtain ⟨⟨calls, l'⟩, hl', htest⟩ := (Option.any_eq_true _ _).mp hborrower
  simp only [Bool.and_eq_true, decide_eq_true_eq] at htest
  obtain ⟨hlast, hbook⟩ := htest
  have hrun := Run.of_observe (fun _ _ _ => Reserve.next_eq_some.mp) hr'
  let b : Borrower := ⟨.new 7 (.ofFraction U68F60.one), calls, l'⟩
  have hfollows : b.Follows .checked freshReserve r' :=
    { run := Run.of_observe (fun _ _ _ => toOption_eq_some.mp) hl'
      zero := rfl
      first_le := le_rfl
      last_eq := hlast }
  have hbs : ∀ c ∈ [b], c.Follows .checked freshReserve r' := by
    simpa using hfollows
  have hsame : (nonzero ([b].flatMap fun c => borrowerBookings c.calls)).Perm
      (nonzero (reserveBookings es)) := by
    simpa [b] using hbook
  have hagree := debts_agree rfl (by decide +kernel) hrun (by decide +kernel) rfl hM hfits hbs hsame
  have hindex : freshReserve.liquidity.index = 2 ^ 60 := by
    show ((2 ^ 60 : ℕ) : ℚ) = 2 ^ 60
    norm_num
  rw [hindex, haccruals, Nat.cast_one, one_mul] at hagree
  exact ⟨r', b, hfollows, hagree.1⟩

end Saturn.Klend
