import Saturn.Klend.ReserveRuns

/-!
# Since when a reserve is over its limits

`update_deposit_limit_crossed_slot` and `update_borrow_limit_crossed_slot` look whether a limit is
crossed, and keep the slot of the first look that found it so. Over every run, between any other
calls, the slot that is kept is the one since which every look found the limit crossed
(`limitCrossedSlot_since`).
-/

namespace Saturn.Klend

open Machine Transition

/-- The slot of a look at the deposit limit. -/
def ReserveOp.depositLimitSlot (op : ReserveOp) : Option UInt64 :=
  match op with
  | updateDepositLimitCrossedSlot slot => some slot
  | _ => none

/-- The slot of a look at the borrow limit. -/
def ReserveOp.borrowLimitSlot (op : ReserveOp) : Option UInt64 :=
  match op with
  | updateBorrowLimitCrossedSlot slot => some slot
  | _ => none

variable {p : Profile} {r r' : Reserve} {e : ReserveEvent} {es : List ReserveEvent} {slot : UInt64}

/-- Only the look at a limit writes its slot. -/
theorem Reserve.Step.limitCrossedSlot (h : r.Step p e r') :
    (match e.op.depositLimitSlot with
      | none => r'.liquidity.depositLimitCrossedSlot = r.liquidity.depositLimitCrossedSlot
      | some slot => ∃ crossed, r.depositLimitCrossed p = .ok crossed ∧
          r'.liquidity.depositLimitCrossedSlot
            = crossedSlot crossed r.liquidity.depositLimitCrossedSlot slot) ∧
    (match e.op.borrowLimitSlot with
      | none => r'.liquidity.borrowLimitCrossedSlot = r.liquidity.borrowLimitCrossedSlot
      | some slot => r'.liquidity.borrowLimitCrossedSlot
          = crossedSlot r.borrowLimitCrossed r.liquidity.borrowLimitCrossedSlot slot) := by
  obtain ⟨op, out⟩ := e
  unfold Reserve.Step at h
  cases op with
  | depositLiquidity n =>
      obtain ⟨-, ⟨hl, -⟩, -⟩ := Reserve.depositLiquidity_moves h
      obtain ⟨c, -, hl⟩ := ReserveLiquidity.deposit_eq_ok.mp hl
      exact ⟨hl ▸ rfl, hl ▸ rfl⟩
  | redeemCollateral c =>
      obtain ⟨-, ⟨hl, -⟩, -⟩ := Reserve.redeemCollateral_moves h
      obtain ⟨c, -, hl⟩ := ReserveLiquidity.withdraw_eq_ok.mp hl
      exact ⟨hl ▸ rfl, hl ▸ rfl⟩
  -- interest moves the debt and the index, not the slots
  | accrueInterest slot bps =>
      simp only [ReserveOp.apply, Reserve.accrueInterest, bind_eq_ok, pure_eq_ok,
        Prod.mk.injEq] at h
      obtain ⟨r₁, ⟨n, -, h⟩, -, rfl⟩ := h
      split at h
      · simp only [ReserveLiquidity.compoundInterest, bind_eq_ok, pure_eq_ok] at h
        obtain ⟨-, -, l, ⟨-, -, -, -, -, -, -, -, -, -, -, -, -, -, -, -, -, -, -, -, -, -, rfl⟩,
            rfl⟩ := h
        exact ⟨rfl, rfl⟩
      · cases h
        exact ⟨rfl, rfl⟩
  | updateDepositLimitCrossedSlot slot =>
      simp only [ReserveOp.apply, Reserve.updateDepositLimitCrossedSlot, bind_eq_ok, pure_eq_ok,
        Prod.mk.injEq] at h
      obtain ⟨-, ⟨crossed, hcrossed, rfl⟩, -, rfl⟩ := h
      exact ⟨⟨crossed, hcrossed, rfl⟩, rfl⟩
  | borrow f | repay n f | redeemFees n | forgiveDebt f | withdrawReferrerFees n t =>
      simp only [ReserveOp.apply, ReserveLiquidity.borrow, ReserveLiquidity.repay,
        ReserveLiquidity.redeemFees, ReserveLiquidity.forgiveDebt,
        ReserveLiquidity.withdrawReferrerFees, bind_eq_ok, pure_eq_ok, Prod.mk.injEq] at h
      grind [ReserveOp.depositLimitSlot, ReserveOp.borrowLimitSlot]
  | updateBorrowLimitCrossedSlot slot | updateSlot slot status | markStale =>
      cases h
      exact ⟨rfl, rfl⟩

/-- Over every run, in every build, the slot kept for a limit is the one since which every look
found the limit crossed. -/
theorem limitCrossedSlot_since (hrun : Run (Reserve.Step p) r es r') (hslot : slot ≠ 0) :
    (r.liquidity.depositLimitCrossedSlot = 0 → (r'.liquidity.depositLimitCrossedSlot = slot ↔
      Since (Reserve.Step p) (fun e => e.op.depositLimitSlot)
        (fun a => a.depositLimitCrossed p = .ok true)
        (fun a => a.liquidity.depositLimitCrossedSlot = 0) slot r es r')) ∧
    (r.liquidity.borrowLimitCrossedSlot = 0 → (r'.liquidity.borrowLimitCrossedSlot = slot ↔
      Since (Reserve.Step p) (fun e => e.op.borrowLimitSlot) (fun a => a.borrowLimitCrossed = true)
        (fun a => a.liquidity.borrowLimitCrossedSlot = 0) slot r es r')) := by
  constructor
  · intro hzero
    apply hrun.register_iff_since _ _ _ _ hzero hslot
    · intro a e b hs htime
      have hslots := hs.limitCrossedSlot.1
      rw [htime] at hslots
      exact hslots
    · intro a e b n hs htime hcond
      have hslots := hs.limitCrossedSlot.1
      rw [htime] at hslots
      obtain ⟨crossed, hcrossed, hb⟩ := hslots
      cases crossed with
      -- the limit is not crossed: the slot is cleared
      | false => exact hb
      | true => exact absurd hcrossed hcond
    all_goals
      intro a e b n hs htime hcond hregister
      have hslots := hs.limitCrossedSlot.1
      rw [htime] at hslots
      obtain ⟨crossed, hcrossed, hb⟩ := hslots
      obtain rfl : crossed = true := Except.ok.inj (hcrossed.symm.trans hcond)
      simp_all [Reserve.crossedSlot]
  · intro hzero
    apply hrun.register_iff_since _ _ _ _ hzero hslot
    · intro a e b hs htime
      have hslots := hs.limitCrossedSlot.2
      rw [htime] at hslots
      exact hslots
    · intro a e b n hs htime hcond
      have hslots := hs.limitCrossedSlot.2
      rw [htime] at hslots
      simp_all [Reserve.crossedSlot]
    all_goals
      intro a e b n hs htime hcond hregister
      have hslots := hs.limitCrossedSlot.2
      rw [htime] at hslots
      simp_all [Reserve.crossedSlot]

def limitEvents : List ReserveEvent :=
  [⟨.updateDepositLimitCrossedSlot 5, 0⟩, ⟨.depositLiquidity 1000001, 1000001⟩,
    ⟨.updateDepositLimitCrossedSlot 7, 0⟩, ⟨.updateDepositLimitCrossedSlot 9, 0⟩]

/-- The limit is crossed since the first look after the deposit. -/
theorem limitCrossedSlot_since_seven :
    ∃ r', Run (Reserve.Step .checked) freshReserve limitEvents r' ∧
    Since (Reserve.Step .checked) (fun e => e.op.depositLimitSlot)
      (fun a => a.depositLimitCrossed .checked = .ok true)
      (fun a => a.liquidity.depositLimitCrossedSlot = 0) 7 freshReserve limitEvents r' := by
  have hrun : (limitEvents.foldlM (Reserve.next .checked) freshReserve).any (fun r' =>
      decide (r'.liquidity.depositLimitCrossedSlot = 7)) = true := by
    decide +kernel
  obtain ⟨r', hr', hslot⟩ := (Option.any_eq_true _ _).mp hrun
  have hrun' := Run.of_foldlM (fun _ _ _ => Reserve.next_eq_some.mp) hr'
  have hsince := limitCrossedSlot_since hrun' (show (7 : UInt64) ≠ 0 by decide)
  exact ⟨r', hrun', (hsince.1 rfl).mp (of_decide_eq_true hslot)⟩

end Saturn.Klend
