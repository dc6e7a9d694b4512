import Saturn.Klend.Supply
import Saturn.Vault.Price
import Saturn.Transition.Latch
import Mathlib.Tactic.NormNum

/-!
# Runs of a reserve

A reserve takes the calls of its methods one after the other (`ReserveOp`), in any order; `Step` is
one that succeeds, with the amount it returned in its label.

* Over every run the tokens of the reserve and its shares are accounted for (`reserve_ledger`).
* A reserve passes for fresh where the last call that wrote its last update refreshed it
  (`isStale_eq_false`).
* Where the callers repay what they settle and forgive nothing, a share keeps its price but for the
  rounding of redemptions (`share_price`).
* Who deposits and redeems at once gets no more than was paid, unless the deposit is larger than the
  exchange rate in bits (`deposit_redeem`).
-/

namespace Saturn.Klend

open Machine Transition

/-- A call of a method of the reserve. -/
inductive ReserveOp
  | depositLiquidity (liquidityAmount : UInt64)
  | redeemCollateral (collateralAmount : UInt64)
  | borrow (borrowF : U68F60)
  | repay (repayAmount : UInt64) (settleAmount : U68F60)
  | redeemFees (withdrawAmount : UInt64)
  | withdrawReferrerFees (withdrawAmount : UInt64) (referrerTokenState : ReferrerTokenState)
  | forgiveDebt (liquidityAmount : U68F60)
  | accrueInterest (currentSlot : UInt64) (referralFeeBps : UInt16)
  | updateDepositLimitCrossedSlot (currentSlot : UInt64)
  | updateBorrowLimitCrossedSlot (currentSlot : UInt64)
  | updateSlot (slot : UInt64) (priceStatus : Option UInt8)
  | markStale

namespace ReserveOp

/-- The call, with the amount the method returns, if it returns one. -/
def apply (p : Profile) (op : ReserveOp) (r : Reserve) : Except Failure (UInt64 × Reserve) :=
  match op with
  | depositLiquidity n => r.depositLiquidity p n
  | redeemCollateral c => r.redeemCollateral p c
  | borrow f => do return (0, { r with liquidity := ← r.liquidity.borrow p f })
  | repay n f => do return (0, { r with liquidity := ← r.liquidity.repay n f })
  | redeemFees n => do return (0, { r with liquidity := ← r.liquidity.redeemFees n })
  | withdrawReferrerFees n t => do
      let (liquidity, _) ← r.liquidity.withdrawReferrerFees n t
      return (0, { r with liquidity })
  | forgiveDebt f => do return (0, { r with liquidity := ← r.liquidity.forgiveDebt p f })
  | accrueInterest slot bps => do return (0, ← r.accrueInterest p slot bps)
  | updateDepositLimitCrossedSlot slot => do return (0, ← r.updateDepositLimitCrossedSlot p slot)
  | updateBorrowLimitCrossedSlot slot => return (0, r.updateBorrowLimitCrossedSlot slot)
  | updateSlot slot status =>
    return (0, { r with lastUpdate := r.lastUpdate.updateSlot slot status })
  | markStale => return (0, { r with lastUpdate := r.lastUpdate.markStale })

end ReserveOp

/-- A call, and the amount it returned. -/
structure ReserveEvent where
  op : ReserveOp
  out : UInt64

namespace ReserveEvent

variable (e : ReserveEvent)

def paidIn : ℕ :=
  match e.op with
  | .depositLiquidity n | .repay n _ => n.toNat
  | _ => 0

def paidOut : ℕ :=
  match e.op with
  | .redeemCollateral _ => e.out.toNat
  | .borrow f => (toFloor f).toNat
  | .redeemFees n | .withdrawReferrerFees n _ => n.toNat
  | _ => 0

def minted : ℕ :=
  match e.op with
  | .depositLiquidity _ => e.out.toNat
  | _ => 0

def burned : ℕ :=
  match e.op with
  | .redeemCollateral c => c.toNat
  | _ => 0

def redemptions : ℕ :=
  match e.op with
  | .redeemCollateral _ => 1
  | _ => 0

end ReserveEvent

/-- A call that succeeds. -/
def Reserve.Step (p : Profile) (r : Reserve) (e : ReserveEvent) (r' : Reserve) : Prop :=
  e.op.apply p r = .ok (e.out, r')

/-- Where the step leads, if the call succeeds and returns what the event says. -/
def Reserve.next (p : Profile) (r : Reserve) (e : ReserveEvent) : Option Reserve :=
  match e.op.apply p r with
  | .ok (out, r') => if out = e.out then some r' else none
  | .error _ => none

variable {p : Profile} {r r' : Reserve} {e : ReserveEvent} {es : List ReserveEvent}

theorem Reserve.next_eq_some : r.next p e = some r' ↔ r.Step p e r' := by
  unfold Reserve.next Reserve.Step
  cases h : e.op.apply p r with
  | error f => simp
  | ok x =>
      obtain ⟨out, r₁⟩ := x
      by_cases hout : out = e.out
      · simp [hout]
      · simp [hout]

/-! ## What a step keeps and moves -/

namespace Reserve

/-- Interest is not paid out of the tokens of the reserve, and mints no shares. -/
theorem accrueInterest_keeps {slot : UInt64} {bps : UInt16}
    (h : r.accrueInterest p slot bps = .ok r') :
    r'.lastUpdate = r.lastUpdate ∧ r'.liquidity.availableAmount = r.liquidity.availableAmount ∧
      r'.collateral = r.collateral ∧ r'.config = r.config := by
  simp only [accrueInterest, bind_eq_ok] at h
  obtain ⟨n, -, h⟩ := h
  split at h
  · simp only [ReserveLiquidity.compoundInterest, bind_eq_ok, pure_eq_ok] at h
    obtain ⟨-, -, l, ⟨-, -, -, -, -, -, -, -, -, -, -, -, -, -, -, -, -, -, -, -, -, -, rfl⟩,
        rfl⟩ := h
    exact ⟨rfl, rfl, rfl, rfl⟩
  · cases h
    exact ⟨rfl, rfl, rfl, rfl⟩

end Reserve

/-! ## The ledger -/

/-- Tokens and shares after a step. -/
theorem Reserve.Step.ledger (h : r.Step p e r') :
    r'.liquidity.availableAmount.toNat + e.paidOut = r.liquidity.availableAmount.toNat + e.paidIn ∧
      r'.collateral.mintTotalSupply.toNat + e.burned
        = r.collateral.mintTotalSupply.toNat + e.minted := by
  obtain ⟨op, out⟩ := e
  unfold Reserve.Step at h
  cases op with
  | depositLiquidity n =>
      obtain ⟨-, ⟨hl, hm⟩, -⟩ := Reserve.depositLiquidity_moves h
      obtain ⟨c, hc, hr⟩ := ReserveLiquidity.deposit_eq_ok.mp hl
      simp [ReserveEvent.paidOut, ReserveEvent.paidIn, ReserveEvent.burned, ReserveEvent.minted,
        ← hr, hc, hm]
  | redeemCollateral n =>
      obtain ⟨-, ⟨hl, hm⟩, -⟩ := Reserve.redeemCollateral_moves h
      obtain ⟨c, hc, hr⟩ := ReserveLiquidity.withdraw_eq_ok.mp hl
      simp [ReserveEvent.paidOut, ReserveEvent.paidIn, ReserveEvent.burned, ReserveEvent.minted,
        ← hr, hc, hm]
  | borrow f =>
      simp only [ReserveOp.apply, bind_eq_ok, pure_eq_ok, Prod.mk.injEq] at h
      obtain ⟨l, hl, -, rfl⟩ := h
      obtain ⟨c, hc, d, -, rfl⟩ := ReserveLiquidity.borrow_eq_ok.mp hl
      simp [ReserveEvent.paidOut, ReserveEvent.paidIn, ReserveEvent.burned, ReserveEvent.minted, hc]
  | repay n f =>
      simp only [ReserveOp.apply, bind_eq_ok, pure_eq_ok, Prod.mk.injEq] at h
      obtain ⟨l, hl, -, rfl⟩ := h
      obtain ⟨c, hc, d, -, rfl⟩ := ReserveLiquidity.repay_eq_ok.mp hl
      simp [ReserveEvent.paidOut, ReserveEvent.paidIn, ReserveEvent.burned, ReserveEvent.minted, hc]
  | redeemFees n =>
      simp only [ReserveOp.apply, bind_eq_ok, pure_eq_ok, Prod.mk.injEq] at h
      obtain ⟨l, hl, -, rfl⟩ := h
      obtain ⟨c, hc, d, -, rfl⟩ := ReserveLiquidity.redeemFees_eq_ok.mp hl
      simp [ReserveEvent.paidOut, ReserveEvent.paidIn, ReserveEvent.burned, ReserveEvent.minted, hc]
  | withdrawReferrerFees n t =>
      simp only [ReserveOp.apply, bind_eq_ok, pure_eq_ok, Prod.mk.injEq] at h
      obtain ⟨⟨l, t'⟩, hl, -, rfl⟩ := h
      obtain ⟨c, hc, d, -, -, rfl⟩ := ReserveLiquidity.withdrawReferrerFees_eq_ok.mp hl
      simp [ReserveEvent.paidOut, ReserveEvent.paidIn, ReserveEvent.burned, ReserveEvent.minted, hc]
  -- the others move no token
  | forgiveDebt f =>
      simp only [ReserveOp.apply, ReserveLiquidity.forgiveDebt, bind_eq_ok, pure_eq_ok,
        Prod.mk.injEq] at h
      obtain ⟨-, ⟨d, -, rfl⟩, -, rfl⟩ := h
      exact ⟨rfl, rfl⟩
  | accrueInterest slot bps =>
      simp only [ReserveOp.apply, bind_eq_ok, pure_eq_ok, Prod.mk.injEq] at h
      obtain ⟨r₁, hr, -, rfl⟩ := h
      obtain ⟨-, hl, hc, -⟩ := Reserve.accrueInterest_keeps hr
      rw [hl, hc]
      exact ⟨rfl, rfl⟩
  | updateDepositLimitCrossedSlot slot =>
      simp only [ReserveOp.apply, Reserve.updateDepositLimitCrossedSlot, bind_eq_ok, pure_eq_ok,
        Prod.mk.injEq] at h
      obtain ⟨-, ⟨b, -, rfl⟩, -, rfl⟩ := h
      exact ⟨rfl, rfl⟩
  | updateBorrowLimitCrossedSlot slot | updateSlot slot status | markStale =>
      cases h
      exact ⟨rfl, rfl⟩

/-- Over every run, in every build, the tokens the reserve has available and the shares there are
account for all that went in and out. -/
theorem reserve_ledger (hrun : Run (Reserve.Step p) r es r') :
    r'.liquidity.availableAmount.toNat + (es.map ReserveEvent.paidOut).sum
        = r.liquidity.availableAmount.toNat + (es.map ReserveEvent.paidIn).sum ∧
      r'.collateral.mintTotalSupply.toNat + (es.map ReserveEvent.burned).sum
        = r.collateral.mintTotalSupply.toNat + (es.map ReserveEvent.minted).sum := by
  induction hrun with
  | nil => simp
  | @snoc es a b e hrun hs ih =>
      have hstep := hs.ledger
      simp only [List.map_append, List.sum_append, List.map_cons, List.map_nil, List.sum_singleton]
      omega

/-- A reserve without liquidity, whose borrowers pay five percent. -/
def freshReserve : Reserve where
  lastUpdate := .new 0
  liquidity := .new 6 U68F60.one
  collateral := ⟨0⟩
  config :=
    { hostFixedInterestRateBps := 100
      protocolTakeRatePct := 20
      fees := ⟨0⟩
      borrowRateCurve := .pad [⟨0, 500⟩] ⟨10000, 500⟩ (by decide)
      borrowFactorPct := 100
      depositLimit := 1000000
      borrowLimit := 1000000 }

/-- A deposit, a loan, a thousand slots of interest, a repayment, a redemption. -/
def loanEvents : List ReserveEvent :=
  [⟨.depositLiquidity 1000000, 1000000⟩, ⟨.borrow (U68F60.ofU64 600000), 0⟩,
    ⟨.accrueInterest 1000 0, 0⟩, ⟨.repay 200000 (U68F60.ofU64 200000), 0⟩,
    ⟨.redeemCollateral 300000, 300000⟩]

/-- The books after a loan. -/
theorem reserve_ledger_loan : ∃ r', Run (Reserve.Step .checked) freshReserve loanEvents r' ∧
    r'.liquidity.availableAmount.toNat + 900000 = 1200000 ∧
    r'.collateral.mintTotalSupply.toNat + 300000 = 1000000 := by
  have hrun : (loanEvents.foldlM (Reserve.next .checked) freshReserve).isSome = true := by
    decide +kernel
  obtain ⟨r', hr'⟩ := Option.isSome_iff_exists.mp hrun
  have hrun' := Run.of_foldlM (fun _ _ _ => Reserve.next_eq_some.mp) hr'
  exact ⟨r', hrun', reserve_ledger hrun'⟩

/-! ## Freshness -/

/-- Not marked, and updated at the slot. -/
def LastUpdate.Fresh (u : LastUpdate) (slot : UInt64) : Prop := u.stale = 0 ∧ u.slot = slot

theorem LastUpdate.isStale_eq_ok_false {u : LastUpdate} {slot : UInt64} {minStatus : UInt8} :
    u.isStale slot minStatus = .ok false ↔
      u.Fresh slot ∧ u.priceStatus &&& 63 &&& minStatus = minStatus := by
  unfold isStale Fresh
  split
  · rename_i hstale
    simp [hstale]
  rename_i hstale
  have helapsed : u.slot ≤ slot ∧ ¬ 1 ≤ slot - u.slot ↔ u.slot = slot := by
    simp only [UInt64.le_iff_toNat_le, ← UInt64.toNat_inj]
    have hone : (1 : UInt64).toNat = 1 := rfl
    constructor
    · rintro ⟨hle, hlt⟩
      rw [toNat_sub_of_le hle] at hlt
      omega
    · intro heq
      refine ⟨heq.le, ?_⟩
      rw [toNat_sub_of_le heq.le]
      omega
  simp only [not_not] at hstale
  simp only [slotsElapsed, getPriceStatus, bind_eq_ok, require_eq_ok, pure_eq_ok, exists_const,
    Bool.or_eq_false_iff, decide_eq_false_iff_not, hstale, true_and, ← helapsed]
  constructor
  · rintro ⟨-, ⟨hle, rfl⟩, hlt, hstatus⟩
    exact ⟨⟨hle, hlt⟩, not_not.mp (of_decide_eq_false hstatus)⟩
  · rintro ⟨⟨hle, hlt⟩, hstatus⟩
    exact ⟨_, ⟨hle, rfl⟩, hlt, decide_eq_false (not_not.mpr hstatus)⟩

/-- What a call makes of the last update. -/
def ReserveOp.touch (op : ReserveOp) (u : LastUpdate) : LastUpdate :=
  match op with
  | updateSlot slot status => u.updateSlot slot status
  | markStale => u.markStale
  | _ => u

/-- The call is one of the two that write the last update. -/
def ReserveOp.touches (op : ReserveOp) : Bool :=
  match op with
  | updateSlot _ _ | markStale => true
  | _ => false

theorem Reserve.Step.lastUpdate (h : r.Step p e r') : r'.lastUpdate = e.op.touch r.lastUpdate := by
  obtain ⟨op, out⟩ := e
  unfold Reserve.Step at h
  cases op with
  | depositLiquidity n =>
      simp only [ReserveOp.apply, Reserve.depositLiquidity, bind_eq_ok, pure_eq_ok,
        Prod.mk.injEq] at h
      obtain ⟨x, -, c, -, l, -, m, -, -, rfl⟩ := h
      rfl
  | redeemCollateral c =>
      simp only [ReserveOp.apply, Reserve.redeemCollateral, bind_eq_ok, pure_eq_ok,
        Prod.mk.injEq] at h
      obtain ⟨x, -, q, -, m, -, l, -, -, rfl⟩ := h
      rfl
  | accrueInterest slot bps =>
      simp only [ReserveOp.apply, bind_eq_ok, pure_eq_ok, Prod.mk.injEq] at h
      obtain ⟨r₁, hr, -, rfl⟩ := h
      exact (Reserve.accrueInterest_keeps hr).1
  | borrow f | repay n f | redeemFees n | forgiveDebt f | withdrawReferrerFees n t
  | updateDepositLimitCrossedSlot slot =>
      simp only [ReserveOp.apply, Reserve.updateDepositLimitCrossedSlot, bind_eq_ok, pure_eq_ok,
        Prod.mk.injEq] at h
      grind [ReserveOp.touch]
  | updateBorrowLimitCrossedSlot slot | updateSlot slot status | markStale =>
      cases h
      rfl

/-- Only `accrue_interest` moves the index, and no call the configuration. -/
theorem Reserve.Step.frame (h : r.Step p e r') : r'.config = r.config ∧
    ((∃ slot bps, e.op = .accrueInterest slot bps) ∨
      r'.liquidity.cumulativeBorrowRateBsf = r.liquidity.cumulativeBorrowRateBsf) := by
  obtain ⟨op, out⟩ := e
  unfold Reserve.Step at h
  cases op with
  | depositLiquidity n =>
      obtain ⟨-, ⟨hl, -⟩, hconfig⟩ := Reserve.depositLiquidity_moves h
      obtain ⟨c, -, hl⟩ := ReserveLiquidity.deposit_eq_ok.mp hl
      exact ⟨hconfig, .inr (hl ▸ rfl)⟩
  | redeemCollateral c =>
      obtain ⟨-, ⟨hl, -⟩, hconfig⟩ := Reserve.redeemCollateral_moves h
      obtain ⟨c, -, hl⟩ := ReserveLiquidity.withdraw_eq_ok.mp hl
      exact ⟨hconfig, .inr (hl ▸ rfl)⟩
  | accrueInterest slot bps =>
      simp only [ReserveOp.apply, bind_eq_ok, pure_eq_ok, Prod.mk.injEq] at h
      obtain ⟨r₁, hr, -, rfl⟩ := h
      exact ⟨(Reserve.accrueInterest_keeps hr).2.2.2, .inl ⟨slot, bps, rfl⟩⟩
  | borrow f | repay n f | redeemFees n | forgiveDebt f | withdrawReferrerFees n t
  | updateDepositLimitCrossedSlot slot =>
      simp only [ReserveOp.apply, ReserveLiquidity.borrow, ReserveLiquidity.repay,
        ReserveLiquidity.redeemFees, ReserveLiquidity.forgiveDebt,
        ReserveLiquidity.withdrawReferrerFees, Reserve.updateDepositLimitCrossedSlot, bind_eq_ok,
        pure_eq_ok, Prod.mk.injEq] at h
      grind
  | updateBorrowLimitCrossedSlot slot | updateSlot slot status | markStale =>
      cases h
      exact ⟨rfl, .inr rfl⟩

/-- The price status reported last. -/
def reportedStatus (init : UInt8) (es : List ReserveEvent) : UInt8 :=
  es.foldl (fun status e =>
    match e.op with
    | .updateSlot _ (some status') => status'
    | _ => status) init

theorem reportedStatus_eq (hrun : Run (Reserve.Step p) r es r') :
    r'.lastUpdate.priceStatus = reportedStatus r.lastUpdate.priceStatus es := by
  induction hrun with
  | nil => rfl
  | @snoc es a b e hrun hs ih =>
      have hsnoc : reportedStatus r.lastUpdate.priceStatus (es ++ [e])
          = reportedStatus a.lastUpdate.priceStatus [e] := by
        rw [ih, reportedStatus, List.foldl_append]
        rfl
      rw [hs.lastUpdate, hsnoc]
      show _ = reportedStatus a.lastUpdate.priceStatus [⟨e.op, e.out⟩]
      cases e.op with
      | updateSlot slot status => cases status <;> rfl
      | _ => rfl

/-- A reserve passes for fresh at a slot where the last call that wrote its last update is
`update_slot` at that slot, and the status reported last has the flags asked for. -/
theorem isStale_eq_false (hrun : Run (Reserve.Step p) r es r') (hstale : r.lastUpdate.stale ≠ 0)
    (slot : UInt64) (minStatus : UInt8) :
    r'.lastUpdate.isStale slot minStatus = .ok false ↔
      (∃ pre e post, es = pre ++ e :: post ∧ (∃ status, e.op = .updateSlot slot status) ∧
        ∀ f ∈ post, f.op.touches = false) ∧
      reportedStatus r.lastUpdate.priceStatus es &&& 63 &&& minStatus = minStatus := by
  have hstep (a : Reserve) (e : ReserveEvent) (b : Reserve) (hs : a.Step p e b) :
      b.lastUpdate.Fresh slot ↔ (∃ status, e.op = .updateSlot slot status) ∨
        e.op.touches = false ∧ a.lastUpdate.Fresh slot := by
    rw [hs.lastUpdate]
    cases e.op <;>
      simp [ReserveOp.touch, ReserveOp.touches, LastUpdate.Fresh, LastUpdate.updateSlot,
        LastUpdate.markStale]
  have hlast := hrun.flag_iff_last hstep fun h => hstale h.1
  rw [LastUpdate.isStale_eq_ok_false, reportedStatus_eq hrun, hlast]

/-- Refreshed at slot seven, and paid into. -/
theorem isStale_eq_false_refreshed : ∃ r', Run (Reserve.Step .checked) freshReserve
      [⟨.updateSlot 7 (some 63), 0⟩, ⟨.depositLiquidity 5, 5⟩] r' ∧
    r'.lastUpdate.isStale 7 3 = .ok false := by
  let es : List ReserveEvent := [⟨.updateSlot 7 (some 63), 0⟩, ⟨.depositLiquidity 5, 5⟩]
  have hrun : (es.foldlM (Reserve.next .checked) freshReserve).isSome = true := by decide +kernel
  obtain ⟨r', hr'⟩ := Option.isSome_iff_exists.mp hrun
  have hrun' := Run.of_foldlM (fun _ _ _ => Reserve.next_eq_some.mp) hr'
  refine ⟨r', hrun', (isStale_eq_false hrun' (by decide) 7 3).mpr ⟨?_, by decide⟩⟩
  refine ⟨[], ⟨.updateSlot 7 (some 63), 0⟩, [⟨.depositLiquidity 5, 5⟩], rfl, ⟨some 63, rfl⟩, ?_⟩
  simp [ReserveOp.touches]

/-! ## The price of a share -/

/-- The supply in bits over the shares. -/
def Reserve.sharePrice (r : Reserve) : ℚ :=
  Vault.price (r.liquidity.supply : ℚ) (r.collateral.mintTotalSupply.toNat : ℚ)

/-- The callers repay what they settle and forgive nothing, the protocol takes no more than the
interest, and a redemption finds more than a tiny supply and leaves `m` shares. -/
def Careful (m : ℕ) (r : Reserve) (e : ReserveEvent) : Prop :=
  match e.op with
  | .redeemCollateral c =>
      m + c.toNat ≤ r.collateral.mintTotalSupply.toNat ∧ 2 ^ 56 ≤ r.liquidity.supply
  | .repay n f => f.bits ≤ n.toNat * 2 ^ 60
  | .accrueInterest _ _ => r.config.protocolTakeRatePct.toNat ≤ 100
  | .forgiveDebt _ => False
  | _ => True

instance (m : ℕ) (r : Reserve) (e : ReserveEvent) : Decidable (Careful m r e) :=
  match e with
  | ⟨.redeemCollateral c, _⟩ => inferInstanceAs
      (Decidable (m + c.toNat ≤ r.collateral.mintTotalSupply.toNat ∧ 2 ^ 56 ≤ r.liquidity.supply))
  | ⟨.repay n f, _⟩ => inferInstanceAs (Decidable (f.bits ≤ n.toNat * 2 ^ 60))
  | ⟨.accrueInterest _ _, _⟩ =>
    inferInstanceAs (Decidable (r.config.protocolTakeRatePct.toNat ≤ 100))
  | ⟨.forgiveDebt _, _⟩ => inferInstanceAs (Decidable False)
  | ⟨.depositLiquidity _, _⟩ | ⟨.borrow _, _⟩ | ⟨.redeemFees _, _⟩ | ⟨.withdrawReferrerFees _ _, _⟩
  | ⟨.updateDepositLimitCrossedSlot _, _⟩ | ⟨.updateBorrowLimitCrossedSlot _, _⟩
  | ⟨.updateSlot _ _, _⟩ | ⟨.markStale, _⟩ => inferInstanceAs (Decidable True)

theorem fromPercent_le_one {n : UInt8} (h : n.toNat ≤ 100) :
    fromPercent n.toUInt64 ≤ U68F60.one := by
  have hbits : (fromPercent n.toUInt64).bits = n.toNat * 2 ^ 60 / 100 := by
    rw [fromPercent, ofRatio_bits, UInt8.toNat_toUInt64]
    rfl
  rw [Fixed.le_iff_bits, hbits, U68F60.bits_one]
  omega

theorem Reserve.supply_accrueInterest (hp : p.overflowChecks = true) {slot : UInt64} {bps : UInt16}
    (htake : r.config.protocolTakeRatePct.toNat ≤ 100) (h : r.accrueInterest p slot bps = .ok r') :
    r.liquidity.supply ≤ r'.liquidity.supply := by
  simp only [accrueInterest, bind_eq_ok] at h
  obtain ⟨n, -, h⟩ := h
  split at h
  · simp only [bind_eq_ok, pure_eq_ok] at h
    obtain ⟨rate, -, l, hl, rfl⟩ := h
    exact (ReserveLiquidity.supply_compoundInterest hp (fromPercent_le_one htake) hl).2
  · cases h
    exact le_rfl

/-- A careful step other than a deposit or a redemption moves no shares and does not lower the
supply. -/
theorem Reserve.Step.supply_le (hp : p.overflowChecks = true) {m : ℕ} (h : r.Step p e r')
    (hcareful : Careful m r e) (hdeposit : ∀ n, e.op ≠ .depositLiquidity n)
    (hredeem : ∀ c, e.op ≠ .redeemCollateral c) :
    r.liquidity.supply ≤ r'.liquidity.supply := by
  obtain ⟨op, out⟩ := e
  unfold Reserve.Step at h
  cases op with
  | depositLiquidity n => exact absurd rfl (hdeposit n)
  | redeemCollateral c => exact absurd rfl (hredeem c)
  | forgiveDebt f => exact hcareful.elim
  | borrow f =>
      simp only [ReserveOp.apply, bind_eq_ok, pure_eq_ok, Prod.mk.injEq] at h
      obtain ⟨l, hl, -, rfl⟩ := h
      exact ReserveLiquidity.supply_borrow hp hl
  | repay n f =>
      simp only [ReserveOp.apply, bind_eq_ok, pure_eq_ok, Prod.mk.injEq] at h
      obtain ⟨l, hl, -, rfl⟩ := h
      exact ReserveLiquidity.supply_repay hcareful hl
  | redeemFees n =>
      simp only [ReserveOp.apply, bind_eq_ok, pure_eq_ok, Prod.mk.injEq] at h
      obtain ⟨l, hl, -, rfl⟩ := h
      -- what is paid out was counted as owed to the protocol
      exact (ReserveLiquidity.supply_redeemFees hl).ge
  | withdrawReferrerFees n t =>
      simp only [ReserveOp.apply, bind_eq_ok, pure_eq_ok, Prod.mk.injEq] at h
      obtain ⟨⟨l, t'⟩, hl, -, rfl⟩ := h
      exact (ReserveLiquidity.supply_withdrawReferrerFees hl).ge
  | accrueInterest slot bps =>
      simp only [ReserveOp.apply, bind_eq_ok, pure_eq_ok, Prod.mk.injEq] at h
      obtain ⟨r₁, hr, -, rfl⟩ := h
      exact Reserve.supply_accrueInterest hp hcareful hr
  | updateDepositLimitCrossedSlot slot =>
      simp only [ReserveOp.apply, Reserve.updateDepositLimitCrossedSlot, bind_eq_ok, pure_eq_ok,
        Prod.mk.injEq] at h
      obtain ⟨-, ⟨b, -, rfl⟩, -, rfl⟩ := h
      exact le_rfl
  | updateBorrowLimitCrossedSlot slot | updateSlot slot status | markStale =>
      cases h
      exact le_rfl

theorem Reserve.sharePrice_deposit (hp : p.overflowChecks = true) {n c : UInt64}
    (hpos : 0 < r.collateral.mintTotalSupply.toNat) (h : r.depositLiquidity p n = .ok (c, r')) :
    r.sharePrice ≤ r'.sharePrice := by
  -- there are shares, so the deposit is converted at the exchange rate
  have hne : r.collateral.mintTotalSupply = 0 → r.liquidity.supply = 0 := by
    intro hzero
    exact absurd hzero (ne_zero_iff_toNat_pos.mpr hpos)
  have hfair := depositLiquidity_fair hp h hne
  obtain ⟨-, ⟨hl, hm⟩, -⟩ := depositLiquidity_moves h
  have hprice : Vault.price (K := ℚ) r.liquidity.supply r.collateral.mintTotalSupply.toNat
      ≤ Vault.price (K := ℚ) (r.liquidity.supply + n.toNat * 2 ^ 60)
        (r.collateral.mintTotalSupply.toNat + c.toNat) :=
    Vault.price_issue (by exact_mod_cast hpos) (by positivity) (by exact_mod_cast hfair)
  rw [sharePrice, sharePrice, ReserveLiquidity.supply_deposit hl, hm]
  push_cast
  exact hprice

/-- A redemption that leaves `m` shares takes at most the part `16 / m` of the price. -/
theorem Reserve.sharePrice_redeem (hp : p.overflowChecks = true) {m : ℕ} {c q : UInt64} (hm : 0 < m)
    (hleft : m + c.toNat ≤ r.collateral.mintTotalSupply.toNat)
    (hsupply : 2 ^ 56 ≤ r.liquidity.supply) (h : r.redeemCollateral p c = .ok (q, r')) :
    (1 - 16 / m) * r.sharePrice ≤ r'.sharePrice := by
  have hfair := redeemCollateral_fair hp h (ne_zero_iff_toNat_pos.mpr (by omega)) hsupply
  obtain ⟨-, ⟨hl, hmint⟩, -⟩ := redeemCollateral_moves h
  have hmint' : (r'.collateral.mintTotalSupply.toNat : ℚ)
      = r.collateral.mintTotalSupply.toNat - c.toNat := by
    rw [← hmint]
    push_cast
    ring
  have hleft' : (m : ℚ) ≤ r.collateral.mintTotalSupply.toNat - c.toNat := by
    rw [← hmint']
    exact_mod_cast (by omega : m ≤ r'.collateral.mintTotalSupply.toNat)
  have hassets : (0 : ℚ) ≤ r.liquidity.supply := by
    exact_mod_cast (by omega : 0 ≤ r.liquidity.supply)
  have hfair' : (q.toNat * 2 ^ 60 * r.collateral.mintTotalSupply.toNat : ℚ)
      ≤ (c.toNat + 16) * r.liquidity.supply := by
    exact_mod_cast hfair
  have hprice : (1 - 16 / m : ℚ)
        * Vault.price (K := ℚ) r.liquidity.supply r.collateral.mintTotalSupply.toNat
      ≤ Vault.price (K := ℚ) (r.liquidity.supply - q.toNat * 2 ^ 60)
        (r.collateral.mintTotalSupply.toNat - c.toNat) :=
    Vault.price_overpaid hassets (Nat.cast_nonneg _) (by exact_mod_cast hm) hleft' (by norm_num)
      hfair'
  rw [sharePrice, sharePrice, ReserveLiquidity.supply_withdraw hl, hmint']
  push_cast
  exact hprice

/-- One careful step. -/
theorem Reserve.Step.sharePrice_le (hp : p.overflowChecks = true) {m : ℕ} (hm : 0 < m)
    (h : r.Step p e r') (hcareful : Careful m r e)
    (hshares : m ≤ r.collateral.mintTotalSupply.toNat) :
    (1 - 16 / m : ℚ) ^ e.redemptions * r.sharePrice ≤ r'.sharePrice := by
  have hledger := h.ledger.2
  obtain ⟨op, out⟩ := e
  cases op with
  | depositLiquidity n =>
      simp only [ReserveEvent.redemptions, pow_zero, one_mul]
      exact Reserve.sharePrice_deposit hp (by omega) h
  | redeemCollateral c =>
      simp only [ReserveEvent.redemptions, pow_one]
      exact Reserve.sharePrice_redeem hp hm hcareful.1 hcareful.2 h
  | _ =>
      have hsupply := h.supply_le hp hcareful (by simp) (by simp)
      simp only [ReserveEvent.burned, ReserveEvent.minted, add_zero] at hledger
      simp only [ReserveEvent.redemptions, pow_zero, one_mul, Reserve.sharePrice, Vault.price,
        hledger]
      apply div_le_div_of_nonneg_right (by exact_mod_cast hsupply) (Nat.cast_nonneg _)

/-- A careful step leaves `m` shares where it finds them. -/
theorem Reserve.Step.shares_le {m : ℕ} (h : r.Step p e r') (hcareful : Careful m r e)
    (hshares : m ≤ r.collateral.mintTotalSupply.toNat) :
    m ≤ r'.collateral.mintTotalSupply.toNat := by
  have hledger := h.ledger.2
  obtain ⟨op, out⟩ := e
  cases op with
  | redeemCollateral c =>
      have hleft := hcareful.1
      simp only [ReserveEvent.burned, ReserveEvent.minted] at hledger
      omega
  | _ =>
      simp only [ReserveEvent.burned] at hledger
      omega

theorem kept_part_nonneg {m : ℕ} (hm : 16 ≤ m) : (0 : ℚ) ≤ 1 - 16 / m := by
  have hm' : (16 : ℚ) ≤ m := by exact_mod_cast hm
  rw [sub_nonneg, div_le_one (by linarith)]
  exact hm'

/-- In a build with overflow checks, over every run that always leaves `m` shares, a share keeps its
price but for the part `16 / m` at each redemption. -/
theorem share_price (hp : p.overflowChecks = true) {m : ℕ} (hm : 16 ≤ m)
    (hrun : Run (Guarded (Reserve.Step p) (Careful m)) r es r')
    (hshares : m ≤ r.collateral.mintTotalSupply.toNat) :
    (1 - 16 / m : ℚ) ^ (es.map ReserveEvent.redemptions).sum * r.sharePrice ≤ r'.sharePrice := by
  apply hrun.pow_mul_le (kept_part_nonneg hm) (fun r => m ≤ r.collateral.mintTotalSupply.toNat)
    hshares
  · intro a e b hstep hinv
    exact hstep.1.shares_le hstep.2 hinv
  · intro a e b hstep hinv
    exact hstep.1.sharePrice_le hp (by omega) hstep.2 hinv

/-- A careful run, call by call. -/
theorem carefulRun {m : ℕ} (h : es.foldlM (fun a e => if Careful m a e then a.next p e else none) r
    = some r') : Run (Guarded (Reserve.Step p) (Careful m)) r es r' := by
  apply Run.of_foldlM _ h
  intro a e b hnext
  split at hnext
  · rename_i hcareful
    exact ⟨Reserve.next_eq_some.mp hnext, hcareful⟩
  · cases hnext

/-- The loan, where a million shares are there before. -/
theorem share_price_loan : ∃ r', Run (Guarded (Reserve.Step .checked) (Careful 1000000))
      { freshReserve with
        liquidity := { freshReserve.liquidity with availableAmount := 1000000 }
        collateral := ⟨1000000⟩ } loanEvents r' ∧
    (1 - 16 / 1000000 : ℚ) * 2 ^ 60 ≤ r'.sharePrice := by
  let r : Reserve := { freshReserve with
    liquidity := { freshReserve.liquidity with availableAmount := 1000000 }
    collateral := ⟨1000000⟩ }
  have hprice : r.sharePrice = 2 ^ 60 := by
    have hsupply : r.liquidity.supply = 1000000 * 2 ^ 60 := by decide +kernel
    have hmint : r.collateral.mintTotalSupply.toNat = 1000000 := by decide +kernel
    rw [Reserve.sharePrice, Vault.price, hsupply, hmint]
    norm_num
  have hrun :
    (loanEvents.foldlM (fun a e => if Careful 1000000 a e then a.next .checked e else none)
      r).isSome = true := by
    decide +kernel
  obtain ⟨r', hr'⟩ := Option.isSome_iff_exists.mp hrun
  have hrun' := carefulRun hr'
  have hbound := share_price rfl (by norm_num) hrun' (by decide)
  rw [hprice] at hbound
  have hone : (loanEvents.map ReserveEvent.redemptions).sum = 1 := by decide
  rw [hone, pow_one] at hbound
  exact ⟨r', hrun', by exact_mod_cast hbound⟩

/-! ## There and back -/

theorem Reserve.supply_nonneg (hp : p.overflowChecks = true) {x : CollateralExchangeRate}
    (h : r.collateralExchangeRate p = .ok x) : 0 ≤ r.liquidity.supply := by
  simp only [collateralExchangeRate, bind_eq_ok] at h
  obtain ⟨s, hs, -⟩ := h
  rw [← ReserveLiquidity.bits_totalSupply hp hs]
  exact U68F60.bits_nonneg s

/-- Who redeems the shares of a deposit at once gets at most the part more of it that is one over
the bits of the exchange rate; nothing more, if the deposit is less than those bits. -/
theorem deposit_redeem (hp : p.overflowChecks = true) {r'' : Reserve} {n c q : UInt64}
    (hne : r.collateral.mintTotalSupply = 0 → r.liquidity.supply = 0)
    (hdeposit : r.depositLiquidity p n = .ok (c, r'))
    (hredeem : r'.redeemCollateral p c = .ok (q, r'')) :
    ∃ x, r'.collateralExchangeRate p = .ok x ∧ (q.toNat : ℤ) ≤ n.toNat + n.toNat / x.rate.bits := by
  have hfair := Reserve.depositLiquidity_fair hp hdeposit hne
  obtain ⟨⟨y, hy, hc⟩, ⟨hl, hm⟩, -⟩ := Reserve.depositLiquidity_moves hdeposit
  obtain ⟨⟨x, hx, hq⟩, -, -⟩ := Reserve.redeemCollateral_moves hredeem
  have hsupply := ReserveLiquidity.supply_deposit hl
  have hnonneg := Reserve.supply_nonneg hp hy
  have hrate : 0 < x.rate.bits := by
    simp only [CollateralExchangeRate.collateralToLiquidity, bind_eq_ok, U68F60.div_eq_ok] at hq
    obtain ⟨z, ⟨hne, -⟩, -⟩ := hq
    exact lt_of_le_of_ne (U68F60.bits_nonneg _) (Ne.symm hne)
  have hpaid := Reserve.collateralToLiquidity_le hq
  refine ⟨x, hx, ?_⟩
  rw [← sub_le_iff_le_add', Int.le_ediv_iff_mul_le hrate]
  -- a deposit of nothing mints nothing, and nothing is redeemed
  rcases Nat.eq_zero_or_pos n.toNat with hzero | hpos
  · have hminted := Reserve.liquidityToCollateral_le hp hc
    rw [hzero, Nat.cast_zero, mul_zero] at hminted
    have hnone : c.toNat = 0 := by omega
    rw [hnone, Nat.cast_zero, zero_mul] at hpaid
    rw [hzero, Nat.cast_zero, sub_zero]
    exact hpaid
  by_cases hinit : r'.Initial
  · have hshares : c.toNat = 0 := by
      rcases hinit with hnone | hnone
      · rw [← UInt64.toNat_inj] at hnone
        have hnone : r'.collateral.mintTotalSupply.toNat = 0 := hnone
        omega
      · omega
    rw [hshares, Nat.cast_zero, zero_mul] at hpaid
    have hpos' : (0 : ℤ) ≤ n.toNat * x.rate.bits := by positivity
    linarith
  have hlt := Reserve.lt_rate_mul_supply hp hx hinit (by omega)
  have hsupply' : 0 < r'.liquidity.supply := by omega
  have hworth : (c.toNat : ℤ) * r'.liquidity.supply
      ≤ n.toNat * 2 ^ 60 * r'.collateral.mintTotalSupply.toNat := by
    rw [hsupply, hm]
    push_cast
    linarith
  have hchain : (q.toNat * x.rate.bits : ℤ) * r'.liquidity.supply
      ≤ n.toNat * (x.rate.bits + 1) * r'.liquidity.supply := by
    have hpaid' := mul_le_mul_of_nonneg_right hpaid hsupply'.le
    have hlt' := mul_le_mul_of_nonneg_left hlt.le (Int.natCast_nonneg n.toNat)
    linarith
  have hbound := le_of_mul_le_mul_right hchain hsupply'
  linarith

/-- A thousand tokens paid into the fresh reserve. -/
theorem deposit_redeem_thousand : ∃ (r' : Reserve) (x : CollateralExchangeRate),
    freshReserve.depositLiquidity .checked 1000 = .ok (1000, r') ∧
    r'.collateralExchangeRate .checked = .ok x ∧ (1000 : ℤ) ≤ 1000 + 1000 / x.rate.bits := by
  obtain ⟨⟨c, r'⟩, hd, htest⟩ := exists_eq_ok
    (fun d : UInt64 × Reserve => decide (d.1 = 1000) &&
      (d.2.redeemCollateral .checked 1000).toOption.any
        fun q : UInt64 × Reserve => decide (q.1 = 1000))
    (show (freshReserve.depositLiquidity .checked 1000).toOption.any _ = true by decide +kernel)
  rw [Bool.and_eq_true, decide_eq_true_eq] at htest
  obtain ⟨rfl, hredeem⟩ := htest
  obtain ⟨⟨q, r''⟩, hr, hq⟩ := exists_eq_ok _ hredeem
  obtain rfl := of_decide_eq_true hq
  obtain ⟨x, hx, hle⟩ := deposit_redeem rfl (by decide) hd hr
  exact ⟨r', x, hd, hx, hle⟩

/-- Larger deposits than the bits of the rate do get more: of one share and a supply of half of
`2 ^ 60` tokens the rate is of two bits, and rounded down to one after the deposit. -/
example : ((do
      let r : Reserve := { freshReserve with
        liquidity := { freshReserve.liquidity with availableAmount := 2 ^ 59 }
        collateral := ⟨1⟩ }
      let (c, r') ← r.depositLiquidity .checked (3 * 2 ^ 58)
      let (q, _) ← r'.redeemCollateral .checked c
      return q) : Except Failure UInt64) = .ok (2 ^ 60) := by
  decide +kernel

end Saturn.Klend
