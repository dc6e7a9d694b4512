import Saturn.Klend.Obligation
import Saturn.Klend.Supply

/-!
# What an obligation keeps

An obligation is a map from reserves to collateral, and one from reserves to debt (`Account`). The
calls on it (`ObligationOp`) look a slot up and work on it; on the account they change what is under
a key. Where no two slots have one reserve the two agree, errors included, for every sequence of
calls (`view_run`): at most eight reserves hold collateral and five debt, none has two slots, and
which slot it has does not matter.

The asset tiers of the slots in use are those the slots were opened with, so listing them does not
panic (`getAssetTiers_run`).
-/

namespace Saturn.Klend

open Machine Keyed

/-- A call on an obligation: find a slot, or open one, and work on it. -/
inductive ObligationOp
  | deposit (depositReserve : Pubkey) (depositReserveAssetTier : AssetTier)
    (collateralAmount : UInt64)
  | withdraw (depositReserve : Pubkey) (withdrawAmount : UInt64)
  | borrow (borrowReserve : Pubkey) (cumulativeBorrowRate : BigFraction)
      (borrowReserveAssetTier : AssetTier) (borrowAmount : U68F60)
  | repay (borrowReserve : Pubkey) (settleAmount : U68F60)
  | accrueInterest (borrowReserve : Pubkey) (newCumulativeBorrowRate : BigFraction)
  | updateHasDebt

/-- The reserves of a call are not the default key. -/
def ObligationOp.Named : ObligationOp → Prop
  | deposit k _ _ | withdraw k _ | borrow k _ _ _ | repay k _ | accrueInterest k _ => k ≠ 0
  | updateHasDebt => True

namespace Obligation

variable (p : Profile) (o : Obligation)

def apply (op : ObligationOp) : Except Failure Obligation :=
  match op with
  | .deposit k tier n => do
      let (i, o) ← o.findOrAddCollateralToDeposits k tier pure
      return { o with deposits := Function.update o.deposits i (← (o.deposits i).deposit n) }
  | .withdraw k n => do
      let (_, o) ← o.withdraw n (← o.positionOfCollateralInDeposits k)
      return o
  | .borrow k rate tier f => do
      let (i, o) ← o.findOrAddLiquidityToBorrows k rate tier
      return { o with borrows := Function.update o.borrows i (← (o.borrows i).borrow p f) }
  | .repay k f => do o.repay p f (← o.findLiquidityInBorrows k)
  | .accrueInterest k rate => do
      let i ← o.findLiquidityInBorrows k
      return { o with borrows := Function.update o.borrows i (← (o.borrows i).accrueInterest rate) }
  | .updateHasDebt => return o.updateHasDebt

end Obligation

/-! ## Accounts -/

/-- Collateral and debt by reserve, each with the tier of the reserve. -/
structure Account where
  collateral : Pubkey → Option (ObligationCollateral × UInt8)
  debts : Pubkey → Option (ObligationLiquidity × UInt8)
  hasDebt : UInt8

/-- A deposit to what is there. -/
def depositTo (n : UInt64) (e : ObligationCollateral × UInt8) :
    Except Failure (ObligationCollateral × UInt8) := do
  return (← e.1.deposit n, e.2)

/-- A withdrawal, which leaves nothing where it takes all. -/
def withdrawFrom (n : UInt64) (e : ObligationCollateral × UInt8) :
    Except Failure (ObligationCollateral × UInt8) :=
  if n = e.1.depositedAmount then .ok (.new 0, 255)
  else do return (← e.1.withdraw n, e.2)

/-- A loan on top of what is owed. -/
def borrowOn (p : Profile) (f : U68F60) (e : ObligationLiquidity × UInt8) :
    Except Failure (ObligationLiquidity × UInt8) := do
  return (← e.1.borrow p f, e.2)

/-- A repayment, which leaves nothing where it settles all. -/
def repayTo (p : Profile) (f : U68F60) (e : ObligationLiquidity × UInt8) :
    Except Failure (ObligationLiquidity × UInt8) :=
  if f = e.1.borrowedAmountSf then .ok (.default, 255)
  else do return (← e.1.repay p f, e.2)

/-- Interest on what is owed. -/
def accrueOn (rate : BigFraction) (e : ObligationLiquidity × UInt8) :
    Except Failure (ObligationLiquidity × UInt8) := do
  return (← e.1.accrueInterest rate, e.2)

/-- The reserve of a slot for collateral. -/
abbrev collateralKey (e : ObligationCollateral × UInt8) : Pubkey := e.1.depositReserve

/-- The reserve of a slot for debt. -/
abbrev debtKey (e : ObligationLiquidity × UInt8) : Pubkey := e.1.borrowReserve

namespace Account

open scoped Classical in
/-- The call on the account. -/
noncomputable def apply (p : Profile) (a : Account) (op : ObligationOp) : Except Failure Account :=
  match op with
  | .deposit k tier n =>
      (upsertMap 8 a.collateral k (.new k, tier.toU8) (depositTo n)
        (.lending .obligationReserveLimit)).map fun collateral => { a with collateral }
  | .withdraw k n => do
      require (¬ ∀ k, a.collateral k = none) (Failure.lending .obligationDepositsEmpty)
      (alterMap collateralKey 0 a.collateral k (withdrawFrom n)
        (.lending .invalidObligationCollateral)).map fun collateral => { a with collateral }
  | .borrow k rate tier f =>
      (upsertMap 5 a.debts k (.new k rate, tier.toU8) (borrowOn p f)
        (.lending .obligationReserveLimit)).map fun debts => { a with debts }
  | .repay k f => do
      require (¬ ∀ k, a.debts k = none) (Failure.lending .obligationBorrowsEmpty)
      (alterMap debtKey 0 a.debts k (repayTo p f)
        (.lending .invalidObligationLiquidity)).map fun debts => { a with debts }
  | .accrueInterest k rate => do
      require (¬ ∀ k, a.debts k = none) (Failure.lending .obligationBorrowsEmpty)
      (alterMap debtKey 0 a.debts k (accrueOn rate)
        (.lending .invalidObligationLiquidity)).map fun debts => { a with debts }
  | .updateHasDebt => .ok { a with hasDebt := if ∀ k, a.debts k = none then 0 else 1 }

end Account

/-! ## Slots -/

namespace Obligation

variable {p : Profile} {o : Obligation} {op : ObligationOp}

def depositSlots (o : Obligation) (i : Fin 8) : ObligationCollateral × UInt8 :=
  (o.deposits i, o.depositsAssetTiers i)

def borrowSlots (o : Obligation) (i : Fin 5) : ObligationLiquidity × UInt8 :=
  (o.borrows i, o.borrowsAssetTiers i)

def setDeposits (o : Obligation) (t : Fin 8 → ObligationCollateral × UInt8) : Obligation :=
  { o with deposits := fun i => (t i).1, depositsAssetTiers := fun i => (t i).2 }

def setBorrows (o : Obligation) (t : Fin 5 → ObligationLiquidity × UInt8) : Obligation :=
  { o with borrows := fun i => (t i).1, borrowsAssetTiers := fun i => (t i).2 }

theorem setDeposits_update (i : Fin 8) (c : ObligationCollateral) (tier : UInt8) :
    o.setDeposits (Function.update o.depositSlots i (c, tier)) =
      { o with
        deposits := Function.update o.deposits i c
        depositsAssetTiers := Function.update o.depositsAssetTiers i tier } := by
  have hfst := Function.comp_update Prod.fst o.depositSlots i (c, tier)
  have hsnd := Function.comp_update Prod.snd o.depositSlots i (c, tier)
  exact congrArg₂ (fun d t => { o with deposits := d, depositsAssetTiers := t }) hfst hsnd

theorem setDeposits_update_fst (i : Fin 8) (c : ObligationCollateral) :
    o.setDeposits (Function.update o.depositSlots i (c, o.depositsAssetTiers i)) =
      { o with deposits := Function.update o.deposits i c } := by
  rw [setDeposits_update, Function.update_eq_self]

theorem setBorrows_update (i : Fin 5) (l : ObligationLiquidity) (tier : UInt8) :
    o.setBorrows (Function.update o.borrowSlots i (l, tier)) =
      { o with
        borrows := Function.update o.borrows i l
        borrowsAssetTiers := Function.update o.borrowsAssetTiers i tier } := by
  have hfst := Function.comp_update Prod.fst o.borrowSlots i (l, tier)
  have hsnd := Function.comp_update Prod.snd o.borrowSlots i (l, tier)
  exact congrArg₂ (fun b t => { o with borrows := b, borrowsAssetTiers := t }) hfst hsnd

theorem setBorrows_update_fst (i : Fin 5) (l : ObligationLiquidity) :
    o.setBorrows (Function.update o.borrowSlots i (l, o.borrowsAssetTiers i)) =
      { o with borrows := Function.update o.borrows i l } := by
  rw [setBorrows_update, Function.update_eq_self]

/-! The calls on the slots. -/

theorem apply_deposit {k : Pubkey} {tier : AssetTier} {n : UInt64} :
    o.apply p (.deposit k tier n) =
      (upsert collateralKey 0 o.depositSlots k (.new k, tier.toU8) (depositTo n)
        (Failure.lending .obligationReserveLimit)).map o.setDeposits := by
  have hslot (k : Pubkey) : slotOf collateralKey o.depositSlots k =
      slotOf ObligationCollateral.depositReserve o.deposits k := rfl
  simp only [apply, findOrAddCollateralToDeposits, upsert, hslot, depositTo]
  cases slotOf ObligationCollateral.depositReserve o.deposits k with
  | some i =>
      cases hc : (o.deposits i).deposit n with
      | error e => simp [depositSlots, hc, bind, Except.bind, Except.map]
      | ok c =>
          have hset := setDeposits_update_fst (o := o) i c
          simp [depositSlots, hc, bind, Except.bind, pure, Except.pure, Except.map, ← hset]
  | none =>
      cases slotOf ObligationCollateral.depositReserve o.deposits 0 with
      | none => rfl
      | some i =>
          cases hc : (ObligationCollateral.new k).deposit n with
          | error e => simp [hc, bind, Except.bind, pure, Except.pure, Except.map]
          | ok c =>
              have hset := setDeposits_update (o := o) i c tier.toU8
              simp [hc, bind, Except.bind, pure, Except.pure, Except.map, ← hset]

theorem apply_borrow {k : Pubkey} {rate : BigFraction} {tier : AssetTier} {f : U68F60} :
    o.apply p (.borrow k rate tier f) =
      (upsert debtKey 0 o.borrowSlots k (.new k rate, tier.toU8) (borrowOn p f)
        (Failure.lending .obligationReserveLimit)).map o.setBorrows := by
  have hslot (k : Pubkey) : slotOf debtKey o.borrowSlots k =
      slotOf ObligationLiquidity.borrowReserve o.borrows k := rfl
  simp only [apply, findOrAddLiquidityToBorrows, upsert, hslot, borrowOn]
  cases slotOf ObligationLiquidity.borrowReserve o.borrows k with
  | some i =>
      cases hl : (o.borrows i).borrow p f with
      | error e => simp [borrowSlots, hl, bind, Except.bind, Except.map]
      | ok l =>
          have hset := setBorrows_update_fst (o := o) i l
          simp [borrowSlots, hl, bind, Except.bind, pure, Except.pure, Except.map, ← hset]
  | none =>
      cases slotOf ObligationLiquidity.borrowReserve o.borrows 0 with
      | none => rfl
      | some i =>
          cases hl : (ObligationLiquidity.new k rate).borrow p f with
          | error e => simp [hl, bind, Except.bind, Except.map]
          | ok l =>
              have hset := setBorrows_update (o := o) i l tier.toU8
              simp [hl, bind, Except.bind, pure, Except.pure, Except.map, ← hset]

theorem depositsEmpty_iff :
    o.depositsEmpty = false ↔ ¬ ∀ k, entries collateralKey 0 o.depositSlots k = none := by
  rw [entries_eq_none_iff, depositsEmpty, decide_eq_false_iff_not]
  rfl

theorem borrowsEmpty_iff :
    o.borrowsEmpty = false ↔ ¬ ∀ k, entries debtKey 0 o.borrowSlots k = none := by
  rw [entries_eq_none_iff, borrowsEmpty, decide_eq_false_iff_not]
  rfl

theorem apply_withdraw {k : Pubkey} {n : UInt64} :
    o.apply p (.withdraw k n) = (do
      require (o.depositsEmpty = false) (Failure.lending .obligationDepositsEmpty)
      (alter collateralKey o.depositSlots k (withdrawFrom n)
        (Failure.lending .invalidObligationCollateral)).map o.setDeposits) := by
  have hslot : slotOf collateralKey o.depositSlots k =
      slotOf ObligationCollateral.depositReserve o.deposits k := rfl
  simp only [apply, positionOfCollateralInDeposits, alter, hslot, withdrawFrom, withdraw]
  cases require (o.depositsEmpty = false) (Failure.lending .obligationDepositsEmpty) with
  | error e => rfl
  | ok u =>
      cases slotOf ObligationCollateral.depositReserve o.deposits k with
      | none => rfl
      | some i =>
          by_cases hall : n = (o.deposits i).depositedAmount
          · have hset := setDeposits_update (o := o) i (.new 0) 255
            simp [depositSlots, hall, bind, Except.bind, pure, Except.pure, Except.map, okOr,
              ← hset]
          · cases hc : (o.deposits i).withdraw n with
            | error e => simp [depositSlots, hall, hc, bind, Except.bind, Except.map, okOr]
            | ok c =>
                have hset := setDeposits_update_fst (o := o) i c
                simp [depositSlots, hall, hc, bind, Except.bind, pure, Except.pure, Except.map,
                  okOr, ← hset]

theorem apply_repay {k : Pubkey} {f : U68F60} :
    o.apply p (.repay k f) = (do
      require (o.borrowsEmpty = false) (Failure.lending .obligationBorrowsEmpty)
      (alter debtKey o.borrowSlots k (repayTo p f)
        (Failure.lending .invalidObligationLiquidity)).map o.setBorrows) := by
  have hslot : slotOf debtKey o.borrowSlots k =
      slotOf ObligationLiquidity.borrowReserve o.borrows k := rfl
  simp only [apply, findLiquidityInBorrows, alter, hslot, repayTo, repay]
  cases require (o.borrowsEmpty = false) (Failure.lending .obligationBorrowsEmpty) with
  | error e => rfl
  | ok u =>
      cases slotOf ObligationLiquidity.borrowReserve o.borrows k with
      | none => rfl
      | some i =>
          by_cases hall : f = (o.borrows i).borrowedAmountSf
          · have hset := setBorrows_update (o := o) i .default 255
            simp [borrowSlots, hall, bind, Except.bind, pure, Except.pure, Except.map, okOr, ← hset]
          · cases hl : (o.borrows i).repay p f with
            | error e => simp [borrowSlots, hall, hl, bind, Except.bind, Except.map, okOr]
            | ok l =>
                have hset := setBorrows_update_fst (o := o) i l
                simp [borrowSlots, hall, hl, bind, Except.bind, pure, Except.pure, Except.map, okOr,
                  ← hset]

theorem apply_accrueInterest {k : Pubkey} {rate : BigFraction} :
    o.apply p (.accrueInterest k rate) = (do
      require (o.borrowsEmpty = false) (Failure.lending .obligationBorrowsEmpty)
      (alter debtKey o.borrowSlots k (accrueOn rate)
        (Failure.lending .invalidObligationLiquidity)).map o.setBorrows) := by
  have hslot : slotOf debtKey o.borrowSlots k =
      slotOf ObligationLiquidity.borrowReserve o.borrows k := rfl
  simp only [apply, findLiquidityInBorrows, alter, hslot, accrueOn]
  cases require (o.borrowsEmpty = false) (Failure.lending .obligationBorrowsEmpty) with
  | error e => rfl
  | ok u =>
      cases slotOf ObligationLiquidity.borrowReserve o.borrows k with
      | none => rfl
      | some i =>
          cases hl : (o.borrows i).accrueInterest rate with
          | error e => simp [borrowSlots, hl, bind, Except.bind, Except.map, okOr]
          | ok l =>
              have hset := setBorrows_update_fst (o := o) i l
              simp [borrowSlots, hl, bind, Except.bind, pure, Except.pure, Except.map, okOr, ← hset]

end Obligation

/-! ## Obligations and accounts -/

namespace Obligation

variable {p : Profile} {o o' : Obligation} {op : ObligationOp}

/-- No two slots have one reserve. -/
structure OneSlot (o : Obligation) : Prop where
  deposits : Distinct collateralKey 0 o.depositSlots
  borrows : Distinct debtKey 0 o.borrowSlots

/-- What the slots of an obligation hold. -/
def view (o : Obligation) : Account where
  collateral := entries collateralKey 0 o.depositSlots
  debts := entries debtKey 0 o.borrowSlots
  hasDebt := o.hasDebt

/-! The changes of an entry keep its reserve, or free the slot. -/

theorem collateralKey_depositTo {n : UInt64} (e e' : ObligationCollateral × UInt8)
    (h : depositTo n e = .ok e') : collateralKey e' = collateralKey e := by
  simp only [depositTo, ObligationCollateral.deposit, bind_eq_ok, pure_eq_ok] at h
  obtain ⟨c, ⟨m, -, rfl⟩, rfl⟩ := h
  rfl

theorem collateralKey_withdrawFrom {n : UInt64} (e e' : ObligationCollateral × UInt8)
    (h : withdrawFrom n e = .ok e') :
    collateralKey e' = collateralKey e ∨ collateralKey e' = 0 := by
  unfold withdrawFrom at h
  split at h
  · cases h
    exact .inr rfl
  · simp only [ObligationCollateral.withdraw, bind_eq_ok, pure_eq_ok] at h
    obtain ⟨c, ⟨m, -, rfl⟩, rfl⟩ := h
    exact .inl rfl

theorem debtKey_borrowOn {f : U68F60} (e e' : ObligationLiquidity × UInt8)
    (h : borrowOn p f e = .ok e') : debtKey e' = debtKey e := by
  simp only [borrowOn, ObligationLiquidity.borrow, bind_eq_ok, pure_eq_ok] at h
  obtain ⟨c, ⟨m, -, rfl⟩, rfl⟩ := h
  rfl

theorem debtKey_repayTo {f : U68F60} (e e' : ObligationLiquidity × UInt8)
    (h : repayTo p f e = .ok e') : debtKey e' = debtKey e ∨ debtKey e' = 0 := by
  unfold repayTo at h
  split at h
  · cases h
    exact .inr rfl
  · simp only [ObligationLiquidity.repay, bind_eq_ok, pure_eq_ok] at h
    obtain ⟨c, ⟨m, -, rfl⟩, rfl⟩ := h
    exact .inl rfl

theorem borrowReserve_accrueInterest {l l' : ObligationLiquidity} {rate : BigFraction}
    (h : l.accrueInterest rate = .ok l') : l'.borrowReserve = l.borrowReserve := by
  unfold ObligationLiquidity.accrueInterest at h
  split at h
  · cases h
  split at h
  · cases h
    rfl
  simp only [bind_eq_ok, pure_eq_ok] at h
  obtain ⟨-, -, -, -, b, -, rfl⟩ := h
  rfl

theorem debtKey_accrueOn {rate : BigFraction} (e e' : ObligationLiquidity × UInt8)
    (h : accrueOn rate e = .ok e') : debtKey e' = debtKey e ∨ debtKey e' = 0 := by
  simp only [accrueOn, bind_eq_ok, pure_eq_ok] at h
  obtain ⟨l, hl, rfl⟩ := h
  exact .inl (borrowReserve_accrueInterest hl)

/-! The account of an obligation with other slots. -/

theorem view_setDeposits {x : Except Failure (Fin 8 → ObligationCollateral × UInt8)} :
    (x.map o.setDeposits).map view =
      (x.map (entries collateralKey 0)).map fun collateral => { o.view with collateral } := by
  cases x <;> rfl

theorem view_setBorrows {x : Except Failure (Fin 5 → ObligationLiquidity × UInt8)} :
    (x.map o.setBorrows).map view =
      (x.map (entries debtKey 0)).map fun debts => { o.view with debts } := by
  cases x <;> rfl

theorem map_require_bind {α β : Type} {c d : Prop} [Decidable c] [Decidable d] {e : Failure}
    {x : Except Failure α} {y : Except Failure β} {f : α → β} (h : c ↔ d) (hxy : x.map f = y) :
    (do require c e; x).map f = (do require d e; y) := by
  by_cases hd : d
  · simp only [require, h.mpr hd, hd, if_true]
    exact hxy
  · have hc : ¬ c := fun hc => hd (h.mp hc)
    simp only [require, hc, hd, if_false]
    rfl

/-- A call on the obligation is one on the account. -/
theorem view_apply (hslots : o.OneSlot) (hnamed : op.Named) :
    (o.apply p op).map view = o.view.apply p op := by
  cases op with
  | deposit k tier n =>
      rw [apply_deposit, view_setDeposits,
        hslots.deposits.entries_upsert hnamed rfl collateralKey_depositTo]
      rfl
  | withdraw k n =>
      rw [apply_withdraw]
      apply map_require_bind depositsEmpty_iff
      rw [view_setDeposits, hslots.deposits.entries_alter hnamed collateralKey_withdrawFrom]
      rfl
  | borrow k rate tier f =>
      rw [apply_borrow, view_setBorrows, hslots.borrows.entries_upsert hnamed rfl debtKey_borrowOn]
      rfl
  | repay k f =>
      rw [apply_repay]
      apply map_require_bind borrowsEmpty_iff
      rw [view_setBorrows, hslots.borrows.entries_alter hnamed debtKey_repayTo]
      rfl
  | accrueInterest k rate =>
      rw [apply_accrueInterest]
      apply map_require_bind borrowsEmpty_iff
      rw [view_setBorrows, hslots.borrows.entries_alter hnamed debtKey_accrueOn]
      rfl
  | updateHasDebt =>
      have hflag := borrowsEmpty_iff (o := o)
      have hdebt : (if o.borrowsEmpty then (0 : UInt8) else 1)
          = if ∀ k, o.view.debts k = none then 0 else 1 := by
        by_cases hempty : ∀ k, o.view.debts k = none
        · rw [if_pos hempty, if_pos (by by_contra hne; exact hflag.mp (by simpa using hne) hempty)]
        · rw [if_neg hempty, if_neg (by rw [hflag.mpr hempty]; exact Bool.false_ne_true)]
      exact congrArg (fun hasDebt => Except.ok { o.view with hasDebt }) hdebt

theorem OneSlot.setDeposits {x : Except Failure (Fin 8 → ObligationCollateral × UInt8)}
    (hslots : o.OneSlot) (hx : ∀ t, x = .ok t → Distinct collateralKey 0 t)
    (h : x.map o.setDeposits = .ok o') : o'.OneSlot := by
  cases x with
  | error e => cases h
  | ok t =>
      cases h
      exact ⟨hx t rfl, hslots.borrows⟩

theorem OneSlot.setBorrows {x : Except Failure (Fin 5 → ObligationLiquidity × UInt8)}
    (hslots : o.OneSlot) (hx : ∀ t, x = .ok t → Distinct debtKey 0 t)
    (h : x.map o.setBorrows = .ok o') : o'.OneSlot := by
  cases x with
  | error e => cases h
  | ok t =>
      cases h
      exact ⟨hslots.deposits, hx t rfl⟩

theorem OneSlot.apply (hslots : o.OneSlot) (hnamed : op.Named) (h : o.apply p op = .ok o') :
    o'.OneSlot := by
  cases op with
  | deposit k tier n =>
      rw [apply_deposit] at h
      exact hslots.setDeposits
        (fun t => hslots.deposits.upsert (k := k) rfl collateralKey_depositTo) h
  | withdraw k n =>
      rw [apply_withdraw] at h
      obtain ⟨-, -, h⟩ := bind_eq_ok.mp h
      exact hslots.setDeposits (fun t => hslots.deposits.alter collateralKey_withdrawFrom) h
  | borrow k rate tier f =>
      rw [apply_borrow] at h
      exact hslots.setBorrows (fun t => hslots.borrows.upsert (k := k) rfl debtKey_borrowOn) h
  | repay k f =>
      rw [apply_repay] at h
      obtain ⟨-, -, h⟩ := bind_eq_ok.mp h
      exact hslots.setBorrows (fun t => hslots.borrows.alter debtKey_repayTo) h
  | accrueInterest k rate =>
      rw [apply_accrueInterest] at h
      obtain ⟨-, -, h⟩ := bind_eq_ok.mp h
      exact hslots.setBorrows (fun t => hslots.borrows.alter debtKey_accrueOn) h
  | updateHasDebt =>
      cases h
      exact ⟨hslots.deposits, hslots.borrows⟩

/-- Every sequence of calls on an obligation is one on its view, errors included. -/
theorem view_run (hslots : o.OneSlot) {ops : List ObligationOp} (hnamed : ∀ op ∈ ops, op.Named) :
    (ops.foldlM (apply p) o).map view = ops.foldlM (Account.apply p) o.view := by
  induction ops generalizing o with
  | nil => rfl
  | cons op ops ih =>
      have hop := hnamed op List.mem_cons_self
      have hops : ∀ op ∈ ops, op.Named := fun op h => hnamed op (List.mem_cons_of_mem _ h)
      rw [List.foldlM_cons, List.foldlM_cons, ← view_apply hslots hop]
      cases hstep : o.apply p op with
      | error e => rfl
      | ok o' => exact ih (hslots.apply hop hstep) hops

/-! ## Slots in use and free slots -/

/-- A slot is as it was made, or has a reserve and the tier of one. -/
def CollateralSlot (e : ObligationCollateral × UInt8) : Prop :=
  e = (.new 0, 255) ∨ collateralKey e ≠ 0 ∧ ∃ tier : AssetTier, e.2 = tier.toU8

def DebtSlot (e : ObligationLiquidity × UInt8) : Prop :=
  e = (.default, 255) ∨ debtKey e ≠ 0 ∧ ∃ tier : AssetTier, e.2 = tier.toU8

/-- What calls make of the slots of a new obligation. -/
structure Kept (o : Obligation) : Prop extends OneSlot o where
  collateral : ∀ i, CollateralSlot (o.depositSlots i)
  debt : ∀ i, DebtSlot (o.borrowSlots i)

theorem collateralSlot_of_key {k : Pubkey} (hk : k ≠ 0) {e e' : ObligationCollateral × UInt8}
    (hkey : collateralKey e = k) (h : CollateralSlot e) (hkey' : collateralKey e' = k)
    (htier : e'.2 = e.2) : CollateralSlot e' := by
  rcases h with rfl | ⟨-, tier, h⟩
  · exact absurd hkey.symm hk
  · exact .inr ⟨hkey' ▸ hk, tier, htier.trans h⟩

theorem debtSlot_of_key {k : Pubkey} (hk : k ≠ 0) {e e' : ObligationLiquidity × UInt8}
    (hkey : debtKey e = k) (h : DebtSlot e) (hkey' : debtKey e' = k) (htier : e'.2 = e.2) :
    DebtSlot e' := by
  rcases h with rfl | ⟨-, tier, h⟩
  · exact absurd hkey.symm hk
  · exact .inr ⟨hkey' ▸ hk, tier, htier.trans h⟩

theorem forall_setDeposits {x : Except Failure (Fin 8 → ObligationCollateral × UInt8)}
    (hx : ∀ t, x = .ok t → ∀ i, CollateralSlot (t i)) (hdebt : ∀ i, DebtSlot (o.borrowSlots i))
    (h : x.map o.setDeposits = .ok o') :
    (∀ i, CollateralSlot (o'.depositSlots i)) ∧ ∀ i, DebtSlot (o'.borrowSlots i) := by
  cases x with
  | error e => cases h
  | ok t =>
      cases h
      exact ⟨hx t rfl, hdebt⟩

theorem forall_setBorrows {x : Except Failure (Fin 5 → ObligationLiquidity × UInt8)}
    (hx : ∀ t, x = .ok t → ∀ i, DebtSlot (t i))
    (hcollateral : ∀ i, CollateralSlot (o.depositSlots i)) (h : x.map o.setBorrows = .ok o') :
    (∀ i, CollateralSlot (o'.depositSlots i)) ∧ ∀ i, DebtSlot (o'.borrowSlots i) := by
  cases x with
  | error e => cases h
  | ok t =>
      cases h
      exact ⟨hcollateral, hx t rfl⟩

theorem Kept.apply (hkept : o.Kept) (hnamed : op.Named) (h : o.apply p op = .ok o') : o'.Kept := by
  have hslots := hkept.toOneSlot.apply hnamed h
  suffices hall : (∀ i, CollateralSlot (o'.depositSlots i)) ∧ ∀ i, DebtSlot (o'.borrowSlots i) from
    ⟨hslots, hall.1, hall.2⟩
  -- a slot that was written belongs to the key of the call, and the others are as they were
  cases op with
  | deposit k tier n =>
      rw [apply_deposit] at h
      refine forall_setDeposits (fun t ht => ?_) hkept.debt h
      have hfresh : CollateralSlot (.new k, tier.toU8) := .inr ⟨hnamed, tier, rfl⟩
      refine forall_upsert hkept.collateral rfl hfresh ?_ ht
      intro e e' hkey he hdeposit
      have hkey' := collateralKey_depositTo e e' hdeposit
      simp only [depositTo, bind_eq_ok, pure_eq_ok] at hdeposit
      obtain ⟨c, -, rfl⟩ := hdeposit
      exact collateralSlot_of_key hnamed hkey he (hkey'.trans hkey) rfl
  | withdraw k n =>
      rw [apply_withdraw] at h
      obtain ⟨-, -, h⟩ := bind_eq_ok.mp h
      refine forall_setDeposits (fun t ht => ?_) hkept.debt h
      refine forall_alter hkept.collateral ?_ ht
      intro e e' hkey he hwithdraw
      have hkey' := collateralKey_withdrawFrom e e' hwithdraw
      unfold withdrawFrom at hwithdraw
      split at hwithdraw
      · cases hwithdraw
        -- all of it was withdrawn: the slot is freed
        exact .inl rfl
      · simp only [ObligationCollateral.withdraw, bind_eq_ok, pure_eq_ok] at hwithdraw
        obtain ⟨c, ⟨m, -, rfl⟩, rfl⟩ := hwithdraw
        exact collateralSlot_of_key hnamed hkey he hkey rfl
  | borrow k rate tier f =>
      rw [apply_borrow] at h
      refine forall_setBorrows (fun t ht => ?_) hkept.collateral h
      have hfresh : DebtSlot (.new k rate, tier.toU8) := .inr ⟨hnamed, tier, rfl⟩
      refine forall_upsert hkept.debt rfl hfresh ?_ ht
      intro e e' hkey he hborrow
      have hkey' := debtKey_borrowOn e e' hborrow
      simp only [borrowOn, bind_eq_ok, pure_eq_ok] at hborrow
      obtain ⟨l, -, rfl⟩ := hborrow
      exact debtSlot_of_key hnamed hkey he (hkey'.trans hkey) rfl
  | repay k f =>
      rw [apply_repay] at h
      obtain ⟨-, -, h⟩ := bind_eq_ok.mp h
      refine forall_setBorrows (fun t ht => ?_) hkept.collateral h
      refine forall_alter hkept.debt ?_ ht
      intro e e' hkey he hrepay
      unfold repayTo at hrepay
      split at hrepay
      · cases hrepay
        exact .inl rfl
      · simp only [ObligationLiquidity.repay, bind_eq_ok, pure_eq_ok] at hrepay
        obtain ⟨l, ⟨m, -, rfl⟩, rfl⟩ := hrepay
        exact debtSlot_of_key hnamed hkey he hkey rfl
  | accrueInterest k rate =>
      rw [apply_accrueInterest] at h
      obtain ⟨-, -, h⟩ := bind_eq_ok.mp h
      refine forall_setBorrows (fun t ht => ?_) hkept.collateral h
      refine forall_alter hkept.debt ?_ ht
      intro e e' hkey he haccrue
      simp only [accrueOn, bind_eq_ok, pure_eq_ok] at haccrue
      obtain ⟨l, hl, rfl⟩ := haccrue
      have hkey' : l.borrowReserve = k := (borrowReserve_accrueInterest hl).trans hkey
      exact debtSlot_of_key hnamed hkey he hkey' rfl
  | updateHasDebt =>
      cases h
      exact ⟨hkept.collateral, hkept.debt⟩

theorem Kept.run (hkept : o.Kept) {ops : List ObligationOp} (hnamed : ∀ op ∈ ops, op.Named)
    (h : ops.foldlM (Obligation.apply p) o = .ok o') : o'.Kept := by
  induction ops generalizing o with
  | nil =>
      cases h
      exact hkept
  | cons op ops ih =>
      rw [List.foldlM_cons, bind_eq_ok] at h
      obtain ⟨o₁, hstep, hrest⟩ := h
      exact ih (hkept.apply (hnamed op List.mem_cons_self) hstep)
        (fun op h => hnamed op (List.mem_cons_of_mem _ h)) hrest

theorem kept_init (slot : UInt64) (referrer : Pubkey) :
    (init slot (fun _ => .new 0) (fun _ => .default) referrer).Kept where
  deposits := fun _ _ _ h => absurd rfl h
  borrows := fun _ _ _ h => absurd rfl h
  collateral := fun _ => .inl rfl
  debt := fun _ => .inl rfl

/-! ## Asset tiers -/

/-- The tiers of the slots in use with the property are those of the entries with it. -/
theorem mapM_tiers {β : Type} {n : ℕ} {key : β × UInt8 → Pubkey} {t : Fin n → β × UInt8}
    {q : β → Prop} [DecidablePred q] (hd : Distinct key 0 t)
    (ht : ∀ i, key (t i) ≠ 0 → ∃ tier : AssetTier, (t i).2 = tier.toU8) :
    ∃ ts, ((List.finRange n).filter fun i => decide (key (t i) ≠ 0 ∧ q (t i).1)).mapM
        (fun i => unwrap (AssetTier.ofU8 (t i).2)) = .ok ts ∧
      ∀ tier, tier ∈ ts ↔ ∃ k b, entries key 0 t k = some (b, tier.toU8) ∧ q b := by
  -- a used slot has the number of a tier, so no `unwrap` panics
  have hsome (i : Fin n) (hi : key (t i) ≠ 0) :
      AssetTier.ofU8 (t i).2 = some ((AssetTier.ofU8 (t i).2).getD .regular) := by
    obtain ⟨tier, htier⟩ := ht i hi
    rw [htier, AssetTier.ofU8_toU8]
    rfl
  refine ⟨_, mapM_eq_map (g := fun i => (AssetTier.ofU8 (t i).2).getD .regular) ?_, fun tier => ?_⟩
  · intro i hi
    have hused := of_decide_eq_true (List.mem_filter.mp hi).2
    rw [hsome i hused.1]
    rfl
  · simp only [List.mem_map, List.mem_filter, List.mem_finRange, true_and, decide_eq_true_eq]
    constructor
    · rintro ⟨i, ⟨hi, hq⟩, rfl⟩
      obtain ⟨tier, htier⟩ := ht i hi
      refine ⟨key (t i), (t i).1, ?_, hq⟩
      rw [entries_of_ne hi, hd.lookup_eq_some hi]
      refine ⟨i, ?_, ?_⟩
      · rw [htier, AssetTier.ofU8_toU8, Option.getD_some, ← htier]
      · rw [htier, AssetTier.ofU8_toU8, Option.getD_some, ← htier]
    · rintro ⟨k, b, hb, hq⟩
      have hk : k ≠ 0 := by
        rintro rfl
        simp [entries] at hb
      rw [entries_of_ne hk, hd.lookup_eq_some hk] at hb
      obtain ⟨i, hi, hkey⟩ := hb
      refine ⟨i, ⟨?_, ?_⟩, ?_⟩
      · rw [hi, hkey]
        exact hk
      · rw [hi]
        exact hq
      · rw [hi, AssetTier.ofU8_toU8, Option.getD_some]

theorem Kept.exists_collateralTier (hkept : o.Kept) (i : Fin 8)
    (hi : collateralKey (o.depositSlots i) ≠ 0) :
    ∃ tier : AssetTier, (o.depositSlots i).2 = tier.toU8 := by
  rcases hkept.collateral i with h | ⟨-, tier, h⟩
  · exact absurd (congrArg collateralKey h) hi
  · exact ⟨tier, h⟩

theorem Kept.exists_debtTier (hkept : o.Kept) (i : Fin 5) (hi : debtKey (o.borrowSlots i) ≠ 0) :
    ∃ tier : AssetTier, (o.borrowSlots i).2 = tier.toU8 := by
  rcases hkept.debt i with h | ⟨-, tier, h⟩
  · exact absurd (congrArg debtKey h) hi
  · exact ⟨tier, h⟩

/-- After any calls on a new obligation its tiers can be listed, and they are those of the reserves
that hold collateral, and of those with debt. -/
theorem getAssetTiers_run {slot : UInt64} {referrer : Pubkey} {ops : List ObligationOp}
    (hnamed : ∀ op ∈ ops, op.Named)
    (h : ops.foldlM (apply p) (init slot (fun _ => .new 0) (fun _ => .default) referrer) = .ok o) :
    (∃ ts, o.getDepositAssetTiers = .ok ts ∧ ∀ tier, tier ∈ ts ↔
      ∃ k c, o.view.collateral k = some (c, tier.toU8) ∧ 0 < c.depositedAmount) ∧
    ∃ ts, o.getBorrowsAssetTiers = .ok ts ∧ ∀ tier, tier ∈ ts ↔
      ∃ k l, o.view.debts k = some (l, tier.toU8) ∧ U68F60.zero < l.borrowedAmountSf := by
  have hkept := (kept_init slot referrer).run hnamed h
  have hcollateral := mapM_tiers (q := fun c : ObligationCollateral => 0 < c.depositedAmount)
    hkept.deposits hkept.exists_collateralTier
  have hdebt := mapM_tiers (q := fun l : ObligationLiquidity => U68F60.zero < l.borrowedAmountSf)
    hkept.borrows hkept.exists_debtTier
  exact ⟨hcollateral, hdebt⟩

/-! ## Collateral by reserve -/

def deposited (k : Pubkey) (op : ObligationOp) : ℕ :=
  match op with
  | .deposit k' _ n => if k = k' then n.toNat else 0
  | _ => 0

def withdrawn (k : Pubkey) (op : ObligationOp) : ℕ :=
  match op with
  | .withdraw k' n => if k = k' then n.toNat else 0
  | _ => 0

def collateralOf (a : Account) (k : Pubkey) : ℕ :=
  ((a.collateral k).map fun e => e.1.depositedAmount.toNat).getD 0

theorem amount_depositTo {n : UInt64} {e e' : ObligationCollateral × UInt8}
    (h : depositTo n e = .ok e') :
    e'.1.depositedAmount.toNat = e.1.depositedAmount.toNat + n.toNat := by
  simp only [depositTo, ObligationCollateral.deposit, bind_eq_ok, pure_eq_ok,
    ReserveLiquidity.checkedAdd_eq_ok] at h
  obtain ⟨c, ⟨m, hm, rfl⟩, rfl⟩ := h
  exact hm

theorem amount_withdrawFrom {n : UInt64} {e e' : ObligationCollateral × UInt8}
    (h : withdrawFrom n e = .ok e') :
    e'.1.depositedAmount.toNat + n.toNat = e.1.depositedAmount.toNat := by
  unfold withdrawFrom at h
  split at h
  · rename_i hall
    cases h
    rw [hall]
    exact Nat.zero_add _
  · simp only [ObligationCollateral.withdraw, bind_eq_ok, pure_eq_ok,
      ReserveLiquidity.checkedSub_eq_ok] at h
    obtain ⟨c, ⟨m, hm, rfl⟩, rfl⟩ := h
    exact hm

theorem collateralOf_apply {a a' : Account} (h : a.apply p op = .ok a') {k : Pubkey}
    (hkey : ∀ e, a.collateral k = some e → collateralKey e ≠ 0) :
    collateralOf a' k + withdrawn k op = collateralOf a k + deposited k op := by
  cases op with
  | deposit k' tier n =>
      obtain ⟨m, hm, rfl⟩ := map_eq_ok.mp h
      obtain ⟨e, he, rfl, -⟩ := upsertMap_eq_ok.mp hm
      have hamount := amount_depositTo he
      by_cases hk : k = k'
      · subst hk
        have hbefore : ((a.collateral k).getD (.new k, tier.toU8)).1.depositedAmount.toNat
            = collateralOf a k := by
          unfold collateralOf
          cases a.collateral k <;> rfl
        simp only [collateralOf, withdrawn, deposited, Function.update_self, Option.map_some,
          Option.getD_some, if_true]
        rw [hamount, hbefore]
        rfl
      · simp only [collateralOf, withdrawn, deposited, Function.update_of_ne hk, if_neg hk]
  | withdraw k' n =>
      obtain ⟨-, -, h⟩ := bind_eq_ok.mp h
      obtain ⟨m, hm, rfl⟩ := map_eq_ok.mp h
      obtain ⟨e, he, e', he', rfl⟩ := alterMap_eq_ok.mp hm
      have hamount := amount_withdrawFrom he'
      by_cases hk : k = k'
      · subst hk
        simp only [collateralOf, withdrawn, deposited, Function.update_self, he, Option.map_some,
          Option.getD_some, if_true, add_zero]
        -- an entry that is removed has been withdrawn as a whole
        split_ifs with hremoved
        · unfold withdrawFrom at he'
          split at he'
          · rename_i hall
            rw [hall]
            exact Nat.zero_add _
          · simp only [ObligationCollateral.withdraw, bind_eq_ok, pure_eq_ok] at he'
            obtain ⟨c, ⟨m, -, rfl⟩, rfl⟩ := he'
            exact absurd hremoved (hkey e he)
        · exact hamount
      · simp only [collateralOf, withdrawn, deposited, Function.update_of_ne hk, if_neg hk]
  | borrow k' rate tier f =>
      obtain ⟨m, hm, rfl⟩ := map_eq_ok.mp h
      rfl
  | repay k' f =>
      obtain ⟨-, -, h⟩ := bind_eq_ok.mp h
      obtain ⟨m, hm, rfl⟩ := map_eq_ok.mp h
      rfl
  | accrueInterest k' rate =>
      obtain ⟨-, -, h⟩ := bind_eq_ok.mp h
      obtain ⟨m, hm, rfl⟩ := map_eq_ok.mp h
      rfl
  | updateHasDebt =>
      cases h
      rfl

/-- Over any calls the collateral of a reserve is what was there, and what was deposited for it less
what was withdrawn. -/
theorem collateral_ledger (hslots : o.OneSlot) {ops : List ObligationOp}
    (hnamed : ∀ op ∈ ops, op.Named) (h : ops.foldlM (Obligation.apply p) o = .ok o') (k : Pubkey) :
    collateralOf o'.view k + (ops.map (withdrawn k)).sum
      = collateralOf o.view k + (ops.map (deposited k)).sum := by
  induction ops generalizing o with
  | nil =>
      cases h
      rfl
  | cons op ops ih =>
      have hop := hnamed op List.mem_cons_self
      rw [List.foldlM_cons, bind_eq_ok] at h
      obtain ⟨o₁, hstep, hrest⟩ := h
      have hview : o.view.apply p op = .ok o₁.view := by
        rw [← view_apply hslots hop, hstep]
        rfl
      have hfirst := collateralOf_apply hview (k := k) fun e he => by
        have hkey := key_of_entries he
        rw [hkey.2]
        exact hkey.1
      have hothers := ih (hslots.apply hop hstep)
        (fun op h => hnamed op (List.mem_cons_of_mem _ h)) hrest
      simp only [List.map_cons, List.sum_cons]
      omega

/-- Collateral of two reserves, a loan, a repayment of all of it, a withdrawal of all of one. -/
def accountOps : List ObligationOp :=
  [.deposit 7 .regular 100, .deposit 8 .isolatedCollateral 50,
    .borrow 9 (.ofFraction U68F60.one) .regular (U68F60.ofU64 30), .withdraw 7 40,
    .accrueInterest 9 (.ofFraction (U68F60.ofU64 2)), .repay 9 (U68F60.ofU64 60), .withdraw 8 50,
    .updateHasDebt]

theorem named_accountOps : ∀ op ∈ accountOps, op.Named := by
  simp [accountOps, ObligationOp.Named]
  decide

/-- On a new obligation. -/
theorem view_run_accountOps :
    (accountOps.foldlM (apply .checked) (init 0 (fun _ => .new 0) (fun _ => .default) 0)).map view =
      accountOps.foldlM (Account.apply .checked)
        (init 0 (fun _ => .new 0) (fun _ => .default) 0).view :=
  view_run (kept_init 0 0).toOneSlot named_accountOps

/-- What is left on it. -/
theorem getAssetTiers_run_accountOps : ∃ o,
    accountOps.foldlM (apply .checked) (init 0 (fun _ => .new 0) (fun _ => .default) 0) = .ok o ∧
    (∃ ts, o.getDepositAssetTiers = .ok ts) ∧ ∃ ts, o.getBorrowsAssetTiers = .ok ts := by
  obtain ⟨o, ho⟩ := exists_ok (show (accountOps.foldlM (apply .checked)
      (init 0 (fun _ => .new 0) (fun _ => .default) 0)).toOption.isSome = true by decide +kernel)
  obtain ⟨⟨ts, hts, -⟩, us, hus, -⟩ := getAssetTiers_run named_accountOps ho
  exact ⟨o, ho, ⟨ts, hts⟩, us, hus⟩

/-- The collateral of one of the reserves. -/
theorem collateral_ledger_accountOps : ∃ o,
    accountOps.foldlM (apply .checked) (init 0 (fun _ => .new 0) (fun _ => .default) 0) = .ok o ∧
    collateralOf o.view 7 + 40 = 100 := by
  obtain ⟨o, ho⟩ := exists_ok (show (accountOps.foldlM (apply .checked)
      (init 0 (fun _ => .new 0) (fun _ => .default) 0)).toOption.isSome = true by decide +kernel)
  exact ⟨o, ho, collateral_ledger (kept_init 0 0).toOneSlot named_accountOps ho 7⟩

end Obligation

end Saturn.Klend
