import Saturn.Program

/-!
# What a step makes of the treasury and the stake accounts

One lemma for each instruction that writes the treasury, and one for all the others: the treasury
after the step, as a function of the one before it, and all of them together as one case distinction
(`HandlerStep.treasury_cases`). The same for the stake accounts. The invariants of the other modules
are read off these and never unfold a handler.
-/

namespace Saturn

open Machine

variable {F : Type} [F64 F] {d : Deployment} {w w' : World F} {e : Event F}

namespace HandlerStep

theorem initializeTreasury {a : Initialize} (h : HandlerStep d w e w')
    (hi : e.call.instruction = .initializeTreasury a) : w'.treasury = a.treasury := by
  have hhandle := h.handle_eq hi
  simp only [Instruction.handle, pure_eq_ok] at hhandle
  exact (congrArg (fun y => y.world.treasury) hhandle).symm

theorem applyBond {a : ApplyBond} {args : ApplyBondArgs} (h : HandlerStep d w e w')
    (hi : e.call.instruction = .applyBond a args) :
    ∃ s : ApplyBond.Sale, s.Accepted a d e.call.env args (.start w) ∧
      w'.treasury = s.treasury w.treasury := by
  obtain ⟨s, hs, hy⟩ := ApplyBond.handle_eq_ok.mp (h.handle_eq hi)
  exact ⟨s, hs, congrArg (fun y => y.world.treasury) hy⟩

theorem stakeSTF {a : StakeSTF} {n : UInt64} (h : HandlerStep d w e w')
    (hi : e.call.instruction = .stakeSTF a n) :
    w.treasury.stakingIndex ≠ 0 ∧ w'.treasury = w.treasury.setTokenStaked
      (w.treasury.tokenStaked + n / w.treasury.stakingIndex) := by
  obtain ⟨l, -, hindex, -, -, hy⟩ := StakeSTF.handle_eq_ok.mp (h.handle_eq hi)
  exact ⟨hindex, congrArg (fun y => y.world.treasury) hy⟩

theorem unstakeSTF {a : UnStakeSTF} {n : UInt64} (h : HandlerStep d w e w')
    (hi : e.call.instruction = .unstakeSTF a n) :
    n < (w.stakeAccount a.user).totalStakedIndex ∧
      w'.treasury = w.treasury.setTokenStaked (w.treasury.tokenStaked - n) := by
  obtain ⟨hlt, -, -, hy⟩ := UnStakeSTF.handle_eq_ok.mp (h.handle_eq hi)
  have hframe : Frame [] (a.debited n (.start w)) ⟨w', e.trace⟩ := hy ▸ .invokeIgnore _ _
  exact ⟨hlt, hframe.treasury (by simp)⟩

theorem stakeSTF_stakeAccounts {a : StakeSTF} {n : UInt64} (h : HandlerStep d w e w')
    (hi : e.call.instruction = .stakeSTF a n) :
    w'.stakeAccounts = Function.update w.stakeAccounts a.user
      (some ((w.stakeAccount a.user).setTotalStakedIndex
        ((w.stakeAccount a.user).totalStakedIndex + n / w.treasury.stakingIndex))) := by
  obtain ⟨l, -, -, -, -, hy⟩ := StakeSTF.handle_eq_ok.mp (h.handle_eq hi)
  exact congrArg (fun y => y.world.stakeAccounts) hy

theorem stakeSTF_deposit {a : StakeSTF} {n : UInt64} (h : HandlerStep d w e w')
    (hi : e.call.instruction = .stakeSTF a n) :
    ∃ l, e.call.env.cpi 0 (a.deposit n) w.ledger = .ok l ∧ w'.ledger = l ∧
      e.trace = [⟨a.deposit n, true⟩] := by
  obtain ⟨l, hcpi, -, -, -, hy⟩ := StakeSTF.handle_eq_ok.mp (h.handle_eq hi)
  exact ⟨l, hcpi, congrArg (fun y => y.world.ledger) hy, congrArg Exec.trace hy⟩

theorem unstakeSTF_stakeAccounts {a : UnStakeSTF} {n : UInt64} (h : HandlerStep d w e w')
    (hi : e.call.instruction = .unstakeSTF a n) :
    w'.stakeAccounts = Function.update w.stakeAccounts a.user
      (some ((w.stakeAccount a.user).setTotalStakedIndex
        ((w.stakeAccount a.user).totalStakedIndex - n))) := by
  obtain ⟨-, -, -, hy⟩ := UnStakeSTF.handle_eq_ok.mp (h.handle_eq hi)
  have hframe : Frame [] (a.debited n (.start w)) ⟨w', e.trace⟩ := hy ▸ .invokeIgnore _ _
  exact hframe.stakeAccounts (by simp)

theorem unstakeSTF_payout {a : UnStakeSTF} {n : UInt64} (h : HandlerStep d w e w')
    (hi : e.call.instruction = .unstakeSTF a n) :
    (∃ l, e.call.env.cpi 0 (a.payout d (n * w.treasury.stakingIndex)) w.ledger = .ok l ∧
      w'.ledger = l ∧ e.trace = [⟨a.payout d (n * w.treasury.stakingIndex), true⟩]) ∨
    (∃ err, e.call.env.cpi 0 (a.payout d (n * w.treasury.stakingIndex)) w.ledger = .error err) ∧
      w'.ledger = w.ledger := by
  obtain ⟨-, -, -, hy⟩ := UnStakeSTF.handle_eq_ok.mp (h.handle_eq hi)
  have hz : (⟨w', e.trace⟩ : Exec F) = (a.debited n (.start w)).invokeIgnore e.call.env
      (a.payout d (n * w.treasury.stakingIndex)) := hy
  rcases (a.debited n (.start w)).invokeIgnore_cases e.call.env
    (a.payout d (n * w.treasury.stakingIndex)) with ⟨l, hcpi, hmade⟩ | ⟨herr, hfailed⟩
  · left
    exact ⟨l, hcpi, congrArg (fun y => y.world.ledger) (hz.trans hmade),
      congrArg Exec.trace (hz.trans hmade)⟩
  · right
    exact ⟨herr, congrArg (fun y => y.world.ledger) (hz.trans hfailed)⟩

theorem getValueInKamino {a : GetValueInKamino} (h : HandlerStep d w e w')
    (hi : e.call.instruction = .getValueInKamino a) :
    ∃ r : GetValueInKamino.Reading, r.Accepted a d e.call.env ∧
      w'.treasury = r.treasury w.treasury := by
  have hhandle := h.handle_eq hi
  simp only [Instruction.handle, bind_eq_ok, pure_eq_ok] at hhandle
  obtain ⟨⟨v, z⟩, hz, rfl⟩ := hhandle
  obtain ⟨r, hr, -, hy⟩ := GetValueInKamino.handle_eq_ok.mp hz
  exact ⟨r, hr, congrArg (fun y => y.world.treasury) hy⟩

theorem getValueInMarginfi {a : GetValueInMarginFi} (h : HandlerStep d w e w')
    (hi : e.call.instruction = .getValueInMarginfi a) :
    ∃ r : GetValueInMarginFi.Reading, r.Accepted a d e.call.env ∧
      w'.treasury = r.treasury w.treasury := by
  have hhandle := h.handle_eq hi
  simp only [Instruction.handle, bind_eq_ok, pure_eq_ok] at hhandle
  obtain ⟨⟨v, z⟩, hz, rfl⟩ := hhandle
  obtain ⟨r, hr, -, hy⟩ := GetValueInMarginFi.handle_eq_ok.mp hz
  exact ⟨r, hr, congrArg (fun y => y.world.treasury) hy⟩

theorem calcuBalance {a : CalcuBalance} (h : HandlerStep d w e w')
    (hi : e.call.instruction = .calcuBalance a) :
    ∃ r : CalcuBalance.Recount, r.Accepted a d e.call.env w ∧
      w'.treasury = r.treasury w.treasury := by
  obtain ⟨r, hr, hy⟩ := CalcuBalance.handle_eq_ok.mp (h.handle_eq hi)
  exact ⟨r, hr, congrArg (fun y => y.world.treasury) hy⟩

theorem reallocate {a : ReAllocate} {returnRate riskRating : Vector F 7} (h : HandlerStep d w e w')
    (hi : e.call.instruction = .reallocate a returnRate riskRating) :
    ∃ marginfiAllocation kaminoAllocation meteoraAllocation jupiterAllocation usdcAllocation
      wbtcAllocation solAllocation, w'.treasury = { w.treasury with
        marginfiAllocation, kaminoAllocation, meteoraAllocation, jupiterAllocation, usdcAllocation,
        wbtcAllocation, solAllocation } := by
  obtain ⟨l, -, q₀, q₁, q₂, q₃, q₄, q₅, q₆, -, -, -, -, -, -, -, hy⟩ :=
    ReAllocate.handle_eq_ok (h.handle_eq hi)
  exact ⟨_, _, _, _, _, _, _, congrArg (fun y => y.world.treasury) hy⟩

theorem cashingoutReedem {a : CashingoutReedem} {n : UInt64} (h : HandlerStep d w e w')
    (hi : e.call.instruction = .cashingoutReedem a n) :
    w'.treasury = w.treasury.setCashout (w.treasury.tokenMinted - n)
      (w.treasury.treasuryValue - F64.ofU64 (CashingoutReedem.reedem w.treasury n)
        - F64.ofU64 (CashingoutReedem.fee w.treasury n)) := by
  obtain ⟨esc, l, l', -, -, -, -, -, -, hy⟩ := CashingoutReedem.handle_eq_ok.mp (h.handle_eq hi)
  exact congrArg (fun y => y.world.treasury) hy

theorem cashingoutReedem_trace {a : CashingoutReedem} {n : UInt64} (h : HandlerStep d w e w')
    (hi : e.call.instruction = .cashingoutReedem a n) :
    e.trace = [⟨a.payout d a.userTokenAccount (CashingoutReedem.reedem w.treasury n), true⟩,
      ⟨a.payout d a.feeWalletTokenAccount (CashingoutReedem.fee w.treasury n), true⟩] := by
  obtain ⟨esc, l, l', -, -, -, -, -, -, hy⟩ := CashingoutReedem.handle_eq_ok.mp (h.handle_eq hi)
  exact congrArg Exec.trace hy

theorem treasury_eq (h : HandlerStep d w e w') (hi : .treasury ∉ e.call.instruction.writes) :
    w'.treasury = w.treasury :=
  (Instruction.handle_frame h).treasury hi

theorem stakeAccounts_eq (h : HandlerStep d w e w')
    (hi : .stakeAccounts ∉ e.call.instruction.writes) : w'.stakeAccounts = w.stakeAccounts :=
  (Instruction.handle_frame h).stakeAccounts hi

/-- What holds of everything an accepted instruction can make of the treasury holds of the treasury
after it. -/
theorem treasury_cases {motive : Treasury F → Prop} (h : HandlerStep d w e w')
    (initializeTreasury : ∀ a, e.call.instruction = .initializeTreasury a → motive a.treasury)
    (applyBond : ∀ a args (s : ApplyBond.Sale), e.call.instruction = .applyBond a args →
      s.Accepted a d e.call.env args (.start w) → motive (s.treasury w.treasury))
    (stakeSTF : ∀ a n, e.call.instruction = .stakeSTF a n → motive (w.treasury.setTokenStaked
      (w.treasury.tokenStaked + n / w.treasury.stakingIndex)))
    (unstakeSTF : ∀ a n, e.call.instruction = .unstakeSTF a n →
      motive (w.treasury.setTokenStaked (w.treasury.tokenStaked - n)))
    (getValueInKamino : ∀ a (r : GetValueInKamino.Reading),
      e.call.instruction = .getValueInKamino a → motive (r.treasury w.treasury))
    (getValueInMarginfi : ∀ a (r : GetValueInMarginFi.Reading),
      e.call.instruction = .getValueInMarginfi a → motive (r.treasury w.treasury))
    (calcuBalance : ∀ a (r : CalcuBalance.Recount), e.call.instruction = .calcuBalance a →
      r.Accepted a d e.call.env w → motive (r.treasury w.treasury))
    (reallocate : ∀ a returnRate riskRating marginfiAllocation kaminoAllocation meteoraAllocation
      jupiterAllocation usdcAllocation wbtcAllocation solAllocation,
      e.call.instruction = .reallocate a returnRate riskRating → motive { w.treasury with
        marginfiAllocation, kaminoAllocation, meteoraAllocation, jupiterAllocation, usdcAllocation,
        wbtcAllocation, solAllocation })
    (cashingoutReedem : ∀ a n, e.call.instruction = .cashingoutReedem a n →
      motive (w.treasury.setCashout (w.treasury.tokenMinted - n)
        (w.treasury.treasuryValue - F64.ofU64 (CashingoutReedem.reedem w.treasury n)
          - F64.ofU64 (CashingoutReedem.fee w.treasury n))))
    (other : .treasury ∉ e.call.instruction.writes → motive w.treasury) : motive w'.treasury := by
  cases hi : e.call.instruction with
  | initializeTreasury a =>
      rw [h.initializeTreasury hi]
      exact initializeTreasury a hi
  | applyBond a args =>
      obtain ⟨s, hs, ht⟩ := h.applyBond hi
      rw [ht]
      exact applyBond a args s hi hs
  | stakeSTF a n =>
      rw [(h.stakeSTF hi).2]
      exact stakeSTF a n hi
  | unstakeSTF a n =>
      rw [(h.unstakeSTF hi).2]
      exact unstakeSTF a n hi
  | getValueInKamino a =>
      obtain ⟨r, -, ht⟩ := h.getValueInKamino hi
      rw [ht]
      exact getValueInKamino a r hi
  | getValueInMarginfi a =>
      obtain ⟨r, -, ht⟩ := h.getValueInMarginfi hi
      rw [ht]
      exact getValueInMarginfi a r hi
  | calcuBalance a =>
      obtain ⟨r, hr, ht⟩ := h.calcuBalance hi
      rw [ht]
      exact calcuBalance a r hi hr
  | reallocate a returnRate riskRating =>
      obtain ⟨_, _, _, _, _, _, _, ht⟩ := h.reallocate hi
      rw [ht]
      exact reallocate a returnRate riskRating _ _ _ _ _ _ _ hi
  | cashingoutReedem a n =>
      rw [h.cashingoutReedem hi]
      exact cashingoutReedem a n hi
  | _ =>
      have hwrites : .treasury ∉ e.call.instruction.writes := by simp [hi, Instruction.writes]
      rw [h.treasury_eq hwrites]
      exact other hwrites

end HandlerStep

end Saturn
