import Saturn.Authority
import Saturn.Steps
import Saturn.Bond.Pricing
import Saturn.Rebalance.Flags
import Saturn.Staking.Ledger

/-!
# What is left of the program

The treasury's authority is a PDA and signs no transaction. So ten instructions are never accepted,
the recount among them, the flags stay as `initialize` sets them, and the instructions that wait for
a flag are not accepted either. The rest is *live* (`Instruction.isLive`).

* In every run without forged signatures only live instructions are accepted, and only users'
  unstakes and the admin's swaps spend what the treasury owns (`treasury_custody`).
* From the treasury that `initialize` writes, not even a bond is: it is priced by a value of nothing
  over no tokens. Only stakes, unstakes, swaps and the opening of accounts ever happen, and of the
  treasury only `token_staked` changes (`genesis`).
-/

namespace Saturn

open Machine Transition

variable {F : Type} {d : Deployment} {w w' : World F} {e : Event F} {es : List (Event F)}

/-! ## Live instructions -/

/-- The instructions that neither the authority has to sign nor a flag has to admit. -/
def Instruction.isLive : Instruction F → Bool
  | applyBond _ _ | finishBond _ | stakeSTF _ _ | unstakeSTF _ _ | swap _ _ _
  | initLendingAccounts _ => true
  | _ => false

/-- The authority did not sign. -/
def Unforged (d : Deployment) (_ : World F) (e : Event F) : Prop :=
  d.treasuryAuthority ∉ e.call.env.signers

theorem Instruction.gate_ne_treasuryAuthority {i : Instruction F} {env : Env} {o : Operation}
    (hsign : d.treasuryAuthority ∉ env.signers) (h : i.constraints d env w = .ok ())
    (hi : i.operation = some o) : o.gate ≠ .treasuryAuthority := by
  intro hgate
  exact hsign (Operation.Admits.authority_mem ⟨i, hi, i.signerConstraints_of_constraints h⟩ hgate)

variable [F64 F]

/-- While no flag is set, what is accepted is live. -/
theorem Step.isLive (h : Step d w e w') (hsign : Unforged d w e)
    (hflags : w.sequenceFlag = Initialize.sequenceFlag) : e.call.instruction.isLive = true := by
  have hadmit := h.flagsAdmit
  rw [hflags] at hadmit
  cases hi : e.call.instruction with
  | applyBond _ _ | finishBond _ | stakeSTF _ _ | unstakeSTF _ _ | swap _ _ _
  | initLendingAccounts _ => rfl
  | initializeTreasury a => cases h.constraints_eq hi
  | klendLend a =>
      rw [hi] at hadmit
      cases hadmit.1
  | reallocate a r k =>
      rw [hi] at hadmit
      cases hadmit.1
  | _ =>
      have hgate := Instruction.gate_ne_treasuryAuthority hsign (h.constraints_eq hi) rfl
      exact absurd rfl hgate

/-- A live instruction leaves the flags. -/
theorem Step.sequenceFlag_of_isLive (h : Step d w e w') (hlive : e.call.instruction.isLive = true) :
    w'.sequenceFlag = w.sequenceFlag := by
  apply (Instruction.handle_frame h.handlerStep).sequenceFlag
  cases hi : e.call.instruction with
  | applyBond _ _ | finishBond _ | stakeSTF _ _ | unstakeSTF _ _ | swap _ _ _
  | initLendingAccounts _ =>
      simp [Instruction.writes]
  | _ =>
      rw [hi] at hlive
      cases hlive

/-- And the admin. -/
theorem Step.treasuryAdmin_of_isLive (h : Step d w e w')
    (hlive : e.call.instruction.isLive = true) :
    w'.treasury.treasuryAdmin = w.treasury.treasuryAdmin := by
  cases hi : e.call.instruction with
  | applyBond a args =>
      obtain ⟨s, -, htreasury⟩ := h.handlerStep.applyBond hi
      rw [htreasury, ApplyBond.Sale.treasury_treasuryAdmin]
  | stakeSTF a n => rw [(h.handlerStep.stakeSTF hi).2]; rfl
  | unstakeSTF a n => rw [(h.handlerStep.unstakeSTF hi).2]; rfl
  | finishBond _ | swap _ _ _ | initLendingAccounts _ =>
      rw [h.handlerStep.treasury_eq (by simp [hi, Instruction.writes])]
  | _ =>
      rw [hi] at hlive
      cases hlive

/-! ## Custody -/

/-- The instruction moves tokens or lamports; the others open accounts and mint. -/
def CpiInstruction.spends : CpiInstruction → Bool
  | .mintTo _ _ _ _ | .initializeAccount3 _ _ _ | .initUserMetadata _ _ _ _ | .initObligation _
  | .marginfiAccountInitialize _ _ _ _ => false
  | _ => true

/-- The CPI spends what the authority owns, with its signature. -/
def Cpi.Spends (c : Cpi) : Prop :=
  SignerSeed.treasuryAuthority ∈ c.signerSeeds ∧ c.instruction.spends = true

/-- None of the CPIs made so far spends. -/
def Exec.Idle (x : Exec F) : Prop := ∀ r ∈ x.trace, ¬ r.cpi.Spends

omit [F64 F] in
theorem Exec.Idle.invoke {x y : Exec F} {env : Env} {c : Cpi} (hx : x.Idle) (hc : ¬ c.Spends)
    (h : x.invoke env c = .ok y) : y.Idle := by
  obtain ⟨l, -, rfl⟩ := Exec.invoke_eq_ok.mp h
  intro r hr
  rcases List.mem_append.mp hr with hmem | hmem
  · exact hx r hmem
  · rw [List.mem_singleton] at hmem
    rw [hmem]
    exact hc

theorem Step.idle_applyBond {a : ApplyBond} {args : ApplyBondArgs} (h : Step d w e w')
    (hi : e.call.instruction = .applyBond a args) : (⟨w', e.trace⟩ : Exec F).Idle := by
  obtain ⟨s, -, hy⟩ := ApplyBond.handle_eq_ok.mp (h.handlerStep.handle_eq hi)
  rw [hy]
  intro r hr
  simp only [ApplyBond.Sale.result, Exec.start, List.nil_append, List.mem_cons, List.not_mem_nil,
    or_false] at hr
  rcases hr with rfl | rfl
  · simp [Cpi.Spends]
  · simp [Cpi.Spends, ApplyBond.reward, CpiInstruction.spends]

theorem Step.idle_initLendingAccounts {a : InitLendingAccount} (h : Step d w e w')
    (hi : e.call.instruction = .initLendingAccounts a) : (⟨w', e.trace⟩ : Exec F).Idle := by
  have hhandle := h.handlerStep.handle_eq hi
  simp only [Instruction.handle, InitLendingAccount.handle, bind_eq_ok] at hhandle
  obtain ⟨x₁, h₁, x₂, h₂, h₃⟩ := hhandle
  have hstart : (Exec.start w).Idle := by simp [Exec.Idle]
  exact ((hstart.invoke (by simp [Cpi.Spends, CpiInstruction.spends]) h₁).invoke
    (by simp [Cpi.Spends, CpiInstruction.spends]) h₂).invoke
      (by simp [Cpi.Spends, CpiInstruction.spends]) h₃

/-- Of the live instructions, unstakes and swaps spend. -/
theorem Step.spends (h : Step d w e w') (hlive : e.call.instruction.isLive = true) :
    ∀ r ∈ e.trace, r.cpi.Spends →
      (∃ a n, e.call.instruction = .unstakeSTF a n ∧ a.user ∈ e.call.env.signers) ∨
      (∃ a data n, e.call.instruction = .swap a data n ∧
        w.treasury.treasuryAdmin ∈ e.call.env.signers) := by
  intro r hr hspends
  cases hi : e.call.instruction with
  | applyBond a args => exact absurd hspends (h.idle_applyBond hi r hr)
  | finishBond a =>
      obtain ⟨esc, l, -, -, -, -, -, hy⟩ := FinishBond.handle_eq_ok.mp (h.handlerStep.handle_eq hi)
      have htrace : e.trace = _ := congrArg Exec.trace hy
      rw [htrace] at hr
      simp only [Exec.setEscrow_trace, Exec.afterCpi_trace, Exec.start_trace, List.nil_append,
        List.mem_singleton] at hr
      subst hr
      simp [Cpi.Spends, FinishBond.redemption, CpiInstruction.spends] at hspends
  | stakeSTF a n =>
      obtain ⟨l, -, -, htrace⟩ := h.handlerStep.stakeSTF_deposit hi
      rw [htrace, List.mem_singleton] at hr
      subst hr
      simp [Cpi.Spends, StakeSTF.deposit] at hspends
  | unstakeSTF a n =>
      have hsigner := Instruction.signerConstraints_of_constraints (h.constraints_eq hi)
      exact .inl ⟨a, n, rfl, requireSigner_eq_ok.mp hsigner⟩
  | swap a data n =>
      have hsigner := Instruction.signerConstraints_of_constraints (h.constraints_eq hi)
      obtain ⟨hmem, hadmin⟩ := requireAdmin_eq_ok.mp hsigner
      exact .inr ⟨a, data, n, rfl, hadmin ▸ hmem⟩
  | initLendingAccounts a => exact absurd hspends (h.idle_initLendingAccounts hi r hr)
  | _ =>
      rw [hi] at hlive
      cases hlive

/-- In a run without forged signatures that starts with no flag set, only live instructions are
accepted, and what spends the property of the authority is an unstake by a user, or a swap that the
admin signed. -/
theorem treasury_custody {w₀ : World F} (hrun : Run (Guarded (Step d) (Unforged d)) w₀ es w)
    (hflags : w₀.sequenceFlag = Initialize.sequenceFlag) :
    ∀ e ∈ es, e.call.instruction.isLive = true ∧ ∀ r ∈ e.trace, r.cpi.Spends →
      (∃ a n, e.call.instruction = .unstakeSTF a n ∧ a.user ∈ e.call.env.signers) ∨
      (∃ a data n, e.call.instruction = .swap a data n ∧
        w₀.treasury.treasuryAdmin ∈ e.call.env.signers) := by
  intro e he
  obtain ⟨a, b, ⟨hflags, hadmin⟩, hstep, hsign⟩ := hrun.exists_step
    (fun v => v.sequenceFlag = Initialize.sequenceFlag ∧
      v.treasury.treasuryAdmin = w₀.treasury.treasuryAdmin) ⟨hflags, rfl⟩
    (fun v e v' h hv => ⟨(h.1.sequenceFlag_of_isLive (h.1.isLive h.2 hv.1)).trans hv.1,
      (h.1.treasuryAdmin_of_isLive (h.1.isLive h.2 hv.1)).trans hv.2⟩) e he
  have hlive := hstep.isLive hsign hflags
  exact ⟨hlive, hadmin ▸ hstep.spends hlive⟩

/-! ## From the start -/

/-- As `initialize` writes it, but for `token_staked`; and nobody has a bond. -/
structure Unfunded (a : Initialize) (w : World F) : Prop where
  sequenceFlag : w.sequenceFlag = Initialize.sequenceFlag
  treasury : w.treasury = a.treasury.setTokenStaked w.treasury.tokenStaked
  escrows : ∀ u, w.escrows u = none

/-- The instructions that need no bond. -/
def Instruction.isBondless : Instruction F → Bool
  | stakeSTF _ _ | unstakeSTF _ _ | swap _ _ _ | initLendingAccounts _ => true
  | _ => false

theorem Unfunded.backingPrice {a : Initialize} (hw : Unfunded a w) :
    w.treasury.backingPrice = 0 := by
  rw [hw.treasury]
  exact F64.toU64_zero_div_zero

/-- A live instruction that needs no bond writes no escrow, and of the treasury at most
`token_staked`. -/
theorem Step.frame_of_isBondless (h : Step d w e w') (hi : e.call.instruction.isBondless = true) :
    w'.sequenceFlag = w.sequenceFlag ∧ w'.escrows = w.escrows ∧
      w'.treasury = w.treasury.setTokenStaked w'.treasury.tokenStaked := by
  have hframe := Instruction.handle_frame h.handlerStep
  cases hc : e.call.instruction with
  | stakeSTF b n =>
      rw [hc] at hframe
      refine ⟨hframe.sequenceFlag (by simp [Instruction.writes]),
        hframe.escrows (by simp [Instruction.writes]), ?_⟩
      rw [(h.handlerStep.stakeSTF hc).2]
      rfl
  | unstakeSTF b n =>
      rw [hc] at hframe
      refine ⟨hframe.sequenceFlag (by simp [Instruction.writes]),
        hframe.escrows (by simp [Instruction.writes]), ?_⟩
      rw [(h.handlerStep.unstakeSTF hc).2]
      rfl
  | swap _ _ _ | initLendingAccounts _ =>
      rw [hc] at hframe
      have htreasury := hframe.treasury (by simp [Instruction.writes])
      refine ⟨hframe.sequenceFlag (by simp [Instruction.writes]),
        hframe.escrows (by simp [Instruction.writes]), ?_⟩
      exact htreasury.trans
        (congrArg w.treasury.setTokenStaked (congrArg Treasury.tokenStaked htreasury)).symm
  | _ =>
      rw [hc] at hi
      cases hi

theorem Unfunded.step {a : Initialize} (hw : Unfunded a w) (h : Step d w e w')
    (hsign : Unforged d w e) : e.call.instruction.isBondless = true ∧ Unfunded a w' := by
  have hlive := h.isLive hsign hw.sequenceFlag
  have hbondless : e.call.instruction.isBondless = true := by
    cases hi : e.call.instruction with
    | stakeSTF _ _ | unstakeSTF _ _ | swap _ _ _ | initLendingAccounts _ => rfl
    | applyBond b args =>
        obtain ⟨s, hs, -⟩ := h.handlerStep.applyBond hi
        exact absurd hw.backingPrice hs.terms_eq.1
    | finishBond b =>
        obtain ⟨esc, l, hesc, -⟩ := FinishBond.handle_eq_ok.mp (h.handlerStep.handle_eq hi)
        cases (hw.escrows b.user).symm.trans hesc
    | _ =>
        rw [hi] at hlive
        cases hlive
  obtain ⟨hflags, hescrows, htreasury⟩ := h.frame_of_isBondless hbondless
  refine ⟨hbondless, hflags.trans hw.sequenceFlag, ?_,
    fun u => (congrFun hescrows u).trans (hw.escrows u)⟩
  calc w'.treasury
      = w.treasury.setTokenStaked w'.treasury.tokenStaked := htreasury
    _ = (a.treasury.setTokenStaked w.treasury.tokenStaked).setTokenStaked w'.treasury.tokenStaked :=
        congrArg (Treasury.setTokenStaked · w'.treasury.tokenStaked) hw.treasury
    _ = a.treasury.setTokenStaked w'.treasury.tokenStaked := rfl

/-- From the treasury that `initialize` writes, without forged signatures, only stakes, unstakes,
swaps and the opening of accounts are ever accepted: no bond is, and of the treasury only
`token_staked` changes. -/
theorem genesis (a : Initialize) (l : Ledger)
    (hrun : Run (Guarded (Step d) (Unforged d)) (a.world l) es w) :
    (∀ e ∈ es, e.call.instruction.isBondless = true) ∧ Unfunded a w := by
  have hinit : Unfunded a (a.world l : World F) := ⟨rfl, rfl, fun _ => rfl⟩
  have hkeeps : ∀ (v : World F) (e : Event F) (v' : World F),
      Guarded (Step d) (Unforged d) v e v' → Unfunded a v → Unfunded a v' := by
    intro v e v' h hv
    exact (hv.step h.1 h.2).2
  refine ⟨?_, hrun.invariant (Unfunded a) hinit hkeeps⟩
  intro e he
  obtain ⟨v, v', hv, hstep⟩ := hrun.exists_step (Unfunded a) hinit hkeeps e he
  exact (hv.step hstep.1 hstep.2).1

/-! ### A stake and an unstake

User `1` stakes ten units and takes three shares out. -/

theorem exists_stake_unstake : ∃ (es : List (Event ℚ)) (w : World ℚ),
    es.map Event.call = [stfStake, stfUnstake] ∧ w.treasury.tokenStaked = 7 ∧
      Run (Guarded (Step (smallDeployment .release)) (Unforged (smallDeployment .release)))
        (Initialize.world ⟨7⟩ stfLedger) es w := by
  obtain ⟨es, w, hrun, hcalls, hp⟩ := exists_run_of_replay
    (fun c w => c.process (smallDeployment .release) w) (Initialize.world ⟨7⟩ stfLedger)
    [stfStake, stfUnstake] (fun _ w => decide (w.treasury.tokenStaked = 7)) (by decide +kernel)
  refine ⟨es, w, hcalls, of_decide_eq_true hp, hrun.guard ?_⟩
  intro e he v
  have hmem : e.call ∈ [stfStake, stfUnstake] := hcalls ▸ List.mem_map_of_mem he
  simp only [List.mem_cons, List.not_mem_nil, or_false] at hmem
  rcases hmem with h | h
  · rw [Unforged, h]
    decide
  · rw [Unforged, h]
    decide

/-- Both are live. -/
theorem treasury_custody_small : ∃ es : List (Event ℚ), es.map Event.call = [stfStake, stfUnstake] ∧
    ∀ e ∈ es, e.call.instruction.isLive = true := by
  obtain ⟨es, w, hcalls, -, hrun⟩ := exists_stake_unstake
  exact ⟨es, hcalls, fun e he => (treasury_custody hrun rfl e he).1⟩

/-- Seven units are staked, and nothing else has changed. -/
theorem genesis_small : ∃ w : World ℚ, w.treasury.tokenStaked = 7 ∧
    w.treasury = (Initialize.treasury ⟨7⟩).setTokenStaked 7 := by
  obtain ⟨es, w, -, hseven, hrun⟩ := exists_stake_unstake
  exact ⟨w, hseven, hseven ▸ (genesis ⟨7⟩ stfLedger hrun).2.treasury⟩

end Saturn
