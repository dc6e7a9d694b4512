import Saturn.Program

/-!
# The flags of the rebalance cycle

The flags are a machine of their own: `flagsAfter` is its transition function, `FlagsAdmit` its
guards, and a step of the program is a step of it. `WellOrdered` is what its reachable states
satisfy: the recount comes before the reallocation, the reallocation before the two withdrawals, and
the flags of Meteora, Jupiter and the swap are never set.
-/

namespace Saturn

open Machine Transition

variable {F : Type} {d : Deployment} {w w' : World F} {e : Event F} {es : List (Event F)}
  {s : SequenceFlag}

/-! ## The machine -/

def Instruction.flagsAfter (i : Instruction F) (s : SequenceFlag) : SequenceFlag :=
  match i with
  | .initializeTreasury _ => Initialize.sequenceFlag
  | .calcuBalance _ => { s with
      flagCalcuBalance := true
      flagReallocate := false
      flagMarginfi := false
      flagKamino := false
      flagMeteora := false
      flagJupiter := false }
  | .reallocate _ _ _ => { s with flagReallocate := true }
  | .klendWithdraw _ => { s with flagKamino := true }
  | .marginfiWithdraw _ => { s with flagMarginfi := true }
  | _ => s

/-- The constraints of an instruction on the flags. -/
def Instruction.FlagsAdmit (i : Instruction F) (s : SequenceFlag) : Prop :=
  match i with
  | .reallocate _ _ _ => s.flagCalcuBalance = true ∧ s.flagReallocate = false
  | .klendWithdraw _ => s.flagCalcuBalance = true ∧ s.flagReallocate = true ∧ s.flagKamino = false
  | .marginfiWithdraw _ =>
      s.flagCalcuBalance = true ∧ s.flagReallocate = true ∧ s.flagMarginfi = false
  | .klendLend _ | .marginfiLend _ | .meteoraDeposit _ _ _ _ | .meteoraWithdraw _ _ _ _ =>
      s.flagCalcuBalance = true ∧ s.flagReallocate = true ∧
        s.flagKamino = true ∧ s.flagMarginfi = true ∧ s.flagMeteora = true
  | _ => True

variable [F64 F]

/-- An accepted call moves the flags as the machine does. -/
theorem HandlerStep.sequenceFlag_eq (h : HandlerStep d w e w') :
    w'.sequenceFlag = e.call.instruction.flagsAfter w.sequenceFlag := by
  have hframe := Instruction.handle_frame h
  cases hi : e.call.instruction with
  | initializeTreasury a =>
      have hy : a.handle (.start w) = ⟨w', e.trace⟩ := pure_eq_ok.mp (h.handle_eq hi)
      exact congrArg (fun y => y.world.sequenceFlag) hy.symm
  | calcuBalance a =>
      obtain ⟨r, -, hy⟩ := CalcuBalance.handle_eq_ok.mp (h.handle_eq hi)
      exact congrArg (fun y => y.world.sequenceFlag) hy
  | reallocate a r k =>
      obtain ⟨l, -, q₀, q₁, q₂, q₃, q₄, q₅, q₆, -, -, -, -, -, -, -, hy⟩ :=
        ReAllocate.handle_eq_ok (h.handle_eq hi)
      exact congrArg (fun y => y.world.sequenceFlag) hy
  | klendWithdraw a =>
      obtain ⟨z, hz, hy⟩ := KlendWithdraw.handle_eq_ok.mp (h.handle_eq hi)
      have hsame : z.world.sequenceFlag = w.sequenceFlag :=
        (Exec.Invoked.of_invoke hz).sequenceFlag_eq
      rw [← hsame]
      exact congrArg (fun y => y.world.sequenceFlag) hy
  | marginfiWithdraw a =>
      have hy : _ = (⟨w', e.trace⟩ : Exec F) := pure_eq_ok.mp (h.handle_eq hi)
      have hsame : ((Exec.start w).invokeIgnore e.call.env
          (a.redeem d w.treasury.marginfiLendAssets)).world.sequenceFlag = w.sequenceFlag :=
        (Frame.invokeIgnore e.call.env _).sequenceFlag (by simp)
      rw [← hsame]
      exact congrArg (fun y => y.world.sequenceFlag) hy.symm
  | _ =>
      rw [hi] at hframe
      exact hframe.sequenceFlag (by simp [Instruction.writes])

/-- An accepted call met the constraints on the flags. -/
theorem Step.flagsAdmit (h : Step d w e w') :
    e.call.instruction.FlagsAdmit w.sequenceFlag := by
  cases hi : e.call.instruction with
  | reallocate a r k =>
      have hc := h.constraints_eq hi
      simp only [Instruction.constraints, ReAllocate.constraints, bind_eq_ok, require_eq_ok] at hc
      obtain ⟨_, -, _, hcalcu, hreallocate⟩ := hc
      exact ⟨hcalcu, hreallocate⟩
  | klendWithdraw a | marginfiWithdraw a =>
      have hc := h.constraints_eq hi
      simp only [Instruction.constraints, KlendWithdraw.constraints, MarginfiWithdraw.constraints,
        bind_eq_ok, requireWithdrawable_eq_ok] at hc
      obtain ⟨_, -, _, hflags, -⟩ := hc
      exact hflags
  | klendLend a | marginfiLend a | meteoraDeposit a n m k | meteoraWithdraw a n m k =>
      have hc := h.constraints_eq hi
      simp only [Instruction.constraints, KaminoLend.constraints, MarginfiLend.constraints,
        MeteoraLiquidity.constraints, bind_eq_ok, requireLendable_eq_ok] at hc
      obtain ⟨_, -, _, hflags, -⟩ := hc
      exact hflags
  | _ => trivial

/-! ## Its reachable states -/

/-- Each flag of the cycle is set after the one before it, and the three others are not set at
all. -/
structure SequenceFlag.WellOrdered (s : SequenceFlag) : Prop where
  reallocate : s.flagReallocate = true → s.flagCalcuBalance = true
  kamino : s.flagKamino = true → s.flagReallocate = true
  marginfi : s.flagMarginfi = true → s.flagReallocate = true
  meteora : s.flagMeteora = false
  jupiter : s.flagJupiter = false
  swap : s.flagSwap = false

theorem Initialize.wellOrdered : Initialize.sequenceFlag.WellOrdered := by
  constructor <;> simp

omit [F64 F] in
/-- The machine keeps its flags ordered. -/
theorem SequenceFlag.WellOrdered.step {i : Instruction F} (hs : s.WellOrdered)
    (h : i.FlagsAdmit s) : (i.flagsAfter s).WellOrdered := by
  cases i with
  | initializeTreasury a => exact Initialize.wellOrdered
  | calcuBalance a => exact ⟨by simp [Instruction.flagsAfter], by simp [Instruction.flagsAfter],
      by simp [Instruction.flagsAfter], rfl, rfl, hs.swap⟩
  | reallocate a r k =>
    exact ⟨fun _ => h.1, fun _ => rfl, fun _ => rfl, hs.meteora, hs.jupiter, hs.swap⟩
  | klendWithdraw a =>
      exact ⟨hs.reallocate, fun _ => h.2.1, hs.marginfi, hs.meteora, hs.jupiter, hs.swap⟩
  | marginfiWithdraw a =>
      exact ⟨hs.reallocate, hs.kamino, fun _ => h.2.1, hs.meteora, hs.jupiter, hs.swap⟩
  | _ => exact hs

/-- So the flags of the program are ordered throughout every run. -/
theorem Run.wellOrdered (hrun : Run (Step d) w es w') (h : w.sequenceFlag.WellOrdered) :
    w'.sequenceFlag.WellOrdered := by
  refine hrun.invariant (fun v => v.sequenceFlag.WellOrdered) h ?_
  intro v e v' hstep hv
  rw [hstep.handlerStep.sequenceFlag_eq]
  exact hv.step hstep.flagsAdmit

end Saturn
