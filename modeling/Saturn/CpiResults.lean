import Saturn.Program

/-!
# Which handlers report a failed CPI

A handler that passes the `Result` of every CPI on returns `Ok` only when all of them did. Three
handlers drop a `Result`: `marginfi_lend` and `marginfi_withdraw` in every call, and `unstake_stf`
in every call that passes its own checks. `reportsFailures_iff` says that these are all.
-/

namespace Saturn

open Machine

variable {F : Type} [F64 F] {d : Deployment} {env : Env} {i : Instruction F} {w : World F}
  {x y : Exec F}

/-- The checks `unstake_stf` makes before its transfer. -/
def UnStakeSTF.Passes (a : UnStakeSTF) (d : Deployment) (n : UInt64) (w : World F) : Prop :=
  n < (w.stakeAccount a.user).totalStakedIndex ∧
    (d.profile.overflowChecks = true → n.toNat * w.treasury.stakingIndex.toNat < 2 ^ 64) ∧
    (d.profile.overflowChecks = true → n.toNat ≤ w.treasury.tokenStaked.toNat)

namespace Instruction

/-- Whatever the invoked programs do, `Ok` means that every CPI of the call returned `Ok`. -/
def ReportsFailures (d : Deployment) (env : Env) (w : World F) (i : Instruction F) : Prop :=
  ∀ cpi x, i.handle d { env with cpi } (.start w) = .ok x → ∀ r ∈ x.trace, r.ok = true

omit [F64 F] in
/-- The call comes to a CPI whose `Result` it drops. -/
def DropsResult (d : Deployment) (w : World F) : Instruction F → Prop
  | marginfiLend _ | marginfiWithdraw _ => True
  | unstakeSTF a n => a.Passes d n w
  | _ => False

theorem handle_all_ok (h : i.handle d env (.start w) = .ok y) (hi : ¬ i.DropsResult d w) :
    ∀ r ∈ y.trace, r.ok = true := by
  have hstart : ∀ r ∈ (Exec.start w).trace, r.ok = true := by simp
  cases i with
  | initializeTreasury a =>
      cases h
      exact hstart
  | applyBond a args =>
      obtain ⟨s, -, rfl⟩ := ApplyBond.handle_eq_ok.mp h
      simp
  | finishBond a =>
      obtain ⟨e, l, -, -, -, -, -, rfl⟩ := FinishBond.handle_eq_ok.mp h
      simp
  | stakeSTF a n =>
      obtain ⟨l, -, -, -, -, rfl⟩ := StakeSTF.handle_eq_ok.mp h
      simp
  | unstakeSTF a n =>
      -- the result of the transfer is dropped whenever it is called
      obtain ⟨hlt, hfits, hle, -⟩ := UnStakeSTF.handle_eq_ok.mp h
      exact absurd ⟨hlt, hfits, hle⟩ hi
  | swap a data n => exact (Swap.handle_invoked h).all_ok hstart
  | meteoraDeposit a n m k => exact (Exec.Invoked.of_invoke h).all_ok hstart
  | meteoraWithdraw a n m k => exact (Exec.Invoked.of_invoke h).all_ok hstart
  | initLendingAccounts a => exact (InitLendingAccount.handle_invoked h).all_ok hstart
  | klendLend a => exact (Exec.Invoked.of_invoke h).all_ok hstart
  | klendWithdraw a =>
      obtain ⟨z, hz, rfl⟩ := KlendWithdraw.handle_eq_ok.mp h
      exact (Exec.Invoked.of_invoke hz).all_ok hstart
  | marginfiLend a => exact absurd trivial hi
  | marginfiWithdraw a => exact absurd trivial hi
  | getValueInMeteora a =>
      simp only [handle, bind_eq_ok, pure_eq_ok] at h
      obtain ⟨_, -, rfl⟩ := h
      exact hstart
  | getValueInKamino a =>
      simp only [handle, bind_eq_ok, pure_eq_ok] at h
      obtain ⟨⟨v, z⟩, h, rfl⟩ := h
      obtain ⟨r, -, -, rfl⟩ := GetValueInKamino.handle_eq_ok.mp h
      exact hstart
  | getValueInMarginfi a =>
      simp only [handle, bind_eq_ok, pure_eq_ok] at h
      obtain ⟨⟨v, z⟩, h, rfl⟩ := h
      obtain ⟨r, -, -, rfl⟩ := GetValueInMarginFi.handle_eq_ok.mp h
      exact hstart
  | calcuBalance a =>
      obtain ⟨r, -, rfl⟩ := CalcuBalance.handle_eq_ok.mp h
      exact hstart
  | reallocate a r k =>
      obtain ⟨l, -, q₀, q₁, q₂, q₃, q₄, q₅, q₆, -, -, -, -, -, -, -, rfl⟩ :=
        ReAllocate.handle_eq_ok h
      exact hstart
  | cashingoutReedem a n =>
      obtain ⟨e, l, l', -, -, -, -, -, -, rfl⟩ := CashingoutReedem.handle_eq_ok.mp h
      simp

omit [F64 F] in
theorem failed_mem_invokeIgnore {e : CpiError} (x : Exec F) (c : Cpi)
    (h : ∀ n c l, env.cpi n c l = .error e) : ⟨c, false⟩ ∈ (x.invokeIgnore env c).trace := by
  rcases x.invokeIgnore_cases env c with ⟨l, hok, -⟩ | ⟨-, hy⟩
  · rw [h] at hok
    cases hok
  · rw [hy]
    simp

/-- Where every CPI fails, a handler that drops a `Result` still returns `Ok`. -/
theorem exists_failed_of_dropsResult {e : CpiError} (env : Env) (hi : i.DropsResult d w)
    (h : ∀ n c l, env.cpi n c l = .error e) :
    ∃ x, i.handle d env (.start w) = .ok x ∧ ∃ r ∈ x.trace, r.ok = false := by
  cases i with
  | marginfiLend a => exact ⟨_, rfl, _, failed_mem_invokeIgnore _ _ h, rfl⟩
  | marginfiWithdraw a => exact ⟨_, rfl, _, failed_mem_invokeIgnore _ _ h, rfl⟩
  | unstakeSTF a n =>
      obtain ⟨hlt, hfits, hle⟩ := hi
      have hok : a.handle d env n (.start w) = .ok _ :=
        UnStakeSTF.handle_eq_ok.mpr ⟨hlt, hfits, hle, rfl⟩
      exact ⟨_, hok, _, failed_mem_invokeIgnore _ _ h, rfl⟩
  | _ => exact hi.elim

/-- A handler reports every failed CPI precisely when it comes to no CPI whose `Result` it drops. -/
theorem reportsFailures_iff : i.ReportsFailures d env w ↔ ¬ i.DropsResult d w := by
  constructor
  · intro h hi
    obtain ⟨x, hx, r, hr, hfail⟩ :=
      exists_failed_of_dropsResult { env with cpi := fun _ _ _ => .error splError } hi
        (fun _ _ _ => rfl)
    have hok := h _ x hx r hr
    rw [hfail] at hok
    cases hok
  · intro hi cpi x hx
    exact handle_all_ok hx hi

end Instruction

/-- A world in which user `1` has staked five units. -/
def stakerWorld : World ℚ :=
  { (Initialize.world ⟨0⟩ ⟨fun _ => .empty, fun _ => 0⟩ : World ℚ) with
    treasury := (Initialize.treasury ⟨0⟩).setTokenStaked 5
    stakeAccounts := fun u => if u = 1 then some ⟨5, 0⟩ else none }

/-- With every CPI failing, unstaking three units succeeds: the units are gone, unpaid. -/
theorem unstake_drops_failed_payout :
    ∃ x, UnStakeSTF.handle ⟨1, 2, 3, stfMint⟩ ⟨.release, 9, fun _ => (0, 0)⟩
        { splEnv 0 [1] (fun _ => none) with cpi := fun _ _ _ => .error splError } 3
        (.start stakerWorld) = .ok x ∧
      (∃ r ∈ x.trace, r.ok = false) ∧
      (x.world.stakeAccount 1).totalStakedIndex = 2 ∧ x.world.treasury.tokenStaked = 2 := by
  refine ⟨_, rfl, ⟨⟨_, false⟩, List.mem_singleton_self _, rfl⟩, ?_, ?_⟩
  · decide +kernel
  · decide +kernel

end Saturn
