import Saturn.Rebalance.Flags
import Mathlib.Data.List.DropRight

/-!
# The rebalance cycle

A cycle recounts, reallocates, withdraws from Kamino, marginfi and Meteora, and lends again. Lending
and the withdrawal from Meteora both wait for `flag_meteora`, which only the latter could set and
does not: so the flag is never set, and no cycle gets past the withdrawals from Kamino and marginfi.
-/

namespace Saturn

open Machine Transition

variable {F : Type} {d : Deployment} {w w' : World F} {e : Event F} {es : List (Event F)}

/-! ## Completing a cycle -/

/-- `e` is a `calcu_balance` or a `reallocate`. -/
def Event.recounts (e : Event F) : Bool :=
  match e.call.instruction with
  | .calcuBalance _ | .reallocate _ _ _ => true
  | _ => false

/-- The end of a history, after the last `calcu_balance` or `reallocate`. -/
def sinceRecount (es : List (Event F)) : List (Event F) := es.rtakeWhile fun e => !e.recounts

/-- The three withdrawals have each been accepted since the last recount and reallocation. -/
structure Withdrawn (es : List (Event F)) : Prop where
  klend : ∃ e ∈ sinceRecount es, ∃ a, e.call.instruction = .klendWithdraw a
  marginfi : ∃ e ∈ sinceRecount es, ∃ a, e.call.instruction = .marginfiWithdraw a
  meteora : ∃ e ∈ sinceRecount es, ∃ a n m k, e.call.instruction = .meteoraWithdraw a n m k

/-- The flags admit `klend_lend`, `marginfi_lend` and `meteora_deposit`. -/
structure AdmitsLending (w : World F) : Prop where
  klend : ∀ a, (Instruction.klendLend a : Instruction F).FlagsAdmit w.sequenceFlag
  marginfi : ∀ a, (Instruction.marginfiLend a : Instruction F).FlagsAdmit w.sequenceFlag
  meteora : ∀ a n m k,
    (Instruction.meteoraDeposit a n m k : Instruction F).FlagsAdmit w.sequenceFlag

variable [F64 F]

/-- After the history `es`, which led to `w`, the cycle can be completed. -/
def Completable (d : Deployment) (es : List (Event F)) (w : World F) : Prop :=
  ∃ fs w', Run (Step d) w fs w' ∧ Withdrawn (es ++ fs) ∧ AdmitsLending w'

/-! ## The flag nobody sets -/

/-- Where the flags are ordered, those of Meteora admit no withdrawal from it. -/
theorem Run.no_meteoraWithdraw (hrun : Run (Step d) w es w') (h : w.sequenceFlag.WellOrdered) :
    ∀ e ∈ es, ∀ a n m k, e.call.instruction ≠ .meteoraWithdraw a n m k := by
  intro e he a n m k hi
  obtain ⟨p, q, rfl⟩ := List.append_of_mem he
  obtain ⟨v, hp, hrest⟩ := hrun.split
  obtain ⟨v', hstep, -⟩ := hrest.split_cons
  have hordered := Run.wellOrdered hp h
  have hadmit := hstep.flagsAdmit
  rw [hi] at hadmit
  obtain ⟨-, -, -, -, hset⟩ := hadmit
  rw [hordered.meteora] at hset
  cases hset

/-- A history that starts with ordered flags cannot be completed. -/
theorem Run.not_completable (hrun : Run (Step d) w es w') (h : w.sequenceFlag.WellOrdered) :
    ¬ Completable d es w' := by
  rintro ⟨fs, w'', hrest, hwithdrawn, -⟩
  obtain ⟨e, he, a, n, m, k, hi⟩ := hwithdrawn.meteora
  have hmem : e ∈ es ++ fs := List.rtakeWhile_suffix _ _ |>.subset he
  exact Run.no_meteoraWithdraw (hrun.append hrest) h e hmem a n m k hi

/-- From no state that a run reaches after `initialize` can the cycle be completed. -/
theorem cycle_never_completes (a : Initialize) (l : Ledger) (hrun : Run (Step d) (a.world l) es w) :
    ¬ Completable d es w :=
  Run.not_completable hrun Initialize.wellOrdered

/-! ### A cycle that gets stuck -/

/-- The treasury's accounts: USDC in `12`, wBTC in `16`, collateral of mint `34` in `17`; and the
liquidity vault of a marginfi bank in `43`. -/
def lendingLedger : Ledger where
  data k :=
    if k = 12 then .tokenAccount ⟨usdcMint, 9, 5000000⟩
    else if k = 16 then .tokenAccount ⟨wbtcMint, 9, 0⟩
    else if k = 17 then .tokenAccount ⟨34, 9, 0⟩
    else if k = 43 then .tokenAccount ⟨usdcMint, 44, 0⟩
    else .empty
  lamports _ := 0

/-- The admin `7` and the authority `9` sign, every price is one, and every CPI succeeds. -/
def lendingEnv : Env where
  clock := ⟨0, 0⟩
  signers := [7, 9]
  getPriceNoOlderThan _ _ _ := some ⟨1, 0, 0⟩
  rentMinimumBalance _ := 0
  cpi _ _ l := .ok l

/-- Recount, reallocate, and withdraw from Kamino and marginfi. -/
def withdrawals : List (Call ℚ) :=
  [ ⟨lendingEnv, .calcuBalance
      { signer := 9
        usdcTokenAccount := 12
        wbtcTokenAccount := 16
        solPriceUpdate := 0
        usdcPriceUpdate := 0
        wbtcPriceUpdate := 0 }⟩,
    ⟨lendingEnv, .reallocate ⟨7⟩ (.replicate 7 1) (.replicate 7 1)⟩,
    ⟨lendingEnv, .klendWithdraw
      { signer := 9
        userDestinationLiquidity := 12
        obligation := ⟨31, ⟨30, 9⟩⟩
        lendingMarket := 30
        withdrawReserve := ⟨32, ⟨30, usdcMint, 33, 34, 35⟩⟩
        reserveSourceCollateral := 35
        reserveCollateralMint := 34
        reserveLiquiditySupply := 33
        lendingMarketAuthority := 36
        userDestinationCollateral := 17 }⟩,
    ⟨lendingEnv, .marginfiWithdraw
      { signer := 9
        marginfiGroup := 40
        marginfiAccount := ⟨41, ⟨40, 9⟩⟩
        bank := ⟨42, 40⟩
        userLiquidity := 12
        bankLiquidityVault := 43
        bankLiquidityVaultAuthority := 44 }⟩ ]

/-- After the first four calls of a cycle it cannot. -/
theorem cycle_never_completes_small : ∃ (es : List (Event ℚ)) (w : World ℚ),
    es.map Event.call = withdrawals ∧
      Run (Step (smallDeployment .release)) (Initialize.world ⟨7⟩ lendingLedger) es w ∧
      ¬ Completable (smallDeployment .release) es w := by
  obtain ⟨es, w, hrun, hcalls, -⟩ := exists_run_of_replay
    (fun c w => c.process (smallDeployment .release) w) (Initialize.world ⟨7⟩ lendingLedger)
    withdrawals (fun _ _ => true) (by decide +kernel)
  exact ⟨es, w, hcalls, hrun, cycle_never_completes ⟨7⟩ lendingLedger hrun⟩

/-- The four calls are accepted, set every flag of the cycle but that of Meteora, and leave
it where it cannot be completed. -/
theorem stuck_after_withdrawals : ∃ (es : List (Event ℚ)) (w : World ℚ),
    Run (Step (smallDeployment .release)) (Initialize.world ⟨7⟩ lendingLedger) es w ∧
      es.map Event.call = withdrawals ∧
      w.sequenceFlag = ⟨true, true, true, true, false, false, false⟩ ∧
      ¬ Completable (smallDeployment .release) es w := by
  obtain ⟨es, w, hrun, hcalls, hp⟩ := exists_run_of_replay
    (fun c w => c.process (smallDeployment .release) w) (Initialize.world ⟨7⟩ lendingLedger)
    withdrawals (fun _ w => decide (w.sequenceFlag = ⟨true, true, true, true, false, false, false⟩))
    (by decide +kernel)
  rw [decide_eq_true_eq] at hp
  exact ⟨es, w, hrun, hcalls, hp, Run.not_completable hrun Initialize.wellOrdered⟩

end Saturn
