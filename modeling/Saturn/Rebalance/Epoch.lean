import Saturn.Rebalance.Cycle
import Saturn.Transition.Latch

/-!
# What an epoch admits

An epoch begins with an accepted `calcu_balance`, which lowers the flags of the others, and lasts
until the next. The flags of the reallocation and of the two withdrawals are latches within it, so
each of the three is accepted at most once and the withdrawals only after the reallocation
(`epoch_order`).

Lending is not on a latch: `klend_lend`, `marginfi_lend` and `meteora_deposit` wait for flags and
lower none, so where one of them is admitted once it is admitted any number of times.
-/

namespace Saturn

open Machine Transition

variable {F : Type} {d : Deployment} {w w' : World F} {e : Event F} {es : List (Event F)}

/-! ## Kinds of calls -/

namespace Event

variable (e : Event F)

def isCalcuBalance : Bool := e.call.instruction matches .calcuBalance _

def isReallocate : Bool := e.call.instruction matches .reallocate _ _ _

def isKlendWithdraw : Bool := e.call.instruction matches .klendWithdraw _

def isMarginfiWithdraw : Bool := e.call.instruction matches .marginfiWithdraw _

def isWithdrawal : Bool := e.isKlendWithdraw || e.isMarginfiWithdraw

def isKlendLend : Bool := e.call.instruction matches .klendLend _

def isMarginfiLend : Bool := e.call.instruction matches .marginfiLend _

def isMeteoraDeposit : Bool := e.call.instruction matches .meteoraDeposit _ _ _ _

end Event

/-- A step within an epoch. -/
def EpochStep [F64 F] (d : Deployment) : World F → Event F → World F → Prop :=
  Guarded (Step d) fun _ e => e.isCalcuBalance = false

/-! ## The latches -/

section

variable [F64 F]

/-- Within an epoch the flags of the reallocation and the withdrawals stay up. -/
theorem EpochStep.keeps (h : EpochStep d w e w') :
    (w.sequenceFlag.flagReallocate = true → w'.sequenceFlag.flagReallocate = true) ∧
      (w.sequenceFlag.flagKamino = true → w'.sequenceFlag.flagKamino = true) ∧
      (w.sequenceFlag.flagMarginfi = true → w'.sequenceFlag.flagMarginfi = true) := by
  obtain ⟨hstep, hcalcu⟩ := h
  rw [hstep.handlerStep.sequenceFlag_eq]
  cases hi : e.call.instruction with
  | initializeTreasury a => cases hstep.constraints_eq hi
  | calcuBalance a =>
      rw [Event.isCalcuBalance, hi] at hcalcu
      cases hcalcu
  | _ => simp [Instruction.flagsAfter]

/-- Only the recount raises its flag. -/
theorem Step.calcuBalance_raised (h : Step d w e w')
    (hup : w'.sequenceFlag.flagCalcuBalance = true) :
    w.sequenceFlag.flagCalcuBalance = true ∨ e.isCalcuBalance = true := by
  rw [h.handlerStep.sequenceFlag_eq] at hup
  cases hi : e.call.instruction with
  | initializeTreasury a => cases h.constraints_eq hi
  | calcuBalance a => exact .inr (by rw [Event.isCalcuBalance, hi])
  | _ =>
      rw [hi] at hup
      exact .inl hup

/-- Only the reallocation raises its flag. -/
theorem Step.reallocate_raised (h : Step d w e w') (hup : w'.sequenceFlag.flagReallocate = true) :
    w.sequenceFlag.flagReallocate = true ∨ e.isReallocate = true := by
  rw [h.handlerStep.sequenceFlag_eq] at hup
  cases hi : e.call.instruction with
  | initializeTreasury a => cases h.constraints_eq hi
  | reallocate a r k => exact .inr (by rw [Event.isReallocate, hi])
  | calcuBalance a =>
      rw [hi] at hup
      cases hup
  | _ =>
      rw [hi] at hup
      exact .inl hup

/-- The reallocation finds the flag of the recount up and its own down, and raises it. -/
theorem Step.reallocate_latch (h : Step d w e w') (he : e.isReallocate = true) :
    w.sequenceFlag.flagCalcuBalance = true ∧ w.sequenceFlag.flagReallocate = false ∧
      w'.sequenceFlag.flagReallocate = true := by
  have hflags := h.flagsAdmit
  have hafter := h.handlerStep.sequenceFlag_eq
  cases hi : e.call.instruction with
  | reallocate a r k =>
      rw [hi] at hflags hafter
      exact ⟨hflags.1, hflags.2, by rw [hafter]; rfl⟩
  | _ =>
      rw [Event.isReallocate, hi] at he
      cases he

/-- A withdrawal from Kamino finds the flags of the recount and the reallocation up and its own
down, and raises it. -/
theorem Step.klendWithdraw_latch (h : Step d w e w') (he : e.isKlendWithdraw = true) :
    (w.sequenceFlag.flagCalcuBalance = true ∧ w.sequenceFlag.flagReallocate = true) ∧
      w.sequenceFlag.flagKamino = false ∧ w'.sequenceFlag.flagKamino = true := by
  have hflags := h.flagsAdmit
  have hafter := h.handlerStep.sequenceFlag_eq
  cases hi : e.call.instruction with
  | klendWithdraw a =>
      rw [hi] at hflags hafter
      exact ⟨⟨hflags.1, hflags.2.1⟩, hflags.2.2, by rw [hafter]; rfl⟩
  | _ =>
      rw [Event.isKlendWithdraw, hi] at he
      cases he

/-- A withdrawal from marginfi does the same with its own flag. -/
theorem Step.marginfiWithdraw_latch (h : Step d w e w') (he : e.isMarginfiWithdraw = true) :
    (w.sequenceFlag.flagCalcuBalance = true ∧ w.sequenceFlag.flagReallocate = true) ∧
      w.sequenceFlag.flagMarginfi = false ∧ w'.sequenceFlag.flagMarginfi = true := by
  have hflags := h.flagsAdmit
  have hafter := h.handlerStep.sequenceFlag_eq
  cases hi : e.call.instruction with
  | marginfiWithdraw a =>
      rw [hi] at hflags hafter
      exact ⟨⟨hflags.1, hflags.2.1⟩, hflags.2.2, by rw [hafter]; rfl⟩
  | _ =>
      rw [Event.isMarginfiWithdraw, hi] at he
      cases he

/-- A withdrawal finds the flags of the recount and the reallocation up. -/
theorem Step.withdrawal_admitted (h : Step d w e w') (he : e.isWithdrawal = true) :
    w.sequenceFlag.flagCalcuBalance = true ∧ w.sequenceFlag.flagReallocate = true := by
  rcases (Bool.or_eq_true _ _).mp he with hk | hm
  · exact (h.klendWithdraw_latch hk).1
  · exact (h.marginfiWithdraw_latch hm).1

/-- The recount lowers the flag of the reallocation. -/
theorem Step.calcuBalance_lowers (h : Step d w e w') (he : e.isCalcuBalance = true) :
    w'.sequenceFlag.flagReallocate = false := by
  rw [h.handlerStep.sequenceFlag_eq]
  cases hi : e.call.instruction with
  | calcuBalance a => rfl
  | _ =>
      rw [Event.isCalcuBalance, hi] at he
      cases he

/-! ## The order within an epoch -/

omit [F64 F] in
/-- What is accepted between two recounts: one reallocation at most, and after it one withdrawal at
most from each of the two platforms. -/
structure EpochOrder (es : List (Event F)) : Prop where
  reallocate : es.countP Event.isReallocate ≤ 1
  klendWithdraw : es.countP Event.isKlendWithdraw ≤ 1
  marginfiWithdraw : es.countP Event.isMarginfiWithdraw ≤ 1
  after_reallocate : ∀ p e q, es = p ++ e :: q → e.isWithdrawal = true →
    ∃ r ∈ p, r.isReallocate = true

/-- A run within an epoch that found the flag of the reallocation down keeps the order. -/
theorem Run.epochOrder (hrun : Run (EpochStep d) w es w')
    (hdown : w.sequenceFlag.flagReallocate = false) : EpochOrder es where
  reallocate := hrun.countP_le_one (fun v => v.sequenceFlag.flagReallocate)
    (fun _ _ _ h => h.keeps.1) fun _ _ _ h he => (h.1.reallocate_latch he).2
  klendWithdraw := hrun.countP_le_one (fun v => v.sequenceFlag.flagKamino)
    (fun _ _ _ h => h.keeps.2.1) fun _ _ _ h he => (h.1.klendWithdraw_latch he).2
  marginfiWithdraw := hrun.countP_le_one (fun v => v.sequenceFlag.flagMarginfi)
    (fun _ _ _ h => h.keeps.2.2) fun _ _ _ h he => (h.1.marginfiWithdraw_latch he).2
  after_reallocate := by
    rintro p e q rfl he
    obtain ⟨a, b, hp, hstep, -⟩ := hrun.step_of_append
    exact hp.exists_raised (fun v => v.sequenceFlag.flagReallocate)
      (fun _ _ _ h => h.1.reallocate_raised) hdown (hstep.1.withdrawal_admitted he).2

/-- In every run from the flags that `initialize` writes, `reallocate` and the two withdrawals come
after a first `calcu_balance`, and each stretch between two of those is in order. -/
theorem epoch_order (hrun : Run (Step d) w es w')
    (hinit : w.sequenceFlag = Initialize.sequenceFlag) :
    (∀ p e q, es = p ++ e :: q → (e.isReallocate || e.isWithdrawal) = true →
      ∃ c ∈ p, c.isCalcuBalance = true) ∧
    ∀ p c seg q, es = p ++ c :: (seg ++ q) → c.isCalcuBalance = true →
      (∀ e ∈ seg, e.isCalcuBalance = false) → EpochOrder seg := by
  constructor
  · rintro p e q rfl he
    obtain ⟨a, b, hp, hstep, -⟩ := hrun.step_of_append
    have hup : a.sequenceFlag.flagCalcuBalance = true := by
      rcases (Bool.or_eq_true _ _).mp he with hr | hw
      · exact (hstep.reallocate_latch hr).1
      · exact (hstep.withdrawal_admitted hw).1
    have hdown : w.sequenceFlag.flagCalcuBalance = false := by rw [hinit]; rfl
    exact hp.exists_raised (fun v => v.sequenceFlag.flagCalcuBalance)
      (fun _ _ _ h => h.calcuBalance_raised) hdown hup
  · rintro p c seg q rfl hc hseg
    obtain ⟨a, b, -, hstep, hrest⟩ := hrun.step_of_append
    obtain ⟨v, hepoch, -⟩ := hrest.split
    exact Run.epochOrder (hepoch.guard fun e he _ => hseg e he) (hstep.calcuBalance_lowers hc)

end

/-- The four calls of a cycle that gets stuck are in order. -/
theorem epoch_order_withdrawals : ∃ es : List (Event ℚ), es.map Event.call = withdrawals ∧
    (∀ p e q, es = p ++ e :: q → (e.isReallocate || e.isWithdrawal) = true →
      ∃ c ∈ p, c.isCalcuBalance = true) ∧
    ∀ p c seg q, es = p ++ c :: (seg ++ q) → c.isCalcuBalance = true →
      (∀ e ∈ seg, e.isCalcuBalance = false) → EpochOrder seg := by
  obtain ⟨es, w, hrun, hcalls, -⟩ := exists_run_of_replay
    (fun c w => c.process (smallDeployment .release) w) (Initialize.world ⟨7⟩ lendingLedger)
    withdrawals (fun _ _ => true) (by decide +kernel)
  exact ⟨es, hcalls, epoch_order hrun rfl⟩

/-! ## Lending again -/

/-- The three instructions that lend. -/
inductive Lending where
  | klend
  | marginfi
  | meteora
  deriving DecidableEq

/-- `i` is an instruction of this kind. -/
def Lending.Is (k : Lending) (i : Instruction F) : Prop :=
  match k, i with
  | .klend, .klendLend _ => True
  | .marginfi, .marginfiLend _ => True
  | .meteora, .meteoraDeposit _ _ _ _ => True
  | _, _ => False

def CpiInstruction.klendDeposited : CpiInstruction → ℕ
  | .depositReserveLiquidityAndObligationCollateral _ amount => amount.toNat
  | _ => 0

def CpiInstruction.marginfiDeposited : CpiInstruction → ℕ
  | .lendingAccountDeposit _ amount => amount.toNat
  | _ => 0

def klendDeposited (es : List (Event F)) : ℕ :=
  (es.map fun e => ((e.trace.filter CpiRecord.ok).map fun r =>
    r.cpi.instruction.klendDeposited).sum).sum

def marginfiDeposited (es : List (Event F)) : ℕ :=
  (es.map fun e => ((e.trace.filter CpiRecord.ok).map fun r =>
    r.cpi.instruction.marginfiDeposited).sum).sum

/-- Each allocation of `t` is lent at most once. `value` is the number an `f64` stands for. -/
structure LentOnce (value : F → ℚ) (t : Treasury F) (es : List (Event F)) : Prop where
  klend : es.countP Event.isKlendLend ≤ 1
  marginfi : es.countP Event.isMarginfiLend ≤ 1
  meteora : es.countP Event.isMeteoraDeposit ≤ 1
  klendTotal : klendDeposited es ≤ ⌊value t.kaminoAllocation * value t.treasuryValue * 10 ^ 6⌋₊
  marginfiTotal : marginfiDeposited es
    ≤ ⌊value t.marginfiAllocation * value t.treasuryValue * 10 ^ 6⌋₊

/-- In every run without a recount from the flags `s` and the treasury `t`, each allocation is lent
at most once. -/
def LendsOnce [F64 F] (value : F → ℚ) (d : Deployment) (s : SequenceFlag) (t : Treasury F) : Prop :=
  ∀ (w w' : World F) (es : List (Event F)), w.sequenceFlag = s → w.treasury = t →
    Run (EpochStep d) w es w' → LentOnce value t es

section

variable [F64 F]

/-- A world with the flags `s` and the treasury `t`. -/
def lendingWorld (s : SequenceFlag) (t : Treasury F) : World F where
  treasury := t
  sequenceFlag := s
  stakeAccounts _ := none
  escrows _ := none
  ledger := lendingLedger

/-- A call that lends: `klend_lend` of USDC signed by the admin, or one of the other two, which name
the authority as their signer. Every CPI succeeds. -/
def lendCall (d : Deployment) (t : Treasury F) : Lending → Call F
  | .klend =>
    { env := { lendingEnv with signers := [t.treasuryAdmin] }
      instruction := .klendLend
        { signer := t.treasuryAdmin
          obligation := ⟨31, ⟨30, d.treasuryAuthority⟩⟩
          lendingMarket := 30
          lendingMarketAuthority := 36
          reserve := ⟨32, ⟨30, usdcMint, 33, 34, 35⟩⟩
          reserveLiquiditySupply := 33
          reserveCollateralMint := 34
          reserveDestinationDepositCollateral := 35
          userSourceLiquidity := 12
          userDestinationCollateral := 17 } }
  | .marginfi =>
    { env := { lendingEnv with signers := [d.treasuryAuthority] }
      instruction := .marginfiLend
        { signer := d.treasuryAuthority
          marginfiGroup := 40
          marginfiAccount := ⟨41, ⟨40, d.treasuryAuthority⟩⟩
          bank := ⟨42, 40⟩
          userLiquidity := 12
          bankLiquidityVault := 43 } }
  | .meteora =>
    { env := { lendingEnv with signers := [d.treasuryAuthority] }
      instruction := .meteoraDeposit
        { signer := d.treasuryAuthority
          accounts :=
            { pool := 50
              lpMint := 51
              userPoolLp := 52
              aVaultLp := 53
              bVaultLp := 54
              aVault := 55
              bVault := 56
              aVaultLpMint := 57
              bVaultLpMint := 58
              aTokenVault := 59
              bTokenVault := 60
              userAToken := 12
              userBToken := 16
              user := d.treasuryAuthority
              vaultProgram := 61 }
          dynamicAmmProgram := dynamicAmmId } 1 1 1 }

omit [F64 F] in
theorem Lending.is_lendCall (d : Deployment) (t : Treasury F) (k : Lending) :
    k.Is (lendCall d t k).instruction := by
  cases k <;> trivial

omit [F64 F] in
theorem Lending.flagsAdmit_iff {k k' : Lending} {i i' : Instruction F} (hk : k.Is i)
    (hk' : k'.Is i') (s : SequenceFlag) : i.FlagsAdmit s ↔ i'.FlagsAdmit s := by
  have hlendable : ∀ {k : Lending} {i : Instruction F}, k.Is i →
      (i.FlagsAdmit s ↔ requireLendable s = .ok ()) := by
    intro k i h
    rw [requireLendable_eq_ok]
    cases k <;> cases i <;> first | exact Iff.rfl | cases h
  rw [hlendable hk, hlendable hk']

/-- Where the flags admit such a call, it is accepted and leads back to where it started. -/
theorem lend_again {s : SequenceFlag} (d : Deployment) (t : Treasury F) (k : Lending)
    (h : (lendCall d t k).instruction.FlagsAdmit s) :
    ∃ trace, EpochStep d (lendingWorld s t) ⟨lendCall d t k, trace⟩ (lendingWorld s t) := by
  have hlendable : requireLendable s = .ok () := by
    rw [requireLendable_eq_ok]
    cases k <;> exact h
  have husdc : lendingLedger.tokenAccount 12 = some ⟨usdcMint, 9, 5000000⟩ := rfl
  have hcollateral : lendingLedger.tokenAccount 17 = some ⟨34, 9, 0⟩ := rfl
  cases k with
  | klend =>
      refine ⟨[⟨_, true⟩], step_iff.mpr ⟨?_, rfl⟩, rfl⟩
      simp [lendCall, Instruction.constraints, KaminoLend.constraints, klendConstraints,
        requireTokenMint, lendingWorld, hlendable, husdc, hcollateral]
  | marginfi =>
      refine ⟨[⟨_, true⟩], step_iff.mpr ⟨?_, rfl⟩, rfl⟩
      simp [lendCall, Instruction.constraints, MarginfiLend.constraints, marginfiConstraints,
        lendingWorld, hlendable, husdc, okOr]
  | meteora =>
      refine ⟨[⟨_, true⟩], step_iff.mpr ⟨?_, rfl⟩, rfl⟩
      simp [lendCall, Instruction.constraints, MeteoraLiquidity.constraints, lendingWorld,
        hlendable]

theorem lend_any_number {s : SequenceFlag} (d : Deployment) (t : Treasury F) (k : Lending)
    (h : (lendCall d t k).instruction.FlagsAdmit s) (n : ℕ) :
    ∃ e : Event F, k.Is e.call.instruction ∧
      Run (EpochStep d) (lendingWorld s t) (.replicate n e) (lendingWorld s t) := by
  obtain ⟨trace, hstep⟩ := lend_again d t k h
  exact ⟨⟨lendCall d t k, trace⟩, Lending.is_lendCall d t k, Run.replicate hstep n⟩

/-- Where the flags admit one of the three, no allocation is bound to be lent only once. -/
theorem lends_once_never (value : F → ℚ) (d : Deployment) (s : SequenceFlag) (t : Treasury F)
    (k : Lending) (i : Instruction F) (hk : k.Is i) (h : i.FlagsAdmit s) :
    ¬ LendsOnce value d s t := by
  intro honce
  have hflags : (lendCall d t .klend).instruction.FlagsAdmit s :=
    (Lending.flagsAdmit_iff hk (Lending.is_lendCall d t .klend) s).mp h
  obtain ⟨e, he, hrun⟩ := lend_any_number d t .klend hflags 2
  have hle := (honce _ _ _ rfl rfl hrun).klend
  have hlend : e.isKlendLend = true := by
    cases hi : e.call.instruction with
    | klendLend a => rw [Event.isKlendLend, hi]
    | _ =>
        rw [hi] at he
        cases he
  rw [List.countP_replicate, if_pos hlend] at hle
  omega

end

/-! ### Half the treasury, twice -/

/-- Lending platforms on top of `spl`: a deposit goes to the vault the accounts name, a redemption
comes from it. -/
def platforms (n : ℕ) (c : Cpi) (l : Ledger) : Except CpiError Ledger :=
  match c.instruction with
  | .depositReserveLiquidityAndObligationCollateral a amount =>
      splTransfer a.userSourceLiquidity a.reserveLiquiditySupply a.owner amount l
  | .withdrawObligationCollateralAndRedeemReserveCollateral a amount =>
      splTransfer a.reserveLiquiditySupply a.userDestinationLiquidity a.lendingMarketAuthority
        amount l
  | .lendingAccountDeposit a amount =>
      splTransfer a.signerTokenAccount a.bankLiquidityVault a.signer amount l
  | .lendingAccountWithdraw a amount _ =>
      splTransfer a.bankLiquidityVault a.destinationTokenAccount a.bankLiquidityVaultAuthority
        amount l
  | _ => spl n c l

/-- A treasury worth a thousand dollars, of which half is allocated to Kamino. -/
def halfToKamino : Treasury ℚ :=
  { smallTreasury with
    treasuryAdmin := 7
    kaminoAllocation := 1 / 2 }

/-- All flags of a cycle are set, the treasury holds two thousand dollars in `12`, and `33` is the
vault of the reserve. -/
def halfToKaminoWorld : World ℚ where
  treasury := halfToKamino
  sequenceFlag := ⟨true, true, true, true, true, false, false⟩
  stakeAccounts _ := none
  escrows _ := none
  ledger := (lendingLedger.setTokenAccount 12 ⟨usdcMint, 9, 2000000000⟩).setTokenAccount 33
    ⟨usdcMint, 36, 0⟩

/-- The admin lends on `platforms`. -/
def klendLendOnce : Call ℚ :=
  let call := lendCall (smallDeployment .release) halfToKamino .klend
  { call with env := { call.env with cpi := platforms } }

/-- Nor with all flags set and half of a thousand dollars allocated. -/
theorem lends_once_never_half :
    ¬ LendsOnce id (smallDeployment .release) ⟨true, true, true, true, true, false, false⟩
      halfToKamino :=
  lends_once_never _ _ _ _ .klend
    (lendCall (smallDeployment .release) halfToKamino .klend).instruction trivial
    ⟨rfl, rfl, rfl, rfl, rfl⟩

/-- The half is lent twice. -/
theorem half_lent_twice : ∃ (es : List (Event ℚ)) (w : World ℚ),
    Run (EpochStep (smallDeployment .release)) halfToKaminoWorld es w ∧
      es.map Event.call = [klendLendOnce, klendLendOnce] ∧
      klendDeposited es = 1000000000 ∧ ¬ LentOnce id halfToKamino es := by
  obtain ⟨es, w, hrun, hcalls, hp⟩ := exists_run_of_replay
    (fun c w => c.process (smallDeployment .release) w) halfToKaminoWorld
    [klendLendOnce, klendLendOnce]
    (fun es _ => es.all (fun e => !e.isCalcuBalance) && decide (klendDeposited es = 1000000000) &&
      decide (es.countP Event.isKlendLend = 2))
    (by decide +kernel)
  simp only [Bool.and_eq_true, List.all_eq_true, Bool.not_eq_true', decide_eq_true_eq] at hp
  obtain ⟨⟨hcalcu, hdeposited⟩, htwice⟩ := hp
  refine ⟨es, w, hrun.guard fun e he _ => hcalcu e he, hcalls, hdeposited, ?_⟩
  intro honce
  have hle := honce.klend
  omega

end Saturn
