import Saturn.Transition.Run
import Saturn.Instructions.Bond
import Saturn.Instructions.Swap
import Saturn.Instructions.Valuation

/-!
# The program

`Instruction` collects the entry points of `lib.rs`. A call first checks the constraints of its
account context and then runs the handler; `process` is both, `perform` the handler alone. A call
that fails changes nothing, so the steps of the program are the calls that return `Ok`: `Step` for
`process`, and `HandlerStep` where account and signature constraints are taken as satisfied.

The last part says which of the program's accounts an instruction can change.
-/

namespace Saturn

open Machine Transition

variable {F : Type} [F64 F]

inductive Instruction (F : Type) where
  | initializeTreasury (a : Initialize)
  | applyBond (a : ApplyBond) (args : ApplyBondArgs)
  | finishBond (a : FinishBond)
  | stakeSTF (a : StakeSTF) (amountToStake : UInt64)
  | unstakeSTF (a : UnStakeSTF) (amountToUnstake : UInt64)
  | swap (a : Swap) (data : List UInt8) (fromAmount : UInt64)
  | meteoraDeposit (a : MeteoraLiquidity)
      (poolTokenAmount maximumTokenAAmount maximumTokenBAmount : UInt64)
  | meteoraWithdraw (a : MeteoraLiquidity)
      (poolTokenAmount maximumTokenAAmount maximumTokenBAmount : UInt64)
  | initLendingAccounts (a : InitLendingAccount)
  | klendLend (a : KaminoLend)
  | klendWithdraw (a : KlendWithdraw)
  | marginfiLend (a : MarginfiLend)
  | marginfiWithdraw (a : MarginfiWithdraw)
  | getValueInMeteora (a : GetValueInMeteora)
  | getValueInKamino (a : GetValueInKamino)
  | getValueInMarginfi (a : GetValueInMarginFi)
  | calcuBalance (a : CalcuBalance)
  | reallocate (a : ReAllocate) (returnRate riskRating : Vector F 7)
  | cashingoutReedem (a : CashingoutReedem) (amount : UInt64)

namespace Instruction

omit [F64 F] in
/-- The constraints of the account context. The treasury exists already, so `initialize` fails. -/
def constraints (d : Deployment) (env : Env) (w : World F) : Instruction F → Except Failure Unit
  | initializeTreasury _ => .error (.anchor .accountAlreadyInUse)
  | applyBond a _ => a.constraints d env w
  | finishBond a => a.constraints env w
  | stakeSTF a _ => a.constraints d env w
  | unstakeSTF a _ => a.constraints d env w
  | swap a _ _ => a.constraints env w
  | meteoraDeposit a _ _ _ => a.constraints d env w
  | meteoraWithdraw a _ _ _ => a.constraints d env w
  | initLendingAccounts a => a.constraints env w
  | klendLend a => a.constraints d env w
  | klendWithdraw a => a.constraints d env w
  | marginfiLend a => a.constraints d env w
  | marginfiWithdraw a => a.constraints d env w
  | getValueInMeteora a => a.constraints d env w
  | getValueInKamino a => a.constraints d env w
  | getValueInMarginfi a => a.constraints d env w
  | calcuBalance a => a.constraints d env w
  | reallocate a _ _ => a.constraints env w
  | cashingoutReedem a _ => a.constraints d env w

/-- The handler, without the values some handlers return. -/
def handle (d : Deployment) (env : Env) (x : Exec F) : Instruction F → Except Failure (Exec F)
  | initializeTreasury a => return a.handle x
  | applyBond a args => a.handle d env args x
  | finishBond a => a.handle d env x
  | stakeSTF a amountToStake => a.handle d env amountToStake x
  | unstakeSTF a amountToUnstake => a.handle d env amountToUnstake x
  | swap a data fromAmount => a.handle d env data fromAmount x
  | meteoraDeposit a n m k => MeteoraDeposit.handle a env n m k x
  | meteoraWithdraw a n m k => MeteoraWithdraw.handle a env n m k x
  | initLendingAccounts a => a.handle d env x
  | klendLend a => a.handle d env x
  | klendWithdraw a => a.handle d env x
  | marginfiLend a => a.handle d env x
  | marginfiWithdraw a => a.handle d env x
  | getValueInMeteora a => do
      let _ ← a.handle d env x
      return x
  | getValueInKamino a => do return (← a.handle d env x).2
  | getValueInMarginfi a => do return (← a.handle d env x).2
  | calcuBalance a => a.handle d env x
  | reallocate _ returnRate riskRating => ReAllocate.handle d returnRate riskRating x
  | cashingoutReedem a amount => a.handle d env amount x

end Instruction

/-! ## Calls and steps -/

/-- A call, with what it is given from outside the program. -/
structure Call (F : Type) where
  env : Env
  instruction : Instruction F

/-- The handler of a call, run on a world. -/
def Call.perform (c : Call F) (d : Deployment) (w : World F) : Except Failure (Exec F) :=
  c.instruction.handle d c.env (.start w)

/-- A call: the constraints, then the handler. -/
def Call.process (c : Call F) (d : Deployment) (w : World F) : Except Failure (Exec F) := do
  c.instruction.constraints d c.env w
  c.perform d w

/-- An accepted call and the CPIs it made. -/
structure Event (F : Type) where
  call : Call F
  trace : List CpiRecord

/-- `e` is accepted in `w` and leads to `w'`. -/
def Step (d : Deployment) (w : World F) (e : Event F) (w' : World F) : Prop :=
  e.call.process d w = .ok ⟨w', e.trace⟩

/-- The handler of `e` returns `Ok` in `w` and leads to `w'`. -/
def HandlerStep (d : Deployment) (w : World F) (e : Event F) (w' : World F) : Prop :=
  e.call.perform d w = .ok ⟨w', e.trace⟩

variable {d : Deployment} {env : Env} {i : Instruction F} {x y z : Exec F} {w w' : World F}
  {e : Event F}

theorem step_iff : Step d w e w' ↔
    e.call.instruction.constraints d e.call.env w = .ok () ∧ HandlerStep d w e w' := by
  simp only [Step, HandlerStep, Call.process, bind_eq_ok]
  constructor
  · rintro ⟨_, hc, hh⟩
    exact ⟨hc, hh⟩
  · rintro ⟨hc, hh⟩
    exact ⟨(), hc, hh⟩

theorem Step.handlerStep (h : Step d w e w') : HandlerStep d w e w' := (step_iff.mp h).2

/-- The constraints of the instruction held. -/
theorem Step.constraints_eq (h : Step d w e w') (hi : e.call.instruction = i) :
    i.constraints d e.call.env w = .ok () := by
  rw [← hi]
  exact (step_iff.mp h).1

/-- The handler of the instruction returned `Ok`. -/
theorem HandlerStep.handle_eq (h : HandlerStep d w e w') (hi : e.call.instruction = i) :
    i.handle d e.call.env (.start w) = .ok ⟨w', e.trace⟩ := by
  rw [← hi]
  exact h

/-! ## Replaying calls

A list of calls determines the run it makes, if all of them are accepted. -/

/-- The events and the last world of a list of calls, if `perform` accepts them all. -/
def replay (perform : Call F → World F → Except Failure (Exec F)) :
    World F → List (Call F) → Option (List (Event F) × World F)
  | w, [] => some ([], w)
  | w, c :: cs =>
      match perform c w with
      | .ok x => (replay perform x.world cs).map fun r => (⟨c, x.trace⟩ :: r.1, r.2)
      | .error _ => none

omit [F64 F] in
theorem run_of_replay {perform : Call F → World F → Except Failure (Exec F)} {cs : List (Call F)}
    {es : List (Event F)} (h : replay perform w cs = some (es, w')) :
    Run (fun w e w' => perform e.call w = .ok ⟨w', e.trace⟩) w es w' ∧ es.map Event.call = cs := by
  induction cs generalizing w es with
  | nil =>
      cases h
      exact ⟨.nil, rfl⟩
  | cons c cs ih =>
      rw [replay] at h
      split at h
      · next x hx =>
        rw [Option.map_eq_some_iff] at h
        obtain ⟨⟨es', v⟩, hrest, heq⟩ := h
        cases heq
        obtain ⟨hrun, hcalls⟩ := ih hrest
        exact ⟨.cons hx hrun, by rw [List.map_cons, hcalls]⟩
      · cases h

omit [F64 F] in
theorem exists_run_of_replay (perform : Call F → World F → Except Failure (Exec F)) (w : World F)
    (cs : List (Call F)) (p : List (Event F) → World F → Bool)
    (h : (replay perform w cs).any (fun r => p r.1 r.2) = true) :
    ∃ es w', Run (fun w e w' => perform e.call w = .ok ⟨w', e.trace⟩) w es w' ∧
      es.map Event.call = cs ∧ p es w' = true := by
  rw [Option.any_eq_true_iff_get] at h
  obtain ⟨hsome, hp⟩ := h
  obtain ⟨hrun, hcalls⟩ := run_of_replay (Option.some_get hsome).symm
  exact ⟨_, _, hrun, hcalls, hp⟩

/-! ### A small world

User `1` holds USDC in account `11` and STF in account `14`; the treasury, whose authority is `9`,
holds USDC in `12` and STF in `13`. Ten tokens are backed by a value of a thousand, and one unit is
staked. -/

def smallDeployment (p : Profile) : Deployment := ⟨p, 9, fun mint => (mint, 0)⟩

def smallTreasury : Treasury ℚ :=
  { (Treasury.default : Treasury ℚ) with
    stakingIndex := 1
    treasuryValue := 1000
    tokenMinted := 10
    tokenStaked := 1 }

def smallLedger : Ledger where
  data k :=
    if k = 11 then .tokenAccount ⟨usdcMint, 1, 1000000000⟩
    else if k = 12 then .tokenAccount ⟨usdcMint, 9, 0⟩
    else if k = 13 then .tokenAccount ⟨stfMint, 9, 1⟩
    else if k = 14 then .tokenAccount ⟨stfMint, 1, 0⟩
    else .empty
  lamports _ := 0

def smallWorld : World ℚ where
  treasury := smallTreasury
  sequenceFlag := Initialize.sequenceFlag
  stakeAccounts _ := none
  escrows _ := none
  ledger := smallLedger

/-- The accounts with which user `1` buys a bond for USDC. -/
def usdcBuyer : ApplyBond where
  creator := 1
  creatorTokenAccount := 11
  treasuryTokenAccount := 12
  treasuryStfTokenAccount := 13
  solPriceUpdate := 0
  usdcPriceUpdate := 0
  bonkPriceUpdate := 0
  tokenMintAddress := usdcMint
  stfTokenMint := stfMint

/-- User `1` buys a bond for USDC, at time `t` and a USDC price of `price`. -/
def usdcBond (t : Int64) (price : Int64) (tokenAmount spotPrice : UInt64) : Call ℚ where
  env := splEnv t [1] fun _ => some ⟨price, 0, 0⟩
  instruction := .applyBond usdcBuyer ⟨tokenAmount, spotPrice⟩

/-- User `1` finishes a bond at time `t`. -/
def stfFinish (t : Int64) : Call ℚ where
  env := splEnv t [1] fun _ => none
  instruction := .finishBond { user := 1, destStfAccount := 14, stfTokenMint := stfMint }

/-! ## What an instruction can change -/

/-- The accounts of the program. -/
inductive Part where
  | treasury
  | sequenceFlag
  | stakeAccounts
  | escrows
  deriving DecidableEq

/-- Accounts outside `ps` are the same in `y` as in `x`. -/
structure Frame (ps : List Part) (x y : Exec F) : Prop where
  treasury : .treasury ∉ ps → y.world.treasury = x.world.treasury
  sequenceFlag : .sequenceFlag ∉ ps → y.world.sequenceFlag = x.world.sequenceFlag
  stakeAccounts : .stakeAccounts ∉ ps → y.world.stakeAccounts = x.world.stakeAccounts
  escrows : .escrows ∉ ps → y.world.escrows = x.world.escrows

namespace Frame

variable {ps qs : List Part}

omit [F64 F] in
theorem trans (h : Frame ps x y) (h' : Frame qs y z) : Frame (ps ++ qs) x z where
  treasury hp := by
    rw [List.mem_append, not_or] at hp
    rw [h'.treasury hp.2, h.treasury hp.1]
  sequenceFlag hp := by
    rw [List.mem_append, not_or] at hp
    rw [h'.sequenceFlag hp.2, h.sequenceFlag hp.1]
  stakeAccounts hp := by
    rw [List.mem_append, not_or] at hp
    rw [h'.stakeAccounts hp.2, h.stakeAccounts hp.1]
  escrows hp := by
    rw [List.mem_append, not_or] at hp
    rw [h'.escrows hp.2, h.escrows hp.1]

omit [F64 F] in
theorem setTreasury (t : Treasury F) : Frame [.treasury] x (x.setTreasury t) := by
  constructor <;> simp

omit [F64 F] in
theorem setSequenceFlag (s : SequenceFlag) :
    Frame [.sequenceFlag] x (x.setSequenceFlag s) := by
  constructor <;> simp

omit [F64 F] in
theorem of_invoked (h : x.Invoked y) : Frame [] x y := by
  obtain ⟨l, t, rfl, -⟩ := h
  constructor <;> simp

omit [F64 F] in
theorem invokeIgnore (env : Env) (c : Cpi) : Frame [] x (x.invokeIgnore env c) := by
  rcases x.invokeIgnore_cases env c with ⟨l, -, h⟩ | ⟨-, h⟩
  all_goals
    rw [h]
    constructor <;> simp

end Frame

namespace Instruction

omit [F64 F] in
def writes : Instruction F → List Part
  | initializeTreasury _ => [.treasury, .sequenceFlag]
  | applyBond _ _ => [.treasury, .escrows]
  | finishBond _ => [.escrows]
  | stakeSTF _ _ | unstakeSTF _ _ => [.stakeAccounts, .treasury]
  | klendWithdraw _ | marginfiWithdraw _ => [.sequenceFlag]
  | getValueInKamino _ | getValueInMarginfi _ | cashingoutReedem _ _ => [.treasury]
  | calcuBalance _ | reallocate _ _ _ => [.treasury, .sequenceFlag]
  | swap _ _ _ | meteoraDeposit _ _ _ _ | meteoraWithdraw _ _ _ _ | initLendingAccounts _
  | klendLend _ | marginfiLend _ | getValueInMeteora _ => []

theorem handle_frame (h : i.handle d env x = .ok y) : Frame i.writes x y := by
  cases i with
  | initializeTreasury a =>
      cases h
      exact (Frame.setTreasury _).trans (.setSequenceFlag _)
  | applyBond a args =>
      obtain ⟨s, -, rfl⟩ := ApplyBond.handle_eq_ok.mp h
      constructor <;> simp [writes]
  | finishBond a =>
      obtain ⟨e, l, -, -, -, -, -, rfl⟩ := FinishBond.handle_eq_ok.mp h
      constructor <;> simp [writes]
  | stakeSTF a n =>
      obtain ⟨l, -, -, -, -, rfl⟩ := StakeSTF.handle_eq_ok.mp h
      constructor <;> simp [writes]
  | unstakeSTF a n =>
      obtain ⟨-, -, -, rfl⟩ := UnStakeSTF.handle_eq_ok.mp h
      have hset : Frame [.stakeAccounts, .treasury] x (a.debited n x) := by
        constructor <;> simp
      exact hset.trans (.invokeIgnore _ _)
  | swap a data n => exact .of_invoked (Swap.handle_invoked h)
  | meteoraDeposit a n m k => exact .of_invoked (.of_invoke h)
  | meteoraWithdraw a n m k => exact .of_invoked (.of_invoke h)
  | initLendingAccounts a => exact .of_invoked (InitLendingAccount.handle_invoked h)
  | klendLend a => exact .of_invoked (.of_invoke h)
  | klendWithdraw a =>
      obtain ⟨z, hz, rfl⟩ := KlendWithdraw.handle_eq_ok.mp h
      exact (Frame.of_invoked (.of_invoke hz)).trans (.setSequenceFlag _)
  | marginfiLend a =>
      cases h
      exact .invokeIgnore _ _
  | marginfiWithdraw a =>
      cases h
      exact (Frame.invokeIgnore _ _).trans (.setSequenceFlag _)
  | getValueInMeteora a =>
      simp only [handle, bind_eq_ok, pure_eq_ok] at h
      obtain ⟨_, -, rfl⟩ := h
      exact .of_invoked (.refl x)
  | getValueInKamino a =>
      simp only [handle, bind_eq_ok, pure_eq_ok] at h
      obtain ⟨⟨v, z⟩, h, rfl⟩ := h
      obtain ⟨r, -, -, rfl⟩ := GetValueInKamino.handle_eq_ok.mp h
      exact .setTreasury _
  | getValueInMarginfi a =>
      simp only [handle, bind_eq_ok, pure_eq_ok] at h
      obtain ⟨⟨v, z⟩, h, rfl⟩ := h
      obtain ⟨r, -, -, rfl⟩ := GetValueInMarginFi.handle_eq_ok.mp h
      exact .setTreasury _
  | calcuBalance a =>
      obtain ⟨r, -, rfl⟩ := CalcuBalance.handle_eq_ok.mp h
      exact (Frame.setTreasury _).trans (.setSequenceFlag _)
  | reallocate a r k =>
      obtain ⟨l, -, q₀, q₁, q₂, q₃, q₄, q₅, q₆, -, -, -, -, -, -, -, rfl⟩ :=
        ReAllocate.handle_eq_ok h
      exact (Frame.setTreasury _).trans (.setSequenceFlag _)
  | cashingoutReedem a n =>
      obtain ⟨e, l, l', -, -, -, -, -, -, rfl⟩ := CashingoutReedem.handle_eq_ok.mp h
      constructor <;> simp [writes]

end Instruction

end Saturn
