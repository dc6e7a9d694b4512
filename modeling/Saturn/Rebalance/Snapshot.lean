import Saturn.Rebalance.Position
import Saturn.Bond.Recount

/-!
# The snapshot a reallocation works on

A recount writes `treasury_value` as the sum of seven parts. Between it and the reallocation users
may buy bonds and cash out, which move the total and no part, and the two lending positions may be
revalued, which moves a part and not the total; none of these lowers `flag_calcu_balance`. The total
less the parts that only a recount writes is a quantity each step changes by an amount its event
shows, so what has to cancel for the snapshot to hold can be read off the history since the recount
(`snapshot_iff`).
-/

namespace Saturn

open Machine Transition

variable {d : Deployment} {w w' : World ℚ} {e : Event ℚ} {es : List (Event ℚ)}

/-! ## The snapshot -/

/-- The two parts that the valuations write. -/
def Treasury.lent (t : Treasury ℚ) : ℚ := t.marginfiLendValue + t.kaminoLendValue

/-- The parts that only a recount writes, if anything does. -/
def Treasury.counted (t : Treasury ℚ) : ℚ :=
  t.meteoraDepositValue + t.jupiterPerpsValue + t.solValue + t.usdcValue + t.wbtcValue

/-- The total is the sum of its parts. -/
def Snapshot (w : World ℚ) : Prop :=
  w.treasury.treasuryValue = w.treasury.marginfiLendValue + w.treasury.kaminoLendValue
    + w.treasury.meteoraDepositValue + w.treasury.jupiterPerpsValue + w.treasury.solValue
    + w.treasury.usdcValue + w.treasury.wbtcValue

instance (w : World ℚ) : Decidable (Snapshot w) := by
  unfold Snapshot
  infer_instance

/-- The total less the parts that only a recount writes. -/
def World.uncounted (w : World ℚ) : ℚ := w.treasury.treasuryValue - w.treasury.counted

theorem snapshot_iff_uncounted : Snapshot w ↔ w.uncounted = w.treasury.lent := by
  rw [Snapshot, World.uncounted, Treasury.counted, Treasury.lent, sub_eq_iff_eq_add]
  ring_nf

/-! ## What moves the total -/

/-- The total price of a bond. -/
def Event.bondValue (e : Event ℚ) : ℚ :=
  match e.call.instruction with
  | .applyBond a args =>
      match (Collateral.ofMint a.tokenMintAddress).bind fun c =>
        e.call.env.getPriceNoOlderThan (a.priceUpdate c) 30 c.feedId with
      | some price => (price.price * args.tokenAmount.toInt64).toInt
      | none => 0
  | _ => 0

def CpiInstruction.transferred : CpiInstruction → ℕ
  | .transfer _ _ _ amount => amount.toNat
  | _ => 0

/-- What a cash-out paid to the user and to the fee wallet. -/
def Event.paidOut (e : Event ℚ) : ℚ :=
  match e.call.instruction with
  | .cashingoutReedem _ _ => ((e.trace.map fun r => r.cpi.instruction.transferred).sum : ℕ)
  | _ => 0

theorem HandlerStep.uncounted_bond {a : ApplyBond} {args : ApplyBondArgs}
    (h : HandlerStep d w e w') (hi : e.call.instruction = .applyBond a args) :
    w'.uncounted = w.uncounted + e.bondValue := by
  obtain ⟨s, hs, ht⟩ := h.applyBond hi
  have hvalue := treasuryValue_of_bond (h.handle_eq hi) hs.collateral hs.price
  have hcounted : w'.treasury.counted = w.treasury.counted := by rw [ht]; rfl
  have hbond : e.bondValue = ((s.price.price * args.tokenAmount.toInt64).toInt : ℚ) := by
    simp only [Event.bondValue, hi, hs.collateral, Option.bind_some, hs.price]
  have hvalue' : w'.treasury.treasuryValue = w.treasury.treasuryValue + e.bondValue :=
    hvalue.trans (by rw [hbond]; rfl)
  rw [World.uncounted, World.uncounted, hcounted, hvalue']
  ring

theorem HandlerStep.uncounted_cashout {a : CashingoutReedem} {n : UInt64}
    (h : HandlerStep d w e w') (hi : e.call.instruction = .cashingoutReedem a n) :
    w'.uncounted = w.uncounted - e.paidOut := by
  have hpaid : e.paidOut = (CashingoutReedem.reedem w.treasury n).toNat
      + (CashingoutReedem.fee w.treasury n).toNat := by
    simp only [Event.paidOut, hi, h.cashingoutReedem_trace hi, List.map_cons, List.map_nil,
      List.sum_cons, List.sum_nil, CashingoutReedem.payout, CpiInstruction.transferred,
      Nat.add_zero]
    push_cast
    rfl
  have ht := h.cashingoutReedem hi
  have hcounted : w'.treasury.counted = w.treasury.counted := by rw [ht]; rfl
  rw [World.uncounted, World.uncounted, hcounted, hpaid, ht, Treasury.setCashout_treasuryValue,
    ofU64_rat, ofU64_rat]
  ring

/-- Within an epoch, only bonds and cash-outs move the total less the parts that only a recount
writes. -/
theorem EpochStep.uncounted_eq (h : EpochStep d w e w') :
    w'.uncounted = w.uncounted + (e.bondValue - e.paidOut) := by
  obtain ⟨hstep, hcalcu⟩ := h
  have hhandler := hstep.handlerStep
  cases hi : e.call.instruction with
  | initializeTreasury a => cases hstep.constraints_eq hi
  | calcuBalance a =>
      rw [Event.isCalcuBalance, hi] at hcalcu
      cases hcalcu
  | applyBond a args =>
      have hpaid : e.paidOut = 0 := by simp only [Event.paidOut, hi]
      rw [hhandler.uncounted_bond hi, hpaid, sub_zero]
  | cashingoutReedem a n =>
      have hbond : e.bondValue = 0 := by simp only [Event.bondValue, hi]
      rw [hhandler.uncounted_cashout hi, hbond, zero_sub, sub_eq_add_neg]
  | getValueInKamino a =>
      -- a valuation writes a lending position, and neither the total nor a counted part
      obtain ⟨r, -, ht⟩ := hhandler.getValueInKamino hi
      simp only [Event.bondValue, Event.paidOut, hi, sub_zero, add_zero, World.uncounted, ht]
      rfl
  | getValueInMarginfi a =>
      obtain ⟨r, -, ht⟩ := hhandler.getValueInMarginfi hi
      simp only [Event.bondValue, Event.paidOut, hi, sub_zero, add_zero, World.uncounted, ht]
      rfl
  | reallocate a r k =>
      obtain ⟨m, k, me, j, u, wb, so, ht⟩ := hhandler.reallocate hi
      simp only [Event.bondValue, Event.paidOut, hi, sub_zero, add_zero, World.uncounted, ht]
      rfl
  | stakeSTF a n =>
      obtain ⟨-, ht⟩ := hhandler.stakeSTF hi
      simp only [Event.bondValue, Event.paidOut, hi, sub_zero, add_zero, World.uncounted, ht]
      rfl
  | unstakeSTF a n =>
      obtain ⟨-, ht⟩ := hhandler.unstakeSTF hi
      simp only [Event.bondValue, Event.paidOut, hi, sub_zero, add_zero, World.uncounted, ht]
      rfl
  | _ =>
      have ht := hhandler.treasury_eq (by rw [hi]; simp [Instruction.writes])
      simp only [Event.bondValue, Event.paidOut, hi, sub_zero, add_zero, World.uncounted, ht]

/-! ## The history since the recount -/

/-- What the bonds of a history brought in, less what its cash-outs paid. -/
def netPaidIn (es : List (Event ℚ)) : ℚ := (es.map fun e => e.bondValue - e.paidOut).sum

theorem Run.uncounted_eq (hrun : Run (EpochStep d) w es w') :
    w'.uncounted = w.uncounted + netPaidIn es :=
  hrun.sum_eq fun _ _ _ h => h.uncounted_eq

/-- A recount leaves a snapshot. -/
theorem Step.calcuBalance_snapshot (h : Step d w e w') (he : e.isCalcuBalance = true) :
    Snapshot w' := by
  cases hi : e.call.instruction with
  | calcuBalance a =>
      obtain ⟨r, -, ht⟩ := h.handlerStep.calcuBalance hi
      rw [Snapshot, ht]
      rfl
  | _ =>
      rw [Event.isCalcuBalance, hi] at he
      cases he

/-- Within an epoch that began with a snapshot, the total is the sum of its parts if and only if
what came in is what the two positions were revalued by. -/
theorem Run.snapshot_iff_netPaidIn (hrun : Run (EpochStep d) w es w') (h : Snapshot w) :
    Snapshot w' ↔ netPaidIn es = w'.treasury.lent - w.treasury.lent := by
  rw [snapshot_iff_uncounted, Run.uncounted_eq hrun, snapshot_iff_uncounted.mp h, eq_sub_iff_add_eq,
    add_comm]

/-- Before an accepted reallocation there is a last recount, and the total is the sum of its parts
if and only if what bonds brought in since, less what cash-outs paid, is what the two lending
positions were revalued by. -/
theorem snapshot_iff {w₀ : World ℚ} (hrun : Run (Step d) w₀ es w)
    (hinit : w₀.sequenceFlag = Initialize.sequenceFlag) (hstep : Step d w e w')
    (he : e.isReallocate = true) :
    ∃ p c seg b, es = p ++ c :: seg ∧ c.isCalcuBalance = true ∧ Run (Step d) w₀ (p ++ [c]) b ∧
      Run (EpochStep d) b seg w ∧
      (Snapshot w ↔ netPaidIn seg = w.treasury.lent - b.treasury.lent) := by
  have hup := (hstep.reallocate_latch he).1
  have hdown : w₀.sequenceFlag.flagCalcuBalance = false := by rw [hinit]; rfl
  have hexists := hrun.exists_raised (fun v => v.sequenceFlag.flagCalcuBalance)
    (fun _ _ _ h => h.calcuBalance_raised) hdown hup
  obtain ⟨p, c, seg, a, b, rfl, hc, hp, hrecount, hseg⟩ := hrun.exists_last hexists
  refine ⟨p, c, seg, b, rfl, hc, hp.snoc hrecount, hseg, ?_⟩
  exact Run.snapshot_iff_netPaidIn hseg (hrecount.calcuBalance_snapshot hc)

/-! ### A bond between the recount and the reallocation -/

/-- User `1` holds ten thousand USDC in account `11`, the treasury a thousand in `12`. -/
def bondLedger : Ledger where
  data k :=
    if k = 11 then .tokenAccount ⟨usdcMint, 1, 10000000000⟩
    else if k = 12 then .tokenAccount ⟨usdcMint, 9, 1000000000⟩
    else if k = 13 then .tokenAccount ⟨stfMint, 9, 1⟩
    else if k = 16 then .tokenAccount ⟨wbtcMint, 9, 0⟩
    else .empty
  lamports _ := 0

/-- The small treasury of the admin `7`, before its first recount. -/
def bondWorld : World ℚ where
  treasury := { smallTreasury with treasuryAdmin := 7 }
  sequenceFlag := Initialize.sequenceFlag
  stakeAccounts _ := none
  escrows _ := none
  ledger := bondLedger

def unitRecount : Call ℚ where
  env := splEnv 0 [9] fun _ => some ⟨1, 0, 0⟩
  instruction := .calcuBalance smallRecount

/-- The admin reallocates, with all rates and risks equal. -/
def evenReallocation : Call ℚ where
  env := splEnv 0 [7] fun _ => none
  instruction := .reallocate ⟨7⟩ (.replicate 7 1) (.replicate 7 1)

/-- With a bond between the recount and the reallocation. -/
theorem snapshot_iff_recount : ∃ (es : List (Event ℚ)) (w w' : World ℚ) (e : Event ℚ),
    es.map Event.call = [unitRecount, usdcBond 0 1 5000 200] ∧ e.call = evenReallocation ∧
      Step (smallDeployment .release) w e w' ∧
      ∃ p c seg b, es = p ++ c :: seg ∧ c.isCalcuBalance = true ∧
        Run (Step (smallDeployment .release)) bondWorld (p ++ [c]) b ∧
        Run (EpochStep (smallDeployment .release)) b seg w ∧
        (Snapshot w ↔ netPaidIn seg = w.treasury.lent - b.treasury.lent) := by
  obtain ⟨es, w', hrun, hcalls, -⟩ := exists_run_of_replay
    (fun c w => c.process (smallDeployment .release) w) bondWorld
    [unitRecount, usdcBond 0 1 5000 200, evenReallocation] (fun _ _ => true) (by decide +kernel)
  obtain ⟨e₁, e₂, e₃, rfl, h₁, h₂, h₃⟩ : ∃ e₁ e₂ e₃, es = [e₁, e₂, e₃] ∧ e₁.call = unitRecount ∧
      e₂.call = usdcBond 0 1 5000 200 ∧ e₃.call = evenReallocation := by
    simpa [List.map_eq_cons_iff, and_assoc] using hcalls
  obtain ⟨w, hbefore, hstep⟩ :=
    Run.snoc_iff.mp (show Run _ bondWorld ([e₁, e₂] ++ [e₃]) w' from hrun)
  refine ⟨[e₁, e₂], w, w', e₃, by simp [h₁, h₂], h₃, hstep, snapshot_iff hbefore rfl hstep ?_⟩
  rw [Event.isReallocate, h₃]
  rfl

/-- A bond of five thousand is in the total of six thousand that the reallocation works on, and in
none of the parts, which add up to a thousand. -/
theorem reallocation_off_snapshot : ∃ (es : List (Event ℚ)) (w w' : World ℚ) (e : Event ℚ),
    Run (Step (smallDeployment .release)) bondWorld es w ∧
      es.map Event.call = [unitRecount, usdcBond 0 1 5000 200] ∧
      Step (smallDeployment .release) w e w' ∧ e.call = evenReallocation ∧
      w.treasury.treasuryValue = 6000 ∧ w.treasury.usdcValue = 1000 ∧ ¬ Snapshot w := by
  obtain ⟨es, w, hrun, hcalls, hp⟩ := exists_run_of_replay
    (fun c w => c.process (smallDeployment .release) w) bondWorld
    [unitRecount, usdcBond 0 1 5000 200]
    (fun _ w => decide (w.treasury.treasuryValue = 6000) && decide (w.treasury.usdcValue = 1000) &&
      !decide (Snapshot w) &&
      (evenReallocation.process (smallDeployment .release) w).toOption.any fun _ => true)
    (by decide +kernel)
  simp only [Bool.and_eq_true, decide_eq_true_eq, Bool.not_eq_true', decide_eq_false_iff_not] at hp
  obtain ⟨⟨⟨htotal, husdc⟩, hoff⟩, haccepted⟩ := hp
  obtain ⟨y, hok, -⟩ := exists_eq_ok _ haccepted
  exact ⟨es, w, y.world, ⟨evenReallocation, y.trace⟩, hrun, hcalls, hok, rfl, htotal, husdc, hoff⟩

end Saturn
