import Saturn.Machine.Double
import Saturn.Rebalance.Epoch
import Saturn.Rebalance.Wallet
import Saturn.Steps

/-!
# The recorded positions

The treasury records the value of its position in Kamino and of that in marginfi. A valuation writes
the record and a recount adds it to the total; a withdrawal moves what the position holds into the
treasury's wallet and leaves the record as it was. No flag puts a valuation between the two, so a
recount that follows a withdrawal without one counts what is no longer there.

What the positions hold is not among the program's accounts. `Tracked` follows it next to the world,
with the quantities that the record was computed from: a valuation reads what is held, a withdrawal
lowers it, a deposit raises it. Of what a withdrawal took out nothing is counted any more once a
valuation has read the position again, unless that valuation takes SOL for USDC and finds more of
the one than there is of the other (`counted_once_of_reread`).
-/

namespace Saturn

open Machine Transition

variable {F : Type} {d : Deployment} {w w' : World F} {e : Event F} {es : List (Event F)}

/-- The protocols whose positions the treasury records. -/
inductive Protocol where
  | kamino
  | marginfi
  deriving DecidableEq

namespace Protocol

def value (t : Treasury F) : Protocol → F
  | kamino => t.kaminoLendValue
  | marginfi => t.marginfiLendValue

/-- The recorded size of the position, which a withdrawal asks for. -/
def assets (t : Treasury F) : Protocol → UInt64
  | kamino => t.kaminoLendAssets
  | marginfi => t.marginfiLendAssets

/-- `klend_withdraw` and `marginfi_withdraw`. -/
def withdraws (e : Event F) : Protocol → Bool
  | kamino => e.isKlendWithdraw
  | marginfi => e.isMarginfiWithdraw

/-- `get_value_in_kamino` and `get_value_in_marginfi`. -/
def refreshes (e : Event F) : Protocol → Bool
  | kamino => (e.call.instruction matches .getValueInKamino _)
  | marginfi => (e.call.instruction matches .getValueInMarginfi _)

end Protocol

/-! ## What a withdrawal moves -/

/-- The amount that a CPI redeems at a protocol. -/
def CpiInstruction.redeemed : CpiInstruction → Option (Protocol × UInt64)
  | .withdrawObligationCollateralAndRedeemReserveCollateral _ amount => some (.kamino, amount)
  | .lendingAccountWithdraw _ amount _ => some (.marginfi, amount)
  | _ => none

/-- The event is a withdrawal that the protocol carried out, of the whole position the treasury has
on record. -/
structure Protocol.Emptied (k : Protocol) (w : World F) (e : Event F) : Prop where
  withdraws : k.withdraws e = true
  redeemed : ∃ r ∈ e.trace, r.ok = true ∧ r.cpi.instruction.redeemed = some (k, k.assets w.treasury)

section

variable [F64 F]

/-- An accepted withdrawal asks for the whole recorded position. -/
theorem Step.requests {k : Protocol} (h : Step d w e w') (he : k.withdraws e = true) :
    ∃ r ∈ e.trace, r.cpi.instruction.redeemed = some (k, k.assets w.treasury) := by
  cases k with
  | kamino =>
      cases hi : e.call.instruction with
      | klendWithdraw a =>
          obtain ⟨z, hz, hy⟩ := KlendWithdraw.handle_eq_ok.mp (h.handlerStep.handle_eq hi)
          obtain ⟨l, -, rfl⟩ := Exec.invoke_eq_ok.mp hz
          have htrace : e.trace = [⟨a.redeem d w.treasury.kaminoLendAssets, true⟩] :=
            congrArg Exec.trace hy
          rw [htrace]
          exact ⟨_, List.mem_singleton_self _, rfl⟩
      | _ =>
          rw [Protocol.withdraws, Event.isKlendWithdraw, hi] at he
          cases he
  | marginfi =>
      cases hi : e.call.instruction with
      | marginfiWithdraw a =>
          -- here the result is dropped, but the CPI is made
          have htrace : e.trace = ((Exec.start w).invokeIgnore e.call.env
              (a.redeem d w.treasury.marginfiLendAssets)).trace :=
            congrArg Exec.trace (Except.ok.inj (h.handlerStep.handle_eq hi)).symm
          rw [htrace]
          rcases (Exec.start w).invokeIgnore_cases e.call.env
            (a.redeem d w.treasury.marginfiLendAssets) with ⟨l, -, hl⟩ | ⟨-, hl⟩
          · rw [hl]
            exact ⟨_, List.mem_singleton_self _, rfl⟩
          · rw [hl]
            exact ⟨_, List.mem_singleton_self _, rfl⟩
      | _ =>
          rw [Protocol.withdraws, Event.isMarginfiWithdraw, hi] at he
          cases he

/-- An accepted withdrawal whose CPIs all succeeded is one of the whole recorded position. -/
theorem Step.emptied {k : Protocol} (h : Step d w e w') (he : k.withdraws e = true)
    (hok : ∀ r ∈ e.trace, r.ok = true) : k.Emptied w e := by
  obtain ⟨r, hr, hredeemed⟩ := h.requests he
  exact ⟨he, r, hr, hok r hr, hredeemed⟩

end

/-! ## What a step makes of the record -/

section

variable [F64 F]

/-- Only the valuation of the position writes its recorded value. -/
theorem Step.value_eq {k : Protocol} (h : Step d w e w') (he : k.refreshes e = false) :
    k.value w'.treasury = k.value w.treasury := by
  apply h.handlerStep.treasury_cases (motive := fun t => k.value t = k.value w.treasury)
  case initializeTreasury =>
    intro a hi
    cases h.constraints_eq hi
  case getValueInKamino =>
    intro a r hi
    cases k with
    | kamino =>
        rw [Protocol.refreshes, hi] at he
        cases he
    | marginfi => rfl -- the valuation of the other protocol writes the other record
  case getValueInMarginfi =>
    intro a r hi
    cases k with
    | kamino => rfl
    | marginfi =>
        rw [Protocol.refreshes, hi] at he
        cases he
  all_goals
    intros
    cases k <;> rfl

end

/-! ## What is held and what is counted -/

/-- Where a position is: an account with a protocol, and a reserve or bank it has a share of. -/
@[ext] structure Place where
  protocol : Protocol
  account : Pubkey
  reserve : Pubkey
  deriving DecidableEq

def KlendWithdraw.place (a : KlendWithdraw) : Place :=
  ⟨.kamino, a.obligation.key, a.withdrawReserve.key⟩

def KaminoLend.place (a : KaminoLend) : Place := ⟨.kamino, a.obligation.key, a.reserve.key⟩

def MarginfiWithdraw.place (a : MarginfiWithdraw) : Place :=
  ⟨.marginfi, a.marginfiAccount.key, a.bank.key⟩

def MarginfiLend.place (a : MarginfiLend) : Place := ⟨.marginfi, a.marginfiAccount.key, a.bank.key⟩

def GetValueInKamino.place (a : GetValueInKamino) (r : Loaded Reserve) : Place :=
  ⟨.kamino, a.obligation.key, r.key⟩

def GetValueInMarginFi.place (a : GetValueInMarginFi) (b : Loaded Bank) : Place :=
  ⟨.marginfi, a.marginfiAccount.key, b.key⟩

/-- The collateral under a key, none if there is no entry. -/
def GetValueInKamino.collateral (a : GetValueInKamino) (key : Pubkey) : ℕ :=
  (a.collateralAmount key).toOption.elim 0 UInt64.toNat

theorem GetValueInKamino.collateral_eq {a : GetValueInKamino} {key : Pubkey} {c : UInt64}
    (h : a.collateralAmount key = .ok c) : a.collateral key = c.toNat := by
  rw [collateral, h]
  rfl

/-- The shares in a bank, as bits, none without an active balance. -/
def GetValueInMarginFi.shares (a : GetValueInMarginFi) (key : Pubkey) : ℤ :=
  (a.marginfiAccount.data.balances.find? fun b => b.active && b.bankPk == key).elim 0 fun b =>
    b.assetShares.bits

def Event.withdrawnFrom (e : Event F) : Option Place :=
  match e.call.instruction with
  | .klendWithdraw a => some a.place
  | .marginfiWithdraw a => some a.place
  | _ => none

def Event.depositedIn (e : Event F) : Option Place :=
  match e.call.instruction with
  | .klendLend a => some a.place
  | .marginfiLend a => some a.place
  | _ => none

/-- A valuation reads the position in its account as it is. -/
def Instruction.Reads (held : Place → ℤ) : Instruction F → Prop
  | .getValueInKamino a => ∀ key, held ⟨.kamino, a.obligation.key, key⟩ = a.collateral key
  | .getValueInMarginfi a => ∀ key, held ⟨.marginfi, a.marginfiAccount.key, key⟩ = a.shares key
  | _ => True

/-- The quantities that a valuation adds up. For USDC it is the collateral of SOL. -/
def Instruction.counted : Instruction F → List (Place × ℤ)
  | .getValueInKamino a =>
      [ (a.place a.solReserve, a.collateral a.solReserve.key),
        (a.place a.usdcReserve, a.collateral a.solReserve.key),
        (a.place a.usdtReserve, a.collateral a.usdtReserve.key),
        (a.place a.wbtcReserve, a.collateral a.wbtcReserve.key),
        (a.place a.wethReserve, a.collateral a.wethReserve.key),
        (a.place a.bonkReserve, a.collateral a.bonkReserve.key) ]
  | .getValueInMarginfi a =>
      [a.solBank, a.usdcBank, a.usdtBank, a.wbtcBank, a.wethBank, a.bonkBank].map fun b =>
        (a.place b, a.shares b.key)
  | _ => []

/-- The world, what the positions hold and what the two records were computed from. -/
structure Tracked (F : Type) where
  world : World F
  held : Place → ℤ
  counted : Protocol → List (Place × ℤ)

section

variable [F64 F]

/-- An accepted call. What klend redeems is the amount it is asked for; how many shares marginfi
redeems or mints is left open. -/
structure Tracked.Step (d : Deployment) (s : Tracked F) (e : Event F) (s' : Tracked F) : Prop where
  step : Saturn.Step d s.world e s'.world
  reads : e.call.instruction.Reads s.held
  counted : ∀ k : Protocol,
    s'.counted k = if k.refreshes e then e.call.instruction.counted else s.counted k
  kept : ∀ p, e.withdrawnFrom ≠ some p → e.depositedIn ≠ some p → s'.held p = s.held p
  deposited : ∀ p, e.depositedIn = some p → s.held p ≤ s'.held p
  withdrawn : ∀ p, e.withdrawnFrom = some p → s'.held p ≤ s.held p
  redeemed : ∀ a, e.call.instruction = .klendWithdraw a →
    s'.held a.place = s.held a.place - s.world.treasury.kaminoLendAssets.toNat

def Treasury.total (t : Treasury F) : F :=
  t.marginfiLendValue + t.kaminoLendValue + t.meteoraDepositValue + t.jupiterPerpsValue + t.solValue
    + t.usdcValue + t.wbtcValue

/-- The valuation came to `v`, by redeeming these quantities. -/
inductive Event.Valued (d : Deployment) (f : Event F) : Protocol → F → List (Place × ℤ) → Prop
  | kamino {a : GetValueInKamino} {r : GetValueInKamino.Reading}
      (hi : f.call.instruction = .getValueInKamino a) (h : r.Accepted a d f.call.env) :
      Valued d f .kamino (sumValues r.values)
        [ (a.place a.solReserve, r.solCollateral.toNat),
          (a.place a.usdcReserve, r.solCollateral.toNat),
          (a.place a.usdtReserve, r.usdtCollateral.toNat),
          (a.place a.wbtcReserve, r.wbtcCollateral.toNat),
          (a.place a.wethReserve, r.wethCollateral.toNat),
          (a.place a.bonkReserve, r.bonkCollateral.toNat) ]
  | marginfi {a : GetValueInMarginFi} {r : GetValueInMarginFi.Reading}
      (hi : f.call.instruction = .getValueInMarginfi a) (h : r.Accepted a d f.call.env) :
      Valued d f .marginfi (sumValues r.values)
        ([a.solBank, a.usdcBank, a.usdtBank, a.wbtcBank, a.wethBank, a.bonkBank].map fun b =>
          (a.place b, a.shares b.key))

namespace Tracked

/-- Of this place the record counts no more than is there. -/
def NotOver (s : Tracked F) (p : Place) : Prop :=
  ∀ c ∈ s.counted p.protocol, c.1 = p → c.2 ≤ s.held p

/-- The record is what a valuation made of what is counted. -/
def Recorded (d : Deployment) (s : Tracked F) (k : Protocol) : Prop :=
  ∃ f : Event F, f.Valued d k (k.value s.world.treasury) (s.counted k)

/-- The total is that of its parts, the part of the protocol was computed from quantities in its
positions, and of this place they are not more than is still there. -/
structure CountedOnce (d : Deployment) (s : Tracked F) (p : Place) : Prop where
  total : s.world.treasury.treasuryValue = s.world.treasury.total
  recorded : s.Recorded d p.protocol
  notOver : s.NotOver p

end Tracked

/-- The valuation finds at least as much USDC collateral as SOL collateral, if this is where the
USDC is. -/
def Event.NotShort (e : Event F) (p : Place) : Prop :=
  ∀ a, e.call.instruction = .getValueInKamino a → a.place a.usdcReserve = p →
    a.collateral a.solReserve.key ≤ a.collateral a.usdcReserve.key

/-- A valuation of the protocol that is followed by no withdrawal from this place, and from which on
no valuation is short of it. -/
def Reread (p : Place) (es : List (Event F)) : Prop :=
  ∃ q f q', es = q ++ f :: q' ∧ p.protocol.refreshes f = true ∧
    ∀ g ∈ f :: q', g.withdrawnFrom ≠ some p ∧ g.NotShort p

/-! ### One step -/

variable {s s₁ s₂ s₃ s' : Tracked F} {c : Event F} {p : Place} {k : Protocol}

omit [F64 F] in
theorem Instruction.Reads.le {held : Place → ℤ} (h : e.call.instruction.Reads held)
    (hshort : e.NotShort p) :
    ∀ c ∈ e.call.instruction.counted, c.1 = p → c.2 ≤ held p := by
  intro c hc hp
  cases hi : e.call.instruction with
  | getValueInKamino a =>
      rw [hi] at h hc
      have hread (r : Loaded Reserve) (hr : a.place r = p) : held p = a.collateral r.key := by
        rw [← hr]
        exact h r.key
      simp only [Instruction.counted, List.mem_cons, List.not_mem_nil, or_false] at hc
      rcases hc with rfl | rfl | rfl | rfl | rfl | rfl
      · exact (hread _ hp).ge
      · -- the entry of USDC has the collateral of SOL
        rw [hread _ hp]
        exact Int.ofNat_le.mpr (hshort a hi hp)
      all_goals exact (hread _ hp).ge
  | getValueInMarginfi a =>
      rw [hi] at h hc
      obtain ⟨b, -, rfl⟩ := List.mem_map.mp hc
      rw [← hp]
      exact (h b.key).ge
  | _ =>
      rw [hi] at hc
      cases hc

namespace Tracked

theorem Step.held_le (h : Step d s e s') (hp : e.withdrawnFrom ≠ some p) :
    s.held p ≤ s'.held p := by
  by_cases hdeposit : e.depositedIn = some p
  · exact h.deposited p hdeposit
  · exact (h.kept p hp hdeposit).ge

/-- After a valuation the record counts what is there. -/
theorem Step.notOver_of_refreshes (h : Step d s e s') (he : p.protocol.refreshes e = true)
    (hp : e.withdrawnFrom ≠ some p) (hshort : e.NotShort p) : s'.NotOver p := by
  intro c hc hcp
  rw [h.counted, if_pos he] at hc
  exact (h.reads.le hshort c hc hcp).trans (h.held_le hp)

/-- And it does so until the next withdrawal. -/
theorem Step.notOver (h : Step d s e s') (hp : e.withdrawnFrom ≠ some p) (hshort : e.NotShort p)
    (hs : s.NotOver p) : s'.NotOver p := by
  cases he : p.protocol.refreshes e with
  | true => exact h.notOver_of_refreshes he hp hshort
  | false =>
      intro c hc hcp
      rw [h.counted, he, if_neg Bool.false_ne_true] at hc
      exact (hs c hc hcp).trans (h.held_le hp)

/-- A valuation records what it counts. -/
theorem Step.recorded_of_refreshes (h : Step d s e s') (he : k.refreshes e = true) :
    s'.Recorded d k := by
  refine ⟨e, ?_⟩
  rw [h.counted, if_pos he]
  cases hi : e.call.instruction with
  | getValueInKamino a =>
      cases k with
      | kamino =>
          obtain ⟨r, hr, ht⟩ := h.step.handlerStep.getValueInKamino hi
          have hvalued := Event.Valued.kamino hi hr
          rw [← GetValueInKamino.collateral_eq hr.solCollateral,
            ← GetValueInKamino.collateral_eq hr.usdtCollateral,
            ← GetValueInKamino.collateral_eq hr.wbtcCollateral,
            ← GetValueInKamino.collateral_eq hr.wethCollateral,
            ← GetValueInKamino.collateral_eq hr.bonkCollateral] at hvalued
          rw [Protocol.value, ht]
          exact hvalued
      | marginfi =>
          rw [Protocol.refreshes, hi] at he
          cases he
  | getValueInMarginfi a =>
      cases k with
      | kamino =>
          rw [Protocol.refreshes, hi] at he
          cases he
      | marginfi =>
          obtain ⟨r, hr, ht⟩ := h.step.handlerStep.getValueInMarginfi hi
          rw [Protocol.value, ht]
          exact .marginfi hi hr
  | _ => cases k <;> rw [Protocol.refreshes, hi] at he <;> cases he

/-- Nothing else touches the record. -/
theorem Step.recorded (h : Step d s e s') (hs : s.Recorded d k) : s'.Recorded d k := by
  cases he : k.refreshes e with
  | true => exact h.recorded_of_refreshes he
  | false =>
      obtain ⟨f, hf⟩ := hs
      refine ⟨f, ?_⟩
      rw [h.step.value_eq he, h.counted, he, if_neg Bool.false_ne_true]
      exact hf

end Tracked

/-- A recount adds up the parts. -/
theorem Step.treasuryValue_eq_total (h : Step d w e w') (he : e.isCalcuBalance = true) :
    w'.treasury.treasuryValue = w'.treasury.total := by
  cases hi : e.call.instruction with
  | calcuBalance a =>
      obtain ⟨r, -, ht⟩ := h.handlerStep.calcuBalance hi
      rw [ht]
      rfl
  | _ =>
      rw [Event.isCalcuBalance, hi] at he
      cases he

omit [F64 F] in
theorem Event.isCalcuBalance_quiet (he : e.isCalcuBalance = true) :
    e.withdrawnFrom ≠ some p ∧ e.depositedIn ≠ some p ∧ k.refreshes e = false ∧ e.NotShort p := by
  cases hi : e.call.instruction with
  | calcuBalance a =>
      refine ⟨by simp [withdrawnFrom, hi], by simp [depositedIn, hi], ?_, ?_⟩
      · cases k <;> rw [Protocol.refreshes, hi]
      · intro b hb
        rw [hi] at hb
        cases hb
  | _ =>
      rw [isCalcuBalance, hi] at he
      cases he

/-! ### Whole runs -/

/-- Once the position has been read again, the record counts of this place what is there. -/
theorem Tracked.notOver_of_reread (hrun : Run (Tracked.Step d) s es s') (h : Reread p es) :
    s'.NotOver p ∧ s'.Recorded d p.protocol := by
  obtain ⟨q, f, q', rfl, hf, hrest⟩ := h
  obtain ⟨a, b, -, hstep, hq'⟩ := hrun.step_of_append
  obtain ⟨hwithdrawn, hshort⟩ := hrest f (List.mem_cons_self ..)
  have hguarded :
      Run (Guarded (Tracked.Step d) fun _ g => g.withdrawnFrom ≠ some p ∧ g.NotShort p) b q' s' :=
    hq'.guard fun g hg _ => hrest g (List.mem_cons_of_mem f hg)
  refine hguarded.invariant (fun s => s.NotOver p ∧ s.Recorded d p.protocol)
    ⟨hstep.notOver_of_refreshes hf hwithdrawn hshort, hstep.recorded_of_refreshes hf⟩ ?_
  rintro x g y ⟨hxy, hg, hgshort⟩ ⟨hover, hrecorded⟩
  exact ⟨hxy.notOver hg hgshort hover, hxy.recorded hrecorded⟩

/-- In every run: where the position was read again between a withdrawal and a recount, the recount
counts nothing of what the withdrawal took out. -/
theorem counted_once_of_reread (hrun : Run (Tracked.Step d) s es s₂)
    (hrecount : Tracked.Step d s₂ c s₃)
    (hc : c.isCalcuBalance = true) : ∀ before e after p, es = before ++ e :: after →
      e.withdrawnFrom = some p → Reread p after → s₃.CountedOnce d p := by
  rintro before e after p rfl - hreread
  obtain ⟨-, b, -, -, hafter⟩ := hrun.step_of_append
  obtain ⟨hover, hrecorded⟩ := Tracked.notOver_of_reread hafter hreread
  obtain ⟨hwithdrawn, -, -, hshort⟩ := Event.isCalcuBalance_quiet (p := p) (k := p.protocol) hc
  exact ⟨hrecount.step.treasuryValue_eq_total hc, hrecount.recorded hrecorded,
    hrecount.notOver hwithdrawn hshort hover⟩

/-- Where it was not, and nothing was deposited there either, what the withdrawal left short is
still counted. -/
theorem Tracked.over_of_stale (hrun : Run (Tracked.Step d) s es s') (hover : ¬ s.NotOver p)
    (hstale : ∀ g ∈ es, p.protocol.refreshes g = false ∧ g.depositedIn ≠ some p) :
    ¬ s'.NotOver p := by
  have hguarded : Run (Guarded (Tracked.Step d)
      fun _ g => p.protocol.refreshes g = false ∧ g.depositedIn ≠ some p) s es s' :=
    hrun.guard fun g hg _ => hstale g hg
  refine hguarded.invariant (fun s => ¬ s.NotOver p) hover ?_
  rintro x g y ⟨hxy, hg, hdeposit⟩ hx hy
  apply hx
  intro c hc hcp
  have hle := hy c (by rwa [hxy.counted, hg, if_neg Bool.false_ne_true]) hcp
  by_cases hwithdrawn : g.withdrawnFrom = some p
  · exact hle.trans (hxy.withdrawn p hwithdrawn)
  · rwa [hxy.kept p hwithdrawn hdeposit] at hle

end

/-! ### A dollar withdrawn from Kamino -/

/-- The position where klend moves it as asked, and nothing else moves it. -/
def Tracked.after (s : Tracked F) (e : Event F) (w' : World F) : Tracked F where
  world := w'
  held := match e.call.instruction with
    | .klendWithdraw a => Function.update s.held a.place
        (s.held a.place - s.world.treasury.kaminoLendAssets.toNat)
    | _ => s.held
  counted k := if k.refreshes e then e.call.instruction.counted else s.counted k

theorem Tracked.step_after [F64 F] {s : Tracked F} (h : Saturn.Step d s.world e w')
    (hreads : e.call.instruction.Reads s.held) : Tracked.Step d s e (s.after e w') := by
  -- only a withdrawal from kamino changes what is held
  by_cases hk : ∃ a, e.call.instruction = .klendWithdraw a
  · obtain ⟨a, hi⟩ := hk
    have hheld : (s.after e w').held = Function.update s.held a.place
        (s.held a.place - s.world.treasury.kaminoLendAssets.toNat) := by
      simp only [after, hi]
    have hfrom : e.withdrawnFrom = some a.place := by rw [Event.withdrawnFrom, hi]
    refine ⟨h, hreads, fun _ => rfl, ?_, ?_, ?_, ?_⟩
    · intro p hp _
      rw [hheld, Function.update_of_ne]
      rintro rfl
      exact hp hfrom
    · intro p hp
      rw [Event.depositedIn, hi] at hp
      cases hp
    · intro p hp
      obtain rfl : a.place = p := Option.some.inj (hfrom.symm.trans hp)
      rw [hheld, Function.update_self]
      omega
    · intro b hb
      obtain rfl : a = b := Instruction.klendWithdraw.inj (hi.symm.trans hb)
      rw [hheld, Function.update_self]
  · have hheld : (s.after e w').held = s.held := by
      unfold after
      split
      · exact absurd ⟨_, ‹_›⟩ hk
      · rfl
    refine ⟨h, hreads, fun _ => rfl, ?_, ?_, ?_, ?_⟩
    · intro p _ _
      rw [hheld]
    · intro p _
      rw [hheld]
    · intro p _
      rw [hheld]
    · intro a hi
      exact absurd ⟨a, hi⟩ hk

/-- A run in which klend redeems nothing and every valuation finds the same position. -/
theorem Tracked.exists_run [F64 F] {s : Tracked F} (hrun : Run (Saturn.Step d) s.world es w')
    (hreads : ∀ e ∈ es, (∀ a, e.call.instruction ≠ .klendWithdraw a) ∧
      e.call.instruction.Reads s.held) :
    ∃ s', Run (Tracked.Step d) s es s' ∧ s'.world = w' ∧ s'.held = s.held ∧
      ∀ k : Protocol, s'.counted k
        = (es.filter k.refreshes).getLast?.elim (s.counted k) fun f =>
          f.call.instruction.counted := by
  induction hrun with
  | nil => exact ⟨s, .nil, rfl, rfl, fun _ => rfl⟩
  | @snoc es v w' e _ hstep ih =>
      obtain ⟨t, ht, rfl, hheld, hcounted⟩ := ih fun f hf => hreads f (List.mem_append_left _ hf)
      obtain ⟨hother, hread⟩ := hreads e (by simp)
      refine ⟨t.after e w', ht.snoc (step_after hstep (hheld ▸ hread)), rfl, ?_, ?_⟩
      · rw [← hheld]
        unfold after
        split
        · exact absurd ‹_› (hother _)
        · rfl
      · intro k
        cases he : k.refreshes e with
        | true => simp [after, he, List.filter_append]
        | false => simp [after, he, List.filter_append, hcounted]

/-- The admin `7` and the authority `9` sign, every feed reads one with the exponent six, and CPIs
go to `platforms`. -/
def platformEnv : Env :=
  { splEnv 0 [7, 9] fun _ => some ⟨1, 0, 6⟩ with cpi := platforms }

/-- A reserve of the market `30`, up to date, that has lent nothing. -/
def idleReserve (mint : Pubkey) (availableAmount mintTotalSupply : UInt64) : Reserve where
  lendingMarket := 30
  liquidityMintPubkey := mint
  liquiditySupplyVault := 33
  collateralMintPubkey := 34
  collateralSupplyVault := 35
  lastUpdate := ⟨0, 0⟩
  availableAmount := availableAmount
  borrowedAmount := U68F60.ofU64 0
  accumulatedProtocolFees := U68F60.ofU64 0
  accumulatedReferrerFees := U68F60.ofU64 0
  pendingReferrerFees := U68F60.ofU64 0
  mintTotalSupply := mintTotalSupply

/-- The obligation `31` has `n` units of collateral of the SOL reserve `61` and `m` of the USDC
reserve `32`, which redeems one for one; the others redeem for next to nothing. -/
def kaminoPosition (n m : UInt64) : GetValueInKamino where
  signer := 9
  lendingMarket := 30
  solReserve := ⟨61, idleReserve solMint 1 1000000000000⟩
  usdcReserve := ⟨32, idleReserve usdcMint 1000000 1000000⟩
  usdtReserve := ⟨63, idleReserve usdtMint 1 1000000000000⟩
  wbtcReserve := ⟨64, idleReserve wbtcMint 1 1000000000000⟩
  wethReserve := ⟨65, idleReserve wethMint 1 1000000000000⟩
  bonkReserve := ⟨66, idleReserve bonkMint 1 1000000000000⟩
  obligation :=
    ⟨31, ⟨⟨30, 9⟩, #v[⟨61, n⟩, ⟨32, m⟩, ⟨63, 1⟩, ⟨64, 1⟩, ⟨65, 1⟩, ⟨66, 1⟩, ⟨0, 0⟩, ⟨0, 0⟩]⟩⟩

def kaminoValuation {F : Type} (n m : UInt64) : Call F :=
  ⟨platformEnv, .getValueInKamino (kaminoPosition n m)⟩

def kaminoHeld (n m : UInt64) (p : Place) : ℤ :=
  if p.protocol = .kamino ∧ p.account = 31 then (kaminoPosition n m).collateral p.reserve else 0

theorem kaminoValuation_reads {F : Type} (n m : UInt64) :
    (kaminoValuation n m : Call F).instruction.Reads (kaminoHeld n m) := by
  intro key
  exact if_pos ⟨rfl, rfl⟩

theorem update_kaminoHeld {n m k : UInt64} (hk : k.toNat ≤ m.toNat) :
    Function.update (kaminoHeld n m) ⟨.kamino, 31, 32⟩ (kaminoHeld n m ⟨.kamino, 31, 32⟩ - k.toNat)
      = kaminoHeld n (m - k) := by
  funext p
  by_cases hp : p = ⟨.kamino, 31, 32⟩
  · subst hp
    have hheld (m : UInt64) : kaminoHeld n m ⟨.kamino, 31, 32⟩ = m.toNat := rfl
    rw [Function.update_self, hheld, hheld, toNat_sub_of_le hk]
    omega
  · rw [Function.update_of_ne hp, kaminoHeld, kaminoHeld]
    split_ifs with hplace
    · have hkey : ¬ 32 = p.reserve := by
        rintro hkey
        exact hp (Place.ext hplace.1 hplace.2 hkey.symm)
      by_cases hsol : 61 = p.reserve
      · simp [GetValueInKamino.collateral, GetValueInKamino.collateralAmount, kaminoPosition,
          ← hsol]
      · simp [GetValueInKamino.collateral, GetValueInKamino.collateralAmount, kaminoPosition, hkey,
          hsol, List.find?_cons]
    · rfl

def platformRecount {F : Type} : Call F := ⟨platformEnv, .calcuBalance smallRecount⟩

def platformReallocation {F : Type} [F64 F] : Call F :=
  ⟨platformEnv, .reallocate ⟨7⟩ (.replicate 7 (F64.lit 1)) (.replicate 7 (F64.lit 1))⟩

/-- The recorded position comes out of the USDC reserve. -/
def usdcWithdrawal : KlendWithdraw where
  signer := 9
  userDestinationLiquidity := 12
  obligation := ⟨31, ⟨30, 9⟩⟩
  lendingMarket := 30
  withdrawReserve := ⟨32, ⟨30, usdcMint, 33, 34, 35⟩⟩
  reserveSourceCollateral := 35
  reserveCollateralMint := 34
  reserveLiquiditySupply := 33
  lendingMarketAuthority := 36
  userDestinationCollateral := 17

def kaminoWithdrawal {F : Type} : Call F := ⟨platformEnv, .klendWithdraw usdcWithdrawal⟩

/-- The treasury has no USDC in `12`; the vault `33` of the reserve has a dollar. -/
def vaultLedger : Ledger :=
  (lendingLedger.setTokenAccount 12 ⟨usdcMint, 9, 0⟩).setTokenAccount 33 ⟨usdcMint, 36, 1000000⟩

section

variable {w w₁ : World Double} {e : Event Double} {es : List (Event Double)} {n m : UInt64}

/-- Up to the withdrawal the position is as it was, and the last valuation is what is counted. -/
theorem exists_tracked_until
    (hrun : Run (Step (smallDeployment .release)) (Initialize.world ⟨7⟩ vaultLedger) es w)
    (hcalls : es.map Event.call = [kaminoValuation n m, platformRecount, platformReallocation]) :
    ∃ s : Tracked Double, Run (Tracked.Step (smallDeployment .release))
        ⟨Initialize.world ⟨7⟩ vaultLedger, kaminoHeld n m, fun _ => []⟩ es s ∧
      s.world = w ∧ s.held = kaminoHeld n m ∧
      s.counted .kamino
        = (Instruction.getValueInKamino (F := Double) (kaminoPosition n m)).counted := by
  obtain ⟨e₁, e₂, e₃, rfl, h₁, h₂, h₃⟩ : ∃ e₁ e₂ e₃, es = [e₁, e₂, e₃] ∧
    e₁.call = kaminoValuation n m ∧
      e₂.call = platformRecount ∧ e₃.call = platformReallocation := by
    simpa [List.map_eq_cons_iff, and_assoc] using hcalls
  obtain ⟨s, hs, hworld, hheld, hcounted⟩ := Tracked.exists_run
    (s := ⟨Initialize.world ⟨7⟩ vaultLedger, kaminoHeld n m, fun _ => []⟩) hrun (by
      simp only [List.forall_mem_cons, h₁, h₂, h₃]
      refine ⟨⟨?_, kaminoValuation_reads n m⟩, ⟨?_, trivial⟩, ⟨?_, trivial⟩, by simp⟩ <;>
        intro a ha <;> cases ha)
  refine ⟨s, hs, hworld, hheld, ?_⟩
  rw [hcounted]
  simp [Protocol.refreshes, h₁, h₂, h₃, kaminoValuation, platformRecount, platformReallocation]

/-- The withdrawal takes the recorded amount of SOL collateral out of the USDC reserve. -/
theorem tracked_withdrawal {s : Tracked Double}
    (hstep : Step (smallDeployment .release) s.world e w₁)
    (he : e.call = kaminoWithdrawal) (hheld : s.held = kaminoHeld n m) (hnm : n.toNat ≤ m.toNat)
    (hassets : s.world.treasury.kaminoLendAssets = n) :
    ∃ s₁ : Tracked Double, Tracked.Step (smallDeployment .release) s e s₁ ∧ s₁.world = w₁ ∧
      s₁.held = kaminoHeld n (m - n) ∧ s₁.counted .kamino = s.counted .kamino := by
  refine ⟨s.after e w₁, Tracked.step_after hstep (by rw [he]; trivial), rfl, ?_, ?_⟩
  · simp only [Tracked.after, he, kaminoWithdrawal, hheld, hassets]
    exact update_kaminoHeld hnm
  · simp only [Tracked.after, Protocol.refreshes, he, kaminoWithdrawal, Bool.false_eq_true,
      if_false]

end

/-- With three dollars of USDC next to the SOL collateral of a million units, a million is withdrawn
and two dollars are left. The valuation that follows counts one of them, and the recount nothing
twice. -/
theorem counted_once_of_reread_kamino :
    ∃ (es : List (Event Double)) (s s' : Tracked Double) (c : Event Double),
    Run (Tracked.Step (smallDeployment .release))
      ⟨Initialize.world ⟨7⟩ vaultLedger, kaminoHeld 1000000 3000000, fun _ => []⟩ es s ∧
    es.map Event.call = [kaminoValuation 1000000 3000000, platformRecount, platformReallocation,
      kaminoWithdrawal, kaminoValuation 1000000 2000000] ∧
    Tracked.Step (smallDeployment .release) s c s' ∧ c.call = platformRecount ∧
    s'.CountedOnce (smallDeployment .release) ⟨.kamino, 31, 32⟩ := by
  obtain ⟨es, w, hrun, hcalls, hp⟩ := exists_run_of_replay
    (fun c w => c.process (smallDeployment .release) w)
    (Initialize.world (F := Double) ⟨7⟩ vaultLedger)
    [kaminoValuation 1000000 3000000, platformRecount, platformReallocation]
    (fun _ w => decide (w.treasury.kaminoLendAssets = 1000000) &&
      (replay (fun c w => c.process (smallDeployment .release) w) w
        [kaminoWithdrawal, kaminoValuation 1000000 2000000, platformRecount]).isSome)
    (by decide +kernel)
  rw [Bool.and_eq_true, decide_eq_true_eq] at hp
  obtain ⟨hassets, hrest⟩ := hp
  obtain ⟨⟨fs, w'⟩, hreplay⟩ := Option.isSome_iff_exists.mp hrest
  obtain ⟨hrest, hcalls'⟩ := run_of_replay hreplay
  obtain ⟨e, f, c, rfl, he, hf, hc⟩ : ∃ e f c, fs = [e, f, c] ∧ e.call = kaminoWithdrawal ∧
      f.call = kaminoValuation 1000000 2000000 ∧ c.call = platformRecount := by
    simpa [List.map_eq_cons_iff, and_assoc] using hcalls'
  obtain ⟨w₁, hwithdraw, hrest⟩ := hrest.split_cons
  obtain ⟨w₂, hvaluation, hrest⟩ := hrest.split_cons
  obtain ⟨w₃, hrecount, -⟩ := hrest.split_cons
  obtain ⟨s, hs, rfl, hheld, -⟩ := exists_tracked_until hrun hcalls
  obtain ⟨s₁, hs₁, rfl, hheld₁, -⟩ := tracked_withdrawal hwithdraw he hheld (by decide) hassets
  -- the second valuation reads the two dollars that are still held
  have hvalued := Tracked.step_after hvaluation (by
    rw [hf, hheld₁]
    exact kaminoValuation_reads _ _)
  have hrecounted := Tracked.step_after (s := s₁.after f w₂) hrecount (by rw [hc]; trivial)
  have htracked := (hs.snoc hs₁).snoc hvalued
  refine ⟨_, _, _, c, htracked, ?_, hrecounted, hc, ?_⟩
  · simp [hcalls, he, hf]
  · refine counted_once_of_reread htracked hrecounted ?_ es e [f] _ (by simp) ?_
      ⟨[], f, [], rfl, ?_, ?_⟩
    · rw [Event.isCalcuBalance, hc]
      rfl
    · rw [Event.withdrawnFrom, he]
      rfl
    · rw [Protocol.refreshes, hf]
      rfl
    · -- two dollars are more than the million units that are counted
      simp only [List.mem_singleton, forall_eq]
      refine ⟨by simp [Event.withdrawnFrom, hf, kaminoValuation], ?_⟩
      intro a ha _
      rw [hf] at ha
      cases ha
      decide

/-- Without a valuation, the dollar that was lent is in the total twice: once in the wallet and once
in the record, which counts a million units of USDC collateral where none is left. -/
theorem dollar_counted_twice :
    ∃ (es : List (Event Double)) (s s₁ s' : Tracked Double) (e c : Event Double),
    Run (Tracked.Step (smallDeployment .release))
      ⟨Initialize.world ⟨7⟩ vaultLedger, kaminoHeld 1000000 1000000, fun _ => []⟩ es s ∧
    es.map Event.call = [kaminoValuation 1000000 1000000, platformRecount, platformReallocation] ∧
    Tracked.Step (smallDeployment .release) s e s₁ ∧ Protocol.kamino.Emptied s.world e ∧
    e.withdrawnFrom = some ⟨.kamino, 31, 32⟩ ∧
    Tracked.Step (smallDeployment .release) s₁ c s' ∧ c.call = platformRecount ∧
    s.world.treasury.treasuryValue = F64.lit 1000000 ∧
    s'.world.treasury.treasuryValue = F64.lit 2000000 ∧
    s'.world.treasury.usdcValue = F64.lit 1000000 ∧
    s'.world.treasury.kaminoLendValue = F64.lit 1000000 ∧
    ¬ s'.CountedOnce (smallDeployment .release) ⟨.kamino, 31, 32⟩ := by
  -- the run is evaluated up to its third call, and what the next two do is tested from there
  obtain ⟨es, w, hrun, hcalls, hp⟩ := exists_run_of_replay
    (fun c w => c.process (smallDeployment .release) w)
    (Initialize.world (F := Double) ⟨7⟩ vaultLedger)
    [kaminoValuation 1000000 1000000, platformRecount, platformReallocation]
    (fun _ w => decide (w.treasury.kaminoLendAssets = 1000000) &&
      decide (w.treasury.treasuryValue = F64.lit 1000000) &&
      (replay (fun c w => c.process (smallDeployment .release) w) w
        [kaminoWithdrawal, platformRecount]).any fun r : List (Event Double) × World Double =>
          (r.1.all fun e => e.trace.all CpiRecord.ok) &&
          decide (r.2.treasury.treasuryValue = F64.lit 2000000) &&
          decide (r.2.treasury.usdcValue = F64.lit 1000000) &&
          decide (r.2.treasury.kaminoLendValue = F64.lit 1000000))
    (by decide +kernel)
  simp only [Bool.and_eq_true, decide_eq_true_eq] at hp
  obtain ⟨⟨hassets, hbefore⟩, hrest⟩ := hp
  obtain ⟨⟨fs, w'⟩, hreplay, hafter⟩ := (Option.any_eq_true _ _).mp hrest
  obtain ⟨hrest, hcalls'⟩ := run_of_replay hreplay
  simp only [Bool.and_eq_true, decide_eq_true_eq] at hafter
  obtain ⟨⟨⟨hok, htotal⟩, husdc⟩, hkamino⟩ := hafter
  obtain ⟨e, c, rfl, he, hc⟩ : ∃ e c, fs = [e, c] ∧ e.call = kaminoWithdrawal ∧
      c.call = platformRecount := by
    simpa [List.map_eq_cons_iff, and_assoc] using hcalls'
  obtain ⟨w₁, hwithdraw, hrest⟩ := hrest.split_cons
  obtain ⟨w₂, hrecount, hend⟩ := hrest.split_cons
  cases Run.nil_iff.mp hend
  obtain ⟨s, hs, rfl, hheld, hcounted⟩ := exists_tracked_until hrun hcalls
  obtain ⟨s₁, hs₁, rfl, hheld₁, hcounted₁⟩ := tracked_withdrawal hwithdraw he hheld le_rfl hassets
  have hrecounted := Tracked.step_after hrecount (by rw [hc]; trivial)
  have hemptied : Protocol.kamino.Emptied s.world e := by
    apply Step.emptied hwithdraw
    · rw [Protocol.withdraws, Event.isKlendWithdraw, he]
      rfl
    · exact fun r hr => List.all_eq_true.mp (List.all_eq_true.mp hok e (by simp)) r hr
  -- an entry of a dollar is left where the position holds nothing any more
  have hover : ¬ s₁.NotOver ⟨.kamino, 31, 32⟩ := by
    intro hle
    have hentry := hle (⟨.kamino, 31, 32⟩, 1000000) (by rw [hcounted₁, hcounted]; decide) rfl
    rw [hheld₁] at hentry
    exact absurd hentry (by decide)
  refine ⟨es, s, s₁, _, e, c, hs, hcalls, hs₁, hemptied, by rw [Event.withdrawnFrom, he]; rfl,
    hrecounted, hc, hbefore, htotal, husdc, hkamino, ?_⟩
  intro honce
  -- the recount reads no value again and deposits nothing
  refine Tracked.over_of_stale (Run.single hrecounted) hover ?_ honce.notOver
  obtain ⟨-, hdeposit, hrefreshes, -⟩ :=
    Event.isCalcuBalance_quiet (e := c) (p := ⟨.kamino, 31, 32⟩)
      (k := .kamino) (by rw [Event.isCalcuBalance, hc]; rfl)
  simp only [List.mem_singleton, forall_eq]
  exact ⟨hrefreshes, hdeposit⟩

end Saturn
