import Saturn.Steps
import Saturn.Bond.Pricing

/-!
# The recorded supply

`token_minted` counts whole tokens of a hundred base units. Of the three instructions that move the
supply or the record, `apply_bond` moves both alike, `finish_bond` mints without recording and
without the hundred, and `cashingout_reedem` records without taking anything back. A run in which
the last two do nothing keeps the record right.
-/

namespace Saturn

open Machine Transition

variable {F : Type} [F64 F] {d : Deployment} {w w' : World F} {e : Event F}

/-! ## What the CPIs of a call mint and take back -/

/-- STF base units that a CPI mints. -/
def CpiInstruction.stfMinted : CpiInstruction → ℕ
  | .mintTo mint _ _ amount => if mint = stfMint then amount.toNat else 0
  | _ => 0

/-- What a transfer moves that the treasury does not sign. -/
def CpiInstruction.takenFromOthers (d : Deployment) : CpiInstruction → ℕ
  | .transfer _ _ authority amount => if authority = d.treasuryAuthority then 0 else amount.toNat
  | _ => 0

def Event.stfMinted (e : Event F) : ℕ := (e.trace.map fun r => r.cpi.instruction.stfMinted).sum

/-- STF base units that an accepted call took back. There is no burn, and a transfer from others
that is not the payment of a bond could only be made by a cash-out. -/
def Event.stfTakenBack (d : Deployment) (e : Event F) : ℕ :=
  match e.call.instruction with
  | .cashingoutReedem _ _ => (e.trace.map fun r => r.cpi.instruction.takenFromOthers d).sum
  | _ => 0

/-! ## Calls that keep the record -/

/-- Calls of the three instructions in which: what `apply_bond` mints to the stakers has room for
the hundredfold and in the record, where the build would wrap; `finish_bond` mints nothing or
another token; and `cashingout_reedem` is of nothing. -/
def Accounted (d : Deployment) (w : World F) (e : Event F) : Prop :=
  match e.call.instruction with
  | .applyBond a args => d.profile.overflowChecks = true ∨ ∀ c price,
      Collateral.ofMint a.tokenMintAddress = some c →
      e.call.env.getPriceNoOlderThan (a.priceUpdate c) 30 c.feedId = some price →
        (stakersMint w.treasury.backingPrice args.spotPrice (totalPriceOf price args)).toNat * 100
            < 2 ^ 64 ∧
          w.treasury.tokenMinted.toNat + (stakersMint w.treasury.backingPrice args.spotPrice
            (totalPriceOf price args)).toNat < 2 ^ 64
  | .finishBond a => a.stfTokenMint ≠ stfMint ∨
      ∀ esc, w.escrows a.user = some esc → esc.numTokenToRedeem = 0
  | .cashingoutReedem _ amount => amount = 0
  | _ => False

/-- A bond whose numbers do not wrap mints the hundredfold of what it records. -/
theorem ApplyBond.Sale.Accepted.recorded {a : ApplyBond} {env : Env} {args : ApplyBondArgs}
    {x : Exec F} {s : Sale} (hs : s.Accepted a d env args x)
    (hfits : d.profile.overflowChecks = true ∨ s.terms.numTokenToMint.toNat * 100 < 2 ^ 64 ∧
      x.world.treasury.tokenMinted.toNat + s.terms.numTokenToMint.toNat < 2 ^ 64) :
    (s.terms.numTokenToMint * 100).toNat = s.terms.numTokenToMint.toNat * 100 ∧
      (x.world.treasury.tokenMinted + s.terms.numTokenToMint).toNat
        = x.world.treasury.tokenMinted.toNat + s.terms.numTokenToMint.toNat := by
  rcases hfits with hd | ⟨hhundred, hroom⟩
  · exact ⟨toNat_mul_of_lt (hs.reward hd), toNat_add_of_lt (hs.supply hd)⟩
  · exact ⟨toNat_mul_of_lt hhundred, toNat_add_of_lt hroom⟩

theorem Accounted.bond {a : ApplyBond} {args : ApplyBondArgs} (hstep : HandlerStep d w e w')
    (hi : e.call.instruction = .applyBond a args) (h : Accounted d w e) :
    100 * w'.treasury.tokenMinted.toNat = 100 * w.treasury.tokenMinted.toNat + e.stfMinted := by
  rw [Accounted, hi] at h
  obtain ⟨s, hs, hy⟩ := ApplyBond.handle_eq_ok.mp (hstep.handle_eq hi)
  have hrecorded : w'.treasury.tokenMinted = w.treasury.tokenMinted + s.terms.numTokenToMint :=
    congrArg (fun y => y.world.treasury.tokenMinted) hy
  have ht : e.trace = (s.result a d e.call.env args (.start w)).trace := congrArg Exec.trace hy
  have hfits : d.profile.overflowChecks = true ∨ s.terms.numTokenToMint.toNat * 100 < 2 ^ 64 ∧
      w.treasury.tokenMinted.toNat + s.terms.numTokenToMint.toNat < 2 ^ 64 := by
    rcases h with hd | h
    · exact .inl hd
    · obtain ⟨-, -, -, hmint, -⟩ := hs.terms_eq
      right
      rw [hmint, hs.totalPrice_eq hs.collateral hs.price]
      exact h _ _ hs.collateral hs.price
  obtain ⟨hhundred, hsum⟩ := hs.recorded hfits
  have hminted : e.stfMinted = s.terms.numTokenToMint.toNat * 100 := by
    rw [Event.stfMinted, ht, ← hhundred]
    cases hcoll : s.collateral <;>
      simp [CpiInstruction.stfMinted, ApplyBond.payment, ApplyBond.reward, hs.stf, hcoll]
  have hsum' : (w.treasury.tokenMinted + s.terms.numTokenToMint).toNat
      = w.treasury.tokenMinted.toNat + s.terms.numTokenToMint.toNat := hsum
  rw [hminted, hrecorded, hsum']
  ring

theorem Accounted.finish {a : FinishBond} (hstep : HandlerStep d w e w')
    (hi : e.call.instruction = .finishBond a) (h : Accounted d w e) :
    w'.treasury = w.treasury ∧ e.stfMinted = 0 := by
  rw [Accounted, hi] at h
  obtain ⟨esc, l, hesc, -, -, -, -, hy⟩ := FinishBond.handle_eq_ok.mp (hstep.handle_eq hi)
  have ht : e.trace = [⟨a.redemption d esc.numTokenToRedeem, true⟩] := congrArg Exec.trace hy
  refine ⟨congrArg (fun y => y.world.treasury) hy, ?_⟩
  rw [Event.stfMinted, ht]
  rcases h with hmint | hzero
  · simp [CpiInstruction.stfMinted, FinishBond.redemption, hmint]
  · simp [CpiInstruction.stfMinted, FinishBond.redemption, hzero esc hesc]

/-- A cash-out takes its amount off the record; it mints no STF and takes none back. -/
theorem HandlerStep.cashout_stf {a : CashingoutReedem} {amount : UInt64}
    (hstep : HandlerStep d w e w') (hi : e.call.instruction = .cashingoutReedem a amount) :
    w'.treasury.tokenMinted = w.treasury.tokenMinted - amount ∧ e.stfMinted = 0 ∧
      e.stfTakenBack d = 0 := by
  have ht := hstep.cashingoutReedem_trace hi
  refine ⟨congrArg Treasury.tokenMinted (hstep.cashingoutReedem hi), ?_, ?_⟩
  · rw [Event.stfMinted, ht]
    simp [CpiInstruction.stfMinted, CashingoutReedem.payout]
  · -- both transfers leave the treasury, on its own signature
    rw [Event.stfTakenBack, hi]
    simp [ht, CpiInstruction.takenFromOthers, CashingoutReedem.payout]

/-- An accounted call changes the record by a hundredth of what it mints and takes back. -/
theorem Accounted.step (hstep : HandlerStep d w e w') (h : Accounted d w e) :
    (100 * w'.treasury.tokenMinted.toNat : ℤ)
      = 100 * w.treasury.tokenMinted.toNat + (e.stfMinted - e.stfTakenBack d : ℤ) := by
  cases hi : e.call.instruction with
  | applyBond a args =>
      have hrecord := Accounted.bond hstep hi h
      have htaken : e.stfTakenBack d = 0 := by
        rw [Event.stfTakenBack, hi]
      rw [htaken]
      push_cast
      omega
  | finishBond a =>
      obtain ⟨htreasury, hminted⟩ := Accounted.finish hstep hi h
      have htaken : e.stfTakenBack d = 0 := by
        rw [Event.stfTakenBack, hi]
      rw [htreasury, hminted, htaken]
      simp
  | cashingoutReedem a amount =>
      obtain ⟨hrecord, hminted, htaken⟩ := hstep.cashout_stf hi
      rw [Accounted, hi] at h
      rw [hrecord, hminted, htaken, h]
      simp
  | _ =>
      rw [Accounted, hi] at h
      exact h.elim

/-! ## Every run -/

/-- What the events of a run minted and did not take back. -/
def netMinted (d : Deployment) (es : List (Event F)) : ℤ :=
  (es.map fun e => (e.stfMinted - e.stfTakenBack d : ℤ)).sum

/-- In a run of accounted calls, what was minted and not taken back is the hundredfold of what the
record grew by. -/
theorem supply_accounted {w₀ : World F} {es : List (Event F)}
    (hrun : Run (Guarded (HandlerStep d) (Accounted d)) w₀ es w) :
    netMinted d es
      = 100 * (w.treasury.tokenMinted.toNat - w₀.treasury.tokenMinted.toNat : ℤ) := by
  have hsum := hrun.sum_eq (f := fun v => (100 * v.treasury.tokenMinted.toNat : ℤ))
    (g := fun e => (e.stfMinted - e.stfTakenBack d : ℤ)) fun v e v' hstep =>
      Accounted.step hstep.1 hstep.2
  rw [netMinted]
  linarith

/-- A bond alone is accounted for. -/
theorem supply_accounted_small : ∃ (es : List (Event ℚ)) (w : World ℚ),
    es.map Event.call = [usdcBond 0 100 50 200] ∧
      netMinted (smallDeployment .release) es
        = 100 * (w.treasury.tokenMinted.toNat - smallWorld.treasury.tokenMinted.toNat : ℤ) := by
  obtain ⟨es, w, hrun, hcalls, -⟩ := exists_run_of_replay
    (fun c w => c.perform (smallDeployment .release) w) smallWorld [usdcBond 0 100 50 200]
    (fun _ _ => true) (by decide +kernel)
  obtain ⟨e, rfl, he⟩ : ∃ e, es = [e] ∧ e.call = usdcBond 0 100 50 200 := by
    simpa [List.map_eq_singleton_iff] using hcalls
  obtain ⟨v, hstep, hnil⟩ := hrun.split_cons
  rw [Run.nil_iff] at hnil
  subst hnil
  have haccounted : Accounted (smallDeployment .release) smallWorld e := by
    rw [Accounted, he]
    right
    intro c price hc hprice
    cases hc
    cases hprice
    decide +kernel
  exact ⟨[e], w, hcalls, supply_accounted (.single ⟨hstep, haccounted⟩)⟩

/-- A bond and its finish mint 2029 base units, while the record grows by twenty tokens. -/
theorem finish_not_recorded : ∃ (es : List (Event ℚ)) (w : World ℚ),
    Run (HandlerStep (smallDeployment .release)) smallWorld es w ∧
      es.map Event.call = [usdcBond 0 100 50 200, stfFinish 1209600] ∧
      netMinted (smallDeployment .release) es = 2029 ∧
      w.treasury.tokenMinted.toNat - smallWorld.treasury.tokenMinted.toNat = 20 := by
  obtain ⟨es, w, hrun, hcalls, hp⟩ := exists_run_of_replay
    (fun c w => c.perform (smallDeployment .release) w) smallWorld
    [usdcBond 0 100 50 200, stfFinish 1209600]
    (fun es w => decide (netMinted (smallDeployment .release) es = 2029) &&
      decide (w.treasury.tokenMinted.toNat - smallWorld.treasury.tokenMinted.toNat = 20))
    (by decide +kernel)
  rw [Bool.and_eq_true, decide_eq_true_eq, decide_eq_true_eq] at hp
  exact ⟨es, w, hrun, hcalls, hp⟩

end Saturn
