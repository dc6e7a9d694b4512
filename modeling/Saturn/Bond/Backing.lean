import Saturn.Program
import Saturn.Bond.Pricing

/-!
# Bonds never dilute the backing

With overflow checks, exact `f64`s and positive prices: what the treasury holds stays worth at least
the initial backing price for every token minted or promised. A bond brings in its total price `T`
and hands out `stakersMint + creatorRedeem` tokens, which at the current backing price are worth at
most `T`; and the current backing price is at least the initial one. Where it saturates at the
largest `u64`, a bond hands out nothing.
-/

namespace Saturn

open Machine Transition

variable {d : Deployment} {w w' : World ℚ} {e : Event ℚ} {b : ℕ}

/-- `num_token_to_redeem` in the escrow that an accepted `apply_bond` leaves. -/
def recordedRedeem {F : Type} (_ : World F) (e : Event F) (w' : World F) : ℕ :=
  match e.call.instruction with
  | .applyBond a _ => ((w'.escrows a.creator).map (·.numTokenToRedeem.toNat)).getD 0
  | _ => 0

/-- Calls of `apply_bond` and `finish_bond` in which every reading is positive. -/
def SellsAtPositivePrices {F : Type} (_ : World F) (e : Event F) : Prop :=
  (∀ k age f price, e.call.env.getPriceNoOlderThan k age f = some price → 0 < price.price.toInt) ∧
    ((∃ a args, e.call.instruction = .applyBond a args) ∨
      ∃ a, e.call.instruction = .finishBond a)

/-- The treasury is worth `b` for each token minted and each of `promised` tokens. -/
structure Backed (b : ℕ) (t : Treasury ℚ) (promised : ℕ) : Prop where
  minted : 1 ≤ t.tokenMinted.toNat
  covered : (b : ℚ) * (t.tokenMinted.toNat + promised) ≤ t.treasuryValue

theorem toNat_backingPrice (t : Treasury ℚ) :
    t.backingPrice.toNat = min ⌊t.treasuryValue / t.tokenMinted.toNat⌋₊ maxU64 := by
  rw [Treasury.backingPrice, toNat_toU64_rat, ofU64_rat]

namespace Backed

variable {t : Treasury ℚ} {promised : ℕ}

theorem le_floor (h : Backed b t promised) : b ≤ ⌊t.treasuryValue / t.tokenMinted.toNat⌋₊ := by
  have hpos : (0 : ℚ) < t.tokenMinted.toNat := by exact_mod_cast h.minted
  apply Nat.le_floor
  rw [le_div_iff₀ hpos]
  have hpromised : (0 : ℚ) ≤ b * promised := by positivity
  have hcovered := h.covered
  rw [mul_add] at hcovered
  linarith

/-- What a bond hands out is worth at most its payment, at the initial backing price. -/
theorem mul_handed_out_le (h : Backed b t promised) {S T : UInt64}
    (hprices : PricesExactly t.backingPrice S T) (hprice : bondPriceOf t.backingPrice S ≠ 0) :
    b * ((stakersMint t.backingPrice S T).toNat + (creatorRedeem t.backingPrice S T).toNat)
      ≤ T.toNat := by
  have hworth := backing_mul_le hprices hprice
  have hfloor := h.le_floor
  have hback := toNat_backingPrice t
  rcases le_total ⌊t.treasuryValue / t.tokenMinted.toNat⌋₊ maxU64 with hsat | hsat
  · rw [min_eq_left hsat] at hback
    calc _ ≤ t.backingPrice.toNat * _ := Nat.mul_le_mul_right _ (hback ▸ hfloor)
      _ ≤ T.toNat := hworth
  · -- the backing price is the largest `u64`: the payment is at most one, and nothing is handed out
    rw [min_eq_right hsat] at hback
    have hT := hprices.redeem
    rw [hback, maxU64] at hT hworth
    have hzero : (stakersMint t.backingPrice S T).toNat
        + (creatorRedeem t.backingPrice S T).toNat = 0 := by
      omega
    rw [hzero, Nat.mul_zero]
    exact Nat.zero_le _

end Backed

/-! ## One bond -/

theorem Backed.apply {a : ApplyBond} {env : Env} {args : ApplyBondArgs} {x : Exec ℚ}
    {s : ApplyBond.Sale} {promised : ℕ} (h : Backed b x.world.treasury promised)
    (hs : s.Accepted a d env args x) (hd : d.profile.overflowChecks = true)
    (hpos : 0 < s.price.price.toInt) :
    Backed b (s.treasury x.world.treasury) (promised + s.terms.numTokenToRedeem.toNat) := by
  obtain ⟨-, hprice, hexact, hmint, hredeem⟩ := hs.terms_eq
  have hworth := h.mul_handed_out_le (hexact hd) hprice
  rw [← hmint, ← hredeem] at hworth
  have htotal : (s.totalPrice.toUInt64.toNat : ℚ) = s.totalPrice.toInt := by
    exact_mod_cast hs.toNat_totalPrice hd hpos
  have hsupply : (x.world.treasury.tokenMinted + s.terms.numTokenToMint).toNat
      = x.world.treasury.tokenMinted.toNat + s.terms.numTokenToMint.toNat :=
    toNat_add_of_lt (hs.supply hd)
  constructor
  · rw [ApplyBond.Sale.treasury_tokenMinted, hsupply]
    exact le_add_right h.minted
  · have hworth' : (b : ℚ) * (s.terms.numTokenToMint.toNat + s.terms.numTokenToRedeem.toNat)
        ≤ s.totalPrice.toUInt64.toNat := by
      exact_mod_cast hworth
    have hcovered := h.covered
    rw [ApplyBond.Sale.treasury_tokenMinted, ApplyBond.Sale.treasury_treasuryValue, hsupply,
      ofI64_rat, ← htotal]
    push_cast
    linarith

/-! ## Every run -/

/-- An accepted call keeps the treasury backed, what it promises included. -/
theorem Backed.step {promised : ℕ} (h : Backed b w.treasury promised)
    (hd : d.profile.overflowChecks = true)
    (hstep : Guarded (HandlerStep d) SellsAtPositivePrices w e w') :
    Backed b w'.treasury (promised + recordedRedeem w e w') := by
  obtain ⟨hstep, hprices, ⟨a, args, hi⟩ | ⟨a, hi⟩⟩ := hstep
  · obtain ⟨s, hs, hy⟩ := ApplyBond.handle_eq_ok.mp (hstep.handle_eq hi)
    have hw : w' = (s.result a d e.call.env args (.start w)).world := congrArg Exec.world hy
    have hrecorded : recordedRedeem w e w' = s.terms.numTokenToRedeem.toNat := by
      rw [recordedRedeem, hi, hw]
      simp
    rw [hrecorded, hw]
    exact Backed.apply h hs hd (hprices _ _ _ _ hs.price)
  · have hframe := Instruction.handle_frame hstep
    have hrecorded : recordedRedeem w e w' = 0 := by
      rw [recordedRedeem, hi]
    have htreasury : w'.treasury = w.treasury := by
      apply hframe.treasury
      rw [hi]
      simp [Instruction.writes]
    rw [hrecorded, htreasury]
    exact h

/-- In every run of `apply_bond` and `finish_bond`, the treasury stays worth the initial backing
price for each token minted and each token promised in the run; the backing price never falls below
it. -/
theorem backing_never_diluted {w₀ : World ℚ} {es : List (Event ℚ)}
    (hd : d.profile.overflowChecks = true) (hminted : 1 ≤ w₀.treasury.tokenMinted.toNat)
    (hb : 1 ≤ ⌊w₀.treasury.treasuryValue / w₀.treasury.tokenMinted.toNat⌋₊)
    (hrun : Run (Guarded (HandlerStep d) SellsAtPositivePrices) w₀ es w) :
    ∃ promised, Run (Counted (Guarded (HandlerStep d) SellsAtPositivePrices) recordedRedeem)
        (w₀, 0) es (w, promised) ∧
      (⌊w₀.treasury.treasuryValue / w₀.treasury.tokenMinted.toNat⌋₊ : ℚ) *
          (w.treasury.tokenMinted.toNat + promised) ≤ w.treasury.treasuryValue ∧
      ⌊w₀.treasury.treasuryValue / w₀.treasury.tokenMinted.toNat⌋₊
        ≤ ⌊w.treasury.treasuryValue / w.treasury.tokenMinted.toNat⌋₊ := by
  obtain ⟨promised, hcounted⟩ := hrun.counted recordedRedeem 0
  have hpos : (0 : ℚ) < w₀.treasury.tokenMinted.toNat := by exact_mod_cast hminted
  have hinit : Backed ⌊w₀.treasury.treasuryValue / w₀.treasury.tokenMinted.toNat⌋₊
      w₀.treasury 0 := by
    refine ⟨hminted, ?_⟩
    have hfloor := Nat.floor_le (Nat.pos_of_floor_pos hb).le
    rw [le_div_iff₀ hpos] at hfloor
    push_cast
    rwa [add_zero]
  have hlast : Backed _ w.treasury promised :=
    hcounted.invariant (fun s => Backed _ s.1.treasury s.2) hinit <| by
      rintro ⟨v, n⟩ f ⟨v', n'⟩ ⟨hstep, hn⟩ hv
      rw [show n' = n + recordedRedeem v f v' from hn]
      exact Backed.step hv hd hstep
  exact ⟨promised, hcounted, hlast.covered, hlast.le_floor⟩

/-- A bond sold above a backing price of a hundred, and its finish. -/
theorem backing_never_diluted_small : ∃ (es : List (Event ℚ)) (w : World ℚ) (promised : ℕ),
    es.map Event.call = [usdcBond 0 100 50 200, stfFinish 1209600] ∧
      (⌊smallWorld.treasury.treasuryValue / smallWorld.treasury.tokenMinted.toNat⌋₊ : ℚ) *
        (w.treasury.tokenMinted.toNat + promised) ≤ w.treasury.treasuryValue := by
  obtain ⟨es, w, hrun, hcalls, -⟩ := exists_run_of_replay
    (fun c w => c.perform (smallDeployment .checked) w) smallWorld
    [usdcBond 0 100 50 200, stfFinish 1209600] (fun _ _ => true) (by decide +kernel)
  have hsells : ∀ e ∈ es, ∀ v : World ℚ, SellsAtPositivePrices v e := by
    intro e he v
    have hcall : e.call = usdcBond 0 100 50 200 ∨ e.call = stfFinish 1209600 := by
      simpa [hcalls] using List.mem_map_of_mem (f := Event.call) he
    rcases hcall with hcall | hcall
    · refine ⟨?_, .inl ⟨_, _, by rw [hcall]; rfl⟩⟩
      intro k age f price hprice
      rw [hcall] at hprice
      cases hprice
      decide
    · refine ⟨?_, .inr ⟨_, by rw [hcall]; rfl⟩⟩
      intro k age f price hprice
      rw [hcall] at hprice
      cases hprice
  obtain ⟨promised, -, hcovered, -⟩ :=
    backing_never_diluted (d := smallDeployment .checked) rfl (by decide) (by decide +kernel)
      (hrun.guard hsells)
  exact ⟨es, w, promised, hcalls, hcovered⟩

end Saturn
