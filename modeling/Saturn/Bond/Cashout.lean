import Saturn.Bond.Redemption

/-!
# Cash-outs and the entitlement of an escrow

`cashingout_reedem` compares the amount with `num_token_to_redeem` the other way round: it refuses
less than the entitlement, and accepts any amount from there on. It neither consumes the entitlement
nor looks at `is_finished`. An accepted cash-out therefore takes the whole entitlement at least, and
a history stays within it only if each user cashes out once, the exact amount, after the bond was
finished.
-/

namespace Saturn

open Machine Transition

variable {F : Type} [F64 F] {d : Deployment} {w₀ w w' : World F} {e f : Event F}
  {es : List (Event F)} {u : Pubkey} {esc : Escrow} {n : UInt64}

/-! ## Events and histories -/

section

omit [F64 F]

/-- `e` is a `cashingout_reedem` of `n` against the escrow of `u`. -/
def Event.CashesOut (u : Pubkey) (n : UInt64) (e : Event F) : Prop :=
  ∃ a, e.call.instruction = .cashingoutReedem a n ∧ a.user = u

/-- What `e` cashes out against the escrow of `u`. -/
def Event.cashedOut (u : Pubkey) (e : Event F) : ℕ :=
  match e.call.instruction with
  | .cashingoutReedem a amount => if a.user = u then amount.toNat else 0
  | _ => 0

/-- What a history cashed out against the escrow of `u`. -/
def cashedOut (u : Pubkey) (es : List (Event F)) : ℕ := (es.map (Event.cashedOut u)).sum

theorem Event.CashesOut.amount (h : e.CashesOut u n) : e.cashedOut u = n.toNat := by
  obtain ⟨a, hi, ha⟩ := h
  rw [Event.cashedOut, hi]
  exact if_pos ha

theorem Event.cashedOut_eq_zero (h : ∀ n, ¬ e.CashesOut u n) : e.cashedOut u = 0 := by
  rw [Event.cashedOut]
  split
  · next a n hi =>
    rw [if_neg]
    intro ha
    exact h n ⟨a, hi, ha⟩
  · rfl

theorem cashedOut_snoc : cashedOut u (es ++ [e]) = cashedOut u es + e.cashedOut u := by
  simp [cashedOut]

theorem cashedOut_eq_zero (h : ∀ f ∈ es, ∀ n, ¬ f.CashesOut u n) : cashedOut u es = 0 := by
  apply List.sum_eq_zero
  intro m hm
  obtain ⟨f, hf, rfl⟩ := List.mem_map.mp hm
  exact Event.cashedOut_eq_zero (h f hf)

theorem le_cashedOut (hf : f ∈ es) : f.cashedOut u ≤ cashedOut u es :=
  List.single_le_sum (fun _ _ => Nat.zero_le _) _ (List.mem_map_of_mem hf)

end

/-- An accepted call of `apply_bond`, `finish_bond` or `cashingout_reedem`. -/
def BondStep (d : Deployment) (w : World F) (e : Event F) (w' : World F) : Prop :=
  HandlerStep d w e w' ∧
    ((∃ a args, e.call.instruction = .applyBond a args) ∨
      (∃ a, e.call.instruction = .finishBond a) ∨
      ∃ a n, e.call.instruction = .cashingoutReedem a n)

/-! ## One cash-out -/

/-- A cash-out finds an escrow, takes no less than its entitlement, and leaves it as it is. -/
theorem HandlerStep.cashout (h : HandlerStep d w e w') (he : e.CashesOut u n) :
    ∃ esc, w.escrows u = some esc ∧ w'.escrows u = some esc ∧ esc.numTokenToRedeem ≤ n := by
  obtain ⟨a, hi, rfl⟩ := he
  obtain ⟨esc, l, l', hesc, hle, -, -, -, -, hy⟩ :=
    CashingoutReedem.handle_eq_ok.mp (h.handle_eq hi)
  have hkept : w'.escrows = w.escrows := congrArg (fun y => y.world.escrows) hy
  exact ⟨esc, hesc, hkept ▸ hesc, hle⟩

/-- The entitlement of an escrow never changes. -/
theorem Run.entitlement (hrun : Run (HandlerStep d) w es w') (hesc : w.escrows u = some esc) :
    ∃ esc', w'.escrows u = some esc' ∧ esc'.numTokenToRedeem = esc.numTokenToRedeem := by
  rcases (Run.escrow_open hrun hesc).2 with ⟨h, -⟩ | ⟨h, -⟩
  · exact ⟨esc, h, rfl⟩
  · exact ⟨esc.setIsFinished 2, h, rfl⟩

/-- Where a history cashed out, there is an escrow, and each cash-out took its entitlement at
least. -/
theorem Run.entitlement_le (hrun : Run (HandlerStep d) w es w') (hf : f ∈ es)
    (hcash : f.CashesOut u n) : ∃ esc, w'.escrows u = some esc ∧ esc.numTokenToRedeem ≤ n := by
  obtain ⟨p, q, rfl⟩ := List.append_of_mem hf
  obtain ⟨v, -, hrest⟩ := hrun.split
  obtain ⟨v', hstep, hq⟩ := hrest.split_cons
  obtain ⟨esc, -, hesc, hle⟩ := hstep.cashout hcash
  obtain ⟨esc', hesc', hnum⟩ := Run.entitlement hq hesc
  exact ⟨esc', hesc', hnum ▸ hle⟩

theorem Run.cashedOut_of_none (hrun : Run (HandlerStep d) w es w') (h : w'.escrows u = none) :
    cashedOut u es = 0 := by
  apply cashedOut_eq_zero
  intro f hf n hcash
  obtain ⟨esc, hesc, -⟩ := Run.entitlement_le hrun hf hcash
  rw [h] at hesc
  cases hesc

/-! ## Every history -/

/-- In the history `es`, the call of `e` comes after the events `h`, is accepted in `v` and leads to
`v'`. -/
structure TakenIn (d : Deployment) (w₀ : World F) (es h : List (Event F)) (v : World F)
    (e : Event F) (v' : World F) : Prop where
  initial : h ++ [e] <+: es
  run : Run (BondStep d) w₀ h v
  step : BondStep d v e v'

/-- At every point of the history, the cash-outs against an escrow so far add up to at most what it
entitles to; and each was accepted when the escrow had been redeemed. -/
def CashoutsBounded (d : Deployment) (w₀ : World F) (es : List (Event F)) : Prop :=
  ∀ h v e v', TakenIn d w₀ es h v e v' → ∀ u,
    (∀ esc, v'.escrows u = some esc → cashedOut u (h ++ [e]) ≤ esc.numTokenToRedeem.toNat) ∧
    ∀ n, e.CashesOut u n → ∃ esc, v.escrows u = some esc ∧ esc.isFinished = 2

/-- Each cash-out is against a finished escrow, of no more than it entitles to, and the first one of
its user unless there is nothing to redeem. -/
def CashoutsEntitled (d : Deployment) (w₀ : World F) (es : List (Event F)) : Prop :=
  ∀ h v e v', TakenIn d w₀ es h v e v' → ∀ u n, e.CashesOut u n →
    ∃ esc, v.escrows u = some esc ∧ esc.isFinished = 2 ∧ n ≤ esc.numTokenToRedeem ∧
      (esc.numTokenToRedeem = 0 ∨ ∀ f ∈ h, ∀ m, ¬ f.CashesOut u m)

theorem CashoutsEntitled.total {v : World F} (hrun : Run (BondStep d) w₀ es v)
    (hent : CashoutsEntitled d w₀ es) (hesc : v.escrows u = some esc) :
    cashedOut u es ≤ esc.numTokenToRedeem.toNat := by
  induction hrun generalizing esc with
  | nil => exact Nat.zero_le _
  | @snoc es t v e hrun hstep ih =>
      have hentitled : CashoutsEntitled d w₀ es := by
        intro h a f b htaken
        exact hent h a f b
          ⟨htaken.initial.trans (List.prefix_append _ _), htaken.run, htaken.step⟩
      have hhandler : Run (HandlerStep d) w₀ es t := hrun.mono fun _ _ _ h => h.1
      rw [cashedOut_snoc]
      by_cases hcash : ∃ n, e.CashesOut u n
      · obtain ⟨n, hcash⟩ := hcash
        obtain ⟨esc', hesc', hafter, hle⟩ := hstep.1.cashout hcash
        obtain rfl : esc' = esc := Option.some.inj (hafter.symm.trans hesc)
        obtain ⟨esc₁, hesc₁, -, hatmost, honce⟩ :=
          hent es t e v ⟨List.prefix_rfl, hrun, hstep⟩ u n hcash
        obtain rfl : esc₁ = esc' := Option.some.inj (hesc₁.symm.trans hesc')
        have hn := UInt64.le_iff_toNat_le.mp hatmost
        rw [hcash.amount]
        -- an earlier cash-out leaves room only for an escrow of nothing
        rcases honce with hzero | hfirst
        · have hbefore := ih hentitled hesc'
          have hnothing : esc₁.numTokenToRedeem.toNat = 0 := congrArg UInt64.toNat hzero
          omega
        · have hnone : cashedOut u es = 0 := cashedOut_eq_zero hfirst
          omega
      · rw [Event.cashedOut_eq_zero (not_exists.mp hcash), Nat.add_zero]
        -- without a cash-out the total stays, and so does the entitlement of an open escrow
        cases ht : t.escrows u with
        | none =>
            rw [Run.cashedOut_of_none hhandler ht]
            exact Nat.zero_le _
        | some esc' =>
            obtain ⟨esc₁, hesc₁, hnum⟩ := Run.entitlement (.single hstep.1) ht
            obtain rfl : esc₁ = esc := Option.some.inj (hesc₁.symm.trans hesc)
            rw [hnum]
            exact ih hentitled ht

/-- In every history, the cash-outs are bounded by the entitlement if and only if each of them is
made on a finished escrow, of no more than the entitlement, and only once where there is one. -/
theorem cashouts_bounded_iff : CashoutsBounded d w₀ es ↔ CashoutsEntitled d w₀ es := by
  constructor
  · -- a history that is bounded, cut before a cash-out
    intro hb h v e v' htaken u n hcash
    obtain ⟨htotal, hredeemed⟩ := hb h v e v' htaken u
    obtain ⟨esc, hesc, hfinished⟩ := hredeemed n hcash
    obtain ⟨esc', hesc', hafter, hle⟩ := htaken.step.1.cashout hcash
    obtain rfl : esc' = esc := Option.some.inj (hesc'.symm.trans hesc)
    have hsum := htotal _ hafter
    rw [cashedOut_snoc, hcash.amount] at hsum
    have hn := UInt64.le_iff_toNat_le.mp hle
    refine ⟨esc', hesc, hfinished, UInt64.le_iff_toNat_le.mpr (by omega), ?_⟩
    by_cases hearlier : ∃ f ∈ h, ∃ m, f.CashesOut u m
    · -- two cash-outs take the entitlement twice
      left
      obtain ⟨f, hf, m, hm⟩ := hearlier
      have hhandler : Run (HandlerStep d) w₀ h v := htaken.run.mono fun _ _ _ h => h.1
      obtain ⟨esc₁, hesc₁, hle₁⟩ := Run.entitlement_le hhandler hf hm
      obtain rfl : esc₁ = esc' := Option.some.inj (hesc₁.symm.trans hesc)
      have hm' := UInt64.le_iff_toNat_le.mp hle₁
      have hpart : f.cashedOut u ≤ cashedOut u h := le_cashedOut hf
      rw [hm.amount] at hpart
      rw [← UInt64.toNat_inj]
      show esc₁.numTokenToRedeem.toNat = 0
      omega
    · right
      intro f hf m hm
      exact hearlier ⟨f, hf, m, hm⟩
  · intro hent h v e v' htaken u
    -- the bound follows for the history and the step, each cash-out of it being entitled
    refine ⟨?_, ?_⟩
    · intro esc hesc
      have hentitled : CashoutsEntitled d w₀ (h ++ [e]) := by
        intro p a f b hp
        exact hent p a f b ⟨hp.initial.trans htaken.initial, hp.run, hp.step⟩
      exact hentitled.total (htaken.run.snoc htaken.step) hesc
    · intro n hcash
      obtain ⟨esc, hesc, hfinished, -⟩ := hent h v e v' htaken u n hcash
      exact ⟨esc, hesc, hfinished⟩

/-! ### A cash-out before the bond is finished -/

/-- The small world with an account `15` for fees. -/
def feeWorld : World ℚ :=
  { smallWorld with ledger := smallLedger.setTokenAccount 15 ⟨usdcMint, 3, 0⟩ }

/-- A cash-out of `n` against the escrow of user `1`. -/
def usdcCashout (n : UInt64) : Call ℚ where
  env := splEnv 0 [9] fun _ => none
  instruction := .cashingoutReedem
    { signer := 9
      user := 1
      userTokenAccount := 11
      treasuryTokenAccount := 12
      feeWalletTokenAccount := 15
      treasuryStfTokenAccount := 13
      tokenMintAddress := usdcMint
      stfTokenMint := stfMint } n

/-- A bond that entitles to 29 is cashed out at 30 while it is open. -/
theorem cashout_beyond_entitlement : ∃ (es : List (Event ℚ)) (w : World ℚ),
    Run (BondStep (smallDeployment .checked)) feeWorld es w ∧
      es.map Event.call = [usdcBond 0 100 50 200, usdcCashout 30] ∧
      cashedOut 1 es = 30 ∧
      (∃ esc, w.escrows 1 = some esc ∧ esc.numTokenToRedeem = 29 ∧ esc.isFinished = 1) ∧
      ¬ CashoutsBounded (smallDeployment .checked) feeWorld es := by
  obtain ⟨es, w, hrun, hcalls, hp⟩ := exists_run_of_replay
    (fun c w => c.perform (smallDeployment .checked) w) feeWorld
    [usdcBond 0 100 50 200, usdcCashout 30]
    (fun es w => decide (cashedOut 1 es = 30) && (w.escrows 1).any fun (esc : Escrow) =>
      decide (esc.numTokenToRedeem = 29 ∧ esc.isFinished = 1)) (by decide +kernel)
  rw [Bool.and_eq_true, decide_eq_true_eq, Option.any_eq_true] at hp
  obtain ⟨hsum, esc, hesc, hp⟩ := hp
  obtain ⟨hnum, hopen⟩ := of_decide_eq_true hp
  obtain ⟨e₁, e₂, rfl, h₁, h₂⟩ : ∃ e₁ e₂, es = [e₁, e₂] ∧ e₁.call = usdcBond 0 100 50 200 ∧
      e₂.call = usdcCashout 30 := by
    simpa [List.map_eq_cons_iff, and_assoc] using hcalls
  obtain ⟨v₁, hstep₁, hrest⟩ := hrun.split_cons
  obtain ⟨v₂, hstep₂, hnil⟩ := hrest.split_cons
  rw [Run.nil_iff] at hnil
  subst hnil
  have hbond : BondStep (smallDeployment .checked) feeWorld e₁ v₁ :=
    ⟨hstep₁, .inl ⟨_, _, by rw [h₁]; rfl⟩⟩
  have hcash : BondStep (smallDeployment .checked) v₁ e₂ w :=
    ⟨hstep₂, .inr (.inr ⟨_, _, by rw [h₂]; rfl⟩)⟩
  refine ⟨[e₁, e₂], w, .cons hbond (.single hcash), hcalls, hsum, ⟨esc, hesc, hnum, hopen⟩, ?_⟩
  intro hbounded
  obtain ⟨htotal, -⟩ := hbounded [e₁] v₁ e₂ w ⟨List.prefix_rfl, .single hbond, hcash⟩ 1
  have hle := htotal esc hesc
  rw [hnum] at hle
  exact absurd (hsum.symm.trans_le hle) (by decide)

end Saturn
