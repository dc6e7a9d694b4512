import Saturn.Bond.Redemption
import Saturn.Bond.Supply
import Saturn.Bond.Terms

/-!
# What the creator of a bond is paid

`apply_bond` counts in whole tokens of a hundred base units: it mints `num_token_to_mint * 100` to
the stakers, and records `num_token_to_redeem` for the creator. Two weeks later `finish_bond` mints
the recorded number as it stands, in base units. So the creator is paid a hundredth of what the bond
was priced for, and that is within a token of the payment only for a payment of hardly more than one
token (`creator_paid_iff`).
-/

namespace Saturn

open Machine Transition

variable {F : Type} [F64 F] {d : Deployment} {w w₁ v v' : World F} {e f : Event F}
  {es : List (Event F)}
  {a : ApplyBond} {b : FinishBond} {args : ApplyBondArgs} {env : Env} {x : Exec F}
  {s : ApplyBond.Sale}

/-! ## A bond without overflow -/

/-- Nothing in the pricing of the sale left its type. -/
structure ApplyBond.Sale.Exact (s : Sale) (backingPrice : UInt64) (args : ApplyBondArgs) :
    Prop where
  total : s.totalPrice.toInt = s.price.price.toInt * args.tokenAmount.toNat
  prices : PricesExactly backingPrice args.spotPrice s.totalPrice.toUInt64

theorem ApplyBond.Sale.Accepted.exact (h : s.Accepted a d env args x)
    (hd : d.profile.overflowChecks = true) : s.Exact x.world.treasury.backingPrice args where
  total := by
    obtain ⟨htotal, hfits⟩ := Profile.mulI64_eq_ok.mp h.total
    rw [htotal, toInt_mul_of_fits (hfits hd), toInt_toInt64_of_lt (h.amount_lt hd)]
  prices := h.terms_eq.2.2.1 hd

/-! ## Whole tokens and base units -/

/-- `minted` base units, counted in tokens of a hundred, are worth `total` at `price` a token, up to
one token. -/
def WorthThePayment (total price : ℤ) (minted : ℕ) : Prop :=
  (total - price : ℚ) < price * (minted / 100) ∧ (price * (minted / 100) : ℚ) ≤ total

theorem worthThePayment_iff {total price minted : ℕ} : WorthThePayment total price minted ↔
    100 * total < price * minted + 100 * price ∧ price * minted ≤ 100 * total := by
  rw [WorthThePayment, ← @Nat.cast_lt ℚ, ← @Nat.cast_le ℚ]
  push_cast
  constructor
  · rintro ⟨hlt, hle⟩
    constructor
    · linarith
    · linarith
  · rintro ⟨hlt, hle⟩
    constructor
    · linarith
    · linarith

/-- As many base units as the total holds whole tokens are worth it only below one and a
hundredth. -/
theorem worthThePayment_div_iff {total price : ℕ} (hprice : 0 < price) :
    WorthThePayment total price (total / price) ↔ 100 * total < 101 * price := by
  have hdiv := Nat.div_add_mod total price
  have hmod := Nat.mod_lt total hprice
  rw [worthThePayment_iff]
  generalize total / price = q at *
  generalize total % price = r at *
  subst hdiv
  -- two units or more are too few, and a total of two tokens or more is too much
  rcases q with _ | _ | q
  · omega
  · omega
  · have hmul : price * 2 ≤ price * (q + 1 + 1) := Nat.mul_le_mul_left _ (by omega)
    omega

theorem worthThePayment_zero_iff {total price : ℕ} :
    WorthThePayment total price 0 ↔ total < price := by
  rw [worthThePayment_iff, Nat.mul_zero]
  omega

theorem worthThePayment_minted_iff {total price : ℕ} {c : Prop} [Decidable c] (hprice : 0 < price) :
    WorthThePayment total price (if c then total / price else 0) ↔
      total < price ∨ 100 * total < 101 * price ∧ c := by
  split_ifs with hc
  · rw [worthThePayment_div_iff hprice]
    constructor
    · intro hlt
      exact .inr ⟨hlt, hc⟩
    · rintro (hlt | ⟨hlt, -⟩)
      · omega
      · exact hlt
  · simp [worthThePayment_zero_iff, hc]

/-- Without overflow the creator is promised the whole tokens that the payment buys. -/
theorem PricesExactly.toNat_redeem {B S T : UInt64} (h : PricesExactly B S T) (hB : B ≠ 0) :
    (creatorRedeem B S T).toNat = T.toNat / (bondPriceOf B S).toNat := by
  rw [toNat_creatorRedeem h, Nat.mul_div_mul_left _ _ (ne_zero_iff_toNat_pos.mp hB)]

/-! ## From the bond to its end -/

/-- The escrow that an accepted sale leaves. -/
theorem HandlerStep.escrow_of_sale (h : HandlerStep d w e w₁)
    (hi : e.call.instruction = .applyBond a args) (hs : s.Accepted a d e.call.env args (.start w)) :
    w₁.escrows a.creator = some (s.escrow a e.call.env args) := by
  have hhandle : a.handle d e.call.env args (.start w) = .ok ⟨w₁, e.trace⟩ := h.handle_eq hi
  rw [ApplyBond.handle_eq_ok.mpr ⟨s, hs, rfl⟩] at hhandle
  have hw : (s.result a d e.call.env args (.start w)).world = w₁ :=
    congrArg Exec.world (Except.ok.inj hhandle)
  rw [← hw]
  exact Function.update_self _ _ _

/-- The end of a bond mints what its sale recorded, of the mint it names. -/
theorem Step.finish_mints (hbond : Step d w e w₁) (hi : e.call.instruction = .applyBond a args)
    (hs : s.Accepted a d e.call.env args (.start w)) (hrun : Run (Step d) w₁ es v)
    (hfinish : Step d v f v') (hf : f.call.instruction = .finishBond b) (hb : b.user = a.creator) :
    f.stfMinted = if b.stfTokenMint = stfMint then s.terms.numTokenToRedeem.toNat else 0 := by
  have hhandler : Run (HandlerStep d) w₁ es v := hrun.mono fun _ _ _ => Step.handlerStep
  have hesc := hbond.handlerStep.escrow_of_sale hi hs
  obtain ⟨b', esc, hf', -, hesc', hopen, -, -, htrace⟩ :=
    hfinish.handlerStep.finish (u := a.creator) ⟨b, hf, hb⟩
  rw [hf] at hf'
  cases hf'
  -- an escrow that was finished before could not be finished here
  rcases (Run.escrow_open hhandler hesc).2 with ⟨hcur, -⟩ | ⟨hcur, -⟩
  · rw [hcur] at hesc'
    cases hesc'
    rw [Event.stfMinted, htrace]
    simp [FinishBond.redemption, CpiInstruction.stfMinted]
  · rw [hcur] at hesc'
    cases hesc'
    cases hopen

/-- For every bond accepted without overflow at a positive price, and its end: the STF base units
that `finish_bond` mints, counted in tokens of a hundred, are worth the payment at the bond price up
to one token, if and only if the payment is less than one token, or less than one and a hundredth
and `finish_bond` is given the STF mint. -/
theorem creator_paid_iff (hbond : Step d w e w₁) (hi : e.call.instruction = .applyBond a args)
    (hs : s.Accepted a d e.call.env args (.start w)) (hexact : s.Exact w.treasury.backingPrice args)
    (hprice : 0 < s.price.price.toInt) (hrun : Run (Step d) w₁ es v) (hfinish : Step d v f v')
    (hf : f.call.instruction = .finishBond b) (hb : b.user = a.creator) :
    WorthThePayment s.totalPrice.toInt s.terms.bondPrice.toNat f.stfMinted ↔
      s.price.price.toInt * args.tokenAmount.toNat
          < (bondPriceOf w.treasury.backingPrice args.spotPrice).toNat ∨
        100 * (s.price.price.toInt * args.tokenAmount.toNat)
            < 101 * (bondPriceOf w.treasury.backingPrice args.spotPrice).toNat ∧
          b.stfTokenMint = stfMint := by
  obtain ⟨hB, hne, -⟩ := hs.terms_eq
  rw [Exec.start_world] at hB hne
  have hnonneg : 0 ≤ s.totalPrice.toInt := by
    rw [hexact.total]
    positivity
  have hminted : f.stfMinted = if b.stfTokenMint = stfMint then s.totalPrice.toUInt64.toNat
      / (bondPriceOf w.treasury.backingPrice args.spotPrice).toNat else 0 := by
    rw [hbond.finish_mints hi hs hrun hfinish hf hb, hs.terms_mk, Exec.start_world,
      ← hexact.prices.toNat_redeem hB]
  rw [hminted, ← hexact.total, ← toNat_toUInt64_of_nonneg hnonneg, hs.terms_mk, Exec.start_world,
    worthThePayment_minted_iff (ne_zero_iff_toNat_pos.mp hne)]
  norm_cast

/-! ### One token, and twenty-nine -/

/-- A bond of user `1` in the small world and its end, in a build that rejects overflow. -/
theorem exists_smallBond (price : Int64) (amount : UInt64) (h : (replay
      (fun c w => c.process (smallDeployment .checked) w) smallWorld
      [usdcBond 0 price amount 200, stfFinish 1209600]).any (fun _ => true) = true) :
    ∃ (e f : Event ℚ) (w₁ v : World ℚ) (s : ApplyBond.Sale), e.call = usdcBond 0 price amount 200 ∧
      f.call = stfFinish 1209600 ∧ Step (smallDeployment .checked) smallWorld e w₁ ∧
      Step (smallDeployment .checked) w₁ f v ∧
      s.Accepted usdcBuyer (smallDeployment .checked) e.call.env ⟨amount, 200⟩ (.start smallWorld) ∧
      s.price.price = price := by
  obtain ⟨es, v, hrun, hcalls, -⟩ := exists_run_of_replay
    (fun c w => c.process (smallDeployment .checked) w) smallWorld
    [usdcBond 0 price amount 200, stfFinish 1209600] (fun _ _ => true) h
  obtain ⟨e, f, rfl, he, hf⟩ : ∃ e f, es = [e, f] ∧ e.call = usdcBond 0 price amount 200 ∧
      f.call = stfFinish 1209600 := by
    simpa [List.map_eq_cons_iff, and_assoc] using hcalls
  obtain ⟨w₁, hbond, hrest⟩ := hrun.split_cons
  obtain ⟨v', hfinish, hnil⟩ := hrest.split_cons
  rw [Run.nil_iff] at hnil
  subst hnil
  have hstep : Step (smallDeployment .checked) smallWorld e w₁ := hbond
  obtain ⟨s, hs, -⟩ := ApplyBond.handle_eq_ok.mp
    (hstep.handlerStep.handle_eq (i := .applyBond usdcBuyer ⟨amount, 200⟩) (by rw [he]; rfl))
  have hc : s.collateral = .usdc := Option.some.inj hs.collateral.symm
  have hread := hs.price
  rw [hc, he] at hread
  have hprice : s.price = ⟨price, 0, 0⟩ := (Option.some.inj hread).symm
  exact ⟨e, f, w₁, v, s, he, hf, hstep, hfinish, hs, by rw [hprice]⟩

/-- At a bond price of a hundred and seventy, a payment of as much is delivered. -/
theorem creator_paid_iff_one : ∃ (e f : Event ℚ) (w₁ v : World ℚ) (s : ApplyBond.Sale),
    e.call = usdcBond 0 17 10 200 ∧ f.call = stfFinish 1209600 ∧
      Step (smallDeployment .checked) smallWorld e w₁ ∧ Step (smallDeployment .checked) w₁ f v ∧
      WorthThePayment s.totalPrice.toInt s.terms.bondPrice.toNat f.stfMinted := by
  obtain ⟨e, f, w₁, v, s, he, hf, hbond, hfinish, hs, hprice⟩ :=
    exists_smallBond 17 10 (by decide +kernel)
  have hpos : 0 < s.price.price.toInt := by
    rw [hprice]
    decide
  refine ⟨e, f, w₁, v, s, he, hf, hbond, hfinish, ?_⟩
  refine (creator_paid_iff hbond (by rw [he]; rfl) hs (hs.exact rfl) hpos .nil hfinish
    (by rw [hf]; rfl) rfl).mpr (.inr ⟨?_, rfl⟩)
  rw [hprice]
  decide +kernel

/-- A payment of twenty-nine tokens is answered with twenty-nine base units. -/
theorem creator_underpaid : ∃ (e f : Event ℚ) (w₁ v : World ℚ) (s : ApplyBond.Sale),
    e.call = usdcBond 0 100 50 200 ∧ f.call = stfFinish 1209600 ∧
      Step (smallDeployment .checked) smallWorld e w₁ ∧ Step (smallDeployment .checked) w₁ f v ∧
      s.Accepted usdcBuyer (smallDeployment .checked) e.call.env ⟨50, 200⟩ (.start smallWorld) ∧
      s.Exact smallWorld.treasury.backingPrice ⟨50, 200⟩ ∧ f.stfMinted = 29 ∧
      ¬ WorthThePayment s.totalPrice.toInt s.terms.bondPrice.toNat f.stfMinted := by
  obtain ⟨e, f, w₁, v, s, he, hf, hbond, hfinish, hs, hprice⟩ :=
    exists_smallBond 100 50 (by decide +kernel)
  have hexact : s.Exact smallWorld.treasury.backingPrice ⟨50, 200⟩ := hs.exact rfl
  have htotal : s.totalPrice.toInt = 5000 := by
    rw [hexact.total, hprice]
    decide
  have hB : smallWorld.treasury.backingPrice = 100 := by decide +kernel
  have hcast : s.totalPrice = 5000 := Int64.toInt_inj.mp htotal
  have hterms : s.terms = ⟨100, 170, 20, 29⟩ := by
    rw [hs.terms_mk, Exec.start_world, hB, hcast]
    decide
  have hminted : f.stfMinted = 29 := by
    rw [hbond.finish_mints (by rw [he]; rfl) hs .nil hfinish
      (show f.call.instruction = .finishBond ⟨1, 14, stfMint⟩ by rw [hf]; rfl) rfl, hterms]
    rfl
  refine ⟨e, f, w₁, v, s, he, hf, hbond, hfinish, hs, hexact, hminted, ?_⟩
  rw [hminted, htotal, hterms]
  show ¬ WorthThePayment ((5000 : ℕ) : ℤ) ((170 : ℕ) : ℤ) 29
  rw [worthThePayment_iff]
  decide

end Saturn
