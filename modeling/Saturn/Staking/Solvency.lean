import Saturn.Staking.Ledger
import Saturn.Bond.Pricing
import Saturn.State.Token
import Saturn.Keyed.Pool

/-!
# Stakers' claims and the STF that backs them

The staking ledger is a pool of rebasing shares (`Keyed.Pool`): a staker's `total_staked_index` are
its shares, the staking index is what a share is worth, and the reserve is the STF in token accounts
of the treasury's authority. `stake_stf` is a deposit of the pool, provided it names the STF mint,
`unstake_stf` a withdrawal whatever mint it names, and `apply_bond` a rebase. So the pool stays
solvent where every stake is in STF; a stake in another mint credits shares and brings no reserve.
-/

namespace Saturn

open Machine Transition Function

variable {F : Type} [F64 F] {d : Deployment} {w w' : World F} {e : Event F}

/-! ## The pool -/

/-- The STF in token accounts of the treasury's authority. -/
noncomputable def stfHeld (d : Deployment) (w : World F) : ℕ :=
  held w.ledger.tokenAccount stfMint d.treasuryAuthority

/-- The staking ledger, as a pool. -/
noncomputable def stakePool (d : Deployment) (w : World F) : Keyed.Pool Pubkey where
  shares := w.shares
  index := w.treasury.stakingIndex.toNat
  reserve := stfHeld d w

/-! ## The steps of the staking instructions -/

/-- What is assumed of the environment of a call: the token program is exact, and the authority of
the treasury, a PDA, did not sign the transaction. -/
structure Sound (d : Deployment) (env : Env) : Prop where
  exact : TokenExact env
  unsigned : d.treasuryAuthority ∉ env.signers

omit [F64 F] in
theorem Sound.signer_ne {env : Env} {k : Pubkey} (hs : Sound d env) (h : k ∈ env.signers) :
    k ≠ d.treasuryAuthority := by
  intro heq
  exact hs.unsigned (heq ▸ h)

/-- An accepted call of `stake_stf`, `unstake_stf` or `apply_bond`. -/
def StakingStep (d : Deployment) (w : World F) (e : Event F) (w' : World F) : Prop :=
  Step d w e w' ∧ Sound d e.call.env ∧
    ((∃ a n, e.call.instruction = .stakeSTF a n) ∨
      (∃ a n, e.call.instruction = .unstakeSTF a n) ∨
      ∃ a args, e.call.instruction = .applyBond a args)

/-- What an accepted stake leaves: `n` units of its mint moved to the treasury, and the shares. -/
theorem Step.stake {a : StakeSTF} {n : UInt64} (h : Step d w e w') (hs : Sound d e.call.env)
    (hi : e.call.instruction = .stakeSTF a n) :
    w.treasury.stakingIndex ≠ 0 ∧
      w'.treasury = w.treasury.setTokenStaked
        (w.treasury.tokenStaked + n / w.treasury.stakingIndex) ∧
      w'.shares = update w.shares a.user ((w.stakeAccount a.user).totalStakedIndex
        + n / w.treasury.stakingIndex).toNat ∧
      stfHeld d w' = stfHeld d w + if a.stfTokenMint = stfMint then n.toNat else 0 := by
  obtain ⟨hsigner, ⟨ua, hua, hmint, howner⟩, ⟨ta, hta, hmint', howner'⟩, -⟩ :=
    stakingConstraints_eq_ok.mp (h.constraints_eq hi)
  obtain ⟨hindex, htreasury, hshares⟩ := h.handlerStep.stake hi
  obtain ⟨l, hcpi, hl, -⟩ := h.handlerStep.stakeSTF_deposit hi
  have hne : ua.owner ≠ ta.owner := by
    rw [howner, howner']
    exact hs.signer_ne hsigner
  refine ⟨hindex, htreasury, hshares, ?_⟩
  have hreceived := held_of_received stfMint hua hta hne (hs.exact.transfer _ _ _ _ _ _ _ _ hcpi)
  rw [howner', hmint'] at hreceived
  rw [stfHeld, stfHeld, hl]
  exact hreceived

/-- What an accepted unstake leaves: `n` shares fewer, and at most their worth moved from the
treasury. -/
theorem Step.unstake {a : UnStakeSTF} {n : UInt64} (h : Step d w e w') (hs : Sound d e.call.env)
    (hi : e.call.instruction = .unstakeSTF a n) :
    n.toNat ≤ w.shares a.user ∧
      w'.treasury = w.treasury.setTokenStaked (w.treasury.tokenStaked - n) ∧
      w'.shares = update w.shares a.user (w.shares a.user - n.toNat) ∧
      stfHeld d w ≤ stfHeld d w' + n.toNat * w.treasury.stakingIndex.toNat := by
  obtain ⟨hsigner, ⟨ua, hua, hmint, howner⟩, ⟨ta, hta, hmint', howner'⟩, -⟩ :=
    stakingConstraints_eq_ok.mp (h.constraints_eq hi)
  obtain ⟨hlt, htreasury, hshares⟩ := h.handlerStep.unstake hi
  have hne : ta.owner ≠ ua.owner := by
    rw [howner, howner']
    exact (hs.signer_ne hsigner).symm
  refine ⟨hlt.le, htreasury, hshares, ?_⟩
  rcases h.handlerStep.unstakeSTF_payout hi with ⟨l, hcpi, hl, -⟩ | ⟨-, hl⟩
  · have hsent := held_of_sent stfMint hta hua hne
      (hs.exact.transferChecked _ _ _ _ _ _ _ _ _ _ hcpi)
    have hpay : (n * w.treasury.stakingIndex).toNat ≤ n.toNat * w.treasury.stakingIndex.toNat :=
      toNat_mul_le
    rw [howner'] at hsent
    rw [stfHeld, stfHeld, hl]
    show held w.ledger.tokenAccount stfMint d.treasuryAuthority ≤ _
    split at hsent
    · exact hsent.le.trans (Nat.add_le_add_left hpay _)
    · exact hsent.le.trans (Nat.add_le_add_left (Nat.zero_le _) _)
  · -- the transfer failed: nothing was paid
    rw [stfHeld, stfHeld, hl]
    omega

/-- A payment touches no STF, and leaves every token account with its owner. -/
theorem ApplyBond.Sale.Accepted.payment_stf {a : ApplyBond} {env : Env} {args : ApplyBondArgs}
    {s : ApplyBond.Sale} (h : s.Accepted a d env args (.start w)) (hs : Sound d env)
    (hc : a.constraints d env w = .ok ()) :
    stfHeld d { w with ledger := s.paid } = stfHeld d w ∧
      ∃ b, s.paid.tokenAccount a.treasuryStfTokenAccount = some b ∧ b.mint = stfMint ∧
        b.owner = d.treasuryAuthority := by
  simp only [ApplyBond.constraints, bind_eq_ok, requireSigner_eq_ok,
    requireTokenAccount_eq_ok] at hc
  obtain ⟨_, hsigner, _, ⟨ca, hca, hcmint, hcowner⟩, _, ⟨ta, hta, htmint, htowner⟩, b, hb, hbmint,
    hbowner⟩ := hc
  have hne : ca.owner ≠ ta.owner := by
    rw [hcowner, htowner]
    exact hs.signer_ne hsigner
  have hmint : a.tokenMintAddress ≠ stfMint := by
    intro heq
    have hcoll := h.collateral
    rw [heq] at hcoll
    cases hcoll
  have hpaid := h.paid
  cases hcoll : s.collateral with
  | sol =>
      rw [hcoll] at hpaid
      have hsame := hs.exact.systemTransfer _ _ _ _ _ _ _ hpaid
      refine ⟨?_, b, ?_, hbmint.trans h.stf, hbowner⟩
      · rw [stfHeld, stfHeld, hsame]
        rfl
      · rw [hsame]
        exact hb
  | _ =>
      rw [hcoll] at hpaid
      have hmoves := hs.exact.transfer _ _ _ _ _ _ _ _ hpaid
      have hreceived := held_of_received stfMint hca hta hne hmoves
      rw [htowner, htmint, if_neg hmint] at hreceived
      obtain ⟨b', hb', hmint', howner'⟩ := hmoves.same_owner hb
      exact ⟨hreceived, b', hb', hmint'.trans (hbmint.trans h.stf), howner'.trans hbowner⟩

/-- What an accepted bond leaves: the stakers' share in STF of the treasury, and no share
changed. -/
theorem Step.bond {a : ApplyBond} {args : ApplyBondArgs} (h : Step d w e w')
    (hs : Sound d e.call.env) (hi : e.call.instruction = .applyBond a args) :
    ∃ s : ApplyBond.Sale, s.Accepted a d e.call.env args (.start w) ∧
      w'.treasury = s.treasury w.treasury ∧ w'.shares = w.shares ∧
      stfHeld d w' = stfHeld d w + (s.terms.numTokenToMint * 100).toNat := by
  obtain ⟨s, hsale, hy⟩ := ApplyBond.handle_eq_ok.mp (h.handlerStep.handle_eq hi)
  obtain ⟨hpayment, b, hb, hmint, howner⟩ :=
    hsale.payment_stf hs (h.constraints_eq hi)
  have hl : w'.ledger = s.minted := congrArg (fun y => y.world.ledger) hy
  have hstake : w'.stakeAccounts = w.stakeAccounts :=
    congrArg (fun y => y.world.stakeAccounts) hy
  refine ⟨s, hsale, congrArg (fun y => y.world.treasury) hy, ?_, ?_⟩
  · funext u
    rw [World.shares, World.shares, World.stakeAccount, World.stakeAccount, hstake]
  · have hcredits := held_of_credits stfMint d.treasuryAuthority hb
      (hs.exact.mintTo _ _ _ _ _ _ _ _ hsale.minted)
    rw [if_pos ⟨hmint, howner⟩] at hcredits
    rw [← hpayment, stfHeld, stfHeld, hl]
    exact hcredits

/-! ## The invariant -/

/-- The treasury covers its stakers, and records their shares up to wrapping. -/
structure Staked (d : Deployment) (w : World F) : Prop where
  solvent : (stakePool d w).Solvent
  index : 0 < w.treasury.stakingIndex.toNat
  recorded : w.treasury.tokenStaked.toNat = (stakePool d w).totalShares % 2 ^ 64

/-- A call that is a stake names the STF mint. -/
def StakesStf (_ : World F) (e : Event F) : Prop :=
  ∀ a n, e.call.instruction = .stakeSTF a n → a.stfTokenMint = stfMint

/-- For a call that is a bond, the hundredfold of the total price fits into a `u64` next to the STF
held. -/
def RoomForReward (d : Deployment) (w : World F) (e : Event F) : Prop :=
  ∀ a args c price, e.call.instruction = .applyBond a args →
    Collateral.ofMint a.tokenMintAddress = some c →
    e.call.env.getPriceNoOlderThan (a.priceUpdate c) 30 c.feedId = some price →
    stfHeld d w + (totalPriceOf price args).toNat * 100 < 2 ^ 64

section

omit [F64 F]

/-- Below `2 ^ 64` units of STF held, the record of the shares has not wrapped. -/
theorem Staked.tokenStaked_eq (hw : Staked d w) (h : stfHeld d w < 2 ^ 64) :
    w.treasury.tokenStaked.toNat = (stakePool d w).totalShares := by
  have hshare : (stakePool d w).totalShares ≤ stfHeld d w :=
    (Nat.le_mul_of_pos_right _ hw.index).trans hw.solvent
  rw [hw.recorded]
  exact Nat.mod_eq_of_lt (hshare.trans_lt h)

theorem recorded_iff : w.treasury.tokenStaked.toNat = (stakePool d w).totalShares % 2 ^ 64 ↔
    Recorded w := by
  have hlt := w.treasury.tokenStaked.toNat_lt
  rw [Recorded, Nat.ModEq, Nat.mod_eq_of_lt hlt]
  rfl

theorem Staked.index_le (hw : Staked d w) (h : 0 < (stakePool d w).totalShares) :
    w.treasury.stakingIndex.toNat ≤ stfHeld d w :=
  (Nat.le_mul_of_pos_left _ h).trans hw.solvent

end

theorem Staked.stake {a : StakeSTF} {n : UInt64} (hw : Staked d w) (h : Step d w e w')
    (hs : Sound d e.call.env) (hi : e.call.instruction = .stakeSTF a n)
    (hmint : a.stfTokenMint = stfMint) :
    Keyed.Pool.Step (stakePool d w) (stakePool d w') ∧ Staked d w' := by
  obtain ⟨hindex, htreasury, hshares, hheld⟩ := h.stake hs hi
  rw [if_pos hmint] at hheld
  have hpool : stakePool d w' = { stakePool d w with
      shares := update w.shares a.user ((w.stakeAccount a.user).totalStakedIndex
        + n / w.treasury.stakingIndex).toNat
      reserve := stfHeld d w + n.toNat } := by
    rw [stakePool, hshares, hheld, htreasury]
    rfl
  have hstep : Keyed.Pool.Step (stakePool d w) (stakePool d w') := by
    rw [hpool]
    apply Keyed.Pool.Step.deposit a.user (n / w.treasury.stakingIndex).toNat
    · exact toNat_add_le
    · rw [UInt64.toNat_div]
      exact Nat.div_mul_le_self _ _
  refine ⟨hstep, hstep.solvent hw.solvent, ?_, ?_⟩
  · rw [htreasury]
    exact hw.index
  · exact recorded_iff.mpr ((recorded_iff.mp hw.recorded).stake h.handlerStep hi)

theorem Staked.unstake {a : UnStakeSTF} {n : UInt64} (hw : Staked d w) (h : Step d w e w')
    (hs : Sound d e.call.env) (hi : e.call.instruction = .unstakeSTF a n) :
    Keyed.Pool.Step (stakePool d w) (stakePool d w') ∧ Staked d w' := by
  obtain ⟨hle, htreasury, hshares, hheld⟩ := h.unstake hs hi
  have hpool : stakePool d w' = { stakePool d w with
      shares := update w.shares a.user (w.shares a.user - n.toNat)
      reserve := stfHeld d w' } := by
    rw [stakePool, hshares, htreasury]
    rfl
  have hstep : Keyed.Pool.Step (stakePool d w) (stakePool d w') := by
    rw [hpool]
    apply Keyed.Pool.Step.withdraw a.user n.toNat
    · exact Nat.sub_add_cancel hle
    · exact hheld
  refine ⟨hstep, hstep.solvent hw.solvent, ?_, ?_⟩
  · rw [htreasury]
    exact hw.index
  · exact recorded_iff.mpr ((recorded_iff.mp hw.recorded).unstake h.handlerStep hi)

/-- A bond is a rebase of the pool: the index rises by less than what is minted for the stakers. -/
theorem Staked.bond {a : ApplyBond} {args : ApplyBondArgs} (hw : Staked d w) (h : Step d w e w')
    (hs : Sound d e.call.env) (hi : e.call.instruction = .applyBond a args)
    (hroom : RoomForReward d w e) :
    Keyed.Pool.Step (stakePool d w) (stakePool d w') ∧ Staked d w' := by
  obtain ⟨s, hsale, htreasury, hshares, hheld⟩ := h.bond hs hi
  obtain ⟨hB, hprice, -, hmint, -⟩ := hsale.terms_eq
  -- the reward has room, so the recorded shares are all there are and the index does not wrap
  have hfits := hroom a args _ _ hi hsale.collateral hsale.price
  rw [← hsale.totalPrice_eq hsale.collateral hsale.price] at hfits
  have hle : s.terms.numTokenToMint.toNat ≤ s.totalPrice.toUInt64.toNat := by
    rw [hmint]
    exact toNat_stakersMint_le hB hprice
  have hhundred : (s.terms.numTokenToMint * 100).toNat = s.terms.numTokenToMint.toNat * 100 :=
    toNat_mul_of_lt (show s.terms.numTokenToMint.toNat * 100 < 2 ^ 64 by omega)
  have hrec := hw.tokenStaked_eq (show stfHeld d w < 2 ^ 64 by omega)
  have hstaked : 0 < w.treasury.tokenStaked.toNat := ne_zero_iff_toNat_pos.mp hsale.staked
  have hidx := hw.index_le (hrec ▸ hstaked)
  have hrise := Nat.div_le_self s.terms.numTokenToMint.toNat w.treasury.tokenStaked.toNat
  have hindex : w'.treasury.stakingIndex.toNat = w.treasury.stakingIndex.toNat
      + s.terms.numTokenToMint.toNat / w.treasury.tokenStaked.toNat := by
    rw [htreasury, ApplyBond.Sale.treasury_stakingIndex, toNat_add_of_lt, UInt64.toNat_div]
    rw [UInt64.toNat_div]
    omega
  have hpool : stakePool d w' = { stakePool d w with
      index := w.treasury.stakingIndex.toNat
        + s.terms.numTokenToMint.toNat / w.treasury.tokenStaked.toNat
      reserve := stfHeld d w + s.terms.numTokenToMint.toNat * 100 } := by
    rw [stakePool, hshares, hheld, hindex, hhundred]
    rfl
  have hstep : Keyed.Pool.Step (stakePool d w) (stakePool d w') := by
    rw [hpool]
    apply Keyed.Pool.Step.rebase
    -- the index rises by less than the hundredfold that is minted
    have hdiv := Nat.mul_div_le s.terms.numTokenToMint.toNat w.treasury.tokenStaked.toNat
    rw [← hrec, Nat.mul_add]
    show _ ≤ w.treasury.tokenStaked.toNat * w.treasury.stakingIndex.toNat + _
    omega
  refine ⟨hstep, hstep.solvent hw.solvent, ?_, ?_⟩
  · rw [hindex]
    exact Nat.add_pos_left hw.index _
  · rw [htreasury, ApplyBond.Sale.treasury_tokenStaked, hw.recorded, hpool]
    rfl

/-! ## Every run -/

/-- Nobody has staked yet, and the staking index is the one `initialize` writes. -/
structure Unstaked (w : World F) : Prop where
  index : w.treasury.stakingIndex = 1
  tokenStaked : w.treasury.tokenStaked = 0
  accounts : ∀ u, w.stakeAccounts u = none

omit [F64 F] in
theorem Unstaked.totalShares (h : Unstaked w) : (stakePool d w).totalShares = 0 := by
  apply Keyed.total_eq_zero
  intro u
  show (w.stakeAccount u).totalStakedIndex.toNat = 0
  rw [World.stakeAccount, h.accounts]
  rfl

omit [F64 F] in
theorem Unstaked.staked (h : Unstaked w) : Staked d w where
  solvent := by
    rw [Keyed.Pool.Solvent, Keyed.Pool.claims, h.totalShares, Nat.zero_mul]
    exact Nat.zero_le _
  index := by
    rw [h.index]
    decide
  recorded := by
    rw [h.totalShares, h.tokenStaked]
    rfl

theorem Initialize.unstaked (a : Initialize) (l : Ledger) : Unstaked (a.world l : World F) :=
  ⟨rfl, rfl, fun _ => rfl⟩

theorem Initialize.backingPrice (a : Initialize) : (a.treasury : Treasury F).backingPrice = 0 :=
  F64.toU64_zero_div_zero

/-- At a backing price of zero a bond panics; and staking keeps it at zero. -/
theorem Staked.step_unfunded (hw : Staked d w) (hzero : w.treasury.backingPrice = 0)
    (h : StakingStep d w e w') (hstf : StakesStf w e) :
    Staked d w' ∧ w'.treasury.backingPrice = 0 := by
  obtain ⟨hstep, hs, ⟨a, n, hi⟩ | ⟨a, n, hi⟩ | ⟨a, args, hi⟩⟩ := h
  · obtain ⟨-, htreasury, -⟩ := hstep.stake hs hi
    refine ⟨(hw.stake hstep hs hi (hstf a n hi)).2, ?_⟩
    rw [htreasury]
    exact hzero
  · obtain ⟨-, htreasury, -⟩ := hstep.unstake hs hi
    refine ⟨(hw.unstake hstep hs hi).2, ?_⟩
    rw [htreasury]
    exact hzero
  · obtain ⟨s, hsale, -⟩ := hstep.bond hs hi
    exact absurd hzero hsale.terms_eq.1

theorem Staked.step (hw : Staked d w) (h : StakingStep d w e w') (hstf : StakesStf w e)
    (hroom : RoomForReward d w e) :
    Keyed.Pool.Step (stakePool d w) (stakePool d w') ∧ Staked d w' := by
  obtain ⟨hstep, hs, ⟨a, n, hi⟩ | ⟨a, n, hi⟩ | ⟨a, args, hi⟩⟩ := h
  · exact hw.stake hstep hs hi (hstf a n hi)
  · exact hw.unstake hstep hs hi
  · exact hw.bond hstep hs hi hroom

/-- If every accepted stake names the STF mint, what all stakers together can claim is covered by
the STF of the treasury, in every run from the treasury `initialize` writes. It is also covered in a
run that starts from any other treasury in which nobody has staked, if its bonds leave room for
their rewards. -/
theorem stakers_covered :
    (∀ (a : Initialize) (l : Ledger) (es : List (Event F)) (w : World F),
      Run (Guarded (StakingStep d) StakesStf) (a.world l) es w →
        (stakePool d w).claims ≤ stfHeld d w) ∧
    ∀ (w₀ : World F) (es : List (Event F)) (w : World F), Unstaked w₀ →
      Run (Guarded (StakingStep d) fun v e => StakesStf v e ∧ RoomForReward d v e) w₀ es w →
        (stakePool d w).claims ≤ stfHeld d w := by
  refine ⟨?_, ?_⟩
  · intro a l es w hrun
    have hinv := hrun.invariant (fun v => Staked d v ∧ v.treasury.backingPrice = 0)
      ⟨(a.unstaked l).staked, a.backingPrice⟩ fun v e v' hstep hv =>
        hv.1.step_unfunded hv.2 hstep.1 hstep.2
    exact hinv.1.solvent
  · intro w₀ es w h₀ hrun
    have hinv := hrun.invariant (Staked d) h₀.staked fun v e v' hstep hv =>
      (hv.step hstep.1 hstep.2.1 hstep.2.2).2
    exact hinv.solvent

/-! ### A small run

User `1` stakes ten units of STF, buys a bond and takes three of the ten shares out. -/

/-- A treasury with a value, in which nobody has staked. -/
def fundedWorld : World ℚ where
  treasury := smallTreasury.setTokenStaked 0
  sequenceFlag := Initialize.sequenceFlag
  stakeAccounts _ := none
  escrows _ := none
  ledger := stfLedger

theorem sound_splEnv (t : Int64) (price : FeedId → Option Price) :
    Sound (smallDeployment .release) (splEnv t [1] price) :=
  ⟨spl_exact rfl, show (9 : Pubkey) ∉ [(1 : Pubkey)] by decide⟩

theorem stfHeld_stfLedger (w : World ℚ) (h : w.ledger = stfLedger) :
    stfHeld (smallDeployment .release) w = 0 := by
  apply Keyed.total_eq_zero
  intro k
  simp only [h, Ledger.tokenAccount, stfLedger]
  split_ifs
  all_goals decide

/-- The stake alone from the treasury `initialize` writes, and all three calls from one with a
value. -/
theorem stakers_covered_small :
    (∃ (e : Event ℚ) (w : World ℚ), e.call = stfStake ∧
      Run (StakingStep (smallDeployment .release)) (Initialize.world ⟨7⟩ stfLedger) [e] w ∧
      (stakePool (smallDeployment .release) w).claims ≤ stfHeld (smallDeployment .release) w) ∧
    ∃ (es : List (Event ℚ)) (w : World ℚ),
      es.map Event.call = [stfStake, usdcBond 0 100 50 200, stfUnstake] ∧
      Run (StakingStep (smallDeployment .release)) fundedWorld es w ∧
      w.treasury.stakingIndex = 3 ∧
      (stakePool (smallDeployment .release) w).claims ≤ stfHeld (smallDeployment .release) w := by
  refine ⟨?_, ?_⟩
  · obtain ⟨y, hy⟩ := exists_ok
      (show (stfStake.process (smallDeployment .release)
        (Initialize.world ⟨7⟩ stfLedger)).toOption.isSome = true by decide +kernel)
    have hstep : StakingStep (smallDeployment .release) (Initialize.world ⟨7⟩ stfLedger)
        ⟨stfStake, y.trace⟩ y.world := ⟨hy, sound_splEnv _ _, .inl ⟨_, _, rfl⟩⟩
    have hstf : StakesStf (Initialize.world ⟨7⟩ stfLedger) ⟨stfStake, y.trace⟩ := by
      rintro a n ⟨⟩
      rfl
    exact ⟨_, _, rfl, .single hstep, stakers_covered.1 ⟨7⟩ stfLedger _ _ (.single ⟨hstep, hstf⟩)⟩
  · obtain ⟨es, w, hrun, hcalls, hp⟩ := exists_run_of_replay
      (fun c w => c.process (smallDeployment .release) w) fundedWorld
      [stfStake, usdcBond 0 100 50 200, stfUnstake]
      (fun _ w => decide (w.treasury.stakingIndex = 3)) (by decide +kernel)
    obtain ⟨e₁, e₂, e₃, rfl, h₁, h₂, h₃⟩ : ∃ e₁ e₂ e₃, es = [e₁, e₂, e₃] ∧ e₁.call = stfStake ∧
        e₂.call = usdcBond 0 100 50 200 ∧ e₃.call = stfUnstake := by
      simpa [List.map_eq_cons_iff, and_assoc] using hcalls
    obtain ⟨v₁, hstep₁, hrest⟩ := hrun.split_cons
    obtain ⟨v₂, hstep₂, hlast⟩ := hrest.split_cons
    obtain ⟨v₃, hstep₃, hnil⟩ := hlast.split_cons
    rw [Run.nil_iff] at hnil
    subst hnil
    have hstake : StakingStep (smallDeployment .release) fundedWorld e₁ v₁ :=
      ⟨hstep₁, by rw [h₁]; exact sound_splEnv _ _, .inl ⟨_, _, by rw [h₁]; rfl⟩⟩
    have hbond : StakingStep (smallDeployment .release) v₁ e₂ v₂ :=
      ⟨hstep₂, by rw [h₂]; exact sound_splEnv _ _, .inr (.inr ⟨_, _, by rw [h₂]; rfl⟩)⟩
    have hunstake : StakingStep (smallDeployment .release) v₂ e₃ w :=
      ⟨hstep₃, by rw [h₃]; exact sound_splEnv _ _, .inr (.inl ⟨_, _, by rw [h₃]; rfl⟩)⟩
    -- before the bond the treasury holds the ten units that were staked
    have hheld : stfHeld (smallDeployment .release) v₁ = 10 := by
      obtain ⟨-, -, -, h⟩ := hstake.1.stake hstake.2.1 (by rw [h₁]; rfl)
      rw [h, stfHeld_stfLedger _ rfl, if_pos rfl]
      rfl
    have hunstaked : Unstaked fundedWorld := ⟨rfl, rfl, fun _ => rfl⟩
    refine ⟨_, w, hcalls, .cons hstake (.cons hbond (.single hunstake)), by simpa using hp,
      stakers_covered.2 fundedWorld _ w hunstaked
        (.cons ⟨hstake, ?_, ?_⟩ (.cons ⟨hbond, ?_, ?_⟩ (.single ⟨hunstake, ?_, ?_⟩)))⟩
    · rw [StakesStf, h₁]
      rintro a n ⟨⟩
      rfl
    · rw [RoomForReward, h₁]
      rintro a args c price ⟨⟩
    · rw [StakesStf, h₂]
      rintro a n ⟨⟩
    · rw [RoomForReward, h₂, hheld]
      rintro a args c price ⟨⟩ ⟨⟩ ⟨⟩
      decide
    · rw [StakesStf, h₃]
      rintro a n ⟨⟩
    · rw [RoomForReward, h₃]
      rintro a args c price ⟨⟩

/-! ### A stake in another mint -/

/-- User `1` holds a hundred units of mint `77` in account `21`, and the treasury has account `22`
for it. -/
def otherLedger : Ledger where
  data k :=
    if k = 21 then .tokenAccount ⟨77, 1, 100⟩
    else if k = 22 then .tokenAccount ⟨77, 9, 0⟩
    else if k = 77 then .mint ⟨6, 100⟩
    else .empty
  lamports _ := 0

/-- User `1` stakes it. -/
def otherStake : Call ℚ where
  env := splEnv 0 [1] fun _ => none
  instruction := .stakeSTF
    { user := 1, userTokenAccount := 21, treasuryTokenAccount := 22, stfTokenMint := 77 } 100

/-- From the treasury `initialize` writes, one stake in another mint leaves claims of a hundred and
no STF. -/
theorem stake_of_another_mint : ∃ (e : Event ℚ) (w : World ℚ),
    Run (StakingStep (smallDeployment .release)) (Initialize.world ⟨7⟩ otherLedger) [e] w ∧
      (stakePool (smallDeployment .release) w).claims = 100 ∧
      stfHeld (smallDeployment .release) w = 0 := by
  obtain ⟨y, hy⟩ := exists_ok
    (show (otherStake.process (smallDeployment .release)
      (Initialize.world ⟨7⟩ otherLedger)).toOption.isSome = true by decide +kernel)
  have hstep : Step (smallDeployment .release) (Initialize.world ⟨7⟩ otherLedger)
      ⟨otherStake, y.trace⟩ y.world := hy
  have hsound : Sound (smallDeployment .release) otherStake.env := sound_splEnv _ _
  refine ⟨⟨otherStake, y.trace⟩, y.world, .single ⟨hstep, hsound, .inl ⟨_, _, rfl⟩⟩, ?_, ?_⟩
  · obtain ⟨-, htreasury, hshares, -⟩ := hstep.stake hsound rfl
    have hnone : (stakePool (smallDeployment .release)
        (Initialize.world ⟨7⟩ otherLedger : World ℚ)).totalShares = 0 :=
      (Initialize.unstaked _ _).totalShares
    have htotal := (stakePool (smallDeployment .release)
      (Initialize.world ⟨7⟩ otherLedger : World ℚ)).totalShares_update 1 100
    rw [hnone] at htotal
    have hclaims : (stakePool (smallDeployment .release) y.world).claims
        = Keyed.total id y.world.shares * y.world.treasury.stakingIndex.toNat := rfl
    rw [hclaims, hshares, htreasury]
    show Keyed.total id (update (Initialize.world ⟨7⟩ otherLedger : World ℚ).shares 1 100) * 1 = 100
    change Keyed.total id (update (Initialize.world ⟨7⟩ otherLedger : World ℚ).shares 1 100) + 0
      = 100 at htotal
    omega
  · obtain ⟨-, -, -, hheld⟩ := hstep.stake hsound rfl
    rw [hheld, if_neg (by decide), Nat.add_zero]
    apply Keyed.total_eq_zero
    intro k
    simp only [Initialize.world_ledger, Ledger.tokenAccount, otherLedger]
    split_ifs
    all_goals decide

end Saturn
