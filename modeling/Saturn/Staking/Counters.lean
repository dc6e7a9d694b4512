import Saturn.Staking.Ledger
import Saturn.Bond.Cashout
import Saturn.Bond.Pricing

/-!
# The counters of the treasury

`token_minted`, `token_staked`, `staking_index` and each `total_staked_index` are updated by `+=`
and `-=` that wrap. The guard of an unstake and the ledger invariant rule a wrap out there, and a
user's shares fit wherever their sum does. What is left are four sites, and `RoomForCounters` is the
condition on the call and on the state before it under which none of them wraps; the cash-out, whose
guard bounds the amount from below only, is the one that a single caller can drive past it at will.
-/

namespace Saturn

open Machine Transition Function

variable {F : Type} [F64 F] {d : Deployment} {w w' : World F} {e : Event F} {es : List (Event F)}

/-! ## The counters over the integers -/

omit [F64 F] in
/-- The four instructions that update a counter. -/
def Instruction.Counts : Instruction F → Prop
  | .stakeSTF _ _ | .unstakeSTF _ _ | .applyBond _ _ | .cashingoutReedem _ _ => True
  | _ => False

/-- An accepted call of one of them, account and signature constraints aside. -/
def CounterStep (d : Deployment) (w : World F) (e : Event F) (w' : World F) : Prop :=
  HandlerStep d w e w' ∧ e.call.instruction.Counts

/-- Each update of the call has the result it has over the integers. -/
def ExactUpdate (d : Deployment) (w : World F) (e : Event F) (w' : World F) : Prop :=
  match e.call.instruction with
  | .stakeSTF a n =>
      w'.treasury.tokenStaked.toNat
          = w.treasury.tokenStaked.toNat + n.toNat / w.treasury.stakingIndex.toNat ∧
        w'.shares a.user = w.shares a.user + n.toNat / w.treasury.stakingIndex.toNat
  | .unstakeSTF a n =>
      (w'.treasury.tokenStaked.toNat : ℤ) = w.treasury.tokenStaked.toNat - n.toNat ∧
        (w'.shares a.user : ℤ) = w.shares a.user - n.toNat
  | .applyBond a args => ∀ s : ApplyBond.Sale, s.Accepted a d e.call.env args (.start w) →
      w'.treasury.tokenMinted.toNat
          = w.treasury.tokenMinted.toNat + s.terms.numTokenToMint.toNat ∧
        w'.treasury.stakingIndex.toNat = w.treasury.stakingIndex.toNat
          + s.terms.numTokenToMint.toNat / w.treasury.tokenStaked.toNat
  | .cashingoutReedem _ n =>
      (w'.treasury.tokenMinted.toNat : ℤ) = w.treasury.tokenMinted.toNat - n.toNat
  | _ => True

/-- No counter wraps, a cash-out does not raise the supply, and the index stays positive and does
not fall. -/
structure CountersSound (d : Deployment) (w : World F) (e : Event F) (w' : World F) : Prop where
  exact : ExactUpdate d w e w'
  cashout : ∀ a n, e.call.instruction = .cashingoutReedem a n →
    w'.treasury.tokenMinted.toNat ≤ w.treasury.tokenMinted.toNat
  index_pos : 1 ≤ w'.treasury.stakingIndex.toNat
  index_mono : w.treasury.stakingIndex.toNat ≤ w'.treasury.stakingIndex.toNat

/-- A stake fits above the record of the shares, what a bond mints to the stakers above the supply
and its quotient by the shares above the index, and a cash-out is covered by the supply. -/
def RoomForCounters (w : World F) (e : Event F) : Prop :=
  match e.call.instruction with
  | .stakeSTF _ n =>
      w.treasury.tokenStaked.toNat + n.toNat / w.treasury.stakingIndex.toNat < 2 ^ 64
  | .applyBond a args => ∀ c price, Collateral.ofMint a.tokenMintAddress = some c →
      e.call.env.getPriceNoOlderThan (a.priceUpdate c) 30 c.feedId = some price →
        w.treasury.tokenMinted.toNat + (stakersMint w.treasury.backingPrice args.spotPrice
          (totalPriceOf price args)).toNat < 2 ^ 64 ∧
        w.treasury.stakingIndex.toNat + (stakersMint w.treasury.backingPrice args.spotPrice
          (totalPriceOf price args)).toNat / w.treasury.tokenStaked.toNat < 2 ^ 64
  | .cashingoutReedem _ n => n.toNat ≤ w.treasury.tokenMinted.toNat
  | _ => True

/-- The treasury records the shares of all users exactly, and the index is positive. -/
structure Consistent (w : World F) : Prop where
  tokenStaked : w.treasury.tokenStaked.toNat = w.totalShares
  index : 1 ≤ w.treasury.stakingIndex.toNat

/-! ## One step -/

omit [F64 F] in
theorem Consistent.shares_le (hw : Consistent w) (u : Pubkey) :
    w.shares u ≤ w.treasury.tokenStaked.toNat := by
  rw [hw.tokenStaked]
  exact shares_le_totalShares w u

/-- Where the index stays and the call is no cash-out that raises the supply, an exact update is
sound. -/
theorem Consistent.sound_of_index_eq (hw : Consistent w)
    (hindex : w'.treasury.stakingIndex = w.treasury.stakingIndex) (hexact : ExactUpdate d w e w')
    (hcashout : ∀ a n, e.call.instruction = .cashingoutReedem a n →
      w'.treasury.tokenMinted.toNat ≤ w.treasury.tokenMinted.toNat) : CountersSound d w e w' where
  exact := hexact
  cashout := hcashout
  index_pos := by
    rw [hindex]
    exact hw.index
  index_mono := by rw [hindex]

/-- A stake updates exactly iff the record has room; the user's shares have it then too. -/
theorem Consistent.stake {a : StakeSTF} {n : UInt64} (hw : Consistent w) (h : HandlerStep d w e w')
    (hi : e.call.instruction = .stakeSTF a n) :
    (CountersSound d w e w' ↔ RoomForCounters w e) ∧ (CountersSound d w e w' → Consistent w') := by
  obtain ⟨-, ht, hshares⟩ := h.stake hi
  have hq : (n / w.treasury.stakingIndex).toNat = n.toNat / w.treasury.stakingIndex.toNat :=
    UInt64.toNat_div _ _
  have hindex : w'.treasury.stakingIndex = w.treasury.stakingIndex := by rw [ht]; rfl
  have hown := hw.shares_le a.user
  constructor
  · constructor
    · intro hsound
      have hexact := hsound.exact
      rw [ExactUpdate, hi] at hexact
      rw [RoomForCounters, hi]
      -- the record holds a `u64`, so the sum over the integers fits
      have hlt := w'.treasury.tokenStaked.toNat_lt
      have hsum := hexact.1
      show _ < 2 ^ 64
      omega
    · intro hroom
      rw [RoomForCounters, hi] at hroom
      refine hw.sound_of_index_eq hindex ?_ (by rw [hi]; nofun)
      rw [ExactUpdate, hi]
      refine ⟨?_, ?_⟩
      · rw [ht, Treasury.setTokenStaked_tokenStaked, toNat_add_of_lt (by rw [hq]; exact hroom), hq]
      · -- the shares of one user are among those of all
        have hfits : (w.stakeAccount a.user).totalStakedIndex.toNat
            + (n / w.treasury.stakingIndex).toNat < 2 ^ 64 := by
          rw [hq]
          exact lt_of_le_of_lt (Nat.add_le_add_right hown _) hroom
        rw [hshares, update_self, toNat_add_of_lt hfits, hq, World.shares]
  · intro hsound
    have hexact := hsound.exact
    rw [ExactUpdate, hi] at hexact
    obtain ⟨hrec, hcredit⟩ := hexact
    refine ⟨?_, hsound.index_pos⟩
    have htotal := totalShares_update hshares
    have hnew : ((w.stakeAccount a.user).totalStakedIndex + n / w.treasury.stakingIndex).toNat
        = w'.shares a.user := by rw [hshares, update_self]
    rw [hnew, hcredit] at htotal
    have hbefore := hw.tokenStaked
    omega

theorem Consistent.unstake {a : UnStakeSTF} {n : UInt64} (hw : Consistent w)
    (h : HandlerStep d w e w') (hi : e.call.instruction = .unstakeSTF a n) :
    CountersSound d w e w' ∧ Consistent w' := by
  obtain ⟨hlt, ht, hshares⟩ := h.unstake hi
  have hown := hw.shares_le a.user
  have hindex : w'.treasury.stakingIndex = w.treasury.stakingIndex := by rw [ht]; rfl
  have hrec : w'.treasury.tokenStaked.toNat = w.treasury.tokenStaked.toNat - n.toNat := by
    rw [ht, Treasury.setTokenStaked_tokenStaked, toNat_sub_of_le (hlt.le.trans hown)]
  refine ⟨hw.sound_of_index_eq hindex ?_ (by rw [hi]; nofun), ?_, ?_⟩
  · rw [ExactUpdate, hi]
    refine ⟨?_, ?_⟩
    · omega
    · rw [hshares, update_self]
      omega
  · have htotal := totalShares_update hshares
    have hbefore := hw.tokenStaked
    omega
  · rw [hindex]
    exact hw.index

theorem ApplyBond.Sale.Accepted.roomForCounters_iff {a : ApplyBond} {args : ApplyBondArgs}
    {s : ApplyBond.Sale} (hs : s.Accepted a d e.call.env args (.start w))
    (hi : e.call.instruction = .applyBond a args) : RoomForCounters w e ↔
      w.treasury.tokenMinted.toNat + s.terms.numTokenToMint.toNat < 2 ^ 64 ∧
        w.treasury.stakingIndex.toNat
          + s.terms.numTokenToMint.toNat / w.treasury.tokenStaked.toNat < 2 ^ 64 := by
  obtain ⟨-, -, -, hmint, -⟩ := hs.terms_eq
  rw [RoomForCounters, hi, hmint]
  constructor
  · intro hroom
    have hread := hroom _ _ hs.collateral hs.price
    rw [← hs.totalPrice_eq hs.collateral hs.price] at hread
    exact hread
  · intro hfits c price hc hprice
    rw [← hs.totalPrice_eq hc hprice]
    exact hfits

/-- A bond updates exactly iff the supply and the index have room for what it mints to the
stakers. -/
theorem Consistent.bond {a : ApplyBond} {args : ApplyBondArgs} (hw : Consistent w)
    (h : HandlerStep d w e w') (hi : e.call.instruction = .applyBond a args) :
    (CountersSound d w e w' ↔ RoomForCounters w e) ∧ (CountersSound d w e w' → Consistent w') := by
  obtain ⟨s, hs, ht⟩ := h.applyBond hi
  obtain ⟨-, -, -, hmint, -⟩ := hs.terms_eq
  have hminted : w'.treasury.tokenMinted = w.treasury.tokenMinted + s.terms.numTokenToMint := by
    rw [ht]; rfl
  have hindex : w'.treasury.stakingIndex
      = w.treasury.stakingIndex + s.terms.numTokenToMint / w.treasury.tokenStaked := by rw [ht]; rfl
  have hquot : (s.terms.numTokenToMint / w.treasury.tokenStaked).toNat
      = s.terms.numTokenToMint.toNat / w.treasury.tokenStaked.toNat := UInt64.toNat_div _ _
  have hshares : w'.shares = w.shares :=
    shares_eq (h.stakeAccounts_eq (by rw [hi]; simp [Instruction.writes]))
  rw [hs.roomForCounters_iff hi]
  constructor
  · constructor
    · intro hsound
      have hexact := hsound.exact
      rw [ExactUpdate, hi] at hexact
      obtain ⟨hsupply, hrise⟩ := hexact s hs
      have hlt := w'.treasury.tokenMinted.toNat_lt
      have hlt' := w'.treasury.stakingIndex.toNat_lt
      constructor
      · show _ < 2 ^ 64
        omega
      · show _ < 2 ^ 64
        omega
    · rintro ⟨hsupply, hrise⟩
      have hsum : w'.treasury.stakingIndex.toNat = w.treasury.stakingIndex.toNat
          + s.terms.numTokenToMint.toNat / w.treasury.tokenStaked.toNat := by
        rw [hindex, toNat_add_of_lt (by rw [hquot]; exact hrise), hquot]
      refine ⟨?_, ?_, ?_, ?_⟩
      · rw [ExactUpdate, hi]
        intro s' hs'
        -- the terms are determined by the call and the state before it
        have hsame : s'.terms.numTokenToMint = s.terms.numTokenToMint := by
          rw [hmint, hs'.terms_eq.2.2.2.1, hs'.totalPrice_eq hs.collateral hs.price,
            hs.totalPrice_eq hs.collateral hs.price]
        rw [hsame]
        refine ⟨?_, hsum⟩
        rw [hminted, toNat_add_of_lt hsupply]
      · intro a' n' hi'
        rw [hi] at hi'
        cases hi'
      · have hpos := hw.index
        omega
      · omega
  · intro hsound
    refine ⟨?_, hsound.index_pos⟩
    rw [World.totalShares, hshares, ht, ApplyBond.Sale.treasury_tokenStaked]
    exact hw.tokenStaked

theorem Consistent.cashout {a : CashingoutReedem} {n : UInt64} (hw : Consistent w)
    (h : HandlerStep d w e w') (hi : e.call.instruction = .cashingoutReedem a n) :
    (CountersSound d w e w' ↔ RoomForCounters w e) ∧ (CountersSound d w e w' → Consistent w') := by
  have ht := h.cashingoutReedem hi
  have hminted : w'.treasury.tokenMinted = w.treasury.tokenMinted - n := by rw [ht]; rfl
  have hindex : w'.treasury.stakingIndex = w.treasury.stakingIndex := by rw [ht]; rfl
  -- a cash-out leaves the stakes alone
  have hshares : w'.shares = w.shares :=
    shares_eq (h.stakeAccounts_eq (by rw [hi]; simp [Instruction.writes]))
  constructor
  · constructor
    · intro hsound
      have hexact := hsound.exact
      rw [ExactUpdate, hi] at hexact
      rw [RoomForCounters, hi]
      show n.toNat ≤ w.treasury.tokenMinted.toNat
      omega
    · intro hroom
      rw [RoomForCounters, hi] at hroom
      have hsub : w'.treasury.tokenMinted.toNat = w.treasury.tokenMinted.toNat - n.toNat := by
        rw [hminted, toNat_sub_of_le hroom]
      refine hw.sound_of_index_eq hindex ?_ ?_
      · rw [ExactUpdate, hi]
        show (w'.treasury.tokenMinted.toNat : ℤ) = w.treasury.tokenMinted.toNat - n.toNat
        have hle : n.toNat ≤ w.treasury.tokenMinted.toNat := hroom
        omega
      · intro a' n' hi'
        omega
  · intro hsound
    refine ⟨?_, hsound.index_pos⟩
    rw [World.totalShares, hshares, ht, Treasury.setCashout_tokenStaked]
    exact hw.tokenStaked

/-- A step from a consistent world is sound iff the counters have room, and leads to a consistent
one if it is. -/
theorem Consistent.step (hw : Consistent w) (h : CounterStep d w e w') :
    (CountersSound d w e w' ↔ RoomForCounters w e) ∧ (CountersSound d w e w' → Consistent w') := by
  obtain ⟨hstep, hcounts⟩ := h
  cases hi : e.call.instruction with
  | stakeSTF a n => exact hw.stake hstep hi
  | unstakeSTF a n =>
      obtain ⟨hsound, hw'⟩ := hw.unstake hstep hi
      refine ⟨⟨fun _ => ?_, fun _ => hsound⟩, fun _ => hw'⟩
      rw [RoomForCounters, hi]
      trivial
  | applyBond a args => exact hw.bond hstep hi
  | cashingoutReedem a n => exact hw.cashout hstep hi
  | _ =>
      rw [hi] at hcounts
      exact hcounts.elim

/-! ## Every run -/

/-- From a consistent world, the runs in which no counter wraps are those whose calls all leave room
for it. -/
theorem counters_sound_iff {w₀ : World F} (h₀ : Consistent w₀) :
    Run (fun v e v' => CounterStep d v e v' ∧ CountersSound d v e v') w₀ es w ↔
      Run (Guarded (CounterStep d) RoomForCounters) w₀ es w :=
  Run.and_iff Consistent h₀ (fun _ _ _ hstep hv => (hv.step hstep).1)
    fun _ _ _ hstep hv hsound => (hv.step hstep).2 hsound

omit [F64 F] in
/-- A world in which nothing is staked is consistent, if its index is positive. -/
theorem NothingStaked.consistent (h : NothingStaked w)
    (hindex : 1 ≤ w.treasury.stakingIndex.toNat) :
    Consistent w := by
  refine ⟨?_, hindex⟩
  rw [h.totalShares, h.tokenStaked]
  rfl

/-- A first stake wraps nothing. -/
theorem counters_sound_iff_stake : ∃ (e : Event ℚ) (w : World ℚ), e.call = stfStake ∧
    Run (fun v e v' => CounterStep (smallDeployment .release) v e v' ∧
      CountersSound (smallDeployment .release) v e v') (Initialize.world ⟨7⟩ stfLedger) [e] w := by
  obtain ⟨y, hy⟩ := exists_ok
    (show (stfStake.perform (smallDeployment .release)
      (Initialize.world ⟨7⟩ stfLedger)).toOption.isSome = true by decide +kernel)
  have hconsistent : Consistent (Initialize.world ⟨7⟩ stfLedger : World ℚ) :=
    NothingStaked.consistent ⟨rfl, fun _ => rfl⟩ (by decide)
  refine ⟨⟨stfStake, y.trace⟩, y.world, rfl,
    (counters_sound_iff hconsistent).mpr (.single ⟨⟨hy, trivial⟩, ?_⟩)⟩
  show (0 : ℕ) + 10 / 1 < 2 ^ 64
  decide

/-! ### A cash-out beyond the supply -/

/-- The world with an account for fees, in which user `1` holds the share that is recorded. -/
def oneShareWorld : World ℚ :=
  { feeWorld with stakeAccounts := update feeWorld.stakeAccounts 1 (some ⟨1, 0⟩) }

/-- A bond brings the supply to thirty, and a cash-out of a hundred wraps it. -/
theorem cashout_wraps_supply : ∃ (es : List (Event ℚ)) (w : World ℚ),
    Run (CounterStep (smallDeployment .release)) oneShareWorld es w ∧
      es.map Event.call = [usdcBond 0 100 50 200, usdcCashout 100] ∧
      w.treasury.tokenMinted.toNat = 18446744073709551546 ∧
      ¬ Run (fun v e v' => CounterStep (smallDeployment .release) v e v' ∧
        CountersSound (smallDeployment .release) v e v') oneShareWorld es w := by
  obtain ⟨es, w, hrun, hcalls, hp⟩ := exists_run_of_replay
    (fun c w => c.perform (smallDeployment .release) w) oneShareWorld
    [usdcBond 0 100 50 200, usdcCashout 100]
    (fun _ w => decide (w.treasury.tokenMinted.toNat = 18446744073709551546)) (by decide +kernel)
  obtain ⟨e₁, e₂, rfl, h₁, h₂⟩ : ∃ e₁ e₂, es = [e₁, e₂] ∧ e₁.call = usdcBond 0 100 50 200 ∧
      e₂.call = usdcCashout 100 := by
    simpa [List.map_eq_cons_iff, and_assoc] using hcalls
  have hwrapped : w.treasury.tokenMinted.toNat = 18446744073709551546 := of_decide_eq_true hp
  refine ⟨[e₁, e₂], w, hrun.guard ?_, hcalls, hwrapped, ?_⟩
  · intro e he v
    simp only [List.mem_cons, List.not_mem_nil, or_false] at he
    rcases he with rfl | rfl
    · rw [h₁]
      trivial
    · rw [h₂]
      trivial
  · intro hsound
    obtain ⟨v, -, hlast⟩ := Run.snoc_iff.mp (show Run _ oneShareWorld ([e₁] ++ [e₂]) w from hsound)
    obtain ⟨a, hi⟩ : ∃ a, e₂.call.instruction = .cashingoutReedem a 100 := by
      rw [h₂]
      exact ⟨_, rfl⟩
    have hexact := hlast.2.exact
    rw [ExactUpdate, hi] at hexact
    have hdebit : (w.treasury.tokenMinted.toNat : ℤ) = v.treasury.tokenMinted.toNat - 100 := hexact
    have hlt := v.treasury.tokenMinted.toNat_lt
    omega

end Saturn
