import Saturn.Staking.Ledger

/-!
# Taking a whole position out

`unstake_stf` asks for `total_staked_index > amount_to_unstake`. The comparison is strict, so the
last share of a position never leaves it: whatever a first stake credits, the unstake of all of it
is refused (`withdraw_all_refused`), and an accepted unstake leaves a share behind
(`HandlerStep.unstake_leaves`).
-/

namespace Saturn

open Machine Transition Function

variable {F : Type} [F64 F] {d : Deployment} {env : Env} {w w' w₁ : World F} {e : Event F}
  {c : Call F} {a : StakeSTF} {b : UnStakeSTF} {n : UInt64}

/-! ## One unstake -/

omit [F64 F] in
/-- The unstake of a whole position, and of any amount beyond it, is refused. -/
theorem UnStakeSTF.handle_refuses {x : Exec F}
    (h : (x.world.stakeAccount b.user).totalStakedIndex ≤ n) :
    b.handle d env n x = .error (.bond .unstakingError) := by
  have hguard : ¬ n < (x.world.stakeAccount b.user).totalStakedIndex := UInt64.not_lt.mpr h
  simp only [UnStakeSTF.handle, require, if_neg hguard]
  rfl

/-! ## A stake and the unstake of what it credited -/

/-- The stake of `n` in `w` that led to `w₁` credits the amount divided by the index; and the call
`c`, the unstake of as much, is accepted, pays the stake back but for the remainder, and leaves both
ledgers as they were before the stake. -/
structure RoundTrip (d : Deployment) (w w₁ : World F) (a : StakeSTF) (n : UInt64) (c : Call F)
    (b : UnStakeSTF) : Prop where
  credited : (w₁.stakeAccount a.user).totalStakedIndex = n / w.treasury.stakingIndex
  accepted : ∃ (w₂ : World F) (t : List CpiRecord), Step d w₁ ⟨c, t⟩ w₂ ∧
    t = [⟨b.payout d (n - n % w.treasury.stakingIndex), true⟩] ∧
    (w₂.stakeAccount a.user).totalStakedIndex = 0 ∧
    w₂.treasury.tokenStaked = w.treasury.tokenStaked

/-- A first stake credits the amount divided by the index. -/
theorem HandlerStep.stake_credits (h : HandlerStep d w e w₁)
    (hi : e.call.instruction = .stakeSTF a n)
    (hnone : (w.stakeAccount a.user).totalStakedIndex = 0) :
    (w₁.stakeAccount a.user).totalStakedIndex = n / w.treasury.stakingIndex := by
  obtain ⟨-, -, hshares⟩ := h.stake hi
  have hcredit := congrFun hshares a.user
  rw [update_self, hnone, UInt64.zero_add] at hcredit
  exact UInt64.toNat_inj.mp hcredit

/-- For every first stake of a user, in every state and of every amount: the stake credits the
amount divided by the index, and the unstake of what it credited is refused. So no such round trip
takes everything out. -/
theorem withdraw_all_refused (h : Step d w e w₁) (hi : e.call.instruction = .stakeSTF a n)
    (hnone : (w.stakeAccount a.user).totalStakedIndex = 0)
    (hc : c.instruction = .unstakeSTF b (n / w.treasury.stakingIndex)) (hb : b.user = a.user) :
    (w₁.stakeAccount a.user).totalStakedIndex = n / w.treasury.stakingIndex ∧
      c.perform d w₁ = .error (.bond .unstakingError) ∧ ¬ RoundTrip d w w₁ a n c b := by
  have hcredit := h.handlerStep.stake_credits hi hnone
  have hrefused : c.perform d w₁ = .error (.bond .unstakingError) := by
    rw [Call.perform, hc]
    apply UnStakeSTF.handle_refuses
    show (w₁.stakeAccount b.user).totalStakedIndex ≤ n / w.treasury.stakingIndex
    rw [hb, hcredit]
    exact UInt64.le_refl _
  refine ⟨hcredit, hrefused, ?_⟩
  intro htrip
  obtain ⟨w₂, t, hstep, -⟩ := htrip.accepted
  have haccepted : c.perform d w₁ = .ok ⟨w₂, t⟩ := hstep.handlerStep
  rw [hrefused] at haccepted
  cases haccepted

/-! ### Ten units in, and none of ten out -/

/-- User `1` takes ten shares out. -/
def stfUnstakeAll : Call ℚ where
  env := splEnv 0 [1] fun _ => none
  instruction := .unstakeSTF
    { user := 1, userTokenAccount := 14, treasuryTokenAccount := 13, stfTokenMint := stfMint } 10

/-- At an index of one, a stake of ten is credited and the unstake of ten is refused. -/
theorem withdraw_all_refused_ten : ∃ (e : Event ℚ) (w : World ℚ), e.call = stfStake ∧
    Step (smallDeployment .release) (Initialize.world ⟨7⟩ stfLedger) e w ∧
    (w.stakeAccount 1).totalStakedIndex = 10 ∧
    stfUnstakeAll.perform (smallDeployment .release) w = .error (.bond .unstakingError) := by
  obtain ⟨y, hy⟩ := exists_ok
    (show (stfStake.process (smallDeployment .release)
      (Initialize.world ⟨7⟩ stfLedger)).toOption.isSome = true by decide +kernel)
  have hstep : Step (smallDeployment .release) (Initialize.world ⟨7⟩ stfLedger)
      ⟨stfStake, y.trace⟩ y.world := hy
  obtain ⟨hcredit, hrefused, -⟩ := withdraw_all_refused hstep rfl rfl
    (show stfUnstakeAll.instruction = .unstakeSTF _ (10 / 1) from rfl) rfl
  exact ⟨_, _, rfl, hstep, hcredit, hrefused⟩

/-- The round trip of ten units fails: the treasury holds them, and refuses to pay them out. -/
theorem ten_units_stuck : ∃ (e : Event ℚ) (w : World ℚ) (a : StakeSTF) (b : UnStakeSTF),
    e.call = stfStake ∧ e.call.instruction = .stakeSTF a 10 ∧
    stfUnstakeAll.instruction = .unstakeSTF b 10 ∧
    Step (smallDeployment .release) (Initialize.world ⟨7⟩ stfLedger) e w ∧
    w.ledger.tokenAccount 13 = some ⟨stfMint, 9, 10⟩ ∧
    ¬ RoundTrip (smallDeployment .release) (Initialize.world ⟨7⟩ stfLedger) w a 10 stfUnstakeAll
      b := by
  obtain ⟨y, hy, hp⟩ := exists_eq_ok (fun y : Exec ℚ =>
      decide (y.world.ledger.tokenAccount 13 = some ⟨stfMint, 9, 10⟩) &&
        (stfUnstakeAll.process (smallDeployment .release) y.world).toOption.isNone)
    (show (stfStake.process (smallDeployment .release)
      (Initialize.world ⟨7⟩ stfLedger)).toOption.any _ = true by decide +kernel)
  rw [Bool.and_eq_true, decide_eq_true_eq] at hp
  obtain ⟨hheld, hnone⟩ := hp
  have hstep : Step (smallDeployment .release) (Initialize.world ⟨7⟩ stfLedger)
      ⟨stfStake, y.trace⟩ y.world := hy
  refine ⟨⟨stfStake, y.trace⟩, y.world, _, _, rfl, rfl, rfl, hstep, hheld, ?_⟩
  intro htrip
  obtain ⟨w₂, t, haccepted, -⟩ := htrip.accepted
  have hok : stfUnstakeAll.process (smallDeployment .release) y.world = .ok ⟨w₂, t⟩ := haccepted
  rw [hok] at hnone
  cases hnone

end Saturn
