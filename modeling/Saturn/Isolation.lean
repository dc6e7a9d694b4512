import Saturn.Staking.Ledger
import Saturn.Bond.Redemption

/-!
# What others can do to a user

The stake account and the escrow of a user are derived from the key of a signer wherever they are
written: `stake_stf` and `unstake_stf` write the stake account of `user`, `apply_bond` the escrow of
`creator` and `finish_bond` that of `user`, and all four keys have to sign. `cashingout_reedem`
takes the escrow of a user who need not sign, and reads it only. So nobody's position moves without
its owner, and a user's shares are what the user's own calls make of them.
-/

namespace Saturn

open Machine Transition Function

variable {F : Type} {d : Deployment} {w₀ w w' : World F} {e : Event F} {es : List (Event F)}
  {u : Pubkey}

/-! ## Calls that name a user -/

/-- `e` stakes or unstakes for `u`. -/
def Event.StakesFor (u : Pubkey) (e : Event F) : Prop :=
  match e.call.instruction with
  | .stakeSTF a _ => a.user = u
  | .unstakeSTF a _ => a.user = u
  | _ => False

instance : DecidablePred (Event.StakesFor (F := F) u) := by
  intro e
  unfold Event.StakesFor
  split <;> infer_instance

/-- What a stake or an unstake at the staking index `i` makes of a `total_staked_index`. -/
def restake (totalStakedIndex : UInt64) (m : UInt64 × Event F) : UInt64 :=
  match m.2.call.instruction with
  | .stakeSTF _ n => totalStakedIndex + n / m.1
  | .unstakeSTF _ n => totalStakedIndex - n
  | _ => totalStakedIndex

section

variable [F64 F]

/-- Whoever a stake or an unstake names has signed it. -/
theorem Step.signed_of_stakesFor (h : Step d w e w') (he : e.StakesFor u) :
    u ∈ e.call.env.signers := by
  rw [Event.StakesFor] at he
  split at he
  · next a n hi =>
    obtain ⟨hsigner, -⟩ := stakingConstraints_eq_ok.mp (h.constraints_eq hi)
    exact he ▸ hsigner
  · next a n hi =>
    obtain ⟨hsigner, -⟩ := stakingConstraints_eq_ok.mp (h.constraints_eq hi)
    exact he ▸ hsigner
  · exact he.elim

theorem Step.signed_of_appliesBond (h : Step d w e w') (he : e.AppliesBond u) :
    u ∈ e.call.env.signers := by
  obtain ⟨a, args, hi, rfl⟩ := he
  have hc := h.constraints_eq hi
  simp only [Instruction.constraints, ApplyBond.constraints, bind_eq_ok, requireSigner_eq_ok] at hc
  obtain ⟨_, hsigner, -⟩ := hc
  exact hsigner

theorem Step.signed_of_finishesBond (h : Step d w e w') (he : e.FinishesBond u) :
    u ∈ e.call.env.signers := by
  obtain ⟨a, hi, rfl⟩ := he
  have hc := h.constraints_eq hi
  simp only [Instruction.constraints, FinishBond.constraints, bind_eq_ok, requireSigner_eq_ok] at hc
  obtain ⟨_, hsigner, -⟩ := hc
  exact hsigner

/-! ## One call -/

/-- Who is not named by a stake or an unstake keeps the stake account. -/
theorem HandlerStep.stakeAccount_eq (h : HandlerStep d w e w') (he : ¬ e.StakesFor u) :
    w'.stakeAccounts u = w.stakeAccounts u := by
  cases hi : e.call.instruction with
  | stakeSTF a n =>
      have hne : u ≠ a.user := by
        intro hu
        rw [Event.StakesFor, hi] at he
        exact he hu.symm
      rw [h.stakeSTF_stakeAccounts hi, update_of_ne hne]
  | unstakeSTF a n =>
      have hne : u ≠ a.user := by
        intro hu
        rw [Event.StakesFor, hi] at he
        exact he hu.symm
      rw [h.unstakeSTF_stakeAccounts hi, update_of_ne hne]
  | _ =>
      rw [h.stakeAccounts_eq (by rw [hi]; simp [Instruction.writes])]

/-- An accepted call of any instruction leaves the stake account and the escrow of a user who did
not sign it as they were. -/
theorem Step.isolated (h : Step d w e w') (hu : u ∉ e.call.env.signers) :
    w'.stakeAccounts u = w.stakeAccounts u ∧ w'.escrows u = w.escrows u := by
  constructor
  · exact h.handlerStep.stakeAccount_eq fun he => hu (h.signed_of_stakesFor he)
  · exact h.handlerStep.escrow_eq (fun he => hu (h.signed_of_appliesBond he))
      fun he => hu (h.signed_of_finishesBond he)

/-- A call that stakes or unstakes for `u` updates its shares at the staking index before it. -/
theorem HandlerStep.restake_eq (h : HandlerStep d w e w') (he : e.StakesFor u) :
    (w'.stakeAccount u).totalStakedIndex
      = restake (w.stakeAccount u).totalStakedIndex (w.treasury.stakingIndex, e) := by
  cases hi : e.call.instruction with
  | stakeSTF a n =>
      rw [Event.StakesFor, hi] at he
      obtain rfl : a.user = u := he
      obtain ⟨-, -, hshares⟩ := h.stake hi
      have hown := congrFun hshares a.user
      rw [update_self] at hown
      rw [restake, hi]
      exact UInt64.toNat_inj.mp hown
  | unstakeSTF a n =>
      rw [Event.StakesFor, hi] at he
      obtain rfl : a.user = u := he
      obtain ⟨hlt, -, hshares⟩ := h.unstake hi
      have hown := congrFun hshares a.user
      rw [update_self] at hown
      rw [restake, hi]
      exact UInt64.toNat_inj.mp (hown.trans (toNat_sub_of_le hlt.le).symm)
  | _ =>
      rw [Event.StakesFor, hi] at he
      exact he.elim

/-! ## Every run -/

/-- The shares of `u` are the fold of the calls that stake or unstake for `u`. -/
theorem Run.totalStakedIndex_eq {ms : List (UInt64 × Event F)}
    (hrun : Run (Observed (Step d) fun w => w.treasury.stakingIndex) w₀ ms w) :
    (w.stakeAccount u).totalStakedIndex = (ms.filter fun m => m.2.StakesFor u).foldl restake
      (w₀.stakeAccount u).totalStakedIndex := by
  induction hrun with
  | nil => rfl
  | @snoc ms v w m _ hstep ih =>
      obtain ⟨hindex, hstep⟩ := hstep
      have hm : m = (v.treasury.stakingIndex, m.2) := Prod.ext hindex rfl
      rw [List.filter_append, List.foldl_append, ← ih]
      by_cases he : m.2.StakesFor u
      · rw [hstep.handlerStep.restake_eq he, ← hm]
        simp [he]
      · rw [World.stakeAccount, hstep.handlerStep.stakeAccount_eq he]
        simp [he, World.stakeAccount]

/-- An accepted call of any instruction leaves the stake account and the escrow of a user who did
not sign it as they were; and in every run a user's `total_staked_index` is the fold of the calls
that stake or unstake for it, each at the staking index of its moment and each signed by it. -/
theorem user_isolation :
    (∀ (d : Deployment) (w w' : World F) (e : Event F) (u : Pubkey), Step d w e w' →
      u ∉ e.call.env.signers →
        w'.stakeAccounts u = w.stakeAccounts u ∧ w'.escrows u = w.escrows u) ∧
    ∀ (d : Deployment) (w₀ w : World F) (es : List (Event F)) (u : Pubkey), Run (Step d) w₀ es w →
      (∀ e ∈ es, e.StakesFor u → u ∈ e.call.env.signers) ∧
      ∃ ms, Run (Observed (Step d) fun w => w.treasury.stakingIndex) w₀ ms w ∧
        ms.map Prod.snd = es ∧
        (w.stakeAccount u).totalStakedIndex = (ms.filter fun m => m.2.StakesFor u).foldl restake
          (w₀.stakeAccount u).totalStakedIndex := by
  refine ⟨fun d w w' e u h hu => h.isolated hu, ?_⟩
  intro d w₀ w es u hrun
  constructor
  · intro e hmem he
    obtain ⟨p, q, rfl⟩ := List.append_of_mem hmem
    obtain ⟨v, -, hrest⟩ := hrun.split
    obtain ⟨v', hstep, -⟩ := hrest.split_cons
    exact hstep.signed_of_stakesFor he
  · obtain ⟨ms, hms, hmap⟩ := hrun.observed fun w => w.treasury.stakingIndex
    exact ⟨ms, hms, hmap, Run.totalStakedIndex_eq hms⟩

end

/-! ### User `1` stakes, and user `2` looks on -/

/-- Seven shares are the fold of a stake of ten and an unstake of three; user `2` still has no
account. -/
theorem user_isolation_small : ∃ (e f : Event ℚ) (w₁ w : World ℚ) (ms : List (UInt64 × Event ℚ)),
    e.call = stfStake ∧ f.call = stfUnstake ∧
      Step (smallDeployment .release) (Initialize.world ⟨7⟩ stfLedger) e w₁ ∧
      Step (smallDeployment .release) w₁ f w ∧
      w₁.stakeAccounts 2 = none ∧ w₁.escrows 2 = none ∧ ms.map Prod.snd = [e, f] ∧
      (w.stakeAccount 1).totalStakedIndex = 7 ∧
      (ms.filter fun m => m.2.StakesFor 1).foldl restake 0 = 7 := by
  obtain ⟨es, w, hrun, hcalls, hp⟩ := exists_run_of_replay
    (fun c w => c.process (smallDeployment .release) w) (Initialize.world ⟨7⟩ stfLedger)
    [stfStake, stfUnstake] (fun _ w => decide ((w.stakeAccount 1).totalStakedIndex = 7))
    (by decide +kernel)
  obtain ⟨e, f, rfl, he, hf⟩ : ∃ e f, es = [e, f] ∧ e.call = stfStake ∧ f.call = stfUnstake := by
    simpa [List.map_eq_cons_iff, and_assoc] using hcalls
  obtain ⟨w₁, hstake, hrest⟩ := hrun.split_cons
  obtain ⟨w₂, hunstake, hnil⟩ := hrest.split_cons
  rw [Run.nil_iff] at hnil
  subst hnil
  have hseven : (w.stakeAccount 1).totalStakedIndex = 7 := of_decide_eq_true hp
  obtain ⟨hstakes, hescrow⟩ := user_isolation.1 _ _ _ e 2 hstake (by rw [he]; decide)
  obtain ⟨-, ms, -, hmap, hfold⟩ := user_isolation.2 _ _ _ _ 1 hrun
  exact ⟨e, f, w₁, w, ms, he, hf, hstake, hunstake, hstakes, hescrow, hmap, hseven,
    hfold.symm.trans hseven⟩

end Saturn
