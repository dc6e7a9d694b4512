import Saturn.Steps
import Saturn.Keyed.Total

/-!
# The staking ledger

A staker's `total_staked_index` are its shares, and `token_staked` is meant to be their sum. Both
are updated with arithmetic that wraps, in two accounts, by two instructions; no other instruction
touches either (`Step.ledger_eq`). So the treasury records the sum up to wrapping in every run
(`Recorded.step`), and exactly as long as the sum fits.
-/

namespace Saturn

open Machine Transition Function

variable {F : Type} {d : Deployment} {w w' : World F} {e : Event F} {es : List (Event F)}

/-! ## Shares -/

/-- The shares of a user. -/
def World.shares (w : World F) (u : Pubkey) : ℕ := (w.stakeAccount u).totalStakedIndex.toNat

/-- The shares of all users. -/
noncomputable def World.totalShares (w : World F) : ℕ := Keyed.total id w.shares

theorem shares_update {u : Pubkey} {a : UserStakeAccount}
    (h : w'.stakeAccounts = update w.stakeAccounts u (some a)) :
    w'.shares = update w.shares u a.totalStakedIndex.toNat := by
  funext j
  by_cases hj : j = u
  · subst hj
    rw [update_self, World.shares, World.stakeAccount, h, update_self]
    rfl
  · rw [update_of_ne hj, World.shares, World.stakeAccount, h, update_of_ne hj]
    rfl

theorem shares_eq (h : w'.stakeAccounts = w.stakeAccounts) : w'.shares = w.shares := by
  funext u
  rw [World.shares, World.shares, World.stakeAccount, World.stakeAccount, h]

theorem shares_le_totalShares (w : World F) (u : Pubkey) : w.shares u ≤ w.totalShares :=
  Keyed.le_total id w.shares u

theorem totalShares_update {u : Pubkey} {n : ℕ} (h : w'.shares = update w.shares u n) :
    w'.totalShares + w.shares u = w.totalShares + n := by
  rw [World.totalShares, h]
  exact Keyed.total_update id w.shares u n

/-- The treasury records the shares of all users, up to wrapping. -/
def Recorded (w : World F) : Prop := w.treasury.tokenStaked.toNat ≡ w.totalShares [MOD 2 ^ 64]

theorem Recorded.tokenStaked_eq (hw : Recorded w) (h : w.totalShares < 2 ^ 64) :
    w.treasury.tokenStaked.toNat = w.totalShares := by
  have hmod : w.treasury.tokenStaked.toNat % 2 ^ 64 = w.totalShares % 2 ^ 64 := hw
  rw [Nat.mod_eq_of_lt h, Nat.mod_eq_of_lt (UInt64.toNat_lt _)] at hmod
  exact hmod

/-! ## The steps -/

section

variable [F64 F]

/-- What an accepted stake does to the ledger: it credits the amount divided by the index. -/
theorem HandlerStep.stake {a : StakeSTF} {n : UInt64} (h : HandlerStep d w e w')
    (hi : e.call.instruction = .stakeSTF a n) :
    w.treasury.stakingIndex ≠ 0 ∧
      w'.treasury = w.treasury.setTokenStaked
        (w.treasury.tokenStaked + n / w.treasury.stakingIndex) ∧
      w'.shares = update w.shares a.user ((w.stakeAccount a.user).totalStakedIndex
        + n / w.treasury.stakingIndex).toNat := by
  obtain ⟨hindex, ht⟩ := h.stakeSTF hi
  exact ⟨hindex, ht, shares_update (h.stakeSTF_stakeAccounts hi)⟩

/-- What an accepted unstake does to it: it debits the amount, which is below the user's shares. -/
theorem HandlerStep.unstake {a : UnStakeSTF} {n : UInt64} (h : HandlerStep d w e w')
    (hi : e.call.instruction = .unstakeSTF a n) :
    n.toNat < w.shares a.user ∧
      w'.treasury = w.treasury.setTokenStaked (w.treasury.tokenStaked - n) ∧
      w'.shares = update w.shares a.user (w.shares a.user - n.toNat) := by
  obtain ⟨hlt, ht⟩ := h.unstakeSTF hi
  have hlt' : n.toNat < w.shares a.user := UInt64.lt_iff_toNat_lt.mp hlt
  have hdebit : ((w.stakeAccount a.user).totalStakedIndex - n).toNat
      = w.shares a.user - n.toNat := toNat_sub_of_le hlt'.le
  refine ⟨hlt', ht, ?_⟩
  rw [← hdebit]
  exact shares_update (h.unstakeSTF_stakeAccounts hi)

/-- No other instruction touches the shares or their record. -/
theorem Step.ledger_eq (h : Step d w e w') (hstake : ∀ a n, e.call.instruction ≠ .stakeSTF a n)
    (hunstake : ∀ a n, e.call.instruction ≠ .unstakeSTF a n) :
    w'.treasury.tokenStaked = w.treasury.tokenStaked ∧ w'.shares = w.shares := by
  have hhandler := h.handlerStep
  constructor
  · apply hhandler.treasury_cases (motive := fun t => t.tokenStaked = w.treasury.tokenStaked)
    case initializeTreasury =>
      intro a hi
      cases h.constraints_eq hi
    case stakeSTF =>
      intro a n hi
      exact absurd hi (hstake a n)
    case unstakeSTF =>
      intro a n hi
      exact absurd hi (hunstake a n)
    all_goals
      intros
      rfl
  · apply shares_eq
    apply hhandler.stakeAccounts_eq
    cases hi : e.call.instruction with
    | stakeSTF a n => exact absurd hi (hstake a n)
    | unstakeSTF a n => exact absurd hi (hunstake a n)
    | _ => simp [Instruction.writes]

/-! ## Every run -/

theorem Recorded.stake {a : StakeSTF} {n : UInt64} (hw : Recorded w) (h : HandlerStep d w e w')
    (hi : e.call.instruction = .stakeSTF a n) : Recorded w' := by
  obtain ⟨-, ht, hshares⟩ := h.stake hi
  have htotal := totalShares_update hshares
  have hsum : (w.treasury.tokenStaked + n / w.treasury.stakingIndex).toNat = _ :=
    UInt64.toNat_add _ _
  have hown : ((w.stakeAccount a.user).totalStakedIndex + n / w.treasury.stakingIndex).toNat = _ :=
    UInt64.toNat_add _ _
  have hw' : w.treasury.tokenStaked.toNat % 2 ^ 64 = w.totalShares % 2 ^ 64 := hw
  -- both sums wrap at the same modulus, the one in the account before it joins the total
  show w'.treasury.tokenStaked.toNat % 2 ^ 64 = w'.totalShares % 2 ^ 64
  rw [ht, Treasury.setTokenStaked_tokenStaked, hsum]
  rw [hown, World.shares] at htotal
  omega

theorem Recorded.unstake {a : UnStakeSTF} {n : UInt64} (hw : Recorded w) (h : HandlerStep d w e w')
    (hi : e.call.instruction = .unstakeSTF a n) : Recorded w' := by
  obtain ⟨hlt, ht, hshares⟩ := h.unstake hi
  have htotal := totalShares_update hshares
  have hsub : (w.treasury.tokenStaked - n).toNat = _ := UInt64.toNat_sub _ _
  have hn := n.toNat_lt
  have hw' : w.treasury.tokenStaked.toNat % 2 ^ 64 = w.totalShares % 2 ^ 64 := hw
  show w'.treasury.tokenStaked.toNat % 2 ^ 64 = w'.totalShares % 2 ^ 64
  rw [ht, Treasury.setTokenStaked_tokenStaked, hsub]
  omega

theorem Recorded.step (hw : Recorded w) (h : Step d w e w') : Recorded w' := by
  by_cases hstake : ∃ a n, e.call.instruction = .stakeSTF a n
  · obtain ⟨a, n, hi⟩ := hstake
    exact hw.stake h.handlerStep hi
  · by_cases hunstake : ∃ a n, e.call.instruction = .unstakeSTF a n
    · obtain ⟨a, n, hi⟩ := hunstake
      exact hw.unstake h.handlerStep hi
    · obtain ⟨hsame, hshares⟩ := h.ledger_eq (fun a n hi => hstake ⟨a, n, hi⟩)
        fun a n hi => hunstake ⟨a, n, hi⟩
      rw [Recorded, hsame, World.totalShares, hshares]
      exact hw

omit [F64 F] in
/-- Nothing is staked: neither by the treasury's record nor by anybody's. -/
structure NothingStaked (w : World F) : Prop where
  tokenStaked : w.treasury.tokenStaked = 0
  shares : ∀ u, (w.stakeAccount u).totalStakedIndex = 0

omit [F64 F] in
theorem NothingStaked.totalShares (h : NothingStaked w) : w.totalShares = 0 := by
  apply Keyed.total_eq_zero
  intro u
  show (w.stakeAccount u).totalStakedIndex.toNat = 0
  rw [h.shares]
  rfl

omit [F64 F] in
theorem NothingStaked.recorded (h : NothingStaked w) : Recorded w := by
  rw [Recorded, h.totalShares, h.tokenStaked]
  rfl

/-- In every run from a world in which nothing is staked, the record is the sum of all shares up to
wrapping. Where that sum fits the two are equal, and an unstake that is accepted then takes its
amount from both without underflow. -/
theorem staking_ledger {w₀ : World F} (hrun : Run (Step d) w₀ es w) (h₀ : NothingStaked w₀) :
    w.treasury.tokenStaked.toNat ≡ w.totalShares [MOD 2 ^ 64] ∧
      (w.totalShares < 2 ^ 64 →
        w.treasury.tokenStaked.toNat = w.totalShares ∧
        ∀ (e : Event F) (w' : World F) (a : UnStakeSTF) (n : UInt64), Step d w e w' →
          e.call.instruction = .unstakeSTF a n →
            n.toNat ≤ w.treasury.tokenStaked.toNat ∧ n.toNat ≤ w.shares a.user) := by
  have hrec : Recorded w := hrun.invariant Recorded h₀.recorded fun v e v' hstep hv => hv.step hstep
  refine ⟨hrec, ?_⟩
  intro hfits
  have heq := hrec.tokenStaked_eq hfits
  refine ⟨heq, ?_⟩
  intro e w' a n hstep hi
  obtain ⟨hlt, -⟩ := hstep.handlerStep.unstake hi
  refine ⟨?_, hlt.le⟩
  rw [heq]
  exact hlt.le.trans (shares_le_totalShares w a.user)

end

/-! ### A stake of ten and an unstake of three -/

/-- User `1` holds USDC in account `11` and a hundred units of STF in account `14`. -/
def stfLedger : Ledger where
  data k :=
    if k = 11 then .tokenAccount ⟨usdcMint, 1, 1000000000⟩
    else if k = 12 then .tokenAccount ⟨usdcMint, 9, 0⟩
    else if k = 13 then .tokenAccount ⟨stfMint, 9, 0⟩
    else if k = 14 then .tokenAccount ⟨stfMint, 1, 100⟩
    else if k = stfMint then .mint ⟨2, 100⟩
    else .empty
  lamports _ := 0

/-- User `1` stakes ten units. -/
def stfStake : Call ℚ where
  env := splEnv 0 [1] fun _ => none
  instruction := .stakeSTF
    { user := 1, userTokenAccount := 14, treasuryTokenAccount := 13, stfTokenMint := stfMint } 10

/-- User `1` takes three shares out. -/
def stfUnstake : Call ℚ where
  env := splEnv 0 [1] fun _ => none
  instruction := .unstakeSTF
    { user := 1, userTokenAccount := 14, treasuryTokenAccount := 13, stfTokenMint := stfMint } 3

/-- Seven shares are left, and recorded. -/
theorem staking_ledger_small : ∃ (es : List (Event ℚ)) (w : World ℚ),
    es.map Event.call = [stfStake, stfUnstake] ∧ w.treasury.tokenStaked = 7 ∧
      w.treasury.tokenStaked.toNat ≡ w.totalShares [MOD 2 ^ 64] ∧
      (w.totalShares < 2 ^ 64 →
        w.treasury.tokenStaked.toNat = w.totalShares ∧
        ∀ (e : Event ℚ) (w' : World ℚ) (a : UnStakeSTF) (n : UInt64),
          Step (smallDeployment .release) w e w' → e.call.instruction = .unstakeSTF a n →
            n.toNat ≤ w.treasury.tokenStaked.toNat ∧ n.toNat ≤ w.shares a.user) := by
  obtain ⟨es, w, hrun, hcalls, hp⟩ := exists_run_of_replay
    (fun c w => c.process (smallDeployment .release) w) (Initialize.world ⟨7⟩ stfLedger)
    [stfStake, stfUnstake] (fun _ w => decide (w.treasury.tokenStaked = 7)) (by decide +kernel)
  exact ⟨es, w, hcalls, of_decide_eq_true hp, staking_ledger hrun ⟨rfl, fun _ => rfl⟩⟩

end Saturn
