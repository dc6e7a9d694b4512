import Saturn.Staking.Ledger
import Saturn.Staking.Solvency
import Saturn.Keyed.Custody

/-!
# What a staker paid in and got back

Between rebases the staking index stays at some `i`. Then stakes and unstakes of one mint, by way of
one token account of the treasury, are custody of the staked units at that index (`Keyed.Custody`):
the shares are the stakers' `total_staked_index`, the reserve is the balance of the account.

Both sums of a stake and the product of an unstake wrap, and the transfer of an unstake may fail
unseen. None of it happens: what all shares are worth is covered by the balance, the balance is part
of what there is of the mint, and that fits into a `u64` (`InCustody`). So each step is one of
`Custody.Step`, and per user the units paid in and not paid back are the worth of the shares and the
dust (`stakers_conserved`).
-/

namespace Saturn

open Machine Transition Function Keyed

variable {F : Type} {d : Deployment} {w₀ w w' : World F} {e : Event F} {es : List (Event F)}
  {mint account : Pubkey}

/-! ## Balances of a mint -/

/-- What a token account holds of `mint`. -/
def balanceIn (mint : Pubkey) : Option TokenAccount → ℕ
  | some a => if a.mint = mint then a.amount.toNat else 0
  | none => 0

/-- What there is of `mint` in all token accounts. -/
noncomputable def circulating (mint : Pubkey) (t : TokenAccounts) : ℕ :=
  Keyed.total (balanceIn mint) t

def balanceAt (t : TokenAccounts) (k : Pubkey) : ℕ := ((t k).map fun a => a.amount.toNat).getD 0

section

variable {t t' : TokenAccounts} {source destination : Pubkey} {amount : UInt64}

/-- What a transfer between two accounts does to their balances, and to nothing else. -/
theorem Moves.accounts (h : Moves t t' source destination amount) (hne : source ≠ destination) :
    ∃ a b, t source = some a ∧ t destination = some b ∧ b.mint = a.mint ∧ amount ≤ a.amount ∧
      b.amount.toNat + amount.toNat < 2 ^ 64 ∧
      t' = update (update t source (some (a.debit amount))) destination
        (some (b.credit amount)) := by
  obtain ⟨a, ha, hle, b, hb, hmint, hfits, ht⟩ := h
  rw [update_of_ne hne.symm] at hb
  exact ⟨a, b, ha, hb, hmint, hle, hfits, ht⟩

theorem Moves.balance_source (h : Moves t t' source destination amount)
    (hne : source ≠ destination) :
    balanceAt t' source + amount.toNat = balanceAt t source := by
  obtain ⟨a, b, ha, -, -, hle, -, rfl⟩ := h.accounts hne
  rw [balanceAt, balanceAt, update_of_ne hne, update_self, ha]
  show (a.amount - amount).toNat + amount.toNat = a.amount.toNat
  rw [toNat_sub_of_le (UInt64.le_iff_toNat_le.mp hle)]
  exact Nat.sub_add_cancel (UInt64.le_iff_toNat_le.mp hle)

theorem Moves.balance_destination (h : Moves t t' source destination amount)
    (hne : source ≠ destination) :
    balanceAt t' destination = balanceAt t destination + amount.toNat := by
  obtain ⟨a, b, -, hb, -, -, hfits, rfl⟩ := h.accounts hne
  rw [balanceAt, balanceAt, update_self, hb]
  exact toNat_add_of_lt hfits

/-- A transfer changes where the units of a mint are, not how many there are. -/
theorem Moves.circulating (h : Moves t t' source destination amount) (hne : source ≠ destination) :
    Saturn.circulating mint t' = Saturn.circulating mint t := by
  obtain ⟨a, b, ha, hb, hmint, hle, hfits, rfl⟩ := h.accounts hne
  have hdebit := Keyed.total_update (balanceIn mint) t source (some (a.debit amount))
  have hcredit := Keyed.total_update (balanceIn mint) (update t source (some (a.debit amount)))
    destination (some (b.credit amount))
  have hle' := UInt64.le_iff_toNat_le.mp hle
  rw [update_of_ne hne.symm, hb] at hcredit
  rw [ha] at hdebit
  simp only [balanceIn, TokenAccount.debit_mint, TokenAccount.debit_amount,
    TokenAccount.credit_mint, TokenAccount.credit_amount, toNat_add_of_lt hfits,
    toNat_sub_of_le hle', hmint] at hdebit hcredit
  rw [Saturn.circulating, Saturn.circulating]
  split_ifs at hdebit hcredit
  all_goals omega

theorem balance_add_le_circulating {j k : Pubkey} {a b : TokenAccount} (hne : j ≠ k)
    (ha : t j = some a) (hb : t k = some b) (hmint : a.mint = mint) (hmint' : b.mint = mint) :
    a.amount.toNat + b.amount.toNat ≤ circulating mint t := by
  have hle := Keyed.add_le_total (w := balanceIn mint) (f := t) hne
  rw [ha, hb, balanceIn, balanceIn, if_pos hmint, if_pos hmint'] at hle
  exact hle

end

/-! ## The steps -/

/-- Signed for by the authority of the treasury, a transfer from one of its accounts to an account
of the same mint is refused only where it asks for more than the balance, or would leave more than a
`u64`. -/
def PaysOut (d : Deployment) (env : Env) : Prop :=
  ∀ k source destination mint amount decimals l a b m,
    l.tokenAccount source = some a → a.mint = mint → a.owner = d.treasuryAuthority →
    l.tokenAccount destination = some b → b.mint = mint → l.mint mint = some m →
      m.decimals = decimals →
    amount ≤ a.amount → b.amount.toNat + amount.toNat < 2 ^ 64 →
    ∃ l', env.cpi k ⟨.transferChecked source mint destination d.treasuryAuthority amount decimals,
      [.treasuryAuthority]⟩ l = .ok l'

/-- `e` is a stake or an unstake that names the mint and the treasury's token account. -/
def Event.Names (mint account : Pubkey) (e : Event F) : Prop :=
  (∃ a n, e.call.instruction = .stakeSTF a n ∧ a.stfTokenMint = mint ∧
    a.treasuryTokenAccount = account) ∨
    ∃ a n, e.call.instruction = .unstakeSTF a n ∧ a.stfTokenMint = mint ∧
      a.treasuryTokenAccount = account

/-- An accepted stake or unstake of a mint with two decimals by way of one account of the treasury,
where transfers fail only for lack of balance. -/
structure CustodyStep [F64 F] (d : Deployment) (mint account : Pubkey) (w : World F) (e : Event F)
    (w' : World F) : Prop where
  step : Step d w e w'
  sound : Sound d e.call.env
  paysOut : PaysOut d e.call.env
  decimals : ∀ m, w.ledger.mint mint = some m → m.decimals = 2
  names : e.Names mint account

def CpiRecord.moved (r : CpiRecord) : ℕ :=
  match r.ok, r.cpi.instruction with
  | true, .transfer _ _ _ amount => amount.toNat
  | true, .transferChecked _ _ _ _ amount _ => amount.toNat
  | _, _ => 0

def Event.moved (e : Event F) : ℕ := (e.trace.map CpiRecord.moved).sum

/-- A stake or an unstake, as a move of custody. -/
def Event.move (e : Event F) : Option (Move Pubkey) :=
  match e.call.instruction with
  | .stakeSTF a n => some (.deposit a.user n.toNat e.moved)
  | .unstakeSTF a n => some (.withdraw a.user n.toNat e.moved)
  | _ => none

def deposited (u : Pubkey) (es : List (Event F)) : ℕ :=
  ((es.filterMap Event.move).map (Move.paidIn u)).sum

def received (u : Pubkey) (es : List (Event F)) : ℕ :=
  ((es.filterMap Event.move).map (Move.paidOut u)).sum

/-- What the stakes of the user left over at the index `i`. -/
def dust (u : Pubkey) (i : ℕ) (es : List (Event F)) : ℕ :=
  ((es.filterMap Event.move).map (Move.dust u i)).sum

/-! ## Custody -/

/-- The shares, and the balance of the treasury's account. -/
def World.custody (account : Pubkey) (w : World F) : Custody Pubkey :=
  ⟨w.shares, balanceAt w.ledger.tokenAccount account⟩

/-- The index is `i`, the balance covers all shares, and what there is of the mint fits into a
`u64`. -/
structure InCustody (mint account : Pubkey) (i : ℕ) (w : World F) : Prop where
  index : w.treasury.stakingIndex.toNat = i
  covered : (w.custody account).Covered i
  supply : circulating mint w.ledger.tokenAccount < 2 ^ 64

section

variable [F64 F] {i : ℕ}

/-- A stake moves its amount from the user's account into the treasury's. -/
theorem Step.stake_moves {a : StakeSTF} {n : UInt64} (h : Step d w e w') (hs : Sound d e.call.env)
    (hi : e.call.instruction = .stakeSTF a n) :
    e.moved = n.toNat ∧ a.userTokenAccount ≠ a.treasuryTokenAccount ∧
      Moves w.ledger.tokenAccount w'.ledger.tokenAccount a.userTokenAccount a.treasuryTokenAccount
        n := by
  obtain ⟨hsigner, ⟨ua, hua, -, huowner⟩, ⟨ta, hta, -, htowner⟩, -⟩ :=
    stakingConstraints_eq_ok.mp (h.constraints_eq hi)
  obtain ⟨l, hcpi, hl, htrace⟩ := h.handlerStep.stakeSTF_deposit hi
  refine ⟨?_, ?_, ?_⟩
  · rw [Event.moved, htrace]
    rfl
  · apply ne_of_owner_ne hua hta
    rw [huowner, htowner]
    exact hs.signer_ne hsigner
  · rw [hl]
    exact hs.exact.transfer _ _ _ _ _ _ _ _ hcpi

theorem InCustody.stake {a : StakeSTF} {n : UInt64} (hw : InCustody mint a.treasuryTokenAccount i w)
    (h : Step d w e w') (hs : Sound d e.call.env) (hi : e.call.instruction = .stakeSTF a n) :
    Custody.Step i (w.custody a.treasuryTokenAccount) (.deposit a.user n.toNat e.moved)
        (w'.custody a.treasuryTokenAccount) ∧
      InCustody mint a.treasuryTokenAccount i w' := by
  obtain ⟨hindex, htreasury, hshares⟩ := h.handlerStep.stake hi
  obtain ⟨hmoved, hne, hmoves⟩ := h.stake_moves hs hi
  have hbalance := hmoves.balance_destination hne
  -- the new balance is one of a `u64`, and covers the old shares and the new ones
  have hfits : balanceAt w.ledger.tokenAccount a.treasuryTokenAccount + n.toNat < 2 ^ 64 := by
    rw [← hbalance, balanceAt]
    cases w'.ledger.tokenAccount a.treasuryTokenAccount with
    | none => decide
    | some b => exact b.amount.toNat_lt
  have hstep : Custody.Step i (w.custody a.treasuryTokenAccount) (.deposit a.user n.toNat n.toNat)
      ⟨update w.shares a.user (w.shares a.user + n.toNat / i),
        balanceAt w.ledger.tokenAccount a.treasuryTokenAccount + n.toNat⟩ := .deposit a.user n.toNat
  have hcovered := hstep.covered hw.covered
  have hpos : 0 < i := hw.index ▸ ne_zero_iff_toNat_pos.mp hindex
  have hcredit : ((w.stakeAccount a.user).totalStakedIndex + n / w.treasury.stakingIndex).toNat
      = w.shares a.user + n.toNat / i := by
    rw [toNat_add_of_lt, UInt64.toNat_div, hw.index, World.shares]
    rw [UInt64.toNat_div, hw.index]
    have hworth : (update w.shares a.user (w.shares a.user + n.toNat / i)) a.user * i
        ≤ balanceAt w.ledger.tokenAccount a.treasuryTokenAccount + n.toNat :=
          hcovered.worth_le le_rfl
    rw [update_self] at hworth
    exact ((Nat.le_mul_of_pos_right _ hpos).trans hworth).trans_lt hfits
  have hcustody : w'.custody a.treasuryTokenAccount =
      ⟨update w.shares a.user (w.shares a.user + n.toNat / i),
        balanceAt w.ledger.tokenAccount a.treasuryTokenAccount + n.toNat⟩ := by
    rw [World.custody, hshares, hcredit, hbalance]
  refine ⟨?_, ?_, ?_, ?_⟩
  · rw [hcustody, hmoved]
    exact hstep
  · rw [htreasury]
    exact hw.index
  · rw [hcustody]
    exact hcovered
  · rw [hmoves.circulating hne]
    exact hw.supply

omit [F64 F] in
/-- The worth of the shares that an unstake takes out is in the account, and is less than
`2 ^ 64`. -/
theorem InCustody.worth {u : Pubkey} {b : ℕ} (hw : InCustody mint account i w)
    (hb : b ≤ w.shares u) :
    b * i ≤ balanceAt w.ledger.tokenAccount account :=
  hw.covered.worth_le (u := u) hb

theorem InCustody.unstake_pays {a : UnStakeSTF} {n : UInt64}
    (hw : InCustody a.stfTokenMint a.treasuryTokenAccount i w)
    (h : CustodyStep d a.stfTokenMint a.treasuryTokenAccount w e w')
    (hi : e.call.instruction = .unstakeSTF a n) :
    n.toNat * i < 2 ^ 64 ∧ e.trace = [⟨a.payout d (n * w.treasury.stakingIndex), true⟩] ∧
      a.treasuryTokenAccount ≠ a.userTokenAccount ∧
      Moves w.ledger.tokenAccount w'.ledger.tokenAccount a.treasuryTokenAccount a.userTokenAccount
        (n * w.treasury.stakingIndex) := by
  obtain ⟨hsigner, ⟨ua, hua, humint, huowner⟩, ⟨ta, hta, htmint, htowner⟩, m, hm⟩ :=
    stakingConstraints_eq_ok.mp (h.step.constraints_eq hi)
  obtain ⟨hlt, -, -⟩ := h.step.handlerStep.unstake hi
  have hne : a.treasuryTokenAccount ≠ a.userTokenAccount := by
    apply ne_of_owner_ne hta hua
    rw [huowner, htowner]
    exact (h.sound.signer_ne hsigner).symm
  have hworth := hw.worth hlt.le
  have hbalance : balanceAt w.ledger.tokenAccount a.treasuryTokenAccount = ta.amount.toNat := by
    rw [balanceAt, hta]
    rfl
  rw [hbalance] at hworth
  have hpay : (n * w.treasury.stakingIndex).toNat = n.toNat * i := by
    rw [toNat_mul_of_lt, hw.index]
    rw [hw.index]
    exact hworth.trans_lt ta.amount.toNat_lt
  -- both accounts together hold no more than there is of the mint
  have hroom := balance_add_le_circulating hne hta hua htmint humint
  have hsupply := hw.supply
  obtain ⟨l', hpaid⟩ := h.paysOut 0 a.treasuryTokenAccount a.userTokenAccount a.stfTokenMint
    (n * w.treasury.stakingIndex) 2 w.ledger ta ua m hta htmint htowner hua humint hm
    (h.decimals m hm) (UInt64.le_iff_toNat_le.mpr (hpay.trans_le hworth)) (by omega)
  rcases h.step.handlerStep.unstakeSTF_payout hi with ⟨l, hcpi, hl, htrace⟩ | ⟨⟨err, hcpi⟩, -⟩
  · refine ⟨hworth.trans_lt ta.amount.toNat_lt, htrace, hne, ?_⟩
    rw [hl]
    exact h.sound.exact.transferChecked _ _ _ _ _ _ _ _ _ _ hcpi
  · -- an account that has the amount can pay it
    exact absurd (hcpi.symm.trans hpaid) (by simp)

theorem InCustody.unstake {a : UnStakeSTF} {n : UInt64}
    (hw : InCustody a.stfTokenMint a.treasuryTokenAccount i w)
    (h : CustodyStep d a.stfTokenMint a.treasuryTokenAccount w e w')
    (hi : e.call.instruction = .unstakeSTF a n) :
    Custody.Step i (w.custody a.treasuryTokenAccount) (.withdraw a.user n.toNat e.moved)
        (w'.custody a.treasuryTokenAccount) ∧
      InCustody a.stfTokenMint a.treasuryTokenAccount i w' := by
  obtain ⟨hlt, htreasury, hshares⟩ := h.step.handlerStep.unstake hi
  obtain ⟨hfits, htrace, hne, hmoves⟩ := hw.unstake_pays h hi
  have hpay : (n * w.treasury.stakingIndex).toNat = n.toNat * i := by
    rw [toNat_mul_of_lt, hw.index]
    rw [hw.index]
    exact hfits
  have hmoved : e.moved = n.toNat * i := by
    rw [Event.moved, htrace, ← hpay]
    rfl
  have hbalance := hmoves.balance_source hne
  rw [hpay] at hbalance
  have hcustody : w'.custody a.treasuryTokenAccount =
      ⟨update w.shares a.user (w.shares a.user - n.toNat),
        balanceAt w'.ledger.tokenAccount a.treasuryTokenAccount⟩ := by
    rw [World.custody, hshares]
  have hstep : Custody.Step i (w.custody a.treasuryTokenAccount) (.withdraw a.user n.toNat e.moved)
      (w'.custody a.treasuryTokenAccount) := by
    rw [hcustody, hmoved]
    exact .withdraw a.user n.toNat _ hlt.le hbalance
  refine ⟨hstep, ?_, hstep.covered hw.covered, ?_⟩
  · rw [htreasury]
    exact hw.index
  · rw [hmoves.circulating hne]
    exact hw.supply

/-- Each step is one of custody. -/
theorem InCustody.step (hw : InCustody mint account i w) (h : CustodyStep d mint account w e w') :
    ∃ m, e.move = some m ∧ Custody.Step i (w.custody account) m (w'.custody account) ∧
      InCustody mint account i w' := by
  rcases h.names with ⟨a, n, hi, rfl, rfl⟩ | ⟨a, n, hi, rfl, rfl⟩
  · exact ⟨_, by rw [Event.move, hi], hw.stake h.step h.sound hi⟩
  · exact ⟨_, by rw [Event.move, hi], hw.unstake h hi⟩

omit [F64 F] in
theorem NothingStaked.inCustody (h₀ : NothingStaked w₀)
    (hsupply : circulating mint w₀.ledger.tokenAccount < 2 ^ 64) :
    InCustody mint account w₀.treasury.stakingIndex.toNat w₀ := by
  refine ⟨rfl, ?_, hsupply⟩
  have hnone : Keyed.total id w₀.shares = 0 := h₀.totalShares
  show Keyed.total id w₀.shares * _ ≤ _
  rw [hnone, Nat.zero_mul]
  exact Nat.zero_le _

end

/-! ## Every run -/

section

variable [F64 F] {i : ℕ}

theorem Run.inCustody (hrun : Run (CustodyStep d mint account) w₀ es w)
    (h : InCustody mint account i w₀) : InCustody mint account i w := by
  apply hrun.invariant _ h
  intro v e v' hstep hv
  obtain ⟨m, -, -, hv'⟩ := hv.step hstep
  exact hv'

/-- A run is one of custody, with the moves that its calls make. -/
theorem Run.custody (hrun : Run (CustodyStep d mint account) w₀ es w)
    (h : InCustody mint account i w₀) :
    Run (Custody.Step i) (w₀.custody account) (es.filterMap Event.move) (w.custody account) := by
  apply hrun.simulate (InCustody mint account i) h
  · intro v e v' hstep hv
    exact Run.inCustody (.single hstep) hv
  · intro v e v' m hstep hv hm
    obtain ⟨m', hm', hmove, -⟩ := hv.step hstep
    cases hm.symm.trans hm'
    exact hmove
  · intro v e v' hstep hv hm
    obtain ⟨m, hm', -⟩ := hv.step hstep
    cases hm.symm.trans hm'

/-- Each unstake of a run pays what its shares are worth. -/
theorem Run.unstake_pays {a : UnStakeSTF} {n : UInt64}
    (hrun : Run (CustodyStep d mint account) w₀ es w)
    (h : InCustody mint account i w₀) (he : e ∈ es) (hi : e.call.instruction = .unstakeSTF a n) :
    n.toNat * i < 2 ^ 64 ∧ e.trace = [⟨a.payout d (n * w₀.treasury.stakingIndex), true⟩] := by
  obtain ⟨p, q, rfl⟩ := List.append_of_mem he
  obtain ⟨v, hp, hrest⟩ := hrun.split
  obtain ⟨v', hstep, -⟩ := hrest.split_cons
  have hv := Run.inCustody hp h
  have hsame : v.treasury.stakingIndex = w₀.treasury.stakingIndex :=
    UInt64.toNat_inj.mp (hv.index.trans h.index.symm)
  rcases hstep.names with ⟨b, k, hi', -⟩ | ⟨b, k, hi', rfl, rfl⟩
  · cases hi.symm.trans hi'
  · cases hi.symm.trans hi'
    obtain ⟨hfits, htrace, -⟩ := hv.unstake_pays hstep hi
    rw [hsame] at htrace
    exact ⟨hfits, htrace⟩

end

/-- In every run of stakes and unstakes of one mint by way of one account, from a world in which
nothing is staked: what a user paid in and was not paid back is what its shares are worth at the
index, and what its stakes left over. No user is paid more than it paid in, no product of an unstake
wraps, and each of its transfers is made. -/
theorem stakers_conserved [F64 F] (hrun : Run (CustodyStep d mint account) w₀ es w)
    (h₀ : NothingStaked w₀) (hsupply : circulating mint w₀.ledger.tokenAccount < 2 ^ 64) :
    w.treasury.stakingIndex = w₀.treasury.stakingIndex ∧
    (∀ u, (deposited u es : ℤ) - received u es
        = w₀.treasury.stakingIndex.toNat * w.shares u + dust u w₀.treasury.stakingIndex.toNat es ∧
      received u es ≤ deposited u es) ∧
    ∀ e ∈ es, ∀ a n, e.call.instruction = .unstakeSTF a n →
      n.toNat * w₀.treasury.stakingIndex.toNat < 2 ^ 64 ∧
        e.trace = [⟨a.payout d (n * w₀.treasury.stakingIndex), true⟩] := by
  have hinit : InCustody mint account w₀.treasury.stakingIndex.toNat w₀ := h₀.inCustody hsupply
  refine ⟨UInt64.toNat_inj.mp (Run.inCustody hrun hinit).index, ?_, ?_⟩
  · intro u
    have hconserved := Custody.Run.conserved (Run.custody hrun hinit) u
    have hnone : (w₀.custody account).shares u = 0 := congrArg UInt64.toNat (h₀.shares u)
    rw [hnone, Nat.zero_mul] at hconserved
    have heq : (deposited u es : ℤ) - received u es
        = w₀.treasury.stakingIndex.toNat * w.shares u
          + dust u w₀.treasury.stakingIndex.toNat es := by
      rw [deposited, received, dust, hconserved, World.custody]
      push_cast
      ring
    have hworth : (0 : ℤ) ≤ w₀.treasury.stakingIndex.toNat * w.shares u := by positivity
    exact ⟨heq, by omega⟩
  · intro e he a n hi
    exact Run.unstake_pays hrun hinit he hi

/-! ### Two stakes of ten at an index of three -/

theorem spl_paysOut {env : Env} (h : env.cpi = spl) : PaysOut d env := by
  intro k source destination mint amount decimals l a b m ha hamint haowner hb hbmint hm hdecimals
    hle hfits
  have hdestination : ∃ b',
    (l.setTokenAccount source (a.debit amount)).tokenAccount destination = some b' ∧
      b'.mint = mint ∧ b'.amount.toNat + amount.toNat < 2 ^ 64 := by
    rw [Ledger.tokenAccount_setTokenAccount]
    by_cases hsame : destination = source
    · subst hsame
      obtain rfl : a = b := Option.some.inj (ha.symm.trans hb)
      refine ⟨_, update_self _ _ _, hamint, ?_⟩
      rw [TokenAccount.debit_amount, toNat_sub_of_le (UInt64.le_iff_toNat_le.mp hle)]
      omega
    · exact ⟨b, by rw [update_of_ne hsame, hb], hbmint, hfits⟩
  obtain ⟨b', hb', hbmint', hfits'⟩ := hdestination
  rw [h]
  simp only [spl, splTransfer, splCredit, bind_eq_ok, okOr_eq_ok, require_eq_ok, pure_eq_ok]
  exact ⟨_, a, ha, m, hm, (), ⟨hamint, hdecimals⟩, a, ha, (), ⟨haowner, hle⟩, b', hb', (),
    ⟨hbmint'.trans hamint.symm, hfits'⟩, rfl⟩

/-- The treasury with a value, at an index of three. -/
def thirdsWorld : World ℚ :=
  { fundedWorld with treasury := { smallTreasury with tokenStaked := 0, stakingIndex := 3 } }

theorem circulating_stfLedger : circulating stfMint stfLedger.tokenAccount = 100 := by
  have hsingle := Keyed.total_eq_single (w := balanceIn stfMint) (f := stfLedger.tokenAccount) 14
  rw [circulating, hsingle]
  · rfl
  · intro k hk
    simp only [Ledger.tokenAccount, stfLedger]
    split_ifs
    all_goals rfl

/-- Twenty units are paid in and nine are paid back: three shares are left, and two units of
dust. -/
theorem stakers_conserved_small : ∃ (es : List (Event ℚ)) (w : World ℚ),
    es.map Event.call = [stfStake, stfStake, stfUnstake] ∧ w.shares 1 = 3 ∧
      Run (CustodyStep (smallDeployment .release) stfMint 13) thirdsWorld es w ∧
      (deposited 1 es : ℤ) - received 1 es = 3 * w.shares 1 + dust 1 3 es := by
  obtain ⟨x, hx, hp⟩ := exists_eq_ok (m := stfStake.process (smallDeployment .release) thirdsWorld)
    (fun x => decide (x.world.ledger.mint stfMint = some ⟨2, 100⟩) &&
      (stfStake.process (smallDeployment .release) x.world).toOption.any fun y : Exec ℚ =>
        decide (y.world.ledger.mint stfMint = some ⟨2, 100⟩) &&
        (stfUnstake.process (smallDeployment .release) y.world).toOption.any fun z : Exec ℚ =>
          decide (z.world.shares 1 = 3)) (by decide +kernel)
  rw [Bool.and_eq_true, decide_eq_true_eq] at hp
  obtain ⟨hmint, hp⟩ := hp
  obtain ⟨y, hy, hp⟩ := exists_eq_ok _ hp
  rw [Bool.and_eq_true, decide_eq_true_eq] at hp
  obtain ⟨hmint', hp⟩ := hp
  obtain ⟨z, hz, hp⟩ := exists_eq_ok _ hp
  have hstep : ∀ (c : Call ℚ) (v : World ℚ) (q : Exec ℚ), c = stfStake ∨ c = stfUnstake →
      v.ledger.mint stfMint = some ⟨2, 100⟩ → c.process (smallDeployment .release) v = .ok q →
      CustodyStep (smallDeployment .release) stfMint 13 v ⟨c, q.trace⟩ q.world := by
    rintro c v q hc hv hq
    have hdecimals : ∀ m, v.ledger.mint stfMint = some m → m.decimals = 2 := by
      intro m hm
      cases hm.symm.trans hv
      rfl
    rcases hc with rfl | rfl
    · exact ⟨hq, sound_splEnv _ _, spl_paysOut rfl, hdecimals, .inl ⟨_, _, rfl, rfl, rfl⟩⟩
    · exact ⟨hq, sound_splEnv _ _, spl_paysOut rfl, hdecimals, .inr ⟨_, _, rfl, rfl, rfl⟩⟩
  have hrun : Run (CustodyStep (smallDeployment .release) stfMint 13) thirdsWorld
      [⟨stfStake, x.trace⟩, ⟨stfStake, y.trace⟩, ⟨stfUnstake, z.trace⟩] z.world :=
    .cons (hstep _ _ _ (.inl rfl) rfl hx) (.cons (hstep _ _ _ (.inl rfl) hmint hy)
      (.single (hstep _ _ _ (.inr rfl) hmint' hz)))
  have hnothing : NothingStaked thirdsWorld := ⟨rfl, fun _ => rfl⟩
  have hsupply : circulating stfMint thirdsWorld.ledger.tokenAccount < 2 ^ 64 :=
    circulating_stfLedger.trans_lt (by norm_num)
  exact ⟨_, _, rfl, of_decide_eq_true hp, hrun,
    ((stakers_conserved hrun hnothing hsupply).2.1 1).1⟩

end Saturn
