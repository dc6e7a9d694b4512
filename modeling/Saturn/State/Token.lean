import Saturn.State.Runtime
import Saturn.Keyed.Total

/-!
# The token program

What the handlers rely on from the SPL token program is that an accepted instruction moved or minted
exactly the amount it names, of the mint it names, and nothing else. `TokenExact env` says that of
an environment. It leaves open which instructions are accepted.

`spl` is a token program to run the model on: it accepts an instruction when the accounts, the
balance and the authority allow it. It is exact (`spl_exact`).

What is held of a mint by an owner is a total over the ledger, and the last part says how each
token instruction changes it.
-/

namespace Saturn

open Machine Function

/-- The token accounts of a ledger. -/
abbrev TokenAccounts := Pubkey → Option TokenAccount

@[simps] def TokenAccount.credit (a : TokenAccount) (amount : UInt64) : TokenAccount :=
  { a with amount := a.amount + amount }

@[simps] def TokenAccount.debit (a : TokenAccount) (amount : UInt64) : TokenAccount :=
  { a with amount := a.amount - amount }

/-- `amount` of `mint` was added to the account `destination`, and nothing else changed. -/
def Credits (t t' : TokenAccounts) (mint destination : Pubkey) (amount : UInt64) : Prop :=
  ∃ b, t destination = some b ∧ b.mint = mint ∧ b.amount.toNat + amount.toNat < 2 ^ 64 ∧
    t' = update t destination (some (b.credit amount))

/-- `amount` went from `source` to `destination`, accounts of one mint. The credit is read off the
accounts after the debit, so that an account may pay itself. -/
def Moves (t t' : TokenAccounts) (source destination : Pubkey) (amount : UInt64) : Prop :=
  ∃ a, t source = some a ∧ amount ≤ a.amount ∧
    Credits (update t source (some (a.debit amount))) t' a.mint destination amount

/-- Accepted token instructions do exactly what they say, and a transfer of lamports touches no
token account. -/
structure TokenExact (env : Env) : Prop where
  transfer : ∀ n seeds source destination authority amount l l',
    env.cpi n ⟨.transfer source destination authority amount, seeds⟩ l = .ok l' →
      Moves l.tokenAccount l'.tokenAccount source destination amount
  transferChecked : ∀ n seeds source mint destination authority amount decimals l l',
    env.cpi n ⟨.transferChecked source mint destination authority amount decimals, seeds⟩ l
        = .ok l' →
      Moves l.tokenAccount l'.tokenAccount source destination amount
  mintTo : ∀ n seeds mint destination authority amount l l',
    env.cpi n ⟨.mintTo mint destination authority amount, seeds⟩ l = .ok l' →
      Credits l.tokenAccount l'.tokenAccount mint destination amount
  systemTransfer : ∀ n seeds source destination lamports l l',
    env.cpi n ⟨.systemTransfer source destination lamports, seeds⟩ l = .ok l' →
      l'.tokenAccount = l.tokenAccount

/-! ## A token program to run -/

def splError : CpiError := ⟨1⟩

def Ledger.setTokenAccount (l : Ledger) (k : Pubkey) (a : TokenAccount) : Ledger :=
  { l with data := update l.data k (.tokenAccount a) }

theorem Ledger.tokenAccount_setTokenAccount (l : Ledger) (k : Pubkey) (a : TokenAccount) :
    (l.setTokenAccount k a).tokenAccount = update l.tokenAccount k (some a) := by
  funext j
  by_cases h : j = k
  · subst h
    simp [Ledger.tokenAccount, Ledger.setTokenAccount]
  · simp [Ledger.tokenAccount, Ledger.setTokenAccount, h]

/-- Add `amount` to a token account of `mint`. -/
def splCredit (mint destination : Pubkey) (amount : UInt64) (l : Ledger) :
    Except CpiError Ledger := do
  let b ← okOr (l.tokenAccount destination) splError
  require (b.mint = mint ∧ b.amount.toNat + amount.toNat < 2 ^ 64) splError
  return l.setTokenAccount destination (b.credit amount)

/-- Move `amount` on the authority of the source's owner. -/
def splTransfer (source destination authority : Pubkey) (amount : UInt64) (l : Ledger) :
    Except CpiError Ledger := do
  let a ← okOr (l.tokenAccount source) splError
  require (a.owner = authority ∧ amount ≤ a.amount) splError
  splCredit a.mint destination amount (l.setTokenAccount source (a.debit amount))

def splSystemTransfer (source destination : Pubkey) (lamports : UInt64) (l : Ledger) :
    Except CpiError Ledger := do
  require (lamports ≤ l.lamports source) splError
  let debited := update l.lamports source (l.lamports source - lamports)
  return { l with lamports := update debited destination (debited destination + lamports) }

/-- The token instructions and lamport transfers; everything else is refused. -/
def spl (_ : ℕ) (c : Cpi) (l : Ledger) : Except CpiError Ledger :=
  match c.instruction with
  | .transfer source destination authority amount =>
      splTransfer source destination authority amount l
  | .transferChecked source mint destination authority amount decimals => do
      let a ← okOr (l.tokenAccount source) splError
      let m ← okOr (l.mint mint) splError
      require (a.mint = mint ∧ m.decimals = decimals) splError
      splTransfer source destination authority amount l
  | .mintTo mint destination _ amount => splCredit mint destination amount l
  | .systemTransfer source destination lamports =>
      splSystemTransfer source destination lamports l
  | _ => .error splError

/-- An environment around `spl`, in which every update account carries the same readings. -/
def splEnv (unixTimestamp : Int64) (signers : List Pubkey) (price : FeedId → Option Price) :
    Env where
  clock := ⟨0, unixTimestamp⟩
  signers := signers
  getPriceNoOlderThan _ _ f := price f
  rentMinimumBalance _ := 0
  cpi := spl

theorem splCredit_credits {mint destination : Pubkey} {amount : UInt64} {l l' : Ledger}
    (h : splCredit mint destination amount l = .ok l') :
    Credits l.tokenAccount l'.tokenAccount mint destination amount := by
  simp only [splCredit, bind_eq_ok, okOr_eq_ok, require_eq_ok, pure_eq_ok] at h
  obtain ⟨b, hb, _, ⟨hmint, hfits⟩, rfl⟩ := h
  exact ⟨b, hb, hmint, hfits, Ledger.tokenAccount_setTokenAccount _ _ _⟩

theorem splTransfer_moves {source destination authority : Pubkey} {amount : UInt64}
    {l l' : Ledger} (h : splTransfer source destination authority amount l = .ok l') :
    Moves l.tokenAccount l'.tokenAccount source destination amount := by
  simp only [splTransfer, bind_eq_ok, okOr_eq_ok, require_eq_ok] at h
  obtain ⟨a, ha, _, ⟨_, hle⟩, hcredit⟩ := h
  refine ⟨a, ha, hle, ?_⟩
  rw [← Ledger.tokenAccount_setTokenAccount]
  exact splCredit_credits hcredit

theorem spl_exact {env : Env} (h : env.cpi = spl) : TokenExact env where
  transfer := by
    intro n seeds source destination authority amount l l' hok
    rw [h] at hok
    exact splTransfer_moves hok
  transferChecked := by
    intro n seeds source mint destination authority amount decimals l l' hok
    rw [h] at hok
    simp only [spl, bind_eq_ok] at hok
    obtain ⟨_, _, _, _, _, _, hok⟩ := hok
    exact splTransfer_moves hok
  mintTo := by
    intro n seeds mint destination authority amount l l' hok
    rw [h] at hok
    exact splCredit_credits hok
  systemTransfer := by
    intro n seeds source destination lamports l l' hok
    rw [h] at hok
    simp only [spl, splSystemTransfer, bind_eq_ok, pure_eq_ok] at hok
    obtain ⟨_, _, rfl⟩ := hok
    rfl

/-! ## Holdings -/

/-- What a token account holds of `mint` for `owner`. -/
def holding (mint owner : Pubkey) : Option TokenAccount → ℕ
  | some a => if a.mint = mint ∧ a.owner = owner then a.amount.toNat else 0
  | none => 0

/-- What all token accounts together hold of `mint` for `owner`. -/
noncomputable def held (t : TokenAccounts) (mint owner : Pubkey) : ℕ :=
  Keyed.total (holding mint owner) t

variable {t t' : TokenAccounts} {mint owner source destination : Pubkey} {amount : UInt64}

theorem holding_credit {b : TokenAccount} (h : b.amount.toNat + amount.toNat < 2 ^ 64) :
    holding mint owner (some (b.credit amount)) = holding mint owner (some b) +
      if b.mint = mint ∧ b.owner = owner then amount.toNat else 0 := by
  simp only [holding, TokenAccount.credit_mint, TokenAccount.credit_owner,
    TokenAccount.credit_amount, toNat_add_of_lt h]
  split <;> rfl

theorem holding_debit {a : TokenAccount} (h : amount ≤ a.amount) :
    holding mint owner (some (a.debit amount)) +
      (if a.mint = mint ∧ a.owner = owner then amount.toNat else 0)
        = holding mint owner (some a) := by
  have hle := UInt64.le_iff_toNat_le.mp h
  simp only [holding, TokenAccount.debit_mint, TokenAccount.debit_owner,
    TokenAccount.debit_amount, toNat_sub_of_le hle]
  split
  · exact Nat.sub_add_cancel hle
  · rfl

/-- Crediting an account adds to what its owner holds of its mint, and to nothing else. -/
theorem held_of_credits (mint owner : Pubkey) {m : Pubkey} {b : TokenAccount}
    (hb : t destination = some b) (h : Credits t t' m destination amount) :
    held t' mint owner = held t mint owner +
      if b.mint = mint ∧ b.owner = owner then amount.toNat else 0 := by
  obtain ⟨b', hb', -, hfits, rfl⟩ := h
  obtain rfl : b' = b := Option.some.inj (hb'.symm.trans hb)
  have htot := Keyed.total_update (holding mint owner) t destination (some (b'.credit amount))
  rw [hb, holding_credit hfits] at htot
  unfold held
  omega

/-- A transfer between two accounts takes from what one owner holds and adds to what the other
does. -/
theorem held_of_moves (mint owner : Pubkey) {a b : TokenAccount} (hne : source ≠ destination)
    (ha : t source = some a) (hb : t destination = some b)
    (h : Moves t t' source destination amount) :
    held t' mint owner + (if a.mint = mint ∧ a.owner = owner then amount.toNat else 0) =
      held t mint owner + if b.mint = mint ∧ b.owner = owner then amount.toNat else 0 := by
  obtain ⟨a', ha', hle, hcredits⟩ := h
  obtain rfl : a' = a := Option.some.inj (ha'.symm.trans ha)
  have hb' : update t source (some (a'.debit amount)) destination = some b := by
    rw [update_of_ne hne.symm, hb]
  have hcredit := held_of_credits mint owner hb' hcredits
  have htot := Keyed.total_update (holding mint owner) t source (some (a'.debit amount))
  have hdebit : holding mint owner _ + _ = _ := holding_debit hle
  rw [ha] at htot
  unfold held at *
  omega

theorem ne_of_owner_ne {a b : TokenAccount} (ha : t source = some a) (hb : t destination = some b)
    (hne : a.owner ≠ b.owner) : source ≠ destination := by
  intro heq
  rw [heq, hb] at ha
  cases ha
  exact hne rfl

theorem held_of_received (mint : Pubkey) {a b : TokenAccount} (ha : t source = some a)
    (hb : t destination = some b) (hne : a.owner ≠ b.owner)
    (h : Moves t t' source destination amount) :
    held t' mint b.owner = held t mint b.owner + if b.mint = mint then amount.toNat else 0 := by
  have hmoved := held_of_moves mint b.owner (ne_of_owner_ne ha hb hne) ha hb h
  simpa [hne] using hmoved

/-- A transfer to another owner takes from what the first holds of the mint. -/
theorem held_of_sent (mint : Pubkey) {a b : TokenAccount} (ha : t source = some a)
    (hb : t destination = some b) (hne : a.owner ≠ b.owner)
    (h : Moves t t' source destination amount) :
    held t mint a.owner = held t' mint a.owner + if a.mint = mint then amount.toNat else 0 := by
  have hmoved := held_of_moves mint a.owner (ne_of_owner_ne ha hb hne) ha hb h
  simpa [hne.symm] using hmoved.symm

/-! ## What a token instruction keeps -/

theorem Credits.same_owner {m k : Pubkey} {a : TokenAccount} (h : Credits t t' m destination amount)
    (ha : t k = some a) : ∃ a', t' k = some a' ∧ a'.mint = a.mint ∧ a'.owner = a.owner := by
  obtain ⟨b, hb, -, -, rfl⟩ := h
  by_cases hk : k = destination
  · subst hk
    obtain rfl : b = a := Option.some.inj (hb.symm.trans ha)
    exact ⟨_, update_self _ _ _, rfl, rfl⟩
  · refine ⟨a, ?_, rfl, rfl⟩
    rw [update_of_ne hk, ha]

theorem Moves.same_owner {k : Pubkey} {a : TokenAccount} (h : Moves t t' source destination amount)
    (ha : t k = some a) : ∃ a', t' k = some a' ∧ a'.mint = a.mint ∧ a'.owner = a.owner := by
  obtain ⟨b, hb, -, hcredits⟩ := h
  by_cases hk : k = source
  · subst hk
    obtain rfl : b = a := Option.some.inj (hb.symm.trans ha)
    obtain ⟨a', ha', hmint, howner⟩ := hcredits.same_owner (update_self _ _ _)
    exact ⟨a', ha', hmint, howner⟩
  · have hk' : update t source (some (b.debit amount)) k = some a := by
      rw [update_of_ne hk, ha]
    exact hcredits.same_owner hk'

end Saturn
