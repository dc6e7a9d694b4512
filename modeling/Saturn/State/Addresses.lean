import Saturn.State.Token
import Saturn.Codec.Bytes

/-!
# Derived addresses

A program-derived address has seeds that follow one another in one way only, no key signs for it,
and the program signs for it by handing the seeds to a CPI. `SolanaRules` says that of an
environment, and that an account is created only with the signature of its address. It leaves open
everything else that a CPI may do.

`solana` extends the token program of `Saturn.State.Token` by accounts that are created and
initialized. It obeys the rule about signatures (`solana_createAccount`).
-/

namespace Saturn

open Machine Codec Function

def Pubkey.toBytes (k : Pubkey) : List UInt8 := (toLE 32 k.val).reverse

@[simp] theorem Pubkey.length_toBytes (k : Pubkey) : k.toBytes.length = 32 := by
  rw [toBytes, List.length_reverse, length_toLE]

/-- `TREASURY_AUTHORITY_SEED`, `treasury-authority` -/
def treasuryAuthoritySeed : List UInt8 :=
  [116, 114, 101, 97, 115, 117, 114, 121, 45, 97, 117, 116, 104, 111, 114, 105, 116, 121]

/-- `WSOL_SEED`, `wsol` -/
def wsolSeed : List UInt8 := [119, 115, 111, 108]

/-- How the addresses of the program are derived. -/
structure Derivation where
  /-- `create_program_address`. There is none for a point on the curve. -/
  createProgramAddress : List (List UInt8) → Option Pubkey
  /-- The bump of the treasury authority. -/
  authorityBump : UInt8

/-- The address for which a list of seeds signs. -/
def Derivation.signer (v : Derivation) : SignerSeed → Option Pubkey
  | .treasuryAuthority => v.createProgramAddress [treasuryAuthoritySeed, [v.authorityBump]]
  | .wsol bump => v.createProgramAddress [wsolSeed, [bump]]

/-- What the deployment and the environment owe to Solana. -/
structure SolanaRules (v : Derivation) (d : Deployment) (env : Env) : Prop where
  /-- The seeds are hashed one after the other, without a mark between them. -/
  injective : ∀ seeds seeds' k, v.createProgramAddress seeds = some k →
    v.createProgramAddress seeds' = some k → seeds.flatten = seeds'.flatten
  not_signer : ∀ seeds k, v.createProgramAddress seeds = some k → k ∉ env.signers
  /-- The account constraint `seeds = [mint], bump`. -/
  wsolAccount : v.createProgramAddress [wsolMint.toBytes, [(d.treasuryTokenPda wsolMint).2]]
    = some (d.treasuryTokenPda wsolMint).1
  createAccount : ∀ n source newAccount lamports space owner seeds l l',
    env.cpi n ⟨.createAccount source newAccount lamports space owner, seeds⟩ l = .ok l' →
      newAccount ∈ env.signers ∨ ∃ s ∈ seeds, v.signer s = some newAccount

/-- No seeds of the program sign for its wSOL account: it has a mint for a seed, and with a mint
they would be longer. -/
theorem SolanaRules.signer_ne_wsolAccount {v : Derivation} {d : Deployment} {env : Env}
    (h : SolanaRules v d env) (s : SignerSeed) :
    v.signer s ≠ some (d.treasuryTokenPda wsolMint).1 := by
  have hlen (bump : UInt8) : ([wsolMint.toBytes, [bump]] : List (List UInt8)).flatten.length
      = 33 := by
    simp
  intro hs
  cases s with
  | treasuryAuthority =>
      have hseeds := congrArg List.length (h.injective _ _ _ hs h.wsolAccount)
      rw [hlen] at hseeds
      exact absurd hseeds (by simp [treasuryAuthoritySeed])
  | wsol bump =>
      have hseeds := congrArg List.length (h.injective _ _ _ hs h.wsolAccount)
      rw [hlen] at hseeds
      exact absurd hseeds (by simp [wsolSeed])

theorem SolanaRules.createAccount_ne_ok {v : Derivation} {d : Deployment} {env : Env}
    (h : SolanaRules v d env) {n : ℕ} {source owner : Pubkey} {lamports space : UInt64}
    {seeds : List SignerSeed} {l l' : Ledger} :
    env.cpi n ⟨.createAccount source (d.treasuryTokenPda wsolMint).1 lamports space owner, seeds⟩ l
      ≠ .ok l' := by
  intro hok
  rcases h.createAccount _ _ _ _ _ _ _ _ _ hok with hsigner | ⟨s, -, hs⟩
  · exact h.not_signer _ _ h.wsolAccount hsigner
  · exact h.signer_ne_wsolAccount s hs

/-! ## Accounts to run -/

/-- `k` signed the transaction or the CPI. -/
def Derivation.signed (v : Derivation) (signers : List Pubkey) (seeds : List SignerSeed)
    (k : Pubkey) : Bool :=
  decide (k ∈ signers) || seeds.any fun s => v.signer s == some k

def systemCreateAccount (source newAccount : Pubkey) (lamports : UInt64) (l : Ledger) :
    Except CpiError Ledger := do
  require (l.data newAccount = .empty ∧ l.lamports newAccount = 0) splError
  let funded ← splSystemTransfer source newAccount lamports l
  return { funded with data := update funded.data newAccount .other }

/-- Make an allocated account a token account. One of wSOL holds its lamports above the rent. -/
def splInitializeAccount3 (rent : UInt64) (account mint authority : Pubkey) (l : Ledger) :
    Except CpiError Ledger := do
  require (l.data account = .other ∧ rent ≤ l.lamports account) splError
  return l.setTokenAccount account
    ⟨mint, authority, if mint = wsolMint then l.lamports account - rent else 0⟩

/-- `Rent::minimum_balance` -/
def rentMinimumBalance (space : UInt64) : UInt64 := (space + 128) * 6960

/-- The token program and the accounts of the system program. -/
def solana (v : Derivation) (signers : List Pubkey) (n : ℕ) (c : Cpi) (l : Ledger) :
    Except CpiError Ledger :=
  match c.instruction with
  | .createAccount source newAccount lamports _ _ => do
      require (v.signed signers c.signerSeeds source ∧ v.signed signers c.signerSeeds newAccount)
        splError
      systemCreateAccount source newAccount lamports l
  | .initializeAccount3 account mint authority =>
      splInitializeAccount3 (rentMinimumBalance 165) account mint authority l
  | _ => spl n c l

/-- An environment around `solana`. -/
def solanaEnv (v : Derivation) (signers : List Pubkey) : Env where
  clock := ⟨0, 0⟩
  signers := signers
  getPriceNoOlderThan _ _ _ := none
  rentMinimumBalance := rentMinimumBalance
  cpi := solana v signers

theorem solana_createAccount {v : Derivation} {signers : List Pubkey} (n : ℕ)
    {source newAccount owner : Pubkey} {lamports space : UInt64} {seeds : List SignerSeed}
    {l l' : Ledger}
    (h : solana v signers n ⟨.createAccount source newAccount lamports space owner, seeds⟩ l
      = .ok l') :
    newAccount ∈ signers ∨ ∃ s ∈ seeds, v.signer s = some newAccount := by
  simp only [solana, bind_eq_ok, require_eq_ok] at h
  obtain ⟨_, ⟨-, hsigned⟩, -⟩ := h
  simpa [Derivation.signed] using hsigned

end Saturn
