import Saturn.Instructions.Balance

/-!
# `swap`

A swap hands the caller's bytes to Jupiter with the treasury's signature added. Where one side is
wrapped SOL, the treasury's wSOL account is opened before and closed after (`jupiter_utils.rs`).
-/

namespace Saturn

open Machine

variable {F : Type} [F64 F]

/-- `Swap`. The two token accounts are the PDAs of their mints. -/
structure Swap where
  signer : Pubkey
  fromMint : Pubkey
  toMint : Pubkey
  /-- The accounts passed on to Jupiter, with the signatures the transaction gave them. -/
  remainingAccounts : List AccountMeta

/-- `TokenAccount::try_deserialize`. -/
def tryDeserializeTokenAccount (l : Ledger) (k : Pubkey) : Except Failure TokenAccount :=
  okOr (l.tokenAccount k) (.anchor .accountDidNotDeserialize)

/-- `TokenAccount::LEN`. -/
def tokenAccountLen : UInt64 := 165

/-- `create_wsol_token_idempotent`: the new or existing account, after the CPIs that open it. -/
def createWsolTokenIdempotent (d : Deployment) (env : Env) (treasuryWsolAccount solMint : Pubkey)
    (wsolBump : UInt8) (fromAmount : UInt64) (x : Exec F) :
    Except Failure (TokenAccount × Exec F) := do
  if x.world.ledger.data treasuryWsolAccount = .empty then
    let space := tokenAccountLen
    let lamports ← d.profile.add (env.rentMinimumBalance space) fromAmount
    let x ← x.invoke env
      ⟨.createAccount d.treasuryAuthority treasuryWsolAccount lamports space tokenProgram,
        [.treasuryAuthority, .wsol wsolBump]⟩
    let x ← x.invoke env
      ⟨.initializeAccount3 treasuryWsolAccount solMint d.treasuryAuthority, []⟩
    return (← tryDeserializeTokenAccount x.world.ledger treasuryWsolAccount, x)
  else
    let wsolTokenAccount ← tryDeserializeTokenAccount x.world.ledger treasuryWsolAccount
    require (wsolTokenAccount.owner = d.treasuryAuthority) (.bond .incorrectOwner)
    return (wsolTokenAccount, x)

/-- `swap_on_jupiter`. -/
def swapOnJupiter (d : Deployment) (env : Env) (remainingAccounts : List AccountMeta)
    (data : List UInt8) (x : Exec F) : Except Failure (Exec F) :=
  let accounts := remainingAccounts.map fun acc =>
    { acc with isSigner := if acc.pubkey = d.treasuryAuthority then true else acc.isSigner }
  x.invoke env ⟨.jupiter accounts data, [.treasuryAuthority]⟩

/-- `close_treasury_wsol`. -/
def closeTreasuryWsol (d : Deployment) (env : Env) (treasuryWsolAccount : Pubkey) (x : Exec F) :
    Except Failure (Exec F) :=
  x.invoke env ⟨.closeAccount treasuryWsolAccount d.treasuryAuthority d.treasuryAuthority,
    [.treasuryAuthority]⟩

namespace Swap

variable (a : Swap)

omit [F64 F] in
def constraints (env : Env) (w : World F) : Except Failure Unit := do
  requireAdmin env w.treasury a.signer
  requireMint w.ledger a.fromMint
  requireMint w.ledger a.toMint

omit [F64 F] in
def openSide (d : Deployment) (env : Env) (mint : Pubkey) (amount : UInt64) (x : Exec F) :
    Except Failure (Exec F) :=
  if mint = wsolMint then do
    let (account, bump) := d.treasuryTokenPda mint
    return (← createWsolTokenIdempotent d env account mint bump amount x).2
  else return x

omit [F64 F] in
def closeSide (d : Deployment) (env : Env) (mint : Pubkey) (x : Exec F) :
    Except Failure (Exec F) :=
  if mint = wsolMint then closeTreasuryWsol d env (d.treasuryTokenPda mint).1 x
  else return x

omit [F64 F] in
def handle (d : Deployment) (env : Env) (data : List UInt8) (fromAmount : UInt64) (x : Exec F) :
    Except Failure (Exec F) := do
  let x ← openSide d env a.fromMint fromAmount x
  let x ← openSide d env a.toMint 0 x
  let x ← swapOnJupiter d env a.remainingAccounts data x
  let x ← closeSide d env a.fromMint x
  closeSide d env a.toMint x

variable {a} {d : Deployment} {env : Env} {x y : Exec F}

omit [F64 F] in
theorem openSide_invoked {mint : Pubkey} {amount : UInt64}
    (h : openSide d env mint amount x = .ok y) : x.Invoked y := by
  unfold openSide at h
  split at h
  · simp only [createWsolTokenIdempotent, bind_eq_ok, pure_eq_ok] at h
    obtain ⟨⟨account, z⟩, h, rfl⟩ := h
    split at h
    · simp only [bind_eq_ok, pure_eq_ok] at h
      obtain ⟨_, _, x₁, h₁, x₂, h₂, _, _, h⟩ := h
      cases h
      exact (Exec.Invoked.of_invoke h₁).trans (.of_invoke h₂)
    · simp only [bind_eq_ok, pure_eq_ok] at h
      obtain ⟨_, _, _, _, h⟩ := h
      cases h
      exact .refl x
  · rw [pure_eq_ok] at h
    exact h ▸ .refl x

omit [F64 F] in
theorem closeSide_invoked {mint : Pubkey} (h : closeSide d env mint x = .ok y) : x.Invoked y := by
  unfold closeSide at h
  split at h
  · exact .of_invoke h
  · rw [pure_eq_ok] at h
    exact h ▸ .refl x

omit [F64 F] in
theorem handle_invoked {data : List UInt8} {fromAmount : UInt64}
    (h : a.handle d env data fromAmount x = .ok y) : x.Invoked y := by
  simp only [handle, bind_eq_ok] at h
  obtain ⟨x₁, h₁, x₂, h₂, x₃, h₃, x₄, h₄, h₅⟩ := h
  have hopen := (openSide_invoked h₁).trans (openSide_invoked h₂)
  have hswap : x₂.Invoked x₃ := .of_invoke h₃
  exact hopen.trans (hswap.trans ((closeSide_invoked h₄).trans (closeSide_invoked h₅)))

end Swap

end Saturn
