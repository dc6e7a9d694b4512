import Saturn.Program
import Saturn.State.Addresses

/-!
# A swap from wrapped SOL

`swap` opens the treasury's wSOL account before it calls Jupiter. Where there is none it would be
created and funded, but with seeds that do not sign for its address; where there is one it is taken
as it is, whatever it holds. So Jupiter is called with enough wSOL only if enough was there before
(`funded_swap_iff`).
-/

namespace Saturn

open Machine

variable {F : Type} {v : Derivation} {d : Deployment} {env : Env} {x y : Exec F}

/-- The treasury's wSOL account is there, and holds at least `amount`. -/
def FundedWsol (d : Deployment) (amount : UInt64) (l : Ledger) : Prop :=
  ∃ account, l.tokenAccount (d.treasuryTokenPda wsolMint).1 = some account ∧
    account.mint = wsolMint ∧ account.owner = d.treasuryAuthority ∧ amount ≤ account.amount

namespace Swap

variable (a : Swap)

/-- What `swap` does before it calls Jupiter. -/
def beforeJupiter (d : Deployment) (env : Env) (fromAmount : UInt64) (x : Exec F) :
    Except Failure (Exec F) := do
  let x ← openSide d env a.fromMint fromAmount x
  openSide d env a.toMint 0 x

/-- The call, and what `swap` does after it. -/
def fromJupiter (d : Deployment) (env : Env) (data : List UInt8) (x : Exec F) :
    Except Failure (Exec F) := do
  let x ← swapOnJupiter d env a.remainingAccounts data x
  let x ← closeSide d env a.fromMint x
  closeSide d env a.toMint x

/-- `swap` calls Jupiter, and does so with a wSOL account of at least `fromAmount`. -/
def ReachesJupiterFunded (d : Deployment) (env : Env) (data : List UInt8) (fromAmount : UInt64)
    (x : Exec F) : Prop :=
  ∃ y, a.beforeJupiter d env fromAmount x = .ok y ∧
    a.handle d env data fromAmount x = a.fromJupiter d env data y ∧
    FundedWsol d fromAmount y.world.ledger

theorem handle_eq_bind (data : List UInt8) (fromAmount : UInt64) :
    a.handle d env data fromAmount x =
      a.beforeJupiter d env fromAmount x >>= a.fromJupiter d env data := by
  rw [handle, beforeJupiter, bind_assoc]
  rfl

variable {a} {amount : UInt64}

/-- The account that a side of the swap finds. -/
def FindsWsol (d : Deployment) (l : Ledger) : Prop :=
  ∃ account, l.tokenAccount (d.treasuryTokenPda wsolMint).1 = some account ∧
    account.owner = d.treasuryAuthority

/-- An account is opened only where one of the treasury is there already, and nothing is done to
it. -/
theorem openSide_wsol_iff (hrules : SolanaRules v d env) :
    openSide d env wsolMint amount x = .ok y ↔ FindsWsol d x.world.ledger ∧ y = x := by
  rw [openSide, if_pos rfl]
  simp only [createWsolTokenIdempotent, bind_eq_ok, pure_eq_ok]
  constructor
  · rintro ⟨⟨account, z⟩, h, rfl⟩
    split at h
    · -- the account would have to be created
      simp only [bind_eq_ok] at h
      obtain ⟨lamports, -, x₁, hcreate, -⟩ := h
      obtain ⟨l, hl, -⟩ := Exec.invoke_eq_ok.mp hcreate
      exact absurd hl hrules.createAccount_ne_ok
    · simp only [bind_eq_ok, pure_eq_ok, require_eq_ok, tryDeserializeTokenAccount, okOr_eq_ok] at h
      obtain ⟨_, haccount, -, howner, h⟩ := h
      cases h
      exact ⟨⟨account, haccount, howner⟩, rfl⟩
  · rintro ⟨⟨account, haccount, howner⟩, rfl⟩
    have hdata : y.world.ledger.data (d.treasuryTokenPda wsolMint).1 ≠ .empty := by
      intro hempty
      simp [Ledger.tokenAccount, hempty] at haccount
    refine ⟨(account, y), ?_, rfl⟩
    rw [if_neg hdata]
    simp only [bind_eq_ok, pure_eq_ok, require_eq_ok, tryDeserializeTokenAccount, okOr_eq_ok]
    exact ⟨account, haccount, (), howner, rfl⟩

theorem openSide_of_finds (hrules : SolanaRules v d env) {mint : Pubkey}
    (hfinds : FindsWsol d x.world.ledger) : openSide d env mint amount x = .ok y ↔ y = x := by
  by_cases hmint : mint = wsolMint
  · rw [hmint, openSide_wsol_iff hrules]
    exact and_iff_right hfinds
  · rw [openSide, if_neg hmint, pure_eq_ok]
    exact eq_comm

theorem beforeJupiter_iff (hrules : SolanaRules v d env) (hfrom : a.fromMint = wsolMint) :
    a.beforeJupiter d env amount x = .ok y ↔ FindsWsol d x.world.ledger ∧ y = x := by
  simp only [beforeJupiter, hfrom, bind_eq_ok, openSide_wsol_iff hrules]
  constructor
  · rintro ⟨_, ⟨hfinds, rfl⟩, hto⟩
    exact ⟨hfinds, (openSide_of_finds hrules hfinds).mp hto⟩
  · rintro ⟨hfinds, rfl⟩
    exact ⟨y, ⟨hfinds, rfl⟩, (openSide_of_finds hrules hfinds).mpr rfl⟩

/-- For every swap from wSOL, any amount and any state: Jupiter is called with an account that holds
the amount if and only if one that does was there before. -/
theorem funded_swap_iff (hrules : SolanaRules v d env) (hfrom : a.fromMint = wsolMint)
    (data : List UInt8) (fromAmount : UInt64) :
    a.ReachesJupiterFunded d env data fromAmount x ↔ FundedWsol d fromAmount x.world.ledger := by
  constructor
  · rintro ⟨y, hbefore, -, hfunded⟩
    obtain ⟨-, rfl⟩ := (beforeJupiter_iff hrules hfrom).mp hbefore
    exact hfunded
  · intro hfunded
    obtain ⟨account, haccount, -, howner, -⟩ := id hfunded
    have hbefore : a.beforeJupiter d env fromAmount x = .ok x :=
      (beforeJupiter_iff hrules hfrom).mpr ⟨⟨account, haccount, howner⟩, rfl⟩
    refine ⟨x, hbefore, ?_, hfunded⟩
    rw [handle_eq_bind, hbefore]
    rfl

end Swap

/-! ### The addresses of the program -/

/-- `3oFam89h58GBTH75eetaXt8khZ29VrubZ945zhKaUqvX`, from `[TREASURY_AUTHORITY_SEED]` and the bump
`254`. -/
def derivedAuthority : Pubkey := 0x2990943ec29ff26c3b4e603c2468f4ed11b03571a37b3bf2e7a5cef6e143dbe8

/-- `7TRdGxC7V6hdd2aw8a4LtTTmj6Vq5Ptd2cMnZhs5DMhH`, from the mint of wSOL and the bump `255`. -/
def derivedWsolAccount : Pubkey :=
  0x5feb1110839ba6ebba2bfb744401450065dd77cc3f44bebca09ff399efba4a50

/-- The seeds of the two accounts. Those that `swap` signs with, `[WSOL_SEED, 255]`, give a point on
the curve, so there is no address for them. -/
def saturnDerivation : Derivation where
  createProgramAddress seeds :=
    if seeds = [treasuryAuthoritySeed, [254]] then some derivedAuthority
    else if seeds = [wsolMint.toBytes, [255]] then some derivedWsolAccount
    else none
  authorityBump := 254

def saturnDeployment : Deployment where
  profile := .release
  treasuryAuthority := derivedAuthority
  treasuryTokenPda mint := if mint = wsolMint then (derivedWsolAccount, 255) else (mint, 255)

theorem saturn_address_cases {seeds : List (List UInt8)} {k : Pubkey}
    (h : saturnDerivation.createProgramAddress seeds = some k) :
    (seeds = [treasuryAuthoritySeed, [254]] ∧ k = derivedAuthority) ∨
    (seeds = [wsolMint.toBytes, [255]] ∧ k = derivedWsolAccount) := by
  simp only [saturnDerivation] at h
  split at h
  · next hseeds => exact .inl ⟨hseeds, (Option.some.inj h).symm⟩
  · rw [Option.ite_none_right_eq_some] at h
    exact .inr ⟨h.1, (Option.some.inj h.2).symm⟩

theorem saturn_rules :
    SolanaRules saturnDerivation saturnDeployment (solanaEnv saturnDerivation [0]) where
  injective := by
    intro seeds seeds' k h h'
    have hne : derivedAuthority ≠ derivedWsolAccount := by decide
    rcases saturn_address_cases h with ⟨rfl, hk⟩ | ⟨rfl, hk⟩
    · rcases saturn_address_cases h' with ⟨rfl, -⟩ | ⟨-, hk'⟩
      · rfl
      · exact absurd (hk.symm.trans hk') hne
    · rcases saturn_address_cases h' with ⟨-, hk'⟩ | ⟨rfl, -⟩
      · exact absurd (hk'.symm.trans hk) hne
      · rfl
  not_signer := by
    intro seeds k h
    rcases saturn_address_cases h with ⟨-, rfl⟩ | ⟨-, rfl⟩
    · decide
    · decide
  wsolAccount := by decide +kernel
  createAccount := fun n _ _ _ _ _ _ _ _ h => solana_createAccount n h

/-- A world whose treasury authority has one SOL, with `account` at the address of its wSOL
account. -/
def wsolWorld (account : AccountData) : World ℚ :=
  { smallWorld with
    ledger := {
      data := fun k =>
        if k = derivedWsolAccount then account
        else if k = wsolMint ∨ k = usdcMint then .mint ⟨6, 0⟩
        else .empty
      lamports := fun k => if k = derivedAuthority then 1000000000 else 0 } }

def wsolSwap : Swap := ⟨0, wsolMint, usdcMint, []⟩

/-- One hundred, from an account that holds as much. -/
theorem funded_swap_iff_hundred : wsolSwap.ReachesJupiterFunded saturnDeployment
    (solanaEnv saturnDerivation [0]) [] 100
    (.start (wsolWorld (.tokenAccount ⟨wsolMint, derivedAuthority, 100⟩))) :=
  (Swap.funded_swap_iff saturn_rules rfl [] 100).mpr
    ⟨⟨wsolMint, derivedAuthority, 100⟩, by decide +kernel, rfl, rfl, by decide⟩

/-- One SOL pays for an account with one hundred in it. Where there is none, none is created, and
one that holds ninety-nine is taken as it is. -/
theorem wsol_not_funded :
    SolanaRules saturnDerivation saturnDeployment (solanaEnv saturnDerivation [0]) ∧
    wsolSwap.constraints (solanaEnv saturnDerivation [0]) (wsolWorld .empty) = .ok () ∧
    (rentMinimumBalance tokenAccountLen).toNat + 100
      ≤ ((wsolWorld .empty).ledger.lamports saturnDeployment.treasuryAuthority).toNat ∧
    ¬ wsolSwap.ReachesJupiterFunded saturnDeployment (solanaEnv saturnDerivation [0]) [] 100
      (.start (wsolWorld .empty)) ∧
    (∃ y, wsolSwap.beforeJupiter saturnDeployment (solanaEnv saturnDerivation [0]) 100
      (.start (wsolWorld (.tokenAccount ⟨wsolMint, derivedAuthority, 99⟩))) = .ok y ∧
      y.world.ledger.tokenAccount derivedWsolAccount = some ⟨wsolMint, derivedAuthority, 99⟩) ∧
    ¬ wsolSwap.ReachesJupiterFunded saturnDeployment (solanaEnv saturnDerivation [0]) [] 100
      (.start (wsolWorld (.tokenAccount ⟨wsolMint, derivedAuthority, 99⟩))) := by
  have hnone : (wsolWorld .empty).ledger.tokenAccount derivedWsolAccount = none := by decide +kernel
  have hfound : (wsolWorld (.tokenAccount ⟨wsolMint, derivedAuthority, 99⟩)).ledger.tokenAccount
      derivedWsolAccount = some ⟨wsolMint, derivedAuthority, 99⟩ := by decide +kernel
  have hpda : (saturnDeployment.treasuryTokenPda wsolMint).1 = derivedWsolAccount := rfl
  refine ⟨saturn_rules, toOption_eq_some.mp (by decide +kernel), by decide +kernel, ?_, ?_, ?_⟩
  · rintro ⟨y, hbefore, -⟩
    obtain ⟨⟨account, haccount, -⟩, -⟩ := (Swap.beforeJupiter_iff saturn_rules rfl).mp hbefore
    cases hnone.symm.trans haccount
  · exact ⟨_, (Swap.beforeJupiter_iff saturn_rules rfl).mpr ⟨⟨_, hfound, rfl⟩, rfl⟩, hfound⟩
  · rintro ⟨y, hbefore, -, account, haccount, -, -, hle⟩
    obtain ⟨-, rfl⟩ := (Swap.beforeJupiter_iff saturn_rules rfl).mp hbefore
    rw [hpda, Exec.start_world, hfound] at haccount
    cases haccount
    exact absurd hle (by decide)

end Saturn
