import Saturn.Program

/-!
# Who may operate the treasury

Fourteen instructions move the treasury's funds or revalue them, and their contexts name the signer
in three ways: the key in `treasury_admin`, the treasury's authority, or none in particular. The
authority is a PDA and signs no transaction itself, so the second way admits nobody, the admin
included, and the third everybody.
-/

namespace Saturn

open Machine

variable {F : Type} {d : Deployment} {env : Env} {t : Treasury F} {i : Instruction F}

/-! ## The signer constraints -/

/-- The constraints of the account context on who signs, given the treasury. -/
def Instruction.signerConstraints (d : Deployment) (env : Env) (t : Treasury F) :
    Instruction F → Except Failure Unit
  | initializeTreasury a => requireSigner env a.admin
  | applyBond a _ => requireSigner env a.creator
  | finishBond a => requireSigner env a.user
  | stakeSTF a _ => requireSigner env a.user
  | unstakeSTF a _ => requireSigner env a.user
  | swap a _ _ => requireAdmin env t a.signer
  | meteoraDeposit a _ _ _ | meteoraWithdraw a _ _ _ => do
      requireAuthority d env a.signer
      requireSigner env a.accounts.user
  | initLendingAccounts a => do
      requireSigner env a.owner
      requireSigner env a.marginfiAccount
  | klendLend a => requireAdmin env t a.signer
  | klendWithdraw a => requireAuthority d env a.signer
  | marginfiLend a => requireAuthority d env a.signer
  | marginfiWithdraw a => requireAuthority d env a.signer
  | getValueInMeteora a => requireAuthority d env a.signer
  | getValueInKamino a => requireAuthority d env a.signer
  | getValueInMarginfi a => requireAuthority d env a.signer
  | calcuBalance a => requireAuthority d env a.signer
  | reallocate a _ _ => requireAdmin env t a.signer
  | cashingoutReedem a _ => requireAuthority d env a.signer

theorem Instruction.signerConstraints_of_constraints {w : World F}
    (h : i.constraints d env w = .ok ()) : i.signerConstraints d env w.treasury = .ok () := by
  cases i with
  | initializeTreasury a => cases h
  | initLendingAccounts a => exact h
  | meteoraDeposit a n m k | meteoraWithdraw a n m k =>
      simp only [constraints, MeteoraLiquidity.constraints, bind_eq_ok, requireAuthority_eq_ok,
        requireSigner_eq_ok] at h
      obtain ⟨_, hauthority, _, -, _, huser, -⟩ := h
      simp only [signerConstraints, bind_eq_ok, requireAuthority_eq_ok, requireSigner_eq_ok]
      exact ⟨(), hauthority, huser⟩
  | stakeSTF a n | unstakeSTF a n =>
      exact requireSigner_eq_ok.mpr (stakingConstraints_eq_ok.mp h).1
  | cashingoutReedem a n =>
      simp only [constraints, CashingoutReedem.constraints, bind_eq_ok, requireSigner_eq_ok,
        require_eq_ok] at h
      obtain ⟨_, hsigner, _, hauthority, -⟩ := h
      exact requireAuthority_eq_ok.mpr ⟨hsigner, hauthority⟩
  | _ =>
      obtain ⟨_, hsigner, -⟩ := bind_eq_ok.mp h
      exact hsigner

/-! ## The operations and their gates -/

/-- The instructions that operate the treasury. -/
inductive Operation where
  | swap
  | initLendingAccounts
  | klendLend
  | klendWithdraw
  | marginfiLend
  | marginfiWithdraw
  | meteoraDeposit
  | meteoraWithdraw
  | getValueInKamino
  | getValueInMarginfi
  | getValueInMeteora
  | calcuBalance
  | reallocate
  | cashingoutReedem
  deriving DecidableEq

/-- The operation that an instruction is, if it is one. -/
def Instruction.operation : Instruction F → Option Operation
  | swap _ _ _ => some .swap
  | initLendingAccounts _ => some .initLendingAccounts
  | klendLend _ => some .klendLend
  | klendWithdraw _ => some .klendWithdraw
  | marginfiLend _ => some .marginfiLend
  | marginfiWithdraw _ => some .marginfiWithdraw
  | meteoraDeposit _ _ _ _ => some .meteoraDeposit
  | meteoraWithdraw _ _ _ _ => some .meteoraWithdraw
  | getValueInKamino _ => some .getValueInKamino
  | getValueInMarginfi _ => some .getValueInMarginfi
  | getValueInMeteora _ => some .getValueInMeteora
  | calcuBalance _ => some .calcuBalance
  | reallocate _ _ _ => some .reallocate
  | cashingoutReedem _ _ => some .cashingoutReedem
  | initializeTreasury _ | applyBond _ _ | finishBond _ | stakeSTF _ _ | unstakeSTF _ _ => none

/-- Whom a context lets sign. -/
inductive Gate where
  | admin
  | treasuryAuthority
  | anySigner

/-- The gate of each operation. -/
def Operation.gate : Operation → Gate
  | swap | klendLend | reallocate => .admin
  | initLendingAccounts => .anySigner
  | _ => .treasuryAuthority

/-- The keys that signed can meet the signer constraints of the operation. -/
def Operation.Admits (d : Deployment) (env : Env) (t : Treasury F) (o : Operation) : Prop :=
  ∃ i : Instruction F, i.operation = some o ∧ i.signerConstraints d env t = .ok ()

/-- The operation obeys the admin and nobody else: it can be called iff the admin signed. -/
def Operation.ObeysAdmin (d : Deployment) (env : Env) (t : Treasury F) (o : Operation) : Prop :=
  o.Admits d env t ↔ t.treasuryAdmin ∈ env.signers

/-- The signers for whom the gate of `o` gives the answer that obeying the admin asks for. -/
def Operation.TreatsRightly (o : Operation) (t : Treasury F) (signers : List Pubkey) : Prop :=
  match o.gate with
  | .admin => True
  | .treasuryAuthority => t.treasuryAdmin ∉ signers
  | .anySigner => t.treasuryAdmin ∈ signers ∨ signers = []

namespace Operation

variable {o : Operation}

theorem Admits.authority_mem (h : o.Admits d env t) (hgate : o.gate = .treasuryAuthority) :
    d.treasuryAuthority ∈ env.signers := by
  obtain ⟨i, hi, hsigner⟩ := h
  cases i with
  | meteoraDeposit a n m k | meteoraWithdraw a n m k =>
      simp only [Instruction.signerConstraints, bind_eq_ok, requireAuthority_eq_ok] at hsigner
      obtain ⟨_, ⟨hmem, heq⟩, -⟩ := hsigner
      exact heq ▸ hmem
  | klendWithdraw a | marginfiLend a | marginfiWithdraw a | getValueInMeteora a
  | getValueInKamino a | getValueInMarginfi a | calcuBalance a | cashingoutReedem a n =>
      obtain ⟨hmem, heq⟩ := requireAuthority_eq_ok.mp hsigner
      exact heq ▸ hmem
  | _ =>
      cases hi
      try cases hgate

theorem Admits.admin_mem (h : o.Admits d env t) (hgate : o.gate = .admin) :
    t.treasuryAdmin ∈ env.signers := by
  obtain ⟨i, hi, hsigner⟩ := h
  cases i with
  | swap a data n | klendLend a | reallocate a r k =>
      obtain ⟨hmem, heq⟩ := requireAdmin_eq_ok.mp hsigner
      exact heq ▸ hmem
  | _ =>
      cases hi
      try cases hgate

variable [F64 F]

theorem admits_admin (hgate : o.gate = .admin) (h : t.treasuryAdmin ∈ env.signers) :
    o.Admits d env t := by
  have hadmin : requireAdmin env t t.treasuryAdmin = .ok () := requireAdmin_eq_ok.mpr ⟨h, rfl⟩
  cases o with
  | swap => exact ⟨.swap ⟨t.treasuryAdmin, 0, 0, []⟩ [] 0, rfl, hadmin⟩
  | klendLend =>
      exact ⟨.klendLend ⟨t.treasuryAdmin, ⟨0, 0, 0⟩, 0, 0, ⟨0, 0, 0, 0, 0, 0⟩, 0, 0, 0, 0, 0⟩, rfl,
        hadmin⟩
  | reallocate =>
      exact ⟨.reallocate ⟨t.treasuryAdmin⟩ (.replicate 7 0) (.replicate 7 0), rfl, hadmin⟩
  | _ => cases hgate

omit [F64 F] in
theorem admits_initLendingAccounts_iff :
    initLendingAccounts.Admits d env t ↔ env.signers ≠ [] := by
  constructor
  · rintro ⟨i, hi, hsigner⟩
    cases i with
    | initLendingAccounts a =>
        obtain ⟨_, howner, -⟩ := bind_eq_ok.mp hsigner
        exact List.ne_nil_of_mem (requireSigner_eq_ok.mp howner)
    | _ => cases hi
  · intro hne
    obtain ⟨k, hk⟩ := List.exists_mem_of_ne_nil _ hne
    refine ⟨.initLendingAccounts ⟨k, 0, 0, 0, 0, 0, 0, k⟩, rfl, ?_⟩
    exact bind_eq_ok.mpr ⟨(), requireSigner_eq_ok.mpr hk, requireSigner_eq_ok.mpr hk⟩

/-- Where the authority did not sign, an operation obeys the admin and nobody else if and only if
its gate treats the signers rightly: always at the gate of the admin, at that of the authority where
the admin did not sign either, and at the last where the admin signed or nobody did. -/
theorem obeysAdmin_iff (d : Deployment) (env : Env) (t : Treasury F) (o : Operation)
    (hpda : d.treasuryAuthority ∉ env.signers) :
    o.ObeysAdmin d env t ↔ o.TreatsRightly t env.signers := by
  unfold ObeysAdmin TreatsRightly
  cases hgate : o.gate with
  | admin =>
      have hiff : o.Admits d env t ↔ t.treasuryAdmin ∈ env.signers :=
        ⟨fun h => h.admin_mem hgate, admits_admin hgate⟩
      simp [hiff]
  | treasuryAuthority =>
      have hnone : ¬ o.Admits d env t := fun h => hpda (h.authority_mem hgate)
      simp [hnone]
  | anySigner =>
      have ho : o = .initLendingAccounts := by cases o <;> first | rfl | cases hgate
      rw [ho, admits_initLendingAccounts_iff]
      by_cases hmem : t.treasuryAdmin ∈ env.signers
      · simp [hmem, List.ne_nil_of_mem hmem]
      · simp [hmem]

end Operation

/-! ### The admin `7` and a stranger `1` -/

/-- The treasury of the admin `7`. -/
def treasuryOfSeven : Treasury ℚ := { smallTreasury with treasuryAdmin := 7 }

/-- The admin can reallocate. -/
theorem obeysAdmin_iff_reallocate : Operation.reallocate.ObeysAdmin (smallDeployment .release)
    (splEnv 0 [7] fun _ => none) treasuryOfSeven :=
  (Operation.obeysAdmin_iff _ _ _ _ (by decide)).mpr trivial

/-- The admin cannot recount, and a stranger can open the lending accounts. -/
theorem admin_locked_out :
    ¬ Operation.calcuBalance.Admits (smallDeployment .release) (splEnv 0 [7] fun _ => none)
        treasuryOfSeven ∧
      Operation.initLendingAccounts.Admits (smallDeployment .release) (splEnv 0 [1] fun _ => none)
        treasuryOfSeven := by
  constructor
  · intro h
    exact absurd (h.authority_mem rfl) (by decide)
  · rw [Operation.admits_initLendingAccounts_iff]
    exact List.cons_ne_nil _ _

end Saturn
