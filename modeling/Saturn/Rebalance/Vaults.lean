import Saturn.Machine.Double
import Saturn.Rebalance.Refresh

/-!
# The two vaults of a pool

A Meteora position is worth its LP tokens at a price that adds up what the two vaults of the pool
have unlocked. `get_value_in_meteora` asks the first vault both times. It counts both vaults in
every pool only where they have unlocked the same, and then the value is exact where the product of
tokens and price is a double (`counts_both_iff`).
-/

namespace Saturn

open Machine

variable {F : Type} [F64 F]

namespace GetValueInMeteora

/-- The same accounts, with the states of the two vaults exchanged. -/
def exchanged (a : GetValueInMeteora) : GetValueInMeteora :=
  { a with
    aVault := ⟨a.aVault.key, a.bVault.data⟩
    bVault := ⟨a.bVault.key, a.aVault.data⟩ }

end GetValueInMeteora

def Vault.unlockedAmount (v : Vault) (now : Int64) : Option UInt64 :=
  if 0 ≤ now.toInt then v.getUnlockedAmount now.toUInt64 else none

namespace Pool

variable (p : Pool)

/-- `lp` tokens at the price of a sum of unlocked amounts. -/
def worthAt (lp : UInt64) (sum : ℕ) : UInt64 :=
  lp * UInt64.ofNat (sum * pricePrecision / p.totalLockedLp.toNat)

/-- What the code takes `lp` tokens for if the first vault has unlocked `amount`. -/
def quote (lp : UInt64) (amount : Option UInt64) : Option UInt64 :=
  amount.bind fun n =>
    if 2 * n.toNat * pricePrecision < 2 ^ 64 * p.totalLockedLp.toNat
    then some (p.worthAt lp (2 * n.toNat))
    else none

end Pool

namespace GetValueInMeteora

variable {a : GetValueInMeteora} {d : Deployment} {env : Env} {x : Exec F} {lp : TokenAccount}

theorem handle_toOption (hp : d.profile.overflowChecks = false)
    (hlp : x.world.ledger.tokenAccount a.userPoolLp = some lp) :
    (a.handle d env x).toOption
      = (a.pool.quote lp.amount (a.aVault.data.unlockedAmount env.clock.unixTimestamp)).map
        F64.ofU64 := by
  apply Option.ext
  intro v
  simp only [toOption_eq_some, Option.map_eq_some_iff, Pool.quote, Option.bind_eq_some_iff,
    Option.ite_none_right_eq_some, Option.some.injEq, Vault.unlockedAmount, handle_eq_ok]
  constructor
  · rintro ⟨hnow, n, hn, hprice, lp', amount, hlp', hamount, hv⟩
    obtain rfl : lp' = lp := Option.some.inj (hlp'.symm.trans hlp)
    exact ⟨amount, ⟨n, ⟨hnow, hn⟩, hprice, (Profile.mul_eq_ok.mp hamount).1.symm⟩, hv⟩
  · rintro ⟨amount, ⟨n, ⟨hnow, hn⟩, hprice, hamount⟩, hv⟩
    exact ⟨hnow, n, hn, hprice, lp, amount, hlp,
      Profile.mul_eq_ok.mpr
        ⟨hamount.symm, fun hchecks => absurd (hp.symm.trans hchecks) Bool.false_ne_true⟩, hv⟩

end GetValueInMeteora

/-- Exchanging the vaults changes nothing, and a value that is returned is exactly that of `lp`
tokens at the sum of what both have unlocked. -/
structure GetValueInMeteora.CountsBoth (a : GetValueInMeteora) (d : Deployment) (env : Env)
    (x : Exec Double) (lp : UInt64) : Prop where
  exchange : (a.exchanged.handle d env x).toOption = (a.handle d env x).toOption
  value : ∀ v, a.handle d env x = .ok v → ∃ m n,
    a.aVault.data.unlockedAmount env.clock.unixTimestamp = some m ∧
      a.bVault.data.unlockedAmount env.clock.unixTimestamp = some n ∧
        v.toRat? = some ((a.pool.worthAt lp (m.toNat + n.toNat)).toNat : ℚ)

/-- Two vaults are valued at that time, in whatever pool and with whatever balance of LP tokens. -/
structure GetValueInMeteora.Values (a : GetValueInMeteora) (va vb : Vault) (now : Int64)
    (d : Deployment) (env : Env) (x : Exec Double) (lp : TokenAccount) : Prop where
  release : d.profile.overflowChecks = false
  now : env.clock.unixTimestamp = now
  aVault : a.aVault.data = va
  bVault : a.bVault.data = vb
  constraints : a.constraints d env x.world = .ok ()
  userPoolLp : x.world.ledger.tokenAccount a.userPoolLp = some lp

section

variable {a : GetValueInMeteora} {d : Deployment} {env : Env} {x : Exec Double} {va vb : Vault}
  {now : Int64} {lp : TokenAccount} {m n : UInt64}

/-- The product of tokens and price is a double. -/
def Pool.Exact (p : Pool) (lp : UInt64) (sum : ℕ) : Prop := Representable (p.worthAt lp sum).toNat

theorem GetValueInMeteora.Values.handle (h : a.Values va vb now d env x lp) :
    (a.handle d env x).toOption
      = (a.pool.quote lp.amount (va.unlockedAmount now)).map F64.ofU64 := by
  obtain ⟨hrelease, rfl, rfl, rfl, -, hlp⟩ := h
  exact handle_toOption hrelease hlp

theorem GetValueInMeteora.Values.handle_exchanged (h : a.Values va vb now d env x lp) :
    (a.exchanged.handle d env x).toOption
      = (a.pool.quote lp.amount (vb.unlockedAmount now)).map F64.ofU64 := by
  obtain ⟨hrelease, rfl, rfl, rfl, -, hlp⟩ := h
  exact handle_toOption (a := a.exchanged) hrelease hlp

theorem GetValueInMeteora.Values.countsBoth_iff (h : a.Values va vb now d env x lp)
    (heq : va.unlockedAmount now = vb.unlockedAmount now) : a.CountsBoth d env x lp.amount ↔
      ∀ n, va.unlockedAmount now = some n →
        2 * n.toNat * pricePrecision < 2 ^ 64 * a.pool.totalLockedLp.toNat →
          a.pool.Exact lp.amount (2 * n.toNat) := by
  have hvaults : a.aVault.data.unlockedAmount env.clock.unixTimestamp = va.unlockedAmount now ∧
      a.bVault.data.unlockedAmount env.clock.unixTimestamp = vb.unlockedAmount now := by
    rw [h.aVault, h.bVault, h.now]
    exact ⟨rfl, rfl⟩
  have hhandle := h.handle
  constructor
  · intro hcounts n hn hprice
    rw [hn, Pool.quote, Option.bind_some, if_pos hprice, Option.map_some,
      toOption_eq_some] at hhandle
    obtain ⟨m', n', hm', hn', hvalue⟩ := hcounts.value _ hhandle
    rw [hvaults.1, hn] at hm'
    rw [hvaults.2, ← heq, hn] at hn'
    cases hm'
    cases hn'
    rw [Double.toRat?_ofU64, ← two_mul] at hvalue
    exact representable_iff.mpr (Option.some.inj hvalue)
  · intro hexact
    refine ⟨by rw [h.handle_exchanged, h.handle, heq], ?_⟩
    intro v hv
    rw [toOption_eq_some.mpr hv, eq_comm, Option.map_eq_some_iff] at hhandle
    obtain ⟨w, hw, rfl⟩ := hhandle
    simp only [Pool.quote, Option.bind_eq_some_iff, Option.ite_none_right_eq_some,
      Option.some.injEq] at hw
    obtain ⟨n, hn, hprice, rfl⟩ := hw
    refine ⟨n, n, hvaults.1.trans hn, hvaults.2.trans (heq ▸ hn), ?_⟩
    rw [Double.toRat?_ofU64, ← two_mul, (hexact n hn hprice).nearest_eq]

/-! ### Telling two vaults apart -/

/-- A valuation of two vaults in a pool with `locked` LP tokens, of which the treasury holds
`lp`. -/
def vaultsIn (va vb : Vault) (locked : UInt64) : GetValueInMeteora where
  signer := 9
  pool := ⟨50, 51, 52, locked⟩
  aVault := ⟨51, va⟩
  bVault := ⟨52, vb⟩
  userPoolLp := 18

def lpWorld (lp : UInt64) : World Double :=
  Initialize.world ⟨7⟩ (smallLedger.setTokenAccount 18 ⟨50, 9, lp⟩)

theorem vaultsIn_values (va vb : Vault) (now : Int64) (locked n : UInt64) :
    (vaultsIn va vb locked).Values va vb now (smallDeployment .release)
    (splEnv now [9] fun _ => none) (.start (lpWorld n)) ⟨50, 9, n⟩ where
  release := rfl
  now := rfl
  aVault := rfl
  bVault := rfl
  constraints := rfl
  userPoolLp := rfl

/-- The valuations of two vaults are the same for every pool and balance, as far as the cast is
exact. -/
def CountsAlways (va vb : Vault) (now : Int64) : Prop :=
  ∀ (a : GetValueInMeteora) (d : Deployment) (env : Env) (x : Exec Double) (lp : TokenAccount),
    a.Values va vb now d env x lp →
    (∀ m n, va.unlockedAmount now = some m → vb.unlockedAmount now = some n →
      a.pool.Exact lp.amount (m.toNat + n.toNat)) → a.CountsBoth d env x lp.amount

theorem CountsAlways.quote_eq (h : CountsAlways va vb now) (locked lp : UInt64)
    (hexact : ∀ m n, va.unlockedAmount now = some m → vb.unlockedAmount now = some n →
      (vaultsIn va vb locked).pool.Exact lp (m.toNat + n.toNat)) :
    ((vaultsIn va vb locked).pool.quote lp (va.unlockedAmount now)).map (F64.ofU64 (F := Double))
      = ((vaultsIn va vb locked).pool.quote lp (vb.unlockedAmount now)).map F64.ofU64 := by
  have hvalues := vaultsIn_values va vb now locked lp
  rw [← hvalues.handle, ← hvalues.handle_exchanged]
  exact (h _ _ _ _ _ hvalues hexact).exchange.symm

/-- A pool in which a token is worth a 4096th of what a vault has unlocked. -/
def coarse : UInt64 := 8192000000000000

/-- A pool in which a token is worth all that a vault has unlocked. -/
def fine : UInt64 := 2000000000000

theorem quote_coarse (n : UInt64) : (vaultsIn va vb coarse).pool.quote 1 (some n)
    = some (UInt64.ofNat (n.toNat / 4096)) := by
  have hlt := n.toNat_lt
  have hlocked : coarse.toNat = 8192000000000000 := by decide
  have hprice : 2 * n.toNat * pricePrecision / coarse.toNat = n.toNat / 4096 := by
    rw [hlocked, pricePrecision]
    omega
  rw [Pool.quote, Option.bind_some, if_pos, Pool.worthAt]
  · show some (1 * UInt64.ofNat (2 * n.toNat * pricePrecision / coarse.toNat)) = _
    rw [hprice, UInt64.one_mul]
  · show 2 * n.toNat * 1000000000000 < 2 ^ 64 * coarse.toNat
    rw [hlocked]
    omega

theorem quote_fine (n : UInt64) :
    (vaultsIn va vb fine).pool.quote 2048 (some n) = some (2048 * n) := by
  have hlt := n.toNat_lt
  have hlocked : fine.toNat = 2000000000000 := by decide
  have hprice : 2 * n.toNat * pricePrecision / fine.toNat = n.toNat := by
    rw [hlocked, pricePrecision]
    omega
  rw [Pool.quote, Option.bind_some, if_pos, Pool.worthAt]
  · show some (2048 * UInt64.ofNat (2 * n.toNat * pricePrecision / fine.toNat)) = _
    rw [hprice, UInt64.ofNat_toNat]
  · show 2 * n.toNat * 1000000000000 < 2 ^ 64 * fine.toNat
    rw [hlocked]
    omega

theorem toNat_coarse (n : UInt64) : (UInt64.ofNat (n.toNat / 4096)).toNat = n.toNat / 4096 := by
  have hlt := n.toNat_lt
  rw [UInt64.toNat_ofNat']
  omega

theorem toNat_2048_mul (n : UInt64) : (2048 * n).toNat = 2048 * n.toNat % 2 ^ 64 :=
  UInt64.toNat_mul _ _

theorem exact_coarse (m n : UInt64) : (vaultsIn va vb coarse).pool.Exact 1 (m.toNat + n.toNat) := by
  have hm := m.toNat_lt
  have hn := n.toNat_lt
  have hprice : (m.toNat + n.toNat) * pricePrecision / coarse.toNat < 2 ^ 53 := by
    rw [show coarse.toNat = 8192000000000000 by decide, pricePrecision]
    omega
  apply representable_natCast
  show (1 * UInt64.ofNat ((m.toNat + n.toNat) * pricePrecision / coarse.toNat)).toNat ≤ 2 ^ 53
  rw [UInt64.one_mul, UInt64.toNat_ofNat']
  exact (Nat.mod_le _ _).trans hprice.le

theorem representable_mul_2048 (n : UInt64) : Representable (2048 * n).toNat := by
  have hlt := (2048 * n).toNat_lt
  have hmul : (2048 * n).toNat = (2048 * n).toNat / 2048 * 2048 := by
    rw [toNat_2048_mul]
    omega
  refine ⟨(2048 * n).toNat / 2048, 11, by omega, by norm_num, ?_⟩
  rw [hmul, Nat.mul_div_cancel _ (by decide)]
  push_cast
  norm_num

/-- The two pools tell the leading and the trailing bits of two amounts apart. -/
theorem CountsAlways.eq (h : CountsAlways va vb now) :
    va.unlockedAmount now = vb.unlockedAmount now := by
  have hleading := h.quote_eq coarse 1 (fun m n _ _ => exact_coarse m n)
  have htrailing := h.quote_eq fine 2048 (fun m n _ _ => representable_mul_2048 _)
  cases hA : va.unlockedAmount now with
  | none =>
      cases hB : vb.unlockedAmount now with
      | none => rfl
      | some n =>
          rw [hA, hB, quote_coarse] at hleading
          cases hleading
  | some m =>
      cases hB : vb.unlockedAmount now with
      | none =>
          rw [hA, hB, quote_coarse] at hleading
          cases hleading
      | some n =>
          rw [hA, hB, quote_coarse, quote_coarse, Option.map_some, Option.map_some,
            Option.some.injEq, Double.ofU64_inj] at hleading
          rw [hA, hB, quote_fine, quote_fine, Option.map_some, Option.map_some, Option.some.injEq,
            Double.ofU64_inj, (representable_mul_2048 m).nearest_eq,
            (representable_mul_2048 n).nearest_eq, Nat.cast_inj, toNat_2048_mul,
            toNat_2048_mul] at htrailing
          have hm := m.toNat_lt
          have hn := n.toNat_lt
          rw [toNat_coarse, toNat_coarse, nearest_natCast (by omega), nearest_natCast (by omega),
            Nat.cast_inj] at hleading
          exact congrArg some (UInt64.toNat_inj.mp (by omega))

/-- For every two vaults and time: both vaults are counted in every pool, for every balance of LP
tokens where the value is a double, if and only if they have unlocked the same. Then both are
counted in a call that gives a price if and only if the value is a double. -/
theorem GetValueInMeteora.counts_both_iff :
    (CountsAlways va vb now ↔ va.unlockedAmount now = vb.unlockedAmount now) ∧
    (va.unlockedAmount now = vb.unlockedAmount now →
      ∀ (a : GetValueInMeteora) (d : Deployment) (env : Env) (x : Exec Double) (lp : TokenAccount),
        a.Values va vb now d env x lp → (a.CountsBoth d env x lp.amount ↔
          ∀ n, va.unlockedAmount now = some n →
            2 * n.toNat * pricePrecision < 2 ^ 64 * a.pool.totalLockedLp.toNat →
              a.pool.Exact lp.amount (2 * n.toNat))) := by
  refine ⟨⟨CountsAlways.eq, ?_⟩, fun heq a d env x lp h => h.countsBoth_iff heq⟩
  intro heq a d env x lp h hexact
  refine (h.countsBoth_iff heq).mpr fun n hn _ => ?_
  rw [two_mul]
  exact hexact n n hn (heq ▸ hn)

def settledVault (amount : UInt64) : Vault := ⟨amount, ⟨0, 0, 0⟩⟩

/-- Ten LP tokens of a pool whose first vault has unlocked one hundred and whose second one three
hundred. With the vaults exchanged they are valued at thirty instead of at ten. They are worth
twenty. -/
theorem first_vault_counted_twice :
    let a := vaultsIn (settledVault 100) (settledVault 300) 200000000000000
    let d := smallDeployment .release
    let env := splEnv 0 [9] fun _ => none
    a.Values (settledVault 100) (settledVault 300) 0 d env (.start (lpWorld 10)) ⟨50, 9, 10⟩ ∧
    a.handle d env (.start (lpWorld 10)) = .ok (F64.ofU64 10) ∧
    a.exchanged.handle d env (.start (lpWorld 10)) = .ok (F64.ofU64 30) ∧
    a.pool.worthAt 10 (100 + 300) = 20 ∧
    ¬ a.CountsBoth d env (.start (lpWorld 10)) 10 ∧
    ¬ CountsAlways (settledVault 100) (settledVault 300) 0 := by
  have hvalues := vaultsIn_values (settledVault 100) (settledVault 300) 0 200000000000000 10
  have hten : (vaultsIn (settledVault 100) (settledVault 300) 200000000000000).pool.quote 10
      ((settledVault 100).unlockedAmount 0) = some 10 := by decide +kernel
  have hthirty : (vaultsIn (settledVault 100) (settledVault 300) 200000000000000).pool.quote 10
      ((settledVault 300).unlockedAmount 0) = some 30 := by decide +kernel
  have hhandle := hvalues.handle
  have hexchanged := hvalues.handle_exchanged
  rw [hten, Option.map_some] at hhandle
  rw [hthirty, Option.map_some] at hexchanged
  refine ⟨hvalues, toOption_eq_some.mp hhandle, toOption_eq_some.mp hexchanged, by decide +kernel,
    ?_, ?_⟩
  · intro hcounts
    have hsame := hexchanged.symm.trans (hcounts.exchange.trans hhandle)
    rw [Option.some.injEq, Double.ofU64_inj, nearest_natCast (by decide),
      nearest_natCast (by decide), Nat.cast_inj] at hsame
    exact absurd hsame (by decide)
  · intro halways
    exact absurd halways.eq (by decide +kernel)

end

end Saturn
