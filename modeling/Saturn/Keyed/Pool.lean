import Saturn.Keyed.Total

/-!
# A pool of rebasing shares

Holders own shares of a reserve; every share is worth `index` units of it. Deposits and withdrawals
convert between units and shares with truncation, and a rebase raises the index after adding to the
reserve. The pool is *solvent* when the reserve covers what all holders could claim together.

The steps are stated as the inequalities that solvency needs, not as the arithmetic that
establishes them: a deposit may credit less than was paid, a withdrawal may pay less than was
burned.
-/

namespace Keyed

open Function

/-- Shares, the worth of one share, and the units backing them. -/
structure Pool (U : Type*) where
  shares : U → ℕ
  index : ℕ
  reserve : ℕ

namespace Pool

variable {U : Type*} [Fintype U] [DecidableEq U]

def totalShares (p : Pool U) : ℕ := total id p.shares

/-- What all holders together could claim. -/
def claims (p : Pool U) : ℕ := p.totalShares * p.index

def Solvent (p : Pool U) : Prop := p.claims ≤ p.reserve

inductive Step (p : Pool U) : Pool U → Prop
  /-- Holder `u` pays `paid` units in and is credited at most `credited` shares. -/
  | deposit (u : U) (credited paid s : ℕ) :
      s ≤ p.shares u + credited → credited * p.index ≤ paid →
      Step p { p with shares := update p.shares u s, reserve := p.reserve + paid }
  /-- Holder `u` gives `burned` shares up and is paid at most their worth. -/
  | withdraw (u : U) (burned s r : ℕ) :
      s + burned = p.shares u → p.reserve ≤ r + burned * p.index →
      Step p { p with shares := update p.shares u s, reserve := r }
  /-- `minted` units join the reserve and the index rises by at most their share each. -/
  | rebase (i minted : ℕ) :
      p.totalShares * i ≤ p.totalShares * p.index + minted →
      Step p { p with index := i, reserve := p.reserve + minted }

theorem totalShares_update (p : Pool U) (u : U) (s : ℕ) :
    total id (update p.shares u s) + p.shares u = p.totalShares + s :=
  total_update id p.shares u s

theorem Step.solvent {p q : Pool U} (h : Step p q) (hp : p.Solvent) : q.Solvent := by
  unfold Solvent claims at *
  cases h with
  | deposit u credited paid s hs hpaid =>
      have htot := totalShares_update p u s
      have hle : total id (update p.shares u s) ≤ p.totalShares + credited := by omega
      calc total id (update p.shares u s) * p.index
          ≤ (p.totalShares + credited) * p.index := Nat.mul_le_mul_right _ hle
        _ = p.totalShares * p.index + credited * p.index := Nat.add_mul _ _ _
        _ ≤ p.reserve + paid := Nat.add_le_add hp hpaid
  | withdraw u burned s r hs hr =>
      have htot := totalShares_update p u s
      have hsum : total id (update p.shares u s) + burned = p.totalShares := by omega
      have hmul := congrArg (· * p.index) hsum
      simp only [Nat.add_mul] at hmul
      show total id (update p.shares u s) * p.index ≤ r
      omega
  | rebase i minted hi => exact hi.trans (Nat.add_le_add_right hp _)

end Pool

end Keyed
