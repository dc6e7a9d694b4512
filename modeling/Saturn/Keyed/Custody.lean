import Saturn.Keyed.Pool
import Saturn.Transition.Run
import Mathlib.Tactic.Ring
import Mathlib.Tactic.Linarith

/-!
# Custody of units at a fixed index

A pool whose index stays at `i` holds units for its holders: a deposit of `n` credits `n / i`
shares, a withdrawal of `b` shares pays `b * i`. What a deposit leaves over, the dust `n % i`, stays
in the reserve and with nobody.

A withdrawal of shares that are there is always covered (`Step.covered`, by way of `Pool.Solvent`),
and what a holder paid in less what it was paid out is the worth of its shares and the dust of its
deposits (`Run.conserved`).
-/

namespace Keyed

open Function Transition

/-- Shares, and the units they were bought with. -/
structure Custody (U : Type*) where
  shares : U → ℕ
  reserve : ℕ

/-- A deposit of `amount` that moved `paid` units in, or a withdrawal of `burned` shares that moved
`paid` units out. -/
inductive Move (U : Type*) where
  | deposit (u : U) (amount paid : ℕ)
  | withdraw (u : U) (burned paid : ℕ)

namespace Move

variable {U : Type*} [DecidableEq U] (u : U)

def paidIn : Move U → ℕ
  | deposit v _ paid => if v = u then paid else 0
  | withdraw _ _ _ => 0

def paidOut : Move U → ℕ
  | deposit _ _ _ => 0
  | withdraw v _ paid => if v = u then paid else 0

/-- What a deposit leaves over. -/
def dust (i : ℕ) : Move U → ℕ
  | deposit v amount _ => if v = u then amount % i else 0
  | withdraw _ _ _ => 0

end Move

namespace Custody

variable {U : Type*} [Fintype U] [DecidableEq U] {i : ℕ} {c c' : Custody U} {m : Move U}
  {ms : List (Move U)}

inductive Step (i : ℕ) (c : Custody U) : Move U → Custody U → Prop
  | deposit (u : U) (n : ℕ) :
      Step i c (.deposit u n n) ⟨update c.shares u (c.shares u + n / i), c.reserve + n⟩
  | withdraw (u : U) (b r : ℕ) : b ≤ c.shares u → r + b * i = c.reserve →
      Step i c (.withdraw u b (b * i)) ⟨update c.shares u (c.shares u - b), r⟩

/-- Custody at the index `i`, as a pool. -/
def pool (i : ℕ) (c : Custody U) : Pool U := ⟨c.shares, i, c.reserve⟩

/-- All holders could withdraw all of their shares. -/
def Covered (i : ℕ) (c : Custody U) : Prop := (c.pool i).Solvent

theorem Step.pool (h : Step i c m c') : Pool.Step (c.pool i) (c'.pool i) := by
  cases h with
  | deposit u n => exact .deposit u (n / i) n _ le_rfl (Nat.div_mul_le_self n i)
  | withdraw u b r hb hr => exact .withdraw u b _ r (Nat.sub_add_cancel hb) hr.ge

theorem Step.covered (h : Step i c m c') (hc : c.Covered i) : c'.Covered i := h.pool.solvent hc

omit [DecidableEq U] in
theorem Covered.worth_le (hc : c.Covered i) {u : U} {b : ℕ} (hb : b ≤ c.shares u) :
    b * i ≤ c.reserve := by
  have hshares : c.shares u ≤ total id c.shares := le_total id c.shares u
  exact (Nat.mul_le_mul_right i (hb.trans hshares)).trans hc

omit [Fintype U] in
/-- A step changes the worth of a holder's shares by what it paid in, less the dust, or what it was
paid. -/
theorem Step.worth (h : Step i c m c') (u : U) :
    ((c'.shares u * i : ℕ) : ℤ)
      = (c.shares u * i : ℕ) + (m.paidIn u - m.dust u i - m.paidOut u : ℤ) := by
  cases h with
  | deposit v n =>
      have hdiv := Nat.div_add_mod' n i
      simp only [Move.paidIn, Move.dust, Move.paidOut, update_apply, eq_comm (a := u)]
      split_ifs with hv
      · subst hv
        rw [Nat.add_mul]
        omega
      · simp
  | withdraw v b r hb hr =>
      simp only [Move.paidIn, Move.dust, Move.paidOut, update_apply, eq_comm (a := u)]
      split_ifs with hv
      · subst hv
        have hle := Nat.mul_le_mul_right i hb
        rw [Nat.sub_mul]
        omega
      · simp

omit [Fintype U] in
/-- What a holder paid in over a run, less what it was paid out, is what the worth of its shares
grew by, and the dust. -/
theorem Run.conserved (hrun : Run (Step i) c ms c') (u : U) :
    ((ms.map (Move.paidIn u)).sum : ℤ) - (ms.map (Move.paidOut u)).sum
      = (c'.shares u * i : ℕ) - (c.shares u * i : ℕ) + (ms.map (Move.dust u i)).sum := by
  induction hrun with
  | nil => simp
  | snoc _ hstep ih =>
      have hworth := hstep.worth u
      simp only [List.map_append, List.map_singleton, List.sum_append, List.sum_singleton]
      push_cast at ih hworth ⊢
      linarith

end Custody

end Keyed
