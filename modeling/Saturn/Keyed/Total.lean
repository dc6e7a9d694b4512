import Mathlib.Algebra.BigOperators.Group.Finset.Basic
import Mathlib.Algebra.Order.BigOperators.Group.Finset
import Mathlib.Data.Fintype.Basic

/-!
# Totals over a keyed store

A store is a function from keys, and a total adds up what `w` reads off each entry. Writing one
entry changes the total by the difference between what is written and what was there, stated without
subtraction.
-/

namespace Keyed

open Function

variable {K V : Type*} [Fintype K] [DecidableEq K]

/-- The sum over all keys of what `w` reads off the entry. -/
def total (w : V → ℕ) (f : K → V) : ℕ := ∑ k, w (f k)

theorem total_update (w : V → ℕ) (f : K → V) (k : K) (v : V) :
    total w (update f k v) + w (f k) = total w f + w v := by
  unfold total
  rw [← Finset.add_sum_erase _ _ (Finset.mem_univ k),
    ← Finset.add_sum_erase (Finset.univ) (fun j => w (f j)) (Finset.mem_univ k)]
  have hrest : ∑ j ∈ Finset.univ.erase k, w (update f k v j)
      = ∑ j ∈ Finset.univ.erase k, w (f j) :=
    Finset.sum_congr rfl fun j hj => by rw [update_of_ne (Finset.ne_of_mem_erase hj)]
  rw [hrest, update_self]
  omega

omit [DecidableEq K] in
theorem le_total (w : V → ℕ) (f : K → V) (k : K) : w (f k) ≤ total w f :=
  Finset.single_le_sum (f := fun j => w (f j)) (fun _ _ => Nat.zero_le _) (Finset.mem_univ k)

theorem add_le_total {w : V → ℕ} {f : K → V} {j k : K} (h : j ≠ k) :
    w (f j) + w (f k) ≤ total w f := by
  unfold total
  rw [← Finset.sum_pair (f := fun i => w (f i)) h]
  exact Finset.sum_le_univ_sum_of_nonneg fun _ => Nat.zero_le _

omit [DecidableEq K] in
theorem total_eq_zero {w : V → ℕ} {f : K → V} (h : ∀ k, w (f k) = 0) : total w f = 0 :=
  Finset.sum_eq_zero fun k _ => h k

omit [DecidableEq K] in
theorem total_eq_single {w : V → ℕ} {f : K → V} (k : K) (h : ∀ j, j ≠ k → w (f j) = 0) :
    total w f = w (f k) :=
  Finset.sum_eq_single k (fun j _ hj => h j hj) fun hk => absurd (Finset.mem_univ k) hk

end Keyed
