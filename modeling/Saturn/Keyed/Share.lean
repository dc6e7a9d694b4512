import Mathlib.Algebra.BigOperators.Group.Finset.Piecewise
import Mathlib.Algebra.BigOperators.Ring.List
import Mathlib.Algebra.Order.BigOperators.Group.List
import Mathlib.Algebra.Order.Field.Basic

/-!
# Sharing a budget under each key

The items of a list have a key and a weight, and each key has a budget. The weights under a key are
added up in one pass (`tally`), and a second pass gives every item the part of its key's budget that
its weight has in that sum (`share`).

The shares under a key add up to its budget, or to nothing where the weights add up to zero
(`weightOf_share`). They do not depend on the order of the items, on the units of the weights under
each key, or on what there is under other keys (`share_perm`, `share_map`, `share_congr`).
-/

namespace Keyed

section Weight

variable {α κ K : Type*} [DecidableEq κ] [AddCommMonoid K] {key : α → κ} {weight : α → K}
  {l l' : List α} {k : κ}

/-- What the items under `k` weigh together. -/
def weightOf (key : α → κ) (weight : α → K) (l : List α) (k : κ) : K :=
  ((l.filter fun a => key a = k).map weight).sum

/-- The same for all keys, in one pass. -/
def tally (key : α → κ) (weight : α → K) (l : List α) : κ → K :=
  l.foldl (fun m a => Function.update m (key a) (m (key a) + weight a)) (fun _ => 0)

theorem weightOf_snoc (a : α) :
    weightOf key weight (l ++ [a]) k
      = weightOf key weight l k + if key a = k then weight a else 0 := by
  rw [weightOf, weightOf, List.filter_append, List.map_append, List.sum_append]
  split_ifs with h
  · simp [h]
  · simp [h]

theorem tally_eq : tally key weight l = weightOf key weight l := by
  induction l using List.reverseRecOn with
  | nil => rfl
  | append_singleton l a ih =>
      rw [tally, List.foldl_append, List.foldl_cons, List.foldl_nil, ← tally, ih]
      funext k
      rw [weightOf_snoc, Function.update_apply]
      simp only [eq_comm (a := k)]
      split_ifs with h
      · rw [h]
      · rw [add_zero]

theorem weightOf_perm (h : l.Perm l') : weightOf key weight l k = weightOf key weight l' k :=
  ((h.filter _).map weight).sum_eq

theorem weightOf_congr (h : l.filter (fun a => key a = k) = l'.filter fun a => key a = k) :
    weightOf key weight l k = weightOf key weight l' k := by
  rw [weightOf, weightOf, h]

theorem sum_weightOf (s : Finset κ) (h : ∀ a ∈ l, key a ∈ s) :
    ∑ k ∈ s, weightOf key weight l k = (l.map weight).sum := by
  induction l using List.reverseRecOn with
  | nil => simp [weightOf]
  | append_singleton l a ih =>
      have ha : key a ∈ s := h a (by simp)
      have hl : ∀ b ∈ l, key b ∈ s := fun b hb => h b (by simp [hb])
      simp only [weightOf_snoc, Finset.sum_add_distrib, ih hl, Finset.sum_ite_eq, ha, if_true,
        List.map_append, List.map_singleton, List.sum_append, List.sum_singleton]

end Weight

variable {α κ K : Type*} [DecidableEq κ] [Field K] {key : α → κ} {weight : α → K}
  {budget : κ → K} {l l' : List α} {k : κ} {a : α}

/-- The part of its key's budget that an item gets. -/
def share (key : α → κ) (weight : α → K) (budget : κ → K) (l : List α) (a : α) : K :=
  weight a / weightOf key weight l (key a) * budget (key a)

theorem weightOf_share [DecidableEq K] : weightOf key (share key weight budget l) l k
    = if weightOf key weight l k = 0 then 0 else budget k := by
  have hshare : weightOf key (share key weight budget l) l k
      = weightOf key weight l k * (weightOf key weight l k)⁻¹ * budget k := by
    have hmap : (l.filter fun a => key a = k).map (share key weight budget l)
        = (l.filter fun a => key a = k).map fun a =>
          weight a * ((weightOf key weight l k)⁻¹ * budget k) := by
      apply List.map_congr_left
      intro a ha
      have hk : key a = k := by simpa using (List.mem_filter.mp ha).2
      rw [share, hk, div_eq_mul_inv, mul_assoc]
    rw [weightOf, hmap, List.sum_map_mul_right, mul_assoc]
    rfl
  rw [hshare]
  split_ifs with h
  · rw [h, zero_mul, zero_mul]
  · rw [mul_inv_cancel₀ h, one_mul]

theorem share_perm (h : l.Perm l') :
    share key weight budget l a = share key weight budget l' a := by
  rw [share, share, weightOf_perm h]

theorem share_congr
    (h : l.filter (fun b => key b = key a) = l'.filter fun b => key b = key a) :
    share key weight budget l a = share key weight budget l' a := by
  rw [share, share, weightOf_congr h]

theorem share_map {f : α → α} {c : κ → K} (hc : ∀ k, c k ≠ 0) (hkey : ∀ b, key (f b) = key b)
    (hweight : ∀ b, weight (f b) = c (key b) * weight b) :
    share key weight budget (l.map f) (f a) = share key weight budget l a := by
  have hsum : weightOf key weight (l.map f) (key a)
      = c (key a) * weightOf key weight l (key a) := by
    rw [weightOf, weightOf, ← List.sum_map_mul_left, List.filter_map, List.map_map]
    simp only [Function.comp_def, hkey]
    congr 1
    apply List.map_congr_left
    intro b hb
    have hb' : key b = key a := by simpa using (List.mem_filter.mp hb).2
    rw [hweight, hb']
  rw [share, share, hweight, hkey, hsum, mul_div_mul_left _ _ (hc _)]

section Order

variable [LinearOrder K] [IsStrictOrderedRing K]

theorem weightOf_nonneg (h : ∀ b ∈ l, 0 ≤ weight b) : 0 ≤ weightOf key weight l k := by
  apply List.sum_nonneg
  intro x hx
  obtain ⟨b, hb, rfl⟩ := List.mem_map.mp hx
  exact h b (List.mem_filter.mp hb).1

theorem weightOf_eq_zero_iff (h : ∀ b ∈ l, 0 ≤ weight b) :
    weightOf key weight l k = 0 ↔ ∀ b ∈ l, key b = k → weight b = 0 := by
  constructor
  · intro hzero b hb hk
    apply le_antisymm _ (h b hb)
    rw [← hzero]
    apply List.single_le_sum
    · intro x hx
      obtain ⟨b, hb, rfl⟩ := List.mem_map.mp hx
      exact h b (List.mem_filter.mp hb).1
    · exact List.mem_map.mpr ⟨b, List.mem_filter.mpr ⟨hb, by simpa using hk⟩, rfl⟩
  · intro hall
    apply List.sum_eq_zero
    intro x hx
    obtain ⟨b, hb, rfl⟩ := List.mem_map.mp hx
    obtain ⟨hmem, hk⟩ := List.mem_filter.mp hb
    exact hall b hmem (by simpa using hk)

theorem share_nonneg (h : ∀ b ∈ l, 0 ≤ weight b) (ha : a ∈ l) (hbudget : 0 ≤ budget (key a)) :
    0 ≤ share key weight budget l a :=
  mul_nonneg (div_nonneg (h a ha) (weightOf_nonneg h)) hbudget

end Order

end Keyed
