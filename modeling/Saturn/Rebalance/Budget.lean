import Saturn.Instructions.Balance
import Saturn.Keyed.Share
import Mathlib.Algebra.BigOperators.Fin
import Mathlib.Data.List.FinRange

/-!
# Reallocation as sharing of budgets

Read exactly, `re_allocate` is the sharing of `Keyed.Share`: the key of a platform is its type, its
weight the rating, and the first loop is the tally that the second one normalises by. Its zero tests
change nothing, since nothing divided by zero is zero. So what holds of shares holds of the new
allocations: they come to the budget of each type (`budgets_spent`), and depend on nothing but the
ratings of the same type (`reAllocate_relative`).

Only the counts may get in the way, which are never read: a build with overflow checks panics at the
256th platform of a type.
-/

namespace Saturn

open Machine Keyed

variable {p : Profile} {budget : Vector ℚ 4} {treasur treasur' l l' : List (Platform ℚ)}
  {q : Platform ℚ} {t : UInt8}

/-! ## The sharing behind it -/

/-- The platforms have one of the four types. -/
def Typed (treasur : List (Platform ℚ)) : Prop :=
  ∀ q ∈ treasur, 1 ≤ q.platformType.toNat ∧ q.platformType.toNat ≤ 4

instance : Decidable (Typed treasur) := List.decidableBAll _ _

/-- The budget of a type, none for a fifth one. -/
def budgetOf (budget : Vector ℚ 4) (t : UInt8) : ℚ := (budget[(t - 1).toNat]?).getD 0

/-- What `re_allocate` gives a platform. -/
def allocationOf (budget : Vector ℚ 4) (treasur : List (Platform ℚ)) (q : Platform ℚ) : ℚ :=
  share Platform.platformType Platform.rating (budgetOf budget) treasur q

def Platform.withAllocation (q : Platform ℚ) (allocation : ℚ) : Platform ℚ := { q with allocation }

theorem Platform.rating_eq (q : Platform ℚ) : q.rating = q.returnRate / q.riskRating := by
  rw [rating, isZero_rat]
  by_cases h : q.riskRating = 0
  · simp [h]
  · simp [h]

theorem Platform.rating_nonneg (h : 0 ≤ q.returnRate ∧ 0 ≤ q.riskRating) : 0 ≤ q.rating := by
  rw [rating_eq]
  exact div_nonneg h.1 h.2

theorem platformTypeRatings_eq :
    platformTypeRatings treasur = weightOf Platform.platformType Platform.rating treasur :=
  tally_eq

theorem toNat_counts (hp : p.overflowChecks = true) {counts : UInt8 → UInt8}
    (h : platformTypeCounts p treasur = .ok counts) :
    (counts t).toNat = treasur.countP fun q => q.platformType = t := by
  induction treasur using List.reverseRecOn generalizing counts with
  | nil =>
      cases h
      rfl
  | append_singleton l q ih =>
      rw [platformTypeCounts, List.foldlM_append, ← platformTypeCounts] at h
      simp only [List.foldlM_cons, List.foldlM_nil, bind_eq_ok, pure_eq_ok,
        Profile.guard_eq_ok] at h
      obtain ⟨before, hbefore, _, ⟨_, ⟨rfl, hfits⟩, rfl⟩, rfl⟩ := h
      have hlt : (before q.platformType).toNat + 1 < 256 := of_decide_eq_true (hfits hp)
      rw [List.countP_append, ← ih hbefore, Function.update_apply, List.countP_singleton]
      by_cases hq : t = q.platformType
      · rw [if_pos hq, hq, UInt8.toNat_add, if_pos (decide_eq_true rfl)]
        exact Nat.mod_eq_of_lt hlt
      · rw [if_neg hq, if_neg (by simpa using Ne.symm hq), Nat.add_zero]

/-- The counts overflow where a build checks that and a type has more than 255 platforms. -/
theorem platformTypeCounts_ok_iff : (∃ counts, platformTypeCounts p treasur = .ok counts) ↔
    (p.overflowChecks = true → ∀ t, (treasur.countP fun q => q.platformType = t) ≤ 255) := by
  constructor
  · rintro ⟨counts, h⟩ hp t
    rw [← toNat_counts hp h]
    exact Nat.le_of_lt_succ (counts t).toNat_lt
  · intro h
    induction treasur using List.reverseRecOn with
    | nil => exact ⟨_, rfl⟩
    | append_singleton l q ih =>
        have hl : p.overflowChecks = true → ∀ t, (l.countP fun q => q.platformType = t) ≤ 255 := by
          intro hp t
          refine le_trans ?_ (h hp t)
          rw [List.countP_append]
          exact Nat.le_add_right _ _
        obtain ⟨counts, hcounts⟩ := ih hl
        have hguard : (p.guard (decide ((counts q.platformType).toNat + 1 < 256))
            (counts q.platformType + 1) : Except Failure UInt8)
            = .ok (counts q.platformType + 1) := by
          rw [Profile.guard_eq_ok]
          refine ⟨rfl, ?_⟩
          intro hp
          have hcount := h hp q.platformType
          rw [List.countP_append, ← toNat_counts hp hcounts, List.countP_singleton,
            if_pos (decide_eq_true rfl)] at hcount
          exact decide_eq_true (by omega)
        rw [platformTypeCounts, List.foldlM_append, ← platformTypeCounts, hcounts]
        simp only [bind_eq_ok, List.foldlM_cons, List.foldlM_nil]
        exact ⟨_, _, rfl, _, ⟨_, hguard, rfl⟩, rfl⟩

theorem typeBudget_eq (h : 1 ≤ t.toNat ∧ t.toNat ≤ 4) :
    typeBudget p budget t = .ok (budgetOf budget t) := by
  have hsub : (t - 1).toNat = t.toNat - 1 :=
    UInt8.toNat_sub_of_le t 1 (UInt8.le_iff_toNat_le.mpr h.1)
  have hlt : (t - 1).toNat < 4 := by omega
  have hguard : (p.guard (decide (1 ≤ t.toNat)) (t - 1) : Except Failure UInt8) = .ok (t - 1) :=
    Profile.guard_eq_ok.mpr ⟨rfl, fun _ => decide_eq_true h.1⟩
  rw [typeBudget, hguard, budgetOf]
  show okOr budget[(t - 1).toNat]? Failure.panic = _
  rw [Vector.getElem?_eq_getElem hlt]
  rfl

theorem Platform.reallocated_eq (h : 1 ≤ q.platformType.toNat ∧ q.platformType.toNat ≤ 4) :
    q.reallocated p (platformTypeRatings treasur) budget
      = .ok (q.withAllocation (allocationOf budget treasur q)) := by
  simp only [reallocated, typeBudget_eq h]
  show Except.ok _ = Except.ok _
  rw [platformTypeRatings_eq, withAllocation, allocationOf, share, isZero_rat]
  by_cases hzero : weightOf Platform.platformType Platform.rating treasur q.platformType = 0
  · simp [hzero]
  · simp [hzero]

/-- Whatever the build, `re_allocate` gives each platform its share, if the counts do not
overflow. -/
theorem reAllocate_eq (h : Typed treasur) : reAllocate p treasur budget = .ok l ↔
    (∃ counts, platformTypeCounts p treasur = .ok counts) ∧
      l = treasur.map fun q => q.withAllocation (allocationOf budget treasur q) := by
  have hmap : treasur.mapM (Platform.reallocated p (platformTypeRatings treasur) budget)
      = .ok (treasur.map fun q => q.withAllocation (allocationOf budget treasur q)) :=
    mapM_eq_map fun q hq => Platform.reallocated_eq (h q hq)
  rw [reAllocate_eq_ok, hmap, Except.ok.injEq, eq_comm (a := l)]

theorem reAllocate_release (h : Typed treasur) :
    ∃ l, reAllocate .release treasur budget = .ok l := by
  have hcounts : ∃ counts, platformTypeCounts .release treasur = .ok counts := by
    rw [platformTypeCounts_ok_iff]
    intro hp
    cases hp
  exact ⟨_, (reAllocate_eq h).mpr ⟨hcounts, rfl⟩⟩

/-! ## What is spent -/

/-- The new platforms are the old ones, but for the allocations; these are not negative, those of
each type come to its budget, or to nothing where no platform of the type has a rating, and all of
them to no more than all budgets. -/
structure SpendsBudgets (budget : Vector ℚ 4) (treasur l : List (Platform ℚ)) : Prop where
  length : l.length = treasur.length
  unchanged : ∀ (i : ℕ) (q r : Platform ℚ), treasur[i]? = some q → l[i]? = some r →
    r.id = q.id ∧ r.returnRate = q.returnRate ∧ r.riskRating = q.riskRating ∧
      r.platformType = q.platformType
  nonneg : ∀ r ∈ l, 0 ≤ r.allocation
  spent : ∀ i : Fin 4,
    ((l.filter fun r => r.platformType.toNat = i.val + 1).map Platform.allocation).sum
      = if ∃ q ∈ treasur, q.platformType.toNat = i.val + 1 ∧ q.rating ≠ 0 then budget.get i else 0
  total : (l.map Platform.allocation).sum
    ≤ budget.get 0 + budget.get 1 + budget.get 2 + budget.get 3

def typeOf (i : Fin 4) : UInt8 := UInt8.ofNat (i.val + 1)

theorem eq_typeOf_iff {i : Fin 4} : t = typeOf i ↔ t.toNat = i.val + 1 := by
  have hi : (typeOf i).toNat = i.val + 1 := by
    rw [typeOf, UInt8.toNat_ofNat']
    omega
  rw [← UInt8.toNat_inj, hi]

theorem budgetOf_typeOf (i : Fin 4) : budgetOf budget (typeOf i) = budget.get i := by
  have hi : (typeOf i - 1).toNat = i.val := by
    revert i
    decide
  rw [budgetOf, hi, Vector.getElem?_eq_getElem i.isLt]
  rfl

/-- The allocations of a type, as weights of the old platforms. -/
theorem sum_allocations :
    (((treasur.map fun q => q.withAllocation (allocationOf budget treasur q)).filter
      fun r => r.platformType = t).map Platform.allocation).sum
    = weightOf Platform.platformType (allocationOf budget treasur) treasur t := by
  rw [List.filter_map, List.map_map]
  rfl

/-- They come to the budget of the type, or to nothing where no platform of the type has a
rating. -/
theorem allocations_eq (hrates : ∀ q ∈ treasur, 0 ≤ q.returnRate ∧ 0 ≤ q.riskRating) (i : Fin 4) :
    weightOf Platform.platformType (allocationOf budget treasur) treasur (typeOf i)
      = if ∃ q ∈ treasur, q.platformType.toNat = i.val + 1 ∧ q.rating ≠ 0
        then budget.get i else 0 := by
  have hzero : weightOf Platform.platformType Platform.rating treasur (typeOf i) = 0 ↔
      ¬ ∃ q ∈ treasur, q.platformType.toNat = i.val + 1 ∧ q.rating ≠ 0 := by
    rw [weightOf_eq_zero_iff fun q hq => Platform.rating_nonneg (hrates q hq)]
    push Not
    simp only [eq_typeOf_iff]
  have hshares : weightOf Platform.platformType (allocationOf budget treasur) treasur (typeOf i)
      = if weightOf Platform.platformType Platform.rating treasur (typeOf i) = 0 then 0
        else budgetOf budget (typeOf i) := weightOf_share
  rw [hshares, budgetOf_typeOf]
  by_cases h : ∃ q ∈ treasur, q.platformType.toNat = i.val + 1 ∧ q.rating ≠ 0
  · rw [if_pos h, if_neg fun h0 => hzero.mp h0 h]
  · rw [if_neg h, if_pos (hzero.mpr h)]

theorem allocations_le (hrates : ∀ q ∈ treasur, 0 ≤ q.returnRate ∧ 0 ≤ q.riskRating)
    (hbudget : ∀ i, 0 ≤ budget.get i) (i : Fin 4) :
    weightOf Platform.platformType (allocationOf budget treasur) treasur (typeOf i)
      ≤ budget.get i := by
  rw [allocations_eq hrates]
  split_ifs
  · exact le_rfl
  · exact hbudget i

theorem Typed.mem_typeOf (h : Typed treasur) (hq : q ∈ treasur) :
    q.platformType ∈ Finset.univ.image typeOf := by
  obtain ⟨hlo, hhi⟩ := h q hq
  rw [Finset.mem_image]
  exact ⟨⟨q.platformType.toNat - 1, by omega⟩, Finset.mem_univ _,
    (eq_typeOf_iff.mpr (by show q.platformType.toNat = q.platformType.toNat - 1 + 1; omega)).symm⟩

theorem sum_typeOf (f : UInt8 → ℚ) : ∑ t ∈ Finset.univ.image typeOf, f t
    = f (typeOf 0) + f (typeOf 1) + f (typeOf 2) + f (typeOf 3) := by
  have hinj : Function.Injective typeOf := by decide
  rw [Finset.sum_image hinj.injOn, Fin.sum_univ_four]

/-- For every list of platforms of the four types, without negative rates, and budgets that are not
negative: a build without overflow checks returns, and what any build returns spends the budget of
each type on the platforms of the type. -/
theorem budgets_spent (htypes : Typed treasur)
    (hrates : ∀ q ∈ treasur, 0 ≤ q.returnRate ∧ 0 ≤ q.riskRating)
    (hbudget : ∀ i, 0 ≤ budget.get i) :
    (∃ l, reAllocate .release treasur budget = .ok l) ∧
      ∀ p l, reAllocate p treasur budget = .ok l → SpendsBudgets budget treasur l := by
  refine ⟨reAllocate_release htypes, ?_⟩
  intro p l h
  obtain ⟨-, rfl⟩ := (reAllocate_eq htypes).mp h
  refine ⟨List.length_map _, ?_, ?_, ?_, ?_⟩
  · intro i q r hq hr
    rw [List.getElem?_map, hq] at hr
    cases hr
    exact ⟨rfl, rfl, rfl, rfl⟩
  · intro r hr
    obtain ⟨q, hq, rfl⟩ := List.mem_map.mp hr
    obtain ⟨i, -, hi⟩ := Finset.mem_image.mp (htypes.mem_typeOf hq)
    apply share_nonneg (fun q hq => Platform.rating_nonneg (hrates q hq)) hq
    rw [← hi, budgetOf_typeOf]
    exact hbudget i
  · intro i
    simp only [← eq_typeOf_iff]
    rw [sum_allocations, allocations_eq hrates]
    simp only [eq_typeOf_iff]
  · -- what the types get adds up to what all platforms get
    have hsum : ∑ t ∈ Finset.univ.image typeOf, weightOf Platform.platformType
        (allocationOf budget treasur) treasur t = (treasur.map (allocationOf budget treasur)).sum :=
      sum_weightOf _ fun q hq => htypes.mem_typeOf hq
    rw [List.map_map]
    show (treasur.map (allocationOf budget treasur)).sum ≤ _
    rw [← hsum, sum_typeOf]
    have h₀ := allocations_le hrates hbudget 0
    have h₁ := allocations_le hrates hbudget 1
    have h₂ := allocations_le hrates hbudget 2
    have h₃ := allocations_le hrates hbudget 3
    linarith

/-- A lending platform that returns 52 at a risk of 5, and one that returns 32 at a risk of 7. -/
def twoPlatforms : Fin 2 → Platform ℚ := ![⟨1, 52, 5, 0, 1⟩, ⟨5, 32, 7, 0, 4⟩]

theorem twoPlatforms_typed : Typed (List.ofFn twoPlatforms) := by decide +kernel

/-- They get the budgets of their types. -/
theorem budgets_spent_small :
    ∃ l, reAllocate .release (List.ofFn twoPlatforms) platformAllocation = .ok l ∧
    SpendsBudgets platformAllocation (List.ofFn twoPlatforms) l := by
  have hbudget : ∀ i, (0 : ℚ) ≤ platformAllocation.get i := by decide +kernel
  obtain ⟨⟨l, hl⟩, hspent⟩ := budgets_spent twoPlatforms_typed (by decide +kernel) hbudget
  exact ⟨l, hl, hspent _ _ hl⟩

/-! ## What it depends on -/

def ofType (t : UInt8) (treasur : List (Platform ℚ)) : List (Platform ℚ) :=
  treasur.filter fun q => q.platformType = t

/-- The share of a platform does not depend on the platforms of other types. -/
theorem allocationOf_congr (h : ofType t treasur = ofType t treasur') (hq : q.platformType = t) :
    allocationOf budget treasur q = allocationOf budget treasur' q := by
  subst hq
  exact share_congr h

/-- The platform, with the return rate multiplied by `c` if it is of the type `t`. -/
def Platform.scaleReturn (t : UInt8) (c : ℚ) (q : Platform ℚ) : Platform ℚ :=
  if q.platformType = t then { q with returnRate := c * q.returnRate } else q

section

variable {c : ℚ}

theorem Platform.scaleReturn_platformType : (q.scaleReturn t c).platformType = q.platformType := by
  rw [scaleReturn]
  split_ifs <;> rfl

theorem Platform.scaleReturn_rating :
    (q.scaleReturn t c).rating = (if q.platformType = t then c else 1) * q.rating := by
  rw [scaleReturn, rating_eq, rating_eq]
  split_ifs
  · exact mul_div_assoc _ _ _
  · exact (one_mul _).symm

theorem Typed.scaleReturn (h : Typed treasur) : Typed (treasur.map (Platform.scaleReturn t c)) := by
  intro q hq
  obtain ⟨q, hmem, rfl⟩ := List.mem_map.mp hq
  rw [Platform.scaleReturn_platformType]
  exact h q hmem

theorem allocationOf_scaleReturn (hc : 0 < c) :
    allocationOf budget (treasur.map (Platform.scaleReturn t c)) (q.scaleReturn t c)
      = allocationOf budget treasur q := by
  apply share_map (c := fun k => if k = t then c else 1)
  · intro k
    split_ifs
    · exact hc.ne'
    · exact one_ne_zero
  · intro b
    exact Platform.scaleReturn_platformType
  · intro b
    exact Platform.scaleReturn_rating

end

theorem ofType_map (f : List (Platform ℚ) → Platform ℚ → ℚ) :
    ofType t (treasur.map fun q => q.withAllocation (f treasur q))
      = (ofType t treasur).map fun q => q.withAllocation (f treasur q) := by
  rw [ofType, ofType, List.filter_map]
  rfl

/-- For all platforms of the four types, a build without overflow checks returns, and of what any
build returns: permuting the platforms permutes the new ones; multiplying the return rates of one
type by a positive factor changes no allocation; and two lists with the same platforms of a type get
the same new platforms of that type, whatever else they have. -/
theorem reAllocate_relative (budget : Vector ℚ 4) :
    (∀ treasur, Typed treasur → ∃ l, reAllocate .release treasur budget = .ok l) ∧
    (∀ (p : Profile) (n : ℕ) (f g : Fin n → Platform ℚ) (σ : Equiv.Perm (Fin n))
      (l : List (Platform ℚ)), Typed (List.ofFn f) →
        reAllocate p (List.ofFn f) budget = .ok (List.ofFn g) →
      reAllocate p (List.ofFn (f ∘ σ)) budget = .ok l → l = List.ofFn (g ∘ σ)) ∧
    (∀ (p : Profile) (treasur l l' : List (Platform ℚ)) (t : UInt8) (c : ℚ), Typed treasur → 0 < c →
      reAllocate p treasur budget = .ok l →
      reAllocate p (treasur.map (Platform.scaleReturn t c)) budget = .ok l' →
      l'.map Platform.allocation = l.map Platform.allocation) ∧
    (∀ (p : Profile) (treasur treasur' l l' : List (Platform ℚ)) (t : UInt8), Typed treasur →
      Typed treasur' → ofType t treasur = ofType t treasur' → reAllocate p treasur budget = .ok l →
      reAllocate p treasur' budget = .ok l' → ofType t l = ofType t l') := by
  refine ⟨fun treasur h => reAllocate_release h, ?_, ?_, ?_⟩
  · intro p n f g σ l htypes h h'
    -- an order of the platforms
    have hperm : (List.ofFn (f ∘ σ)).Perm (List.ofFn f) := σ.ofFn_comp_perm f
    have htypes' : Typed (List.ofFn (f ∘ σ)) := fun q hq => htypes q (hperm.mem_iff.mp hq)
    obtain ⟨-, hg⟩ := (reAllocate_eq htypes).mp h
    obtain ⟨-, rfl⟩ := (reAllocate_eq htypes').mp h'
    rw [List.map_ofFn] at hg ⊢
    have hfun := List.ofFn_injective hg
    congr 1
    funext i
    rw [hfun]
    show Platform.withAllocation _ _ = Platform.withAllocation _ _
    congr 1
    exact share_perm hperm
  · intro p treasur l l' t c htypes hc h h'
    obtain ⟨-, rfl⟩ := (reAllocate_eq htypes).mp h
    obtain ⟨-, rfl⟩ := (reAllocate_eq htypes.scaleReturn).mp h'
    rw [List.map_map, List.map_map, List.map_map]
    apply List.map_congr_left
    intro q _
    -- a factor common to a type cancels in its shares
    exact allocationOf_scaleReturn hc
  · intro p treasur treasur' l l' t htypes htypes' hsame h h'
    obtain ⟨-, rfl⟩ := (reAllocate_eq htypes).mp h
    obtain ⟨-, rfl⟩ := (reAllocate_eq htypes').mp h'
    -- only the platforms of the type enter its shares
    rw [ofType_map, ofType_map, ← hsame]
    apply List.map_congr_left
    intro q hq
    have hqt : q.platformType = t := by simpa using (List.mem_filter.mp hq).2
    rw [allocationOf_congr hsame hqt]

/-- Two platforms swapped, the returns of the first doubled, and the second left out. -/
theorem reAllocate_relative_small : ∃ (g : Fin 2 → Platform ℚ) (l l' : List (Platform ℚ)),
    reAllocate .release (List.ofFn twoPlatforms) platformAllocation = .ok (List.ofFn g) ∧
    reAllocate .release (List.ofFn (twoPlatforms ∘ Equiv.swap 0 1)) platformAllocation
      = .ok (List.ofFn (g ∘ Equiv.swap 0 1)) ∧
    reAllocate .release ((List.ofFn twoPlatforms).map (Platform.scaleReturn 1 2)) platformAllocation
      = .ok l ∧ l.map Platform.allocation = (List.ofFn g).map Platform.allocation ∧
    reAllocate .release [twoPlatforms 0] platformAllocation = .ok l' ∧
      ofType 1 (List.ofFn g) = ofType 1 l' := by
  obtain ⟨hreturns, hperm, hscale, htype⟩ := reAllocate_relative platformAllocation
  have hswapped : Typed (List.ofFn (twoPlatforms ∘ Equiv.swap 0 1)) := by decide +kernel
  have hfirst : Typed [twoPlatforms 0] := by decide +kernel
  obtain ⟨k, hk⟩ := hreturns _ twoPlatforms_typed
  obtain ⟨-, hg⟩ := (reAllocate_eq twoPlatforms_typed).mp hk
  rw [List.map_ofFn] at hg
  subst hg
  obtain ⟨m, hm⟩ := hreturns _ hswapped
  obtain ⟨l, hl⟩ := hreturns _ twoPlatforms_typed.scaleReturn
  obtain ⟨l', hl'⟩ := hreturns _ hfirst
  obtain rfl := hperm _ _ _ _ _ _ twoPlatforms_typed hk hm
  exact ⟨_, l, l', hk, hm, hl, hscale _ _ _ _ _ _ twoPlatforms_typed (by norm_num) hk hl, hl',
    htype _ _ _ _ _ _ twoPlatforms_typed hfirst rfl hk hl'⟩

end Saturn
