import Mathlib.Data.Fintype.Card
import Mathlib.Data.List.FinRange
import Mathlib.Data.Set.Card
import Mathlib.Logic.Function.Basic

/-!
# Slots

A table of `n` slots holds entries with a key; where the key is `free` the slot is. Entries are
found by scanning for their key, added in the first free slot, and removed by writing an entry with
the free key.

Where no two slots have one key (`Distinct`), the table is a finite map from the other keys
(`lookup`), and a write to a slot is a change of the map: at the key it writes, and at the key that
was there (`lookup_write`). An entry is found unless it is missing, and there is a free slot unless
the map has `n` keys (`position_free_eq_none`). So what is done slot by slot is done on the map
(`entries_upsert`, `entries_alter`).
-/

namespace Keyed

variable {β κ : Type*} [DecidableEq κ] {n : ℕ} {key : β → κ} {free : κ} {t : Fin n → β}
  {i j : Fin n} {b : β} {k : κ}

def position (q : β → Bool) (t : Fin n → β) : Option (Fin n) :=
  (List.finRange n).find? fun i => q (t i)

theorem of_position {q : β → Bool} (h : position q t = some i) : q (t i) = true := by
  rw [position, List.find?_eq_some_iff_append] at h
  exact h.1

theorem position_eq_none {q : β → Bool} : position q t = none ↔ ∀ i, q (t i) = false := by
  simp [position]

theorem exists_position {q : β → Bool} (h : q (t i) = true) : ∃ j, position q t = some j := by
  cases hpos : position q t with
  | some j => exact ⟨j, rfl⟩
  | none =>
      rw [position_eq_none.mp hpos i] at h
      cases h

/-- The slot of a key. -/
def slotOf (key : β → κ) (t : Fin n → β) (k : κ) : Option (Fin n) :=
  position (fun b => decide (key b = k)) t

theorem key_of_slotOf (h : slotOf key t k = some i) : key (t i) = k := by
  have hkey : decide (key (t i) = k) = true := of_position (q := fun b => decide (key b = k)) h
  exact of_decide_eq_true hkey

theorem slotOf_eq_none : slotOf key t k = none ↔ ∀ i, key (t i) ≠ k := by
  simp [slotOf, position_eq_none]

/-- No two slots have one key. -/
def Distinct (key : β → κ) (free : κ) (t : Fin n → β) : Prop :=
  ∀ i j, key (t i) = key (t j) → key (t i) ≠ free → i = j

theorem Distinct.slotOf_eq_some (h : Distinct key free t) (hk : k ≠ free) :
    slotOf key t k = some i ↔ key (t i) = k := by
  refine ⟨key_of_slotOf, fun hi => ?_⟩
  obtain ⟨j, hj⟩ := exists_position (q := fun b => decide (key b = k)) (decide_eq_true hi)
  have hkey : key (t j) = k := key_of_slotOf hj
  rw [h i j (hi.trans hkey.symm) (hi ▸ hk)]
  exact hj

def lookup (key : β → κ) (t : Fin n → β) (k : κ) : Option β := (slotOf key t k).map t

theorem lookup_eq_none : lookup key t k = none ↔ ∀ i, key (t i) ≠ k := by
  rw [lookup, Option.map_eq_none_iff, slotOf_eq_none]

theorem Distinct.lookup_eq_some (h : Distinct key free t) (hk : k ≠ free) :
    lookup key t k = some b ↔ ∃ i, t i = b ∧ key b = k := by
  rw [lookup, Option.map_eq_some_iff]
  constructor
  · rintro ⟨i, hi, rfl⟩
    exact ⟨i, rfl, key_of_slotOf hi⟩
  · rintro ⟨i, rfl, hi⟩
    exact ⟨i, (h.slotOf_eq_some hk).mpr hi, rfl⟩

theorem lookup_of_slotOf (h : slotOf key t k = some i) : lookup key t k = some (t i) := by
  rw [lookup, h]
  rfl

/-- What may be written in a slot: a free entry, one with the key there, or in a free slot a new
one. -/
def Writable (key : β → κ) (free : κ) (t : Fin n → β) (i : Fin n) (b : β) : Prop :=
  key b = free ∨ key b = key (t i) ∨ key (t i) = free ∧ lookup key t (key b) = none

theorem Distinct.eq_of_key (h : Distinct key free t) (hb : Writable key free t i b)
    (hfree : key b ≠ free) (hj : key (t j) = key b) : j = i := by
  rcases hb with hb | hb | ⟨-, hb⟩
  · exact absurd hb hfree
  · exact h j i (hj.trans hb) (hj ▸ hfree)
  · exact absurd hj (lookup_eq_none.mp hb j)

theorem Distinct.update (h : Distinct key free t) (hb : Writable key free t i b) :
    Distinct key free (Function.update t i b) := by
  intro j l heq hfree
  by_cases hj : j = i
  · subst hj
    by_cases hl : l = j
    · exact hl.symm
    · rw [Function.update_self, Function.update_of_ne hl] at heq
      rw [Function.update_self] at hfree
      exact absurd (h.eq_of_key hb hfree heq.symm) hl
  · rw [Function.update_of_ne hj] at heq hfree
    by_cases hl : l = i
    · subst hl
      rw [Function.update_self] at heq
      exact h.eq_of_key hb (heq ▸ hfree) heq
    · rw [Function.update_of_ne hl] at heq
      exact h j l heq hfree

theorem Distinct.lookup_write (h : Distinct key free t) (hb : Writable key free t i b)
    (hk : k ≠ free) :
    lookup key (Function.update t i b) k =
      if k = key b then some b else if k = key (t i) then none else lookup key t k := by
  have h' := h.update hb
  split_ifs with hnew hold
  · rw [h'.lookup_eq_some hk]
    exact ⟨i, Function.update_self _ _ _, hnew.symm⟩
  · rw [lookup_eq_none]
    intro j hj
    by_cases hji : j = i
    · rw [hji, Function.update_self] at hj
      exact hnew hj.symm
    · rw [Function.update_of_ne hji] at hj
      exact hji (h j i (hj.trans hold) (hj ▸ hk))
  · have hother (j : Fin n) (hj : j = i) : key (t j) ≠ k := by
      rw [hj]
      exact fun h => hold h.symm
    ext c
    rw [h'.lookup_eq_some hk, h.lookup_eq_some hk]
    constructor
    · rintro ⟨j, rfl, hj⟩
      by_cases hji : j = i
      · rw [hji, Function.update_self] at hj
        exact absurd hj.symm hnew
      · rw [Function.update_of_ne hji] at hj ⊢
        exact ⟨j, rfl, hj⟩
    · rintro ⟨j, rfl, hj⟩
      have hji : j ≠ i := fun hji => hother j hji hj
      exact ⟨j, Function.update_of_ne hji _ _, hj⟩

def keys (key : β → κ) (free : κ) (t : Fin n → β) : Finset κ :=
  (Finset.univ.image fun i => key (t i)).erase free

theorem mem_keys : k ∈ keys key free t ↔ k ≠ free ∧ lookup key t k ≠ none := by
  rw [keys, Finset.mem_erase, Finset.mem_image, ne_eq (lookup key t k), lookup_eq_none]
  simp

/-- There is no free slot exactly where the map has as many keys as there are slots. -/
theorem Distinct.position_free_eq_none (h : Distinct key free t) :
    slotOf key t free = none ↔ (keys key free t).card = n := by
  rw [slotOf_eq_none]
  constructor
  · intro hfull
    have hinj : Function.Injective fun i => key (t i) := fun i j hij => h i j hij (hfull i)
    have hnot : free ∉ Finset.univ.image fun i => key (t i) := by
      simpa using hfull
    rw [keys, Finset.erase_eq_of_notMem hnot, Finset.card_image_of_injective _ hinj,
      Finset.card_univ, Fintype.card_fin]
  · intro hcard i hi
    have hsub : keys key free t ⊆ (Finset.univ.erase i).image fun i => key (t i) := by
      intro k hk
      rw [keys, Finset.mem_erase, Finset.mem_image] at hk
      obtain ⟨hfree, j, -, hj⟩ := hk
      apply Finset.mem_image.mpr
      refine ⟨j, Finset.mem_erase.mpr ⟨?_, Finset.mem_univ j⟩, hj⟩
      rintro rfl
      exact hfree (hj.symm.trans hi)
    have hle := (Finset.card_le_card hsub).trans Finset.card_image_le
    rw [Finset.card_erase_of_mem (Finset.mem_univ i), Finset.card_univ, Fintype.card_fin] at hle
    have := i.isLt
    omega

/-! ## The map as a function

`entries` is the map as a function that has nothing under `free`. The three kinds of writes are
updates of it. -/

/-- What is under a key, and nothing under `free`. -/
def entries (key : β → κ) (free : κ) (t : Fin n → β) (k : κ) : Option β :=
  if k = free then none else lookup key t k

theorem entries_of_ne (hk : k ≠ free) : entries key free t k = lookup key t k := if_neg hk

theorem entries_of_slotOf (hk : k ≠ free) (h : slotOf key t k = some i) :
    entries key free t k = some (t i) := by
  rw [entries_of_ne hk, lookup_of_slotOf h]

theorem entries_of_slotOf_none (h : slotOf key t k = none) : entries key free t k = none := by
  simp [entries, lookup, h]

theorem key_of_entries (h : entries key free t k = some b) : k ≠ free ∧ key b = k := by
  by_cases hk : k = free
  · simp [entries, hk] at h
  · rw [entries_of_ne hk, lookup, Option.map_eq_some_iff] at h
    obtain ⟨i, hi, rfl⟩ := h
    exact ⟨hk, key_of_slotOf hi⟩

theorem Distinct.entries_replace (h : Distinct key free t) (hb : key b = key (t i))
    (hfree : key b ≠ free) :
    entries key free (Function.update t i b)
      = Function.update (entries key free t) (key b) (some b) := by
  funext k
  by_cases hk : k = free
  · rw [Function.update_of_ne (by rw [hk]; exact hfree.symm), entries, entries, if_pos hk,
      if_pos hk]
  · rw [entries_of_ne hk, h.lookup_write (.inr (.inl hb)) hk, ← hb, Function.update_apply]
    split_ifs
    · rfl
    · rw [entries_of_ne hk]

theorem Distinct.entries_insert (h : Distinct key free t) (hi : key (t i) = free)
    (hnew : slotOf key t (key b) = none) (hfree : key b ≠ free) :
    entries key free (Function.update t i b)
      = Function.update (entries key free t) (key b) (some b) := by
  have hlookup : lookup key t (key b) = none := by rw [lookup, hnew, Option.map_none]
  funext k
  by_cases hk : k = free
  · rw [Function.update_of_ne (by rw [hk]; exact hfree.symm), entries, entries, if_pos hk,
      if_pos hk]
  · rw [entries_of_ne hk, h.lookup_write (.inr (.inr ⟨hi, hlookup⟩)) hk, hi, if_neg hk,
      Function.update_apply, entries_of_ne hk]

theorem Distinct.entries_remove (h : Distinct key free t) (hb : key b = free) :
    entries key free (Function.update t i b)
      = Function.update (entries key free t) (key (t i)) none := by
  funext k
  by_cases hk : k = free
  · rw [entries, if_pos hk, Function.update_apply, entries, if_pos hk, ite_self]
  · rw [entries_of_ne hk, h.lookup_write (.inl hb) hk, hb, if_neg hk, Function.update_apply,
      entries_of_ne hk]

theorem mem_keys_iff_entries : k ∈ keys key free t ↔ entries key free t k ≠ none := by
  rw [mem_keys, entries]
  split_ifs with hk
  · simp [hk]
  · simp [hk]

theorem entries_eq_none_iff : (∀ k, entries key free t k = none) ↔ ∀ i, key (t i) = free := by
  constructor
  · intro h i
    by_contra hi
    have hnone := h (key (t i))
    rw [entries_of_ne hi, lookup_eq_none] at hnone
    exact hnone i rfl
  · intro h k
    by_cases hk : k = free
    · exact if_pos hk
    · rw [entries_of_ne hk, lookup_eq_none]
      intro i hi
      exact hk (hi.symm.trans (h i))

/-! ## Operations

`upsert` changes the entry under a key, after it has added one if there is none; `alter` changes an
entry that is there, or removes it. `upsertMap` and `alterMap` are the same on the map. -/

section Operations

variable {ε : Type*} {f : β → Except ε β} {fresh : β} {full missing : ε}

/-- Change the entry under `k`, or a fresh one in the first free slot. -/
def upsert (key : β → κ) (free : κ) (t : Fin n → β) (k : κ) (fresh : β) (f : β → Except ε β)
    (full : ε) : Except ε (Fin n → β) :=
  match slotOf key t k with
  | some i => (f (t i)).map (Function.update t i)
  | none =>
      match slotOf key t free with
      | some i => (f fresh).map (Function.update t i)
      | none => .error full

/-- Change the entry under `k`. -/
def alter (key : β → κ) (t : Fin n → β) (k : κ) (f : β → Except ε β) (missing : ε) :
    Except ε (Fin n → β) :=
  match slotOf key t k with
  | some i => (f (t i)).map (Function.update t i)
  | none => .error missing

open scoped Classical in
/-- Change what is under `k`, or add something if there are less than `capacity` keys. -/
noncomputable def upsertMap (capacity : ℕ) (m : κ → Option β) (k : κ) (fresh : β)
    (f : β → Except ε β) (full : ε) : Except ε (κ → Option β) :=
  match m k with
  | some b => (f b).map fun b => Function.update m k (some b)
  | none =>
      if {k | m k ≠ none}.ncard < capacity then (f fresh).map fun b => Function.update m k (some b)
      else .error full

/-- Change what is under `k`, and remove it where its key becomes `free`. -/
def alterMap (key : β → κ) (free : κ) (m : κ → Option β) (k : κ) (f : β → Except ε β)
    (missing : ε) : Except ε (κ → Option β) :=
  match m k with
  | some b => (f b).map fun b => Function.update m k (if key b = free then none else some b)
  | none => .error missing

theorem upsertMap_eq_ok {capacity : ℕ} {m m' : κ → Option β} :
    upsertMap capacity m k fresh f full = .ok m' ↔
      ∃ b, f ((m k).getD fresh) = .ok b ∧ Function.update m k (some b) = m' ∧
        (m k = none → {k | m k ≠ none}.ncard < capacity) := by
  unfold upsertMap
  cases hm : m k with
  | some b =>
      cases hb : f b with
      | error e => simp [hb, Except.map]
      | ok b' => simp [hb, Except.map]
  | none =>
      by_cases hroom : {k | m k ≠ none}.ncard < capacity
      · cases hb : f fresh with
        | error e => simp [hb, hroom, Except.map]
        | ok b' => simp [hb, hroom, Except.map]
      · simp [hroom]

theorem alterMap_eq_ok {m m' : κ → Option β} :
    alterMap key free m k f missing = .ok m' ↔
      ∃ b, m k = some b ∧ ∃ b', f b = .ok b' ∧
        Function.update m k (if key b' = free then none else some b') = m' := by
  unfold alterMap
  cases hm : m k with
  | none => simp
  | some b =>
      cases hb : f b with
      | error e => simp [hb, Except.map]
      | ok b' => simp [hb, Except.map]

theorem ncard_entries : {k | entries key free t k ≠ none}.ncard = (keys key free t).card := by
  rw [← Set.ncard_coe_finset]
  congr 1
  ext k
  rw [Finset.mem_coe, mem_keys_iff_entries]
  rfl

theorem card_keys_le : (keys key free t).card ≤ n := by
  refine (Finset.card_le_card (Finset.erase_subset _ _)).trans (Finset.card_image_le.trans ?_)
  rw [Finset.card_univ, Fintype.card_fin]

theorem Distinct.ncard_entries_lt_iff (h : Distinct key free t) :
    {k | entries key free t k ≠ none}.ncard < n ↔ ∃ i, slotOf key t free = some i := by
  have hle : (keys key free t).card ≤ n := card_keys_le
  have hfull := h.position_free_eq_none
  rw [ncard_entries]
  cases hslot : slotOf key t free with
  | none =>
      rw [hslot] at hfull
      simp [hfull.mp rfl]
  | some i =>
      rw [hslot] at hfull
      simp only [reduceCtorEq, false_iff] at hfull
      simp only [Option.some.injEq, exists_eq', iff_true]
      omega

theorem Distinct.entries_upsert (h : Distinct key free t) (hk : k ≠ free) (hfresh : key fresh = k)
    (hf : ∀ b b', f b = .ok b' → key b' = key b) :
    (upsert key free t k fresh f full).map (entries key free) =
      upsertMap n (entries key free t) k fresh f full := by
  unfold upsert upsertMap
  cases hslot : slotOf key t k with
  | some i =>
      have hkey : key (t i) = k := key_of_slotOf hslot
      rw [entries_of_slotOf hk hslot]
      cases hb : f (t i) with
      | error e => simp [hb, Except.map]
      | ok b =>
          have hsame : key b = key (t i) := hf _ _ hb
          have hput := h.entries_replace hsame (by rw [hsame, hkey]; exact hk)
          simp only [hb, Except.map, hput, hsame, hkey]
  | none =>
      rw [entries_of_slotOf_none hslot]
      cases hfree : slotOf key t free with
      | some i =>
          have hroom := h.ncard_entries_lt_iff.mpr ⟨i, hfree⟩
          cases hb : f fresh with
          | error e => simp [hroom, Except.map]
          | ok b =>
              have hkey : key b = k := (hf _ _ hb).trans hfresh
              have hput := h.entries_insert (key_of_slotOf hfree) (by rw [hkey, hslot])
                (by rw [hkey]; exact hk)
              simp only [hroom, if_true, Except.map, hput, hkey]
      | none =>
          have hfull : ¬ {k | entries key free t k ≠ none}.ncard < n := by
            rw [h.ncard_entries_lt_iff, hfree]
            simp
          simp [hfull, Except.map]

theorem Distinct.upsert (h : Distinct key free t) (hfresh : key fresh = k)
    (hf : ∀ b b', f b = .ok b' → key b' = key b) {t' : Fin n → β}
    (ht : upsert key free t k fresh f full = .ok t') : Distinct key free t' := by
  unfold Keyed.upsert at ht
  split at ht
  · rename_i i hslot
    cases hb : f (t i) with
    | error e => simp [hb, Except.map] at ht
    | ok b =>
        simp only [hb, Except.map, Except.ok.injEq] at ht
        exact ht ▸ h.update (.inr (.inl (hf _ _ hb)))
  · rename_i hslot
    split at ht
    · rename_i i hfree
      cases hb : f fresh with
      | error e => simp [hb, Except.map] at ht
      | ok b =>
          have hkey : key b = k := (hf _ _ hb).trans hfresh
          simp only [hb, Except.map, Except.ok.injEq] at ht
          refine ht ▸ h.update (.inr (.inr ⟨key_of_slotOf hfree, ?_⟩))
          rw [hkey, lookup, hslot, Option.map_none]
    · cases ht

theorem Distinct.entries_alter (h : Distinct key free t) (hk : k ≠ free)
    (hf : ∀ b b', f b = .ok b' → key b' = key b ∨ key b' = free) :
    (alter key t k f missing).map (entries key free) =
      alterMap key free (entries key free t) k f missing := by
  unfold alter alterMap
  cases hslot : slotOf key t k with
  | none => simp [entries_of_slotOf_none hslot, Except.map]
  | some i =>
      have hkey : key (t i) = k := key_of_slotOf hslot
      rw [entries_of_slotOf hk hslot]
      cases hb : f (t i) with
      | error e => simp [hb, Except.map]
      | ok b =>
          by_cases hremove : key b = free
          · simp only [hb, Except.map, h.entries_remove hremove, hremove, hkey, if_true]
          · have hsame : key b = key (t i) := (hf _ _ hb).resolve_right hremove
            simp only [hb, Except.map, h.entries_replace hsame hremove, hsame, hkey]
            simp [hk]

theorem Distinct.alter (h : Distinct key free t)
    (hf : ∀ b b', f b = .ok b' → key b' = key b ∨ key b' = free) {t' : Fin n → β}
    (ht : alter key t k f missing = .ok t') : Distinct key free t' := by
  unfold Keyed.alter at ht
  split at ht
  · rename_i i hslot
    cases hb : f (t i) with
    | error e => simp [hb, Except.map] at ht
    | ok b =>
        simp only [hb, Except.map, Except.ok.injEq] at ht
        exact ht ▸ h.update ((hf _ _ hb).symm.imp_right .inl)
  · cases ht

/-! What all entries have, and every change keeps, all entries have afterwards. -/

variable {Q : β → Prop}

theorem forall_update (ht : ∀ i, Q (t i)) (hb : Q b) (i : Fin n) :
    ∀ j, Q (Function.update t i b j) := by
  intro j
  rw [Function.update_apply]
  split_ifs
  · exact hb
  · exact ht j

theorem forall_upsert (ht : ∀ i, Q (t i)) (hkey : key fresh = k) (hfresh : Q fresh)
    (hf : ∀ b b', key b = k → Q b → f b = .ok b' → Q b') {t' : Fin n → β}
    (h : Keyed.upsert key free t k fresh f full = .ok t') : ∀ i, Q (t' i) := by
  unfold Keyed.upsert at h
  split at h
  · rename_i i hslot
    cases hb : f (t i) with
    | error e => simp [hb, Except.map] at h
    | ok b =>
        simp only [hb, Except.map, Except.ok.injEq] at h
        exact h ▸ forall_update ht (hf _ _ (key_of_slotOf hslot) (ht i) hb) i
  · split at h
    · rename_i i hslot
      cases hb : f fresh with
      | error e => simp [hb, Except.map] at h
      | ok b =>
          simp only [hb, Except.map, Except.ok.injEq] at h
          exact h ▸ forall_update ht (hf _ _ hkey hfresh hb) i
    · cases h

theorem forall_alter (ht : ∀ i, Q (t i)) (hf : ∀ b b', key b = k → Q b → f b = .ok b' → Q b')
    {t' : Fin n → β} (h : Keyed.alter key t k f missing = .ok t') : ∀ i, Q (t' i) := by
  unfold Keyed.alter at h
  split at h
  · rename_i i hslot
    cases hb : f (t i) with
    | error e => simp [hb, Except.map] at h
    | ok b =>
        simp only [hb, Except.map, Except.ok.injEq] at h
        exact h ▸ forall_update ht (hf _ _ (key_of_slotOf hslot) (ht i) hb) i
  · cases h

end Operations

end Keyed
