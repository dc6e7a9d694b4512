import Mathlib.Algebra.BigOperators.Group.List.Basic
import Mathlib.Data.List.Induction

/-!
# Runs of a labelled transition system

`Run step s es t` says that `step` leads from `s` to `t` emitting the labels `es`, oldest first.
Runs grow at the end, so an induction over a run is an induction over its history: each case has the
run so far and one more step.

`Run.invariant` is the rule for invariants (`Run.exists_step` for the steps of a run),
`Run.simulate` the one for simulations, `Run.sum_eq` the one for quantities a step changes by an
amount its label shows, and `Run.split` cuts a run at any point of its history. Where only the steps
that meet a condition matter, the run is one of `Guarded step C`; where a sum over the history
matters that the labels do not show, it is one of `Counted step g`; and `Observed step f` shows next
to each label what `f` reads off the state it was taken in.
-/

namespace Transition

variable {σ ε : Type*} {step step' : σ → ε → σ → Prop}

/-- `step` leads from `s` to the last state, emitting the listed labels. -/
inductive Run (step : σ → ε → σ → Prop) (s : σ) : List ε → σ → Prop
  | nil : Run step s [] s
  | snoc {es : List ε} {t u : σ} {e : ε} : Run step s es t → step t e u → Run step s (es ++ [e]) u

/-- The steps whose source and label meet `C`. -/
def Guarded (step : σ → ε → σ → Prop) (C : σ → ε → Prop) (s : σ) (e : ε) (t : σ) : Prop :=
  step s e t ∧ C s e

/-- `step` with a history variable next to the state, to which every step adds its `g`. -/
def Counted (step : σ → ε → σ → Prop) (g : σ → ε → σ → ℕ) (s : σ × ℕ) (e : ε) (t : σ × ℕ) : Prop :=
  step s.1 e t.1 ∧ t.2 = s.2 + g s.1 e t.1

/-- `step` with what `f` reads off the source next to the label. -/
def Observed {α : Type*} (step : σ → ε → σ → Prop) (f : σ → α) (s : σ) (m : α × ε) (t : σ) : Prop :=
  m.1 = f s ∧ step s m.2 t

/-- The labels of a replay next to what `f` reads off the states on the way, and the last state. -/
def observe {α : Type*} (f : σ → α) (next : σ → ε → Option σ) (s : σ) (es : List ε) :
    Option (List (α × ε) × σ) :=
  es.foldlM (fun x e => (next x.2 e).map fun b => (x.1 ++ [(f x.2, e)], b)) ([], s)

namespace Run

variable {s t u : σ} {es fs : List ε} {e : ε}

theorem single (h : step s e t) : Run step s [e] t := nil.snoc h

theorem append (h₁ : Run step s es t) (h₂ : Run step t fs u) : Run step s (es ++ fs) u := by
  induction h₂ with
  | nil => simpa using h₁
  | snoc _ hstep ih => simpa [List.append_assoc] using ih.snoc hstep

theorem cons (h : step s e t) (hr : Run step t es u) : Run step s (e :: es) u :=
  (single h).append hr

theorem nil_iff : Run step s [] t ↔ t = s := by
  constructor
  · intro h
    generalize hes : ([] : List ε) = es at h
    cases h with
    | nil => rfl
    | snoc => simp at hes
  · rintro rfl
    exact nil

theorem snoc_iff : Run step s (es ++ [e]) u ↔ ∃ t, Run step s es t ∧ step t e u := by
  constructor
  · intro h
    generalize hes : es ++ [e] = l at h
    cases h with
    | nil => simp at hes
    | snoc hrun hstep =>
        obtain ⟨rfl, heq⟩ := List.append_inj' hes rfl
        cases heq
        exact ⟨_, hrun, hstep⟩
  · rintro ⟨t, hrun, hstep⟩
    exact hrun.snoc hstep

theorem split {u : σ} (h : Run step s (es ++ fs) u) :
    ∃ t, Run step s es t ∧ Run step t fs u := by
  induction fs using List.reverseRecOn generalizing u with
  | nil => exact ⟨u, by simpa using h, nil⟩
  | append_singleton fs e ih =>
      rw [← List.append_assoc, snoc_iff] at h
      obtain ⟨v, hrun, hstep⟩ := h
      obtain ⟨t, h₁, h₂⟩ := ih hrun
      exact ⟨t, h₁, h₂.snoc hstep⟩

theorem split_cons (h : Run step s (e :: es) u) : ∃ t, step s e t ∧ Run step t es u := by
  rw [← List.singleton_append] at h
  obtain ⟨t, h₁, h₂⟩ := split h
  rw [← List.nil_append [e], snoc_iff] at h₁
  obtain ⟨s', h₀, hstep⟩ := h₁
  rw [nil_iff] at h₀
  exact ⟨t, h₀ ▸ hstep, h₂⟩

theorem invariant (Inv : σ → Prop) (hrun : Run step s es t) (hinit : Inv s)
    (hstep : ∀ a e b, step a e b → Inv a → Inv b) : Inv t := by
  induction hrun with
  | nil => exact hinit
  | snoc _ h ih => exact hstep _ _ _ h ih

theorem exists_step (Inv : σ → Prop) (hrun : Run step s es t) (hinit : Inv s)
    (hstep : ∀ a e b, step a e b → Inv a → Inv b) : ∀ e ∈ es, ∃ a b, Inv a ∧ step a e b := by
  induction hrun with
  | nil => simp
  | @snoc es t u e hrun h ih =>
      intro e' he'
      rcases List.mem_append.mp he' with hmem | hmem
      · exact ih e' hmem
      · rw [List.mem_singleton] at hmem
        subst hmem
        exact ⟨t, u, hrun.invariant Inv hinit hstep, h⟩

theorem of_foldlM {next : σ → ε → Option σ} (h : ∀ a e b, next a e = some b → step a e b)
    (hnext : es.foldlM next s = some t) : Run step s es t := by
  induction es generalizing s with
  | nil =>
      cases hnext
      exact nil
  | cons e es ih =>
      rw [List.foldlM_cons] at hnext
      obtain ⟨u, hu, hrest⟩ := Option.bind_eq_some_iff.mp hnext
      exact cons (h s e u hu) (ih hrest)

theorem mono (hrun : Run step s es t) (h : ∀ a e b, step a e b → step' a e b) :
    Run step' s es t := by
  induction hrun with
  | nil => exact nil
  | snoc _ hs ih => exact ih.snoc (h _ _ _ hs)

/-- A simulation: where an invariant holds, a step is one of another system on what `f` reads off
the states, with the label `g` makes of its label; or `g` makes nothing of it, and `f` sees no
change. -/
theorem simulate {τ δ : Type*} {other : τ → δ → τ → Prop} {f : σ → τ} {g : ε → Option δ}
    (Inv : σ → Prop) (hrun : Run step s es t) (hinit : Inv s)
    (hstep : ∀ a e b, step a e b → Inv a → Inv b)
    (hsome : ∀ a e b m, step a e b → Inv a → g e = some m → other (f a) m (f b))
    (hnone : ∀ a e b, step a e b → Inv a → g e = none → f b = f a) :
    Run other (f s) (es.filterMap g) (f t) := by
  induction hrun with
  | nil => exact nil
  | @snoc es t u e hrun hs ih =>
      have hinv : Inv t := hrun.invariant Inv hinit hstep
      rw [List.filterMap_append]
      cases hg : g e with
      | some m =>
          rw [List.filterMap_cons_some hg, List.filterMap_nil]
          exact ih.snoc (hsome _ _ _ _ hs hinv hg)
      | none =>
          rw [List.filterMap_cons_none hg, List.filterMap_nil, List.append_nil,
            hnone _ _ _ hs hinv hg]
          exact ih

theorem guard {C : σ → ε → Prop} (hrun : Run step s es t) (h : ∀ e ∈ es, ∀ a, C a e) :
    Run (Guarded step C) s es t := by
  induction hrun with
  | nil => exact nil
  | @snoc es t u e _ hs ih =>
      have hlast : C t e := h e (List.mem_append_right _ (List.mem_singleton_self e)) t
      refine (ih ?_).snoc ⟨hs, hlast⟩
      intro f hf
      exact h f (List.mem_append_left _ hf)

/-- Two conditions on steps that agree where an invariant holds, and keep it, admit the same
runs. -/
theorem and_iff {A B : σ → ε → σ → Prop} (Inv : σ → Prop) (hinit : Inv s)
    (hiff : ∀ a e b, step a e b → Inv a → (A a e b ↔ B a e b))
    (hkeep : ∀ a e b, step a e b → Inv a → A a e b → Inv b) :
    Run (fun a e b => step a e b ∧ A a e b) s es t ↔
      Run (fun a e b => step a e b ∧ B a e b) s es t := by
  constructor
  · intro hrun
    have hboth : Run (fun a e b => step a e b ∧ B a e b) s es t ∧ Inv t := by
      induction hrun with
      | nil => exact ⟨nil, hinit⟩
      | snoc _ hs ih =>
          obtain ⟨hstep, hA⟩ := hs
          exact ⟨ih.1.snoc ⟨hstep, (hiff _ _ _ hstep ih.2).mp hA⟩, hkeep _ _ _ hstep ih.2 hA⟩
    exact hboth.1
  · intro hrun
    have hboth : Run (fun a e b => step a e b ∧ A a e b) s es t ∧ Inv t := by
      induction hrun with
      | nil => exact ⟨nil, hinit⟩
      | snoc _ hs ih =>
          obtain ⟨hstep, hB⟩ := hs
          have hA := (hiff _ _ _ hstep ih.2).mpr hB
          exact ⟨ih.1.snoc ⟨hstep, hA⟩, hkeep _ _ _ hstep ih.2 hA⟩
    exact hboth.1

/-- A quantity that each step changes by an amount its label shows changes over a run by the sum of
those amounts. -/
theorem sum_eq {M : Type*} [AddMonoid M] {f : σ → M} {g : ε → M} (hrun : Run step s es t)
    (h : ∀ a e b, step a e b → f b = f a + g e) : f t = f s + (es.map g).sum := by
  induction hrun with
  | nil => simp
  | snoc _ hs ih => rw [h _ _ _ hs, ih]; simp [add_assoc]

theorem counted (hrun : Run step s es t) (g : σ → ε → σ → ℕ) (n : ℕ) :
    ∃ m, Run (Counted step g) (s, n) es (t, m) := by
  induction hrun with
  | nil => exact ⟨n, nil⟩
  | @snoc es t u e _ hs ih =>
      obtain ⟨m, hm⟩ := ih
      exact ⟨m + g t e u, hm.snoc ⟨hs, rfl⟩⟩

theorem observed {α : Type*} (hrun : Run step s es t) (f : σ → α) :
    ∃ ms, Run (Observed step f) s ms t ∧ ms.map Prod.snd = es := by
  induction hrun with
  | nil => exact ⟨[], nil, rfl⟩
  | @snoc es t u e _ hs ih =>
      obtain ⟨ms, hms, hmap⟩ := ih
      refine ⟨ms ++ [(f t, e)], hms.snoc ⟨rfl, hs⟩, ?_⟩
      rw [List.map_append, hmap]
      rfl

theorem observed_of_foldlM {α : Type*} {f : σ → α} {next : σ → ε → Option σ}
    (h : ∀ a e b, next a e = some b → step a e b) {ms ms' : List (α × ε)}
    (hnext : es.foldlM (fun x e => (next x.2 e).map fun b => (x.1 ++ [(f x.2, e)], b)) (ms, s)
      = some (ms', t)) : ∃ fs, ms' = ms ++ fs ∧ Run (Observed step f) s fs t := by
  induction es generalizing ms s with
  | nil =>
      cases hnext
      exact ⟨[], by simp, nil⟩
  | cons e es ih =>
      rw [List.foldlM_cons] at hnext
      obtain ⟨x, hx, hrest⟩ := Option.bind_eq_some_iff.mp hnext
      obtain ⟨b, hb, rfl⟩ := Option.map_eq_some_iff.mp hx
      obtain ⟨fs, rfl, hrun⟩ := ih hrest
      exact ⟨(f s, e) :: fs, by simp, cons ⟨rfl, h _ _ _ hb⟩ hrun⟩

theorem of_observe {α : Type*} {f : σ → α} {next : σ → ε → Option σ}
    (h : ∀ a e b, next a e = some b → step a e b) {ms : List (α × ε)}
    (hnext : observe f next s es = some (ms, t)) : Run (Observed step f) s ms t := by
  obtain ⟨fs, hfs, hrun⟩ := observed_of_foldlM h hnext
  rw [List.nil_append] at hfs
  exact hfs ▸ hrun

end Run

end Transition
