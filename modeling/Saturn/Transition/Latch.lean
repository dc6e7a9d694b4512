import Saturn.Transition.Run

/-!
# Flags that record a history

A flag that no step lowers is a latch: once it is up it stays up. A step that waits for it to be
down and raises it happens at most once (`Run.countP_add_le`). And a flag that is up although it
started down was raised by a step that raises it (`Run.exists_raised`), so what waits for the flag
comes after such a step.

A flag that steps may lower too is up where the last step that did not leave it alone raised it
(`Run.flag_iff_last`). A register that the first of a series of steps writes shows since when the
series goes on (`Run.register_iff_since`).
-/

namespace Transition

variable {σ ε : Type*} {step : σ → ε → σ → Prop}

/-- Of a run: a step of that time is taken where the condition and `fresh` hold, and every later
step that has a time finds the condition. -/
def Since {α : Type*} (step : σ → ε → σ → Prop) (time : ε → Option α) (cond fresh : σ → Prop)
    (v : α) (s : σ) (es : List ε) (t : σ) : Prop :=
  ∃ p e q a b, es = p ++ e :: q ∧ Run step s p a ∧ (fresh a ∧ cond a) ∧ time e = some v ∧
    step a e b ∧
    Run (Guarded step fun a e => time e ≠ none → cond a) b q t

namespace Run

variable {s t u : σ} {es p q : List ε} {e : ε}

theorem step_of_append (hrun : Run step s (p ++ e :: q) u) :
    ∃ a b, Run step s p a ∧ step a e b ∧ Run step b q u := by
  obtain ⟨a, hp, hrest⟩ := hrun.split
  obtain ⟨b, hstep, hq⟩ := hrest.split_cons
  exact ⟨a, b, hp, hstep, hq⟩

/-- Where no step lowers the flag, the steps that find it down and raise it are at most as many as
it rose by. -/
theorem countP_add_le {marked : ε → Bool} (hrun : Run step s es t) (flag : σ → Bool)
    (hkeep : ∀ a e b, step a e b → flag a = true → flag b = true)
    (hraise : ∀ a e b, step a e b → marked e = true → flag a = false ∧ flag b = true) :
    es.countP marked + (flag s).toNat ≤ (flag t).toNat := by
  induction hrun with
  | nil => simp
  | @snoc es t u e _ hs ih =>
      rw [List.countP_append, List.countP_singleton]
      have hmono : (flag t).toNat ≤ (flag u).toNat := by
        cases hup : flag t with
        | false => exact Nat.zero_le _
        | true => exact Nat.le_of_eq (congrArg Bool.toNat (hkeep t e u hs hup)).symm
      by_cases hm : marked e = true
      · obtain ⟨hdown, hup⟩ := hraise t e u hs hm
        rw [hdown] at ih
        simp only [hm, hup, if_true, Bool.toNat_false, Bool.toNat_true] at ih ⊢
        omega
      · rw [if_neg hm]
        omega

theorem countP_le_one {marked : ε → Bool} (hrun : Run step s es t) (flag : σ → Bool)
    (hkeep : ∀ a e b, step a e b → flag a = true → flag b = true)
    (hraise : ∀ a e b, step a e b → marked e = true → flag a = false ∧ flag b = true) :
    es.countP marked ≤ 1 := by
  have hle := hrun.countP_add_le flag hkeep hraise
  have hone := (flag t).toNat_le
  omega

theorem exists_raised {raises : ε → Bool} (hrun : Run step s es t) (flag : σ → Bool)
    (h : ∀ a e b, step a e b → flag b = true → flag a = true ∨ raises e = true)
    (hdown : flag s = false) (hup : flag t = true) : ∃ e ∈ es, raises e = true := by
  induction hrun with
  | nil =>
      rw [hdown] at hup
      cases hup
  | @snoc es t u e _ hs ih =>
      rcases h t e u hs hup with hbefore | hraised
      · obtain ⟨f, hf, hraised⟩ := ih hbefore
        exact ⟨f, List.mem_append_left _ hf, hraised⟩
      · exact ⟨e, List.mem_append_right _ (List.mem_singleton_self e), hraised⟩

theorem exists_last {marked : ε → Bool} (hrun : Run step s es t) (h : ∃ e ∈ es, marked e = true) :
    ∃ p c q a b, es = p ++ c :: q ∧ marked c = true ∧ Run step s p a ∧ step a c b ∧
      Run (Guarded step fun _ e => marked e = false) b q t := by
  induction hrun with
  | nil =>
      obtain ⟨e, he, -⟩ := h
      cases he
  | @snoc es t u e hrun hs ih =>
      cases hm : marked e with
      | true => exact ⟨es, e, [], t, u, rfl, hm, hrun, hs, nil⟩
      | false =>
          obtain ⟨f, hf, hmf⟩ := h
          have hold : f ∈ es := by
            rcases List.mem_append.mp hf with hf | hf
            · exact hf
            · rw [List.mem_singleton.mp hf, hm] at hmf
              cases hmf
          obtain ⟨p, c, q, a, b, rfl, hc, hp, hstep, hq⟩ := ih ⟨f, hold, hmf⟩
          exact ⟨p, c, q ++ [e], a, b, by simp, hc, hp, hstep, hq.snoc ⟨hs, hm⟩⟩

theorem flag_iff_last {flag : σ → Prop} {raises keeps : ε → Prop} (hrun : Run step s es t)
    (h : ∀ a e b, step a e b → (flag b ↔ raises e ∨ keeps e ∧ flag a)) (hdown : ¬ flag s) :
    flag t ↔ ∃ p e q, es = p ++ e :: q ∧ raises e ∧ ∀ f ∈ q, keeps f := by
  induction hrun with
  | nil => simp [hdown]
  | @snoc es t u e _ hs ih =>
      rw [h t e u hs, ih]
      constructor
      · rintro (hraise | ⟨hkeep, p, f, q, rfl, hraise, hq⟩)
        · exact ⟨es, e, [], rfl, hraise, by simp⟩
        · refine ⟨p, f, q ++ [e], by simp, hraise, ?_⟩
          simp only [List.mem_append, List.mem_singleton]
          rintro g (hg | rfl)
          · exact hq g hg
          · exact hkeep
      · rintro ⟨p, f, q, heq, hraise, hq⟩
        rcases List.eq_nil_or_concat q with rfl | ⟨q, g, rfl⟩
        · obtain ⟨-, hlast⟩ := List.append_inj' heq rfl
          cases hlast
          exact .inl hraise
        · rw [List.concat_eq_append] at heq hq
          rw [← List.cons_append, ← List.append_assoc] at heq
          obtain ⟨rfl, hlast⟩ := List.append_inj' heq rfl
          cases hlast
          refine .inr ⟨hq e (by simp), p, f, q, rfl, hraise, ?_⟩
          intro g hg
          exact hq g (by simp [hg])

/-- A register that is written with the time of the first step to find a condition, and reset by the
next that does not find it, shows since when the condition was found by every step that looked. -/
theorem register_iff_since {α : Type*} {zero v : α} {register : σ → α} {time : ε → Option α}
    {cond : σ → Prop} (hrun : Run step s es t)
    (hkeep : ∀ a e b, step a e b → time e = none → register b = register a)
    (hreset : ∀ a e b n, step a e b → time e = some n → ¬ cond a → register b = zero)
    (hwrite : ∀ a e b n, step a e b → time e = some n → cond a → register a = zero → register b = n)
    (hhold : ∀ a e b n, step a e b → time e = some n → cond a → register a ≠ zero →
      register b = register a)
    (hzero : register s = zero) (hv : v ≠ zero) :
    register t = v ↔ Since step time cond (fun a => register a = zero) v s es t := by
  constructor
  · intro ht
    induction hrun with
    | nil => exact absurd (ht.symm.trans hzero) hv
    | @snoc es t u e hrun hs ih =>
        -- the step that wrote the register is this one, or it is held since an earlier one
        have hearlier (hguard : time e ≠ none → cond t) (hsame : register u = register t) :
            Since step time cond (fun a => register a = zero) v s (es ++ [e]) u := by
          obtain ⟨p, f, q, a, b, rfl, hp, ha, hf, hstep, hq⟩ := ih (hsame.symm.trans ht)
          exact ⟨p, f, q ++ [e], a, b, by simp, hp, ha, hf, hstep, hq.snoc ⟨hs, hguard⟩⟩
        cases he : time e with
        | none => exact hearlier (fun hne => absurd he hne) (hkeep t e u hs he)
        | some n =>
            by_cases hcond : cond t
            · by_cases hregister : register t = zero
              · have hn : n = v := (hwrite t e u n hs he hcond hregister).symm.trans ht
                exact ⟨es, e, [], t, u, rfl, hrun, ⟨hregister, hcond⟩, hn ▸ he, hs, nil⟩
              · exact hearlier (fun _ => hcond) (hhold t e u n hs he hcond hregister)
            · exact absurd (ht.symm.trans (hreset t e u n hs he hcond)) hv
  · rintro ⟨p, e, q, a, b, rfl, -, ⟨hregister, hcond⟩, he, hstep, hq⟩
    apply hq.invariant (fun x => register x = v) (hwrite a e b v hstep he hcond hregister)
    intro x f y hxy hx
    obtain ⟨hxy, hguard⟩ := hxy
    cases hf : time f with
    | none => exact (hkeep x f y hxy hf).trans hx
    | some n =>
        have hne : register x ≠ zero := hx ▸ hv
        exact (hhold x f y n hxy hf (hguard (by simp [hf])) hne).trans hx

theorem replicate (h : step s e s) (n : ℕ) : Run step s (List.replicate n e) s := by
  induction n with
  | zero => exact nil
  | succ n ih => exact ih.cons h

end Run

end Transition
