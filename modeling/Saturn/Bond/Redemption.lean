import Saturn.Program

/-!
# A bond is redeemed once

The escrow of a user goes through three states: there is none, it is open (`is_finished = 1`) after
`apply_bond`, and closed (`is_finished = 2`) after `finish_bond`. `Step.escrow_cases` says what an
accepted call of anybody does to the escrow of `u`; the run lemmas follow an open and a closed
escrow through a history. Nothing leads out of the closed state, and no second bond is ever applied
for.
-/

namespace Saturn

open Machine Transition

variable {F : Type} [F64 F] {d : Deployment} {w w' : World F} {e f : Event F}
  {es : List (Event F)} {u : Pubkey} {esc : Escrow}

/-! ## Events about the escrow of a user -/

namespace Event

omit [F64 F]

/-- `e` is an `apply_bond` whose escrow is that of `u`. -/
def AppliesBond (u : Pubkey) (e : Event F) : Prop :=
  ∃ a args, e.call.instruction = .applyBond a args ∧ a.creator = u

/-- `e` is a `finish_bond` whose escrow is that of `u`. -/
def FinishesBond (u : Pubkey) (e : Event F) : Prop :=
  ∃ a, e.call.instruction = .finishBond a ∧ a.user = u

def timestamp (e : Event F) : ℤ := e.call.env.clock.unixTimestamp.toInt

end Event

/-- `esc` is what an accepted `apply_bond` of `u` at `e` leaves. -/
structure OpenedBy (e : Event F) (u : Pubkey) (esc : Escrow) : Prop where
  isFinished : esc.isFinished = 1
  creator : esc.creator = u
  endTimestamp : esc.endTimestamp = e.call.env.clock.unixTimestamp + 60 * 60 * 24 * 14

/-! ## One step -/

/-- An accepted `finish_bond` closes the open escrow of its user. -/
theorem HandlerStep.finish (h : HandlerStep d w e w') (he : e.FinishesBond u) :
    ∃ a esc, e.call.instruction = .finishBond a ∧ a.user = u ∧ w.escrows u = some esc ∧
      esc.isFinished = 1 ∧ esc.endTimestamp ≤ e.call.env.clock.unixTimestamp ∧
      w'.escrows u = some (esc.setIsFinished 2) ∧
      e.trace = [⟨a.redemption d esc.numTokenToRedeem, true⟩] := by
  obtain ⟨a, hi, rfl⟩ := he
  obtain ⟨esc, l, hesc, hend, -, hopen, -, hy⟩ := FinishBond.handle_eq_ok.mp (h.handle_eq hi)
  have hw := congrArg Exec.world hy
  have ht := congrArg Exec.trace hy
  simp at hw ht
  refine ⟨a, esc, hi, rfl, hesc, hopen, hend, ?_, ht⟩
  rw [hw]
  simp

/-- An accepted `apply_bond` finds no escrow and opens one. -/
theorem HandlerStep.apply (h : HandlerStep d w e w') (he : e.AppliesBond u) :
    w.escrows u = none ∧ ∃ esc, w'.escrows u = some esc ∧ OpenedBy e u esc := by
  obtain ⟨a, args, hi, rfl⟩ := he
  obtain ⟨s, hs, hy⟩ := ApplyBond.handle_eq_ok.mp (h.handle_eq hi)
  have hw := congrArg Exec.world hy
  simp at hw
  obtain ⟨hend, -⟩ := Profile.addI64_eq_ok.mp hs.ends
  refine ⟨hs.fresh, s.escrow a e.call.env args, ?_, rfl, rfl, hend⟩
  rw [hw]
  simp

/-- Every other accepted call leaves the escrow of `u` alone. -/
theorem HandlerStep.escrow_eq (h : HandlerStep d w e w') (ha : ¬ e.AppliesBond u)
    (hf : ¬ e.FinishesBond u) : w'.escrows u = w.escrows u := by
  have hframe := Instruction.handle_frame h
  cases hi : e.call.instruction with
  | applyBond a args =>
      have hne : u ≠ a.creator := fun hu => ha ⟨a, args, hi, hu.symm⟩
      obtain ⟨s, -, hy⟩ := ApplyBond.handle_eq_ok.mp (h.handle_eq hi)
      have hw := congrArg Exec.world hy
      simp at hw
      rw [hw]
      exact Function.update_of_ne hne _ _
  | finishBond a =>
      have hne : u ≠ a.user := fun hu => hf ⟨a, hi, hu.symm⟩
      obtain ⟨esc, l, -, -, -, -, -, hy⟩ := FinishBond.handle_eq_ok.mp (h.handle_eq hi)
      have hw := congrArg Exec.world hy
      simp at hw
      rw [hw]
      exact Function.update_of_ne hne _ _
  | _ =>
      rw [hi] at hframe
      exact congrFun (hframe.escrows (by simp [Instruction.writes])) u

/-! ## Histories -/

/-- A closed escrow stays as it is, and nobody applies for or finishes another bond of `u`. -/
theorem Run.escrow_closed (hrun : Run (HandlerStep d) w es w') (hesc : w.escrows u = some esc)
    (hclosed : esc.isFinished = 2) :
    w'.escrows u = some esc ∧ ∀ f ∈ es, ¬ f.AppliesBond u ∧ ¬ f.FinishesBond u := by
  induction hrun with
  | nil => exact ⟨hesc, by simp⟩
  | @snoc es t v e hrun hstep ih =>
      obtain ⟨hcur, hnone⟩ := ih
      have ha : ¬ e.AppliesBond u := by
        intro ha
        obtain ⟨hempty, -⟩ := hstep.apply ha
        rw [hcur] at hempty
        cases hempty
      have hf : ¬ e.FinishesBond u := by
        intro hf
        obtain ⟨_, esc', -, -, hesc', hopen, -⟩ := hstep.finish hf
        rw [hcur] at hesc'
        cases hesc'
        rw [hclosed] at hopen
        cases hopen
      refine ⟨(hstep.escrow_eq ha hf).trans hcur, ?_⟩
      intro f hmem
      rcases List.mem_append.mp hmem with hmem | hmem
      · exact hnone f hmem
      · rw [List.mem_singleton] at hmem
        exact hmem ▸ ⟨ha, hf⟩

/-- An open escrow stays as it is until it is finished, and nobody applies for another bond of
`u`. -/
theorem Run.escrow_open (hrun : Run (HandlerStep d) w es w') (hesc : w.escrows u = some esc) :
    (∀ f ∈ es, ¬ f.AppliesBond u) ∧
      (w'.escrows u = some esc ∧ (∀ f ∈ es, ¬ f.FinishesBond u) ∨
        w'.escrows u = some (esc.setIsFinished 2) ∧ ∃ f ∈ es, f.FinishesBond u) := by
  induction hrun with
  | nil => exact ⟨by simp, .inl ⟨hesc, by simp⟩⟩
  | @snoc es t v e hrun hstep ih =>
      obtain ⟨hnone, hcase⟩ := ih
      have hsome : ∃ esc', t.escrows u = some esc' := by
        rcases hcase with ⟨h, -⟩ | ⟨h, -⟩
        · exact ⟨_, h⟩
        · exact ⟨_, h⟩
      -- whether still open or closed, the escrow is there, so `load_init` refuses another
      have ha : ¬ e.AppliesBond u := by
        intro ha
        obtain ⟨hempty, -⟩ := hstep.apply ha
        obtain ⟨esc', hesc'⟩ := hsome
        rw [hesc'] at hempty
        cases hempty
      refine ⟨?_, ?_⟩
      · intro f hmem
        rcases List.mem_append.mp hmem with hmem | hmem
        · exact hnone f hmem
        · rw [List.mem_singleton] at hmem
          exact hmem ▸ ha
      · rcases hcase with ⟨hcur, hno⟩ | ⟨hcur, g, hg, hgfin⟩
        · by_cases hf : e.FinishesBond u
          · obtain ⟨_, esc', -, -, hesc', -, -, hv, -⟩ := hstep.finish hf
            rw [hcur] at hesc'
            cases hesc'
            exact .inr ⟨hv, e, by simp, hf⟩
          · refine .inl ⟨(hstep.escrow_eq ha hf).trans hcur, ?_⟩
            intro f hmem
            rcases List.mem_append.mp hmem with hmem | hmem
            · exact hno f hmem
            · rw [List.mem_singleton] at hmem
              exact hmem ▸ hf
        · -- already closed: the rest of the history is one of a closed escrow
          have hlast := Run.escrow_closed (.single hstep) hcur rfl
          exact .inr ⟨hlast.1, g, List.mem_append_left _ hg, hgfin⟩

/-! ## The life of a bond -/

/-- The account an accepted `finish_bond` of `u` mints to belongs to `u`. -/
theorem Step.finish_dest (h : Step d w f w') {a : FinishBond}
    (hi : f.call.instruction = .finishBond a) :
    ∃ acc, w.ledger.tokenAccount a.destStfAccount = some acc ∧ acc.owner = a.user := by
  obtain ⟨hc, -⟩ := step_iff.mp h
  rw [hi] at hc
  simp only [Instruction.constraints, FinishBond.constraints, bind_eq_ok,
    requireTokenAccount_eq_ok] at hc
  obtain ⟨_, -, _, ⟨acc, hacc, -, howner⟩, -⟩ := hc
  exact ⟨acc, hacc, howner⟩

omit [F64 F] in
theorem OpenedBy.endTimestamp_toInt (h : OpenedBy e u esc) (hclock : e.timestamp ≤ 2 ^ 62) :
    esc.endTimestamp.toInt = e.timestamp + 1209600 := by
  have hlow := e.call.env.clock.unixTimestamp.le_toInt
  have hdays : (60 * 60 * 24 * 14 : Int64).toInt = 1209600 := by decide
  rw [Event.timestamp] at hclock ⊢
  rw [h.endTimestamp, toInt_add_of_fits, hdays]
  rw [hdays, fitsI64, decide_eq_true_eq]
  omega

/-- In every run, an accepted `apply_bond` of `u` opens an escrow `esc` that nobody changes until it
is finished. It is finished at most once, two weeks later at the earliest, by minting the recorded
amount to an account of `u`; and `u` applies for no other bond. -/
theorem bond_redeemed_once {w₀ : World F} {es₁ es₂ : List (Event F)}
    (hrun : Run (Step d) w₀ (es₁ ++ e :: es₂) w) (he : e.AppliesBond u)
    (hclock : e.timestamp ≤ 2 ^ 62) :
    ∃ w₁ w₂ esc, Run (Step d) w₀ es₁ w₁ ∧ Step d w₁ e w₂ ∧
      w₂.escrows u = some esc ∧ esc.creator = u ∧
      (∀ f ∈ es₂, ¬ f.AppliesBond u) ∧
      ∀ p f q, es₂ = p ++ f :: q → f.FinishesBond u →
        (∀ g ∈ p ++ q, ¬ g.FinishesBond u) ∧
        (∀ p₁ p₂ v, p = p₁ ++ p₂ → Run (Step d) w₂ p₁ v → v.escrows u = some esc) ∧
        (∃ a v acc, f.call.instruction = .finishBond a ∧ Run (Step d) w₂ p v ∧
          v.ledger.tokenAccount a.destStfAccount = some acc ∧ acc.owner = u ∧
          f.trace = [⟨a.redemption d esc.numTokenToRedeem, true⟩]) ∧
        e.timestamp + 1209600 ≤ f.timestamp := by
  obtain ⟨w₁, hrun₁, hrest⟩ := hrun.split
  obtain ⟨w₂, hstep, hrun₂⟩ := hrest.split_cons
  obtain ⟨-, esc, hesc, hopened⟩ := hstep.handlerStep.apply he
  have hhandler : ∀ {v v' : World F} {l}, Run (Step d) v l v' → Run (HandlerStep d) v l v' :=
    fun h => h.mono fun _ _ _ => Step.handlerStep
  refine ⟨w₁, w₂, esc, hrun₁, hstep, hesc, hopened.creator,
    (Run.escrow_open (hhandler hrun₂) hesc).1, ?_⟩
  intro p f q hsplit hfin
  rw [hsplit] at hrun₂
  obtain ⟨v, hp, hrest₂⟩ := hrun₂.split
  obtain ⟨v', hf, hq⟩ := hrest₂.split_cons
  obtain ⟨a, esc', hi, hu, hesc', hisopen, hend, hclosed, htrace⟩ := hf.handlerStep.finish hfin
  -- before `f` the escrow is the one `e` opened: a closed one could not be finished
  obtain ⟨hcur, hnone⟩ : v.escrows u = some esc ∧ ∀ g ∈ p, ¬ g.FinishesBond u := by
    rcases (Run.escrow_open (hhandler hp) hesc).2 with h | ⟨h, -⟩
    · exact h
    · rw [h] at hesc'
      cases hesc'
      cases hisopen
  rw [hcur] at hesc'
  cases hesc'
  have hafter := Run.escrow_closed (hhandler hq) hclosed rfl
  refine ⟨?_, ?_, ?_, ?_⟩
  · intro g hg
    rcases List.mem_append.mp hg with hg | hg
    · exact hnone g hg
    · exact (hafter.2 g hg).2
  · rintro p₁ p₂ z rfl hz
    rcases (Run.escrow_open (hhandler hz) hesc).2 with ⟨h, -⟩ | ⟨-, g, hg, hgfin⟩
    · exact h
    · exact absurd hgfin (hnone g (List.mem_append_left _ hg))
  · obtain ⟨acc, hacc, howner⟩ := hf.finish_dest hi
    exact ⟨a, v, acc, hi, hp, hacc, howner.trans hu, htrace⟩
  · have hle := Int64.le_iff_toInt_le.mp hend
    rw [hopened.endTimestamp_toInt hclock] at hle
    exact hle

/-- A bond bought at time `0` and finished two weeks later. -/
theorem bond_redeemed_once_small : ∃ e f : Event ℚ, e.AppliesBond 1 ∧ f.FinishesBond 1 ∧
    e.timestamp + 1209600 ≤ f.timestamp := by
  obtain ⟨es, w, hrun, hcalls, -⟩ := exists_run_of_replay
    (fun c w => c.process (smallDeployment .release) w) smallWorld
    [usdcBond 0 100 50 200, stfFinish 1209600] (fun _ _ => true) (by decide +kernel)
  obtain ⟨e, f, rfl, he, hf⟩ : ∃ e f, es = [e, f] ∧ e.call = usdcBond 0 100 50 200 ∧
      f.call = stfFinish 1209600 := by
    simpa [List.map_eq_cons_iff, and_assoc] using hcalls
  have happly : e.AppliesBond 1 := ⟨_, _, by rw [he]; rfl, rfl⟩
  have hfinish : f.FinishesBond 1 := ⟨_, by rw [hf]; rfl, rfl⟩
  have hclock : e.timestamp ≤ 2 ^ 62 := by
    rw [Event.timestamp, he]
    decide
  have hrun' : Run (Step (smallDeployment .release)) smallWorld ([] ++ e :: [f]) w := hrun
  obtain ⟨_, _, _, -, -, -, -, -, h⟩ := bond_redeemed_once hrun' happly hclock
  exact ⟨e, f, happly, hfinish, (h [] f [] rfl hfinish).2.2.2⟩

end Saturn
