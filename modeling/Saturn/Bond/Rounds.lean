import Saturn.Bond.Redemption

/-!
# A second bond

`ApplyBond` declares the escrow with `init_if_needed`, which lets an existing one through, and the
handler then takes it with `load_init`, which fails on an account whose discriminator is set.
`finish_bond` sets `is_finished` to `2` and leaves the account in place. So the escrow of a redeemed
bond bars its user from every further bond, whatever the call offers (`bonds_again_never`).
-/

namespace Saturn

open Machine Transition Function

variable {F : Type} [F64 F] {d : Deployment} {w₀ w w' : World F} {e f g : Event F} {c : Call F}
  {es : List (Event F)} {u : Pubkey} {esc : Escrow} {a : ApplyBond} {args : ApplyBondArgs}

/-- The call is accepted and opens a bond of `u`. -/
def OpensBond (d : Deployment) (w : World F) (c : Call F) (u : Pubkey) : Prop :=
  ∃ y esc, c.process d w = .ok y ∧ y.world.escrows u = some esc ∧ esc.isFinished = 1

omit [F64 F] in
/-- The world as it would be if `u` had no escrow. -/
@[simps] def World.withoutEscrow (w : World F) (u : Pubkey) : World F :=
  { w with escrows := update w.escrows u none }

theorem ApplyBond.handle_refuses {env : Env} {x : Exec F}
    (h : x.world.escrows a.creator = some esc) :
    a.handle d env args x = .error (.anchor .accountDiscriminatorAlreadySet) := by
  have hfresh : ¬ x.world.escrows a.creator = none := by
    rw [h]
    exact Option.some_ne_none esc
  simp only [ApplyBond.handle, require, if_neg hfresh]
  rfl

theorem not_opensBond (h : w.escrows u = some esc) (hc : c.instruction = .applyBond a args)
    (ha : a.creator = u) : c.perform d w = .error (.anchor .accountDiscriminatorAlreadySet) ∧
      ¬ OpensBond d w c u := by
  have hrefused : c.perform d w = .error (.anchor .accountDiscriminatorAlreadySet) := by
    rw [Call.perform, hc]
    exact ApplyBond.handle_refuses (ha ▸ h)
  refine ⟨hrefused, ?_⟩
  rintro ⟨y, -, hy, -⟩
  have hstep : Step d w ⟨c, y.trace⟩ y.world := hy
  have haccepted : c.perform d w = .ok ⟨y.world, y.trace⟩ := hstep.handlerStep
  rw [hrefused] at haccepted
  cases haccepted

/-- A bond that was finished leaves its escrow behind for the rest of the history. -/
theorem Run.escrow_of_finished (hrun : Run (HandlerStep d) w₀ es w) (hf : f ∈ es)
    (hfin : f.FinishesBond u) : ∃ esc, w.escrows u = some esc ∧ esc.isFinished = 2 := by
  obtain ⟨p, q, rfl⟩ := List.append_of_mem hf
  obtain ⟨v, -, hrest⟩ := hrun.split
  obtain ⟨v', hstep, hq⟩ := hrest.split_cons
  obtain ⟨-, esc, -, -, -, -, -, hclosed, -⟩ := hstep.finish hfin
  exact ⟨_, (Run.escrow_closed hq hclosed rfl).1, rfl⟩

/-- After a bond of `u` was applied for, no other one is. -/
theorem Run.applies_once {p q : List (Event F)} (hrun : Run (HandlerStep d) w₀ (p ++ g :: q) w)
    (hg : g.AppliesBond u) : ∀ h ∈ q, ¬ h.AppliesBond u := by
  obtain ⟨v, -, hrest⟩ := hrun.split
  obtain ⟨v', hstep, hq⟩ := hrest.split_cons
  obtain ⟨-, esc, hesc, -⟩ := hstep.apply hg
  exact (Run.escrow_open hq hesc).1

/-- In every history in which a bond of `u` was finished, and in every state it leads to, no
`apply_bond` of `u` is accepted any more, with whatever arguments, balances and prices; and no
history has two of them. -/
theorem bonds_again_never (hrun : Run (Step d) w₀ es w) (hf : f ∈ es) (hfin : f.FinishesBond u) :
    (∀ (c : Call F) (a : ApplyBond) (args : ApplyBondArgs), c.instruction = .applyBond a args →
      a.creator = u → c.perform d w = .error (.anchor .accountDiscriminatorAlreadySet) ∧
        ¬ OpensBond d w c u) ∧
    ∀ p g q, es = p ++ g :: q → g.AppliesBond u → ∀ h ∈ q, ¬ h.AppliesBond u := by
  have hhandler : Run (HandlerStep d) w₀ es w := hrun.mono fun _ _ _ => Step.handlerStep
  obtain ⟨esc, hesc, -⟩ := Run.escrow_of_finished hhandler hf hfin
  refine ⟨?_, ?_⟩
  · intro c a args hc ha
    exact not_opensBond hesc hc ha
  · rintro p g q rfl hg
    exact Run.applies_once hhandler hg

/-! ### A round and a second bond -/

/-- After one round the second bond of user `1` is refused. -/
theorem bonds_again_never_small : ∃ (es : List (Event ℚ)) (w : World ℚ),
    es.map Event.call = [usdcBond 0 100 50 200, stfFinish 1209600] ∧
      Run (Step (smallDeployment .release)) smallWorld es w ∧
      (usdcBond 1209600 100 50 200).perform (smallDeployment .release) w
        = .error (.anchor .accountDiscriminatorAlreadySet) := by
  obtain ⟨es, w, hrun, hcalls, -⟩ := exists_run_of_replay
    (fun c w => c.process (smallDeployment .release) w) smallWorld
    [usdcBond 0 100 50 200, stfFinish 1209600] (fun _ _ => true) (by decide +kernel)
  obtain ⟨e, f, rfl, -, hf⟩ : ∃ e f, es = [e, f] ∧ e.call = usdcBond 0 100 50 200 ∧
      f.call = stfFinish 1209600 := by
    simpa [List.map_eq_cons_iff, and_assoc] using hcalls
  have hfinish : f.FinishesBond 1 := ⟨_, by rw [hf]; rfl, rfl⟩
  have hmem : f ∈ [e, f] := by simp
  exact ⟨[e, f], w, hcalls, hrun, ((bonds_again_never hrun hmem hfinish).1 _ _ _ rfl rfl).1⟩

/-- After one round a bond that would open one for a user without an escrow opens none for user
`1`. -/
theorem second_bond_refused : ∃ (es : List (Event ℚ)) (w : World ℚ) (esc : Escrow),
    es.map Event.call = [usdcBond 0 100 50 200, stfFinish 1209600] ∧
      Run (Step (smallDeployment .release)) smallWorld es w ∧
      w.escrows 1 = some esc ∧ esc.isFinished = 2 ∧
      OpensBond (smallDeployment .release) (w.withoutEscrow 1) (usdcBond 1209600 100 50 200) 1 ∧
      ¬ OpensBond (smallDeployment .release) w (usdcBond 1209600 100 50 200) 1 := by
  obtain ⟨es, w, hrun, hcalls, hp⟩ := exists_run_of_replay
    (fun c w => c.process (smallDeployment .release) w) smallWorld
    [usdcBond 0 100 50 200, stfFinish 1209600]
    (fun _ w => (w.escrows 1).any (fun esc => esc.isFinished == 2) &&
      ((usdcBond 1209600 100 50 200).process (smallDeployment .release)
        (w.withoutEscrow 1)).toOption.any fun y =>
          (y.world.escrows 1).any fun esc => esc.isFinished == 1) (by decide +kernel)
  rw [Bool.and_eq_true, Option.any_eq_true] at hp
  obtain ⟨⟨esc, hesc, hclosed⟩, hopens⟩ := hp
  obtain ⟨y, hy, hopen⟩ := exists_eq_ok _ hopens
  obtain ⟨esc', hesc', hone⟩ := (Option.any_eq_true _ _).mp hopen
  refine ⟨es, w, esc, hcalls, hrun, hesc, eq_of_beq hclosed, ⟨y, esc', hy, hesc', eq_of_beq hone⟩,
    ?_⟩
  exact (not_opensBond hesc rfl rfl).2

end Saturn
