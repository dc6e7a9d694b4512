import Saturn.Program

/-!
# What a bond costs

`apply_bond` multiplies `token_amount` by the base units of one token to get the payment, and by the
price to get what the treasury is credited with. The payment is a `u64` product: it is the exact one
precisely when that fits. Beyond, the creator pays the remainder and is credited in full.
-/

namespace Saturn

open Machine

variable {F : Type} [F64 F]

namespace Collateral

def factor : Collateral → ℕ
  | .sol => 10 ^ 9
  | .usdc => 10 ^ 6
  | .bonk => 10 ^ 3

theorem toNat_scale (c : Collateral) : c.scale.toNat = c.factor := by
  cases c <;> rfl

end Collateral

namespace ApplyBond

variable {a : ApplyBond} {d : Deployment} {env : Env} {args : ApplyBondArgs} {x y : Exec F}
  {c : Collateral}

theorem payment_inj {n m : UInt64} (h : a.payment d c n = a.payment d c m) : n = m := by
  cases c <;> simpa [payment] using h

/-- An accepted bond makes two CPIs, of which the first pays `token_amount` times the scale,
wrapped. -/
theorem trace_of_handle (h : a.handle d env args x = .ok y)
    (hc : Collateral.ofMint a.tokenMintAddress = some c) :
    ∃ r, y.trace =
      x.trace ++ [⟨⟨a.payment d c (args.tokenAmount * c.scale), []⟩, true⟩, r] := by
  obtain ⟨s, hs, rfl⟩ := handle_eq_ok.mp h
  have hcoll : s.collateral = c := Option.some.inj (hs.collateral.symm.trans hc)
  refine ⟨⟨a.reward d (s.terms.numTokenToMint * 100), true⟩, ?_⟩
  rw [← hcoll]
  rfl

/-- An accepted bond moves exactly the price of `token_amount` tokens in base units if and only if
that number is one of `u64`. -/
theorem payment_exact_iff (h : a.handle d env args x = .ok y)
    (hc : Collateral.ofMint a.tokenMintAddress = some c) :
    (∃ n r, y.trace = x.trace ++ [⟨⟨a.payment d c n, []⟩, true⟩, r] ∧
      n.toNat = args.tokenAmount.toNat * c.factor) ↔
        args.tokenAmount.toNat * c.factor < 2 ^ 64 := by
  obtain ⟨r, htrace⟩ := trace_of_handle h hc
  rw [← c.toNat_scale]
  constructor
  · rintro ⟨n, r', htrace', hn⟩
    rw [htrace, List.append_cancel_left_eq] at htrace'
    have hpay : a.payment d c (args.tokenAmount * c.scale) = a.payment d c n := by
      simp only [List.cons.injEq, CpiRecord.mk.injEq, Cpi.mk.injEq] at htrace'
      exact htrace'.1.1.1
    rw [← payment_inj hpay] at hn
    exact toNat_mul_eq_iff.mp hn
  · intro hlt
    exact ⟨_, r, htrace, toNat_mul_of_lt hlt⟩

end ApplyBond

/-- Fifty USDC are paid with fifty million base units. -/
theorem payment_exact_iff_small :
    ∃ y, (usdcBond 0 100 50 200).perform (smallDeployment .release) smallWorld = .ok y ∧
      ∃ n r, y.trace = [⟨⟨.transfer 11 12 1 n, []⟩, true⟩, r] ∧ n.toNat = 50 * 10 ^ 6 := by
  obtain ⟨y, hy⟩ := exists_ok
    (show ((usdcBond 0 100 50 200).perform (smallDeployment .release)
      smallWorld).toOption.isSome = true by decide +kernel)
  exact ⟨y, hy, (ApplyBond.payment_exact_iff (c := .usdc) hy rfl).mpr (by decide)⟩

/-- `2 ^ 58` USDC are paid with nothing, and the treasury is credited with their price. -/
theorem payment_of_wrapped_amount :
    ∃ y,
      (usdcBond 0 1 288230376151711744 200).perform (smallDeployment .release) smallWorld = .ok y ∧
      (y.trace.map fun r => r.cpi.instruction).head? = some (.transfer 11 12 1 0) ∧
      y.world.treasury.treasuryValue = 1000 + 2 ^ 58 := by
  obtain ⟨y, hy, hp⟩ := exists_eq_ok (fun y : Exec ℚ =>
      decide ((y.trace.map fun r => r.cpi.instruction).head? = some (.transfer 11 12 1 0)) &&
        decide (y.world.treasury.treasuryValue = 1000 + 2 ^ 58))
    (show ((usdcBond 0 1 288230376151711744 200).perform (smallDeployment .release)
      smallWorld).toOption.any _ = true by decide +kernel)
  rw [Bool.and_eq_true, decide_eq_true_eq, decide_eq_true_eq] at hp
  exact ⟨y, hy, hp⟩

end Saturn
