import Saturn.Rebalance.Position
import Saturn.Bond.Recount

/-!
# Tokens kept and tokens lent

A valuation adds up base units as the protocols report them; a recount turns the balances of the
treasury's own accounts into whole tokens and multiplies by price and power of ten. So the same
tokens are worth the same in both places only where the price happens to be that of one base unit
(`lending_keeps_worth_iff`). The valuation of Kamino also takes the collateral of SOL for that of
USDC: it counts SOL twice and USDC not at all.
-/

namespace Saturn

open Machine

/-! ## At a rate of one -/

theorem Reserve.redeem_at_par {r : Reserve} {p : Profile} {clock : Clock} {c n : UInt64}
    (h : r.redeemReserveCollateral p c clock = .ok n)
    (hrate : r.collateralExchangeRate p = .ok (U68F60.ofU64 1)) : n = c := by
  obtain ⟨-, -, h⟩ := redeemReserveCollateral_eq_ok.mp h
  simp only [redeemCollateral, bind_eq_ok, pure_eq_ok] at h
  obtain ⟨rate, hrate', liquidity, hliquidity, rfl⟩ := h
  obtain rfl : rate = U68F60.ofU64 1 := Except.ok.inj (hrate'.symm.trans hrate)
  rw [U68F60.div_one] at hliquidity
  obtain rfl := Except.ok.inj hliquidity
  exact U68F60.toU64_ofU64 c

/-- The share value of a bank with the interest that is due to a balance. -/
def Bank.shareValueAt (p : Profile) (currentTimestamp : Int64) (bank : Bank) (lastUpdate : UInt64) :
    Except Failure I80F48 := do
  let timeDelta ← p.sub currentTimestamp.toUInt64 lastUpdate
  if timeDelta = 0 then return bank.assetShareValue
  else
    let totalAssets ← unwrapOk (getAssetAmount bank.assetShareValue bank.totalAssetShares)
    let totalLiabilities ←
      unwrapOk (getLiabilityAmount bank.liabilityShareValue bank.totalLiabilityShares)
    unwrapSome (← calcInterestRateAccrualStateChanges timeDelta totalAssets totalLiabilities
      bank.assetShareValue)

theorem calUserTotalAssetInMarginfi_eq (p : Profile) (now : Int64) (bank : Bank) (shares : I80F48)
    (lastUpdate : UInt64) : calUserTotalAssetInMarginfi p now bank shares lastUpdate = (do
      getAssetAmount (← bank.shareValueAt p now lastUpdate) shares) := by
  simp only [calUserTotalAssetInMarginfi, Bank.shareValueAt, bind_assoc]
  congr
  funext timeDelta
  split
  · rw [pure_bind]
  · simp only [bind_assoc]

theorem unwrapOk_eq_ok {α : Type} {m : Except Failure α} {v : α} :
    unwrapOk m = .ok v ↔ m = .ok v := by
  cases m <;> simp [unwrapOk, Except.mapError]

theorem GetValueInMarginFi.value_at_par {a : GetValueInMarginFi} {d : Deployment} {env : Env}
    {bank : Loaded Bank} {v : I80F48} (h : a.valueInMarginfi d env bank = .ok v)
    (hpar : ∀ b : Balance, a.assetBalance bank = .ok b → bank.data.shareValueAt d.profile
      env.clock.unixTimestamp b.lastUpdate = .ok (I80F48.ofU64 1)) :
    ∃ b : Balance, a.assetBalance bank = .ok b ∧ v = b.assetShares := by
  simp only [valueInMarginfi, bind_eq_ok, unwrapOk_eq_ok, calUserTotalAssetInMarginfi_eq] at h
  obtain ⟨b, hb, value, hvalue, hv⟩ := h
  obtain rfl : value = I80F48.ofU64 1 := Except.ok.inj (hvalue.symm.trans (hpar b hb))
  rw [getAssetAmount, I80F48.checkedMul_one] at hv
  exact ⟨b, hb, (Except.ok.inj hv).symm⟩

/-! ## The same tokens in a position -/

namespace Asset

def reserve (a : GetValueInKamino) : Asset → Loaded Reserve
  | sol => a.solReserve
  | usdc => a.usdcReserve
  | wbtc => a.wbtcReserve

def bank (a : GetValueInMarginFi) : Asset → Loaded Bank
  | sol => a.solBank
  | usdc => a.usdcBank
  | wbtc => a.wbtcBank

end Asset

/-- The accounts with another obligation. -/
def GetValueInKamino.reading (a : GetValueInKamino) (o : Loaded Obligation) : GetValueInKamino :=
  { a with obligation := o }

/-- The same accounts with another account at marginfi. -/
def GetValueInMarginFi.reading (a : GetValueInMarginFi) (m : Loaded MarginfiAccount) :
    GetValueInMarginFi :=
  { a with marginfiAccount := m }

/-- The obligation `o` is that of `a` with `x` more units of collateral of the asset. The rates are
one. -/
structure GetValueInKamino.Lent (d : Deployment) (s : Asset) (x : ℕ) (a : GetValueInKamino)
    (o : Loaded Obligation) : Prop where
  atPar : ∀ s : Asset, (s.reserve a).data.collateralExchangeRate d.profile = .ok (U68F60.ofU64 1)
  more : (a.reading o).collateral (s.reserve a).key = a.collateral (s.reserve a).key + x
  others : ∀ s' ≠ s, (a.reading o).collateralAmount (s'.reserve a).key
    = a.collateralAmount (s'.reserve a).key
  usdt : (a.reading o).collateralAmount a.usdtReserve.key = a.collateralAmount a.usdtReserve.key
  weth : (a.reading o).collateralAmount a.wethReserve.key = a.collateralAmount a.wethReserve.key
  bonk : (a.reading o).collateralAmount a.bonkReserve.key = a.collateralAmount a.bonkReserve.key

/-- The account `m` at marginfi is that of `a` with the shares of `x` more base units of the asset.
The share values are one, with the interest that is due. -/
structure GetValueInMarginFi.Lent (d : Deployment) (env : Env) (s : Asset) (x : ℕ)
    (a : GetValueInMarginFi) (m : Loaded MarginfiAccount) : Prop where
  atPar : ∀ b : Balance, a.assetBalance (s.bank a) = .ok b ∨
      (a.reading m).assetBalance (s.bank a) = .ok b →
    (s.bank a).data.shareValueAt d.profile env.clock.unixTimestamp b.lastUpdate
      = .ok (I80F48.ofU64 1)
  more : ∀ b b' : Balance, a.assetBalance (s.bank a) = .ok b →
    (a.reading m).assetBalance (s.bank a) = .ok b' →
    b'.assetShares.bits = b.assetShares.bits + x * 2 ^ 48
  others : ∀ s' ≠ s, (a.reading m).assetBalance (s'.bank a) = a.assetBalance (s'.bank a)
  usdt : (a.reading m).assetBalance a.usdtBank = a.assetBalance a.usdtBank
  weth : (a.reading m).assetBalance a.wethBank = a.assetBalance a.wethBank
  bonk : (a.reading m).assetBalance a.bonkBank = a.assetBalance a.bonkBank

/-- Two valuations of one protocol, of which the second finds `x` more base units of the asset in
the position. -/
inductive Protocol.Lent (d : Deployment) (env : Env) (s : Asset) (x : ℕ) :
    Protocol → Instruction ℚ → Instruction ℚ → Prop
  | kamino {a : GetValueInKamino} {o : Loaded Obligation} (h : a.Lent d s x o) :
      Lent d env s x .kamino (.getValueInKamino a) (.getValueInKamino (a.reading o))
  | marginfi {a : GetValueInMarginFi} {m : Loaded MarginfiAccount} (h : a.Lent d env s x m) :
      Lent d env s x .marginfi (.getValueInMarginfi a) (.getValueInMarginfi (a.reading m))

/-- How often a valuation counts what the position holds of the asset. -/
def Protocol.counts (s : Asset) : Protocol → ℕ
  | .kamino =>
      match s with
      | .sol => 2
      | .usdc => 0
      | .wbtc => 1
  | .marginfi => 1

section

variable {d : Deployment} {env : Env} {s : Asset} {x : ℕ}

/-- What Kamino reports of SOL and wBTC is the collateral of either, and of USDC that of SOL. -/
theorem GetValueInKamino.Reading.Accepted.at_par {a : GetValueInKamino} {r : Reading}
    (h : r.Accepted a d env)
    (hpar : ∀ s : Asset, (s.reserve a).data.collateralExchangeRate d.profile
      = .ok (U68F60.ofU64 1)) : r.sol.toNat = a.collateral a.solReserve.key ∧
      r.usdc.toNat = a.collateral a.solReserve.key ∧
      r.wbtc.toNat = a.collateral a.wbtcReserve.key := by
  rw [collateral_eq h.solCollateral, collateral_eq h.wbtcCollateral,
    Reserve.redeem_at_par h.sol (hpar .sol), Reserve.redeem_at_par h.usdc (hpar .usdc),
    Reserve.redeem_at_par h.wbtc (hpar .wbtc)]
  exact ⟨rfl, rfl, rfl⟩

theorem GetValueInKamino.Reading.value_eq (r : Reading) (t : Treasury ℚ) :
    (r.treasury t).kaminoLendValue = r.sol.toNat + r.usdc.toNat + r.usdt.toNat + r.wbtc.toNat
      + r.weth.toNat + r.bonk.toNat := by
  simp [sumValues, values]

theorem GetValueInKamino.redeemed_eq {a a' : GetValueInKamino} {key : Pubkey} {r : Reserve}
    {p : Profile} {clock : Clock} {c c' n n' : UInt64}
    (hsame : a'.collateralAmount key = a.collateralAmount key) (hc : a.collateralAmount key = .ok c)
    (hc' : a'.collateralAmount key = .ok c') (hn : r.redeemReserveCollateral p c clock = .ok n)
    (hn' : r.redeemReserveCollateral p c' clock = .ok n') : n' = n := by
  rw [hsame, hc] at hc'
  cases hc'
  exact Except.ok.inj (hn'.symm.trans hn)

theorem GetValueInKamino.Lent.collateral_eq {a : GetValueInKamino} {o : Loaded Obligation}
    (hlent : a.Lent d s x o) (s' : Asset) : (a.reading o).collateral (s'.reserve a).key
      = a.collateral (s'.reserve a).key + if s' = s then x else 0 := by
  by_cases h : s' = s
  · rw [if_pos h, h]
    exact hlent.more
  · rw [if_neg h, add_zero, collateral, hlent.others s' h, collateral]

theorem GetValueInKamino.Lent.value_eq {a : GetValueInKamino} {o : Loaded Obligation}
    {r r' : Reading} {t t' : Treasury ℚ} (hlent : a.Lent d s x o) (h : r.Accepted a d env)
    (h' : r'.Accepted (a.reading o) d env) : (r'.treasury t').kaminoLendValue
      = (r.treasury t).kaminoLendValue + Protocol.kamino.counts s * x := by
  -- SOL and USDC are both read off the collateral of SOL
  obtain ⟨hsol, husdc, hwbtc⟩ := h.at_par hlent.atPar
  obtain ⟨hsol', husdc', hwbtc'⟩ := h'.at_par hlent.atPar
  have husdt : r'.usdt = r.usdt :=
    redeemed_eq hlent.usdt h.usdtCollateral h'.usdtCollateral h.usdt h'.usdt
  have hweth : r'.weth = r.weth :=
    redeemed_eq hlent.weth h.wethCollateral h'.wethCollateral h.weth h'.weth
  have hbonk : r'.bonk = r.bonk :=
    redeemed_eq hlent.bonk h.bonkCollateral h'.bonkCollateral h.bonk h'.bonk
  have hmoreSol : (a.reading o).collateral a.solReserve.key = a.collateral a.solReserve.key
      + if Asset.sol = s then x else 0 := hlent.collateral_eq .sol
  have hmoreWbtc : (a.reading o).collateral a.wbtcReserve.key = a.collateral a.wbtcReserve.key
      + if Asset.wbtc = s then x else 0 := hlent.collateral_eq .wbtc
  have hsolKey : (a.reading o).solReserve.key = a.solReserve.key := rfl
  have hwbtcKey : (a.reading o).wbtcReserve.key = a.wbtcReserve.key := rfl
  rw [Reading.value_eq, Reading.value_eq, hsol, husdc, hwbtc, hsol', husdc', hwbtc', husdt, hweth,
    hbonk, hsolKey, hwbtcKey, hmoreSol, hmoreWbtc]
  cases s <;> simp [Protocol.counts] <;> ring

theorem GetValueInMarginFi.Reading.value_eq (r : Reading) (t : Treasury ℚ) :
    (r.treasury t).marginfiLendValue = r.sol.toRat + r.usdc.toRat + r.usdt.toRat + r.wbtc.toRat
      + r.weth.toRat + r.bonk.toRat := by
  simp [sumValues, values]

theorem GetValueInMarginFi.valued_eq {a a' : GetValueInMarginFi} {bank : Loaded Bank}
    {v v' : I80F48}
    (hsame : a'.assetBalance bank = a.assetBalance bank) (h : a.valueInMarginfi d env bank = .ok v)
    (h' : a'.valueInMarginfi d env bank = .ok v') : v' = v := by
  rw [valueInMarginfi, hsame, ← valueInMarginfi] at h'
  exact Except.ok.inj (h'.symm.trans h)

theorem GetValueInMarginFi.Lent.bank_eq {a : GetValueInMarginFi} {m : Loaded MarginfiAccount}
    (hlent : a.Lent d env s x m) (s' : Asset) {v v' : I80F48}
    (h : a.valueInMarginfi d env (s'.bank a) = .ok v)
    (h' : (a.reading m).valueInMarginfi d env (s'.bank a) = .ok v') :
    v'.toRat = v.toRat + (if s' = s then x else 0 : ℕ) := by
  by_cases hs : s' = s
  · subst hs
    obtain ⟨b, hb, rfl⟩ := value_at_par h fun b hb => hlent.atPar b (.inl hb)
    obtain ⟨b', hb', rfl⟩ := value_at_par h' fun b hb => hlent.atPar b (.inr hb)
    rw [if_pos rfl, Fixed.toRat, Fixed.toRat, hlent.more b b' hb hb']
    show ((b.assetShares.bits + x * 2 ^ 48 : ℤ) : ℚ) / 2 ^ 48 = b.assetShares.bits / 2 ^ 48 + x
    push_cast
    ring
  · rw [if_neg hs, valued_eq (hlent.others s' hs) h h', Nat.cast_zero, add_zero]

theorem GetValueInMarginFi.Lent.value_eq {a : GetValueInMarginFi} {m : Loaded MarginfiAccount}
    {r r' : Reading} {t t' : Treasury ℚ} (hlent : a.Lent d env s x m) (h : r.Accepted a d env)
    (h' : r'.Accepted (a.reading m) d env) : (r'.treasury t').marginfiLendValue
      = (r.treasury t).marginfiLendValue + Protocol.marginfi.counts s * x := by
  have hsol := hlent.bank_eq .sol h.sol h'.sol
  have husdc := hlent.bank_eq .usdc h.usdc h'.usdc
  have hwbtc := hlent.bank_eq .wbtc h.wbtc h'.wbtc
  have husdt : r'.usdt = r.usdt := valued_eq hlent.usdt h.usdt h'.usdt
  have hweth : r'.weth = r.weth := valued_eq hlent.weth h.weth h'.weth
  have hbonk : r'.bonk = r.bonk := valued_eq hlent.bonk h.bonk h'.bonk
  rw [Reading.value_eq, Reading.value_eq, hsol, husdc, hwbtc, husdt, hweth, hbonk]
  cases s <;> simp [Protocol.counts] <;> ring

/-- What a recount takes from the record. -/
def Treasury.invested (t : Treasury ℚ) : ℚ :=
  t.marginfiLendValue + t.kaminoLendValue + t.meteoraDepositValue + t.jupiterPerpsValue

/-- The valuation that finds more in the position writes as much more, and neither touches an
account. -/
theorem Protocol.Lent.invested_eq {k : Protocol} {i i' : Instruction ℚ} {w w' : World ℚ}
    {x₁ x₂ : Exec ℚ} (hlent : k.Lent d env s x i i') (h : i.handle d env (.start w) = .ok x₁)
    (h' : i'.handle d env (.start w') = .ok x₂) (htreasury : w'.treasury = w.treasury) :
    x₂.world.treasury.invested = x₁.world.treasury.invested + k.counts s * x ∧
      x₁.world.ledger = w.ledger ∧ x₂.world.ledger = w'.ledger := by
  cases hlent with
  | @kamino a o hlent =>
      simp only [Instruction.handle, bind_eq_ok, pure_eq_ok] at h h'
      obtain ⟨⟨v, z⟩, hz, rfl⟩ := h
      obtain ⟨⟨v', z'⟩, hz', rfl⟩ := h'
      obtain ⟨r, hr, -, rfl⟩ := GetValueInKamino.handle_eq_ok.mp hz
      obtain ⟨r', hr', -, rfl⟩ := GetValueInKamino.handle_eq_ok.mp hz'
      refine ⟨?_, rfl, rfl⟩
      have hvalue : (r'.treasury w.treasury).kaminoLendValue
          = (r.treasury w.treasury).kaminoLendValue + Protocol.kamino.counts s * x :=
        hlent.value_eq hr hr'
      show (r'.treasury w'.treasury).invested = (r.treasury w.treasury).invested + _
      rw [htreasury]
      show w.treasury.marginfiLendValue + (r'.treasury w.treasury).kaminoLendValue
          + w.treasury.meteoraDepositValue + w.treasury.jupiterPerpsValue
        = w.treasury.marginfiLendValue + (r.treasury w.treasury).kaminoLendValue
          + w.treasury.meteoraDepositValue + w.treasury.jupiterPerpsValue + _
      rw [hvalue]
      ring
  | @marginfi a m hlent =>
      simp only [Instruction.handle, bind_eq_ok, pure_eq_ok] at h h'
      obtain ⟨⟨v, z⟩, hz, rfl⟩ := h
      obtain ⟨⟨v', z'⟩, hz', rfl⟩ := h'
      obtain ⟨r, hr, -, rfl⟩ := GetValueInMarginFi.handle_eq_ok.mp hz
      obtain ⟨r', hr', -, rfl⟩ := GetValueInMarginFi.handle_eq_ok.mp hz'
      refine ⟨?_, rfl, rfl⟩
      have hvalue : (r'.treasury w.treasury).marginfiLendValue
          = (r.treasury w.treasury).marginfiLendValue + Protocol.marginfi.counts s * x :=
        hlent.value_eq hr hr'
      show (r'.treasury w'.treasury).invested = (r.treasury w.treasury).invested + _
      rw [htreasury]
      show (r'.treasury w.treasury).marginfiLendValue + w.treasury.kaminoLendValue
          + w.treasury.meteoraDepositValue + w.treasury.jupiterPerpsValue
        = (r.treasury w.treasury).marginfiLendValue + w.treasury.kaminoLendValue
          + w.treasury.meteoraDepositValue + w.treasury.jupiterPerpsValue + _
      rw [hvalue]
      ring

end

/-! ## The same tokens in the wallet -/

/-- In `w'` the treasury's own account has `x` base units of the asset less than in `w`, and nothing
else that a recount reads differs. -/
structure MovedOut (b : CalcuBalance) (d : Deployment) (s : Asset) (x : ℕ) (w w' : World ℚ) :
    Prop where
  treasury : w'.treasury = w.treasury
  moved : ∀ h h' : UInt64, s.balance b d w = some h → s.balance b d w' = some h' →
    h.toNat = h'.toNat + x
  others : ∀ s' ≠ s, s'.balance b d w' = s'.balance b d w

/-- The valuation `i` and then a recount find the treasury worth `v`. -/
def Revalued (d : Deployment) (env : Env) (i : Instruction ℚ) (env' : Env) (b : CalcuBalance)
    (w : World ℚ) (v : ℚ) : Prop :=
  ∃ x y : Exec ℚ, i.handle d env (.start w) = .ok x ∧ b.handle d env' (.start x.world) = .ok y ∧
    y.world.treasury.treasuryValue = v

theorem Revalued.of_eval {d : Deployment} {env env' : Env} {i : Instruction ℚ} {b : CalcuBalance}
    {w : World ℚ} {v : ℚ} (h : (do
      let x ← i.handle d env (.start w)
      b.handle d env' (.start x.world)).toOption.any
        (fun y : Exec ℚ => decide (y.world.treasury.treasuryValue = v)) = true) :
    Revalued d env i env' b w v := by
  obtain ⟨y, hy, hv⟩ := exists_eq_ok _ h
  simp only [bind_eq_ok] at hy
  obtain ⟨x, hx, hy⟩ := hy
  exact ⟨x, y, hx, hy, of_decide_eq_true hv⟩

/-- The recount of `n` tokens, next to `rest` base units, comes to `counted` units of value. -/
def WorthCounted (s : Asset) (price scale : Price) (rest : UInt64) (n counted : ℕ) : Prop :=
  n * price.price.toInt.toNat * 10 ^ scale.exponent.toInt.toNat % 2 ^ 64 = counted ∧
    rest.toNat / s.unit.toNat * price.price.toInt.toNat * 10 ^ scale.exponent.toInt.toNat % 2 ^ 64
      + counted < 2 ^ 64

instance (s : Asset) (price scale : Price) (rest : UInt64) (n counted : ℕ) :
    Decidable (WorthCounted s price scale rest n counted) := by
  unfold WorthCounted
  infer_instance

section

variable {d : Deployment} {env env' : Env} {b : CalcuBalance} {s : Asset} {x n : ℕ}
  {w w' : World ℚ} {y y' : Exec ℚ} {price scale : Price} {rest : UInt64}

theorem Asset.balance_of_ledger (s : Asset) (h : w'.ledger = w.ledger) :
    s.balance b d w' = s.balance b d w := by
  cases s <;> simp only [balance, h]

theorem CalcuBalance.total_eq {x : Exec ℚ} (hrec : b.handle d env x = .ok y) :
    y.world.treasury.treasuryValue = x.world.treasury.invested + Asset.sol.value y.world.treasury
      + Asset.usdc.value y.world.treasury + Asset.wbtc.value y.world.treasury := by
  obtain ⟨r, -, rfl⟩ := handle_eq_ok.mp hrec
  rfl

theorem Asset.value_add_iff {x x' : Exec ℚ} {h : UInt64} {counted : ℕ}
    (hrec : b.handle d env x = .ok y) (hrec' : b.handle d env x' = .ok y')
    (hbalance : s.balance b d x.world = some h) (hrest : s.balance b d x'.world = some rest)
    (hprice : s.reading b env = some price) (hscale : s.scaledBy.reading b env = some scale)
    (hadd : h.toNat = rest.toNat + n * s.unit.toNat) :
    s.value y.world.treasury = s.value y'.world.treasury + counted ↔
      WorthCounted s price scale rest n counted := by
  obtain ⟨hp, -, hvalue⟩ := s.value_of_recount hrec hbalance hprice hscale
  obtain ⟨-, -, hvalue'⟩ := s.value_of_recount hrec' hrest hprice hscale
  have hunit : 0 < s.unit.toNat := by cases s <;> decide
  -- whole tokens are added, so the remainder of `rest` stays below one token
  rw [hvalue, hvalue', ofU64_rat, ofU64_rat, ← Nat.cast_add, Nat.cast_inj, toNat_worth hp,
    toNat_worth hp, hadd, Nat.add_mul_div_right _ _ hunit, add_mul, add_mul,
    add_mod_eq_add_iff (by decide)]
  rfl

/-- For each asset, whole tokens in the treasury's own account and the same tokens in a lending
position are worth the same to a valuation followed by a recount if and only if whole tokens times
price times power of ten come to the base units, as often as the valuation counts them. -/
theorem lending_keeps_worth_iff {k : Protocol} {i i' : Instruction ℚ} {v v' : ℚ}
    (hlent : k.Lent d env s (n * s.unit.toNat) i i')
    (hmoved : MovedOut b d s (n * s.unit.toNat) w w')
    (hin : Revalued d env i env' b w v) (hout : Revalued d env i' env' b w' v')
    (hprice : s.reading b env' = some price) (hscale : s.scaledBy.reading b env' = some scale)
    (hrest : s.balance b d w' = some rest) :
    v = v' ↔ WorthCounted s price scale rest n (k.counts s * (n * s.unit.toNat)) := by
  obtain ⟨x, y, hx, hy, rfl⟩ := hin
  obtain ⟨x', y', hx', hy', rfl⟩ := hout
  obtain ⟨hinvested, hledger, hledger'⟩ := hlent.invested_eq hx hx' hmoved.treasury
  obtain ⟨h, -, -, hbalance, -, -⟩ := s.exists_reading hy
  have hbefore : s.balance b d w = some h := (s.balance_of_ledger hledger).symm.trans hbalance
  have hafter : s.balance b d x'.world = some rest := (s.balance_of_ledger hledger').trans hrest
  have hothers : ∀ s' ≠ s, s'.value y'.world.treasury = s'.value y.world.treasury := by
    intro s' hs'
    apply s'.value_congr hy hy'
    exact (s'.balance_of_ledger hledger').trans
      ((hmoved.others s' hs').trans (s'.balance_of_ledger hledger).symm)
  have htotal := CalcuBalance.total_eq hy
  have htotal' := CalcuBalance.total_eq hy'
  have hstart : (Exec.start x'.world).world.treasury.invested
      = (Exec.start x.world).world.treasury.invested + (k.counts s * (n * s.unit.toNat) : ℕ) := by
    rw [Nat.cast_mul]
    exact hinvested
  rw [← Asset.value_add_iff hy hy' hbalance hafter hprice hscale
    (hmoved.moved h rest hbefore hrest), htotal, htotal', hstart]
  -- the other two assets cancel
  cases s with
  | sol =>
      rw [hothers .usdc (by decide), hothers .wbtc (by decide)]
      constructor <;> intro heq <;> linarith
  | usdc =>
      rw [hothers .sol (by decide), hothers .wbtc (by decide)]
      constructor <;> intro heq <;> linarith
  | wbtc =>
      rw [hothers .sol (by decide), hothers .usdc (by decide)]
      constructor <;> intro heq <;> linarith

end

/-! ### A dollar in marginfi -/

/-- A bank of the group `40` whose shares are worth one token. -/
def parBank (mint : Pubkey) : Bank where
  group := 40
  mint := mint
  totalAssetShares := I80F48.ofU64 0
  totalLiabilityShares := I80F48.ofU64 0
  assetShareValue := I80F48.ofU64 1
  liabilityShareValue := I80F48.ofU64 1

def activeBalance (bankPk : Pubkey) (shares : UInt64) : Balance :=
  ⟨true, bankPk, I80F48.ofU64 shares, 0⟩

def closedBalance : Balance := ⟨false, 0, I80F48.ofU64 0, 0⟩

/-- An account with `n` shares in the bank `72` and none in the five others. -/
def usdcShares (n : UInt64) : Loaded MarginfiAccount where
  key := 41
  data :=
    { group := 40
      authority := 9
      balances := #v[activeBalance 71 0, activeBalance 72 n, activeBalance 73 0, activeBalance 74 0,
        activeBalance 75 0, activeBalance 76 0, closedBalance, closedBalance, closedBalance,
        closedBalance, closedBalance, closedBalance, closedBalance, closedBalance, closedBalance,
        closedBalance] }

/-- The accounts of a valuation, with none of the six assets lent. -/
def nothingLent : GetValueInMarginFi where
  signer := 9
  marginfiGroup := 40
  marginfiAccount := usdcShares 0
  solBank := ⟨71, parBank solMint⟩
  usdcBank := ⟨72, parBank usdcMint⟩
  usdtBank := ⟨73, parBank usdtMint⟩
  wbtcBank := ⟨74, parBank wbtcMint⟩
  wethBank := ⟨75, parBank wethMint⟩
  bonkBank := ⟨76, parBank bonkMint⟩

theorem nothingLent_usdc (n : UInt64) : (nothingLent.reading (usdcShares n)).assetBalance
    nothingLent.usdcBank = .ok (activeBalance 72 n) := by
  rfl

theorem nothingLent_lent {env : Env} (henv : env.clock = ⟨0, 0⟩) :
    nothingLent.Lent (smallDeployment .release) env .usdc (1 * Asset.usdc.unit.toNat)
      (usdcShares 1000000) where
  atPar := by
    intro b hb
    rw [henv]
    rcases hb with hb | hb
    · obtain rfl := Except.ok.inj ((nothingLent_usdc 0).symm.trans hb)
      rfl
    · obtain rfl := Except.ok.inj ((nothingLent_usdc 1000000).symm.trans hb)
      rfl
  more := by
    intro b b' hb hb'
    obtain rfl := Except.ok.inj ((nothingLent_usdc 0).symm.trans hb)
    obtain rfl := Except.ok.inj ((nothingLent_usdc 1000000).symm.trans hb')
    decide
  others := by
    intro s' hs'
    cases s' with
    | sol => rfl
    | usdc => exact absurd rfl hs'
    | wbtc => rfl
  usdt := rfl
  weth := rfl
  bonk := rfl

/-- The authority signs, and every feed reads one with this exponent. -/
def unitEnv (exponent : Int32) : Env := splEnv 0 [9] fun _ => some ⟨1, 0, exponent⟩

theorem usdcHolding_movedOut : MovedOut smallRecount (smallDeployment .release) .usdc
    (1 * Asset.usdc.unit.toNat) (usdcHolding 1000000).world (usdcHolding 0).world where
  treasury := rfl
  moved := by
    intro h h' hbalance hbalance'
    cases hbalance
    cases hbalance'
    rfl
  others := by
    intro s' hs'
    cases s' with
    | sol => rfl
    | usdc => exact absurd rfl hs'
    | wbtc => rfl

/-- At the exponent six a dollar kept and a dollar lent are worth the same. -/
theorem lending_keeps_worth_iff_six : ∃ v v' : ℚ,
    Revalued (smallDeployment .release) (unitEnv 6) (.getValueInMarginfi nothingLent) (unitEnv 6)
      smallRecount (usdcHolding 1000000).world v ∧
    Revalued (smallDeployment .release) (unitEnv 6)
      (.getValueInMarginfi (nothingLent.reading (usdcShares 1000000))) (unitEnv 6) smallRecount
      (usdcHolding 0).world v' ∧ v = v' := by
  have hin : Revalued (smallDeployment .release) (unitEnv 6) (.getValueInMarginfi nothingLent)
      (unitEnv 6) smallRecount (usdcHolding 1000000).world 1000000 := .of_eval (by decide +kernel)
  have hout : Revalued (smallDeployment .release) (unitEnv 6)
      (.getValueInMarginfi (nothingLent.reading (usdcShares 1000000))) (unitEnv 6) smallRecount
      (usdcHolding 0).world 1000000 := .of_eval (by decide +kernel)
  refine ⟨1000000, 1000000, hin, hout, ?_⟩
  exact (lending_keeps_worth_iff (.marginfi (nothingLent_lent rfl)) usdcHolding_movedOut hin hout
    (s := Asset.usdc) rfl rfl rfl).mpr (by decide)

/-- At the exponent zero it is worth one in the wallet and a million in marginfi. -/
theorem lent_dollar_worth_million :
    Protocol.marginfi.Lent (smallDeployment .release) (unitEnv 0) .usdc (1 * Asset.usdc.unit.toNat)
      (.getValueInMarginfi nothingLent)
      (.getValueInMarginfi (nothingLent.reading (usdcShares 1000000))) ∧
    MovedOut smallRecount (smallDeployment .release) .usdc (1 * Asset.usdc.unit.toNat)
      (usdcHolding 1000000).world (usdcHolding 0).world ∧
    Revalued (smallDeployment .release) (unitEnv 0) (.getValueInMarginfi nothingLent) (unitEnv 0)
      smallRecount (usdcHolding 1000000).world 1 ∧
    Revalued (smallDeployment .release) (unitEnv 0)
      (.getValueInMarginfi (nothingLent.reading (usdcShares 1000000))) (unitEnv 0) smallRecount
      (usdcHolding 0).world 1000000 :=
  ⟨.marginfi (nothingLent_lent rfl), usdcHolding_movedOut, .of_eval (by decide +kernel),
    .of_eval (by decide +kernel)⟩

end Saturn
