import Saturn.State.Account
import Saturn.Codec.Bytes

/-!
# `get_stake_pool_virtual_price`

`meteora_utils.rs` prices the token of a stake pool by what the pool's account says: two numbers
whose quotient is the price. Solido's account is read at fixed offsets, the two others by the
decoders of their crates. A slice that is out of range panics; every other failure is a `None`.
-/

namespace Saturn

open Machine Codec

/-- The `DepegType` of a Meteora pool. -/
inductive DepegType where
  | none
  | marinade
  | lido
  | splStake
  deriving DecidableEq

/-- `marinade::stake::ID`, `8szGkuLTAux9XMgZ2vtY39jVSowEcpBfFfD8hXSEqdGC` -/
def marinadeStake : Pubkey := 0x75119b3175807586e3f4a7e5cd0f890e96a753b10fccc7681e9473a0083270f1

/-- `solido::stake::ID`, `49Yi1TKkNyYjPAFdR9LBvoHcUjuPX4Df5T5yv39w2XTn` -/
def solidoStake : Pubkey := 0x2ec38efa47070e1f830d29bc25b818a555607244017bdf9e229dfa6218a259d1

/-- What the price is computed from in marinade's `State`. -/
structure MarinadeState where
  msolPrice : UInt64
  deriving DecidableEq

/-- And in the `StakePool` of the SPL program. -/
structure StakePool where
  totalLamports : UInt64
  poolTokenSupply : UInt64
  deriving DecidableEq

/-- What the crates of the two programs provide. -/
structure StakeSdk where
  /-- `State::deserialize` -/
  deserializeState : List UInt8 → Option MarinadeState
  /-- `State::PRICE_DENOMINATOR` -/
  priceDenominator : UInt64
  /-- `try_from_slice_unchecked::<StakePool>` -/
  tryFromSliceUnchecked : List UInt8 → Option StakePool

/-! ## Checked arithmetic on `u128` -/

/-- `checked_mul` -/
def checkedMulU128 (a b : ℕ) : Option ℕ := if a * b < 2 ^ 128 then some (a * b) else none

/-- `checked_div` -/
def checkedDivU128 (a b : ℕ) : Option ℕ := if b = 0 then none else some (a / b)

/-- `try_into().ok()` from `u128` to `u64`. -/
def tryIntoU64 (n : ℕ) : Option UInt64 := if n < 2 ^ 64 then some (UInt64.ofNat n) else none

/-- `depeg::PRECISION` -/
def depegPrecision : ℕ := 10 ^ 6

/-- The computation the three formats share. -/
def scaledQuotient (numerator denominator : UInt64) : Option UInt64 := do
  let scaled ← checkedMulU128 numerator.toNat depegPrecision
  tryIntoU64 (← checkedDivU128 scaled denominator.toNat)

/-- `u64::from_le_bytes` -/
def u64FromLeBytes (bs : List UInt8) : UInt64 := UInt64.ofNat (ofLE bs)

/-! ## The three formats -/

/-- `marinade::get_virtual_price` -/
def Marinade.getVirtualPrice (sdk : StakeSdk) (bytes : List UInt8) :
    Except Failure (Option UInt64) := do
  let rest ← okOr (slice? 8 bytes.length bytes) .panic
  return (sdk.deserializeState rest).bind fun stakeState =>
    scaledQuotient stakeState.msolPrice sdk.priceDenominator

/-- `solido::get_virtual_price` -/
def Solido.getVirtualPrice (bytes : List UInt8) : Except Failure (Option UInt64) := do
  let stsolSupplyBytes ← okOr (slice? 73 81 bytes) .panic
  let stolBalanceBytes ← okOr (slice? 81 89 bytes) .panic
  let stsolSupply := u64FromLeBytes stsolSupplyBytes
  let solBalance := u64FromLeBytes stolBalanceBytes
  return scaledQuotient solBalance stsolSupply

/-- `spl_stake::get_virtual_price` -/
def SplStake.getVirtualPrice (sdk : StakeSdk) (bytes : List UInt8) :
    Except Failure (Option UInt64) :=
  return (sdk.tryFromSliceUnchecked bytes).bind fun stake =>
    scaledQuotient stake.totalLamports stake.poolTokenSupply

/-- `stake_data.get(..)?`, and what is done with the bytes. -/
def priceOfEntry (entry : Option (List UInt8))
    (getVirtualPrice : List UInt8 → Except Failure (Option UInt64)) :
    Except Failure (Option UInt64) :=
  match entry with
  | some bytes => getVirtualPrice bytes
  | none => .ok none

/-- `get_stake_pool_virtual_price` -/
def getStakePoolVirtualPrice (sdk : StakeSdk) (depegType : DepegType) (splStakePool : Pubkey)
    (stakeData : Pubkey → Option (List UInt8)) : Except Failure (Option UInt64) :=
  match depegType with
  | .lido => priceOfEntry (stakeData solidoStake) Solido.getVirtualPrice
  | .marinade => priceOfEntry (stakeData marinadeStake) (Marinade.getVirtualPrice sdk)
  | .splStake => priceOfEntry (stakeData splStakePool) (SplStake.getVirtualPrice sdk)
  | .none => .ok none

/-! ## What they compute -/

section

variable {numerator denominator : UInt64} {bytes : List UInt8}

theorem checkedMulU128_depegPrecision (n : UInt64) :
    checkedMulU128 n.toNat depegPrecision = some (n.toNat * depegPrecision) := by
  have hlt := n.toNat_lt
  have hfits : n.toNat * depegPrecision < 2 ^ 128 := by
    rw [depegPrecision]
    omega
  rw [checkedMulU128, if_pos hfits]

theorem scaledQuotient_eq : scaledQuotient numerator denominator =
    if denominator.toNat = 0 then none
    else tryIntoU64 (numerator.toNat * depegPrecision / denominator.toNat) := by
  rw [scaledQuotient, checkedMulU128_depegPrecision, Option.bind_eq_bind, Option.bind_some,
    checkedDivU128]
  by_cases h : denominator.toNat = 0
  · rw [if_pos h, if_pos h, Option.bind_none]
  · rw [if_neg h, if_neg h, Option.bind_some]

theorem toNat_u64FromLeBytes (h : bytes.length = 8) :
    (u64FromLeBytes bytes).toNat = ofLE bytes := by
  have hlt := ofLE_lt bytes
  rw [h] at hlt
  exact UInt64.toNat_ofNat_of_lt' hlt

theorem Marinade.getVirtualPrice_of_le (sdk : StakeSdk) (h : 8 ≤ bytes.length) :
    getVirtualPrice sdk bytes = .ok ((sdk.deserializeState (bytes.drop 8)).bind fun s =>
      scaledQuotient s.msolPrice sdk.priceDenominator) := by
  rw [getVirtualPrice, slice?_length h]
  rfl

theorem Marinade.getVirtualPrice_of_lt (sdk : StakeSdk) (h : bytes.length < 8) :
    getVirtualPrice sdk bytes = .error .panic := by
  have hslice : slice? 8 bytes.length bytes = none := if_neg (by omega)
  rw [getVirtualPrice, hslice]
  rfl

theorem Solido.getVirtualPrice_of_le (h : 89 ≤ bytes.length) : getVirtualPrice bytes =
    .ok (scaledQuotient (u64FromLeBytes ((bytes.drop 81).take 8))
      (u64FromLeBytes ((bytes.drop 73).take 8))) := by
  rw [getVirtualPrice, slice?_of_le (by decide) (by omega : 81 ≤ bytes.length),
    slice?_of_le (by decide) h]
  rfl

theorem Solido.getVirtualPrice_of_lt (h : bytes.length < 89) :
    getVirtualPrice bytes = .error .panic := by
  rw [getVirtualPrice, slice?_of_lt h]
  cases slice? 73 81 bytes with
  | none => rfl
  | some s => rfl

end

end Saturn
