import Saturn.Instructions.StakePool

/-!
# Stake pool prices

What `get_stake_pool_virtual_price` is for: the quotient of two numbers that an account records, or
nothing where they are not there (`StakeSdk.recorded`, `exactPrice`). It is that wherever the
function returns, and it returns except on an account that is too short to be sliced
(`stakePrice_iff`).
-/

namespace Saturn

open Machine Codec

/-! ## The price an account records -/

/-- The account in which a price is looked up. -/
def DepegType.entry (depegType : DepegType) (splStakePool : Pubkey)
    (stakeData : Pubkey → Option (List UInt8)) : Option (List UInt8) :=
  match depegType with
  | .lido => stakeData solidoStake
  | .marinade => stakeData marinadeStake
  | .splStake => stakeData splStakePool
  | .none => Option.none

/-- How many bytes the slices of a format need. -/
def DepegType.minLength : DepegType → ℕ
  | .lido => 89
  | .marinade => 8
  | .splStake => 0
  | .none => 0

/-- The numerator and the denominator in an account that is long enough, if it can be decoded. -/
def StakeSdk.fields (sdk : StakeSdk) (depegType : DepegType) (bytes : List UInt8) :
    Option (ℕ × ℕ) :=
  match depegType with
  | .lido => some (ofLE ((bytes.drop 81).take 8), ofLE ((bytes.drop 73).take 8))
  | .marinade => (sdk.deserializeState (bytes.drop 8)).map fun s =>
      (s.msolPrice.toNat, sdk.priceDenominator.toNat)
  | .splStake => (sdk.tryFromSliceUnchecked bytes).map fun s =>
      (s.totalLamports.toNat, s.poolTokenSupply.toNat)
  | .none => none

/-- None where the account is missing, too short or cannot be decoded. -/
def StakeSdk.recorded (sdk : StakeSdk) (depegType : DepegType) (splStakePool : Pubkey)
    (stakeData : Pubkey → Option (List UInt8)) : Option (ℕ × ℕ) :=
  (depegType.entry splStakePool stakeData).bind fun bytes =>
    if depegType.minLength ≤ bytes.length then sdk.fields depegType bytes else none

/-- The scaled quotient rounded down, if there is one and it fits. -/
def exactPrice (r : ℕ × ℕ) : Option ℕ :=
  if r.2 = 0 ∨ 2 ^ 64 ≤ r.1 * 10 ^ 6 / r.2 then none else some (r.1 * 10 ^ 6 / r.2)

/-- The code returns, and what it returns is the price of the two numbers. -/
def Prices (m : Except Failure (Option UInt64)) (r : Option (ℕ × ℕ)) : Prop :=
  ∃ price, m = .ok price ∧ price.map UInt64.toNat = r.bind exactPrice

/-! ## The computation is exact -/

variable {sdk : StakeSdk} {numerator denominator : UInt64} {bytes : List UInt8}

theorem map_toNat_tryIntoU64 (n : ℕ) :
    (tryIntoU64 n).map UInt64.toNat = if n < 2 ^ 64 then some n else none := by
  unfold tryIntoU64
  split
  case isTrue h => rw [Option.map_some, UInt64.toNat_ofNat_of_lt' h]
  case isFalse => rfl

theorem map_toNat_scaledQuotient : (scaledQuotient numerator denominator).map UInt64.toNat =
    exactPrice (numerator.toNat, denominator.toNat) := by
  rw [scaledQuotient_eq, exactPrice]
  by_cases hzero : denominator.toNat = 0
  · rw [if_pos hzero, if_pos (.inl hzero), Option.map_none]
  · rw [if_neg hzero, map_toNat_tryIntoU64, depegPrecision]
    by_cases hfits : numerator.toNat * 10 ^ 6 / denominator.toNat < 2 ^ 64
    · rw [if_pos hfits, if_neg (not_or.mpr ⟨hzero, not_le.mpr hfits⟩)]
    · rw [if_neg hfits, if_pos (.inr (not_lt.mp hfits))]

theorem prices_decoded {α : Type} (decoded : Option α) (numerator denominator : α → UInt64) :
    Prices (.ok (decoded.bind fun a => scaledQuotient (numerator a) (denominator a)))
      (decoded.map fun a => ((numerator a).toNat, (denominator a).toNat)) := by
  refine ⟨_, rfl, ?_⟩
  cases decoded with
  | none => rfl
  | some a =>
      rw [Option.bind_some, Option.map_some, Option.bind_some]
      exact map_toNat_scaledQuotient

theorem prices_solido (h : 89 ≤ bytes.length) : Prices (Solido.getVirtualPrice bytes)
    (some (ofLE ((bytes.drop 81).take 8), ofLE ((bytes.drop 73).take 8))) := by
  have hbalance : ((bytes.drop 81).take 8).length = 8 :=
    length_of_slice? (slice?_of_le (by decide : 81 ≤ 89) h)
  have hsupply : ((bytes.drop 73).take 8).length = 8 :=
    length_of_slice? (slice?_of_le (by decide : 73 ≤ 81) (by omega))
  rw [Solido.getVirtualPrice_of_le h, ← toNat_u64FromLeBytes hbalance,
    ← toNat_u64FromLeBytes hsupply]
  refine ⟨_, rfl, ?_⟩
  rw [Option.bind_some]
  exact map_toNat_scaledQuotient

/-! ## It returns unless a slice is out of range -/

theorem not_prices_panic {r : Option (ℕ × ℕ)} : ¬ Prices (.error .panic) r := by
  rintro ⟨price, h, -⟩
  cases h

/-- A format whose price is right on an account that is long enough, and which panics on any
other. -/
theorem prices_entry_iff {minLength : ℕ} {fields : List UInt8 → Option (ℕ × ℕ)}
    {getVirtualPrice : List UInt8 → Except Failure (Option UInt64)}
    (hlong : ∀ bytes, minLength ≤ bytes.length → Prices (getVirtualPrice bytes) (fields bytes))
    (hshort : ∀ bytes, bytes.length < minLength → getVirtualPrice bytes = .error .panic)
    (entry : Option (List UInt8)) :
    Prices (priceOfEntry entry getVirtualPrice)
        (entry.bind fun bytes => if minLength ≤ bytes.length then fields bytes else none) ↔
      ∀ bytes, entry = some bytes → minLength ≤ bytes.length := by
  cases entry with
  | none => exact iff_of_true ⟨none, rfl, rfl⟩ nofun
  | some bytes =>
      rw [priceOfEntry, Option.bind_some]
      rcases le_or_gt minLength bytes.length with hle | hlt
      · rw [if_pos hle]
        refine iff_of_true (hlong bytes hle) ?_
        rintro _ ⟨⟩
        exact hle
      · rw [hshort bytes hlt]
        exact iff_of_false not_prices_panic fun h => absurd (h bytes rfl) (not_le.mpr hlt)

/-- For every depeg type, pool and map: the function returns the price that the account records,
and none where it records none, if and only if the account is long enough for the slices of its
format. -/
theorem stakePrice_iff (sdk : StakeSdk) (depegType : DepegType) (splStakePool : Pubkey)
    (stakeData : Pubkey → Option (List UInt8)) :
    Prices (getStakePoolVirtualPrice sdk depegType splStakePool stakeData)
        (sdk.recorded depegType splStakePool stakeData) ↔
      ∀ bytes, depegType.entry splStakePool stakeData = some bytes →
        depegType.minLength ≤ bytes.length := by
  cases depegType with
  | lido =>
      exact prices_entry_iff (fun _ => prices_solido) (fun _ => Solido.getVirtualPrice_of_lt) _
  | marinade =>
      refine prices_entry_iff ?_ (fun _ => Marinade.getVirtualPrice_of_lt sdk) _
      intro bytes hle
      rw [Marinade.getVirtualPrice_of_le sdk hle]
      exact prices_decoded _ _ _
  | splStake =>
      exact prices_entry_iff (fun _ _ => prices_decoded _ _ _)
        (fun _ h => absurd h (Nat.not_lt_zero _)) _
  | none => exact iff_of_true ⟨none, rfl, rfl⟩ nofun

/-! ### Accounts of solido -/

/-- An account with the supply and the balance where they belong. -/
def solidoAccount (header : List UInt8) (supply balance : UInt64) (rest : List UInt8) :
    List UInt8 :=
  header ++ (toLE 8 supply.toNat ++ (toLE 8 balance.toNat ++ rest))

theorem fields_solidoAccount (sdk : StakeSdk) {header rest : List UInt8} (supply balance : UInt64)
    (h : header.length = 73) : sdk.fields .lido (solidoAccount header supply balance rest)
      = some (balance.toNat, supply.toNat) := by
  have hsupply : (solidoAccount header supply balance rest).drop 73
      = toLE 8 supply.toNat ++ (toLE 8 balance.toNat ++ rest) := List.drop_left' h
  have hbalance : (solidoAccount header supply balance rest).drop 81
      = toLE 8 balance.toNat ++ rest := by
    rw [← List.drop_drop (i := 8) (j := 73), hsupply, List.drop_left' (length_toLE 8 _)]
  have hlt : ∀ n : UInt64, ofLE (toLE 8 n.toNat) = n.toNat := fun n => by
    rw [ofLE_toLE, Nat.mod_eq_of_lt (by exact n.toNat_lt)]
  simp only [StakeSdk.fields, hsupply, hbalance, List.take_left' (length_toLE 8 _), hlt]

/-- Crates that decode nothing. -/
def idleSdk : StakeSdk := ⟨fun _ => none, 4294967296, fun _ => none⟩

def hundredStaked (k : Pubkey) : Option (List UInt8) :=
  if k = solidoStake then some (solidoAccount (List.replicate 73 0) 100 200 []) else none

theorem stakePrice_iff_solido :
    Prices (getStakePoolVirtualPrice idleSdk .lido 0 hundredStaked) (some (200, 100)) := by
  have hrecorded : idleSdk.recorded .lido 0 hundredStaked = some (200, 100) :=
    fields_solidoAccount idleSdk 100 200 List.length_replicate
  rw [← hrecorded]
  refine (stakePrice_iff idleSdk .lido 0 hundredStaked).mpr ?_
  rintro _ ⟨⟩
  decide

/-- An account of solido that ends before the balance, and one of marinade without a
discriminator. -/
def truncated (k : Pubkey) : Option (List UInt8) :=
  if k = solidoStake then some (List.replicate 73 0 ++ toLE 8 1)
  else if k = marinadeStake then some []
  else none

/-- They record no price, and instead of saying so the function panics. -/
theorem truncated_panics :
    idleSdk.recorded .lido 0 truncated = none ∧ idleSdk.recorded .marinade 0 truncated = none ∧
    getStakePoolVirtualPrice idleSdk .lido 0 truncated = .error .panic ∧
    getStakePoolVirtualPrice idleSdk .marinade 0 truncated = .error .panic := by
  decide +kernel

end Saturn
