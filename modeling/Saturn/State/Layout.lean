import Saturn.State.Account
import Saturn.Codec.Bytes

/-!
# The accounts as bytes

Anchor keeps an account as an eight-byte discriminator and a serialization, Borsh for three of the
four types and the bytes in memory for `Escrow`, in a buffer whose length the `init` constraint that
creates it gives. The constraints of `initialize` spell a number, those of the staking and bond
contexts compute one from `mem::size_of`. Only the latter leave room for what is written.
-/

namespace Saturn

open Codec

/-! ## The serializations -/

/-- The 32 bytes of a key, which is read as a big-endian number. -/
def Pubkey.codec : Codec Pubkey :=
  (Codec.le 32 (fun k => k.val.val) (fun n => OfNat.ofNat n) (by
    rintro ⟨k⟩
    rw [Nat.mod_eq_of_lt (by exact k.isLt)]
    exact congrArg Pubkey.mk (Fin.ofNat_val_eq_self k))).reversed

/-- The fields in their order, each `f64` by its bits. -/
def Treasury.codec : Codec (Treasury Double) :=
  (Pubkey.codec.seq <| u64.seq <| f64.seq <| u64.seq <| u64.seq <| u64.seq <| f64.seq <| f64.seq <|
    u64.seq <| f64.seq <| f64.seq <| u64.seq <| f64.seq <| f64.seq <| f64.seq <| f64.seq <|
    f64.seq <| f64.seq <| f64.seq <| f64.seq <| f64.seq f64).via
  (fun t => (t.treasuryAdmin, t.stakingIndex, t.treasuryValue, t.tokenMinted, t.tokenStaked,
    t.meteoraDepositAssets, t.meteoraDepositValue, t.meteoraAllocation, t.kaminoLendAssets,
    t.kaminoLendValue, t.kaminoAllocation, t.marginfiLendAssets, t.marginfiLendValue,
    t.marginfiAllocation, t.jupiterPerpsValue, t.jupiterAllocation, t.usdcAllocation, t.usdcValue,
    t.wbtcAllocation, t.wbtcValue, t.solAllocation, t.solValue))
  (fun (treasuryAdmin, stakingIndex, treasuryValue, tokenMinted, tokenStaked,
    meteoraDepositAssets, meteoraDepositValue, meteoraAllocation, kaminoLendAssets,
    kaminoLendValue, kaminoAllocation, marginfiLendAssets, marginfiLendValue,
    marginfiAllocation, jupiterPerpsValue, jupiterAllocation, usdcAllocation, usdcValue,
    wbtcAllocation, wbtcValue, solAllocation, solValue) =>
    { treasuryAdmin, stakingIndex, treasuryValue, tokenMinted, tokenStaked, meteoraDepositAssets,
      meteoraDepositValue, meteoraAllocation, kaminoLendAssets, kaminoLendValue, kaminoAllocation,
      marginfiLendAssets, marginfiLendValue, marginfiAllocation, jupiterPerpsValue,
      jupiterAllocation, usdcAllocation, usdcValue, wbtcAllocation, wbtcValue, solAllocation,
      solValue })
  fun _ => rfl

def SequenceFlag.codec : Codec SequenceFlag :=
  (bool.seq <| bool.seq <| bool.seq <| bool.seq <| bool.seq <| bool.seq bool).via
  (fun s => (s.flagCalcuBalance, s.flagReallocate, s.flagMarginfi, s.flagKamino, s.flagMeteora,
    s.flagJupiter, s.flagSwap))
  (fun (flagCalcuBalance, flagReallocate, flagMarginfi, flagKamino, flagMeteora, flagJupiter,
    flagSwap) =>
    { flagCalcuBalance, flagReallocate, flagMarginfi, flagKamino, flagMeteora, flagJupiter,
      flagSwap })
  fun _ => rfl

def UserStakeAccount.codec : Codec UserStakeAccount :=
  (u64.seq u64).via (fun a => (a.totalStakedIndex, a.totalPoints))
    (fun (totalStakedIndex, totalPoints) => { totalStakedIndex, totalPoints }) fun _ => rfl

/-- `#[account(zero_copy)]`: the bytes of the record in memory, which leave no gap between its
fields. -/
def Escrow.codec : Codec Escrow :=
  (Pubkey.codec.seq <| Pubkey.codec.seq <| u64.seq <| i64.seq <| i64.seq <| u64.seq u64).via
  (fun e => (e.creator, e.tokenMint, e.tokenAmount, e.startTimestamp, e.endTimestamp,
    e.numTokenToRedeem, e.isFinished))
  (fun (creator, tokenMint, tokenAmount, startTimestamp, endTimestamp, numTokenToRedeem,
    isFinished) =>
    { creator, tokenMint, tokenAmount, startTimestamp, endTimestamp, numTokenToRedeem,
      isFinished })
  fun _ => rfl

/-- `0.0` -/
instance : Zero Double := ⟨⟨0⟩⟩

theorem Pubkey.total_codec : Pubkey.codec.Total := total_le.reversed

theorem UserStakeAccount.total_codec : UserStakeAccount.codec.Total :=
  (total_u64.seq total_u64).via

theorem Escrow.total_codec : Escrow.codec.Total :=
  (Pubkey.total_codec.seq <| Pubkey.total_codec.seq <| total_u64.seq <| total_i64.seq <|
    total_i64.seq <| total_u64.seq total_u64).via

/-! ## `mem::size_of` -/

/-- Size and alignment of a type. -/
structure Repr where
  size : ℕ
  align : ℕ

def Repr.pubkey : Repr := ⟨32, 1⟩

def Repr.u64 : Repr := ⟨8, 8⟩

def Repr.i64 : Repr := ⟨8, 8⟩

/-- The first multiple of `align` from `n` on. -/
def alignUp (n align : ℕ) : ℕ := (n + align - 1) / align * align

/-- Where the next field may start, after fields laid out in this order. -/
def endOf (fields : List Repr) : ℕ := fields.foldl (fun n r => alignUp n r.align + r.size) 0

/-- `mem::size_of` of a record. -/
def sizeOf (fields : List Repr) : ℕ :=
  alignUp (endOf fields) ((fields.map Repr.align).foldl max 1)

def UserStakeAccount.repr : List Repr := [.u64, .u64]

def Escrow.repr : List Repr := [.pubkey, .pubkey, .u64, .i64, .i64, .u64, .u64]

example : sizeOf Escrow.repr = (Escrow.repr.map Repr.size).sum := by decide

/-! ## The buffers -/

/-- The types of account that the program owns. -/
inductive AccountType where
  | treasury
  | sequenceFlag
  | userStakeAccount
  | escrow
  deriving DecidableEq

namespace AccountType

def Value : AccountType → Type
  | treasury => Treasury Double
  | sequenceFlag => SequenceFlag
  | userStakeAccount => UserStakeAccount
  | escrow => Escrow

def codec : (k : AccountType) → Codec k.Value
  | treasury => Treasury.codec
  | sequenceFlag => SequenceFlag.codec
  | userStakeAccount => UserStakeAccount.codec
  | escrow => Escrow.codec

/-- `space`, as the constraint that creates the account spells it. -/
def space : AccountType → ℕ
  | treasury => 184
  | sequenceFlag => 7
  | userStakeAccount => sizeOf UserStakeAccount.repr + 8
  | escrow => sizeOf Escrow.repr + 8

/-- What Anchor does with a value when the handler has returned: the discriminator and the
serialization go to the front of the account's buffer. -/
def exit (k : AccountType) (discriminator : Vector UInt8 8) (v : k.Value) (buf : List UInt8) :
    Option (List UInt8) :=
  writeBack discriminator.toList k.codec v buf

/-- What Anchor makes of the buffer when the account is passed to the next call. -/
def load (k : AccountType) (discriminator : Vector UInt8 8) (buf : List UInt8) : Option k.Value :=
  readBack discriminator.toList k.codec buf

theorem space_eq : treasury.space + 24 = 8 + treasury.codec.size ∧
    sequenceFlag.space + 8 = 8 + sequenceFlag.codec.size ∧
    userStakeAccount.space = 8 + userStakeAccount.codec.size ∧
    escrow.space = 8 + escrow.codec.size := by
  decide

/-- A value survives in the buffer that was allocated for it iff it is a stake account or an
escrow. -/
theorem buffer_holds_iff (k : AccountType) (discriminator : Vector UInt8 8) (v : k.Value)
    (buf : List UInt8) (hbuf : buf.length = k.space) :
    (∃ out, k.exit discriminator v buf = some out ∧ k.load discriminator out = some v) ↔
      k = userStakeAccount ∨ k = escrow := by
  obtain ⟨htreasury, hflag, huser, hescrow⟩ := space_eq
  have hiff : (∃ out, k.exit discriminator v buf = some out ∧ k.load discriminator out = some v) ↔
      (k.codec.encode v).isSome ∧ 8 + k.codec.size ≤ k.space := by
    rw [← hbuf, ← discriminator.length_toList]
    exact writeBack_readBack_iff
  rw [hiff]
  cases k with
  | treasury =>
      constructor
      · rintro ⟨-, hroom⟩
        omega
      · simp
  | sequenceFlag =>
      constructor
      · rintro ⟨-, hroom⟩
        omega
      · simp
  | userStakeAccount =>
      constructor
      · intro _
        exact .inl rfl
      · intro _
        exact ⟨UserStakeAccount.total_codec v, huser.ge⟩
  | escrow =>
      constructor
      · intro _
        exact .inr rfl
      · intro _
        exact ⟨Escrow.total_codec v, hescrow.ge⟩

/-- A stake account in the zeroed buffer of a new one. -/
theorem buffer_holds_iff_stake : ∃ out,
    userStakeAccount.exit (.replicate 8 1) (⟨5, 0⟩ : UserStakeAccount) (.replicate 24 0)
        = some out ∧
      userStakeAccount.load (.replicate 8 1) out = some (⟨5, 0⟩ : UserStakeAccount) :=
  (buffer_holds_iff userStakeAccount (.replicate 8 1) _ _ (by decide)).mpr (.inl rfl)

/-- What `initialize` sets for the admin `7` fits into neither of the buffers it creates. -/
theorem initialize_writes_nothing_back :
    treasury.exit (.replicate 8 1) { (Treasury.default : Treasury Double) with
        treasuryAdmin := 7
        stakingIndex := 1 } (.replicate 184 0) = none ∧
      sequenceFlag.exit (.replicate 8 1)
        (⟨false, false, false, false, false, false, false⟩ : SequenceFlag)
        (.replicate 7 0) = none := by
  constructor
  · apply writeBack_eq_none
    rw [List.length_replicate]
    decide
  · apply writeBack_eq_none
    decide

end AccountType

end Saturn
