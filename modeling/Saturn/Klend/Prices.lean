import Saturn.Klend.Reserve
import Saturn.State.Account
import Mathlib.Data.List.ReduceOption

/-!
# Prices in klend

`utils/prices` and `state/token_info.rs`: a price is read off the oracles that the configuration of
a token enables, the most recent one counts, and a bit of its status is set for each check it
passes.

Loading a price can be put off: `price_load` is a closure, here the result it would return. A source
that fails is skipped, but a panic is not caught. The accounts of the oracles belong to other
programs: what loading one returns is part of it here (`OracleAccount`). Messages that are only
logged are left out.
-/

namespace Saturn.Klend

open Machine

/-! ## Results -/

/-- `Result::ok`: an error is dropped, a panic is not. -/
def toOk {α : Type} (m : Except Failure α) : Except Failure (Option α) :=
  match m with
  | .ok a => .ok (some a)
  | .error .panic => .error .panic
  | .error (.lending _) => .ok none

/-- `u64::try_from(..).unwrap()`. -/
def unwrapU64 (z : Int64) : Except Failure UInt64 := do
  require (0 ≤ z) Failure.panic
  return z.toUInt64

/-! ## The price of a feed -/

/-- `Price`: `value * 10 ^ -exp`, the value being of 128 bits. -/
structure Price where
  value : ℕ
  exp : UInt32

/-- `ten_pow`. -/
def tenPow (exponent : UInt32) : Except Failure ℕ := do
  require (exponent ≤ 30) Failure.panic
  return 10 ^ exponent.toNat

/-- `price_to_fraction`. A value of 128 bits, shifted, fits in the 256 of `BigFraction`. -/
def priceToFraction (price : Price) : Except Failure U68F60 := do
  let decimal ← tenPow price.exp
  unwrap (Fixed.ofBits? ((price.value * 2 ^ 60 / decimal : ℕ) : ℤ))

/-- `TimestampedPrice`. -/
structure TimestampedPrice where
  priceLoad : Except Failure U68F60
  timestamp : UInt64

/-- `TimestampedPriceWithTwap`. -/
structure TimestampedPriceWithTwap where
  price : TimestampedPrice
  twap : Option TimestampedPrice

/-- `CONFIDENCE_FACTOR`: `100 / MAX_CONFIDENCE_PERCENTAGE`. -/
def confidenceFactor : UInt64 := 50

/-- `NULL_PUBKEY` -/
def nullPubkey : Pubkey := 0xbc1eed8d074f1c337d44c164bca28d84cce1ba98a40b11c135a9c0000000000

/-- `is_enabled` of a configured key: it is neither of the two that stand for none. -/
def isSet (key : Pubkey) : Bool := key != 0 && key != nullPubkey

/-- An account of another program, and what loading it returns. -/
structure OracleAccount (α : Type) where
  key : Pubkey
  load : Except Failure α

/-! ## Pyth -/

/-- `pyth_sdk_solana::Price`. -/
structure PythPrice where
  price : Int64
  conf : UInt64
  expo : Int32
  publishTime : Int64

/-- A feed: `get_price_unchecked` and `get_ema_price_unchecked`. -/
structure PythFeed where
  price : PythPrice
  emaPrice : PythPrice

/-- `validate_pyth_confidence`. -/
def validatePythConfidence (pythPrice : PythPrice) (oracleConfidenceFactor : UInt64) :
    Except Failure Unit := do
  let price ← unwrapU64 pythPrice.price
  require (price ≠ 0) (Failure.lending .priceIsZero)
  require (pythPrice.conf.toNat * oracleConfidenceFactor.toNat < 2 ^ 64) Failure.panic
  require (¬ price < pythPrice.conf * oracleConfidenceFactor)
    (Failure.lending .priceConfidenceTooWide)

/-- `From<PythPrice> for TimestampedPrice`. The sign of the exponent is dropped. -/
def TimestampedPrice.ofPyth (pythPrice : PythPrice) : Except Failure TimestampedPrice := do
  let value ← unwrapU64 pythPrice.price
  require (pythPrice.expo ≠ Int32.minValue) Failure.panic
  let exp := UInt32.ofNat pythPrice.expo.toInt.natAbs
  let timestamp ← unwrapU64 pythPrice.publishTime
  return { priceLoad := priceToFraction ⟨value.toNat, exp⟩, timestamp }

/-- `get_pyth_price_and_twap`. -/
def getPythPriceAndTwap (pythPriceInfo : OracleAccount PythFeed) :
    Except Failure TimestampedPriceWithTwap := do
  let feed ← okOr (← toOk pythPriceInfo.load) (Failure.lending .priceNotValid)
  validatePythConfidence feed.price confidenceFactor
  let price ← TimestampedPrice.ofPyth feed.price
  let twap ← TimestampedPrice.ofPyth feed.emaPrice
  return { price, twap := some twap }

/-! ## Switchboard -/

/-- `SwitchboardDecimal`: an `i128` times `10 ^ -scale`. -/
structure SwitchboardDecimal where
  mantissa : ℤ
  scale : UInt32
  lo_le : -2 ^ 127 ≤ mantissa
  lt_hi : mantissa < 2 ^ 127

/-- `AggregatorAccountData`: `get_result`, and of the latest confirmed round the standard deviation
and when it was opened. -/
structure AggregatorAccountData where
  result : Option SwitchboardDecimal
  stdDeviation : SwitchboardDecimal
  roundOpenTimestamp : Int64

/-- The result of an operation on `i128`, if it fits. -/
def checkedI128 (z : ℤ) : Option ℤ := if -2 ^ 127 ≤ z ∧ z < 2 ^ 127 then some z else none

/-- `10_i128.checked_pow`: `10 ^ 39` does not fit. -/
def checkedPow10 (n : ℕ) : Option ℤ := if n < 39 then some (10 ^ n) else none

/-- `validate_switchboard_confidence`. -/
def validateSwitchboardConfidence (price stdev : SwitchboardDecimal)
    (oracleConfidenceFactor : UInt64) :
    Except Failure Unit := do
  let scaleDiff := if stdev.scale ≤ price.scale then price.scale - stdev.scale
    else stdev.scale - price.scale
  let scalingFactor ← okOr (checkedPow10 scaleDiff.toNat) (Failure.lending .mathOverflow)
  let scaled ← okOr (do
    let a ← checkedI128 (stdev.mantissa * oracleConfidenceFactor.toNat)
    if stdev.scale ≤ price.scale then checkedI128 (a * scalingFactor)
    else checkedI128 (a.tdiv scalingFactor)) (Failure.lending .mathOverflow)
  require (¬ price.mantissa ≤ scaled) (Failure.lending .priceConfidenceTooWide)

/-- `get_switchboard_price`. -/
def getSwitchboardPrice (feedInfo : OracleAccount AggregatorAccountData) :
    Except Failure TimestampedPrice := do
  require (feedInfo.key ≠ nullPubkey) (Failure.lending .noPriceFound)
  let feed ← feedInfo.load
  let timestamp ← unwrapU64 feed.roundOpenTimestamp
  let price ← okOr feed.result (Failure.lending .switchboardV2Error)
  require (¬ price.mantissa ≤ 0) (Failure.lending .priceIsZero)
  let priceLoad := do
    validateSwitchboardConfidence price feed.stdDeviation confidenceFactor
    priceToFraction ⟨price.mantissa.toNat, price.scale⟩
  return { priceLoad, timestamp }

/-- `get_switchboard_price_and_twap`. -/
def getSwitchboardPriceAndTwap (priceFeedInfo : OracleAccount AggregatorAccountData)
    (twapFeedInfo : Option (OracleAccount AggregatorAccountData)) :
    Except Failure TimestampedPriceWithTwap := do
  let price ← getSwitchboardPrice priceFeedInfo
  let twap ← twapFeedInfo.mapM getSwitchboardPrice
  return { price, twap }

/-! ## Scope -/

/-- An entry of `ScopePrices`. -/
structure DatedPrice where
  value : UInt64
  exp : UInt64
  unixTimestamp : UInt64

/-- `get_base_price`. -/
def getBasePrice (scopePrices : List DatedPrice) (token : UInt16) :
    Except Failure (Option (Price × UInt64)) :=
  match scopePrices[token.toNat]? with
  | none => return none
  | some dated => do
      require (dated.exp.toNat < 2 ^ 32) Failure.panic
      return some (⟨dated.value.toNat, dated.exp.toUInt32⟩, dated.unixTimestamp)

/-- `u32::checked_add`. -/
def checkedAdd32 (a b : UInt32) : Option UInt32 :=
  if a.toNat + b.toNat < 2 ^ 32 then some (a + b) else none

/-- `U128::checked_mul`. -/
def checkedMul128 (a b : ℕ) : Option ℕ := if a * b < 2 ^ 128 then some (a * b) else none

def chainPrice (priceChain : List Price) : Except Failure U68F60 := do
  let exp ← okOr (priceChain.foldlM (fun acc price => checkedAdd32 acc price.exp) 0)
    (Failure.lending .mathOverflow)
  let value ← okOr (priceChain.foldlM (fun acc price => checkedMul128 acc price.value) 1)
    (Failure.lending .mathOverflow)
  priceToFraction { value, exp }

/-- `Ord::min`. -/
def older (a b : UInt64) : UInt64 := if a ≤ b then a else b

/-- What `get_price_usd` makes of the prices at the front of the chain. -/
def chainToPrice (priceChain : List (Price × UInt64)) : Except Failure TimestampedPrice :=
  match priceChain with
  | [] => .error (.lending .noPriceFound)
  | [price] => return { priceLoad := priceToFraction price.1, timestamp := price.2 }
  | price :: rest =>
      return { priceLoad := chainPrice ((price :: rest).map Prod.fst)
               timestamp := rest.foldl (fun oldest x => older oldest x.2) price.2 }

/-- `get_price_usd`. -/
def getPriceUsd (scopePrices : List DatedPrice) (tokensChain : Vector UInt16 4) :
    Except Failure TimestampedPrice := do
  require (tokensChain ≠ #v[0, 0, 0, 0]) (Failure.lending .priceNotValid)
  let priceChainRaw ← tokensChain.toList.mapM (getBasePrice scopePrices)
  chainToPrice (priceChainRaw.takeWhile Option.isSome).reduceOption

/-! ## The configuration of a token -/

/-- `PriceHeuristic`. -/
structure PriceHeuristic where
  lower : UInt64
  upper : UInt64
  exp : UInt64

/-- `ScopeConfiguration`. -/
structure ScopeConfiguration where
  priceFeed : Pubkey
  priceChain : Vector UInt16 4
  twapChain : Vector UInt16 4

namespace ScopeConfiguration

variable (c : ScopeConfiguration)

/-- A chain that is neither all ones nor all zeros. -/
def hasChain (chain : Vector UInt16 4) : Bool :=
  chain != #v[65535, 65535, 65535, 65535] && chain != #v[0, 0, 0, 0]

/-- `ScopeConfiguration::is_enabled`. -/
def isEnabled : Bool := isSet c.priceFeed

/-- `ScopeConfiguration::has_twap`. -/
def hasTwap : Bool := hasChain c.twapChain

end ScopeConfiguration

/-- `SwitchboardConfiguration`. -/
structure SwitchboardConfiguration where
  priceAggregator : Pubkey

/-- `SwitchboardConfiguration::is_enabled`. -/
def SwitchboardConfiguration.isEnabled (c : SwitchboardConfiguration) : Bool :=
  isSet c.priceAggregator

/-- `PythConfiguration`. -/
structure PythConfiguration where
  price : Pubkey

/-- `PythConfiguration::is_enabled`. -/
def PythConfiguration.isEnabled (c : PythConfiguration) : Bool := isSet c.price

/-- `TokenInfo`, without the name. -/
structure TokenInfo where
  heuristic : PriceHeuristic
  maxTwapDivergenceBps : UInt64
  maxAgePriceSeconds : UInt64
  maxAgeTwapSeconds : UInt64
  scopeConfiguration : ScopeConfiguration
  switchboardConfiguration : SwitchboardConfiguration
  pythConfiguration : PythConfiguration
  blockPriceUsage : UInt8

/-- The oracle accounts a price is read from. -/
structure Oracles where
  pythPrice : Option (OracleAccount PythFeed)
  switchboardPrice : Option (OracleAccount AggregatorAccountData)
  switchboardTwap : Option (OracleAccount AggregatorAccountData)
  scopePrices : Option (OracleAccount (List DatedPrice))

/-- The average price of `get_scope_price_and_twap`. -/
def getScopeTwap (scopePrices : List DatedPrice) (conf : ScopeConfiguration) :
    Except Failure (Option TimestampedPrice) :=
  if conf.hasTwap then toOk (getPriceUsd scopePrices conf.twapChain) else return none

/-- `get_scope_price_and_twap`. -/
def getScopePriceAndTwap (scopePriceAccount : OracleAccount (List DatedPrice))
    (conf : ScopeConfiguration) :
    Except Failure TimestampedPriceWithTwap := do
  require (scopePriceAccount.key ≠ nullPubkey) (Failure.lending .invalidOracleConfig)
  let scopePrices ← scopePriceAccount.load
  let price ← getPriceUsd scopePrices conf.priceChain
  let twap ← getScopeTwap scopePrices conf
  return { price, twap }

namespace TokenInfo

variable (t : TokenInfo)

/-- `TokenInfo::is_twap_enabled`. -/
def isTwapEnabled : Bool := decide (0 < t.maxTwapDivergenceBps)

end TokenInfo

/-! ## The most recent price -/

/-- What an enabled source returns, if its account is there and loads. -/
def sourcePrice {α : Type} (isEnabled : Bool) (info : Option α)
    (get : α → Except Failure TimestampedPriceWithTwap) :
    Except Failure (Option TimestampedPriceWithTwap) :=
  match isEnabled, info with
  | true, some a => toOk (get a)
  | _, _ => return none

def moreRecent (current candidate : TimestampedPriceWithTwap) : TimestampedPriceWithTwap :=
  if current.price.timestamp < candidate.price.timestamp then candidate else current

/-- `Iterator::reduce`. -/
def reduce {α : Type} (f : α → α → α) : List α → Option α
  | [] => none
  | a :: l => some (l.foldl f a)

/-- `get_most_recent_price_and_twap`. -/
def getMostRecentPriceAndTwap (t : TokenInfo) (o : Oracles) :
    Except Failure TimestampedPriceWithTwap := do
  let pythPrice ← sourcePrice t.pythConfiguration.isEnabled o.pythPrice getPythPriceAndTwap
  let switchboardTwap := if t.isTwapEnabled then o.switchboardTwap else none
  let switchboardPrice ← sourcePrice t.switchboardConfiguration.isEnabled o.switchboardPrice
    (getSwitchboardPriceAndTwap · switchboardTwap)
  let scopePrice ← sourcePrice t.scopeConfiguration.isEnabled o.scopePrices
    (getScopePriceAndTwap · t.scopeConfiguration)
  okOr (reduce moreRecent [pythPrice, switchboardPrice, scopePrice].reduceOption)
    (Failure.lending .priceNotValid)

/-! ## Checks -/

/-- `PriceStatusFlags`: a bit for each check. -/
structure PriceStatusFlags where
  priceLoaded : Bool
  priceAgeChecked : Bool
  twapChecked : Bool
  twapAgeChecked : Bool
  heuristicChecked : Bool
  priceUsageAllowed : Bool
  deriving DecidableEq

/-- `PriceStatusFlags::bits`. -/
def PriceStatusFlags.bits (s : PriceStatusFlags) : UInt8 :=
  s.priceLoaded.toUInt8 ||| s.priceAgeChecked.toUInt8 <<< 1 ||| s.twapChecked.toUInt8 <<< 2 |||
    s.twapAgeChecked.toUInt8 <<< 3 ||| s.heuristicChecked.toUInt8 <<< 4 |||
    s.priceUsageAllowed.toUInt8 <<< 5

/-- `GetPriceResult`. -/
structure GetPriceResult where
  price : U68F60
  timestamp : UInt64
  status : PriceStatusFlags

/-- `check_price_age`. -/
def checkPriceAge (priceTimestamp maxAgeSeconds currentTimestamp : UInt64) :
    Except Failure Unit := do
  let ageSeconds := currentTimestamp.toNat - priceTimestamp.toNat
  require (¬ maxAgeSeconds.toNat < ageSeconds) (Failure.lending .priceTooOld)

/-- `abs_diff`. -/
def absDiff (a b : U68F60) : U68F60 where
  bits := |a.bits - b.bits|
  lo_le := abs_nonneg _
  lt_hi := by
    have ha := a.bits_lt
    have hb := b.bits_lt
    have ha' := a.bits_nonneg
    have hb' := b.bits_nonneg
    simp only [FixedFormat.u68f60]
    rw [abs_lt]
    omega

/-- `is_within_tolerance`. -/
def isWithinTolerance (p : Profile) (px twap : U68F60) (acceptableToleranceBps : UInt64) :
    Except Failure Bool := do
  let diffBpsScaled ← (absDiff px twap).mulInt p 10000
  let toleranceScaled ← px.mulInt p acceptableToleranceBps.toNat
  return decide (diffBpsScaled < toleranceScaled)

/-- `check_twap_in_tolerance`. -/
def checkTwapInTolerance (p : Profile) (price twap : U68F60) (t : TokenInfo) :
    Except Failure Unit := do
  require ((← isWithinTolerance p price twap t.maxTwapDivergenceBps) = true)
    (Failure.lending .priceTooDivergentFromTwap)

/-- A bound of the heuristic; zero is none. -/
def heuristicBound (value exp : UInt64) : Except Failure (Option U68F60) :=
  if 0 < value then do
    require (exp.toNat < 2 ^ 32) Failure.panic
    return some (← priceToFraction ⟨value.toNat, exp.toUInt32⟩)
  else return none

/-- `check_price_heuristics`. -/
def checkPriceHeuristics (tokenPrice : U68F60) (h : PriceHeuristic) : Except Failure Unit := do
  let lower ← heuristicBound h.lower h.exp
  require (∀ bound ∈ lower, ¬ tokenPrice < bound) (Failure.lending .priceIsLowerThanHeuristic)
  let upper ← heuristicBound h.upper h.exp
  require (∀ bound ∈ upper, ¬ bound < tokenPrice) (Failure.lending .priceIsBiggerThanHeuristic)

def passes (m : Except Failure Unit) : Except Failure Bool := do return (← toOk m).isSome

/-- The two checks of a required average price: its distance from the price, and its age. -/
def checkTwap (p : Profile) (price : U68F60) (twap : Option TimestampedPrice) (t : TokenInfo)
    (now : UInt64) : Except Failure (Bool × Bool) :=
  match twap with
  | none => return (false, false)
  | some twap => do
      let ageChecked ← passes (checkPriceAge twap.timestamp t.maxAgeTwapSeconds now)
      let checked ← passes do checkTwapInTolerance p price (← twap.priceLoad) t
      return (checked, ageChecked)

/-- The flags of the average price: where none is required, both are set. -/
def twapFlags (p : Profile) (price : U68F60) (twap : Option TimestampedPrice) (t : TokenInfo)
    (now : UInt64) : Except Failure (Bool × Bool) :=
  if t.isTwapEnabled then checkTwap p price twap t now else return (true, true)

/-- `get_validated_price`, once the price is loaded. -/
def validatePrice (p : Profile) (price : U68F60) (priceAndTwap : TimestampedPriceWithTwap)
    (t : TokenInfo) (now : UInt64) : Except Failure GetPriceResult := do
  let priceAgeChecked ← passes (checkPriceAge priceAndTwap.price.timestamp t.maxAgePriceSeconds now)
  let twap ← twapFlags p price priceAndTwap.twap t now
  let heuristicChecked ← passes (checkPriceHeuristics price t.heuristic)
  return {
    price
    timestamp := priceAndTwap.price.timestamp
    status := {
      priceLoaded := true
      priceAgeChecked
      twapChecked := twap.1
      twapAgeChecked := twap.2
      heuristicChecked
      priceUsageAllowed := decide (t.blockPriceUsage = 0) } }

/-- `get_validated_price`. -/
def getValidatedPrice (p : Profile) (priceAndTwap : TimestampedPriceWithTwap) (t : TokenInfo)
    (unixTimestamp : Int64) : Except Failure (Option GetPriceResult) := do
  let now ← unwrapU64 unixTimestamp
  match ← toOk priceAndTwap.price.priceLoad with
  | none => return none
  | some price => return some (← validatePrice p price priceAndTwap t now)

/-- `get_price`. -/
def getPrice (p : Profile) (t : TokenInfo) (o : Oracles) (unixTimestamp : Int64) :
    Except Failure (Option GetPriceResult) := do
  let price ← getMostRecentPriceAndTwap t o
  getValidatedPrice p price t unixTimestamp

end Saturn.Klend
