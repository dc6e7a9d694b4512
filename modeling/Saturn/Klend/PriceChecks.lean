import Saturn.Klend.Prices
import Saturn.Klend.ReserveRuns
import Mathlib.Data.List.MinMax
import Mathlib.Algebra.Order.BigOperators.GroupWithZero.List
import Mathlib.Tactic.FieldSimp

/-!
# What a price in klend has passed

* A Scope chain loads the exact product of its prices, rounded down once, and is as old as the
  oldest of them (`getPriceUsd_exact`).
* Switchboard's confidence is checked without rounding (`validateSwitchboardConfidence_eq_ok`).
* A price is the one of the most recent source that loads, which has passed its own check
  (`getPrice_quoted`).
* Each bit of its status stands for what it says: a reserve that was refreshed with the price is not
  stale exactly if the price meets the checks that are required (`getPrice_checked`).
-/

namespace Saturn.Klend

open Machine

/-! ## Conversion -/

/-- What a price stands for. -/
def Price.worth (q : Price) : ℚ := q.value / 10 ^ q.exp.toNat

theorem priceToFraction_eq_ok {q : Price} {f : U68F60} :
    priceToFraction q = .ok f ↔ q.exp ≤ 30 ∧ f.bits = ⌊q.worth * 2 ^ 60⌋ := by
  have hfloor : ⌊q.worth * 2 ^ 60⌋ = ((q.value * 2 ^ 60 / 10 ^ q.exp.toNat : ℕ) : ℤ) := by
    rw [Int.natCast_ediv, ← Rat.floor_natCast_div_natCast, Price.worth]
    push_cast
    rw [div_mul_eq_mul_div]
    norm_num
  simp only [priceToFraction, tenPow, bind_eq_ok, require_eq_ok, pure_eq_ok, unwrap_eq_ok,
    Fixed.ofBits?_eq_some, exists_const, hfloor]
  constructor
  · rintro ⟨_, ⟨hexp, rfl⟩, hbits⟩
    exact ⟨hexp, hbits⟩
  · rintro ⟨hexp, hbits⟩
    exact ⟨_, ⟨hexp, rfl⟩, hbits⟩

theorem priceToFraction_onlyPanics (q : Price) : OnlyPanics (priceToFraction q) := by
  apply OnlyPanics.bind
  · apply OnlyPanics.bind
    · intro e h
      exact (require_eq_error.mp h).2.symm
    · intro _
      exact OnlyPanics.pure _
  · intro _ e h
    exact (okOr_eq_error.mp h).2.symm

/-! ## Scope chains -/

section

variable {prices : List DatedPrice} {chain : Vector UInt16 4} {t : TimestampedPrice} {f : U68F60}

def DatedPrice.worth (d : DatedPrice) : ℚ := d.value.toNat / 10 ^ d.exp.toNat

/-- The entries of a chain, up to the first that is out of range. -/
def pricesOf (prices : List DatedPrice) (chain : Vector UInt16 4) : List DatedPrice :=
  ((chain.toList.map fun id => prices[id.toNat]?).takeWhile Option.isSome).reduceOption

/-- An entry as the chain carries it. -/
def DatedPrice.base (d : DatedPrice) : Price × UInt64 :=
  (⟨d.value.toNat, d.exp.toUInt32⟩, d.unixTimestamp)

theorem getBasePrice_eq_ok {id : UInt16} {o : Option (Price × UInt64)} :
    getBasePrice prices id = .ok o ↔
      o = (prices[id.toNat]?).map DatedPrice.base ∧
        ∀ d ∈ prices[id.toNat]?, d.exp.toNat < 2 ^ 32 := by
  unfold getBasePrice
  cases prices[id.toNat]? with
  | none =>
      rw [pure_eq_ok]
      simp [eq_comm]
  | some d =>
      simp only [bind_eq_ok, require_eq_ok, pure_eq_ok, exists_const]
      simp [DatedPrice.base, eq_comm, and_comm]

theorem mapM_getBasePrice {ids : List UInt16} {raw : List (Option (Price × UInt64))} :
    ids.mapM (getBasePrice prices) = .ok raw ↔
      raw = (ids.map fun id => prices[id.toNat]?).map (Option.map DatedPrice.base) ∧
      ∀ id ∈ ids, ∀ d ∈ prices[id.toNat]?, d.exp.toNat < 2 ^ 32 := by
  induction ids generalizing raw with
  | nil =>
      rw [List.mapM_nil, pure_eq_ok]
      simp [eq_comm]
  | cons id ids ih =>
      simp only [List.mapM_cons, bind_eq_ok, pure_eq_ok, getBasePrice_eq_ok, ih, List.map_cons,
        List.forall_mem_cons]
      constructor
      · rintro ⟨o, ⟨ho, hexp⟩, rest, ⟨hrest, hexps⟩, hraw⟩
        subst ho hrest hraw
        exact ⟨rfl, hexp, hexps⟩
      · rintro ⟨hraw, hexp, hexps⟩
        exact ⟨_, ⟨rfl, hexp⟩, _, ⟨rfl, hexps⟩, hraw.symm⟩

theorem takeWhile_map_base (l : List (Option DatedPrice)) :
    ((l.map (Option.map DatedPrice.base)).takeWhile Option.isSome).reduceOption
      = (l.takeWhile Option.isSome).reduceOption.map DatedPrice.base := by
  rw [List.takeWhile_map, List.reduceOption_map]
  have hsame : (Option.isSome ∘ Option.map DatedPrice.base) = Option.isSome := by
    funext o
    simp
  rw [hsame]

theorem getPriceUsd_eq_ok : getPriceUsd prices chain = .ok t ↔
    chain ≠ #v[0, 0, 0, 0] ∧
      (∀ id ∈ chain.toList, ∀ d ∈ prices[id.toNat]?, d.exp.toNat < 2 ^ 32) ∧
      chainToPrice ((pricesOf prices chain).map DatedPrice.base) = .ok t := by
  simp only [getPriceUsd, bind_eq_ok, require_eq_ok, mapM_getBasePrice, exists_const]
  constructor
  · rintro ⟨hne, raw, ⟨hraw, hexp⟩, ht⟩
    rw [hraw, takeWhile_map_base] at ht
    exact ⟨hne, hexp, ht⟩
  · rintro ⟨hne, hexp, ht⟩
    refine ⟨hne, _, ⟨rfl, hexp⟩, ?_⟩
    rw [takeWhile_map_base]
    exact ht

theorem foldlM_checkedAdd32 {l : List Price} {a b : UInt32} :
    l.foldlM (fun acc q => checkedAdd32 acc q.exp) a = some b ↔
      b.toNat = a.toNat + (l.map fun q => q.exp.toNat).sum := by
  induction l generalizing a with
  | nil => simp [← UInt32.toNat_inj, eq_comm]
  | cons q l ih =>
      have hlt := b.toNat_lt
      rw [List.foldlM_cons, List.map_cons, List.sum_cons, checkedAdd32]
      split
      · rename_i hfits
        have hsum : (a + q.exp).toNat = a.toNat + q.exp.toNat := by
          rw [UInt32.toNat_add, Nat.mod_eq_of_lt hfits]
        show l.foldlM _ (a + q.exp) = some b ↔ _
        rw [ih, hsum, add_assoc]
      · rename_i hover
        show (none : Option UInt32) = some b ↔ _
        simp only [reduceCtorEq, false_iff]
        omega

theorem foldlM_checkedMul128 {l : List Price} {a b : ℕ}
    (h : l.foldlM (fun acc q => checkedMul128 acc q.value) a = some b) :
    b = a * (l.map Price.value).prod := by
  induction l generalizing a with
  | nil =>
      cases h
      simp
  | cons q l ih =>
      rw [List.foldlM_cons, Option.bind_eq_bind, Option.bind_eq_some_iff] at h
      obtain ⟨c, hc, hrest⟩ := h
      unfold checkedMul128 at hc
      split at hc
      · cases hc
        rw [ih hrest, List.map_cons, List.prod_cons, mul_assoc]
      · cases hc

theorem foldlM_checkedMul128_of_lt {l : List Price} {a : ℕ} (hpos : ∀ q ∈ l, 0 < q.value)
    (h : a * (l.map Price.value).prod < 2 ^ 128) :
    l.foldlM (fun acc q => checkedMul128 acc q.value) a = some (a * (l.map Price.value).prod) := by
  induction l generalizing a with
  | nil => simp
  | cons q l ih =>
      rw [List.forall_mem_cons] at hpos
      rw [List.map_cons, List.prod_cons, ← mul_assoc] at h ⊢
      have hrest : 0 < (l.map Price.value).prod := by
        apply List.prod_pos
        intro v hv
        obtain ⟨q, hq, rfl⟩ := List.mem_map.mp hv
        exact hpos.2 q hq
      have hfirst : a * q.value < 2 ^ 128 := lt_of_le_of_lt (Nat.le_mul_of_pos_right _ hrest) h
      rw [List.foldlM_cons, checkedMul128, if_pos hfirst]
      exact ih hpos.2 h

theorem prod_worth (l : List Price) : (l.map Price.worth).prod =
    ((l.map Price.value).prod : ℕ) / 10 ^ (l.map fun q => q.exp.toNat).sum := by
  induction l with
  | nil => simp
  | cons q l ih =>
      rw [List.map_cons, List.prod_cons, ih, Price.worth, List.map_cons, List.prod_cons,
        List.map_cons, List.sum_cons, div_mul_div_comm, ← pow_add]
      push_cast
      rfl

theorem chainPrice_bits {l : List Price} (h : chainPrice l = .ok f) :
    f.bits = ⌊(l.map Price.worth).prod * 2 ^ 60⌋ := by
  simp only [chainPrice, bind_eq_ok, okOr_eq_ok, foldlM_checkedAdd32, priceToFraction_eq_ok] at h
  obtain ⟨exp, hexp, value, hvalue, -, hbits⟩ := h
  have hprod := foldlM_checkedMul128 hvalue
  have hzero : (0 : UInt32).toNat = 0 := rfl
  rw [hzero, zero_add] at hexp
  rw [one_mul] at hprod
  rw [hbits, prod_worth, Price.worth, hexp, hprod]

/-- Positive prices whose values have a product of 128 bits, and at most thirty decimals together,
load if what they come to fits. -/
theorem exists_chainPrice {l : List Price} (hpos : ∀ q ∈ l, 0 < q.value)
    (hvalue : (l.map Price.value).prod < 2 ^ 128) (hexp : (l.map fun q => q.exp.toNat).sum ≤ 30)
    (hfits : (l.map Price.worth).prod < 2 ^ 68) : ∃ f, chainPrice l = .ok f := by
  have hdecimals : (UInt32.ofNat (l.map fun q => q.exp.toNat).sum).toNat
      = (l.map fun q => q.exp.toNat).sum := by
    rw [UInt32.toNat_ofNat']
    exact Nat.mod_eq_of_lt (by omega)
  have hnonneg : 0 ≤ (l.map Price.worth).prod := by
    rw [prod_worth]
    positivity
  have hlt : (l.map Price.worth).prod * 2 ^ 60 < ((2 ^ 128 : ℤ) : ℚ) := by
    push_cast
    linarith
  have hle : 30 = (30 : UInt32).toNat := rfl
  refine ⟨⟨⌊(l.map Price.worth).prod * 2 ^ 60⌋, Int.floor_nonneg.mpr (by positivity),
    Int.floor_lt.mpr hlt⟩, ?_⟩
  simp only [chainPrice, bind_eq_ok, okOr_eq_ok, foldlM_checkedAdd32, priceToFraction_eq_ok]
  refine ⟨UInt32.ofNat _, hdecimals.trans (Nat.zero_add _).symm, _,
    foldlM_checkedMul128_of_lt hpos (by rwa [one_mul]), ?_, ?_⟩
  · rw [UInt32.le_iff_toNat_le, hdecimals]
    exact hexp
  · rw [prod_worth, Price.worth, hdecimals, one_mul]

theorem chainPrice_singleton {q : Price} (hvalue : q.value < 2 ^ 128) :
    chainPrice [q] = priceToFraction q := by
  have hexp : checkedAdd32 0 q.exp = some q.exp := by
    have hlt := q.exp.toNat_lt
    rw [checkedAdd32, if_pos (by rw [UInt32.toNat_zero]; omega), UInt32.zero_add]
  have hmul : checkedMul128 1 q.value = some q.value := by
    rw [checkedMul128, one_mul, if_pos hvalue]
  simp only [chainPrice, List.foldlM_cons, List.foldlM_nil, hexp, hmul]
  rfl

theorem older_le (a b : UInt64) : older a b ≤ a ∧ older a b ≤ b := by
  unfold older
  simp only [UInt64.le_iff_toNat_le]
  split <;> omega

theorem older_mem (a b : UInt64) : older a b = a ∨ older a b = b := by
  unfold older
  split
  · exact .inl rfl
  · exact .inr rfl

theorem foldl_older (l : List (Price × UInt64)) (a : UInt64) :
    (∀ x ∈ a :: l.map Prod.snd, l.foldl (fun oldest x => older oldest x.2) a ≤ x) ∧
      l.foldl (fun oldest x => older oldest x.2) a ∈ a :: l.map Prod.snd := by
  induction l generalizing a with
  | nil => simp
  | cons x l ih =>
      obtain ⟨hle, hmem⟩ := ih (older a x.2)
      rw [List.forall_mem_cons] at hle
      obtain ⟨hfirst, hrest⟩ := hle
      obtain ⟨ha, hx⟩ := older_le a x.2
      rw [List.foldl_cons, List.map_cons]
      constructor
      · simp only [List.forall_mem_cons]
        exact ⟨UInt64.le_trans hfirst ha, UInt64.le_trans hfirst hx, hrest⟩
      · rcases List.mem_cons.mp hmem with heq | hmem
        · rw [heq]
          rcases older_mem a x.2 with h | h
          all_goals
            rw [h]
            simp
        · exact List.mem_cons_of_mem _ (List.mem_cons_of_mem _ hmem)

theorem chainToPrice_eq_ok {l : List (Price × UInt64)} (hvalue : ∀ x ∈ l, x.1.value < 2 ^ 128) :
    chainToPrice l = .ok t ↔ ∃ price rest, l = price :: rest ∧
      t = ⟨chainPrice (l.map Prod.fst), rest.foldl (fun oldest x => older oldest x.2) price.2⟩ := by
  match l with
  | [] => simp [chainToPrice]
  | [price] =>
      rw [List.map_singleton, chainPrice_singleton (hvalue price List.mem_cons_self), chainToPrice,
        pure_eq_ok]
      simp [eq_comm]
  | price :: x :: rest =>
      rw [chainToPrice, pure_eq_ok]
      · simp [eq_comm]
      · simp

theorem map_base {α : Type} {ds : List DatedPrice} {g : Price → α} {k : DatedPrice → α}
    (h : ∀ d ∈ ds, g d.base.1 = k d) :
    ((ds.map DatedPrice.base).map Prod.fst).map g = ds.map k := by
  rw [List.map_map, List.map_map]
  exact List.map_congr_left h

theorem base_exp {d : DatedPrice} (h : d.exp.toNat < 2 ^ 32) :
    d.base.1.exp.toNat = d.exp.toNat := by
  show d.exp.toUInt32.toNat = _
  rw [UInt64.toNat_toUInt32]
  exact Nat.mod_eq_of_lt h

theorem base_worth {d : DatedPrice} (h : d.exp.toNat < 2 ^ 32) : d.base.1.worth = d.worth := by
  rw [Price.worth, base_exp h]
  rfl

theorem mem_pricesOf {d : DatedPrice} (h : d ∈ pricesOf prices chain) :
    ∃ id ∈ chain.toList, d ∈ prices[id.toNat]? := by
  rw [pricesOf, List.reduceOption_mem_iff] at h
  obtain ⟨id, hid, heq⟩ := List.mem_map.mp ((List.takeWhile_prefix _).subset h)
  exact ⟨id, hid, heq⟩

theorem pricesOf_exp_lt (h : getPriceUsd prices chain = .ok t) :
    ∀ d ∈ pricesOf prices chain, d.exp.toNat < 2 ^ 32 := by
  intro d hd
  obtain ⟨id, hid, hmem⟩ := mem_pricesOf hd
  exact (getPriceUsd_eq_ok.mp h).2.1 id hid d hmem

/-- What `get_price_usd` returns is what the prices at the front of the chain come to. -/
theorem getPriceUsd_eq_chain (h : getPriceUsd prices chain = .ok t) : ∃ price rest,
    (pricesOf prices chain).map DatedPrice.base = price :: rest ∧
      t = ⟨chainPrice (((pricesOf prices chain).map DatedPrice.base).map Prod.fst),
        rest.foldl (fun oldest x => older oldest x.2) price.2⟩ := by
  have hvalue : ∀ x ∈ (pricesOf prices chain).map DatedPrice.base, x.1.value < 2 ^ 128 := by
    intro x hx
    obtain ⟨d, -, rfl⟩ := List.mem_map.mp hx
    have hlt := d.value.toNat_lt
    exact lt_trans hlt (by norm_num)
  exact (chainToPrice_eq_ok hvalue).mp (getPriceUsd_eq_ok.mp h).2.2

/-- What a Scope chain loads is the exact product of its prices, rounded down once. -/
theorem getPriceUsd_load (h : getPriceUsd prices chain = .ok t) (hf : t.priceLoad = .ok f) :
    f.bits = ⌊((pricesOf prices chain).map DatedPrice.worth).prod * 2 ^ 60⌋ := by
  obtain ⟨price, rest, -, rfl⟩ := getPriceUsd_eq_chain h
  rw [chainPrice_bits hf, map_base fun d hd => base_worth (pricesOf_exp_lt h d hd)]

/-- A Scope chain is as old as the oldest of its prices, and what it loads is their exact product,
rounded down once. It loads if no price is zero, they have at most thirty decimals together, and the
product of the values and what it stands for fit. -/
theorem getPriceUsd_exact (h : getPriceUsd prices chain = .ok t) :
    (∀ d ∈ pricesOf prices chain, t.timestamp ≤ d.unixTimestamp) ∧
    (∃ d ∈ pricesOf prices chain, d.unixTimestamp = t.timestamp) ∧
    (∀ f, t.priceLoad = .ok f →
      f.bits = ⌊((pricesOf prices chain).map DatedPrice.worth).prod * 2 ^ 60⌋) ∧
    ((∀ d ∈ pricesOf prices chain, d.value ≠ 0) →
      ((pricesOf prices chain).map fun d => d.value.toNat).prod < 2 ^ 128 →
      ((pricesOf prices chain).map fun d => d.exp.toNat).sum ≤ 30 →
      ((pricesOf prices chain).map DatedPrice.worth).prod < 2 ^ 68 → ∃ f, t.priceLoad = .ok f) := by
  have hexp := pricesOf_exp_lt h
  obtain ⟨price, rest, hlist, rfl⟩ := getPriceUsd_eq_chain h
  -- the timestamp is a fold of `older` over the chain
  obtain ⟨hle, hmem⟩ := foldl_older rest price.2
  have htimes : price.2 :: rest.map Prod.snd
      = (pricesOf prices chain).map DatedPrice.unixTimestamp := by
    rw [← List.map_cons, ← hlist, List.map_map]
    rfl
  rw [htimes] at hle hmem
  refine ⟨?_, ?_, ?_, ?_⟩
  · intro d hd
    exact hle _ (List.mem_map_of_mem hd)
  · obtain ⟨d, hd, heq⟩ := List.mem_map.mp hmem
    exact ⟨d, hd, heq⟩
  · intro f hf
    exact getPriceUsd_load h hf
  · intro hpos hprod hsum hfits
    apply exists_chainPrice
    · intro q hq
      obtain ⟨x, hx, rfl⟩ := List.mem_map.mp hq
      obtain ⟨d, hd, rfl⟩ := List.mem_map.mp hx
      exact ne_zero_iff_toNat_pos.mp (hpos d hd)
    · rw [map_base fun d _ => rfl]
      exact hprod
    · rw [map_base fun d hd => base_exp (hexp d hd)]
      exact hsum
    · rw [map_base fun d hd => base_worth (hexp d hd)]
      exact hfits

/-- A hundred and one, with two decimals; ten, with one; and two. -/
def threePrices : List DatedPrice := [⟨101, 2, 30⟩, ⟨10, 1, 20⟩, ⟨2, 0, 40⟩]

/-- A chain of them all, the last id being out of range: twice one and a hundredth. -/
theorem getPriceUsd_exact_three : ∃ t f, getPriceUsd threePrices #v[0, 1, 2, 65535] = .ok t ∧
    t.timestamp = 20 ∧ t.priceLoad = .ok f ∧ f.bits = ⌊(101 / 50 : ℚ) * 2 ^ 60⌋ := by
  have h : getPriceUsd threePrices #v[0, 1, 2, 65535]
      = .ok ⟨chainPrice [⟨101, 2⟩, ⟨10, 1⟩, ⟨2, 0⟩], 20⟩ := rfl
  have hprices : pricesOf threePrices #v[0, 1, 2, 65535] = threePrices := rfl
  obtain ⟨-, -, hexact, hloads⟩ := getPriceUsd_exact h
  rw [hprices] at hexact hloads
  have hworth : (threePrices.map DatedPrice.worth).prod = 101 / 50 := by
    show ((101 : ℕ) / 10 ^ 2 * ((10 : ℕ) / 10 ^ 1 * ((2 : ℕ) / 10 ^ 0 * 1)) : ℚ) = 101 / 50
    norm_num
  have hfits : (threePrices.map DatedPrice.worth).prod < 2 ^ 68 := by
    rw [hworth]
    norm_num
  obtain ⟨f, hf⟩ := hloads (by decide) (by decide) (by decide) hfits
  exact ⟨_, f, h, rfl, hf, hworth ▸ hexact f hf⟩

end

/-! ## Confidence -/

section

variable {price stdev : SwitchboardDecimal} {factor : UInt64} {f : U68F60} {t : TimestampedPrice}
  {w : TimestampedPriceWithTwap}

/-- What a decimal stands for. -/
def SwitchboardDecimal.worth (d : SwitchboardDecimal) : ℚ := d.mantissa / 10 ^ d.scale.toNat

/-- Rounding a quotient towards zero does not move it across a positive integer. -/
theorem tdiv_lt_iff {a b m : ℤ} (hb : 0 < b) (hm : 0 < m) : a.tdiv b < m ↔ a < m * b := by
  rcases le_or_gt 0 a with ha | ha
  · rw [Int.tdiv_eq_ediv_of_nonneg ha, Int.ediv_lt_iff_lt_mul hb]
  · have hpos : 0 < m * b := mul_pos hm hb
    have hle : a.tdiv b ≤ 0 := by
      rw [← neg_neg a, Int.neg_tdiv, neg_nonpos]
      exact Int.tdiv_nonneg (by omega) hb.le
    omega

theorem checkedI128_eq_some {y z : ℤ} :
    checkedI128 z = some y ↔ z = y ∧ -2 ^ 127 ≤ y ∧ y < 2 ^ 127 := by
  unfold checkedI128
  split <;> grind

theorem checkedPow10_eq_some {n : ℕ} {z : ℤ} : checkedPow10 n = some z ↔ n < 39 ∧ 10 ^ n = z := by
  unfold checkedPow10
  split <;> simp_all

theorem decimal_lt_iff {a m : ℤ} {i j : ℕ} :
    (a / 10 ^ i : ℚ) < m / 10 ^ j ↔ a * 10 ^ (j - i) < m * 10 ^ (i - j) := by
  have hi : (10 : ℚ) ^ i * 10 ^ (j - i) = 10 ^ max i j := by
    rw [← pow_add]
    congr 1
    omega
  have hj : (10 : ℚ) ^ j * 10 ^ (i - j) = 10 ^ max i j := by
    rw [← pow_add]
    congr 1
    omega
  have hscale : (0 : ℚ) < 10 ^ max i j := by positivity
  have ha : (a / 10 ^ i : ℚ) = ((a * 10 ^ (j - i) : ℤ) : ℚ) / 10 ^ max i j := by
    rw [← hi]
    push_cast
    field_simp
  have hm : (m / 10 ^ j : ℚ) = ((m * 10 ^ (i - j) : ℤ) : ℚ) / 10 ^ max i j := by
    rw [← hj]
    push_cast
    field_simp
  rw [ha, hm, div_lt_div_iff_of_pos_right hscale, Int.cast_lt]

/-- The confidence of a Switchboard price is checked without rounding: `factor` standard deviations
are below the price. The check fails as well if the scales are further apart than 38, or if the
multiple does not fit. -/
theorem validateSwitchboardConfidence_eq_ok (hprice : 0 < price.mantissa) :
    validateSwitchboardConfidence price stdev factor = .ok () ↔
      (price.scale.toNat < stdev.scale.toNat + 39 ∧ stdev.scale.toNat < price.scale.toNat + 39) ∧
      stdev.mantissa * factor.toNat < 2 ^ 127 ∧
      -2 ^ 127 ≤ stdev.mantissa * factor.toNat * 10 ^ (price.scale.toNat - stdev.scale.toNat) ∧
      stdev.worth * factor.toNat < price.worth := by
  have hworth : stdev.worth * factor.toNat < price.worth ↔
      stdev.mantissa * factor.toNat * 10 ^ (price.scale.toNat - stdev.scale.toNat)
        < price.mantissa * 10 ^ (stdev.scale.toNat - price.scale.toNat) := by
    rw [← decimal_lt_iff, SwitchboardDecimal.worth, SwitchboardDecimal.worth, div_mul_eq_mul_div]
    push_cast
    rfl
  have hbound := price.lt_hi
  rw [hworth]
  simp only [validateSwitchboardConfidence, bind_eq_ok, okOr_eq_ok, require_eq_ok,
    checkedPow10_eq_some, Option.bind_eq_bind, Option.bind_eq_some_iff, checkedI128_eq_some]
  by_cases hscale : stdev.scale ≤ price.scale
  · -- the deviation is scaled up to the price, which may overflow
    have hle : stdev.scale.toNat ≤ price.scale.toNat := hscale
    have hdiff : (price.scale - stdev.scale).toNat = price.scale.toNat - stdev.scale.toNat :=
      UInt32.toNat_sub_of_le _ _ hscale
    have hzero : stdev.scale.toNat - price.scale.toNat = 0 := by omega
    have hfactor : (1 : ℤ) ≤ 10 ^ (price.scale.toNat - stdev.scale.toNat) :=
      one_le_pow₀ (by norm_num)
    simp only [if_pos hscale, hdiff, hzero, pow_zero, mul_one, checkedI128_eq_some]
    constructor
    · rintro ⟨_, ⟨hpow, rfl⟩, _, ⟨_, ⟨rfl, -, hfits⟩, rfl, hlo, -⟩, hlt⟩
      exact ⟨by omega, hfits, hlo, not_le.mp hlt⟩
    · rintro ⟨hscales, hfits, hlo, hlt⟩
      refine ⟨_, ⟨by omega, rfl⟩, _, ⟨_, ⟨rfl, ?_, hfits⟩, rfl, hlo, by omega⟩, not_le.mpr hlt⟩
      rcases le_or_gt 0 (stdev.mantissa * factor.toNat : ℤ) with hnonneg | hneg
      · omega
      · exact le_trans hlo (mul_le_of_one_le_right hneg.le hfactor)
  · -- it is scaled down, and what the division drops does not change the comparison
    have hlt : price.scale.toNat < stdev.scale.toNat := not_le.mp hscale
    have hdiff : (stdev.scale - price.scale).toNat = stdev.scale.toNat - price.scale.toNat :=
      UInt32.toNat_sub_of_le _ _ hlt.le
    have hzero : price.scale.toNat - stdev.scale.toNat = 0 := by omega
    have hfactor : (0 : ℤ) < 10 ^ (stdev.scale.toNat - price.scale.toNat) := by positivity
    simp only [if_neg hscale, hdiff, hzero, pow_zero, mul_one, checkedI128_eq_some]
    rw [← tdiv_lt_iff hfactor hprice]
    constructor
    · rintro ⟨_, ⟨hpow, rfl⟩, _, ⟨_, ⟨rfl, hlo, hfits⟩, rfl, -⟩, hlt⟩
      exact ⟨by omega, hfits, hlo, not_le.mp hlt⟩
    · rintro ⟨hscales, hfits, hlo, hlt⟩
      have hsmall := Int.natAbs_tdiv_le_natAbs (stdev.mantissa * factor.toNat)
        (10 ^ (stdev.scale.toNat - price.scale.toNat))
      exact ⟨_, ⟨by omega, rfl⟩, _, ⟨_, ⟨rfl, hlo, hfits⟩, rfl, by omega, by omega⟩, not_le.mpr hlt⟩

/-- What a Switchboard feed loads is its result rounded down, `factor` deviations being below it. -/
theorem getSwitchboardPrice_load {info : OracleAccount AggregatorAccountData}
    (h : getSwitchboardPrice info = .ok t) (hf : t.priceLoad = .ok f) :
    ∃ feed price, info.load = .ok feed ∧ feed.result = some price ∧
      feed.stdDeviation.worth * 50 < price.worth ∧ f.bits = ⌊price.worth * 2 ^ 60⌋ := by
  simp only [getSwitchboardPrice, bind_eq_ok, require_eq_ok, okOr_eq_ok, pure_eq_ok,
    exists_const] at h
  obtain ⟨-, feed, hfeed, timestamp, -, price, hresult, hpos, rfl⟩ := h
  have hpos : 0 < price.mantissa := not_le.mp hpos
  simp only [bind_eq_ok, exists_const, validateSwitchboardConfidence_eq_ok hpos,
    priceToFraction_eq_ok] at hf
  obtain ⟨⟨-, -, -, hconfident⟩, -, hbits⟩ := hf
  refine ⟨feed, price, hfeed, hresult, hconfident, ?_⟩
  have hmantissa : ((price.mantissa.toNat : ℕ) : ℚ) = price.mantissa := by
    rw [← Int.cast_natCast, Int.toNat_of_nonneg hpos.le]
  rw [hbits, Price.worth, SwitchboardDecimal.worth, hmantissa]

theorem unwrapU64_eq_ok {z : Int64} {a : UInt64} :
    unwrapU64 z = .ok a ↔ (a.toNat : ℤ) = z.toInt := by
  have hzero : (0 : Int64) ≤ z ↔ 0 ≤ z.toInt := Int64.le_iff_toInt_le
  simp only [unwrapU64, bind_eq_ok, require_eq_ok, pure_eq_ok, exists_const, hzero]
  constructor
  · rintro ⟨hnonneg, rfl⟩
    exact toNat_toUInt64_of_nonneg hnonneg
  · intro heq
    have hnonneg : 0 ≤ z.toInt := by omega
    have hcast := toNat_toUInt64_of_nonneg hnonneg
    exact ⟨hnonneg, UInt64.toNat_inj.mp (by omega)⟩

/-- A Pyth price is positive, and fifty times its confidence interval does not exceed it. -/
theorem validatePythConfidence_eq_ok {q : PythPrice} : validatePythConfidence q factor = .ok () ↔
    0 < q.price.toInt ∧ q.conf.toNat * factor.toNat ≤ q.price.toInt := by
  simp only [validatePythConfidence, bind_eq_ok, require_eq_ok, unwrapU64_eq_ok, exists_const]
  constructor
  · rintro ⟨a, ha, hne, hfits, hle⟩
    have hpos := ne_zero_iff_toNat_pos.mp hne
    have hmul : (q.conf * factor).toNat = q.conf.toNat * factor.toNat := by
      rw [UInt64.toNat_mul, Nat.mod_eq_of_lt hfits]
    rw [UInt64.lt_iff_toNat_lt, hmul] at hle
    rw [← ha]
    exact ⟨by omega, by exact_mod_cast not_lt.mp hle⟩
  · rintro ⟨hpos, hle⟩
    have ha := toNat_toUInt64_of_nonneg hpos.le
    have hlt := q.price.toUInt64.toNat_lt
    have hnat : q.conf.toNat * factor.toNat ≤ q.price.toUInt64.toNat := by
      rw [← ha] at hle
      exact_mod_cast hle
    have hmul : (q.conf * factor).toNat = q.conf.toNat * factor.toNat := by
      rw [UInt64.toNat_mul, Nat.mod_eq_of_lt (by omega)]
    refine ⟨q.price.toUInt64, ha, ne_zero_iff_toNat_pos.mpr (by omega), by omega, ?_⟩
    rw [UInt64.lt_iff_toNat_lt, hmul, not_lt]
    exact hnat

theorem toOk_eq_ok_some {α : Type} {m : Except Failure α} {a : α} :
    toOk m = .ok (some a) ↔ m = .ok a := by
  match m with
  | .ok b => simp [toOk]
  | .error .panic => simp [toOk]
  | .error (.lending _) => simp [toOk]

/-- What a Pyth price states. -/
def PythPrice.worth (q : PythPrice) : ℚ := q.price.toInt * 10 ^ q.expo.toInt

theorem PythPrice.worth_of_nonpos (q : PythPrice) (h : q.expo.toInt ≤ 0) :
    (q.price.toInt / 10 ^ q.expo.toInt.natAbs : ℚ) = q.worth := by
  have hneg : q.expo.toInt = -(q.expo.toInt.natAbs : ℤ) := by omega
  rw [worth, div_eq_mul_inv]
  congr 1
  conv_rhs => rw [hneg, zpow_neg, zpow_natCast]

theorem PythPrice.worth_of_pos (q : PythPrice) (h : 0 < q.expo.toInt) :
    (q.price.toInt / 10 ^ q.expo.toInt.natAbs : ℚ) = q.worth / 100 ^ q.expo.toInt := by
  have hpos : q.expo.toInt = (q.expo.toInt.natAbs : ℤ) := by omega
  have hhundred : (100 : ℚ) ^ q.expo.toInt.natAbs
      = 10 ^ q.expo.toInt.natAbs * 10 ^ q.expo.toInt.natAbs := by
    rw [← mul_pow]
    norm_num
  rw [worth]
  conv_rhs => rw [hpos, zpow_natCast, zpow_natCast, hhundred]
  field_simp

/-- What a Pyth price becomes is rounded down, the sign of the exponent being dropped. -/
theorem ofPyth_load {q : PythPrice} (h : TimestampedPrice.ofPyth q = .ok t)
    (hf : t.priceLoad = .ok f) :
    f.bits = ⌊(q.price.toInt / 10 ^ q.expo.toInt.natAbs : ℚ) * 2 ^ 60⌋ := by
  simp only [TimestampedPrice.ofPyth, bind_eq_ok, require_eq_ok, pure_eq_ok, unwrapU64_eq_ok,
    exists_const] at h
  obtain ⟨value, hvalue, -, timestamp, -, rfl⟩ := h
  have hexpo : (UInt32.ofNat q.expo.toInt.natAbs).toNat = q.expo.toInt.natAbs := by
    have hlo := q.expo.le_toInt
    have hhi := q.expo.toInt_lt
    rw [UInt32.toNat_ofNat']
    exact Nat.mod_eq_of_lt (by omega)
  have hcast : (value.toNat : ℚ) = q.price.toInt := by
    rw [← hvalue, Int.cast_natCast]
  rw [(priceToFraction_eq_ok.mp hf).2, Price.worth, hexpo, hcast]

/-- What a Pyth feed loads is its price, fifty times its confidence interval not exceeding it. -/
theorem getPythPriceAndTwap_load {info : OracleAccount PythFeed}
    (h : getPythPriceAndTwap info = .ok w)
    (hf : w.price.priceLoad = .ok f) : ∃ feed, info.load = .ok feed ∧
      (feed.price.conf.toNat * 50 : ℤ) ≤ feed.price.price.toInt ∧
      f.bits = ⌊(feed.price.price.toInt / 10 ^ feed.price.expo.toInt.natAbs : ℚ) * 2 ^ 60⌋ := by
  simp only [getPythPriceAndTwap, bind_eq_ok, okOr_eq_ok, pure_eq_ok] at h
  obtain ⟨_, hload, feed, rfl, _, hvalid, price, hprice, twap, -, rfl⟩ := h
  obtain ⟨-, hconfident⟩ := validatePythConfidence_eq_ok.mp hvalid
  exact ⟨feed, toOk_eq_ok_some.mp hload, hconfident, ofPyth_load hprice hf⟩

theorem getScopePriceAndTwap_load {account : OracleAccount (List DatedPrice)}
    {conf : ScopeConfiguration}
    (h : getScopePriceAndTwap account conf = .ok w) (hf : w.price.priceLoad = .ok f) :
    ∃ prices, account.load = .ok prices ∧
      f.bits = ⌊((pricesOf prices conf.priceChain).map DatedPrice.worth).prod * 2 ^ 60⌋ := by
  simp only [getScopePriceAndTwap, bind_eq_ok, require_eq_ok, pure_eq_ok, exists_const] at h
  obtain ⟨-, prices, hprices, price, hprice, twap, -, rfl⟩ := h
  exact ⟨prices, hprices, getPriceUsd_load hprice hf⟩

end

/-! ## The most recent source -/

section

variable {t : TokenInfo} {o : Oracles} {w : TimestampedPriceWithTwap} {price : U68F60}

/-- What the sources return that load, in the order they are asked. -/
def loadedSources (t : TokenInfo) (o : Oracles) :
    Except Failure (List TimestampedPriceWithTwap) := do
  let pyth ← sourcePrice t.pythConfiguration.isEnabled o.pythPrice getPythPriceAndTwap
  let switchboardTwap := if t.isTwapEnabled then o.switchboardTwap else none
  let switchboard ← sourcePrice t.switchboardConfiguration.isEnabled o.switchboardPrice
    (getSwitchboardPriceAndTwap · switchboardTwap)
  let scope ← sourcePrice t.scopeConfiguration.isEnabled o.scopePrices
    (getScopePriceAndTwap · t.scopeConfiguration)
  return [pyth, switchboard, scope].reduceOption

/-- When a source was last updated. -/
def TimestampedPriceWithTwap.time (w : TimestampedPriceWithTwap) : ℕ := w.price.timestamp.toNat

/-- Keeping the current source unless the next is more recent finds the first of the most recent
ones. -/
theorem reduce_moreRecent (l : List TimestampedPriceWithTwap) :
    reduce moreRecent l = l.argmax TimestampedPriceWithTwap.time := by
  have hstep (l : List TimestampedPriceWithTwap) (w : TimestampedPriceWithTwap) :
      l.foldl (List.argAux fun b c => c.time < b.time) (some w) = some (l.foldl moreRecent w) := by
    induction l generalizing w with
    | nil => rfl
    | cons x l ih =>
        rw [List.foldl_cons, List.foldl_cons, ← ih]
        congr 1
        show (if w.time < x.time then some x else some w) = some (if w.time < x.time then x else w)
        split <;> rfl
  cases l with
  | nil => rfl
  | cons w l => exact (hstep l w).symm

theorem getMostRecentPriceAndTwap_eq_ok : getMostRecentPriceAndTwap t o = .ok w ↔
    ∃ sources, loadedSources t o = .ok sources ∧
      w ∈ sources.argmax TimestampedPriceWithTwap.time := by
  simp only [getMostRecentPriceAndTwap, loadedSources, bind_eq_ok, okOr_eq_ok, pure_eq_ok,
    reduce_moreRecent]
  constructor
  · rintro ⟨pyth, hpyth, switchboard, hswitchboard, scope, hscope, hw⟩
    exact ⟨_, ⟨pyth, hpyth, switchboard, hswitchboard, scope, hscope, rfl⟩, hw⟩
  · rintro ⟨_, ⟨pyth, hpyth, switchboard, hswitchboard, scope, hscope, rfl⟩, hw⟩
    exact ⟨pyth, hpyth, switchboard, hswitchboard, scope, hscope, hw⟩

theorem sourcePrice_eq_ok_some {α : Type} {isEnabled : Bool} {info : Option α}
    {get : α → Except Failure TimestampedPriceWithTwap} :
    sourcePrice isEnabled info get = .ok (some w) ↔
      isEnabled = true ∧ ∃ a, info = some a ∧ get a = .ok w := by
  unfold sourcePrice
  split
  · simp [toOk_eq_ok_some]
  · rename_i hnone
    rw [pure_eq_ok]
    simp only [reduceCtorEq, false_iff]
    rintro ⟨rfl, a, rfl, -⟩
    exact hnone a rfl rfl

/-- What the price of the source `w` rests on: the exact value of that source, rounded down once,
and its confidence check. Scope has none. Pyth states `price * 10 ^ expo`; the code drops the sign
of `expo`. -/
inductive Quoted (t : TokenInfo) (o : Oracles) (w : TimestampedPriceWithTwap) (price : U68F60) :
  Prop
  | pyth {account : OracleAccount PythFeed} {feed : PythFeed}
      (enabled : t.pythConfiguration.isEnabled = true) (configured : o.pythPrice = some account)
      (source : getPythPriceAndTwap account = .ok w) (load : account.load = .ok feed)
      (confident : (feed.price.conf.toNat * 50 : ℤ) ≤ feed.price.price.toInt)
      (exact : feed.price.expo.toInt ≤ 0 → price.bits = ⌊feed.price.worth * 2 ^ 60⌋)
      (signDropped : 0 < feed.price.expo.toInt →
        price.bits = ⌊feed.price.worth / 100 ^ feed.price.expo.toInt * 2 ^ 60⌋)
  | switchboard {account : OracleAccount AggregatorAccountData} {feed : AggregatorAccountData}
      {result : SwitchboardDecimal} (enabled : t.switchboardConfiguration.isEnabled = true)
      (configured : o.switchboardPrice = some account)
      (source : getSwitchboardPriceAndTwap account
        (if t.isTwapEnabled then o.switchboardTwap else none)
        = .ok w)
      (load : account.load = .ok feed) (confirmed : feed.result = some result)
      (confident : feed.stdDeviation.worth * 50 < result.worth)
      (exact : price.bits = ⌊result.worth * 2 ^ 60⌋)
  | scope {account : OracleAccount (List DatedPrice)} {prices : List DatedPrice}
      (enabled : t.scopeConfiguration.isEnabled = true) (configured : o.scopePrices = some account)
      (source : getScopePriceAndTwap account t.scopeConfiguration = .ok w)
      (load : account.load = .ok prices)
      (exact : price.bits
        = ⌊((pricesOf prices t.scopeConfiguration.priceChain).map DatedPrice.worth).prod * 2 ^ 60⌋)

theorem quoted_of_mem {sources : List TimestampedPriceWithTwap}
    (h : loadedSources t o = .ok sources)
    (hw : w ∈ sources) (hprice : w.price.priceLoad = .ok price) : Quoted t o w price := by
  simp only [loadedSources, bind_eq_ok, pure_eq_ok] at h
  obtain ⟨pyth, hpyth, switchboard, hswitchboard, scope, hscope, rfl⟩ := h
  simp only [List.reduceOption_mem_iff, List.mem_cons, List.not_mem_nil, or_false] at hw
  rcases hw with rfl | rfl | rfl
  · obtain ⟨henabled, a, ha, hget⟩ := sourcePrice_eq_ok_some.mp hpyth
    obtain ⟨feed, hload, hconfident, hbits⟩ := getPythPriceAndTwap_load hget hprice
    refine .pyth henabled ha hget hload hconfident (fun hexpo => ?_) fun hexpo => ?_
    · rw [hbits, feed.price.worth_of_nonpos hexpo]
    · rw [hbits, feed.price.worth_of_pos hexpo]
  · obtain ⟨henabled, a, ha, hget⟩ := sourcePrice_eq_ok_some.mp hswitchboard
    have hsource := hget
    simp only [getSwitchboardPriceAndTwap, bind_eq_ok, pure_eq_ok] at hget
    obtain ⟨q, hq, twap, -, rfl⟩ := hget
    obtain ⟨feed, result, hload, hresult, hconfident, hbits⟩ := getSwitchboardPrice_load hq hprice
    exact .switchboard henabled ha hsource hload hresult hconfident hbits
  · obtain ⟨henabled, a, ha, hget⟩ := sourcePrice_eq_ok_some.mp hscope
    obtain ⟨prices, hload, hbits⟩ := getScopePriceAndTwap_load hget hprice
    exact .scope henabled ha hget hload hbits

variable {p : Profile} {unixTimestamp : Int64} {r : GetPriceResult}

theorem getValidatedPrice_eq_ok_some : getValidatedPrice p w t unixTimestamp = .ok (some r) ↔
    ∃ now price, unwrapU64 unixTimestamp = .ok now ∧ w.price.priceLoad = .ok price ∧
      validatePrice p price w t now = .ok r := by
  simp only [getValidatedPrice, bind_eq_ok]
  constructor
  · rintro ⟨now, hnow, o, ho, hr⟩
    cases o with
    | none =>
        rw [pure_eq_ok] at hr
        cases hr
    | some price =>
        simp only [bind_eq_ok, pure_eq_ok, Option.some.injEq] at hr
        obtain ⟨r', hr', rfl⟩ := hr
        exact ⟨now, price, hnow, toOk_eq_ok_some.mp ho, hr'⟩
  · rintro ⟨now, price, hnow, hprice, hr⟩
    refine ⟨now, hnow, some price, toOk_eq_ok_some.mpr hprice, ?_⟩
    simp only [bind_eq_ok, pure_eq_ok, Option.some.injEq]
    exact ⟨r, hr, rfl⟩

theorem validatePrice_price {now : UInt64} (h : validatePrice p price w t now = .ok r) :
    r.price = price ∧ r.timestamp = w.price.timestamp := by
  simp only [validatePrice, bind_eq_ok, pure_eq_ok] at h
  obtain ⟨_, -, _, -, _, -, rfl⟩ := h
  exact ⟨rfl, rfl⟩

/-- A price that is returned is as old as the most recent of the enabled sources that load, the
first of them asked if several are, and it is what this very source states, rounded down once and
checked. -/
theorem getPrice_quoted (h : getPrice p t o unixTimestamp = .ok (some r)) :
    ∃ sources w, loadedSources t o = .ok sources ∧
      w ∈ sources.argmax TimestampedPriceWithTwap.time ∧
      r.timestamp = w.price.timestamp ∧ Quoted t o w r.price := by
  simp only [getPrice, bind_eq_ok, getMostRecentPriceAndTwap_eq_ok,
    getValidatedPrice_eq_ok_some] at h
  obtain ⟨w, ⟨sources, hsources, hw⟩, now, price, -, hprice, hr⟩ := h
  obtain ⟨rfl, htime⟩ := validatePrice_price hr
  exact ⟨sources, w, hsources, hw, htime, quoted_of_mem hsources (List.argmax_mem hw) hprice⟩

/-- A token priced by Scope: within one percent of its average, and between one and four. -/
def scopeToken : TokenInfo where
  heuristic := ⟨1, 4, 0⟩
  maxTwapDivergenceBps := 100
  maxAgePriceSeconds := 60
  maxAgeTwapSeconds := 60
  scopeConfiguration := ⟨7, #v[0, 1, 2, 65535], #v[2, 65535, 65535, 65535]⟩
  switchboardConfiguration := ⟨0⟩
  pythConfiguration := ⟨0⟩
  blockPriceUsage := 0

def scopeOracles : Oracles where
  pythPrice := none
  switchboardPrice := none
  switchboardTwap := none
  scopePrices := some ⟨7, .ok threePrices⟩

theorem scopeToken_price : ∃ r, getPrice .checked scopeToken scopeOracles 60 = .ok (some r) ∧
    r.status = ⟨true, true, true, true, true, true⟩ := by
  obtain ⟨o, ho, hall⟩ := exists_eq_ok (m := getPrice .checked scopeToken scopeOracles 60)
    (fun o => o.any fun r => r.status = ⟨true, true, true, true, true, true⟩) (by decide +kernel)
  obtain ⟨r, rfl, hstatus⟩ := (Option.any_eq_true _ _).mp hall
  exact ⟨r, ho, of_decide_eq_true hstatus⟩

theorem getPrice_quoted_scope : ∃ r w, getPrice .checked scopeToken scopeOracles 60 = .ok (some r) ∧
    Quoted scopeToken scopeOracles w r.price := by
  obtain ⟨r, hr, -⟩ := scopeToken_price
  obtain ⟨_, w, -, -, -, hquoted⟩ := getPrice_quoted hr
  exact ⟨r, w, hr, hquoted⟩

end

/-! ## The checks of a price -/

section

variable {t : TokenInfo} {o : Oracles} {w : TimestampedPriceWithTwap} {p : Profile}
  {price avg : U68F60}
  {twap : Option TimestampedPrice} {now tolerance : UInt64} {b : Bool} {r : GetPriceResult}

/-- The bits that are required are those of the checks that passed, and perhaps of others. -/
theorem PriceStatusFlags.bits_and_eq (s required : PriceStatusFlags) :
    s.bits &&& 63 &&& required.bits = required.bits ↔
      (required.priceLoaded → s.priceLoaded) ∧ (required.priceAgeChecked → s.priceAgeChecked) ∧
      (required.twapChecked → s.twapChecked) ∧ (required.twapAgeChecked → s.twapAgeChecked) ∧
      (required.heuristicChecked → s.heuristicChecked) ∧
      (required.priceUsageAllowed → s.priceUsageAllowed) := by
  obtain ⟨a, b, c, d, e, f⟩ := s
  obtain ⟨a', b', c', d', e', f'⟩ := required
  revert a b c d e f a' b' c' d' e' f'
  decide +kernel

theorem passes_eq_ok {m : Except Failure Unit} (h : passes m = .ok b) :
    m ≠ .error .panic ∧ (b = true ↔ m = .ok ()) := by
  unfold passes at h
  match m with
  | .ok () =>
      cases h
      simp
  | .error .panic => cases h
  | .error (.lending _) =>
      cases h
      simp

theorem checkPriceAge_eq_ok {timestamp maxAge : UInt64} :
    checkPriceAge timestamp maxAge now = .ok () ↔
    now.toNat ≤ timestamp.toNat + maxAge.toNat := by
  rw [checkPriceAge, require_eq_ok]
  omega

/-- An average price near enough to the price that nothing wraps. -/
def InRange (p : Profile) (t : TokenInfo) (price avg : U68F60) : Prop :=
  p.overflowChecks = true ∨
    |price.bits - avg.bits| * 10000 < 2 ^ 128 ∧ price.bits * t.maxTwapDivergenceBps.toNat < 2 ^ 128

theorem mulInt_bits {a c : U68F60} {n : ℕ} (hfits : p.overflowChecks = true ∨ a.bits * n < 2 ^ 128)
    (h : (a.mulInt p n : Except Failure U68F60) = .ok c) : c.bits = a.bits * n := by
  rcases hfits with hp | hlt
  · exact (Fixed.mulInt_eq_ok hp).mp h
  · rw [Fixed.mulInt, Fixed.exact_eq_ok] at h
    rw [h.1, U68F60.bits_wrap (mul_nonneg a.bits_nonneg n.cast_nonneg) hlt]

theorem isWithinTolerance_onlyPanics (p : Profile) (price avg : U68F60) (tolerance : UInt64) :
    OnlyPanics (isWithinTolerance p price avg tolerance) := by
  apply OnlyPanics.bind (OnlyPanics.guard _ _ _)
  intro _
  apply OnlyPanics.bind (OnlyPanics.guard _ _ _)
  intro _
  exact OnlyPanics.pure _

theorem checkTwapInTolerance_eq_ok (hfits : InRange p t price avg)
    (h : checkTwapInTolerance p price avg t ≠ .error .panic) :
    checkTwapInTolerance p price avg t = .ok () ↔
      |price.bits - avg.bits| * 10000 < price.bits * t.maxTwapDivergenceBps.toNat := by
  unfold checkTwapInTolerance at h ⊢
  cases hres : isWithinTolerance p price avg t.maxTwapDivergenceBps with
  | error e =>
      rw [hres, isWithinTolerance_onlyPanics _ _ _ _ e hres] at h
      exact absurd rfl h
  | ok b =>
      simp only [isWithinTolerance, bind_eq_ok, pure_eq_ok] at hres
      obtain ⟨diff, hdiff, scaled, hscaled, rfl⟩ := hres
      have hnear : p.overflowChecks = true ∨ (absDiff price avg).bits * (10000 : ℕ) < 2 ^ 128 :=
        Or.imp_right And.left hfits
      have hdiff : diff.bits = |price.bits - avg.bits| * 10000 := mulInt_bits hnear hdiff
      have hscaled := mulInt_bits (Or.imp_right And.right hfits) hscaled
      show require (decide (diff < scaled) = true) (Failure.lending .priceTooDivergentFromTwap)
        = .ok () ↔ _
      rw [require_eq_ok, decide_eq_true_eq, Fixed.lt_iff_bits, hdiff, hscaled]

theorem heuristicBound_eq {value exp : UInt64} (h : heuristicBound value exp ≠ .error .panic) :
    value = 0 ∧ heuristicBound value exp = .ok none ∨
    value ≠ 0 ∧ ∃ f, heuristicBound value exp = .ok (some f) ∧
      f.bits = ⌊(value.toNat / 10 ^ exp.toNat : ℚ) * 2 ^ 60⌋ := by
  unfold heuristicBound at h ⊢
  split
  · rename_i hpos
    right
    rw [if_pos hpos] at h
    have hexp : exp.toNat < 2 ^ 32 := by
      by_contra hover
      rw [require, if_neg hover] at h
      exact h rfl
    have hdecimals : exp.toUInt32.toNat = exp.toNat := by
      rw [UInt64.toNat_toUInt32]
      exact Nat.mod_eq_of_lt hexp
    rw [require, if_pos hexp] at h ⊢
    cases hq : priceToFraction ⟨value.toNat, exp.toUInt32⟩ with
    | error e =>
        rw [hq, priceToFraction_onlyPanics _ e hq] at h
        exact absurd rfl h
    | ok f =>
        have hbits := (priceToFraction_eq_ok.mp hq).2
        rw [Price.worth, hdecimals] at hbits
        exact ⟨ne_zero_iff_toNat_pos.mpr hpos, f, rfl, hbits⟩
  · rename_i hzero
    left
    refine ⟨?_, rfl⟩
    by_contra hne
    exact hzero (ne_zero_iff_toNat_pos.mp hne)

/-- The price is not below the lower bound, rounded down, and not above the upper one. -/
def Within (h : PriceHeuristic) (price : U68F60) : Prop :=
  (h.lower ≠ 0 → (h.lower.toNat / 10 ^ h.exp.toNat : ℚ) * 2 ^ 60 < price.bits + 1) ∧
    (h.upper ≠ 0 → (price.bits : ℚ) ≤ h.upper.toNat / 10 ^ h.exp.toNat * 2 ^ 60)

theorem not_lt_heuristicBound {value exp : UInt64} (h : heuristicBound value exp ≠ .error .panic) :
    (∃ lower, heuristicBound value exp = .ok lower ∧ ∀ bound ∈ lower, ¬ price < bound) ↔
      (value ≠ 0 → (value.toNat / 10 ^ exp.toNat : ℚ) * 2 ^ 60 < price.bits + 1) := by
  rcases heuristicBound_eq h with ⟨rfl, hnone⟩ | ⟨hne, f, hsome, hbits⟩
  · simp [hnone]
  · simp only [hsome, Except.ok.injEq, exists_eq_left', Option.mem_def, Option.some.injEq,
      forall_eq', ne_eq, hne, not_false_eq_true, true_implies, Fixed.lt_iff_bits, not_lt, hbits]
    exact Int.floor_le_iff

theorem not_heuristicBound_lt {value exp : UInt64} (h : heuristicBound value exp ≠ .error .panic) :
    (∃ upper, heuristicBound value exp = .ok upper ∧ ∀ bound ∈ upper, ¬ bound < price) ↔
      (value ≠ 0 → (price.bits : ℚ) ≤ value.toNat / 10 ^ exp.toNat * 2 ^ 60) := by
  rcases heuristicBound_eq h with ⟨rfl, hnone⟩ | ⟨hne, f, hsome, hbits⟩
  · simp [hnone]
  · simp only [hsome, Except.ok.injEq, exists_eq_left', Option.mem_def, Option.some.injEq,
      forall_eq', ne_eq, hne, not_false_eq_true, true_implies, Fixed.lt_iff_bits, not_lt, hbits]
    exact Int.le_floor

theorem checkPriceHeuristics_eq_ok {h : PriceHeuristic}
    (hok : checkPriceHeuristics price h ≠ .error .panic) :
    checkPriceHeuristics price h = .ok () ↔ Within h price := by
  have hlower : heuristicBound h.lower h.exp ≠ .error .panic := by
    intro hpanic
    rw [checkPriceHeuristics, hpanic] at hok
    exact hok rfl
  rw [Within, ← not_lt_heuristicBound hlower]
  constructor
  · intro hres
    simp only [checkPriceHeuristics, bind_eq_ok, require_eq_ok, exists_const] at hres
    obtain ⟨lower, hl, hle, upper, hu, hge⟩ := hres
    refine ⟨⟨lower, hl, hle⟩, (not_heuristicBound_lt ?_).mp ⟨upper, hu, hge⟩⟩
    rw [hu]
    simp
  · rintro ⟨⟨lower, hl, hle⟩, habove⟩
    have hupper : heuristicBound h.upper h.exp ≠ .error .panic := by
      intro hpanic
      rw [checkPriceHeuristics, hl] at hok
      apply hok
      show (do require (∀ bound ∈ lower, ¬ price < bound) _; _ : Except Failure Unit) = _
      rw [require, if_pos hle, hpanic]
      rfl
    obtain ⟨upper, hu, hge⟩ := (not_heuristicBound_lt hupper).mpr habove
    simp only [checkPriceHeuristics, bind_eq_ok, require_eq_ok, exists_const]
    exact ⟨lower, hl, hle, upper, hu, hge⟩

/-- The average is near the price: the difference, in basis points of the price, is less than the
tolerance. -/
def TwapClose (t : TokenInfo) (w : TimestampedPriceWithTwap) (price : U68F60) : Prop :=
  ∃ twap avg, w.twap = some twap ∧ twap.priceLoad = .ok avg ∧
    |price.bits - avg.bits| * 10000 < price.bits * t.maxTwapDivergenceBps.toNat

def TwapFresh (t : TokenInfo) (w : TimestampedPriceWithTwap) (now : ℤ) : Prop :=
  ∃ twap, w.twap = some twap ∧ now ≤ twap.timestamp.toNat + t.maxAgeTwapSeconds.toNat

theorem twapFlags_eq_ok {flags : Bool × Bool}
    (hfits : ∀ twap avg, w.twap = some twap → twap.priceLoad = .ok avg → InRange p t price avg)
    (h : twapFlags p price w.twap t now = .ok flags) :
    (flags.1 = true ↔ (t.isTwapEnabled = true → TwapClose t w price)) ∧
      (flags.2 = true ↔ (t.isTwapEnabled = true → TwapFresh t w now.toNat)) := by
  unfold twapFlags at h
  split at h
  case isFalse hdisabled =>
    cases h
    simp [hdisabled]
  case isTrue henabled =>
    simp only [henabled, true_implies]
    cases htwap : w.twap with
    | none =>
        rw [htwap] at h
        cases h
        simp [TwapClose, TwapFresh, htwap]
    | some twap =>
        rw [htwap] at h
        simp only [checkTwap, bind_eq_ok, pure_eq_ok] at h
        obtain ⟨age, hage, checked, hchecked, rfl⟩ := h
        -- neither check panics, so each flag is that its check passed
        obtain ⟨-, hage⟩ := passes_eq_ok hage
        obtain ⟨hpanic, hchecked⟩ := passes_eq_ok hchecked
        rw [checkPriceAge_eq_ok] at hage
        constructor
        · rw [hchecked, bind_eq_ok]
          constructor
          · rintro ⟨avg, havg, hclose⟩
            rw [havg] at hpanic
            exact ⟨twap, avg, htwap, havg,
              (checkTwapInTolerance_eq_ok (hfits twap avg htwap havg) hpanic).mp hclose⟩
          · rintro ⟨_, avg, hsome, havg, hclose⟩
            cases htwap.symm.trans hsome
            rw [havg] at hpanic
            exact ⟨avg, havg,
              (checkTwapInTolerance_eq_ok (hfits twap avg htwap havg) hpanic).mpr hclose⟩
        · rw [hage]
          constructor
          · intro hle
            exact ⟨twap, htwap, by exact_mod_cast hle⟩
          · rintro ⟨_, hsome, hle⟩
            cases htwap.symm.trans hsome
            exact_mod_cast hle

/-- What the checks that are required say of a price. -/
structure Meets (t : TokenInfo) (w : TimestampedPriceWithTwap) (price : U68F60) (now : ℤ)
    (required : PriceStatusFlags) : Prop where
  fresh : required.priceAgeChecked = true →
    now ≤ w.price.timestamp.toNat + t.maxAgePriceSeconds.toNat
  close : required.twapChecked = true → t.isTwapEnabled = true → TwapClose t w price
  twapFresh : required.twapAgeChecked = true → t.isTwapEnabled = true → TwapFresh t w now
  within : required.heuristicChecked = true → Within t.heuristic price
  allowed : required.priceUsageAllowed = true → t.blockPriceUsage = 0

/-- A reserve that was just refreshed with a price is not stale exactly if the price meets the
checks that are required: each bit that is asked for stands for what it says. -/
theorem getPrice_checked {unixTimestamp : Int64} (h : getPrice p t o unixTimestamp = .ok (some r))
    (hw : getMostRecentPriceAndTwap t o = .ok w)
    (hfits : ∀ twap avg, w.twap = some twap → twap.priceLoad = .ok avg → InRange p t r.price avg)
    (u : LastUpdate) (slot : UInt64) (required : PriceStatusFlags) :
    (u.updateSlot slot (some r.status.bits)).isStale slot required.bits = .ok false ↔
      Meets t w r.price unixTimestamp.toInt required := by
  rw [getPrice, hw] at h
  obtain ⟨now, price, hnow, -, hr⟩ := getValidatedPrice_eq_ok_some.mp h
  obtain ⟨rfl, -⟩ := validatePrice_price hr
  rw [LastUpdate.isStale_eq_ok_false, ← unwrapU64_eq_ok.mp hnow]
  simp only [validatePrice, bind_eq_ok, pure_eq_ok] at hr
  obtain ⟨age, hage, flags, hflags, within, hwithin, hr⟩ := hr
  obtain ⟨-, hage⟩ := passes_eq_ok hage
  obtain ⟨hclose, hfresh⟩ := twapFlags_eq_ok hfits hflags
  obtain ⟨hpanic, hwithin⟩ := passes_eq_ok hwithin
  rw [checkPriceAge_eq_ok] at hage
  rw [checkPriceHeuristics_eq_ok hpanic] at hwithin
  have hstatus := congrArg GetPriceResult.status hr.symm
  have hrecorded : (u.updateSlot slot (some r.status.bits)).priceStatus = r.status.bits := rfl
  have hslot : (u.updateSlot slot (some r.status.bits)).Fresh slot := ⟨rfl, rfl⟩
  rw [and_iff_right hslot, hrecorded, PriceStatusFlags.bits_and_eq, hstatus]
  simp only [hage, hclose, hfresh, hwithin, decide_eq_true_eq]
  constructor
  · rintro ⟨-, hage, hclose, hfresh, hwithin, hallowed⟩
    exact ⟨fun hreq => by exact_mod_cast hage hreq, hclose, hfresh, hwithin, hallowed⟩
  · intro hmeets
    exact ⟨fun _ => trivial, fun hreq => by exact_mod_cast hmeets.fresh hreq, hmeets.close,
      hmeets.twapFresh, hmeets.within, hmeets.allowed⟩

/-- The price of the chain, twice one and a hundredth, meets every check. -/
theorem getPrice_checked_scope :
    ∃ r w, getPrice .checked scopeToken scopeOracles 60 = .ok (some r) ∧
    Meets scopeToken w r.price 60 ⟨true, true, true, true, true, true⟩ := by
  obtain ⟨r, hr, hstatus⟩ := scopeToken_price
  obtain ⟨w, hw, -⟩ := bind_eq_ok.mp hr
  have hchecked := getPrice_checked hr hw (fun _ _ _ _ => .inl rfl) (LastUpdate.new 0) 5
    ⟨true, true, true, true, true, true⟩
  refine ⟨r, w, hr, hchecked.mp ?_⟩
  rw [hstatus]
  rfl

end

end Saturn.Klend
