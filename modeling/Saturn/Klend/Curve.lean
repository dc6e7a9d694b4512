import Saturn.Klend.Fraction
import Mathlib.Data.List.Chain

/-!
# The borrow rate curve of klend

A `BorrowRateCurve` is eleven points from utilization 0 to 1, the last one repeated to fill the
array (`utils/borrow_rate_curve.rs`). Between two points the rate is interpolated; where the
utilization rounds to a point, in basis points, the rate of the point is taken.

A curve that `validate` accepts answers every utilization, between its first rate and its last, and
a higher utilization never at a lower rate (`getBorrowRate_mono`), although the rounding takes a
step at both ends of each segment. Serializing drops what is behind the first point of full
utilization; what is read back may be another curve, but answers alike (`serialize_fromPoints`).
-/

namespace Saturn.Klend

open Machine

/-- `MAX_UTILIZATION_RATE_BPS` -/
def maxUtilizationRateBps : UInt32 := 10000

/-- `CurvePoint`. -/
structure CurvePoint where
  utilizationRateBps : UInt32
  borrowRateBps : UInt32
  deriving DecidableEq

def CurvePoint.rate (pt : CurvePoint) : U68F60 := fromBps pt.borrowRateBps.toUInt64

/-- `BorrowRateCurve`. -/
@[ext] structure BorrowRateCurve where
  points : Vector CurvePoint 11
  deriving DecidableEq

def invalidPoint : Failure := .lending .invalidBorrowRateCurvePoint

/-! ## Segments -/

/-- `CurveSegment`. -/
structure CurveSegment where
  slopeNom : UInt32
  slopeDenom : UInt32
  startPoint : CurvePoint

namespace CurveSegment

/-- `CurveSegment::from_points`. -/
def fromPoints (start stop : CurvePoint) : Except Failure CurveSegment := do
  require (start.borrowRateBps ≤ stop.borrowRateBps) invalidPoint
  require (start.utilizationRateBps < stop.utilizationRateBps) invalidPoint
  return {
    slopeNom := stop.borrowRateBps - start.borrowRateBps
    slopeDenom := stop.utilizationRateBps - start.utilizationRateBps
    startPoint := start }

/-- `CurveSegment::get_borrow_rate`. -/
def getBorrowRate (p : Profile) (s : CurveSegment) (utilizationRate : U68F60) :
    Except Failure U68F60 := do
  let startUtilizationRate := fromBps s.startPoint.utilizationRateBps.toUInt64
  let coef ← okOr (utilizationRate.checkedSub startUtilizationRate)
    (.lending .invalidUtilizationRate)
  let nom ← coef.mulInt p s.slopeNom.toNat
  let baseRate ← U68F60.divInt nom s.slopeDenom.toNat
  baseRate.add p s.startPoint.rate

end CurveSegment

/-! ## Curves -/

namespace BorrowRateCurve

/-- A point after `last` is accepted, and is the last one from then on. -/
def validatePoint (last pt : CurvePoint) : Except Failure CurvePoint := do
  if last.utilizationRateBps = maxUtilizationRateBps then
    require (pt.utilizationRateBps = maxUtilizationRateBps) invalidPoint
  else require (last.utilizationRateBps < pt.utilizationRateBps) invalidPoint
  require (last.borrowRateBps ≤ pt.borrowRateBps) invalidPoint
  return pt

/-- `BorrowRateCurve::validate`. -/
def validate (c : BorrowRateCurve) : Except Failure Unit := do
  require ((c.points.get 0).utilizationRateBps = 0) invalidPoint
  require ((c.points.get 10).utilizationRateBps = maxUtilizationRateBps) invalidPoint
  let _ ← c.points.toList.tail.foldlM validatePoint (c.points.get 0)

/-- At most eleven points, filled up with the last one. -/
def pad (pts : List CurvePoint) (last : CurvePoint) (h : pts.length ≤ 11) : BorrowRateCurve where
  points := ⟨(pts ++ List.replicate (11 - pts.length) last).toArray, by simp; omega⟩

/-- `BorrowRateCurve::from_points`. -/
def fromPoints (pts : List CurvePoint) : Except Failure BorrowRateCurve := do
  require (2 ≤ pts.length) invalidPoint
  if h : pts.length ≤ 11 then
    let last ← unwrap pts.getLast?
    require (last.utilizationRateBps = maxUtilizationRateBps) invalidPoint
    let curve := pad pts last h
    curve.validate
    return curve
  else .error invalidPoint

/-- `BorrowRateCurve::from_legacy_parameters`. -/
def fromLegacyParameters (optimalUtilizationRatePct baseRatePct optimalRatePct maxRatePct : UInt8) :
    Except Failure BorrowRateCurve :=
  let optimalUtilizationRate := optimalUtilizationRatePct.toUInt32 * 100
  let baseRate := baseRatePct.toUInt32 * 100
  let optimalRate := optimalRatePct.toUInt32 * 100
  let maxRate := maxRatePct.toUInt32 * 100
  let points : List CurvePoint :=
    if optimalUtilizationRate = 0 then
      [⟨0, optimalRate⟩, ⟨maxUtilizationRateBps, maxRate⟩]
    else if optimalUtilizationRate = maxUtilizationRateBps then
      [⟨0, baseRate⟩, ⟨maxUtilizationRateBps, optimalRate⟩]
    else
      [⟨0, baseRate⟩, ⟨optimalUtilizationRate, optimalRate⟩, ⟨maxUtilizationRateBps, maxRate⟩]
  (fromPoints points).mapError fun _ => .panic

/-- `points.windows(2)` -/
def windows (pts : List CurvePoint) : List (CurvePoint × CurvePoint) := pts.zip pts.tail

/-- The first two neighbours with the utilization between theirs. -/
def findSegment (pts : List CurvePoint) (utilizationRateBps : ℕ) :
    Option (CurvePoint × CurvePoint) :=
  (windows pts).find? fun seg => seg.1.utilizationRateBps.toNat ≤ utilizationRateBps ∧
    utilizationRateBps ≤ seg.2.utilizationRateBps.toNat

def rateBetween (p : Profile) (start stop : CurvePoint) (utilizationRateBps : ℕ)
    (utilizationRate : U68F60) : Except Failure U68F60 :=
  if utilizationRateBps = start.utilizationRateBps.toNat then return start.rate
  else if utilizationRateBps = stop.utilizationRateBps.toNat then return stop.rate
  else do
    let segment ← CurveSegment.fromPoints start stop
    segment.getBorrowRate p utilizationRate

/-- `BorrowRateCurve::get_borrow_rate`. -/
def getBorrowRate (p : Profile) (c : BorrowRateCurve) (utilizationRate : U68F60) :
    Except Failure U68F60 := do
  let utilizationRate := if U68F60.one < utilizationRate then U68F60.one else utilizationRate
  let utilizationRateBps ← unwrap (← toBps p 32 utilizationRate)
  let (start, stop) ← unwrap (findSegment c.points.toList utilizationRateBps)
  rateBetween p start stop utilizationRateBps utilizationRate

/-- What `serde` writes: the points up to the first one of full utilization. -/
def serialize : List CurvePoint → List CurvePoint
  | [] => []
  | pt :: pts =>
      pt :: if pt.utilizationRateBps = maxUtilizationRateBps then [] else serialize pts

end BorrowRateCurve

/-! ## Between two points -/

/-- The utilization in basis points, rounded. -/
def roundedBps (u : U68F60) : ℕ := ((u.bits * 10000 + 2 ^ 59) / 2 ^ 60).toNat

section

variable {p : Profile} {u v : U68F60} {a b : CurvePoint} {k : ℕ}

theorem roundedBps_cast (u : U68F60) : (roundedBps u : ℤ) = (u.bits * 10000 + 2 ^ 59) / 2 ^ 60 := by
  have hnonneg := U68F60.bits_nonneg u
  unfold roundedBps
  omega

theorem roundedBps_mono (h : u ≤ v) : roundedBps u ≤ roundedBps v := by
  have hle : u.bits ≤ v.bits := h
  have hu := roundedBps_cast u
  have hv := roundedBps_cast v
  omega

theorem roundedBps_le (h : u ≤ U68F60.one) : roundedBps u ≤ 10000 := by
  have hle : u.bits ≤ 2 ^ 60 := h
  have hu := roundedBps_cast u
  omega

theorem toBps_eq (h : u ≤ U68F60.one) : toBps p 32 u = .ok (some (roundedBps u)) := by
  have hle : u.bits ≤ 2 ^ 60 := h
  have hnonneg := U68F60.bits_nonneg u
  have hrange : (0 : ℤ) ≤ u.bits * (10000 : ℕ) ∧ u.bits * (10000 : ℕ) < 2 ^ 128 := by
    push_cast
    omega
  have hscaled : (Fixed.mulInt p u 10000 : Except Failure U68F60) = .ok ⟨_, hrange.1, hrange.2⟩ :=
    Fixed.exact_of_range hrange.1 hrange.2
  have hround : (U68F60.round ⟨u.bits * (10000 : ℕ), hrange.1, hrange.2⟩).bits
      = (u.bits * 10000 + 2 ^ 59) / 2 ^ 60 * 2 ^ 60 := by
    rw [U68F60.bits_round]
    · push_cast
      rfl
    · push_cast
      omega
  have hfloor : (U68F60.round ⟨u.bits * (10000 : ℕ), hrange.1, hrange.2⟩).floor
      = (u.bits * 10000 + 2 ^ 59) / 2 ^ 60 := by
    rw [Fixed.floor, hround]
    exact Int.mul_ediv_cancel _ (by norm_num)
  rw [toBps, toRatio, hscaled]
  show Except.ok (checkedToNum 32 _) = _
  rw [checkedToNum, hfloor, if_pos (by omega), roundedBps]

/-- The second point may come after the first. -/
structure Follows (a b : CurvePoint) : Prop where
  utilization : if a.utilizationRateBps = maxUtilizationRateBps
    then b.utilizationRateBps = maxUtilizationRateBps
    else a.utilizationRateBps < b.utilizationRateBps
  rate : a.borrowRateBps ≤ b.borrowRateBps

theorem CurvePoint.rate_bits (a : CurvePoint) :
    a.rate.bits = a.borrowRateBps.toNat * 2 ^ 60 / 10000 := rfl

theorem Follows.rate_le (h : Follows a b) : a.rate ≤ b.rate := by
  have hle : a.borrowRateBps.toNat ≤ b.borrowRateBps.toNat := UInt32.le_iff_toNat_le.mp h.rate
  rw [Fixed.le_iff_bits, CurvePoint.rate_bits, CurvePoint.rate_bits]
  omega

/-- What the interpolation adds to the first rate, in bits. -/
def interpolation (a b : CurvePoint) (u : U68F60) : ℤ :=
  (u.bits - a.utilizationRateBps.toNat * 2 ^ 60 / 10000)
    * (b.borrowRateBps.toNat - a.borrowRateBps.toNat)
    / (b.utilizationRateBps.toNat - a.utilizationRateBps.toNat)

/-- Rounded to strictly between two points, a utilization is strictly between them. -/
theorem coef_bounds (ha : a.utilizationRateBps.toNat < roundedBps u)
    (hb : roundedBps u < b.utilizationRateBps.toNat) :
    0 ≤ u.bits - a.utilizationRateBps.toNat * 2 ^ 60 / 10000 ∧
      (u.bits - a.utilizationRateBps.toNat * 2 ^ 60 / 10000) * 10000
        ≤ ((b.utilizationRateBps.toNat : ℤ) - a.utilizationRateBps.toNat) * 2 ^ 60 := by
  have hu := roundedBps_cast u
  omega

theorem interpolation_nonneg (h : Follows a b) (ha : a.utilizationRateBps.toNat < roundedBps u)
    (hb : roundedBps u < b.utilizationRateBps.toNat) : 0 ≤ interpolation a b u := by
  have hrate : a.borrowRateBps.toNat ≤ b.borrowRateBps.toNat := UInt32.le_iff_toNat_le.mp h.rate
  obtain ⟨hcoef, -⟩ := coef_bounds ha hb
  apply Int.ediv_nonneg
  · exact mul_nonneg hcoef (by omega)
  · omega

/-- It does not exceed what the second rate has over the first, also rounded down. -/
theorem interpolation_le (h : Follows a b) (ha : a.utilizationRateBps.toNat < roundedBps u)
    (hb : roundedBps u < b.utilizationRateBps.toNat) :
    a.rate.bits + interpolation a b u ≤ b.rate.bits := by
  have hrate : a.borrowRateBps.toNat ≤ b.borrowRateBps.toNat := UInt32.le_iff_toNat_le.mp h.rate
  obtain ⟨-, hcoef⟩ := coef_bounds ha hb
  have hdenom : (0 : ℤ) < (b.utilizationRateBps.toNat : ℤ) - a.utilizationRateBps.toNat := by omega
  have hnom : (0 : ℤ) ≤ (b.borrowRateBps.toNat : ℤ) - a.borrowRateBps.toNat := by omega
  have hscaled : interpolation a b u * 10000
      ≤ ((b.borrowRateBps.toNat : ℤ) - a.borrowRateBps.toNat) * 2 ^ 60 := by
    refine le_of_mul_le_mul_right ?_ hdenom
    have hquot := Int.ediv_mul_le ((u.bits - a.utilizationRateBps.toNat * 2 ^ 60 / 10000)
      * ((b.borrowRateBps.toNat : ℤ) - a.borrowRateBps.toNat)) hdenom.ne'
    have hprod := mul_le_mul_of_nonneg_right hcoef hnom
    rw [interpolation]
    linarith
  rw [CurvePoint.rate_bits, CurvePoint.rate_bits]
  omega

theorem interpolation_mono (h : Follows a b) (hab : a.utilizationRateBps < b.utilizationRateBps)
    (huv : u ≤ v) : interpolation a b u ≤ interpolation a b v := by
  have hrate : a.borrowRateBps.toNat ≤ b.borrowRateBps.toNat := UInt32.le_iff_toNat_le.mp h.rate
  have hlt : a.utilizationRateBps.toNat < b.utilizationRateBps.toNat :=
    UInt32.lt_iff_toNat_lt.mp hab
  have hle : u.bits ≤ v.bits := huv
  apply Int.ediv_le_ediv
  · omega
  · exact mul_le_mul_of_nonneg_right (by omega) (by omega)

theorem CurveSegment.fromPoints_eq (h : Follows a b)
    (hlt : a.utilizationRateBps < b.utilizationRateBps) :
    CurveSegment.fromPoints a b = .ok ⟨b.borrowRateBps - a.borrowRateBps,
      b.utilizationRateBps - a.utilizationRateBps, a⟩ := by
  simp only [CurveSegment.fromPoints, bind_eq_ok, require_eq_ok, pure_eq_ok]
  exact ⟨(), h.rate, (), hlt, trivial⟩

/-- Strictly between two points the rate is interpolated; none of the operations leaves the
range. -/
theorem rateBetween_interior (h : Follows a b) (ha : a.utilizationRateBps.toNat < roundedBps u)
    (hb : roundedBps u < b.utilizationRateBps.toNat) :
    ∃ r, BorrowRateCurve.rateBetween p a b (roundedBps u) u = .ok r ∧
      r.bits = a.rate.bits + interpolation a b u := by
  have hrate : a.borrowRateBps.toNat ≤ b.borrowRateBps.toNat := UInt32.le_iff_toNat_le.mp h.rate
  have hutil : a.utilizationRateBps.toNat ≤ b.utilizationRateBps.toNat := by omega
  have hlt : a.utilizationRateBps < b.utilizationRateBps := UInt32.lt_iff_toNat_lt.mpr (by omega)
  have hnom : ((b.borrowRateBps - a.borrowRateBps).toNat : ℤ)
      = b.borrowRateBps.toNat - a.borrowRateBps.toNat := by
    rw [UInt32.toNat_sub_of_le _ _ h.rate, Nat.cast_sub hrate]
  have hdenom : ((b.utilizationRateBps - a.utilizationRateBps).toNat : ℤ)
      = b.utilizationRateBps.toNat - a.utilizationRateBps.toNat := by
    rw [UInt32.toNat_sub_of_le _ _ (UInt32.le_iff_toNat_le.mpr hutil), Nat.cast_sub hutil]
  obtain ⟨hcoef_nonneg, hcoef_le⟩ := coef_bounds ha hb
  have hinter_nonneg := interpolation_nonneg h ha hb
  have hinter_le := interpolation_le h ha hb
  have hb_lt := U68F60.bits_lt b.rate
  have ha_nonneg := U68F60.bits_nonneg a.rate
  -- the steps of `CurveSegment::get_borrow_rate`, each with its bits
  obtain ⟨coef, hcoef, hcoef_bits⟩ : ∃ coef,
      u.checkedSub (fromBps a.utilizationRateBps.toUInt64) = some coef ∧
        coef.bits = u.bits - a.utilizationRateBps.toNat * 2 ^ 60 / 10000 := by
    refine ⟨⟨_, hcoef_nonneg, ?_⟩, Fixed.checkedSub_eq_some.mpr rfl, rfl⟩
    have := U68F60.bits_lt u
    show _ < (2 ^ 128 : ℤ)
    omega
  rw [← hcoef_bits] at hcoef_nonneg hcoef_le
  obtain ⟨nom, hnom_eq, hnom_bits⟩ :=
    Fixed.exists_exact (f := .u68f60) p Failure
      (z := coef.bits * (b.borrowRateBps - a.borrowRateBps).toNat)
      (mul_nonneg hcoef_nonneg (by positivity)) (by
        have hcoef_lt : coef.bits ≤ 2 ^ 79 := by
          have := b.utilizationRateBps.toNat_lt
          omega
        have hnom_le : ((b.borrowRateBps - a.borrowRateBps).toNat : ℤ) ≤ 2 ^ 32 := by
          have := (b.borrowRateBps - a.borrowRateBps).toNat_lt
          omega
        calc coef.bits * (b.borrowRateBps - a.borrowRateBps).toNat ≤ 2 ^ 79 * 2 ^ 32 :=
              mul_le_mul hcoef_lt hnom_le (by positivity) (by norm_num)
          _ < 2 ^ 128 := by norm_num)
  obtain ⟨base, hbase, hbase_bits⟩ : ∃ base : U68F60,
      (U68F60.divInt nom (b.utilizationRateBps - a.utilizationRateBps).toNat
        : Except Failure U68F60) = .ok base ∧ base.bits = interpolation a b u := by
    refine ⟨⟨_, hinter_nonneg, by show _ < (2 ^ 128 : ℤ); omega⟩, U68F60.divInt_eq_ok.mpr ⟨?_, ?_⟩,
      rfl⟩
    · omega
    · rw [hnom_bits, hcoef_bits, hnom, hdenom]
      rfl
  obtain ⟨r, hr, hr_bits⟩ :=
    Fixed.exists_exact (f := .u68f60) p Failure (z := base.bits + a.rate.bits)
      (by show (0 : ℤ) ≤ _; omega) (by show _ < (2 ^ 128 : ℤ); omega)
  refine ⟨r, ?_, by rw [hr_bits, hbase_bits, add_comm]⟩
  rw [BorrowRateCurve.rateBetween, if_neg ha.ne', if_neg hb.ne]
  simp only [CurveSegment.getBorrowRate, bind_eq_ok, okOr_eq_ok]
  exact ⟨_, CurveSegment.fromPoints_eq h hlt, coef, hcoef, nom, hnom_eq, base, hbase, hr⟩

/-- Where the utilization rounds to one of two points or between them, the rate is between
theirs. -/
theorem rateBetween_eq_ok (h : Follows a b) (ha : a.utilizationRateBps.toNat ≤ roundedBps u)
    (hb : roundedBps u ≤ b.utilizationRateBps.toNat) :
    ∃ r, BorrowRateCurve.rateBetween p a b (roundedBps u) u = .ok r ∧ a.rate ≤ r ∧ r ≤ b.rate := by
  rcases ha.eq_or_lt' with heq | hlt
  · exact ⟨a.rate, by rw [BorrowRateCurve.rateBetween, if_pos heq]; rfl, le_rfl, h.rate_le⟩
  rcases hb.eq_or_lt with heq' | hlt'
  · refine ⟨b.rate, ?_, h.rate_le, le_rfl⟩
    rw [BorrowRateCurve.rateBetween, if_neg hlt.ne', if_pos heq']
    rfl
  obtain ⟨r, hr, hbits⟩ := rateBetween_interior h hlt hlt'
  have hnonneg := interpolation_nonneg h hlt hlt'
  have hle := interpolation_le h hlt hlt'
  refine ⟨r, hr, ?_, ?_⟩
  · rw [Fixed.le_iff_bits]
    omega
  · rw [Fixed.le_iff_bits]
    omega

theorem rateBetween_mono (h : Follows a b) (huv : u ≤ v)
    (ha : a.utilizationRateBps.toNat ≤ roundedBps u)
    (hb : roundedBps v ≤ b.utilizationRateBps.toNat)
    {r s : U68F60} (hr : BorrowRateCurve.rateBetween p a b (roundedBps u) u = .ok r)
    (hs : BorrowRateCurve.rateBetween p a b (roundedBps v) v = .ok s) : r ≤ s := by
  have hbps := roundedBps_mono huv
  obtain ⟨r', hr', -, hr_le⟩ := rateBetween_eq_ok h ha (hbps.trans hb)
  obtain ⟨s', hs', hs_ge, -⟩ := rateBetween_eq_ok h (ha.trans hbps) hb
  obtain rfl : r' = r := Except.ok.inj (hr'.symm.trans hr)
  obtain rfl : s' = s := Except.ok.inj (hs'.symm.trans hs)
  rcases ha.eq_or_lt' with heq | hlt
  · -- the lower one has the first rate
    rw [BorrowRateCurve.rateBetween, if_pos heq] at hr
    exact (Except.ok.inj hr) ▸ hs_ge
  rcases hb.eq_or_lt with heq' | hlt'
  · -- the higher one has the second
    rw [BorrowRateCurve.rateBetween, if_neg (hlt.trans_le hbps).ne', if_pos heq'] at hs
    exact (Except.ok.inj hs) ▸ hr_le
  obtain ⟨r'', hr'', hr_bits⟩ := rateBetween_interior (p := p) h hlt (hbps.trans_lt hlt')
  obtain ⟨s'', hs'', hs_bits⟩ := rateBetween_interior (p := p) h (hlt.trans_le hbps) hlt'
  obtain rfl : r'' = r' := Except.ok.inj (hr''.symm.trans hr)
  obtain rfl : s'' = s' := Except.ok.inj (hs''.symm.trans hs)
  have hmono := interpolation_mono h (UInt32.lt_iff_toNat_lt.mpr (by omega)) huv
  rw [Fixed.le_iff_bits]
  omega

end

/-! ## Along the points -/

namespace BorrowRateCurve

variable {p : Profile} {u v : U68F60} {a b last : CurvePoint} {l pts : List CurvePoint} {k : ℕ}

theorem findSegment_cons_cons : findSegment (a :: b :: l) k =
    if a.utilizationRateBps.toNat ≤ k ∧ k ≤ b.utilizationRateBps.toNat then some (a, b)
    else findSegment (b :: l) k := by
  simp [findSegment, windows, List.find?_cons]
  split <;> simp_all

/-- The rate that a list of points gives. -/
def rateOf (p : Profile) (pts : List CurvePoint) (u : U68F60) : Except Failure U68F60 := do
  let (start, stop) ← unwrap (findSegment pts (roundedBps u))
  rateBetween p start stop (roundedBps u) u

theorem rateOf_cons_cons : rateOf p (a :: b :: l) u =
    if a.utilizationRateBps.toNat ≤ roundedBps u ∧ roundedBps u ≤ b.utilizationRateBps.toNat
    then rateBetween p a b (roundedBps u) u else rateOf p (b :: l) u := by
  rw [rateOf, findSegment_cons_cons]
  split
  · rfl
  · rfl

theorem rate_le_getLast (hchain : (a :: l).IsChain Follows)
    (hlast : (a :: l).getLast (by simp) = last) :
    a.rate ≤ last.rate := by
  induction l generalizing a with
  | nil => exact (congrArg CurvePoint.rate hlast).le
  | cons b l ih =>
      obtain ⟨hab, hrest⟩ := List.isChain_cons_cons.mp hchain
      exact hab.rate_le.trans (ih hrest (by simpa using hlast))

/-- Points in order answer every utilization from the first to the last, between their rates. -/
theorem rateOf_eq_ok (hchain : (a :: b :: l).IsChain Follows)
    (hlast : (a :: b :: l).getLast (by simp) = last)
    (ha : a.utilizationRateBps.toNat ≤ roundedBps u)
    (hu : roundedBps u ≤ last.utilizationRateBps.toNat) :
    ∃ r, rateOf p (a :: b :: l) u = .ok r ∧ a.rate ≤ r ∧ r ≤ last.rate := by
  induction l generalizing a b with
  | nil =>
      obtain rfl : b = last := by simpa using hlast
      rw [rateOf_cons_cons, if_pos ⟨ha, hu⟩]
      exact rateBetween_eq_ok (List.isChain_cons_cons.mp hchain).1 ha hu
  | cons c l ih =>
      obtain ⟨hab, hrest⟩ := List.isChain_cons_cons.mp hchain
      have hlast' : (b :: c :: l).getLast (by simp) = last := by simpa using hlast
      rw [rateOf_cons_cons]
      rcases le_or_gt (roundedBps u) b.utilizationRateBps.toNat with hb | hb
      · rw [if_pos ⟨ha, hb⟩]
        obtain ⟨r, hr, hr_ge, hr_le⟩ := rateBetween_eq_ok (p := p) hab ha hb
        exact ⟨r, hr, hr_ge, hr_le.trans (rate_le_getLast hrest hlast')⟩
      · rw [if_neg fun h => absurd h.2 hb.not_ge]
        obtain ⟨r, hr, hr_ge, hr_le⟩ := ih hrest hlast' hb.le
        exact ⟨r, hr, hab.rate_le.trans hr_ge, hr_le⟩

theorem rateOf_mono (hchain : (a :: b :: l).IsChain Follows)
    (hlast : (a :: b :: l).getLast (by simp) = last)
    (ha : a.utilizationRateBps.toNat ≤ roundedBps u) (huv : u ≤ v)
    (hv : roundedBps v ≤ last.utilizationRateBps.toNat) {r s : U68F60}
    (hr : rateOf p (a :: b :: l) u = .ok r) (hs : rateOf p (a :: b :: l) v = .ok s) : r ≤ s := by
  have hbps := roundedBps_mono huv
  induction l generalizing a b with
  | nil =>
      obtain rfl : b = last := by simpa using hlast
      rw [rateOf_cons_cons, if_pos ⟨ha, hbps.trans hv⟩] at hr
      rw [rateOf_cons_cons, if_pos ⟨ha.trans hbps, hv⟩] at hs
      exact rateBetween_mono (List.isChain_cons_cons.mp hchain).1 huv ha hv hr hs
  | cons c l ih =>
      obtain ⟨hab, hrest⟩ := List.isChain_cons_cons.mp hchain
      have hlast' : (b :: c :: l).getLast (by simp) = last := by simpa using hlast
      rw [rateOf_cons_cons] at hr hs
      rcases le_or_gt (roundedBps v) b.utilizationRateBps.toNat with hb | hb
      · -- both in the first segment
        rw [if_pos ⟨ha, hbps.trans hb⟩] at hr
        rw [if_pos ⟨ha.trans hbps, hb⟩] at hs
        exact rateBetween_mono hab huv ha hb hr hs
      rw [if_neg fun h => absurd h.2 hb.not_ge] at hs
      rcases le_or_gt (roundedBps u) b.utilizationRateBps.toNat with hb' | hb'
      · -- only the lower one in the first segment: the rate of `b` is between
        rw [if_pos ⟨ha, hb'⟩] at hr
        obtain ⟨r', hr', -, hr_le⟩ := rateBetween_eq_ok (p := p) hab ha hb'
        obtain ⟨s', hs', hs_ge, -⟩ := rateOf_eq_ok (p := p) hrest hlast' hb.le hv
        obtain rfl : r' = r := Except.ok.inj (hr'.symm.trans hr)
        obtain rfl : s' = s := Except.ok.inj (hs'.symm.trans hs)
        exact hr_le.trans hs_ge
      · rw [if_neg fun h => absurd h.2 hb'.not_ge] at hr
        exact ih hrest hlast' hb'.le hr hs

/-! ## Validated curves -/

theorem validatePoint_eq_ok {r : CurvePoint} : validatePoint a b = .ok r ↔ Follows a b ∧ r = b := by
  unfold validatePoint
  split
  · rename_i hmax
    simp only [bind_eq_ok, require_eq_ok, pure_eq_ok]
    constructor
    · rintro ⟨_, hutil, _, hrate, rfl⟩
      exact ⟨⟨by rwa [if_pos hmax], hrate⟩, rfl⟩
    · rintro ⟨h, rfl⟩
      exact ⟨(), by simpa [hmax] using h.utilization, (), h.rate, rfl⟩
  · rename_i hmax
    simp only [bind_eq_ok, require_eq_ok, pure_eq_ok]
    constructor
    · rintro ⟨_, hutil, _, hrate, rfl⟩
      exact ⟨⟨by rwa [if_neg hmax], hrate⟩, rfl⟩
    · rintro ⟨h, rfl⟩
      exact ⟨(), by simpa [hmax] using h.utilization, (), h.rate, rfl⟩

theorem exists_foldlM_validatePoint :
    (∃ r, l.foldlM validatePoint a = .ok r) ↔ (a :: l).IsChain Follows := by
  induction l generalizing a with
  | nil => simp
  | cons b l ih =>
      simp only [List.foldlM_cons, bind_eq_ok, validatePoint_eq_ok, List.isChain_cons_cons, ← ih]
      constructor
      · rintro ⟨r, _, ⟨hab, rfl⟩, hr⟩
        exact ⟨hab, r, hr⟩
      · rintro ⟨hab, r, hr⟩
        exact ⟨r, b, ⟨hab, rfl⟩, hr⟩

/-- What `validate` accepts. -/
structure Valid (c : BorrowRateCurve) : Prop where
  first : (c.points.get 0).utilizationRateBps = 0
  last : (c.points.get 10).utilizationRateBps = maxUtilizationRateBps
  follows : c.points.toList.IsChain Follows

variable {c : BorrowRateCurve}

theorem exists_points (c : BorrowRateCurve) : ∃ b l, c.points.toList = c.points.get 0 :: b :: l ∧
    (c.points.get 0 :: b :: l).getLast (by simp) = c.points.get 10 := by
  have hlen : c.points.toList.length = 11 := by simp
  obtain ⟨a, b, l, hl⟩ : ∃ a b l, c.points.toList = a :: b :: l := by
    match h : c.points.toList, hlen with
    | a :: b :: l, _ => exact ⟨a, b, l, rfl⟩
  have hget (i : Fin 11) : c.points.get i = c.points.toList.get (i.cast hlen.symm) := by
    simp [Vector.get]
  have hfirst : c.points.get 0 = a := by
    rw [hget]
    simp [hl]
  have hlast : (a :: b :: l).getLast (by simp) = c.points.get 10 := by
    have hlength : l.length = 9 := by simpa [hl] using hlen
    rw [List.getLast_eq_getElem, hget, List.get_eq_getElem, List.getElem_of_eq hl]
    congr 1
    rw [List.length_cons, List.length_cons, hlength]
    rfl
  rw [hfirst]
  exact ⟨b, l, hl, hlast⟩

theorem validate_eq_ok {x : Unit} : c.validate = .ok x ↔ c.Valid := by
  obtain ⟨b, l, hl, -⟩ := exists_points c
  simp only [validate, bind_eq_ok, require_eq_ok, pure_eq_ok]
  rw [hl, List.tail_cons]
  constructor
  · rintro ⟨_, hfirst, _, hlast, r, hloop, -⟩
    exact ⟨hfirst, hlast, hl ▸ exists_foldlM_validatePoint.mp ⟨r, hloop⟩⟩
  · intro h
    obtain ⟨r, hloop⟩ := exists_foldlM_validatePoint.mpr (hl ▸ h.follows)
    exact ⟨(), h.first, (), h.last, r, hloop, trivial⟩

/-- The rates of a curve are those of its points, where the utilization is at most one. -/
theorem getBorrowRate_eq (p : Profile) (c : BorrowRateCurve) (u : U68F60) :
    c.getBorrowRate p u = rateOf p c.points.toList (min u U68F60.one) := by
  have hmin : (if U68F60.one < u then U68F60.one else u) = min u U68F60.one := by
    rcases le_or_gt u U68F60.one with h | h
    · rw [if_neg h.not_gt, min_eq_left h]
    · rw [if_pos h, min_eq_right h.le]
  rw [getBorrowRate, hmin, toBps_eq (min_le_right _ _)]
  rfl

theorem roundedBps_min_le (u : U68F60) :
    roundedBps (min u U68F60.one) ≤ maxUtilizationRateBps.toNat := roundedBps_le (min_le_right _ _)

theorem Valid.utilization_le (hc : c.Valid) (u : U68F60) :
    (c.points.get 0).utilizationRateBps.toNat ≤ roundedBps (min u U68F60.one) ∧
      roundedBps (min u U68F60.one) ≤ (c.points.get 10).utilizationRateBps.toNat := by
  rw [hc.first, hc.last]
  exact ⟨Nat.zero_le _, roundedBps_min_le u⟩

theorem Valid.exists_getBorrowRate (hc : c.Valid) (p : Profile) (u : U68F60) :
    ∃ r, c.getBorrowRate p u = .ok r ∧ (c.points.get 0).rate ≤ r ∧ r ≤ (c.points.get 10).rate := by
  obtain ⟨b, l, hl, hlast⟩ := exists_points c
  obtain ⟨hlo, hhi⟩ := hc.utilization_le u
  obtain ⟨r, hr, hbounds⟩ := rateOf_eq_ok (p := p) (hl ▸ hc.follows) hlast hlo hhi
  exact ⟨r, by rw [getBorrowRate_eq, hl, hr], hbounds⟩

/-- A validated curve answers every utilization between its first and its last rate, and a higher
utilization never at a lower rate. -/
theorem getBorrowRate_mono (p : Profile) (c : BorrowRateCurve) (hc : c.validate = .ok ())
    (u v : U68F60) (huv : u ≤ v) :
    ∃ r s, c.getBorrowRate p u = .ok r ∧ c.getBorrowRate p v = .ok s ∧
      (c.points.get 0).rate ≤ r ∧ r ≤ s ∧ s ≤ (c.points.get 10).rate := by
  have hvalid := validate_eq_ok.mp hc
  obtain ⟨r, hr, hr_ge, -⟩ := hvalid.exists_getBorrowRate p u
  obtain ⟨s, hs, -, hs_le⟩ := hvalid.exists_getBorrowRate p v
  refine ⟨r, s, hr, hs, hr_ge, ?_, hs_le⟩
  obtain ⟨b, l, hl, hlast⟩ := exists_points c
  rw [getBorrowRate_eq, hl] at hr hs
  exact rateOf_mono (hl ▸ hvalid.follows) hlast (hvalid.utilization_le u).1
    (min_le_min_right _ huv) (hvalid.utilization_le v).2 hr hs

/-- A curve with a kink at four fifths: no interest at no utilization, a tenth there and all at full
utilization. -/
def kinkedPoints : List CurvePoint := [⟨0, 0⟩, ⟨8000, 1000⟩, ⟨10000, 10000⟩]

/-- On both sides of the kink. -/
theorem getBorrowRate_mono_kinked : ∃ c r s, fromPoints kinkedPoints = .ok c ∧
    c.getBorrowRate .release (fromPercent 50) = .ok r ∧
    c.getBorrowRate .release (fromPercent 90) = .ok s ∧
    (c.points.get 0).rate ≤ r ∧ r ≤ s ∧ s ≤ (c.points.get 10).rate := by
  obtain ⟨c, hc, hvalid⟩ := exists_eq_ok (fun c => c.validate.toOption.isSome)
    (show (fromPoints kinkedPoints).toOption.any _ = true by decide +kernel)
  obtain ⟨_, hvalid⟩ := exists_ok hvalid
  have hle : fromPercent 50 ≤ fromPercent 90 := by decide
  obtain ⟨r, s, hr, hs, hrates⟩ := getBorrowRate_mono .release c hvalid _ _ hle
  exact ⟨c, r, s, hc, hr, hs, hrates⟩

/-! ## Curves from points -/

/-- What `from_points` accepts. -/
structure Accepts (pts : List CurvePoint) (first last : CurvePoint) : Prop where
  two_le : 2 ≤ pts.length
  le_eleven : pts.length ≤ 11
  head : pts.head? = some first
  getLast : pts.getLast? = some last
  first : first.utilizationRateBps = 0
  last : last.utilizationRateBps = maxUtilizationRateBps
  follows : pts.IsChain Follows

theorem pad_toList (h : pts.length ≤ 11) :
    (pad pts last h).points.toList = pts ++ List.replicate (11 - pts.length) last := by
  simp [pad]

theorem Follows.refl (h : last.utilizationRateBps = maxUtilizationRateBps) : Follows last last :=
  ⟨by rw [if_pos h]; exact h, UInt32.le_refl _⟩

theorem head?_points (c : BorrowRateCurve) : c.points.toList.head? = some (c.points.get 0) := by
  obtain ⟨b, l, hl, -⟩ := exists_points c
  rw [hl, List.head?_cons]

theorem getLast?_points (c : BorrowRateCurve) :
    c.points.toList.getLast? = some (c.points.get 10) := by
  obtain ⟨b, l, hl, hlast⟩ := exists_points c
  rw [hl, List.getLast?_eq_some_getLast (by simp), hlast]

theorem getLast?_append_replicate (n : ℕ) (h : pts.getLast? = some last) :
    (pts ++ List.replicate n last).getLast? = some last := by
  cases n with
  | zero => simpa using h
  | succ n => simp [List.getLast?_append, List.getLast?_replicate]

section

variable {first : CurvePoint}

theorem Accepts.pad_valid (h : Accepts pts first last) : (pad pts last h.le_eleven).Valid := by
  have hhead := head?_points (pad pts last h.le_eleven)
  have hlast := getLast?_points (pad pts last h.le_eleven)
  rw [pad_toList, List.head?_append, h.head] at hhead
  rw [pad_toList, getLast?_append_replicate _ h.getLast] at hlast
  refine ⟨?_, ?_, ?_⟩
  · rw [← Option.some.inj hhead]
    exact h.first
  · rw [← Option.some.inj hlast]
    exact h.last
  · rw [pad_toList, List.isChain_append]
    refine ⟨h.follows, List.isChain_replicate_of_rel _ (Follows.refl h.last), ?_⟩
    intro x hx y hy
    rw [h.getLast] at hx
    obtain rfl : last = x := Option.some.inj hx
    obtain rfl : y = last := List.eq_of_mem_replicate (List.mem_of_mem_head? hy)
    exact Follows.refl h.last

/-- `from_points` accepts these lists and fills them up with the last point. -/
theorem fromPoints_eq_ok : fromPoints pts = .ok c ↔ ∃ first last, Accepts pts first last ∧
    c.points.toList = pts ++ List.replicate (11 - pts.length) last := by
  unfold fromPoints
  constructor
  · intro h
    obtain ⟨_, htwo, h⟩ := bind_eq_ok.mp h
    split at h
    · rename_i hle
      simp only [bind_eq_ok, unwrap_eq_ok, require_eq_ok, pure_eq_ok] at h
      obtain ⟨last, hlast, _, hutil, _, hvalid, rfl⟩ := h
      have hpad := validate_eq_ok.mp hvalid
      -- validity of the padded points says that the points given follow one another
      have hchain := hpad.follows
      have hhead := head?_points (pad pts last hle)
      rw [pad_toList] at hchain hhead
      obtain ⟨first, hfirst⟩ : ∃ first, pts.head? = some first := by
        cases pts with
        | nil => simp at hlast
        | cons a l => exact ⟨a, rfl⟩
      rw [List.head?_append, hfirst] at hhead
      refine ⟨first, last, ⟨require_eq_ok.mp htwo, hle, hfirst, hlast, ?_, hutil, ?_⟩,
        pad_toList hle⟩
      · rw [Option.some.inj hhead]
        exact hpad.first
      · exact (List.isChain_append.mp hchain).1
    · cases h
  · rintro ⟨first, last, h, hpoints⟩
    -- the points determine the curve
    have hc : c = pad pts last h.le_eleven := by
      cases c
      simp only [pad, BorrowRateCurve.mk.injEq]
      apply Vector.toList_inj.mp
      rw [hpoints]
      simp
    refine bind_eq_ok.mpr ⟨(), require_eq_ok.mpr h.two_le, ?_⟩
    rw [dif_pos h.le_eleven]
    simp only [bind_eq_ok, unwrap_eq_ok, require_eq_ok, pure_eq_ok]
    exact ⟨last, h.getLast, (), h.last, (), validate_eq_ok.mpr h.pad_valid, hc.symm⟩

end

/-! ## Serialization -/

theorem full_of_chain (hchain : (a :: l).IsChain Follows)
    (ha : a.utilizationRateBps = maxUtilizationRateBps) :
    ∀ b ∈ l, b.utilizationRateBps = maxUtilizationRateBps := by
  induction l generalizing a with
  | nil => simp
  | cons b l ih =>
      obtain ⟨hab, hrest⟩ := List.isChain_cons_cons.mp hchain
      have hb : b.utilizationRateBps = maxUtilizationRateBps := by
        have hutil := hab.utilization
        rwa [if_pos ha] at hutil
      intro d hd
      rcases List.mem_cons.mp hd with rfl | hd
      · exact hb
      · exact ih hrest hb d hd

/-- What is written ends with the only point of full utilization in it; what is left out are
others. -/
structure Written (pts : List CurvePoint) (m : CurvePoint) (rest : List CurvePoint) : Prop where
  eq : pts = serialize pts ++ rest
  getLast : (serialize pts).getLast? = some m
  full : m.utilizationRateBps = maxUtilizationRateBps
  only : ∀ b ∈ serialize pts, b.utilizationRateBps = maxUtilizationRateBps → b = m
  rest : ∀ b ∈ rest, b.utilizationRateBps = maxUtilizationRateBps

theorem exists_written (hchain : pts.IsChain Follows) (hlast : pts.getLast? = some last)
    (hfull : last.utilizationRateBps = maxUtilizationRateBps) : ∃ m rest, Written pts m rest := by
  induction pts with
  | nil => simp at hlast
  | cons a l ih =>
      by_cases ha : a.utilizationRateBps = maxUtilizationRateBps
      · have hser : serialize (a :: l) = [a] := by rw [serialize, if_pos ha]
        refine ⟨a, l, ?_, ?_, ha, ?_, full_of_chain hchain ha⟩ <;> simp [hser]
      · have hser : serialize (a :: l) = a :: serialize l := by rw [serialize, if_neg ha]
        cases l with
        | nil =>
            obtain rfl : a = last := by simpa using hlast
            exact absurd hfull ha
        | cons b l =>
            obtain ⟨hab, hrest⟩ := List.isChain_cons_cons.mp hchain
            obtain ⟨m, rest, h⟩ := ih hrest (by simpa using hlast)
            refine ⟨m, rest, ?_, ?_, h.full, ?_, h.rest⟩
            · rw [hser, List.cons_append, ← h.eq]
            · rw [hser, List.getLast?_cons, h.getLast]
              rfl
            · rw [hser]
              intro d hd hd_full
              rcases List.mem_cons.mp hd with rfl | hd
              · exact absurd hd_full ha
              · exact h.only d hd hd_full

theorem windows_cons_cons : windows (a :: b :: l) = (a, b) :: windows (b :: l) := rfl

theorem windows_append (pts rest : List CurvePoint) : windows pts <+: windows (pts ++ rest) := by
  induction pts with
  | nil => exact List.nil_prefix
  | cons a l ih =>
      cases l with
      | nil => exact List.nil_prefix
      | cons b l =>
          simp only [List.cons_append, windows_cons_cons]
          exact List.cons_prefix_cons.mpr ⟨rfl, ih⟩

/-- Where the first points give a rate, so do they with others behind them. -/
theorem rateOf_append (rest : List CurvePoint) {r : U68F60} (h : rateOf p pts u = .ok r) :
    rateOf p (pts ++ rest) u = .ok r := by
  simp only [rateOf, bind_eq_ok, unwrap_eq_ok] at h ⊢
  obtain ⟨seg, hseg, hr⟩ := h
  exact ⟨seg, (windows_append pts rest).find?_eq_some hseg, hr⟩

theorem Written.accepts {m : CurvePoint} {rest : List CurvePoint} (h : Written pts m rest)
    (hchain : pts.IsChain Follows) (hlen : pts.length ≤ 11) {first : CurvePoint}
    (hfirst : pts.head? = some first) (hzero : first.utilizationRateBps = 0) :
    Accepts (serialize pts) first m := by
  have hbegin : serialize pts <+: pts := ⟨rest, h.eq.symm⟩
  have hhead : (serialize pts).head? = some first := by
    cases pts with
    | nil => simp at hfirst
    | cons a l =>
        rw [serialize, List.head?_cons]
        exact hfirst
  refine ⟨?_, hbegin.length_le.trans hlen, hhead, h.getLast, hzero, h.full,
    List.IsChain.prefix hchain hbegin⟩
  -- one point alone has no utilization or the full one
  match hs : serialize pts, hhead, h.getLast with
  | [a], hhead', hlast =>
      obtain rfl : a = first := Option.some.inj hhead'
      obtain rfl : a = m := Option.some.inj hlast
      exact absurd (hzero.symm.trans h.full) (by decide)
  | a :: b :: l, _, _ => simp

/-- What is read back of a validated curve is accepted and has its rates; it is the same curve
unless points of full utilization differ. -/
theorem serialize_fromPoints (c : BorrowRateCurve) (hc : c.validate = .ok ()) :
    ∃ c', fromPoints (serialize c.points.toList) = .ok c' ∧
      (∀ p u, c'.getBorrowRate p u = c.getBorrowRate p u) ∧
      (c' = c ↔ ∀ a ∈ c.points.toList, ∀ b ∈ c.points.toList,
        a.utilizationRateBps = maxUtilizationRateBps →
          b.utilizationRateBps = maxUtilizationRateBps →
          a = b) := by
  obtain ⟨hfirst, hlast, hchain⟩ := validate_eq_ok.mp hc
  obtain ⟨m, rest, hw⟩ := exists_written hchain (getLast?_points c) hlast
  have hlen : c.points.toList.length = 11 := by simp
  have haccepts := hw.accepts hchain hlen.le (head?_points c) hfirst
  obtain ⟨c', hc'⟩ : ∃ c', c' = pad (serialize c.points.toList) m haccepts.le_eleven := ⟨_, rfl⟩
  have hpoints : c'.points.toList = serialize c.points.toList
      ++ List.replicate (11 - (serialize c.points.toList).length) m := by rw [hc', pad_toList]
  refine ⟨c', fromPoints_eq_ok.mpr ⟨_, m, haccepts, hpoints⟩, ?_, ?_⟩
  · -- the points written give every rate
    intro p u
    obtain ⟨b, l, hl⟩ : ∃ b l, serialize c.points.toList = c.points.get 0 :: b :: l := by
      match hs : serialize c.points.toList, haccepts.head, haccepts.two_le with
      | a :: b :: l, hhead, _ =>
          obtain rfl : a = c.points.get 0 := Option.some.inj hhead
          exact ⟨b, l, rfl⟩
    have hm : (c.points.get 0 :: b :: l).getLast (by simp) = m := by
      have hgetLast := haccepts.getLast
      rw [hl, List.getLast?_eq_some_getLast (by simp)] at hgetLast
      exact Option.some.inj hgetLast
    have hchain' := haccepts.follows
    rw [hl] at hchain'
    obtain ⟨r, hr, -⟩ := rateOf_eq_ok (p := p) hchain' hm (u := min u U68F60.one)
      (by rw [hfirst]; exact Nat.zero_le _) (by rw [hw.full]; exact roundedBps_min_le u)
    rw [← hl] at hr
    rw [getBorrowRate_eq, getBorrowRate_eq, hpoints, rateOf_append _ hr, hw.eq, rateOf_append _ hr]
  · have hm_mem : m ∈ serialize c.points.toList := List.mem_of_getLast? haccepts.getLast
    constructor
    · rintro rfl
      have hfull (a : CurvePoint) (ha : a ∈ c'.points.toList)
          (hutil : a.utilizationRateBps = maxUtilizationRateBps) : a = m := by
        rw [hpoints] at ha
        rcases List.mem_append.mp ha with ha | ha
        · exact hw.only a ha hutil
        · exact List.eq_of_mem_replicate ha
      intro a ha b hb ha_full hb_full
      rw [hfull a ha ha_full, hfull b hb hb_full]
    · intro hsame
      -- behind the first point at full utilization there are only copies of it
      have hrest : rest = List.replicate (11 - (serialize c.points.toList).length) m := by
        have hsplit := congrArg List.length hw.eq
        rw [List.length_append, hlen] at hsplit
        apply List.eq_replicate_iff.mpr
        refine ⟨by omega, fun b hb => ?_⟩
        have hb_mem : b ∈ c.points.toList := hw.eq ▸ List.mem_append_right _ hb
        have hm_mem' : m ∈ c.points.toList := hw.eq ▸ List.mem_append_left _ hm_mem
        exact hsame b hb_mem m hm_mem' (hw.rest b hb) hw.full
      have hlist : c'.points.toList = c.points.toList := by
        rw [hpoints, ← hrest]
        exact hw.eq.symm
      exact BorrowRateCurve.ext (Vector.toList_inj.mp hlist)

/-- The kinked curve with another point of full utilization behind the first: it is not read back,
but its rates are. -/
theorem serialize_fromPoints_kinked :
    ∃ c c', fromPoints (kinkedPoints ++ [⟨10000, 20000⟩]) = .ok c ∧
    fromPoints (serialize c.points.toList) = .ok c' ∧
    (∀ p u, c'.getBorrowRate p u = c.getBorrowRate p u) ∧ c' ≠ c := by
  obtain ⟨c, hc, hc_test⟩ := exists_eq_ok (fun c : BorrowRateCurve =>
      c.validate.toOption.isSome &&
        decide (CurvePoint.mk 10000 10000 ∈ c.points.toList ∧
          CurvePoint.mk 10000 20000 ∈ c.points.toList))
    (show (fromPoints (kinkedPoints ++ [⟨10000, 20000⟩])).toOption.any _ = true by decide +kernel)
  rw [Bool.and_eq_true, decide_eq_true_eq] at hc_test
  obtain ⟨_, hvalid⟩ := exists_ok hc_test.1
  obtain ⟨c', hc', hrates, hsame⟩ := serialize_fromPoints c hvalid
  refine ⟨c, c', hc, hc', hrates, fun heq => ?_⟩
  have := hsame.mp heq _ hc_test.2.1 _ hc_test.2.2 rfl rfl
  simp at this

/-! ## At the points, and legacy parameters -/

theorem mapError_eq_ok {α ε ε' : Type} {m : Except ε α} {f : ε → ε'} {x : α} :
    m.mapError f = .ok x ↔ m = .ok x := by
  cases m <;> simp [Except.mapError]

theorem toNat_pct (n : UInt8) : (n.toUInt32 * 100).toNat = n.toNat * 100 := by
  have hlt := n.toNat_lt
  show n.toNat * 100 % 2 ^ 32 = _
  omega

theorem exists_fromPoints :
    (∃ c, fromPoints pts = .ok c) ↔ ∃ first last, Accepts pts first last := by
  constructor
  · rintro ⟨c, hc⟩
    obtain ⟨first, last, h, -⟩ := fromPoints_eq_ok.mp hc
    exact ⟨first, last, h⟩
  · rintro ⟨first, last, h⟩
    exact ⟨_, fromPoints_eq_ok.mpr ⟨first, last, h, pad_toList h.le_eleven⟩⟩

theorem exists_accepts_pair : (∃ first last, Accepts [a, b] first last) ↔
    a.utilizationRateBps = 0 ∧ b.utilizationRateBps = maxUtilizationRateBps ∧ Follows a b := by
  constructor
  · rintro ⟨first, last, h⟩
    obtain rfl : a = first := Option.some.inj h.head
    obtain rfl : b = last := Option.some.inj h.getLast
    exact ⟨h.first, h.last, by simpa using h.follows⟩
  · rintro ⟨hfirst, hlast, hab⟩
    exact ⟨a, b, by simp, by simp, rfl, rfl, hfirst, hlast, by simpa using hab⟩

theorem exists_accepts_triple {d : CurvePoint} : (∃ first last, Accepts [a, b, d] first last) ↔
    a.utilizationRateBps = 0 ∧ d.utilizationRateBps = maxUtilizationRateBps ∧ Follows a b ∧
      Follows b d := by
  constructor
  · rintro ⟨first, last, h⟩
    obtain rfl : a = first := Option.some.inj h.head
    obtain rfl : d = last := Option.some.inj h.getLast
    exact ⟨h.first, h.last, by simpa using h.follows⟩
  · rintro ⟨hfirst, hlast, hab, hbd⟩
    exact ⟨a, d, by simp, by simp, rfl, rfl, hfirst, hlast, by simpa using ⟨hab, hbd⟩⟩

theorem follows_zero {m n : UInt32} {y : UInt32} :
    Follows ⟨0, m⟩ ⟨y, n⟩ ↔ 0 < y ∧ m ≤ n :=
  ⟨fun h => ⟨h.1, h.2⟩, fun h => ⟨h.1, h.2⟩⟩

/-- The legacy parameters make a curve where the optimal utilization is at most all, and the rates
before and after it, as far as they are used, do not fall; for all others the constructor panics. -/
theorem fromLegacyParameters_eq_ok {optimal base optimalRate maxRate : UInt8} :
    (∃ c, fromLegacyParameters optimal base optimalRate maxRate = .ok c) ↔
      (optimal = 0 ∧ optimalRate ≤ maxRate) ∨ (optimal = 100 ∧ base ≤ optimalRate) ∨
      (0 < optimal ∧ optimal < 100 ∧ base ≤ optimalRate ∧ optimalRate ≤ maxRate) := by
  -- percents and basis points compare alike, as no product of a percent by a hundred wraps
  have hle (x y : UInt8) : x.toUInt32 * 100 ≤ y.toUInt32 * 100 ↔ x ≤ y := by
    rw [UInt32.le_iff_toNat_le, UInt8.le_iff_toNat_le, toNat_pct, toNat_pct]
    omega
  have hzero : optimal.toUInt32 * 100 = 0 ↔ optimal.toNat = 0 := by
    rw [← UInt32.toNat_inj, toNat_pct]
    show optimal.toNat * 100 = 0 ↔ _
    omega
  have hfull : optimal.toUInt32 * 100 = maxUtilizationRateBps ↔ optimal.toNat = 100 := by
    rw [← UInt32.toNat_inj, toNat_pct]
    show optimal.toNat * 100 = 10000 ↔ _
    omega
  have hpos : 0 < optimal.toUInt32 * 100 ↔ 0 < optimal.toNat := by
    rw [UInt32.lt_iff_toNat_lt, toNat_pct]
    show 0 < optimal.toNat * 100 ↔ _
    omega
  have hlt : optimal.toUInt32 * 100 < maxUtilizationRateBps ↔ optimal.toNat < 100 := by
    rw [UInt32.lt_iff_toNat_lt, toNat_pct]
    show optimal.toNat * 100 < 10000 ↔ _
    omega
  have hmax : (0 : UInt32) < maxUtilizationRateBps := by decide
  simp only [fromLegacyParameters, mapError_eq_ok, exists_fromPoints, hzero, hfull]
  rw [← UInt8.toNat_inj, ← UInt8.toNat_inj, UInt8.lt_iff_toNat_lt, UInt8.lt_iff_toNat_lt]
  show _ ↔ (optimal.toNat = 0 ∧ _) ∨ (optimal.toNat = 100 ∧ _) ∨ 0 < optimal.toNat ∧
    optimal.toNat < 100 ∧ _
  split
  · rename_i h
    rw [exists_accepts_pair, follows_zero, hle]
    simp [h, hmax]
  split
  · rename_i h
    rw [exists_accepts_pair, follows_zero, hle]
    simp [h, hmax]
  · rename_i hne hne'
    -- the middle point is before the last one
    have hfollows : Follows ⟨optimal.toUInt32 * 100, optimalRate.toUInt32 * 100⟩
        ⟨maxUtilizationRateBps, maxRate.toUInt32 * 100⟩ ↔ optimal.toNat < 100 ∧
          optimalRate ≤ maxRate := by
      rw [← hlt, ← hle optimalRate maxRate]
      have hne_full : optimal.toUInt32 * 100 ≠ maxUtilizationRateBps := fun h => hne' (hfull.mp h)
      exact ⟨fun h => ⟨by simpa [hne_full] using h.1, h.2⟩,
        fun h => ⟨by simpa [hne_full] using h.1, h.2⟩⟩
    rw [exists_accepts_triple, follows_zero, hfollows, hpos, hle]
    simp [hne, hne']
    grind

end BorrowRateCurve

end Saturn.Klend
