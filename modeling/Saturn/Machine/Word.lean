import Mathlib.Tactic.Ring
import Mathlib.Tactic.Linarith
import Mathlib.Data.Int.ModEq

/-!
# Machine words and fallible computations

Rust's `u64` and `i64` are Lean's `UInt64` and `Int64`. What an operation does when the exact
result does not fit depends on the build: with `overflow-checks` it panics, without them it wraps.
`Profile` carries that switch, and every arithmetic operation takes it.

* `Profile.add`, `Profile.sub`, `Profile.mul` are `+`, `-`, `*` on `u64`; `Profile.addI64` and
  `Profile.mulI64` are the two operations used on `i64`.
* `Machine.div` is `/` on `u64`, which panics on a zero divisor in every build.

Each operation has one characterization of its successful outcome (`add_eq_ok`, ...), in terms of
the wrapped result and of the integers it has to fit for a build with overflow checks. A computation
made of them has no other failure than the panic (`OnlyPanics`).
-/

namespace Machine

/-! ## Fallible computations -/

/-- Error types with a value for an aborted computation. -/
class Panics (ε : Type) where
  panic : ε

export Panics (panic)

variable {ε α β : Type}

/-- A `do` step succeeds iff its first action does and the rest does on the value it returned. -/
@[simp] theorem bind_eq_ok {m : Except ε α} {f : α → Except ε β} {b : β} :
    (m >>= f) = .ok b ↔ ∃ a, m = .ok a ∧ f a = .ok b := by
  cases m <;> simp [Bind.bind, Except.bind]

@[simp] theorem pure_eq_ok {a b : α} : (pure a : Except ε α) = .ok b ↔ a = b := by
  simp [pure, Except.pure]

theorem map_eq_ok {m : Except ε α} {f : α → β} {b : β} :
    m.map f = .ok b ↔ ∃ a, m = .ok a ∧ f a = b := by
  cases m <;> simp [Except.map]

/-- Rust's `assert!` and `require!`: go on when the condition holds, else fail with `e`. -/
def require (c : Prop) [Decidable c] (e : ε) : Except ε Unit :=
  if c then .ok () else .error e

@[simp] theorem require_eq_ok {c : Prop} [Decidable c] {e : ε} {u : Unit} :
    require c e = .ok u ↔ c := by
  unfold require
  split <;> simp_all

/-- `Option::ok_or`: the value, or the error `e` where there is none. -/
def okOr (o : Option α) (e : ε) : Except ε α :=
  match o with
  | some a => .ok a
  | none => .error e

@[simp] theorem okOr_eq_ok {o : Option α} {e : ε} {a : α} : okOr o e = .ok a ↔ o = some a := by
  cases o <;> simp [okOr]

/-- A `do` step fails iff its first action does or the rest does on the value it returned. -/
theorem bind_eq_error {m : Except ε α} {f : α → Except ε β} {e : ε} :
    (m >>= f) = .error e ↔ m = .error e ∨ ∃ a, m = .ok a ∧ f a = .error e := by
  cases m <;> simp [Bind.bind, Except.bind]

theorem require_eq_error {c : Prop} [Decidable c] {e e' : ε} :
    require c e' = .error e ↔ ¬ c ∧ e' = e := by
  unfold require
  split <;> simp_all

theorem okOr_eq_error {o : Option α} {e e' : ε} : okOr o e' = .error e ↔ o = none ∧ e' = e := by
  cases o <;> simp [okOr]

theorem toOption_eq_some {m : Except ε α} {a : α} : m.toOption = some a ↔ m = .ok a := by
  cases m <;> simp [Except.toOption]

/-- Where a traversal succeeds, each of its values is that of the element in the same place. -/
theorem mapM_getElem? {f : α → Except ε β} {l : List α} {r : List β} (h : l.mapM f = .ok r) {i : ℕ}
    {b : β} (hb : r[i]? = some b) : ∃ a, l[i]? = some a ∧ f a = .ok b := by
  induction l generalizing r i with
  | nil =>
      cases h
      cases hb
  | cons a l ih =>
      rw [List.mapM_cons] at h
      simp only [bind_eq_ok, pure_eq_ok] at h
      obtain ⟨b', hb', r', hr', rfl⟩ := h
      cases i with
      | zero =>
          cases hb
          exact ⟨a, rfl, hb'⟩
      | succ i => exact ih hr' hb

theorem mapM_eq_map {f : α → Except ε β} {g : α → β} {l : List α} (h : ∀ a ∈ l, f a = .ok (g a)) :
    l.mapM f = .ok (l.map g) := by
  induction l with
  | nil => rfl
  | cons a l ih =>
      have ha : f a = .ok (g a) := h a List.mem_cons_self
      have hl : l.mapM f = .ok (l.map g) := ih fun b hb => h b (List.mem_cons_of_mem _ hb)
      rw [List.mapM_cons, ha, hl]
      rfl

theorem exists_ok {m : Except ε α} (h : m.toOption.isSome = true) : ∃ a, m = .ok a := by
  cases m with
  | error e => cases h
  | ok a => exact ⟨a, rfl⟩

theorem exists_eq_ok {m : Except ε α} (p : α → Bool) (h : m.toOption.any p = true) :
    ∃ a, m = .ok a ∧ p a = true := by
  cases m with
  | error e => cases h
  | ok a => exact ⟨a, rfl, h⟩

/-! ## Overflow -/

/-- What a build does about arithmetic overflow. -/
structure Profile where
  /-- Cargo's `overflow-checks`: panic instead of wrapping. -/
  overflowChecks : Bool
  deriving DecidableEq

/-- Cargo's default release profile: overflow wraps. -/
def Profile.release : Profile := ⟨false⟩

/-- A build with `overflow-checks = true`: overflow panics. -/
def Profile.checked : Profile := ⟨true⟩

variable [Panics ε]

/-- Return the wrapped result `w` of an operation unless this build checks it and it overflows. -/
def Profile.guard (p : Profile) (fits : Bool) (w : α) : Except ε α :=
  if p.overflowChecks && !fits then .error panic else .ok w

theorem Profile.guard_eq_ok {p : Profile} {fits : Bool} {w a : α} :
    (p.guard fits w : Except ε α) = .ok a ↔ a = w ∧ (p.overflowChecks = true → fits = true) := by
  unfold Profile.guard
  cases p.overflowChecks <;> cases fits <;> simp [eq_comm]

/-- `m` fails in no other way than by a panic. -/
def OnlyPanics (m : Except ε α) : Prop := ∀ e, m = .error e → e = panic

theorem OnlyPanics.pure (a : α) : OnlyPanics (.ok a : Except ε α) := by
  intro e h
  cases h

theorem OnlyPanics.bind {m : Except ε α} {f : α → Except ε β} (hm : OnlyPanics m)
    (hf : ∀ a, OnlyPanics (f a)) : OnlyPanics (m >>= f) := by
  intro e h
  rcases bind_eq_error.mp h with h | ⟨a, -, h⟩
  · exact hm e h
  · exact hf a e h

theorem OnlyPanics.guard (p : Profile) (fits : Bool) (w : α) :
    OnlyPanics (p.guard fits w : Except ε α) := by
  intro e h
  unfold Profile.guard at h
  split at h
  · exact (Except.error.inj h).symm
  · cases h

theorem OnlyPanics.eq_panic_iff {m : Except ε α} (h : OnlyPanics m) :
    m = .error panic ↔ ∀ a, m ≠ .ok a := by
  cases m with
  | ok a => simp
  | error e => simp [h e rfl]

theorem Profile.guard_ne_error {p : Profile} (hp : p.overflowChecks = false) {fits : Bool} {w : α}
    {e : ε} : (p.guard fits w : Except ε α) ≠ .error e := by
  simp [Profile.guard, hp]

/-! ## Unsigned operations -/

/-- `a + b` on `u64`. -/
def Profile.add (p : Profile) (a b : UInt64) : Except ε UInt64 :=
  p.guard (decide (a.toNat + b.toNat < 2 ^ 64)) (a + b)

/-- `a - b` on `u64`. -/
def Profile.sub (p : Profile) (a b : UInt64) : Except ε UInt64 :=
  p.guard (decide (b.toNat ≤ a.toNat)) (a - b)

/-- `a * b` on `u64`. -/
def Profile.mul (p : Profile) (a b : UInt64) : Except ε UInt64 :=
  p.guard (decide (a.toNat * b.toNat < 2 ^ 64)) (a * b)

/-- `a / b` on `u64`: a zero divisor panics whatever the build. -/
def div (a b : UInt64) : Except ε UInt64 :=
  if b = 0 then .error panic else .ok (a / b)

variable {p : Profile} {a b c : UInt64}

@[simp] theorem Profile.add_eq_ok : (p.add a b : Except ε UInt64) = .ok c ↔
    c = a + b ∧ (p.overflowChecks = true → a.toNat + b.toNat < 2 ^ 64) := by
  simp [Profile.add, Profile.guard_eq_ok]

@[simp] theorem Profile.sub_eq_ok : (p.sub a b : Except ε UInt64) = .ok c ↔
    c = a - b ∧ (p.overflowChecks = true → b.toNat ≤ a.toNat) := by
  simp [Profile.sub, Profile.guard_eq_ok]

@[simp] theorem Profile.mul_eq_ok : (p.mul a b : Except ε UInt64) = .ok c ↔
    c = a * b ∧ (p.overflowChecks = true → a.toNat * b.toNat < 2 ^ 64) := by
  simp [Profile.mul, Profile.guard_eq_ok]

@[simp] theorem div_eq_ok : (div a b : Except ε UInt64) = .ok c ↔ b ≠ 0 ∧ c = a / b := by
  unfold div
  split <;> simp_all [eq_comm]

theorem Profile.add_ne_error (hp : p.overflowChecks = false) {e : ε} :
    (p.add a b : Except ε UInt64) ≠ .error e := guard_ne_error hp

theorem Profile.mul_ne_error (hp : p.overflowChecks = false) {e : ε} :
    (p.mul a b : Except ε UInt64) ≠ .error e := guard_ne_error hp

theorem div_eq_error {e : ε} : (div a b : Except ε UInt64) = .error e ↔ b = 0 ∧ e = panic := by
  unfold div
  split <;> simp_all [eq_comm]

theorem OnlyPanics.div (a b : UInt64) : OnlyPanics (div a b : Except ε UInt64) :=
  fun _ h => (div_eq_error.mp h).2

/-! ### Wrapped results and the integers -/

theorem toNat_add_of_lt (h : a.toNat + b.toNat < 2 ^ 64) : (a + b).toNat = a.toNat + b.toNat := by
  rw [UInt64.toNat_add, Nat.mod_eq_of_lt h]

theorem toNat_sub_of_le (h : b.toNat ≤ a.toNat) : (a - b).toNat = a.toNat - b.toNat :=
  UInt64.toNat_sub_of_le a b (UInt64.le_iff_toNat_le.mpr h)

theorem toNat_mul_of_lt (h : a.toNat * b.toNat < 2 ^ 64) : (a * b).toNat = a.toNat * b.toNat := by
  rw [UInt64.toNat_mul, Nat.mod_eq_of_lt h]

theorem toNat_mul_ofNat (a : UInt64) (n : ℕ) :
    (a * UInt64.ofNat n).toNat = a.toNat * n % 2 ^ 64 := by
  rw [UInt64.toNat_mul, UInt64.toNat_ofNat', Nat.mul_mod_mod]

theorem toNat_add_le : (a + b).toNat ≤ a.toNat + b.toNat := by
  rw [UInt64.toNat_add]
  exact Nat.mod_le _ _

theorem toNat_mul_le : (a * b).toNat ≤ a.toNat * b.toNat := by
  rw [UInt64.toNat_mul]
  exact Nat.mod_le _ _

theorem ne_zero_iff_toNat_pos : a ≠ 0 ↔ 0 < a.toNat := by
  rw [Nat.pos_iff_ne_zero, ne_eq, ne_eq, ← UInt64.toNat_inj]
  rfl

theorem toNat_mul_eq_iff : (a * b).toNat = a.toNat * b.toNat ↔ a.toNat * b.toNat < 2 ^ 64 :=
  ⟨fun h => h ▸ UInt64.toNat_lt _, toNat_mul_of_lt⟩

/-- The wrapped sum grows by `k` where the summand wraps to `k` and the sum then stays below the
modulus. -/
theorem add_mod_eq_add_iff {m p q k : ℕ} (hm : 0 < m) :
    (p + q) % m = p % m + k ↔ q % m = k ∧ p % m + k < m := by
  have hp := Nat.mod_lt p hm
  have hq := Nat.mod_lt q hm
  rw [Nat.add_mod]
  rcases lt_or_ge (p % m + q % m) m with hlt | hge
  · rw [Nat.mod_eq_of_lt hlt]
    omega
  · rw [Nat.mod_eq_sub_mod hge, Nat.mod_eq_of_lt (by omega)]
    omega

/-! ## Signed operations -/

/-- `x` is a value of `i64`. -/
def fitsI64 (x : Int) : Bool := decide (-2 ^ 63 ≤ x ∧ x < 2 ^ 63)

/-- `a + b` on `i64`. -/
def Profile.addI64 (p : Profile) (a b : Int64) : Except ε Int64 :=
  p.guard (fitsI64 (a.toInt + b.toInt)) (a + b)

/-- `a * b` on `i64`. -/
def Profile.mulI64 (p : Profile) (a b : Int64) : Except ε Int64 :=
  p.guard (fitsI64 (a.toInt * b.toInt)) (a * b)

@[simp] theorem Profile.addI64_eq_ok {a b c : Int64} : (p.addI64 a b : Except ε Int64) = .ok c ↔
    c = a + b ∧ (p.overflowChecks = true → fitsI64 (a.toInt + b.toInt) = true) := by
  simp [Profile.addI64, Profile.guard_eq_ok]

@[simp] theorem Profile.mulI64_eq_ok {a b c : Int64} : (p.mulI64 a b : Except ε Int64) = .ok c ↔
    c = a * b ∧ (p.overflowChecks = true → fitsI64 (a.toInt * b.toInt) = true) := by
  simp [Profile.mulI64, Profile.guard_eq_ok]

theorem Profile.addI64_ne_error (hp : p.overflowChecks = false) {a b : Int64} {e : ε} :
    (p.addI64 a b : Except ε Int64) ≠ .error e := guard_ne_error hp

theorem Profile.mulI64_ne_error (hp : p.overflowChecks = false) {a b : Int64} {e : ε} :
    (p.mulI64 a b : Except ε Int64) ≠ .error e := guard_ne_error hp

theorem bmod_eq_of_fitsI64 {x : Int} (h : fitsI64 x = true) : x.bmod (2 ^ 64) = x := by
  simp only [fitsI64, decide_eq_true_eq] at h
  exact Int.bmod_eq_of_le (by omega) (by omega)

theorem toInt_add_of_fits {a b : Int64} (h : fitsI64 (a.toInt + b.toInt) = true) :
    (a + b).toInt = a.toInt + b.toInt := by
  rw [Int64.toInt_add, bmod_eq_of_fitsI64 h]

theorem toInt_mul_of_fits {a b : Int64} (h : fitsI64 (a.toInt * b.toInt) = true) :
    (a * b).toInt = a.toInt * b.toInt := by
  rw [Int64.toInt_mul, bmod_eq_of_fitsI64 h]

theorem toNat_toUInt64_of_nonneg {x : Int64} (h : 0 ≤ x.toInt) :
    (x.toUInt64.toNat : Int) = x.toInt := by
  have hle : (0 : Int64) ≤ x := by simpa [Int64.le_iff_toInt_le] using h
  rw [Int64.toNat_toUInt64_of_le hle]
  exact Int.toNat_of_nonneg h

theorem toInt_toInt64_of_lt {a : UInt64} (h : a.toNat < 2 ^ 63) : a.toInt64.toInt = a.toNat := by
  have hb : a.toInt64.toInt = a.toBitVec.toInt := rfl
  rw [hb, BitVec.toInt_eq_toNat_of_lt]
  · rfl
  · simpa using (show 2 * a.toNat < 2 ^ 64 by omega)

end Machine
