import Mathlib.Algebra.Ring.Nat

/-!
# Fixed-size encodings and the buffers they are kept in

A `Codec` turns values into byte strings of one length and back. That the length is fixed and that
decoding undoes encoding, whatever bytes follow, are fields of it, so a layout put together with
`seq`, `via` and `restrict` comes with both.

A buffer keeps a tag and one encoded value in front of bytes that nobody reads. `writeBack` fails
where the buffer is too short, and that is the only way a value that has an encoding can be lost
(`writeBack_readBack_iff`).
-/

namespace Codec

/-! ## Little-endian bytes -/

/-- The `n` lowest bytes of a number, the lowest first. -/
def toLE : ℕ → ℕ → List UInt8
  | 0, _ => []
  | n + 1, k => UInt8.ofNat k :: toLE n (k / 256)

/-- The number whose bytes these are. -/
def ofLE : List UInt8 → ℕ
  | [] => 0
  | b :: bs => b.toNat + 256 * ofLE bs

@[simp] theorem length_toLE (n k : ℕ) : (toLE n k).length = n := by
  induction n generalizing k with
  | zero => rfl
  | succ n ih => rw [toLE, List.length_cons, ih]

@[simp] theorem ofLE_toLE (n k : ℕ) : ofLE (toLE n k) = k % 256 ^ n := by
  induction n generalizing k with
  | zero => rw [toLE, ofLE, pow_zero, Nat.mod_one]
  | succ n ih =>
      have hlow : (UInt8.ofNat k).toNat = k % 256 := UInt8.toNat_ofNat'
      rw [toLE, ofLE, ih, hlow, pow_succ', Nat.mod_mul]

theorem ofLE_lt (bs : List UInt8) : ofLE bs < 256 ^ bs.length := by
  induction bs with
  | nil => rw [ofLE, List.length_nil, pow_zero]; exact Nat.zero_lt_one
  | cons b bs ih =>
      have hb : b.toNat < 256 := b.toNat_lt
      rw [ofLE, List.length_cons, pow_succ]
      omega

/-! ## Slices -/

/-- The bytes from `start` on and before `stop`, if there are that many. -/
def slice? (start stop : ℕ) (bs : List UInt8) : Option (List UInt8) :=
  if start ≤ stop ∧ stop ≤ bs.length then some ((bs.drop start).take (stop - start)) else none

section

variable {start stop : ℕ} {bs s : List UInt8}

theorem slice?_of_le (hle : start ≤ stop) (h : stop ≤ bs.length) :
    slice? start stop bs = some ((bs.drop start).take (stop - start)) := if_pos ⟨hle, h⟩

theorem slice?_of_lt (h : bs.length < stop) : slice? start stop bs = none :=
  if_neg fun hin => absurd hin.2 (not_le.mpr h)

theorem slice?_eq_some : slice? start stop bs = some s ↔
    start ≤ stop ∧ stop ≤ bs.length ∧ (bs.drop start).take (stop - start) = s := by
  rw [slice?, Option.ite_none_right_eq_some, and_assoc, Option.some.injEq]

theorem length_of_slice? (h : slice? start stop bs = some s) : s.length = stop - start := by
  obtain ⟨hle, hstop, rfl⟩ := slice?_eq_some.mp h
  rw [List.length_take, List.length_drop]
  omega

theorem slice?_length (h : start ≤ bs.length) :
    slice? start bs.length bs = some (bs.drop start) := by
  rw [slice?_of_le h le_rfl, ← List.length_drop, List.take_length]

end

end Codec

/-! ## Codecs -/

/-- An encoding into `size` bytes. Some values may have none. -/
structure Codec (α : Type) where
  size : ℕ
  encode : α → Option (List UInt8)
  /-- The value in front, and the bytes after it. -/
  decode : List UInt8 → Option (α × List UInt8)
  length_eq : ∀ {a bs}, encode a = some bs → bs.length = size
  decode_append : ∀ {a bs} (rest : List UInt8), encode a = some bs →
    decode (bs ++ rest) = some (a, rest)

namespace Codec

variable {α β : Type}

/-- A number of `n` bytes, the lowest first. -/
def le (n : ℕ) (toNat : α → ℕ) (ofNat : ℕ → α) (h : ∀ a, ofNat (toNat a % 256 ^ n) = a) :
    Codec α where
  size := n
  encode a := some (toLE n (toNat a))
  decode bs := if n ≤ bs.length then some (ofNat (ofLE (bs.take n)), bs.drop n) else none
  length_eq := by
    rintro a _ ⟨⟩
    exact length_toLE n _
  decode_append := by
    rintro a _ rest ⟨⟩
    rw [if_pos (by simp), List.take_left' (length_toLE n _), List.drop_left' (length_toLE n _),
      ofLE_toLE, h]

/-- The same bytes, the first last. -/
def reversed (c : Codec α) : Codec α where
  size := c.size
  encode a := (c.encode a).map List.reverse
  decode bs := (c.decode (bs.take c.size).reverse).map fun r => (r.1, bs.drop c.size)
  length_eq := by
    intro a bs h
    obtain ⟨bs', hbs', rfl⟩ := Option.map_eq_some_iff.mp h
    rw [List.length_reverse, c.length_eq hbs']
  decode_append := by
    intro a bs rest h
    obtain ⟨bs', hbs', rfl⟩ := Option.map_eq_some_iff.mp h
    have hlen : bs'.reverse.length = c.size := by rw [List.length_reverse, c.length_eq hbs']
    have hback := c.decode_append [] hbs'
    rw [List.append_nil] at hback
    rw [List.take_left' hlen, List.drop_left' hlen, List.reverse_reverse, hback]
    rfl

def seq (c : Codec α) (c' : Codec β) : Codec (α × β) where
  size := c.size + c'.size
  encode a := do return (← c.encode a.1) ++ (← c'.encode a.2)
  decode bs := do
    let (a, bs) ← c.decode bs
    let (b, bs) ← c'.decode bs
    return ((a, b), bs)
  length_eq := by
    rintro ⟨a, b⟩ bs h
    simp only [Option.bind_eq_bind, Option.bind_eq_some_iff, Option.pure_def,
      Option.some.injEq] at h
    obtain ⟨bs₁, h₁, bs₂, h₂, rfl⟩ := h
    rw [List.length_append, c.length_eq h₁, c'.length_eq h₂]
  decode_append := by
    rintro ⟨a, b⟩ bs rest h
    simp only [Option.bind_eq_bind, Option.bind_eq_some_iff, Option.pure_def,
      Option.some.injEq] at h
    obtain ⟨bs₁, h₁, bs₂, h₂, rfl⟩ := h
    simp [List.append_assoc, c.decode_append _ h₁, c'.decode_append _ h₂]

/-- Values of `β`, encoded as values of `α`. -/
def via (c : Codec α) (f : β → α) (g : α → β) (h : ∀ b, g (f b) = b) : Codec β where
  size := c.size
  encode b := c.encode (f b)
  decode bs := (c.decode bs).map fun r => (g r.1, r.2)
  length_eq hb := c.length_eq hb
  decode_append := by
    intro b bs rest hb
    rw [c.decode_append rest hb, Option.map_some, h]

/-- The values that meet `p`; neither direction accepts another. -/
def restrict (c : Codec α) (p : α → Bool) : Codec α where
  size := c.size
  encode a := if p a then c.encode a else none
  decode bs := (c.decode bs).filter fun r => p r.1
  length_eq := by
    intro a bs h
    split at h
    · exact c.length_eq h
    · cases h
  decode_append := by
    intro a bs rest h
    split at h
    · next hp => rw [c.decode_append rest h, Option.filter_some, if_pos hp]
    · cases h

def Total (c : Codec α) : Prop := ∀ a, (c.encode a).isSome

section

variable {c : Codec α} {c' : Codec β}

theorem total_le {n : ℕ} {toNat : α → ℕ} {ofNat : ℕ → α} {h : ∀ a, ofNat (toNat a % 256 ^ n) = a} :
    (le n toNat ofNat h).Total := fun _ => rfl

theorem Total.reversed (hc : c.Total) : c.reversed.Total := by
  intro a
  rw [Codec.reversed, Option.isSome_map]
  exact hc a

theorem Total.seq (hc : c.Total) (hc' : c'.Total) : (c.seq c').Total := by
  rintro ⟨a, b⟩
  obtain ⟨bs, hbs⟩ := Option.isSome_iff_exists.mp (hc a)
  obtain ⟨bs', hbs'⟩ := Option.isSome_iff_exists.mp (hc' b)
  simp [Codec.seq, hbs, hbs']

theorem Total.via {f : β → α} {g : α → β} {h : ∀ b, g (f b) = b} (hc : c.Total) :
    (c.via f g h).Total := fun b => hc (f b)

end

/-! ### The primitive types -/

def u64 : Codec UInt64 := le 8 UInt64.toNat UInt64.ofNat fun a => by
  rw [Nat.mod_eq_of_lt (by exact a.toNat_lt)]
  exact UInt64.ofNat_toNat

/-- In two's complement. -/
def i64 : Codec Int64 := u64.via Int64.toUInt64 UInt64.toInt64 fun _ => rfl

/-- One byte; only `0` and `1` decode. -/
def bool : Codec Bool :=
  ((le 1 UInt8.toNat UInt8.ofNat fun a => by
      rw [Nat.mod_eq_of_lt (by exact a.toNat_lt)]
      exact UInt8.ofNat_toNat : Codec UInt8).restrict fun b => b ≤ 1).via
    (fun b => if b then 1 else 0) (fun b => b == 1) (by decide)

/-- An IEEE double, by its bits. -/
structure Double where
  bits : UInt64
  deriving DecidableEq

/-- All exponent bits are set, and some bit of the mantissa. -/
def Double.isNaN (x : Double) : Bool :=
  x.bits &&& 0x7ff0000000000000 == 0x7ff0000000000000 && x.bits &&& 0xfffffffffffff != 0

/-- A double that is not `NaN`, by its bits. -/
def f64 : Codec Double := (u64.via Double.bits Double.mk fun _ => rfl).restrict fun x => !x.isNaN

theorem total_u64 : u64.Total := total_le

theorem total_i64 : i64.Total := total_u64.via

/-! ## Buffers -/

/-- Write the tag and the value to the front of the buffer, if it is long enough. -/
def writeBack (tag : List UInt8) (c : Codec α) (a : α) (buf : List UInt8) :
    Option (List UInt8) := do
  let bs ← c.encode a
  if tag.length + bs.length ≤ buf.length then
    return tag ++ bs ++ buf.drop (tag.length + bs.length)
  else none

/-- Read the value in a buffer, if it carries the tag. -/
def readBack (tag : List UInt8) (c : Codec α) (buf : List UInt8) : Option α :=
  if tag.isPrefixOf buf then (c.decode (buf.drop tag.length)).map Prod.fst else none

variable {tag buf out : List UInt8} {c : Codec α} {a : α}

theorem readBack_writeBack (h : writeBack tag c a buf = some out) :
    readBack tag c out = some a := by
  simp only [writeBack, Option.bind_eq_bind, Option.bind_eq_some_iff] at h
  obtain ⟨bs, hbs, hout⟩ := h
  split at hout
  · cases hout
    rw [List.append_assoc, readBack, if_pos (by simp), List.drop_left, c.decode_append _ hbs]
    rfl
  · cases hout

/-- A write succeeds iff the value has an encoding and the buffer has room for it. -/
theorem writeBack_isSome_iff :
    (writeBack tag c a buf).isSome ↔ (c.encode a).isSome ∧ tag.length + c.size ≤ buf.length := by
  cases hbs : c.encode a with
  | none => simp [writeBack, hbs]
  | some bs =>
      have hlen := c.length_eq hbs
      by_cases hle : tag.length + c.size ≤ buf.length
      · simp [writeBack, hbs, hlen, hle]
      · simp [writeBack, hbs, hlen, hle]

theorem writeBack_eq_none (h : buf.length < tag.length + c.size) :
    writeBack tag c a buf = none := by
  rw [← Option.not_isSome_iff_eq_none, writeBack_isSome_iff]
  rintro ⟨-, hroom⟩
  omega

/-- A value survives in a buffer iff it has an encoding and the buffer has room for it. -/
theorem writeBack_readBack_iff :
    (∃ out, writeBack tag c a buf = some out ∧ readBack tag c out = some a) ↔
      (c.encode a).isSome ∧ tag.length + c.size ≤ buf.length := by
  rw [← writeBack_isSome_iff, Option.isSome_iff_exists]
  constructor
  · rintro ⟨out, hout, -⟩
    exact ⟨out, hout⟩
  · rintro ⟨out, hout⟩
    exact ⟨out, hout, readBack_writeBack hout⟩

end Codec
