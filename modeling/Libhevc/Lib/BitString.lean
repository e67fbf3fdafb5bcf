import Libhevc.Lib.Memory
import Mathlib.Data.Nat.Bitwise
import Mathlib.Tactic.Positivity
import Mathlib.Tactic.Ring

/-!
# Big-endian fields of bit strings

A bit string is endless, `Nat → Bool`, as a reader that may run past the end
of its data sees it. `field b p n` is the number written by the `n` bits from
position `p`, most significant first. Byte strings and finite lists of bits
give bit strings; the laws say how fields split, shift and compare.
-/

namespace BitString

open Memory

/-- The number in the `n` bits from position `p`, most significant bit first. -/
def field (b : Nat → Bool) (p : Nat) : Nat → Nat
  | 0 => 0
  | n + 1 => 2 * field b p n + (b (p + n)).toNat

@[simp] theorem field_zero : field b p 0 = 0 := rfl

theorem field_succ : field b p (n + 1) = 2 * field b p n + (b (p + n)).toNat := rfl

@[simp] theorem field_one : field b p 1 = (b p).toNat := by simp [field]

theorem field_lt (b : Nat → Bool) (p n : Nat) : field b p n < 2 ^ n := by
  induction n with
  | zero => simp
  | succ n ih =>
    have hb := Bool.toNat_lt (b (p + n))
    rw [field_succ, pow_succ]
    omega

theorem field_add (b : Nat → Bool) (p m n : Nat) :
    field b p (m + n) = field b p m * 2 ^ n + field b (p + m) n := by
  induction n with
  | zero => simp
  | succ n ih =>
    rw [← Nat.add_assoc, field_succ, field_succ, ih, pow_succ, Nat.add_assoc p m n]
    ring

theorem field_succ_left (b : Nat → Bool) (p n : Nat) :
    field b p (n + 1) = (b p).toNat * 2 ^ n + field b (p + 1) n := by
  rw [Nat.add_comm, field_add, field_one]

/-- The leading part of a field. -/
theorem field_div (b : Nat → Bool) (p m n : Nat) :
    field b p (m + n) / 2 ^ n = field b p m := by
  rw [field_add, Nat.mul_comm, Nat.mul_add_div (by positivity),
    Nat.div_eq_of_lt (field_lt b (p + m) n), Nat.add_zero]

/-- The trailing part of a field. -/
theorem field_mod (b : Nat → Bool) (p m n : Nat) :
    field b p (m + n) % 2 ^ n = field b (p + m) n := by
  rw [field_add, Nat.mul_comm, Nat.mul_add_mod, Nat.mod_eq_of_lt (field_lt b (p + m) n)]

-- ---------------------------------------------------------------------------
-- Bytes
-- ---------------------------------------------------------------------------

/-- The bits of a byte string, each byte most significant bit first. -/
def ofBytes (f : Nat → Nat) : Nat → Bool := fun i => (f (i / 8)).testBit (7 - i % 8)

theorem field_testBit (x : Nat) (hb : ∀ i < n, b (p + i) = x.testBit (n - 1 - i)) :
    field b p n = x % 2 ^ n := by
  induction n generalizing x with
  | zero => simp [Nat.mod_one]
  | succ n ih =>
    have h : ∀ i < n, b (p + i) = (x / 2).testBit (n - 1 - i) := by
      intro i hi
      rw [hb i (by omega), ← Nat.testBit_succ]
      congr 1
      omega
    rw [field_succ, ih (x / 2) h, hb n (by omega), pow_succ', Nat.mod_mul]
    simp [Nat.testBit_zero]
    rcases Nat.mod_two_eq_zero_or_one x with h0 | h0 <;> simp [h0]; omega

theorem field_byte (hf : f k < 256) : field (ofBytes f) (8 * k) 8 = f k := by
  rw [field_testBit (f k), Nat.mod_eq_of_lt (by omega)]
  intro i hi
  have hdiv : (8 * k + i) / 8 = k := by omega
  have hmod : (8 * k + i) % 8 = i := by omega
  simp [ofBytes, hdiv, hmod]

/-- The number a byte list writes in base 256. -/
def byteVal (l : List Nat) : Nat := l.foldl (fun acc x => 256 * acc + x) 0

@[simp] theorem byteVal_nil : byteVal [] = 0 := rfl

@[simp] theorem byteVal_append_singleton (l : List Nat) (x : Nat) :
    byteVal (l ++ [x]) = 256 * byteVal l + x := by simp [byteVal]

theorem byteVal_append (l m : List Nat) :
    byteVal (l ++ m) = byteVal l * 256 ^ m.length + byteVal m := by
  induction m using List.reverseRecOn with
  | nil => simp
  | append_singleton m x ih =>
    rw [← List.append_assoc, byteVal_append_singleton, ih, byteVal_append_singleton,
      List.length_append, List.length_singleton, pow_succ]
    ring

theorem byteVal_replicate_zero (n : Nat) : byteVal (List.replicate n 0) = 0 := by
  induction n with
  | zero => rfl
  | succ n ih => simp [List.replicate_succ', ih]

theorem byteVal_replicate_ff (n : Nat) : byteVal (List.replicate n 255) + 1 = 256 ^ n := by
  induction n with
  | zero => rfl
  | succ n ih =>
    rw [List.replicate_succ', byteVal_append_singleton, pow_succ]
    omega

-- ---------------------------------------------------------------------------
-- Lists of bits
-- ---------------------------------------------------------------------------

/-- The `n` bits of a number, most significant first. -/
def bitsOf : Nat → Nat → List Bool
  | 0, _ => []
  | n + 1, v => v.testBit n :: bitsOf n v

@[simp] theorem length_bitsOf : (bitsOf n v).length = n := by
  induction n with
  | zero => rfl
  | succ n ih => simp [bitsOf, ih]

/-- The number a list of bits writes, most significant first. -/
def bitVal (l : List Bool) : Nat := l.foldl (fun acc x => 2 * acc + x.toNat) 0

@[simp] theorem bitVal_nil : bitVal [] = 0 := rfl

@[simp] theorem bitVal_append_singleton (l : List Bool) (x : Bool) :
    bitVal (l ++ [x]) = 2 * bitVal l + x.toNat := by simp [bitVal]

theorem bitVal_append (l m : List Bool) :
    bitVal (l ++ m) = bitVal l * 2 ^ m.length + bitVal m := by
  induction m using List.reverseRecOn with
  | nil => simp
  | append_singleton m x ih =>
    rw [← List.append_assoc, bitVal_append_singleton, ih, bitVal_append_singleton,
      List.length_append, List.length_singleton, pow_succ]
    ring

theorem bitVal_cons (x : Bool) (l : List Bool) :
    bitVal (x :: l) = x.toNat * 2 ^ l.length + bitVal l := by
  simpa [bitVal] using bitVal_append [x] l

theorem bitVal_lt (l : List Bool) : bitVal l < 2 ^ l.length := by
  induction l with
  | nil => simp
  | cons x l ih =>
    have hx := Bool.toNat_lt x
    rw [bitVal_cons, List.length_cons, pow_succ']
    cases x <;> simp <;> omega

theorem bitVal_bitsOf (n v : Nat) : bitVal (bitsOf n v) = v % 2 ^ n := by
  induction n with
  | zero => simp [bitsOf, Nat.mod_one]
  | succ n ih =>
    rw [bitsOf, bitVal_cons, ih, length_bitsOf, Nat.mod_pow_succ, Nat.toNat_testBit]
    ring

/-- The bits of a byte list, each byte most significant bit first. -/
def bitsOfBytes (l : List Nat) : List Bool := l.flatMap (bitsOf 8)

@[simp] theorem length_bitsOfBytes (l : List Nat) : (bitsOfBytes l).length = 8 * l.length := by
  induction l with
  | nil => rfl
  | cons x l ih => simp [bitsOfBytes] at ih ⊢; omega

/-- The bits of a held byte list, read as one number. -/
theorem field_bytes (h : Holds f a l) (hl : ∀ x ∈ l, x < 256) :
    field (ofBytes f) (8 * a) (8 * l.length) = byteVal l := by
  induction l using List.reverseRecOn with
  | nil => simp
  | append_singleton l x ih =>
    obtain ⟨hh, hx⟩ := Holds.snoc.mp h
    have hlt : f (a + l.length) < 256 := hx ▸ hl x (by simp)
    rw [List.length_append, List.length_singleton, Nat.mul_add, field_add,
      ih hh fun y hy => hl y (by simp [hy]), ← Nat.mul_add, field_byte hlt, hx,
      byteVal_append_singleton]
    ring

end BitString
