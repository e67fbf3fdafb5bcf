import Libhevc.Lib.BitString

/-!
# Binary range coding by nested intervals

A range coder narrows an interval of numbers; every scaling by a power of two
adds bits to the numbers. `w` is the width of the registers: with `bits` bits
generated, the numbers have `bits + w` bits. A decoder keeps only the distance
of the coded number from the low end; it follows the encoder as long as the
number stays in the interval.
-/

namespace RangeCoder

open BitString

/-- The numbers of `bits + w` bits from `low` on, `range` of them. -/
structure Interval where
  low : Nat
  range : Nat
  bits : Nat

/-- The part of an interval from `lo` on, `width` long. -/
def Interval.narrow (i : Interval) (lo width : Nat) : Interval :=
  { low := i.low + lo, range := width, bits := i.bits }

/-- The interval of the numbers with `k` more bits. -/
def Interval.scale (i : Interval) (k : Nat) : Interval :=
  { low := i.low * 2 ^ k, range := i.range * 2 ^ k, bits := i.bits + k }

section
variable (b : Nat → Bool) (p w : Nat)

/-- The number the bits from `p` on write, to the precision of the interval. -/
def Interval.code (i : Interval) : Nat := field b p (i.bits + w)

/-- The coded number lies in the interval. -/
def Interval.Contains (i : Interval) : Prop :=
  i.low ≤ i.code b p w ∧ i.code b p w < i.low + i.range

/-- The decoder's offset: the distance of the coded number from the low end. -/
def Interval.ofst (i : Interval) : Nat := i.code b p w - i.low

end

variable {b : Nat → Bool} {p w : Nat} {i : Interval}

theorem code_scale :
    (i.scale k).code b p w = i.code b p w * 2 ^ k + field b (p + (i.bits + w)) k := by
  have hlen : i.bits + k + w = i.bits + w + k := by omega
  simp only [Interval.code, Interval.scale, hlen, field_add]

theorem Interval.Contains.of_scale (h : (i.scale k).Contains b p w) : i.Contains b p w := by
  obtain ⟨hlo, hhi⟩ := h
  have hlt := field_lt b (p + (i.bits + w)) k
  rw [code_scale] at hlo hhi
  simp only [Interval.scale, ← Nat.add_mul] at hlo hhi
  constructor
  · by_contra hc
    have := Nat.mul_le_mul_right (2 ^ k) (Nat.succ_le_of_lt (Nat.lt_of_not_le hc))
    rw [Nat.succ_mul] at this
    omega
  · exact Nat.lt_of_mul_lt_mul_right (a := 2 ^ k) (by omega)

theorem Interval.Contains.of_narrow (hw : lo + width ≤ i.range)
    (h : (i.narrow lo width).Contains b p w) : i.Contains b p w := by
  obtain ⟨hlo, hhi⟩ := h
  change i.low + lo ≤ i.code b p w at hlo
  change i.code b p w < i.low + lo + width at hhi
  exact ⟨by omega, by omega⟩

/-- Scaling shifts bits into the offset. -/
theorem ofst_scale (h : i.Contains b p w) :
    (i.scale k).ofst b p w = i.ofst b p w * 2 ^ k + field b (p + (i.bits + w)) k := by
  have hle := Nat.mul_le_mul_right (2 ^ k) h.1
  unfold Interval.ofst
  rw [code_scale, Nat.sub_mul]
  simp only [Interval.scale]
  omega

/-- Narrowing lowers the offset; the offset tells which part was taken. -/
theorem ofst_narrow (h : (i.narrow lo width).Contains b p w) :
    lo ≤ i.ofst b p w ∧ i.ofst b p w < lo + width ∧
      (i.narrow lo width).ofst b p w = i.ofst b p w - lo := by
  obtain ⟨hlo, hhi⟩ := h
  change i.low + lo ≤ i.code b p w at hlo
  change i.code b p w < i.low + lo + width at hhi
  have hofst : (i.narrow lo width).ofst b p w = i.code b p w - (i.low + lo) := rfl
  rw [hofst]
  unfold Interval.ofst
  omega

@[simp] theorem scale_zero : i.scale 0 = i := by simp [Interval.scale]

-- ---------------------------------------------------------------------------
-- Registers
-- ---------------------------------------------------------------------------

/-- The registers of a decoder: range, offset and the position of the next bit. -/
structure Registers where
  range : Nat
  ofst : Nat
  pos : Nat

/-- One bit is shifted in. -/
def Registers.shiftIn (b : Nat → Bool) (d : Registers) : Registers :=
  { range := 2 * d.range, ofst := 2 * d.ofst + (b d.pos).toNat, pos := d.pos + 1 }

/-- Bits are shifted in one at a time, `rounds` at most, until the range is at least `least`. -/
def Registers.renorm (b : Nat → Bool) (least : Nat) : Nat → Registers → Registers
  | 0, d => d
  | rounds + 1, d =>
    if d.range < least then Registers.renorm b least rounds (d.shiftIn b) else d

/-- `k` bits are shifted in at once. -/
def Registers.shiftBy (b : Nat → Bool) (d : Registers) (k : Nat) : Registers :=
  { range := d.range * 2 ^ k, ofst := d.ofst * 2 ^ k + field b d.pos k, pos := d.pos + k }

@[simp] theorem shiftBy_zero (d : Registers) : d.shiftBy b 0 = d := by simp [Registers.shiftBy]

theorem shiftBy_shiftBy (d : Registers) : (d.shiftBy b k).shiftBy b m = d.shiftBy b (k + m) := by
  simp only [Registers.shiftBy, field_add]
  refine Registers.mk.injEq .. |>.mpr ⟨by ring, by ring, by ring⟩

/-- Comparing the offset with a threshold does not see the bits shifted in. -/
theorem shiftBy_ofst_lt_iff (d : Registers) (r : Nat) :
    (d.shiftBy b k).ofst < r * 2 ^ k ↔ d.ofst < r := by
  have hfield := field_lt b d.pos k
  constructor
  · intro h
    have hle : d.ofst * 2 ^ k ≤ (d.shiftBy b k).ofst := Nat.le_add_right ..
    exact Nat.lt_of_mul_lt_mul_right (Nat.lt_of_le_of_lt hle h)
  · intro h
    have hmul := Nat.mul_le_mul_right (2 ^ k) (Nat.succ_le_of_lt h)
    rw [Nat.succ_mul] at hmul
    change d.ofst * 2 ^ k + field b d.pos k < r * 2 ^ k
    omega

theorem shiftIn_shiftBy (d : Registers) : (d.shiftIn b).shiftBy b k = d.shiftBy b (k + 1) := by
  simp only [Registers.shiftBy, Registers.shiftIn, field_succ_left]
  refine Registers.mk.injEq .. |>.mpr ⟨by ring, by ring, by ring⟩

/-- Renormalising shifts in the bits that bring the range to `least`. -/
theorem renorm_eq (d : Registers) (hk : k ≤ rounds) (hlow : ∀ j < k, d.range * 2 ^ j < least)
    (hhigh : least ≤ d.range * 2 ^ k) : d.renorm b least rounds = d.shiftBy b k := by
  induction k generalizing d rounds with
  | zero =>
    have hstop : ¬d.range < least := by simpa using hhigh
    cases rounds with
    | zero => simp [Registers.renorm]
    | succ rounds => simp [Registers.renorm, hstop]
  | succ k ih =>
    obtain ⟨rounds, rfl⟩ : ∃ r, rounds = r + 1 := ⟨rounds - 1, by omega⟩
    have hgo : d.range < least := by simpa using hlow 0 (by omega)
    have hrange (j : Nat) : (d.shiftIn b).range * 2 ^ j = d.range * 2 ^ (j + 1) := by
      simp only [Registers.shiftIn]
      ring
    rw [Registers.renorm, if_pos hgo, ih (d.shiftIn b) (by omega)
      (fun j hj => hrange j ▸ hlow (j + 1) (by omega)) (hrange k ▸ hhigh), shiftIn_shiftBy]

/-- The registers that follow an interval. -/
def Interval.registers (b : Nat → Bool) (p w : Nat) (i : Interval) : Registers :=
  { range := i.range, ofst := i.ofst b p w, pos := p + (i.bits + w) }

@[simp] theorem registers_range : (i.registers b p w).range = i.range := rfl

@[simp] theorem registers_ofst : (i.registers b p w).ofst = i.ofst b p w := rfl

@[simp] theorem registers_pos : (i.registers b p w).pos = p + (i.bits + w) := rfl

theorem registers_scale (h : i.Contains b p w) :
    (i.scale k).registers b p w = (i.registers b p w).shiftBy b k := by
  simp only [Interval.registers, Registers.shiftBy, ofst_scale h]
  refine Registers.mk.injEq .. |>.mpr ⟨rfl, rfl, ?_⟩
  simp only [Interval.scale]
  omega

theorem registers_narrow (h : (i.narrow lo width).Contains b p w) :
    (i.narrow lo width).registers b p w =
      { range := width, ofst := i.ofst b p w - lo, pos := p + (i.bits + w) } := by
  rw [Interval.registers, (ofst_narrow h).2.2]
  rfl

end RangeCoder
