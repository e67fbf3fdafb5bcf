import Libhevc.Common.Platform
import Libhevc.Lib.Logged
import Libhevc.Lib.LongDivision

/-!
# Products and quotients of the rate control

`X_PROD_Y_DIV_Z` of `rc_common.h`, over `var_q_operator.c`, `ia_basic_ops32.h` and
`ia_basic_ops40.h`. A program logs each shift of the source, with the width of the
shifted operand, and each saturation.
-/

namespace Libhevc.Encoder

inductive FixOp
  | shift (width : Nat) (amount : Int)
  | saturate
  deriving DecidableEq, Repr

abbrev Fix (α : Type) := Logged FixOp α

/-- `a << b` on `WORD32` -/
def shiftLeft32 (a b : Int) : Fix Int := do
  Logged.emit (.shift 32 b)
  pure (i32 (a * 2 ^ b.toNat))

/-- `a >> b` on a signed operand of `width` bits -/
def shiftRight (width : Nat) (a b : Int) : Fix Int := do
  Logged.emit (.shift width b)
  pure (a / 2 ^ b.toNat)

/-- `a << b` on `UWORD32` -/
def shiftLeftU32 (a : Nat) (b : Int) : Fix Nat := do
  Logged.emit (.shift 32 b)
  pure (u32 (a * 2 ^ b.toNat))

def shl32 (a b : Int) : Fix Int := if 31 < b then pure 0 else shiftLeft32 a b

def shr32 (a b : Int) : Fix Int :=
  if 31 < b then
    if a < 0 then pure (-1) else pure 0
  else shiftRight 32 a b

/-- The loop of `shl32_sat`. -/
def shl32SatLoop : (b : Nat) → (a outVal : Int) → Fix Int
  | 0, _, outVal => pure outVal
  | b + 1, a, _ =>
    if 0x3fffffff < a then do
      Logged.emit .saturate
      pure 0x7fffffff
    else if a < -0x40000000 then do
      Logged.emit .saturate
      pure (-0x80000000)
    else do
      let a ← shl32 a 1
      shl32SatLoop b a a

def shl32Sat (a b : Int) : Fix Int :=
  let b := if 32 < b then 32 else b
  shl32SatLoop b.toNat a a

def shr32DirSat (a b : Int) : Fix Int := if b < 0 then shl32Sat a (-b) else shr32 a b

/-- The loop of `norm32`. -/
def norm32Loop : (fuel : Nat) → (a normVal : Int) → Fix Int
  | 0, _, _ => failure
  | fuel + 1, a, normVal =>
    if a < 0x40000000 then do
      let a ← shiftLeft32 a 1
      norm32Loop fuel a (normVal + 1)
    else pure normVal

def norm32 (a : Int) : Fix Int :=
  if a = 0 then pure 31
  else if a = -1 then pure 31
  else norm32Loop 32 (if a < 0 then -a - 1 else a) 0

/-- The upper half of the product. -/
def mult32 (a b : Int) : Fix Int := do
  let result ← shiftRight 64 (a * b) 32
  pure (i32 result)

def subc32 (nr dr : Nat) : Fix Nat :=
  if dr ≤ nr then do
    let result ← shiftLeftU32 (u32Sub nr dr) 1
    pure (u32 (result + 1))
  else shiftLeftU32 nr 1

/-- The loop of `div32`: `n` bits of the quotient are left. -/
def div32Loop (mantissaDr : Nat) : (n : Nat) → (mantissaNr : Nat) → (quotient : Int) → Fix Int
  | 0, _, quotient => pure quotient
  | n + 1, mantissaNr, quotient => do
    let mantissaNr ← subc32 mantissaNr mantissaDr
    let bit := mantissaNr % 2
    let mantissaNr := mantissaNr - mantissaNr % 2
    let quotient ← shiftLeft32 quotient 1
    div32Loop mantissaDr n mantissaNr (i32 (quotient + bit))

/-- The quotient and its format. -/
def div32 (a b : Int) : Fix (Int × Int) := do
  let negA := decide (a < 0 ∧ b ≠ 0)
  let a := if negA then i32 (-a) else a
  let negB := decide (b < 0)
  let b := if negB then i32 (-b) else b
  if b = 0 then pure (a, 0)
  else do
    let qNr ← norm32 a
    let mantissaNr ← shiftLeftU32 (a % 2 ^ 32).toNat qNr
    let qDr ← norm32 b
    let mantissaDr ← shiftLeftU32 (b % 2 ^ 32).toNat qDr
    let quotient ← div32Loop mantissaDr 31 mantissaNr 0
    pure (if negA != negB then i32 (-quotient) else quotient, 30 + qNr - qDr)

/-- `number_t` -/
structure NumberT where
  sm : Int
  e : Int
  deriving DecidableEq, Repr

def mult32VarQ (a b : NumberT) : Fix NumberT := do
  let normA ← norm32 a.sm
  let normB ← norm32 b.sm
  let smA ← shl32Sat a.sm normA
  let smB ← shl32Sat b.sm normB
  let sm ← mult32 smA smB
  pure ⟨sm, a.e + b.e + normA + normB - 32⟩

def div32VarQ (a b : NumberT) : Fix NumberT := do
  let r ← div32 a.sm b.sm
  pure ⟨r.1, a.e - b.e + r.2⟩

def numberTToWord32 (numA : NumberT) : Fix Int := shr32DirSat numA.sm numA.e

/-- `X_PROD_Y_DIV_Z` -/
def xProdYDivZ (x y z : Int) : Fix Int := do
  let vqA ← mult32VarQ ⟨x, 0⟩ ⟨y, 0⟩
  let vqA ← div32VarQ vqA ⟨z, 0⟩
  numberTToWord32 vqA

end Libhevc.Encoder

/-!
## The error of `X_PROD_Y_DIV_Z`

Both operands are scaled to `[2 ^ 30, 2 ^ 31)`. Half of the bits of the product are cut off,
which for a quotient below `2 ^ 27` is less than one divisor.
-/

namespace Libhevc.Encoder

open Logged

/-- No saturation, and no shift below 0 or by the width of its operand or more. -/
def FixOp.InRange : FixOp → Prop
  | .shift width amount => 0 ≤ amount ∧ amount < width
  | .saturate => False

/-- A program that ends with `v` and stays in range. -/
def Exact (m : Fix α) (v : α) : Prop := Yields FixOp.InRange m v

theorem Exact.bind {m : Fix α} {f : α → Fix β} (hm : Exact m v) (hf : Exact (f v) w) :
    Exact (m >>= f) w := Yields.bind hm hf

theorem Exact.pure (v : α) : Exact (Pure.pure v : Fix α) v := Yields.pure _ v

theorem Exact.congr {m : Fix α} (h : Exact m v) (hv : v = w) : Exact m w := hv ▸ h

-- ---------------------------------------------------------------------------
-- Shifts
-- ---------------------------------------------------------------------------

theorem shiftLeft32_exact (a b : Nat) (hb : b < 32) (ha : a * 2 ^ b < 2 ^ 31) :
    Exact (shiftLeft32 a b) ((a * 2 ^ b : Nat) : Int) := by
  refine Exact.bind (Yields.emit ⟨Int.natCast_nonneg b, by exact_mod_cast hb⟩) ?_
  refine (Exact.pure _).congr ?_
  rw [Int.toNat_natCast, i32_of_bounds]
  · push_cast
    rfl
  · have : (0 : Int) ≤ a * 2 ^ b := by positivity
    omega
  · exact_mod_cast ha

theorem shiftLeftU32_exact (a b : Nat) (hb : b < 32) (ha : a * 2 ^ b < 2 ^ 32) :
    Exact (shiftLeftU32 a b) (a * 2 ^ b) := by
  refine Exact.bind (Yields.emit ⟨Int.natCast_nonneg b, by exact_mod_cast hb⟩) ?_
  refine (Exact.pure _).congr ?_
  rw [Int.toNat_natCast, u32_of_lt ha]

theorem shl32_one (a : Nat) (ha : a < 2 ^ 30) : Exact (shl32 a 1) ((2 * a : Nat) : Int) := by
  have h := shiftLeft32_exact a 1 (by decide) (by omega)
  refine Exact.congr (h : Exact (shl32 a 1) _) ?_
  rw [Nat.mul_comm, Nat.pow_one]

/-- A shift to the left that fits saturates nowhere. -/
theorem shl32SatLoop_exact (b a : Nat) (h : a * 2 ^ b < 2 ^ 31) :
    Exact (shl32SatLoop b a a) ((a * 2 ^ b : Nat) : Int) := by
  induction b generalizing a with
  | zero =>
    rw [Nat.pow_zero, Nat.mul_one]
    exact Exact.pure _
  | succ b ih =>
    have hdouble : a * 2 ^ (b + 1) = 2 * a * 2 ^ b := by
      rw [Nat.pow_succ]
      ring
    have hpos := Nat.one_le_two_pow (n := b)
    have hsmall : a < 2 ^ 30 := by nlinarith
    have htop : ¬(0x3fffffff : Int) < a := by omega
    have hbottom : ¬(a : Int) < -0x40000000 := by omega
    rw [shl32SatLoop, if_neg htop, if_neg hbottom, hdouble]
    exact (shl32_one a hsmall).bind (ih (2 * a) (hdouble ▸ h))

theorem shl32Sat_exact (a b : Nat) (hb : b ≤ 32) (h : a * 2 ^ b < 2 ^ 31) :
    Exact (shl32Sat a b) ((a * 2 ^ b : Nat) : Int) := by
  have hcap : ¬(32 : Int) < b := by omega
  have hbits := shl32SatLoop_exact b a h
  unfold shl32Sat
  dsimp only
  rw [if_neg hcap, Int.toNat_natCast]
  exact hbits

theorem shr32_exact (a b : Nat) (ha : a < 2 ^ 31) :
    Exact (shr32 a b) ((a / 2 ^ b : Nat) : Int) := by
  unfold shr32
  by_cases hb : (31 : Int) < b
  · rw [if_pos hb, if_neg (by omega)]
    refine (Exact.pure _).congr ?_
    have hpow : 2 ^ 31 ≤ 2 ^ b := Nat.pow_le_pow_right (by decide) (by omega)
    rw [Nat.div_eq_of_lt (by omega)]
    rfl
  · rw [if_neg hb]
    refine Exact.bind (Yields.emit ⟨Int.natCast_nonneg b, by push_cast; omega⟩) ?_
    refine (Exact.pure _).congr ?_
    rw [Int.toNat_natCast]
    push_cast
    rfl

-- ---------------------------------------------------------------------------
-- Normalisation
-- ---------------------------------------------------------------------------

/-- `n` doublings take `a` to `[2 ^ 30, 2 ^ 31)`. -/
def Norm (a n : Nat) : Prop := 2 ^ 30 ≤ a * 2 ^ n ∧ a * 2 ^ n < 2 ^ 31

theorem Norm.exists (hpos : 0 < a) (ha : a < 2 ^ 31) : ∃ n ≤ 30, Norm a n := by
  have hlog : Nat.log2 a ≤ 30 := Nat.lt_succ_iff.mp ((Nat.log2_lt hpos.ne').mpr ha)
  have hlo := Nat.log2_self_le hpos.ne'
  have hhi : a < 2 ^ (Nat.log2 a + 1) := Nat.lt_log2_self
  refine ⟨30 - Nat.log2 a, Nat.sub_le _ _, ?_, ?_⟩
  · calc 2 ^ 30 = 2 ^ Nat.log2 a * 2 ^ (30 - Nat.log2 a) := by
          rw [← Nat.pow_add]
          congr 1
          omega
      _ ≤ a * 2 ^ (30 - Nat.log2 a) := Nat.mul_le_mul_right _ hlo
  · calc a * 2 ^ (30 - Nat.log2 a) < 2 ^ (Nat.log2 a + 1) * 2 ^ (30 - Nat.log2 a) :=
          Nat.mul_lt_mul_of_pos_right hhi (Nat.two_pow_pos _)
      _ = 2 ^ 31 := by
          rw [← Nat.pow_add]
          congr 1
          omega

theorem norm32Loop_exact (n fuel a : Nat) (k : Int) (hfuel : n < fuel) (h : Norm a n) :
    Exact (norm32Loop fuel a k) (k + n) := by
  induction n generalizing fuel a k with
  | zero =>
    obtain ⟨fuel, rfl⟩ := Nat.exists_eq_add_of_lt hfuel
    have hlo := h.1
    rw [Nat.pow_zero, Nat.mul_one] at hlo
    rw [Nat.zero_add, norm32Loop, if_neg (by omega)]
    exact (Exact.pure k).congr (by simp)
  | succ n ih =>
    obtain ⟨fuel, rfl⟩ := Nat.exists_eq_add_of_lt hfuel
    have hdouble : a * 2 ^ (n + 1) = a * 2 ^ 1 * 2 ^ n := by ring
    have hpos := Nat.one_le_two_pow (n := n)
    have hhi := h.2
    rw [hdouble] at hhi
    have hsmall : a * 2 ^ 1 < 2 ^ 31 := by nlinarith
    rw [norm32Loop, if_pos (by omega)]
    refine Exact.bind (shiftLeft32_exact a 1 (by decide) hsmall) ?_
    refine (ih (n + 1 + fuel) (a * 2 ^ 1) (k + 1) (by omega) ?_).congr ?_
    · unfold Norm
      rw [← hdouble]
      exact h
    · push_cast
      ring

theorem norm32_exact (a n : Nat) (hn : n ≤ 30) (h : Norm a n) : Exact (norm32 a) n := by
  have hpos : a ≠ 0 := by
    rintro rfl
    have hlo := h.1
    rw [Nat.zero_mul] at hlo
    omega
  rw [norm32, if_neg (by omega), if_neg (by omega), if_neg (by omega)]
  exact (norm32Loop_exact n 32 a 0 (by omega) h).congr (by simp)

theorem norm32_zero : Exact (norm32 0) 31 := Exact.pure _

-- ---------------------------------------------------------------------------
-- Multiplication and division
-- ---------------------------------------------------------------------------

theorem mult32_exact (a b : Nat) (ha : a < 2 ^ 31) (hb : b < 2 ^ 31) :
    Exact (mult32 a b) ((a * b / 2 ^ 32 : Nat) : Int) := by
  have hprod : a * b < 2 ^ 31 * 2 ^ 31 := Nat.mul_lt_mul'' ha hb
  have hhalf : a * b / 2 ^ 32 < 2 ^ 31 := by omega
  have hshift : Exact (shiftRight 64 (a * b) 32) ((a * b / 2 ^ 32 : Nat) : Int) := by
    refine Exact.bind (Yields.emit ⟨by decide, by decide⟩) ((Exact.pure _).congr ?_)
    push_cast
    rfl
  refine hshift.bind ((Exact.pure _).congr ?_)
  apply i32_of_bounds
  · omega
  · exact_mod_cast hhalf

/-- One subtraction, with the bit of the quotient in the lowest place. -/
theorem subc32_exact (q : Nat) (hdr : dr < 2 ^ 31) (h : nr < 2 * dr) :
    Exact (subc32 nr dr) ((LongDivision.step dr (nr, q)).1 + if dr ≤ nr then 1 else 0) := by
  unfold subc32 LongDivision.step
  by_cases hle : dr ≤ nr
  · simp only [if_pos hle]
    rw [u32Sub_of_le hle (by omega)]
    refine Exact.bind (shiftLeftU32_exact (nr - dr) 1 (by decide) (by omega)) ?_
    refine (Exact.pure _).congr ?_
    rw [u32_of_lt (by omega)]
    ring
  · simp only [if_neg hle]
    refine (shiftLeftU32_exact nr 1 (by decide) (by omega)).congr ?_
    ring

theorem div32Loop_exact (n nr q : Nat) (hdr : dr < 2 ^ 31) (h : nr < 2 * dr)
    (hq : (q + 1) * 2 ^ n ≤ 2 ^ 31) :
    Exact (div32Loop dr n nr q) ((LongDivision.steps dr n (nr, q)).2 : Int) := by
  induction n generalizing nr q with
  | zero => exact Exact.pure _
  | succ n ih =>
    have hdouble : (q + 1) * 2 ^ (n + 1) = (2 * q + 2) * 2 ^ n := by ring
    rw [hdouble] at hq
    have hpos := Nat.one_le_two_pow (n := n)
    have hfit : 2 * q + 2 ≤ 2 ^ 31 := by nlinarith
    refine Exact.bind (subc32_exact q hdr h) ?_
    have hlt := LongDivision.step_lt (s := (nr, q)) h
    have hbit : ((LongDivision.step dr (nr, q)).1 + if dr ≤ nr then 1 else 0) % 2 =
        if dr ≤ nr then 1 else 0 := by
      unfold LongDivision.step
      split <;> dsimp only <;> omega
    have hquot : (LongDivision.step dr (nr, q)).2 = 2 * q + if dr ≤ nr then 1 else 0 := by
      unfold LongDivision.step
      split <;> rfl
    have hnext_lt : (LongDivision.step dr (nr, q)).2 + 1 ≤ 2 * q + 2 := by
      rw [hquot]
      split <;> omega
    refine Exact.bind (shiftLeft32_exact q 1 (by decide) (by omega)) ?_
    rw [hbit, Nat.add_sub_cancel, LongDivision.steps]
    have hnext : i32 (((q * 2 ^ 1 : Nat) : Int) + ((if dr ≤ nr then 1 else 0 : Nat) : Int)) =
        ((LongDivision.step dr (nr, q)).2 : Int) := by
      rw [i32_of_bounds]
      · rw [hquot]
        push_cast
        ring
      · rw [← Nat.cast_add]
        exact Int.le_trans (by decide) (Int.natCast_nonneg _)
      · rw [← Nat.cast_add, Nat.pow_one, Nat.mul_comm q 2, ← hquot]
        exact_mod_cast (by omega : (LongDivision.step dr (nr, q)).2 < 2 ^ 31)
    rw [hnext]
    refine ih (LongDivision.step dr (nr, q)).1 (LongDivision.step dr (nr, q)).2 hlt ?_
    exact (Nat.mul_le_mul_right _ hnext_lt).trans hq

/-- A quotient of normalised operands, to 30 bits behind the point. -/
theorem div32_exact (a b na nb : Nat) (hna : Exact (norm32 a) na) (hna_lt : na < 32)
    (ha : a * 2 ^ na < 2 ^ 31) (hnb : nb ≤ 30) (hb : Norm b nb) :
    Exact (div32 a b) (((a * 2 ^ na * 2 ^ 30 / (b * 2 ^ nb) : Nat) : Int), 30 + na - nb) := by
  have hbpos : b ≠ 0 := by
    rintro rfl
    have hlo := hb.1
    rw [Nat.zero_mul] at hlo
    omega
  have hle : ∀ x k : Nat, x ≤ x * 2 ^ k := fun x k => Nat.le_mul_of_pos_right x (Nat.two_pow_pos k)
  have hword : ∀ x : Nat, x < 2 ^ 31 → ((x : Int) % 2 ^ 32).toNat = x := by
    intro x hx
    omega
  have hnegA : decide ((a : Int) < 0 ∧ (b : Int) ≠ 0) = false :=
    decide_eq_false fun h => by omega
  have hnegB : decide ((b : Int) < 0) = false := decide_eq_false (by omega)
  unfold div32
  simp only [hnegA, hnegB, if_neg (Bool.false_ne_true)]
  rw [if_neg (by omega)]
  refine hna.bind ?_
  rw [hword a (Nat.lt_of_le_of_lt (hle a na) ha)]
  refine Exact.bind (shiftLeftU32_exact a na hna_lt (by omega)) ?_
  refine Exact.bind (norm32_exact b nb hnb hb) ?_
  rw [hword b (Nat.lt_of_le_of_lt (hle b nb) hb.2)]
  have hbfit := hb.2
  refine Exact.bind (shiftLeftU32_exact b nb (by omega) (by omega)) ?_
  have hlo := hb.1
  refine Exact.bind (div32Loop_exact 31 (a * 2 ^ na) 0 hbfit (by omega) (by decide)) ?_
  refine (Exact.pure _).congr ?_
  rw [LongDivision.steps_quotient 30 (by omega), if_neg (by decide)]

theorem mult32VarQ_exact (x y nx ny : Nat) (hnx : Exact (norm32 x) nx) (hny : Exact (norm32 y) ny)
    (hx : nx ≤ 31) (hy : ny ≤ 31) (hxfit : x * 2 ^ nx < 2 ^ 31) (hyfit : y * 2 ^ ny < 2 ^ 31) :
    Exact (mult32VarQ ⟨x, 0⟩ ⟨y, 0⟩)
      ⟨((x * 2 ^ nx * (y * 2 ^ ny) / 2 ^ 32 : Nat) : Int), 0 + 0 + nx + ny - 32⟩ := by
  refine hnx.bind (hny.bind ?_)
  refine Exact.bind (shl32Sat_exact x nx (by omega) hxfit) ?_
  refine Exact.bind (shl32Sat_exact y ny (by omega) hyfit) ?_
  exact Exact.bind (mult32_exact _ _ hxfit hyfit) (Exact.pure _)

theorem div32VarQ_exact (a b na nb : Nat) (e : Int) (hna : Exact (norm32 a) na) (hna_lt : na < 32)
    (ha : a * 2 ^ na < 2 ^ 31) (hnb : nb ≤ 30) (hb : Norm b nb) :
    Exact (div32VarQ ⟨a, e⟩ ⟨b, 0⟩)
      ⟨((a * 2 ^ na * 2 ^ 30 / (b * 2 ^ nb) : Nat) : Int), e - 0 + (30 + na - nb)⟩ :=
  Exact.bind (div32_exact a b na nb hna hna_lt ha hnb hb) (Exact.pure _)

theorem numberTToWord32_right (q e : Nat) (hq : q < 2 ^ 31) :
    Exact (numberTToWord32 ⟨q, e⟩) ((q / 2 ^ e : Nat) : Int) := by
  rw [numberTToWord32, shr32DirSat, if_neg (by simp)]
  exact shr32_exact q e hq

theorem numberTToWord32_left (q j : Nat) (hj : 0 < j) (hle : j ≤ 32) (hq : q * 2 ^ j < 2 ^ 31) :
    Exact (numberTToWord32 ⟨q, -j⟩) ((q * 2 ^ j : Nat) : Int) := by
  rw [numberTToWord32, shr32DirSat, if_pos (by dsimp only; omega), Int.neg_neg]
  exact shl32Sat_exact q j hle hq

theorem numberTToWord32_zero (e : Int) (he : -32 ≤ e) :
    Exact (numberTToWord32 ⟨(0 : Nat), e⟩) 0 := by
  by_cases hneg : e < 0
  · obtain ⟨j, rfl⟩ : ∃ j : Nat, e = -j := ⟨e.natAbs, by omega⟩
    refine (numberTToWord32_left 0 j (by omega) (by omega) ?_).congr ?_
    · rw [Nat.zero_mul]
      decide
    · rw [Nat.zero_mul]
      rfl
  · obtain ⟨k, rfl⟩ := Int.eq_ofNat_of_zero_le (Int.not_lt.mp hneg)
    refine (numberTToWord32_right 0 k (by decide)).congr ?_
    rw [Nat.zero_div]
    rfl

-- ---------------------------------------------------------------------------
-- The error
-- ---------------------------------------------------------------------------

/-- How close `p` is to `x * y / z`. -/
structure ProdQuotient (x y z p : Nat) : Prop where
  le : p ≤ x * y / z
  exact_of_small : x * y < 2 ^ 28 → p = x * y / z
  near : x * y < 2 ^ 27 * z → x * y / z ≤ p + 1

theorem ProdQuotient.zero (h : x * y = 0) : ProdQuotient x y z 0 := by
  rw [← Nat.zero_div z, ← h]
  exact ⟨Nat.le_refl _, fun _ => rfl, fun _ => Nat.le_succ _⟩

/-- The cut product of `x` and `y`, which are scaled by `2 ^ s` together, divided by `z`. -/
theorem ProdQuotient.right (hz : 0 < z) (hxy : 2 ^ 60 ≤ x * y * 2 ^ s) :
    ProdQuotient x y z (x * y * 2 ^ s / 2 ^ 32 * 2 ^ 32 / (z * 2 ^ s)) := by
  have hs := Nat.two_pow_pos s
  have hzs : 0 < z * 2 ^ s := Nat.mul_pos hz hs
  have hcancel : x * y / z = x * y * 2 ^ s / (z * 2 ^ s) := (Nat.mul_div_mul_right _ _ hs).symm
  have hcut : x * y * 2 ^ s / 2 ^ 32 * 2 ^ 32 ≤ x * y * 2 ^ s := Nat.div_mul_le_self _ _
  refine ⟨?_, fun hsmall => ?_, fun hnear => ?_⟩
  · rw [hcancel]
    exact Nat.div_le_div_right hcut
  · -- a small product is scaled by more than `2 ^ 32`, so that no bit is cut off
    have hlong : 2 ^ 32 < 2 ^ s := by nlinarith
    have hle : 32 ≤ s := ((Nat.pow_lt_pow_iff_right (by decide)).mp hlong).le
    have hdvd : 2 ^ 32 ∣ x * y * 2 ^ s := Dvd.dvd.mul_left (Nat.pow_dvd_pow 2 hle) _
    rw [Nat.div_mul_cancel hdvd, hcancel]
  · -- what is cut off is less than the scaled divisor
    have hdivisor : 2 ^ 32 ≤ z * 2 ^ s := by nlinarith
    have hrest : x * y * 2 ^ s ≤ x * y * 2 ^ s / 2 ^ 32 * 2 ^ 32 + z * 2 ^ s := by
      have := Nat.div_add_mod (x * y * 2 ^ s) (2 ^ 32)
      have := Nat.mod_lt (x * y * 2 ^ s) (Nat.two_pow_pos 32)
      omega
    calc x * y / z = x * y * 2 ^ s / (z * 2 ^ s) := hcancel
      _ ≤ (x * y * 2 ^ s / 2 ^ 32 * 2 ^ 32 + z * 2 ^ s) / (z * 2 ^ s) := Nat.div_le_div_right hrest
      _ = _ := Nat.add_div_right _ hzs

/-- A quotient of at least `2 ^ 29` is not near the bounds. -/
theorem ProdQuotient.left (hz : 0 < z) (hle : p * z ≤ x * y) (hbig : 2 ^ 29 ≤ p) :
    ProdQuotient x y z p := by
  refine ⟨(Nat.le_div_iff_mul_le hz).mpr hle, fun hsmall => ?_, fun hnear => ?_⟩
  · nlinarith
  · nlinarith

/-- The quotient of a positive product, from its normalised operands. -/
theorem xProdYDivZ_pos (hx : Norm x nx) (hy : Norm y ny) (hz : Norm z nz) (hnx : nx ≤ 30)
    (hny : ny ≤ 30) (hnz : nz ≤ 30) (hzpos : 0 < z) (hfit : x * y / z < 2 ^ 31) :
    ∃ p : Nat, Exact (xProdYDivZ x y z) p ∧ ProdQuotient x y z p := by
  have hprod : x * 2 ^ nx * (y * 2 ^ ny) = x * y * 2 ^ (nx + ny) := by ring
  have hlo : 2 ^ 60 ≤ x * y * 2 ^ (nx + ny) := by
    calc 2 ^ 60 = 2 ^ 30 * 2 ^ 30 := by decide
      _ ≤ x * 2 ^ nx * (y * 2 ^ ny) := Nat.mul_le_mul hx.1 hy.1
      _ = _ := hprod
  have hhi : x * y * 2 ^ (nx + ny) < 2 ^ 62 := by
    calc x * y * 2 ^ (nx + ny) = x * 2 ^ nx * (y * 2 ^ ny) := hprod.symm
      _ < 2 ^ 31 * 2 ^ 31 := Nat.mul_lt_mul'' hx.2 hy.2
      _ = 2 ^ 62 := by decide
  have hmult := mult32VarQ_exact x y nx ny (norm32_exact x nx hnx hx) (norm32_exact y ny hny hy)
    (by omega) (by omega) hx.2 hy.2
  rw [hprod] at hmult
  obtain ⟨qn, hqn, hm⟩ := Norm.exists (a := x * y * 2 ^ (nx + ny) / 2 ^ 32) (by omega) (by omega)
  have hright := ProdQuotient.right hzpos hlo
  have hcut : x * y * 2 ^ (nx + ny) / 2 ^ 32 * 2 ^ 32 ≤ x * y * 2 ^ (nx + ny) :=
    Nat.div_mul_le_self _ _
  generalize x * y * 2 ^ (nx + ny) / 2 ^ 32 = m at *
  have hdiv := div32VarQ_exact m z qn nz (0 + 0 + nx + ny - 32) (norm32_exact m qn hqn hm)
    (by omega) hm.2 hnz hz
  have hd := Nat.lt_of_lt_of_le (Nat.two_pow_pos 30) hz.1
  have hquot_le : m * 2 ^ qn * 2 ^ 30 / (z * 2 ^ nz) * (z * 2 ^ nz) ≤ m * 2 ^ qn * 2 ^ 30 :=
    Nat.div_mul_le_self _ _
  have hquot_lt : m * 2 ^ qn * 2 ^ 30 / (z * 2 ^ nz) < 2 ^ 31 := by
    rw [Nat.div_lt_iff_lt_mul hd]
    exact Nat.mul_lt_mul_of_lt_of_le hm.2 hz.1 hd
  have hquot_ge : 2 ^ 29 ≤ m * 2 ^ qn * 2 ^ 30 / (z * 2 ^ nz) := by
    rw [Nat.le_div_iff_mul_le hd]
    calc 2 ^ 29 * (z * 2 ^ nz) ≤ 2 ^ 29 * 2 ^ 31 := Nat.mul_le_mul_left _ hz.2.le
      _ = 2 ^ 30 * 2 ^ 30 := by decide
      _ ≤ m * 2 ^ qn * 2 ^ 30 := Nat.mul_le_mul_right _ hm.1
  by_cases hsign : nz + 2 ≤ nx + ny + qn
  · -- the quotient is shifted to the right
    obtain ⟨e, he⟩ := Nat.exists_eq_add_of_le hsign
    have hscale : 2 ^ nz * 2 ^ e * 2 ^ 2 = 2 ^ (nx + ny) * 2 ^ qn := by
      rw [← Nat.pow_add, ← Nat.pow_add, ← Nat.pow_add, he]
      congr 1
      omega
    have hvalue : m * 2 ^ qn * 2 ^ 30 / (z * 2 ^ nz) / 2 ^ e =
        m * 2 ^ 32 / (z * 2 ^ (nx + ny)) := by
      calc m * 2 ^ qn * 2 ^ 30 / (z * 2 ^ nz) / 2 ^ e
          = m * 2 ^ qn * 2 ^ 30 / (z * 2 ^ nz * 2 ^ e) := Nat.div_div_eq_div_mul ..
        _ = m * 2 ^ qn * 2 ^ 30 * 2 ^ 2 / (z * 2 ^ nz * 2 ^ e * 2 ^ 2) :=
          (Nat.mul_div_mul_right _ _ (by decide)).symm
        _ = m * 2 ^ 32 * 2 ^ qn / (z * (2 ^ nz * 2 ^ e * 2 ^ 2)) := by ring_nf
        _ = m * 2 ^ 32 * 2 ^ qn / (z * 2 ^ (nx + ny) * 2 ^ qn) := by rw [hscale, Nat.mul_assoc z]
        _ = m * 2 ^ 32 / (z * 2 ^ (nx + ny)) := Nat.mul_div_mul_right _ _ (Nat.two_pow_pos _)
    refine ⟨_, hmult.bind (hdiv.bind ?_), hvalue ▸ hright⟩
    have hexp : ((0 : Int) + 0 + nx + ny - 32 - 0 + (30 + qn - nz)) = (e : Int) := by omega
    rw [hexp]
    exact numberTToWord32_right _ e hquot_lt
  · -- the quotient is shifted to the left
    obtain ⟨j, hj⟩ := Nat.exists_eq_add_of_lt (Nat.not_le.mp hsign)
    have hscale : 2 ^ (j + 1) * 2 ^ (nx + ny) * 2 ^ qn = 2 ^ nz * 2 ^ 2 := by
      rw [← Nat.pow_add, ← Nat.pow_add, ← Nat.pow_add]
      congr 1
      omega
    have hscaled : m * 2 ^ qn * 2 ^ 30 / (z * 2 ^ nz) * 2 ^ (j + 1) * z * 2 ^ (nx + ny) ≤
        x * y * 2 ^ (nx + ny) := by
      apply Nat.le_of_mul_le_mul_right _ (Nat.two_pow_pos qn)
      generalize m * 2 ^ qn * 2 ^ 30 / (z * 2 ^ nz) = q at hquot_le
      calc q * 2 ^ (j + 1) * z * 2 ^ (nx + ny) * 2 ^ qn
          = q * z * (2 ^ (j + 1) * 2 ^ (nx + ny) * 2 ^ qn) := by ring
        _ = q * (z * 2 ^ nz) * 2 ^ 2 := by
          rw [hscale]
          ring
        _ ≤ m * 2 ^ qn * 2 ^ 30 * 2 ^ 2 := Nat.mul_le_mul_right _ hquot_le
        _ = m * 2 ^ 32 * 2 ^ qn := by ring
        _ ≤ x * y * 2 ^ (nx + ny) * 2 ^ qn := Nat.mul_le_mul_right _ hcut
    have hle := Nat.le_of_mul_le_mul_right hscaled (Nat.two_pow_pos _)
    have hbig : 2 ^ 29 ≤ m * 2 ^ qn * 2 ^ 30 / (z * 2 ^ nz) * 2 ^ (j + 1) :=
      hquot_ge.trans (Nat.le_mul_of_pos_right _ (Nat.two_pow_pos _))
    refine ⟨_, hmult.bind (hdiv.bind ?_), ProdQuotient.left hzpos hle hbig⟩
    have hexp : ((0 : Int) + 0 + nx + ny - 32 - 0 + (30 + qn - nz)) = -((j + 1 : Nat) : Int) := by
      omega
    rw [hexp]
    refine numberTToWord32_left _ (j + 1) (Nat.succ_pos _) (by omega) ?_
    exact Nat.lt_of_le_of_lt ((Nat.le_div_iff_mul_le hzpos).mpr hle) hfit

/-- Every operand has a scale: of a zero it is 31. -/
theorem exists_norm32 {x : Nat} (hx : x < 2 ^ 31) :
    ∃ n : Nat, n ≤ 31 ∧ Exact (norm32 x) n ∧ x * 2 ^ n < 2 ^ 31 ∧
      (x ≠ 0 → n ≤ 30 ∧ Norm x n) := by
  by_cases hzero : x = 0
  · subst hzero
    exact ⟨31, Nat.le_refl _, norm32_zero, by decide, fun h => absurd rfl h⟩
  · obtain ⟨n, hn, hnorm⟩ := Norm.exists (Nat.pos_of_ne_zero hzero) hx
    exact ⟨n, by omega, norm32_exact x n hn hnorm, hnorm.2, fun _ => ⟨hn, hnorm⟩⟩

/-- A product that is zero gives zero. -/
theorem xProdYDivZ_zero {x y z nz : Nat} (hx : x < 2 ^ 31) (hy : y < 2 ^ 31)
    (hz : Norm z nz) (hnz : nz ≤ 30) (hxy : x * y = 0) : Exact (xProdYDivZ x y z) 0 := by
  obtain ⟨nx, hnx, hnormx, hxfit, hxpos⟩ := exists_norm32 hx
  obtain ⟨ny, hny, hnormy, hyfit, hypos⟩ := exists_norm32 hy
  have hmult := mult32VarQ_exact x y nx ny hnormx hnormy hnx hny hxfit hyfit
  have hprod : x * 2 ^ nx * (y * 2 ^ ny) / 2 ^ 32 = 0 := by
    rw [show x * 2 ^ nx * (y * 2 ^ ny) = x * y * (2 ^ nx * 2 ^ ny) by ring, hxy, Nat.zero_mul,
      Nat.zero_div]
  rw [hprod] at hmult
  have hdiv := div32VarQ_exact 0 z 31 nz (0 + 0 + nx + ny - 32) norm32_zero (by decide) (by decide)
    hnz hz
  rw [Nat.zero_mul, Nat.zero_mul, Nat.zero_div] at hdiv
  exact hmult.bind (hdiv.bind (numberTToWord32_zero _ (by omega)))

theorem xProdYDivZ_nat (x y z : Nat) (hx : x < 2 ^ 31) (hy : y < 2 ^ 31) (hzpos : 0 < z)
    (hz : z < 2 ^ 31) (hfit : x * y / z < 2 ^ 31) :
    ∃ p : Nat, Exact (xProdYDivZ x y z) p ∧ ProdQuotient x y z p := by
  obtain ⟨nz, hnz, hnormz⟩ := Norm.exists hzpos hz
  by_cases hxy : x * y = 0
  · exact ⟨0, xProdYDivZ_zero hx hy hnormz hnz hxy, ProdQuotient.zero hxy⟩
  · have hpos := Nat.pos_of_ne_zero hxy
    obtain ⟨nx, hnx, hnormx⟩ := Norm.exists (Nat.pos_of_mul_pos_right hpos) hx
    obtain ⟨ny, hny, hnormy⟩ := Norm.exists (Nat.pos_of_mul_pos_left hpos) hy
    exact xProdYDivZ_pos hnormx hnormy hnormz hnx hny hnz hzpos hfit

/-- The macro ends with a value that is at most the quotient, equal to it for a product below
`2 ^ 28` and one off at most for a quotient below `2 ^ 27`. No value is saturated, and no operand
is shifted by less than 0 or by its width or more. -/
theorem xProdYDivZ_accuracy (x y z : Int) (hx : 0 ≤ x) (hx_lt : x < 2 ^ 31) (hy : 0 ≤ y)
    (hy_lt : y < 2 ^ 31) (hz : 0 < z) (hz_lt : z < 2 ^ 31) (hfit : x * y / z < 2 ^ 31) :
    ∃ p log, (xProdYDivZ x y z).run [] = some (p, log) ∧ (∀ op ∈ log, FixOp.InRange op) ∧
      0 ≤ p ∧ p ≤ x * y / z ∧ (x * y < 2 ^ 28 → p = x * y / z) ∧
      (x * y < 2 ^ 27 * z → x * y / z - p ≤ 1) := by
  obtain ⟨x, rfl⟩ := Int.eq_ofNat_of_zero_le hx
  obtain ⟨y, rfl⟩ := Int.eq_ofNat_of_zero_le hy
  obtain ⟨z, rfl⟩ := Int.eq_ofNat_of_zero_le hz.le
  obtain ⟨p, hp, hquot⟩ := xProdYDivZ_nat x y z (by exact_mod_cast hx_lt)
    (by exact_mod_cast hy_lt) (by exact_mod_cast hz) (by exact_mod_cast hz_lt)
    (by exact_mod_cast hfit)
  obtain ⟨es, hrun, hes⟩ := hp []
  rw [List.append_nil] at hrun
  refine ⟨p, es, hrun, hes, Int.natCast_nonneg p, ?_, fun hsmall => ?_, fun hnear => ?_⟩
  · exact_mod_cast hquot.le
  · exact_mod_cast hquot.exact_of_small (by exact_mod_cast hsmall)
  · have hle : ((x * y / z : Nat) : Int) ≤ ((p + 1 : Nat) : Int) :=
      Int.ofNat_le.mpr (hquot.near (by exact_mod_cast hnear))
    push_cast at hle
    omega

/-- A bit rate of 3000000, for a frame of 1001 parts in 30000. -/
theorem xProdYDivZ_accuracy_frame : ∃ p log,
    (xProdYDivZ 3000000 1001 30000).run [] = some (p, log) ∧ (∀ op ∈ log, FixOp.InRange op) ∧
      0 ≤ p ∧ p ≤ 3000000 * 1001 / 30000 ∧
      (3000000 * 1001 < (2 : Int) ^ 28 → p = 3000000 * 1001 / 30000) ∧
      (3000000 * 1001 < (2 : Int) ^ 27 * 30000 → 3000000 * 1001 / 30000 - p ≤ 1) :=
  xProdYDivZ_accuracy 3000000 1001 30000 (by decide) (by decide) (by decide) (by decide)
    (by decide) (by decide) (by decide)

/-- The product of 64 bits is shifted by 32. -/
theorem xProdYDivZ_shift_thirtyTwo : ¬∀ x y z : Int, 0 ≤ x → x < 2 ^ 31 → 0 ≤ y → y < 2 ^ 31 →
    0 < z → z < 2 ^ 31 → x * y / z < 2 ^ 31 → ∀ r, (xProdYDivZ x y z).run [] = some r →
    ∀ width amount, FixOp.shift width amount ∈ r.2 → 0 ≤ amount ∧ amount < 32 := by
  intro h
  have hrun : ∃ r, (xProdYDivZ 1 1 1).run [] = some r ∧ FixOp.shift 64 32 ∈ r.2 :=
    ⟨((xProdYDivZ 1 1 1).run []).getD (0, []), by decide +kernel, by decide +kernel⟩
  obtain ⟨r, hr, hmem⟩ := hrun
  exact absurd (h 1 1 1 (by decide) (by decide) (by decide) (by decide) (by decide) (by decide)
    (by decide) r hr 64 32 hmem).2 (by decide)

end Libhevc.Encoder
