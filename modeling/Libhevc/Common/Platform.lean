import Libhevc.Lib.BitString
import Mathlib.Data.Nat.Log
import Mathlib.Tactic.NormNum

/-!
# Machine words and platform macros

`UWORD32` values are natural numbers below `2 ^ 32`; operations that can leave
the range are followed by `u32`. The macros are those of
`ihevc_platform_macros.h` and `ihevc_macros.h`.
-/

namespace Libhevc

/-- What a function of the decoder returns. -/
inductive Decoder.IhevcdErrorT
  | success
  | fail
  | unsupportedSpsId
  | unsupportedPpsId
  | invalidParameter
  | invalidHeader
  | unsupportedToolSet
  | resChanged
  deriving DecidableEq, Repr

open BitString Memory

/-- Truncation to `UWORD32`. -/
def u32 (x : Nat) : Nat := x % 2 ^ 32

/-- Subtraction of two `UWORD32` values, modulo `2 ^ 32`. -/
def u32Sub (x y : Nat) : Nat := u32 (2 ^ 32 - u32 y + x)

/-- Truncation of a bit pattern to a signed integer of `w` bits, two's complement. -/
def wrapInt (w : Nat) (x : Int) : Int := (x + 2 ^ (w - 1)) % 2 ^ w - 2 ^ (w - 1)

/-- Conversion to `WORD32`. -/
def i32 (x : Int) : Int := wrapInt 32 x

/-- Conversion to `WORD16`. -/
def i16 (x : Int) : Int := wrapInt 16 x

/-- Conversion to `WORD8`. -/
def i8 (x : Int) : Int := wrapInt 8 x

def clip3 (x lo hi : Int) : Int := if hi < x then hi else if x < lo then lo else x

/-- `CLZ`: the number of leading zeros of a word, and 31 for the word 0. -/
def clz (word : Nat) : Nat := if word = 0 then 31 else 31 - Nat.log2 word

/-- `GETRANGE`: the number of bits a word needs, and 1 for the word 0. -/
def getRange (word : Nat) : Nat := if word = 0 then 1 else Nat.log2 word + 1

/-- `SHL` -/
def shl (x y : Nat) : Nat := if y < 32 then u32 (x <<< y) else 0

/-- `SHR` -/
def shr (x y : Nat) : Nat := if y < 32 then x >>> y else 0

/-- `ITT_BIG_ENDIAN` -/
def ittBigEndian (x : Nat) : Nat :=
  u32 (x <<< 24) ||| ((x &&& 0x0000ff00) <<< 8) ||| ((x &&& 0x00ff0000) >>> 8) ||| (x >>> 24)

/-- A little-endian load of the `k`-th 32-bit word of a buffer. -/
def loadWord (buf : Nat → Nat) (k : Nat) : Nat :=
  buf (4 * k) + buf (4 * k + 1) <<< 8 + buf (4 * k + 2) <<< 16 + buf (4 * k + 3) <<< 24

theorem u32_lt (x : Nat) : u32 x < 2 ^ 32 := Nat.mod_lt _ (by decide)

theorem u32_of_lt (h : x < 2 ^ 32) : u32 x = x := Nat.mod_eq_of_lt h

@[simp] theorem u32_u32 (x : Nat) : u32 (u32 x) = u32 x := Nat.mod_mod ..

theorem u32Sub_of_le (hy : y ≤ x) (hx : x < 2 ^ 32) : u32Sub x y = x - y := by
  unfold u32Sub u32
  omega

theorem wrapInt_of_bounds (hw : 0 < w) (hlo : -2 ^ (w - 1) ≤ x) (hhi : x < 2 ^ (w - 1)) :
    wrapInt w x = x := by
  have hpow : (2 : Int) ^ w = 2 ^ (w - 1) + 2 ^ (w - 1) := by
    rw [← two_mul, ← pow_succ', Nat.sub_add_cancel hw]
  rw [wrapInt, Int.emod_eq_of_lt (by omega) (by omega)]
  omega

theorem i32_of_bounds (hlo : -2 ^ 31 ≤ x) (hhi : x < 2 ^ 31) : i32 x = x :=
  wrapInt_of_bounds (by decide) hlo hhi

-- ---------------------------------------------------------------------------
-- Bit lengths
-- ---------------------------------------------------------------------------

theorem clz_eq (hlo : 2 ^ n ≤ x) (hhi : x < 2 ^ (n + 1)) : clz x = 31 - n := by
  have hx : x ≠ 0 := by
    have := Nat.two_pow_pos n
    omega
  simp only [clz, hx, if_false]
  rw [(Nat.log2_eq_iff hx).mpr ⟨hlo, hhi⟩]

theorem two_pow_getRange_le (h : x ≠ 0) : 2 ^ (getRange x - 1) ≤ x := by
  simp only [getRange, h, if_false, Nat.add_sub_cancel]
  exact Nat.log2_self_le h

theorem lt_two_pow_getRange (x : Nat) : x < 2 ^ getRange x := by
  unfold getRange
  split
  · omega
  · exact Nat.lt_log2_self

theorem getRange_pos (x : Nat) : 0 < getRange x := by
  unfold getRange
  split <;> omega

theorem getRange_le (h : x < 2 ^ n) (hn : 0 < n) : getRange x ≤ n := by
  unfold getRange
  split
  · exact hn
  · rename_i hx
    exact Nat.log2_lt hx |>.mpr h

-- ---------------------------------------------------------------------------
-- Words as four bytes
-- ---------------------------------------------------------------------------

theorem and_mask (x n k : Nat) :
    x &&& ((2 ^ n - 1) <<< k) = x / 2 ^ k % 2 ^ n * 2 ^ k := by
  rw [← Nat.shiftLeft_eq (x / 2 ^ k % 2 ^ n)]
  refine Nat.eq_of_testBit_eq fun i => ?_
  simp only [Nat.testBit_and, Nat.testBit_shiftLeft, Nat.testBit_two_pow_sub_one,
    Nat.testBit_mod_two_pow, Nat.testBit_div_two_pow]
  by_cases hk : k ≤ i
  · by_cases hn : i - k < n <;> simp [hk, hn]
  · simp [hk]

theorem shiftLeft_or (h : y < 2 ^ k) : x <<< k ||| y = x * 2 ^ k + y := by
  rw [← Nat.shiftLeft_add_eq_or_of_lt h, Nat.shiftLeft_eq]

theorem mul_or (h : y < 2 ^ k) : x * 2 ^ k ||| y = x * 2 ^ k + y := by
  rw [← Nat.shiftLeft_eq, shiftLeft_or h, Nat.shiftLeft_eq]

theorem ittBigEndian_bytes (h0 : b0 < 256) (h1 : b1 < 256) (h2 : b2 < 256) (h3 : b3 < 256) :
    ittBigEndian (b0 + b1 <<< 8 + b2 <<< 16 + b3 <<< 24) =
      b0 * 2 ^ 24 + (b1 * 2 ^ 16 + (b2 * 2 ^ 8 + b3)) := by
  have m1 := and_mask (b0 + b1 * 256 + b2 * 65536 + b3 * 16777216) 8 8
  have m2 := and_mask (b0 + b1 * 256 + b2 * 65536 + b3 * 16777216) 8 16
  norm_num only [Nat.shiftLeft_eq] at m1 m2
  have e0 : (b0 + b1 * 256 + b2 * 65536 + b3 * 16777216) * 16777216 % 4294967296 =
      b0 * 16777216 := by omega
  have e1 : (b0 + b1 * 256 + b2 * 65536 + b3 * 16777216) / 256 % 256 = b1 := by omega
  have e2 : (b0 + b1 * 256 + b2 * 65536 + b3 * 16777216) / 65536 % 256 = b2 := by omega
  have e3 : (b0 + b1 * 256 + b2 * 65536 + b3 * 16777216) / 16777216 = b3 := by omega
  have e4 : b1 * 256 * 256 = b1 * 65536 := by omega
  have e5 : b2 * 65536 / 256 = b2 * 256 := by omega
  have o1 : b2 * 256 ||| b3 = b2 * 256 + b3 := mul_or (k := 8) h3
  have o2 : b1 * 65536 ||| (b2 * 256 + b3) = b1 * 65536 + (b2 * 256 + b3) :=
    mul_or (k := 16) (by omega)
  have o3 : b0 * 16777216 ||| (b1 * 65536 + (b2 * 256 + b3)) =
      b0 * 16777216 + (b1 * 65536 + (b2 * 256 + b3)) := mul_or (k := 24) (by omega)
  simp only [ittBigEndian, u32, Nat.shiftLeft_eq, Nat.shiftRight_eq_div_pow]
  norm_num only
  rw [m1, m2, e0, e1, e2, e3, e4, e5, Nat.or_assoc, Nat.or_assoc, o1, o2, o3]

theorem field_four_bytes (h : ∀ i, buf i < 256) :
    field (ofBytes buf) (8 * k) (8 + (8 + (8 + 8))) =
      buf k * 2 ^ 24 + (buf (k + 1) * 2 ^ 16 + (buf (k + 2) * 2 ^ 8 + buf (k + 3))) := by
  have a1 : 8 * k + 8 = 8 * (k + 1) := by omega
  have a2 : 8 * (k + 1) + 8 = 8 * (k + 2) := by omega
  have a3 : 8 * (k + 2) + 8 = 8 * (k + 3) := by omega
  simp only [field_add, a1, a2, a3, field_byte (h _)]

/-- The word a reader gets from four bytes has the first one on top. -/
theorem ittBigEndian_loadWord (h : ∀ i, buf i < 256) :
    ittBigEndian (loadWord buf k) = field (ofBytes buf) (32 * k) 32 := by
  have hload : ittBigEndian (loadWord buf k) = _ :=
    ittBigEndian_bytes (h (4 * k)) (h (4 * k + 1)) (h (4 * k + 2)) (h (4 * k + 3))
  have hfield := field_four_bytes (k := 4 * k) h
  rw [show 8 * (4 * k) = 32 * k by omega] at hfield
  rw [hload, ← hfield]

end Libhevc
