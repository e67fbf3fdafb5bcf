import Libhevc.Common.QuantIquantLaws
import Libhevc.Decoder.UnpackCoeffs

/-!
# The scaling of a level

`IQUANT` and `IQUANT_4x4` shift to the left where the QP is high, and
`IQUANT_4x4` clips the level there. For the QPs of a bit depth both give what
the scaling process gives in unlimited precision.
-/

namespace Libhevc.Decoder

/-- The scaling process: `x` is the level times its factors. -/
def scaledLevel (bdShift qpDiv : Nat) (x : Int) : Int :=
  clipS16 ((x * 2 ^ qpDiv + 2 ^ (bdShift - 1)) / 2 ^ bdShift)

theorem scaledLevel_right (q k : Nat) (x : Int) :
    scaledLevel (q + (k + 1)) q x = clipS16 ((x + 2 ^ k) / 2 ^ (k + 1)) := by
  have hnum : x * 2 ^ q + 2 ^ (q + (k + 1) - 1) = (x + 2 ^ k) * 2 ^ q := by
    rw [show q + (k + 1) - 1 = k + q by omega, pow_add, add_mul]
  have hden : (2 : Int) ^ (q + (k + 1)) = 2 ^ (k + 1) * 2 ^ q := by
    rw [Nat.add_comm, pow_add]
  unfold scaledLevel
  rw [hnum, hden, Int.mul_ediv_mul_of_pos_left _ _ (by positivity)]

/-- Rounding leaves a multiple as it is. -/
theorem mul_add_half_ediv (hs : 0 < s) (y : Int) : (y * 2 ^ s + 2 ^ (s - 1)) / 2 ^ s = y := by
  have hpos : (0 : Int) < 2 ^ s := by positivity
  have hsmall : (2 : Int) ^ (s - 1) < 2 ^ s := pow_lt_pow_right₀ (by decide) (by omega)
  rw [Int.add_comm, Int.add_mul_ediv_right _ _ hpos.ne',
    Int.ediv_eq_zero_of_lt (by positivity) hsmall, Int.zero_add]

theorem scaledLevel_left (s j : Nat) (hs : 0 < s) (x : Int) :
    scaledLevel s (s + j) x = clipS16 (x * 2 ^ j) := by
  unfold scaledLevel
  rw [pow_add, show x * (2 ^ s * 2 ^ j) = x * 2 ^ j * 2 ^ s by ring, mul_add_half_ediv hs]

/-- Without overflow in `WORD32`, `IQUANT` is the scaling process. -/
theorem iquant_scaled {s q : Nat} (hs : 0 < s) (hs' : s ≤ 29)
    (hx : |level * dequantCoeff| ≤ 2 ^ 30)
    (hleft : ∀ j, q = s + j → |level * dequantCoeff * 2 ^ j| < 2 ^ 31) :
    iquant level dequantCoeff s q = scaledLevel s q (level * dequantCoeff) := by
  obtain ⟨hlo, hhi⟩ := abs_le.mp hx
  have hprod : i32 (level * dequantCoeff) = level * dequantCoeff :=
    i32_of_bounds (by omega) (by omega)
  unfold iquant
  dsimp only
  rw [hprod]
  generalize level * dequantCoeff = x at hlo hhi hleft
  rcases Nat.lt_or_ge q s with hlt | hge
  · obtain ⟨k, rfl⟩ : ∃ k, s = q + (k + 1) := ⟨s - q - 1, by omega⟩
    rw [scaledLevel_right, show ((q + (k + 1) : Nat) : Int) - q = (k + 1 : Nat) by push_cast; ring,
      show ((k + 1 : Nat) : Int) - 1 = (k : Nat) by push_cast; ring]
    have hpow : (2 : Int) ^ k ≤ 2 ^ 29 := pow_le_pow_right₀ (by decide) (by omega)
    have hpos : (0 : Int) < 2 ^ k := by positivity
    have hadd : shlNeg 1 (k : Nat) = 2 ^ k := by
      unfold shlNeg
      rw [if_neg (by omega), Int.toNat_natCast, Int.shiftLeft_eq, one_mul]
      exact i32_of_bounds (by omega) (by omega)
    unfold shrNeg
    rw [hadd, i32_of_bounds (by omega) (by omega), if_pos (by omega), Int.toNat_natCast,
      Int.shiftRight_eq_div_pow, Nat.cast_pow, Nat.cast_ofNat]
  · obtain ⟨j, rfl⟩ := Nat.exists_eq_add_of_le hge
    have hj := abs_lt.mp (hleft j rfl)
    rw [scaledLevel_left s j hs, show ((s : Nat) : Int) - (s + j : Nat) = -(j : Nat) by
      push_cast; ring]
    have hadd : shlNeg 1 (-(j : Nat) - 1) = 0 := by
      unfold shlNeg
      rw [if_pos (by omega), show -(-((j : Nat) : Int) - 1) = (j + 1 : Nat) by push_cast; ring,
        Int.toNat_natCast, Int.shiftRight_eq_div_pow]
      exact Int.ediv_eq_zero_of_lt (by decide) (by
        have := Nat.one_lt_two_pow (n := j + 1) (by omega)
        exact_mod_cast this)
    unfold shrNeg
    rw [hadd, Int.add_zero, i32_of_bounds (by omega) (by omega), if_neg (by omega), neg_neg,
      Int.toNat_natCast, Int.shiftLeft_eq, i32_of_bounds (by omega) (by omega)]

-- ---------------------------------------------------------------------------
-- The QPs of a bit depth
-- ---------------------------------------------------------------------------

/-- A transform size, a bit depth, a QP of it and a scaling matrix. -/
structure UnpackArgs.Ok (a : UnpackArgs) : Prop where
  log2 : 2 ≤ a.log2TransSize ∧ a.log2TransSize ≤ 5
  bitDepth : 8 ≤ a.bitDepth ∧ a.bitDepth ≤ 16
  qpRem : a.qpRem < 6
  qp : 6 * a.qpDiv + a.qpRem ≤ 51 + 6 * (a.bitDepth - 8)
  matrix : ∀ row col, 1 ≤ a.pi2DequantMatrix row col ∧ a.pi2DequantMatrix row col ≤ 255

theorem iquantScales_bounds : ∀ r < 6, 40 ≤ gIhevcIquantScales r ∧ gIhevcIquantScales r ≤ 72 := by
  decide

theorem iquantScales_low : ∀ r < 4, gIhevcIquantScales r ≤ 57 := by decide

theorem level_product_le {level m scale b : Int} (hlevel : |level| ≤ b) (hm : 1 ≤ m ∧ m ≤ 255)
    (hscale : 0 ≤ scale ∧ scale ≤ s) : |level * (m * scale)| ≤ b * (255 * s) := by
  have hb : 0 ≤ b := (abs_nonneg level).trans hlevel
  have hprod : |m * scale| ≤ 255 * s := by
    rw [abs_mul, abs_of_nonneg (by omega : 0 ≤ m), abs_of_nonneg hscale.1]
    exact mul_le_mul hm.2 hscale.2 hscale.1 (by decide)
  rw [abs_mul]
  exact mul_le_mul hlevel hprod (abs_nonneg _) hb

theorem clipS16_of_ge (h : 32767 ≤ x) : clipS16 x = 32767 := by
  unfold clipS16 clip3
  split_ifs <;> omega

theorem clipS16_of_le (h : x ≤ -32768) : clipS16 x = -32768 := by
  unfold clipS16 clip3
  split_ifs <;> omega

/-- Where `IQUANT_4x4` clips a level, the value is clipped as well. -/
theorem clipS16_short {level d : Int} (hd : 80 ≤ d) :
    clipS16 (clip3 level (-512) 511 * d) = clipS16 (level * d) := by
  unfold clip3
  split
  · rename_i hgt
    have hmul : 511 * d ≤ level * d := Int.mul_le_mul_of_nonneg_right hgt.le (by omega)
    rw [clipS16_of_ge (by omega), clipS16_of_ge (by omega)]
  · split
    · rename_i hlt
      have hmul : level * d ≤ -512 * d := Int.mul_le_mul_of_nonneg_right hlt.le (by omega)
      rw [clipS16_of_le (by omega), clipS16_of_le (by omega)]
    · rfl

namespace UnpackArgs

variable {a : UnpackArgs}

/-- How far the QP goes over the shift. -/
theorem Ok.left_shift (ha : a.Ok) (hj : a.qpDiv = a.bitDepth + a.log2TransSize - 5 + j) :
    j + a.log2TransSize ≤ 5 := by
  have := ha.log2
  have := ha.bitDepth
  have := ha.qp
  omega

/-- A short level stays in `WORD32`. -/
theorem Ok.iquant_short (ha : a.Ok) (hlevel : |level| ≤ 512) (hm : 1 ≤ m ∧ m ≤ 255) :
    iquant level (m * gIhevcIquantScales a.qpRem) (a.bitDepth + a.log2TransSize - 5 : Nat) a.qpDiv
      = scaledLevel (a.bitDepth + a.log2TransSize - 5) a.qpDiv
        (level * (m * gIhevcIquantScales a.qpRem)) := by
  obtain ⟨hlog, hlog'⟩ := ha.log2
  obtain ⟨hbd, hbd'⟩ := ha.bitDepth
  obtain ⟨hscale, hscale'⟩ := iquantScales_bounds a.qpRem ha.qpRem
  have hx := level_product_le hlevel hm ⟨by omega, hscale'⟩
  refine iquant_scaled (by omega) (by omega) (hx.trans (by decide)) fun j hj => ?_
  have hj3 : j ≤ 3 := by
    have := ha.left_shift hj
    omega
  have hpow : (2 : Int) ^ j ≤ 2 ^ 3 := pow_le_pow_right₀ (by decide) hj3
  rw [abs_mul, abs_of_pos (by positivity : (0 : Int) < 2 ^ j)]
  calc |level * (m * gIhevcIquantScales a.qpRem)| * 2 ^ j
      ≤ 512 * (255 * 72) * 2 ^ 3 := mul_le_mul hx hpow (by positivity) (by decide)
    _ < 2 ^ 31 := by decide

/-- Every level of 16 bits stays in `WORD32` where a left shift is not of a 4x4 block. -/
theorem Ok.iquant_long (ha : a.Ok) (hlevel : IsWord16 level) (hm : 1 ≤ m ∧ m ≤ 255)
    (hsize : a.qpDiv ≤ a.bitDepth + a.log2TransSize - 5 ∨ 3 ≤ a.log2TransSize) :
    iquant level (m * gIhevcIquantScales a.qpRem) (a.bitDepth + a.log2TransSize - 5 : Nat) a.qpDiv
      = scaledLevel (a.bitDepth + a.log2TransSize - 5) a.qpDiv
        (level * (m * gIhevcIquantScales a.qpRem)) := by
  obtain ⟨hlog, hlog'⟩ := ha.log2
  obtain ⟨hbd, hbd'⟩ := ha.bitDepth
  have hqp := ha.qp
  obtain ⟨hscale, hscale'⟩ := iquantScales_bounds a.qpRem ha.qpRem
  have habs : |level| ≤ 32768 := abs_le.mpr ⟨hlevel.1, hlevel.2.trans (by decide)⟩
  have hx := level_product_le habs hm ⟨by omega, hscale'⟩
  refine iquant_scaled (by omega) (by omega) (hx.trans (by decide)) fun j hj => ?_
  have hj2 : j ≤ 2 := by
    have := ha.left_shift hj
    omega
  rw [abs_mul, abs_of_pos (by positivity : (0 : Int) < 2 ^ j)]
  rcases Nat.lt_or_eq_of_le hj2 with hj1 | rfl
  · have hpow : (2 : Int) ^ j ≤ 2 ^ 1 := pow_le_pow_right₀ (by decide) (by omega)
    calc |level * (m * gIhevcIquantScales a.qpRem)| * 2 ^ j
        ≤ 32768 * (255 * 72) * 2 ^ 1 := mul_le_mul hx hpow (by positivity) (by decide)
      _ < 2 ^ 31 := by decide
  · -- a shift by two is met with the QPs up to 51 only, where the scale is at most 57
    have hlow := iquantScales_low a.qpRem (by omega)
    have hx' := level_product_le habs hm ⟨by omega, hlow⟩
    calc |level * (m * gIhevcIquantScales a.qpRem)| * 2 ^ 2
        ≤ 32768 * (255 * 57) * 2 ^ 2 := mul_le_mul_of_nonneg_right hx' (by decide)
      _ < 2 ^ 31 := by decide

/-- What is unpacked for a level is its scaled value. -/
theorem Ok.unpackCoeff_scaled (ha : a.Ok) (hlevel : IsWord16 level) (hm : 1 ≤ m ∧ m ≤ 255) :
    ihevcdUnpackCoeff a.log2TransSize level m a.qpRem a.qpDiv a.bitDepth
      = scaledLevel (a.bitDepth + a.log2TransSize - 5) a.qpDiv
        (level * (m * gIhevcIquantScales a.qpRem)) := by
  obtain ⟨hlog, hlog'⟩ := ha.log2
  obtain ⟨hbd, hbd'⟩ := ha.bitDepth
  have hshift : ((a.bitDepth + a.log2TransSize : Nat) : Int) - 5
      = (a.bitDepth + a.log2TransSize - 5 : Nat) := by omega
  unfold ihevcdUnpackCoeff
  dsimp only
  rw [hshift]
  split
  · rename_i hfour
    rcases Nat.lt_or_ge (a.bitDepth + a.log2TransSize - 5) a.qpDiv with hlt | hge
    · -- the level is clipped to 10 bits
      obtain ⟨j, hj⟩ := Nat.exists_eq_add_of_lt hlt
      obtain ⟨hscale, hscale'⟩ := iquantScales_bounds a.qpRem ha.qpRem
      have hclip : |clip3 level (-512) 511| ≤ 512 := by
        unfold clip3
        refine abs_le.mpr ?_
        split_ifs <;> omega
      unfold iquant4x4
      dsimp only
      rw [if_pos (by omega), show (-2 ^ (10 - 1) : Int) = -512 from rfl,
        show (2 ^ (10 - 1) - 1 : Int) = 511 from rfl, ha.iquant_short hclip hm, hj, Nat.add_assoc,
        scaledLevel_left _ _ (by omega), scaledLevel_left _ _ (by omega),
        mul_assoc (clip3 level (-512) 511), mul_assoc level]
      refine clipS16_short ?_
      have hprod : 40 ≤ m * gIhevcIquantScales a.qpRem := by nlinarith
      have hpow : (2 : Int) ^ 1 ≤ 2 ^ (j + 1) := pow_le_pow_right₀ (by decide) (by omega)
      nlinarith
    · rw [iquant4x4_eq _ hlevel fun hlt => by omega]
      exact ha.iquant_long hlevel hm (Or.inl hge)
  · rename_i hne
    refine ha.iquant_long hlevel hm (Or.inr ?_)
    by_contra hlt
    rw [show a.log2TransSize = 2 by omega] at hne
    exact hne rfl

/-- `m` of the scaling process: 16 in the larger transform skip blocks. -/
def scalingFactor (a : UnpackArgs) (transSkip : Bool) (row col : Nat) : Int :=
  if transSkip ∧ 4 < a.transSize then 16 else a.pi2DequantMatrix row col

/-- The value at a place: the level of a bypass block, the scaled level, or the scaled level with
the two shifts of transform skip in one, in 16 bits. -/
def value (a : UnpackArgs) (transSkip : Bool) (row col : Nat) (level : Int) : Int :=
  if a.transQuantBypass then level
  else
    let scaled := scaledLevel (a.bitDepth + a.log2TransSize - 5) a.qpDiv
      (level * (a.scalingFactor transSkip row col * gIhevcIquantScales a.qpRem))
    if transSkip then
      i16 ((scaled * 2 ^ (5 + a.log2TransSize) + 2 ^ (19 - a.bitDepth)) / 2 ^ (20 - a.bitDepth))
    else scaled

theorem scaledLevel_range (s q : Nat) (x : Int) : IsWord16 (scaledLevel s q x) :=
  clipS16_bounds _

theorem Ok.transSkipShift_eq (ha : a.Ok) (hx : IsWord16 x) :
    a.transSkipShift x
      = i16 ((x * 2 ^ (5 + a.log2TransSize) + 2 ^ (19 - a.bitDepth)) / 2 ^ (20 - a.bitDepth)) := by
  obtain ⟨hlog, hlog'⟩ := ha.log2
  obtain ⟨hbd, hbd'⟩ := ha.bitDepth
  unfold transSkipShift maxTrDynamicRange
  dsimp only
  rcases Nat.lt_trichotomy (a.bitDepth + a.log2TransSize) 15 with hlt | heq | hgt
  · obtain ⟨k, hk⟩ : ∃ k, 15 = a.bitDepth + a.log2TransSize + (k + 1) :=
      ⟨14 - (a.bitDepth + a.log2TransSize), by omega⟩
    have hcast : ((15 : Nat) : Int) - a.bitDepth - a.log2TransSize = (k + 1 : Nat) := by omega
    rw [hcast, if_pos (by omega), Int.toNat_natCast,
      show (((k + 1 : Nat) : Int) - 1).toNat = k by omega, Int.shiftLeft_eq, one_mul,
      Int.shiftRight_eq_div_pow, Nat.cast_pow, Nat.cast_ofNat]
    congr 1
    have hnum : x * 2 ^ (5 + a.log2TransSize) + 2 ^ (19 - a.bitDepth)
        = (x + 2 ^ k) * 2 ^ (5 + a.log2TransSize) := by
      rw [show 19 - a.bitDepth = k + (5 + a.log2TransSize) by omega, pow_add 2 k, add_mul]
    have hden : (2 : Int) ^ (20 - a.bitDepth) = 2 ^ (k + 1) * 2 ^ (5 + a.log2TransSize) := by
      rw [show 20 - a.bitDepth = k + 1 + (5 + a.log2TransSize) by omega, pow_add]
    rw [hnum, hden, Int.mul_ediv_mul_of_pos_left _ _ (by positivity)]
  · have hcast : ((15 : Nat) : Int) - a.bitDepth - a.log2TransSize = 0 := by omega
    rw [hcast, if_neg (lt_irrefl _), if_neg (lt_irrefl _),
      show 5 + a.log2TransSize = 20 - a.bitDepth by omega,
      show 19 - a.bitDepth = 20 - a.bitDepth - 1 by omega, mul_add_half_ediv (by omega)]
    exact (wrapInt_of_bounds (by decide) hx.1 (Int.lt_of_le_of_lt hx.2 (by decide))).symm
  · obtain ⟨k, hk⟩ : ∃ k, a.bitDepth + a.log2TransSize = 15 + (k + 1) :=
      ⟨a.bitDepth + a.log2TransSize - 16, by omega⟩
    have hcast : ((15 : Nat) : Int) - a.bitDepth - a.log2TransSize = -(k + 1 : Nat) := by omega
    rw [hcast, if_neg (by omega), if_pos (by omega), neg_neg, Int.toNat_natCast, Int.shiftLeft_eq,
      show 5 + a.log2TransSize = 20 - a.bitDepth + (k + 1) by omega,
      show 19 - a.bitDepth = 20 - a.bitDepth - 1 by omega, pow_add 2 (20 - a.bitDepth),
      show x * (2 ^ (20 - a.bitDepth) * 2 ^ (k + 1)) = x * 2 ^ (k + 1) * 2 ^ (20 - a.bitDepth) by
        ring, mul_add_half_ediv (by omega)]

/-- What is put in a place is the value of the level. -/
theorem Ok.iquantOut_eq (ha : a.Ok) (hlevel : IsWord16 level) (transSkip : Bool) (row col : Nat) :
    a.iquantOut transSkip row col level = a.value transSkip row col level := by
  have hm : 1 ≤ a.scalingFactor transSkip row col ∧ a.scalingFactor transSkip row col ≤ 255 := by
    unfold scalingFactor
    split
    · exact ⟨by decide, by decide⟩
    · exact ha.matrix row col
  unfold iquantOut value
  split
  · rfl
  · dsimp only
    have hscaled := ha.unpackCoeff_scaled hlevel hm
    unfold scalingFactor at hscaled ⊢
    rw [hscaled]
    split
    · exact ha.transSkipShift_eq (scaledLevel_range _ _ _)
    · rfl

end UnpackArgs

end Libhevc.Decoder
