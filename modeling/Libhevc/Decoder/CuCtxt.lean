import Libhevc.Common.CodingQuadtree
import Libhevc.Decoder.CabacStart
import Libhevc.Lib.Memory
import Mathlib.Tactic.IntervalCases

/-!
# Contexts of `split_cu_flag` and `cu_skip_flag`

The part of `ihevcd_parse_coding_quadtree` and `ihevcd_parse_coding_unit` that
selects these contexts, with the packed maps of depths and skip flags. The flags
come from a list, in which those of other syntax elements are left out.
-/

namespace Libhevc.Decoder

open Memory

/-- The sizes of the SPS. -/
structure SpsCu extends SpsSize where
  i1Log2MinCodingBlockSize : Nat
  log2MinCodingBlockSize_ge : 3 ≤ i1Log2MinCodingBlockSize
  log2MinCodingBlockSize_le : i1Log2MinCodingBlockSize ≤ i1Log2CtbSize

/-- Two bits for the depth, one for the skip flag: of the last row by columns of 8 samples, and of
the last column by rows of 8 samples. -/
structure CuMaps where
  pu4CtDepthTop : Nat → BitVec 32
  u4CtDepthLeft : BitVec 32
  pu4SkipCuTop : Nat → BitVec 32
  u4SkipCuLeft : BitVec 32

def lsbOnes (x : Nat) : BitVec 32 := 0xFFFFFFFF#32 >>> (32 - x)

def dupLsb11 (x : Nat) : BitVec 32 := 0xFFFFFFFF#32 >>> (32 - x * 2)

def gau4CtDepthMask (ctDepth : Nat) : BitVec 32 :=
  [0x0#32, 0x55555555#32, 0xAAAAAAAA#32, 0xFFFFFFFF#32].getD ctDepth 0x0#32

/-- The two bits at place `i`. -/
def depthAt (u4CtDepth : BitVec 32) (i : Nat) : Nat := (u4CtDepth >>> (i * 2) &&& 3#32).toNat

def skipAt (u4SkipCu : BitVec 32) (i : Nat) : Bool := u4SkipCu >>> i &&& 1#32 = 1#32

/-- The depth at `num` places from `i`. -/
def putDepth (u4CtDepth : BitVec 32) (i num ctDepth : Nat) : BitVec 32 :=
  let u4Mask := dupLsb11 num
  let u4CtDepth := u4CtDepth &&& ~~~(u4Mask <<< (i * 2))
  if ctDepth ≠ 0 then u4CtDepth ||| (gau4CtDepthMask ctDepth &&& u4Mask) <<< (i * 2) else u4CtDepth

def putSkip (u4SkipCu : BitVec 32) (i num : Nat) (skipFlag : Bool) : BitVec 32 :=
  let u4Mask := lsbOnes num <<< i
  if skipFlag then u4SkipCu ||| u4Mask else u4SkipCu &&& ~~~u4Mask

/-- What the contexts depend on beside the maps: the position of the CTB. -/
structure CuPlace where
  sps : SpsCu
  pos : CtbPos
  isIslice : Bool

def CuPlace.cuPosX (c : CuPlace) (x0 : Nat) : Nat :=
  (x0 - c.pos.i4CtbX <<< c.sps.i1Log2CtbSize) >>> 3

def CuPlace.cuPosY (c : CuPlace) (y0 : Nat) : Nat :=
  (y0 - c.pos.i4CtbY <<< c.sps.i1Log2CtbSize) >>> 3

def CuPlace.topAvailable (c : CuPlace) (y0 : Nat) : Bool :=
  c.cuPosY y0 ≠ 0 ∨ (c.pos.i4CtbSliceY ≠ 0 ∧ c.pos.i4CtbTileY ≠ 0)

def CuPlace.leftAvailable (c : CuPlace) (x0 : Nat) : Bool :=
  c.cuPosX x0 ≠ 0 ∨ ((c.pos.i4CtbSliceX ≠ 0 ∨ c.pos.i4CtbSliceY ≠ 0) ∧ c.pos.i4CtbTileX ≠ 0)

/-- The increment for `split_cu_flag`. -/
def CuPlace.splitInc (c : CuPlace) (m : CuMaps) (x0 y0 ctDepth : Nat) : Nat :=
  (if c.topAvailable y0 = true ∧ ctDepth < depthAt (m.pu4CtDepthTop (x0 / 8 / 16)) (x0 / 8 % 16)
    then 1 else 0) +
  (if c.leftAvailable x0 = true ∧ ctDepth < depthAt m.u4CtDepthLeft (y0 / 8 % 16) then 1 else 0)

/-- The increment for `cu_skip_flag`. -/
def CuPlace.skipInc (c : CuPlace) (m : CuMaps) (x0 y0 : Nat) : Nat :=
  (if c.topAvailable y0 = true ∧ skipAt (m.pu4SkipCuTop (x0 / 8 / 32)) (x0 / 8 % 32) = true
    then 1 else 0) +
  (if c.leftAvailable x0 = true ∧ skipAt m.u4SkipCuLeft (y0 / 8 % 32) = true then 1 else 0)

/-- The update of the depth maps. -/
def CuMaps.setDepth (m : CuMaps) (x0 y0 cbSize ctDepth : Nat) : CuMaps :=
  { m with
    pu4CtDepthTop := set m.pu4CtDepthTop (x0 / 8 / 16)
      (putDepth (m.pu4CtDepthTop (x0 / 8 / 16)) (x0 / 8 % 16) (cbSize / 8) ctDepth)
    u4CtDepthLeft := putDepth m.u4CtDepthLeft (y0 / 8 % 16) (cbSize / 8) ctDepth }

/-- The update of the skip maps. -/
def CuMaps.setSkip (m : CuMaps) (x0 y0 cbSize : Nat) (skipFlag : Bool) : CuMaps :=
  { m with
    pu4SkipCuTop := set m.pu4SkipCuTop (x0 / 8 / 32)
      (putSkip (m.pu4SkipCuTop (x0 / 8 / 32)) (x0 / 8 % 32) (cbSize / 8) skipFlag)
    u4SkipCuLeft := putSkip m.u4SkipCuLeft (y0 / 8 % 32) (cbSize / 8) skipFlag }

/-- `ihevcd_parse_coding_unit` up to the skip flag. -/
def CuPlace.parseCodingUnit (c : CuPlace) (x0 y0 log2CbSize : Nat) (s : CuMaps × FlagStream) :
    CuMaps × FlagStream :=
  let (skipFlag, flags) :=
    if c.isIslice then (false, s.2) else s.2.decode .skip (c.skipInc s.1 x0 y0)
  (s.1.setSkip x0 y0 (2 ^ log2CbSize) skipFlag, flags)

/-- `split_cu_flag`, decoded or inferred. -/
def CuPlace.splitCuFlag (c : CuPlace) (x0 y0 log2CbSize ctDepth : Nat) (s : CuMaps × FlagStream) :
    Bool × FlagStream :=
  if x0 + 2 ^ log2CbSize ≤ c.sps.i2PicWidthInLumaSamples ∧
      y0 + 2 ^ log2CbSize ≤ c.sps.i2PicHeightInLumaSamples ∧
      c.sps.i1Log2MinCodingBlockSize < log2CbSize then
    s.2.decode .split (c.splitInc s.1 x0 y0 ctDepth)
  else (c.sps.i1Log2MinCodingBlockSize < log2CbSize, s.2)

/-- `ihevcd_parse_coding_quadtree` -/
def CuPlace.parseCodingQuadtree (c : CuPlace) :
    (log2CbSize x0 y0 ctDepth : Nat) → CuMaps × FlagStream → CuMaps × FlagStream
  | 0, x0, y0, ctDepth, s =>
    let r := c.splitCuFlag x0 y0 0 ctDepth s
    c.parseCodingUnit x0 y0 0 (s.1.setDepth x0 y0 (2 ^ 0) ctDepth, r.2)
  | log2CbSize + 1, x0, y0, ctDepth, s =>
    let r := c.splitCuFlag x0 y0 (log2CbSize + 1) ctDepth s
    if r.1 then
      let x1 := x0 + 2 ^ log2CbSize
      let y1 := y0 + 2 ^ log2CbSize
      let s := c.parseCodingQuadtree log2CbSize x0 y0 (ctDepth + 1) (s.1, r.2)
      let s :=
        if x1 < c.sps.i2PicWidthInLumaSamples then
          c.parseCodingQuadtree log2CbSize x1 y0 (ctDepth + 1) s
        else s
      let s :=
        if y1 < c.sps.i2PicHeightInLumaSamples then
          c.parseCodingQuadtree log2CbSize x0 y1 (ctDepth + 1) s
        else s
      if x1 < c.sps.i2PicWidthInLumaSamples ∧ y1 < c.sps.i2PicHeightInLumaSamples then
        c.parseCodingQuadtree log2CbSize x1 y1 (ctDepth + 1) s
      else s
    else
      c.parseCodingUnit x0 y0 (log2CbSize + 1)
        (s.1.setDepth x0 y0 (2 ^ (log2CbSize + 1)) ctDepth, r.2)

/-- One CTB of the loop of `ihevcd_parse_slice_data`. -/
def CuPlace.parseCtb (c : CuPlace) (s : CuMaps × FlagStream) : CuMaps × FlagStream :=
  c.parseCodingQuadtree c.sps.i1Log2CtbSize (c.pos.i4CtbX <<< c.sps.i1Log2CtbSize)
    (c.pos.i4CtbY <<< c.sps.i1Log2CtbSize) 0 s

/-- The first `k` CTBs of a picture. -/
def parseCuFlags (place : Nat → CuPlace) (s : CuMaps × FlagStream) : Nat → CuMaps × FlagStream
  | 0 => s
  | k + 1 => (place k).parseCtb (parseCuFlags place s k)

end Libhevc.Decoder

/-!
## The packed maps as maps

Depths and skip flags of the last row and of the last column, read out of the
words that hold them.
-/

namespace Libhevc.Decoder

open Memory

-- ---------------------------------------------------------------------------
-- Words
-- ---------------------------------------------------------------------------

theorem lsbOnes_getLsbD (hx : x ≤ 32) (j : Nat) : (lsbOnes x).getLsbD j = decide (j < x) := by
  have hones : (0xFFFFFFFF#32 : BitVec 32) = BitVec.allOnes 32 := by decide
  rw [lsbOnes, hones, BitVec.getLsbD_ushiftRight, BitVec.getLsbD_allOnes, decide_eq_decide]
  omega

theorem dupLsb11_getLsbD (hx : x ≤ 16) (j : Nat) :
    (dupLsb11 x).getLsbD j = decide (j < 2 * x) := by
  rw [Nat.mul_comm]
  exact lsbOnes_getLsbD (by omega) j

/-- The depth is repeated along the word. -/
theorem gau4CtDepthMask_getLsbD (hd : ctDepth ≤ 3) (hj : j < 16) :
    (gau4CtDepthMask ctDepth).getLsbD (2 * j) = decide (ctDepth % 2 = 1) ∧
      (gau4CtDepthMask ctDepth).getLsbD (2 * j + 1) = decide (2 ≤ ctDepth) := by
  interval_cases ctDepth <;> interval_cases j <;> decide

theorem toNat_testBit (n i : Nat) : (n.testBit i).toNat = n / 2 ^ i % 2 := by
  rw [Nat.testBit_eq_decide_div_mod_eq]
  rcases Nat.mod_two_eq_zero_or_one (n / 2 ^ i) with h | h <;> simp [h]

theorem depthAt_eq (w : BitVec 32) (i : Nat) :
    depthAt w i = (w.getLsbD (i * 2)).toNat + 2 * (w.getLsbD (i * 2 + 1)).toNat := by
  have hand : depthAt w i = (w >>> (i * 2)).toNat % 4 := by
    rw [depthAt, BitVec.toNat_and]
    exact Nat.and_two_pow_sub_one_eq_mod _ 2
  have hlow := toNat_testBit (w >>> (i * 2)).toNat 0
  have hhigh := toNat_testBit (w >>> (i * 2)).toNat 1
  rw [← BitVec.getLsbD, BitVec.getLsbD_ushiftRight] at hlow hhigh
  rw [Nat.add_zero, Nat.pow_zero, Nat.div_one] at hlow
  rw [Nat.pow_one] at hhigh
  omega

theorem skipAt_eq (w : BitVec 32) (i : Nat) : skipAt w i = w.getLsbD i := by
  have hnat := toNat_testBit (w >>> i).toNat 0
  rw [← BitVec.getLsbD, BitVec.getLsbD_ushiftRight, Nat.add_zero, Nat.pow_zero, Nat.div_one]
    at hnat
  have hbit : (w >>> i &&& 1#32 = 1#32) ↔ (w.getLsbD i).toNat = 1 := by
    rw [← BitVec.toNat_inj, BitVec.toNat_and, hnat, ← Nat.and_one_is_mod]
    rfl
  unfold skipAt
  simp only [hbit]
  cases w.getLsbD i <;> rfl

/-- A mask over the places of a range, `size` bits each. -/
theorem shifted_getLsbD {u : BitVec 32} (hu : ∀ b, u.getLsbD b = decide (b < n)) (hb : b < 32)
    (i : Nat) : (u <<< i).getLsbD b = decide (i ≤ b ∧ b < i + n) := by
  rw [BitVec.getLsbD_shiftLeft, hu, decide_eq_true hb, Bool.true_and, ← decide_not,
    ← Bool.decide_and, decide_eq_decide]
  omega

theorem putDepth_getLsbD (hn : num ≤ 16) (hb : b < 32) (w : BitVec 32) (i ctDepth : Nat) :
    (putDepth w i num ctDepth).getLsbD b =
      if i * 2 ≤ b ∧ b < i * 2 + 2 * num then (gau4CtDepthMask ctDepth).getLsbD (b - i * 2)
      else w.getLsbD b := by
  have hmask := shifted_getLsbD (dupLsb11_getLsbD hn) hb (i * 2)
  have hclear : (w &&& ~~~(dupLsb11 num <<< (i * 2))).getLsbD b =
      if i * 2 ≤ b ∧ b < i * 2 + 2 * num then false else w.getLsbD b := by
    rw [BitVec.getLsbD_and, BitVec.getLsbD_not, hmask]
    split_ifs with hin <;> simp [hin, hb]
  unfold putDepth
  dsimp only
  split_ifs with hd hin hin
  · have hlt : ¬b < i * 2 := by omega
    have hlow : b - i * 2 < 2 * num := by omega
    rw [BitVec.getLsbD_or, hclear, if_pos hin, BitVec.getLsbD_shiftLeft, BitVec.getLsbD_and,
      dupLsb11_getLsbD hn]
    simp [hb, hlt, hlow]
  · rw [BitVec.getLsbD_or, hclear, if_neg hin, BitVec.getLsbD_shiftLeft, BitVec.getLsbD_and,
      dupLsb11_getLsbD hn]
    by_cases hlt : b < i * 2
    · simp [hlt]
    · simp [show ¬b - i * 2 < 2 * num by omega]
  · rw [hclear, if_pos hin, not_not.mp hd]
    simp [gau4CtDepthMask]
  · rw [hclear, if_neg hin]

/-- The depth is put at the places of a range and nowhere else. -/
theorem depthAt_putDepth (hi : i + num ≤ 16) (hd : ctDepth ≤ 3) (hj : j < 16) (w : BitVec 32) :
    depthAt (putDepth w i num ctDepth) j =
      if i ≤ j ∧ j < i + num then ctDepth else depthAt w j := by
  rw [depthAt_eq, depthAt_eq, putDepth_getLsbD (by omega) (by omega),
    putDepth_getLsbD (by omega) (by omega)]
  split_ifs with h₁ h₂ h₃ h₂ h₃ h₃ h₃
  · obtain ⟨hlow, hhigh⟩ := gau4CtDepthMask_getLsbD hd (show j - i < 16 by omega)
    rw [show j * 2 - i * 2 = 2 * (j - i) by omega,
      show j * 2 + 1 - i * 2 = 2 * (j - i) + 1 by omega, hlow, hhigh]
    interval_cases ctDepth <;> rfl
  all_goals omega

theorem skipAt_putSkip (hi : i + num ≤ 32) (hj : j < 32) (w : BitVec 32) (skipFlag : Bool) :
    skipAt (putSkip w i num skipFlag) j =
      if i ≤ j ∧ j < i + num then skipFlag else skipAt w j := by
  have hmask := shifted_getLsbD (lsbOnes_getLsbD (show num ≤ 32 by omega)) hj i
  rw [skipAt_eq, skipAt_eq]
  unfold putSkip
  cases skipFlag with
  | false =>
    simp only [Bool.false_eq_true, if_false]
    rw [BitVec.getLsbD_and, BitVec.getLsbD_not, hmask]
    split_ifs with hin <;> simp [hin, hj]
  | true =>
    simp only [if_true]
    rw [BitVec.getLsbD_or, hmask]
    split_ifs with hin <;> simp [hin]

-- ---------------------------------------------------------------------------
-- Maps
-- ---------------------------------------------------------------------------

/-- Depth and skip flag of the last block in the column of a sample. -/
def CuMaps.top (m : CuMaps) (x : Nat) : Nat × Bool :=
  (depthAt (m.pu4CtDepthTop (x / 8 / 16)) (x / 8 % 16),
    skipAt (m.pu4SkipCuTop (x / 8 / 32)) (x / 8 % 32))

/-- Depth and skip flag of the last block in the row of a sample. -/
def CuMaps.left (m : CuMaps) (y : Nat) : Nat × Bool :=
  (depthAt m.u4CtDepthLeft (y / 8 % 16), skipAt m.u4SkipCuLeft (y / 8 % 32))

/-- Both updates for a coding block. -/
def CuMaps.setCu (m : CuMaps) (x0 y0 cbSize ctDepth : Nat) (skipFlag : Bool) : CuMaps :=
  (m.setDepth x0 y0 cbSize ctDepth).setSkip x0 y0 cbSize skipFlag

/-- Where blocks of a size can begin. -/
structure Aligned (cbSize x0 : Nat) : Prop where
  size : cbSize = 8 ∨ cbSize = 16 ∨ cbSize = 32 ∨ cbSize = 64
  dvd : cbSize ∣ x0

/-- A block keeps to one word of either width; its places are those of its samples. -/
theorem Aligned.places (h : Aligned cbSize x0) (x : Nat) :
    (x0 / 8 % 16 + cbSize / 8 ≤ 16 ∧ x0 / 8 % 32 + cbSize / 8 ≤ 32) ∧
      (x / 8 / 16 = x0 / 8 / 16 ∧ x0 / 8 % 16 ≤ x / 8 % 16 ∧
          x / 8 % 16 < x0 / 8 % 16 + cbSize / 8 ↔ x0 ≤ x ∧ x < x0 + cbSize) ∧
      (x / 8 / 32 = x0 / 8 / 32 ∧ x0 / 8 % 32 ≤ x / 8 % 32 ∧
          x / 8 % 32 < x0 / 8 % 32 + cbSize / 8 ↔ x0 ≤ x ∧ x < x0 + cbSize) := by
  obtain ⟨hsize, q, rfl⟩ := h
  rcases hsize with rfl | rfl | rfl | rfl <;> omega

theorem setCu_top (hx : Aligned cbSize x0) (hd : ctDepth ≤ 3) (m : CuMaps) (y0 : Nat)
    (skipFlag : Bool) (x : Nat) :
    (m.setCu x0 y0 cbSize ctDepth skipFlag).top x =
      if x0 ≤ x ∧ x < x0 + cbSize then (ctDepth, skipFlag) else m.top x := by
  obtain ⟨⟨hd16, hs32⟩, hdepth, hskip⟩ := hx.places x
  have hdepth' : depthAt ((m.setCu x0 y0 cbSize ctDepth skipFlag).pu4CtDepthTop (x / 8 / 16))
      (x / 8 % 16) = if x0 ≤ x ∧ x < x0 + cbSize then ctDepth
        else depthAt (m.pu4CtDepthTop (x / 8 / 16)) (x / 8 % 16) := by
    change depthAt (set m.pu4CtDepthTop (x0 / 8 / 16) _ (x / 8 / 16)) _ = _
    by_cases hw : x / 8 / 16 = x0 / 8 / 16
    · rw [hw, set_same, depthAt_putDepth hd16 hd (Nat.mod_lt _ (by decide))]
      simp only [hw, true_and] at hdepth
      simp only [hdepth]
    · rw [set_ne hw, if_neg fun hin => hw (hdepth.mpr hin).1]
  have hskip' : skipAt ((m.setCu x0 y0 cbSize ctDepth skipFlag).pu4SkipCuTop (x / 8 / 32))
      (x / 8 % 32) = if x0 ≤ x ∧ x < x0 + cbSize then skipFlag
        else skipAt (m.pu4SkipCuTop (x / 8 / 32)) (x / 8 % 32) := by
    change skipAt (set m.pu4SkipCuTop (x0 / 8 / 32) _ (x / 8 / 32)) _ = _
    by_cases hw : x / 8 / 32 = x0 / 8 / 32
    · rw [hw, set_same, skipAt_putSkip hs32 (Nat.mod_lt _ (by decide))]
      simp only [hw, true_and] at hskip
      simp only [hskip]
      rfl
    · rw [set_ne hw, if_neg fun hin => hw (hskip.mpr hin).1]
  rw [CuMaps.top, hdepth', hskip']
  split_ifs <;> rfl

/-- The left maps hold two CTBs of 64 rows, or more; within one of them they are exact. -/
theorem setCu_left (hy : Aligned cbSize y0) (hd : ctDepth ≤ 3) (m : CuMaps) (x0 : Nat)
    (skipFlag : Bool) (hctb : y / 64 = y0 / 64) :
    (m.setCu x0 y0 cbSize ctDepth skipFlag).left y =
      if y0 ≤ y ∧ y < y0 + cbSize then (ctDepth, skipFlag) else m.left y := by
  obtain ⟨⟨hd16, hs32⟩, hdepth, hskip⟩ := hy.places y
  have hword : y / 8 / 16 = y0 / 8 / 16 ∧ y / 8 / 32 = y0 / 8 / 32 := by omega
  rw [hword.1, eq_self, true_and] at hdepth
  rw [hword.2, eq_self, true_and] at hskip
  have hdepth' : depthAt (m.setCu x0 y0 cbSize ctDepth skipFlag).u4CtDepthLeft (y / 8 % 16) =
      if y0 ≤ y ∧ y < y0 + cbSize then ctDepth else depthAt m.u4CtDepthLeft (y / 8 % 16) := by
    refine (depthAt_putDepth hd16 hd (Nat.mod_lt _ (by decide)) _).trans ?_
    simp only [hdepth]
  have hskip' : skipAt (m.setCu x0 y0 cbSize ctDepth skipFlag).u4SkipCuLeft (y / 8 % 32) =
      if y0 ≤ y ∧ y < y0 + cbSize then skipFlag else skipAt m.u4SkipCuLeft (y / 8 % 32) := by
    refine (skipAt_putSkip hs32 (Nat.mod_lt _ (by decide)) _ _).trans ?_
    simp only [hskip]
    rfl
  rw [CuMaps.left, hdepth', hskip']
  split_ifs <;> rfl

end Libhevc.Decoder
