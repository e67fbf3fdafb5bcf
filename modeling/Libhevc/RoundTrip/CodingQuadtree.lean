import Libhevc.RoundTrip.CodingUnit

/-!
# Coding quadtrees round trip

The CTBs of a picture, one after the other. Both sides keep the depth and the skip flag of the last
row and of the last column, packed in their own ways; where a context looks at
them they agree.
-/

namespace Libhevc.Encoder.CuSyntax

-- ---------------------------------------------------------------------------
-- The maps of the writer
-- ---------------------------------------------------------------------------

theorem setBits_getLsbD (hj : j < w) (word : BitVec w) (bit : Bool) :
    (setBits word pos num bit).getLsbD j =
      if pos ≤ j ∧ j < pos + num then bit else word.getLsbD j := by
  have hmask : (BitVec.ofNat w (2 ^ num - 1) <<< pos).getLsbD j =
      decide (pos ≤ j ∧ j < pos + num) := by
    rw [BitVec.getLsbD_shiftLeft, BitVec.getLsbD_ofNat, Nat.testBit_two_pow_sub_one,
      decide_eq_true hj, decide_eq_true (show j - pos < w by omega), Bool.true_and, Bool.true_and,
      ← decide_not, ← Bool.decide_and, decide_eq_decide]
    omega
  unfold setBits
  cases bit with
  | false =>
    simp only [Bool.false_eq_true, if_false]
    rw [BitVec.getLsbD_and, BitVec.getLsbD_not, hmask]
    split_ifs with hin <;> simp [hin, hj]
  | true =>
    simp only [if_true]
    rw [BitVec.getLsbD_or, hmask]
    split_ifs with hin <;> simp [hin]

/-- Depth and skip flag of the last block in the column of a sample. -/
def CuContext.top (s : CuContext) (x : Nat) : Nat × Bool :=
  (s.pu1CuDepthTop (x / 8), (s.pu1SkipCuTop (x / 64)).getLsbD (x / 8 % 8))

/-- Depth and skip flag of the last block in the row of a sample; the flags are by rows of the
CTB. -/
def CuContext.left (log2CtbSize : Nat) (s : CuContext) (y : Nat) : Nat × Bool :=
  (s.au1CuDepthLeft (y / 8 % 8), s.u4SkipCuLeft.getLsbD (y % 2 ^ log2CtbSize / 8))

end Libhevc.Encoder.CuSyntax

namespace Libhevc.RoundTrip

open Reader Encoder Decoder Encoder.CuSyntax Decoder.CuSyntax

-- ---------------------------------------------------------------------------
-- Nodes
-- ---------------------------------------------------------------------------

/-- One coordinate of a node, `d` levels below the CTB that is number `ctb`. -/
structure OnGrid (log2Ctb ctb n d x0 : Nat) : Prop where
  depth : n + d = log2Ctb
  place : ∃ a < 2 ^ d, x0 = ctb * 2 ^ log2Ctb + a * 2 ^ n

namespace OnGrid

theorem root (log2Ctb ctb : Nat) : OnGrid log2Ctb ctb log2Ctb 0 (ctb <<< log2Ctb) := by
  refine ⟨rfl, 0, Nat.two_pow_pos 0, ?_⟩
  rw [Nat.shiftLeft_eq, Nat.zero_mul, Nat.add_zero]

theorem low (h : OnGrid log2Ctb ctb (n + 1) d x0) : OnGrid log2Ctb ctb n (d + 1) x0 := by
  obtain ⟨hdepth, a, ha, rfl⟩ := h
  refine ⟨by omega, 2 * a, ?_, ?_⟩
  · rw [Nat.pow_succ]
    omega
  · rw [Nat.pow_succ]
    ring

theorem high (h : OnGrid log2Ctb ctb (n + 1) d x0) : OnGrid log2Ctb ctb n (d + 1) (x0 + 2 ^ n) := by
  obtain ⟨hdepth, a, ha, rfl⟩ := h
  refine ⟨by omega, 2 * a + 1, ?_, ?_⟩
  · rw [Nat.pow_succ]
    omega
  · rw [Nat.pow_succ]
    ring

/-- A node is in its CTB. -/
theorem bounds (h : OnGrid log2Ctb ctb n d x0) :
    ctb * 2 ^ log2Ctb ≤ x0 ∧ x0 + 2 ^ n ≤ ctb * 2 ^ log2Ctb + 2 ^ log2Ctb := by
  obtain ⟨rfl, a, ha, rfl⟩ := h
  have hle : (a + 1) * 2 ^ n ≤ 2 ^ d * 2 ^ n := Nat.mul_le_mul_right _ ha
  rw [Nat.succ_mul, ← pow_add, Nat.add_comm d n] at hle
  omega

theorem div_eq (h : OnGrid log2Ctb ctb n d x0) (hx : x0 ≤ x) (hlt : x < x0 + 2 ^ n) :
    x / 2 ^ log2Ctb = ctb := by
  obtain ⟨hlow, hhigh⟩ := h.bounds
  refine Nat.div_eq_of_lt_le ?_ ?_
  · omega
  · rw [Nat.succ_mul]
    omega

theorem mod_eq (h : OnGrid log2Ctb ctb n d x0) (hx : x0 ≤ x) (hlt : x < x0 + 2 ^ n) :
    x % 2 ^ log2Ctb = x - ctb * 2 ^ log2Ctb := by
  rw [Nat.mod_eq_sub_div_mul, h.div_eq hx hlt]

theorem aligned (h : OnGrid log2Ctb ctb n d x0) (hn : 3 ≤ n) (hctb : log2Ctb ≤ 6) :
    Aligned (2 ^ n) x0 := by
  obtain ⟨rfl, a, ha, rfl⟩ := h
  refine ⟨?_, ?_⟩
  · have hle : n ≤ 6 := by omega
    interval_cases n <;> simp
  · rw [pow_add, Nat.mul_comm (2 ^ n), ← Nat.mul_assoc, ← Nat.add_mul]
    exact Nat.dvd_mul_left _ _

/-- The rows of a CTB are in one stretch of 64. -/
theorem div_sixtyfour (h : OnGrid log2Ctb ctb n d x0) (hctb : log2Ctb ≤ 6)
    (hx : x / 2 ^ log2Ctb = ctb) : x / 64 = x0 / 64 := by
  have hsplit : 2 ^ 6 = 2 ^ log2Ctb * 2 ^ (6 - log2Ctb) := by
    rw [← pow_add, Nat.add_sub_cancel' hctb]
  have hx₀ := h.div_eq (Nat.le_refl _) (Nat.lt_add_of_pos_right (Nat.two_pow_pos _))
  change x / 2 ^ 6 = x0 / 2 ^ 6
  rw [hsplit, ← Nat.div_div_eq_div_mul, ← Nat.div_div_eq_div_mul, hx, hx₀]

/-- Both sides see in the same way whether a node begins where its CTB does. -/
theorem inner_iff (h : OnGrid log2Ctb ctb n d x0) (hn : 3 ≤ n) :
    x0 &&& (1 <<< (n + d) - 1) ≠ 0 ↔ (x0 - ctb <<< log2Ctb) >>> 3 ≠ 0 := by
  have hmod := h.mod_eq (Nat.le_refl x0) (Nat.lt_add_of_pos_right (Nat.two_pow_pos n))
  obtain ⟨rfl, a, ha, rfl⟩ := h
  rw [Nat.one_shiftLeft, Nat.and_two_pow_sub_one_eq_mod, hmod, Nat.shiftLeft_eq,
    Nat.add_sub_cancel_left, Nat.shiftRight_eq_div_pow]
  obtain ⟨k, rfl⟩ := Nat.exists_eq_add_of_le hn
  have hpow : a * 2 ^ (3 + k) = a * 2 ^ k * 2 ^ 3 := by
    rw [pow_add]
    ring
  rw [hpow, Nat.mul_div_cancel _ (Nat.two_pow_pos 3)]
  simp

end OnGrid

-- ---------------------------------------------------------------------------
-- The maps of both sides
-- ---------------------------------------------------------------------------

/-- The skip flag counts in slices that have it. -/
def seen (inter : Bool) (v : Nat × Bool) : Nat × Bool := (v.1, inter && v.2)

/-- Both sides have the same for the column of a sample. -/
def TopSame (p : CuPicture) (s : CuContext) (m : CuMaps) (x : Nat) : Prop :=
  seen p.inter (m.top x) = seen p.inter (s.top x)

/-- Both sides have the same for the row of a sample. -/
def LeftSame (p : CuPicture) (s : CuContext) (m : CuMaps) (y : Nat) : Prop :=
  seen p.inter (m.left y) = seen p.inter (s.left p.sps.i1Log2CtbSize y)

/-- The places of the writer's maps for a block. -/
theorem columns (h : Aligned cbSize x0) (x : Nat) :
    (x0 / 8 ≤ x / 8 ∧ x / 8 < x0 / 8 + cbSize / 8 ↔ x0 ≤ x ∧ x < x0 + cbSize) ∧
      (x / 64 = x0 / 64 ∧ x0 / 8 % 8 ≤ x / 8 % 8 ∧ x / 8 % 8 < x0 / 8 % 8 + cbSize / 8 ↔
        x0 ≤ x ∧ x < x0 + cbSize) := by
  obtain ⟨hsize, q, rfl⟩ := h
  rcases hsize with rfl | rfl | rfl | rfl <;> omega

/-- Rows of a CTB that begins at `base`, by eight. -/
theorem rows_iff (hposY : y0 = base + posY <<< 3) (hhigh : y0 + cbSize ≤ base + ctbSize)
    (hctb : ctbSize ≤ 64) (hdvd : 8 ∣ cbSize) (hpos : 0 < cbSize) (hge : base ≤ y) :
    posY % 8 ≤ (y - base) / 8 ∧ (y - base) / 8 < posY % 8 + cbSize / 8 ↔
      y0 ≤ y ∧ y < y0 + cbSize := by
  rw [Nat.shiftLeft_eq] at hposY
  omega

section
variable {p : CuPicture} {ctbX ctbY : Nat} {b : CuBlock τ}

/-- The maps of the writer behind a coding unit. -/
theorem encodeCu_state (hlegal : p.Legal ctbX ctbY b) (psEncCu : List (CuEncLoop τ)) (d : Nat)
    (s : CuContext) :
    ((p.ctbConfig ctbX ctbY psEncCu).encodeCu b.cu b.log2CbSize b.x0 b.y0 d s).1 =
      { i4CuIdx := s.i4CuIdx + 1
        pu1CuDepthTop := fun i =>
          if b.x0 / 8 ≤ i ∧ i < b.x0 / 8 + 2 ^ b.log2CbSize / 8 then d else s.pu1CuDepthTop i
        au1CuDepthLeft := fun i =>
          if b.y0 / 8 % 8 ≤ i ∧ i < b.y0 / 8 % 8 + 2 ^ b.log2CbSize / 8 then d
          else s.au1CuDepthLeft i
        pu1SkipCuTop :=
          if p.inter then
            Function.update s.pu1SkipCuTop (b.x0 / 64)
              (setBits (s.pu1SkipCuTop (b.x0 / 64)) (b.x0 / 8 % 8) (2 ^ b.log2CbSize / 8)
                b.cu.b1SkipFlag)
          else s.pu1SkipCuTop
        u4SkipCuLeft :=
          if p.inter then
            setBits s.u4SkipCuLeft (b.cu.b3CuPosY % 8) (2 ^ b.log2CbSize / 8) b.cu.b1SkipFlag
          else s.u4SkipCuLeft } := by
  have hand (n : Nat) : n &&& 7 = n % 8 := Nat.and_two_pow_sub_one_eq_mod n 3
  have hposY : (b.cu.b3CuPosY <<< 3) >>> 3 = b.cu.b3CuPosY := by
    rw [Nat.shiftLeft_eq, Nat.shiftRight_eq_div_pow, Nat.mul_div_cancel _ (Nat.two_pow_pos 3)]
  have hposX : b.cu.b3CuPosX <<< 3 + ctbX <<< p.sps.i1Log2CtbSize = b.x0 := by
    rw [hlegal.posX, Nat.add_comm]
  unfold CtbConfig.encodeCu CtbConfig.ihevceCabacEncodeCodingUnit
    CtbConfig.ihevceCabacEncodeSkipFlag
  simp only [CuPicture.ctbConfig, hposX, hposY, hlegal.size, hand, Nat.shiftRight_eq_div_pow]
  cases hinter : p.inter with
  | true =>
    have h : p.hdr.i1SliceType ≠ .islice := of_decide_eq_true hinter
    simp [h]
  | false =>
    have h : ¬ p.hdr.i1SliceType ≠ .islice := of_decide_eq_false hinter
    simp [h]

theorem encodeCu_top (hlegal : p.Legal ctbX ctbY b) (hx : Aligned (2 ^ b.log2CbSize) b.x0)
    (psEncCu : List (CuEncLoop τ)) (d : Nat) (s : CuContext) (x : Nat) :
    seen p.inter (((p.ctbConfig ctbX ctbY psEncCu).encodeCu b.cu b.log2CbSize b.x0 b.y0 d
        s).1.top x) =
      if b.x0 ≤ x ∧ x < b.x0 + 2 ^ b.log2CbSize then (d, p.skipped b.cu)
      else seen p.inter (s.top x) := by
  obtain ⟨hdepth, hskip⟩ := columns hx x
  rw [encodeCu_state hlegal]
  unfold CuContext.top CuPicture.skipped
  simp only [hdepth]
  cases p.inter with
  | false =>
    simp only [Bool.false_eq_true, if_false]
    split_ifs <;> rfl
  | true =>
    simp only [if_true]
    by_cases hword : x / 64 = b.x0 / 64
    · simp only [hword, true_and] at hskip
      rw [hword, Function.update_self, setBits_getLsbD (Nat.mod_lt _ (by decide))]
      simp only [hskip]
      split_ifs <;> rfl
    · have hout : ¬ (b.x0 ≤ x ∧ x < b.x0 + 2 ^ b.log2CbSize) := fun hin => hword (hskip.mpr hin).1
      rw [Function.update_of_ne hword, if_neg hout, if_neg hout]

theorem encodeCu_left (hlegal : p.Legal ctbX ctbY b)
    (hy : OnGrid p.sps.i1Log2CtbSize ctbY b.log2CbSize d b.y0) (hn : 3 ≤ b.log2CbSize)
    (psEncCu : List (CuEncLoop τ)) (s : CuContext) (hrow : y / 2 ^ p.sps.i1Log2CtbSize = ctbY) :
    seen p.inter (((p.ctbConfig ctbX ctbY psEncCu).encodeCu b.cu b.log2CbSize b.x0 b.y0 d
        s).1.left p.sps.i1Log2CtbSize y) =
      if b.y0 ≤ y ∧ y < b.y0 + 2 ^ b.log2CbSize then (d, p.skipped b.cu)
      else seen p.inter (s.left p.sps.i1Log2CtbSize y) := by
  have hlog := p.sps.log2CtbSize_le
  obtain ⟨-, hplaces⟩ := columns (hy.aligned hn hlog) y
  obtain ⟨hlow, hhigh⟩ := hy.bounds
  have hword := hy.div_sixtyfour hlog hrow
  simp only [hword, true_and] at hplaces
  have hmod : y % 2 ^ p.sps.i1Log2CtbSize = y - ctbY * 2 ^ p.sps.i1Log2CtbSize := by
    rw [Nat.mod_eq_sub_div_mul, hrow]
  have hge : ctbY * 2 ^ p.sps.i1Log2CtbSize ≤ y := hrow ▸ Nat.div_mul_le_self _ _
  have hctb : 2 ^ p.sps.i1Log2CtbSize ≤ 64 := Nat.pow_le_pow_right two_pos hlog
  have hlt := Nat.mod_lt y (Nat.two_pow_pos p.sps.i1Log2CtbSize)
  have hrows := rows_iff (Nat.shiftLeft_eq ctbY _ ▸ hlegal.posY) hhigh hctb
    (pow_dvd_pow 2 hn) (Nat.two_pow_pos _) hge
  rw [← hmod] at hrows
  rw [encodeCu_state hlegal]
  unfold CuContext.left CuPicture.skipped
  simp only [hplaces]
  cases p.inter with
  | false =>
    simp only [Bool.false_eq_true, if_false]
    split_ifs <;> rfl
  | true =>
    simp only [if_true]
    rw [setBits_getLsbD (show y % 2 ^ p.sps.i1Log2CtbSize / 8 < 32 by omega)]
    simp only [hrows]
    split_ifs <;> rfl

theorem seen_skipped (p : CuPicture) (cu : CuEncLoop τ) (d : Nat) :
    seen p.inter (d, p.skipped cu) = (d, p.skipped cu) := by
  unfold seen CuPicture.skipped
  cases p.inter <;> rfl

/-- Behind a coding unit both sides have the same where they had, and in its columns. -/
theorem topSame_cu (hlegal : p.Legal ctbX ctbY b) (hx : Aligned (2 ^ b.log2CbSize) b.x0)
    (hd : d ≤ 3) (psEncCu : List (CuEncLoop τ))
    (h : ¬ (b.x0 ≤ x ∧ x < b.x0 + 2 ^ b.log2CbSize) → TopSame p s m x) :
    TopSame p ((p.ctbConfig ctbX ctbY psEncCu).encodeCu b.cu b.log2CbSize b.x0 b.y0 d s).1
      (m.setCu b.x0 b.y0 (2 ^ b.log2CbSize) d (p.skipped b.cu)) x := by
  unfold TopSame
  rw [encodeCu_top hlegal hx, setCu_top hx hd]
  split
  case isTrue => exact seen_skipped p b.cu d
  case isFalse hout => exact h hout

theorem leftSame_cu (hlegal : p.Legal ctbX ctbY b)
    (hy : OnGrid p.sps.i1Log2CtbSize ctbY b.log2CbSize d b.y0) (hn : 3 ≤ b.log2CbSize)
    (hd : d ≤ 3) (psEncCu : List (CuEncLoop τ)) (hrow : y / 2 ^ p.sps.i1Log2CtbSize = ctbY)
    (h : ¬ (b.y0 ≤ y ∧ y < b.y0 + 2 ^ b.log2CbSize) → LeftSame p s m y) :
    LeftSame p ((p.ctbConfig ctbX ctbY psEncCu).encodeCu b.cu b.log2CbSize b.x0 b.y0 d s).1
      (m.setCu b.x0 b.y0 (2 ^ b.log2CbSize) d (p.skipped b.cu)) y := by
  have hlog := p.sps.log2CtbSize_le
  unfold LeftSame
  rw [encodeCu_left hlegal hy hn _ _ hrow,
    setCu_left (hy.aligned hn hlog) hd _ _ _ (hy.div_sixtyfour hlog hrow)]
  split
  case isTrue => exact seen_skipped p b.cu d
  case isFalse hout => exact h hout

-- ---------------------------------------------------------------------------
-- Contexts
-- ---------------------------------------------------------------------------

variable {pos : CtbPos}

theorem topAvailable_eq (hpos : AtRaster pos ctbX ctbY)
    (hy : OnGrid p.sps.i1Log2CtbSize ctbY n d y0) (hn : 3 ≤ n) (psEncCu : List (CuEncLoop τ)) :
    (p.parser pos).topAvailable y0 =
      (p.ctbConfig ctbX ctbY psEncCu).topAvail y0 (1 <<< (n + d)) := by
  have hinner := hy.inner_iff hn
  rw [← hpos.ctbY] at hinner
  unfold CuPlace.topAvailable CtbConfig.topAvail CuPlace.cuPosY
  simp only [CuPicture.parser, CuPicture.ctbConfig, hinner, hpos.sliceY, hpos.tileY]
  split
  case isTrue h => simp [h]
  case isFalse h => simp [h, Nat.pos_iff_ne_zero]

theorem leftAvailable_eq (hpos : AtRaster pos ctbX ctbY)
    (hx : OnGrid p.sps.i1Log2CtbSize ctbX n d x0) (hn : 3 ≤ n) (psEncCu : List (CuEncLoop τ)) :
    (p.parser pos).leftAvailable x0 =
      (p.ctbConfig ctbX ctbY psEncCu).leftAvail x0 (1 <<< (n + d)) := by
  have hinner := hx.inner_iff hn
  rw [← hpos.ctbX] at hinner
  unfold CuPlace.leftAvailable CtbConfig.leftAvail CuPlace.cuPosX
  simp only [CuPicture.parser, CuPicture.ctbConfig, hinner, hpos.sliceX, hpos.sliceY, hpos.tileX]
  split
  case isTrue h => simp [h]
  case isFalse h =>
    simp only [h, false_or, Nat.pos_iff_ne_zero, decide_eq_decide]
    exact ⟨fun hand => hand.2, fun hne => ⟨.inl hne, hne⟩⟩

/-- One neighbour's part of a context. -/
theorem inc_eq {avail avail' skip skip' : Bool} (havail : avail = avail')
    (hsame : avail' = true → skip = skip') :
    (if avail = true ∧ skip = true then 1 else 0) = if avail' = true then skip'.toNat else 0 := by
  subst havail
  cases avail with
  | false => rfl
  | true =>
    rw [hsame rfl]
    cases skip' <;> rfl

theorem skip_eq (hinter : p.inter = true) {v v' : Nat × Bool}
    (h : seen p.inter v = seen p.inter v') : v.2 = v'.2 := by
  rw [hinter] at h
  exact congrArg Prod.snd h

/-- `cu_skip_flag` has the same context on both sides. -/
theorem skipFlag_bins (hlegal : p.Legal ctbX ctbY b) (hpos : AtRaster pos ctbX ctbY)
    (hx : OnGrid p.sps.i1Log2CtbSize ctbX b.log2CbSize d b.x0)
    (hy : OnGrid p.sps.i1Log2CtbSize ctbY b.log2CbSize d b.y0) (hn : 3 ≤ b.log2CbSize)
    (psEncCu : List (CuEncLoop τ)) (hinter : p.inter = true)
    (htop : (p.ctbConfig ctbX ctbY psEncCu).topAvail b.y0 (1 <<< (b.log2CbSize + d)) = true →
      TopSame p s m b.x0)
    (hleft : (p.ctbConfig ctbX ctbY psEncCu).leftAvail b.x0 (1 <<< (b.log2CbSize + d)) = true →
      LeftSame p s m b.y0) :
    ((p.ctbConfig ctbX ctbY psEncCu).ihevceCabacEncodeSkipFlag b.cu
        ((p.ctbConfig ctbX ctbY psEncCu).topAvail b.y0 (1 <<< (b.log2CbSize + d)))
        ((p.ctbConfig ctbX ctbY psEncCu).leftAvail b.x0 (1 <<< (b.log2CbSize + d))) s).2 =
      [(.ctxt (ihevcCabSkipFlag + (p.parser pos).skipInc
        (m.setDepth b.x0 b.y0 (2 ^ b.log2CbSize) d) b.x0 b.y0) b.cu.b1SkipFlag : Bin ρ)] := by
  have hposX : b.cu.b3CuPosX <<< 3 + ctbX <<< p.sps.i1Log2CtbSize = b.x0 := by
    rw [hlegal.posX, Nat.add_comm]
  have hrow : b.y0 % 2 ^ p.sps.i1Log2CtbSize / 8 = ((b.cu.b3CuPosY <<< 3) >>> 3) &&& 7 := by
    have hmod := hy.mod_eq (Nat.le_refl _) (Nat.lt_add_of_pos_right (Nat.two_pow_pos _))
    have hhigh := hy.bounds.2
    have hctb : 2 ^ p.sps.i1Log2CtbSize ≤ 64 :=
      Nat.pow_le_pow_right two_pos p.sps.log2CtbSize_le
    have hsize := Nat.two_pow_pos b.log2CbSize
    have hposY := hlegal.posY
    rw [Nat.shiftLeft_eq, Nat.shiftLeft_eq] at hposY
    rw [hmod, Nat.and_two_pow_sub_one_eq_mod _ 3, Nat.shiftLeft_eq, Nat.shiftRight_eq_div_pow]
    omega
  have hcolumn : (b.x0 >>> 3) &&& 7 = b.x0 / 8 % 8 := by
    rw [Nat.and_two_pow_sub_one_eq_mod _ 3, Nat.shiftRight_eq_div_pow]
  have hinc : (p.parser pos).skipInc (m.setDepth b.x0 b.y0 (2 ^ b.log2CbSize) d) b.x0 b.y0 =
      (if (p.ctbConfig ctbX ctbY psEncCu).topAvail b.y0 (1 <<< (b.log2CbSize + d)) = true then
        (s.top b.x0).2.toNat else 0) +
      if (p.ctbConfig ctbX ctbY psEncCu).leftAvail b.x0 (1 <<< (b.log2CbSize + d)) = true then
        (s.left p.sps.i1Log2CtbSize b.y0).2.toNat else 0 :=
    congrArg₂ (· + ·)
      (inc_eq (topAvailable_eq hpos hy hn psEncCu) fun h => skip_eq hinter (htop h))
      (inc_eq (leftAvailable_eq hpos hx hn psEncCu) fun h => skip_eq hinter (hleft h))
  have hbyte : b.x0 >>> 6 = b.x0 / 64 := Nat.shiftRight_eq_div_pow b.x0 6
  rw [hinc]
  unfold CtbConfig.ihevceCabacEncodeSkipFlag CuContext.top CuContext.left
  simp only [hrow, ← hcolumn, ← hbyte]
  simp only [CuPicture.ctbConfig, hposX]
  rfl

theorem skipInc_le (c : CuPlace) (m : CuMaps) (x0 y0 : Nat) : c.skipInc m x0 y0 ≤ 2 := by
  unfold CuPlace.skipInc
  split_ifs <;> decide

theorem encodeCu_bins (psEncCu : List (CuEncLoop τ)) (d : Nat) (s : CuContext) :
    ((p.ctbConfig ctbX ctbY psEncCu).encodeCu b.cu b.log2CbSize b.x0 b.y0 d s).2 =
      (if p.inter = true then
        ((p.ctbConfig ctbX ctbY psEncCu).ihevceCabacEncodeSkipFlag b.cu
          ((p.ctbConfig ctbX ctbY psEncCu).topAvail b.y0 (1 <<< (b.log2CbSize + d)))
          ((p.ctbConfig ctbX ctbY psEncCu).leftAvail b.x0 (1 <<< (b.log2CbSize + d))) s).2
      else []) ++
      if p.skipped b.cu = true then
        ihevceCabacEncodeInterPu p.hdr b.cu.b1SkipFlag b.cu.b3PartMode b.cu.psPu d
      else (p.ctbConfig ctbX ctbY psEncCu).encodeUnskipped b.cu d := by
  unfold CtbConfig.encodeCu CtbConfig.ihevceCabacEncodeCodingUnit CuPicture.skipped
  cases hinter : p.inter with
  | true =>
    have h : (p.ctbConfig ctbX ctbY psEncCu).hdr.i1SliceType ≠ .islice := of_decide_eq_true hinter
    simp only [if_pos h, if_true]
    rfl
  | false =>
    have h : ¬ (p.ctbConfig ctbX ctbY psEncCu).hdr.i1SliceType ≠ .islice :=
      of_decide_eq_false hinter
    simp only [if_neg h, Bool.false_eq_true, if_false]

/-- A coding unit behind those that both sides have the maps of. -/
theorem codingUnit_reads (hlegal : p.Legal ctbX ctbY b) (hpos : AtRaster pos ctbX ctbY)
    (hx : OnGrid p.sps.i1Log2CtbSize ctbX b.log2CbSize d b.x0)
    (hy : OnGrid p.sps.i1Log2CtbSize ctbY b.log2CbSize d b.y0) (hn : 3 ≤ b.log2CbSize)
    (psEncCu : List (CuEncLoop τ))
    (htop : (p.ctbConfig ctbX ctbY psEncCu).topAvail b.y0 (1 <<< (b.log2CbSize + d)) = true →
      TopSame p s m b.x0)
    (hleft : (p.ctbConfig ctbX ctbY psEncCu).leftAvail b.x0 (1 <<< (b.log2CbSize + d)) = true →
      LeftSame p s m b.y0) :
    Reads ((p.parser pos).ihevcdParseCodingUnit b.x0 b.y0 b.log2CbSize d
        (m.setDepth b.x0 b.y0 (2 ^ b.log2CbSize) d) :
        BinReader (TreePiece τ) (CuMaps × ParsedCu τ))
      (p.bins ((p.ctbConfig ctbX ctbY psEncCu).encodeCu b.cu b.log2CbSize b.x0 b.y0 d s).2)
      (m.setCu b.x0 b.y0 (2 ^ b.log2CbSize) d (p.skipped b.cu), p.decoded b) := by
  -- the flag, where there is one
  have hflag : Reads (if (p.parser pos).isIslice = true then pure false else
        decodeBin (ihevcCabSkipFlag + (p.parser pos).skipInc
          (m.setDepth b.x0 b.y0 (2 ^ b.log2CbSize) d) b.x0 b.y0) :
          BinReader (TreePiece τ) Bool)
      (p.bins (if p.inter = true then
        ((p.ctbConfig ctbX ctbY psEncCu).ihevceCabacEncodeSkipFlag b.cu
          ((p.ctbConfig ctbX ctbY psEncCu).topAvail b.y0 (1 <<< (b.log2CbSize + d)))
          ((p.ctbConfig ctbX ctbY psEncCu).leftAvail b.x0 (1 <<< (b.log2CbSize + d))) s).2
      else [])) (p.skipped b.cu) := by
    cases hinter : p.inter with
    | true =>
      have hislice : ¬ (p.parser pos).isIslice = true := by
        simpa [CuPicture.inter, CuPicture.parser] using hinter
      have hskipped : p.skipped b.cu = b.cu.b1SkipFlag := by
        rw [CuPicture.skipped, hinter, if_pos rfl]
      rw [if_neg hislice, if_pos rfl, hskipped,
        skipFlag_bins hlegal hpos hx hy hn psEncCu hinter htop hleft]
      have hle := skipInc_le (p.parser pos).toCuPlace
        (m.setDepth b.x0 b.y0 (2 ^ b.log2CbSize) d) b.x0 b.y0
      have hctxt : SharedCtxt (ihevcCabSkipFlag + (p.parser pos).skipInc
          (m.setDepth b.x0 b.y0 (2 ^ b.log2CbSize) d) b.x0 b.y0) := by
        simp only [SharedCtxt, ihevcCabSkipFlag, ihevcCabPartMode]
        omega
      unfold CuPicture.bins
      rw [(InCtxts.ctxt hctxt InCtxts.nil).kept]
      exact decodeBin_reads _ _
    | false =>
      have hislice : (p.parser pos).isIslice = true := by
        simpa [CuPicture.inter, CuPicture.parser] using hinter
      have hskipped : p.skipped b.cu = false := by
        rw [CuPicture.skipped, hinter, if_neg Bool.false_ne_true]
      rw [if_pos hislice, if_neg Bool.false_ne_true, hskipped]
      exact Reads.pure false
  unfold CuParser.ihevcdParseCodingUnit
  rw [encodeCu_bins, CuPicture.bins, List.map_append]
  refine hflag.bind ?_
  cases hskip : p.skipped b.cu with
  | true =>
    obtain ⟨hpart, hintra, -⟩ := hlegal.skip hskip
    have hcuFlag : b.cu.b1SkipFlag = true := by
      unfold CuPicture.skipped at hskip
      split at hskip
      case isTrue => exact hskip
      case isFalse => exact Bool.noConfusion hskip
    simp only [if_true]
    rw [(InCtxts.interPu _ _ _ _ _).kept, hcuFlag]
    refine (skippedPus_reads hlegal hpos hskip d).bind_nil (Reads.pure_of_eq ?_)
    simp [CuPicture.decoded, hskip, hintra, hpart, numParts, CuMaps.setCu]
  | false => exact (unskipped_reads hlegal hpos hskip psEncCu d).bind_nil (Reads.pure _)

end

end Libhevc.RoundTrip
