import Libhevc.Decoder.UnpackRefines
import Libhevc.RoundTrip.ResidualScan

/-!
# Residual coding and back

The coefficients of a block, through `ihevce_scan_coeffs`,
`ihevce_cabac_residue_encode` and `ihevcd_parse_residual_coding`.
-/

namespace Libhevc.RoundTrip

open Reader Encoder Decoder

-- ---------------------------------------------------------------------------
-- The block of a scan
-- ---------------------------------------------------------------------------

/-- The map of a sub-block. -/
def scanMap (s : ScanArgs) (i : Nat) : Nat := mapOf (sigAt s i) 16

/-- Its levels, in the order of the scan from the last one. -/
def scanLevels (s : ScanArgs) (i : Nat) : List Int := (sigPositions (scanMap s i)).map (s.quantCoeff i)

/-- What the writer gets for a block, next to what the parser knows of it: the flags of the
sub-blocks are those of their coefficients, the levels have 16 bits, and a hidden sign is that of
the parity. -/
structure CodedBlock (s : ScanArgs) (a : ResidualArgs) (e : ResidueArgs) : Prop where
  plain : PlainArgs a
  same : SameResidual a e
  size : s.transSize = 2 ^ a.log2TrafoSize
  scan : s.scanIdx = a.scanIdx
  csbf : ∀ p < 4 ^ (a.log2TrafoSize - 2), s.csbf p = true ↔
    ∃ y < 4, ∃ x < 4, s.quantCoeffs (y + p / 2 ^ (a.log2TrafoSize - 2) * 4)
      (x + p % 2 ^ (a.log2TrafoSize - 2) * 4) ≠ 0
  word : ∀ row < 2 ^ a.log2TrafoSize, ∀ col < 2 ^ a.log2TrafoSize, IsWord16 (s.quantCoeffs row col)
  nonzero : ∃ row < 2 ^ a.log2TrafoSize, ∃ col < 2 ^ a.log2TrafoSize, s.quantCoeffs row col ≠ 0
  parity : ∀ i < 4 ^ (a.log2TrafoSize - 2),
    signIsHidden a.i1SignDataHidingFlag (sigPositions (scanMap s i)) = true →
      ParityHides (scanLevels s i)

/-- The tables of the writer are those of the parser. -/
theorem transTables : ∀ sc < 3, (∀ i < 4, (scanRow gu1ScanTable2x2 sc).getD i 0 = sblkPos 3 sc i) ∧
    (∀ i < 16, (scanRow gu1ScanTable4x4 sc).getD i 0 = sblkPos 4 sc i) ∧
    ∀ i < 64, (scanRow gu1ScanTable8x8 sc).getD i 0 = sblkPos 5 sc i := by decide +kernel

theorem scan4x4_onto : ∀ sc < 3, ∀ p < 16, ∃ n < 16,
    (scanRow gau1IhevcInvscan4x4 sc).getD n 0 = p := by decide +kernel

section
variable {s : ScanArgs} {a : ResidualArgs} {e : ResidueArgs}

theorem CodedBlock.transTable (h : CodedBlock s a e) (hi : i < 4 ^ (a.log2TrafoSize - 2)) :
    s.transTable.getD i 0 = sblkPos a.log2TrafoSize a.scanIdx i := by
  obtain ⟨h2, h4, h8⟩ := transTables a.scanIdx (scanIdx_lt a)
  have hlow := h.plain.low
  have hhigh := h.plain.high
  unfold ScanArgs.transTable
  rw [h.size, h.scan]
  obtain ⟨k, hk⟩ : ∃ k, a.log2TrafoSize = k := ⟨_, rfl⟩
  rw [hk] at hlow hhigh hi ⊢
  rcases Nat.lt_or_ge k 3 with h3 | h3
  · obtain rfl : k = 2 := by omega
    obtain rfl : i = 0 := Nat.lt_one_iff.mp hi
    rfl
  · rcases Nat.lt_or_ge k 4 with h4' | h4'
    · obtain rfl : k = 3 := by omega
      exact h2 i hi
    · rcases Nat.lt_or_ge k 5 with h5 | h5
      · obtain rfl : k = 4 := by omega
        exact h4 i hi
      · obtain rfl : k = 5 := by omega
        exact h8 i hi

theorem CodedBlock.size_four (h : CodedBlock s a e) :
    s.transSize = 4 * 2 ^ (a.log2TrafoSize - 2) := by
  have hlow := h.plain.low
  rw [h.size, show (4 : Nat) = 2 ^ 2 from rfl, ← pow_add]
  congr 1
  omega

theorem CodedBlock.blkRow (h : CodedBlock s a e) (hi : i < 4 ^ (a.log2TrafoSize - 2)) :
    s.blkRow i = sblkRow a i := by
  have hshift : s.shiftValue = a.log2TrafoSize - 2 := by
    have hrange : ∀ k < 6, getRange (2 ^ k) = k + 1 := by decide
    unfold ScanArgs.shiftValue
    rw [h.size, hrange _ (Nat.lt_succ_of_le h.plain.high)]
    omega
  unfold ScanArgs.blkRow
  rw [h.transTable hi, hshift, Nat.shiftRight_eq_div_pow]
  rfl

theorem CodedBlock.blkCol (h : CodedBlock s a e) (hi : i < 4 ^ (a.log2TrafoSize - 2)) :
    s.blkCol i = sblkCol a i := by
  unfold ScanArgs.blkCol
  rw [h.transTable hi, h.size_four, Nat.mul_div_cancel_left _ (by decide),
    Nat.and_two_pow_sub_one_eq_mod]
  rfl

theorem CodedBlock.xPos (h : CodedBlock s a e) (hi : i < 4 ^ (a.log2TrafoSize - 2)) (n : Nat) :
    s.xPos i n = coeffX a i n := by
  unfold ScanArgs.xPos coeffX
  rw [h.blkCol hi, h.scan]
  rfl

theorem CodedBlock.yPos (h : CodedBlock s a e) (hi : i < 4 ^ (a.log2TrafoSize - 2)) (n : Nat) :
    s.yPos i n = coeffY a i n := by
  unfold ScanArgs.yPos coeffY
  rw [h.blkRow hi, h.scan]
  rfl

theorem CodedBlock.quantCoeff (h : CodedBlock s a e) (hi : i < 4 ^ (a.log2TrafoSize - 2)) (n : Nat) :
    s.quantCoeff i n = s.quantCoeffs (coeffY a i n) (coeffX a i n) := by
  unfold ScanArgs.quantCoeff
  rw [h.yPos hi, h.xPos hi]

theorem CodedBlock.ok (h : CodedBlock s a e) : ScanOk a.log2TrafoSize a.scanIdx :=
  scanOk h.plain.low h.plain.high (scanIdx_lt a)

theorem CodedBlock.four_size (h : CodedBlock s a e) :
    2 ^ a.log2TrafoSize = 4 * 2 ^ (a.log2TrafoSize - 2) := by
  rw [← h.size, h.size_four]

/-- The places of a sub-block are in the block. -/
theorem CodedBlock.place_lt (h : CodedBlock s a e) (hi : i < 4 ^ (a.log2TrafoSize - 2))
    (hn : n < 16) : coeffY a i n < 2 ^ a.log2TrafoSize ∧ coeffX a i n < 2 ^ a.log2TrafoSize := by
  have hrow := sblkRow_lt h.ok hi
  have hcol := sblkCol_lt a i
  have hy := coeffY_shift (a := a) (i := i) hn
  have hx := coeffX_shift (a := a) (i := i) hn
  rw [Nat.shiftRight_eq_div_pow] at hy hx
  rw [h.four_size]
  omega

/-- Every place of the block is one of a sub-block. -/
theorem CodedBlock.place_of (h : CodedBlock s a e) (hrow : row < 2 ^ a.log2TrafoSize)
    (hcol : col < 2 ^ a.log2TrafoSize) :
    ∃ i < 4 ^ (a.log2TrafoSize - 2), ∃ n < 16, coeffY a i n = row ∧ coeffX a i n = col := by
  rw [h.four_size] at hrow hcol
  have hp : row / 4 * 2 ^ (a.log2TrafoSize - 2) + col / 4 < 4 ^ (a.log2TrafoSize - 2) := by
    rw [four_pow]
    calc row / 4 * 2 ^ (a.log2TrafoSize - 2) + col / 4
        < row / 4 * 2 ^ (a.log2TrafoSize - 2) + 2 ^ (a.log2TrafoSize - 2) := by omega
      _ = (row / 4 + 1) * 2 ^ (a.log2TrafoSize - 2) := by rw [Nat.add_mul, Nat.one_mul]
      _ ≤ 2 ^ (a.log2TrafoSize - 2) * 2 ^ (a.log2TrafoSize - 2) :=
        Nat.mul_le_mul_right _ (by omega)
  obtain ⟨i, hi, hpos⟩ := h.ok.onto _ hp
  obtain ⟨n, hn, hinv⟩ := scan4x4_onto a.scanIdx (scanIdx_lt a) (row % 4 * 4 + col % 4) (by omega)
  have hcol4 : col / 4 < 2 ^ (a.log2TrafoSize - 2) := by omega
  refine ⟨i, hi, n, hn, ?_, ?_⟩
  · unfold coeffY sblkRow
    rw [hinv, hpos, Nat.add_comm (row / 4 * _), Nat.add_mul_div_right _ _ (Nat.two_pow_pos _),
      Nat.div_eq_of_lt hcol4, Nat.shiftRight_eq_div_pow]
    omega
  · unfold coeffX sblkCol
    rw [hinv, hpos, Nat.add_comm (row / 4 * _), Nat.add_mul_mod_self_right, Nat.mod_eq_of_lt hcol4,
      show (3 : Nat) = 2 ^ 2 - 1 from rfl, Nat.and_two_pow_sub_one_eq_mod]
    omega

/-- The flag of a sub-block says whether its map is zero. -/
theorem CodedBlock.csbf_map (h : CodedBlock s a e) (hi : i < 4 ^ (a.log2TrafoSize - 2)) :
    s.csbf (sblkPos a.log2TrafoSize a.scanIdx i) = decide (scanMap s i ≠ 0) := by
  refine Bool.eq_iff_iff.mpr ((h.csbf _ (h.ok.lt i hi)).trans ?_)
  rw [decide_eq_true_eq, scanMap, mapOf_ne_zero]
  constructor
  · rintro ⟨y, hy, x, hx, hne⟩
    obtain ⟨n, hn, hinv⟩ := scan4x4_onto a.scanIdx (scanIdx_lt a) (y * 4 + x) (by omega)
    refine ⟨n, hn, decide_eq_true ?_⟩
    have hrow : coeffY a i n = y + sblkRow a i * 4 := by
      unfold coeffY
      rw [hinv, Nat.shiftRight_eq_div_pow]
      omega
    have hcol : coeffX a i n = x + sblkCol a i * 4 := by
      unfold coeffX
      rw [hinv, show (3 : Nat) = 2 ^ 2 - 1 from rfl, Nat.and_two_pow_sub_one_eq_mod]
      omega
    rw [h.quantCoeff hi, hrow, hcol]
    exact hne
  · rintro ⟨n, hn, hsig⟩
    have hne := of_decide_eq_true hsig
    rw [h.quantCoeff hi] at hne
    have hlt := (scan4x4_inv _ (scanIdx_lt a) n hn).1
    refine ⟨(scanRow gau1IhevcInvscan4x4 a.scanIdx).getD n 0 >>> 2, ?_,
      (scanRow gau1IhevcInvscan4x4 a.scanIdx).getD n 0 &&& 3, ?_, hne⟩
    · rw [Nat.shiftRight_eq_div_pow]
      omega
    · rw [show (3 : Nat) = 2 ^ 2 - 1 from rfl, Nat.and_two_pow_sub_one_eq_mod]
      omega

-- ---------------------------------------------------------------------------
-- The last coefficient
-- ---------------------------------------------------------------------------

theorem firstCsb_spec (n : Nat) (h : s.firstCsb n = some u) :
    u < n ∧ s.csbf (s.transTable.getD u 0) = true ∧
      ∀ j < n, u < j → s.csbf (s.transTable.getD j 0) = false := by
  induction n with
  | zero => exact nomatch h
  | succ n ih =>
    unfold ScanArgs.firstCsb at h
    split at h
    · rename_i hset
      obtain rfl := Option.some.inj h
      exact ⟨Nat.lt_succ_self n, hset, fun j hj hlt => absurd hlt (by omega)⟩
    · rename_i hclear
      obtain ⟨hlt, hset, habove⟩ := ih h
      refine ⟨Nat.lt_succ_of_lt hlt, hset, fun j hj huj => ?_⟩
      rcases Nat.eq_or_lt_of_le (Nat.le_of_lt_succ hj) with rfl | hjn
      · exact Bool.eq_false_iff.mpr hclear
      · exact habove j hjn huj

theorem firstCsb_isSome (n : Nat) (hi : i < n) (hset : s.csbf (s.transTable.getD i 0) = true) :
    ∃ u, s.firstCsb n = some u := by
  induction n with
  | zero => exact absurd hi (Nat.not_lt_zero i)
  | succ n ih =>
    unfold ScanArgs.firstCsb
    split
    · exact ⟨n, rfl⟩
    · rename_i hclear
      rcases Nat.eq_or_lt_of_le (Nat.le_of_lt_succ hi) with rfl | hlt
      · exact absurd hset hclear
      · exact ih hlt

theorem firstNonZero_isSome (n : Nat) (hj : j < n) (hsig : sigAt s u j = true) :
    ∃ i, s.firstNonZero u n = some i := by
  induction n with
  | zero => exact absurd hj (Nat.not_lt_zero j)
  | succ n ih =>
    unfold ScanArgs.firstNonZero
    split
    · exact ⟨n, rfl⟩
    · rename_i hzero
      rcases Nat.eq_or_lt_of_le (Nat.le_of_lt_succ hj) with rfl | hlt
      · exact absurd (of_decide_eq_true hsig) hzero
      · exact ih hlt

/-- The block that is scanned, `u` its last coded sub-block. -/
def scanBlk (s : ScanArgs) (k u : Nat) : Blk where
  last := u
  map := scanMap s
  levels := scanLevels s
  csbf y x := decide (y < 2 ^ (k - 2) ∧ x < 2 ^ (k - 2)) && s.csbf (y * 2 ^ (k - 2) + x)

/-- The last coded sub-block in the scan. -/
structure LastSblk (s : ScanArgs) (a : ResidualArgs) (u : Nat) : Prop where
  lt : u < 4 ^ (a.log2TrafoSize - 2)
  map : scanMap s u ≠ 0
  behind : ∀ j < 4 ^ (a.log2TrafoSize - 2), u < j → scanMap s j = 0

theorem CodedBlock.lastSblk (h : CodedBlock s a e) :
    ∃ u, s.firstCsb (s.transSize * s.transSize / 16) = some u ∧ LastSblk s a u := by
  have hnum : s.transSize * s.transSize / 16 = 4 ^ (a.log2TrafoSize - 2) := by
    rw [h.size_four, four_pow, Nat.mul_mul_mul_comm]
    exact Nat.mul_div_cancel_left _ (by decide)
  obtain ⟨row, hrow, col, hcol, hne⟩ := h.nonzero
  obtain ⟨i, hi, n, hn, rfl, rfl⟩ := h.place_of hrow hcol
  have hmap : scanMap s i ≠ 0 := by
    refine mapOf_ne_zero.mpr ⟨n, hn, decide_eq_true ?_⟩
    rw [h.quantCoeff hi]
    exact hne
  have hset : s.csbf (s.transTable.getD i 0) = true := by
    rw [h.transTable hi, h.csbf_map hi]
    exact decide_eq_true hmap
  rw [hnum]
  obtain ⟨u, hu⟩ := firstCsb_isSome _ hi hset
  obtain ⟨hlt, hcsbf, hbehind⟩ := firstCsb_spec _ hu
  rw [h.transTable hlt, h.csbf_map hlt] at hcsbf
  refine ⟨u, hu, hlt, of_decide_eq_true hcsbf, fun j hj huj => ?_⟩
  have hclear := hbehind j hj huj
  rw [h.transTable hj, h.csbf_map hj] at hclear
  exact Decidable.not_not.mp (of_decide_eq_false hclear)

theorem mem_scanPositions (hn : n ∈ sigPositions (scanMap s i)) : n < 16 ∧ s.quantCoeff i n ≠ 0 := by
  obtain ⟨hlt, hbit⟩ := mem_sigBelow.mp hn
  unfold scanMap at hbit
  rw [testBit_mapOf, Bool.and_eq_true] at hbit
  exact ⟨hlt, of_decide_eq_true hbit.2⟩

theorem CodedBlock.sblk_csbf (h : CodedBlock s a e) (u : Nat) (hi : i < 4 ^ (a.log2TrafoSize - 2)) :
    (scanBlk s a.log2TrafoSize u).csbf (sblkRow a i) (sblkCol a i) = decide (scanMap s i ≠ 0) := by
  have hpos : sblkRow a i * 2 ^ (a.log2TrafoSize - 2) + sblkCol a i =
      sblkPos a.log2TrafoSize a.scanIdx i := by
    unfold sblkRow sblkCol
    rw [Nat.mul_comm, Nat.div_add_mod]
  show (decide _ && s.csbf _) = _
  rw [decide_eq_true ⟨sblkRow_lt h.ok hi, sblkCol_lt a i⟩, Bool.true_and, hpos, h.csbf_map hi]

theorem CodedBlock.levelsOf (h : CodedBlock s a e) (hi : i < 4 ^ (a.log2TrafoSize - 2))
    (hne : scanMap s i ≠ 0) :
    LevelsOf (signIsHidden a.i1SignDataHidingFlag (sigPositions (scanMap s i))) (scanMap s i)
      (scanLevels s i) where
  pos := Nat.pos_of_ne_zero hne
  lt := mapOf_lt _ _
  length := List.length_map _
  word lv hlv := by
    obtain ⟨n, hn, rfl⟩ := List.mem_map.mp hlv
    obtain ⟨hlt, hsig⟩ := mem_scanPositions hn
    refine ⟨hsig, ?_⟩
    obtain ⟨hrow, hcol⟩ := h.place_lt hi hlt
    rw [h.quantCoeff hi]
    exact h.word _ hrow _ hcol
  parity := h.parity i hi

theorem CodedBlock.blk (h : CodedBlock s a e) (hu : LastSblk s a u) :
    (scanBlk s a.log2TrafoSize u).Ok a where
  plain := h.plain
  lt := hu.lt
  lastMap := hu.map
  levels i hi hne := h.levelsOf (lt_of_le_of_lt hi hu.lt) hne
  csbf i hi := by
    rw [h.sblk_csbf u hi]
    refine decide_eq_decide.mpr ⟨fun hne => ⟨?_, hne⟩, fun hle => hle.2⟩
    by_contra hlt
    exact hne (hu.behind i hi (Nat.lt_of_not_le hlt))
  outside y x hout := by
    show (decide _ && _) = false
    rw [decide_eq_false hout, Bool.false_and]

-- ---------------------------------------------------------------------------
-- The words
-- ---------------------------------------------------------------------------

/-- The words of a sub-block are its map, two words with the flags, and the levels behind. -/
theorem scan_words (s : ScanArgs) (i : Nat) :
    ∃ gt1 signs, (s.flagsLoop i 16 ScanArgs.noFlags).words =
        [scanMap s i, gt1, signs] ++ remWords 0 (scanLevels s i) ∧
      (sigPositions (scanMap s i)).map gt1.testBit = gt1Flags 0 (scanLevels s i) ∧
      (sigPositions (scanMap s i)).map signs.testBit = (scanLevels s i).map negative := by
  have hflags := flagsLoop_from (s := s) (u := i) 16 (Nat.le_refl 16) ScanArgs.noFlags
    (fun j _ => Nat.zero_testBit j) (fun j _ => Nat.zero_testBit j) (fun j _ => Nat.zero_testBit j)
  have hmap : (s.flagsLoop i 16 ScanArgs.noFlags).sigCoeffAbsGt0Flags = scanMap s i := by
    refine Nat.eq_of_testBit_eq fun j => ?_
    unfold scanMap
    rw [hflags.sig, testBit_mapOf]
    split
    · rename_i hlt
      rw [decide_eq_true hlt, Bool.true_and]
    · rename_i hge
      rw [decide_eq_false hge, Bool.false_and]
      exact Nat.zero_testBit j
  refine ⟨(s.flagsLoop i 16 ScanArgs.noFlags).sigCoeffAbsGt1Flags,
    (s.flagsLoop i 16 ScanArgs.noFlags).signFlags, ?_, hflags.gt1, ?_⟩
  · unfold CsbFlags.words
    rw [hmap, hflags.rem]
    rfl
  · unfold scanLevels
    rw [List.map_map]
    refine List.map_congr_left fun n hn => ?_
    rw [hflags.sign, if_pos (mem_scanPositions hn).1]
    rfl

/-- The marker of a sub-block, from its flag and those on the right and below. -/
theorem marker_flags (csbf first right below : Bool) :
    let flags := 0xBAD0 ||| csbf.toNat
    let flags := if first then flags ||| 1 else flags
    let flags := if right then flags ||| 1 <<< 1 else flags
    let flags := if below then flags ||| 1 <<< 2 else flags
    (flags &&& 0x1 ≠ 0 ↔ (csbf || first) = true) ∧
      flags >>> 1 &&& 0x3 = below.toNat <<< 1 ||| right.toNat := by
  cases csbf <;> cases first <;> cases right <;> cases below <;> decide

theorem CodedBlock.marker (h : CodedBlock s a e) (hu : LastSblk s a u) (hi : i < u) :
    (s.csbf0flags i &&& 0x1 ≠ 0 ↔
        ¬((scanBlk s a.log2TrafoSize u).map i = 0 ∧
          csbfCoded (scanBlk s a.log2TrafoSize u) i = true)) ∧
      s.csbf0flags i >>> 1 &&& 0x3 = nbrCsbf a (scanBlk s a.log2TrafoSize u) i := by
  have hlt : i < 4 ^ (a.log2TrafoSize - 2) := Nat.lt_trans hi hu.lt
  have hrow := sblkRow_lt h.ok hlt
  have hcol := sblkCol_lt a i
  have hsize : s.transSize / 4 = 2 ^ (a.log2TrafoSize - 2) := by
    rw [h.size_four, Nat.mul_div_cancel_left _ (by decide)]
  have hrows : ∀ r, r * s.transSize / 4 = r * 2 ^ (a.log2TrafoSize - 2) := by
    intro r
    rw [h.size_four, Nat.mul_left_comm, Nat.mul_div_cancel_left _ (by decide)]
  have hright : decide (sblkCol a i + 1 < 2 ^ (a.log2TrafoSize - 2) ∧
      s.csbf (sblkRow a i * 2 ^ (a.log2TrafoSize - 2) + sblkCol a i + 1) = true) =
        (scanBlk s a.log2TrafoSize u).csbf (sblkRow a i) (sblkCol a i + 1) := by
    show _ = (decide _ && s.csbf _)
    rw [Bool.decide_and, Bool.decide_and, decide_eq_true hrow, Bool.true_and,
      Bool.decide_eq_true, Nat.add_assoc]
  have hbelow : decide (sblkRow a i + 1 < 2 ^ (a.log2TrafoSize - 2) ∧
      s.csbf ((sblkRow a i + 1) * 2 ^ (a.log2TrafoSize - 2) + sblkCol a i) = true) =
        (scanBlk s a.log2TrafoSize u).csbf (sblkRow a i + 1) (sblkCol a i) := by
    show _ = (decide _ && s.csbf _)
    rw [Bool.decide_and, Bool.decide_and, decide_eq_true hcol, Bool.and_true, Bool.decide_eq_true]
  have hflags := marker_flags (s.csbf (sblkPos a.log2TrafoSize a.scanIdx i)) (decide (i = 0))
    (decide (sblkCol a i + 1 < 2 ^ (a.log2TrafoSize - 2) ∧
      s.csbf (sblkRow a i * 2 ^ (a.log2TrafoSize - 2) + sblkCol a i + 1) = true))
    (decide (sblkRow a i + 1 < 2 ^ (a.log2TrafoSize - 2) ∧
      s.csbf ((sblkRow a i + 1) * 2 ^ (a.log2TrafoSize - 2) + sblkCol a i) = true))
  dsimp only at hflags
  simp only [decide_eq_true_eq] at hflags
  obtain ⟨hcur, hnbr⟩ := hflags
  unfold ScanArgs.csbf0flags
  dsimp only
  rw [h.transTable hlt, h.blkRow hlt, h.blkCol hlt, hsize, hrows, hrows]
  refine ⟨hcur.trans ?_, hnbr.trans ?_⟩
  · rw [h.csbf_map hlt, Bool.or_eq_true, decide_eq_true_eq, decide_eq_true_eq]
    unfold csbfCoded
    rw [decide_eq_true_eq]
    show _ ↔ ¬(scanMap s i = 0 ∧ i < u ∧ 0 < i)
    omega
  · rw [hright, hbelow]
    rfl

/-- Nothing on the right of the last coded sub-block or below it is coded. -/
theorem Blk.Ok.nbr_last {b : Blk} (h : b.Ok a) : nbrCsbf a b b.last = 0 := by
  have hright : b.csbf (sblkRow a b.last) (sblkCol a b.last + 1) = false := by
    by_cases hcol : sblkCol a b.last + 1 < 2 ^ (a.log2TrafoSize - 2)
    · obtain ⟨j, hj, hlt, hr, hc⟩ := sblk_right h.scan h.lt hcol
      rw [← hr, ← hc, h.csbf j hj]
      exact decide_eq_false fun hle => absurd hle.1 (Nat.not_le.mpr hlt)
    · exact h.outside _ _ fun hin => hcol hin.2
  have hbelow : b.csbf (sblkRow a b.last + 1) (sblkCol a b.last) = false := by
    by_cases hrow : sblkRow a b.last + 1 < 2 ^ (a.log2TrafoSize - 2)
    · obtain ⟨j, hj, hlt, hr, hc⟩ := sblk_below h.scan h.lt hrow
      rw [← hr, ← hc, h.csbf j hj]
      exact decide_eq_false fun hle => absurd hle.1 (Nat.not_le.mpr hlt)
    · exact h.outside _ _ fun hin => hrow hin.1
  unfold nbrCsbf
  rw [hright, hbelow]
  rfl

-- ---------------------------------------------------------------------------
-- The bins
-- ---------------------------------------------------------------------------

theorem CodedBlock.encodeCsb (h : CodedBlock s a e) (hu : LastSblk s a u) (hi : i ≤ u)
    (marker : Nat)
    (hcur : marker &&& 0x1 ≠ 0 ↔ ¬((scanBlk s a.log2TrafoSize u).map i = 0 ∧
      csbfCoded (scanBlk s a.log2TrafoSize u) i = true))
    (hnbr : marker >>> 1 &&& 0x3 = nbrCsbf a (scanBlk s a.log2TrafoSize u) i)
    (rest : List Nat) (gt1Ctxt : Nat) :
    ∃ st', (e.encodeCsb a.scanIdx i u
          { buf := marker :: ((if marker &&& 0x1 ≠ 0 then
              (s.flagsLoop i 16 ScanArgs.noFlags).words else []) ++ rest)
            gt1Ctxt := gt1Ctxt
            sigCoeffBaseCtxt := a.sigCoeffBaseCtxt } : List (Bin ρ) × _) =
        (sblkBins a (scanBlk s a.log2TrafoSize u) i gt1Ctxt, st') ∧
      (0 < i → st' = ⟨rest, gt1Next (scanBlk s a.log2TrafoSize u) i gt1Ctxt, a.sigCoeffBaseCtxt⟩) := by
  obtain ⟨gt1, signs, hwords, hgt1, hsigns⟩ := scan_words s i
  rw [hwords]
  exact encodeCsb_eq (h.blk hu) h.same hi (List.length_map _) ⟨hcur, hnbr, hgt1, hsigns⟩ rest gt1Ctxt

/-- The sub-blocks before the last coded one. -/
theorem CodedBlock.encodeCsbs (h : CodedBlock s a e) (hu : LastSblk s a u) : ∀ n ≤ u, ∀ gt1Ctxt,
    (e.encodeCsbs a.scanIdx u n ⟨s.csbWords n, gt1Ctxt, a.sigCoeffBaseCtxt⟩ : List (Bin ρ)) =
      sblksBins a (scanBlk s a.log2TrafoSize u) n gt1Ctxt := by
  intro n
  induction n with
  | zero => exact fun _ _ => rfl
  | succ n ih =>
    intro hn gt1Ctxt
    obtain ⟨hcur, hnbr⟩ := h.marker hu hn
    obtain ⟨st', hbins, hst⟩ := h.encodeCsb (ρ := ρ) hu (Nat.le_of_lt hn) _ hcur hnbr (s.csbWords n) gt1Ctxt
    rw [ResidueArgs.encodeCsbs, ScanArgs.csbWords, hbins, sblksBins]
    dsimp only
    cases n with
    | zero => rfl
    | succ n => rw [hst (Nat.succ_pos n), ih (Nat.le_of_succ_le hn)]

/-- The coordinates of the last coefficient, swapped for the vertical scan, then the sub-blocks. -/
def lastBins (s : ScanArgs) (a : ResidualArgs) (e : ResidueArgs) (u : Nat) : List (Bin ρ) :=
  let n := Nat.log2 (scanMap s u)
  let x := if a.scanIdx = scanVert then coeffY a u n else coeffX a u n
  let y := if a.scanIdx = scanVert then coeffX a u n else coeffY a u n
  e.ihevceCabacEncodeLastCoeffXY x y

theorem CodedBlock.bins (h : CodedBlock s a e)
    (hfirst : s.firstCsb (s.transSize * s.transSize / 16) = some u) (hu : LastSblk s a u) :
    ∃ buf, ihevceScanCoeffs s = some buf ∧
      (ihevceCabacResidueEncode e buf : List (Bin ρ)) = lastBins s a e u ++
        sblksBins a (scanBlk s a.log2TrafoSize u) (u + 1) 1 := by
  obtain ⟨j, hj, hsig⟩ := mapOf_ne_zero.mp hu.map
  obtain ⟨n, hn⟩ := firstNonZero_isSome 16 hj hsig
  have hlog : n = Nat.log2 (scanMap s u) :=
    firstNonZero_log2 16 (Nat.le_refl 16) hn fun j hj hge => absurd hj (Nat.not_lt.mpr hge)
  refine ⟨_, by unfold ihevceScanCoeffs; rw [hfirst, Option.bind_eq_bind, Option.bind_some, hn]; rfl, ?_⟩
  obtain ⟨st', hbins, hst⟩ := h.encodeCsb (ρ := ρ) hu (Nat.le_refl u) (0xBAD0 ||| 1)
    ⟨fun _ hz => hu.map hz.1, fun _ => by decide⟩
    ((show (0xBAD0 ||| 1) >>> 1 &&& 0x3 = 0 by decide).trans (h.blk hu).nbr_last.symm)
    (s.csbWords u) 1
  rw [if_pos (by decide)] at hbins
  unfold ihevceCabacResidueEncode lastBins
  dsimp only
  rw [h.scan, firstNonZero_flags 16 _ hn, h.xPos hu.lt, h.yPos hu.lt, hlog, ResidueArgs.encodeCsbs,
    sigCoeffBaseCtxt_same h.same, hbins, sblksBins]
  dsimp only
  congr 2
  cases u with
  | zero => rfl
  | succ u => rw [hst (Nat.succ_pos u), h.encodeCsbs hu _ (Nat.le_refl _)]

-- ---------------------------------------------------------------------------
-- Back
-- ---------------------------------------------------------------------------

/-- What the parser writes. -/
def scanData (s : ScanArgs) (a : ResidualArgs) (u : Nat) : TuCoeffData where
  scanIdx := a.scanIdx
  transformSkipFlag := false
  explicitRdpcmFlag := false
  explicitRdpcmDir := false
  sblks := sblksData a (scanBlk s a.log2TrafoSize u) (u + 1)

theorem CodedBlock.parsed (h : CodedBlock s a e) (hu : LastSblk s a u) (stats : Nat → Nat) :
    Reads (ihevcdParseResidualCodingBins a stats : BinReader ρ _)
      (lastBins s a e u ++ sblksBins a (scanBlk s a.log2TrafoSize u) (u + 1) 1)
      (scanData s a u, stats) := by
  have hok := h.blk hu
  have hlog : Nat.log2 (scanMap s u) < 16 := (Nat.log2_lt hu.map).mpr (mapOf_lt _ _)
  obtain ⟨hrow, hcol⟩ := h.place_lt hu.lt hlog
  have hskip : a.parseTransformSkipFlag = (pure false : BinReader ρ Bool) := by
    unfold ResidualArgs.parseTransformSkipFlag
    rw [if_neg (by rw [h.plain.noSkip]; exact fun hc => Bool.false_ne_true hc.1)]
  have hrdpcm : a.parseExplicitRdpcm false = (pure (false, false) : BinReader ρ _) := by
    unfold ResidualArgs.parseExplicitRdpcm
    rw [if_neg]
    rintro ⟨-, -, hb | hb⟩
    · exact Bool.false_ne_true hb
    · rw [h.plain.noBypass] at hb
      exact Bool.false_ne_true hb
  obtain ⟨st', hsblks, hdata, hstats⟩ := parseSblks_reads (ρ := ρ) hok (u + 1) (Nat.le_refl _) 1 []
    _ (hok.start stats)
  unfold ihevcdParseResidualCodingBins lastBins
  rw [hskip]
  refine Reads.nil_bind (Reads.pure false) ?_
  rw [hrdpcm]
  refine Reads.nil_bind (Reads.pure (false, false)) ?_
  refine (parseLast_reads h.plain h.same ?_ ?_).bind ?_
  · split
    · exact hrow
    · exact hcol
  · split
    · exact hcol
    · exact hrow
  · have hx : ∀ x y : Nat, (if a.scanIdx = scanVert then (if a.scanIdx = scanVert then x else y)
        else if a.scanIdx = scanVert then y else x) = x := by
      intro x y
      split <;> rfl
    dsimp only
    rw [hx, hx, lastSubBlk_of h.plain.low h.plain.high hu.lt hlog, lastScanPos_of hlog]
    refine hsblks.bind_nil (Reads.pure_of_eq ?_)
    rw [hdata, hstats]
    rfl

theorem mem_sblksData {b : Blk} (n : Nat) (d : TuSblkCoeffData) :
    d ∈ sblksData a b n ↔
      ∃ i < n, b.map i ≠ 0 ∧ d = ⟨sblkCol a i, sblkRow a i, b.map i, b.levels i⟩ := by
  induction n with
  | zero => simp [sblksData]
  | succ n ih =>
    rw [sblksData, List.mem_append, ih]
    unfold sblkData
    constructor
    · rintro (hd | ⟨i, hi, hmap, heq⟩)
      · split at hd
        · exact nomatch hd
        · rename_i hmap
          exact ⟨n, Nat.lt_succ_self n, hmap, List.mem_singleton.mp hd⟩
      · exact ⟨i, Nat.lt_succ_of_lt hi, hmap, heq⟩
    · rintro ⟨i, hi, hmap, heq⟩
      rcases Nat.eq_or_lt_of_le (Nat.le_of_lt_succ hi) with rfl | hlt
      · rw [if_neg hmap]
        exact Or.inl (List.mem_singleton.mpr heq)
      · exact Or.inr ⟨i, hlt, hmap, heq⟩

theorem CodedBlock.sblks_nodup (h : CodedBlock s a e) (b : Blk) : ∀ n ≤ 4 ^ (a.log2TrafoSize - 2),
    ((sblksData a b n).map fun d => (d.xs, d.ys)).Nodup := by
  intro n
  induction n with
  | zero => exact fun _ => List.nodup_nil
  | succ n ih =>
    intro hn
    rw [sblksData]
    unfold sblkData
    split
    · exact ih (Nat.le_of_succ_le hn)
    · rw [List.map_append, List.map_singleton, List.singleton_append, List.nodup_cons]
      refine ⟨fun hmem => ?_, ih (Nat.le_of_succ_le hn)⟩
      obtain ⟨d, hd, heq⟩ := List.mem_map.mp hmem
      obtain ⟨i, hi, -, rfl⟩ := (mem_sblksData n d).mp hd
      obtain ⟨hcol, hrow⟩ := Prod.mk.injEq .. ▸ heq
      exact Nat.ne_of_lt hi (sblk_inj h.ok (Nat.lt_of_lt_of_le hi (Nat.le_of_succ_le hn))
        (Nat.lt_of_succ_le hn) hrow hcol)

theorem CodedBlock.data_ok (h : CodedBlock s a e) (hu : LastSblk s a u) :
    (scanData s a u).Ok a.log2TrafoSize where
  scan := scanIdx_lt a
  sblks d hd := by
    obtain ⟨i, hi, hmap, rfl⟩ := (mem_sblksData _ d).mp hd
    have hlt : i < 4 ^ (a.log2TrafoSize - 2) := lt_of_le_of_lt (Nat.le_of_lt_succ hi) hu.lt
    have hlevels := h.levelsOf hlt hmap
    exact ⟨sblkCol_lt a i, sblkRow_lt h.ok hlt, hlevels.pos, hlevels.lt, hlevels.length,
      fun lv hlv => (hlevels.word lv hlv).2⟩
  nodup := h.sblks_nodup _ _ (Nat.succ_le_of_lt hu.lt)

/-- The entries of a sub-block. -/
theorem entries_sblk (s : ScanArgs) (a : ResidualArgs) (i : Nat) :
    TuSblkCoeffData.entries a.scanIdx
        ⟨sblkCol a i, sblkRow a i, scanMap s i, scanLevels s i⟩ =
      (sigPositions (scanMap s i)).map fun n =>
        ⟨coeffY a i n, coeffX a i n, s.quantCoeff i n⟩ := by
  have hzip : (sigPositions (scanMap s i)).zip (scanLevels s i) =
      (sigPositions (scanMap s i)).map fun n => (n, s.quantCoeff i n) := by
    have hmap := List.zip_map' (f := id) (g := s.quantCoeff i) (l := sigPositions (scanMap s i))
    rwa [List.map_id] at hmap
  have htable : gau1IhevcInvscan4x4At a.scanIdx = scanRow gau1IhevcInvscan4x4 a.scanIdx := rfl
  unfold TuSblkCoeffData.entries
  rw [hzip, List.map_map]
  refine List.map_congr_left fun n _ => ?_
  unfold TuSblkCoeffData.entry coeffY coeffX
  rw [Function.comp_apply, htable, show (3 : Nat) = 2 ^ 2 - 1 from rfl,
    Nat.and_two_pow_sub_one_eq_mod, Nat.shiftRight_eq_div_pow, Nat.mul_comm (sblkRow a i),
    Nat.mul_comm (sblkCol a i), Nat.add_comm _ (4 * sblkRow a i), Nat.add_comm _ (4 * sblkCol a i)]

/-- The entries are the coefficients that are not zero. -/
theorem CodedBlock.mem_entries (h : CodedBlock s a e) (hu : LastSblk s a u) (c : CoeffEntry) :
    c ∈ (scanData s a u).entries ↔ c.row < 2 ^ a.log2TrafoSize ∧ c.col < 2 ^ a.log2TrafoSize ∧
      c.level = s.quantCoeffs c.row c.col ∧ c.level ≠ 0 := by
  unfold TuCoeffData.entries
  rw [List.mem_flatMap]
  constructor
  · rintro ⟨d, hd, hc⟩
    obtain ⟨i, hi, -, rfl⟩ := (mem_sblksData _ d).mp hd
    have hlt : i < 4 ^ (a.log2TrafoSize - 2) := lt_of_le_of_lt (Nat.le_of_lt_succ hi) hu.lt
    have hc' : c ∈ TuSblkCoeffData.entries a.scanIdx
      ⟨sblkCol a i, sblkRow a i, scanMap s i, scanLevels s i⟩ := hc
    rw [entries_sblk] at hc'
    obtain ⟨n, hn, rfl⟩ := List.mem_map.mp hc'
    obtain ⟨hn16, hne⟩ := mem_scanPositions hn
    obtain ⟨hrow, hcol⟩ := h.place_lt hlt hn16
    exact ⟨hrow, hcol, h.quantCoeff hlt n, hne⟩
  · rintro ⟨hrow, hcol, hlevel, hne⟩
    obtain ⟨i, hi, n, hn, hy, hx⟩ := h.place_of hrow hcol
    have hquant : s.quantCoeff i n = c.level := by
      rw [h.quantCoeff hi, hy, hx, hlevel]
    have hsig : sigAt s i n = true := decide_eq_true (by rw [hquant]; exact hne)
    have hmap : scanMap s i ≠ 0 := mapOf_ne_zero.mpr ⟨n, hn, hsig⟩
    have hle : i < u + 1 := by
      by_contra hgt
      exact hmap (hu.behind i hi (by omega))
    refine ⟨_, (mem_sblksData _ _).mpr ⟨i, hle, hmap, rfl⟩, ?_⟩
    show c ∈ TuSblkCoeffData.entries a.scanIdx
      ⟨sblkCol a i, sblkRow a i, scanMap s i, scanLevels s i⟩
    rw [entries_sblk]
    refine List.mem_map.mpr ⟨n, ?_, ?_⟩
    · refine mem_sigBelow.mpr ⟨hn, ?_⟩
      unfold scanMap
      rw [testBit_mapOf, decide_eq_true hn, hsig]
      rfl
    · rw [hy, hx, hquant]

/-- The parser gets from the bins of the writer the coefficients of the block, each in its place
and nothing else, and leaves the statistics as they were. -/
theorem residual_readBack (h : CodedBlock s a e) (stats : Nat → Nat) :
    ∃ buf t, ihevceScanCoeffs s = some buf ∧
      Reads (ihevcdParseResidualCodingBins a stats : BinReader ρ _) (ihevceCabacResidueEncode e buf)
        (t, stats) ∧
      t.Ok a.log2TrafoSize ∧
      ∀ c : CoeffEntry, c ∈ t.entries ↔ c.row < 2 ^ a.log2TrafoSize ∧ c.col < 2 ^ a.log2TrafoSize ∧
        c.level = s.quantCoeffs c.row c.col ∧ c.level ≠ 0 := by
  obtain ⟨u, hfirst, hu⟩ := h.lastSblk
  obtain ⟨buf, hbuf, hbins⟩ := h.bins (ρ := ρ) hfirst hu
  refine ⟨buf, scanData s a u, hbuf, ?_, h.data_ok hu, h.mem_entries hu⟩
  rw [hbins]
  exact h.parsed hu stats

-- ---------------------------------------------------------------------------
-- To the scaled block
-- ---------------------------------------------------------------------------

/-- The block in front of the inverse transform: the coefficients scaled in their places, or the
one of a block that has no other, with the masks of the zero columns and rows. -/
structure ScaledBlock (q : UnpackArgs) (coeffs : Nat → Nat → Int) (out : UnpackSt) : Prop where
  block : out.u4CoeffType = 0 → ∀ row < q.transSize, ∀ col < q.transSize,
    out.pi2TuCoeff row col =
      if coeffs row col = 0 then 0 else q.value false row col (coeffs row col)
  dc : out.u4CoeffType ≠ 0 → out.i2CoeffValue = q.value false 0 0 (coeffs 0 0) ∧
    ∀ row < q.transSize, ∀ col < q.transSize, coeffs row col ≠ 0 → row = 0 ∧ col = 0
  cols : ∀ n < q.transSize, out.u4ZeroCols.testBit n = true ↔
    ∀ row < q.transSize, coeffs row n = 0
  rows : ∀ n < q.transSize, out.u4ZeroRows.testBit n = true ↔
    ∀ col < q.transSize, coeffs n col = 0

section
variable {q : UnpackArgs} {coeffs : Nat → Nat → Int} {t : TuCoeffData}
  (hentries : ∀ c : CoeffEntry, c ∈ t.entries ↔ c.row < q.transSize ∧ c.col < q.transSize ∧
    c.level = coeffs c.row c.col ∧ c.level ≠ 0)

include hentries

theorem scaled_of_unpacked (hskip : t.transformSkipFlag = false)
    {out : Nat × UnpackSt} (h : Unpacked q t p out) :
    ∀ row < q.transSize, ∀ col < q.transSize, out.2.pi2TuCoeff row col =
      if coeffs row col = 0 then 0 else q.value false row col (coeffs row col) := by
  intro row hrow col hcol
  by_cases hzero : coeffs row col = 0
  · rw [if_pos hzero]
    refine h.zero row hrow col hcol fun c hc hplace => ?_
    obtain ⟨-, -, hlevel, hne⟩ := (hentries c).mp hc
    rw [hplace.1, hplace.2, hzero] at hlevel
    exact hne hlevel
  · rw [if_neg hzero]
    have hc := (hentries ⟨row, col, coeffs row col⟩).mpr ⟨hrow, hcol, rfl, hzero⟩
    have hvalue := h.levels _ hc
    rwa [hskip] at hvalue

theorem zeroCols_of_unpacked (hsize : q.transSize ≤ 32) {out : Nat × UnpackSt}
    (h : Unpacked q t p out) (hn : n < q.transSize) :
    out.2.u4ZeroCols.testBit n = true ↔ ∀ row < q.transSize, coeffs row n = 0 := by
  rw [h.cols n (lt_of_lt_of_le hn hsize)]
  constructor
  · intro hnone row hrow
    by_contra hne
    exact hnone ⟨row, n, coeffs row n⟩ ((hentries _).mpr ⟨hrow, hn, rfl, hne⟩) rfl
  · intro hzero c hc hcol
    obtain ⟨hrow, -, hlevel, hne⟩ := (hentries c).mp hc
    rw [hcol, hzero c.row hrow] at hlevel
    exact hne hlevel

theorem zeroRows_of_unpacked (hsize : q.transSize ≤ 32) {out : Nat × UnpackSt}
    (h : Unpacked q t p out) (hn : n < q.transSize) :
    out.2.u4ZeroRows.testBit n = true ↔ ∀ col < q.transSize, coeffs n col = 0 := by
  rw [h.rows n (lt_of_lt_of_le hn hsize)]
  constructor
  · intro hnone col hcol
    by_contra hne
    exact hnone ⟨n, col, coeffs n col⟩ ((hentries _).mpr ⟨hn, hcol, rfl, hne⟩) rfl
  · intro hzero c hc hrow
    obtain ⟨-, hcol, hlevel, hne⟩ := (hentries c).mp hc
    rw [hrow, hzero c.col hcol] at hlevel
    exact hne hlevel

/-- A block with one level of its own is its first coefficient. -/
theorem dcOnly_entries (hdc : t.DcOnly q) (hscan : t.scanIdx < 3) :
    coeffs 0 0 ≠ 0 ∧ ∀ row < q.transSize, ∀ col < q.transSize, coeffs row col ≠ 0 →
      row = 0 ∧ col = 0 := by
  obtain ⟨-, lv, hone⟩ := hdc
  have hmem : t.entries = [⟨0, 0, lv⟩] := by
    unfold TuCoeffData.entries
    rw [hone]
    have hfirst : ∀ sc < 3, (gau1IhevcInvscan4x4At sc).getD 0 0 = 0 := by decide
    have hpos : sigPositions 1 = [0] := by decide
    rw [List.flatMap_singleton]
    unfold TuSblkCoeffData.entries
    rw [hpos, List.zip_cons_cons, List.zip_nil_left, List.map_singleton]
    unfold TuSblkCoeffData.entry
    rw [hfirst _ hscan]
    rfl
  constructor
  · have hc : (⟨0, 0, lv⟩ : CoeffEntry) ∈ t.entries := by rw [hmem]; exact List.mem_singleton_self _
    obtain ⟨-, -, hlevel, hne⟩ := (hentries _).mp hc
    exact hlevel ▸ hne
  · intro row hrow col hcol hne
    have hc := (hentries ⟨row, col, coeffs row col⟩).mpr ⟨hrow, hcol, rfl, hne⟩
    rw [hmem, List.mem_singleton, CoeffEntry.mk.injEq] at hc
    exact ⟨hc.1, hc.2.1⟩

end

/-- What is unpacked from the buffer of the parser is the block of the writer, scaled. -/
theorem residual_scaled (h : CodedBlock s a e) (stats : Nat → Nat) {q : UnpackArgs} (hq : q.Ok)
    (hlog : q.log2TransSize = a.log2TrafoSize) :
    ∃ buf t, ihevceScanCoeffs s = some buf ∧
      Reads (ihevcdParseResidualCodingBins a stats : BinReader ρ _) (ihevceCabacResidueEncode e buf)
        (t, stats) ∧
      ∀ mem p st, Memory.Holds mem p t.bytes → ∃ out, ihevcdUnpackCoeffs q mem p st = some out ∧
        out.1 = p + t.bytes.length ∧ ScaledBlock q s.quantCoeffs out.2 := by
  obtain ⟨u, hfirst, hu⟩ := h.lastSblk
  obtain ⟨buf, hbuf, hbins⟩ := h.bins (ρ := ρ) hfirst hu
  have hsize : q.transSize = 2 ^ a.log2TrafoSize := by
    unfold UnpackArgs.transSize
    rw [Nat.one_shiftLeft, hlog]
  have hsize32 : q.transSize ≤ 32 := by
    rw [hsize]
    exact Nat.pow_le_pow_right Nat.two_pos h.plain.high
  have hentries := h.mem_entries hu
  rw [← hsize] at hentries
  have hok := h.data_ok hu
  rw [← hlog] at hok
  refine ⟨buf, scanData s a u, hbuf, ?_, fun mem p st hmem => ?_⟩
  · rw [hbins]
    exact h.parsed hu stats
  · obtain ⟨gen, hgen, hun⟩ := general_unpacked hq hok hmem st
    have hblock := scaled_of_unpacked hentries rfl hun
    unfold ihevcdUnpackCoeffs
    by_cases hdc : (scanData s a u).DcOnly q
    · rw [if_pos ((dcTest_iff hq hok hmem).mpr hdc)]
      have hrep := dcOnly_reported hq hok hmem hdc st hgen
      obtain ⟨hfirst, hothers⟩ := dcOnly_entries hentries hdc hok.scan
      refine ⟨_, rfl, hrep.ptr.trans hun.ptr, ⟨fun hzero => ?_, fun _ => ⟨?_, hothers⟩,
        fun n hn => ?_, fun n hn => ?_⟩⟩
      · rw [hrep.coeffType] at hzero
        exact absurd hzero (by decide)
      · have hpos : 0 < q.transSize := by
          rw [hsize]
          exact Nat.two_pow_pos _
        rw [hrep.value, hblock 0 hpos 0 hpos, if_neg hfirst]
      · rw [hrep.cols]
        exact zeroCols_of_unpacked hentries hsize32 hun hn
      · rw [hrep.rows]
        exact zeroRows_of_unpacked hentries hsize32 hun hn
    · rw [if_neg fun hd => hdc ((dcTest_iff hq hok hmem).mp hd)]
      exact ⟨gen, hgen, hun.ptr, fun _ => hblock, fun hne => absurd hun.coeffType hne,
        fun n hn => zeroCols_of_unpacked hentries hsize32 hun hn,
        fun n hn => zeroRows_of_unpacked hentries hsize32 hun hn⟩

end

-- ---------------------------------------------------------------------------
-- An 8x8 block with a hidden sign
-- ---------------------------------------------------------------------------

/-- 3 and 1 in the first sub-block, with the sign of the 3 hidden, and -2 in the last one. -/
def signedCoeffs (row col : Nat) : Int :=
  if row = 0 ∧ col = 0 then 3 else if row = 0 ∧ col = 2 then 1 else if row = 6 ∧ col = 5 then -2
  else 0

def signedScan : ScanArgs where
  transSize := 8
  scanIdx := scanDiagUpright
  quantCoeffs := signedCoeffs
  csbf p := decide (p = 0 ∨ p = 3)

def lumaInter : ResidualArgs where
  log2TrafoSize := 3
  cIdx := 0
  intraPredMode := 1
  i4PredMode := predModeInter
  i4CuTransquantBypass := false
  isYuv444 := false
  i1SignDataHidingFlag := true
  i1TransformSkipEnabledFlag := false
  i1Log2MaxTransformSkipBlockSizeMinus2 := 0
  i1ExplicitRdpcmEnabledFlag := false
  i1ImplicitRdpcmEnabledFlag := false
  i1TransformSkipContextEnabledFlag := false
  i1PersistentRiceAdaptationEnabledFlag := false

def lumaResidue : ResidueArgs where
  log2TrSize := 3
  isLuma := true
  i1SignDataHidingFlag := true
  i1TransformSkipEnabledFlag := false

theorem signedBlock : CodedBlock signedScan lumaInter lumaResidue where
  plain := ⟨by decide, by decide, rfl, rfl, rfl⟩
  same := ⟨rfl, rfl, rfl, rfl⟩
  size := rfl
  scan := rfl
  csbf := by decide +kernel
  word := by unfold IsWord16; decide +kernel
  nonzero := ⟨0, by decide, 0, by decide, by decide⟩
  parity := by decide +kernel

theorem residual_readBack_signed :
    ∃ buf t, ihevceScanCoeffs signedScan = some buf ∧
      Reads (ihevcdParseResidualCodingBins lumaInter (fun _ => 0) : BinReader Unit _)
        (ihevceCabacResidueEncode lumaResidue buf) (t, fun _ => 0) ∧
      t.Ok 3 ∧
      ∀ c : CoeffEntry, c ∈ t.entries ↔ c.row < 8 ∧ c.col < 8 ∧
        c.level = signedCoeffs c.row c.col ∧ c.level ≠ 0 :=
  residual_readBack signedBlock fun _ => 0

theorem residual_scaled_signed :
    ∃ buf t, ihevceScanCoeffs signedScan = some buf ∧
      Reads (ihevcdParseResidualCodingBins lumaInter (fun _ => 0) : BinReader Unit _)
        (ihevceCabacResidueEncode lumaResidue buf) (t, fun _ => 0) ∧
      ∀ mem p st, Memory.Holds mem p t.bytes → ∃ out, ihevcdUnpackCoeffs flatArgs mem p st = some out ∧
        out.1 = p + t.bytes.length ∧ ScaledBlock flatArgs signedCoeffs out.2 :=
  residual_scaled signedBlock (fun _ => 0) flatArgs_ok rfl

end Libhevc.RoundTrip
