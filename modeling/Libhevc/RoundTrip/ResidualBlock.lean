import Libhevc.RoundTrip.ResidualParse

/-!
# Parsing a block

The sub-blocks of a block in the order of the scan, and the flags of those on the
right and below, which come before a sub-block.
-/

namespace Libhevc.RoundTrip

open Reader Encoder Decoder

-- ---------------------------------------------------------------------------
-- The scan of the sub-blocks
-- ---------------------------------------------------------------------------

/-- The number of a sub-block in the rows of the block, from its place in the scan. -/
def sblkPos (k s i : Nat) : Nat :=
  if i ≠ 0 ∧ 2 < k then (gapvIhevcInvscan.getD (s * 3 + (k - 2 - 1)) []).getD i 0 else 0

/-- The scan goes once through the sub-blocks, and those on the right and below of one come behind
it. -/
structure ScanOk (k s : Nat) : Prop where
  lt : ∀ i < 4 ^ (k - 2), sblkPos k s i < 4 ^ (k - 2)
  inj : ∀ i < 4 ^ (k - 2), ∀ j < 4 ^ (k - 2), sblkPos k s i = sblkPos k s j → i = j
  right : ∀ i < 4 ^ (k - 2), sblkPos k s i % 2 ^ (k - 2) + 1 < 2 ^ (k - 2) →
    ∃ j < 4 ^ (k - 2), i < j ∧ sblkPos k s j = sblkPos k s i + 1
  below : ∀ i < 4 ^ (k - 2), sblkPos k s i / 2 ^ (k - 2) + 1 < 2 ^ (k - 2) →
    ∃ j < 4 ^ (k - 2), i < j ∧ sblkPos k s j = sblkPos k s i + 2 ^ (k - 2)
  onto : ∀ p < 4 ^ (k - 2), ∃ i < 4 ^ (k - 2), sblkPos k s i = p

def scanOkBool (k s : Nat) : Bool :=
  (List.range (4 ^ (k - 2))).all fun i =>
    decide (sblkPos k s i < 4 ^ (k - 2)) &&
    ((List.range (4 ^ (k - 2))).any fun j => sblkPos k s j == i) &&
    ((List.range (4 ^ (k - 2))).all fun j => decide (i = j) || sblkPos k s i != sblkPos k s j) &&
    (decide (¬ sblkPos k s i % 2 ^ (k - 2) + 1 < 2 ^ (k - 2)) ||
      (List.range (4 ^ (k - 2))).any fun j => decide (i < j) && sblkPos k s j == sblkPos k s i + 1) &&
    (decide (¬ sblkPos k s i / 2 ^ (k - 2) + 1 < 2 ^ (k - 2)) ||
      (List.range (4 ^ (k - 2))).any fun j =>
        decide (i < j) && sblkPos k s j == sblkPos k s i + 2 ^ (k - 2))

theorem scanOkBool_all : ∀ s < 3, ∀ k < 4, scanOkBool (k + 2) s = true := by decide +kernel

theorem scanOk_of_bool (h : scanOkBool k s = true) : ScanOk k s := by
  have hall : ∀ i < 4 ^ (k - 2), _ := fun i hi => (List.all_eq_true.mp h) i (List.mem_range.mpr hi)
  simp only [Bool.and_eq_true, Bool.or_eq_true, decide_eq_true_eq, List.any_eq_true,
    List.all_eq_true, List.mem_range, beq_iff_eq, bne_iff_ne] at hall
  refine ⟨fun i hi => (hall i hi).1.1.1.1, fun i hi j hj heq => ?_, fun i hi hlt => ?_,
    fun i hi hlt => ?_, fun p hp => ?_⟩
  · rcases (hall i hi).1.1.2 j hj with hij | hne
    · exact hij
    · exact absurd heq hne
  · rcases (hall i hi).1.2 with hge | ⟨j, hj, hij, heq⟩
    · exact absurd hlt hge
    · exact ⟨j, hj, hij, heq⟩
  · rcases (hall i hi).2 with hge | ⟨j, hj, hij, heq⟩
    · exact absurd hlt hge
    · exact ⟨j, hj, hij, heq⟩
  · obtain ⟨i, hi, heq⟩ := (hall p hp).1.1.1.2
    exact ⟨i, hi, heq⟩

theorem scanOk (hlow : 2 ≤ k) (hhigh : k ≤ 5) (hs : s < 3) : ScanOk k s := by
  obtain ⟨d, rfl⟩ : ∃ d, k = d + 2 := ⟨k - 2, by omega⟩
  exact scanOk_of_bool (scanOkBool_all s hs d (by omega))

theorem four_pow (n : Nat) : 4 ^ n = 2 ^ n * 2 ^ n := by
  rw [← Nat.mul_pow]

-- ---------------------------------------------------------------------------
-- The bins of a block
-- ---------------------------------------------------------------------------

/-- A block as its sub-blocks in the order of the scan: their maps and their levels, and the flags
of the sub-blocks by row and column. -/
structure Blk where
  last : Nat
  map : Nat → Nat
  levels : Nat → List Int
  csbf : Nat → Nat → Bool

section
variable (a : ResidualArgs) (b : Blk)

def sblkRow (i : Nat) : Nat := sblkPos a.log2TrafoSize a.scanIdx i / 2 ^ (a.log2TrafoSize - 2)

def sblkCol (i : Nat) : Nat := sblkPos a.log2TrafoSize a.scanIdx i % 2 ^ (a.log2TrafoSize - 2)

/-- The flags below and on the right. -/
def nbrCsbf (i : Nat) : Nat :=
  (b.csbf (sblkRow a i + 1) (sblkCol a i)).toNat <<< 1 |||
    (b.csbf (sblkRow a i) (sblkCol a i + 1)).toNat

/-- The flag of a sub-block is coded. -/
def csbfCoded (i : Nat) : Bool := decide (i < b.last ∧ 0 < i)

def csbfBins (i : Nat) : List (Bin ρ) :=
  if csbfCoded b i then
    [.ctxt (ihevcCabCodedSublkIdx + (if nbrCsbf a b i ≠ 0 then 1 else 0) +
      (if a.cIdx ≠ 0 then 2 else 0)) (decide (b.map i ≠ 0))]
  else []

/-- The number of positions whose significance is coded. -/
def numSigPositions (i : Nat) : Nat := if i = b.last then Nat.log2 (b.map i) else 16

def sblkBins (i gt1Ctxt : Nat) : List (Bin ρ) :=
  csbfBins a b i ++
    if b.map i = 0 ∧ csbfCoded b i then []
    else
      sigBins (sigCtxtIdx a i (nbrCsbf a b i) a.sigCoeffBaseCtxt) (b.map i) (numSigPositions b i)
          (csbfCoded b i) ++
        if b.map i = 0 then []
        else levelBins (ctxtSet (a.cIdx = 0) i gt1Ctxt * 4 + a.absGt1BaseCtxt)
          (ihevcCabCoefabsGrtr2Flag + (if a.cIdx = 0 then ctxtSet (a.cIdx = 0) i gt1Ctxt
            else ctxtSet (a.cIdx = 0) i gt1Ctxt + 4))
          (signIsHidden a.i1SignDataHidingFlag (sigPositions (b.map i))) (b.levels i)

/-- `gt1_ctxt` behind a sub-block. -/
def gt1Next (i gt1Ctxt : Nat) : Nat :=
  if b.map i = 0 then gt1Ctxt else gt1CtxtAfter ((b.levels i).take 8) 1

/-- The sub-blocks below `n`. -/
def sblksBins : (n gt1Ctxt : Nat) → List (Bin ρ)
  | 0, _ => []
  | n + 1, gt1Ctxt => sblkBins a b n gt1Ctxt ++ sblksBins n (gt1Next b n gt1Ctxt)

/-- What the parser writes of a sub-block. -/
def sblkData (i : Nat) : List TuSblkCoeffData :=
  if b.map i = 0 then [] else [⟨sblkCol a i, sblkRow a i, b.map i, b.levels i⟩]

def sblksData : (n : Nat) → List TuSblkCoeffData
  | 0 => []
  | n + 1 => sblkData a b n ++ sblksData n

/-- The sub-blocks and their flags belong together. -/
structure Blk.Ok : Prop where
  plain : PlainArgs a
  lt : b.last < 4 ^ (a.log2TrafoSize - 2)
  lastMap : b.map b.last ≠ 0
  levels : ∀ i ≤ b.last, b.map i ≠ 0 →
    LevelsOf (signIsHidden a.i1SignDataHidingFlag (sigPositions (b.map i))) (b.map i) (b.levels i)
  csbf : ∀ i < 4 ^ (a.log2TrafoSize - 2),
    b.csbf (sblkRow a i) (sblkCol a i) = decide (i ≤ b.last ∧ b.map i ≠ 0)
  outside : ∀ y x, ¬ (y < 2 ^ (a.log2TrafoSize - 2) ∧ x < 2 ^ (a.log2TrafoSize - 2)) →
    b.csbf y x = false

end

theorem scanIdx_lt (a : ResidualArgs) : a.scanIdx < 3 := by
  unfold ResidualArgs.scanIdx
  split
  · split
    · decide
    · split <;> decide
  · decide

section
variable {a : ResidualArgs} {b : Blk}

theorem Blk.Ok.scan (h : b.Ok a) : ScanOk a.log2TrafoSize a.scanIdx :=
  scanOk h.plain.low h.plain.high (scanIdx_lt a)

theorem subBlkPos_row (i : Nat) :
    a.subBlkPos i >>> (a.log2TrafoSize - 2) = sblkRow a i := Nat.shiftRight_eq_div_pow _ _

theorem subBlkPos_col (i : Nat) :
    a.subBlkPos i &&& ((1 <<< (a.log2TrafoSize - 2)) - 1) = sblkCol a i := by
  rw [Nat.one_shiftLeft, Nat.and_two_pow_sub_one_eq_mod]
  rfl

theorem sblk_inj (hs : ScanOk a.log2TrafoSize a.scanIdx) (hi : i < 4 ^ (a.log2TrafoSize - 2))
    (hj : j < 4 ^ (a.log2TrafoSize - 2)) (hrow : sblkRow a i = sblkRow a j)
    (hcol : sblkCol a i = sblkCol a j) : i = j := by
  refine hs.inj i hi j hj ?_
  rw [← Nat.div_add_mod (sblkPos a.log2TrafoSize a.scanIdx i) (2 ^ (a.log2TrafoSize - 2)),
    ← Nat.div_add_mod (sblkPos a.log2TrafoSize a.scanIdx j) (2 ^ (a.log2TrafoSize - 2))]
  unfold sblkRow at hrow
  unfold sblkCol at hcol
  rw [hrow, hcol]

theorem sblkCol_lt (a : ResidualArgs) (i : Nat) : sblkCol a i < 2 ^ (a.log2TrafoSize - 2) :=
  Nat.mod_lt _ (Nat.two_pow_pos _)

theorem sblkRow_lt (hs : ScanOk a.log2TrafoSize a.scanIdx) (hi : i < 4 ^ (a.log2TrafoSize - 2)) :
    sblkRow a i < 2 ^ (a.log2TrafoSize - 2) := by
  have hlt := hs.lt i hi
  rw [four_pow] at hlt
  exact Nat.div_lt_of_lt_mul hlt

/-- The sub-block on the right of one comes behind it in the scan. -/
theorem sblk_right (hs : ScanOk a.log2TrafoSize a.scanIdx) (hi : i < 4 ^ (a.log2TrafoSize - 2))
    (hlt : sblkCol a i + 1 < 2 ^ (a.log2TrafoSize - 2)) :
    ∃ j < 4 ^ (a.log2TrafoSize - 2), i < j ∧ sblkRow a j = sblkRow a i ∧
      sblkCol a j = sblkCol a i + 1 := by
  obtain ⟨j, hj, hij, heq⟩ := hs.right i hi hlt
  refine ⟨j, hj, hij, ?_⟩
  have hdiv := Nat.div_add_mod (sblkPos a.log2TrafoSize a.scanIdx i) (2 ^ (a.log2TrafoSize - 2))
  have hnext : sblkPos a.log2TrafoSize a.scanIdx j =
      2 ^ (a.log2TrafoSize - 2) * sblkRow a i + (sblkCol a i + 1) := by
    rw [heq, ← Nat.add_assoc]
    exact congrArg (· + 1) hdiv.symm
  constructor
  · show sblkPos a.log2TrafoSize a.scanIdx j / _ = _
    rw [hnext, Nat.mul_add_div (Nat.two_pow_pos _), Nat.div_eq_of_lt hlt, Nat.add_zero]
  · show sblkPos a.log2TrafoSize a.scanIdx j % _ = _
    rw [hnext, Nat.mul_add_mod, Nat.mod_eq_of_lt hlt]

/-- And so does the one below. -/
theorem sblk_below (hs : ScanOk a.log2TrafoSize a.scanIdx) (hi : i < 4 ^ (a.log2TrafoSize - 2))
    (hlt : sblkRow a i + 1 < 2 ^ (a.log2TrafoSize - 2)) :
    ∃ j < 4 ^ (a.log2TrafoSize - 2), i < j ∧ sblkRow a j = sblkRow a i + 1 ∧
      sblkCol a j = sblkCol a i := by
  obtain ⟨j, hj, hij, heq⟩ := hs.below i hi hlt
  refine ⟨j, hj, hij, ?_, ?_⟩
  · show sblkPos a.log2TrafoSize a.scanIdx j / _ = _
    rw [heq, Nat.add_div_right _ (Nat.two_pow_pos _)]
    rfl
  · show sblkPos a.log2TrafoSize a.scanIdx j % _ = _
    rw [heq, Nat.add_mod_right]
    rfl

end

-- ---------------------------------------------------------------------------
-- One sub-block after the other
-- ---------------------------------------------------------------------------

/-- What is there before the sub-blocks below `n`. -/
structure ParseInv (a : ResidualArgs) (b : Blk) (stats : Nat → Nat) (n gt1Ctxt : Nat)
    (data : List TuSblkCoeffData) (st : ResidualArgs.SblkSt) : Prop where
  csbf : ∀ i, n ≤ i → 0 < i → i < 4 ^ (a.log2TrafoSize - 2) →
    st.au2Csbf (sblkRow a i) (sblkCol a i) = b.csbf (sblkRow a i) (sblkCol a i)
  outside : ∀ y x, ¬ (y < 2 ^ (a.log2TrafoSize - 2) ∧ x < 2 ^ (a.log2TrafoSize - 2)) →
    st.au2Csbf y x = false
  gt1 : st.gt1Ctxt = gt1Ctxt
  base : 0 < n → st.sigCoeffBaseCtxt = a.sigCoeffBaseCtxt
  stats : st.ai4RiceStatCoeff = stats
  sblks : st.sblks = data

/-- The last position of a map, and those below it. -/
theorem top_position (hpos : 0 < m) (hlt : m < 2 ^ 16) :
    1 <<< Nat.log2 m ||| m % 2 ^ Nat.log2 m = m ∧
      1 + (sigBelow m (Nat.log2 m)).length = (sigPositions m).length := by
  have hmod : m % 2 ^ 16 = m := Nat.mod_eq_of_lt hlt
  obtain ⟨hbit, -, hself, hbelow⟩ := sigBelow_top (m := m) (n := 16) (by omega)
  rw [hmod] at hbit hself hbelow
  constructor
  · have hor := or_bit_mod 0 m (Nat.log2 m)
    rw [Nat.zero_or, Nat.zero_or, hbit, Bool.toNat_true] at hor
    rw [hor]
    exact hself.symm
  · unfold sigPositions
    rw [hbelow, length_sigBelow_succ, hbit]
    rfl

section
variable {a : ResidualArgs} {b : Blk} {stats : Nat → Nat} {st : ResidualArgs.SblkSt}
  {data : List TuSblkCoeffData}

/-- The flags of the neighbours have been read. -/
theorem ParseInv.nbr (h : b.Ok a) (hi : i ≤ b.last)
    (hinv : ParseInv a b stats (i + 1) gt1Ctxt data st) :
    (st.au2Csbf (sblkRow a i + 1) (sblkCol a i)).toNat <<< 1 |||
      (st.au2Csbf (sblkRow a i) (sblkCol a i + 1)).toNat = nbrCsbf a b i := by
  have hlt : i < 4 ^ (a.log2TrafoSize - 2) := lt_of_le_of_lt hi h.lt
  have hbelow : st.au2Csbf (sblkRow a i + 1) (sblkCol a i) =
      b.csbf (sblkRow a i + 1) (sblkCol a i) := by
    by_cases hrow : sblkRow a i + 1 < 2 ^ (a.log2TrafoSize - 2)
    · obtain ⟨j, hj, hij, hr, hc⟩ := sblk_below h.scan hlt hrow
      rw [← hr, ← hc]
      exact hinv.csbf j hij (by omega) hj
    · rw [hinv.outside _ _ fun hin => hrow hin.1, h.outside _ _ fun hin => hrow hin.1]
  have hright : st.au2Csbf (sblkRow a i) (sblkCol a i + 1) =
      b.csbf (sblkRow a i) (sblkCol a i + 1) := by
    by_cases hcol : sblkCol a i + 1 < 2 ^ (a.log2TrafoSize - 2)
    · obtain ⟨j, hj, hij, hr, hc⟩ := sblk_right h.scan hlt hcol
      rw [← hr, ← hc]
      exact hinv.csbf j hij (by omega) hj
    · rw [hinv.outside _ _ fun hin => hcol hin.2, h.outside _ _ fun hin => hcol hin.2]
  rw [hbelow, hright]
  rfl

/-- The flag of the sub-block itself. -/
theorem ParseInv.setCsbf (h : b.Ok a) (hi : i ≤ b.last)
    (hinv : ParseInv a b stats (i + 1) gt1Ctxt data st) (curCsbf : Bool)
    (hcur : 0 < i → curCsbf = decide (b.map i ≠ 0)) :
    ParseInv a b stats i gt1Ctxt data
      { st with
        au2Csbf := fun y x => if y = sblkRow a i ∧ x = sblkCol a i then curCsbf
          else st.au2Csbf y x } := by
  have hlt : i < 4 ^ (a.log2TrafoSize - 2) := lt_of_le_of_lt hi h.lt
  refine ⟨fun j hij hj0 hj => ?_, fun y x hout => ?_, hinv.gt1, fun _ => hinv.base (Nat.succ_pos i),
    hinv.stats, hinv.sblks⟩
  · dsimp only
    split
    · rename_i heq
      obtain rfl := sblk_inj h.scan hj hlt heq.1 heq.2
      rw [hcur hj0, h.csbf j hj]
      simp [hi]
    · rename_i hne
      refine hinv.csbf j ?_ hj0 hj
      rcases Nat.eq_or_lt_of_le hij with rfl | hlt'
      · exact absurd ⟨rfl, rfl⟩ hne
      · exact hlt'
  · dsimp only
    rw [if_neg]
    · exact hinv.outside y x hout
    · rintro ⟨rfl, rfl⟩
      exact hout ⟨sblkRow_lt h.scan hlt, sblkCol_lt a i⟩

theorem parseCsbf_reads (i : Nat) :
    Reads (a.parseCsbf (csbfCoded b i) (nbrCsbf a b i) : BinReader ρ Bool) (csbfBins a b i)
      (if csbfCoded b i then decide (b.map i ≠ 0) else true) := by
  unfold ResidualArgs.parseCsbf csbfBins
  split
  · exact decodeBin_reads _ _
  · exact Reads.pure _

/-- The map of a sub-block, from what is there before the loop over its positions. -/
theorem Blk.Ok.map_lt (h : b.Ok a) (hi : i ≤ b.last) : b.map i < 2 ^ 16 := by
  by_cases hzero : b.map i = 0
  · rw [hzero]
    decide
  · exact (h.levels i hi hzero).lt

theorem Blk.Ok.sigMap (h : b.Ok a) (hi : i ≤ b.last) :
    (if i = b.last then 1 <<< Nat.log2 (b.map b.last) else 0) ||| b.map i % 2 ^ numSigPositions b i
        = b.map i ∧
      (if i = b.last then 1 else 0) + (sigBelow (b.map i) (numSigPositions b i)).length
        = (sigPositions (b.map i)).length := by
  unfold numSigPositions
  by_cases hlast : i = b.last
  · rw [if_pos hlast, if_pos hlast, if_pos hlast, ← hlast]
    have hne := h.lastMap
    rw [← hlast] at hne
    exact top_position (Nat.pos_of_ne_zero hne) (h.map_lt hi)
  · rw [if_neg hlast, if_neg hlast, if_neg hlast, Nat.zero_or, Nat.zero_add]
    exact ⟨Nat.mod_eq_of_lt (h.map_lt hi), rfl⟩

/-- Where the first position may be derived, the map is not zero. -/
theorem Blk.Ok.infer (h : b.Ok a) (hi : i ≤ b.last)
    (hne : ¬(b.map i = 0 ∧ csbfCoded b i = true)) (hcoded : csbfCoded b i = true) :
    b.map i % 2 ^ numSigPositions b i ≠ 0 := by
  have hlt := of_decide_eq_true hcoded
  unfold numSigPositions
  rw [if_neg (by omega), Nat.mod_eq_of_lt (h.map_lt hi)]
  exact fun hzero => hne ⟨hzero, hcoded⟩

theorem sigPositions_zero : sigPositions 0 = [] := rfl

theorem parseSblk_reads (h : b.Ok a) (hi : i ≤ b.last)
    (hinv : ParseInv a b stats (i + 1) gt1Ctxt data st) :
    ∃ st', Reads (a.parseSblk ⟨false, false, b.last, Nat.log2 (b.map b.last)⟩ i st : BinReader ρ _)
        (sblkBins a b i gt1Ctxt) st' ∧
      ParseInv a b stats i (gt1Next b i gt1Ctxt) (data ++ sblkData a b i) st' := by
  have hcoded : decide (i < b.last ∧ 0 < i) = csbfCoded b i := rfl
  have hread := parseCsbf_reads (ρ := ρ) (a := a) (b := b) i
  unfold ResidualArgs.parseSblk sblkBins
  dsimp only
  rw [subBlkPos_row, subBlkPos_col, hinv.nbr h hi, hcoded]
  by_cases hskip : b.map i = 0 ∧ csbfCoded b i = true
  · -- the flag is coded and says that there is nothing
    have hcur : (if csbfCoded b i then decide (b.map i ≠ 0) else true) = false := by
      rw [if_pos hskip.2, hskip.1]
      rfl
    rw [hcur] at hread
    have hset := hinv.setCsbf h hi false fun _ => by rw [hskip.1]; rfl
    rw [if_pos hskip, gt1Next, if_pos hskip.1, sblkData, if_pos hskip.1, List.append_nil data]
    refine ⟨_, hread.bind ?_, hset⟩
    rw [if_neg (by decide)]
    exact Reads.pure _
  · have hcur : (if csbfCoded b i then decide (b.map i ≠ 0) else true) = true := by
      split
      · rename_i hcod
        exact decide_eq_true fun hzero => hskip ⟨hzero, hcod⟩
      · rfl
    rw [hcur] at hread
    have hset := hinv.setCsbf h hi true fun hpos => by
      refine (decide_eq_true (p := b.map i ≠ 0) fun hzero => ?_).symm
      rcases Nat.eq_or_lt_of_le hi with heq | hlt
      · exact h.lastMap (heq ▸ hzero)
      · exact hskip ⟨hzero, decide_eq_true ⟨hlt, hpos⟩⟩
    obtain ⟨hmap, hnum⟩ := h.sigMap hi
    obtain ⟨s, hsig, hsmap, hsnum, hsbase⟩ := sigCoeffLoop_reads (ρ := ρ) h.plain (b.map i) i
      (nbrCsbf a b i) a.sigCoeffBaseCtxt (numSigPositions b i)
      { u4SigCoeffMap := if i = b.last then 1 <<< Nat.log2 (b.map b.last) else 0
        numCoeff := if i = b.last then 1 else 0
        inferSigCoeffFlag := csbfCoded b i
        sigCoeffBaseCtxt := st.sigCoeffBaseCtxt }
      (fun _ => hinv.base (Nat.succ_pos i)) (h.infer hi hskip)
    dsimp only at hsig hsmap hsnum hsbase
    rw [hmap] at hsmap
    rw [hnum] at hsnum
    have hn : (if i = b.last then Nat.log2 (b.map b.last) else 16) = numSigPositions b i := by
      unfold numSigPositions
      by_cases hlast : i = b.last
      · rw [if_pos hlast, if_pos hlast, hlast]
      · rw [if_neg hlast, if_neg hlast]
    have hbase : 0 < i → s.infer.sigCoeffBaseCtxt = a.sigCoeffBaseCtxt := fun hpos =>
      (hsbase hpos.ne').trans (hinv.base (Nat.succ_pos i))
    simp only [decide_eq_true_eq]
    rw [hn, if_neg hskip]
    unfold gt1Next sblkData
    by_cases hzero : b.map i = 0
    · simp only [if_pos hzero, List.append_nil data]
      refine ⟨⟨fun y x => if y = sblkRow a i ∧ x = sblkCol a i then true else st.au2Csbf y x,
        st.gt1Ctxt, s.infer.sigCoeffBaseCtxt, st.ai4RiceStatCoeff, st.sblks⟩, hread.bind ?_,
        ⟨hset.csbf, hset.outside, hset.gt1, hbase, hset.stats, hset.sblks⟩⟩
      rw [if_pos rfl]
      refine hsig.bind ?_
      rw [if_pos (by rw [hsnum, hzero, sigPositions_zero]; rfl)]
      exact Reads.pure _
    · have hl := h.levels i hi hzero
      have hlevels := parseLevels_reads (ρ := ρ) h.plain
        ⟨false, false, b.last, Nat.log2 (b.map b.last)⟩ rfl rfl hl i st.gt1Ctxt st.ai4RiceStatCoeff
      rw [hinv.gt1] at hlevels
      have hne : ¬ s.infer.numCoeff = 0 := by
        rw [hsnum]
        exact fun hnil => sigPositions_ne_nil hl.pos hl.lt (List.length_eq_zero_iff.mp hnil)
      have hdata : st.sblks ++ [⟨sblkCol a i, sblkRow a i, b.map i, b.levels i⟩] =
          data ++ [⟨sblkCol a i, sblkRow a i, b.map i, b.levels i⟩] := by
        rw [hinv.sblks]
      simp only [if_neg hzero]
      refine ⟨⟨fun y x => if y = sblkRow a i ∧ x = sblkCol a i then true else st.au2Csbf y x,
        gt1CtxtAfter ((b.levels i).take 8) 1, s.infer.sigCoeffBaseCtxt, st.ai4RiceStatCoeff,
        st.sblks ++ [⟨sblkCol a i, sblkRow a i, b.map i, b.levels i⟩]⟩,
        hread.bind ?_, ⟨hset.csbf, hset.outside, rfl, hbase, hset.stats, hdata⟩⟩
      rw [if_pos rfl]
      refine hsig.bind ?_
      rw [if_neg hne, hsnum, hsmap, ← hl.length, hinv.gt1]
      exact hlevels.bind_nil (Reads.pure _)

theorem parseSblks_reads (h : b.Ok a) : ∀ n ≤ b.last + 1, ∀ gt1Ctxt data st,
    ParseInv a b stats n gt1Ctxt data st →
      ∃ st', Reads (a.parseSblks ⟨false, false, b.last, Nat.log2 (b.map b.last)⟩ n st :
          BinReader ρ _) (sblksBins a b n gt1Ctxt) st' ∧
        st'.sblks = data ++ sblksData a b n ∧ st'.ai4RiceStatCoeff = stats := by
  intro n
  induction n with
  | zero =>
    intro _ gt1Ctxt data st hinv
    exact ⟨st, Reads.pure st, hinv.sblks.trans (List.append_nil data).symm, hinv.stats⟩
  | succ n ih =>
    intro hn gt1Ctxt data st hinv
    obtain ⟨st1, hread, hinv1⟩ := parseSblk_reads (ρ := ρ) h (Nat.le_of_succ_le_succ hn) hinv
    obtain ⟨st2, hrest, hdata, hstats⟩ := ih (Nat.le_of_succ_le hn) _ _ _ hinv1
    refine ⟨st2, hread.bind hrest, ?_, hstats⟩
    rw [hdata, List.append_assoc]
    rfl

/-- What is there in front of the loop over the sub-blocks. -/
theorem Blk.Ok.start (h : b.Ok a) (stats : Nat → Nat) :
    ParseInv a b stats (b.last + 1) 1 []
      ⟨fun _ _ => false, 1, a.sigCoeffBaseCtxt, stats, []⟩ where
  csbf i hi _ hlt := by
    rw [h.csbf i hlt, decide_eq_false (by omega)]
  outside _ _ _ := rfl
  gt1 := rfl
  base _ := rfl
  stats := rfl
  sblks := rfl

end

-- ---------------------------------------------------------------------------
-- The last coefficient
-- ---------------------------------------------------------------------------

/-- The column of a position of a sub-block in the block. -/
def coeffX (a : ResidualArgs) (i n : Nat) : Nat :=
  ((scanRow gau1IhevcInvscan4x4 a.scanIdx).getD n 0 &&& 3) + sblkCol a i * 4

/-- And its row. -/
def coeffY (a : ResidualArgs) (i n : Nat) : Nat :=
  ((scanRow gau1IhevcInvscan4x4 a.scanIdx).getD n 0 >>> 2) + sblkRow a i * 4

/-- The positions of a sub-block and their numbers in the scan. -/
theorem scan4x4_inv : ∀ s < 3, ∀ n < 16,
    (scanRow gau1IhevcInvscan4x4 s).getD n 0 < 16 ∧
      (scanRow gau1IhevcScan4x4 s).getD ((scanRow gau1IhevcInvscan4x4 s).getD n 0) 0 = n := by
  decide

theorem scan_inv : ∀ s < 3, ∀ d < 3, ∀ i < 4 ^ (d + 1),
    (gapvIhevcScan.getD (s * 3 + d) []).getD (sblkPos (d + 3) s i) 0 = i := by decide +kernel

section
variable {a : ResidualArgs}

theorem coeffX_shift (hn : n < 16) : coeffX a i n >>> 2 = sblkCol a i := by
  have hlt := (scan4x4_inv _ (scanIdx_lt a) n hn).1
  unfold coeffX
  rw [Nat.shiftRight_eq_div_pow, show (3 : Nat) = 2 ^ 2 - 1 from rfl, Nat.and_two_pow_sub_one_eq_mod]
  omega

theorem coeffY_shift (hn : n < 16) : coeffY a i n >>> 2 = sblkRow a i := by
  have hlt := (scan4x4_inv _ (scanIdx_lt a) n hn).1
  unfold coeffY
  rw [Nat.shiftRight_eq_div_pow, Nat.shiftRight_eq_div_pow]
  omega

theorem lastScanPos_of (hn : n < 16) : a.lastScanPos (coeffX a i n) (coeffY a i n) = n := by
  obtain ⟨hlt, hinv⟩ := scan4x4_inv _ (scanIdx_lt a) n hn
  have hpos : ((coeffY a i n &&& 3) <<< 2) + (coeffX a i n &&& 3) =
      (scanRow gau1IhevcInvscan4x4 a.scanIdx).getD n 0 := by
    unfold coeffX coeffY
    rw [show (3 : Nat) = 2 ^ 2 - 1 from rfl]
    simp only [Nat.and_two_pow_sub_one_eq_mod, Nat.shiftLeft_eq, Nat.shiftRight_eq_div_pow]
    omega
  unfold ResidualArgs.lastScanPos
  rw [hpos]
  exact hinv

theorem lastSubBlk_of (hlow : 2 ≤ a.log2TrafoSize) (hhigh : a.log2TrafoSize ≤ 5)
    (hi : i < 4 ^ (a.log2TrafoSize - 2)) (hn : n < 16) :
    a.lastSubBlk (coeffX a i n) (coeffY a i n) = i := by
  unfold ResidualArgs.lastSubBlk ResidualArgs.scanEntry
  rw [coeffX_shift hn, coeffY_shift hn]
  split
  · rename_i hlt
    obtain ⟨d, hd⟩ : ∃ d, a.log2TrafoSize = d + 3 := ⟨a.log2TrafoSize - 3, by omega⟩
    have hpos : sblkRow a i * (1 <<< (a.log2TrafoSize - 2)) + sblkCol a i =
        sblkPos (d + 3) a.scanIdx i := by
      unfold sblkRow sblkCol
      rw [Nat.one_shiftLeft, Nat.mul_comm, Nat.div_add_mod, hd]
    rw [hpos, hd]
    rw [hd] at hi
    exact scan_inv _ (scanIdx_lt a) d (by omega) i hi
  · have hk : a.log2TrafoSize = 2 := by omega
    rw [hk] at hi
    exact (Nat.lt_one_iff.mp hi).symm

end

/-- The prefixes of the coordinates and what their suffixes add. -/
theorem lastPrefix_table : ∀ v < 32,
    (3 < gu1HevceLastCoeffPrefix v →
      v - gu1HevceLastCoeffPrefixCode (gu1HevceLastCoeffPrefix v) <
          2 ^ ((gu1HevceLastCoeffPrefix v - 2) >>> 1) ∧
        (1 <<< ((gu1HevceLastCoeffPrefix v >>> 1) - 1)) * (2 + (gu1HevceLastCoeffPrefix v &&& 1)) +
          (v - gu1HevceLastCoeffPrefixCode (gu1HevceLastCoeffPrefix v)) = v) ∧
      (¬ 3 < gu1HevceLastCoeffPrefix v → gu1HevceLastCoeffPrefix v = v) := by decide

theorem lastPrefix_le : ∀ k < 6, 2 ≤ k → ∀ v < 2 ^ k,
    gu1HevceLastCoeffPrefix v ≤ (k <<< 1) - 1 ∧
      gu1HevceLastCoeffPrefix ((1 <<< k) - 1) = (k <<< 1) - 1 := by decide

theorem lastSuffix_reads (hv : v < 32) :
    Reads (ResidualArgs.parseLastSuffix (gu1HevceLastCoeffPrefix v) : BinReader ρ Nat)
      (ResidueArgs.encodeLastSuffix v) v := by
  obtain ⟨hlong, hshort⟩ := lastPrefix_table v hv
  unfold ResidualArgs.parseLastSuffix ResidueArgs.encodeLastSuffix
  dsimp only
  split
  · rename_i hlt
    obtain ⟨hbits, hvalue⟩ := hlong hlt
    exact (bypassBins_reads_lt hbits).bind_nil (Reads.pure_of_eq hvalue)
  · rename_i hle
    exact Reads.pure_of_eq (hshort hle)

/-- The two sides are about the same block. -/
structure SameResidual (a : ResidualArgs) (e : ResidueArgs) : Prop where
  size : e.log2TrSize = a.log2TrafoSize
  luma : e.isLuma = decide (a.cIdx = 0)
  signHiding : e.i1SignDataHidingFlag = a.i1SignDataHidingFlag
  noSkip : e.i1TransformSkipEnabledFlag = false

section
variable {a : ResidualArgs} {e : ResidueArgs}

theorem lastPrefix_reads (h : PlainArgs a) (hs : SameResidual a e) (ctxtIdx : Nat)
    (hv : v < 2 ^ a.log2TrafoSize) :
    Reads (a.parseLastPrefix ctxtIdx : BinReader ρ Nat) (e.encodeLastPrefix ctxtIdx v)
      (gu1HevceLastCoeffPrefix v) := by
  obtain ⟨hle, hmax⟩ := lastPrefix_le a.log2TrafoSize (Nat.lt_succ_of_le h.high) h.low v hv
  unfold ResidualArgs.parseLastPrefix ResidueArgs.encodeLastPrefix
  dsimp only
  rw [hs.size, hs.luma, hmax]
  by_cases hluma : a.cIdx = 0
  · rw [if_pos hluma, if_pos (decide_eq_true hluma)]
    exact tunary_reads _ _ _ hle
  · rw [if_neg hluma, if_neg (by simpa using hluma)]
    exact tunary_reads _ _ _ hle

theorem parseLast_reads (h : PlainArgs a) (hs : SameResidual a e) (hx : x < 2 ^ a.log2TrafoSize)
    (hy : y < 2 ^ a.log2TrafoSize) :
    Reads (a.parseLast : BinReader ρ _) (e.ihevceCabacEncodeLastCoeffXY x y) (x, y) := by
  have hpow : 2 ^ a.log2TrafoSize ≤ 2 ^ 5 := Nat.pow_le_pow_right Nat.two_pos h.high
  refine (lastPrefix_reads h hs _ hx).bind ((lastPrefix_reads h hs _ hy).bind ?_)
  refine (lastSuffix_reads (lt_of_lt_of_le hx hpow)).bind ?_
  exact (lastSuffix_reads (lt_of_lt_of_le hy hpow)).bind_nil (Reads.pure _)

end

end Libhevc.RoundTrip
