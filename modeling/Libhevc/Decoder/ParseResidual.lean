import Libhevc.Common.IntraRefSubst
import Libhevc.Common.Residual
import Libhevc.Decoder.Bins
import Libhevc.Decoder.UnpackCoeffs

/-!
# The residual coding parser

`ihevcd_parse_residual_coding`, bin by bin. What is written for the inverse
quantisation comes out as `TuCoeffData`, next to the statistics of the Rice
parameter. The words that hold one flag for each sub-block of a row are functions of
row and column; the profile of the range extensions is there.
-/

namespace Libhevc.Decoder

/-- `PRED_MODE_INTER` -/
def predModeInter : Nat := 0

/-- `PRED_MODE_INTRA` -/
def predModeIntra : Nat := 1

/-- The arguments, and what is read of the coding unit, the SPS and the PPS. -/
structure ResidualArgs where
  log2TrafoSize : Nat
  cIdx : Nat
  intraPredMode : Nat
  i4PredMode : Nat
  i4CuTransquantBypass : Bool
  isYuv444 : Bool
  i1SignDataHidingFlag : Bool
  i1TransformSkipEnabledFlag : Bool
  i1Log2MaxTransformSkipBlockSizeMinus2 : Nat
  i1ExplicitRdpcmEnabledFlag : Bool
  i1ImplicitRdpcmEnabledFlag : Bool
  i1TransformSkipContextEnabledFlag : Bool
  i1PersistentRiceAdaptationEnabledFlag : Bool

def sigcoeffCtxtincTable : List (List (List Nat)) :=
  [[[2, 1, 1, 1, 1, 1, 0, 0, 0, 0, 0, 0, 0, 0, 0, 0],
    [2, 1, 2, 0, 1, 2, 0, 0, 1, 2, 0, 0, 1, 0, 0, 0],
    [2, 2, 1, 2, 1, 0, 2, 1, 0, 0, 1, 0, 0, 0, 0, 0],
    [2, 2, 2, 2, 2, 2, 2, 2, 2, 2, 2, 2, 2, 2, 2, 2]],
   [[2, 1, 1, 0, 1, 1, 0, 0, 1, 0, 0, 0, 0, 0, 0, 0],
    [2, 2, 2, 2, 1, 1, 1, 1, 0, 0, 0, 0, 0, 0, 0, 0],
    [2, 1, 0, 0, 2, 1, 0, 0, 2, 1, 0, 0, 2, 1, 0, 0],
    [2, 2, 2, 2, 2, 2, 2, 2, 2, 2, 2, 2, 2, 2, 2, 2]],
   [[2, 1, 1, 0, 1, 1, 0, 0, 1, 0, 0, 0, 0, 0, 0, 0],
    [2, 1, 0, 0, 2, 1, 0, 0, 2, 1, 0, 0, 2, 1, 0, 0],
    [2, 2, 2, 2, 1, 1, 1, 1, 0, 0, 0, 0, 0, 0, 0, 0],
    [2, 2, 2, 2, 2, 2, 2, 2, 2, 2, 2, 2, 2, 2, 2, 2]]]

/-- `gau1_ihevcd_sigcoeff_ctxtinc[scan_idx][nbr_csbf][n]` -/
def gau1IhevcdSigcoeffCtxtinc (scanIdx nbrCsbf n : Nat) : Nat :=
  ((sigcoeffCtxtincTable.getD scanIdx []).getD nbrCsbf []).getD n 0

/-- `gau1_ihevcd_sigcoeff_ctxtinc_tr4[scan_idx][n]` -/
def gau1IhevcdSigcoeffCtxtincTr4 (scanIdx n : Nat) : Nat :=
  ([[0, 2, 1, 6, 3, 4, 7, 6, 4, 5, 7, 8, 5, 8, 8, 8],
    [0, 1, 4, 5, 2, 3, 4, 5, 6, 6, 8, 8, 7, 7, 8, 8],
    [0, 2, 6, 7, 1, 3, 6, 7, 4, 4, 8, 8, 5, 5, 8, 8]].getD scanIdx []).getD n 0

/-- The loop over the ones of a map from the top, `n` the position of the one on top of the
shifted map. The body says whether the loop goes on. -/
def onesLoop (body : Nat → σ → BinReader ρ (Bool × σ)) :
    (fuel : Nat) → (n : Int) → (shift : Nat) → σ → BinReader ρ σ
  | 0, _, _, _ => failure
  | fuel + 1, n, shift, st => do
    let r ← if (shift >>> 31) &&& 1 = 1 then body n.toNat st else pure (true, st)
    if r.1 then
      let shift := u32 (shift <<< 1)
      let clz := clz shift
      let shift := u32 (shift <<< clz)
      if shift = 0 then pure r.2 else onesLoop body fuel (n - 1 - clz) shift r.2
    else pure r.2

/-- The loop from the first one of `u4_sig_coeff_map`. -/
def overMap (body : Nat → σ → BinReader ρ (Bool × σ)) (u4SigCoeffMap : Nat) (st : σ) :
    BinReader ρ σ :=
  let clz := clz u4SigCoeffMap
  onesLoop body 32 (31 - clz) (u32 (u4SigCoeffMap <<< clz)) st

namespace ResidualArgs

variable (a : ResidualArgs)

-- ---------------------------------------------------------------------------
-- In front of the sub-blocks
-- ---------------------------------------------------------------------------

def parseTransformSkipFlag : BinReader ρ Bool :=
  if a.i1TransformSkipEnabledFlag ∧ ¬ a.i4CuTransquantBypass ∧
      a.log2TrafoSize ≤ a.i1Log2MaxTransformSkipBlockSizeMinus2 + 2 then
    decodeBin (if a.cIdx = 0 then ihevcCabTfmSkip0 else ihevcCabTfmSkip12)
  else pure false

/-- `explicit_rdpcm_flag` and `explicit_rdpcm_dir` -/
def parseExplicitRdpcm (transformSkipFlag : Bool) : BinReader ρ (Bool × Bool) :=
  if a.i4PredMode = predModeInter ∧ a.i1ExplicitRdpcmEnabledFlag ∧
      (transformSkipFlag ∨ a.i4CuTransquantBypass) then do
    let ctxtInc := if a.cIdx = 0 then 0 else 1
    let explicitRdpcmFlag ← decodeBin (ihevcCabExplicitRdpcmFlag + ctxtInc)
    if explicitRdpcmFlag then do
      let explicitRdpcmDir ← decodeBin (ihevcCabExplicitRdpcmDir + ctxtInc)
      pure (true, explicitRdpcmDir)
    else pure (false, false)
  else pure (false, false)

/-- The prefix of a coordinate of the last coefficient. -/
def parseLastPrefix (ctxtIdx : Nat) : BinReader ρ Nat :=
  let cMax := (a.log2TrafoSize <<< 1) - 1
  if a.cIdx = 0 then
    let ctxOffset := 3 * (a.log2TrafoSize - 2) + ((a.log2TrafoSize - 1) >>> 2)
    ihevcdCabacDecodeBinsTunary cMax (ctxtIdx + ctxOffset) ((a.log2TrafoSize + 1) >>> 2) cMax
  else ihevcdCabacDecodeBinsTunary cMax (ctxtIdx + 15) (a.log2TrafoSize - 2) cMax

/-- The coordinate, with its suffix. -/
def parseLastSuffix (lastPrefix : Nat) : BinReader ρ Nat :=
  if 3 < lastPrefix then do
    let value ← decodeBypassBins ((lastPrefix - 2) >>> 1) 0
    pure ((1 <<< ((lastPrefix >>> 1) - 1)) * (2 + (lastPrefix &&& 1)) + value)
  else pure lastPrefix

/-- `last_significant_coeff_x` and `last_significant_coeff_y`, as they are coded. -/
def parseLast : BinReader ρ (Nat × Nat) := do
  let xPrefix ← a.parseLastPrefix ihevcCabCoeffxPrefix
  let yPrefix ← a.parseLastPrefix ihevcCabCoeffyPrefix
  let x ← parseLastSuffix xPrefix
  let y ← parseLastSuffix yPrefix
  pure (x, y)

def scanIdx : Nat :=
  if a.i4PredMode = predModeIntra ∧
      (a.log2TrafoSize = 2 ∨ (a.log2TrafoSize = 3 ∧ (a.cIdx = 0 ∨ a.isYuv444))) then
    if 6 ≤ a.intraPredMode ∧ a.intraPredMode ≤ 14 then scanVert
    else if 22 ≤ a.intraPredMode ∧ a.intraPredMode ≤ 30 then scanHorz
    else scanDiagUpright
  else scanDiagUpright

/-- The entry of the tables of scans. -/
def scanEntry (table : List (List Nat)) : List Nat :=
  table.getD (a.scanIdx * 3 + (a.log2TrafoSize - 2 - 1)) []

def lastSubBlk (x y : Nat) : Nat :=
  if 2 < a.log2TrafoSize then
    (a.scanEntry gapvIhevcScan).getD ((y >>> 2) * (1 <<< (a.log2TrafoSize - 2)) + (x >>> 2)) 0
  else 0

def lastScanPos (x y : Nat) : Nat :=
  (scanRow gau1IhevcScan4x4 a.scanIdx).getD (((y &&& 3) <<< 2) + (x &&& 3)) 0

def sigCoeffBaseCtxt : Nat :=
  if a.cIdx = 0 then
    if a.log2TrafoSize = 3 then
      ihevcCabCoeffFlag + (if a.scanIdx = scanDiagUpright then 9 else 15)
    else if 3 < a.log2TrafoSize then ihevcCabCoeffFlag + 21
    else ihevcCabCoeffFlag
  else
    if a.log2TrafoSize = 3 then ihevcCabCoeffFlag + 27 + 9
    else if 3 < a.log2TrafoSize then ihevcCabCoeffFlag + 27 + 12
    else ihevcCabCoeffFlag + 27

def absGt1BaseCtxt : Nat :=
  if a.cIdx = 0 then ihevcCabCoefabsGrtr1Flag else ihevcCabCoefabsGrtr1Flag + 16

-- ---------------------------------------------------------------------------
-- The flags of a sub-block
-- ---------------------------------------------------------------------------

structure SigSt where
  u4SigCoeffMap : Nat
  numCoeff : Nat
  inferSigCoeffFlag : Bool
  sigCoeffBaseCtxt : Nat

/-- The increment of a context, and the base, which may be changed for good. -/
def sigCtxt (transformSkipFlag : Bool) (i nbrCsbf n sigCoeffBaseCtxt : Nat) : Nat × Nat :=
  if a.i1TransformSkipContextEnabledFlag ∧ (a.i4CuTransquantBypass ∨ transformSkipFlag) then
    (0, ihevcCabCoeffFlag + (if a.cIdx = 0 then 42 else 43))
  else if a.log2TrafoSize = 2 then (gau1IhevcdSigcoeffCtxtincTr4 a.scanIdx n, sigCoeffBaseCtxt)
  else if n ≠ 0 ∨ i ≠ 0 then
    (gau1IhevcdSigcoeffCtxtinc a.scanIdx nbrCsbf n + (if i ≠ 0 ∧ a.cIdx = 0 then 3 else 0),
      sigCoeffBaseCtxt)
  else (0, if a.cIdx = 0 then ihevcCabCoeffFlag else ihevcCabCoeffFlag + 27)

/-- The loop over the positions below `n`. -/
def sigCoeffLoop (transformSkipFlag : Bool) (i nbrCsbf : Nat) : (n : Nat) → SigSt →
    BinReader ρ SigSt
  | 0, st => pure st
  | n + 1, st =>
    if 0 < n ∨ ¬ st.inferSigCoeffFlag then do
      let ctxt := a.sigCtxt transformSkipFlag i nbrCsbf n st.sigCoeffBaseCtxt
      let significantCoeffFlag ← decodeBin (ctxt.1 + ctxt.2)
      sigCoeffLoop transformSkipFlag i nbrCsbf n
        { u4SigCoeffMap := st.u4SigCoeffMap ||| significantCoeffFlag.toNat <<< n
          numCoeff := st.numCoeff + significantCoeffFlag.toNat
          inferSigCoeffFlag := if significantCoeffFlag then false else st.inferSigCoeffFlag
          sigCoeffBaseCtxt := ctxt.2 }
    else sigCoeffLoop transformSkipFlag i nbrCsbf n st

/-- The first coefficient of a sub-block is derived where no other one is there. -/
def SigSt.infer (st : SigSt) : SigSt :=
  if st.inferSigCoeffFlag then
    { st with u4SigCoeffMap := st.u4SigCoeffMap ||| 1, numCoeff := st.numCoeff + 1 }
  else st

structure Greater1St where
  numGreater1Flag : Nat
  gt1Ctxt : Nat
  u4CoeffAbsLevelGreater1Map : Nat

/-- The next `gt1_ctxt`. -/
def nextGt1Ctxt (gt1Ctxt : Nat) (coeffAbsLevelGreater1Flag : Bool) : Nat :=
  if coeffAbsLevelGreater1Flag then 0
  else if gt1Ctxt ≠ 0 ∧ gt1Ctxt < 3 then gt1Ctxt + 1
  else gt1Ctxt

def greater1Body (ctxtSet n : Nat) (st : Greater1St) : BinReader ρ (Bool × Greater1St) :=
  if st.numGreater1Flag < 8 then do
    let flag ← decodeBin (ctxtSet * 4 + a.absGt1BaseCtxt + st.gt1Ctxt)
    pure (true,
      { numGreater1Flag := st.numGreater1Flag + 1
        gt1Ctxt := nextGt1Ctxt st.gt1Ctxt flag
        u4CoeffAbsLevelGreater1Map := st.u4CoeffAbsLevelGreater1Map ||| flag.toNat <<< n })
  else pure (false, st)

/-- `sign_hidden` -/
def signHidden (transformSkipFlag explicitRdpcmFlag : Bool) (lastSigScanPos firstSigScanPos : Nat) :
    Bool :=
  if a.i4CuTransquantBypass ∨ explicitRdpcmFlag ∨
      (a.i4PredMode = predModeIntra ∧ a.i1ImplicitRdpcmEnabledFlag ∧ transformSkipFlag ∧
        (a.intraPredMode = 10 ∨ a.intraPredMode = 26)) then false
  else decide (3 < (lastSigScanPos : Int) - firstSigScanPos)

-- ---------------------------------------------------------------------------
-- The levels of a sub-block
-- ---------------------------------------------------------------------------

/-- The bins of the prefix of `coeff_abs_level_remaining`, of which there are `u4Prefix` already. -/
def remainingPrefix (riceParam : Nat) : (fuel u4Prefix : Nat) → BinReader ρ Nat
  | 0, _ => failure
  | fuel + 1, u4Prefix => do
    let bin ← decodeBypassBin
    if ((u4Prefix + 1 : Nat) : Int) = 19 - riceParam then pure (u4Prefix + 1)
    else if bin then remainingPrefix riceParam fuel (u4Prefix + 1)
    else pure (u4Prefix + 1)

def coeffAbsLevelRemaining (riceParam : Nat) : BinReader ρ Nat := do
  let u4Prefix ← remainingPrefix riceParam 32 0
  let u4Prefix := u4Prefix - 1
  if u4Prefix < 3 then
    if riceParam = 0 then pure (u4Prefix <<< riceParam)
    else do
      let u4Suffix ← decodeBypassBins riceParam 0
      pure ((u4Prefix <<< riceParam) ||| u4Suffix)
  else
    let u4Numbins := u4Prefix - 3 + riceParam
    let remaining := ((1 <<< (u4Prefix - 3)) + 3 - 1) <<< riceParam
    if u4Numbins = 0 then pure remaining
    else do
      let u4Suffix ← decodeBypassBins u4Numbins 0
      pure (remaining + u4Suffix)

/-- What the loop over the levels gets from the flags. -/
structure LevelFlags where
  u4CoeffAbsLevelGreater1Map : Nat
  u4CoeffAbsLevelGreater2Map : Nat
  firstGreater1ScanPos : Int
  firstSigScanPos : Nat
  signHidden : Bool
  sbType : Nat

structure LevelSt where
  ai4RiceStatCoeff : Nat → Nat
  i1UpdateStats : Bool
  riceParam : Nat
  numSigCoeff : Nat
  sumAbsLevel : Nat
  u4CoeffSignMap : Nat
  ai2Level : List Int

def updateStats (sbType remaining : Nat) (st : LevelSt) : LevelSt :=
  if st.i1UpdateStats then
    let stat := st.ai4RiceStatCoeff sbType
    let moved :=
      if 3 <<< (stat / 4) ≤ remaining then stat + 1
      else if 2 * remaining < 1 <<< (stat / 4) ∧ 0 < stat then stat - 1
      else stat
    { st with
      ai4RiceStatCoeff := Memory.set st.ai4RiceStatCoeff sbType moved
      i1UpdateStats := false }
  else st

def updateRice (baseLvl : Nat) (st : LevelSt) : LevelSt :=
  if 3 <<< st.riceParam < baseLvl then
    if a.i1PersistentRiceAdaptationEnabledFlag then { st with riceParam := st.riceParam + 1 }
    else { st with riceParam := min (st.riceParam + 1) 4 }
  else st

/-- The level with its sign, the hidden one included, into `ai2_level`. -/
def storeLevel (f : LevelFlags) (n baseLvl : Nat) (st : LevelSt) : LevelSt :=
  let level : Int := if (st.u4CoeffSignMap >>> 31) &&& 1 = 1 then -baseLvl else baseLvl
  let hidden := a.i1SignDataHidingFlag && f.signHidden
  let sumAbsLevel := if hidden then st.sumAbsLevel + baseLvl else st.sumAbsLevel
  let level := if hidden ∧ n = f.firstSigScanPos ∧ sumAbsLevel % 2 = 1 then -level else level
  { st with
    u4CoeffSignMap := u32 (st.u4CoeffSignMap <<< 1)
    sumAbsLevel := sumAbsLevel
    ai2Level := st.ai2Level ++ [i16 level]
    numSigCoeff := st.numSigCoeff + 1 }

def levelBody (f : LevelFlags) (n : Nat) (st : LevelSt) : BinReader ρ (Bool × LevelSt) := do
  let baseLvl := 1 + ((f.u4CoeffAbsLevelGreater1Map >>> n) &&& 1) +
    ((f.u4CoeffAbsLevelGreater2Map >>> n) &&& 1)
  if baseLvl =
      (if st.numSigCoeff < 8 then (if (n : Int) = f.firstGreater1ScanPos then 3 else 2)
      else 1) then do
    let remaining ← coeffAbsLevelRemaining st.riceParam
    let st := updateStats f.sbType remaining st
    pure (true, a.storeLevel f n (baseLvl + remaining) (a.updateRice (baseLvl + remaining) st))
  else pure (true, a.storeLevel f n baseLvl (a.updateRice baseLvl st))

-- ---------------------------------------------------------------------------
-- A sub-block
-- ---------------------------------------------------------------------------

structure SblkSt where
  au2Csbf : Nat → Nat → Bool
  gt1Ctxt : Nat
  sigCoeffBaseCtxt : Nat
  ai4RiceStatCoeff : Nat → Nat
  sblks : List TuSblkCoeffData

/-- The flags that stand in front of the loops, and the position of the last coefficient. -/
structure BlkFlags where
  transformSkipFlag : Bool
  explicitRdpcmFlag : Bool
  lastSubBlk : Nat
  lastScanPos : Nat

/-- The signs, the first one on top of the word. -/
def parseSigns (numSigns : Nat) : BinReader ρ Nat := do
  let value ← decodeBypassBins numSigns 0
  pure (u32 (value <<< (32 - numSigns)))

def sbType (transformSkipFlag : Bool) : Nat :=
  2 * (if a.cIdx = 0 then 1 else 0) +
    if a.i1PersistentRiceAdaptationEnabledFlag ∧
      ¬(transformSkipFlag = false ∧ a.i4CuTransquantBypass = false) then 1 else 0

/-- `u4_coeff_abs_level_greater2_map`, of the first level above 1. -/
def parseGreater2 (ctxtIdx map1 : Nat) : BinReader ρ Nat :=
  if map1 = 0 then pure 0
  else do
    let flag ← decodeBin ctxtIdx
    pure (flag.toNat <<< (31 - clz map1))

/-- What follows the significance map of a sub-block: its levels, `gt1_ctxt` and the statistics. -/
def parseLevels (b : BlkFlags) (i u4SigCoeffMap numCoeff gt1Ctxt : Nat) (stats : Nat → Nat) :
    BinReader ρ (List Int × Nat × (Nat → Nat)) := do
  let ctxtSet := (if i ≠ 0 ∧ a.cIdx = 0 then 2 else 0) + (if gt1Ctxt = 0 then 1 else 0)
  let g ← overMap (a.greater1Body ctxtSet) u4SigCoeffMap
    { numGreater1Flag := 0, gt1Ctxt := 1, u4CoeffAbsLevelGreater1Map := 0 }
  let lastSigScanPos := 31 - clz u4SigCoeffMap
  let firstSigScanPos := IntraPred.ctz u4SigCoeffMap
  let signHidden := a.signHidden b.transformSkipFlag b.explicitRdpcmFlag lastSigScanPos
    firstSigScanPos
  let map1 := g.u4CoeffAbsLevelGreater1Map
  let firstGreater1ScanPos : Int := if map1 = 0 then -1 else 31 - clz map1
  let map2 ← parseGreater2
    (ihevcCabCoefabsGrtr2Flag + (if a.cIdx = 0 then ctxtSet else ctxtSet + 4)) map1
  let u4CoeffSignMap ←
    parseSigns (if ¬ a.i1SignDataHidingFlag ∨ ¬ signHidden then numCoeff else numCoeff - 1)
  let sbType := a.sbType b.transformSkipFlag
  let st ← overMap
    (a.levelBody
      { u4CoeffAbsLevelGreater1Map := map1
        u4CoeffAbsLevelGreater2Map := map2
        firstGreater1ScanPos := firstGreater1ScanPos
        firstSigScanPos := firstSigScanPos
        signHidden := signHidden
        sbType := sbType }) u4SigCoeffMap
    { ai4RiceStatCoeff := stats
      i1UpdateStats := a.i1PersistentRiceAdaptationEnabledFlag
      riceParam := if a.i1PersistentRiceAdaptationEnabledFlag then stats sbType / 4 else 0
      numSigCoeff := 0
      sumAbsLevel := 0
      u4CoeffSignMap := u4CoeffSignMap
      ai2Level := [] }
  pure (st.ai2Level, g.gt1Ctxt, st.ai4RiceStatCoeff)

def subBlkPos (i : Nat) : Nat :=
  if i ≠ 0 ∧ 2 < a.log2TrafoSize then (a.scanEntry Libhevc.gapvIhevcInvscan).getD i 0 else 0

/-- `coded_sub_block_flag`, which the first and the last sub-block do not have. -/
def parseCsbf (coded : Bool) (nbrCsbf : Nat) : BinReader ρ Bool :=
  if coded then
    decodeBin (ihevcCabCodedSublkIdx + (if nbrCsbf ≠ 0 then 1 else 0) +
      (if a.cIdx ≠ 0 then 2 else 0))
  else pure true

def parseSblk (b : BlkFlags) (i : Nat) (st : SblkSt) : BinReader ρ SblkSt := do
  let subBlkPos := a.subBlkPos i
  let xs := subBlkPos &&& ((1 <<< (a.log2TrafoSize - 2)) - 1)
  let ys := subBlkPos >>> (a.log2TrafoSize - 2)
  let nbrCsbf := ((st.au2Csbf (ys + 1) xs).toNat <<< 1) ||| (st.au2Csbf ys (xs + 1)).toNat
  let coded := decide (i < b.lastSubBlk ∧ 0 < i)
  let curCsbf ← a.parseCsbf coded nbrCsbf
  let st := { st with
    au2Csbf := fun y x => if y = ys ∧ x = xs then curCsbf else st.au2Csbf y x }
  if curCsbf then do
    let last := decide (i = b.lastSubBlk)
    let sig ← a.sigCoeffLoop b.transformSkipFlag i nbrCsbf (if last then b.lastScanPos else 16)
      { u4SigCoeffMap := if last then 1 <<< b.lastScanPos else 0
        numCoeff := if last then 1 else 0
        inferSigCoeffFlag := coded
        sigCoeffBaseCtxt := st.sigCoeffBaseCtxt }
    let sig := sig.infer
    let st := { st with sigCoeffBaseCtxt := sig.sigCoeffBaseCtxt }
    if sig.numCoeff = 0 then pure st
    else do
      let r ← a.parseLevels b i sig.u4SigCoeffMap sig.numCoeff st.gt1Ctxt st.ai4RiceStatCoeff
      pure { st with
        gt1Ctxt := r.2.1
        ai4RiceStatCoeff := r.2.2
        sblks := st.sblks ++ [⟨xs, ys, sig.u4SigCoeffMap, r.1⟩] }
  else pure st

/-- The loop over the sub-blocks below `n`. -/
def parseSblks (b : BlkFlags) : (n : Nat) → SblkSt → BinReader ρ SblkSt
  | 0, st => pure st
  | n + 1, st => do
    let st ← a.parseSblk b n st
    parseSblks b n st

end ResidualArgs

open ResidualArgs in
/-- `ihevcd_parse_residual_coding`; `stats` is `ai4_rice_stat_coeff`. -/
def ihevcdParseResidualCodingBins (a : ResidualArgs) (stats : Nat → Nat) :
    BinReader ρ (TuCoeffData × (Nat → Nat)) := do
  let transformSkipFlag ← a.parseTransformSkipFlag
  let rdpcm ← a.parseExplicitRdpcm transformSkipFlag
  let last ← a.parseLast
  let x := if a.scanIdx = scanVert then last.2 else last.1
  let y := if a.scanIdx = scanVert then last.1 else last.2
  let b : BlkFlags :=
    { transformSkipFlag := transformSkipFlag
      explicitRdpcmFlag := rdpcm.1
      lastSubBlk := a.lastSubBlk x y
      lastScanPos := a.lastScanPos x y }
  let st ← a.parseSblks b (b.lastSubBlk + 1)
    { au2Csbf := fun _ _ => false
      gt1Ctxt := 1
      sigCoeffBaseCtxt := a.sigCoeffBaseCtxt
      ai4RiceStatCoeff := stats
      sblks := [] }
  pure ({ scanIdx := a.scanIdx
          transformSkipFlag := transformSkipFlag
          explicitRdpcmFlag := rdpcm.1
          explicitRdpcmDir := rdpcm.2
          sblks := st.sblks }, st.ai4RiceStatCoeff)

end Libhevc.Decoder
