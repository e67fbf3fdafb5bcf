import Libhevc.Encoder.Bins
import Libhevc.Encoder.ScanCoeffs

/-!
# The residual coding writer

`ihevce_cabac_residue_encode` of `ihevce_cabac_tu.c`, from the compressed
coefficients of a block to its bins. It asserts that transform skip is off.
-/

namespace Libhevc.Encoder

def gu1HevceLastCoeffPrefix (i : Nat) : Nat :=
  [0, 1, 2, 3, 4, 4, 5, 5, 6, 6, 6, 6, 7, 7, 7, 7, 8, 8, 8, 8, 8, 8, 8, 8, 9, 9, 9, 9, 9, 9, 9,
    9].getD i 0

def gu1HevceLastCoeffPrefixCode (i : Nat) : Nat := [0, 1, 2, 3, 4, 6, 8, 12, 16, 24].getD i 0

/-- `gu1_hevce_scan4x4[scan_type][scan_pos]` -/
def gu1HevceScan4x4 (scanType scanPos : Nat) : Nat :=
  ([[0, 4, 1, 8, 5, 2, 12, 9, 6, 3, 13, 10, 7, 14, 11, 15],
    [0, 1, 2, 3, 4, 5, 6, 7, 8, 9, 10, 11, 12, 13, 14, 15],
    [0, 4, 8, 12, 1, 5, 9, 13, 2, 6, 10, 14, 3, 7, 11, 15]].getD scanType []).getD scanPos 0

def gu1HevceSigcoeffCtxtinc (nbrCsbf yPosXPos : Nat) : Nat :=
  ([[2, 1, 1, 0, 1, 1, 0, 0, 1, 0, 0, 0, 0, 0, 0, 0],
    [2, 2, 2, 2, 1, 1, 1, 1, 0, 0, 0, 0, 0, 0, 0, 0],
    [2, 1, 0, 0, 2, 1, 0, 0, 2, 1, 0, 0, 2, 1, 0, 0],
    [2, 2, 2, 2, 2, 2, 2, 2, 2, 2, 2, 2, 2, 2, 2, 2]].getD nbrCsbf []).getD yPosXPos 0

def gu1HevceSigcoeffCtxtincTr4 (yPosXPos : Nat) : Nat :=
  [0, 1, 4, 5, 2, 3, 4, 5, 6, 6, 8, 8, 7, 7, 8, 0].getD yPosXPos 0

/-- What is read besides the buffer; the bypass flag is read of a field that is not set. -/
structure ResidueArgs where
  log2TrSize : Nat
  isLuma : Bool
  i1SignDataHidingFlag : Bool
  i1TransformSkipEnabledFlag : Bool

namespace ResidueArgs

variable (a : ResidueArgs)

/-- The suffix of a coordinate. -/
def encodeLastSuffix (lastCoeff : Nat) : List (Bin ρ) :=
  let lastPrefix := gu1HevceLastCoeffPrefix lastCoeff
  if 3 < lastPrefix then
    bypassBins (lastCoeff - gu1HevceLastCoeffPrefixCode lastPrefix) ((lastPrefix - 2) >>> 1)
  else []

/-- The prefix of a coordinate. -/
def encodeLastPrefix (ctxtIdx lastCoeff : Nat) : List (Bin ρ) :=
  let lastPrefix := gu1HevceLastCoeffPrefix lastCoeff
  let cMax := gu1HevceLastCoeffPrefix ((1 <<< a.log2TrSize) - 1)
  if a.isLuma then
    let ctxOffset := 3 * (a.log2TrSize - 2) + ((a.log2TrSize - 1) >>> 2)
    ihevceCabacEncodeTunary lastPrefix cMax (ctxtIdx + ctxOffset) ((a.log2TrSize + 1) >>> 2) cMax
  else ihevceCabacEncodeTunary lastPrefix cMax (ctxtIdx + 15) (a.log2TrSize - 2) cMax

def ihevceCabacEncodeLastCoeffXY (lastCoeffX lastCoeffY : Nat) : List (Bin ρ) :=
  a.encodeLastPrefix ihevcCabCoeffxPrefix lastCoeffX ++
    (a.encodeLastPrefix ihevcCabCoeffyPrefix lastCoeffY ++
      (encodeLastSuffix lastCoeffX ++ encodeLastSuffix lastCoeffY))

def sigCoeffBaseCtxt (scanType : Nat) : Nat :=
  if a.isLuma then
    if a.log2TrSize = 3 then ihevcCabCoeffFlag + (if scanType = scanDiagUpright then 9 else 15)
    else if 3 < a.log2TrSize then ihevcCabCoeffFlag + 21
    else ihevcCabCoeffFlag
  else
    if a.log2TrSize = 3 then ihevcCabCoeffFlag + 27 + 9
    else if 3 < a.log2TrSize then ihevcCabCoeffFlag + 27 + 12
    else ihevcCabCoeffFlag + 27

def absGt1BaseCtxt : Nat :=
  if a.isLuma then ihevcCabCoefabsGrtr1Flag else ihevcCabCoefabsGrtr1Flag + 16

-- ---------------------------------------------------------------------------
-- The flags of a sub-block
-- ---------------------------------------------------------------------------

/-- What the loop over the positions gathers. -/
structure SigSt where
  gt1Bins : Nat
  signBins : Nat
  numCoded : Nat
  inferCoeff : Bool
  firstScanPos : Int
  lastScanPos : Int
  sigCoeffBaseCtxt : Nat

/-- The increment of a context, and the base, which may be changed for good. -/
def sigCtxt (scanType i nbrCsbf scanPos sigCoeffBaseCtxt : Nat) : Nat × Nat :=
  let yPosXPos := gu1HevceScan4x4 scanType scanPos
  if a.log2TrSize = 2 then (gu1HevceSigcoeffCtxtincTr4 yPosXPos, sigCoeffBaseCtxt)
  else if scanPos ≠ 0 ∨ i ≠ 0 then
    (gu1HevceSigcoeffCtxtinc nbrCsbf yPosXPos + (if i ≠ 0 ∧ a.isLuma then 3 else 0),
      sigCoeffBaseCtxt)
  else (0, if a.isLuma then ihevcCabCoeffFlag else ihevcCabCoeffFlag + 27)

/-- The loop over the positions below `n`. -/
def sigCoeffLoop (scanType i nbrCsbf sigCoeffMap gt1Flags signFlags : Nat) : (n : Nat) → SigSt →
    List (Bin ρ) × SigSt
  | 0, st => ([], st)
  | scanPos + 1, st =>
    let sigCoeff := sigCoeffMap.testBit scanPos
    let ctxt := a.sigCtxt scanType i nbrCsbf scanPos st.sigCoeffBaseCtxt
    let bins : List (Bin ρ) :=
      if scanPos ≠ 0 ∨ ¬ st.inferCoeff then [.ctxt (ctxt.1 + ctxt.2) sigCoeff] else []
    let st := { st with sigCoeffBaseCtxt := ctxt.2 }
    let st :=
      if sigCoeff then
        { st with
          gt1Bins := st.gt1Bins <<< 1 ||| (gt1Flags.testBit scanPos).toNat
          signBins := st.signBins <<< 1 ||| (signFlags.testBit scanPos).toNat
          numCoded := st.numCoded + 1
          inferCoeff := false
          lastScanPos := if st.lastScanPos = -1 then scanPos else st.lastScanPos
          firstScanPos := scanPos }
      else st
    let r := sigCoeffLoop scanType i nbrCsbf sigCoeffMap gt1Flags signFlags scanPos st
    (bins ++ r.1, r.2)

/-- The flags of the levels above 1 below bit `n`, with the next `gt1_ctxt` and the number of
them that are set. -/
def gt1Loop (ctxtSet gt1Bins : Nat) : (n : Nat) → (gt1Ctxt numCoeffsRemaining : Nat) →
    List (Bin ρ) × Nat × Nat
  | 0, gt1Ctxt, numCoeffsRemaining => ([], gt1Ctxt, numCoeffsRemaining)
  | j + 1, gt1Ctxt, numCoeffsRemaining =>
    let bit := gt1Bins.testBit j
    let r := gt1Loop ctxtSet gt1Bins j
      (if bit then 0 else if gt1Ctxt ≠ 0 ∧ gt1Ctxt < 3 then gt1Ctxt + 1 else gt1Ctxt)
      (if bit then numCoeffsRemaining + 1 else numCoeffsRemaining)
    (.ctxt (ctxtSet * 4 + a.absGt1BaseCtxt + gt1Ctxt) bit :: r.1, r.2)

-- ---------------------------------------------------------------------------
-- The remaining levels
-- ---------------------------------------------------------------------------

/-- `coeff_abs_level_remaining` -/
def encodeAbsCoeffRem (absCoeffRem riceParam : Nat) : List (Bin ρ) :=
  let riceMax := 4 <<< riceParam
  if riceMax ≤ absCoeffRem then
    bypassBins 0xF 4 ++ ihevceCabacEncodeEgk (absCoeffRem - riceMax) (riceParam + 1)
  else ihevceCabacEncodeTruncRice absCoeffRem riceParam riceMax

/-- The loop over the remaining levels from `j` on, of which `n` are left. -/
def remLoop (numCoeffsRemaining numCoeffsBase1 : Nat) :
    (n j : Nat) → (buf : List Nat) → (riceParam baseLevel : Nat) → List (Bin ρ)
  | 0, _, _, _, _ => []
  | n + 1, j, buf, riceParam, baseLevel =>
    let absCoeff := buf.getD 0 0 + 1
    encodeAbsCoeffRem (absCoeff - baseLevel) riceParam ++
      remLoop numCoeffsRemaining numCoeffsBase1 n (j + 1) (buf.drop 1)
        (if 3 <<< riceParam < absCoeff ∧ riceParam < 4 then riceParam + 1 else riceParam)
        (if j + 1 < numCoeffsRemaining - numCoeffsBase1 then 2 else 1)

-- ---------------------------------------------------------------------------
-- A sub-block
-- ---------------------------------------------------------------------------

structure CsbSt where
  buf : List Nat
  gt1Ctxt : Nat
  sigCoeffBaseCtxt : Nat

/-- What is there before the loop over the positions: for the last sub-block the last coefficient,
which has been coded with its coordinates. -/
def sigStart (i lastCsb sigCoeffMap gt1Flags signFlags sigCoeffBaseCtxt : Nat) : Nat × SigSt :=
  let inferCoeff := decide (i < lastCsb ∧ 0 < i)
  if i = lastCsb then
    let scanPos := 32 - (clz sigCoeffMap + 1)
    (scanPos,
      { gt1Bins := (gt1Flags.testBit scanPos).toNat
        signBins := (signFlags.testBit scanPos).toNat
        numCoded := 1
        inferCoeff := inferCoeff
        firstScanPos := 16
        lastScanPos := scanPos
        sigCoeffBaseCtxt := sigCoeffBaseCtxt })
  else
    (16,
      { gt1Bins := 0
        signBins := 0
        numCoded := 0
        inferCoeff := inferCoeff
        firstScanPos := 16
        lastScanPos := -1
        sigCoeffBaseCtxt := sigCoeffBaseCtxt })

/-- What follows the significance map of a sub-block; `buf` is behind its three words of flags. -/
def encodeLevels (i gt1Ctxt : Nat) (sig : SigSt) (buf : List Nat) :
    List (Bin ρ) × List Nat × Nat :=
  let signHidden := decide (3 < sig.lastScanPos - sig.firstScanPos) &&
    !a.i1TransformSkipEnabledFlag
  let ctxtSet := (if i ≠ 0 ∧ a.isLuma then 2 else 0) + (if gt1Ctxt = 0 then 1 else 0)
  let gt1Bins :=
    if 8 < sig.numCoded then sig.gt1Bins >>> (sig.numCoded - 8) else sig.gt1Bins
  let numCoeffsBase1 := if 8 < sig.numCoded then sig.numCoded - 8 else 0
  let g := a.gt1Loop ctxtSet gt1Bins (min 8 sig.numCoded) 1 numCoeffsBase1
  let firstGt1Coeff := if gt1Bins ≠ 0 then buf.getD 0 0 + 1 else 0
  let gt2Bin := decide (2 < firstGt1Coeff)
  let gt2Bins : List (Bin ρ) :=
    if gt1Bins ≠ 0 then
      [.ctxt (ihevcCabCoefabsGrtr2Flag + (if a.isLuma then ctxtSet else ctxtSet + 4)) gt2Bin]
    else []
  -- a level of 2 is not coded again
  let skip := decide (gt1Bins ≠ 0) && !gt2Bin
  let buf := if skip then buf.drop 1 else buf
  let numCoeffsRemaining := if skip then g.2.2 - 1 else g.2.2
  let hide := signHidden && a.i1SignDataHidingFlag
  let signBins := if hide then sig.signBins >>> 1 else sig.signBins
  let numSigns := if hide then sig.numCoded - 1 else sig.numCoded
  let baseLevel :=
    if 2 < firstGt1Coeff then 3 else if numCoeffsBase1 < numCoeffsRemaining then 2 else 1
  if sig.numCoded = 0 then (g.1 ++ gt2Bins, buf, g.2.1)
  else
    (g.1 ++ (gt2Bins ++ (bypassBins signBins numSigns ++
      remLoop numCoeffsRemaining numCoeffsBase1 numCoeffsRemaining 0 buf 0 baseLevel)),
      buf.drop numCoeffsRemaining, g.2.1)

def encodeCsb (scanType i lastCsb : Nat) (st : CsbSt) : List (Bin ρ) × CsbSt :=
  let markerCsbf := st.buf.getD 0 0
  let buf := st.buf.drop 1
  let curCsbf := markerCsbf &&& 0x1
  let nbrCsbf := (markerCsbf >>> 1) &&& 0x3
  let csbfBins : List (Bin ρ) :=
    if i < lastCsb ∧ 0 < i then
      [.ctxt (ihevcCabCodedSublkIdx + (if nbrCsbf ≠ 0 then 1 else 0) +
        (if a.isLuma then 0 else 2)) (decide (curCsbf ≠ 0))]
    else []
  if curCsbf ≠ 0 then
    let gt0Flags := buf.getD 0 0
    let gt1Flags := buf.getD 1 0
    let signFlags := buf.getD 2 0
    let start := sigStart i lastCsb gt0Flags gt1Flags signFlags st.sigCoeffBaseCtxt
    let sig := a.sigCoeffLoop scanType i nbrCsbf gt0Flags gt1Flags signFlags start.1 start.2
    let r := a.encodeLevels i st.gt1Ctxt sig.2 (buf.drop 3)
    (csbfBins ++ (sig.1 ++ r.1),
      { buf := r.2.1, gt1Ctxt := r.2.2, sigCoeffBaseCtxt := sig.2.sigCoeffBaseCtxt })
  else (csbfBins, { st with buf := buf })

/-- The loop over the sub-blocks below `n`. -/
def encodeCsbs (scanType lastCsb : Nat) : (n : Nat) → CsbSt → List (Bin ρ)
  | 0, _ => []
  | n + 1, st =>
    let r := a.encodeCsb scanType n lastCsb st
    r.1 ++ encodeCsbs scanType lastCsb n r.2

end ResidueArgs

def ihevceCabacResidueEncode (a : ResidueArgs) (coeff : CoeffBuf) : List (Bin ρ) :=
  let x := if coeff.scanType = scanVert then coeff.lastCoeffY else coeff.lastCoeffX
  let y := if coeff.scanType = scanVert then coeff.lastCoeffX else coeff.lastCoeffY
  a.ihevceCabacEncodeLastCoeffXY x y ++
    a.encodeCsbs coeff.scanType coeff.lastSubblockNum (coeff.lastSubblockNum + 1)
      { buf := coeff.words
        gt1Ctxt := 1
        sigCoeffBaseCtxt := a.sigCoeffBaseCtxt coeff.scanType }

end Libhevc.Encoder
