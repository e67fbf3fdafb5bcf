import Libhevc.Common.CodingUnit
import Libhevc.Decoder.Bins
import Libhevc.Decoder.CuCtxt
import Libhevc.Decoder.ParameterSets

/-!
# The coding unit parser

`ihevcd_parse_coding_quadtree` and what it calls, up to the transform tree, which is a piece of
the stream with a grammar of its own. The maps of depths and skip flags are those of
`CuMaps`; PCM and the bypass of transform and quantization are off, and the chroma
format is 4:2:0.
-/

namespace Libhevc.Decoder.CuSyntax

-- ---------------------------------------------------------------------------
-- Prediction units
-- ---------------------------------------------------------------------------

/-- What of one component follows the two flags. -/
def parseMvdRest (greater0 greater1 : Bool) : BinReader ρ Int := do
  let value ← (if greater1 then ihevcdCabacDecodeBypassBinsEgk 1 else pure 0)
  let absMvd := if greater0 then (if greater1 then value + 2 else 1) else 0
  let sign ← (if greater0 then decodeBypassBin else pure false)
  pure (i16 (if sign then -(absMvd : Int) else absMvd))

def ihevcdParseMvd : BinReader ρ Mv := do
  let greater0X ← decodeBin ihevcCabMvdGrt0
  let greater0Y ← decodeBin ihevcCabMvdGrt0
  let greater1X ← (if greater0X then decodeBin ihevcCabMvdGrt1 else pure false)
  let greater1Y ← (if greater0Y then decodeBin ihevcCabMvdGrt1 else pure false)
  let mvx ← parseMvdRest greater0X greater1X
  let mvy ← parseMvdRest greater0Y greater1Y
  pure { i2Mvx := mvx, i2Mvy := mvy }

def parseMergeIdx (maxNumMergeCand : Nat) : BinReader ρ Nat := do
  let bin ← (if 1 < maxNumMergeCand then decodeBin ihevcCabMergeIdxExt else pure false)
  let mergeIdx ←
    (if 2 < maxNumMergeCand ∧ bin = true then
      ihevcdCabacDecodeBypassBinsTunary (maxNumMergeCand - 2)
    else pure 0)
  pure (if bin then mergeIdx + 1 else 0)

/-- `inter_pred_idc` of a B slice -/
def parseInterPredIdc (ctDepth puWPlusPuH : Nat) : BinReader ρ PredMode := do
  let isBipred ←
    (if puWPlusPuH = 12 then pure false else decodeBin (ihevcCabInterPredIdc + ctDepth))
  let bin ← (if isBipred = false then decodeBin (ihevcCabInterPredIdc + 4) else pure false)
  pure (if isBipred then .predBi else if bin then .predL1 else .predL0)

def parseRefIdx (activeRefs : Nat) : BinReader ρ Nat := do
  let first ← (if 1 < activeRefs then decodeBin ihevcCabInterRefIdx else pure false)
  let second ←
    (if 2 < activeRefs ∧ first = true then decodeBin (ihevcCabInterRefIdx + 1) else pure false)
  let rest ←
    (if 3 < activeRefs ∧ second = true then ihevcdCabacDecodeBypassBinsTunary (activeRefs - 3)
    else pure 0)
  -- the clip to the DPB
  pure (min (first.toNat + second.toNat + rest) (maxDpbSize - 1))

/-- Index, difference and predictor for one list, if the list is used. -/
def parseListMotion (used : Bool) (activeRefs : Nat) (zeroMvd : Bool) :
    BinReader ρ (Int × Mv × Bool) := do
  let refIdx ← (if used then parseRefIdx activeRefs else pure 0)
  let mvd ← (if used = true ∧ zeroMvd = false then ihevcdParseMvd else pure Mv.zero)
  let mvp ← (if used then decodeBin ihevcCabMvpL0L1 else pure false)
  pure ((refIdx : Int), mvd, mvp)

def ihevcdParsePuMvp (h : CuHeader) (ctDepth : Nat) (pu : PuSyntax) : BinReader ρ PuSyntax := do
  let interPredIdc ←
    (if h.i1SliceType = .bslice then parseInterPredIdc ctDepth pu.wPlusH else pure .predL0)
  let l0 ← parseListMotion (interPredIdc ≠ .predL1) h.i1NumRefIdxL0Active false
  let l1 ← parseListMotion (interPredIdc ≠ .predL0) h.i1NumRefIdxL1Active
    (h.i1MvdL1ZeroFlag && decide (interPredIdc = .predBi))
  pure { pu with
    b2PredMode := interPredIdc
    b1L0MvpIdx := l0.2.2
    b1L1MvpIdx := l1.2.2
    mv := { sL0Mv := l0.2.1, sL1Mv := l1.2.1, i1L0RefIdx := l0.1, i1L1RefIdx := l1.1 } }

/-- `memset` of the prediction unit, with its place in the coding unit. -/
def initPu (partMode : PartMode) (partIdx posX posY wd ht : Nat) : PuSyntax where
  b4PosX := posX >>> 2
  b4PosY := posY >>> 2
  b4Wd := (wd >>> 2) - 1
  b4Ht := (ht >>> 2) - 1
  b1IntraFlag := false
  b3PartMode := partMode
  b2PartIdx := partIdx
  b1MergeFlag := false
  b3MergeIdx := 0
  b2PredMode := .predL0
  b1L0MvpIdx := false
  b1L1MvpIdx := false
  mv := { sL0Mv := .zero, sL1Mv := .zero, i1L0RefIdx := 0, i1L1RefIdx := 0 }

/-- `pu` has the place of the unit, and nothing more. -/
def ihevcdParsePredictionUnit (h : CuHeader) (skip : Bool) (ctDepth : Nat) (pu : PuSyntax) :
    BinReader ρ PuSyntax := do
  let mergeFlag ← (if skip then pure true else decodeBin ihevcCabMergeFlagExt)
  let mergeIdx ← (if mergeFlag then parseMergeIdx h.i1MaxNumMergeCand else pure 0)
  let pu := { pu with b1MergeFlag := mergeFlag, b3MergeIdx := mergeIdx }
  if mergeFlag then pure pu else ihevcdParsePuMvp h ctDepth pu

-- ---------------------------------------------------------------------------
-- Coding units
-- ---------------------------------------------------------------------------

/-- `gau1_part_mode_amp`; 0xFF is no mode. -/
def gau1PartModeAmp : List (Option PartMode) :=
  [some .partnLx2N, some .partnRx2N, some .partNx2N, none, some .part2NxnU, some .part2NxnD,
    some .part2NxN, none]

def ihevcdParsePartModeAmp : BinReader ρ PartMode := do
  let bin0 ← decodeBin ihevcCabPartMode
  if bin0 then pure .part2Nx2N
  else do
    let bin1 ← decodeBin (ihevcCabPartMode + 1)
    let bin2 ← decodeBin (ihevcCabPartMode + 3)
    let bin3 ← (if bin2 = false then decodeBypassBin else pure false)
    StateT.lift (gau1PartModeAmp.getD (4 * bin1.toNat + 2 * bin2.toNat + bin3.toNat) none)

/-- The modes without AMP, by the number of zeros in front. -/
def partModeOf : Nat → PartMode
  | 0 => .part2Nx2N
  | 1 => .part2NxN
  | 2 => .partNx2N
  | _ => .partNxN

/-- The loop of the other inter modes, `n` bins before the maximum: the zeros in front of a one. -/
def partModeLoop : (n ctxtInc partMode : Nat) → BinReader ρ Nat
  | 0, _, partMode => pure partMode
  | n + 1, ctxtInc, partMode => do
    let bin ← decodeBin ctxtInc
    if bin then pure partMode else partModeLoop n (ctxtInc + 1) (partMode + 1)

def parsePartMode (intra isMincb ampEnabled : Bool) (cbSize : Nat) : BinReader ρ PartMode :=
  if intra then
    if isMincb then do
      let bin ← decodeBin ihevcCabPartMode
      pure (if bin then .part2Nx2N else .partNxN)
    else pure .part2Nx2N
  else if ampEnabled = true ∧ isMincb = false then ihevcdParsePartModeAmp
  else do
    let partMode ← partModeLoop (if isMincb = true ∧ 8 < cbSize then 3 else 2) ihevcCabPartMode 0
    pure (partModeOf partMode)

/-- The luma mode of a part as the stream has it. -/
inductive LumaMode
  | mpm (mpmIdx : Nat)
  | rem (remIntraLumaPredMode : Nat)
  deriving DecidableEq, Repr

def parseLumaMode (prevIntraLumaPredFlag : Bool) : BinReader ρ LumaMode :=
  if prevIntraLumaPredFlag then do
    let value ← ihevcdCabacDecodeBypassBinsTunary 2
    pure (.mpm value)
  else do
    let value ← decodeBypassBins 5 0
    pure (.rem value)

/-- The luma modes and the chroma mode, which is 4 where it is that of luma. -/
def ihevcdParseCodingUnitIntra (partMode : PartMode) : BinReader ρ (List LumaMode × Nat) := do
  let flags ← (List.range (if partMode = .partNxN then 4 else 1)).mapM fun _ =>
    decodeBin ihevcCabIntraLumaPredFlag
  let modes ← flags.mapM parseLumaMode
  let bin ← decodeBin ihevcCabChromaPredMode
  let chroma ← (if bin then decodeBypassBins 2 0 else pure 4)
  pure (modes, chroma)

/-- The prediction units of a coding unit in order: offset and size of each. -/
def partRects (partMode : PartMode) (cbSize : Nat) : List (Nat × Nat × Nat × Nat) :=
  match partMode with
  | .part2Nx2N => [(0, 0, cbSize, cbSize)]
  | .part2NxN => [(0, 0, cbSize, cbSize / 2), (0, cbSize / 2, cbSize, cbSize / 2)]
  | .partNx2N => [(0, 0, cbSize / 2, cbSize), (cbSize / 2, 0, cbSize / 2, cbSize)]
  | .part2NxnU => [(0, 0, cbSize, cbSize / 4), (0, cbSize / 4, cbSize, cbSize * 3 / 4)]
  | .part2NxnD => [(0, 0, cbSize, cbSize * 3 / 4), (0, cbSize * 3 / 4, cbSize, cbSize / 4)]
  | .partnLx2N => [(0, 0, cbSize / 4, cbSize), (cbSize / 4, 0, cbSize * 3 / 4, cbSize)]
  | .partnRx2N => [(0, 0, cbSize * 3 / 4, cbSize), (cbSize * 3 / 4, 0, cbSize / 4, cbSize)]
  | .partNxN =>
    [(0, 0, cbSize / 2, cbSize / 2), (cbSize / 2, 0, cbSize / 2, cbSize / 2),
      (0, cbSize / 2, cbSize / 2, cbSize / 2), (cbSize / 2, cbSize / 2, cbSize / 2, cbSize / 2)]

/-- The places of the units; the coding unit is at `(posX, posY)` in the CTB. -/
def initPus (partMode : PartMode) (posX posY cbSize : Nat) : List PuSyntax :=
  (partRects partMode cbSize).zipIdx.map fun r =>
    initPu partMode r.2 (posX + r.1.1) (posY + r.1.2.1) r.1.2.2.1 r.1.2.2.2

/-- What has been parsed of a coding unit; `tree` is there unless the residual is not. -/
structure ParsedCu (τ : Type) where
  x0 : Nat
  y0 : Nat
  log2CbSize : Nat
  skipFlag : Bool
  intra : Bool
  partMode : PartMode
  pus : List PuSyntax
  lumaModes : List LumaMode
  chromaMode : Option Nat
  tree : Option τ

/-- The transform tree of a block of the size. -/
def parseTree (log2CbSize : Nat) : BinReader (TreePiece τ) τ
  | .piece t :: bins => if t.log2CbSize = log2CbSize then some (t.tree, bins) else none
  | _ => none

/-- What is fixed for the coding units of a CTB. -/
structure CuParser extends CuPlace where
  hdr : CuHeader
  i1AmpEnabledFlag : Bool

namespace CuParser

variable (c : CuParser)

/-- The prediction units of an inter coding unit, or of a skipped one. -/
def parsePus (skip : Bool) (partMode : PartMode) (x0 y0 cbSize ctDepth : Nat) :
    BinReader ρ (List PuSyntax) :=
  (initPus partMode (x0 - c.pos.i4CtbX <<< c.sps.i1Log2CtbSize)
    (y0 - c.pos.i4CtbY <<< c.sps.i1Log2CtbSize) cbSize).mapM
    (ihevcdParsePredictionUnit c.hdr skip ctDepth)

/-- `rqt_root_cbf`, and the tree if it is there. -/
def parseResidual (coded : Bool) (log2CbSize : Nat) : BinReader (TreePiece τ) (Option τ) := do
  let rootCbf ← (if coded then decodeBin ihevcCabNoresIdx else pure true)
  if rootCbf then do
    let tree ← parseTree log2CbSize
    pure (some tree)
  else pure none

def parseIntraCu (cu : ParsedCu τ) : BinReader (TreePiece τ) (ParsedCu τ) := do
  let modes ← ihevcdParseCodingUnitIntra cu.partMode
  let tree ← parseResidual false cu.log2CbSize
  pure { cu with lumaModes := modes.1, chromaMode := some modes.2, tree := tree }

/-- The flag of the last unit counts. -/
def mergedCu (partMode : PartMode) (pus : List PuSyntax) : Bool :=
  decide (partMode = .part2Nx2N) && pus.getLast?.any PuSyntax.b1MergeFlag

def parseInterCu (ctDepth : Nat) (cu : ParsedCu τ) : BinReader (TreePiece τ) (ParsedCu τ) := do
  let pus ← c.parsePus false cu.partMode cu.x0 cu.y0 (2 ^ cu.log2CbSize) ctDepth
  let tree ← parseResidual (!mergedCu cu.partMode pus) cu.log2CbSize
  pure { cu with pus := pus, tree := tree }

/-- A coding unit that is not skipped. -/
def parseUnskipped (x0 y0 log2CbSize ctDepth : Nat) : BinReader (TreePiece τ) (ParsedCu τ) := do
  let isMincb := decide (2 ^ log2CbSize = 2 ^ c.sps.i1Log2MinCodingBlockSize)
  let intra ← (if c.isIslice then pure true else decodeBin ihevcCabPredMode)
  let partMode ← parsePartMode intra isMincb c.i1AmpEnabledFlag (2 ^ log2CbSize)
  let cu : ParsedCu τ :=
    { x0, y0, log2CbSize, skipFlag := false, intra, partMode, pus := [], lumaModes := [],
      chromaMode := none, tree := none }
  if intra then parseIntraCu cu else c.parseInterCu ctDepth cu

def ihevcdParseCodingUnit (x0 y0 log2CbSize ctDepth : Nat) (m : CuMaps) :
    BinReader (TreePiece τ) (CuMaps × ParsedCu τ) := do
  let skipFlag ←
    (if c.isIslice then pure false
    else decodeBin (ihevcCabSkipFlag + c.skipInc m x0 y0))
  let m := m.setSkip x0 y0 (2 ^ log2CbSize) skipFlag
  if skipFlag then do
    let pus ← c.parsePus true .part2Nx2N x0 y0 (2 ^ log2CbSize) ctDepth
    pure (m, { x0, y0, log2CbSize, skipFlag := true, intra := false, partMode := .part2Nx2N,
               pus := pus, lumaModes := [], chromaMode := none, tree := none })
  else do
    let cu ← c.parseUnskipped x0 y0 log2CbSize ctDepth
    pure (m, cu)

-- ---------------------------------------------------------------------------
-- The quadtree
-- ---------------------------------------------------------------------------

/-- `split_cu_flag`, decoded or inferred. -/
def parseSplitCuFlag (x0 y0 log2CbSize ctDepth : Nat) (m : CuMaps) : BinReader ρ Bool :=
  if x0 + 2 ^ log2CbSize ≤ c.sps.i2PicWidthInLumaSamples ∧
      y0 + 2 ^ log2CbSize ≤ c.sps.i2PicHeightInLumaSamples ∧
      c.sps.i1Log2MinCodingBlockSize < log2CbSize then
    decodeBin (ihevcCabSplitCuFlag + c.splitInc m x0 y0 ctDepth)
  else pure (decide (c.sps.i1Log2MinCodingBlockSize < log2CbSize))

/-- The leaf, behind those that have been parsed. -/
def parseCu (x0 y0 log2CbSize ctDepth : Nat) (s : CuMaps × List (ParsedCu τ)) :
    BinReader (TreePiece τ) (CuMaps × List (ParsedCu τ)) := do
  let r ← c.ihevcdParseCodingUnit x0 y0 log2CbSize ctDepth
    (s.1.setDepth x0 y0 (2 ^ log2CbSize) ctDepth)
  pure (r.1, s.2 ++ [r.2])

def ihevcdParseCodingQuadtree : (log2CbSize x0 y0 ctDepth : Nat) → CuMaps × List (ParsedCu τ) →
    BinReader (TreePiece τ) (CuMaps × List (ParsedCu τ))
  | 0, x0, y0, ctDepth, s => c.parseCu x0 y0 0 ctDepth s
  | n + 1, x0, y0, ctDepth, s => do
    let split ← c.parseSplitCuFlag x0 y0 (n + 1) ctDepth s.1
    if split then do
      let x1 := x0 + 2 ^ n
      let y1 := y0 + 2 ^ n
      let s ← ihevcdParseCodingQuadtree n x0 y0 (ctDepth + 1) s
      let s ← (if x1 < c.sps.i2PicWidthInLumaSamples then
          ihevcdParseCodingQuadtree n x1 y0 (ctDepth + 1) s else pure s)
      let s ← (if y1 < c.sps.i2PicHeightInLumaSamples then
          ihevcdParseCodingQuadtree n x0 y1 (ctDepth + 1) s else pure s)
      (if x1 < c.sps.i2PicWidthInLumaSamples ∧ y1 < c.sps.i2PicHeightInLumaSamples then
          ihevcdParseCodingQuadtree n x1 y1 (ctDepth + 1) s else pure s)
    else c.parseCu x0 y0 (n + 1) ctDepth s

/-- The coding units of a CTB in the loop of `ihevcd_parse_slice_data`. -/
def parseCtb (m : CuMaps) : BinReader (TreePiece τ) (CuMaps × List (ParsedCu τ)) :=
  c.ihevcdParseCodingQuadtree c.sps.i1Log2CtbSize (c.pos.i4CtbX <<< c.sps.i1Log2CtbSize)
    (c.pos.i4CtbY <<< c.sps.i1Log2CtbSize) 0 (m, [])

end CuParser

end Libhevc.Decoder.CuSyntax
