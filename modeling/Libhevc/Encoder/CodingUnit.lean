import Libhevc.Common.CodingUnit
import Libhevc.Encoder.Sao

/-!
# The coding unit writer

`ihevce_encode_coding_quadtree` and what it calls in `ihevce_cabac_cu_pu.c`, in the mode that
writes bits. The transform tree is a piece of the stream with a grammar of its own; counts of
bits and pictures are left out. The picture is one tile.
-/

namespace Libhevc.Encoder.CuSyntax

-- ---------------------------------------------------------------------------
-- Prediction units
-- ---------------------------------------------------------------------------

def ihevceCabacEncodeMergeIdx (mergeIdx maxMergeCand : Nat) : List (Bin ρ) :=
  if 1 < maxMergeCand then
    .ctxt ihevcCabMergeIdxExt (0 < mergeIdx) ::
      if 2 < maxMergeCand ∧ 0 < mergeIdx then
        ihevceCabacEncodeTunaryBypass (mergeIdx - 1) (maxMergeCand - 2)
      else []
  else []

def ihevceCabacEncodeInterPredIdc (interPredIdc : PredMode) (cuDepth puWPlusPuH : Nat) :
    List (Bin ρ) :=
  if puWPlusPuH = 12 then [.ctxt (ihevcCabInterPredIdc + 4) (interPredIdc ≠ .predL0)]
  else
    .ctxt (ihevcCabInterPredIdc + cuDepth) (interPredIdc = .predBi) ::
      if interPredIdc ≠ .predBi then [.ctxt (ihevcCabInterPredIdc + 4) (interPredIdc ≠ .predL0)]
      else []

def ihevceCabacEncodeRefidx (refIdx activeRefs : Nat) : List (Bin ρ) :=
  if 1 < activeRefs then
    .ctxt ihevcCabInterRefIdx (0 < refIdx) ::
      ((if 2 < activeRefs ∧ 0 < refIdx then [.ctxt (ihevcCabInterRefIdx + 1) (1 < refIdx)]
        else []) ++
        if 3 < activeRefs ∧ 1 < refIdx then
          ihevceCabacEncodeTunaryBypass (refIdx - 2) (activeRefs - 3)
        else [])
  else []

/-- `abs_mvd_minus2` and the sign of one component. -/
def encodeMvdRest (mvd : Int) : List (Bin ρ) :=
  (if 1 < mvd.natAbs then ihevceCabacEncodeEgk (mvd.natAbs - 2) 1 else []) ++
    if 0 < mvd.natAbs then [.bypass (mvd < 0)] else []

def ihevceCabacEncodeMvd (mvd : Mv) : List (Bin ρ) :=
  let absMvdX := mvd.i2Mvx.natAbs
  let absMvdY := mvd.i2Mvy.natAbs
  .ctxt ihevcCabMvdGrt0 (0 < absMvdX) :: .ctxt ihevcCabMvdGrt0 (0 < absMvdY) ::
    ((if 0 < absMvdX then [.ctxt ihevcCabMvdGrt1 (1 < absMvdX)] else []) ++
      ((if 0 < absMvdY then [.ctxt ihevcCabMvdGrt1 (1 < absMvdY)] else []) ++
        (encodeMvdRest mvd.i2Mvx ++ encodeMvdRest mvd.i2Mvy)))

/-- The motion of a prediction unit that is not merged. -/
def encodeMotion (h : CuHeader) (pu : PuSyntax) (cuDepth : Nat) : List (Bin ρ) :=
  (if h.i1SliceType = .bslice then
      ihevceCabacEncodeInterPredIdc pu.b2PredMode cuDepth pu.wPlusH
    else []) ++
  ((if pu.b2PredMode ≠ .predL1 then
      ihevceCabacEncodeRefidx pu.mv.i1L0RefIdx.toNat h.i1NumRefIdxL0Active ++
        (ihevceCabacEncodeMvd pu.mv.sL0Mv ++ [.ctxt ihevcCabMvpL0L1 pu.b1L0MvpIdx])
    else []) ++
    if pu.b2PredMode ≠ .predL0 then
      ihevceCabacEncodeRefidx pu.mv.i1L1RefIdx.toNat h.i1NumRefIdxL1Active ++
        ((if h.i1MvdL1ZeroFlag = true ∧ pu.b2PredMode = .predBi then []
          else ihevceCabacEncodeMvd pu.mv.sL1Mv) ++ [.ctxt ihevcCabMvpL0L1 pu.b1L1MvpIdx])
    else [])

/-- One partition of the loop of `ihevce_cabac_encode_inter_pu`. -/
def encodePart (h : CuHeader) (pu : PuSyntax) (cuDepth : Nat) : List (Bin ρ) :=
  .ctxt ihevcCabMergeFlagExt pu.b1MergeFlag ::
    if pu.b1MergeFlag then ihevceCabacEncodeMergeIdx pu.b3MergeIdx h.i1MaxNumMergeCand
    else encodeMotion h pu cuDepth

def numParts (partMode : PartMode) : Nat :=
  if partMode = .part2Nx2N then 1 else if partMode = .partNxN then 4 else 2

def ihevceCabacEncodeInterPu (h : CuHeader) (b1SkipFlag : Bool) (b3PartMode : PartMode)
    (psPu : Nat → PuSyntax) (cuDepth : Nat) : List (Bin ρ) :=
  if b1SkipFlag then ihevceCabacEncodeMergeIdx (psPu 0).b3MergeIdx h.i1MaxNumMergeCand
  else (List.range (numParts b3PartMode)).flatMap fun i => encodePart h (psPu i) cuDepth

/-- `intra_prev_rem_flags_t` -/
structure IntraPrevRemFlags where
  b1PrevIntraLumaPredFlag : Bool
  b2MpmIdx : Nat
  b5RemIntraPredMode : Nat

/-- `mpm_idx` or `rem_intra_luma_pred_mode` -/
def encodeLumaMode (flags : IntraPrevRemFlags) : List (Bin ρ) :=
  if flags.b1PrevIntraLumaPredFlag then
    bypassBins (if flags.b2MpmIdx ≠ 0 then 2 ||| (flags.b2MpmIdx - 1) else 0)
      (if flags.b2MpmIdx ≠ 0 then 2 else 1)
  else bypassBins flags.b5RemIntraPredMode 5

def ihevceCabacEncodeIntraPu (partMode : PartMode) (asPrevRem : Nat → IntraPrevRemFlags)
    (b3ChromaIntraPredMode : Nat) : List (Bin ρ) :=
  let numParts := if partMode = .partNxN then 4 else 1
  (List.range numParts).flatMap (fun i =>
      [.ctxt ihevcCabIntraLumaPredFlag (asPrevRem i).b1PrevIntraLumaPredFlag]) ++
    ((List.range numParts).flatMap (fun i => encodeLumaMode (asPrevRem i)) ++
      .ctxt ihevcCabChromaPredMode (b3ChromaIntraPredMode ≠ 4) ::
        if b3ChromaIntraPredMode ≠ 4 then bypassBins b3ChromaIntraPredMode 2 else [])

-- ---------------------------------------------------------------------------
-- Coding units
-- ---------------------------------------------------------------------------

/-- `INVALID` is 0xFF. -/
def gu1HevceInterPartModeBins : List (List Nat) :=
  [[0x18, 0x24, 0x20, 0xFF, 0xFF, 0xFF, 0xFF, 0xFF],
    [0x18, 0x36, 0x32, 0xFF, 0x44, 0x45, 0x40, 0x41]]

def gu1HevceInterPartModeBinsMincu : List (List Nat) :=
  [[0x18, 0x24, 0x32, 0x30], [0x18, 0x24, 0x20, 0xFF]]

def ihevceCabacEncodePartMode (intra isMincu ampEnabled cuEq8 : Bool) (partMode : PartMode) :
    List (Bin ρ) :=
  if intra then [.ctxt ihevcCabPartMode (partMode = .part2Nx2N)]
  else
    let bins :=
      if isMincu then (gu1HevceInterPartModeBinsMincu.getD cuEq8.toNat []).getD partMode.idx 0xFF
      else (gu1HevceInterPartModeBins.getD ampEnabled.toNat []).getD partMode.idx 0xFF
    let binCount := (bins >>> 4) &&& 0xF
    (List.range (min binCount 3)).map
        (fun i => .ctxt (ihevcCabPartMode + i) (bins.testBit (3 - i))) ++
      if binCount = 4 then [.bypass (bins.testBit 0)] else []

/-- The fields of `cu_enc_loop_out_t`; position and size are in units of 8. -/
structure CuEncLoop (τ : Type) where
  b3CuPosX : Nat
  b3CuPosY : Nat
  b4CuSize : Nat
  b1SkipFlag : Bool
  b1PredModeFlag : Bool
  b3PartMode : PartMode
  psPu : Nat → PuSyntax
  asPrevRem : Nat → IntraPrevRemFlags
  b3ChromaIntraPredMode : Nat
  b1NoResidualSyntaxFlag : Bool
  tree : τ

/-- The fields of `entropy_context_t`: depth and skip flag of the last row by columns of 8 samples
and of the last column by rows of 8 samples, and the next coding unit of the CTB. -/
structure CuContext where
  i4CuIdx : Nat
  pu1CuDepthTop : Nat → Nat
  au1CuDepthLeft : Nat → Nat
  pu1SkipCuTop : Nat → BitVec 8
  u4SkipCuLeft : BitVec 32

/-- `SET_BITS` or `CLEAR_BITS` -/
def setBits (word : BitVec w) (bitPos numBits : Nat) (bit : Bool) : BitVec w :=
  let mask := BitVec.ofNat w (2 ^ numBits - 1) <<< bitPos
  if bit then word ||| mask else word &&& ~~~mask

/-- What is fixed for a CTB. -/
structure CtbConfig (τ : Type) where
  hdr : CuHeader
  i1AmpEnabledFlag : Bool
  i1Log2MinCodingBlockSize : Nat
  i1Log2CtbSize : Nat
  picWidth : Nat
  picHeight : Nat
  i4CtbX : Nat
  u1LeftAvail : Bool
  u1TopAvail : Bool
  psEncCu : List (CuEncLoop τ)

namespace CtbConfig

variable (c : CtbConfig τ)

/-- `ihevce_cabac_encode_skip_flag` -/
def ihevceCabacEncodeSkipFlag (cu : CuEncLoop τ) (topAvail leftAvail : Bool) (s : CuContext) :
    CuContext × List (Bin ρ) :=
  let cuX0Frm := cu.b3CuPosX <<< 3 + c.i4CtbX <<< c.i1Log2CtbSize
  let xPos := (cuX0Frm >>> 3) &&& 7
  let yPos := ((cu.b3CuPosY <<< 3) >>> 3) &&& 7
  let top := s.pu1SkipCuTop (cuX0Frm >>> 6)
  let ctxtInc :=
    (if topAvail then (top.getLsbD xPos).toNat else 0) +
      if leftAvail then (s.u4SkipCuLeft.getLsbD yPos).toNat else 0
  ({ s with
      pu1SkipCuTop := Function.update s.pu1SkipCuTop (cuX0Frm >>> 6)
        (setBits top xPos ((cu.b4CuSize <<< 3) >>> 3) cu.b1SkipFlag)
      u4SkipCuLeft := setBits s.u4SkipCuLeft yPos ((cu.b4CuSize <<< 3) >>> 3) cu.b1SkipFlag },
    [.ctxt (ihevcCabSkipFlag + ctxtInc) cu.b1SkipFlag])

/-- `!no_res_flag` and the transform tree. -/
def encodeResidual (cu : CuEncLoop τ) (coded : Bool) : List (Bin (TreePiece τ)) :=
  let noResFlag := if coded then cu.b1NoResidualSyntaxFlag else false
  (if coded then [.ctxt ihevcCabNoresIdx (!cu.b1NoResidualSyntaxFlag)] else []) ++
    if noResFlag = false then [.piece ⟨getRange (cu.b4CuSize <<< 3) - 1, cu.tree⟩] else []

/-- What follows the skip flag of a coding unit that is not skipped. -/
def encodeUnskipped (cu : CuEncLoop τ) (cuDepth : Nat) : List (Bin (TreePiece τ)) :=
  let cuSize := cu.b4CuSize <<< 3
  let isMincu := decide (cuSize = 1 <<< c.i1Log2MinCodingBlockSize)
  let inter := decide (c.hdr.i1SliceType ≠ .islice)
  let isIntra := if inter then cu.b1PredModeFlag else true
  let mergeCu := decide (cu.b3PartMode = .part2Nx2N) && (cu.psPu 0).b1MergeFlag
  (if inter then [.ctxt ihevcCabPredMode cu.b1PredModeFlag] else []) ++
    ((if isIntra = false ∨ isMincu = true then
        ihevceCabacEncodePartMode isIntra isMincu c.i1AmpEnabledFlag (cuSize = 8) cu.b3PartMode
      else []) ++
      ((if isIntra then
          ihevceCabacEncodeIntraPu cu.b3PartMode cu.asPrevRem cu.b3ChromaIntraPredMode
        else ihevceCabacEncodeInterPu c.hdr cu.b1SkipFlag cu.b3PartMode cu.psPu cuDepth) ++
        encodeResidual cu (!isIntra && !mergeCu)))

def ihevceCabacEncodeCodingUnit (cu : CuEncLoop τ) (cuDepth : Nat) (topAvail leftAvail : Bool)
    (s : CuContext) : CuContext × List (Bin (TreePiece τ)) :=
  let (s, skipBins) :=
    if c.hdr.i1SliceType ≠ .islice then c.ihevceCabacEncodeSkipFlag cu topAvail leftAvail s
    else (s, [])
  let skipFlag := if c.hdr.i1SliceType ≠ .islice then cu.b1SkipFlag else false
  (s, skipBins ++
    if skipFlag then ihevceCabacEncodeInterPu c.hdr cu.b1SkipFlag cu.b3PartMode cu.psPu cuDepth
    else c.encodeUnskipped cu cuDepth)

-- ---------------------------------------------------------------------------
-- The quadtree
-- ---------------------------------------------------------------------------

def leftAvail (x0Frm ctbSize : Nat) : Bool :=
  if x0Frm &&& (ctbSize - 1) ≠ 0 then true else c.u1LeftAvail

def topAvail (y0Frm ctbSize : Nat) : Bool :=
  if y0Frm &&& (ctbSize - 1) ≠ 0 then true else c.u1TopAvail

/-- `split_cu_flag`, coded or inferred. -/
def encodeSplitCuFlag (cu : CuEncLoop τ) (log2CbSize x0Frm y0Frm ctDepth : Nat) (s : CuContext) :
    Bool × List (Bin (TreePiece τ)) :=
  let ctbSize := 1 <<< (log2CbSize + ctDepth)
  if x0Frm + 2 ^ log2CbSize ≤ c.picWidth ∧ y0Frm + 2 ^ log2CbSize ≤ c.picHeight ∧
      c.i1Log2MinCodingBlockSize < log2CbSize then
    let ctxtInc :=
      (if c.topAvail y0Frm ctbSize = true ∧ ctDepth < s.pu1CuDepthTop (x0Frm >>> 3) then 1 else 0) +
        if c.leftAvail x0Frm ctbSize = true ∧ ctDepth < s.au1CuDepthLeft ((y0Frm >>> 3) &&& 7)
        then 1 else 0
    let splitCuFlag := decide (cu.b4CuSize <<< 3 < 2 ^ log2CbSize)
    (splitCuFlag, [.ctxt (ihevcCabSplitCuFlag + ctxtInc) splitCuFlag])
  else (decide (c.i1Log2MinCodingBlockSize < log2CbSize), [])

/-- The leaf: the coding unit, and the depth at its columns and rows. -/
def encodeCu (cu : CuEncLoop τ) (log2CbSize x0Frm y0Frm ctDepth : Nat) (s : CuContext) :
    CuContext × List (Bin (TreePiece τ)) :=
  let ctbSize := 1 <<< (log2CbSize + ctDepth)
  let (s, bins) := c.ihevceCabacEncodeCodingUnit cu ctDepth (c.topAvail y0Frm ctbSize)
    (c.leftAvail x0Frm ctbSize) s
  let num := (cu.b4CuSize <<< 3) >>> 3
  ({ s with
      i4CuIdx := s.i4CuIdx + 1
      pu1CuDepthTop := fun i =>
        if x0Frm >>> 3 ≤ i ∧ i < (x0Frm >>> 3) + num then ctDepth else s.pu1CuDepthTop i
      au1CuDepthLeft := fun i =>
        if (y0Frm >>> 3) &&& 7 ≤ i ∧ i < ((y0Frm >>> 3) &&& 7) + num then ctDepth
        else s.au1CuDepthLeft i },
    bins)

/-- A quarter that begins in the picture. -/
def visit (p : Bool) (f : CuContext → Option (CuContext × List (Bin ρ)))
    (r : CuContext × List (Bin ρ)) : Option (CuContext × List (Bin ρ)) :=
  if p then (f r.1).map fun r' => (r'.1, r.2 ++ r'.2) else some r

/-- `none` behind the last coding unit of the CTB. -/
def ihevceEncodeCodingQuadtree : (log2CbSize x0Frm y0Frm ctDepth : Nat) → CuContext →
    Option (CuContext × List (Bin (TreePiece τ)))
  | 0, x0Frm, y0Frm, ctDepth, s => do
    let cu ← c.psEncCu[s.i4CuIdx]?
    some (c.encodeCu cu 0 x0Frm y0Frm ctDepth s)
  | n + 1, x0Frm, y0Frm, ctDepth, s => do
    let cu ← c.psEncCu[s.i4CuIdx]?
    let (splitCuFlag, bins) := c.encodeSplitCuFlag cu (n + 1) x0Frm y0Frm ctDepth s
    if splitCuFlag then
      let x1Frm := x0Frm + 2 ^ n
      let y1Frm := y0Frm + 2 ^ n
      let r ← visit true (ihevceEncodeCodingQuadtree n x0Frm y0Frm (ctDepth + 1)) (s, bins)
      let r ← visit (x1Frm < c.picWidth) (ihevceEncodeCodingQuadtree n x1Frm y0Frm (ctDepth + 1)) r
      let r ← visit (y1Frm < c.picHeight) (ihevceEncodeCodingQuadtree n x0Frm y1Frm (ctDepth + 1)) r
      visit (x1Frm < c.picWidth ∧ y1Frm < c.picHeight)
        (ihevceEncodeCodingQuadtree n x1Frm y1Frm (ctDepth + 1)) r
    else
      let (s, cuBins) := c.encodeCu cu (n + 1) x0Frm y0Frm ctDepth s
      some (s, bins ++ cuBins)

/-- The coding units of a CTB in the loop of `ihevce_encode_slice_data`. -/
def encodeCtb (pos : FrmPos) (s : CuContext) : Option (CuContext × List (Bin (TreePiece τ))) :=
  c.ihevceEncodeCodingQuadtree c.i1Log2CtbSize pos.x0Frm pos.y0Frm 0 { s with i4CuIdx := 0 }

end CtbConfig

end Libhevc.Encoder.CuSyntax
