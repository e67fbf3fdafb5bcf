import Libhevc.Common.CodingQuadtree
import Libhevc.Decoder.Bins
import Libhevc.Decoder.CuQp

/-!
# The transform tree parser

`ihevcd_parse_transform_tree` with the chroma format 4:2:0 and without range
extensions. Positions are within the CTB.
-/

namespace Libhevc.Decoder

/-- The fields of `tu_t` for its place and the coded block flags. -/
structure Tu where
  b4PosX : Nat
  b4PosY : Nat
  b3Size : Nat
  b1YCbf : Bool
  b1CbCbf : Bool
  b1CrCbf : Bool
  deriving DecidableEq, Repr

/-- The fields of `parse_ctxt_t` for the tree, and the transform units so far. -/
structure TreeCtxt where
  qp : QpCtxt
  ai1CbfCb : Nat → Bool
  ai1CbfCr : Nat → Bool
  tus : List Tu

abbrev TreeReader (α : Type) := BinReader (ResidualBlock α)

/-- `cu_qp_delta_abs` and its sign -/
def decodeCuQpDelta : BinReader ρ Int := do
  let cuQpDeltaAbs ←
    ihevcdCabacDecodeBinsTunary tuMaxQpDeltaAbs ihevcCabQpDeltaAbs 0 ctxtMaxQpDeltaAbs
  let suffix ←
    (if tuMaxQpDeltaAbs ≤ cuQpDeltaAbs then ihevcdCabacDecodeBypassBinsEgk 0 else pure 0)
  let cuQpDeltaAbs := cuQpDeltaAbs + suffix
  let sign ← (if cuQpDeltaAbs ≠ 0 then decodeBypassBin else pure false)
  pure (if sign then -(cuQpDeltaAbs : Int) else cuQpDeltaAbs)

/-- The coefficients are not followed any further. -/
def ihevcdParseResidualCoding (log2TrafoSize cIdx : Nat) : TreeReader α Unit
  | .piece block :: bins =>
    if block.log2TrSize = log2TrafoSize ∧ block.isLuma = decide (cIdx = 0) then some ((), bins)
    else none
  | _ => none

-- ---------------------------------------------------------------------------
-- The flags of a node
-- ---------------------------------------------------------------------------

section
variable (p : TreeConfig) (cu : TreeCu)

/-- `i4_max_trafo_depth` -/
def i4MaxTrafoDepth : Nat :=
  if cu.isIntra then p.i1MaxTransformHierarchyDepthIntra + cu.intraNxN.toNat
  else p.i1MaxTransformHierarchyDepthInter

def parseSplitTransformFlag (log2TrafoSize trafoDepth : Nat) : BinReader ρ Bool :=
  if log2TrafoSize ≤ p.i1Log2MaxTransformBlockSize ∧
      p.i1Log2MinTransformBlockSize < log2TrafoSize ∧ trafoDepth < i4MaxTrafoDepth p cu ∧
      ¬ (cu.intraNxN = true ∧ trafoDepth = 0) then
    decodeBin (ihevcCabSplitTfm + (5 - log2TrafoSize))
  else
    let interSplitFlag := p.i1MaxTransformHierarchyDepthInter = 0 ∧ cu.isIntra = false ∧
      cu.partMode ≠ .part2Nx2N ∧ trafoDepth = 0
    pure (decide (p.i1Log2MaxTransformBlockSize < log2TrafoSize ∨
      (cu.intraNxN = true ∧ trafoDepth = 0) ∨ interSplitFlag))

end

/-- `cbf_cb` or `cbf_cr`; what is not coded is inherited. -/
def parseChromaCbf (ai1Cbf : Nat → Bool) (log2TrafoSize trafoDepth : Nat) :
    BinReader ρ (Nat → Bool) := do
  let inherited := if trafoDepth = 0 then false else ai1Cbf (trafoDepth - 1)
  let value ←
    (if 2 < log2TrafoSize ∧ (trafoDepth = 0 ∨ ai1Cbf (trafoDepth - 1) = true) then
      decodeBin (ihevcCabCbcrIdx + trafoDepth)
    else pure inherited)
  pure fun i => if i = trafoDepth then value else ai1Cbf i

-- ---------------------------------------------------------------------------
-- Transform units
-- ---------------------------------------------------------------------------

/-- The delta is read with the first coded unit, and must be in range. -/
def parseCuQpDelta (p : TreeConfig) (tu : TuCbf) (s : QpCtxt) : BinReader ρ QpCtxt :=
  if tu.coded && p.i1CuQpDeltaEnabledFlag && !s.i4IsCuQpDeltaCoded then do
    let delta ← decodeCuQpDelta
    let r ← StateT.lift (parseTu s tu [delta])
    pure r.1
  else pure s

def parseBlock (cbf : Bool) (log2TrafoSize cIdx : Nat) : TreeReader α Unit :=
  if cbf then ihevcdParseResidualCoding log2TrafoSize cIdx else pure ()

/-- The transform unit; chroma of blocks of 4x4 comes with the last of the four. -/
def parseLeaf (p : TreeConfig) (cu : TreeCu) (x0 y0 log2TrafoSize trafoDepth blkIdx : Nat)
    (s : TreeCtxt) : TreeReader α TreeCtxt := do
  let cb := s.ai1CbfCb trafoDepth
  let cr := s.ai1CbfCr trafoDepth
  let cbfLuma ←
    (if cu.isIntra = true ∨ trafoDepth ≠ 0 ∨ (cb || cr) = true then
      decodeBin (ihevcCabCbfLumaIdx + if trafoDepth = 0 then 1 else 0)
    else pure true)
  let qp ← parseCuQpDelta p ⟨cbfLuma, cb || cr⟩ s.qp
  let chroma := decide (2 < log2TrafoSize ∨ blkIdx = 3)
  let log2TrafoSizeC := max 2 (log2TrafoSize - 1)
  parseBlock cbfLuma log2TrafoSize 0
  parseBlock (cb && chroma) log2TrafoSizeC 1
  parseBlock (cr && chroma) log2TrafoSizeC 2
  pure { s with
    qp := qp
    tus := s.tus ++ [⟨x0 / 4, y0 / 4, log2TrafoSize - 2, cbfLuma, cb && chroma, cr && chroma⟩] }

-- ---------------------------------------------------------------------------
-- The tree
-- ---------------------------------------------------------------------------

/-- `none` where the parser returns an error, or a bin is not there. -/
def ihevcdParseTransformTree (p : TreeConfig) (cu : TreeCu) :
    (log2TrafoSize x0 y0 trafoDepth blkIdx : Nat) → TreeCtxt → TreeReader α TreeCtxt
  | 0, _, _, _, _, _ => fun _ => none
  | n + 1, x0, y0, trafoDepth, blkIdx, s => do
    let split ← parseSplitTransformFlag p cu (n + 1) trafoDepth
    let cb ← parseChromaCbf s.ai1CbfCb (n + 1) trafoDepth
    let cr ← parseChromaCbf s.ai1CbfCr (n + 1) trafoDepth
    let s := { s with ai1CbfCb := cb, ai1CbfCr := cr }
    if split then
      let x1 := x0 + 2 ^ (n + 1) / 2
      let y1 := y0 + 2 ^ (n + 1) / 2
      let s ← ihevcdParseTransformTree p cu n x0 y0 (trafoDepth + 1) 0 s
      let s ← ihevcdParseTransformTree p cu n x1 y0 (trafoDepth + 1) 1 s
      let s ← ihevcdParseTransformTree p cu n x0 y1 (trafoDepth + 1) 2 s
      ihevcdParseTransformTree p cu n x1 y1 (trafoDepth + 1) 3 s
    else parseLeaf p cu x0 y0 (n + 1) trafoDepth blkIdx s

end Libhevc.Decoder
