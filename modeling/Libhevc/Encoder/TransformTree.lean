import Libhevc.Common.CodingQuadtree
import Libhevc.Encoder.Bins
import Libhevc.Encoder.CuQp

/-!
# The transform tree writer

`ihevce_encode_transform_tree`, which goes through the flat list of the transform
units of a coding unit, in the mode that writes bits. Positions are within the CTB.
-/

namespace Libhevc.Encoder

/-- `tu_enc_loop_out_t`, with the coefficients at its offsets. -/
structure TuEncLoopOut (α : Type) where
  b4PosX : Nat
  b4PosY : Nat
  b3Size : Nat
  b1YCbf : Bool
  b1CbCbf : Bool
  b1CbCbfSubtu1 : Bool
  b1CrCbf : Bool
  b1CrCbfSubtu1 : Bool
  b7Qp : Int
  luma : α
  cb : α
  cr : α

/-- The fields of `cu_enc_loop_out_t` for the tree; the position is in blocks of 8x8. -/
structure CuEncTus (α : Type) extends TreeCu where
  b3CuPosX : Nat
  b3CuPosY : Nat
  psEncTu : List (TuEncLoopOut α)

/-- The fields of `entropy_context_t` for the tree; each flag with that of the second sub-TU. -/
structure TreeContext where
  qp : QpContext
  i4TuIdx : Nat
  apu1CbfCb : Nat → Bool × Bool
  apu1CbfCr : Nat → Bool × Bool

abbrev TreeBins (α : Type) := List (Bin (ResidualBlock α))

def ihevceCabacEncodeQpDelta (qpDelta : Int) : List (Bin ρ) :=
  let qpDeltaAbs := qpDelta.natAbs
  ihevceCabacEncodeTunary (min qpDeltaAbs tuMaxQpDeltaAbs) tuMaxQpDeltaAbs ihevcCabQpDeltaAbs 0
      ctxtMaxQpDeltaAbs ++
    ((if tuMaxQpDeltaAbs ≤ qpDeltaAbs then ihevceCabacEncodeEgk (qpDeltaAbs - tuMaxQpDeltaAbs) 0
    else []) ++
    if qpDeltaAbs ≠ 0 then [.bypass (qpDelta < 0)] else [])

-- ---------------------------------------------------------------------------
-- The flags of a node
-- ---------------------------------------------------------------------------

section
variable (p : TreeConfig) (cu : TreeCu)

/-- `max_tr_depth` -/
def maxTrDepth : Nat :=
  if cu.isIntra then p.i1MaxTransformHierarchyDepthIntra else p.i1MaxTransformHierarchyDepthInter

/-- `split_transform_flag` is coded, or derived. -/
def encodeSplitTrFlag (tuSize log2TrSize trDepth : Nat) : Bool × List (Bin ρ) :=
  if log2TrSize ≤ p.i1Log2MaxTransformBlockSize ∧ p.i1Log2MinTransformBlockSize < log2TrSize ∧
      trDepth < maxTrDepth p cu ∧ ¬ (cu.intraNxN = true ∧ trDepth = 0) then
    let splitTrFlag := decide (tuSize < 2 ^ log2TrSize)
    (splitTrFlag, [.ctxt (ihevcCabSplitTfm + (5 - log2TrSize)) splitTrFlag])
  else
    let interSplit := cu.isIntra = false ∧ maxTrDepth p cu = 0 ∧ trDepth = 0 ∧
      cu.partMode ≠ .part2Nx2N
    (decide (p.i1Log2MaxTransformBlockSize < log2TrSize ∨ (cu.intraNxN = true ∧ trDepth = 0) ∨
      interSplit), [])

end

/-- The loop over the transform units of a node, from its first one on; `none` behind the last
unit of the coding unit. -/
def peekCbf (cbf : TuEncLoopOut α → Bool × Bool) (x0Ctb y0Ctb log2TrSize : Nat) :
    List (TuEncLoopOut α) → Option (Bool × Bool)
  | [] => none
  | tu :: tus =>
    if (cbf tu).1 || (cbf tu).2 then some (cbf tu)
    -- an 8x8 parent has only one chroma block of 4x4
    else if log2TrSize = 3 then some (false, false)
    else if tu.b4PosX * 4 + 2 ^ (tu.b3Size + 2) = x0Ctb + 2 ^ log2TrSize ∧
        tu.b4PosY * 4 + 2 ^ (tu.b3Size + 2) = y0Ctb + 2 ^ log2TrSize then some (cbf tu)
    else peekCbf cbf x0Ctb y0Ctb log2TrSize tus

/-- `cbf_cb` or `cbf_cr` of a node above 4x4 -/
def encodeChromaCbf (cbf : TuEncLoopOut α → Bool × Bool) (apu1Cbf : Nat → Bool × Bool)
    (x0Ctb y0Ctb log2TrSize trDepth : Nat) (psEncTu : List (TuEncLoopOut α)) :
    Option ((Bool × Bool) × List (Bin ρ)) :=
  let parent := apu1Cbf (trDepth - 1)
  if trDepth = 0 ∨ parent.1 = true ∨ parent.2 = true then
    (peekCbf cbf x0Ctb y0Ctb log2TrSize psEncTu).map fun c =>
      (c, [.ctxt (ihevcCabCbcrIdx + trDepth) (c.1 || c.2)])
  else some (parent, [])

def TuEncLoopOut.cbfCb (tu : TuEncLoopOut α) : Bool × Bool := (tu.b1CbCbf, tu.b1CbCbfSubtu1)

def TuEncLoopOut.cbfCr (tu : TuEncLoopOut α) : Bool × Bool := (tu.b1CrCbf, tu.b1CrCbfSubtu1)

def setDepth (f : Nat → β) (depth : Nat) (value : β) : Nat → β :=
  fun i => if i = depth then value else f i

/-- Both chroma flags of a node; those of a node of 4x4 are its parent's. -/
def encodeCbfs (psEncTu : List (TuEncLoopOut α)) (x0Ctb y0Ctb log2TrSize trDepth : Nat)
    (s : TreeContext) :
    Option ((Bool × Bool) × (Bool × Bool) × TreeContext × List (Bin ρ)) :=
  if 2 < log2TrSize then do
    let (cb, binsCb) ← encodeChromaCbf TuEncLoopOut.cbfCb s.apu1CbfCb x0Ctb y0Ctb log2TrSize trDepth
      psEncTu
    let (cr, binsCr) ← encodeChromaCbf TuEncLoopOut.cbfCr s.apu1CbfCr x0Ctb y0Ctb log2TrSize trDepth
      psEncTu
    some (cb, cr,
      { s with
        apu1CbfCb := setDepth s.apu1CbfCb trDepth cb
        apu1CbfCr := setDepth s.apu1CbfCr trDepth cr }, binsCb ++ binsCr)
  else some (s.apu1CbfCb (trDepth - 1), s.apu1CbfCr (trDepth - 1), s, [])

-- ---------------------------------------------------------------------------
-- Transform units
-- ---------------------------------------------------------------------------

/-- The unit whose offsets the chroma blocks have: for 4x4 the first one of the four. -/
def chromaTu (cu : CuEncTus α) (log2TrSize i4TuIdx : Nat) : Option (TuEncLoopOut α) :=
  if log2TrSize = 2 then
    if 3 ≤ i4TuIdx then cu.psEncTu[i4TuIdx - 3]? else none
  else cu.psEncTu[i4TuIdx]?

def encodeChroma (cu : CuEncTus α) (cbf : Bool) (coeffs : TuEncLoopOut α → α)
    (log2TrSize blkNum i4TuIdx : Nat) : Option (TreeBins α) :=
  if (2 < log2TrSize ∨ blkNum = 3) ∧ cbf = true then
    (chromaTu cu log2TrSize i4TuIdx).map fun tu =>
      [.piece ⟨if log2TrSize = 2 then 2 else log2TrSize - 1, false, coeffs tu⟩]
  else some []

/-- The leaf of the tree: the transform unit at `i4_tu_idx`. -/
def encodeLeaf (cfg : QpConfig) (ctbX : Nat) (cu : CuEncTus α) (tu : TuEncLoopOut α)
    (cb cr : Bool × Bool) (log2TrSize trDepth blkNum : Nat)
    (s : TreeContext) : Option (TreeContext × TreeBins α) :=
  let cbfLuma := tu.b1YCbf
  let bins :=
    if cu.isIntra = true ∨ trDepth ≠ 0 ∨ cb.1 = true ∨ cr.1 = true then
      [.ctxt (ihevcCabCbfLumaIdx + if trDepth = 0 then 1 else 0) cbfLuma]
    else []
  let delta := encodeTu cfg ctbX (qgPos cfg cu.b3CuPosX) (qgPos cfg cu.b3CuPosY) tu.b7Qp s.qp
    ⟨cbfLuma, cb.1 || cr.1⟩
  do
    let binsCb ← encodeChroma cu cb.1 TuEncLoopOut.cb log2TrSize blkNum s.i4TuIdx
    let binsCr ← encodeChroma cu cr.1 TuEncLoopOut.cr log2TrSize blkNum s.i4TuIdx
    some ({ s with qp := delta.1, i4TuIdx := s.i4TuIdx + 1 },
      bins ++ (delta.2.flatMap ihevceCabacEncodeQpDelta ++
        ((if cbfLuma then [.piece ⟨log2TrSize, true, tu.luma⟩] else []) ++ (binsCb ++ binsCr))))

-- ---------------------------------------------------------------------------
-- The tree
-- ---------------------------------------------------------------------------

/-- `none` where the writer reads beside the list of units. -/
def ihevceEncodeTransformTree (p : TreeConfig) (cfg : QpConfig) (ctbX : Nat)
    (cu : CuEncTus α) : (log2TrSize x0Ctb y0Ctb trDepth blkNum : Nat) → TreeContext →
      Option (TreeContext × TreeBins α)
  | 0, _, _, _, _, _ => none
  | n + 1, x0Ctb, y0Ctb, trDepth, blkNum, s => do
    let psEncTu ← cu.psEncTu[s.i4TuIdx]?
    let split := encodeSplitTrFlag p cu.toTreeCu (4 * 2 ^ psEncTu.b3Size) (n + 1) trDepth
    let (cb, cr, s, bins) ← encodeCbfs (cu.psEncTu.drop s.i4TuIdx) x0Ctb y0Ctb (n + 1) trDepth s
    if split.1 then
      let x1Ctb := x0Ctb + 2 ^ (n + 1) / 2
      let y1Ctb := y0Ctb + 2 ^ (n + 1) / 2
      let (s, bins0) ← ihevceEncodeTransformTree p cfg ctbX cu n x0Ctb y0Ctb (trDepth + 1) 0 s
      let (s, bins1) ← ihevceEncodeTransformTree p cfg ctbX cu n x1Ctb y0Ctb (trDepth + 1) 1 s
      let (s, bins2) ← ihevceEncodeTransformTree p cfg ctbX cu n x0Ctb y1Ctb (trDepth + 1) 2 s
      let (s, bins3) ← ihevceEncodeTransformTree p cfg ctbX cu n x1Ctb y1Ctb (trDepth + 1) 3 s
      some (s, split.2 ++ (bins ++ (bins0 ++ (bins1 ++ (bins2 ++ bins3)))))
    else
      let (s, binsTu) ← encodeLeaf cfg ctbX cu psEncTu cb cr (n + 1) trDepth blkNum s
      some (s, split.2 ++ (bins ++ binsTu))

end Libhevc.Encoder
