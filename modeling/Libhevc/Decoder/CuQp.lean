import Libhevc.Common.CodingQuadtree

/-!
# QP derivation of the decoder

`ihevcd_parse_coding_quadtree` and the part of `ihevcd_parse_transform_tree` that
reads `cu_qp_delta`. The values of the deltas come from a list. The bit depth is 8.
-/

namespace Libhevc.Decoder

/-- The fields of `parse_ctxt_t` for the QP, and the QP that each CU has got. -/
structure QpCtxt where
  u4Qp : Int
  u4Qpg : Int
  i4IsCuQpDeltaCoded : Bool
  i4CuQpDelta : Int
  ai18x8CuQp : Nat → Nat → Int
  cuQps : List Int

/-- The check of `ihevcd_parse_pps`. -/
def parseDiffCuQpDeltaDepth (i1Log2DiffMaxMinCodingBlockSize value : Nat) : Option Nat :=
  if i1Log2DiffMaxMinCodingBlockSize < value then none else some value

def i1Log2MinCuQpDeltaSize (cfg : QpConfig) : Nat :=
  cfg.i1Log2CtbSize - cfg.i1DiffCuQpDeltaDepth

def parseTu (s : QpCtxt) (tu : TuCbf) (deltas : List Int) : Option (QpCtxt × List Int) :=
  if tu.coded && !s.i4IsCuQpDeltaCoded then
    match deltas with
    | [] => none
    | delta :: deltas =>
      if delta < -26 ∨ 25 < delta then none
      else some ({ s with i4IsCuQpDeltaCoded := true, i4CuQpDelta := delta }, deltas)
  else some (s, deltas)

def parseTransformTree : QpCtxt → List TuCbf → List Int → Option (QpCtxt × List Int)
  | s, [], deltas => some (s, deltas)
  | s, tu :: tus, deltas => (parseTu s tu deltas).bind fun r => parseTransformTree r.1 tus r.2

/-- The QP is that of the last CU where the group begins. -/
def QpCtxt.startGroup (cfg : QpConfig) (cuPosX cuPosY : Nat) (s : QpCtxt) : QpCtxt :=
  let cuPosX := cuPosX * 8
  let cuPosY := cuPosY * 8
  let qpgX := cuPosX - cuPosX % 2 ^ i1Log2MinCuQpDeltaSize cfg
  let qpgY := cuPosY - cuPosY % 2 ^ i1Log2MinCuQpDeltaSize cfg
  if cuPosX = qpgX ∧ cuPosY = qpgY then { s with u4Qpg := s.u4Qp, i4CuQpDelta := 0 } else s

/-- After the CU has been parsed; its transform units all get the QP. -/
def QpCtxt.updateQp (cfg : QpConfig) (cuPosX cuPosY log2CbSize : Nat) (s : QpCtxt) : QpCtxt :=
  let qpgX := (cuPosX * 8 - cuPosX * 8 % 2 ^ i1Log2MinCuQpDeltaSize cfg) / 8
  let qpgY := (cuPosY * 8 - cuPosY * 8 % 2 ^ i1Log2MinCuQpDeltaSize cfg) / 8
  let qpLeft := if 0 < qpgX then s.ai18x8CuQp (qpgX - 1) qpgY else s.u4Qpg
  let qpTop := if 0 < qpgY then s.ai18x8CuQp qpgX (qpgY - 1) else s.u4Qpg
  let qpPred := (qpLeft + qpTop + 1) / 2
  let qp := (qpPred + s.i4CuQpDelta + 52).tmod 52
  let cuSize := 2 ^ log2CbSize / 8
  { s with
    u4Qp := qp
    ai18x8CuQp := fun x y =>
      if cuPosX ≤ x ∧ x < cuPosX + cuSize ∧ cuPosY ≤ y ∧ y < cuPosY + cuSize then qp
      else s.ai18x8CuQp x y
    cuQps := s.cuQps ++ [qp] }

def parseCodingUnit (cfg : QpConfig) (x0 y0 log2CbSize : Nat) (cu : CuResidual) (s : QpCtxt)
    (deltas : List Int) : Option (QpCtxt × List Int) :=
  let s := s.startGroup cfg (x0 / 8) (y0 / 8)
  (if cu.skipFlag || cu.noResFlag then some (s, deltas)
    else parseTransformTree s cu.tus deltas).map fun r =>
      (r.1.updateQp cfg (x0 / 8) (y0 / 8) log2CbSize, r.2)

def ihevcdParseCodingQuadtree (cfg : QpConfig) (ctbX ctbY : Nat) :
    CodingQuadtree CuResidual → (x0 y0 log2CbSize : Nat) → QpCtxt → List Int →
      Option (QpCtxt × List Int)
  | .cu cu, x0, y0, log2CbSize, s, deltas =>
    let s :=
      { s with
        i4IsCuQpDeltaCoded :=
          !(i1Log2MinCuQpDeltaSize cfg ≤ log2CbSize) && s.i4IsCuQpDeltaCoded }
    parseCodingUnit cfg x0 y0 log2CbSize cu s deltas
  | .split c0 c1 c2 c3, x0, y0, log2CbSize, s, deltas =>
    let s :=
      { s with
        i4IsCuQpDeltaCoded :=
          !(i1Log2MinCuQpDeltaSize cfg ≤ log2CbSize) && s.i4IsCuQpDeltaCoded }
    let x1 := x0 + 2 ^ log2CbSize / 2
    let y1 := y0 + 2 ^ log2CbSize / 2
    (ihevcdParseCodingQuadtree cfg ctbX ctbY c0 x0 y0 (log2CbSize - 1) s deltas).bind fun r =>
    (if cfg.InWidth ctbX x1 then
      ihevcdParseCodingQuadtree cfg ctbX ctbY c1 x1 y0 (log2CbSize - 1) r.1 r.2
    else some r).bind fun r =>
    (if cfg.InHeight ctbY y1 then
      ihevcdParseCodingQuadtree cfg ctbX ctbY c2 x0 y1 (log2CbSize - 1) r.1 r.2
    else some r).bind fun r =>
    if cfg.InWidth ctbX x1 ∧ cfg.InHeight ctbY y1 then
      ihevcdParseCodingQuadtree cfg ctbX ctbY c3 x1 y1 (log2CbSize - 1) r.1 r.2
    else some r

/-- One CTB of the loop; in wavefronts the QP begins anew with each row. -/
def parseCtb (cfg : QpConfig) (ctbs : Nat → Nat → CodingQuadtree CuResidual) (s : QpCtxt)
    (ctb : Nat) (deltas : List Int) : Option (QpCtxt × List Int) :=
  let ctbX := ctb % cfg.i2PicWdInCtb
  let ctbY := ctb / cfg.i2PicWdInCtb
  let s :=
    if cfg.i1EntropyCodingSyncEnabledFlag = true ∧ ctbX = 0 then { s with u4Qp := cfg.sliceQp }
    else s
  ihevcdParseCodingQuadtree cfg ctbX ctbY (ctbs ctbX ctbY) 0 0 cfg.i1Log2CtbSize s deltas

def parseCtbs (cfg : QpConfig) (ctbs : Nat → Nat → CodingQuadtree CuResidual) :
    QpCtxt → List Nat → List Int → Option (QpCtxt × List Int)
  | s, [], deltas => some (s, deltas)
  | s, ctb :: l, deltas => (parseCtb cfg ctbs s ctb deltas).bind fun r => parseCtbs cfg ctbs r.1 l r.2

/-- The slice with the picture parameter set that it refers to. -/
def ihevcdParseSliceData (cfg : QpConfig) (ctbs : Nat → Nat → CodingQuadtree CuResidual)
    (s : QpCtxt) (deltas : List Int) : Option (QpCtxt × List Int) :=
  (parseDiffCuQpDeltaDepth (cfg.i1Log2CtbSize - 3) cfg.i1DiffCuQpDeltaDepth).bind fun _ =>
    parseCtbs cfg ctbs { s with u4Qp := cfg.sliceQp }
      (List.range (cfg.i2PicWdInCtb * cfg.i2PicHtInCtb)) deltas

end Libhevc.Decoder
