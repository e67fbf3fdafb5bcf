import Libhevc.Common.CodingQuadtree

/-!
# Delta QPs of the encoder

`ihevce_cabac_encode_coding_unit` and the part of `ihevce_encode_transform_tree`
that codes `cu_qp_delta`. Positions are within the CTB. The internal bit depth is
always 8.
-/

namespace Libhevc.Encoder

/-- The fields of `entropy_context_t` for the QP, and what has been recorded for each CU. -/
structure QpContext where
  i1CurQp : Int
  i1EncodeQpDelta : Bool
  i4IsCuCbfZero : Bool
  ai48x8CuQp : Nat → Nat → Int
  cuQps : List (CuResidual × Int)

/-- `CU_LEVEL_QP_LIMIT_8x8`, whatever the size of the CTB. -/
def cuLevelQpLimit8x8 : Nat := 3

/-- The position of the group in blocks of 8x8; for a group below 8x8 the shift is undefined in C. -/
def qgPos (cfg : QpConfig) (cuPos : Nat) : Nat :=
  cuPos &&& (15 <<< (cfg.i1Log2CtbSize - cfg.i1DiffCuQpDeltaDepth - 3))

/-- From the blocks to the left of the group and above it, in the same CTB. -/
def QpContext.qpPred (s : QpContext) (qgPosX qgPosY : Nat) : Int :=
  let qpLeft := if qgPosX = 0 then s.i1CurQp else s.ai48x8CuQp (qgPosX - 1) qgPosY
  let qpTop := if qgPosY = 0 then s.i1CurQp else s.ai48x8CuQp qgPosX (qgPosY - 1)
  (qpLeft + qpTop + 1) / 2

/-- The delta is coded with the first coded transform unit. -/
def encodeTu (cfg : QpConfig) (ctbX qgPosX qgPosY : Nat) (tuQp : Int) (s : QpContext)
    (tu : TuCbf) : QpContext × List Int :=
  if tu.coded then
    if s.i1EncodeQpDelta then
      let qpPred :=
        if ctbX = 0 ∧ qgPosX = 0 ∧ qgPosY = 0 ∧ cfg.i1EntropyCodingSyncEnabledFlag = true then
          cfg.sliceQp
        else s.qpPred qgPosX qgPosY
      ({ s with i1CurQp := tuQp, i1EncodeQpDelta := false, i4IsCuCbfZero := false },
        [tuQp - qpPred])
    else ({ s with i4IsCuCbfZero := false }, [])
  else (s, [])

def encodeTransformTree (cfg : QpConfig) (ctbX qgPosX qgPosY : Nat) (tuQp : Int) :
    QpContext → List TuCbf → QpContext × List Int
  | s, [] => (s, [])
  | s, tu :: tus =>
    let r := encodeTu cfg ctbX qgPosX qgPosY tuQp s tu
    let r' := encodeTransformTree cfg ctbX qgPosX qgPosY tuQp r.1 tus
    (r'.1, r.2 ++ r'.2)

def isLastBlkInQg (cfg : QpConfig) (ctbX ctbY cuX0 cuY0 cuSize : Nat) : Bool :=
  let minCuQpDeltaSize := 2 ^ (cfg.i1Log2CtbSize - cfg.i1DiffCuQpDeltaDepth)
  let right := qgPos cfg (cuX0 / 8) * 8 + minCuQpDeltaSize ≤ cuX0 + cuSize
  let below := qgPos cfg (cuY0 / 8) * 8 + minCuQpDeltaSize ≤ cuY0 + cuSize
  (right ∧ below) ∨
    -- the CTB is incomplete in one direction
    (¬ cfg.InWidth ctbX (cuX0 + cuSize) ∧ below) ∨
    (¬ cfg.InHeight ctbY (cuY0 + cuSize) ∧ right)

/-- The QP of the CU in the blocks of 8x8 that it covers. -/
def fillCuQp (cuQp : Nat → Nat → Int) (cuPosX cuPosY cuSize : Nat) (qp : Int) : Nat → Nat → Int :=
  fun x y =>
    if cuPosX ≤ x ∧ x < cuPosX + cuSize / 8 ∧ cuPosY ≤ y ∧ y < cuPosY + cuSize / 8 then qp
    else cuQp x y

def ihevceCabacEncodeCodingUnit (cfg : QpConfig) (ctbX ctbY cuX0 cuY0 log2CbSize : Nat)
    (cu : CuResidual) (s : QpContext) : QpContext × List Int :=
  let qgPosX := qgPos cfg (cuX0 / 8)
  let qgPosY := qgPos cfg (cuY0 / 8)
  let r :=
    if cu.skipFlag || cu.noResFlag then (s, [])
    else encodeTransformTree cfg ctbX qgPosX qgPosY cu.b7Qp s cu.tus
  let s := r.1
  let predicted := (s.i4IsCuCbfZero || cu.noResFlag || cu.skipFlag) && s.i1EncodeQpDelta
  let curQp := if predicted then s.qpPred qgPosX qgPosY else cu.b7Qp
  ({ s with
      i1CurQp :=
        if predicted && isLastBlkInQg cfg ctbX ctbY cuX0 cuY0 (2 ^ log2CbSize) then curQp
        else s.i1CurQp
      i4IsCuCbfZero := true
      ai48x8CuQp := fillCuQp s.ai48x8CuQp (cuX0 / 8) (cuY0 / 8) (2 ^ log2CbSize) curQp
      cuQps := s.cuQps ++ [(cu, curQp)] },
    r.2)

def ihevceEncodeCodingQuadtree (cfg : QpConfig) (ctbX ctbY : Nat) :
    CodingQuadtree CuResidual → (x0 y0 log2CbSize ctDepth : Nat) → QpContext →
      QpContext × List Int
  | .cu cu, x0, y0, log2CbSize, ctDepth, s =>
    let s := { s with i1EncodeQpDelta := ctDepth ≤ cfg.i1DiffCuQpDeltaDepth || s.i1EncodeQpDelta }
    ihevceCabacEncodeCodingUnit cfg ctbX ctbY x0 y0 log2CbSize cu s
  | .split c0 c1 c2 c3, x0, y0, log2CbSize, ctDepth, s =>
    let s := { s with i1EncodeQpDelta := ctDepth ≤ cfg.i1DiffCuQpDeltaDepth || s.i1EncodeQpDelta }
    let x1 := x0 + 2 ^ (log2CbSize - 1)
    let y1 := y0 + 2 ^ (log2CbSize - 1)
    let r0 := ihevceEncodeCodingQuadtree cfg ctbX ctbY c0 x0 y0 (log2CbSize - 1) (ctDepth + 1) s
    let r1 :=
      if cfg.InWidth ctbX x1 then
        ihevceEncodeCodingQuadtree cfg ctbX ctbY c1 x1 y0 (log2CbSize - 1) (ctDepth + 1) r0.1
      else (r0.1, [])
    let r2 :=
      if cfg.InHeight ctbY y1 then
        ihevceEncodeCodingQuadtree cfg ctbX ctbY c2 x0 y1 (log2CbSize - 1) (ctDepth + 1) r1.1
      else (r1.1, [])
    let r3 :=
      if cfg.InWidth ctbX x1 ∧ cfg.InHeight ctbY y1 then
        ihevceEncodeCodingQuadtree cfg ctbX ctbY c3 x1 y1 (log2CbSize - 1) (ctDepth + 1) r2.1
      else (r2.1, [])
    (r3.1, r0.2 ++ (r1.2 ++ (r2.2 ++ r3.2)))

/-- One CTB of the loop, and the QP at the start of the next row. -/
def encodeCtb (cfg : QpConfig) (ctbs : Nat → Nat → CodingQuadtree CuResidual) (s : QpContext)
    (ctb : Nat) : QpContext × List Int :=
  let ctbX := ctb % cfg.i2PicWdInCtb
  let ctbY := ctb / cfg.i2PicWdInCtb
  let r := ihevceEncodeCodingQuadtree cfg ctbX ctbY (ctbs ctbX ctbY) 0 0 cfg.i1Log2CtbSize 0 s
  if (ctb + 1) % cfg.i2PicWdInCtb = 0 ∧ ctb + 1 < cfg.i2PicWdInCtb * cfg.i2PicHtInCtb ∧
      cfg.i1EntropyCodingSyncEnabledFlag = true then
    ({ r.1 with i1CurQp := cfg.sliceQp }, r.2)
  else r

def encodeCtbs (cfg : QpConfig) (ctbs : Nat → Nat → CodingQuadtree CuResidual) :
    QpContext → List Nat → QpContext × List Int
  | s, [] => (s, [])
  | s, ctb :: l =>
    let r := encodeCtb cfg ctbs s ctb
    let r' := encodeCtbs cfg ctbs r.1 l
    (r'.1, r.2 ++ r'.2)

/-- The whole picture is one slice. -/
def ihevceEncodeSliceData (cfg : QpConfig) (ctbs : Nat → Nat → CodingQuadtree CuResidual)
    (s : QpContext) : QpContext × List Int :=
  encodeCtbs cfg ctbs { s with i1CurQp := cfg.sliceQp }
    (List.range (cfg.i2PicWdInCtb * cfg.i2PicHtInCtb))

end Libhevc.Encoder
