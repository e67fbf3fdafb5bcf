import Libhevc.Encoder.CuQp

/-!
# QP map for deblocking

`ihevce_deblk_populate_qp_map` and what it takes from the encoding loop. The map of a
row of CTBs is in one buffer, whose first row is the last one of the CTBs above; each
thread has a buffer of its own. There are no tiles.
-/

namespace Libhevc.Encoder

/-- A coding unit with its position in the CTB. -/
structure CuInCtb where
  x0 : Nat
  y0 : Nat
  log2CbSize : Nat
  cu : CuResidual

/-- The coding units of a CTB that begin in the picture, in coding order. -/
def quadtreeCus (g : CtbGrid) (ctbX ctbY : Nat) :
    CodingQuadtree CuResidual → (x0 y0 log2CbSize : Nat) → List CuInCtb
  | .cu cu, x0, y0, log2CbSize => [{ x0, y0, log2CbSize, cu }]
  | .split c0 c1 c2 c3, x0, y0, log2CbSize =>
    let x1 := x0 + 2 ^ (log2CbSize - 1)
    let y1 := y0 + 2 ^ (log2CbSize - 1)
    quadtreeCus g ctbX ctbY c0 x0 y0 (log2CbSize - 1) ++
      ((if g.InWidth ctbX x1 then quadtreeCus g ctbX ctbY c1 x1 y0 (log2CbSize - 1) else []) ++
      ((if g.InHeight ctbY y1 then quadtreeCus g ctbX ctbY c2 x0 y1 (log2CbSize - 1) else []) ++
      if g.InWidth ctbX x1 ∧ g.InHeight ctbY y1 then
        quadtreeCus g ctbX ctbY c3 x1 y1 (log2CbSize - 1)
      else []))

/-- The fields of `cu_enc_loop_out_t`; positions and sizes are in blocks of 8x8. -/
structure CuEncLoopOut where
  b3CuPosX : Nat
  b3CuPosY : Nat
  b4CuSize : Nat
  b1SkipFlag : Bool
  b1NoResidualSyntaxFlag : Bool
  b1FirstCuInQg : Bool
  i1CuQp : Int

/-- As `ihevce_store_cu_final` leaves it: the flag says that no transform unit is coded. -/
def cuEncLoopOut (cfg : QpConfig) (p : CuInCtb) : CuEncLoopOut where
  b3CuPosX := p.x0 / 8
  b3CuPosY := p.y0 / 8
  b4CuSize := 2 ^ p.log2CbSize / 8
  b1SkipFlag := p.cu.skipFlag
  b1NoResidualSyntaxFlag := !p.cu.coded
  b1FirstCuInQg := qgPos cfg (p.x0 / 8) = p.x0 / 8 ∧ qgPos cfg (p.y0 / 8) = p.y0 / 8
  i1CuQp := p.cu.b7Qp

def maxCtbSize : Nat := 64

/-- The width for which the memory is requested. -/
def u4Width (g : CtbGrid) : Nat :=
  (g.i2PicWidthInLumaSamples + maxCtbSize - 1) / maxCtbSize * maxCtbSize

/-- `u4_qp_buffer_stride` and `u4_qp_top_4x4_buf_strd` -/
def qpBufferStride (g : CtbGrid) : Nat := maxCtbSize / 4 * (u4Width g / maxCtbSize)

/-- `ai4_offset_for_last_cu_qp`, for the one tile column that there is. -/
def offsetForLastCuQp (g : CtbGrid) : Nat :=
  let lastHzCtbWd := maxCtbSize - (u4Width g - g.i2PicWidthInLumaSamples)
  ((g.i2PicWdInCtb - 1) * maxCtbSize + lastHzCtbWd) / 4 - 1

/-- `i4_ctb_size / 4` -/
def ctbSizeIn4x4 (g : CtbGrid) : Nat := 2 ^ g.i1Log2CtbSize / 4

def memcpy (dst src : Nat → Int) (dstPos srcPos n : Nat) : Nat → Int :=
  fun a => if dstPos ≤ a ∧ a < dstPos + n then src (srcPos + (a - dstPos)) else dst a

/-- The loops that store the QP of a CU, from address `pos` on. -/
def fillQpMap (qpMap : Nat → Int) (stride pos cuSize : Nat) (qp : Int) : Nat → Int :=
  fun a => if ∃ v < cuSize * 2, ∃ h < cuSize * 2, a = pos + v * stride + h then qp else qpMap a

/-- One CU of the CTB at address `tile`; the state is the map and `i1_last_cu_qp`. -/
def populateCu (stride tile : Nat) (s : (Nat → Int) × Int) (cu : CuEncLoopOut) :
    (Nat → Int) × Int :=
  let pos := tile + cu.b3CuPosY * 2 * stride + cu.b3CuPosX * 2
  let qp :=
    if cu.b1SkipFlag || cu.b1NoResidualSyntaxFlag then
      let qpLeft := if cu.b3CuPosX = 0 then s.2 else s.1 (pos - 1)
      let qpTop := if cu.b3CuPosY = 0 then s.2 else s.1 (pos - stride)
      if cu.b1FirstCuInQg then (qpLeft + qpTop + 1).tdiv 2 else s.2
    else cu.i1CuQp
  (fillQpMap s.1 stride pos cu.b4CuSize qp, qp)

/-- `update_last_coded_cu_qp` -/
def updateLastCodedCuQp (cfg : QpConfig) (qpMap : Nat → Int) (vertCtr ctbCtr : Nat)
    (lastCuQp : Int) : Int :=
  if ctbCtr ≠ 0 then lastCuQp
  else if vertCtr = 0 then cfg.sliceQp
  else if cfg.i1EntropyCodingSyncEnabledFlag then cfg.sliceQp
  else qpMap (offsetForLastCuQp cfg.toCtbGrid)

/-- One CTB of the loop over the row. -/
def populateCtb (cfg : QpConfig) (ctbs : Nat → Nat → CodingQuadtree CuResidual) (vertCtr : Nat)
    (s : (Nat → Int) × Int) (ctbCtr : Nat) : (Nat → Int) × Int :=
  let stride := qpBufferStride cfg.toCtbGrid
  let cus := quadtreeCus cfg.toCtbGrid ctbCtr vertCtr (ctbs ctbCtr vertCtr) 0 0 cfg.i1Log2CtbSize
  (cus.map (cuEncLoopOut cfg)).foldl
    (populateCu stride (stride + ctbCtr * ctbSizeIn4x4 cfg.toCtbGrid))
    (s.1, updateLastCodedCuQp cfg s.1 vertCtr ctbCtr s.2)

/-- The map of a row, in the buffer `ctbRowQp`, and the last rows `qpTop` of the CTB rows. -/
def ihevceDeblkPopulateQpMap (cfg : QpConfig) (ctbs : Nat → Nat → CodingQuadtree CuResidual)
    (vertCtr : Nat) (ctbRowQp qpTop : Nat → Int) : (Nat → Int) × (Nat → Int) :=
  let stride := qpBufferStride cfg.toCtbGrid
  let tileQpSize := offsetForLastCuQp cfg.toCtbGrid + 1
  let ctbRowQp :=
    if vertCtr ≠ 0 then memcpy ctbRowQp qpTop 0 ((vertCtr - 1) * stride) tileQpSize else ctbRowQp
  let r := (List.range cfg.i2PicWdInCtb).foldl (populateCtb cfg ctbs vertCtr)
    (ctbRowQp, cfg.sliceQp)
  (r.1, memcpy qpTop r.1 (vertCtr * stride) (ctbSizeIn4x4 cfg.toCtbGrid * stride) tileQpSize)

/-- The last rows before a CTB row; row `r` is done in a buffer that has held `ctbRowQp r`. -/
def qpTopBefore (cfg : QpConfig) (ctbs : Nat → Nat → CodingQuadtree CuResidual)
    (ctbRowQp : Nat → Nat → Int) (qpTop : Nat → Int) : Nat → Nat → Int
  | 0 => qpTop
  | r + 1 =>
    (ihevceDeblkPopulateQpMap cfg ctbs r (ctbRowQp r)
      (qpTopBefore cfg ctbs ctbRowQp qpTop r)).2

/-- The map of a row of CTBs. -/
def rowQpMap (cfg : QpConfig) (ctbs : Nat → Nat → CodingQuadtree CuResidual)
    (ctbRowQp : Nat → Nat → Int) (qpTop : Nat → Int) (vertCtr : Nat) : Nat → Int :=
  (ihevceDeblkPopulateQpMap cfg ctbs vertCtr (ctbRowQp vertCtr)
    (qpTopBefore cfg ctbs ctbRowQp qpTop vertCtr)).1

/-- The QP of a block of 4x4 of a CTB, at the end of its row. -/
def deblkQp (cfg : QpConfig) (ctbs : Nat → Nat → CodingQuadtree CuResidual)
    (ctbRowQp : Nat → Nat → Int) (qpTop : Nat → Int) (ctbX ctbY x y : Nat) : Int :=
  let stride := qpBufferStride cfg.toCtbGrid
  rowQpMap cfg ctbs ctbRowQp qpTop ctbY
    (stride + ctbX * ctbSizeIn4x4 cfg.toCtbGrid + y * stride + x)

end Libhevc.Encoder
