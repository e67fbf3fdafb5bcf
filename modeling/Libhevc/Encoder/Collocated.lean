import Libhevc.Common.Motion
import Libhevc.Decoder.Tiles

/-!
# Temporal motion vectors of the encoder

`ihevce_collocated_mvp`. The units of a picture are stored CTB by CTB, with room
for one unit in each 4x4 block and one more CTB in each row. A picture has one
table of reference counts, and all references are short-term ones.
-/

namespace Libhevc.Encoder

open Decoder (SpsSize)

/-- What the prediction of motion uses of `pu_col_mv_t`. -/
structure PuColMv where
  b1IntraFlag : Bool
  b2PredMode : PredMode
  mv : PuMv

/-- What it uses of `recon_pic_buf_t`. -/
structure ReconPicBuf where
  i4Poc : Int
  pu1FrmPuMap : Nat → Nat
  psFrmColMv : Nat → PuColMv
  /-- `ai4_col_l0_poc` and `ai4_col_l1_poc` -/
  ai4ColPoc : ListX → Int → Int

/-- `mv_pred_ctxt_t` -/
structure MvPredCtxt where
  psRefList : ListX → Int → ReconPicBuf
  psSliceHdr : MotionHeader
  psSps : SpsSize
  i4CtbX : Nat
  i4CtbY : Nat
  i4Log2ParallelMergeLevelMinus2 : Nat
  ai4TileXtraCtb : Nat → Int

/-- What the prediction of motion uses of the `pu_t` of the encoder. -/
structure Pu where
  b4PosX : Nat
  b4PosY : Nat
  b4Wd : Nat
  b4Ht : Nat
  mv : PuMv

def MvPredCtxt.colRefBuf (c : MvPredCtxt) : ReconPicBuf :=
  c.psRefList c.psSliceHdr.collocatedList c.psSliceHdr.i1CollocatedRefIdx

/-- The unit at a place of the map of a CTB. -/
def ReconPicBuf.colMvAt (b : ReconPicBuf) (sps : SpsSize) (colCtbX colCtbY pos : Nat) : PuColMv :=
  let ctbSize := 1 <<< sps.i1Log2CtbSize
  let numMinpuInCtb := (ctbSize / 4) * (ctbSize / 4)
  let colCtbIdx := colCtbX + colCtbY * (sps.i2PicWdInCtb + 1)
  b.psFrmColMv ((colCtbY * (sps.i2PicWdInCtb + 1) + colCtbX) * numMinpuInCtb +
    b.pu1FrmPuMap (colCtbIdx * numMinpuInCtb + pos))

/-- The collocated unit, when the position is in the picture and in the row of CTBs. -/
def MvPredCtxt.colMv (c : MvPredCtxt) (pu : Pu) (xCol yCol : Nat) : Option PuColMv :=
  let log2CtbSize := c.psSps.i1Log2CtbSize
  let ctbSize := 1 <<< log2CtbSize
  let partPosY := pu.b4PosY <<< 2
  if partPosY >>> log2CtbSize = yCol >>> log2CtbSize ∧
      (xCol + c.i4CtbX <<< log2CtbSize < c.psSps.i2PicWidthInLumaSamples ∨
        c.ai4TileXtraCtb 2 ≠ 0) ∧
      (yCol + c.i4CtbY <<< log2CtbSize < c.psSps.i2PicHeightInLumaSamples ∨
        c.ai4TileXtraCtb 3 ≠ 0) then
    let xpCol := (xCol >>> 4) <<< 4
    let ypCol := (yCol >>> 4) <<< 4
    let colCtbX := c.i4CtbX + xpCol >>> log2CtbSize
    let colCtbY := c.i4CtbY + ypCol >>> log2CtbSize
    let xpCol := if xpCol = ctbSize then 0 else xpCol
    let pos := (ypCol >>> 2) * (ctbSize / 4) + xpCol >>> 2
    some (c.colRefBuf.colMvAt c.psSps colCtbX colCtbY pos)
  else none

/-- The vector of one list; there is none when the scaling divides by zero. Both lists look up
their count with the index of list 0, `au4_ref_idx_col[0]`. -/
def MvPredCtxt.colMvLx (c : MvPredCtxt) (colMv : PuColMv) (lx : ListX) (refIdx : Int) :
    Option Mv :=
  let listCol := c.psSliceHdr.listCol colMv.b2PredMode lx
  let mvCol := colMv.mv.mv listCol
  let refIdxCol := colMv.mv.refIdx (c.psSliceHdr.listCol colMv.b2PredMode .l0)
  let colPoc := c.colRefBuf.i4Poc
  let curPoc := c.psSliceHdr.i4AbsPicOrderCnt
  let colRefPoc := c.colRefBuf.ai4ColPoc listCol refIdxCol
  let curRefPoc := (c.psRefList lx refIdx).i4Poc
  if i32 (colPoc - colRefPoc) = i32 (curPoc - curRefPoc) then some mvCol
  else if colRefPoc ≠ colPoc then ihevceScaleCollocatedMv mvCol curRefPoc colRefPoc colPoc curPoc
  else some mvCol

/-- `psMvCol` is what the caller passes: the vector of list 1 is not always written. -/
def ihevceCollocatedMvp (c : MvPredCtxt) (pu : Pu) (psMvCol : ListX → Mv) (usePuRefIdx : Bool)
    (xCol yCol : Nat) : Option ColMvp :=
  match c.colMv pu xCol yCol with
  | none => some .unavailable
  | some colMv =>
    if colMv.b1IntraFlag = true ∨ c.psSliceHdr.i1SliceTemporalMvpEnableFlag = false then
      some .unavailable
    else
      let refIdx := fun lx => if usePuRefIdx then pu.mv.refIdx lx else 0
      (if refIdx .l0 ≠ -1 then (c.colMvLx colMv .l0 (refIdx .l0)).map fun mv => (true, mv)
        else some (false, .zero)).bind fun l0 =>
        (if c.psSliceHdr.i1SliceType = .bslice ∧ refIdx .l1 ≠ -1 then
            (c.colMvLx colMv .l1 (refIdx .l1)).map fun mv => (true, mv)
          else some (false, psMvCol .l1)).map fun l1 => .ofLists l0 l1

end Libhevc.Encoder
