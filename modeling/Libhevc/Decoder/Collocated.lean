import Libhevc.Common.Motion
import Libhevc.Decoder.Tiles

/-!
# Temporal motion vectors of the decoder

`ihevcd_collocated_mvp`. The prediction units of a picture are stored one behind
the other, with the index of the first one of each CTB and a map of the 4x4
blocks of a CTB to its units. The reference counts of a unit are those of the
slice that its CTB belongs to.
-/

namespace Libhevc.Decoder

def maxSliceHdrCnt : Nat := 256

/-- What the prediction of motion uses of `pu_t`. -/
structure Pu where
  b4PosX : Nat
  b4PosY : Nat
  b4Wd : Nat
  b4Ht : Nat
  b1IntraFlag : Bool
  b2PredMode : PredMode
  b1L0MvpIdx : Nat
  b1L1MvpIdx : Nat
  b3MergeIdx : Nat
  mv : PuMv

/-- What it uses of `mv_buf_t`. -/
structure MvBuf where
  i4AbsPoc : Int
  pu4PicPuIdx : Nat → Nat
  pu1PicPuMap : Nat → Nat
  psPicPu : Nat → Pu
  pu1PicSliceMap : Nat → Nat
  /-- `ai4_l0_collocated_poc` and `ai4_l1_collocated_poc` -/
  ai4CollocatedPoc : ListX → Nat → Int → Int
  /-- `ai1_l0_collocated_poc_lt` and `ai1_l1_collocated_poc_lt` -/
  ai1CollocatedPocLt : ListX → Nat → Int → Nat

/-- `ref_list_t` -/
structure RefPic where
  pvPicBuf : PicBuf
  pvMvBuf : MvBuf

structure SliceHeader extends MotionHeader where
  asRefPicList0 : Int → RefPic
  asRefPicList1 : Int → RefPic

/-- `ps_ref_list`: a P slice has its list 0 in the place of list 1 as well. -/
def SliceHeader.psRefList (h : SliceHeader) : ListX → Int → RefPic
  | .l0 => h.asRefPicList0
  | .l1 => if h.i1SliceType = .pslice then h.asRefPicList0 else h.asRefPicList1

/-- `mv_ctxt_t` -/
structure MvCtxt where
  psSliceHdr : SliceHeader
  psSps : SpsSize
  i4CtbX : Nat
  i4CtbY : Nat
  i1Log2ParallelMergeLevel : Nat

def MvCtxt.mvBufCol (c : MvCtxt) : MvBuf :=
  (c.psSliceHdr.psRefList c.psSliceHdr.collocatedList c.psSliceHdr.i1CollocatedRefIdx).pvMvBuf

/-- The unit of an index in CTB `colCtbIdx`, at a place of its map. -/
def MvBuf.puAt (b : MvBuf) (sps : SpsSize) (colCtbX colCtbY pos : Nat) : Pu :=
  let ctbSize := 1 <<< sps.i1Log2CtbSize
  let numMinpuInCtb := (ctbSize / 4) * (ctbSize / 4)
  let colCtbIdx := colCtbX + colCtbY * sps.i2PicWdInCtb
  b.psPicPu (b.pu4PicPuIdx colCtbIdx + b.pu1PicPuMap (colCtbIdx * numMinpuInCtb + pos))

/-- The collocated unit with the position of its CTB, when the position is in the picture and in
the row of CTBs. -/
def MvCtxt.colPu (c : MvCtxt) (pu : Pu) (xCol yCol : Nat) : Option (Pu × Nat × Nat) :=
  let log2CtbSize := c.psSps.i1Log2CtbSize
  let ctbSize := 1 <<< log2CtbSize
  let partPosY := pu.b4PosY <<< 2
  if partPosY >>> log2CtbSize = yCol >>> log2CtbSize ∧
      xCol + c.i4CtbX <<< log2CtbSize < c.psSps.i2PicWidthInLumaSamples ∧
      yCol + c.i4CtbY <<< log2CtbSize < c.psSps.i2PicHeightInLumaSamples then
    let xpCol := (xCol >>> 4) <<< 4
    let ypCol := (yCol >>> 4) <<< 4
    let colCtbX := c.i4CtbX + xpCol >>> log2CtbSize
    let colCtbY := c.i4CtbY + ypCol >>> log2CtbSize
    let xpCol := if xpCol = ctbSize then 0 else xpCol
    let pos := (ypCol >>> 2) * (ctbSize / 4) + xpCol >>> 2
    some (c.mvBufCol.puAt c.psSps colCtbX colCtbY pos, colCtbX, colCtbY)
  else none

/-- The vector of one list; there is none when the scaling divides by zero. -/
def MvCtxt.colMv (c : MvCtxt) (colPu : Pu) (sliceIdx : Nat) (lx : ListX) (refIdx : Int) :
    Option (Bool × Mv) :=
  let listCol := c.psSliceHdr.listCol colPu.b2PredMode lx
  let mvCol := colPu.mv.mv listCol
  let refIdxCol := colPu.mv.refIdx listCol
  let colPoc := c.mvBufCol.i4AbsPoc
  let curPoc := c.psSliceHdr.i4AbsPicOrderCnt
  let colRefPoc := c.mvBufCol.ai4CollocatedPoc listCol sliceIdx refIdxCol
  let colRefPocLt := c.mvBufCol.ai1CollocatedPocLt listCol sliceIdx refIdxCol = longTermRef
  let picBuf := (c.psSliceHdr.psRefList lx refIdx).pvPicBuf
  let curRefPocLt := picBuf.u1UsedAsRef = longTermRef
  if curRefPocLt ↔ colRefPocLt then
    if curRefPocLt ∨ i32 (colPoc - colRefPoc) = i32 (curPoc - picBuf.i4AbsPoc) then
      some (true, mvCol)
    else if colRefPoc ≠ colPoc then
      (ihevcdScaleCollocatedMv mvCol picBuf.i4AbsPoc colRefPoc colPoc curPoc).map fun mv =>
        (true, mv)
    else some (true, mvCol)
  else some (false, .zero)

/-- `psMvCol` is what the caller passes: the vector of list 1 of a P slice is not written. -/
def ihevcdCollocatedMvp (c : MvCtxt) (pu : Pu) (psMvCol : ListX → Mv) (usePuRefIdx : Bool)
    (xCol yCol : Nat) : Option ColMvp :=
  match c.colPu pu xCol yCol with
  | none => some .unavailable
  | some (colPu, colCtbX, colCtbY) =>
    if colPu.b1IntraFlag = true ∨ c.psSliceHdr.i1SliceTemporalMvpEnableFlag = false then
      some .unavailable
    else
      let sliceIdx :=
        c.mvBufCol.pu1PicSliceMap (colCtbX + colCtbY * c.psSps.i2PicWdInCtb) % maxSliceHdrCnt
      let refIdx := fun lx => if usePuRefIdx then pu.mv.refIdx lx else 0
      (c.colMv colPu sliceIdx .l0 (refIdx .l0)).bind fun l0 =>
        (if c.psSliceHdr.i1SliceType = .bslice then c.colMv colPu sliceIdx .l1 (refIdx .l1)
          else some (false, psMvCol .l1)).map fun l1 => .ofLists l0 l1

end Libhevc.Decoder
