import Libhevc.Common.DispMgr

/-!
# Decoded pictures and their display

What a decode call does to the managers of picture buffers: the references that
the slice header gives up, the part of `ihevcd_parse_pic_init` that takes a
buffer and asks for a picture to display, and the end of `ihevcd_decode`. In
flush mode a call only asks for a picture to display.
-/

namespace Libhevc.Decoder

open Memory

def bufMgrDisp : Nat := 1 <<< 2

/-- `ihevc_buf_mgr_get_next_free`; `added` are the buffers whose pointer is not `NULL`. -/
def ihevcBufMgrGetNextFree (added : Nat → Bool) (b : BufMgr) : Option (Nat × BufMgr) :=
  match (List.range b.u4MaxBufCnt).find? fun i => b.au4Status i = 0 ∧ added i = true with
  | none => none
  | some i => some (i, { b with au4Status := set b.au4Status i 1 })

def ihevcBufMgrSetStatus (b : BufMgr) (bufId mask : Nat) : BufMgr :=
  if b.u4MaxBufCnt ≤ bufId then b
  else if b.au4Status bufId &&& mask ≠ 0 then b
  else { b with au4Status := set b.au4Status bufId (b.au4Status bufId ||| mask) }

/-- The managers and counters of `codec_t` that pictures go through. -/
structure PicCodec where
  dpbMgr : DpbMgr
  dispMgr : DispMgr
  added : Nat → Bool
  u4Ts : Nat → Nat
  u4PicCnt : Nat
  u4DispCnt : Nat
  i4ShareDispBuf : Bool
  /-- `e_chroma_fmt` is `IV_YUV_420P` -/
  yuv420p : Bool
  /-- `e_frm_out_mode` is `IVD_DECODE_FRAME_OUT` -/
  decodeFrameOut : Bool

/-- What a decode call reads of its picture: the time stamp of the call, fields of the slice header
and of the SPS, and the counts of the references that `ihevcd_parse_slice_header` and
`ihevcd_ref_list` give up. -/
structure PicHeader where
  u4Ts : Nat
  i4AbsPicOrderCnt : Int
  i4PicOrderCntLsb : Int
  i1PicOutputFlag : Nat
  spsMaxNumReorderPics : Int
  unused : List Int

/-- What `ihevcd_fill_outargs` says of a picture that is returned: `u4_ts` and
`i4_display_index`. -/
structure Shown where
  u4Ts : Nat
  i4DisplayIndex : Int
  deriving DecidableEq, Repr

def delRefs : List Int → DpbMgr → Option DpbMgr
  | [], m => some m
  | poc :: pocs, m => do
    let m ← ihevcDpbMgrDelRef m poc
    delRefs pocs m

def PicCodec.shown (c : PicCodec) (bufId : Nat) : Shown :=
  { u4Ts := c.u4Ts bufId, i4DisplayIndex := (c.dpbMgr.pics bufId).i4AbsPoc }

def PicCodec.setBufMgr (c : PicCodec) (bufMgr : BufMgr) : PicCodec :=
  { c with dpbMgr := { c.dpbMgr with bufMgr } }

/-- The current picture is taken and added to the display manager. -/
def PicCodec.takePic (c : PicCodec) (pic : PicHeader) : Option (Nat × PicCodec) := do
  let (curPicBufId, bufMgr) ← ihevcBufMgrGetNextFree c.added c.dpbMgr.bufMgr
  let curPic := { c.dpbMgr.pics curPicBufId with
    i4AbsPoc := pic.i4AbsPicOrderCnt
    i4PocLsb := pic.i4PicOrderCntLsb }
  let dispMgr := (ihevcDispMgrAdd c.dispMgr curPicBufId pic.i4AbsPicOrderCnt curPicBufId).2
  some (curPicBufId,
    { c with
      dpbMgr := { c.dpbMgr with bufMgr, pics := set c.dpbMgr.pics curPicBufId curPic }
      dispMgr
      u4Ts := set c.u4Ts curPicBufId pic.u4Ts })

/-- The picture to be displayed, when more wait than are reordered. -/
def PicCodec.bump (c : PicCodec) (spsMaxNumReorderPics : Int) : Option Nat × PicCodec :=
  if spsMaxNumReorderPics ≤ i32 (u32Sub c.u4PicCnt c.u4DispCnt) ∨ c.decodeFrameOut = true then
    let (got, dispMgr) := ihevcDispMgrGet c.dispMgr
    (got.bind Prod.fst, { c with dispMgr, u4DispCnt := u32 (c.u4DispCnt + 1) })
  else (none, c)

/-- The current picture is marked as needed for reference and for display, and inserted. -/
def PicCodec.markPic (c : PicCodec) (curPicBufId : Nat) : PicCodec :=
  let bufMgr := ihevcBufMgrSetStatus c.dpbMgr.bufMgr curPicBufId bufMgrRef
  let bufMgr := ihevcBufMgrSetStatus bufMgr curPicBufId bufMgrDisp
  { c with dpbMgr := (ihevcDpbMgrInsertRef { c.dpbMgr with bufMgr } curPicBufId curPicBufId).2 }

def PicCodec.releaseDisp (c : PicCodec) (bufId : Nat) : PicCodec :=
  c.setBufMgr (ihevcBufMgrRelease c.dpbMgr.bufMgr bufId bufMgrDisp)

/-- The end of `ihevcd_decode`: a picture that is displayed is released unless the application
holds it. -/
def PicCodec.finish (c : PicCodec) (curPicBufId : Nat) (psDispBuf : Option Nat) : PicCodec :=
  let c := c.markPic curPicBufId
  let c :=
    match psDispBuf with
    | some bufId => if c.i4ShareDispBuf then c else c.releaseDisp bufId
    | none => c
  { c with u4PicCnt := u32 (c.u4PicCnt + 1) }

/-- A decode call without errors: the buffer that is displayed, if any. There is none where a
`NULL` pointer would be followed or no buffer is free. -/
def PicCodec.decode (c : PicCodec) (pic : PicHeader) : Option (Option Nat × PicCodec) := do
  let dpbMgr ← delRefs pic.unused c.dpbMgr
  let (curPicBufId, c) ← PicCodec.takePic { c with dpbMgr } pic
  let bumped := c.bump pic.spsMaxNumReorderPics
  some (bumped.1, bumped.2.finish curPicBufId bumped.1)

/-- A call in flush mode. -/
def PicCodec.flush (c : PicCodec) : Option Nat × PicCodec :=
  let (got, dispMgr) := ihevcDispMgrGet c.dispMgr
  let c := { c with dispMgr }
  match got.bind Prod.fst with
  | some bufId =>
    (some bufId, if c.i4ShareDispBuf = false ∨ c.yuv420p = true then c.releaseDisp bufId else c)
  | none => (none, c)

/-- Flush calls until one returns nothing: what they return, if that happens within `calls`. -/
def PicCodec.flushAll : Nat → PicCodec → Option (List Shown)
  | 0, _ => none
  | calls + 1, c =>
    match c.flush with
    | (none, _) => some []
    | (some bufId, c') => (flushAll calls c').map (c.shown bufId :: ·)

/-- The buffers that `ihevcd_set_display_frame` has marked and the application has not given back. -/
def PicCodec.givenOut (c : PicCodec) : List Nat :=
  (List.range c.dpbMgr.bufMgr.u4MaxBufCnt).filter fun i =>
    c.dpbMgr.bufMgr.au4Status i = bufMgrDisp

/-- Decode calls, and in shared mode `ihevcd_rel_display_frame` for buffers that the application
holds: the pictures decoded, what was returned, and these buffers. -/
inductive DisplayRun (start : PicCodec) :
    List PicHeader → List Shown → List Nat → PicCodec → Prop
  | start : DisplayRun start [] [] start.givenOut start
  | decode {pics : List PicHeader} {out : List Shown} {held : List Nat} {c c' : PicCodec}
      {psDispBuf : Option Nat} (pic : PicHeader) : DisplayRun start pics out held c →
      c.decode pic = some (psDispBuf, c') →
      DisplayRun start (pics ++ [pic]) (out ++ psDispBuf.toList.map c'.shown)
        (if c.i4ShareDispBuf then psDispBuf.toList ++ held else held) c'
  | relDisplayFrame {pics : List PicHeader} {out : List Shown} {held : List Nat} {c : PicCodec}
      (bufId : Nat) : DisplayRun start pics out held c → bufId ∈ held →
      DisplayRun start pics out (held.erase bufId) (c.releaseDisp bufId)

/-- The managers before the first picture. -/
structure PicCodec.Start (c : PicCodec) : Prop where
  bufs : c.dpbMgr.bufMgr.u4MaxBufCnt ≤ dispMgrMaxCnt
  status : ∀ i < c.dpbMgr.bufMgr.u4MaxBufCnt, c.dpbMgr.bufMgr.au4Status i = 0 ∨
    c.i4ShareDispBuf = true ∧ c.dpbMgr.bufMgr.au4Status i = bufMgrDisp
  disp : c.dispMgr = ihevcDispMgrInit
  picCnt : c.u4PicCnt = 0
  dispCnt : c.u4DispCnt = 0

end Libhevc.Decoder
