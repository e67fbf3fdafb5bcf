import Libhevc.Decoder.Display

/-!
# The pool of picture buffers

The steps of the decoder that take picture buffers from the buffer manager and
give them back. A call to decode is the reference handling of its slice headers,
`ihevcd_parse_pic_init` when a picture begins, and the end of `ihevcd_decode`
when one was present; a call that fails in between leaves the managers as they
are.
-/

namespace Libhevc.Decoder

open Memory

/-- The managers, and what the current call and the application have of the pool. -/
structure PoolState where
  codec : PicCodec
  /-- `i4_cur_pic_buf_id` while `i4_pic_present` is set -/
  curPic : Option Nat
  /-- `i4_disp_buf_id` while `ps_disp_buf` is not `NULL` -/
  psDispBuf : Option Nat
  /-- In shared mode, the buffers that the application has not given back. -/
  held : List Nat

inductive PoolEvent
  | delRef (i4AbsPoc : Int)
  | markRef (psPicBuf u1UsedAsRef : Nat)
  | picInit (pic : PicHeader)
  | endPic
  | flush (outBufFits : Bool)
  | setFlushMode
  | relDisplayFrame (bufId : Nat)

/-- One step; `none` where the code has none, or follows a `NULL` pointer. -/
def PoolState.step (s : PoolState) : PoolEvent → Option PoolState
  | .delRef i4AbsPoc =>
    (ihevcDpbMgrDelRef s.codec.dpbMgr i4AbsPoc).map fun dpbMgr =>
      { s with codec := { s.codec with dpbMgr } }
  | .markRef psPicBuf u1UsedAsRef =>
    let pics := s.codec.dpbMgr.pics
    let dpbMgr :=
      { s.codec.dpbMgr with pics := set pics psPicBuf { pics psPicBuf with u1UsedAsRef } }
    some { s with codec := { s.codec with dpbMgr } }
  | .picInit pic =>
    match s.curPic with
    | some _ => none
    | none =>
      match s.codec.takePic pic with
      -- `IHEVCD_NO_FREE_PICBUF`
      | none => some s
      | some (curPicBufId, c) =>
        let bumped := c.bump pic.spsMaxNumReorderPics
        some { s with codec := bumped.2, curPic := some curPicBufId, psDispBuf := bumped.1 }
  | .endPic =>
    match s.curPic with
    | none => none
    | some curPicBufId =>
      some
        { codec := s.codec.finish curPicBufId s.psDispBuf
          curPic := none
          psDispBuf := none
          held := if s.codec.i4ShareDispBuf then s.psDispBuf.toList ++ s.held else s.held }
  | .flush outBufFits =>
    match s.curPic with
    | some _ => none
    | none =>
      if outBufFits = true ∨ s.codec.i4ShareDispBuf = true then
        let flushed := s.codec.flush
        some
          { s with
            codec := flushed.2
            -- the buffer of a converted picture is released at once
            held :=
              if s.codec.i4ShareDispBuf = true ∧ s.codec.yuv420p = false then
                flushed.1.toList ++ s.held
              else s.held }
      else
        -- `ihevcd_check_out_buf_size` fails when the picture has left the display manager
        some { s with codec := { s.codec with dispMgr := (ihevcDispMgrGet s.codec.dispMgr).2 } }
  | .setFlushMode =>
    match s.curPic with
    | some _ => none
    | none => some { s with codec := { s.codec with u4PicCnt := 0, u4DispCnt := 0 } }
  | .relDisplayFrame bufId =>
    if s.codec.i4ShareDispBuf then
      some { s with codec := s.codec.releaseDisp bufId, held := s.held.erase bufId }
    else some s

/-- What the application and the stream keep to: it gives back what it holds, and no count is the
mark of an empty slot. The output buffers that flush calls get are large enough. -/
def PoolState.Allows (s : PoolState) : PoolEvent → Prop
  | .picInit pic => pic.i4AbsPicOrderCnt < defaultPoc
  | .flush outBufFits => outBufFits = true
  | .relDisplayFrame bufId => s.codec.i4ShareDispBuf = true → bufId ∈ s.held
  | _ => True

inductive PoolRun (start : PoolState) : PoolState → Prop
  | start : PoolRun start start
  | step {s s' : PoolState} (e : PoolEvent) : PoolRun start s → s.Allows e → s.step e = some s' →
      PoolRun start s'

/-- Before the first picture. In shared mode `ihevcd_set_display_frame` has marked the buffers as
needed for display, and the application gives them back one by one. -/
structure PoolState.Start (s : PoolState) : Prop where
  bufs : s.codec.dpbMgr.bufMgr.u4MaxBufCnt ≤ dispMgrMaxCnt
  dpb : ∀ node, s.codec.dpbMgr.pic node = none
  disp : s.codec.dispMgr = ihevcDispMgrInit
  curPic : s.curPic = none
  psDispBuf : s.psDispBuf = none
  shared : s.codec.i4ShareDispBuf = false → s.held = []
  nodup : s.held.Nodup
  held : ∀ i ∈ s.held, i < s.codec.dpbMgr.bufMgr.u4MaxBufCnt
  status : ∀ i < s.codec.dpbMgr.bufMgr.u4MaxBufCnt,
    s.codec.dpbMgr.bufMgr.au4Status i = if i ∈ s.held then bufMgrDisp else 0

/-- The buffer holds a picture of the DPB. -/
def InDpb (m : DpbMgr) (bufId : Nat) : Prop := ∃ node < maxDpbBufs, m.pic node = some bufId

/-- A picture in the buffer waits for display. -/
def WaitsForDisp (d : DispMgr) (bufId : Nat) : Prop := d.ai4AbsPoc bufId ≠ defaultPoc

/-- The buffer is referenced, waits, is decoded, is displayed by the current call, or is held by
the application. -/
def PoolState.InUse (s : PoolState) (bufId : Nat) : Prop :=
  InDpb s.codec.dpbMgr bufId ∨ WaitsForDisp s.codec.dispMgr bufId ∨ s.curPic = some bufId ∨
    s.psDispBuf = some bufId ∨ bufId ∈ s.held

instance : Decidable (InDpb m bufId) :=
  inferInstanceAs (Decidable (∃ node < maxDpbBufs, m.pic node = some bufId))

instance : Decidable (WaitsForDisp d bufId) :=
  inferInstanceAs (Decidable (d.ai4AbsPoc bufId ≠ defaultPoc))

instance {s : PoolState} : Decidable (s.InUse bufId) :=
  inferInstanceAs (Decidable (_ ∨ _ ∨ _ ∨ _ ∨ _))

/-- The buffers that were added to the manager. -/
def PoolState.pool (s : PoolState) : List Nat :=
  (List.range s.codec.dpbMgr.bufMgr.u4MaxBufCnt).filter s.codec.added

end Libhevc.Decoder
