import Libhevc.Decoder.BufferPool

/-!
# Motion vector banks

A bank is taken for each picture, marked with the picture's POC, and found again
by this POC: `ihevcd_mv_mgr_get_poc`, and the loops that release the bank of a
picture that leaves the DPB.
-/

namespace Libhevc.Decoder

open Memory

/-- The managers of pictures and banks. -/
structure BankState where
  dpbMgr : DpbMgr
  /-- the picture buffers that were added -/
  added : Nat → Bool
  mvBufMgr : BufMgr
  /-- the number of banks: `apv_ptr` is `NULL` from there on -/
  i4MaxDpbSize : Nat
  /-- `i4_abs_poc` of the banks, which are 0 before they are used -/
  mvPocs : Nat → Int
  /-- `i4_cur_pic_buf_id` and `i4_cur_mv_bank_buf_id` while `i4_pic_present` is set -/
  cur : Option (Nat × Nat)
  /-- For each picture buffer the bank that is filled with its picture; the code does not keep
  it. -/
  filled : Nat → Nat

def BankState.apvPtr (s : BankState) (i : Nat) : Option Nat :=
  if i < s.i4MaxDpbSize then some i else none

/-- The loop of `ihevcd_mv_mgr_get_poc`: `ps_mv_buf` is what the loop before it has left. -/
def getPocLoop (s : BankState) (absPoc : Int) : List Nat → Option Nat → Option Nat
  | [], psMvBuf => psMvBuf
  | i :: is, _ =>
    match s.apvPtr i with
    | some bank => if s.mvPocs bank = absPoc then some bank else getPocLoop s absPoc is (some bank)
    | none => getPocLoop s absPoc is none

def ihevcdMvMgrGetPoc (s : BankState) (absPoc : Int) : Option Nat :=
  getPocLoop s absPoc (List.range s.mvBufMgr.u4MaxBufCnt) none

/-- The loop over `ps_codec->ps_mv_buf` that releases the bank with the POC of `psPicBuf`. -/
def BankState.releaseBank (s : BankState) (psPicBuf : Nat) : BufMgr :=
  match (List.range s.i4MaxDpbSize).find? fun j =>
      s.mvPocs j = (s.dpbMgr.pics psPicBuf).i4AbsPoc with
  | some j => ihevcBufMgrRelease s.mvBufMgr j bufMgrRef
  | none => s.mvBufMgr

inductive BankEvent
  /-- The loops of `ihevcd_ref_list` and `ihevcd_parse_slice_header` at the entry `node` of the
  DPB. -/
  | removeEntry (node : Nat)
  | markRef (psPicBuf u1UsedAsRef : Nat)
  /-- `ihevcd_parse_pic_init`; `stops` when it fails behind the buffers -/
  | picInit (pic : PicHeader) (stops : Bool)
  /-- The end of `ihevcd_decode` -/
  | endPic
  | releaseDisp (bufId : Nat)

/-- The bank is marked with the POC of the picture. -/
def BankState.takeBank (s : BankState) (pic : PicHeader) (bank : Nat) (mvBufMgr : BufMgr) :
    BankState :=
  { s with mvBufMgr, mvPocs := set s.mvPocs bank pic.i4AbsPicOrderCnt }

def BankState.takePic (s : BankState) (pic : PicHeader) (bank psPicBuf : Nat) (bufMgr : BufMgr)
    (stops : Bool) : BankState :=
  let curPic := { s.dpbMgr.pics psPicBuf with
    i4AbsPoc := pic.i4AbsPicOrderCnt
    i4PocLsb := pic.i4PicOrderCntLsb }
  { s with
    dpbMgr := { s.dpbMgr with bufMgr, pics := set s.dpbMgr.pics psPicBuf curPic }
    cur := if stops then none else some (psPicBuf, bank)
    filled := set s.filled psPicBuf bank }

/-- The current picture and its bank become references. -/
def BankState.finish (s : BankState) (psPicBuf bank : Nat) : BankState :=
  let bufMgr := ihevcBufMgrSetStatus s.dpbMgr.bufMgr psPicBuf bufMgrRef
  let bufMgr := ihevcBufMgrSetStatus bufMgr psPicBuf bufMgrDisp
  { s with
    mvBufMgr := ihevcBufMgrSetStatus s.mvBufMgr bank bufMgrRef
    dpbMgr := (ihevcDpbMgrInsertRef { s.dpbMgr with bufMgr } psPicBuf psPicBuf).2
    cur := none }

/-- One step; `none` where the code has none, or follows a `NULL` pointer. -/
def BankState.step (s : BankState) : BankEvent → Option BankState
  | .removeEntry node =>
    match s.dpbMgr.pic node with
    | none => some s
    | some psPicBuf =>
      (ihevcDpbMgrDelRef s.dpbMgr (s.dpbMgr.pics psPicBuf).i4AbsPoc).map fun dpbMgr =>
        { s with dpbMgr, mvBufMgr := s.releaseBank psPicBuf }
  | .markRef psPicBuf u1UsedAsRef =>
    let pics := s.dpbMgr.pics
    let dpbMgr := { s.dpbMgr with pics := set pics psPicBuf { pics psPicBuf with u1UsedAsRef } }
    some { s with dpbMgr }
  | .picInit pic stops =>
    match s.cur with
    | some _ => none
    | none =>
      match ihevcBufMgrGetNextFree (· < s.i4MaxDpbSize) s.mvBufMgr with
      -- `IHEVCD_NO_FREE_MVBANK`
      | none => some s
      | some (bank, mvBufMgr) =>
        let s := s.takeBank pic bank mvBufMgr
        match ihevcBufMgrGetNextFree s.added s.dpbMgr.bufMgr with
        -- `IHEVCD_NO_FREE_PICBUF`, and the bank stays taken
        | none => some s
        | some (psPicBuf, bufMgr) => some (s.takePic pic bank psPicBuf bufMgr stops)
  | .endPic => s.cur.map fun (psPicBuf, bank) => s.finish psPicBuf bank
  | .releaseDisp bufId =>
    some { s with
      dpbMgr :=
        { s.dpbMgr with bufMgr := ihevcBufMgrRelease s.dpbMgr.bufMgr bufId bufMgrDisp } }

inductive BankRun (Allows : BankState → BankEvent → Prop) (start : BankState) : BankState → Prop
  | start : BankRun Allows start start
  | step {s s' : BankState} (e : BankEvent) : BankRun Allows start s → Allows s e →
      s.step e = some s' → BankRun Allows start s'

/-- Before the first picture. -/
structure BankState.Start (s : BankState) : Prop where
  bufs : s.dpbMgr.bufMgr.u4MaxBufCnt ≤ dispMgrMaxCnt
  banks : s.i4MaxDpbSize < s.mvBufMgr.u4MaxBufCnt
  dpb : ∀ node, s.dpbMgr.pic node = none
  head : s.dpbMgr.psDpbHead = none
  count : s.dpbMgr.u1NumRefBufs = 0
  cur : s.cur = none
  status : ∀ bank, s.mvBufMgr.au4Status bank = 0
  pocs : ∀ bank, s.mvPocs bank = 0

/-- No bank in use has the POC of a picture that begins. -/
def BankState.Fresh (s : BankState) : BankEvent → Prop
  | .picInit pic _ =>
    ∀ bank < s.i4MaxDpbSize, s.mvBufMgr.au4Status bank ≠ 0 →
      s.mvPocs bank ≠ pic.i4AbsPicOrderCnt
  | _ => True

end Libhevc.Decoder
