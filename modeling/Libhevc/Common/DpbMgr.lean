import Libhevc.Common.Platform
import Mathlib.Data.List.Range

/-!
# The DPB manager

`ihevc_dpb_mgr.c`, and what it uses of `ihevc_buf_mgr.c`. The nodes of the list
are the entries of `as_dpb_info`, named by their index, and pictures are
numbered. Pointers that may be `NULL` are options, and a function that
dereferences a `NULL` pointer gives `none`.
-/

namespace Libhevc

open Memory

def maxDpbBufs : Nat := 64

def unusedForRef : Nat := 0

def shortTermRef : Nat := 2

def bufMgrRef : Nat := 1 <<< 1

/-- What the DPB manager uses of `pic_buf_t`. -/
structure PicBuf where
  i4AbsPoc : Int
  i4PocLsb : Int
  u1BufId : Nat
  u1UsedAsRef : Nat

structure DpbInfo where
  psPicBuf : Option Nat
  psPrevDpb : Option Nat

structure BufMgr where
  u4MaxBufCnt : Nat
  au4Status : Nat → Nat

/-- `dpb_mgr_t`, the pictures its pointers lead to and the buffer manager of the caller. -/
structure DpbMgr where
  asDpbInfo : Nat → DpbInfo
  psDpbHead : Option Nat
  u1NumRefBufs : Nat
  pics : Nat → PicBuf
  bufMgr : BufMgr

/-- `ihevc_buf_mgr_release`; `~mask` is `2 ^ 32 - 1 - mask`. -/
def ihevcBufMgrRelease (b : BufMgr) (bufId mask : Nat) : BufMgr :=
  if b.u4MaxBufCnt ≤ bufId then b
  else
    let status := b.au4Status bufId &&& (2 ^ 32 - 1 - mask)
    { b with au4Status := set b.au4Status bufId (if status = 1 then 0 else status) }

def DpbMgr.pic (m : DpbMgr) (i : Nat) : Option Nat := (m.asDpbInfo i).psPicBuf

def DpbMgr.prev (m : DpbMgr) (i : Nat) : Option Nat := (m.asDpbInfo i).psPrevDpb

def DpbMgr.setPrev (m : DpbMgr) (i : Nat) (psPrevDpb : Option Nat) : DpbMgr :=
  { m with asDpbInfo := set m.asDpbInfo i { m.asDpbInfo i with psPrevDpb } }

def DpbMgr.setPic (m : DpbMgr) (i : Nat) (psPicBuf : Option Nat) : DpbMgr :=
  { m with asDpbInfo := set m.asDpbInfo i { m.asDpbInfo i with psPicBuf } }

def ihevcDpbMgrInit (m : DpbMgr) : DpbMgr :=
  { m with
    asDpbInfo := fun i =>
      if i < maxDpbBufs then { psPicBuf := none, psPrevDpb := none } else m.asDpbInfo i
    u1NumRefBufs := 0
    psDpbHead := none }

/-- The new entry of a picture, at the head of the list. -/
def DpbMgr.link (m : DpbMgr) (psPicBuf bufId i : Nat) : DpbMgr :=
  let m := (m.setPic i (some psPicBuf)).setPrev i m.psDpbHead
  { m with
    pics := set m.pics psPicBuf
      { m.pics psPicBuf with u1BufId := bufId % 256, u1UsedAsRef := shortTermRef }
    psDpbHead := some i
    u1NumRefBufs := (m.u1NumRefBufs + 1) % 256 }

def ihevcDpbMgrInsertRef (m : DpbMgr) (psPicBuf bufId : Nat) : Int × DpbMgr :=
  if (List.range maxDpbBufs).any fun i =>
      m.pic i = some psPicBuf ∧ (m.pics psPicBuf).u1UsedAsRef ≠ 0 then (-1, m)
  else
    match (List.range maxDpbBufs).find? fun i => m.pic i = none with
    | none => (-1, m)
    | some i => (0, m.link psPicBuf bufId i)

/-- The loop of `ihevc_dpb_mgr_del_ref`: `n` more nodes behind `node` are looked at. The answer
is the node before the one with the POC. -/
def findBefore (m : DpbMgr) (i4AbsPoc : Int) : Nat → Nat → Option (Option Nat)
  | 0, _ => some none
  | n + 1, node => do
    let prev ← m.prev node
    let pic ← m.pic prev
    if (m.pics pic).i4AbsPoc = i4AbsPoc then some (some node) else findBefore m i4AbsPoc n prev

/-- The end of `ihevc_dpb_mgr_del_ref`: `unmark` leaves the list, `next` is the node before it. -/
def DpbMgr.unlink (m : DpbMgr) (next unmark : Nat) : Option DpbMgr := do
  let m :=
    if m.psDpbHead = some unmark then { m with psDpbHead := m.prev unmark }
    else (m.setPrev next (m.prev unmark)).setPrev unmark none
  let pic ← m.pic unmark
  some
    { ((m.setPrev unmark none).setPic unmark none) with
      u1NumRefBufs := (m.u1NumRefBufs + 255) % 256
      bufMgr := ihevcBufMgrRelease m.bufMgr (m.pics pic).u1BufId bufMgrRef }

def ihevcDpbMgrDelRef (m : DpbMgr) (i4AbsPoc : Int) : Option DpbMgr := do
  let head ← m.psDpbHead
  let pic ← m.pic head
  if (m.pics pic).i4AbsPoc = i4AbsPoc then m.unlink head head
  else
    -- without entries the loop would not run and not count as a search in vain
    match ← if m.u1NumRefBufs = 0 then some (some head)
      else findBefore m i4AbsPoc (m.u1NumRefBufs - 1) head with
    | none => some m
    | some next =>
      let unmark ← m.prev next
      m.unlink next unmark

/-- The loop that two lookups share: the first of `n` nodes whose picture is wanted. -/
def findRef (m : DpbMgr) (wanted : PicBuf → Bool) : Nat → Option Nat → Option (Option Nat)
  | 0, _ => some none
  | n + 1, node => do
    let i ← node
    let pic ← m.pic i
    if wanted (m.pics pic) then some (some pic) else findRef m wanted n (m.prev i)

def ihevcDpbMgrGetRefByPoc (m : DpbMgr) (absPoc : Int) : Option (Option Nat) :=
  findRef m (fun pic => pic.i4AbsPoc = absPoc) m.u1NumRefBufs m.psDpbHead

def ihevcDpbMgrGetRefByPocLsb (m : DpbMgr) (pocLsb : Int) : Option (Option Nat) :=
  findRef m (fun pic => pic.i4PocLsb = pocLsb) m.u1NumRefBufs m.psDpbHead

/-- The loop of `ihevc_dpb_mgr_get_ref_by_nearest_poc`: `distance` is `none` where the difference
does not count. -/
def closestRef (m : DpbMgr) (curAbsPoc : Int) (distance : Int → Option Int) : Option Nat :=
  ((List.range maxDpbBufs).foldl (fun (best : Int × Option Nat) i =>
    match m.pic i with
    | none => best
    | some pic =>
      if (m.pics pic).u1UsedAsRef = unusedForRef then best
      else
        match distance (i32 (curAbsPoc - (m.pics pic).i4AbsPoc)) with
        | none => best
        | some pocDiff => if pocDiff < best.1 then (pocDiff, some pic) else best)
    (0x7FFFFFFF, none)).2

def ihevcDpbMgrGetRefByNearestPoc (m : DpbMgr) (curAbsPoc : Int) : Option Nat :=
  match closestRef m curAbsPoc (fun d => if 0 < d then some d else none) with
  | some pic => some pic
  | none => closestRef m curAbsPoc (fun d => some (if 0 < d then d else i32 (-d)))

/-- Entry `i` with the reference picture `psPicBuf` is given up. -/
def DpbMgr.resetEntry (m : DpbMgr) (i psPicBuf : Nat) : DpbMgr :=
  { (m.setPrev i none).setPic i none with
    pics := set m.pics psPicBuf { m.pics psPicBuf with u1UsedAsRef := unusedForRef }
    bufMgr := ihevcBufMgrRelease m.bufMgr (m.pics psPicBuf).u1BufId bufMgrRef }

/-- The loop of `ihevc_dpb_mgr_reset`, over the entries `is`. -/
def resetEntries : List Nat → DpbMgr → Option DpbMgr
  | [], m => some m
  | i :: is, m => do
    let pic ← m.pic i
    if (m.pics pic).u1UsedAsRef = 0 then resetEntries is m
    else resetEntries is (m.resetEntry i pic)

def ihevcDpbMgrReset (m : DpbMgr) : Option DpbMgr := do
  let m ← resetEntries (List.range maxDpbBufs) m
  some { m with u1NumRefBufs := 0, psDpbHead := none }

end Libhevc
