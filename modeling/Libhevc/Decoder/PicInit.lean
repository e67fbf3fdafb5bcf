import Libhevc.Decoder.Display
import Libhevc.Decoder.JobQueue
import Libhevc.Decoder.Tiles

/-!
# The start of a picture

`ihevcd_parse_pic_init`: the buffers are registered before the first picture,
then a motion vector bank and a picture buffer are taken, the threads are
started, the picture is added to the display manager and the conversion of an
earlier one may be scheduled. Each of these steps can end the function.

The pointer that a buffer manager has for a slot is always the one to the
bank, or picture, of that number; a slot is added when it is not `NULL`.
-/

namespace Libhevc.Decoder

open Memory

/-- What `ihevcd_parse_pic_init` returns; `mutexError` is what a failed `ithread_mutex_lock` or
`ithread_mutex_unlock` returned. -/
inductive PicInitRet
  | success
  | insufficientMemMvbank
  | insufficientMemPicbuf
  | bufMgrError
  | ivFail
  | noFreeMvbank
  | noFreePicbuf
  | mutexError
  | jobqFail
  deriving DecidableEq, Repr

inductive IvColorFormat
  | yuv420p
  | yuv422p
  | yuv444p
  | gray
  | yuv420spUv
  | yuv420spVu
  | other
  deriving DecidableEq, Repr

/-- What the function reads of the codec, the SPS and the call, beyond the managers. -/
structure PicInitIn where
  u4ThumbnailMode : Bool
  spsMaxDecPicBuffering : Int
  i2PicWidthInLumaSamples : Nat
  i2PicHeightInLumaSamples : Nat
  i1ChromaFormatIdc : Nat
  i2PicHtInCtb : Nat
  i4TotalMvBankSize : Int
  i4TotalPicBufSize : Int
  sizeofMvBuf : Nat
  sizeofPu : Nat
  i4Strd : Nat
  i4PixelSizeY : Nat
  i4PixelSizeUv : Nat
  i4DispWd : Nat
  i4DispHt : Nat
  i4DispStrd : Nat
  eChromaFmt : IvColorFormat
  u4NumBufs : Nat
  u4MinOutBufSize : Nat → Nat
  i4NumCores : Nat
  i4ThreadsActive : Bool
  u4EnableFmtConvAhead : Bool
  /-- what `ithread_mutex_lock` and `ithread_mutex_unlock` return for each thread -/
  lock : Nat → Int
  unlock : Nat → Int
  /-- the bytes of the conversion job of a row -/
  procJob : Nat → List Nat

/-- The managers and what else of the codec the function changes and reads again. -/
structure PicInitCodec where
  i4FirstPicInit : Bool
  mvBufMgr : BufMgr
  mvAdded : Nat → Bool
  /-- `i4_abs_poc` of the banks -/
  mvPocs : Nat → Int
  codec : PicCodec
  procJobq : Jobq
  psDispBuf : Option Nat
  i4PicPresent : Bool

-- ---------------------------------------------------------------------------
-- The buffers
-- ---------------------------------------------------------------------------

def maxProcessThreads : Nat := 8

def padHt : Nat := 160

def align4 (x : Nat) : Nat := ((x + 3) >>> 2) <<< 2

def align2 (x : Nat) : Nat := ((x + 1) >>> 1) <<< 1

def ihevcdGetPicMvBankSize (sizeofPu numLumaSamples : Nat) : Nat :=
  let numPu := numLumaSamples / (4 * 4)
  let numCtb := numLumaSamples / (16 * 16)
  (numCtb + 1) * 4 + numPu + numPu * sizeofPu + align4 (numCtb * 2)

/-- The loop that the two functions below share: the buffers `is` are added while there is memory
for one more. -/
def addBufs (maxBufCnt : Nat) (size : Int) (insufficient : PicInitRet) :
    List Nat → Int → (Nat → Bool) → PicInitRet × (Nat → Bool)
  | [], _, added => (.success, added)
  | i :: is, allocated, added =>
    if allocated - size < 0 then (insufficient, added)
    else if maxBufCnt ≤ i then (.bufMgrError, added)
    else addBufs maxBufCnt size insufficient is (allocated - size) (set added i true)

/-- `sps_max_dec_pic_buffering` and one buffer for the current picture. -/
def PicInitIn.numBanks (p : PicInitIn) : Int :=
  (if p.u4ThumbnailMode then 0 else p.spsMaxDecPicBuffering) + 1

def ihevcdMvBufMgrAddBufs (p : PicInitIn) (mvBufMgr : BufMgr) (mvAdded : Nat → Bool) :
    PicInitRet × (Nat → Bool) :=
  let picMvBankSize := ihevcdGetPicMvBankSize p.sizeofPu
    (align64 p.i2PicWidthInLumaSamples * align64 p.i2PicHeightInLumaSamples)
  addBufs mvBufMgr.u4MaxBufCnt picMvBankSize .insufficientMemMvbank
    (List.range p.numBanks.toNat) (p.i4TotalMvBankSize - p.numBanks * p.sizeofMvBuf) mvAdded

/-- In shared mode the buffers have been added by `ihevcd_set_display_frame`. -/
def ihevcdPicBufMgrAddBufs (p : PicInitIn) (pic : PicHeader) (c : PicCodec) :
    PicInitRet × (Nat → Bool) :=
  let maxDpbSize := if p.u4ThumbnailMode then 0 else p.spsMaxDecPicBuffering
  let maxDpbSize :=
    if p.u4ThumbnailMode = false ∧ c.decodeFrameOut = false then
      maxDpbSize + pic.spsMaxNumReorderPics
    else maxDpbSize
  let hSampFactor := if p.i1ChromaFormatIdc = 3 then 1 else 2
  let vSampFactor := if p.i1ChromaFormatIdc = 1 then 2 else 1
  let lumaSamples := p.i4Strd * p.i4PixelSizeY * (p.i2PicHeightInLumaSamples + padHt)
  let chromaSamples :=
    if p.i1ChromaFormatIdc = 0 then 0 else lumaSamples * 2 / (hSampFactor * vSampFactor)
  if c.i4ShareDispBuf then (.success, c.added)
  else
    addBufs c.dpbMgr.bufMgr.u4MaxBufCnt (lumaSamples + chromaSamples : Nat) .insufficientMemPicbuf
      (List.range (maxDpbSize + 1).toNat) p.i4TotalPicBufSize c.added

/-- The buffers are registered before the first picture. -/
def PicInitCodec.register (s : PicInitCodec) (p : PicInitIn) (pic : PicHeader) :
    PicInitRet × PicInitCodec :=
  if s.i4FirstPicInit then (.success, s)
  else
    let mv := ihevcdMvBufMgrAddBufs p s.mvBufMgr s.mvAdded
    let s := { s with mvAdded := mv.2 }
    if mv.1 ≠ .success then (mv.1, s)
    else
      let picBufs := ihevcdPicBufMgrAddBufs p pic s.codec
      let s := { s with codec := { s.codec with added := picBufs.2 } }
      if picBufs.1 ≠ .success then (picBufs.1, s)
      else (.success, { s with i4FirstPicInit := true })

/-- `au4_min_out_buf_size`, as many entries as the format has buffers. -/
def minOutBufSizes (p : PicInitIn) (wd ht : Nat) : List Nat :=
  let luma := u32 (u32 (wd * ht) * p.i4PixelSizeY)
  let alignedWd := align2 wd
  let alignedHt := align2 ht
  match p.eChromaFmt with
  | .yuv420p =>
    let chroma := u32 ((u32 (alignedWd * alignedHt) >>> 2) * p.i4PixelSizeUv)
    [luma, chroma, chroma]
  | .yuv444p =>
    let chroma := u32 (u32 (wd * ht) * p.i4PixelSizeUv)
    [luma, chroma, chroma]
  | .yuv422p =>
    let chroma := u32 ((u32 (alignedWd * ht) >>> 1) * p.i4PixelSizeUv)
    [luma, chroma, chroma]
  | .yuv420spUv => [luma, u32 ((u32 (alignedWd * alignedHt) >>> 1) * p.i4PixelSizeUv)]
  | .yuv420spVu => [luma, u32 ((u32 (alignedWd * alignedHt) >>> 1) * p.i4PixelSizeUv)]
  | .gray => [luma]
  | .other => []

/-- `ihevcd_check_out_buf_size` returns success. -/
def ihevcdCheckOutBufSize (p : PicInitIn) (i4ShareDispBuf : Bool) : Bool :=
  let wd := if p.i4DispWd < p.i4DispStrd then p.i4DispStrd else p.i4DispWd
  let sizes := minOutBufSizes p wd p.i4DispHt
  i4ShareDispBuf || decide (sizes.length ≤ p.u4NumBufs) &&
    sizes.zipIdx.all fun (size, i) => size ≤ p.u4MinOutBufSize i

-- ---------------------------------------------------------------------------
-- The steps
-- ---------------------------------------------------------------------------

/-- The bank with the number `bufId` is taken for the picture. -/
def PicInitCodec.takeMv (s : PicInitCodec) (pic : PicHeader) (bufId : Nat) (mvBufMgr : BufMgr) :
    PicInitCodec :=
  { s with mvBufMgr, mvPocs := set s.mvPocs bufId pic.i4AbsPicOrderCnt }

/-- The picture buffer is taken, and the job queue reset. -/
def PicInitCodec.takePicBuf (s : PicInitCodec) (pic : PicHeader) (curPicBufId : Nat)
    (bufMgr : BufMgr) : PicInitCodec :=
  let curPic := { s.codec.dpbMgr.pics curPicBufId with
    i4AbsPoc := pic.i4AbsPicOrderCnt
    i4PocLsb := pic.i4PicOrderCntLsb }
  { s with
    codec :=
      { s.codec with
        dpbMgr := { s.codec.dpbMgr with bufMgr, pics := set s.codec.dpbMgr.pics curPicBufId curPic }
        u4Ts := set s.codec.u4Ts curPicBufId pic.u4Ts }
    procJobq := ihevcdJobqReset s.procJobq
    psDispBuf := none }

/-- Every thread that is signalled gets its lock and its unlock. -/
def PicInitIn.ThreadsStart (p : PicInitIn) : Prop :=
  ∀ i < maxProcessThreads, i + 1 < p.i4NumCores → p.i4ThreadsActive = true →
    p.lock i = 0 ∧ p.unlock i = 0

instance (p : PicInitIn) : Decidable p.ThreadsStart :=
  inferInstanceAs (Decidable (∀ i < maxProcessThreads, i + 1 < p.i4NumCores →
    p.i4ThreadsActive = true → p.lock i = 0 ∧ p.unlock i = 0))

def PicInitCodec.setDisplay (s : PicInitCodec) (bumped : Option Nat × PicCodec) : PicInitCodec :=
  { s with codec := bumped.2, psDispBuf := bumped.1 }

/-- The picture is added to the display manager, and one may leave it. -/
def PicInitCodec.display (s : PicInitCodec) (pic : PicHeader) (curPicBufId : Nat) : PicInitCodec :=
  let dispMgr := (ihevcDispMgrAdd s.codec.dispMgr curPicBufId pic.i4AbsPicOrderCnt curPicBufId).2
  s.setDisplay (PicCodec.bump { s.codec with dispMgr } pic.spsMaxNumReorderPics)

/-- The conversion jobs of the rows `rows`. -/
def queueRows (procJob : Nat → List Nat) : List Nat → Jobq → IhevcdErrorT × Jobq
  | [], q => (.success, q)
  | i :: rows, q =>
    let r := ihevcdJobqQueue q (procJob i)
    if r.1 ≠ .success then r else queueRows procJob rows r.2

/-- A picture other than the current one is to be displayed, and converted ahead. -/
def PicInitCodec.ConvertsAhead (s : PicInitCodec) (p : PicInitIn) (curPicBufId : Nat) : Prop :=
  p.u4EnableFmtConvAhead = true ∧ 1 < p.i4NumCores ∧ s.psDispBuf ≠ none ∧
    s.psDispBuf ≠ some curPicBufId ∧
    (s.codec.i4ShareDispBuf = false ∨ p.eChromaFmt = .yuv420p)

instance {s : PicInitCodec} : Decidable (s.ConvertsAhead p curPicBufId) :=
  inferInstanceAs (Decidable (_ ∧ _))

/-- The rows are scheduled, and the picture is present. -/
def PicInitCodec.convertAhead (s : PicInitCodec) (p : PicInitIn) : PicInitRet × PicInitCodec :=
  let r := queueRows p.procJob (List.range p.i2PicHtInCtb) s.procJobq
  if r.1 = .success then (.success, { s with procJobq := r.2, i4PicPresent := true })
  else (.jobqFail, { s with procJobq := r.2 })

/-- The last steps, with both buffers taken. -/
def PicInitCodec.begin (s : PicInitCodec) (p : PicInitIn) (pic : PicHeader) (curPicBufId : Nat) :
    PicInitRet × PicInitCodec :=
  if p.ThreadsStart then
    let s := s.display pic curPicBufId
    if s.ConvertsAhead p curPicBufId then s.convertAhead p
    else (.success, { s with i4PicPresent := true })
  else (.mutexError, s)

def ihevcdParsePicInit (s : PicInitCodec) (p : PicInitIn) (pic : PicHeader) :
    PicInitRet × PicInitCodec :=
  let r := s.register p pic
  let s := r.2
  if r.1 ≠ .success then (r.1, s)
  else if ihevcdCheckOutBufSize p s.codec.i4ShareDispBuf = false then (.ivFail, s)
  else
    match ihevcBufMgrGetNextFree s.mvAdded s.mvBufMgr with
    | none => (.noFreeMvbank, s)
    | some (curMvBankBufId, mvBufMgr) =>
      let s := s.takeMv pic curMvBankBufId mvBufMgr
      match ihevcBufMgrGetNextFree s.codec.added s.codec.dpbMgr.bufMgr with
      -- the bank stays taken
      | none => (.noFreePicbuf, s)
      | some (curPicBufId, bufMgr) =>
        (s.takePicBuf pic curPicBufId bufMgr).begin p pic curPicBufId

end Libhevc.Decoder

/-!
## Errors at the start of a picture

The steps of `ihevcd_parse_pic_init` are not undone when a later one fails. The
managers are unchanged exactly where an error is found before the first buffer
is taken.
-/

namespace Libhevc.Decoder

open Memory

/-- The buffer managers, the display manager and the DPB are those of `s`. -/
structure PicInitCodec.SameManagers (s' s : PicInitCodec) : Prop where
  mvBufMgr : s'.mvBufMgr = s.mvBufMgr
  mvAdded : s'.mvAdded = s.mvAdded
  added : s'.codec.added = s.codec.added
  dpbMgr : s'.codec.dpbMgr = s.codec.dpbMgr
  dispMgr : s'.codec.dispMgr = s.codec.dispMgr

theorem PicInitCodec.SameManagers.trans {s s' s'' : PicInitCodec} (h : s''.SameManagers s')
    (h' : s'.SameManagers s) : s''.SameManagers s :=
  ⟨h.1.trans h'.1, h.2.trans h'.2, h.3.trans h'.3, h.4.trans h'.4, h.5.trans h'.5⟩

/-- A slot that was added is free. -/
def HasFree (added : Nat → Bool) (b : BufMgr) : Prop :=
  ∃ i < b.u4MaxBufCnt, b.au4Status i = 0 ∧ added i = true

/-- Where a picture is converted ahead, the jobs of its rows fit in the queue. -/
def PicInitCodec.JobsFit (s : PicInitCodec) (p : PicInitIn) (pic : PicHeader) (curPicBufId : Nat) :
    Prop :=
  (s.display pic curPicBufId).ConvertsAhead p curPicBufId → 0 < p.i2PicHtInCtb →
    s.procJobq.pvBufBase + ((List.range p.i2PicHtInCtb).flatMap p.procJob).length ≤
      s.procJobq.pvBufEnd

/-- Nothing stands in the way of the picture. -/
def PicInitCodec.Ready (s : PicInitCodec) (p : PicInitIn) (pic : PicHeader) : Prop :=
  (s.register p pic).1 = .success ∧ ihevcdCheckOutBufSize p s.codec.i4ShareDispBuf = true ∧
    HasFree (s.register p pic).2.mvAdded s.mvBufMgr ∧
    ∃ bufId bufMgr, ihevcBufMgrGetNextFree (s.register p pic).2.codec.added s.codec.dpbMgr.bufMgr =
        some (bufId, bufMgr) ∧
      p.ThreadsStart ∧ s.JobsFit p pic bufId

/-- What is in the way is found before the first buffer is taken, and no buffer is added. -/
def PicInitCodec.StopsFirst (s : PicInitCodec) (p : PicInitIn) (pic : PicHeader) : Prop :=
  ((s.register p pic).2.mvAdded = s.mvAdded ∧
      (s.register p pic).2.codec.added = s.codec.added) ∧
    ((s.register p pic).1 ≠ .success ∨
      ihevcdCheckOutBufSize p s.codec.i4ShareDispBuf = false ∨
      ¬HasFree (s.register p pic).2.mvAdded s.mvBufMgr)

-- ---------------------------------------------------------------------------
-- The steps
-- ---------------------------------------------------------------------------

theorem getNextFree_eq_none :
    ihevcBufMgrGetNextFree added b = none ↔ ¬HasFree added b := by
  unfold ihevcBufMgrGetNextFree HasFree
  cases hfind : (List.range b.u4MaxBufCnt).find? fun i => b.au4Status i = 0 ∧ added i = true with
  | none =>
    refine iff_of_true rfl ?_
    rintro ⟨i, hi, hfree⟩
    have hnone := List.find?_eq_none.mp hfind i (List.mem_range.mpr hi)
    exact hnone (decide_eq_true hfree)
  | some i =>
    refine iff_of_false (fun h => nomatch h) (not_not.mpr ⟨i, ?_, ?_⟩)
    · exact List.mem_range.mp (List.mem_of_find?_eq_some hfind)
    · simpa using List.find?_some hfind

/-- A buffer that is taken was free and no longer is. -/
theorem getNextFree_ne (h : ihevcBufMgrGetNextFree added b = some (i, b')) : b' ≠ b := by
  unfold ihevcBufMgrGetNextFree at h
  split at h
  · contradiction
  · rename_i j hfind
    obtain ⟨hfree, -⟩ : b.au4Status j = 0 ∧ added j = true := by
      simpa using List.find?_some hfind
    simp only [Option.some.injEq, Prod.mk.injEq] at h
    obtain ⟨rfl, rfl⟩ := h
    intro heq
    have hst := congrFun (congrArg BufMgr.au4Status heq) j
    simp [hfree] at hst

/-- Registering the buffers changes only which of them are added. -/
theorem register_frame (s : PicInitCodec) (p : PicInitIn) (pic : PicHeader) :
    ∃ first mvAdded added, (s.register p pic).2 =
      { s with i4FirstPicInit := first, mvAdded, codec := { s.codec with added } } := by
  unfold PicInitCodec.register
  dsimp only
  split
  · exact ⟨_, _, _, rfl⟩
  · split
    · exact ⟨_, _, _, rfl⟩
    · split <;> exact ⟨_, _, _, rfl⟩

theorem queueRows_success (procJob : Nat → List Nat) (rows : List Nat) (q : Jobq) :
    (queueRows procJob rows q).1 = .success ↔
      (rows ≠ [] → q.pvBufWr + (rows.flatMap procJob).length ≤ q.pvBufEnd) := by
  induction rows generalizing q with
  | nil => exact iff_of_true rfl fun h => absurd rfl h
  | cons i rows ih =>
    unfold queueRows ihevcdJobqQueue
    rw [List.flatMap_cons, List.length_append]
    by_cases hroom : q.pvBufWr + (procJob i).length ≤ q.pvBufEnd
    · rw [if_pos hroom]
      simp only [ne_eq, not_true_eq_false, if_false, ih]
      cases rows with
      | nil => simpa using hroom
      | cons j rows => simp [Nat.add_assoc]
    · rw [if_neg hroom]
      simp only [ne_eq, reduceCtorEq, not_false_eq_true, if_true, false_iff]
      exact fun hfit => hroom (by have := hfit trivial; omega)

theorem setDisplay_frame (s : PicInitCodec) (bumped : Option Nat × PicCodec) :
    (s.setDisplay bumped).procJobq = s.procJobq ∧ (s.setDisplay bumped).mvBufMgr = s.mvBufMgr :=
  ⟨rfl, rfl⟩

theorem display_frame (s : PicInitCodec) (pic : PicHeader) (curPicBufId : Nat) :
    (s.display pic curPicBufId).procJobq = s.procJobq ∧
      (s.display pic curPicBufId).mvBufMgr = s.mvBufMgr := setDisplay_frame s _

theorem convertAhead_success (s : PicInitCodec) (p : PicInitIn) :
    (s.convertAhead p).1 = .success ↔
      (0 < p.i2PicHtInCtb →
        s.procJobq.pvBufWr + ((List.range p.i2PicHtInCtb).flatMap p.procJob).length ≤
          s.procJobq.pvBufEnd) := by
  have hrows := queueRows_success p.procJob (List.range p.i2PicHtInCtb) s.procJobq
  have hnil : List.range p.i2PicHtInCtb ≠ [] ↔ 0 < p.i2PicHtInCtb := by
    rw [ne_eq, List.range_eq_nil]
    omega
  rw [hnil] at hrows
  rw [← hrows]
  unfold PicInitCodec.convertAhead
  generalize queueRows p.procJob (List.range p.i2PicHtInCtb) s.procJobq = r
  cases r with
  | mk ret q => cases ret <;> simp

theorem convertAhead_mvBufMgr (s : PicInitCodec) (p : PicInitIn) :
    (s.convertAhead p).2.mvBufMgr = s.mvBufMgr := by
  unfold PicInitCodec.convertAhead
  generalize queueRows p.procJob (List.range p.i2PicHtInCtb) s.procJobq = r
  cases r with
  | mk ret q => cases ret <;> rfl

theorem begin_success (s : PicInitCodec) (p : PicInitIn) (pic : PicHeader) (id : Nat)
    (hreset : s.procJobq.pvBufWr = s.procJobq.pvBufBase) :
    (s.begin p pic id).1 = .success ↔ p.ThreadsStart ∧ s.JobsFit p pic id := by
  have hq := (display_frame s pic id).1
  have hrows := convertAhead_success (s.display pic id) p
  unfold PicInitCodec.begin PicInitCodec.JobsFit
  dsimp only
  generalize s.display pic id = t at hq hrows ⊢
  rw [hq, hreset] at hrows
  by_cases hthreads : p.ThreadsStart
  · by_cases hahead : t.ConvertsAhead p id
    · simp [hthreads, hahead, hrows]
    · simp [hthreads, hahead]
  · simp [hthreads]

theorem begin_mvBufMgr (s : PicInitCodec) (p : PicInitIn) (pic : PicHeader) (id : Nat) :
    (s.begin p pic id).2.mvBufMgr = s.mvBufMgr := by
  have hframe := (display_frame s pic id).2
  have hrows := convertAhead_mvBufMgr (s.display pic id) p
  unfold PicInitCodec.begin
  dsimp only
  generalize s.display pic id = t at hframe hrows ⊢
  by_cases hthreads : p.ThreadsStart
  · by_cases hahead : t.ConvertsAhead p id
    · simp [hthreads, hahead, hrows, hframe]
    · simp [hthreads, hahead, hframe]
  · simp [hthreads]

/-- The picture that leaves the display manager depends on the manager and the counts. -/
theorem bump_congr {c d : PicCodec} (n : Int) (hdisp : d.dispMgr = c.dispMgr)
    (hpic : d.u4PicCnt = c.u4PicCnt) (hcnt : d.u4DispCnt = c.u4DispCnt)
    (hmode : d.decodeFrameOut = c.decodeFrameOut) (hshare : d.i4ShareDispBuf = c.i4ShareDispBuf) :
    (d.bump n).1 = (c.bump n).1 ∧ (d.bump n).2.i4ShareDispBuf = (c.bump n).2.i4ShareDispBuf := by
  unfold PicCodec.bump
  rw [hdisp, hpic, hcnt, hmode]
  generalize ihevcDispMgrGet c.dispMgr = got
  split
  · exact ⟨rfl, hshare⟩
  · exact ⟨rfl, hshare⟩

theorem setDisplay_convertsAhead (s : PicInitCodec) (bumped : Option Nat × PicCodec) :
    (s.setDisplay bumped).ConvertsAhead p curPicBufId ↔
      p.u4EnableFmtConvAhead = true ∧ 1 < p.i4NumCores ∧ bumped.1 ≠ none ∧
        bumped.1 ≠ some curPicBufId ∧
        (bumped.2.i4ShareDispBuf = false ∨ p.eChromaFmt = .yuv420p) := Iff.rfl

theorem convertsAhead_congr {s t : PicInitCodec} (curPicBufId : Nat)
    (hdisp : t.codec.dispMgr = s.codec.dispMgr) (hpic : t.codec.u4PicCnt = s.codec.u4PicCnt)
    (hcnt : t.codec.u4DispCnt = s.codec.u4DispCnt)
    (hmode : t.codec.decodeFrameOut = s.codec.decodeFrameOut)
    (hshare : t.codec.i4ShareDispBuf = s.codec.i4ShareDispBuf) :
    (t.display pic curPicBufId).ConvertsAhead p curPicBufId ↔
      (s.display pic curPicBufId).ConvertsAhead p curPicBufId := by
  unfold PicInitCodec.display
  dsimp only
  rw [hdisp]
  generalize (ihevcDispMgrAdd s.codec.dispMgr curPicBufId pic.i4AbsPicOrderCnt curPicBufId).2 = m
  obtain ⟨hout, hmode⟩ := bump_congr (c := { s.codec with dispMgr := m })
    (d := { t.codec with dispMgr := m }) pic.spsMaxNumReorderPics rfl hpic hcnt hmode hshare
  rw [setDisplay_convertsAhead, setDisplay_convertsAhead, hout, hmode]

theorem jobsFit_taken (s : PicInitCodec) (p : PicInitIn) (pic : PicHeader) (mvId picId : Nat)
    (mvBufMgr bufMgr : BufMgr) (first : Bool) (mvAdded added : Nat → Bool) :
    PicInitCodec.JobsFit
        ((PicInitCodec.takeMv
          { s with i4FirstPicInit := first, mvAdded, codec := { s.codec with added } } pic mvId
            mvBufMgr).takePicBuf pic picId bufMgr) p pic picId ↔
      s.JobsFit p pic picId := by
  unfold PicInitCodec.JobsFit
  rw [convertsAhead_congr (s := s) picId]
  all_goals simp only [PicInitCodec.takeMv, PicInitCodec.takePicBuf, ihevcdJobqReset]

theorem registered_same (s : PicInitCodec) (first : Bool) (mvAdded added : Nat → Bool) :
    PicInitCodec.SameManagers
        { s with i4FirstPicInit := first, mvAdded, codec := { s.codec with added } } s ↔
      mvAdded = s.mvAdded ∧ added = s.codec.added :=
  ⟨fun h => ⟨h.mvAdded, h.added⟩, fun ⟨h, h'⟩ => ⟨rfl, h, h', rfl, rfl⟩⟩

/-- The managers are unchanged after every error if and only if nothing stands in the way of the
picture or what does is found before the first buffer is taken. -/
theorem parsePicInit_same_iff (s : PicInitCodec) (p : PicInitIn) (pic : PicHeader) :
    ((ihevcdParsePicInit s p pic).1 ≠ .success →
        (ihevcdParsePicInit s p pic).2.SameManagers s) ↔
      s.Ready p pic ∨ s.StopsFirst p pic := by
  obtain ⟨first, mvAdded, added, hreg⟩ := register_frame s p pic
  have hsame := registered_same s first mvAdded added
  unfold ihevcdParsePicInit PicInitCodec.Ready PicInitCodec.StopsFirst
  generalize s.register p pic = r at hreg ⊢
  obtain ⟨ret, t⟩ := r
  dsimp only at hreg ⊢
  subst hreg
  dsimp only
  by_cases hret : ret = .success
  case neg => simp [hret, hsame]
  case pos =>
    subst hret
    cases hfits : ihevcdCheckOutBufSize p s.codec.i4ShareDispBuf with
    | false => simp [hsame]
    | true =>
      cases hmv : ihevcBufMgrGetNextFree mvAdded s.mvBufMgr with
      | none =>
        have hno := getNextFree_eq_none.mp hmv
        simp [hno, hsame]
      | some taken =>
        obtain ⟨mvId, mvBufMgr⟩ := taken
        have hfree : HasFree mvAdded s.mvBufMgr :=
          not_not.mp fun h => nomatch hmv.symm.trans (getNextFree_eq_none.mpr h)
        have hchanged := getNextFree_ne hmv
        dsimp only
        have hadded (t : PicInitCodec) (h : t.mvBufMgr = mvBufMgr) : ¬t.SameManagers s :=
          fun hsame => hchanged (h.symm.trans hsame.mvBufMgr)
        have hcodec (t : PicInitCodec) : (t.takeMv pic mvId mvBufMgr).codec = t.codec := rfl
        rw [hcodec]
        cases hpic : ihevcBufMgrGetNextFree added s.codec.dpbMgr.bufMgr with
        | none =>
          refine iff_of_false (fun h => hadded _ rfl (h (fun h => nomatch h))) ?_
          rintro (⟨-, -, -, bufId, bufMgr, hsome, -⟩ | ⟨-, hnot | hnot | hnot⟩)
          · contradiction
          · exact hnot rfl
          · contradiction
          · exact hnot hfree
        | some takenPic =>
          obtain ⟨picId, bufMgr⟩ := takenPic
          have hjobs := jobsFit_taken s p pic mvId picId mvBufMgr bufMgr first mvAdded added
          dsimp only at hjobs ⊢
          have hbank : ((PicInitCodec.takeMv { s with
              i4FirstPicInit := first, mvAdded, codec := { s.codec with added } } pic mvId
                mvBufMgr).takePicBuf pic picId bufMgr).mvBufMgr = mvBufMgr := rfl
          have hreset : ((PicInitCodec.takeMv { s with
              i4FirstPicInit := first, mvAdded, codec := { s.codec with added } } pic mvId
                mvBufMgr).takePicBuf pic picId bufMgr).procJobq = ihevcdJobqReset s.procJobq := rfl
          dsimp only at hbank hreset
          generalize PicInitCodec.takePicBuf _ pic picId bufMgr = t at hjobs hbank hreset ⊢
          have hbegin := begin_success t p pic picId (by rw [hreset]; rfl)
          rw [hjobs] at hbegin
          by_cases hok : (t.begin p pic picId).1 = .success
          · refine iff_of_true (fun h => absurd hok h) (.inl ?_)
            exact ⟨rfl, rfl, hfree, picId, bufMgr, rfl, hbegin.mp hok⟩
          · have hend : (t.begin p pic picId).2.mvBufMgr = mvBufMgr :=
              (begin_mvBufMgr t p pic picId).trans hbank
            refine iff_of_false (fun h => hadded _ hend (h hok)) ?_
            rintro (⟨-, -, -, bufId, bufMgr', hsome, hrest⟩ | ⟨-, hnot | hnot | hnot⟩)
            · obtain ⟨rfl, rfl⟩ : picId = bufId ∧ bufMgr = bufMgr' := by simpa using hsome
              exact hok (hbegin.mpr hrest)
            · exact hnot rfl
            · contradiction
            · exact hnot hfree

/-- Calls with errors, each where an error is found before the first buffer is taken. -/
inductive FailedCalls (s : PicInitCodec) : PicInitCodec → Prop
  | start : FailedCalls s s
  | call {t : PicInitCodec} (p : PicInitIn) (pic : PicHeader) : FailedCalls s t →
      (ihevcdParsePicInit t p pic).1 ≠ .success → t.Ready p pic ∨ t.StopsFirst p pic →
      FailedCalls s (ihevcdParsePicInit t p pic).2

theorem FailedCalls.same {s t : PicInitCodec} (h : FailedCalls s t) : t.SameManagers s := by
  induction h with
  | start => exact ⟨rfl, rfl, rfl, rfl, rfl⟩
  | call p pic _ hfail hwhen ih => exact ((parsePicInit_same_iff _ p pic).mpr hwhen hfail).trans ih

/-- When the start of a picture is all or nothing, call by call and over any number of calls. -/
theorem parsePicInit_allOrNothing (s : PicInitCodec) :
    (∀ p pic, ((ihevcdParsePicInit s p pic).1 ≠ .success →
        (ihevcdParsePicInit s p pic).2.SameManagers s) ↔ s.Ready p pic ∨ s.StopsFirst p pic) ∧
      ∀ t, FailedCalls s t → t.SameManagers s :=
  ⟨parsePicInit_same_iff s, fun _ h => h.same⟩

-- ---------------------------------------------------------------------------
-- One bank and one picture buffer
-- ---------------------------------------------------------------------------

/-- A codec in shared mode with one bank and one picture buffer, of the given states. -/
def oneBank (mvStatus picStatus : Nat) : PicInitCodec :=
  { i4FirstPicInit := true
    mvBufMgr := { u4MaxBufCnt := 64, au4Status := fun _ => mvStatus }
    mvAdded := fun i => i == 0
    mvPocs := fun _ => 0
    codec :=
      { dpbMgr :=
          { asDpbInfo := fun _ => { psPicBuf := none, psPrevDpb := none }
            psDpbHead := none
            u1NumRefBufs := 0
            pics := fun _ => { i4AbsPoc := 0, i4PocLsb := 0, u1BufId := 0, u1UsedAsRef := 0 }
            bufMgr := { u4MaxBufCnt := 64, au4Status := fun _ => picStatus } }
        dispMgr := ihevcDispMgrInit
        added := fun i => i == 0
        u4Ts := fun _ => 0
        u4PicCnt := 0
        u4DispCnt := 0
        i4ShareDispBuf := true
        yuv420p := true
        decodeFrameOut := false }
    procJobq :=
      { mem := fun _ => 0, pvBufBase := 0, pvBufWr := 0, pvBufRd := 0, pvBufEnd := 0
        i4Terminate := 0 }
    psDispBuf := none
    i4PicPresent := false }

/-- A picture of 64 by 64 samples, one thread. -/
def smallPic : PicInitIn :=
  { u4ThumbnailMode := true, spsMaxDecPicBuffering := 1, i2PicWidthInLumaSamples := 64
    i2PicHeightInLumaSamples := 64, i1ChromaFormatIdc := 1, i2PicHtInCtb := 1
    i4TotalMvBankSize := 0, i4TotalPicBufSize := 0, sizeofMvBuf := 0, sizeofPu := 0, i4Strd := 224
    i4PixelSizeY := 1, i4PixelSizeUv := 1, i4DispWd := 64, i4DispHt := 64, i4DispStrd := 64
    eChromaFmt := .yuv420p, u4NumBufs := 3, u4MinOutBufSize := fun _ => 4096, i4NumCores := 1
    i4ThreadsActive := false, u4EnableFmtConvAhead := false, lock := fun _ => 0
    unlock := fun _ => 0, procJob := fun _ => [] }

def firstPic : PicHeader :=
  { u4Ts := 0, i4AbsPicOrderCnt := 0, i4PicOrderCntLsb := 0, i1PicOutputFlag := 1
    spsMaxNumReorderPics := 0, unused := [] }

theorem parsePicInit_noFreeMvbank :
    (ihevcdParsePicInit (oneBank 1 0) smallPic firstPic).1 = .noFreeMvbank ∧
      (ihevcdParsePicInit (oneBank 1 0) smallPic firstPic).2.SameManagers (oneBank 1 0) := by
  have hret : (ihevcdParsePicInit (oneBank 1 0) smallPic firstPic).1 = .noFreeMvbank := by
    decide +kernel
  have hno : ¬HasFree (oneBank 1 0).mvAdded (oneBank 1 0).mvBufMgr := by
    rintro ⟨i, -, hfree, -⟩
    exact Nat.one_ne_zero hfree
  refine ⟨hret, (parsePicInit_allOrNothing (oneBank 1 0)).2 _ ?_⟩
  exact .call smallPic firstPic .start (by rw [hret]; decide) (.inr ⟨⟨rfl, rfl⟩, .inr (.inr hno)⟩)

/-- The application holds the picture buffer, and the call fails with the bank taken. When the
buffer has been given back there is no free bank. -/
theorem parsePicInit_loses_bank :
    let s := oneBank 0 bufMgrDisp
    let failed := ihevcdParsePicInit s smallPic firstPic
    failed.1 = .noFreePicbuf ∧ s.mvBufMgr.au4Status 0 = 0 ∧ failed.2.mvBufMgr.au4Status 0 = 1 ∧
      (ihevcdParsePicInit { s with codec := s.codec.releaseDisp 0 } smallPic firstPic).1 =
        .success ∧
      (ihevcdParsePicInit { failed.2 with codec := failed.2.codec.releaseDisp 0 } smallPic
        firstPic).1 = .noFreeMvbank := by
  decide +kernel

end Libhevc.Decoder
