import Libhevc.Common.DpbList
import Libhevc.Decoder.Display
import Libhevc.Lib.Bumping

/-!
# Every decoded picture is displayed once

A picture that waits for display keeps its buffer, so that what is returned is
what was decoded. Pictures come out in the order of their counts when no more of
them are reordered than the SPS says.
-/

namespace Libhevc.Decoder

open Memory Bumping

-- ---------------------------------------------------------------------------
-- Status words
-- ---------------------------------------------------------------------------

/-- The status of a buffer between calls: free, decoded and needed for reference or display, or not
yet given to the decoder. -/
def Settled (status : Nat) : Prop :=
  status = 0 ∨ status = 3 ∨ status = 4 ∨ status = 5 ∨ status = 7

/-- The buffer is needed for display. -/
def NeedsDisp (status : Nat) : Prop := status = 4 ∨ status = 5 ∨ status = 7

theorem NeedsDisp.ne_zero (h : NeedsDisp status) : status ≠ 0 := by
  rcases h with rfl | rfl | rfl <;> decide

def releasedStatus (status mask : Nat) : Nat :=
  if status &&& (2 ^ 32 - 1 - mask) = 1 then 0 else status &&& (2 ^ 32 - 1 - mask)

theorem Settled.release (h : Settled status) (hmask : mask = bufMgrRef ∨ mask = bufMgrDisp) :
    Settled (releasedStatus status mask) := by
  unfold Settled
  rcases hmask with rfl | rfl <;> rcases h with rfl | rfl | rfl | rfl | rfl <;> decide

theorem NeedsDisp.releaseRef (h : NeedsDisp status) :
    NeedsDisp (releasedStatus status bufMgrRef) := by
  unfold NeedsDisp
  rcases h with rfl | rfl | rfl <;> decide

theorem bufMgrRelease_max (b : BufMgr) (bufId mask : Nat) :
    (ihevcBufMgrRelease b bufId mask).u4MaxBufCnt = b.u4MaxBufCnt := by
  unfold ihevcBufMgrRelease
  split <;> rfl

theorem bufMgrRelease_ne (h : i ≠ bufId) :
    (ihevcBufMgrRelease b bufId mask).au4Status i = b.au4Status i := by
  unfold ihevcBufMgrRelease
  split
  · rfl
  · exact set_ne h

theorem bufMgrRelease_same (h : bufId < b.u4MaxBufCnt) :
    (ihevcBufMgrRelease b bufId mask).au4Status bufId =
      releasedStatus (b.au4Status bufId) mask := by
  unfold ihevcBufMgrRelease
  rw [if_neg (Nat.not_le.mpr h)]
  exact set_same

-- ---------------------------------------------------------------------------
-- The DPB manager
-- ---------------------------------------------------------------------------

/-- Taking a reference out of the DPB empties one entry, and releases the buffer of its picture. -/
structure TakenOut (m m' : DpbMgr) (node psPicBuf : Nat) : Prop where
  entry : m.pic node = some psPicBuf
  pic : m'.pic = Function.update m.pic node none
  pics : m'.pics = m.pics
  bufMgr : m'.bufMgr = ihevcBufMgrRelease m.bufMgr (m.pics psPicBuf).u1BufId bufMgrRef

theorem unlink_frame {m m' : DpbMgr} (h : m.unlink next unmark = some m') :
    ∃ psPicBuf, TakenOut m m' unmark psPicBuf := by
  unfold DpbMgr.unlink at h
  obtain ⟨pic, hpic, h⟩ := Option.bind_eq_some_iff.mp h
  obtain rfl := Option.some.inj h
  by_cases hhead : m.psDpbHead = some unmark
  · simp only [if_pos hhead] at hpic ⊢
    refine ⟨pic, hpic, ?_, rfl, rfl⟩
    change ((DpbMgr.setPrev _ unmark none).setPic unmark none).pic = _
    rw [setPic_pic, setPrev_pic]
    rfl
  · simp only [if_neg hhead, setPrev_pic] at hpic ⊢
    refine ⟨pic, hpic, ?_, rfl, rfl⟩
    change ((DpbMgr.setPrev _ unmark none).setPic unmark none).pic = _
    rw [setPic_pic, setPrev_pic, setPrev_pic, setPrev_pic]

theorem delRef_frame {m m' : DpbMgr} (h : ihevcDpbMgrDelRef m poc = some m') :
    m' = m ∨ ∃ node psPicBuf, TakenOut m m' node psPicBuf := by
  unfold ihevcDpbMgrDelRef at h
  obtain ⟨head, _, h⟩ := Option.bind_eq_some_iff.mp h
  obtain ⟨pic, _, h⟩ := Option.bind_eq_some_iff.mp h
  split at h
  · exact .inr ⟨head, unlink_frame h⟩
  · have hfound : ∃ found : Option Nat, (found.elim (some m) fun next => do
        let unmark ← m.prev next
        m.unlink next unmark) = some m' := by
      dsimp only at h
      split at h
      · exact ⟨some head, h⟩
      · obtain ⟨found, _, h⟩ := Option.bind_eq_some_iff.mp h
        exact ⟨found, by cases found <;> exact h⟩
    obtain ⟨found, h⟩ := hfound
    cases found with
    | none => exact .inl (Option.some.inj h).symm
    | some next =>
      obtain ⟨unmark, _, h⟩ := Option.bind_eq_some_iff.mp h
      exact .inr ⟨unmark, unlink_frame h⟩

theorem insertRef_frame (m : DpbMgr) (psPicBuf bufId : Nat) :
    (ihevcDpbMgrInsertRef m psPicBuf bufId).2.bufMgr = m.bufMgr ∧
      ∀ i, ((ihevcDpbMgrInsertRef m psPicBuf bufId).2.pics i).i4AbsPoc = (m.pics i).i4AbsPoc := by
  unfold ihevcDpbMgrInsertRef
  split
  · exact ⟨rfl, fun _ => rfl⟩
  · split
    · exact ⟨rfl, fun _ => rfl⟩
    · refine ⟨rfl, fun i => ?_⟩
      by_cases hsame : i = psPicBuf
      · subst hsame
        simp [DpbMgr.link, DpbMgr.setPic, DpbMgr.setPrev]
      · simp [DpbMgr.link, DpbMgr.setPic, DpbMgr.setPrev, set_ne hsame]

-- ---------------------------------------------------------------------------
-- What holds between calls
-- ---------------------------------------------------------------------------

/-- Between calls the buffers that wait or that the application holds are needed for display. -/
structure Keeps (b : BufMgr) (inUse : List Nat) : Prop where
  settled : ∀ i < b.u4MaxBufCnt, Settled (b.au4Status i)
  needed : ∀ i ∈ inUse, i < b.u4MaxBufCnt ∧ NeedsDisp (b.au4Status i)

theorem Keeps.release (h : Keeps b inUse) (bufId : Nat)
    (hmask : mask = bufMgrRef ∨ mask = bufMgrDisp ∧ bufId ∉ inUse) :
    Keeps (ihevcBufMgrRelease b bufId mask) inUse := by
  refine ⟨fun i hi => ?_, fun i hi => ?_⟩
  · rw [bufMgrRelease_max] at hi
    by_cases hsame : i = bufId
    · subst hsame
      rw [bufMgrRelease_same hi]
      exact (h.settled i hi).release (hmask.imp_right And.left)
    · rw [bufMgrRelease_ne hsame]
      exact h.settled i hi
  · obtain ⟨hlt, hneeds⟩ := h.needed i hi
    rw [bufMgrRelease_max]
    refine ⟨hlt, ?_⟩
    by_cases hsame : i = bufId
    · subst hsame
      rcases hmask with rfl | ⟨_, hnot⟩
      · rw [bufMgrRelease_same hlt]
        exact hneeds.releaseRef
      · exact absurd hi hnot
    · rw [bufMgrRelease_ne hsame]
      exact hneeds

theorem Keeps.subset (h : Keeps b inUse) (hsub : inUse' ⊆ inUse) : Keeps b inUse' :=
  ⟨h.settled, fun i hi => h.needed i (hsub hi)⟩

/-- The buffers `waiting` are in the display manager, and the application holds `held`. -/
structure PicCodec.Inv (c : PicCodec) (waiting held : List Nat) : Prop where
  bufs : c.dpbMgr.bufMgr.u4MaxBufCnt ≤ dispMgrMaxCnt
  waits : c.dispMgr.Waits (fun i => (c.shown i).i4DisplayIndex) waiting
  keeps : Keeps c.dpbMgr.bufMgr (waiting ++ held)
  nodup : (waiting ++ held).Nodup
  count : c.decodeFrameOut = false → u32Sub c.u4PicCnt c.u4DispCnt = waiting.length
  mode : c.decodeFrameOut = true → waiting = []

theorem PicCodec.Start.inv {c : PicCodec} (h : c.Start) : c.Inv [] c.givenOut where
  bufs := h.bufs
  waits := h.disp ▸ ihevcDispMgrInit_waits
  keeps := by
    refine ⟨fun i hi => ?_, fun i hi => ?_⟩
    · rcases h.status i hi with hzero | ⟨_, hgiven⟩
      · exact .inl hzero
      · exact .inr (.inr (.inl hgiven))
    · obtain ⟨hlt, hgiven⟩ := List.mem_filter.mp hi
      exact ⟨List.mem_range.mp hlt, .inl (of_decide_eq_true hgiven)⟩
  nodup := List.nodup_range.filter _
  count := by
    intro _
    rw [h.picCnt, h.dispCnt]
    rfl
  mode := fun _ => rfl

theorem delRefs_frame {m m' : DpbMgr} (h : delRefs pocs m = some m')
    (hk : Keeps m.bufMgr inUse) :
    m'.pics = m.pics ∧ m'.bufMgr.u4MaxBufCnt = m.bufMgr.u4MaxBufCnt ∧
      Keeps m'.bufMgr inUse := by
  induction pocs generalizing m with
  | nil =>
    obtain rfl := Option.some.inj h
    exact ⟨rfl, rfl, hk⟩
  | cons poc pocs ih =>
    obtain ⟨m₁, hdel, h⟩ := Option.bind_eq_some_iff.mp h
    have hstep : m₁.pics = m.pics ∧ m₁.bufMgr.u4MaxBufCnt = m.bufMgr.u4MaxBufCnt ∧
        Keeps m₁.bufMgr inUse := by
      rcases delRef_frame hdel with rfl | ⟨node, psPicBuf, hout⟩
      · exact ⟨rfl, rfl, hk⟩
      · rw [hout.bufMgr]
        exact ⟨hout.pics, bufMgrRelease_max .., hk.release _ (.inl rfl)⟩
    obtain ⟨hpics, hmax, hkeeps⟩ := ih h hstep.2.2
    exact ⟨hpics.trans hstep.1, hmax.trans hstep.2.1, hkeeps⟩

theorem getNextFree_some (h : ihevcBufMgrGetNextFree added b = some (cur, b')) :
    cur < b.u4MaxBufCnt ∧ b.au4Status cur = 0 ∧
      b' = { b with au4Status := set b.au4Status cur 1 } := by
  unfold ihevcBufMgrGetNextFree at h
  split at h
  · contradiction
  case h_2 i hfind =>
    obtain ⟨rfl, rfl⟩ := Prod.mk.inj (Option.some.inj h)
    have hp := List.find?_some hfind
    simp only [decide_eq_true_eq] at hp
    exact ⟨List.mem_range.mp (List.mem_of_find?_eq_some hfind), hp.1, rfl⟩

theorem u32Sub_succ (p d : Nat) : u32Sub (u32 (p + 1)) (u32 (d + 1)) = u32Sub p d := by
  unfold u32Sub u32
  omega

theorem u32Sub_succ_left (h : u32Sub p d = n) (hn : n < 2 ^ 31) :
    u32Sub (u32 (p + 1)) d = n + 1 := by
  unfold u32Sub u32 at *
  omega

theorem takePic_some {c c' : PicCodec} (h : c.takePic pic = some (cur, c')) :
    cur < c.dpbMgr.bufMgr.u4MaxBufCnt ∧ c.dpbMgr.bufMgr.au4Status cur = 0 ∧
      c'.dpbMgr.bufMgr =
        { c.dpbMgr.bufMgr with au4Status := set c.dpbMgr.bufMgr.au4Status cur 1 } ∧
      c'.dispMgr = (ihevcDispMgrAdd c.dispMgr cur pic.i4AbsPicOrderCnt cur).2 ∧
      c'.shown = set c.shown cur ⟨pic.u4Ts, pic.i4AbsPicOrderCnt⟩ ∧
      c'.u4PicCnt = c.u4PicCnt ∧ c'.u4DispCnt = c.u4DispCnt ∧
      c'.decodeFrameOut = c.decodeFrameOut ∧ c'.i4ShareDispBuf = c.i4ShareDispBuf := by
  obtain ⟨⟨i, b⟩, hfree, h⟩ := Option.bind_eq_some_iff.mp h
  obtain ⟨rfl, rfl⟩ := Prod.mk.inj (Option.some.inj h)
  obtain ⟨hlt, hzero, rfl⟩ := getNextFree_some hfree
  refine ⟨hlt, hzero, rfl, rfl, funext fun j => ?_, rfl, rfl, rfl, rfl⟩
  by_cases hsame : j = i
  · subst hsame
    simp [PicCodec.shown]
  · simp [PicCodec.shown, set_ne hsame]

/-- Without a picture to display nothing happens; otherwise one of least count is put out. -/
theorem bump_cases {c : PicCodec} (spsMaxNumReorderPics : Int)
    (hwaits : c.dispMgr.Waits pocs (cur :: waiting)) :
    (c.bump spsMaxNumReorderPics = (none, c) ∧ c.decodeFrameOut = false) ∨
      ∃ bufId ∈ cur :: waiting, ∃ dispMgr,
        c.bump spsMaxNumReorderPics =
          (some bufId, { c with dispMgr, u4DispCnt := u32 (c.u4DispCnt + 1) }) ∧
        (∀ i ∈ cur :: waiting, pocs bufId ≤ pocs i) ∧
        dispMgr.Waits pocs ((cur :: waiting).erase bufId) ∧
        (spsMaxNumReorderPics ≤ i32 (u32Sub c.u4PicCnt c.u4DispCnt) ∨ c.decodeFrameOut = true) := by
  unfold PicCodec.bump
  by_cases hbump : spsMaxNumReorderPics ≤ i32 (u32Sub c.u4PicCnt c.u4DispCnt) ∨
      c.decodeFrameOut = true
  · rw [if_pos hbump]
    rcases hwaits.get with ⟨_, hempty⟩ | ⟨bufId, hmem, hgot, hleast, hrest⟩
    · contradiction
    · refine .inr ⟨bufId, hmem, (ihevcDispMgrGet c.dispMgr).2, ?_, hleast, hrest, hbump⟩
      simp [hgot]
  · rw [if_neg hbump]
    exact .inl ⟨rfl, by simpa using (not_or.mp hbump).2⟩

theorem setStatus_max : (ihevcBufMgrSetStatus b bufId mask).u4MaxBufCnt = b.u4MaxBufCnt := by
  unfold ihevcBufMgrSetStatus
  split
  · rfl
  · split <;> rfl

theorem setStatus_ne (h : i ≠ bufId) :
    (ihevcBufMgrSetStatus b bufId mask).au4Status i = b.au4Status i := by
  unfold ihevcBufMgrSetStatus
  split
  · rfl
  · split
    · rfl
    · exact set_ne h

theorem setStatus_same (h : bufId < b.u4MaxBufCnt) (hclear : b.au4Status bufId &&& mask = 0) :
    (ihevcBufMgrSetStatus b bufId mask).au4Status bufId = b.au4Status bufId ||| mask := by
  rw [ihevcBufMgrSetStatus, if_neg (Nat.not_le.mpr h), if_neg (not_not.mpr hclear)]
  exact set_same

/-- What `markPic` leaves of the statuses when the picture is being decoded. -/
theorem markPic_frame {c : PicCodec} (hlt : cur < c.dpbMgr.bufMgr.u4MaxBufCnt)
    (hcur : c.dpbMgr.bufMgr.au4Status cur = 1) :
    (c.markPic cur).dpbMgr.bufMgr.u4MaxBufCnt = c.dpbMgr.bufMgr.u4MaxBufCnt ∧
      (c.markPic cur).dpbMgr.bufMgr.au4Status cur = 7 ∧
      (∀ i, i ≠ cur → (c.markPic cur).dpbMgr.bufMgr.au4Status i = c.dpbMgr.bufMgr.au4Status i) ∧
      (c.markPic cur).shown = c.shown := by
  have href : (ihevcBufMgrSetStatus c.dpbMgr.bufMgr cur bufMgrRef).au4Status cur = 3 := by
    rw [setStatus_same hlt (by rw [hcur]; rfl), hcur]
    rfl
  obtain ⟨hbuf, hpoc⟩ := insertRef_frame
    { c.dpbMgr with bufMgr :=
        ihevcBufMgrSetStatus (ihevcBufMgrSetStatus c.dpbMgr.bufMgr cur bufMgrRef) cur bufMgrDisp }
    cur cur
  have hmarked : (c.markPic cur).dpbMgr.bufMgr =
      ihevcBufMgrSetStatus (ihevcBufMgrSetStatus c.dpbMgr.bufMgr cur bufMgrRef) cur bufMgrDisp :=
    hbuf
  rw [hmarked]
  refine ⟨?_, ?_, fun i hi => ?_, funext fun i => ?_⟩
  · rw [setStatus_max, setStatus_max]
  · rw [setStatus_same (setStatus_max.symm ▸ hlt) (by rw [href]; rfl), href]
    rfl
  · rw [setStatus_ne hi, setStatus_ne hi]
  · simp only [PicCodec.shown, Shown.mk.injEq]
    exact ⟨rfl, hpoc i⟩

theorem markPic_keeps {c : PicCodec} (hk : Keeps b inUse) (hlt : cur < b.u4MaxBufCnt)
    (hbuf : c.dpbMgr.bufMgr = { b with au4Status := set b.au4Status cur 1 }) :
    (c.markPic cur).dpbMgr.bufMgr.u4MaxBufCnt = b.u4MaxBufCnt ∧
      Keeps (c.markPic cur).dpbMgr.bufMgr (cur :: inUse) ∧ (c.markPic cur).shown = c.shown := by
  have hlt' : cur < c.dpbMgr.bufMgr.u4MaxBufCnt := by
    rw [hbuf]
    exact hlt
  have htaken : c.dpbMgr.bufMgr.au4Status cur = 1 := by
    rw [hbuf]
    exact set_same
  obtain ⟨hmax, hcur, hother, hshown⟩ := markPic_frame hlt' htaken
  have hmax : (c.markPic cur).dpbMgr.bufMgr.u4MaxBufCnt = b.u4MaxBufCnt := by
    rw [hmax, hbuf]
  have hother : ∀ i, i ≠ cur → (c.markPic cur).dpbMgr.bufMgr.au4Status i = b.au4Status i := by
    intro i hi
    rw [hother i hi, hbuf]
    exact set_ne hi
  refine ⟨hmax, ⟨fun i hi => ?_, fun i hi => ?_⟩, hshown⟩
  · by_cases hsame : i = cur
    · subst hsame
      exact .inr (.inr (.inr (.inr hcur)))
    · rw [hother i hsame]
      exact hk.settled i (hmax ▸ hi)
  · by_cases hsame : i = cur
    · subst hsame
      exact ⟨hmax.symm ▸ hlt, .inr (.inr hcur)⟩
    · rw [hmax, hother i hsame]
      exact hk.needed i ((List.mem_cons.mp hi).resolve_left hsame)

theorem handOver_perm {waiting : List Nat} (held : List Nat) (hmem : bufId ∈ waiting) :
    (waiting.erase bufId ++ bufId :: held).Perm (waiting ++ held) :=
  List.perm_middle.trans ((List.perm_cons_erase hmem).symm.append_right held)

def PicHeader.shown (pic : PicHeader) : Shown := ⟨pic.u4Ts, pic.i4AbsPicOrderCnt⟩

theorem takePic_waits {c c' : PicCodec}
    (hwaits : c.dispMgr.Waits (fun i => (c.shown i).i4DisplayIndex) waiting)
    (htake : c.takePic pic = some (cur, c')) (hlt : cur < dispMgrMaxCnt) (hnew : cur ∉ waiting)
    (hpoc : pic.i4AbsPicOrderCnt < defaultPoc) :
    c'.dispMgr.Waits (fun i => (c'.shown i).i4DisplayIndex) (cur :: waiting) := by
  obtain ⟨_, _, _, hdisp, hshown, _⟩ := takePic_some htake
  rw [hdisp]
  refine (hwaits.add hlt hnew hpoc).congr fun i _ => ?_
  rw [hshown]
  by_cases hsame : i = cur
  · subst hsame
    simp
  · simp [set_ne hsame]

/-- The picture that is decoded waits, in a buffer that was free. -/
theorem PicCodec.Inv.takePic {c c₁ : PicCodec} {m : DpbMgr} (h : c.Inv waiting held)
    (hdel : delRefs pic.unused c.dpbMgr = some m)
    (htake : PicCodec.takePic { c with dpbMgr := m } pic = some (cur, c₁))
    (hpoc : pic.i4AbsPicOrderCnt < defaultPoc) :
    cur ∉ waiting ++ held ∧ c₁.shown = set c.shown cur pic.shown ∧
      c₁.dispMgr.Waits (fun i => (c₁.shown i).i4DisplayIndex) (cur :: waiting) ∧
      m.bufMgr.u4MaxBufCnt ≤ dispMgrMaxCnt ∧ Keeps m.bufMgr (waiting ++ held) ∧
      cur < m.bufMgr.u4MaxBufCnt ∧
      c₁.dpbMgr.bufMgr = { m.bufMgr with au4Status := set m.bufMgr.au4Status cur 1 } := by
  obtain ⟨hpics, hmax, hkeeps⟩ := delRefs_frame hdel h.keeps
  obtain ⟨hlt, hzero, hbuf, hdisp, hshown, _⟩ := takePic_some htake
  have hbound : m.bufMgr.u4MaxBufCnt ≤ dispMgrMaxCnt := hmax ▸ h.bufs
  have hnew : cur ∉ waiting ++ held := fun hmem => (hkeeps.needed cur hmem).2.ne_zero hzero
  have hshown : c₁.shown = set c.shown cur pic.shown := by
    rw [hshown]
    congr 1
    funext i
    simp only [PicCodec.shown, hpics]
  refine ⟨hnew, hshown, ?_, hbound, hkeeps, hlt, hbuf⟩
  refine takePic_waits (c := { c with dpbMgr := m }) (h.waits.congr fun i _ => ?_) htake
    (hlt.trans_le hbound) (fun hmem => hnew (List.mem_append_left _ hmem)) hpoc
  simp only [PicCodec.shown, hpics]

/-- How the buffers that wait and those that the application holds go on from one decode call. -/
inductive Bumped (c : PicCodec) (spsMaxNumReorderPics : Int) (pocs : Nat → Int) (cur : Nat)
    (waiting held : List Nat) : Option Nat → List Nat → List Nat → Prop
  | wait : c.decodeFrameOut = false →
      Bumped c spsMaxNumReorderPics pocs cur waiting held none (cur :: waiting) held
  | put {bufId : Nat} : bufId ∈ cur :: waiting → (∀ i ∈ cur :: waiting, pocs bufId ≤ pocs i) →
      (c.decodeFrameOut = false → spsMaxNumReorderPics ≤ waiting.length) →
      Bumped c spsMaxNumReorderPics pocs cur waiting held (some bufId)
        ((cur :: waiting).erase bufId) (if c.i4ShareDispBuf then bufId :: held else held)

/-- A buffer that is displayed and not held is in no list any more. -/
theorem Bumped.buffers (h : Bumped c reorder pocs cur waiting held psDispBuf waiting' held')
    (hnodup : (cur :: waiting ++ held).Nodup) :
    (waiting' ++ held').Nodup ∧ waiting' ++ held' ⊆ cur :: (waiting ++ held) ∧
      ∀ bufId, psDispBuf = some bufId → c.i4ShareDispBuf = false → bufId ∉ waiting' ++ held' := by
  cases h with
  | wait => exact ⟨hnodup, fun _ h => h, fun _ h => nomatch h⟩
  | @put bufId hmem =>
    have hperm := handOver_perm held hmem
    have hnodup' := hperm.nodup_iff.mpr hnodup
    by_cases hshare : c.i4ShareDispBuf = true
    · rw [if_pos hshare]
      refine ⟨hnodup', hperm.subset, fun _ _ hno => ?_⟩
      rw [hno] at hshare
      contradiction
    · rw [if_neg hshare]
      obtain ⟨hnot, hrest⟩ := List.nodup_cons.mp (List.perm_middle.nodup_iff.mp hnodup')
      refine ⟨hrest, fun i hi => hperm.subset ?_, ?_⟩
      · exact List.perm_middle.mem_iff.mpr (List.mem_cons_of_mem _ hi)
      · rintro _ ⟨⟩ _
        exact hnot

theorem waiting_length_le {d : DispMgr} (h : d.Waits pocs waiting) :
    waiting.length ≤ dispMgrMaxCnt := by
  have hsub : waiting ⊆ List.range dispMgrMaxCnt :=
    fun i hi => List.mem_range.mpr (h.bound i hi)
  simpa using (h.nodup.subperm hsub).length_le

/-- A decode call is its parts one after the other. -/
theorem decode_some {c c' : PicCodec} (h : c.decode pic = some (psDispBuf, c')) :
    ∃ m cur c₁ c₂, delRefs pic.unused c.dpbMgr = some m ∧
      PicCodec.takePic { c with dpbMgr := m } pic = some (cur, c₁) ∧
      c₁.bump pic.spsMaxNumReorderPics = (psDispBuf, c₂) ∧ c₂.finish cur psDispBuf = c' := by
  obtain ⟨m, hdel, h⟩ := Option.bind_eq_some_iff.mp h
  obtain ⟨⟨cur, c₁⟩, htake, h⟩ := Option.bind_eq_some_iff.mp h
  obtain ⟨hdisp, hfinish⟩ : (c₁.bump pic.spsMaxNumReorderPics).1 = psDispBuf ∧ _ = c' :=
    Prod.mk.inj (Option.some.inj h)
  rcases hbump : c₁.bump pic.spsMaxNumReorderPics with ⟨psDispBuf', c₂⟩
  rw [hbump] at hdisp hfinish
  obtain rfl : psDispBuf' = psDispBuf := hdisp
  exact ⟨m, cur, c₁, c₂, hdel, htake, hbump, hfinish⟩

/-- The step from the picture taken to the picture displayed. -/
theorem PicCodec.Inv.bump {c c₁ c₂ : PicCodec} (h : c.Inv waiting held) (held : List Nat)
    (hwaits : c₁.dispMgr.Waits pocs (cur :: waiting)) (hpicCnt : c₁.u4PicCnt = c.u4PicCnt)
    (hdispCnt : c₁.u4DispCnt = c.u4DispCnt) (hmode : c₁.decodeFrameOut = c.decodeFrameOut)
    (hbump : c₁.bump spsMaxNumReorderPics = (psDispBuf, c₂)) :
    ∃ waiting' held', Bumped c₁ spsMaxNumReorderPics pocs cur waiting held psDispBuf waiting' held' ∧
      c₂.dispMgr.Waits pocs waiting' ∧ c₂.dpbMgr = c₁.dpbMgr ∧ c₂.u4Ts = c₁.u4Ts ∧
      c₂.decodeFrameOut = c₁.decodeFrameOut ∧ c₂.i4ShareDispBuf = c₁.i4ShareDispBuf ∧
      (c₁.decodeFrameOut = false →
        u32Sub (u32 (c₂.u4PicCnt + 1)) c₂.u4DispCnt = waiting'.length) ∧
      (c₁.decodeFrameOut = true → waiting' = []) := by
  have hlength : waiting.length ≤ 64 := waiting_length_le h.waits
  rcases bump_cases spsMaxNumReorderPics hwaits with
    ⟨hnone, hno⟩ | ⟨bufId, hmem, dispMgr, hsome, hleast, hrest, hgo⟩
  · obtain ⟨rfl, rfl⟩ := Prod.mk.inj (hbump.symm.trans hnone)
    refine ⟨_, held, .wait hno, hwaits, rfl, rfl, rfl, rfl, fun _ => ?_, fun hyes => ?_⟩
    · rw [hpicCnt, hdispCnt, List.length_cons]
      exact u32Sub_succ_left (h.count (hmode ▸ hno)) (by omega)
    · exact absurd (hno.symm.trans hyes) Bool.false_ne_true
  · obtain ⟨rfl, rfl⟩ := Prod.mk.inj (hbump.symm.trans hsome)
    refine ⟨_, _, .put hmem hleast fun hno => ?_, hrest, rfl, rfl, rfl, rfl, fun hno => ?_,
      fun hyes => ?_⟩
    · have hle := hgo.resolve_right (by simp [hno])
      rw [hpicCnt, hdispCnt, h.count (hmode ▸ hno)] at hle
      refine hle.trans_eq ?_
      unfold i32 wrapInt
      omega
    · rw [List.length_erase_of_mem hmem]
      dsimp only
      rw [u32Sub_succ, hpicCnt, hdispCnt, h.count (hmode ▸ hno)]
      rfl
    · rw [h.mode (hmode ▸ hyes)] at hmem ⊢
      simp [List.mem_singleton.mp hmem]

theorem finish_frame (c : PicCodec) (cur : Nat) (psDispBuf : Option Nat) :
    (c.finish cur psDispBuf).dispMgr = c.dispMgr ∧
      (c.finish cur psDispBuf).u4PicCnt = u32 (c.u4PicCnt + 1) ∧
      (c.finish cur psDispBuf).u4DispCnt = c.u4DispCnt ∧
      (c.finish cur psDispBuf).decodeFrameOut = c.decodeFrameOut ∧
      (c.finish cur psDispBuf).i4ShareDispBuf = c.i4ShareDispBuf ∧
      (c.finish cur psDispBuf).shown = (c.markPic cur).shown := by
  unfold PicCodec.finish
  cases psDispBuf with
  | none => exact ⟨rfl, rfl, rfl, rfl, rfl, rfl⟩
  | some bufId =>
    dsimp only
    split <;> exact ⟨rfl, rfl, rfl, rfl, rfl, rfl⟩

theorem finish_keeps {c : PicCodec} (hk : Keeps b inUse) (hlt : cur < b.u4MaxBufCnt)
    (hbuf : c.dpbMgr.bufMgr = { b with au4Status := set b.au4Status cur 1 })
    (hsub : inUse' ⊆ cur :: inUse)
    (hrelease : ∀ bufId, psDispBuf = some bufId → c.i4ShareDispBuf = false → bufId ∉ inUse') :
    (c.finish cur psDispBuf).dpbMgr.bufMgr.u4MaxBufCnt = b.u4MaxBufCnt ∧
      Keeps (c.finish cur psDispBuf).dpbMgr.bufMgr inUse' ∧
      (c.finish cur psDispBuf).shown = c.shown := by
  obtain ⟨_, _, _, _, _, hframe⟩ := finish_frame c cur psDispBuf
  obtain ⟨hmax, hkeeps, hshown⟩ := markPic_keeps hk hlt hbuf
  have hkeeps := hkeeps.subset hsub
  refine (and_assoc.mp ⟨?_, hframe.trans hshown⟩)
  unfold PicCodec.finish
  cases psDispBuf with
  | none => exact ⟨hmax, hkeeps⟩
  | some bufId =>
    by_cases hshare : c.i4ShareDispBuf = true
    · have hshare' : (c.markPic cur).i4ShareDispBuf = true := hshare
      simp only [if_pos hshare']
      exact ⟨hmax, hkeeps⟩
    · have hshare' : ¬ (c.markPic cur).i4ShareDispBuf = true := hshare
      simp only [if_neg hshare']
      refine ⟨(bufMgrRelease_max ..).trans hmax, hkeeps.release bufId (.inr ⟨rfl, ?_⟩)⟩
      exact hrelease bufId rfl (Bool.eq_false_iff.mpr hshare)

theorem Bumped.congr (h : Bumped c reorder pocs cur waiting held psDispBuf waiting' held')
    (hmode : c'.decodeFrameOut = c.decodeFrameOut)
    (hshare : c'.i4ShareDispBuf = c.i4ShareDispBuf) :
    Bumped c' reorder pocs cur waiting held psDispBuf waiting' held' := by
  cases h with
  | wait hno => exact .wait (hmode.trans hno)
  | put hmem hleast hgo =>
    rw [← hshare]
    exact .put hmem hleast fun hno => hgo (hmode.symm.trans hno)

/-- One decode call: the picture decoded waits, and one of those that wait may be put out. -/
theorem PicCodec.Inv.decode {c c' : PicCodec} (h : c.Inv waiting held)
    (hdecode : c.decode pic = some (psDispBuf, c')) (hpoc : pic.i4AbsPicOrderCnt < defaultPoc) :
    ∃ cur waiting' held', cur ∉ waiting ∧ c'.shown = set c.shown cur pic.shown ∧
      c'.decodeFrameOut = c.decodeFrameOut ∧ c'.i4ShareDispBuf = c.i4ShareDispBuf ∧
      Bumped c pic.spsMaxNumReorderPics (fun i => (c'.shown i).i4DisplayIndex) cur waiting held
        psDispBuf waiting' held' ∧
      c'.Inv waiting' held' := by
  obtain ⟨m, cur, c₁, c₂, hdel, htake, hbump, hfinish⟩ := decode_some hdecode
  obtain ⟨hnew, hshown₁, hwaits, hbound, hkeeps, hlt, hbuf⟩ := h.takePic hdel htake hpoc
  obtain ⟨_, _, _, _, _, hpicCnt, hdispCnt, hmode, hshare⟩ := takePic_some htake
  obtain ⟨waiting', held', hbumped, hwaits', hdpb, hts, hmode₂, hshare₂, hcount, hempty⟩ :=
    h.bump held hwaits hpicCnt hdispCnt hmode hbump
  have hnodup : (cur :: waiting ++ held).Nodup := List.nodup_cons.mpr ⟨hnew, h.nodup⟩
  obtain ⟨hnodup', hsub, hrelease⟩ := hbumped.buffers hnodup
  have hshown₂ : c₂.shown = c₁.shown := by
    unfold PicCodec.shown
    rw [hts, hdpb]
  obtain ⟨hmax, hkeeps', hshown₃⟩ := finish_keeps hkeeps hlt (hdpb ▸ hbuf) hsub
    (fun bufId hd hno => hrelease bufId hd (hshare₂ ▸ hno))
  obtain ⟨hdisp₃, hpicCnt₃, hdispCnt₃, hmode₃, hshare₃, _⟩ := finish_frame c₂ cur psDispBuf
  rw [hfinish] at hmax hkeeps' hshown₃ hdisp₃ hpicCnt₃ hdispCnt₃ hmode₃ hshare₃
  have hshown : c'.shown = c₁.shown := hshown₃.trans hshown₂
  have hmode' : c'.decodeFrameOut = c₁.decodeFrameOut := hmode₃.trans hmode₂
  refine ⟨cur, waiting', held', fun hmem => hnew (List.mem_append_left _ hmem),
    hshown.trans hshown₁, hmode'.trans hmode, (hshare₃.trans hshare₂).trans hshare, ?_, ?_⟩
  · rw [hshown]
    exact hbumped.congr hmode.symm hshare.symm
  · constructor
    · rw [hmax]
      exact hbound
    · rw [hdisp₃, hshown]
      exact hwaits'
    · exact hkeeps'
    · exact hnodup'
    · intro hno
      rw [hpicCnt₃, hdispCnt₃]
      exact hcount (hmode' ▸ hno)
    · exact fun hyes => hempty (hmode' ▸ hyes)

theorem PicCodec.Inv.relDisplayFrame {c : PicCodec} (h : c.Inv waiting held)
    (hmem : bufId ∈ held) : (c.releaseDisp bufId).Inv waiting (held.erase bufId) := by
  have hsub : (waiting ++ held.erase bufId).Sublist (waiting ++ held) :=
    List.erase_sublist.append_left waiting
  obtain ⟨_, hheld, hdisjoint⟩ := List.nodup_append.mp h.nodup
  have hnot : bufId ∉ waiting ++ held.erase bufId := by
    rw [List.mem_append, not_or]
    exact ⟨fun hw => hdisjoint bufId hw bufId hmem rfl, hheld.not_mem_erase⟩
  constructor
  · exact (bufMgrRelease_max ..).trans_le h.bufs
  · exact h.waits
  · exact (h.keeps.subset hsub.subset).release bufId (.inr ⟨rfl, hnot⟩)
  · exact hsub.nodup h.nodup
  · exact h.count
  · exact h.mode

-- ---------------------------------------------------------------------------
-- Runs
-- ---------------------------------------------------------------------------

theorem shown_items {c c' : PicCodec} {pic : PicHeader} {waiting : List Nat} (hnew : cur ∉ waiting)
    (hshown : c'.shown = set c.shown cur pic.shown) :
    (cur :: waiting).map c'.shown = pic.shown :: waiting.map c.shown := by
  have hold : ∀ i ∈ waiting, c'.shown i = c.shown i := by
    rintro i hi
    rw [hshown]
    apply set_ne
    rintro rfl
    exact hnew hi
  rw [List.map_cons, List.map_congr_left hold, hshown, set_same]

theorem erase_items {waiting : List Nat} (shown : Nat → Shown) (hmem : bufId ∈ waiting) :
    (waiting.map shown).Perm (shown bufId :: (waiting.erase bufId).map shown) :=
  (List.perm_cons_erase hmem).map shown

theorem Bumped.kept {shown : Nat → Shown} {done out : List Shown}
    (h : Bumped c reorder pocs cur waiting held psDispBuf waiting' held')
    (hkept : Kept done out ((cur :: waiting).map shown)) :
    Kept done (out ++ psDispBuf.toList.map shown) (waiting'.map shown) := by
  cases h with
  | wait => simpa using hkept
  | put hmem => exact hkept.put (erase_items shown hmem)

theorem Bumped.sorted {shown : Nat → Shown} {done out later : List Shown}
    (h : Bumped c reorder (fun i => (shown i).i4DisplayIndex) cur waiting held psDispBuf waiting'
      held') (hmode : c.decodeFrameOut = false)
    (hkept : Kept done out ((cur :: waiting).map shown))
    (hsorted : Sorted Shown.i4DisplayIndex later out ((cur :: waiting).map shown))
    (hreorder : ∀ y ∈ later,
      (done.countP (y.i4DisplayIndex < Shown.i4DisplayIndex ·) : Int) ≤ reorder) :
    Sorted Shown.i4DisplayIndex later (out ++ psDispBuf.toList.map shown)
      (waiting'.map shown) := by
  cases h with
  | wait => simpa using hsorted
  | @put bufId hmem hleast hgo =>
    have hleast : ∀ x ∈ (cur :: waiting).map shown,
        (shown bufId).i4DisplayIndex ≤ x.i4DisplayIndex := List.forall_mem_map.mpr hleast
    refine hsorted.put (erase_items shown hmem) hleast fun y hy => ?_
    have hdepth : done.countP (y.i4DisplayIndex < Shown.i4DisplayIndex ·) <
        ((cur :: waiting).map shown).length := by
      have hle := (hreorder y hy).trans (hgo hmode)
      rw [List.length_map, List.length_cons]
      omega
    have hne := (List.pairwise_append.mp hsorted.distinct).2.2 (shown bufId)
      (List.mem_map_of_mem hmem) y hy
    exact least_before_later hkept hdepth hleast (Nat.le_refl _) hne

/-- At most as many pictures as the SPS says are decoded up to a picture and shown after one that
is decoded later. -/
def Reorders (pics : List PicHeader) : Prop :=
  ∀ k, (h : k < pics.length) → ∀ y ∈ pics.drop (k + 1),
    ((pics.take (k + 1)).countP (y.i4AbsPicOrderCnt < PicHeader.i4AbsPicOrderCnt ·) : Int) ≤
      pics[k].spsMaxNumReorderPics

instance : Decidable (Reorders pics) :=
  inferInstanceAs (Decidable (∀ k, (h : k < pics.length) → ∀ y ∈ pics.drop (k + 1), _))

def DistinctCounts (pics : List PicHeader) : Prop :=
  pics.Pairwise fun x y => x.i4AbsPicOrderCnt ≠ y.i4AbsPicOrderCnt

instance : Decidable (DistinctCounts pics) :=
  inferInstanceAs (Decidable (pics.Pairwise _))

/-- What was decoded was returned or waits, and is returned in order. -/
structure DisplayRun.Inv (start : PicCodec) (pics : List PicHeader) (out : List Shown)
    (held waiting : List Nat) (c : PicCodec) : Prop where
  codec : c.Inv waiting held
  mode : c.decodeFrameOut = start.decodeFrameOut
  kept : Kept (pics.map PicHeader.shown) out (waiting.map c.shown)
  sorted : start.decodeFrameOut = false → ∀ later, DistinctCounts (pics ++ later) →
    Reorders (pics ++ later) →
      Sorted Shown.i4DisplayIndex (later.map PicHeader.shown) out (waiting.map c.shown)
  decodeOrder : start.decodeFrameOut = true → out = pics.map PicHeader.shown

theorem DisplayRun.Inv.start {c : PicCodec} (h : c.Start) :
    DisplayRun.Inv c [] [] c.givenOut [] c where
  codec := h.inv
  mode := rfl
  kept := .refl _
  sorted := by
    intro _ later hdistinct _
    exact ⟨.nil, fun _ h => (nomatch h), List.pairwise_map.mpr hdistinct⟩
  decodeOrder := fun _ => rfl

theorem DisplayRun.Inv.decode {start c c' : PicCodec}
    (h : DisplayRun.Inv start pics out held waiting c) (hdecode : c.decode pic = some (psDispBuf, c'))
    (hpoc : pic.i4AbsPicOrderCnt < defaultPoc) :
    ∃ waiting', DisplayRun.Inv start (pics ++ [pic]) (out ++ psDispBuf.toList.map c'.shown)
      (if c.i4ShareDispBuf then psDispBuf.toList ++ held else held) waiting' c' := by
  obtain ⟨cur, waiting', held', hnew, hshown, hmode, _, hbumped, hcodec⟩ :=
    h.codec.decode hdecode hpoc
  have hitems := shown_items hnew hshown
  have hkept : Kept ((pics ++ [pic]).map PicHeader.shown) out ((cur :: waiting).map c'.shown) := by
    rw [hitems, List.map_append]
    exact h.kept.add pic.shown
  have hheld : held' = if c.i4ShareDispBuf then psDispBuf.toList ++ held else held := by
    cases hbumped with
    | wait => simp
    | put => rfl
  rw [← hheld]
  refine ⟨waiting', hcodec, hmode.trans h.mode, hbumped.kept hkept, ?_, ?_⟩
  · intro hno later hdistinct hreorders
    have happend : pics ++ [pic] ++ later = pics ++ pic :: later := by simp
    rw [happend] at hdistinct hreorders
    have hsorted := (h.sorted hno (pic :: later) hdistinct hreorders).add
    rw [← hitems] at hsorted
    refine hbumped.sorted (h.mode.trans hno) hkept hsorted (List.forall_mem_map.mpr fun y hy => ?_)
    have hdecoded := hreorders pics.length (by simp) y (by simpa using hy)
    have htake : (pics ++ pic :: later).take (pics.length + 1) = pics ++ [pic] := by
      simp [List.take_append]
    rw [htake, List.getElem_append_right (Nat.le_refl _)] at hdecoded
    simp only [Nat.sub_self, List.getElem_cons_zero] at hdecoded
    rw [List.countP_map]
    exact hdecoded
  · intro hyes
    have hempty := h.codec.mode (h.mode.trans hyes)
    subst hempty
    cases hbumped with
    | wait hno => exact absurd (hno.symm.trans (h.mode.trans hyes)) Bool.false_ne_true
    | put hmem =>
      obtain rfl := List.mem_singleton.mp hmem
      rw [h.decodeOrder hyes, List.map_append]
      simp [hshown]

theorem DisplayRun.inv {start c : PicCodec} (h : DisplayRun start pics out held c)
    (hstart : start.Start) (hpoc : ∀ pic ∈ pics, pic.i4AbsPicOrderCnt < defaultPoc) :
    ∃ waiting, DisplayRun.Inv start pics out held waiting c := by
  induction h with
  | start => exact ⟨[], .start hstart⟩
  | decode pic _ hdecode ih =>
    obtain ⟨waiting, hinv⟩ := ih fun p hp => hpoc p (List.mem_append_left _ hp)
    exact hinv.decode hdecode (hpoc pic (by simp))
  | relDisplayFrame bufId _ hmem ih =>
    obtain ⟨waiting, hinv⟩ := ih hpoc
    exact ⟨waiting, { hinv with codec := hinv.codec.relDisplayFrame hmem }⟩

-- ---------------------------------------------------------------------------
-- Flush calls
-- ---------------------------------------------------------------------------

theorem flush_cases {c : PicCodec}
    (hwaits : c.dispMgr.Waits (fun i => (c.shown i).i4DisplayIndex) waiting) :
    (∃ c', c.flush = (none, c') ∧ waiting = []) ∨
      ∃ bufId ∈ waiting, ∃ c', c.flush = (some bufId, c') ∧ c'.shown = c.shown ∧
        (∀ i ∈ waiting, (c.shown bufId).i4DisplayIndex ≤ (c.shown i).i4DisplayIndex) ∧
        c'.dispMgr.Waits (fun i => (c.shown i).i4DisplayIndex) (waiting.erase bufId) := by
  unfold PicCodec.flush
  rcases hwaits.get with ⟨hnone, hempty⟩ | ⟨bufId, hmem, hgot, hleast, hrest⟩
  · rw [hnone]
    exact .inl ⟨_, rfl, hempty⟩
  · refine .inr ⟨bufId, hmem, ?_⟩
    generalize ihevcDispMgrGet c.dispMgr = got at hgot hrest
    obtain ⟨_, dispMgr⟩ := got
    subst hgot
    refine ⟨_, rfl, ?_, hleast, ?_⟩
    · split <;> rfl
    · split <;> exact hrest

/-- Flush calls return the pictures that wait, the least count first. -/
theorem flushAll_spec {c : PicCodec} {done out : List Shown} (calls : Nat)
    (hwaits : c.dispMgr.Waits (fun i => (c.shown i).i4DisplayIndex) waiting)
    (hcalls : waiting.length < calls) (hkept : Kept done out (waiting.map c.shown)) :
    ∃ rest, c.flushAll calls = some rest ∧ (out ++ rest).Perm done ∧
      (waiting = [] → rest = []) ∧
      (Sorted Shown.i4DisplayIndex [] out (waiting.map c.shown) →
        (out ++ rest).Pairwise fun x y => x.i4DisplayIndex < y.i4DisplayIndex) := by
  induction calls generalizing c waiting out with
  | zero => contradiction
  | succ calls ih =>
    rw [PicCodec.flushAll]
    rcases flush_cases hwaits with
      ⟨c', hflush, rfl⟩ | ⟨bufId, hmem, c', hflush, hshown, hleast, hrest⟩
    · rw [hflush]
      refine ⟨[], rfl, ?_, fun _ => rfl, fun hsorted => ?_⟩
      · simpa [Kept] using hkept
      · simpa using hsorted.sorted
    · have hitems := erase_items c.shown hmem
      rw [← hshown] at hrest
      have hlength : (waiting.erase bufId).length < calls := by
        have hpos := List.length_pos_of_mem hmem
        rw [List.length_erase_of_mem hmem]
        omega
      obtain ⟨rest, hall, hperm, _, hsorted⟩ :=
        ih hrest hlength (hshown.symm ▸ hkept.put hitems)
      rw [hshown] at hperm hsorted
      rw [hflush]
      dsimp only
      rw [hall]
      refine ⟨c.shown bufId :: rest, rfl, by simpa using hperm, ?_, fun hs => ?_⟩
      · rintro rfl
        contradiction
      · have hput := hs.put hitems (List.forall_mem_map.mpr hleast) fun _ h => absurd h List.not_mem_nil
        simpa using hsorted hput

/-- Every picture that is decoded is returned once, whatever its output flag says, and flush mode
ends within 65 calls. The counts increase when they are distinct and no more pictures are
reordered than the SPS says; with `IVD_DECODE_FRAME_OUT` the order is that of decoding. -/
theorem display_order {start c : PicCodec} {pics : List PicHeader} {out : List Shown}
    {held : List Nat} (hstart : start.Start) (hrun : DisplayRun start pics out held c)
    (hpoc : ∀ pic ∈ pics, pic.i4AbsPicOrderCnt < defaultPoc) :
    ∃ rest, c.flushAll 65 = some rest ∧ (out ++ rest).Perm (pics.map PicHeader.shown) ∧
      (start.decodeFrameOut = false → DistinctCounts pics → Reorders pics →
        (out ++ rest).Pairwise fun x y => x.i4DisplayIndex < y.i4DisplayIndex) ∧
      (start.decodeFrameOut = true → out ++ rest = pics.map PicHeader.shown) := by
  obtain ⟨waiting, hinv⟩ := hrun.inv hstart hpoc
  have hlength := waiting_length_le hinv.codec.waits
  obtain ⟨rest, hall, hperm, hnone, hsorted⟩ :=
    flushAll_spec 65 hinv.codec.waits (Nat.lt_succ_of_le hlength) hinv.kept
  refine ⟨rest, hall, hperm, fun hno hdistinct hreorders => ?_, fun hyes => ?_⟩
  · apply hsorted
    apply hinv.sorted hno []
    · rwa [List.append_nil]
    · rwa [List.append_nil]
  · rw [hnone (hinv.codec.mode (hinv.mode.trans hyes)), hinv.decodeOrder hyes, List.append_nil]

/-- Four picture buffers and nothing decoded yet. -/
def displayStart (decodeFrameOut : Bool) : PicCodec where
  dpbMgr :=
    { asDpbInfo := fun _ => { psPicBuf := none, psPrevDpb := none }
      psDpbHead := none
      u1NumRefBufs := 0
      pics := fun _ => { i4AbsPoc := 0, i4PocLsb := 0, u1BufId := 0, u1UsedAsRef := 0 }
      bufMgr := { u4MaxBufCnt := 4, au4Status := fun _ => 0 } }
  dispMgr := ihevcDispMgrInit
  added := fun i => i < 4
  u4Ts := fun _ => 0
  u4PicCnt := 0
  u4DispCnt := 0
  i4ShareDispBuf := false
  yuv420p := true
  decodeFrameOut

theorem displayStart_start : (displayStart decodeFrameOut).Start where
  bufs := by
    show 4 ≤ 64
    decide
  status := fun _ _ => .inl rfl
  disp := rfl
  picCnt := rfl
  dispCnt := rfl

def PicCodec.decodeAll : List PicHeader → PicCodec → Option (List Shown × PicCodec)
  | [], c => some ([], c)
  | pic :: pics, c =>
    (c.decode pic).bind fun got =>
      (decodeAll pics got.2).map fun rest =>
        (got.1.toList.map got.2.shown ++ rest.1, rest.2)

theorem decodeAll_run {start c c' : PicCodec} (hrun : DisplayRun start pics out held c)
    (hall : c.decodeAll more = some (out', c')) :
    ∃ held', DisplayRun start (pics ++ more) (out ++ out') held' c' := by
  induction more generalizing pics out held c out' with
  | nil =>
    obtain ⟨rfl, rfl⟩ := Prod.mk.inj (Option.some.inj hall)
    rw [List.append_nil, List.append_nil]
    exact ⟨held, hrun⟩
  | cons pic more ih =>
    obtain ⟨⟨psDispBuf, c₁⟩, hdecode, hall⟩ := Option.bind_eq_some_iff.mp hall
    obtain ⟨⟨rest, c₂⟩, hrest, hall⟩ := Option.map_eq_some_iff.mp hall
    obtain ⟨rfl, rfl⟩ := Prod.mk.inj hall
    obtain ⟨held', hrun'⟩ := ih (hrun.decode pic hdecode) hrest
    exact ⟨held', by simpa using hrun'⟩

/-- A picture of the stream whose pictures are reordered by at most one. -/
def reorderedPic (u4Ts : Nat) (i4AbsPicOrderCnt : Int) (i1PicOutputFlag : Nat) : PicHeader :=
  { u4Ts, i4AbsPicOrderCnt, i4PicOrderCntLsb := i4AbsPicOrderCnt, i1PicOutputFlag
    spsMaxNumReorderPics := 1, unused := [] }

def reorderedPics : List PicHeader := [reorderedPic 0 0 1, reorderedPic 40 4 0, reorderedPic 80 2 1]

/-- Three pictures with the counts 0, 4 and 2: one is returned by a flush call. -/
theorem display_order_reordered :
    ∃ out held c, DisplayRun (displayStart false) reorderedPics out held c ∧ out.length = 2 ∧
      ∃ rest, c.flushAll 65 = some rest ∧
        (out ++ rest).Perm (reorderedPics.map PicHeader.shown) ∧
        (out ++ rest).Pairwise fun x y => x.i4DisplayIndex < y.i4DisplayIndex := by
  have hall : ((displayStart false).decodeAll reorderedPics).map Prod.fst =
      some [⟨0, 0⟩, ⟨80, 2⟩] := by
    decide +kernel
  obtain ⟨⟨out, c⟩, hall, rfl⟩ := Option.map_eq_some_iff.mp hall
  obtain ⟨held, hrun⟩ := decodeAll_run .start hall
  obtain ⟨rest, hflush, hperm, hsorted, _⟩ :=
    display_order displayStart_start hrun (by decide +kernel)
  exact ⟨_, held, c, hrun, rfl, rest, hflush, hperm,
    hsorted rfl (by decide +kernel) (by decide +kernel)⟩

/-- A picture whose output flag is 0 is returned, with `IVD_DECODE_FRAME_OUT` the counts go down,
and a picture whose count is `DEFAULT_POC` is never returned. -/
theorem display_order_not_by_flag :
    (∃ out held c, DisplayRun (displayStart false) reorderedPics out held c ∧
      ∃ pic ∈ reorderedPics, pic.i1PicOutputFlag = 0 ∧
        c.flushAll 65 = some [pic.shown]) ∧
      (DistinctCounts reorderedPics ∧ Reorders reorderedPics ∧
        ∃ out held c, DisplayRun (displayStart true) reorderedPics out held c ∧
          c.flushAll 65 = some [] ∧
          ¬ out.Pairwise fun x y => x.i4DisplayIndex < y.i4DisplayIndex) ∧
      ∃ held c, DisplayRun (displayStart false) [reorderedPic 0 defaultPoc 1] [] held c ∧
        c.flushAll 65 = some [] := by
  refine ⟨?_, ⟨by decide +kernel, by decide +kernel, ?_⟩, ?_⟩
  · have hall : ((displayStart false).decodeAll reorderedPics).map
        (fun got => got.2.flushAll 65) = some (some [⟨40, 4⟩]) := by
      decide +kernel
    obtain ⟨⟨out, c⟩, hall, hflush⟩ := Option.map_eq_some_iff.mp hall
    obtain ⟨held, hrun⟩ := decodeAll_run .start hall
    exact ⟨_, held, c, hrun, reorderedPic 40 4 0, by simp [reorderedPics], rfl, hflush⟩
  · have hall : ((displayStart true).decodeAll reorderedPics).map
        (fun got => (got.1, got.2.flushAll 65)) =
        some ([⟨0, 0⟩, ⟨40, 4⟩, ⟨80, 2⟩], some []) := by
      decide +kernel
    obtain ⟨⟨out, c⟩, hall, hflush⟩ := Option.map_eq_some_iff.mp hall
    obtain ⟨rfl, hflush⟩ := Prod.mk.inj hflush
    obtain ⟨held, hrun⟩ := decodeAll_run .start hall
    exact ⟨_, held, c, hrun, hflush, by decide⟩
  · have hall : ((displayStart false).decodeAll [reorderedPic 0 defaultPoc 1]).map
        (fun got => (got.1, got.2.flushAll 65)) = some ([], some []) := by
      decide +kernel
    obtain ⟨⟨out, c⟩, hall, hflush⟩ := Option.map_eq_some_iff.mp hall
    obtain ⟨rfl, hflush⟩ := Prod.mk.inj hflush
    obtain ⟨held, hrun⟩ := decodeAll_run .start hall
    exact ⟨held, c, hrun, hflush⟩

end Libhevc.Decoder
