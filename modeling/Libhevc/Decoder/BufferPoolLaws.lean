import Libhevc.Decoder.BufferPool
import Libhevc.Decoder.DisplayOrder

/-!
# No picture buffer is lost

In every run the status word of a buffer says exactly where the buffer is, so
that a buffer is free when nothing needs it, and only then.
-/

namespace Libhevc.Decoder

open Memory

-- ---------------------------------------------------------------------------
-- Status words
-- ---------------------------------------------------------------------------

/-- The status of a buffer that is not being decoded: `BUF_MGR_REF` and `BUF_MGR_DISP` are set
exactly when it is needed for reference and for display. -/
inductive Word : Nat → Prop → Prop → Prop
  | free {r d : Prop} : ¬r → ¬d → Word 0 r d
  | forRef {r d : Prop} : r → ¬d → Word 3 r d
  | givenOut {r d : Prop} : ¬r → d → Word 4 r d
  | forDisp {r d : Prop} : ¬r → d → Word 5 r d
  | forBoth {r d : Prop} : r → d → Word 7 r d

section
variable {r d r' d' : Prop}

theorem Word.congr (h : Word status r d) (href : r' ↔ r) (hdisp : d' ↔ d) :
    Word status r' d' := by
  rw [← propext href, ← propext hdisp] at h
  exact h

theorem Word.zero_iff (h : Word status r d) : status = 0 ↔ ¬r ∧ ¬d := by
  cases h <;> simp [*]

theorem Word.releaseRef (h : Word status r d) : Word (releasedStatus status bufMgrRef) False d := by
  cases h with
  | free _ hd => exact .free id hd
  | forRef _ hd => exact .free id hd
  | givenOut _ hd => exact .givenOut id hd
  | forDisp _ hd => exact .forDisp id hd
  | forBoth _ hd => exact .forDisp id hd

theorem Word.releaseDisp (h : Word status r d) :
    Word (releasedStatus status bufMgrDisp) r False := by
  cases h with
  | free hr => exact .free hr id
  | forRef hr => exact .forRef hr id
  | givenOut hr => exact .free hr id
  | forDisp hr => exact .free hr id
  | forBoth hr => exact .forRef hr id

theorem Word.ref_iff (h : Word status r d) : status &&& bufMgrRef ≠ 0 ↔ r := by
  cases h <;> simp [*, bufMgrRef]

theorem Word.disp_iff (h : Word status r d) : status &&& bufMgrDisp ≠ 0 ↔ d := by
  cases h <;> simp [*, bufMgrDisp]

end

-- ---------------------------------------------------------------------------
-- The pictures of the DPB
-- ---------------------------------------------------------------------------

/-- The entries of the DPB hold pictures of the pool, each at most once. -/
structure DpbMgr.Pooled (m : DpbMgr) : Prop where
  entry : ∀ node p, m.pic node = some p →
    node < maxDpbBufs ∧ p < m.bufMgr.u4MaxBufCnt ∧ (m.pics p).u1BufId = p
  once : ∀ i j p, m.pic i = some p → m.pic j = some p → i = j

theorem DpbMgr.Pooled.setBufMgr {m : DpbMgr} {b : BufMgr} (h : DpbMgr.Pooled m)
    (hmax : b.u4MaxBufCnt = m.bufMgr.u4MaxBufCnt) : DpbMgr.Pooled { m with bufMgr := b } := by
  refine ⟨fun node p hnode => ?_, h.once⟩
  dsimp only
  rw [hmax]
  exact h.entry node p hnode

theorem DpbMgr.Pooled.takenOut {m m' : DpbMgr} (h : DpbMgr.Pooled m)
    (hout : TakenOut m m' node p) :
    DpbMgr.Pooled m' ∧ (∀ i, InDpb m' i ↔ InDpb m i ∧ i ≠ p) ∧
      m'.bufMgr = ihevcBufMgrRelease m.bufMgr p bufMgrRef := by
  have hbuf : m'.bufMgr = ihevcBufMgrRelease m.bufMgr p bufMgrRef := by
    rw [hout.bufMgr, (h.entry node p hout.entry).2.2]
  have hsub : ∀ i q, m'.pic i = some q → i ≠ node ∧ m.pic i = some q := by
    intro i q hi
    rw [hout.pic] at hi
    by_cases hsame : i = node
    · subst hsame
      simp at hi
    · rw [Function.update_of_ne hsame] at hi
      exact ⟨hsame, hi⟩
  refine ⟨⟨fun i q hi => ?_, fun i j q hi hj => ?_⟩, fun i => ⟨?_, ?_⟩, hbuf⟩
  · rw [hbuf, bufMgrRelease_max, hout.pics]
    exact h.entry i q (hsub i q hi).2
  · exact h.once i j q (hsub i q hi).2 (hsub j q hj).2
  · rintro ⟨j, hj, hpic⟩
    obtain ⟨hne, hpic⟩ := hsub j i hpic
    refine ⟨⟨j, hj, hpic⟩, ?_⟩
    rintro rfl
    exact hne (h.once j node i hpic hout.entry)
  · rintro ⟨⟨j, hj, hpic⟩, hne⟩
    refine ⟨j, hj, ?_⟩
    rw [hout.pic, Function.update_of_ne, hpic]
    rintro rfl
    exact hne (Option.some.inj (hpic.symm.trans hout.entry))

/-- The DPB has room for a picture of the pool that it does not hold. -/
theorem DpbMgr.Pooled.room {m : DpbMgr} (h : DpbMgr.Pooled m)
    (hbufs : m.bufMgr.u4MaxBufCnt ≤ dispMgrMaxCnt) (hlt : p < m.bufMgr.u4MaxBufCnt)
    (hnew : ¬InDpb m p) : ∃ node < maxDpbBufs, m.pic node = none := by
  by_contra hfull
  have hheld : ∀ node < maxDpbBufs, ∃ q, m.pic node = some q := by
    intro node hnode
    refine Option.isSome_iff_exists.mp (Option.isSome_iff_ne_none.mpr fun hnone => ?_)
    exact hfull ⟨node, hnode, hnone⟩
  have hnodup : ((List.range maxDpbBufs).map m.pic).Nodup := by
    refine List.Nodup.map_on (fun i hi j _ hij => ?_) List.nodup_range
    obtain ⟨q, hq⟩ := hheld i (List.mem_range.mp hi)
    exact h.once i j q hq (hij.symm.trans hq)
  have hsub : (List.range maxDpbBufs).map m.pic ⊆
      ((List.range m.bufMgr.u4MaxBufCnt).erase p).map some := by
    intro q hq
    obtain ⟨i, hi, rfl⟩ := List.mem_map.mp hq
    obtain ⟨q, hq⟩ := hheld i (List.mem_range.mp hi)
    rw [hq]
    refine List.mem_map_of_mem ((List.nodup_range.mem_erase_iff).mpr ⟨?_, ?_⟩)
    · rintro rfl
      exact hnew ⟨i, List.mem_range.mp hi, hq⟩
    · exact List.mem_range.mpr (h.entry i q hq).2.1
  have hle := (hnodup.subperm hsub).length_le
  rw [List.length_map, List.length_map, List.length_range,
    List.length_erase_of_mem (List.mem_range.mpr hlt), List.length_range] at hle
  simp only [maxDpbBufs, dispMgrMaxCnt] at hle hbufs
  omega

theorem insertRef_new {m : DpbMgr} (hnew : ¬InDpb m p)
    (hroom : ∃ node < maxDpbBufs, m.pic node = none) :
    ∃ node < maxDpbBufs, m.pic node = none ∧ ihevcDpbMgrInsertRef m p p = (0, m.link p p node) := by
  rcases insertRef_cases m p p with hrefused | hlinked
  · exfalso
    obtain ⟨node, hnode, hempty⟩ := hroom
    unfold ihevcDpbMgrInsertRef at hrefused
    split at hrefused
    case isTrue hany =>
      obtain ⟨i, hi, hhas⟩ := List.any_eq_true.mp hany
      simp only [decide_eq_true_eq] at hhas
      exact hnew ⟨i, List.mem_range.mp hi, hhas.1⟩
    case isFalse =>
      split at hrefused
      case h_1 hnone =>
        have hno := List.find?_eq_none.mp hnone node (List.mem_range.mpr hnode)
        simp [hempty] at hno
      case h_2 => simp at hrefused
  · exact hlinked

theorem DpbMgr.Pooled.insertRef {m : DpbMgr} (h : DpbMgr.Pooled m)
    (hbufs : m.bufMgr.u4MaxBufCnt ≤ dispMgrMaxCnt) (hlt : p < m.bufMgr.u4MaxBufCnt)
    (hnew : ¬InDpb m p) :
    DpbMgr.Pooled (ihevcDpbMgrInsertRef m p p).2 ∧
      ∀ i, InDpb (ihevcDpbMgrInsertRef m p p).2 i ↔ InDpb m i ∨ i = p := by
  obtain ⟨node, hnode, hempty, hinsert⟩ := insertRef_new hnew (h.room hbufs hlt hnew)
  rw [hinsert]
  have hpic : (m.link p p node).pic = Function.update m.pic node (some p) := by
    change ((m.setPic node (some p)).setPrev node m.psDpbHead).pic = _
    rw [setPrev_pic, setPic_pic]
  have hid : p % 256 = p := by
    simp only [dispMgrMaxCnt] at hbufs
    omega
  have hnotp : ∀ i, m.pic i ≠ some p := fun i hi => hnew ⟨i, (h.entry i p hi).1, hi⟩
  refine ⟨⟨fun i q hi => ?_, fun i j q hi hj => ?_⟩, fun i => ⟨?_, ?_⟩⟩
  · rw [hpic] at hi
    by_cases hsame : i = node
    · subst hsame
      obtain rfl : p = q := by simpa using hi
      exact ⟨hnode, hlt, by simpa [DpbMgr.link] using hid⟩
    · rw [Function.update_of_ne hsame] at hi
      obtain ⟨hi64, hq, hqid⟩ := h.entry i q hi
      have hne : q ≠ p := by
        rintro rfl
        exact hnotp i hi
      refine ⟨hi64, hq, ?_⟩
      change (set m.pics p _ q).u1BufId = q
      rw [set_ne hne]
      exact hqid
  · rw [hpic] at hi hj
    by_cases hinode : i = node <;> by_cases hjnode : j = node
    · exact hinode.trans hjnode.symm
    · subst hinode
      rw [Function.update_self] at hi
      rw [Function.update_of_ne hjnode, ← hi] at hj
      exact absurd hj (hnotp j)
    · subst hjnode
      rw [Function.update_self] at hj
      rw [Function.update_of_ne hinode, ← hj] at hi
      exact absurd hi (hnotp i)
    · rw [Function.update_of_ne hinode] at hi
      rw [Function.update_of_ne hjnode] at hj
      exact h.once i j q hi hj
  · rintro ⟨j, hj, hjpic⟩
    rw [hpic] at hjpic
    by_cases hsame : j = node
    · subst hsame
      exact .inr (by simpa using hjpic.symm)
    · rw [Function.update_of_ne hsame] at hjpic
      exact .inl ⟨j, hj, hjpic⟩
  · rintro (⟨j, hj, hjpic⟩ | rfl)
    · refine ⟨j, hj, ?_⟩
      rw [hpic, Function.update_of_ne, hjpic]
      rintro rfl
      rw [hempty] at hjpic
      contradiction
    · exact ⟨node, hnode, by rw [hpic, Function.update_self]⟩

-- ---------------------------------------------------------------------------
-- The status of every buffer
-- ---------------------------------------------------------------------------

/-- The picture `cur` is being decoded, the buffers with `R` are referenced, and those in `inUse`
are needed for display. -/
structure Words (b : BufMgr) (cur : Option Nat) (R : Nat → Prop) (inUse : List Nat) : Prop where
  taken : ∀ i, cur = some i → i < b.u4MaxBufCnt ∧ b.au4Status i = 1
  word : ∀ i < b.u4MaxBufCnt, cur ≠ some i → Word (b.au4Status i) (R i) (i ∈ inUse)

section
variable {b b' : BufMgr} {R R' : Nat → Prop} {inUse inUse' : List Nat}

theorem Words.congr (h : Words b cur R inUse) (hmem : ∀ i, i ∈ inUse' ↔ i ∈ inUse) :
    Words b cur R inUse' :=
  ⟨h.taken, fun i hi hcur => (h.word i hi hcur).congr Iff.rfl (hmem i)⟩

theorem Words.release_cur (h : Words b cur R inUse) (hp : cur ≠ some p) :
    ∀ i, cur = some i → i < (ihevcBufMgrRelease b p mask).u4MaxBufCnt ∧
      (ihevcBufMgrRelease b p mask).au4Status i = 1 := by
  rintro i rfl
  have hne : i ≠ p := by
    rintro rfl
    exact hp rfl
  rw [bufMgrRelease_max, bufMgrRelease_ne hne]
  exact h.taken i rfl

theorem Words.releaseRef (h : Words b cur R inUse) (hp : cur ≠ some p)
    (hR : ∀ i, R' i ↔ R i ∧ i ≠ p) :
    Words (ihevcBufMgrRelease b p bufMgrRef) cur R' inUse := by
  refine ⟨h.release_cur hp, fun i hi hcur => ?_⟩
  rw [bufMgrRelease_max] at hi
  by_cases hsame : i = p
  · subst hsame
    rw [bufMgrRelease_same hi]
    exact (h.word i hi hcur).releaseRef.congr (by simp [hR]) Iff.rfl
  · rw [bufMgrRelease_ne hsame]
    exact (h.word i hi hcur).congr (by simp [hR, hsame]) Iff.rfl

theorem Words.releaseDisp (h : Words b cur R inUse) (hp : cur ≠ some p)
    (hmem : ∀ i, i ∈ inUse' ↔ i ∈ inUse ∧ i ≠ p) :
    Words (ihevcBufMgrRelease b p bufMgrDisp) cur R inUse' := by
  refine ⟨h.release_cur hp, fun i hi hcur => ?_⟩
  rw [bufMgrRelease_max] at hi
  by_cases hsame : i = p
  · subst hsame
    rw [bufMgrRelease_same hi]
    exact (h.word i hi hcur).releaseDisp.congr Iff.rfl (by simp [hmem])
  · rw [bufMgrRelease_ne hsame]
    exact (h.word i hi hcur).congr Iff.rfl (by simp [hmem, hsame])

/-- A buffer that is taken was free. -/
theorem Words.take (h : Words b none R inUse) (hlt : p < b.u4MaxBufCnt)
    (hR : ∀ i, R' i ↔ R i) (hmem : ∀ i, i ≠ p → (i ∈ inUse' ↔ i ∈ inUse)) :
    Words { b with au4Status := set b.au4Status p 1 } (some p) R' inUse' := by
  refine ⟨?_, fun i hi hcur => ?_⟩
  · rintro i ⟨⟩
    exact ⟨hlt, set_same⟩
  · have hne : i ≠ p := by
      rintro rfl
      exact hcur rfl
    change Word (set b.au4Status p 1 i) _ _
    rw [set_ne hne]
    exact (h.word i hi nofun).congr (hR i) (hmem i hne)

/-- At the end of a picture its buffer is needed for reference and for display. -/
theorem Words.mark (h : Words b (some p) R inUse) (hmax : b'.u4MaxBufCnt = b.u4MaxBufCnt)
    (hp : b'.au4Status p = 7) (hother : ∀ i, i ≠ p → b'.au4Status i = b.au4Status i)
    (hR : ∀ i, R' i ↔ R i ∨ i = p) (hmem : p ∈ inUse) : Words b' none R' inUse := by
  refine ⟨nofun, fun i hi _ => ?_⟩
  rw [hmax] at hi
  by_cases hsame : i = p
  · subst hsame
    rw [hp]
    exact .forBoth ((hR i).mpr (.inr rfl)) hmem
  · rw [hother i hsame]
    refine (h.word i hi ?_).congr (by simp [hR, hsame]) Iff.rfl
    rintro ⟨⟩
    exact hsame rfl

end

/-- The buffers that are needed for display. -/
def PoolState.needed (s : PoolState) (waiting : List Nat) : List Nat :=
  waiting ++ (s.psDispBuf.toList ++ s.held)

structure PoolState.Inv (s : PoolState) (waiting : List Nat) : Prop where
  bufs : s.codec.dpbMgr.bufMgr.u4MaxBufCnt ≤ dispMgrMaxCnt
  waits : s.codec.dispMgr.Waits (fun i => (s.codec.shown i).i4DisplayIndex) waiting
  dpb : DpbMgr.Pooled s.codec.dpbMgr
  nodup : (s.needed waiting).Nodup
  bound : ∀ i ∈ s.needed waiting, i < s.codec.dpbMgr.bufMgr.u4MaxBufCnt
  idle : s.curPic = none → s.psDispBuf = none
  cur : ∀ i, s.curPic = some i →
    ¬InDpb s.codec.dpbMgr i ∧ i ∈ waiting ++ s.psDispBuf.toList
  words : Words s.codec.dpbMgr.bufMgr s.curPic (InDpb s.codec.dpbMgr) (s.needed waiting)
  copied : s.codec.i4ShareDispBuf = false → s.held = []

theorem PoolState.Start.inv {s : PoolState} (h : s.Start) : s.Inv [] := by
  have hempty : ∀ i, ¬InDpb s.codec.dpbMgr i := by
    rintro i ⟨node, _, hnode⟩
    rw [h.dpb node] at hnode
    contradiction
  have hneeded : s.needed [] = s.held := by simp [PoolState.needed, h.psDispBuf]
  constructor
  · exact h.bufs
  · exact h.disp ▸ ihevcDispMgrInit_waits
  · refine ⟨fun node p hnode => ?_, fun i j p hi => ?_⟩
    · rw [h.dpb node] at hnode
      contradiction
    · rw [h.dpb i] at hi
      contradiction
  · exact hneeded ▸ h.nodup
  · exact hneeded ▸ h.held
  · exact fun _ => h.psDispBuf
  · intro i hi
    rw [h.curPic] at hi
    contradiction
  · rw [hneeded, h.curPic]
    refine ⟨nofun, fun i hi _ => ?_⟩
    rw [h.status i hi]
    by_cases hheld : i ∈ s.held
    · rw [if_pos hheld]
      exact .givenOut (hempty i) hheld
    · rw [if_neg hheld]
      exact .free (hempty i) hheld
  · exact h.shared

/-- What a step may change: the DPB takes in the picture that was decoded, a picture that begins is
needed for display, and a picture ends at the end of its call. -/
structure PoolState.Moved (s s' : PoolState) (e : PoolEvent) (waiting waiting' : List Nat) :
    Prop where
  inv : s'.Inv waiting'
  ref : ∀ i, InDpb s'.codec.dpbMgr i → InDpb s.codec.dpbMgr i ∨ s.curPic = some i
  needed : ∀ i ∈ s'.needed waiting', i ∈ s.needed waiting ∨ s'.curPic = some i
  cur : ∀ i, s.curPic = some i → s'.curPic = some i ∨ e = .endPic
  max : s'.codec.dpbMgr.bufMgr.u4MaxBufCnt = s.codec.dpbMgr.bufMgr.u4MaxBufCnt
  added : s'.codec.added = s.codec.added

theorem PoolState.Inv.stay {s : PoolState} (h : s.Inv waiting) (e : PoolEvent) :
    s.Moved s e waiting waiting :=
  ⟨h, fun _ => .inl, fun _ => .inl, fun _ => .inl, rfl, rfl⟩

theorem PoolState.Inv.delRef {s : PoolState} {m : DpbMgr} (h : s.Inv waiting)
    (hdel : ihevcDpbMgrDelRef s.codec.dpbMgr poc = some m) :
    s.Moved { s with codec := { s.codec with dpbMgr := m } } (.delRef poc) waiting waiting := by
  rcases delRef_frame hdel with rfl | ⟨node, p, hout⟩
  · exact h.stay _
  · obtain ⟨hpooled, hin, hbuf⟩ := h.dpb.takenOut hout
    have hmax : m.bufMgr.u4MaxBufCnt = s.codec.dpbMgr.bufMgr.u4MaxBufCnt := by
      rw [hbuf, bufMgrRelease_max]
    have hcur : s.curPic ≠ some p := by
      intro hcur
      obtain ⟨hnode, _, _⟩ := h.dpb.entry node p hout.entry
      exact (h.cur p hcur).1 ⟨node, hnode, hout.entry⟩
    refine ⟨?_, fun i hi => .inl ((hin i).mp hi).1, fun _ => .inl, fun _ => .inl, hmax, rfl⟩
    constructor
    · exact hmax.trans_le h.bufs
    · refine h.waits.congr fun i _ => ?_
      simp only [PicCodec.shown, hout.pics]
    · exact hpooled
    · exact h.nodup
    · exact fun i hi => hmax.symm ▸ h.bound i hi
    · exact h.idle
    · exact fun i hi => ⟨fun hm => (h.cur i hi).1 ((hin i).mp hm).1, (h.cur i hi).2⟩
    · dsimp only
      rw [hbuf]
      exact h.words.releaseRef hcur hin
    · exact h.copied

/-- Nothing but `u1_used_as_ref` of pictures is changed. -/
structure Marked (m m' : DpbMgr) : Prop where
  asDpbInfo : m'.asDpbInfo = m.asDpbInfo
  psDpbHead : m'.psDpbHead = m.psDpbHead
  u1NumRefBufs : m'.u1NumRefBufs = m.u1NumRefBufs
  bufMgr : m'.bufMgr = m.bufMgr
  pics : ∀ p, (m'.pics p).i4AbsPoc = (m.pics p).i4AbsPoc ∧
    (m'.pics p).i4PocLsb = (m.pics p).i4PocLsb ∧ (m'.pics p).u1BufId = (m.pics p).u1BufId

theorem Marked.pic (h : Marked m m') : m'.pic = m.pic := by
  unfold DpbMgr.pic
  rw [h.asDpbInfo]

theorem Marked.setUsed (m : DpbMgr) (p used : Nat) :
    Marked m { m with pics := set m.pics p { m.pics p with u1UsedAsRef := used } } := by
  refine ⟨rfl, rfl, rfl, rfl, fun q => ?_⟩
  by_cases hsame : q = p
  · subst hsame
    simp
  · simp [set_ne hsame]

theorem PoolState.Inv.marked {s : PoolState} {m : DpbMgr} (h : s.Inv waiting)
    (hm : Marked s.codec.dpbMgr m) :
    PoolState.Inv { s with codec := { s.codec with dpbMgr := m } } waiting := by
  have hin : InDpb m = InDpb s.codec.dpbMgr := by
    funext p
    simp only [InDpb, hm.pic]
  constructor
  · dsimp only
    rw [hm.bufMgr]
    exact h.bufs
  · refine h.waits.congr fun i _ => ?_
    simp only [PicCodec.shown, (hm.pics i).1]
  · refine ⟨fun node p hnode => ?_, fun i j p hi hj => ?_⟩
    · dsimp only at hnode ⊢
      rw [hm.pic] at hnode
      rw [hm.bufMgr, (hm.pics p).2.2]
      exact h.dpb.entry node p hnode
    · dsimp only at hi hj
      rw [hm.pic] at hi hj
      exact h.dpb.once i j p hi hj
  · exact h.nodup
  · dsimp only
    rw [hm.bufMgr]
    exact h.bound
  · exact h.idle
  · dsimp only
    rw [hin]
    exact h.cur
  · dsimp only
    rw [hm.bufMgr, hin]
    exact h.words
  · exact h.copied

theorem PoolState.Inv.markRef {s s' : PoolState} (h : s.Inv waiting)
    (hstep : s.step (.markRef p used) = some s') :
    s.Moved s' (.markRef p used) waiting waiting := by
  obtain rfl := Option.some.inj hstep
  exact ⟨h.marked (.setUsed _ p used), fun _ => .inl, fun _ => .inl, fun _ => .inl, rfl, rfl⟩

/-- A picture that begins gets a buffer that nothing needs. -/
theorem PoolState.Inv.free {s : PoolState} (h : s.Inv waiting)
    (hlt : i < s.codec.dpbMgr.bufMgr.u4MaxBufCnt)
    (hzero : s.codec.dpbMgr.bufMgr.au4Status i = 0) :
    s.curPic ≠ some i ∧ ¬InDpb s.codec.dpbMgr i ∧ i ∉ s.needed waiting := by
  have hcur : s.curPic ≠ some i := by
    intro hcur
    have hone := (h.words.taken i hcur).2
    rw [hzero] at hone
    contradiction
  exact ⟨hcur, (h.words.word i hlt hcur).zero_iff.mp hzero⟩

theorem takePic_dpb {c c' : PicCodec} (h : c.takePic pic = some (cur, c')) :
    c'.dpbMgr.pic = c.dpbMgr.pic ∧
      (∀ i, (c'.dpbMgr.pics i).u1BufId = (c.dpbMgr.pics i).u1BufId) ∧ c'.added = c.added := by
  obtain ⟨⟨j, b⟩, _, h⟩ := Option.bind_eq_some_iff.mp h
  obtain ⟨rfl, rfl⟩ := Prod.mk.inj (Option.some.inj h)
  refine ⟨rfl, fun i => ?_, rfl⟩
  by_cases hsame : i = j
  · subst hsame
    simp
  · simp [set_ne hsame]

/-- From the buffers that wait, `bump` takes the one to display. -/
theorem bump_needed {c c' : PicCodec} (hwaits : c.dispMgr.Waits pocs (cur :: waiting))
    (hbump : c.bump spsMaxNumReorderPics = (psDispBuf, c')) :
    ∃ waiting', c'.dispMgr.Waits pocs waiting' ∧
      (waiting' ++ psDispBuf.toList).Perm (cur :: waiting) ∧ c'.dpbMgr = c.dpbMgr ∧
      c'.shown = c.shown ∧ c'.i4ShareDispBuf = c.i4ShareDispBuf ∧ c'.added = c.added := by
  rcases bump_cases spsMaxNumReorderPics hwaits with
    ⟨hnone, _⟩ | ⟨bufId, hmem, dispMgr, hsome, _, hrest, _⟩
  · obtain ⟨rfl, rfl⟩ := Prod.mk.inj (hbump.symm.trans hnone)
    exact ⟨_, hwaits, by simp, rfl, rfl, rfl, rfl⟩
  · obtain ⟨rfl, rfl⟩ := Prod.mk.inj (hbump.symm.trans hsome)
    refine ⟨_, hrest, ?_, rfl, rfl, rfl, rfl⟩
    exact List.perm_append_comm.trans (List.perm_cons_erase hmem).symm

theorem PoolState.Inv.picInit {s s' : PoolState} (h : s.Inv waiting)
    (hallows : s.Allows (.picInit pic)) (hstep : s.step (.picInit pic) = some s') :
    ∃ waiting', s.Moved s' (.picInit pic) waiting waiting' := by
  obtain ⟨c, curPic, psDispBuf, held⟩ := s
  cases curPic with
  | some _ => contradiction
  | none =>
    obtain rfl : psDispBuf = none := h.idle rfl
    unfold PoolState.step at hstep
    dsimp only at hstep
    split at hstep
    case h_1 =>
      obtain rfl := Option.some.inj hstep
      exact ⟨waiting, h.stay _⟩
    case h_2 cur c₁ htake =>
      rcases hbump : c₁.bump pic.spsMaxNumReorderPics with ⟨psDispBuf, c₂⟩
      rw [hbump] at hstep
      obtain rfl := Option.some.inj hstep
      obtain ⟨hlt, hzero, hbuf, hdisp, hshown, _, _, _, hshare⟩ := takePic_some htake
      obtain ⟨_, hnotdpb, hnew⟩ := h.free hlt hzero
      obtain ⟨hpic, hbufId, hadded⟩ := takePic_dpb htake
      have hnotw : cur ∉ waiting := fun hmem => hnew (List.mem_append_left _ hmem)
      have hwaits := takePic_waits h.waits htake (hlt.trans_le h.bufs) hnotw hallows
      obtain ⟨waiting', hwaits', hperm, hdpb, hshown₂, hshare₂, hadded₂⟩ :=
        bump_needed hwaits hbump
      have hneeded : (waiting' ++ (psDispBuf.toList ++ held)).Perm (cur :: (waiting ++ held)) := by
        rw [← List.append_assoc]
        exact hperm.append_right held
      have hbuf₂ := (congrArg DpbMgr.bufMgr hdpb).trans hbuf
      have hmax : c₂.dpbMgr.bufMgr.u4MaxBufCnt = c.dpbMgr.bufMgr.u4MaxBufCnt := by
        rw [hbuf₂]
      have hin : ∀ i, InDpb c₂.dpbMgr i ↔ InDpb c.dpbMgr i := by
        intro i
        simp only [InDpb, hdpb, hpic]
      refine ⟨waiting', ?_, fun i hi => .inl ((hin i).mp hi), fun i hi => ?_, nofun, hmax,
        hadded₂.trans hadded⟩
      · constructor
        · exact hmax.trans_le h.bufs
        · dsimp only
          rw [hshown₂]
          exact hwaits'
        · refine ⟨fun node p hnode => ?_, fun i j p hi hj => ?_⟩
          · dsimp only at hnode ⊢
            rw [hdpb, hpic] at hnode
            rw [hmax, hdpb, hbufId]
            exact h.dpb.entry node p hnode
          · dsimp only at hi hj
            rw [hdpb, hpic] at hi hj
            exact h.dpb.once i j p hi hj
        · exact hneeded.nodup_iff.mpr (List.nodup_cons.mpr ⟨hnew, h.nodup⟩)
        · intro i hi
          dsimp only
          rw [hmax]
          rcases List.mem_cons.mp (hneeded.mem_iff.mp hi) with rfl | hi
          · exact hlt
          · exact h.bound i hi
        · exact nofun
        · rintro i ⟨⟩
          refine ⟨fun hm => hnotdpb ((hin cur).mp hm), ?_⟩
          exact hperm.mem_iff.mpr List.mem_cons_self
        · dsimp only
          rw [hbuf₂]
          refine h.words.take hlt hin fun i hi => ?_
          exact (hneeded.mem_iff (a := i)).trans (by simp [PoolState.needed, hi])
        · intro hno
          exact h.copied ((hshare₂.trans hshare).symm.trans hno)
      · rcases List.mem_cons.mp (hneeded.mem_iff.mp hi) with rfl | hi
        · exact .inr rfl
        · exact .inl hi

/-- The end of a picture: its buffer is marked, and a displayed one that is copied is released. -/
theorem finish_dpb (c : PicCodec) (cur : Nat) (psDispBuf : Option Nat) :
    (c.finish cur psDispBuf).dpbMgr.pic = (c.markPic cur).dpbMgr.pic ∧
      (c.finish cur psDispBuf).dpbMgr.pics = (c.markPic cur).dpbMgr.pics ∧
      ((c.finish cur psDispBuf).dpbMgr.bufMgr =
        match psDispBuf with
        | some bufId =>
          if c.i4ShareDispBuf then (c.markPic cur).dpbMgr.bufMgr
          else ihevcBufMgrRelease (c.markPic cur).dpbMgr.bufMgr bufId bufMgrDisp
        | none => (c.markPic cur).dpbMgr.bufMgr) ∧
      (c.finish cur psDispBuf).added = c.added := by
  unfold PicCodec.finish
  cases psDispBuf with
  | none => exact ⟨rfl, rfl, rfl, rfl⟩
  | some bufId =>
    by_cases hshare : c.i4ShareDispBuf = true
    · have hshare' : (c.markPic cur).i4ShareDispBuf = true := hshare
      simp only [if_pos hshare, if_pos hshare']
      exact ⟨trivial, trivial, trivial, rfl⟩
    · have hshare' : ¬ (c.markPic cur).i4ShareDispBuf = true := hshare
      simp only [if_neg hshare, if_neg hshare']
      exact ⟨rfl, rfl, rfl, rfl⟩

theorem markPic_pooled {c : PicCodec} (h : DpbMgr.Pooled c.dpbMgr)
    (hbufs : c.dpbMgr.bufMgr.u4MaxBufCnt ≤ dispMgrMaxCnt)
    (hlt : cur < c.dpbMgr.bufMgr.u4MaxBufCnt) (hnew : ¬InDpb c.dpbMgr cur) :
    DpbMgr.Pooled (c.markPic cur).dpbMgr ∧
      ∀ i, InDpb (c.markPic cur).dpbMgr i ↔ InDpb c.dpbMgr i ∨ i = cur := by
  have hmax : (ihevcBufMgrSetStatus (ihevcBufMgrSetStatus c.dpbMgr.bufMgr cur bufMgrRef) cur
      bufMgrDisp).u4MaxBufCnt = c.dpbMgr.bufMgr.u4MaxBufCnt := by
    rw [setStatus_max, setStatus_max]
  exact (h.setBufMgr hmax).insertRef (hmax.trans_le hbufs) (hmax.symm ▸ hlt) hnew

/-- A buffer that is dropped from the needed ones. -/
theorem mem_dropped {waiting held : List Nat} (hnodup : (waiting ++ bufId :: held).Nodup) (i : Nat) :
    i ∈ waiting ++ held ↔ i ∈ waiting ++ bufId :: held ∧ i ≠ bufId := by
  have hperm : (waiting ++ bufId :: held).Perm (bufId :: (waiting ++ held)) := List.perm_middle
  obtain ⟨hnot, _⟩ := List.nodup_cons.mp (hperm.nodup_iff.mp hnodup)
  rw [hperm.mem_iff, List.mem_cons]
  refine ⟨fun hi => ⟨.inr hi, ?_⟩, fun hi => hi.1.resolve_left hi.2⟩
  rintro rfl
  exact hnot hi

theorem finish_words {c : PicCodec} {waiting held : List Nat} {psDispBuf : Option Nat}
    (hwords : Words c.dpbMgr.bufMgr (some cur) (InDpb c.dpbMgr)
      (waiting ++ (psDispBuf.toList ++ held)))
    (hpooled : DpbMgr.Pooled c.dpbMgr) (hbufs : c.dpbMgr.bufMgr.u4MaxBufCnt ≤ dispMgrMaxCnt)
    (hnew : ¬InDpb c.dpbMgr cur) (hmem : cur ∈ waiting ++ psDispBuf.toList)
    (hnodup : (waiting ++ (psDispBuf.toList ++ held)).Nodup) :
    DpbMgr.Pooled (c.finish cur psDispBuf).dpbMgr ∧
      (∀ i, InDpb (c.finish cur psDispBuf).dpbMgr i ↔ InDpb c.dpbMgr i ∨ i = cur) ∧
      (c.finish cur psDispBuf).dpbMgr.bufMgr.u4MaxBufCnt = c.dpbMgr.bufMgr.u4MaxBufCnt ∧
      (c.finish cur psDispBuf).shown = c.shown ∧
      Words (c.finish cur psDispBuf).dpbMgr.bufMgr none (InDpb (c.finish cur psDispBuf).dpbMgr)
        (waiting ++ (if c.i4ShareDispBuf then psDispBuf.toList ++ held else held)) := by
  obtain ⟨hlt, hone⟩ := hwords.taken cur rfl
  obtain ⟨hmax, hcur, hother, hshown⟩ := markPic_frame hlt hone
  obtain ⟨hmarked, hin⟩ := markPic_pooled hpooled hbufs hlt hnew
  obtain ⟨hpic, hpics, hbuf, _⟩ := finish_dpb c cur psDispBuf
  obtain ⟨_, _, _, _, _, hframe⟩ := finish_frame c cur psDispBuf
  have hin' : ∀ i, InDpb (c.finish cur psDispBuf).dpbMgr i ↔ InDpb c.dpbMgr i ∨ i = cur := by
    intro i
    rw [← hin i]
    simp only [InDpb, hpic]
  have hmem : cur ∈ waiting ++ (psDispBuf.toList ++ held) := by
    rw [← List.append_assoc]
    exact List.mem_append_left _ hmem
  have hwords := hwords.mark hmax hcur hother hin' hmem
  have hmax' : (c.finish cur psDispBuf).dpbMgr.bufMgr.u4MaxBufCnt =
      c.dpbMgr.bufMgr.u4MaxBufCnt := by
    rw [hbuf, ← hmax]
    cases psDispBuf with
    | none => rfl
    | some bufId =>
      dsimp only
      split
      · rfl
      · exact bufMgrRelease_max ..
  refine ⟨⟨fun node p hnode => ?_, fun i j p hi hj => ?_⟩, hin', hmax', hframe.trans hshown, ?_⟩
  · rw [hpic] at hnode
    rw [hmax', ← hmax, hpics]
    exact hmarked.entry node p hnode
  · rw [hpic] at hi hj
    exact hmarked.once i j p hi hj
  · rw [hbuf]
    cases psDispBuf with
    | none => simpa using hwords
    | some bufId =>
      dsimp only
      by_cases hshare : c.i4ShareDispBuf = true
      · rw [if_pos hshare, if_pos hshare]
        exact hwords
      · rw [if_neg hshare, if_neg hshare]
        exact hwords.releaseDisp nofun (mem_dropped hnodup)

theorem PoolState.Inv.endPic {s s' : PoolState} (h : s.Inv waiting)
    (hstep : s.step .endPic = some s') : s.Moved s' .endPic waiting waiting := by
  obtain ⟨c, curPic, psDispBuf, held⟩ := s
  cases curPic with
  | none => contradiction
  | some cur =>
    obtain rfl := Option.some.inj hstep
    obtain ⟨hnew, hmem⟩ := h.cur cur rfl
    obtain ⟨hpooled, hin, hmax, hshown, hwords⟩ :=
      finish_words h.words h.dpb h.bufs hnew hmem h.nodup
    obtain ⟨hdisp, _, _, _, hshare, _⟩ := finish_frame c cur psDispBuf
    have hsub : (waiting ++ (if c.i4ShareDispBuf then psDispBuf.toList ++ held else held)).Sublist
        (waiting ++ (psDispBuf.toList ++ held)) := by
      split
      · exact .refl _
      · exact (List.sublist_append_right _ _).append_left waiting
    refine ⟨?_, fun i hi => ((hin i).mp hi).imp id fun hi => ?_, fun i hi => .inl (hsub.subset hi),
      fun _ _ => .inr rfl, hmax, (finish_dpb c cur psDispBuf).2.2.2⟩
    · constructor
      · exact hmax.trans_le h.bufs
      · dsimp only
        rw [hdisp, hshown]
        exact h.waits
      · exact hpooled
      · exact hsub.nodup h.nodup
      · exact fun i hi => hmax.symm ▸ h.bound i (hsub.subset hi)
      · exact fun _ => rfl
      · exact nofun
      · exact hwords
      · intro hno
        have hno : c.i4ShareDispBuf = false := hshare.symm.trans hno
        dsimp only
        rw [if_neg (Bool.eq_false_iff.mp hno)]
        exact h.copied hno
    · rw [hi]

theorem flush_released {c : PicCodec} (hwaits : c.dispMgr.Waits pocs waiting) :
    (c.flush = (none, c) ∧ waiting = []) ∨
      ∃ bufId ∈ waiting, ∃ dispMgr, dispMgr.Waits pocs (waiting.erase bufId) ∧
        c.flush = (some bufId,
          if c.i4ShareDispBuf = false ∨ c.yuv420p = true then
            PicCodec.releaseDisp { c with dispMgr } bufId
          else { c with dispMgr }) := by
  unfold PicCodec.flush
  rcases hwaits.get with ⟨hnone, hempty⟩ | ⟨bufId, hmem, hgot, _, hrest⟩
  · rw [hnone]
    exact .inl ⟨rfl, hempty⟩
  · refine .inr ⟨bufId, hmem, (ihevcDispMgrGet c.dispMgr).2, hrest, ?_⟩
    generalize ihevcDispMgrGet c.dispMgr = got at hgot
    obtain ⟨_, dispMgr⟩ := got
    subst hgot
    rfl

theorem PoolState.Inv.flush {s s' : PoolState} (h : s.Inv waiting)
    (hallows : s.Allows (.flush outBufFits)) (hstep : s.step (.flush outBufFits) = some s') :
    ∃ waiting', s.Moved s' (.flush outBufFits) waiting waiting' := by
  obtain rfl : outBufFits = true := hallows
  obtain ⟨c, curPic, psDispBuf, held⟩ := s
  cases curPic with
  | some _ => contradiction
  | none =>
    obtain rfl : psDispBuf = none := h.idle rfl
    unfold PoolState.step at hstep
    dsimp only at hstep
    rw [if_pos (.inl rfl)] at hstep
    rcases flush_released h.waits with ⟨hflush, rfl⟩ | ⟨bufId, hmem, dispMgr, hrest, hflush⟩
    · rw [hflush] at hstep
      obtain rfl : _ = s' := Option.some.inj hstep
      refine ⟨[], ?_⟩
      simp only [Option.toList_none, List.nil_append, ite_self]
      exact h.stay _
    · rw [hflush] at hstep
      obtain rfl := Option.some.inj hstep
      have hperm : (waiting.erase bufId ++ bufId :: held).Perm (waiting ++ held) :=
        handOver_perm held hmem
      have hnodup : (waiting.erase bufId ++ bufId :: held).Nodup := hperm.nodup_iff.mpr h.nodup
      refine ⟨waiting.erase bufId, ?_⟩
      by_cases hheld : c.i4ShareDispBuf = true ∧ c.yuv420p = false
      · have hkeep : ¬(c.i4ShareDispBuf = false ∨ c.yuv420p = true) := by
          simp [hheld.1, hheld.2]
        dsimp only
        rw [if_neg hkeep, if_pos hheld]
        refine ⟨?_, fun _ => .inl, fun i hi => .inl (hperm.subset hi), nofun, rfl, rfl⟩
        constructor
        · exact h.bufs
        · exact hrest
        · exact h.dpb
        · exact hnodup
        · exact fun i hi => h.bound i (hperm.subset hi)
        · exact fun _ => rfl
        · exact nofun
        · exact h.words.congr fun i => hperm.mem_iff
        · exact fun hno => absurd (hno.symm.trans hheld.1) Bool.false_ne_true
      · have hrelease : c.i4ShareDispBuf = false ∨ c.yuv420p = true := by
          cases hshare : c.i4ShareDispBuf with
          | false => exact .inl rfl
          | true => exact .inr (by simpa [hshare] using hheld)
        dsimp only
        rw [if_pos hrelease, if_neg hheld]
        have hmem' := mem_dropped hnodup
        refine ⟨?_, fun _ => .inl, fun i hi => .inl (hperm.subset ((hmem' i).mp hi).1), nofun,
          bufMgrRelease_max .., rfl⟩
        constructor
        · exact (bufMgrRelease_max ..).trans_le h.bufs
        · exact hrest
        · exact h.dpb.setBufMgr (bufMgrRelease_max ..)
        · exact (List.nodup_cons.mp (List.perm_middle.nodup_iff.mp hnodup)).2
        · intro i hi
          have hlt := h.bound i (hperm.subset ((hmem' i).mp hi).1)
          exact hlt.trans_eq (bufMgrRelease_max ..).symm
        · exact fun _ => rfl
        · exact nofun
        · refine h.words.releaseDisp nofun fun i => ?_
          exact (hmem' i).trans (and_congr_left' hperm.mem_iff)
        · exact h.copied

theorem PoolState.Inv.setFlushMode {s s' : PoolState} (h : s.Inv waiting)
    (hstep : s.step .setFlushMode = some s') : s.Moved s' .setFlushMode waiting waiting := by
  obtain ⟨c, curPic, psDispBuf, held⟩ := s
  cases curPic with
  | some _ => contradiction
  | none =>
    obtain rfl := Option.some.inj hstep
    exact ⟨⟨h.bufs, h.waits, h.dpb, h.nodup, h.bound, h.idle, h.cur, h.words, h.copied⟩,
      fun _ => .inl, fun _ => .inl, nofun, rfl, rfl⟩

theorem PoolState.Inv.relDisplayFrame {s s' : PoolState} (h : s.Inv waiting)
    (hallows : s.Allows (.relDisplayFrame bufId))
    (hstep : s.step (.relDisplayFrame bufId) = some s') :
    s.Moved s' (.relDisplayFrame bufId) waiting waiting := by
  unfold PoolState.step at hstep
  dsimp only at hstep
  by_cases hshare : s.codec.i4ShareDispBuf = true
  · rw [if_pos hshare] at hstep
    obtain rfl := Option.some.inj hstep
    have hheld : bufId ∈ s.held := hallows hshare
    have hsub : (waiting ++ (s.psDispBuf.toList ++ s.held.erase bufId)).Sublist (s.needed waiting) :=
      (List.erase_sublist.append_left _).append_left _
    have hperm : (s.needed waiting).Perm
        (waiting ++ s.psDispBuf.toList ++ bufId :: s.held.erase bufId) := by
      rw [PoolState.needed, ← List.append_assoc]
      exact (List.perm_cons_erase hheld).append_left _
    have hmem : ∀ i, i ∈ waiting ++ (s.psDispBuf.toList ++ s.held.erase bufId) ↔
        i ∈ s.needed waiting ∧ i ≠ bufId := by
      intro i
      rw [← List.append_assoc, hperm.mem_iff]
      exact mem_dropped (hperm.nodup_iff.mp h.nodup) i
    have hcur : s.curPic ≠ some bufId := by
      intro hcur
      have hnot := List.nodup_append.mp (hperm.nodup_iff.mp h.nodup)
      exact hnot.2.2 bufId (h.cur bufId hcur).2 bufId List.mem_cons_self rfl
    refine ⟨?_, fun _ => .inl, fun i hi => .inl (hsub.subset hi), fun _ => .inl,
      bufMgrRelease_max .., rfl⟩
    constructor
    · exact (bufMgrRelease_max ..).trans_le h.bufs
    · exact h.waits
    · exact h.dpb.setBufMgr (bufMgrRelease_max ..)
    · exact hsub.nodup h.nodup
    · intro i hi
      exact (h.bound i (hsub.subset hi)).trans_eq (bufMgrRelease_max ..).symm
    · exact h.idle
    · exact h.cur
    · exact h.words.releaseDisp hcur hmem
    · intro hno
      exact absurd (hno.symm.trans hshare) Bool.false_ne_true
  · rw [if_neg hshare] at hstep
    obtain rfl := Option.some.inj hstep
    exact h.stay _

theorem PoolState.Inv.step {s s' : PoolState} (h : s.Inv waiting) (e : PoolEvent)
    (hallows : s.Allows e) (hstep : s.step e = some s') :
    ∃ waiting', s.Moved s' e waiting waiting' := by
  cases e with
  | delRef poc =>
    obtain ⟨m, hdel, rfl⟩ := Option.map_eq_some_iff.mp hstep
    exact ⟨waiting, h.delRef hdel⟩
  | markRef => exact ⟨waiting, h.markRef hstep⟩
  | picInit => exact h.picInit hallows hstep
  | endPic => exact ⟨waiting, h.endPic hstep⟩
  | flush => exact h.flush hallows hstep
  | setFlushMode => exact ⟨waiting, h.setFlushMode hstep⟩
  | relDisplayFrame => exact ⟨waiting, h.relDisplayFrame hallows hstep⟩

theorem PoolRun.inv {start s : PoolState} (h : PoolRun start s) (hstart : start.Start) :
    s.pool = start.pool ∧ ∃ waiting, s.Inv waiting := by
  induction h with
  | start => exact ⟨rfl, [], hstart.inv⟩
  | step e _ hallows hstep ih =>
    obtain ⟨hpool, waiting, hinv⟩ := ih
    obtain ⟨waiting', hmoved⟩ := hinv.step e hallows hstep
    refine ⟨Eq.trans ?_ hpool, waiting', hmoved.inv⟩
    rw [PoolState.pool, PoolState.pool, hmoved.max, hmoved.added]

/-- A buffer is free exactly when it is not in use. -/
theorem PoolState.Inv.free_iff {s : PoolState} (h : s.Inv waiting)
    (hlt : i < s.codec.dpbMgr.bufMgr.u4MaxBufCnt) :
    s.codec.dpbMgr.bufMgr.au4Status i = 0 ↔ ¬s.InUse i := by
  have hwaits : WaitsForDisp s.codec.dispMgr i ↔ i ∈ waiting :=
    (h.waits.mem i (hlt.trans_le h.bufs)).symm
  have hneeded : i ∈ s.needed waiting ↔
      i ∈ waiting ∨ s.psDispBuf = some i ∨ i ∈ s.held := by
    simp [PoolState.needed]
  unfold PoolState.InUse
  by_cases hcur : s.curPic = some i
  · simp [hcur, (h.words.taken i hcur).2]
  · rw [(h.words.word i hlt hcur).zero_iff, hneeded, hwaits]
    simp [hcur]

/-- The bits of a status that a step sets are those of the picture that ends. -/
theorem PoolState.Moved.sets {s s' : PoolState} (hmoved : s.Moved s' e waiting waiting')
    (h : s.Inv waiting) (hlt : i < s.codec.dpbMgr.bufMgr.u4MaxBufCnt)
    (hmask : mask = bufMgrRef ∨ mask = bufMgrDisp)
    (hclear : s.codec.dpbMgr.bufMgr.au4Status i &&& mask = 0)
    (hset : s'.codec.dpbMgr.bufMgr.au4Status i &&& mask ≠ 0) :
    e = .endPic ∧ s.curPic = some i := by
  have hcur' : s'.curPic ≠ some i := by
    intro hcur'
    rw [(hmoved.inv.words.taken i hcur').2] at hset
    rcases hmask with rfl | rfl <;> exact hset rfl
  have hword' := hmoved.inv.words.word i (hmoved.max.symm ▸ hlt) hcur'
  by_cases hcur : s.curPic = some i
  · exact ⟨(hmoved.cur i hcur).resolve_left hcur', hcur⟩
  · exfalso
    have hword := h.words.word i hlt hcur
    rcases hmask with rfl | rfl
    · have href := (hmoved.ref i (hword'.ref_iff.mp hset)).resolve_right hcur
      exact hword.ref_iff.mpr href hclear
    · have hneeded := (hmoved.needed i (hword'.disp_iff.mp hset)).resolve_right hcur'
      exact hword.disp_iff.mpr hneeded hclear

/-- In every run the free buffers of the pool are those that are not in use, a buffer that is taken
was not, and a buffer is marked as needed at the end of the call that decodes its picture. -/
theorem pool_kept {start s : PoolState} (hstart : start.Start) (hrun : PoolRun start s) :
    (∀ i < s.codec.dpbMgr.bufMgr.u4MaxBufCnt,
      s.codec.dpbMgr.bufMgr.au4Status i = 0 ↔ ¬s.InUse i) ∧
    s.pool.countP (s.codec.dpbMgr.bufMgr.au4Status · = 0) + s.pool.countP (s.InUse ·) =
      start.pool.length ∧
    (s.codec.i4ShareDispBuf = false → s.held = []) ∧ (s.curPic = none → s.psDispBuf = none) ∧
    (∀ bufId b, ihevcBufMgrGetNextFree s.codec.added s.codec.dpbMgr.bufMgr = some (bufId, b) →
      ¬s.InUse bufId) ∧
    ∀ e s', s.Allows e → s.step e = some s' →
      ∀ i < s.codec.dpbMgr.bufMgr.u4MaxBufCnt, ∀ mask, mask = bufMgrRef ∨ mask = bufMgrDisp →
        s.codec.dpbMgr.bufMgr.au4Status i &&& mask = 0 →
        s'.codec.dpbMgr.bufMgr.au4Status i &&& mask ≠ 0 → e = .endPic ∧ s.curPic = some i := by
  obtain ⟨hpool, waiting, hinv⟩ := hrun.inv hstart
  refine ⟨fun i hi => hinv.free_iff hi, ?_, hinv.copied, hinv.idle, fun bufId b hfree => ?_, ?_⟩
  · have hcount : s.pool.countP (s.codec.dpbMgr.bufMgr.au4Status · = 0) =
        s.pool.countP fun i => ¬s.InUse i := by
      refine List.countP_congr fun i hi => ?_
      have hlt := List.mem_range.mp (List.mem_filter.mp hi).1
      simpa using hinv.free_iff hlt
    rw [hcount, Nat.add_comm, ← hpool, List.length_eq_countP_add_countP (s.InUse ·)]
    simp
  · obtain ⟨hlt, hzero, _⟩ := getNextFree_some hfree
    exact (hinv.free_iff hlt).mp hzero
  · intro e s' hallows hstep i hi mask hmask
    obtain ⟨waiting', hmoved⟩ := hinv.step e hallows hstep
    exact hmoved.sets hinv hi hmask

instance {s : PoolState} : (e : PoolEvent) → Decidable (s.Allows e)
  | .picInit pic => inferInstanceAs (Decidable (pic.i4AbsPicOrderCnt < defaultPoc))
  | .flush outBufFits => inferInstanceAs (Decidable (outBufFits = true))
  | .relDisplayFrame bufId =>
    inferInstanceAs (Decidable (s.codec.i4ShareDispBuf = true → bufId ∈ s.held))
  | .delRef _ | .markRef _ _ | .endPic | .setFlushMode => inferInstanceAs (Decidable True)

def PoolState.steps : List PoolEvent → PoolState → Option PoolState
  | [], s => some s
  | e :: es, s => if s.Allows e then (s.step e).bind (steps es) else none

theorem steps_run {start s s' : PoolState} (hrun : PoolRun start s) (h : s.steps es = some s') :
    PoolRun start s' := by
  induction es generalizing s with
  | nil =>
    obtain rfl := Option.some.inj h
    exact hrun
  | cons e es ih =>
    unfold PoolState.steps at h
    split at h
    case isTrue hallows =>
      obtain ⟨s₁, hstep, h⟩ := Option.bind_eq_some_iff.mp h
      exact ih (.step e hrun hallows hstep) h
    case isFalse => contradiction

/-- Four buffers; in shared mode the application holds them all. -/
def poolStart (i4ShareDispBuf : Bool) : PoolState where
  codec :=
    { displayStart false with
      dpbMgr :=
        { (displayStart false).dpbMgr with
          bufMgr :=
            { u4MaxBufCnt := 4
              au4Status := fun _ => if i4ShareDispBuf then bufMgrDisp else 0 } }
      i4ShareDispBuf }
  curPic := none
  psDispBuf := none
  held := if i4ShareDispBuf then [0, 1, 2, 3] else []

theorem poolStart_start : (poolStart i4ShareDispBuf).Start where
  bufs := by
    change 4 ≤ 64
    decide
  dpb := fun _ => rfl
  disp := rfl
  curPic := rfl
  psDispBuf := rfl
  shared := by
    rintro ⟨⟩
    rfl
  nodup := by cases i4ShareDispBuf <;> decide
  held := by
    change ∀ i ∈ _, i < 4
    cases i4ShareDispBuf <;> decide
  status := by
    change ∀ i < 4, _ = _
    cases i4ShareDispBuf <;> decide

/-- A picture that waits and is referenced, of four buffers. -/
theorem pool_kept_waiting :
    ∃ s, PoolRun (poolStart false) s ∧
      s.codec.dpbMgr.bufMgr.au4Status 0 = 7 ∧
      s.pool.countP (s.codec.dpbMgr.bufMgr.au4Status · = 0) + s.pool.countP (s.InUse ·) = 4 := by
  have hsteps : ((poolStart false).steps [.picInit (reorderedPic 0 0 1), .endPic]).map
      (fun s => s.codec.dpbMgr.bufMgr.au4Status 0) = some 7 := by
    decide +kernel
  obtain ⟨s, hsteps, hstatus⟩ := Option.map_eq_some_iff.mp hsteps
  have hrun := steps_run .start hsteps
  exact ⟨s, hrun, hstatus, (pool_kept poolStart_start hrun).2.1⟩

/-- In shared mode a buffer that was displayed and left the DPB is in no place but with the
application: it is not free. -/
theorem pool_shared :
    ∃ s, PoolRun (poolStart true) s ∧
      s.codec.dpbMgr.bufMgr.au4Status 0 = 5 ∧ ¬InDpb s.codec.dpbMgr 0 ∧
      ¬WaitsForDisp s.codec.dispMgr 0 ∧ s.curPic = none ∧
      s.pool.countP (s.codec.dpbMgr.bufMgr.au4Status · = 0) +
        s.pool.countP (fun i => InDpb s.codec.dpbMgr i ∨ WaitsForDisp s.codec.dispMgr i ∨
          s.curPic = some i) < s.pool.length := by
  have hsteps : ((poolStart true).steps [.relDisplayFrame 0,
      .picInit { reorderedPic 0 0 1 with spsMaxNumReorderPics := 0 }, .endPic, .delRef 0]).map
      (fun s => decide (s.codec.dpbMgr.bufMgr.au4Status 0 = 5 ∧ ¬InDpb s.codec.dpbMgr 0 ∧
        ¬WaitsForDisp s.codec.dispMgr 0 ∧ s.curPic = none ∧
        s.pool.countP (s.codec.dpbMgr.bufMgr.au4Status · = 0) +
          s.pool.countP (fun i => InDpb s.codec.dpbMgr i ∨ WaitsForDisp s.codec.dispMgr i ∨
            s.curPic = some i) < s.pool.length)) = some true := by
    decide +kernel
  obtain ⟨s, hsteps, hall⟩ := Option.map_eq_some_iff.mp hsteps
  exact ⟨s, steps_run .start hsteps, of_decide_eq_true hall⟩

end Libhevc.Decoder
