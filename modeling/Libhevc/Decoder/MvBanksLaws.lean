import Libhevc.Decoder.BufferPoolLaws
import Libhevc.Decoder.MvBanks

/-!
# The bank of a picture is found by its POC

Banks keep their POC when they are released. That a lookup still meets the bank
of a picture first rests on the order in which banks are taken: the first free
one is, so that all banks before it are in use, with other POCs.
-/

namespace Libhevc.Decoder

open Memory

-- ---------------------------------------------------------------------------
-- Lookups
-- ---------------------------------------------------------------------------

section
variable {s : BankState} {absPoc : Int}

/-- The first bank with the POC is the answer. -/
theorem getPocLoop_found (hle : k ≤ i) (hlt : i < k + n) (hmax : i < s.i4MaxDpbSize)
    (hpoc : s.mvPocs i = absPoc) (hfirst : ∀ j < i, s.mvPocs j ≠ absPoc)
    (psMvBuf : Option Nat) : getPocLoop s absPoc (List.range' k n) psMvBuf = some i := by
  induction n generalizing k psMvBuf with
  | zero => omega
  | succ n ih =>
    have hk : k < s.i4MaxDpbSize := Nat.lt_of_le_of_lt hle hmax
    rw [List.range'_succ, getPocLoop, BankState.apvPtr, if_pos hk]
    dsimp only
    rcases Nat.eq_or_lt_of_le hle with rfl | hlt'
    · rw [if_pos hpoc]
    · rw [if_neg (hfirst k hlt')]
      exact ih hlt' (by omega) _

/-- Without the POC the loop ends with what it has read last. -/
theorem getPocLoop_last (hnone : ∀ j < s.i4MaxDpbSize, s.mvPocs j ≠ absPoc) (is : List Nat)
    (psMvBuf : Option Nat) : getPocLoop s absPoc (is ++ [i]) psMvBuf = s.apvPtr i := by
  have hstep (j : Nat) (js : List Nat) (psMvBuf : Option Nat) :
      getPocLoop s absPoc (j :: js) psMvBuf = getPocLoop s absPoc js (s.apvPtr j) := by
    rw [getPocLoop]
    unfold BankState.apvPtr
    split
    case h_1 bank hbank =>
      split at hbank
      case isTrue hj =>
        obtain rfl := Option.some.inj hbank
        rw [if_neg (hnone j hj), if_pos hj]
      case isFalse => contradiction
    case h_2 hbank => rw [hbank]
  induction is generalizing psMvBuf with
  | nil => exact hstep i [] psMvBuf
  | cons j is ih =>
    rw [List.cons_append, hstep]
    exact ih _

theorem mvMgrGetPoc_found (hbanks : s.i4MaxDpbSize < s.mvBufMgr.u4MaxBufCnt)
    (hmax : i < s.i4MaxDpbSize) (hpoc : s.mvPocs i = absPoc)
    (hfirst : ∀ j < i, s.mvPocs j ≠ absPoc) : ihevcdMvMgrGetPoc s absPoc = some i := by
  rw [ihevcdMvMgrGetPoc, List.range_eq_range']
  exact getPocLoop_found (Nat.zero_le i) (by omega) hmax hpoc hfirst none

/-- The last pointer of the manager is `NULL`. -/
theorem mvMgrGetPoc_none (hbanks : s.i4MaxDpbSize < s.mvBufMgr.u4MaxBufCnt)
    (hnone : ∀ j < s.i4MaxDpbSize, s.mvPocs j ≠ absPoc) : ihevcdMvMgrGetPoc s absPoc = none := by
  obtain ⟨n, hn⟩ := Nat.exists_eq_add_one_of_ne_zero (Nat.ne_zero_of_lt hbanks)
  rw [ihevcdMvMgrGetPoc, hn, List.range_succ, getPocLoop_last hnone]
  exact if_neg (by omega)

theorem releaseBank_eq (hmax : i < s.i4MaxDpbSize)
    (hpoc : s.mvPocs i = (s.dpbMgr.pics p).i4AbsPoc) (hfirst : ∀ j < i, s.mvPocs j ≠ s.mvPocs i) :
    s.releaseBank p = ihevcBufMgrRelease s.mvBufMgr i bufMgrRef := by
  have hfind : (List.range s.i4MaxDpbSize).find?
      (fun j => s.mvPocs j = (s.dpbMgr.pics p).i4AbsPoc) = some i := by
    refine List.find?_range_eq_some.mpr ⟨by simpa using hpoc, List.mem_range.mpr hmax, ?_⟩
    intro j hj
    have hne := hfirst j hj
    rw [hpoc] at hne
    simpa using hne
  rw [BankState.releaseBank, hfind]

end

-- ---------------------------------------------------------------------------
-- Status words
-- ---------------------------------------------------------------------------

/-- The first free buffer: those before it are in use. -/
theorem getNextFree_first (h : ihevcBufMgrGetNextFree added b = some (i, b')) :
    added i = true ∧ ∀ j < i, added j = true → b.au4Status j ≠ 0 := by
  unfold ihevcBufMgrGetNextFree at h
  split at h
  · contradiction
  case h_2 k hfind =>
    obtain ⟨rfl, -⟩ := Prod.mk.inj (Option.some.inj h)
    obtain ⟨hk, -, hfirst⟩ := List.find?_range_eq_some.mp hfind
    simp only [decide_eq_true_eq] at hk
    refine ⟨hk.2, fun j hj hadded hzero => ?_⟩
    have hnot := hfirst j hj
    simp [hzero, hadded] at hnot

/-- A release for display leaves the mark of a reference. -/
theorem releaseDisp_ref (h : b.au4Status i &&& bufMgrRef ≠ 0) :
    (ihevcBufMgrRelease b bufId bufMgrDisp).au4Status i &&& bufMgrRef ≠ 0 := by
  by_cases hsame : i = bufId
  · subst hsame
    unfold ihevcBufMgrRelease
    split
    · exact h
    · dsimp only
      rw [set_same]
      have hmask : (b.au4Status i &&& (2 ^ 32 - 1 - bufMgrDisp)) &&& bufMgrRef =
          b.au4Status i &&& bufMgrRef := by
        rw [Nat.and_assoc]
        rfl
      split
      case isTrue hone =>
        rw [hone] at hmask
        rw [← hmask] at h
        exact absurd rfl h
      case isFalse => rwa [hmask]
  · rwa [bufMgrRelease_ne hsame]

theorem setStatus_has (h : bufId < b.u4MaxBufCnt) (hmask : mask &&& bufMgrRef ≠ 0 ∨
    b.au4Status bufId &&& bufMgrRef ≠ 0) (hmask' : mask = bufMgrRef ∨ mask = bufMgrDisp) :
    (ihevcBufMgrSetStatus b bufId mask).au4Status bufId &&& bufMgrRef ≠ 0 := by
  by_cases hclear : b.au4Status bufId &&& mask = 0
  · rw [setStatus_same h hclear, Nat.and_or_distrib_right]
    intro hzero
    obtain ⟨hl, hr⟩ := Nat.or_eq_zero_iff.mp hzero
    exact hmask.elim (fun h => h hr) fun h => h hl
  · have hsame : ihevcBufMgrSetStatus b bufId mask = b := by
      rw [ihevcBufMgrSetStatus, if_neg (Nat.not_le.mpr h), if_pos hclear]
    rw [hsame]
    rcases hmask' with rfl | rfl
    · exact hclear
    · exact hmask.resolve_left fun h => h rfl

-- ---------------------------------------------------------------------------
-- The invariant
-- ---------------------------------------------------------------------------

structure BankState.Inv (s : BankState) : Prop where
  bufs : s.dpbMgr.bufMgr.u4MaxBufCnt ≤ dispMgrMaxCnt
  banks : s.i4MaxDpbSize < s.mvBufMgr.u4MaxBufCnt
  listed : ∃ l, s.dpbMgr.Listed l
  dpb : DpbMgr.Pooled s.dpbMgr
  ref : ∀ p, InDpb s.dpbMgr p → s.dpbMgr.bufMgr.au4Status p &&& bufMgrRef ≠ 0
  bank : ∀ p, InDpb s.dpbMgr p →
    s.filled p < s.i4MaxDpbSize ∧ s.mvBufMgr.au4Status (s.filled p) = 3 ∧
      s.mvPocs (s.filled p) = (s.dpbMgr.pics p).i4AbsPoc
  once : ∀ p q, InDpb s.dpbMgr p → InDpb s.dpbMgr q → s.filled p = s.filled q → p = q
  cur : ∀ p bank, s.cur = some (p, bank) →
    ¬InDpb s.dpbMgr p ∧ p < s.dpbMgr.bufMgr.u4MaxBufCnt ∧ s.filled p = bank ∧
      bank < s.i4MaxDpbSize ∧ s.mvBufMgr.au4Status bank = 1 ∧
      s.mvPocs bank = (s.dpbMgr.pics p).i4AbsPoc
  /-- No bank before one in use has its POC. -/
  first : ∀ bank < s.i4MaxDpbSize, s.mvBufMgr.au4Status bank ≠ 0 →
    ∀ j < bank, s.mvPocs j ≠ s.mvPocs bank

theorem BankState.Start.inv {s : BankState} (h : s.Start) : s.Inv := by
  have hempty : ∀ p, ¬InDpb s.dpbMgr p := by
    rintro p ⟨node, -, hnode⟩
    rw [h.dpb] at hnode
    contradiction
  constructor
  · exact h.bufs
  · exact h.banks
  · refine ⟨[], h.head, List.nodup_nil, h.count, fun i => ?_⟩
    simp [h.dpb]
  · constructor
    · intro node p hnode
      rw [h.dpb] at hnode
      contradiction
    · intro i j p hi
      rw [h.dpb] at hi
      contradiction
  · exact fun p hp => absurd hp (hempty p)
  · exact fun p hp => absurd hp (hempty p)
  · exact fun p q hp => absurd hp (hempty p)
  · intro p bank hcur
    rw [h.cur] at hcur
    contradiction
  · exact fun bank _ hused => absurd (h.status bank) hused

namespace BankState.Inv

variable {s s' : BankState} {bank : Nat} {mvBufMgr bufMgr : BufMgr} {pic : PicHeader}
  {stops : Bool}

/-- A bank in use comes first with its POC, also among those behind it. -/
theorem first_eq (h : s.Inv) (hi : i < s.i4MaxDpbSize) (hj : j < s.i4MaxDpbSize)
    (hused : s.mvBufMgr.au4Status i ≠ 0) (hused' : s.mvBufMgr.au4Status j ≠ 0)
    (hpoc : s.mvPocs i = s.mvPocs j) : i = j := by
  rcases Nat.lt_trichotomy i j with hlt | heq | hgt
  · exact absurd hpoc (h.first j hj hused' i hlt)
  · exact heq
  · exact absurd hpoc.symm (h.first i hi hused j hgt)

theorem bank_used (h : s.Inv) (hp : InDpb s.dpbMgr p) :
    s.mvBufMgr.au4Status (s.filled p) ≠ 0 := by
  rw [(h.bank p hp).2.1]
  decide

/-- The pictures of the DPB have different POCs. -/
theorem poc_inj (h : s.Inv) (hp : InDpb s.dpbMgr p) (hq : InDpb s.dpbMgr q)
    (hpoc : (s.dpbMgr.pics p).i4AbsPoc = (s.dpbMgr.pics q).i4AbsPoc) : p = q := by
  obtain ⟨hlt, -, hpp⟩ := h.bank p hp
  obtain ⟨hlt', -, hpq⟩ := h.bank q hq
  exact h.once p q hp hq (h.first_eq hlt hlt' (h.bank_used hp) (h.bank_used hq)
    (hpp.trans (hpoc.trans hpq.symm)))

theorem getPoc (h : s.Inv) (hp : InDpb s.dpbMgr p) :
    ihevcdMvMgrGetPoc s (s.dpbMgr.pics p).i4AbsPoc = some (s.filled p) := by
  obtain ⟨hlt, -, hpoc⟩ := h.bank p hp
  refine mvMgrGetPoc_found h.banks hlt hpoc fun j hj => ?_
  rw [← hpoc]
  exact h.first _ hlt (h.bank_used hp) j hj

theorem releaseBank (h : s.Inv) (hp : InDpb s.dpbMgr p) :
    s.releaseBank p = ihevcBufMgrRelease s.mvBufMgr (s.filled p) bufMgrRef := by
  obtain ⟨hlt, -, hpoc⟩ := h.bank p hp
  exact releaseBank_eq hlt hpoc (h.first _ hlt (h.bank_used hp))

/-- The deletion takes out the picture whose POC it gets. -/
theorem delRef (h : s.Inv) (hp : InDpb s.dpbMgr p) :
    ∃ m, ihevcDpbMgrDelRef s.dpbMgr (s.dpbMgr.pics p).i4AbsPoc = some m ∧
      (∃ l, m.Listed l) ∧ ∃ node, TakenOut s.dpbMgr m node p := by
  obtain ⟨l, hl⟩ := h.listed
  obtain ⟨node, hnode, hpic⟩ := hp
  rcases hl.delRef_cases (s.dpbMgr.pics p).i4AbsPoc with ⟨hnot, -⟩ | ⟨-, m, l', hdel, hl', hout⟩
  · exact absurd ⟨node, hnode, p, hpic, rfl⟩ hnot
  · obtain ⟨next, u, q, hunlink, hq, hpoc⟩ := hout
    obtain ⟨q', htaken⟩ := unlink_frame hunlink
    obtain rfl := Option.some.inj (hq.symm.trans htaken.entry)
    have hin : InDpb s.dpbMgr q := ⟨u, (h.dpb.entry u q hq).1, hq⟩
    obtain rfl := h.poc_inj hin ⟨node, hnode, hpic⟩ hpoc
    exact ⟨m, hdel, ⟨l', hl'⟩, u, htaken⟩

/-- A released bank was a reference and is free. -/
theorem released (h : s.Inv) (hp : InDpb s.dpbMgr p) :
    (ihevcBufMgrRelease s.mvBufMgr (s.filled p) bufMgrRef).au4Status (s.filled p) = 0 := by
  obtain ⟨hlt, hstatus, -⟩ := h.bank p hp
  have hbanks := h.banks
  rw [bufMgrRelease_same (by omega), hstatus]
  rfl

/-- A picture leaves the DPB, and its bank is released. -/
theorem removeEntry (h : s.Inv) (hp : InDpb s.dpbMgr p) {m : DpbMgr}
    (hlisted : ∃ l, m.Listed l) (hout : TakenOut s.dpbMgr m node p) :
    BankState.Inv { s with dpbMgr := m, mvBufMgr := s.releaseBank p } := by
  obtain ⟨hpooled, hin, hbuf⟩ := h.dpb.takenOut hout
  have hmax : m.bufMgr.u4MaxBufCnt = s.dpbMgr.bufMgr.u4MaxBufCnt := by
    rw [hbuf, bufMgrRelease_max]
  have hfreed := h.released hp
  rw [← h.releaseBank hp] at hfreed
  have hkept (bank : Nat) (hne : bank ≠ s.filled p) :
      (s.releaseBank p).au4Status bank = s.mvBufMgr.au4Status bank := by
    rw [h.releaseBank hp, bufMgrRelease_ne hne]
  constructor
  · exact hmax.trans_le h.bufs
  · change s.i4MaxDpbSize < (s.releaseBank p).u4MaxBufCnt
    rw [h.releaseBank hp, bufMgrRelease_max]
    exact h.banks
  · exact hlisted
  · exact hpooled
  · intro q hq
    obtain ⟨hq, hne⟩ := (hin q).mp hq
    dsimp only
    rw [hbuf, bufMgrRelease_ne hne]
    exact h.ref q hq
  · intro q hq
    obtain ⟨hq, hne⟩ := (hin q).mp hq
    dsimp only
    rw [hkept _ fun heq => hne (h.once q p hq hp heq), hout.pics]
    exact h.bank q hq
  · exact fun q r hq hr => h.once q r ((hin q).mp hq).1 ((hin r).mp hr).1
  · intro q bank hcur
    obtain ⟨hnot, hlt, hfilled, hbank, hone, hpoc⟩ := h.cur q bank hcur
    have hne : bank ≠ s.filled p := by
      rintro rfl
      rw [(h.bank p hp).2.1] at hone
      contradiction
    dsimp only
    rw [hkept bank hne, hmax, hout.pics]
    exact ⟨fun hq => hnot ((hin q).mp hq).1, hlt, hfilled, hbank, hone, hpoc⟩
  · intro bank hbank hused
    dsimp only at hused ⊢
    by_cases heq : bank = s.filled p
    · rw [heq] at hused
      exact absurd hfreed hused
    · rw [hkept bank heq] at hused
      exact h.first bank hbank hused

/-- The DPB differs in marks and statuses only. -/
theorem setDpb (h : s.Inv) {m : DpbMgr} (hinfo : m.asDpbInfo = s.dpbMgr.asDpbInfo)
    (hhead : m.psDpbHead = s.dpbMgr.psDpbHead) (hnum : m.u1NumRefBufs = s.dpbMgr.u1NumRefBufs)
    (hpics : ∀ p, (m.pics p).i4AbsPoc = (s.dpbMgr.pics p).i4AbsPoc ∧
      (m.pics p).u1BufId = (s.dpbMgr.pics p).u1BufId)
    (hmax : m.bufMgr.u4MaxBufCnt = s.dpbMgr.bufMgr.u4MaxBufCnt)
    (href : ∀ p, s.dpbMgr.bufMgr.au4Status p &&& bufMgrRef ≠ 0 →
      m.bufMgr.au4Status p &&& bufMgrRef ≠ 0) :
    BankState.Inv { s with dpbMgr := m } := by
  have hpic : m.pic = s.dpbMgr.pic := by
    unfold DpbMgr.pic
    rw [hinfo]
  have hprev : m.prev = s.dpbMgr.prev := by
    unfold DpbMgr.prev
    rw [hinfo]
  have hin : InDpb m = InDpb s.dpbMgr := by
    funext p
    simp only [InDpb, hpic]
  constructor
  · exact hmax.trans_le h.bufs
  · exact h.banks
  · obtain ⟨l, hl⟩ := h.listed
    refine ⟨l, ?_, hl.nodup, hnum.trans hl.count, fun i => ?_⟩
    · dsimp only
      rw [hprev, hhead]
      exact hl.linked
    · dsimp only
      rw [hpic]
      exact hl.exactly i
  · refine ⟨fun node p hnode => ?_, fun i j p hi hj => ?_⟩
    · dsimp only at hnode ⊢
      rw [hpic] at hnode
      rw [hmax, (hpics p).2]
      exact h.dpb.entry node p hnode
    · dsimp only at hi hj
      rw [hpic] at hi hj
      exact h.dpb.once i j p hi hj
  · dsimp only
    rw [hin]
    exact fun p hp => href p (h.ref p hp)
  · dsimp only
    rw [hin]
    intro p hp
    rw [(hpics p).1]
    exact h.bank p hp
  · dsimp only
    rw [hin]
    exact h.once
  · dsimp only
    rw [hin, hmax]
    intro p bank hcur
    rw [(hpics p).1]
    exact h.cur p bank hcur
  · exact h.first

/-- The bank that is taken is the first free one. -/
theorem takeBank (h : s.Inv) (hcur : s.cur = none) (hfresh : s.Fresh (.picInit pic stops))
    (htaken : ihevcBufMgrGetNextFree (· < s.i4MaxDpbSize) s.mvBufMgr = some (bank, mvBufMgr)) :
    (s.takeBank pic bank mvBufMgr).Inv ∧ bank < s.i4MaxDpbSize ∧
      (s.takeBank pic bank mvBufMgr).mvBufMgr.au4Status bank = 1 := by
  obtain ⟨hlt, hzero, rfl⟩ := getNextFree_some htaken
  obtain ⟨hmax, hfirst⟩ := getNextFree_first htaken
  simp only [decide_eq_true_eq] at hmax hfirst
  have hfilled (p : Nat) (hp : InDpb s.dpbMgr p) : s.filled p ≠ bank := by
    rintro rfl
    exact h.bank_used hp hzero
  refine ⟨?_, hmax, set_same⟩
  constructor
  · exact h.bufs
  · exact h.banks
  · exact h.listed
  · exact h.dpb
  · exact h.ref
  · intro p hp
    obtain ⟨hb, hstatus, hpoc⟩ := h.bank p hp
    exact ⟨hb, (set_ne (hfilled p hp)).trans hstatus, (set_ne (hfilled p hp)).trans hpoc⟩
  · exact h.once
  · intro p b hb
    rw [show (s.takeBank pic bank _).cur = s.cur from rfl, hcur] at hb
    contradiction
  · intro b hb hused j hj
    change set s.mvPocs bank _ j ≠ set s.mvPocs bank _ b
    change set s.mvBufMgr.au4Status bank 1 b ≠ 0 at hused
    by_cases heq : b = bank
    · subst heq
      rw [set_same, set_ne (Nat.ne_of_lt hj)]
      exact hfresh j (hj.trans hmax) (hfirst j hj (hj.trans hmax))
    · rw [set_ne heq] at hused
      rw [set_ne heq]
      by_cases hjb : j = bank
      · subst hjb
        rw [set_same]
        exact (hfresh b hb hused).symm
      · rw [set_ne hjb]
        exact h.first b hb hused j hj

/-- A picture buffer is taken with the bank. -/
theorem takePic (h : s.Inv) (hbank : bank < s.i4MaxDpbSize)
    (hone : s.mvBufMgr.au4Status bank = 1) (hpoc : s.mvPocs bank = pic.i4AbsPicOrderCnt)
    (htaken : ihevcBufMgrGetNextFree s.added s.dpbMgr.bufMgr = some (p, bufMgr)) :
    (s.takePic pic bank p bufMgr stops).Inv := by
  obtain ⟨hlt, hzero, rfl⟩ := getNextFree_some htaken
  have hnot : ¬InDpb s.dpbMgr p := by
    intro hp
    have href := h.ref p hp
    rw [hzero] at href
    exact href rfl
  have hne (q : Nat) (hq : InDpb s.dpbMgr q) : q ≠ p := by
    rintro rfl
    exact hnot hq
  constructor
  · exact h.bufs
  · exact h.banks
  · obtain ⟨l, hl⟩ := h.listed
    exact ⟨l, hl.linked, hl.nodup, hl.count, hl.exactly⟩
  · refine ⟨fun node q hnode => ?_, h.dpb.once⟩
    obtain ⟨hnode', hq, hid⟩ := h.dpb.entry node q hnode
    have hqp := hne q ⟨node, hnode', hnode⟩
    refine ⟨hnode', hq, ?_⟩
    change (set s.dpbMgr.pics p _ q).u1BufId = q
    rw [set_ne hqp]
    exact hid
  · intro q hq
    change set s.dpbMgr.bufMgr.au4Status p 1 q &&& bufMgrRef ≠ 0
    rw [set_ne (hne q hq)]
    exact h.ref q hq
  · intro q hq
    change set s.filled p bank q < _ ∧ s.mvBufMgr.au4Status (set s.filled p bank q) = 3 ∧
      s.mvPocs (set s.filled p bank q) = (set s.dpbMgr.pics p _ q).i4AbsPoc
    rw [set_ne (hne q hq), set_ne (hne q hq)]
    exact h.bank q hq
  · intro q r hq hr heq
    change set s.filled p bank q = set s.filled p bank r at heq
    rw [set_ne (hne q hq), set_ne (hne r hr)] at heq
    exact h.once q r hq hr heq
  · intro q b hcur
    change (if stops then none else some (p, bank)) = some (q, b) at hcur
    split at hcur
    · contradiction
    · obtain ⟨rfl, rfl⟩ := Prod.mk.inj (Option.some.inj hcur)
      refine ⟨hnot, hlt, set_same, hbank, hone, hpoc.trans ?_⟩
      change _ = (set s.dpbMgr.pics p _ p).i4AbsPoc
      rw [set_same]
  · exact h.first

/-- The current picture and its bank become references. -/
theorem finish (h : s.Inv) (hcur : s.cur = some (p, bank)) : (s.finish p bank).Inv := by
  obtain ⟨hnot, hlt, hfilled, hbank, hone, hpoc⟩ := h.cur p bank hcur
  have hbanks := h.banks
  obtain ⟨m, hm⟩ : ∃ m : DpbMgr, m =
      { s.dpbMgr with
        bufMgr :=
          ihevcBufMgrSetStatus (ihevcBufMgrSetStatus s.dpbMgr.bufMgr p bufMgrRef) p bufMgrDisp } :=
    ⟨_, rfl⟩
  have hbufMgr : m.bufMgr = ihevcBufMgrSetStatus
      (ihevcBufMgrSetStatus s.dpbMgr.bufMgr p bufMgrRef) p bufMgrDisp := by rw [hm]
  have hmax : m.bufMgr.u4MaxBufCnt = s.dpbMgr.bufMgr.u4MaxBufCnt := by
    rw [hbufMgr, setStatus_max, setStatus_max]
  have hpics : m.pics = s.dpbMgr.pics := by rw [hm]
  have hin : InDpb m = InDpb s.dpbMgr := by
    rw [hm]
    rfl
  have hpooled : DpbMgr.Pooled m := by
    rw [hm]
    exact h.dpb.setBufMgr (by rw [setStatus_max, setStatus_max])
  obtain ⟨hpooled', hin'⟩ := hpooled.insertRef (hmax.trans_le h.bufs) (hmax.symm ▸ hlt)
    (hin ▸ hnot)
  obtain ⟨hbuf', hposts⟩ := insertRef_frame m p p
  have hfinish : s.finish p bank =
      { s with
        mvBufMgr := ihevcBufMgrSetStatus s.mvBufMgr bank bufMgrRef
        dpbMgr := (ihevcDpbMgrInsertRef m p p).2
        cur := none } := by
    rw [hm]
    rfl
  have hthree : (ihevcBufMgrSetStatus s.mvBufMgr bank bufMgrRef).au4Status bank = 3 := by
    rw [setStatus_same (by omega) (by rw [hone]; rfl), hone]
    rfl
  have hother (q : Nat) (hq : InDpb s.dpbMgr q) : s.filled q ≠ bank := by
    intro heq
    have hstatus := (h.bank q hq).2.1
    rw [heq, hone] at hstatus
    contradiction
  rw [hfinish]
  constructor
  · dsimp only
    rw [hbuf', hmax]
    exact h.bufs
  · dsimp only
    rw [setStatus_max]
    exact h.banks
  · obtain ⟨l, hl⟩ := h.listed
    have hl' : m.Listed l := by
      rw [hm]
      exact ⟨hl.linked, hl.nodup, hl.count, hl.exactly⟩
    exact hl'.insertRef
  · exact hpooled'
  · intro q hq
    dsimp only
    rw [hbuf', hbufMgr]
    rcases (hin' q).mp hq with hold | rfl
    · rw [hin] at hold
      have hne : q ≠ p := by
        rintro rfl
        exact hnot hold
      rw [setStatus_ne hne, setStatus_ne hne]
      exact h.ref q hold
    · have href := setStatus_has hlt (.inl (by decide)) (.inl rfl)
      exact setStatus_has (setStatus_max.symm ▸ hlt) (.inr href) (.inr rfl)
  · intro q hq
    dsimp only
    rw [hposts, hpics]
    rcases (hin' q).mp hq with hold | rfl
    · rw [hin] at hold
      rw [setStatus_ne (hother q hold)]
      exact h.bank q hold
    · rw [hfilled]
      exact ⟨hbank, hthree, hpoc⟩
  · intro q r hq hr heq
    dsimp only at heq
    rw [hin] at hin'
    rcases (hin' q).mp hq with hold | rfl <;> rcases (hin' r).mp hr with hold' | rfl
    · exact h.once q r hold hold' heq
    · exact absurd (heq.trans hfilled) (hother q hold)
    · exact absurd (heq.symm.trans hfilled) (hother r hold')
    · rfl
  · exact fun q b hb => nomatch hb
  · intro b hb hused
    dsimp only at hused ⊢
    by_cases heq : b = bank
    · subst heq
      exact h.first b hb (by rw [hone]; decide)
    · rw [setStatus_ne heq] at hused
      exact h.first b hb hused

/-- What one step preserves, where no picture begins with the POC of a bank in use. -/
theorem step (h : s.Inv) (e : BankEvent) (hfresh : s.Fresh e) (hstep : s.step e = some s') :
    s'.Inv := by
  cases e with
  | removeEntry node =>
    unfold BankState.step at hstep
    dsimp only at hstep
    split at hstep
    case h_1 =>
      obtain rfl := Option.some.inj hstep
      exact h
    case h_2 p hp =>
      have hin : InDpb s.dpbMgr p := ⟨node, (h.dpb.entry node p hp).1, hp⟩
      obtain ⟨m, hdel, hlisted, node', hout⟩ := h.delRef hin
      rw [hdel] at hstep
      obtain rfl := Option.some.inj hstep
      exact h.removeEntry hin hlisted hout
  | markRef p used =>
    obtain rfl := Option.some.inj hstep
    have hm := Marked.setUsed s.dpbMgr p used
    exact h.setDpb hm.asDpbInfo hm.psDpbHead hm.u1NumRefBufs
      (fun q => ⟨(hm.pics q).1, (hm.pics q).2.2⟩) rfl fun _ hq => hq
  | picInit pic stops =>
    unfold BankState.step at hstep
    dsimp only at hstep
    split at hstep
    case h_1 => contradiction
    case h_2 hcur =>
      split at hstep
      case h_1 =>
        obtain rfl := Option.some.inj hstep
        exact h
      case h_2 bank mvBufMgr htaken =>
        obtain ⟨hinv, hbank, hone⟩ := h.takeBank hcur hfresh htaken
        split at hstep
        case h_1 =>
          obtain rfl := Option.some.inj hstep
          exact hinv
        case h_2 p bufMgr hpic =>
          obtain rfl := Option.some.inj hstep
          exact hinv.takePic hbank hone set_same hpic
  | endPic =>
    obtain ⟨⟨p, bank⟩, hcur, rfl⟩ := Option.map_eq_some_iff.mp hstep
    exact h.finish hcur
  | releaseDisp bufId =>
    obtain rfl := Option.some.inj hstep
    exact h.setDpb rfl rfl rfl (fun _ => ⟨rfl, rfl⟩) (bufMgrRelease_max ..) fun _ => releaseDisp_ref

end BankState.Inv

theorem BankRun.inv {start s : BankState} (hrun : BankRun BankState.Fresh start s)
    (hstart : start.Start) : s.Inv := by
  induction hrun with
  | start => exact hstart.inv
  | step e hrun hfresh hstep ih => exact ih.step e hfresh hstep

/-- In every run in which no picture begins with the POC of a bank in use: a lookup with the POC
of a picture of the DPB finds the bank that is filled with it, a reference; one with a POC that no
bank has finds none; and a picture that leaves the DPB releases its own bank, which was a
reference, and no other. -/
theorem mvBanks_lookup {start s : BankState} (hstart : start.Start)
    (hrun : BankRun BankState.Fresh start s) :
    (∀ p, InDpb s.dpbMgr p →
      ihevcdMvMgrGetPoc s (s.dpbMgr.pics p).i4AbsPoc = some (s.filled p) ∧
        s.mvBufMgr.au4Status (s.filled p) &&& bufMgrRef ≠ 0) ∧
    (∀ absPoc, (∀ bank < s.i4MaxDpbSize, s.mvPocs bank ≠ absPoc) →
      ihevcdMvMgrGetPoc s absPoc = none) ∧
    ∀ node p, s.dpbMgr.pic node = some p →
      ∃ s', s.step (.removeEntry node) = some s' ∧
        (∀ q, InDpb s'.dpbMgr q ↔ InDpb s.dpbMgr q ∧ q ≠ p) ∧
        s.mvBufMgr.au4Status (s.filled p) &&& bufMgrRef ≠ 0 ∧
        s'.mvBufMgr.au4Status (s.filled p) = 0 ∧
        ∀ bank, bank ≠ s.filled p →
          s'.mvBufMgr.au4Status bank = s.mvBufMgr.au4Status bank := by
  have h := hrun.inv hstart
  have href (p : Nat) (hp : InDpb s.dpbMgr p) :
      s.mvBufMgr.au4Status (s.filled p) &&& bufMgrRef ≠ 0 := by
    rw [(h.bank p hp).2.1]
    decide
  refine ⟨fun p hp => ⟨h.getPoc hp, href p hp⟩, fun absPoc => mvMgrGetPoc_none h.banks,
    fun node p hpic => ?_⟩
  have hp : InDpb s.dpbMgr p := ⟨node, (h.dpb.entry node p hpic).1, hpic⟩
  obtain ⟨m, hdel, -, node', hout⟩ := h.delRef hp
  refine ⟨{ s with dpbMgr := m, mvBufMgr := s.releaseBank p }, ?_, (h.dpb.takenOut hout).2.1,
    href p hp, ?_, fun bank hbank => ?_⟩
  · rw [BankState.step, hpic]
    dsimp only
    rw [hdel]
    rfl
  · dsimp only
    rw [h.releaseBank hp]
    exact h.released hp
  · dsimp only
    rw [h.releaseBank hp, bufMgrRelease_ne hbank]

-- ---------------------------------------------------------------------------
-- Runs
-- ---------------------------------------------------------------------------

def BankState.steps : List BankEvent → BankState → Option BankState
  | [], s => some s
  | e :: es, s => (s.step e).bind (steps es)

theorem bankSteps_run {start s s' : BankState} (es : List BankEvent)
    (hrun : BankRun (fun _ _ => True) start s) (h : s.steps es = some s') :
    BankRun (fun _ _ => True) start s' := by
  induction es generalizing s with
  | nil =>
    obtain rfl := Option.some.inj h
    exact hrun
  | cons e es ih =>
    obtain ⟨s₁, hstep, h⟩ := Option.bind_eq_some_iff.mp h
    exact ih (.step e hrun trivial hstep) h

/-- Four picture buffers, which the application holds or not, and three banks. -/
def bankStart (picStatus : Nat) : BankState where
  dpbMgr :=
    { asDpbInfo := fun _ => { psPicBuf := none, psPrevDpb := none }
      psDpbHead := none
      u1NumRefBufs := 0
      pics := fun _ => { i4AbsPoc := 0, i4PocLsb := 0, u1BufId := 0, u1UsedAsRef := 0 }
      bufMgr := { u4MaxBufCnt := 64, au4Status := fun _ => picStatus } }
  added := (· < 4)
  mvBufMgr := { u4MaxBufCnt := 64, au4Status := fun _ => 0 }
  i4MaxDpbSize := 3
  mvPocs := fun _ => 0
  cur := none
  filled := fun _ => 0

theorem bankStart_start : (bankStart picStatus).Start where
  bufs := Nat.le_refl 64
  banks := by
    change 3 < 64
    decide
  dpb := fun _ => rfl
  head := rfl
  count := rfl
  cur := rfl
  status := fun _ => rfl
  pocs := fun _ => rfl

/-- A picture of POC 8. -/
def picOfPoc8 : PicHeader where
  u4Ts := 0
  i4AbsPicOrderCnt := 8
  i4PicOrderCntLsb := 8
  i1PicOutputFlag := 1
  spsMaxNumReorderPics := 0
  unused := []

theorem exists_of_any {o : Option BankState} {P : BankState → Prop} [DecidablePred P]
    (h : o.any (fun s => decide (P s)) = true) : ∃ s, o = some s ∧ P s := by
  cases o with
  | none => contradiction
  | some s => exact ⟨s, rfl, of_decide_eq_true h⟩

theorem mvBanks_lookup_first :
    ∃ s, BankRun BankState.Fresh (bankStart 0) s ∧ InDpb s.dpbMgr 0 ∧
      ihevcdMvMgrGetPoc s (s.dpbMgr.pics 0).i4AbsPoc = some (s.filled 0) := by
  obtain ⟨s₁, hinit, hend⟩ : ∃ s₁, (bankStart 0).step (.picInit picOfPoc8 false) = some s₁ ∧
      (s₁.step .endPic).any (fun s => decide (InDpb s.dpbMgr 0)) = true :=
    exists_of_any (by decide +kernel)
  obtain ⟨s, hfinish, hin⟩ := exists_of_any hend
  have hrun : BankRun BankState.Fresh (bankStart 0) s :=
    .step .endPic (.step (.picInit picOfPoc8 false) .start (fun _ _ h => absurd rfl h) hinit)
      trivial hfinish
  exact ⟨s, hrun, hin, ((mvBanks_lookup bankStart_start hrun).1 0 hin).1⟩

/-- A released bank is found for the POC of its picture; and where a picture of the POC has begun
without a picture buffer, its bank is found instead of the one that is filled later. -/
theorem mvBanks_stale :
    (∃ s, BankRun (fun _ _ => True) (bankStart 0) s ∧
      (∀ node < maxDpbBufs, s.dpbMgr.pic node = none) ∧
      ihevcdMvMgrGetPoc s 8 = some 0 ∧ s.mvBufMgr.au4Status 0 = 0) ∧
    ∃ s, BankRun (fun _ _ => True) (bankStart bufMgrDisp) s ∧ InDpb s.dpbMgr 0 ∧
      (s.dpbMgr.pics 0).i4AbsPoc = 8 ∧ s.filled 0 = 1 ∧ ihevcdMvMgrGetPoc s 8 = some 0 := by
  constructor
  · obtain ⟨s, hsteps, hempty⟩ : ∃ s,
        (bankStart 0).steps [.picInit picOfPoc8 false, .endPic, .removeEntry 0] = some s ∧
        ((∀ node < maxDpbBufs, s.dpbMgr.pic node = none) ∧
          ihevcdMvMgrGetPoc s 8 = some 0 ∧ s.mvBufMgr.au4Status 0 = 0) :=
      exists_of_any (by decide +kernel)
    exact ⟨s, bankSteps_run _ .start hsteps, hempty⟩
  · obtain ⟨s, hsteps, hlost⟩ : ∃ s,
        (bankStart bufMgrDisp).steps
          [.picInit picOfPoc8 false, .releaseDisp 0, .picInit picOfPoc8 false, .endPic] = some s ∧
        (InDpb s.dpbMgr 0 ∧ (s.dpbMgr.pics 0).i4AbsPoc = 8 ∧ s.filled 0 = 1 ∧
          ihevcdMvMgrGetPoc s 8 = some 0) :=
      exists_of_any (by decide +kernel)
    exact ⟨s, bankSteps_run _ .start hsteps, hlost⟩

end Libhevc.Decoder
