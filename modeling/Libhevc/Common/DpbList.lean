import Libhevc.Lib.Linked
import Libhevc.Common.DpbMgr

/-!
# The list of the DPB manager

After every operation the links lead from the head through exactly the entries
that hold a picture, as many as the manager counts.
-/

namespace Libhevc

open Memory LinkedList

/-- The entries that hold a picture, in the order of the list. -/
structure DpbMgr.Listed (m : DpbMgr) (l : List Nat) : Prop where
  linked : Linked m.prev m.psDpbHead l
  nodup : l.Nodup
  count : m.u1NumRefBufs = l.length
  exactly : ∀ i, i ∈ l ↔ i < maxDpbBufs ∧ (m.pic i).isSome

/-- Some entry holds a picture with the POC. -/
def DpbMgr.Has (m : DpbMgr) (i4AbsPoc : Int) : Prop :=
  ∃ i < maxDpbBufs, ∃ pic, m.pic i = some pic ∧ (m.pics pic).i4AbsPoc = i4AbsPoc

def DpbMgr.Full (m : DpbMgr) : Prop := ∀ i < maxDpbBufs, (m.pic i).isSome

@[simp] theorem setPrev_prev (m : DpbMgr) :
    (m.setPrev i t).prev = Function.update m.prev i t := by
  funext j
  by_cases h : j = i
  · simp [DpbMgr.setPrev, DpbMgr.prev, h]
  · simp [DpbMgr.setPrev, DpbMgr.prev, set_ne h, h]

@[simp] theorem setPrev_pic (m : DpbMgr) : (m.setPrev i t).pic = m.pic := by
  funext j
  by_cases h : j = i
  · simp [DpbMgr.setPrev, DpbMgr.pic, h]
  · simp [DpbMgr.setPrev, DpbMgr.pic, set_ne h]

@[simp] theorem setPic_pic (m : DpbMgr) :
    (m.setPic i t).pic = Function.update m.pic i t := by
  funext j
  by_cases h : j = i
  · simp [DpbMgr.setPic, DpbMgr.pic, h]
  · simp [DpbMgr.setPic, DpbMgr.pic, set_ne h, h]

@[simp] theorem setPic_prev (m : DpbMgr) : (m.setPic i t).prev = m.prev := by
  funext j
  by_cases h : j = i
  · simp [DpbMgr.setPic, DpbMgr.prev, h]
  · simp [DpbMgr.setPic, DpbMgr.prev, set_ne h]

theorem DpbMgr.Listed.length_le {m : DpbMgr} (h : m.Listed l) : l.length ≤ maxDpbBufs := by
  have hsub : l ⊆ List.range maxDpbBufs := fun i hi => List.mem_range.mpr ((h.exactly i).mp hi).1
  simpa using (h.nodup.subperm hsub).length_le

theorem DpbMgr.Listed.holds {m : DpbMgr} (h : m.Listed l) (hi : i ∈ l) : ∃ p, m.pic i = some p :=
  Option.isSome_iff_exists.mp ((h.exactly i).mp hi).2

-- ---------------------------------------------------------------------------
-- Initialisation and insertion
-- ---------------------------------------------------------------------------

theorem init_pic {m : DpbMgr} (hi : i < maxDpbBufs) : (ihevcDpbMgrInit m).pic i = none := by
  simp [ihevcDpbMgrInit, DpbMgr.pic, hi]

theorem init_listed (m : DpbMgr) : (ihevcDpbMgrInit m).Listed [] := by
  refine ⟨rfl, List.nodup_nil, rfl, fun i => ?_⟩
  constructor
  · intro hi
    contradiction
  · rintro ⟨hi, hp⟩
    rw [init_pic hi] at hp
    contradiction

theorem DpbMgr.Listed.link {m : DpbMgr} (h : m.Listed l) (hi : i < maxDpbBufs)
    (hfree : m.pic i = none) : (m.link p bufId i).Listed (i :: l) := by
  have hil : i ∉ l := fun hil => by
    have hs := ((h.exactly i).mp hil).2
    rw [hfree] at hs
    contradiction
  have hnodup : (i :: l).Nodup := List.nodup_cons.mpr ⟨hil, h.nodup⟩
  have hpic : (m.link p bufId i).pic = Function.update m.pic i (some p) := by
    change ((m.setPic i (some p)).setPrev i _).pic = _
    simp
  constructor
  · have hprev : (m.link p bufId i).prev = Function.update m.prev i m.psDpbHead := by
      change ((m.setPic i (some p)).setPrev i _).prev = _
      simp
    rw [hprev]
    exact h.linked.push hil
  · exact hnodup
  · have hlen : l.length + 1 ≤ maxDpbBufs := by
      have hsub : i :: l ⊆ List.range maxDpbBufs := by
        intro j hj
        rcases List.mem_cons.mp hj with rfl | hj
        · exact List.mem_range.mpr hi
        · exact List.mem_range.mpr ((h.exactly j).mp hj).1
      simpa using (hnodup.subperm hsub).length_le
    change (m.u1NumRefBufs + 1) % 256 = l.length + 1
    rw [h.count]
    exact Nat.mod_eq_of_lt (Nat.lt_of_le_of_lt hlen (by decide))
  · intro j
    rw [hpic, List.mem_cons, h.exactly]
    by_cases hj : j = i
    · simp [hj, hi]
    · simp [hj]

theorem insertRef_cases (m : DpbMgr) (p bufId : Nat) :
    ihevcDpbMgrInsertRef m p bufId = (-1, m) ∨
      ∃ i < maxDpbBufs, m.pic i = none ∧
        ihevcDpbMgrInsertRef m p bufId = (0, m.link p bufId i) := by
  unfold ihevcDpbMgrInsertRef
  split
  · exact .inl rfl
  · split
    · exact .inl rfl
    case h_2 i hfind =>
      have hi : i < maxDpbBufs := List.mem_range.mp (List.mem_of_find?_eq_some hfind)
      exact .inr ⟨i, hi, by simpa using List.find?_some hfind, rfl⟩

theorem DpbMgr.Listed.insertRef {m : DpbMgr} (h : m.Listed l) :
    ∃ l', (ihevcDpbMgrInsertRef m p bufId).2.Listed l' := by
  rcases insertRef_cases m p bufId with hr | ⟨i, hi, hp, hr⟩
  · exact ⟨l, by rw [hr]; exact h⟩
  · exact ⟨i :: l, by rw [hr]; exact h.link hi hp⟩

theorem insertRef_full {m : DpbMgr} (h : m.Full) :
    ihevcDpbMgrInsertRef m p bufId = (-1, m) := by
  rcases insertRef_cases m p bufId with hr | ⟨i, hi, hp, _⟩
  · exact hr
  · have hs := h i hi
    rw [hp] at hs
    contradiction

-- ---------------------------------------------------------------------------
-- Lookups
-- ---------------------------------------------------------------------------

/-- A lookup along the list never meets a `NULL` pointer. -/
theorem findRef_ne_none {m : DpbMgr} (hl : Linked m.prev node l)
    (hp : ∀ i ∈ l, ∃ p, m.pic i = some p) : findRef m wanted l.length node ≠ none := by
  induction l generalizing node with
  | nil => exact Option.some_ne_none _
  | cons i l ih =>
    obtain ⟨rfl, hl⟩ := hl
    obtain ⟨p, hpi⟩ := hp i List.mem_cons_self
    simp only [List.length_cons, findRef, hpi, bind, Option.bind]
    split
    · exact Option.some_ne_none _
    · exact ih hl fun j hj => hp j (List.mem_cons_of_mem _ hj)

theorem DpbMgr.Listed.lookup {m : DpbMgr} (h : m.Listed l) (wanted : PicBuf → Bool) :
    ∃ r, findRef m wanted m.u1NumRefBufs m.psDpbHead = some r := by
  rw [h.count]
  exact Option.ne_none_iff_exists'.mp (findRef_ne_none h.linked fun i hi => h.holds hi)

-- ---------------------------------------------------------------------------
-- Deletion
-- ---------------------------------------------------------------------------

/-- Entry `u` was emptied and taken out of the list. -/
theorem DpbMgr.Listed.remove {m m' : DpbMgr} (h : m.Listed l) (hperm : l.Perm (u :: l'))
    (hlinked : Linked m'.prev m'.psDpbHead l') (hpic : m'.pic = Function.update m.pic u none)
    (hnum : m'.u1NumRefBufs = (m.u1NumRefBufs + 255) % 256) : m'.Listed l' := by
  obtain ⟨hu, hnodup⟩ := List.nodup_cons.mp (hperm.nodup_iff.mp h.nodup)
  refine ⟨hlinked, hnodup, ?_, fun i => ?_⟩
  · have hle := h.length_le
    have hlen : l.length = l'.length + 1 := hperm.length_eq
    rw [hnum, h.count, hlen]
    simp only [maxDpbBufs] at hle
    omega
  · have hi := (hperm.mem_iff (a := i)).symm.trans (h.exactly i)
    rw [hpic]
    by_cases hiu : i = u
    · subst hiu
      simp [hu]
    · simpa [hiu] using hi

theorem DpbMgr.Listed.unlink_head {m : DpbMgr} (h : m.Listed (u :: rest)) (next : Nat) :
    ∃ m', m.unlink next u = some m' ∧ m'.Listed rest := by
  obtain ⟨p, hp⟩ := h.holds List.mem_cons_self
  obtain ⟨hhead, hrest⟩ := h.linked
  have hu : u ∉ rest := (List.nodup_cons.mp h.nodup).1
  unfold DpbMgr.unlink
  rw [if_pos hhead]
  change ∃ m', (m.pic u).bind _ = some m' ∧ _
  rw [hp]
  refine ⟨_, rfl, h.remove (List.Perm.refl _) ?_ ?_ rfl⟩
  · change Linked (((DpbMgr.setPrev _ u none).setPic u none).prev) (m.prev u) rest
    rw [setPic_prev, setPrev_prev]
    exact hrest.update hu
  · change ((DpbMgr.setPrev _ u none).setPic u none).pic = _
    rw [setPic_pic, setPrev_pic]
    rfl

theorem DpbMgr.Listed.unlink_behind {m : DpbMgr} (h : m.Listed (pre ++ a :: b :: post)) :
    ∃ m', m.unlink a b = some m' ∧ m'.Listed (pre ++ a :: post) := by
  obtain ⟨p, hp⟩ := h.holds (i := b) (by simp)
  have hperm : (pre ++ a :: b :: post).Perm (b :: (pre ++ a :: post)) := by
    have hmid : (pre ++ [a] ++ b :: post).Perm (b :: (pre ++ [a] ++ post)) := List.perm_middle
    simpa using hmid
  have hb : b ∉ pre ++ a :: post := (List.nodup_cons.mp (hperm.nodup_iff.mp h.nodup)).1
  have hhead : m.psDpbHead ≠ some b := by
    intro hh
    rw [h.linked.head] at hh
    refine hb (List.mem_of_head? (hh ▸ ?_))
    cases pre <;> rfl
  unfold DpbMgr.unlink
  rw [if_neg hhead]
  change ∃ m', (DpbMgr.pic ((m.setPrev a (m.prev b)).setPrev b none) b).bind _ = some m' ∧ _
  rw [setPrev_pic, setPrev_pic, hp]
  refine ⟨_, rfl, h.remove hperm ?_ ?_ rfl⟩
  · change Linked ((((m.setPrev a (m.prev b)).setPrev b none).setPrev b none).setPic b none).prev
      m.psDpbHead _
    rw [setPic_prev, setPrev_prev, setPrev_prev, setPrev_prev]
    exact ((h.linked.unlink h.nodup).update hb).update hb
  · change ((((m.setPrev a (m.prev b)).setPrev b none).setPrev b none).setPic b none).pic = _
    rw [setPic_pic, setPrev_pic, setPrev_pic, setPrev_pic]

/-- The search behind `node` finds the node before one with the POC, if there is one. -/
theorem findBefore_cases {m : DpbMgr} (poc : Int) (hl : Linked m.prev (m.prev node) rest)
    (hp : ∀ i ∈ rest, ∃ p, m.pic i = some p) :
    (findBefore m poc rest.length node = some none ∧
      ∀ i ∈ rest, ∀ p, m.pic i = some p → (m.pics p).i4AbsPoc ≠ poc) ∨
    ∃ pre a b post p, node :: rest = pre ++ a :: b :: post ∧ m.pic b = some p ∧
      (m.pics p).i4AbsPoc = poc ∧ findBefore m poc rest.length node = some (some a) := by
  induction rest generalizing node with
  | nil => exact .inl ⟨rfl, fun i hi => by contradiction⟩
  | cons i rest ih =>
    obtain ⟨hprev, hl⟩ := hl
    obtain ⟨p, hpi⟩ := hp i List.mem_cons_self
    have hstep : findBefore m poc (i :: rest).length node =
        if (m.pics p).i4AbsPoc = poc then some (some node)
        else findBefore m poc rest.length i := by
      simp [findBefore, hprev, hpi]
    by_cases hpoc : (m.pics p).i4AbsPoc = poc
    · rw [if_pos hpoc] at hstep
      exact .inr ⟨[], node, i, rest, p, rfl, hpi, hpoc, hstep⟩
    · rw [if_neg hpoc] at hstep
      rcases ih hl fun j hj => hp j (List.mem_cons_of_mem _ hj) with
        ⟨hf, hne⟩ | ⟨pre, a, b, post, q, hsplit, hq, hqpoc, hf⟩
      · refine .inl ⟨hstep.trans hf, fun j hj q hq => ?_⟩
        rcases List.mem_cons.mp hj with rfl | hj
        · obtain rfl := Option.some.inj (hpi.symm.trans hq)
          exact hpoc
        · exact hne j hj q hq
      · exact .inr ⟨node :: pre, a, b, post, q, by rw [hsplit]; rfl, hq, hqpoc, hstep.trans hf⟩

/-- What a deletion does to a list: nothing to follow in an empty one, nothing done without the
POC, and one entry taken out otherwise. -/
theorem DpbMgr.Listed.delRef_cases {m : DpbMgr} (h : m.Listed l) (poc : Int) :
    (¬m.Has poc ∧ (ihevcDpbMgrDelRef m poc = none ∨ ihevcDpbMgrDelRef m poc = some m)) ∨
    (m.Has poc ∧ ∃ m' l', ihevcDpbMgrDelRef m poc = some m' ∧ m'.Listed l' ∧
      ∃ next u p, m.unlink next u = some m' ∧ m.pic u = some p ∧
        (m.pics p).i4AbsPoc = poc) := by
  cases l with
  | nil =>
    refine .inl ⟨?_, .inl ?_⟩
    · rintro ⟨i, hi, p, hp, _⟩
      have hi : i ∈ [] := (h.exactly i).mpr ⟨hi, by rw [hp]; rfl⟩
      contradiction
    · have hhead : m.psDpbHead = none := h.linked
      rw [ihevcDpbMgrDelRef, hhead]
      rfl
  | cons head rest =>
    obtain ⟨hhead, hrest⟩ := h.linked
    obtain ⟨p, hp⟩ := h.holds (i := head) List.mem_cons_self
    have hcount : m.u1NumRefBufs = rest.length + 1 := h.count
    by_cases hpoc : (m.pics p).i4AbsPoc = poc
    · obtain ⟨m', hm, hl⟩ := h.unlink_head head
      have hlt := ((h.exactly head).mp List.mem_cons_self).1
      refine .inr ⟨⟨head, hlt, p, hp, hpoc⟩, m', rest, ?_, hl, head, head, p, hm, hp, hpoc⟩
      simpa [ihevcDpbMgrDelRef, hhead, hp, hpoc] using hm
    · have hfound := findBefore_cases poc hrest fun i hi =>
        h.holds (List.mem_cons_of_mem _ hi)
      rcases hfound with ⟨hf, hne⟩ | ⟨pre, a, b, post, q, hsplit, hq, hqpoc, hf⟩
      · refine .inl ⟨?_, .inr ?_⟩
        · rintro ⟨i, hi, q, hq, hqpoc⟩
          rcases List.mem_cons.mp ((h.exactly i).mpr ⟨hi, by rw [hq]; rfl⟩) with rfl | hir
          · obtain rfl := Option.some.inj (hp.symm.trans hq)
            exact hpoc hqpoc
          · exact hne i hir q hq hqpoc
        · simp [ihevcDpbMgrDelRef, hhead, hp, hpoc, hcount, hf]
      · rw [hsplit] at h
        obtain ⟨m', hm, hl⟩ := h.unlink_behind
        have hb : m.prev a = some b := h.linked.link_eq
        have hlt := ((h.exactly b).mp (by simp)).1
        refine .inr ⟨⟨b, hlt, q, hq, hqpoc⟩, m', _, ?_, hl, a, b, q, hm, hq, hqpoc⟩
        simpa [ihevcDpbMgrDelRef, hhead, hp, hpoc, hcount, hf, hb] using hm

-- ---------------------------------------------------------------------------
-- Reset
-- ---------------------------------------------------------------------------

/-- Each of the entries holds a reference picture, and no two hold the same one. -/
def DpbMgr.AllRef (m : DpbMgr) (is : List Nat) : Prop :=
  (∀ i ∈ is, ∃ p, m.pic i = some p ∧ (m.pics p).u1UsedAsRef ≠ 0) ∧
    is.Pairwise fun i j => m.pic i ≠ m.pic j

theorem resetEntry_pic (m : DpbMgr) : (m.resetEntry i p).pic = Function.update m.pic i none := by
  change ((m.setPrev i none).setPic i none).pic = _
  rw [setPic_pic, setPrev_pic]

theorem resetEntry_used (m : DpbMgr) :
    ((m.resetEntry i p).pics q).u1UsedAsRef ≠ 0 ↔ q ≠ p ∧ (m.pics q).u1UsedAsRef ≠ 0 := by
  by_cases hq : q = p
  · simp [DpbMgr.resetEntry, hq, unusedForRef]
  · simp [DpbMgr.resetEntry, set_ne hq, hq]

theorem resetEntry_allRef {m : DpbMgr} (hi : i ∉ is) (hp : m.pic i = some p)
    (hused : (m.pics p).u1UsedAsRef ≠ 0) :
    (m.resetEntry i p).AllRef is ↔ m.AllRef (i :: is) := by
  have hpic : ∀ j ∈ is, (m.resetEntry i p).pic j = m.pic j := by
    intro j hj
    rw [resetEntry_pic]
    refine Function.update_of_ne ?_ _ _
    rintro rfl
    exact hi hj
  constructor
  · rintro ⟨href, hdistinct⟩
    refine ⟨fun j hj => ?_, List.pairwise_cons.mpr ⟨fun j hj => ?_, ?_⟩⟩
    · rcases List.mem_cons.mp hj with rfl | hj
      · exact ⟨p, hp, hused⟩
      · obtain ⟨q, hq, hqused⟩ := href j hj
        exact ⟨q, (hpic j hj).symm.trans hq, (resetEntry_used m).mp hqused |>.2⟩
    · obtain ⟨q, hq, hqused⟩ := href j hj
      rw [← hpic j hj, hp, hq]
      rintro h
      exact ((resetEntry_used m).mp hqused).1 (Option.some.inj h).symm
    · refine hdistinct.imp_of_mem fun hj hk h => ?_
      rwa [hpic _ hj, hpic _ hk] at h
  · rintro ⟨href, hdistinct⟩
    obtain ⟨hne, hdistinct⟩ := List.pairwise_cons.mp hdistinct
    refine ⟨fun j hj => ?_, hdistinct.imp_of_mem fun hj hk h => ?_⟩
    · obtain ⟨q, hq, hqused⟩ := href j (List.mem_cons_of_mem _ hj)
      refine ⟨q, (hpic j hj).trans hq, (resetEntry_used m).mpr ⟨?_, hqused⟩⟩
      rintro rfl
      exact hne j hj (hp.trans hq.symm)
    · rwa [hpic _ hj, hpic _ hk]

theorem resetEntries_cons (m : DpbMgr) (h : m.pic i = some p) :
    resetEntries (i :: is) m =
      if (m.pics p).u1UsedAsRef = 0 then resetEntries is m
      else resetEntries is (m.resetEntry i p) := by
  simp [resetEntries, h]

theorem resetEntries_frame {m : DpbMgr} (h : resetEntries is m = some m') (hi : i ∉ is) :
    m'.pic i = m.pic i := by
  induction is generalizing m with
  | nil =>
    obtain rfl := Option.some.inj h
    rfl
  | cons j is ih =>
    obtain ⟨hij, hi⟩ := not_or.mp (List.mem_cons.not.mp hi)
    cases hp : m.pic j with
    | none => simp [resetEntries, hp] at h
    | some p =>
      rw [resetEntries_cons m hp] at h
      split at h
      · exact ih h hi
      · rw [ih h hi, resetEntry_pic, Function.update_of_ne hij]

/-- The loop empties the entries exactly when all of them hold references of their own. -/
theorem resetEntries_clears {m : DpbMgr} (hn : is.Nodup) :
    (∃ m', resetEntries is m = some m' ∧ ∀ i ∈ is, m'.pic i = none) ↔ m.AllRef is := by
  induction is generalizing m with
  | nil => simp [resetEntries, DpbMgr.AllRef]
  | cons i is ih =>
    obtain ⟨hi, hn⟩ := List.nodup_cons.mp hn
    cases hp : m.pic i with
    | none =>
      refine iff_of_false ?_ ?_
      · rintro ⟨m', hm, _⟩
        simp [resetEntries, hp] at hm
      · rintro ⟨href, _⟩
        obtain ⟨p, hp', _⟩ := href i List.mem_cons_self
        rw [hp] at hp'
        contradiction
    | some p =>
      rw [resetEntries_cons m hp]
      by_cases hused : (m.pics p).u1UsedAsRef = 0
      · rw [if_pos hused]
        refine iff_of_false ?_ ?_
        · rintro ⟨m', hm, hclear⟩
          have hkept := resetEntries_frame hm hi
          rw [hclear i List.mem_cons_self, hp] at hkept
          contradiction
        · rintro ⟨href, _⟩
          obtain ⟨q, hq, hne⟩ := href i List.mem_cons_self
          obtain rfl := Option.some.inj (hp.symm.trans hq)
          exact hne hused
      · rw [if_neg hused]
        rw [← resetEntry_allRef hi hp hused, ← ih hn]
        constructor
        · rintro ⟨m', hm, hclear⟩
          exact ⟨m', hm, fun j hj => hclear j (List.mem_cons_of_mem _ hj)⟩
        · rintro ⟨m', hm, hclear⟩
          refine ⟨m', hm, fun j hj => ?_⟩
          rcases List.mem_cons.mp hj with rfl | hj
          · rw [resetEntries_frame hm hi, resetEntry_pic, Function.update_self]
          · exact hclear j hj

/-- A reset leaves a list, which is the empty one, under the same condition. -/
theorem reset_listed {m : DpbMgr} :
    (∃ m', ihevcDpbMgrReset m = some m' ∧ ∃ l, m'.Listed l) ↔
      m.AllRef (List.range maxDpbBufs) := by
  rw [← resetEntries_clears List.nodup_range]
  constructor
  · rintro ⟨m', hm, l, hl⟩
    obtain ⟨m'', hr, he⟩ := Option.bind_eq_some_iff.mp hm
    obtain rfl := Option.some.inj he
    refine ⟨m'', hr, fun i hi => ?_⟩
    obtain rfl : l = [] := List.eq_nil_of_length_eq_zero hl.count.symm
    have hnone := (hl.exactly i).not.mp List.not_mem_nil
    by_contra hp
    exact hnone ⟨List.mem_range.mp hi, Option.isSome_iff_ne_none.mpr hp⟩
  · rintro ⟨m', hr, hclear⟩
    refine ⟨{ m' with u1NumRefBufs := 0, psDpbHead := none }, ?_, [], ?_⟩
    · rw [ihevcDpbMgrReset, hr]
      rfl
    · refine ⟨rfl, List.nodup_nil, rfl, fun i => iff_of_false List.not_mem_nil ?_⟩
      rintro ⟨hi, hs⟩
      have hs : (m'.pic i).isSome := hs
      rw [hclear i (List.mem_range.mpr hi)] at hs
      contradiction

-- ---------------------------------------------------------------------------
-- Runs
-- ---------------------------------------------------------------------------

/-- The calls of the DPB manager. -/
inductive DpbCall
  | init
  | insertRef (psPicBuf bufId : Nat)
  | delRef (i4AbsPoc : Int)
  | getRefByPoc (absPoc : Int)
  | getRefByPocLsb (pocLsb : Int)
  | getRefByNearestPoc (curAbsPoc : Int)
  | reset

/-- What a call gives back: nothing, a code, or a picture that may be `NULL`. -/
inductive DpbAnswer
  | void
  | code (ret : Int)
  | pic (psPicBuf : Option Nat)

def DpbCall.run (m : DpbMgr) : DpbCall → Option (DpbAnswer × DpbMgr)
  | .init => some (.void, ihevcDpbMgrInit m)
  | .insertRef psPicBuf bufId =>
    some (.code (ihevcDpbMgrInsertRef m psPicBuf bufId).1,
      (ihevcDpbMgrInsertRef m psPicBuf bufId).2)
  | .delRef i4AbsPoc => (ihevcDpbMgrDelRef m i4AbsPoc).map fun m' => (.void, m')
  | .getRefByPoc absPoc => (ihevcDpbMgrGetRefByPoc m absPoc).map fun r => (.pic r, m)
  | .getRefByPocLsb pocLsb => (ihevcDpbMgrGetRefByPocLsb m pocLsb).map fun r => (.pic r, m)
  | .getRefByNearestPoc curAbsPoc =>
    some (.pic (ihevcDpbMgrGetRefByNearestPoc m curAbsPoc), m)
  | .reset => (ihevcDpbMgrReset m).map fun m' => (.void, m')

/-- The POC to delete is there; a DPB that is reset holds 64 references of its own. -/
def DpbCall.Clear (m : DpbMgr) : DpbCall → Prop
  | .delRef i4AbsPoc => m.Has i4AbsPoc
  | .reset => m.AllRef (List.range maxDpbBufs)
  | _ => True

/-- What has no room or no POC to work on is refused: an error, and nothing changed. -/
def DpbCall.Refused (m : DpbMgr) (answer : DpbAnswer) (m' : DpbMgr) : DpbCall → Prop
  | .insertRef .. => m.Full → (∃ ret, answer = .code ret ∧ ret ≠ 0) ∧ m' = m
  | .delRef i4AbsPoc => ¬m.Has i4AbsPoc → (∃ ret, answer = .code ret ∧ ret ≠ 0) ∧ m' = m
  | _ => True

/-- The call dereferences no `NULL` pointer, leaves a list, and refuses what it has to. -/
def DpbCall.Keeps (m : DpbMgr) (call : DpbCall) : Prop :=
  ∃ answer m', call.run m = some (answer, m') ∧ (∃ l, m'.Listed l) ∧ call.Refused m answer m'

/-- Any calls that are clear, in any order; in between the decoder writes to the pictures and
to the buffer manager. -/
inductive DpbMgr.Run : DpbMgr → Prop
  | init (m : DpbMgr) : Run (ihevcDpbMgrInit m)
  | call (h : Run m) (hclear : DpbCall.Clear m call) (hrun : call.run m = some (answer, m')) :
    Run m'
  | write (h : Run m) (pics : Nat → PicBuf) (bufMgr : BufMgr) : Run { m with pics, bufMgr }

theorem DpbMgr.Listed.keeps_iff {m : DpbMgr} (h : m.Listed l) (call : DpbCall) :
    call.Keeps m ↔ call.Clear m := by
  cases call with
  | init => exact iff_of_true ⟨_, _, rfl, ⟨[], init_listed m⟩, trivial⟩ trivial
  | insertRef p bufId =>
    refine iff_of_true ⟨_, _, rfl, h.insertRef, fun hfull => ?_⟩ trivial
    rw [insertRef_full hfull]
    exact ⟨⟨-1, rfl, by decide⟩, rfl⟩
  | delRef poc =>
    rcases h.delRef_cases poc with ⟨habs, hr⟩ | ⟨hhas, m', l', hr, hl, _⟩
    · refine iff_of_false ?_ habs
      rintro ⟨answer, m', hrun, _, href⟩
      obtain ⟨⟨ret, rfl, _⟩, _⟩ := href habs
      rcases hr with hr | hr
      · simp [DpbCall.run, hr] at hrun
      · simp [DpbCall.run, hr] at hrun
    · refine iff_of_true ⟨.void, m', by simp [DpbCall.run, hr], ⟨l', hl⟩, ?_⟩ hhas
      exact fun habs => absurd hhas habs
  | getRefByPoc poc =>
    obtain ⟨r, hr⟩ := h.lookup fun pic => pic.i4AbsPoc = poc
    exact iff_of_true ⟨.pic r, m, by simp [DpbCall.run, ihevcDpbMgrGetRefByPoc, hr], ⟨l, h⟩,
      trivial⟩ trivial
  | getRefByPocLsb lsb =>
    obtain ⟨r, hr⟩ := h.lookup fun pic => pic.i4PocLsb = lsb
    exact iff_of_true ⟨.pic r, m, by simp [DpbCall.run, ihevcDpbMgrGetRefByPocLsb, hr], ⟨l, h⟩,
      trivial⟩ trivial
  | getRefByNearestPoc poc => exact iff_of_true ⟨_, _, rfl, ⟨l, h⟩, trivial⟩ trivial
  | reset =>
    refine Iff.trans ?_ reset_listed
    constructor
    · rintro ⟨answer, m', hrun, hl, _⟩
      obtain ⟨m'', hr, he⟩ := Option.map_eq_some_iff.mp hrun
      obtain ⟨_, rfl⟩ := Prod.mk.inj he
      exact ⟨m'', hr, hl⟩
    · rintro ⟨m', hr, hl⟩
      exact ⟨.void, m', by simp [DpbCall.run, hr], hl, trivial⟩

theorem DpbMgr.Run.listed {m : DpbMgr} (h : m.Run) : ∃ l, m.Listed l := by
  induction h with
  | init m => exact ⟨[], init_listed m⟩
  | @call m call answer m' _ hclear hrun ih =>
    obtain ⟨l, hl⟩ := ih
    obtain ⟨answer', m'', hrun', hlisted, _⟩ := (hl.keeps_iff call).mpr hclear
    obtain ⟨_, rfl⟩ := Prod.mk.inj (Option.some.inj (hrun.symm.trans hrun'))
    exact hlisted
  | write _ pics bufMgr ih =>
    obtain ⟨l, hl⟩ := ih
    exact ⟨l, hl.linked, hl.nodup, hl.count, hl.exactly⟩

/-- A DPB manager that was just initialised. -/
def emptyDpb : DpbMgr :=
  ihevcDpbMgrInit
    { asDpbInfo := fun _ => { psPicBuf := none, psPrevDpb := none }
      psDpbHead := none
      u1NumRefBufs := 0
      pics := fun _ => { i4AbsPoc := 0, i4PocLsb := 0, u1BufId := 0, u1UsedAsRef := 0 }
      bufMgr := { u4MaxBufCnt := 0, au4Status := fun _ => 0 } }

end Libhevc
