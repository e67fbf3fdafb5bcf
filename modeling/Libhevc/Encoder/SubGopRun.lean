import Libhevc.Lib.Gaps
import Libhevc.Encoder.SubGopAccept

/-!
# The sequence of picture types

The types of a sub-GOP are written from index 1 on, and taken one picture later: index 0 keeps the
last type of the sub-GOP before.
-/

namespace Libhevc.Encoder

-- ---------------------------------------------------------------------------
-- Writing the types
-- ---------------------------------------------------------------------------

theorem writeTypes_numbered (l : List PicTypeE) (n : Int) (a : Int → PicTypeE) (k : Int) :
    writeTypes a (numbered n l) k =
      if n ≤ k ∧ k < n + l.length then l.getD (k - n).toNat .na else a k := by
  induction l generalizing n a with
  | nil =>
    rw [if_neg (by simp)]
    rfl
  | cons t l ih =>
    have hcons : writeTypes a (numbered n (t :: l)) k =
        writeTypes (fun k => if k = n then t else a k) (numbered (n + 1) l) k := rfl
    rw [hcons, ih]
    by_cases hk : k = n
    · subst hk
      rw [if_neg (by omega), if_pos rfl, if_pos ⟨Int.le_refl k, by simp⟩, Int.sub_self]
      rfl
    · by_cases hin : n + 1 ≤ k ∧ k < n + 1 + l.length
      · have hlen : (k - n).toNat = (k - (n + 1)).toNat + 1 := by omega
        rw [if_pos hin, if_pos (by rw [List.length_cons]; push_cast; omega), hlen,
          List.getD_cons_succ]
      · rw [if_neg hin, if_neg hk, if_neg (by rw [List.length_cons]; push_cast; omega)]

theorem numbered_index (h : w ∈ numbered n l) : n ≤ w.1 ∧ w.1 < n + l.length := by
  induction l generalizing n with
  | nil => cases h
  | cons t l ih =>
    rw [List.length_cons]
    push_cast
    rcases List.mem_cons.mp h with rfl | h
    · dsimp only
      omega
    · have := ih h
      omega

@[simp] theorem numbered_length (l : List PicTypeE) (n : Int) :
    (numbered n l).length = l.length := by
  induction l generalizing n with
  | nil => rfl
  | cons t l ih => simp only [numbered, List.length_cons, ih]

theorem subGopTypes_length_pos (b : Nat) (pre : Bool) (last : PicTypeE) :
    0 < (subGopTypes b pre last).length := by
  simp only [subGopTypes, List.length_append, List.length_singleton]
  omega

/-- The last type stands at the end. -/
theorem subGopTypes_last (b : Nat) (pre : Bool) (last : PicTypeE) :
    (subGopTypes b pre last).getD ((subGopTypes b pre last).length - 1) .na = last := by
  cases pre <;> simp [subGopTypes, List.getD_eq_getElem?_getD]

/-- The other types are B and P. -/
theorem subGopTypes_inner (b : Nat) (pre : Bool) (last : PicTypeE)
    (hi : i + 1 < (subGopTypes b pre last).length) :
    (subGopTypes b pre last).getD i .na = .b ∨ (subGopTypes b pre last).getD i .na = .p := by
  unfold subGopTypes at hi ⊢
  rw [← List.append_assoc] at hi ⊢
  rw [List.length_append, List.length_singleton] at hi
  have hlt : i < (List.replicate b PicTypeE.b ++ if pre then [PicTypeE.p] else []).length := by
    omega
  rw [List.getD_append _ _ _ _ hlt, List.getD_eq_getElem _ _ hlt]
  rcases List.mem_append.mp (List.getElem_mem hlt) with hmem | hmem
  · exact Or.inl (List.eq_of_mem_replicate hmem)
  · right
    cases pre with
    | false => cases hmem
    | true => exact List.mem_singleton.mp hmem

-- ---------------------------------------------------------------------------
-- A sub-GOP, picture by picture
-- ---------------------------------------------------------------------------

theorem LapGop.atPicture_add (s : LapGop) (t n : Nat) :
    s.atPicture (t + n) = (s.atPicture t).atPicture n := by
  induction n with
  | zero => rfl
  | succ n ih => rw [← Nat.add_assoc, LapGop.atPicture, ih, LapGop.atPicture]

/-- The state with the next sub-GOP chosen, of which `i` types are taken. -/
def LapGop.chosen (s : LapGop) (i : Nat) : LapGop :=
  { ihevceDetermineNextSubGopState
      { s with ai1PicType := writeTypes s.ai1PicType [(0, s.ai1PicType s.i4NextStartCtr)] } with
    i4NumFrmTypeDecided := (nextSubGop s.cfg s.counters).i4NumFrmTypeDecided - i
    i4NextStartCtr := i }

variable {s : LapGop} {userI : Int} {b : Nat} {pre : Bool} {last : PicTypeE}

/-- The types of a sub-GOP as they stand behind the one that is kept. -/
theorem LapGop.chosen_types
    (h : Chosen s.cfg userI s.counters b pre last (nextSubGop s.cfg s.counters)) (i k : Nat) :
    (s.chosen i).ai1PicType k =
      if k = 0 then s.ai1PicType s.i4NextStartCtr
      else if k ≤ (subGopTypes b pre last).length then (subGopTypes b pre last).getD (k - 1) .na
      else s.ai1PicType k := by
  unfold LapGop.chosen ihevceDetermineNextSubGopState
  dsimp only
  rw [h.writes, writeTypes_numbered]
  by_cases hk : k = 0
  · subst hk
    rw [if_neg (by omega), if_pos rfl]
    rfl
  · rw [if_neg hk]
    by_cases hin : k ≤ (subGopTypes b pre last).length
    · rw [if_pos (by omega), if_pos hin]
      congr 1
      omega
    · rw [if_neg (by omega), if_neg hin]
      exact if_neg (by omega)

/-- The picture that a sub-GOP starts with has the last type of the sub-GOP before. -/
theorem LapGop.first_picture
    (h : Chosen s.cfg userI s.counters b pre last (nextSubGop s.cfg s.counters))
    (hnum : s.i4NumFrmTypeDecided = 0) :
    lapPicture s = (s.ai1PicType s.i4NextStartCtr, s.chosen 1) := by
  have hpos := subGopTypes_length_pos b pre last
  have hne : (nextSubGop s.cfg s.counters).i4NumFrmTypeDecided ≠ 0 := by
    rw [h.num]
    omega
  have hzero := LapGop.chosen_types h 0 0
  rw [if_pos rfl] at hzero
  unfold lapPicture
  rw [if_pos hnum]
  dsimp only [ihevceDetermineNextSubGopState]
  rw [if_pos hne]
  exact Prod.ext hzero rfl

/-- A picture whose type is chosen already. -/
theorem LapGop.next_picture (i : Nat)
    (hi : (i : Int) < (nextSubGop s.cfg s.counters).i4NumFrmTypeDecided) :
    lapPicture (s.chosen i) = ((s.chosen i).ai1PicType i, s.chosen (i + 1)) := by
  have hne : (s.chosen i).i4NumFrmTypeDecided ≠ 0 := by
    unfold LapGop.chosen
    dsimp only
    omega
  unfold lapPicture
  rw [if_neg hne, if_pos hne]
  refine Prod.ext rfl ?_
  unfold LapGop.chosen
  dsimp only
  congr 1
  push_cast
  omega

/-- The states inside a sub-GOP. -/
theorem LapGop.atPicture_chosen
    (h : Chosen s.cfg userI s.counters b pre last (nextSubGop s.cfg s.counters))
    (hnum : s.i4NumFrmTypeDecided = 0) (i : Nat) (hi : i < (subGopTypes b pre last).length) :
    s.atPicture (i + 1) = s.chosen (i + 1) := by
  induction i with
  | zero => rw [LapGop.atPicture, LapGop.atPicture, LapGop.first_picture h hnum]
  | succ i ih =>
    rw [LapGop.atPicture, ih (by omega), LapGop.next_picture]
    rw [h.num]
    exact_mod_cast hi

-- ---------------------------------------------------------------------------
-- Boundaries
-- ---------------------------------------------------------------------------

/-- Before picture `t` a sub-GOP is to be chosen. -/
structure Boundary (s : LapGop) (userI : Int) (t : Nat) : Prop where
  num : (s.atPicture t).i4NumFrmTypeDecided = 0
  cfg : (s.atPicture t).cfg = s.cfg
  inv : GopCounters.Inv s.cfg userI (s.atPicture t).counters

/-- The sub-GOP behind a boundary. -/
structure Boundary.Next (s : LapGop) (userI : Int) (t len : Nat) (last : PicTypeE) : Prop where
  pos : 0 < len
  boundary : Boundary s userI (t + len)
  final : s.picType (t + len) = last
  inner : ∀ k, t < k → k < t + len → s.picType k = .b ∨ s.picType k = .p
  busy : ∀ k, t < k → k < t + len → (s.atPicture k).i4NumFrmTypeDecided ≠ 0
  last_cases : last = .idr ∨ last = .cra ∨ last = .i ∨ last = .p
  step : GopStep s.cfg userI (s.atPicture t).counters (s.atPicture (t + len)).counters len last

variable {t : Nat}

/-- The picture at a boundary has the type that is kept. -/
theorem Boundary.picType (hc : s.cfg.Accepted userI) (h : Boundary s userI t) :
    s.picType t = (s.atPicture t).ai1PicType (s.atPicture t).i4NextStartCtr := by
  have hinv := h.inv
  rw [← h.cfg] at hc hinv
  obtain ⟨b, pre, last, hsub⟩ := nextSubGop_chosen hc hinv
  rw [LapGop.picType, LapGop.first_picture hsub h.num]

theorem Boundary.next (hc : s.cfg.Accepted userI) (h : Boundary s userI t) :
    ∃ len last, Boundary.Next s userI t len last := by
  have hinv := h.inv
  have hcfg := h.cfg
  have hcu := hc
  rw [← hcfg] at hcu hinv
  obtain ⟨b, pre, last, hsub⟩ := nextSubGop_chosen hcu hinv
  have hpos := subGopTypes_length_pos b pre last
  have hstate : ∀ i, 0 < i → i ≤ (subGopTypes b pre last).length →
      s.atPicture (t + i) = (s.atPicture t).chosen i := by
    intro i hi hle
    obtain ⟨j, rfl⟩ := Nat.exists_eq_succ_of_ne_zero hi.ne'
    rw [LapGop.atPicture_add, LapGop.atPicture_chosen hsub h.num j (by omega)]
  have hend := hstate _ hpos (Nat.le_refl _)
  have hnum := hsub.num
  have hboundary : Boundary s userI (t + (subGopTypes b pre last).length) := by
    refine ⟨?_, ?_, ?_⟩
    · rw [hend]
      unfold LapGop.chosen
      dsimp only
      omega
    · rw [hend]
      exact hcfg
    · rw [hend, ← hcfg]
      exact hsub.step.inv
  refine ⟨_, last, hpos, hboundary, ?_, fun k hk hkl => ?_, fun k hk hkl => ?_, hsub.last_cases, ?_⟩
  · rw [hboundary.picType hc, hend]
    have htypes := LapGop.chosen_types hsub (subGopTypes b pre last).length
      (subGopTypes b pre last).length
    rw [if_neg (by omega), if_pos (Nat.le_refl _), subGopTypes_last] at htypes
    exact htypes
  · obtain ⟨i, rfl⟩ := Nat.exists_eq_add_of_le hk.le
    rw [LapGop.picType, hstate i (by omega) (by omega), LapGop.next_picture i (by omega)]
    dsimp only
    rw [LapGop.chosen_types hsub, if_neg (by omega), if_pos (by omega)]
    exact subGopTypes_inner b pre last (by omega)
  · obtain ⟨i, rfl⟩ := Nat.exists_eq_add_of_le hk.le
    rw [hstate i (by omega) (by omega)]
    unfold LapGop.chosen
    dsimp only
    omega
  · rw [hend, ← hcfg]
    exact hsub.step

/-- Every picture lies in a sub-GOP. -/
theorem exists_boundary (hc : s.cfg.Accepted userI) (h0 : Boundary s userI 0) (n : Nat) :
    ∃ t len last, Boundary s userI t ∧ Boundary.Next s userI t len last ∧ t ≤ n ∧ n < t + len := by
  induction n with
  | zero =>
    obtain ⟨len, last, hnext⟩ := h0.next hc
    exact ⟨0, len, last, h0, hnext, Nat.le_refl 0, by have := hnext.pos; omega⟩
  | succ n ih =>
    obtain ⟨t, len, last, hb, hnext, hle, hlt⟩ := ih
    by_cases hin : n + 1 < t + len
    · exact ⟨t, len, last, hb, hnext, by omega, hin⟩
    · have heq : n + 1 = t + len := by omega
      obtain ⟨len', last', hnext'⟩ := hnext.boundary.next hc
      exact ⟨t + len, len', last', hnext.boundary, hnext', by omega,
        by have := hnext'.pos; omega⟩

/-- Where a sub-GOP is to be chosen is a boundary. -/
theorem boundary_of_num (hc : s.cfg.Accepted userI) (h0 : Boundary s userI 0) (n : Nat)
    (hn : (s.atPicture n).i4NumFrmTypeDecided = 0) : Boundary s userI n := by
  obtain ⟨t, len, last, hb, hnext, hle, hlt⟩ := exists_boundary hc h0 n
  rcases Nat.lt_or_eq_of_le hle with hin | heq
  · exact absurd hn (hnext.busy n hin hlt)
  · exact heq ▸ hb

theorem ihevceLapInit_boundary {p : GopParams} {mem : Int}
    (hc : (ihevceLapInit p mem).cfg.Accepted userI) : Boundary (ihevceLapInit p mem) userI 0 :=
  ⟨rfl, rfl, GopCounters.Inv.zero hc⟩

-- ---------------------------------------------------------------------------
-- Distances
-- ---------------------------------------------------------------------------

def PicTypeE.IsRandomAccess (t : PicTypeE) : Prop := t = .idr ∨ t = .cra

def PicTypeE.IsIntra (t : PicTypeE) : Prop := t = .idr ∨ t = .cra ∨ t = .i

/-- A distance of `d` to picture `j`: the period, or one more to an IDR picture where sub-GOPs have
B pictures. -/
def WithinPeriod (s : LapGop) (period : Int) (d j : Nat) : Prop :=
  (d : Int) ≤ period ∨
    ((d : Int) = period + 1 ∧ s.picType j = .idr ∧ 1 < s.cfg.i4SubGopSize)

/-- A counter of the lookahead scans the sequence. -/
theorem gopScan {counter : GopCounters → Int} {P : PicTypeE → Prop} {Q : Nat → Nat → Prop}
    (bound : Nat) (hc : s.cfg.Accepted userI) (h0 : Boundary s userI 0)
    (hzero : counter (s.atPicture 0).counters = 0)
    (hrange : ∀ k, GopCounters.Inv s.cfg userI k → 0 ≤ counter k ∧ counter k < bound)
    (hb : ¬P .b) (hp : ¬P .p)
    (hstep : ∀ k k' (len : Nat) last, GopStep s.cfg userI k k' len last →
      (last = .idr ∨ last = .cra ∨ last = .i ∨ last = .p) →
      (P last ∧ counter k' = 0 ∧
        ∀ d j : Nat, (d : Int) = counter k + len → s.picType j = last → Q d j) ∨
      (¬P last ∧ counter k' = counter k + len)) :
    Gaps.Scan (fun n => P (s.picType n)) Q
      (fun t c => Boundary s userI t ∧ counter (s.atPicture t).counters = c ∧
        (P (s.picType t) → c = 0)) bound where
  start := ⟨h0, hzero, fun _ => rfl⟩
  lt t c hB := by
    have := (hrange _ hB.1.inv).2
    rw [hB.2.1] at this
    exact_mod_cast this
  mark t c hB := hB.2.2
  step t c hB := by
    obtain ⟨hbound, hcount, -⟩ := hB
    obtain ⟨len, last, hnext⟩ := hbound.next hc
    have hpos := hnext.pos
    refine ⟨t + len, by omega, fun k hk hkl => ?_, ?_⟩
    · rcases hnext.inner k hk hkl with hk' | hk' <;> rw [hk'] <;> assumption
    · rw [hnext.final, Nat.add_sub_cancel_left]
      rcases hstep _ _ len last hnext.step hnext.last_cases with ⟨hP, hk', hQ⟩ | ⟨hP, hk'⟩
      · refine Or.inl ⟨hP, hQ _ _ ?_ hnext.final, hnext.boundary, hk', fun _ => rfl⟩
        rw [hcount]
        exact Int.natCast_add c len
      · refine Or.inr ⟨hP, hnext.boundary, ?_, fun hP' => absurd (hnext.final ▸ hP') hP⟩
        rw [hk', hcount]
        exact (Int.natCast_add c len).symm

/-- The distance of an IDR picture to the next one is the period. -/
theorem idr_distance (hc : s.cfg.Accepted userI) (h0 : Boundary s userI 0)
    (hzero : (s.atPicture 0).counters.i4IdrCounter = 0) (hne : s.cfg.i4MaxIdrPeriod ≠ 0) (i : Nat)
    (hi : s.picType i = .idr) :
    ∃ j, Gaps.NextAt (fun n => s.picType n = .idr) i j ∧
      ((j - i : Nat) : Int) = s.cfg.i4MaxIdrPeriod := by
  refine (gopScan (P := fun t => t = .idr) (Q := fun d _ => (d : Int) = s.cfg.i4MaxIdrPeriod)
    s.cfg.i4MaxIdrPeriod.toNat hc h0 hzero (fun k hk => ?_) nofun nofun
    (fun k k' len last hstep _ => ?_)).next i hi
  · have hinv := hk.idr hne
    rcases hc.sizes with ⟨-, hs⟩ | ⟨-, hs⟩ | ⟨-, hs⟩ | ⟨-, hs⟩ <;> omega
  · rcases hstep.idr hne with ⟨hl, hlen, hk'⟩ | ⟨hl, -, hk'⟩
    · exact Or.inl ⟨hl, hk', fun d j hd _ => hd.trans hlen⟩
    · exact Or.inr ⟨hl, hk'⟩

/-- One picture more than the period to an IDR picture, if the sub-GOP has B pictures. -/
theorem withinPeriod_of_late (hc : s.cfg.Accepted userI) {period x : Int} {d j : Nat}
    (hd : (d : Int) = x) (hj : s.picType j = .idr)
    (hx : x ≤ period + (s.cfg.i4SubGopSizeIdr - s.cfg.i4SubGopSize)) :
    WithinPeriod s period d j := by
  by_cases hle : (d : Int) ≤ period
  · exact Or.inl hle
  · refine Or.inr ⟨?_, hj, ?_⟩ <;>
      rcases hc.sizes with ⟨hs, hi⟩ | ⟨hs, hi⟩ | ⟨hs, hi⟩ | ⟨hs, hi⟩ <;> omega

theorem cra_distance (hc : s.cfg.Accepted userI) (h0 : Boundary s userI 0)
    (hzero : (s.atPicture 0).counters.i4CraCounter = 0) (hne : s.cfg.i4MaxCraPeriod ≠ 0) (i : Nat)
    (hi : (s.picType i).IsRandomAccess) :
    ∃ j, Gaps.NextAt (fun n => (s.picType n).IsRandomAccess) i j ∧
      WithinPeriod s s.cfg.i4MaxCraPeriod (j - i) j := by
  refine (gopScan (Q := WithinPeriod s s.cfg.i4MaxCraPeriod) s.cfg.i4MaxCraPeriod.toNat hc h0
    hzero (fun k hk => ?_) (by simp [PicTypeE.IsRandomAccess])
    (by simp [PicTypeE.IsRandomAccess]) (fun k k' len last hstep _ => ?_)).next i hi
  · have hinv := hk.cra hne
    rcases hc.sizes with ⟨hs, -⟩ | ⟨hs, -⟩ | ⟨hs, -⟩ | ⟨hs, -⟩ <;> omega
  · rcases hstep.cra hne with ⟨hl, hlen, hk'⟩ | ⟨hl, hlen, hk'⟩ | ⟨hl, hl', hk'⟩
    · exact Or.inl ⟨Or.inl hl, hk', fun d j hd hj => withinPeriod_of_late hc hd (hj.trans hl) hlen⟩
    · exact Or.inl ⟨Or.inr hl, hk', fun d j hd _ => Or.inl (hd.trans_le hlen)⟩
    · exact Or.inr ⟨not_or.mpr ⟨hl, hl'⟩, hk'⟩

theorem intra_distance (hc : s.cfg.Accepted userI) (h0 : Boundary s userI 0)
    (hzero : (s.atPicture 0).counters.i4ICounter = 0) (hne : userI ≠ 0) (i : Nat)
    (hi : (s.picType i).IsIntra) :
    ∃ j, Gaps.NextAt (fun n => (s.picType n).IsIntra) i j ∧
      WithinPeriod s s.cfg.i4MaxIPeriod (j - i) j := by
  refine (gopScan (Q := WithinPeriod s s.cfg.i4MaxIPeriod) s.cfg.i4MaxIPeriod.toNat hc h0
    hzero (fun k hk => ?_) (by simp [PicTypeE.IsIntra]) (by simp [PicTypeE.IsIntra])
    (fun k k' len last hstep _ => ?_)).next i hi
  · have hinv := hk.intra hne
    rcases hc.sizes with ⟨hs, -⟩ | ⟨hs, -⟩ | ⟨hs, -⟩ | ⟨hs, -⟩ <;> omega
  · rcases hstep.intra hne with ⟨hl, hlen, hk'⟩ | ⟨hl, hlen, hk'⟩ | ⟨hl, hk'⟩
    · exact Or.inl ⟨Or.inl hl, hk', fun d j hd hj => withinPeriod_of_late hc hd (hj.trans hl) hlen⟩
    · exact Or.inl ⟨Or.inr hl, hk', fun d j hd _ => Or.inl (hd.trans_le hlen)⟩
    · exact Or.inr ⟨by rw [hl]; simp [PicTypeE.IsIntra], hk'⟩

-- ---------------------------------------------------------------------------
-- The main result
-- ---------------------------------------------------------------------------

/-- What holds of the state before a sub-GOP is chosen, and of what is chosen. -/
structure SubGopSound (c : GopCfg) (k : GopCounters) : Prop where
  asserts : k.Asserts c
  numB : ∀ n, (nextSubGop c k).i4NumBFrames = some n → 0 ≤ n ∧ n ≤ c.i4SubGopSize
  index : ∀ w ∈ (nextSubGop c k).writes, 0 ≤ w.1 ∧ w.1 < 10
  decided : 1 ≤ (nextSubGop c k).i4NumFrmTypeDecided
  written : (nextSubGop c k).i4NumFrmTypeDecided = (nextSubGop c k).writes.length

theorem GopCounters.Inv.sound {c : GopCfg} {k : GopCounters} (hc : c.Accepted userI)
    (h : GopCounters.Inv c userI k) : SubGopSound c k := by
  obtain ⟨b, pre, last, hsub⟩ := nextSubGop_chosen hc h
  have hpos := subGopTypes_length_pos b pre last
  have hnum := hsub.num
  refine ⟨h.asserts hc, fun n hn => ?_, fun w hw => ?_, by omega, ?_⟩
  · have hlt := hsub.b_lt
    have heq := hsub.numB n hn
    omega
  · rw [hsub.writes] at hw
    have hindex := numbered_index hw
    have hle := hsub.le
    rcases hc.sizes with ⟨-, hs⟩ | ⟨-, hs⟩ | ⟨-, hs⟩ | ⟨-, hs⟩ <;> omega
  · rw [hnum, hsub.writes, numbered_length]

/-- The periods of the GOP structure are kept, up to one picture before an IDR picture. -/
theorem ihevceDetermineNextSubGopState_periods (p q : GopParams) (mem : Int)
    (haccept : ihevceCheckGopPeriods p = .ok q) (hsmall : p.Small) :
    let s := ihevceLapInit q mem
    (∀ n, (s.atPicture n).i4NumFrmTypeDecided = 0 →
      (s.atPicture n).cfg = s.cfg ∧ SubGopSound s.cfg (s.atPicture n).counters) ∧
    s.picType 0 = .idr ∧
    (q.i4MaxClosedGopPeriod ≠ 0 → ∀ i, s.picType i = .idr →
      ∃ j, Gaps.NextAt (fun n => s.picType n = .idr) i j ∧
        ((j - i : Nat) : Int) = q.i4MaxClosedGopPeriod) ∧
    (q.i4MaxCraOpenGopPeriod ≠ 0 → ∀ i, (s.picType i).IsRandomAccess →
      ∃ j, Gaps.NextAt (fun n => (s.picType n).IsRandomAccess) i j ∧
        WithinPeriod s q.i4MaxCraOpenGopPeriod (j - i) j) ∧
    (q.i4MaxIOpenGopPeriod ≠ 0 → ∀ i, (s.picType i).IsIntra →
      ∃ j, Gaps.NextAt (fun n => (s.picType n).IsIntra) i j ∧
        WithinPeriod s q.i4MaxIOpenGopPeriod (j - i) j) := by
  intro s
  have hc : s.cfg.Accepted q.i4MaxIOpenGopPeriod := ihevceLapInit_accepted haccept hsmall mem
  have h0 : Boundary s q.i4MaxIOpenGopPeriod 0 := ihevceLapInit_boundary hc
  refine ⟨fun n hn => ?_, h0.picType hc, fun hne i hi => idr_distance hc h0 rfl hne i hi,
    fun hne i hi => cra_distance hc h0 rfl hne i hi, fun hne i hi => ?_⟩
  · have hb := boundary_of_num hc h0 n hn
    exact ⟨hb.cfg, hb.inv.sound hc⟩
  · have hdist := intra_distance hc h0 rfl hne i hi
    rw [(hc.intraUser hne).1] at hdist
    exact hdist

/-- Two temporal layers, an IDR picture every four pictures and a CRA picture as often. -/
def idrAndCraParams : GopParams := ⟨0, 2, 4, 0, 4, 0⟩

/-- An IDR period whose double does not fit 32 bits. -/
def hugeIdrParams : GopParams := ⟨0, 0, 2 ^ 30, 0, 0, 0⟩

theorem ihevceDetermineNextSubGopState_periods_idrAndCra :
    (ihevceLapInit idrAndCraParams.aligned 0).picType 0 = .idr :=
  (ihevceDetermineNextSubGopState_periods idrAndCraParams idrAndCraParams.aligned 0 (by decide)
    ⟨by decide, by decide, by decide⟩).2.1

/-- The next IDR picture stands five pictures behind the first, for a CRA period of four. -/
theorem idrAndCra_distance :
    (ihevceLapInit idrAndCraParams.aligned 0).picType 0 = .idr ∧
      (∀ k, 0 < k → k < 5 → (ihevceLapInit idrAndCraParams.aligned 0).picType k = .b ∨
        (ihevceLapInit idrAndCraParams.aligned 0).picType k = .p) ∧
      (ihevceLapInit idrAndCraParams.aligned 0).picType 5 = .idr := by
  refine ⟨by decide +kernel, fun k hk hlt => ?_, by decide +kernel⟩
  obtain rfl | rfl | rfl | rfl : k = 1 ∨ k = 2 ∨ k = 3 ∨ k = 4 := by omega
  all_goals decide +kernel

/-- Neither does every accepted configuration keep the period of CRA pictures, nor do the
assertions hold for every one. -/
theorem subGop_periods_counterexample :
    (¬∀ p q mem, ihevceCheckGopPeriods p = .ok q → q.i4MaxCraOpenGopPeriod ≠ 0 → ∀ i j,
      ((ihevceLapInit q mem).picType i).IsRandomAccess →
      Gaps.NextAt (fun n => ((ihevceLapInit q mem).picType n).IsRandomAccess) i j →
      ((j - i : Nat) : Int) ≤ q.i4MaxCraOpenGopPeriod) ∧
    ¬∀ p q mem, ihevceCheckGopPeriods p = .ok q →
      (ihevceLapInit q mem).counters.Asserts (ihevceLapInit q mem).cfg := by
  constructor
  · intro h
    obtain ⟨hfirst, hinner, hnext⟩ := idrAndCra_distance
    have hle := h idrAndCraParams idrAndCraParams.aligned 0 (by decide) (by decide) 0 5
      (Or.inl hfirst) ⟨by decide, Or.inl hnext, fun k hk hlt hra => ?_⟩
    · exact absurd hle (by decide)
    · dsimp only at hra
      rcases hinner k hk hlt with hk' | hk' <;> rw [hk'] at hra <;> rcases hra with hra | hra <;>
        cases hra
  · intro h
    have hasserts := h hugeIdrParams hugeIdrParams.aligned 0 (by decide)
    exact absurd (hasserts.2.2 (by decide)) (by decide)

end Libhevc.Encoder
