import Libhevc.Decoder.MvPred
import Libhevc.Encoder.MvPred
import Libhevc.RoundTrip.Collocated

/-!
# Motion vector predictors of both sides

Both sides look for the candidates in the same order. They differ in one place:
when there is no candidate A, the decoder scales the vector of the first
neighbour above also when it is for the current reference picture, and at some
distances this changes the vector.
-/

namespace Libhevc.RoundTrip

open Decoder (ihevcdMvPred ihevcdScaleMv getMvNbr nbrPus checkNbrMvSt checkNbrMvLt)
open Encoder (ihevceMvPred ihevceScaleMv firstNbr anyRef mvpList)

/-- The reference lists of the current slice: short-term pictures, none of them the current one. -/
structure SameRefs (h : Decoder.SliceHeader) (c : Encoder.MvPredCtxt) : Prop where
  poc : h.i4AbsPicOrderCnt = c.psSliceHdr.i4AbsPicOrderCnt
  isPoc : IsPoc c.psSliceHdr.i4AbsPicOrderCnt
  refPoc : ∀ lx refIdx, c.psSliceHdr.HasList lx →
    (h.psRefList lx refIdx).pvPicBuf.i4AbsPoc = (c.psRefList lx refIdx).i4Poc
  refShort : ∀ lx refIdx, (h.psRefList lx refIdx).pvPicBuf.u1UsedAsRef = shortTermRef
  refIsPoc : ∀ lx refIdx, IsPoc (c.psRefList lx refIdx).i4Poc
  refNe : ∀ lx refIdx, c.psSliceHdr.HasList lx →
    c.psSliceHdr.i4AbsPicOrderCnt ≠ (c.psRefList lx refIdx).i4Poc

/-- An inter neighbour in the current slice. -/
structure SameNbr (e : MotionHeader) (d : Decoder.Pu) (n : Encoder.Nbr4x4) : Prop where
  flag : ∀ lx, n.predFlag lx = d.b2PredMode.uses lx
  mv : ∀ lx, n.predFlag lx = true → d.mv.mv lx = n.mv.mv lx
  refIdx : ∀ lx, n.predFlag lx = true → d.mv.refIdx lx = n.mv.refIdx lx
  inSlice : ∀ lx, n.predFlag lx = true → e.HasList lx

/-- A neighbour that is available on both sides or on neither, and then inter or intra on both. -/
structure SameAvail (e : MotionHeader) (d : Bool × Decoder.Pu) (n : Bool × Encoder.Nbr4x4) :
    Prop where
  avail : d.1 = n.1
  intra : n.1 = true → d.2.b1IntraFlag = n.2.b1IntraFlag
  nbr : n.1 = true → n.2.b1IntraFlag = false → SameNbr e d.2 n.2

structure SameNbrs (e : MotionHeader) (d : Nbrs Decoder.Pu) (n : Nbrs Encoder.Nbr4x4) : Prop where
  left : List.Forall₂ (SameAvail e) d.left n.left
  top : List.Forall₂ (SameAvail e) d.top n.top

/-- A prediction unit of the current slice. -/
structure SamePu (e : MotionHeader) (d : Decoder.Pu) (p : Encoder.Pu) : Prop where
  posX : d.b4PosX = p.b4PosX
  posY : d.b4PosY = p.b4PosY
  wd : d.b4Wd = p.b4Wd
  ht : d.b4Ht = p.b4Ht
  refIdx : ∀ lx, d.b2PredMode.uses lx = true → d.mv.refIdx lx = p.curRefIdx lx
  inSlice : ∀ lx, d.b2PredMode.uses lx = true → e.HasList lx
  mvpIdx : ∀ lx, d.mvpIdx lx < 2

/-- The temporal vectors of the lists that the unit uses. -/
def SameTemporal (d : Decoder.Pu) (colD colE : Nat → Nat → ColMvp) : Prop :=
  ∀ x y lx, d.b2PredMode.uses lx = true →
    (colD x y).u4AvailColFlag lx = (colE x y).u4AvailColFlag lx ∧
      ((colE x y).u4AvailColFlag lx = true → (colD x y).mvCol lx = (colE x y).mvCol lx)

-- ---------------------------------------------------------------------------
-- Neighbours
-- ---------------------------------------------------------------------------

/-- Both sides stop at the same neighbour, if they agree on each one. -/
theorem getMvNbr_same {e : MotionHeader} {check : Decoder.Pu → ListX → Option Mv}
    {taken : Encoder.Nbr4x4 → ListX → Option ListX} {vector : Encoder.Nbr4x4 × ListX → Mv}
    {ds : List (Bool × Decoder.Pu)} {ns : List (Bool × Encoder.Nbr4x4)}
    (h : List.Forall₂ (SameAvail e) ds ns) (lx : ListX)
    (hone : ∀ d n, SameNbr e d n → (check d lx).or (check d lx.other) =
      (taken n lx).map fun list => vector (n, list)) :
    getMvNbr check lx (nbrPus ds) = (firstNbr taken lx ns).map vector := by
  induction h with
  | nil => rfl
  | @cons d n ds ns hhead _ ih =>
    obtain ⟨availD, d⟩ := d
    obtain ⟨avail, n⟩ := n
    obtain ⟨havail, hintra, hnbr⟩ := hhead
    dsimp only at havail hintra hnbr
    subst havail
    unfold firstNbr
    by_cases hinter : availD = true ∧ n.b1IntraFlag = false
    · have hcons : nbrPus ((availD, d) :: ds) = d :: nbrPus ds := by
        simp [nbrPus, hinter.1, hintra hinter.1, hinter.2]
      have hvector := hone d n (hnbr hinter.1 hinter.2)
      rw [hcons, if_pos hinter]
      unfold getMvNbr
      cases htaken : taken n lx with
      | none =>
        rw [htaken, Option.map_none, Option.or_eq_none_iff] at hvector
        rw [hvector.1, hvector.2]
        exact ih
      | some list =>
        rw [htaken, Option.map_some] at hvector
        cases hcheck : check d lx with
        | none =>
          rw [hcheck, Option.none_or] at hvector
          rw [hvector]
          rfl
        | some mv =>
          rw [hcheck, Option.some_or] at hvector
          exact hvector
    · have hskip : nbrPus ((availD, d) :: ds) = nbrPus ds := by
        cases availD with
        | false => rfl
        | true =>
          have hdIntra : d.b1IntraFlag = true := by
            rw [hintra rfl]
            simpa using hinter
          simp [nbrPus, hdIntra]
      rw [hskip, if_neg hinter]
      exact ih

/-- The neighbour that is found is one of those that are looked at. -/
theorem firstNbr_some {taken : Encoder.Nbr4x4 → ListX → Option ListX}
    {ns : List (Bool × Encoder.Nbr4x4)} (h : firstNbr taken lx ns = some (n, list)) :
    (true, n) ∈ ns ∧ n.b1IntraFlag = false ∧ taken n lx = some list := by
  induction ns with
  | nil => contradiction
  | cons head ns ih =>
    obtain ⟨avail, m⟩ := head
    unfold firstNbr at h
    split at h
    case isTrue hinter =>
      split at h
      case h_1 list' htaken =>
        obtain ⟨rfl, rfl⟩ := Prod.mk.inj (Option.some.inj h)
        obtain ⟨rfl, hinter⟩ := hinter
        exact ⟨List.mem_cons_self, hinter, htaken⟩
      case h_2 =>
        obtain ⟨hmem, hfound⟩ := ih h
        exact ⟨List.mem_cons_of_mem _ hmem, hfound⟩
    case isFalse =>
      obtain ⟨hmem, hfound⟩ := ih h
      exact ⟨List.mem_cons_of_mem _ hmem, hfound⟩

theorem SameAvail.ofMem {ds : List (Bool × Decoder.Pu)} (h : List.Forall₂ (SameAvail e) ds ns)
    (hmem : (true, n) ∈ ns) (hinter : n.b1IntraFlag = false) : ∃ d, SameNbr e d n := by
  induction h with
  | nil => contradiction
  | @cons d m ds ns hhead _ ih =>
    rcases List.mem_cons.mp hmem with rfl | hmem
    · exact ⟨d.2, hhead.nbr rfl hinter⟩
    · exact ih hmem

theorem takenList_some {taken : ListX → Prop} [DecidablePred taken]
    (h : Encoder.takenList taken lx = some list) : taken list := by
  unfold Encoder.takenList at h
  split at h
  case isTrue htaken =>
    obtain rfl := Option.some.inj h
    exact htaken
  case isFalse =>
    split at h
    case isTrue htaken =>
      obtain rfl := Option.some.inj h
      exact htaken
    case isFalse => contradiction

/-- The vector that is taken of all is taken of those that are wanted, if it is one of them. -/
theorem takenList_and {taken wanted : ListX → Prop} [DecidablePred taken] [DecidablePred wanted]
    (hwanted : ∀ list, Encoder.takenList taken lx = some list → wanted list) :
    Encoder.takenList (fun list => taken list ∧ wanted list) lx = Encoder.takenList taken lx := by
  unfold Encoder.takenList at hwanted ⊢
  by_cases hlx : taken lx
  · rw [if_pos hlx] at hwanted ⊢
    exact if_pos ⟨hlx, hwanted lx rfl⟩
  · rw [if_neg hlx] at hwanted ⊢
    rw [if_neg fun hboth => hlx hboth.1]
    by_cases hother : taken lx.other
    · rw [if_pos hother] at hwanted ⊢
      exact if_pos ⟨hother, hwanted _ rfl⟩
    · rw [if_neg hother]
      exact if_neg fun hboth => hother hboth.1

/-- The first neighbour with a vector, when the vector is for the current reference picture, is
also the first one with such a vector. -/
theorem firstNbr_same {c : Encoder.MvPredCtxt} {ns : List (Bool × Encoder.Nbr4x4)}
    (h : firstNbr anyRef lx ns = some (n, list)) (hpoc : c.nbrRefPoc n list = curRefPoc) :
    firstNbr (c.sameRef curRefPoc) lx ns = some (n, list) := by
  induction ns with
  | nil => contradiction
  | cons head ns ih =>
    obtain ⟨avail, m⟩ := head
    unfold firstNbr at h ⊢
    by_cases hinter : avail = true ∧ m.b1IntraFlag = false
    · rw [if_pos hinter] at h ⊢
      have hsame : c.sameRef curRefPoc m lx = anyRef m lx := by
        refine takenList_and fun list' htaken => ?_
        have htaken : anyRef m lx = some list' := htaken
        rw [htaken] at h
        obtain ⟨rfl, rfl⟩ := Prod.mk.inj (Option.some.inj h)
        exact hpoc
      rw [hsame]
      cases hany : anyRef m lx with
      | none =>
        rw [hany] at h
        exact ih h
      | some list' =>
        rw [hany] at h
        exact h
    · rw [if_neg hinter] at h ⊢
      exact ih h

-- ---------------------------------------------------------------------------
-- Spatial candidates
-- ---------------------------------------------------------------------------

section
variable {h : Decoder.SliceHeader} {c : Encoder.MvPredCtxt} {curPicBuf : PicBuf}
  {ds : List (Bool × Decoder.Pu)} {ns : List (Bool × Encoder.Nbr4x4)}

theorem SameNbr.refPoc {d : Decoder.Pu} {n : Encoder.Nbr4x4} (hrefs : SameRefs h c)
    (hnbr : SameNbr c.psSliceHdr d n) (hflag : n.predFlag lx = true) :
    (h.psRefList lx (d.mv.refIdx lx)).pvPicBuf.i4AbsPoc = c.nbrRefPoc n lx := by
  rw [hnbr.refIdx lx hflag]
  exact hrefs.refPoc lx _ (hnbr.inSlice lx hflag)

theorem getMvNbr_st (hrefs : SameRefs h c) (hnbrs : List.Forall₂ (SameAvail c.psSliceHdr) ds ns)
    (lx : ListX) :
    getMvNbr (checkNbrMvSt h curPicBuf) lx (nbrPus ds) =
      (firstNbr (c.sameRef curPicBuf.i4AbsPoc) lx ns).map fun nbr => nbr.1.mv.mv nbr.2 := by
  refine getMvNbr_same hnbrs lx fun d n hnbr => ?_
  have hcheck : ∀ lx, checkNbrMvSt h curPicBuf d lx =
      if n.predFlag lx = true ∧ c.nbrRefPoc n lx = curPicBuf.i4AbsPoc then some (n.mv.mv lx)
      else none := by
    intro lx
    unfold checkNbrMvSt
    rw [← hnbr.flag lx]
    by_cases hflag : n.predFlag lx = true
    · simp only [hnbr.refPoc hrefs hflag, hnbr.mv lx hflag, eq_comm]
    · simp only [hflag, Bool.false_eq_true, false_and, if_false]
  rw [hcheck, hcheck, Encoder.MvPredCtxt.sameRef, Encoder.takenList]
  split_ifs <;> rfl

theorem getMvNbr_lt (hrefs : SameRefs h c) (hcur : curPicBuf.u1UsedAsRef = shortTermRef)
    (hnbrs : List.Forall₂ (SameAvail c.psSliceHdr) ds ns) (lx : ListX) :
    getMvNbr (checkNbrMvLt h curPicBuf) lx (nbrPus ds) =
      (firstNbr anyRef lx ns).map fun nbr => ihevcdScaleMv (nbr.1.mv.mv nbr.2)
        curPicBuf.i4AbsPoc (c.nbrRefPoc nbr.1 nbr.2) c.psSliceHdr.i4AbsPicOrderCnt := by
  refine getMvNbr_same hnbrs lx fun d n hnbr => ?_
  have hcheck : ∀ lx, checkNbrMvLt h curPicBuf d lx =
      if n.predFlag lx = true then some (ihevcdScaleMv (n.mv.mv lx) curPicBuf.i4AbsPoc
        (c.nbrRefPoc n lx) c.psSliceHdr.i4AbsPicOrderCnt)
      else none := by
    intro lx
    unfold checkNbrMvLt
    rw [← hnbr.flag lx]
    by_cases hflag : n.predFlag lx = true
    · simp only [hflag, hcur, hrefs.refShort, hnbr.refPoc hrefs hflag, hnbr.mv lx hflag,
        hrefs.poc, iff_self, and_self, if_true]
    · simp only [hflag, Bool.false_eq_true, false_and, if_false]
  rw [hcheck, hcheck, anyRef, Encoder.takenList]
  split_ifs <;> rfl

/-- A neighbour that the encoder scales is not for the current picture. -/
theorem scaleMv_some (hrefs : SameRefs h c)
    (hnbrs : List.Forall₂ (SameAvail c.psSliceHdr) ds ns)
    (hfirst : firstNbr anyRef lx ns = some (n, list)) (mv : Mv) (curRefPoc : Int) :
    ihevceScaleMv mv curRefPoc (c.nbrRefPoc n list) c.psSliceHdr.i4AbsPicOrderCnt =
      some (ihevcdScaleMv mv curRefPoc (c.nbrRefPoc n list) c.psSliceHdr.i4AbsPicOrderCnt) := by
  obtain ⟨hmem, hinter, htaken⟩ := firstNbr_some hfirst
  obtain ⟨d, hnbr⟩ := SameAvail.ofMem hnbrs hmem hinter
  have hne : c.psSliceHdr.i4AbsPicOrderCnt ≠ c.nbrRefPoc n list :=
    hrefs.refNe list _ (hnbr.inSlice list (takenList_some htaken))
  have hpoc : IsPoc (c.nbrRefPoc n list) := hrefs.refIsPoc list _
  unfold ihevcdScaleMv ihevceScaleMv
  rw [Mv.scaleBy_some mv hrefs.isPoc hpoc hne,
    if_pos ((clipS8_distance hrefs.isPoc hpoc).not.mpr hne)]

end

-- ---------------------------------------------------------------------------
-- The list that the decoder runs through
-- ---------------------------------------------------------------------------

/-- A candidate B is added unless it is equal to candidate A. -/
def addCandB (list : List Mv) (mvA mvB : Option Mv) : List Mv :=
  match mvB with
  | none => list
  | some mv => if list = [] ∨ mvA ≠ some mv then list ++ [mv] else list

/-- All candidates, from those of the neighbours: `mvA`, `mvB` and the scaled `mvL`. -/
def candList (mvA mvB mvL : Option Mv) (isScaled : Bool) (temporal : Option Mv) : List Mv :=
  let list := addCandB mvA.toList mvA mvB
  let list := if isScaled then list else addCandB list (mvB.or mvA) mvL
  if list.length = 2 then list else list ++ temporal.toList

theorem prefix_addCandB (list : List Mv) (mvA mvB : Option Mv) : list <+: addCandB list mvA mvB := by
  unfold addCandB
  split
  · exact List.prefix_refl _
  · split
    · exact List.prefix_append ..
    · exact List.prefix_refl _

theorem prefix_addTemporal (list : List Mv) (mvCol : Option Mv) :
    list <+: if list.length = 2 then list else list ++ mvCol.toList := by
  split
  · exact List.prefix_refl _
  · exact List.prefix_append ..

/-- The state has run through the candidates, of which the one at `maxMvpCand` is wanted. -/
structure Counted (s : Decoder.MvpCands) (maxMvpCand : Nat) (list : List Mv) : Prop where
  num : s.numMvpCand = list.length
  done : s.doneFlag = true ↔ maxMvpCand ≤ list.length
  pred : maxMvpCand ≤ list.length → list[maxMvpCand - 1]? = some s.predMv

section
variable {s : Decoder.MvpCands} {list : List Mv} {maxMvpCand : Nat}

theorem Counted.add (h : Counted s maxMvpCand list) (hmax : 0 < maxMvpCand) (mv : Mv) :
    Counted (s.add maxMvpCand mv) maxMvpCand (list ++ [mv]) := by
  unfold Decoder.MvpCands.add
  rw [h.num]
  dsimp only
  by_cases hlast : maxMvpCand = list.length + 1
  · rw [if_pos hlast]
    refine ⟨by simp, iff_of_true rfl (by simp [hlast]), fun _ => ?_⟩
    rw [hlast, Nat.add_sub_cancel, List.getElem?_concat_length]
  · rw [if_neg hlast]
    have hle : maxMvpCand ≤ (list ++ [mv]).length ↔ maxMvpCand ≤ list.length := by
      rw [List.length_append, List.length_singleton]
      omega
    refine ⟨by simp, h.done.trans hle.symm, fun hfound => ?_⟩
    have hfound := hle.mp hfound
    rw [List.getElem?_append_left (by omega)]
    exact h.pred hfound

theorem Counted.addB (h : Counted s maxMvpCand list) (hmax : 0 < maxMvpCand) (mvA mvB : Option Mv) :
    Counted (s.addB maxMvpCand mvA mvB) maxMvpCand (addCandB list mvA mvB) := by
  unfold Decoder.MvpCands.addB addCandB
  cases mvB with
  | none => exact h
  | some mv =>
    simp only [h.num, List.length_eq_zero_iff]
    split
    · exact h.add hmax mv
    · exact h

/-- A candidate that was found is not replaced by later ones. -/
theorem Counted.exit (h : Counted s maxMvpCand list) (hmax : 0 < maxMvpCand)
    (hdone : s.doneFlag = true) (hpre : list <+: all) :
    s.predMv = (all[maxMvpCand - 1]?).getD .zero := by
  obtain ⟨rest, rfl⟩ := hpre
  have hle := h.done.mp hdone
  rw [List.getElem?_append_left (by omega), h.pred hle]
  rfl

theorem Counted.result (h : Counted s maxMvpCand list) (hmax : 0 < maxMvpCand) :
    (if s.doneFlag then s.predMv else .zero) = (list[maxMvpCand - 1]?).getD .zero := by
  by_cases hdone : s.doneFlag = true
  · rw [if_pos hdone]
    exact h.exit hmax hdone (List.prefix_refl _)
  · rw [if_neg hdone, List.getElem?_eq_none]
    · rfl
    · have hlt := h.done.not.mp hdone
      omega

end

theorem bothDone_list (h : Decoder.bothDone s = true) (lx : ListX) : (s lx).doneFlag = true := by
  obtain ⟨hl0, hl1⟩ := Bool.and_eq_true_iff.mp h
  cases lx with
  | l0 => exact hl0
  | l1 => exact hl1

/-- A temporal candidate is left out when both lists have two. -/
theorem Counted.addTemporal {full : Prop} [Decidable full] (h : Counted s maxMvpCand list)
    (hmax : 0 < maxMvpCand) (mvCol : Option Mv) (hfull : full → s.numMvpCand = 2) :
    Counted (if full then s else s.addTemporal maxMvpCand mvCol) maxMvpCand
      (if list.length = 2 then list else list ++ mvCol.toList) := by
  by_cases hf : full
  · rw [if_pos hf, if_pos (h.num.symm.trans (hfull hf))]
    exact h
  · rw [if_neg hf]
    unfold Decoder.MvpCands.addTemporal
    cases mvCol with
    | none => simpa using h
    | some mv =>
      simp only [h.num, ne_eq, ite_not, eq_comm]
      split
      · exact h
      · exact h.add hmax mv

theorem Counted.unless {t : Decoder.MvpCands} (isScaled : Bool) (h : Counted s maxMvpCand list)
    (ht : Counted t maxMvpCand longer) (hpre : list <+: longer) :
    Counted (if isScaled then s else t) maxMvpCand (if isScaled then list else longer) ∧
      list <+: if isScaled then list else longer := by
  cases isScaled with
  | false => exact ⟨ht, hpre⟩
  | true => exact ⟨h, List.prefix_refl _⟩

theorem stop_or_go {s : ListX → Decoder.MvpCands} {f : ListX → Mv}
    (hstop : (s lx).doneFlag = true → (s lx).predMv = mv) (hgo : f lx = mv) :
    (if Decoder.bothDone s then fun lx => (s lx).predMv else f) lx = mv := by
  split
  case isTrue hdone => exact hstop (bothDone_list hdone lx)
  case isFalse => exact hgo

/-- Whether the decoder stops early or not, it returns the candidate that the index asks for. -/
theorem mvpOrder_list (pu : Decoder.Pu) (psPredMv : ListX → Mv)
    (mvA mvB mvL mvCol : ListX → Option Mv) (isScaled : Bool)
    (huses : pu.b2PredMode.uses lx = true) :
    Decoder.mvpOrder pu psPredMv mvA mvB mvL mvCol isScaled lx =
      ((candList (mvA lx) (mvB lx) (mvL lx) isScaled (mvCol lx))[pu.mvpIdx lx]?).getD .zero := by
  have hmax : 0 < pu.mvpIdx lx + 1 := Nat.succ_pos _
  have hA : Counted
      (match mvA lx with
        | none => ⟨0, !pu.b2PredMode.uses lx, psPredMv lx⟩
        | some mv => Decoder.MvpCands.add ⟨0, !pu.b2PredMode.uses lx, psPredMv lx⟩
            (pu.mvpIdx lx + 1) mv)
      (pu.mvpIdx lx + 1) (mvA lx).toList := by
    have hstart : Counted ⟨0, !pu.b2PredMode.uses lx, psPredMv lx⟩ (pu.mvpIdx lx + 1) [] :=
      ⟨rfl, by simp [huses], nofun⟩
    cases mvA lx with
    | none => exact hstart
    | some mv => exact hstart.add hmax mv
  have hB := hA.addB hmax (mvA lx) (mvB lx)
  have hpreB := prefix_addCandB (mvA lx).toList (mvA lx) (mvB lx)
  obtain ⟨hL, hpreL⟩ := hB.unless isScaled
    (hB.addB hmax ((mvB lx).or (mvA lx)) (mvL lx)) (prefix_addCandB ..)
  have hpreCol := prefix_addTemporal
    (if isScaled then addCandB (mvA lx).toList (mvA lx) (mvB lx)
      else addCandB (addCandB (mvA lx).toList (mvA lx) (mvB lx)) ((mvB lx).or (mvA lx)) (mvL lx))
    (mvCol lx)
  unfold Decoder.mvpOrder candList
  refine stop_or_go (fun hdone => hA.exit hmax hdone (hpreB.trans (hpreL.trans hpreCol)))
    (stop_or_go (fun hdone => hB.exit hmax hdone (hpreL.trans hpreCol))
      (stop_or_go (fun hdone => hL.exit hmax hdone hpreCol) ?_))
  refine Counted.result (hL.addTemporal hmax (mvCol lx) fun hfull => ?_) hmax
  cases lx with
  | l0 => exact hfull.1.symm
  | l1 => exact hfull.2.symm

-- ---------------------------------------------------------------------------
-- The lists of both sides
-- ---------------------------------------------------------------------------

/-- What the predictors of a prediction block depend on. -/
structure SameMotion (h : Decoder.SliceHeader) (c : Encoder.MvPredCtxt) (nbrsD : Nbrs Decoder.Pu)
    (nbrsE : Nbrs Encoder.Nbr4x4) (d : Decoder.Pu) (p : Encoder.Pu)
    (colD colE : Nat → Nat → ColMvp) : Prop where
  refs : SameRefs h c
  nbrs : SameNbrs c.psSliceHdr nbrsD nbrsE
  pu : SamePu c.psSliceHdr d p
  temporal : SameTemporal d colD colE

/-- There is an inter neighbour on the left. -/
def isScaled (nbrs : Nbrs Encoder.Nbr4x4) : Bool :=
  nbrs.left.any fun nbr => nbr.1 && !nbr.2.b1IntraFlag

/-- The count of the current reference picture. -/
def curRefPoc (c : Encoder.MvPredCtxt) (p : Encoder.Pu) (lx : ListX) : Int :=
  (c.psRefList lx (p.curRefIdx lx)).i4Poc

def sameMv (c : Encoder.MvPredCtxt) (p : Encoder.Pu) (ns : List (Bool × Encoder.Nbr4x4))
    (lx : ListX) : Option Mv :=
  (firstNbr (c.sameRef (curRefPoc c p lx)) lx ns).map fun nbr => nbr.1.mv.mv nbr.2

/-- The vector of a neighbour, scaled. -/
def scaledMv (c : Encoder.MvPredCtxt) (p : Encoder.Pu) (lx : ListX)
    (nbr : Encoder.Nbr4x4 × ListX) : Mv :=
  ihevcdScaleMv (nbr.1.mv.mv nbr.2) (curRefPoc c p lx) (c.nbrRefPoc nbr.1 nbr.2)
    c.psSliceHdr.i4AbsPicOrderCnt

/-- It is scaled only when it is for another reference picture. -/
def otherMv (c : Encoder.MvPredCtxt) (p : Encoder.Pu) (lx : ListX)
    (nbr : Encoder.Nbr4x4 × ListX) : Mv :=
  if curRefPoc c p lx ≠ c.nbrRefPoc nbr.1 nbr.2 then scaledMv c p lx nbr else nbr.1.mv.mv nbr.2

def temporalOf (p : Encoder.Pu) (collocatedMvp : Nat → Nat → ColMvp) (lx : ListX) : Option Mv :=
  let x := p.b4PosX <<< 2
  let y := p.b4PosY <<< 2
  let wd := (p.b4Wd + 1) <<< 2
  let ht := (p.b4Ht + 1) <<< 2
  temporalMv (collocatedMvp (x + wd) (y + ht)) (collocatedMvp (x + wd >>> 1) (y + ht >>> 1)) lx

/-- `mvp_list_lX` of a list. -/
def mvpListLx (c : Encoder.MvPredCtxt) (nbrs : Nbrs Encoder.Nbr4x4) (p : Encoder.Pu)
    (collocatedMvp : Nat → Nat → ColMvp) (lx : ListX) : List Mv :=
  let mvA := (sameMv c p nbrs.left lx).or ((firstNbr anyRef lx nbrs.left).map (scaledMv c p lx))
  mvpList (if isScaled nbrs then mvA else (sameMv c p nbrs.top lx).or mvA)
    (if isScaled nbrs then sameMv c p nbrs.top lx
      else (firstNbr anyRef lx nbrs.top).map (otherMv c p lx))
    (temporalOf p collocatedMvp lx)

/-- A `WORD16` -/
def IsI16 (x : Int) : Prop := -2 ^ 15 ≤ x ∧ x < 2 ^ 15

theorem addMvd_mvd (hmv : IsI16 mv) (hmvp : IsI16 mvp) :
    Decoder.addMvd mvp (Encoder.mvd mv mvp) = mv := by
  obtain ⟨hmvlo, hmvhi⟩ := hmv
  obtain ⟨hmvplo, hmvphi⟩ := hmvp
  norm_num [Decoder.addMvd, Encoder.mvd, i16, wrapInt] at *
  split <;> omega

section
variable {h : Decoder.SliceHeader} {c : Encoder.MvPredCtxt} {nbrsD : Nbrs Decoder.Pu}
  {nbrsE : Nbrs Encoder.Nbr4x4} {d : Decoder.Pu} {p : Encoder.Pu} {colD colE : Nat → Nat → ColMvp}

theorem nbrPus_inter {e : MotionHeader} {ds : List (Bool × Decoder.Pu)}
    {ns : List (Bool × Encoder.Nbr4x4)} (h : List.Forall₂ (SameAvail e) ds ns) :
    (!(nbrPus ds).isEmpty) = ns.any fun nbr => nbr.1 && !nbr.2.b1IntraFlag := by
  induction h with
  | nil => rfl
  | @cons d n ds ns hhead _ ih =>
    obtain ⟨availD, d⟩ := d
    obtain ⟨avail, n⟩ := n
    obtain ⟨havail, hintra, _⟩ := hhead
    dsimp only at havail hintra
    subst havail
    rw [List.any_cons, ← ih]
    cases availD with
    | false => rfl
    | true => cases hd : d.b1IntraFlag <;> simp [nbrPus, hd, ← hintra rfl]

/-- Candidate A of the encoder, of which there is none where its scaling divides by zero. -/
def candA (c : Encoder.MvPredCtxt) (nbrs : Nbrs Encoder.Nbr4x4) (p : Encoder.Pu) (lx : ListX) :
    Option (Option Mv) :=
  match sameMv c p nbrs.left lx with
  | some mv => some (some mv)
  | none =>
    match firstNbr anyRef lx nbrs.left with
    | none => some none
    | some nbr => (ihevceScaleMv (nbr.1.mv.mv nbr.2) (curRefPoc c p lx) (c.nbrRefPoc nbr.1 nbr.2)
        c.psSliceHdr.i4AbsPicOrderCnt).map some

def candB (c : Encoder.MvPredCtxt) (nbrs : Nbrs Encoder.Nbr4x4) (p : Encoder.Pu) (lx : ListX) :
    Option (Option Mv) :=
  if isScaled nbrs then some (sameMv c p nbrs.top lx)
  else
    match firstNbr anyRef lx nbrs.top with
    | none => some none
    | some nbr =>
      if curRefPoc c p lx ≠ c.nbrRefPoc nbr.1 nbr.2 then
        (ihevceScaleMv (nbr.1.mv.mv nbr.2) (curRefPoc c p lx) (c.nbrRefPoc nbr.1 nbr.2)
          c.psSliceHdr.i4AbsPicOrderCnt).map some
      else some (some (nbr.1.mv.mv nbr.2))

theorem ihevceMvPred_bind (c : Encoder.MvPredCtxt) (nbrs : Nbrs Encoder.Nbr4x4) (p : Encoder.Pu)
    (collocatedMvp : Nat → Nat → ColMvp) :
    ihevceMvPred c nbrs p collocatedMvp =
      (candA c nbrs p .l0).bind fun mvA0 => (candA c nbrs p .l1).bind fun mvA1 =>
        (candB c nbrs p .l0).bind fun mvB0 => (candB c nbrs p .l1).bind fun mvB1 =>
          let list := fun lx (mvA mvB : Option Mv) =>
            mvpList (if isScaled nbrs then mvA else (sameMv c p nbrs.top lx).or mvA) mvB
              (temporalOf p collocatedMvp lx)
          some fun lx =>
            match lx with
            | .l0 => list .l0 mvA0 mvB0
            | .l1 => list .l1 mvA1 mvB1 :=
  rfl

/-- The vector of the decoder's list is the temporal one of the encoder's. -/
theorem SameMotion.temporalMv (hm : SameMotion h c nbrsD nbrsE d p colD colE)
    (huses : d.b2PredMode.uses lx = true) (x y x' y' : Nat) :
    temporalMv (colD x y) (colD x' y') lx = temporalMv (colE x y) (colE x' y') lx := by
  obtain ⟨havail, hmv⟩ := hm.temporal x y lx huses
  obtain ⟨havail', hmv'⟩ := hm.temporal x' y' lx huses
  unfold Libhevc.temporalMv
  rw [havail, havail']
  by_cases hfirst : (colE x y).u4AvailColFlag lx = true
  · rw [if_pos hfirst, if_pos hfirst, hmv hfirst]
  · rw [if_neg hfirst, if_neg hfirst]
    by_cases hsecond : (colE x' y').u4AvailColFlag lx = true
    · rw [if_pos hsecond, if_pos hsecond, hmv' hsecond]
    · rw [if_neg hsecond, if_neg hsecond]

/-- What the decoder returns for a list that the unit uses. -/
theorem ihevcdMvPred_list (hm : SameMotion h c nbrsD nbrsE d p colD colE)
    (psPredMv : ListX → Mv) (huses : d.b2PredMode.uses lx = true) :
    ihevcdMvPred h nbrsD d colD psPredMv lx =
      ((candList
          ((sameMv c p nbrsE.left lx).or ((firstNbr anyRef lx nbrsE.left).map (scaledMv c p lx)))
          (sameMv c p nbrsE.top lx) ((firstNbr anyRef lx nbrsE.top).map (scaledMv c p lx))
          (isScaled nbrsE) (temporalOf p colE lx))[d.mvpIdx lx]?).getD .zero := by
  have hskip : ¬(lx = .l1 ∧ d.b2PredMode = .predL0) := by
    rintro ⟨rfl, hmode⟩
    rw [hmode] at huses
    contradiction
  have hcurIdx := hm.pu.refIdx lx huses
  have hcur := hm.refs.refPoc lx (p.curRefIdx lx) (hm.pu.inSlice lx huses)
  have hshort := hm.refs.refShort lx (p.curRefIdx lx)
  unfold ihevcdMvPred
  rw [mvpOrder_list _ _ _ _ _ _ _ huses]
  simp only [if_neg hskip, hcurIdx, hm.temporalMv huses, nbrPus_inter hm.nbrs.left,
    getMvNbr_st hm.refs hm.nbrs.left, getMvNbr_st hm.refs hm.nbrs.top,
    getMvNbr_lt hm.refs hshort hm.nbrs.left, getMvNbr_lt hm.refs hshort hm.nbrs.top, hcur,
    hm.pu.posX, hm.pu.posY, hm.pu.wd, hm.pu.ht]
  rfl

/-- No scaling of the encoder divides by zero. -/
theorem scaledMv_some (hm : SameMotion h c nbrsD nbrsE d p colD colE)
    {ds : List (Bool × Decoder.Pu)} {ns : List (Bool × Encoder.Nbr4x4)}
    (hnbrs : List.Forall₂ (SameAvail c.psSliceHdr) ds ns) (hfirst : firstNbr anyRef lx ns = some nbr) :
    (ihevceScaleMv (nbr.1.mv.mv nbr.2) (curRefPoc c p lx) (c.nbrRefPoc nbr.1 nbr.2)
      c.psSliceHdr.i4AbsPicOrderCnt).map some = some (some (scaledMv c p lx nbr)) := by
  rw [scaleMv_some hm.refs hnbrs hfirst]
  rfl

/-- The lists of the encoder. -/
theorem ihevceMvPred_list (hm : SameMotion h c nbrsD nbrsE d p colD colE) :
    ∃ lists, ihevceMvPred c nbrsE p colE = some lists ∧
      ∀ lx, lists lx = mvpListLx c nbrsE p colE lx := by
  have hA : ∀ lx, candA c nbrsE p lx = some ((sameMv c p nbrsE.left lx).or
      ((firstNbr anyRef lx nbrsE.left).map (scaledMv c p lx))) := by
    intro lx
    unfold candA
    cases sameMv c p nbrsE.left lx with
    | some mv => rfl
    | none =>
      cases hfirst : firstNbr anyRef lx nbrsE.left with
      | none => rfl
      | some nbr => exact scaledMv_some hm hm.nbrs.left hfirst
  have hB : ∀ lx, candB c nbrsE p lx = some (if isScaled nbrsE then sameMv c p nbrsE.top lx
      else (firstNbr anyRef lx nbrsE.top).map (otherMv c p lx)) := by
    intro lx
    unfold candB
    split
    · rfl
    · cases hfirst : firstNbr anyRef lx nbrsE.top with
      | none => rfl
      | some nbr =>
        rw [Option.map_some, otherMv]
        dsimp only
        split
        · exact scaledMv_some hm hm.nbrs.top hfirst
        · rfl
  rw [ihevceMvPred_bind, hA, hA, hB, hB]
  refine ⟨_, rfl, fun lx => ?_⟩
  cases lx <;> rfl

/-- An entry of the encoder's list, which is filled up with zeros. -/
theorem mvpList_get (mvA mvB mvL temporal : Option Mv) (hidx : idx < 2) :
    (mvpList mvA mvB temporal)[idx]? =
      some (((candList mvA mvB mvL true temporal)[idx]?).getD .zero) := by
  have hle : (addCandB mvA.toList mvA mvB).length ≤ 2 := by
    unfold addCandB
    cases mvA <;> cases mvB <;> simp
    split <;> simp
  have hadd : mvpList mvA mvB temporal =
      (let list := addCandB mvA.toList mvA mvB
       let list := if list.length < 2 then list ++ temporal.toList else list
       (list ++ List.replicate (2 - list.length) Mv.zero).take 2) := by
    unfold mvpList addCandB
    cases mvB with
    | none => rfl
    | some mv =>
      have hcomm : (if mvA ≠ some mv ∨ mvA.toList = [] then mvA.toList ++ [mv] else mvA.toList) =
          if mvA.toList = [] ∨ mvA ≠ some mv then mvA.toList ++ [mv] else mvA.toList :=
        if_congr or_comm rfl rfl
      dsimp only
      rw [hcomm]
      rfl
  have hfull : ∀ list : List Mv, list.length ≤ 2 →
      (if list.length < 2 then list ++ temporal.toList else list) =
        if list.length = 2 then list else list ++ temporal.toList := by
    intro list hlist
    by_cases htwo : list.length = 2
    · rw [if_pos htwo, if_neg (by omega)]
    · rw [if_neg htwo, if_pos (by omega)]
  rw [hadd]
  unfold candList
  dsimp only
  rw [if_pos rfl, hfull _ hle, List.getElem?_take_of_lt hidx]
  generalize (if (addCandB mvA.toList mvA mvB).length = 2 then addCandB mvA.toList mvA mvB
    else addCandB mvA.toList mvA mvB ++ temporal.toList) = list
  by_cases hin : idx < list.length
  · rw [List.getElem?_append_left hin, List.getElem?_eq_getElem hin]
    rfl
  · rw [List.getElem?_append_right (by omega), List.getElem?_replicate, if_pos (by omega),
      List.getElem?_eq_none (by omega)]
    rfl

/-- Without candidates A, the vector for the same reference takes their place. -/
theorem candList_unscaled (mvB mvL mv temporal : Option Mv) :
    candList none mvB mvL false temporal = candList mvB mvL mv true temporal := by
  cases mvB <;> rfl

theorem candList_same (mv : Mv) (mvL temporal : Option Mv) :
    candList (some mv) (some mv) mvL true temporal = mv :: temporal.toList := by
  simp [candList, addCandB]

theorem candList_differ (mvL temporal : Option Mv) (h : mv ≠ mv') :
    candList (some mv) (some mv') mvL true temporal = [mv, mv'] := by
  simp [candList, addCandB, h]

theorem firstNbr_none {taken : Encoder.Nbr4x4 → ListX → Option ListX}
    {ns : List (Bool × Encoder.Nbr4x4)}
    (h : (ns.any fun nbr => nbr.1 && !nbr.2.b1IntraFlag) = false) :
    firstNbr taken lx ns = none := by
  induction ns with
  | nil => rfl
  | cons head ns ih =>
    obtain ⟨avail, n⟩ := head
    rw [List.any_cons, Bool.or_eq_false_iff] at h
    obtain ⟨hhead, htail⟩ := h
    unfold firstNbr
    rw [if_neg (by simpa using hhead)]
    exact ih htail

/-- No vector for the current reference picture is scaled to another one, which the index then
asks for. -/
def KeepsVector (c : Encoder.MvPredCtxt) (nbrs : Nbrs Encoder.Nbr4x4) (p : Encoder.Pu)
    (collocatedMvp : Nat → Nat → ColMvp) (mvpIdx : Nat) (lx : ListX) : Prop :=
  isScaled nbrs = true ∨ mvpIdx = 0 ∨
    ∀ nbr, firstNbr anyRef lx nbrs.top = some nbr →
      c.nbrRefPoc nbr.1 nbr.2 = curRefPoc c p lx →
      scaledMv c p lx nbr = nbr.1.mv.mv nbr.2 ∨
        scaledMv c p lx nbr = (temporalOf p collocatedMvp lx).getD .zero

/-- The predictors of one list agree exactly when no vector is scaled without need. -/
theorem list_agree (hm : SameMotion h c nbrsD nbrsE d p colD colE) (psPredMv : ListX → Mv)
    (huses : d.b2PredMode.uses lx = true) :
    (mvpListLx c nbrsE p colE lx)[d.mvpIdx lx]? = some (ihevcdMvPred h nbrsD d colD psPredMv lx) ↔
      KeepsVector c nbrsE p colE (d.mvpIdx lx) lx := by
  have hidx := hm.pu.mvpIdx lx
  rw [ihevcdMvPred_list hm psPredMv huses]
  unfold mvpListLx
  dsimp only
  cases hscaled : isScaled nbrsE with
  | true =>
    rw [if_pos rfl, if_pos rfl, mvpList_get _ _ none _ hidx]
    exact iff_of_true rfl (.inl hscaled)
  | false =>
    have hleft : firstNbr anyRef lx nbrsE.left = none := firstNbr_none hscaled
    have hsameLeft : sameMv c p nbrsE.left lx = none := by
      rw [sameMv, firstNbr_none hscaled]
      rfl
    rw [if_neg Bool.false_ne_true, if_neg Bool.false_ne_true, hsameLeft, hleft, Option.map_none,
      Option.or_none, Option.or_none, candList_unscaled _ _ none, mvpList_get _ _ none _ hidx,
      Option.some_inj]
    cases hfirst : firstNbr anyRef lx nbrsE.top with
    | none => exact iff_of_true rfl (.inr (.inr fun nbr hnbr => by simp [hfirst] at hnbr))
    | some nbr =>
      obtain ⟨n, list⟩ := nbr
      rw [Option.map_some, Option.map_some]
      by_cases hpoc : c.nbrRefPoc n list = curRefPoc c p lx
      · have hsame : sameMv c p nbrsE.top lx = some (n.mv.mv list) := by
          rw [sameMv, firstNbr_same hfirst hpoc]
          rfl
        have hother : otherMv c p lx (n, list) = n.mv.mv list := if_neg (not_not.mpr hpoc.symm)
        rw [hsame, hother]
        by_cases hkept : scaledMv c p lx (n, list) = n.mv.mv list
        · rw [hkept]
          refine iff_of_true rfl (.inr (.inr fun nbr hnbr _ => .inl ?_))
          obtain rfl := Option.some.inj (hfirst.symm.trans hnbr)
          exact hkept
        · rw [candList_same, candList_differ _ _ (Ne.symm hkept)]
          obtain hzero | hone : d.mvpIdx lx = 0 ∨ d.mvpIdx lx = 1 := by omega
          · rw [hzero]
            exact iff_of_true rfl (.inr (.inl rfl))
          · have htemporal : ((n.mv.mv list :: (temporalOf p colE lx).toList)[1]?).getD .zero =
                (temporalOf p colE lx).getD .zero := by
              cases temporalOf p colE lx <;> rfl
            rw [hone, htemporal]
            constructor
            · intro hequal
              refine .inr (.inr fun nbr hnbr _ => .inr ?_)
              obtain rfl := Option.some.inj (hfirst.symm.trans hnbr)
              exact hequal.symm
            · rintro (htrue | hidx0 | hkeeps)
              · exact absurd (hscaled.symm.trans htrue) Bool.false_ne_true
              · contradiction
              · exact ((hkeeps _ hfirst hpoc).resolve_left hkept).symm
      · have hother : otherMv c p lx (n, list) = scaledMv c p lx (n, list) :=
          if_pos (Ne.symm hpoc)
        rw [hother]
        refine iff_of_true rfl (.inr (.inr fun nbr hnbr hcur => absurd ?_ hpoc))
        obtain rfl := Option.some.inj (hfirst.symm.trans hnbr)
        exact hcur

/-- Both sides have the same predictors, of the lists that the unit uses, exactly when none of them
is a vector that the decoder scales without need; and the decoder's addition undoes the encoder's
difference. -/
theorem mvPred_agree (hm : SameMotion h c nbrsD nbrsE d p colD colE) (psPredMv : ListX → Mv) :
    ((∃ lists, ihevceMvPred c nbrsE p colE = some lists ∧
        ∀ lx, d.b2PredMode.uses lx = true →
          (lists lx)[d.mvpIdx lx]? = some (ihevcdMvPred h nbrsD d colD psPredMv lx)) ↔
      ∀ lx, d.b2PredMode.uses lx = true → KeepsVector c nbrsE p colE (d.mvpIdx lx) lx) ∧
    ∀ mv mvp, IsI16 mv → IsI16 mvp → Decoder.addMvd mvp (Encoder.mvd mv mvp) = mv := by
  refine ⟨?_, fun mv mvp hmv hmvp => addMvd_mvd hmv hmvp⟩
  obtain ⟨lists, hlists, hlist⟩ := ihevceMvPred_list hm
  constructor
  · rintro ⟨lists', hlists', hsame⟩ lx huses
    obtain rfl := Option.some.inj (hlists.symm.trans hlists')
    have hentry := hsame lx huses
    rw [hlist] at hentry
    exact (list_agree hm psPredMv huses).mp hentry
  · intro hkeeps
    refine ⟨lists, hlists, fun lx huses => ?_⟩
    rw [hlist]
    exact (list_agree hm psPredMv huses).mpr (hkeeps lx huses)

end

-- ---------------------------------------------------------------------------
-- A neighbour above
-- ---------------------------------------------------------------------------

/-- List 0 of all units. -/
def aboveMv : PuMv where
  sL0Mv := { i2Mvx := 129, i2Mvy := 0 }
  sL1Mv := .zero
  i1L0RefIdx := 0
  i1L1RefIdx := -1

def abovePu : Decoder.Pu where
  b4PosX := 0
  b4PosY := 0
  b4Wd := 3
  b4Ht := 3
  b1IntraFlag := false
  b2PredMode := .predL0
  b1L0MvpIdx := 1
  b1L1MvpIdx := 0
  b3MergeIdx := 0
  mv := aboveMv

def aboveNbr : Encoder.Nbr4x4 where
  b1IntraFlag := false
  b1PredL0Flag := true
  b1PredL1Flag := false
  mv := aboveMv

/-- The unit above is the only neighbour. -/
def oneAbove (nbr : α) : Nbrs α where
  lbAvail := false
  lAvail := false
  trAvail := false
  tAvail := true
  tlAvail := false
  a0 := nbr
  a1 := nbr
  b0 := nbr
  b1 := nbr
  b2 := nbr

/-- A P slice whose references have count 0. -/
def aboveHeader (poc : Int) : MotionHeader where
  i1SliceType := .pslice
  i4AbsPicOrderCnt := poc
  i1SliceTemporalMvpEnableFlag := false
  i1CollocatedFromL0Flag := true
  i1CollocatedRefIdx := 0
  i1LowDelayFlag := false
  i1NumRefIdxL0Active := 1
  i1NumRefIdxL1Active := 0

def aboveRef : Decoder.RefPic where
  pvPicBuf := { i4AbsPoc := 0, i4PocLsb := 0, u1BufId := 0, u1UsedAsRef := shortTermRef }
  pvMvBuf :=
    { i4AbsPoc := 0
      pu4PicPuIdx := fun _ => 0
      pu1PicPuMap := fun _ => 0
      psPicPu := fun _ => abovePu
      pu1PicSliceMap := fun _ => 0
      ai4CollocatedPoc := fun _ _ _ => 0
      ai1CollocatedPocLt := fun _ _ _ => shortTermRef }

def aboveDecoder (poc : Int) : Decoder.SliceHeader :=
  { aboveHeader poc with
    asRefPicList0 := fun _ => aboveRef
    asRefPicList1 := fun _ => aboveRef }

def aboveEncoder (poc : Int) : Encoder.MvPredCtxt where
  psRefList := fun _ _ =>
    { i4Poc := 0
      pu1FrmPuMap := fun _ => 0
      psFrmColMv := fun _ => { b1IntraFlag := false, b2PredMode := .predL0, mv := aboveMv }
      ai4ColPoc := fun _ _ => 0 }
  psSliceHdr := aboveHeader poc
  psSps := oneCtb
  i4CtbX := 0
  i4CtbY := 0
  i4Log2ParallelMergeLevelMinus2 := 0
  ai4TileXtraCtb := fun _ => 0

def aboveUnit : Encoder.Pu where
  b4PosX := 0
  b4PosY := 0
  b4Wd := 3
  b4Ht := 3
  mv := aboveMv

def noTemporal : Nat → Nat → ColMvp := fun _ _ => .unavailable

theorem above_nbr (poc : Int) : SameNbr (aboveHeader poc) abovePu aboveNbr where
  flag := fun lx => by cases lx <;> rfl
  mv := fun _ _ => rfl
  refIdx := fun _ _ => rfl
  inSlice := fun lx hflag hl1 => by
    subst hl1
    contradiction

theorem SameAvail.unavailable (e : MotionHeader) (d : Decoder.Pu) (n : Encoder.Nbr4x4) :
    SameAvail e (false, d) (false, n) where
  avail := rfl
  intra := fun havail => absurd havail Bool.false_ne_true
  nbr := fun havail => absurd havail Bool.false_ne_true

theorem SameNbr.available {e : MotionHeader} {d : Decoder.Pu} {n : Encoder.Nbr4x4}
    (h : SameNbr e d n) (hintra : d.b1IntraFlag = n.b1IntraFlag) :
    SameAvail e (true, d) (true, n) where
  avail := rfl
  intra := fun _ => hintra
  nbr := fun _ _ => h

theorem above_motion (hpoc : IsPoc poc) (hne : poc ≠ 0) :
    SameMotion (aboveDecoder poc) (aboveEncoder poc) (oneAbove abovePu) (oneAbove aboveNbr) abovePu
      aboveUnit noTemporal noTemporal where
  refs :=
    { poc := rfl
      isPoc := hpoc
      refPoc := fun lx _ _ => by cases lx <;> rfl
      refShort := fun lx _ => by cases lx <;> rfl
      refIsPoc := fun _ _ => (⟨by decide, by decide⟩ : IsPoc 0)
      refNe := fun _ _ _ => hne }
  nbrs :=
    { left := .cons (.unavailable ..) (.cons (.unavailable ..) .nil)
      top := .cons (.unavailable ..) (.cons ((above_nbr poc).available rfl)
        (.cons (.unavailable ..) .nil)) }
  pu :=
    { posX := rfl
      posY := rfl
      wd := rfl
      ht := rfl
      refIdx := fun lx huses => by
        cases lx with
        | l0 => rfl
        | l1 => contradiction
      inSlice := fun lx huses hl1 => by
        subst hl1
        contradiction
      mvpIdx := fun lx => by cases lx <;> decide }
  temporal := fun _ _ _ _ => ⟨rfl, fun _ => rfl⟩

/-- At distance 8 the vector is kept. -/
theorem mvPred_agree_above :
    (∃ lists, ihevceMvPred (aboveEncoder 8) (oneAbove aboveNbr) aboveUnit noTemporal = some lists ∧
        ∀ lx, abovePu.b2PredMode.uses lx = true →
          (lists lx)[abovePu.mvpIdx lx]? = some (ihevcdMvPred (aboveDecoder 8) (oneAbove abovePu)
            abovePu noTemporal (fun _ => .zero) lx)) ∧
      Decoder.addMvd 129 (Encoder.mvd (-32768) 129) = -32768 := by
  have hagree := mvPred_agree (above_motion ⟨by decide, by decide⟩ (by decide : (8 : Int) ≠ 0))
    fun _ => .zero
  refine ⟨hagree.1.mpr fun lx huses => ?_, hagree.2 _ _ ⟨by decide, by decide⟩
    ⟨by decide, by decide⟩⟩
  cases lx with
  | l0 =>
    refine .inr (.inr fun nbr hnbr _ => .inl ?_)
    obtain rfl := Option.some.inj hnbr
    decide +kernel
  | l1 => contradiction

/-- At distance 119 the decoder makes 130 of 129. -/
theorem mvPred_distance_119 :
    SameMotion (aboveDecoder 119) (aboveEncoder 119) (oneAbove abovePu) (oneAbove aboveNbr) abovePu
        aboveUnit noTemporal noTemporal ∧
      ihevcdMvPred (aboveDecoder 119) (oneAbove abovePu) abovePu noTemporal (fun _ => .zero) .l0 =
        { i2Mvx := 130, i2Mvy := 0 } ∧
      ∃ lists, ihevceMvPred (aboveEncoder 119) (oneAbove aboveNbr) aboveUnit noTemporal =
          some lists ∧
        lists .l0 = [{ i2Mvx := 129, i2Mvy := 0 }, .zero] :=
  ⟨above_motion ⟨by decide, by decide⟩ (by decide), by decide +kernel, _, rfl, by decide +kernel⟩

end Libhevc.RoundTrip
