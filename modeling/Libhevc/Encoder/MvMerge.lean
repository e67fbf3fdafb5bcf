import Libhevc.Common.Merge
import Libhevc.Encoder.MvPred
import Libhevc.Spec.Merge

/-!
# Merge candidates of the encoder

`ihevce_mv_pred_merge`, which builds the list of all candidates. It has no zero
candidates beyond one for each reference picture.
-/

namespace Libhevc.Encoder

/-- `merge_cand_list_t`, with the entry of `pu1_is_top_used` -/
structure MergeCandList where
  mv : PuMv
  u1PredFlagL0 : Bool
  u1PredFlagL1 : Bool
  isTopUsed : Bool
  deriving DecidableEq, Repr

/-- `i4_pred_1`, of the flags: there is none without a flag. -/
def Nbr4x4.predMode (nbr : Nbr4x4) : Option PredMode :=
  match nbr.b1PredL0Flag, nbr.b1PredL1Flag with
  | false, false => none
  | true, false => some .predL0
  | false, true => some .predL1
  | true, true => some .predBi

def ihevceComparePuMvT (mv1 mv2 : PuMv) (i4PredMode1 i4PredMode2 : Option PredMode) : Bool :=
  let i4PredL0 := i4PredMode1 ≠ some .predL1
  let i4PredL1 := i4PredMode1 ≠ some .predL0
  if i4PredMode1 ≠ i4PredMode2 then false
  else
    let i4L0Match := i4PredL0 ∧ mv1.i1L0RefIdx = mv2.i1L0RefIdx ∧ mv1.sL0Mv = mv2.sL0Mv
    let i4L1Match := i4PredL1 ∧ mv1.i1L1RefIdx = mv2.i1L1RefIdx ∧ mv1.sL1Mv = mv2.sL1Mv
    if i4PredL0 ∧ i4PredL1 then decide (i4L0Match ∧ i4L1Match)
    else if i4PredL0 then decide i4L0Match
    else decide i4L1Match

/-- `u1_nbr_avail`, after the tests of the merge level and of the part. -/
def nbrAvail (nbrs : Nbrs Nbr4x4) (part : Part) (mergeShift : Nat) (nbr : NbrPos) : Bool :=
  let avail := (nbrs.get nbr).1 && !(nbrs.get nbr).2.b1IntraFlag
  let avail := if part.sameLevel mergeShift nbr then false else avail
  match nbr with
  | .a1 => if part.secondOf besideModes then false else avail
  | .b1 => if part.secondOf belowModes then false else avail
  | _ => avail

def compareNbr (nbrs : Nbrs Nbr4x4) (other nbr : NbrPos) : Bool :=
  let nbr1 := (nbrs.get other).2
  let nbr2 := (nbrs.get nbr).2
  ihevceComparePuMvT nbr1.mv nbr2.mv nbr1.predMode nbr2.predMode

/-- `avail_flag`: the neighbour is available and not equal to another one that is. -/
def availFlag (nbrs : Nbrs Nbr4x4) (part : Part) (mergeShift : Nat) (other nbr : NbrPos) : Bool :=
  let flag := nbrAvail nbrs part mergeShift nbr
  if flag && nbrAvail nbrs part mergeShift other then
    if compareNbr nbrs other nbr then false else flag
  else flag

/-- `i1_spatial_avail_flag_n` -/
def spatialAvailFlag (nbrs : Nbrs Nbr4x4) (part : Part) (mergeShift : Nat) : NbrPos → Bool
  | .a1 => nbrAvail nbrs part mergeShift .a1
  | .b1 => availFlag nbrs part mergeShift .a1 .b1
  | .b0 => availFlag nbrs part mergeShift .b1 .b0
  | .a0 => availFlag nbrs part mergeShift .a1 .a0
  | .b2 =>
    let avail := nbrAvail nbrs part mergeShift
    let flag := availFlag nbrs part mergeShift
    let sum := (flag .a1 .a0).toNat + (avail .a1).toNat + (flag .b1 .b0).toNat +
      (flag .a1 .b1).toNat
    let availFlag := if sum = 4 then false else avail .b2
    if availFlag then
      !(avail .a1 && compareNbr nbrs .a1 .b2) && !(avail .b1 && compareNbr nbrs .b1 .b2)
    else false

def Nbr4x4.mergeCand (nbr : Nbr4x4) (isTopUsed : Bool) : MergeCandList where
  mv := nbr.mv
  u1PredFlagL0 := nbr.b1PredL0Flag
  u1PredFlagL1 := nbr.b1PredL1Flag
  isTopUsed := isTopUsed

/-- `merge_list_priority` -/
def mergeListPriority : List NbrPos := [.a1, .b1, .b0, .a0, .b2]

def spatialCands (nbrs : Nbrs Nbr4x4) (part : Part) (mergeShift : Nat) : List MergeCandList :=
  mergeListPriority.filterMap fun nbr =>
    if spatialAvailFlag nbrs part mergeShift nbr then
      some ((nbrs.get nbr).2.mergeCand (nbr ≠ .a1 ∧ nbr ≠ .a0))
    else none

def temporalCand (col : ColMvp) : Option MergeCandList :=
  if col.u4AvailColFlag .l0 || col.u4AvailColFlag .l1 then
    some
      { mv := { sL0Mv := col.mvCol .l0, sL1Mv := col.mvCol .l1, i1L0RefIdx := 0, i1L1RefIdx := 0 }
        u1PredFlagL0 := col.u4AvailColFlag .l0
        u1PredFlagL1 := col.u4AvailColFlag .l1
        isTopUsed := false }
  else none

/-- A combined candidate of two in the list. -/
def MvPredCtxt.biPredCand (c : MvPredCtxt) (first second : MergeCandList) : Option MergeCandList :=
  if first.u1PredFlagL0 = true ∧ second.u1PredFlagL1 = true then
    let i1L0RefIdx := first.mv.i1L0RefIdx
    let i1L1RefIdx := second.mv.i1L1RefIdx
    let l0Poc := (c.psRefList .l0 i1L0RefIdx).i4Poc
    let l1Poc := (c.psRefList .l1 i1L1RefIdx).i4Poc
    let sL0Mv := first.mv.sL0Mv
    let sL1Mv := second.mv.sL1Mv
    if l0Poc ≠ l1Poc ∨ sL0Mv.i2Mvx ≠ sL1Mv.i2Mvx ∨ sL0Mv.i2Mvy ≠ sL1Mv.i2Mvy then
      some
        { mv := { sL0Mv, sL1Mv, i1L0RefIdx, i1L1RefIdx }
          u1PredFlagL0 := true
          u1PredFlagL1 := true
          isTopUsed := first.isTopUsed || second.isTopUsed }
    else none
  else none

def zeroCand (h : MotionHeader) (zeroIdx : Nat) : MergeCandList where
  mv :=
    { sL0Mv := .zero
      sL1Mv := .zero
      i1L0RefIdx := zeroIdx
      i1L1RefIdx := if h.i1SliceType = .pslice then -1 else zeroIdx }
  u1PredFlagL0 := true
  u1PredFlagL1 := h.i1SliceType ≠ .pslice
  isTopUsed := false

/-- The loop over `bi_pred_idx`. -/
def MvPredCtxt.biPredLoop (c : MvPredCtxt) : List (Nat × Nat) → List MergeCandList →
    List MergeCandList
  | [], list => list
  | (l0Cand, l1Cand) :: pairs, list =>
    let zero := zeroCand c.psSliceHdr 0
    let list := list ++ (c.biPredCand (list.getD l0Cand zero) (list.getD l1Cand zero)).toList
    if list.length = maxNumMergeCand then list else c.biPredLoop pairs list

/-- The zero candidates for the rest of the list, up to the last reference picture. -/
def zeroLoop (h : MotionHeader) : (room : Nat) → (zeroIdx : Nat) → List MergeCandList
  | 0, _ => []
  | room + 1, zeroIdx =>
    zeroCand h zeroIdx ::
      if ((zeroIdx + 1 : Nat) : Int) = h.numRefIdx then [] else zeroLoop h room (zeroIdx + 1)

/-- The candidates that are returned, `num_merge_cand` of them. `collocatedMvp` is what
`ihevce_collocated_mvp` says of a position. -/
def ihevceMvPredMerge (c : MvPredCtxt) (nbrs : Nbrs Nbr4x4) (part : Part)
    (collocatedMvp : Nat → Nat → ColMvp) : List MergeCandList :=
  let mergeShift := c.i4Log2ParallelMergeLevelMinus2 + 2
  let list := spatialCands nbrs part mergeShift
  let botRight := collocatedMvp (part.partPosX + part.partWd) (part.partPosY + part.partHt)
  let centre :=
    collocatedMvp (part.partPosX + part.partWd >>> 1) (part.partPosY + part.partHt >>> 1)
  let list :=
    if list.length < maxNumMergeCand then list ++ (temporalCand (botRight.orCentre centre)).toList
    else list
  let list :=
    if c.psSliceHdr.i1SliceType = .bslice ∧ 1 < list.length ∧ list.length < maxNumMergeCand then
      c.biPredLoop (priorityList.take (list.length * (list.length - 1))) list
    else list
  list ++ zeroLoop c.psSliceHdr (maxNumMergeCand - list.length) 0

end Libhevc.Encoder

/-!
## The merge list of the encoder

The list that `ihevce_mv_pred_merge` builds is the complete one, up to the zero
candidate of the last reference picture.
-/

namespace Libhevc.Encoder

open Spec (Motion MergeContext ifAvail unlessIn_ifAvail)

/-- The motion that flags select. -/
def flagMotion (mv : PuMv) (predFlagL0 predFlagL1 : Bool) : Motion where
  l0 := if predFlagL0 then some (mv.sL0Mv, mv.i1L0RefIdx) else none
  l1 := if predFlagL1 then some (mv.sL1Mv, mv.i1L1RefIdx) else none

def MergeCandList.motion (cand : MergeCandList) : Motion :=
  flagMotion cand.mv cand.u1PredFlagL0 cand.u1PredFlagL1

def Nbr4x4.motion (nbr : Nbr4x4) : Motion := flagMotion nbr.mv nbr.b1PredL0Flag nbr.b1PredL1Flag

/-- What the list depends on, from the data of the encoder. -/
def MvPredCtxt.mergeContext (c : MvPredCtxt) (nbrs : Nbrs Nbr4x4) (part : Part)
    (collocatedMvp : Nat → Nat → ColMvp) : MergeContext where
  sliceType := c.psSliceHdr.i1SliceType
  numRefIdx := c.psSliceHdr.numRefIdx
  refPoc lx refIdx := (c.psRefList lx refIdx).i4Poc
  mergeLevel := c.i4Log2ParallelMergeLevelMinus2 + 2
  part := part
  motion nbr :=
    if (nbrs.get nbr).1 && !(nbrs.get nbr).2.b1IntraFlag then some (nbrs.get nbr).2.motion else none
  temporal := temporalMv
    (collocatedMvp (part.partPosX + part.partWd) (part.partPosY + part.partHt))
    (collocatedMvp (part.partPosX + part.partWd >>> 1) (part.partPosY + part.partHt >>> 1))

-- ---------------------------------------------------------------------------
-- Spatial candidates
-- ---------------------------------------------------------------------------

/-- An inter neighbour uses some list. -/
def HasMotion (nbrs : Nbrs Nbr4x4) : Prop :=
  ∀ nbr, (nbrs.get nbr).1 = true → (nbrs.get nbr).2.b1IntraFlag = false →
    (nbrs.get nbr).2.b1PredL0Flag = true ∨ (nbrs.get nbr).2.b1PredL1Flag = true

/-- Neighbours are compared by their motion. -/
theorem comparePuMvT_decide (nbr1 nbr2 : Nbr4x4)
    (hflag : nbr2.b1PredL0Flag = true ∨ nbr2.b1PredL1Flag = true) :
    decide (nbr1.motion = nbr2.motion) =
      ihevceComparePuMvT nbr1.mv nbr2.mv nbr1.predMode nbr2.predMode := by
  obtain ⟨_, l0, l1, mv1⟩ := nbr1
  obtain ⟨_, l0', l1', mv2⟩ := nbr2
  unfold ihevceComparePuMvT Nbr4x4.motion flagMotion Nbr4x4.predMode
  cases l0 <;> cases l1 <;> cases l0' <;> cases l1' <;> simp [and_comm] at hflag ⊢

section
variable {c : MvPredCtxt} {nbrs : Nbrs Nbr4x4} {part : Part} {level : Nat}
  {collocatedMvp : Nat → Nat → ColMvp}

theorem nbrAvail_inter (h : nbrAvail nbrs part level nbr = true) :
    (nbrs.get nbr).1 = true ∧ (nbrs.get nbr).2.b1IntraFlag = false := by
  unfold nbrAvail at h
  cases nbr <;> dsimp only at h <;> split_ifs at h <;> simp_all

theorem usable_eq (nbr : NbrPos) :
    (c.mergeContext nbrs part collocatedMvp).usable nbr =
      ifAvail (nbrAvail nbrs part (c.i4Log2ParallelMergeLevelMinus2 + 2) nbr,
        (nbrs.get nbr).2.motion) := by
  unfold MergeContext.usable nbrAvail MvPredCtxt.mergeContext Spec.firstPart ifAvail
  cases nbr <;> simp only <;> split_ifs <;> simp_all

/-- An available neighbour is equal to another one if the comparison says so. -/
theorem and_differ (hnbrs : HasMotion nbrs) (avail : Bool) (other : NbrPos)
    (havail : avail = true → nbrAvail nbrs part level nbr = true) :
    (avail && !(nbrAvail nbrs part level other &&
        decide ((nbrs.get other).2.motion = (nbrs.get nbr).2.motion))) =
      (avail && !(nbrAvail nbrs part level other && compareNbr nbrs other nbr)) := by
  cases avail with
  | false => rfl
  | true =>
    obtain ⟨hin, hinter⟩ := nbrAvail_inter (havail rfl)
    rw [comparePuMvT_decide _ _ (hnbrs nbr hin hinter)]
    rfl

theorem unlessIn_eq (hnbrs : HasMotion nbrs) (other nbr : NbrPos) :
    Spec.unlessIn ((c.mergeContext nbrs part collocatedMvp).usable nbr)
        [(c.mergeContext nbrs part collocatedMvp).usable other] =
      ifAvail (availFlag nbrs part (c.i4Log2ParallelMergeLevelMinus2 + 2) other nbr,
        (nbrs.get nbr).2.motion) := by
  rw [usable_eq, usable_eq]
  refine (unlessIn_ifAvail _ [_]).trans ?_
  rw [List.all_cons, List.all_nil, Bool.and_true, and_differ hnbrs _ _ id]
  unfold availFlag
  cases nbrAvail nbrs part (c.i4Log2ParallelMergeLevelMinus2 + 2) nbr <;>
    cases nbrAvail nbrs part (c.i4Log2ParallelMergeLevelMinus2 + 2) other <;> simp

/-- The spatial candidates, with the flags that select them. -/
theorem firstFour_eq (hnbrs : HasMotion nbrs) :
    (c.mergeContext nbrs part collocatedMvp).firstFour =
      [NbrPos.a1, .b1, .b0, .a0].map fun nbr =>
        ifAvail (spatialAvailFlag nbrs part (c.i4Log2ParallelMergeLevelMinus2 + 2) nbr,
          (nbrs.get nbr).2.motion) := by
  unfold MergeContext.firstFour
  rw [unlessIn_eq hnbrs, unlessIn_eq hnbrs, unlessIn_eq hnbrs, usable_eq]
  rfl

theorem sumAvail_eq (hnbrs : HasMotion nbrs) :
    (c.mergeContext nbrs part collocatedMvp).firstFour.reduceOption.length =
      (availFlag nbrs part (c.i4Log2ParallelMergeLevelMinus2 + 2) .a1 .a0).toNat +
        (nbrAvail nbrs part (c.i4Log2ParallelMergeLevelMinus2 + 2) .a1).toNat +
        (availFlag nbrs part (c.i4Log2ParallelMergeLevelMinus2 + 2) .b1 .b0).toNat +
        (availFlag nbrs part (c.i4Log2ParallelMergeLevelMinus2 + 2) .a1 .b1).toNat := by
  rw [firstFour_eq hnbrs]
  simp only [List.map_cons, List.map_nil, spatialAvailFlag]
  cases nbrAvail nbrs part (c.i4Log2ParallelMergeLevelMinus2 + 2) .a1 <;>
    cases availFlag nbrs part (c.i4Log2ParallelMergeLevelMinus2 + 2) .a1 .b1 <;>
    cases availFlag nbrs part (c.i4Log2ParallelMergeLevelMinus2 + 2) .b1 .b0 <;>
    cases availFlag nbrs part (c.i4Log2ParallelMergeLevelMinus2 + 2) .a1 .a0 <;> rfl

theorem fifth_eq (hnbrs : HasMotion nbrs) :
    (c.mergeContext nbrs part collocatedMvp).fifth =
      ifAvail (spatialAvailFlag nbrs part (c.i4Log2ParallelMergeLevelMinus2 + 2) .b2,
        (nbrs.get .b2).2.motion) := by
  unfold MergeContext.fifth spatialAvailFlag
  dsimp only
  rw [sumAvail_eq hnbrs, usable_eq, usable_eq, usable_eq]
  split
  case isTrue => rfl
  case isFalse =>
    refine (unlessIn_ifAvail _ [_, _]).trans ?_
    rw [List.all_cons, List.all_cons, List.all_nil, Bool.and_true, ← Bool.and_assoc,
      and_differ hnbrs _ .a1 id, and_differ hnbrs _ .b1 fun h => (Bool.and_eq_true_iff.mp h).1,
      Bool.and_assoc]
    cases nbrAvail nbrs part (c.i4Log2ParallelMergeLevelMinus2 + 2) .b2 <;> rfl

theorem spatialCands_motion (hnbrs : HasMotion nbrs) :
    (spatialCands nbrs part (c.i4Log2ParallelMergeLevelMinus2 + 2)).map MergeCandList.motion =
      ((c.mergeContext nbrs part collocatedMvp).firstFour ++
        [(c.mergeContext nbrs part collocatedMvp).fifth]).reduceOption := by
  have hmotion : ∀ nbr, (if spatialAvailFlag nbrs part (c.i4Log2ParallelMergeLevelMinus2 + 2) nbr
      then some ((nbrs.get nbr).2.mergeCand (nbr ≠ .a1 ∧ nbr ≠ .a0)) else none).map
        MergeCandList.motion =
      ifAvail (spatialAvailFlag nbrs part (c.i4Log2ParallelMergeLevelMinus2 + 2) nbr,
        (nbrs.get nbr).2.motion) := by
    intro nbr
    cases spatialAvailFlag nbrs part (c.i4Log2ParallelMergeLevelMinus2 + 2) nbr <;> rfl
  rw [firstFour_eq hnbrs, fifth_eq hnbrs]
  unfold spatialCands
  rw [List.map_filterMap]
  simp only [hmotion]
  rfl

theorem temporalCand_eq :
    (temporalCand ((collocatedMvp (part.partPosX + part.partWd)
        (part.partPosY + part.partHt)).orCentre
      (collocatedMvp (part.partPosX + part.partWd >>> 1)
        (part.partPosY + part.partHt >>> 1)))).map MergeCandList.motion =
      (c.mergeContext nbrs part collocatedMvp).temporalCand := by
  unfold MergeContext.temporalCand MvPredCtxt.mergeContext temporalMv temporalCand ColMvp.orCentre
  generalize collocatedMvp (part.partPosX + part.partWd) (part.partPosY + part.partHt) = botRight
  generalize collocatedMvp (part.partPosX + part.partWd >>> 1) (part.partPosY + part.partHt >>> 1) =
    centre
  cases h0 : botRight.u4AvailColFlag .l0 <;> cases h1 : botRight.u4AvailColFlag .l1 <;>
    cases h2 : centre.u4AvailColFlag .l0 <;> cases h3 : centre.u4AvailColFlag .l1 <;>
    simp [MergeCandList.motion, flagMotion, h0, h1, h2, h3]

-- ---------------------------------------------------------------------------
-- Combined and zero candidates
-- ---------------------------------------------------------------------------

/-- The combined candidates of pairs of a list. -/
def MvPredCtxt.biPredCands (c : MvPredCtxt) (list : List MergeCandList) (pairs : List (Nat × Nat)) :
    List MergeCandList :=
  pairs.filterMap fun pair => c.biPredCand (list.getD pair.1 (zeroCand c.psSliceHdr 0))
    (list.getD pair.2 (zeroCand c.psSliceHdr 0))

/-- The loop reads only the candidates that were there before it. -/
theorem biPredLoop_eq (list : List MergeCandList) (pairs : List (Nat × Nat))
    (hpairs : ∀ pair ∈ pairs, pair.1 < list.length ∧ pair.2 < list.length)
    (extra : List MergeCandList) (hroom : (list ++ extra).length < maxNumMergeCand) :
    c.biPredLoop pairs (list ++ extra) =
      list ++ extra ++
        (c.biPredCands list pairs).take (maxNumMergeCand - (list ++ extra).length) := by
  induction pairs generalizing extra with
  | nil =>
    rw [MvPredCtxt.biPredCands, List.filterMap_nil, List.take_nil, List.append_nil]
    rfl
  | cons pair pairs ih =>
    obtain ⟨hfirst, hsecond⟩ := hpairs pair List.mem_cons_self
    have hrest : ∀ pair ∈ pairs, pair.1 < list.length ∧ pair.2 < list.length :=
      fun pair hpair => hpairs pair (List.mem_cons_of_mem _ hpair)
    unfold MvPredCtxt.biPredLoop MvPredCtxt.biPredCands
    dsimp only
    rw [List.filterMap_cons, List.getD_append _ _ _ _ hfirst, List.getD_append _ _ _ _ hsecond]
    cases c.biPredCand (list.getD pair.1 (zeroCand c.psSliceHdr 0))
        (list.getD pair.2 (zeroCand c.psSliceHdr 0)) with
    | none =>
      rw [Option.toList_none, List.append_nil, if_neg hroom.ne]
      exact ih hrest extra hroom
    | some cand =>
      have hlen : (list ++ extra ++ [cand]).length = (list ++ extra).length + 1 :=
        List.length_append
      obtain ⟨room, hroomEq⟩ : ∃ room, maxNumMergeCand - (list ++ extra).length = room + 1 :=
        ⟨maxNumMergeCand - (list ++ extra).length - 1, by omega⟩
      rw [Option.toList_some, hlen, hroomEq, List.take_succ_cons]
      by_cases hfull : (list ++ extra).length + 1 = maxNumMergeCand
      · obtain rfl : room = 0 := by omega
        rw [if_pos hfull, List.take_zero]
      · have hnext : (list ++ (extra ++ [cand])).length < maxNumMergeCand := by
          rw [← List.append_assoc, hlen]
          omega
        have hleft : maxNumMergeCand - (list ++ (extra ++ [cand])).length = room := by
          rw [← List.append_assoc, hlen]
          omega
        rw [if_neg hfull, List.append_assoc list, ih hrest _ hnext, hleft]
        simp [MvPredCtxt.biPredCands]

theorem biPredCand_motion (first second : MergeCandList) :
    (c.biPredCand first second).map MergeCandList.motion =
      (c.mergeContext nbrs part collocatedMvp).combine first.motion second.motion := by
  obtain ⟨⟨⟨x0, y0⟩, _, refIdx0, _⟩, l0, _, _⟩ := first
  obtain ⟨⟨_, ⟨x1, y1⟩, _, refIdx1⟩, _, l1, _⟩ := second
  unfold MvPredCtxt.biPredCand MergeContext.combine MergeCandList.motion flagMotion
    MvPredCtxt.mergeContext
  cases l0 <;> cases l1 <;> simp [imp_iff_not_or]

/-- Pairs of candidates are combined by their motion. -/
theorem biPredCands_motion (list : List MergeCandList) (pairs : List (Nat × Nat))
    (hpairs : ∀ pair ∈ pairs, pair.1 < list.length ∧ pair.2 < list.length) :
    (c.biPredCands list pairs).map MergeCandList.motion =
      pairs.filterMap ((c.mergeContext nbrs part collocatedMvp).combinePair
        (list.map MergeCandList.motion)) := by
  unfold MvPredCtxt.biPredCands
  rw [List.map_filterMap]
  refine List.filterMap_congr fun pair hpair => ?_
  obtain ⟨hfirst, hsecond⟩ := hpairs pair hpair
  unfold MergeContext.combinePair
  rw [List.getElem?_map, List.getElem?_map, List.getElem?_eq_getElem hfirst,
    List.getElem?_eq_getElem hsecond, List.getD_eq_getElem _ _ hfirst,
    List.getD_eq_getElem _ _ hsecond]
  exact biPredCand_motion _ _

theorem zeroCand_motion {zeroIdx : Nat} (hidx : (zeroIdx : Int) < c.psSliceHdr.numRefIdx) :
    (zeroCand c.psSliceHdr zeroIdx).motion =
      (c.mergeContext nbrs part collocatedMvp).zero zeroIdx := by
  unfold zeroCand MergeCandList.motion flagMotion MergeContext.zero MvPredCtxt.mergeContext
  by_cases hp : c.psSliceHdr.i1SliceType = .pslice <;> simp [hp, hidx]

/-- The zero candidates are those of the complete list, as long as there are reference pictures. -/
theorem zeroLoop_prefix {zeroIdx : Nat} (room : Nat)
    (hidx : (zeroIdx : Int) < c.psSliceHdr.numRefIdx) :
    (zeroLoop c.psSliceHdr room zeroIdx).map MergeCandList.motion <+:
      (List.range' zeroIdx room).map (c.mergeContext nbrs part collocatedMvp).zero := by
  induction room generalizing zeroIdx with
  | zero => exact List.prefix_refl _
  | succ room ih =>
    unfold zeroLoop
    rw [List.map_cons, List.range'_succ, List.map_cons, zeroCand_motion hidx, List.prefix_cons_inj]
    split
    · exact List.nil_prefix
    · exact ih (by omega)

/-- With the temporal candidate, and before any is combined. -/
theorem original_eq (hnbrs : HasMotion nbrs) :
    (spatialCands nbrs part (c.i4Log2ParallelMergeLevelMinus2 + 2) ++
        (temporalCand ((collocatedMvp (part.partPosX + part.partWd)
            (part.partPosY + part.partHt)).orCentre
          (collocatedMvp (part.partPosX + part.partWd >>> 1)
            (part.partPosY + part.partHt >>> 1)))).toList).map MergeCandList.motion =
      (c.mergeContext nbrs part collocatedMvp).original := by
  have hsplit : (c.mergeContext nbrs part collocatedMvp).original =
      ((c.mergeContext nbrs part collocatedMvp).firstFour ++
          [(c.mergeContext nbrs part collocatedMvp).fifth]).reduceOption ++
        (c.mergeContext nbrs part collocatedMvp).temporalCand.toList := by
    unfold MergeContext.original
    rw [← List.reduceOption_singleton, ← List.reduceOption_append, List.append_assoc]
    rfl
  rw [hsplit, List.map_append, spatialCands_motion hnbrs, ← temporalCand_eq, Option.toList_map]

theorem combined_eq {list : List MergeCandList}
    (horiginal : list.map MergeCandList.motion =
      (c.mergeContext nbrs part collocatedMvp).original) :
    (if c.psSliceHdr.i1SliceType = .bslice ∧ 1 < list.length ∧ list.length < maxNumMergeCand then
        c.biPredLoop (Spec.pairs list.length) list
      else list).map MergeCandList.motion =
      (c.mergeContext nbrs part collocatedMvp).original ++
        (c.mergeContext nbrs part collocatedMvp).combined maxNumMergeCand := by
  unfold MergeContext.combined
  dsimp only
  rw [← horiginal, List.length_map]
  by_cases hb : c.psSliceHdr.i1SliceType = .bslice ∧ 1 < list.length ∧
      list.length < maxNumMergeCand
  · have hpairs : ∀ pair ∈ Spec.pairs list.length, pair.1 < list.length ∧ pair.2 < list.length :=
      fun pair hpair => Spec.pairs_lt hpair (Nat.le_of_lt_succ hb.2.2)
    have hroom : (list ++ []).length < maxNumMergeCand := by simpa using hb.2.2
    have hloop := biPredLoop_eq (c := c) list (Spec.pairs list.length) hpairs [] hroom
    rw [List.append_nil] at hloop
    rw [if_pos hb, hloop, List.map_append, List.map_take, biPredCands_motion list _ hpairs]
    exact congrArg _ (if_pos hb).symm
  · rw [if_neg hb]
    exact (List.append_nil _).symm.trans (congrArg _ (if_neg hb).symm)

/-- The list of the encoder is the complete list, or what comes before further zero candidates. -/
theorem ihevceMvPredMerge_prefix (hnbrs : HasMotion nbrs) (href : 0 < c.psSliceHdr.numRefIdx) :
    (ihevceMvPredMerge c nbrs part collocatedMvp).map MergeCandList.motion <+:
      (c.mergeContext nbrs part collocatedMvp).mergeList maxNumMergeCand := by
  have hspatial : (spatialCands nbrs part (c.i4Log2ParallelMergeLevelMinus2 + 2)).length <
      maxNumMergeCand := by
    have hfour := Spec.spatial_le (c.mergeContext nbrs part collocatedMvp)
    rw [← spatialCands_motion hnbrs, List.length_map] at hfour
    exact Nat.lt_succ_of_le hfour
  unfold ihevceMvPredMerge MergeContext.mergeList
  dsimp only
  rw [if_pos hspatial]
  have horiginal : _ = (c.mergeContext nbrs part collocatedMvp).original := original_eq hnbrs
  generalize spatialCands nbrs part _ ++ _ = list at horiginal ⊢
  have hcombined := combined_eq horiginal
  unfold Spec.pairs at hcombined
  rw [List.map_append, ← hcombined, List.length_map, List.prefix_append_right_inj,
    List.range_eq_range']
  exact zeroLoop_prefix _ href

end

end Libhevc.Encoder
