import Libhevc.Common.Merge
import Libhevc.Decoder.Collocated
import Libhevc.Spec.Merge

/-!
# Merge candidates of the decoder

`ihevcd_mv_merge`, which returns as soon as it has the candidate of the merge
index. Combined candidates are only counted, not stored.
-/

namespace Libhevc.Decoder

/-- What the list has of a candidate: a unit's `mv` and `b2_pred_mode`. -/
structure MergeCand where
  mv : PuMv
  b2PredMode : PredMode
  deriving DecidableEq, Repr

def Pu.mergeCand (pu : Pu) : MergeCand := { mv := pu.mv, b2PredMode := pu.b2PredMode }

def ihevcdComparePuT (pu1 pu2 : Pu) : Bool :=
  let l0Match := pu1.mv.i1L0RefIdx = pu2.mv.i1L0RefIdx ∧ pu1.mv.sL0Mv = pu2.mv.sL0Mv
  let l1Match := pu1.mv.i1L1RefIdx = pu2.mv.i1L1RefIdx ∧ pu1.mv.sL1Mv = pu2.mv.sL1Mv
  if pu1.b2PredMode = pu2.b2PredMode then
    match pu1.b2PredMode with
    | .predBi => decide (l1Match ∧ l0Match)
    | .predL0 => decide l0Match
    | .predL1 => decide l1Match
  else false

/-- `nbr_avail`, after the tests of the merge level and of the part. -/
def nbrAvail (nbrs : Nbrs Pu) (part : Part) (mergeShift : Nat) (nbr : NbrPos) : Bool :=
  if (nbrs.get nbr).1 && !(nbrs.get nbr).2.b1IntraFlag then
    if part.sameLevel mergeShift nbr then false
    else
      match nbr with
      | .a1 => !part.secondOf besideModes
      | .b1 => !part.secondOf belowModes
      | _ => true
  else false

/-- `avail_flag`: the neighbour is available and not equal to another one that is. -/
def availFlag (nbrs : Nbrs Pu) (part : Part) (mergeShift : Nat) (other nbr : NbrPos) : Bool :=
  if nbrAvail nbrs part mergeShift nbr then
    if nbrAvail nbrs part mergeShift other then
      !ihevcdComparePuT (nbrs.get other).2 (nbrs.get nbr).2
    else true
  else false

/-- The `avail_flag` of the last neighbour, which is left out after four others. -/
def b2Flag (nbrs : Nbrs Pu) (part : Part) (mergeShift : Nat) : Bool :=
  let avail := nbrAvail nbrs part mergeShift
  let flag := availFlag nbrs part mergeShift
  let differ := fun other =>
    !(avail other && ihevcdComparePuT (nbrs.get other).2 (nbrs.get .b2).2)
  let sumAvail :=
    (avail .a1).toNat + (flag .a1 .b1).toNat + (flag .b1 .b0).toNat + (flag .a1 .a0).toNat
  avail .b2 && (if 4 = sumAvail then false else differ .a1 && differ .b1)

/-- `as_pu_merge_list[candidate_cnt++]`, with the return of the wanted candidate. -/
def addCand (wanted : Nat) (list : List MergeCand) : Option MergeCand →
    Except MergeCand (List MergeCand)
  | none => .ok list
  | some cand => if list.length + 1 = wanted then .error cand else .ok (list ++ [cand])

def temporalCand (col : ColMvp) : Option MergeCand :=
  if col.u4AvailColFlag .l0 || col.u4AvailColFlag .l1 then
    some
      { mv := { sL0Mv := col.mvCol .l0, sL1Mv := col.mvCol .l1, i1L0RefIdx := 0, i1L1RefIdx := 0 }
        b2PredMode :=
          if col.u4AvailColFlag .l0 then if col.u4AvailColFlag .l1 then .predBi else .predL0
          else .predL1 }
  else none

/-- A combined candidate of two in the list. -/
def biPredCand (h : SliceHeader) (first second : MergeCand) : Option MergeCand :=
  if first.b2PredMode ≠ .predL1 ∧ second.b2PredMode ≠ .predL0 then
    let i1L0RefIdx := first.mv.i1L0RefIdx
    let i1L1RefIdx := second.mv.i1L1RefIdx
    let picBufL0 := (h.psRefList .l0 i1L0RefIdx).pvPicBuf
    let picBufL1 := (h.psRefList .l1 i1L1RefIdx).pvPicBuf
    let sL0Mv := first.mv.sL0Mv
    let sL1Mv := second.mv.sL1Mv
    if picBufL0.i4AbsPoc ≠ picBufL1.i4AbsPoc ∨ sL0Mv.i2Mvx ≠ sL1Mv.i2Mvx ∨
        sL0Mv.i2Mvy ≠ sL1Mv.i2Mvy then
      some { mv := { sL0Mv, sL1Mv, i1L0RefIdx, i1L1RefIdx }, b2PredMode := .predBi }
    else none
  else none

def zeroCand (h : SliceHeader) (zeroIdx : Int) : MergeCand :=
  if h.i1SliceType = .pslice then
    { mv := { sL0Mv := .zero, sL1Mv := .zero, i1L0RefIdx := zeroIdx, i1L1RefIdx := 0 }
      b2PredMode := .predL0 }
  else
    { mv := { sL0Mv := .zero, sL1Mv := .zero, i1L0RefIdx := zeroIdx, i1L1RefIdx := zeroIdx }
      b2PredMode := .predBi }

/-- The loop over `bi_pred_idx`: it counts candidates, and returns the wanted one. -/
def biPredLoop (h : SliceHeader) (list : List MergeCand) (wanted : Nat) :
    List (Nat × Nat) → Nat → Except MergeCand Nat
  | [], candidateCnt => .ok candidateCnt
  | (l0Cand, l1Cand) :: pairs, candidateCnt =>
    let cand := biPredCand h (list.getD l0Cand (zeroCand h 0)) (list.getD l1Cand (zeroCand h 0))
    let counted : Except MergeCand Nat :=
      match cand with
      | none => .ok candidateCnt
      | some cand => if candidateCnt + 1 = wanted then .error cand else .ok (candidateCnt + 1)
    match counted with
    | .error cand => .error cand
    | .ok candidateCnt =>
      if candidateCnt = maxNumMergeCand then .ok candidateCnt
      else biPredLoop h list wanted pairs candidateCnt

/-- `collocatedMvp` is what `ihevcd_collocated_mvp` says of a position. The result is what the unit
gets, in `mv` and `b2_pred_mode`. -/
def ihevcdMvMerge (h : SliceHeader) (i1Log2ParallelMergeLevel : Nat) (nbrs : Nbrs Pu)
    (b3MergeIdx : Nat) (part : Part) (collocatedMvp : Nat → Nat → ColMvp) : MergeCand :=
  let flag := availFlag nbrs part i1Log2ParallelMergeLevel
  let wanted := b3MergeIdx + 1
  let cand := fun nbr (flag : Bool) => if flag then some (nbrs.get nbr).2.mergeCand else none
  let botRight := collocatedMvp (part.partPosX + part.partWd) (part.partPosY + part.partHt)
  let centre :=
    collocatedMvp (part.partPosX + part.partWd >>> 1) (part.partPosY + part.partHt >>> 1)
  let counted : Except MergeCand Nat :=
    ([cand .a1 (nbrAvail nbrs part i1Log2ParallelMergeLevel .a1), cand .b1 (flag .a1 .b1),
      cand .b0 (flag .b1 .b0), cand .a0 (flag .a1 .a0),
      cand .b2 (b2Flag nbrs part i1Log2ParallelMergeLevel),
      temporalCand (botRight.orCentre centre)].foldlM (addCand wanted) []).bind fun list =>
    let candidateCnt := list.length
    if h.i1SliceType = .bslice ∧ 1 < candidateCnt ∧ candidateCnt < maxNumMergeCand then
      biPredLoop h list wanted (priorityList.take (candidateCnt * (candidateCnt - 1))) candidateCnt
    else .ok candidateCnt
  match counted with
  | .error cand => cand
  | .ok candidateCnt =>
    let zeroIdx := (wanted : Int) - candidateCnt - 1
    zeroCand h (if h.numRefIdx ≤ zeroIdx then 0 else zeroIdx)

end Libhevc.Decoder

/-!
## The merge candidate of the decoder

The candidate that `ihevcd_mv_merge` returns is the entry of the complete list
at the merge index, although the decoder stops there.
-/

namespace Libhevc.Decoder

open Spec (Motion MergeContext ifAvail unlessIn_ifAvail)

def MergeCand.motion (cand : MergeCand) : Motion where
  l0 := if cand.b2PredMode ≠ .predL1 then some (cand.mv.sL0Mv, cand.mv.i1L0RefIdx) else none
  l1 := if cand.b2PredMode ≠ .predL0 then some (cand.mv.sL1Mv, cand.mv.i1L1RefIdx) else none

/-- What the list depends on, from the data of the decoder. -/
def mergeContext (h : SliceHeader) (i1Log2ParallelMergeLevel : Nat) (nbrs : Nbrs Pu) (part : Part)
    (collocatedMvp : Nat → Nat → ColMvp) : MergeContext where
  sliceType := h.i1SliceType
  numRefIdx := h.numRefIdx
  refPoc lx refIdx := (h.psRefList lx refIdx).pvPicBuf.i4AbsPoc
  mergeLevel := i1Log2ParallelMergeLevel
  part := part
  motion nbr :=
    if (nbrs.get nbr).1 && !(nbrs.get nbr).2.b1IntraFlag then
      some (nbrs.get nbr).2.mergeCand.motion
    else none
  temporal := temporalMv
    (collocatedMvp (part.partPosX + part.partWd) (part.partPosY + part.partHt))
    (collocatedMvp (part.partPosX + part.partWd >>> 1) (part.partPosY + part.partHt >>> 1))

-- ---------------------------------------------------------------------------
-- Spatial candidates
-- ---------------------------------------------------------------------------

/-- Units are compared by their motion. -/
theorem ihevcdComparePuT_iff (pu1 pu2 : Pu) :
    ihevcdComparePuT pu1 pu2 = true ↔ pu1.mergeCand.motion = pu2.mergeCand.motion := by
  unfold ihevcdComparePuT MergeCand.motion Pu.mergeCand
  cases pu1.b2PredMode <;> cases pu2.b2PredMode <;> simp [and_comm]

section
variable {h : SliceHeader} {level : Nat} {nbrs : Nbrs Pu} {part : Part}
  {collocatedMvp : Nat → Nat → ColMvp}

theorem usable_eq (nbr : NbrPos) :
    (mergeContext h level nbrs part collocatedMvp).usable nbr =
      ifAvail (nbrAvail nbrs part level nbr, (nbrs.get nbr).2.mergeCand.motion) := by
  unfold MergeContext.usable nbrAvail mergeContext Spec.firstPart ifAvail
  cases nbr <;> simp only <;> split_ifs <;> simp_all

theorem comparePuT_decide (pu1 pu2 : Pu) :
    decide (pu1.mergeCand.motion = pu2.mergeCand.motion) = ihevcdComparePuT pu1 pu2 :=
  Bool.eq_iff_iff.mpr (decide_eq_true_iff.trans (ihevcdComparePuT_iff pu1 pu2).symm)

/-- A neighbour is left out if it is equal to another one that is available. -/
theorem unlessIn_eq (other nbr : NbrPos) :
    Spec.unlessIn ((mergeContext h level nbrs part collocatedMvp).usable nbr)
        [(mergeContext h level nbrs part collocatedMvp).usable other] =
      ifAvail (availFlag nbrs part level other nbr, (nbrs.get nbr).2.mergeCand.motion) := by
  rw [usable_eq, usable_eq]
  refine (unlessIn_ifAvail _ [_]).trans ?_
  rw [List.all_cons, List.all_nil, comparePuT_decide]
  unfold availFlag
  cases nbrAvail nbrs part level nbr <;> cases nbrAvail nbrs part level other <;> simp

theorem firstFour_eq :
    (mergeContext h level nbrs part collocatedMvp).firstFour =
      [ifAvail (nbrAvail nbrs part level .a1, (nbrs.get .a1).2.mergeCand.motion),
        ifAvail (availFlag nbrs part level .a1 .b1, (nbrs.get .b1).2.mergeCand.motion),
        ifAvail (availFlag nbrs part level .b1 .b0, (nbrs.get .b0).2.mergeCand.motion),
        ifAvail (availFlag nbrs part level .a1 .a0, (nbrs.get .a0).2.mergeCand.motion)] := by
  unfold MergeContext.firstFour
  rw [unlessIn_eq, unlessIn_eq, unlessIn_eq, usable_eq]

/-- `sum_avail_a0_a1_b0_b1` is the number of spatial candidates so far. -/
theorem sumAvail_eq :
    (mergeContext h level nbrs part collocatedMvp).firstFour.reduceOption.length =
      (nbrAvail nbrs part level .a1).toNat + (availFlag nbrs part level .a1 .b1).toNat +
        (availFlag nbrs part level .b1 .b0).toNat + (availFlag nbrs part level .a1 .a0).toNat := by
  rw [firstFour_eq]
  cases nbrAvail nbrs part level .a1 <;> cases availFlag nbrs part level .a1 .b1 <;>
    cases availFlag nbrs part level .b1 .b0 <;> cases availFlag nbrs part level .a1 .a0 <;> rfl

theorem fifth_eq :
    (mergeContext h level nbrs part collocatedMvp).fifth =
      ifAvail (b2Flag nbrs part level, (nbrs.get .b2).2.mergeCand.motion) := by
  unfold MergeContext.fifth b2Flag
  dsimp only
  rw [sumAvail_eq, usable_eq, usable_eq, usable_eq]
  split
  case isTrue hfour => rw [if_pos hfour.symm, Bool.and_false, Spec.ifAvail_false]
  case isFalse hfour =>
    refine (unlessIn_ifAvail _ [_, _]).trans ?_
    rw [if_neg (Ne.symm hfour), List.all_cons, List.all_cons, List.all_nil, Bool.and_true,
      comparePuT_decide, comparePuT_decide]

theorem temporalCand_eq :
    (temporalCand ((collocatedMvp (part.partPosX + part.partWd)
        (part.partPosY + part.partHt)).orCentre
      (collocatedMvp (part.partPosX + part.partWd >>> 1)
        (part.partPosY + part.partHt >>> 1)))).map MergeCand.motion =
      (mergeContext h level nbrs part collocatedMvp).temporalCand := by
  unfold MergeContext.temporalCand mergeContext temporalMv temporalCand ColMvp.orCentre
  generalize collocatedMvp (part.partPosX + part.partWd) (part.partPosY + part.partHt) = botRight
  generalize collocatedMvp (part.partPosX + part.partWd >>> 1) (part.partPosY + part.partHt >>> 1) =
    centre
  cases h0 : botRight.u4AvailColFlag .l0 <;> cases h1 : botRight.u4AvailColFlag .l1 <;>
    cases h2 : centre.u4AvailColFlag .l0 <;> cases h3 : centre.u4AvailColFlag .l1 <;>
    simp [MergeCand.motion, h0, h1, h2, h3]

-- ---------------------------------------------------------------------------
-- The run up to the wanted candidate
-- ---------------------------------------------------------------------------

/-- The run returns the wanted candidate, or has all of them and there are not enough. -/
theorem foldlM_addCand (cands : List (Option MergeCand)) (list : List MergeCand)
    (hlist : list.length ≤ idx) :
    (∃ cand, cands.foldlM (addCand (idx + 1)) list = .error cand ∧
        (list ++ cands.reduceOption)[idx]? = some cand) ∨
      cands.foldlM (addCand (idx + 1)) list = .ok (list ++ cands.reduceOption) ∧
        (list ++ cands.reduceOption).length ≤ idx := by
  induction cands generalizing list with
  | nil =>
    refine .inr ⟨by rw [List.reduceOption_nil, List.append_nil]; rfl, ?_⟩
    rwa [List.reduceOption_nil, List.append_nil]
  | cons cand cands ih =>
    rw [List.foldlM_cons]
    cases cand with
    | none =>
      rw [List.reduceOption_cons_of_none]
      exact ih list hlist
    | some cand =>
      rw [List.reduceOption_cons_of_some, List.append_cons]
      unfold addCand
      dsimp only
      by_cases hwanted : list.length + 1 = idx + 1
      · obtain rfl : list.length = idx := Nat.succ.inj hwanted
        rw [if_pos rfl]
        refine .inl ⟨cand, rfl, ?_⟩
        rw [List.getElem?_append_left (by simp), List.getElem?_concat_length]
      · rw [if_neg hwanted]
        refine ih (list ++ [cand]) ?_
        rw [List.length_append, List.length_singleton]
        omega

/-- The combined candidates of pairs of a list. -/
def biPredCands (h : SliceHeader) (list : List MergeCand) (pairs : List (Nat × Nat)) :
    List MergeCand :=
  pairs.filterMap fun pair =>
    biPredCand h (list.getD pair.1 (zeroCand h 0)) (list.getD pair.2 (zeroCand h 0))

/-- The loop returns the wanted candidate, or counts all of them. -/
theorem biPredLoop_eq (list : List MergeCand) (pairs : List (Nat × Nat)) (hn : n ≤ idx)
    (hidx : idx < maxNumMergeCand) :
    (∃ cand, biPredLoop h list (idx + 1) pairs n = .error cand ∧
        (biPredCands h list pairs)[idx - n]? = some cand) ∨
      biPredLoop h list (idx + 1) pairs n = .ok (n + (biPredCands h list pairs).length) ∧
        n + (biPredCands h list pairs).length ≤ idx := by
  induction pairs generalizing n with
  | nil => exact .inr ⟨rfl, hn⟩
  | cons pair pairs ih =>
    have hroom : n ≠ maxNumMergeCand := by omega
    unfold biPredLoop biPredCands
    rw [List.filterMap_cons]
    cases biPredCand h (list.getD pair.1 (zeroCand h 0)) (list.getD pair.2 (zeroCand h 0)) with
    | none =>
      dsimp only
      rw [if_neg hroom]
      exact ih hn
    | some cand =>
      dsimp only
      by_cases hwanted : n + 1 = idx + 1
      · obtain rfl : n = idx := Nat.succ.inj hwanted
        rw [if_pos rfl, Nat.sub_self]
        exact .inl ⟨cand, rfl, rfl⟩
      · have hnext : n + 1 ≤ idx := by omega
        rw [if_neg hwanted]
        dsimp only
        rw [if_neg (by omega), List.length_cons]
        rcases ih hnext with ⟨found, hrun, hfound⟩ | ⟨hrun, hlen⟩
        · refine .inl ⟨found, hrun, ?_⟩
          obtain ⟨k, hk⟩ : ∃ k, idx - n = k + 1 := ⟨idx - (n + 1), by omega⟩
          rw [hk, List.getElem?_cons_succ, ← hfound]
          congr 1
          omega
        · have hcount : n + 1 + (biPredCands h list pairs).length =
              n + ((biPredCands h list pairs).length + 1) := by omega
          rw [hcount] at hrun hlen
          exact .inr ⟨hrun, hlen⟩

theorem biPredCand_motion (first second : MergeCand) :
    (biPredCand h first second).map MergeCand.motion =
      (mergeContext h level nbrs part collocatedMvp).combine first.motion second.motion := by
  obtain ⟨⟨⟨x0, y0⟩, _, refIdx0, _⟩, mode0⟩ := first
  obtain ⟨⟨_, ⟨x1, y1⟩, _, refIdx1⟩, mode1⟩ := second
  unfold biPredCand MergeContext.combine MergeCand.motion mergeContext
  cases mode0 <;> cases mode1 <;> simp [imp_iff_not_or]

/-- Pairs of candidates are combined by their motion. -/
theorem biPredCands_motion (list : List MergeCand) (pairs : List (Nat × Nat))
    (hpairs : ∀ pair ∈ pairs, pair.1 < list.length ∧ pair.2 < list.length) :
    (biPredCands h list pairs).map MergeCand.motion =
      pairs.filterMap ((mergeContext h level nbrs part collocatedMvp).combinePair
        (list.map MergeCand.motion)) := by
  unfold biPredCands
  rw [List.map_filterMap]
  refine List.filterMap_congr fun pair hpair => ?_
  obtain ⟨hfirst, hsecond⟩ := hpairs pair hpair
  unfold MergeContext.combinePair
  rw [List.getElem?_map, List.getElem?_map, List.getElem?_eq_getElem hfirst,
    List.getElem?_eq_getElem hsecond, List.getD_eq_getElem _ _ hfirst,
    List.getD_eq_getElem _ _ hsecond]
  exact biPredCand_motion _ _

theorem zeroCand_motion (zeroIdx : Nat) :
    (zeroCand h (if h.numRefIdx ≤ zeroIdx then 0 else zeroIdx)).motion =
      (mergeContext h level nbrs part collocatedMvp).zero zeroIdx := by
  have hidx : (if h.numRefIdx ≤ zeroIdx then 0 else (zeroIdx : Int)) =
      if (zeroIdx : Int) < h.numRefIdx then (zeroIdx : Int) else 0 := by
    split_ifs <;> omega
  rw [hidx]
  unfold zeroCand MergeCand.motion MergeContext.zero mergeContext
  by_cases hp : h.i1SliceType = .pslice <;> simp [hp]

/-- The candidates that the decoder goes through first, and their motion. -/
theorem cands_motion :
    ([if nbrAvail nbrs part level .a1 then some (nbrs.get .a1).2.mergeCand else none,
      if availFlag nbrs part level .a1 .b1 then some (nbrs.get .b1).2.mergeCand else none,
      if availFlag nbrs part level .b1 .b0 then some (nbrs.get .b0).2.mergeCand else none,
      if availFlag nbrs part level .a1 .a0 then some (nbrs.get .a0).2.mergeCand else none,
      if b2Flag nbrs part level then some (nbrs.get .b2).2.mergeCand else none,
      temporalCand ((collocatedMvp (part.partPosX + part.partWd)
          (part.partPosY + part.partHt)).orCentre
        (collocatedMvp (part.partPosX + part.partWd >>> 1)
          (part.partPosY + part.partHt >>> 1)))].reduceOption).map MergeCand.motion =
      (mergeContext h level nbrs part collocatedMvp).original := by
  have hmotion : ∀ (flag : Bool) (cand : MergeCand),
      (if flag then some cand else none).map MergeCand.motion = ifAvail (flag, cand.motion) := by
    intro flag cand
    cases flag <;> rfl
  unfold MergeContext.original
  rw [← List.reduceOption_map, firstFour_eq, fifth_eq, ← temporalCand_eq]
  simp only [List.map_cons, List.map_nil, hmotion, List.cons_append, List.nil_append]

/-- The combined candidates of the list, if the slice has them. -/
def combinedCands (h : SliceHeader) (list : List MergeCand) : List MergeCand :=
  if h.i1SliceType = .bslice ∧ 1 < list.length then biPredCands h list (Spec.pairs list.length)
  else []

/-- After the candidates that are stored, the decoder returns a combined or a zero candidate. -/
theorem combined_entry (list : List MergeCand) (hlist : list.length ≤ idx)
    (hidx : idx < maxNumMergeCand) :
    (match
        (if h.i1SliceType = SliceType.bslice ∧ 1 < list.length ∧ list.length < maxNumMergeCand then
          biPredLoop h list (idx + 1) (Spec.pairs list.length) list.length
        else .ok list.length : Except MergeCand Nat) with
      | .error cand => cand
      | .ok candidateCnt =>
        zeroCand h (if h.numRefIdx ≤ ((idx + 1 : Nat) : Int) - candidateCnt - 1 then 0
          else ((idx + 1 : Nat) : Int) - candidateCnt - 1)).motion =
      (((list ++ combinedCands h list).map MergeCand.motion)[idx]?).getD
        ((mergeContext h level nbrs part collocatedMvp).zero
          (idx - (list ++ combinedCands h list).length)) := by
  have hfew : list.length < maxNumMergeCand := hlist.trans_lt hidx
  have hzero : ∀ all : List MergeCand, all.length ≤ idx →
      (zeroCand h (if h.numRefIdx ≤ ((idx + 1 : Nat) : Int) - all.length - 1 then 0
          else ((idx + 1 : Nat) : Int) - all.length - 1)).motion =
        ((all.map MergeCand.motion)[idx]?).getD
          ((mergeContext h level nbrs part collocatedMvp).zero (idx - all.length)) := by
    intro all hall
    have hcast : ((idx + 1 : Nat) : Int) - all.length - 1 = ((idx - all.length : Nat) : Int) := by
      omega
    rw [hcast, zeroCand_motion, List.getElem?_eq_none (by simpa using hall)]
    rfl
  unfold combinedCands
  by_cases hb : h.i1SliceType = .bslice ∧ 1 < list.length
  · rw [if_pos hb, if_pos ⟨hb.1, hb.2, hfew⟩]
    rcases biPredLoop_eq (h := h) list (Spec.pairs list.length) hlist hidx with
      ⟨cand, hloop, hget⟩ | ⟨hloop, hall⟩
    · rw [hloop, List.getElem?_map, List.getElem?_append_right hlist, hget]
      rfl
    · rw [← List.length_append] at hloop hall
      rw [hloop]
      exact hzero _ hall
  · rw [if_neg hb, if_neg fun hall => hb ⟨hall.1, hall.2.1⟩, List.append_nil]
    exact hzero list hlist

theorem combinedCands_motion {list : List MergeCand} (hlist : list.length < maxNumMergeCand)
    (horiginal : list.map MergeCand.motion =
      (mergeContext h level nbrs part collocatedMvp).original) :
    (combinedCands h list).map MergeCand.motion =
      (mergeContext h level nbrs part collocatedMvp).allCombined := by
  unfold combinedCands MergeContext.allCombined
  rw [← horiginal, List.length_map]
  by_cases hb : h.i1SliceType = .bslice ∧ 1 < list.length
  · refine Eq.trans ?_ (if_pos hb).symm
    rw [if_pos hb]
    exact biPredCands_motion list _ fun pair hpair =>
      Spec.pairs_lt hpair (Nat.le_of_lt_succ hlist)
  · refine Eq.trans ?_ (if_neg hb).symm
    rw [if_neg hb]
    rfl

/-- The decoder returns the entry of the complete list at the merge index. -/
theorem ihevcdMvMerge_entry (hidx : idx < maxCand) (hmax : maxCand ≤ maxNumMergeCand) :
    ((mergeContext h level nbrs part collocatedMvp).mergeList maxCand)[idx]? =
      some (ihevcdMvMerge h level nbrs idx part collocatedMvp).motion := by
  have horiginal : _ = (mergeContext h level nbrs part collocatedMvp).original := cands_motion
  have hroom : idx < maxNumMergeCand := hidx.trans_le hmax
  rw [Spec.mergeList_get _ hidx]
  congr 1
  unfold ihevcdMvMerge
  dsimp only
  generalize [_, _, _, _, _, _] = cands at horiginal ⊢
  rcases foldlM_addCand cands [] (Nat.zero_le idx) with ⟨cand, hrun, hget⟩ | ⟨hrun, hlen⟩
  · rw [List.nil_append] at hget
    obtain ⟨hin, _⟩ := List.getElem?_eq_some_iff.mp hget
    rw [hrun, ← horiginal, List.getElem?_append_left (by simpa using hin), List.getElem?_map, hget]
    rfl
  · rw [List.nil_append] at hrun hlen
    rw [hrun, ← combinedCands_motion (hlen.trans_lt hroom) horiginal, ← horiginal,
      ← List.map_append, List.length_map]
    exact (combined_entry _ hlen hroom).symm

end

end Libhevc.Decoder
