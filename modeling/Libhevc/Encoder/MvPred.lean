import Libhevc.Encoder.Collocated

/-!
# Motion vector prediction of the encoder

`ihevce_mv_pred`, which builds the two predictors of each list. There is no
result where a scaling divides by zero.
-/

namespace Libhevc.Encoder

/-- What the prediction of motion uses of `nbr_4x4_t`. -/
structure Nbr4x4 where
  b1IntraFlag : Bool
  b1PredL0Flag : Bool
  b1PredL1Flag : Bool
  mv : PuMv

def Nbr4x4.predFlag (nbr : Nbr4x4) : ListX → Bool
  | .l0 => nbr.b1PredL0Flag
  | .l1 => nbr.b1PredL1Flag

def maxMvpListCand : Nat := 2

/-- `i1_cur_ref_idx_list` -/
def Pu.curRefIdx (pu : Pu) (lx : ListX) : Int :=
  if pu.mv.refIdx lx = -1 then 0 else pu.mv.refIdx lx

/-- The list of a neighbour that is taken, of the same one and the other one. -/
def takenList (taken : ListX → Prop) [DecidablePred taken] (lx : ListX) : Option ListX :=
  if taken lx then some lx else if taken lx.other then some lx.other else none

/-- The loops over the neighbours: the first available one that has a vector that is taken, and
the list of the vector. -/
def firstNbr (taken : Nbr4x4 → ListX → Option ListX) (lx : ListX) :
    List (Bool × Nbr4x4) → Option (Nbr4x4 × ListX)
  | [] => none
  | (avail, nbr) :: nbrs =>
    if avail = true ∧ nbr.b1IntraFlag = false then
      match taken nbr lx with
      | some list => some (nbr, list)
      | none => firstNbr taken lx nbrs
    else firstNbr taken lx nbrs

def MvPredCtxt.nbrRefPoc (c : MvPredCtxt) (nbr : Nbr4x4) (lx : ListX) : Int :=
  (c.psRefList lx (nbr.mv.refIdx lx)).i4Poc

/-- A vector for the same reference picture. -/
def MvPredCtxt.sameRef (c : MvPredCtxt) (curRefPoc : Int) (nbr : Nbr4x4) (lx : ListX) :
    Option ListX :=
  takenList (fun list => nbr.predFlag list = true ∧ c.nbrRefPoc nbr list = curRefPoc) lx

/-- A vector for any reference picture. -/
def anyRef (nbr : Nbr4x4) (lx : ListX) : Option ListX :=
  takenList (fun list => nbr.predFlag list = true) lx

/-- `mvp_list_lX`: a candidate B that is equal to candidate A is left out, and the list filled up
with zeros. -/
def mvpList (mvA mvB temporal : Option Mv) : List Mv :=
  let list := mvA.toList
  let list :=
    match mvB with
    | none => list
    | some mv => if mvA ≠ some mv ∨ list = [] then list ++ [mv] else list
  let list := if list.length < maxMvpListCand then list ++ temporal.toList else list
  (list ++ List.replicate (maxMvpListCand - list.length) Mv.zero).take maxMvpListCand

/-- `collocatedMvp` is what `ihevce_collocated_mvp` says of a position. -/
def ihevceMvPred (c : MvPredCtxt) (nbrs : Nbrs Nbr4x4) (pu : Pu)
    (collocatedMvp : Nat → Nat → ColMvp) : Option (ListX → List Mv) := do
  let partPosX := pu.b4PosX <<< 2
  let partPosY := pu.b4PosY <<< 2
  let partWd := (pu.b4Wd + 1) <<< 2
  let partHt := (pu.b4Ht + 1) <<< 2
  let curRefPoc := fun lx => (c.psRefList lx (pu.curRefIdx lx)).i4Poc
  let curPoc := c.psSliceHdr.i4AbsPicOrderCnt
  let isScaledFlag := nbrs.left.any fun nbr => nbr.1 && !nbr.2.b1IntraFlag
  let same := fun lx nbrs =>
    (firstNbr (c.sameRef (curRefPoc lx)) lx nbrs).map fun nbr => nbr.1.mv.mv nbr.2
  let scaled := fun lx (nbr : Nbr4x4 × ListX) =>
    ihevceScaleMv (nbr.1.mv.mv nbr.2) (curRefPoc lx) (c.nbrRefPoc nbr.1 nbr.2) curPoc
  let mvA := fun lx =>
    match same lx nbrs.left with
    | some mv => some (some mv)
    | none =>
      match firstNbr anyRef lx nbrs.left with
      | none => some none
      | some nbr => (scaled lx nbr).map some
  let mvB := fun lx =>
    if isScaledFlag then some (same lx nbrs.top)
    else
      match firstNbr anyRef lx nbrs.top with
      | none => some none
      | some nbr =>
        -- a vector for the same reference picture is not scaled
        if curRefPoc lx ≠ c.nbrRefPoc nbr.1 nbr.2 then (scaled lx nbr).map some
        else some (some (nbr.1.mv.mv nbr.2))
  let mvA0 ← mvA .l0
  let mvA1 ← mvA .l1
  let mvB0 ← mvB .l0
  let mvB1 ← mvB .l1
  let botRight := collocatedMvp (partPosX + partWd) (partPosY + partHt)
  let centre := collocatedMvp (partPosX + partWd >>> 1) (partPosY + partHt >>> 1)
  let list := fun lx (mvA mvB : Option Mv) =>
    mvpList (if isScaledFlag then mvA else (same lx nbrs.top).or mvA) mvB
      (temporalMv botRight centre lx)
  some fun lx =>
    match lx with
    | .l0 => list .l0 mvA0 mvB0
    | .l1 => list .l1 mvA1 mvB1

/-- The difference of a vector and its predictor, a `WORD16`. -/
def mvd (mv mvp : Int) : Int := i16 (mv - mvp)

end Libhevc.Encoder
