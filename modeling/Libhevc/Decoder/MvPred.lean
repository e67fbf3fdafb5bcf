import Libhevc.Decoder.Collocated

/-!
# Motion vector prediction of the decoder

`ihevcd_mv_pred`, which derives the predictors of both lists side by side and
stops when it has the ones that the indices of the prediction unit ask for, and
the addition of a difference in `ihevcd_get_mv_ctb`. The neighbours are those
that the maps of 4x4 blocks lead to.
-/

namespace Libhevc.Decoder

/-- The available neighbours that are not intra: `aps_nbr_pu`. -/
def nbrPus (nbrs : List (Bool × Pu)) : List Pu :=
  (nbrs.filter fun nbr => nbr.1 && !nbr.2.b1IntraFlag).map Prod.snd

/-- `CHECK_NBR_MV_ST` -/
def checkNbrMvSt (h : SliceHeader) (curPicBuf : PicBuf) (nbr : Pu) (lx : ListX) : Option Mv :=
  let nbrPicBuf := (h.psRefList lx (nbr.mv.refIdx lx)).pvPicBuf
  if nbr.b2PredMode.uses lx = true ∧ curPicBuf.i4AbsPoc = nbrPicBuf.i4AbsPoc then
    some (nbr.mv.mv lx)
  else none

/-- `CHECK_NBR_MV_LT` -/
def checkNbrMvLt (h : SliceHeader) (curPicBuf : PicBuf) (nbr : Pu) (lx : ListX) : Option Mv :=
  let nbrPicBuf := (h.psRefList lx (nbr.mv.refIdx lx)).pvPicBuf
  if nbr.b2PredMode.uses lx = true ∧
      (curPicBuf.u1UsedAsRef = longTermRef ↔ nbrPicBuf.u1UsedAsRef = longTermRef) then
    if nbrPicBuf.u1UsedAsRef = shortTermRef then
      some (ihevcdScaleMv (nbr.mv.mv lx) curPicBuf.i4AbsPoc nbrPicBuf.i4AbsPoc
        h.i4AbsPicOrderCnt)
    else some (nbr.mv.mv lx)
  else none

/-- `GET_MV_NBR_ST` and `GET_MV_NBR_LT`: of each neighbour, the same list is looked at first. -/
def getMvNbr (check : Pu → ListX → Option Mv) (lx : ListX) : List Pu → Option Mv
  | [] => none
  | nbr :: nbrs =>
    match check nbr lx with
    | some mv => some mv
    | none =>
      match check nbr lx.other with
      | some mv => some mv
      | none => getMvNbr check lx nbrs

/-- The candidates of one list: `num_lX_mvp_cand`, `lX_done_flag` and the predictor. -/
structure MvpCands where
  numMvpCand : Nat
  doneFlag : Bool
  predMv : Mv

def MvpCands.add (s : MvpCands) (maxMvpCand : Nat) (mv : Mv) : MvpCands :=
  let numMvpCand := s.numMvpCand + 1
  if maxMvpCand = numMvpCand then { numMvpCand, doneFlag := true, predMv := mv }
  else { s with numMvpCand }

/-- A candidate B counts when it is the first one or differs from candidate A. -/
def MvpCands.addB (s : MvpCands) (maxMvpCand : Nat) (mvA mvB : Option Mv) : MvpCands :=
  match mvB with
  | none => s
  | some mv => if s.numMvpCand = 0 ∨ mvA ≠ some mv then s.add maxMvpCand mv else s

def Pu.mvpIdx (pu : Pu) : ListX → Nat
  | .l0 => pu.b1L0MvpIdx
  | .l1 => pu.b1L1MvpIdx

def bothDone (s : ListX → MvpCands) : Bool := (s .l0).doneFlag && (s .l1).doneFlag

def MvpCands.addTemporal (s : MvpCands) (maxMvpCand : Nat) (mvCol : Option Mv) : MvpCands :=
  match mvCol with
  | none => s
  | some mv => if 2 ≠ s.numMvpCand then s.add maxMvpCand mv else s

/-- The order in which the candidates of both lists are counted, with the early returns: `mvL` are
the candidates B that may be scaled. -/
def mvpOrder (pu : Pu) (psPredMv : ListX → Mv) (mvA mvB mvL mvCol : ListX → Option Mv)
    (isScaledFlagList : Bool) : ListX → Mv :=
  let maxMvpCand := fun lx => pu.mvpIdx lx + 1
  let s := fun lx =>
    let s : MvpCands :=
      { numMvpCand := 0, doneFlag := !pu.b2PredMode.uses lx, predMv := psPredMv lx }
    match mvA lx with
    | none => s
    | some mv => s.add (maxMvpCand lx) mv
  if bothDone s then fun lx => (s lx).predMv
  else
    let s := fun lx => (s lx).addB (maxMvpCand lx) (mvA lx) (mvB lx)
    if bothDone s then fun lx => (s lx).predMv
    else
      -- without neighbours on the left, candidate B becomes candidate A
      let s := fun lx =>
        if isScaledFlagList then s lx
        else (s lx).addB (maxMvpCand lx) ((mvB lx).or (mvA lx)) (mvL lx)
      if bothDone s then fun lx => (s lx).predMv
      else
        let s := fun lx =>
          if 2 = (s .l0).numMvpCand ∧ 2 = (s .l1).numMvpCand then s lx
          else (s lx).addTemporal (maxMvpCand lx) (mvCol lx)
        fun lx => if (s lx).doneFlag then (s lx).predMv else .zero

/-- `collocatedMvp` is what `ihevcd_collocated_mvp` says of a position, and `psPredMv` what the
caller passes. -/
def ihevcdMvPred (h : SliceHeader) (nbrs : Nbrs Pu) (pu : Pu) (collocatedMvp : Nat → Nat → ColMvp)
    (psPredMv : ListX → Mv) : ListX → Mv :=
  let curPicBuf := fun lx => (h.psRefList lx (pu.mv.refIdx lx)).pvPicBuf
  let partPosX := pu.b4PosX <<< 2
  let partPosY := pu.b4PosY <<< 2
  let partWd := (pu.b4Wd + 1) <<< 2
  let partHt := (pu.b4Ht + 1) <<< 2
  let nbrA := nbrPus nbrs.left
  let nbrB := nbrPus nbrs.top
  -- list 1 is skipped when the unit does not use it
  let get := fun check nbrs lx =>
    if lx = .l1 ∧ pu.b2PredMode = .predL0 then none
    else getMvNbr (check h (curPicBuf lx)) lx nbrs
  let botRight := collocatedMvp (partPosX + partWd) (partPosY + partHt)
  let centre := collocatedMvp (partPosX + partWd >>> 1) (partPosY + partHt >>> 1)
  mvpOrder pu psPredMv (fun lx => (get checkNbrMvSt nbrA lx).or (get checkNbrMvLt nbrA lx))
    (get checkNbrMvSt nbrB) (get checkNbrMvLt nbrB) (temporalMv botRight centre) (!nbrA.isEmpty)

/-- A difference is added to its predictor modulo `1 << 16`. -/
def addMvd (mvp mvd : Int) : Int :=
  let tmp := (mvp + mvd + 65536) % 65536
  if 32768 ≤ tmp then tmp - 65536 else tmp

end Libhevc.Decoder
