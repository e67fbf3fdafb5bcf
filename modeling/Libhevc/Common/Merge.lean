import Libhevc.Common.Motion

/-!
# Merge candidates

What decoder and encoder have in common: the places of the neighbours of a
prediction block, the rules that leave some of them out, and the order in which
candidates are combined.
-/

namespace Libhevc

inductive PartMode
  | part2Nx2N
  | part2NxN
  | partNx2N
  | partNxN
  | part2NxnU
  | part2NxnD
  | partnLx2N
  | partnRx2N
  deriving DecidableEq, Repr

/-- `NBR_A0` and so on -/
inductive NbrPos
  | a0
  | a1
  | b0
  | b1
  | b2
  deriving DecidableEq, Repr

def maxNumMergeCand : Nat := 5

/-- A partition, with its position in the CTB. -/
structure Part where
  partMode : PartMode
  partIdx : Nat
  partPosX : Nat
  partPosY : Nat
  partWd : Nat
  partHt : Nat
  singleMclFlag : Bool

def Part.nbrX (p : Part) : NbrPos → Int
  | .a0 | .a1 | .b2 => (p.partPosX : Int) - 1
  | .b0 => p.partPosX + p.partWd
  | .b1 => (p.partPosX : Int) + p.partWd - 1

def Part.nbrY (p : Part) : NbrPos → Int
  | .a0 => p.partPosY + p.partHt
  | .a1 => (p.partPosY : Int) + p.partHt - 1
  | .b0 | .b1 | .b2 => (p.partPosY : Int) - 1

/-- The neighbour is at the same merge level. -/
def Part.sameLevel (p : Part) (mergeShift : Nat) (nbr : NbrPos) : Bool :=
  (p.partPosX : Int) >>> mergeShift = p.nbrX nbr >>> mergeShift ∧
    (p.partPosY : Int) >>> mergeShift = p.nbrY nbr >>> mergeShift

/-- The second part of two in a CU, when the CU has no single list. -/
def Part.secondOf (p : Part) (modes : List PartMode) : Bool :=
  p.singleMclFlag = false ∧ p.partIdx = 1 ∧ p.partMode ∈ modes

/-- The modes of two parts side by side. -/
def besideModes : List PartMode := [.partNx2N, .partnLx2N, .partnRx2N]

/-- The modes of two parts one below the other. -/
def belowModes : List PartMode := [.part2NxN, .part2NxnU, .part2NxnD]

def Nbrs.get (n : Nbrs α) : NbrPos → Bool × α
  | .a0 => (n.lbAvail, n.a0)
  | .a1 => (n.lAvail, n.a1)
  | .b0 => (n.trAvail, n.b0)
  | .b1 => (n.tAvail, n.b1)
  | .b2 => (n.tlAvail, n.b2)

/-- `priority_list0` and `priority_list1` -/
def priorityList : List (Nat × Nat) :=
  [(0, 1), (1, 0), (0, 2), (2, 0), (1, 2), (2, 1), (0, 3), (3, 0), (1, 3), (3, 1), (2, 3), (3, 2)]

/-- The lists without a vector at the bottom right get the one of the centre. -/
def ColMvp.orCentre (botRight centre : ColMvp) : ColMvp where
  u4AvailColFlag lx := botRight.u4AvailColFlag lx || centre.u4AvailColFlag lx
  mvCol lx := if botRight.u4AvailColFlag lx then botRight.mvCol lx else centre.mvCol lx

/-- Zero candidates go through the references that both lists of a B slice have. -/
def MotionHeader.numRefIdx (h : MotionHeader) : Int :=
  if h.i1SliceType = .pslice then h.i1NumRefIdxL0Active
  else min h.i1NumRefIdxL0Active h.i1NumRefIdxL1Active

end Libhevc
