import Mathlib.Tactic.Common
import Mathlib.Algebra.Group.Nat.Defs

/-!
# Scaling lists

What the syntax elements of `scaling_list_data()` stand for: the lists (sections
7.3.4 and 7.4.5) and the scaling factors, which the lists give along the
up-right diagonal scan (section 6.5.3).
-/

namespace Libhevc.Spec.Scaling

/-- One list: predicted from an earlier one, or its coefficients. The first value of
`coefs` is there for `sizeId` above 1 only. -/
inductive ListElements
  | pred (matrixIdDelta : Nat)
  | coefs (dcCoefMinus8 : Int) (deltaCoefs : List Int)
  deriving DecidableEq, Repr

/-- The lists by `sizeId` and `matrixId`. -/
abbrev Elements := Nat → Nat → ListElements

def order : List (Nat × Nat) :=
  (List.range 4).flatMap fun sizeId =>
    if sizeId = 3 then [(3, 0), (3, 3)] else (List.range 6).map (sizeId, ·)

def matrixStep (sizeId : Nat) : Nat := if sizeId = 3 then 3 else 1

def coefNum (sizeId : Nat) : Nat := min 64 (2 ^ (4 + 2 * sizeId))

def ListElements.Conforms (sizeId matrixId : Nat) : ListElements → Prop
  | .pred delta => delta * matrixStep sizeId ≤ matrixId
  | .coefs dcCoefMinus8 deltas =>
    deltas.length = coefNum sizeId ∧ (∀ delta ∈ deltas, -128 ≤ delta ∧ delta ≤ 127) ∧
      (1 < sizeId → -7 ≤ dcCoefMinus8 ∧ dcCoefMinus8 ≤ 247)

instance : ∀ e : ListElements, Decidable (e.Conforms sizeId matrixId)
  | .pred _ => inferInstanceAs (Decidable (_ ≤ _))
  | .coefs _ _ => inferInstanceAs (Decidable (_ ∧ _ ∧ _))

def Conforms (σ : Elements) : Prop := ∀ q ∈ order, (σ q.1 q.2).Conforms q.1 q.2

instance : Decidable (Conforms σ) :=
  inferInstanceAs (Decidable (∀ q ∈ order, (σ q.1 q.2).Conforms q.1 q.2))

-- ---------------------------------------------------------------------------
-- The lists
-- ---------------------------------------------------------------------------

/-- `ScalingList[sizeId][matrixId]` and `scaling_list_dc_coef_minus8 + 8`. -/
structure ScalingList where
  coef : List Int
  dc : Int
  deriving DecidableEq, Repr

/-- Each coefficient from the one before it. -/
def coefsFrom (nextCoef : Int) : List Int → List Int
  | [] => []
  | delta :: deltas =>
    (nextCoef + delta + 256) % 256 :: coefsFrom ((nextCoef + delta + 256) % 256) deltas

/-- Table 7-6 for `matrixId` 0 to 2. -/
def defaultIntra : List Int :=
  [16, 16, 16, 16, 16, 16, 16, 16, 16, 16, 17, 16, 17, 16, 17, 18,
   17, 18, 18, 17, 18, 21, 19, 20, 21, 20, 19, 21, 24, 22, 22, 24,
   24, 22, 22, 24, 25, 25, 27, 30, 27, 25, 25, 29, 31, 35, 35, 31,
   29, 36, 41, 44, 41, 36, 47, 54, 54, 47, 65, 70, 65, 88, 88, 115]

/-- Table 7-6 for `matrixId` 3 to 5. -/
def defaultInter : List Int :=
  [16, 16, 16, 16, 16, 16, 16, 16, 16, 16, 17, 17, 17, 17, 17, 18,
   18, 18, 18, 18, 18, 20, 20, 20, 20, 20, 20, 20, 24, 24, 24, 24,
   24, 24, 24, 24, 25, 25, 25, 25, 25, 25, 25, 28, 28, 28, 28, 28,
   28, 33, 33, 33, 33, 33, 41, 41, 41, 41, 54, 54, 54, 71, 71, 91]

def defaultList (sizeId matrixId : Nat) : ScalingList :=
  ⟨if sizeId = 0 then List.replicate 16 16 else if matrixId < 3 then defaultIntra
    else defaultInter, 16⟩

/-- A delta of 0 stands for the default list, any other for the list that many matrices before. -/
def listOf (σ : Elements) (sizeId matrixId : Nat) : ScalingList :=
  match σ sizeId matrixId with
  | .coefs dcCoefMinus8 deltas =>
    ⟨coefsFrom (if 1 < sizeId then dcCoefMinus8 + 8 else 8) deltas, dcCoefMinus8 + 8⟩
  | .pred delta =>
    if 0 < delta * matrixStep sizeId ∧ delta * matrixStep sizeId ≤ matrixId then
      listOf σ sizeId (matrixId - delta * matrixStep sizeId)
    else defaultList sizeId matrixId
termination_by matrixId
decreasing_by omega

-- ---------------------------------------------------------------------------
-- The scaling factors
-- ---------------------------------------------------------------------------

/-- The columns and rows of a block in up-right diagonal order. -/
def scanOrder (blkSize : Nat) : List (Nat × Nat) :=
  (List.range (2 * blkSize - 1)).flatMap fun d =>
    ((List.range (d + 1)).map fun x => (x, d - x)).filter fun c => c.1 < blkSize && c.2 < blkSize

/-- The lists are of blocks of this size. -/
def blkSize (sizeId : Nat) : Nat := if sizeId = 0 then 4 else 8

/-- As many columns and rows of the matrix have one coefficient. -/
def ratio (sizeId : Nat) : Nat := 2 ^ (sizeId - 1)

def matSize (sizeId : Nat) : Nat := blkSize sizeId * ratio sizeId

/-- The list a matrix is made of: the 32x32 chroma matrices take those of the 16x16 ones. -/
def factorList (σ : Elements) (sizeId matrixId : Nat) : ScalingList :=
  if sizeId = 3 ∧ matrixId % 3 ≠ 0 then listOf σ 2 matrixId
  else listOf σ sizeId matrixId

/-- The factor a list gives at column `x` and row `y`. -/
def ScalingList.factor (l : ScalingList) (sizeId x y : Nat) : Int :=
  if 1 < sizeId ∧ x = 0 ∧ y = 0 then l.dc
  else l.coef.getD ((scanOrder (blkSize sizeId)).idxOf (x / ratio sizeId, y / ratio sizeId)) 0

/-- `ScalingFactor[sizeId][matrixId][x][y]` -/
def scalingFactor (σ : Elements) (sizeId matrixId x y : Nat) : Int :=
  (factorList σ sizeId matrixId).factor sizeId x y

end Libhevc.Spec.Scaling
