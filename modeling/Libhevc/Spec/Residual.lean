import Libhevc.Common.Motion
import Mathlib.Algebra.BigOperators.Group.Finset.Basic

/-!
# The residual of a transform block

The transformation process for scaled coefficients and the picture construction, for
8-bit samples: columns first, 16-bit intermediate values, then rows.
-/

namespace Libhevc.Spec

/-- The first column of `transMatrix`. -/
def transColumn (m : Nat) : Int :=
  [64, 90, 90, 90, 89, 88, 87, 85, 83, 82, 80, 78, 75, 73, 70, 67, 64, 61, 57, 54, 50, 46, 43, 38,
   36, 31, 25, 22, 18, 13, 9, 4].getD m 0

/-- Row `m` of `transMatrix` samples a cosine at the odd multiples of `m` parts of a circle
of 128 parts, so that it repeats the values of the first column up to the sign. -/
def transMatrix (m n : Nat) : Int :=
  let angle := (2 * n + 1) * m % 128
  if angle < 32 then transColumn angle
  else if angle ≤ 64 then -transColumn (64 - angle)
  else if angle < 96 then -transColumn (angle - 64)
  else transColumn (128 - angle)

/-- The matrix of `trType` 1. -/
def dstMatrix (m n : Nat) : Int :=
  ([[29, 55, 74, 84], [74, 74, 0, -74], [84, -29, -74, 55], [55, -84, 74, -29]].getD m []).getD n 0

structure Transform where
  trType : Nat
  nTbS : Nat

namespace Transform

variable (t : Transform)

def matrix (m n : Nat) : Int :=
  if t.trType = 1 then dstMatrix m n else transMatrix (m * (32 / t.nTbS)) n

/-- The one-dimensional transformation of `x`. -/
def oneD (x : Nat → Int) (k : Nat) : Int := ∑ j ∈ Finset.range t.nTbS, t.matrix j k * x j

/-- The intermediate value at a row and a column. -/
def intermediate (d : Nat → Nat → Int) (row col : Nat) : Int :=
  clipS16 ((t.oneD (fun j => d j col) row + 64) >>> (7 : Nat))

def residual (d : Nat → Nat → Int) (row col : Nat) : Int :=
  (t.oneD (fun j => t.intermediate d row j) col + 2 ^ 11) >>> (12 : Nat)

def recSample (d pred : Nat → Nat → Int) (row col : Nat) : Int :=
  clip3 (pred row col + t.residual d row col) 0 255

end Transform

end Libhevc.Spec
