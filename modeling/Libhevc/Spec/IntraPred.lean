import Libhevc.Lib.Cells
import Mathlib.Algebra.BigOperators.Group.List.Basic
import Mathlib.Algebra.Order.Ring.Int

/-!
# Intra sample prediction of section 8.4.4.2

The neighbouring samples of a luma block of size `nTbS` are `p x y` with `x = -1` and `y` from
`-1` to `2 * nTbS - 1`, or `y = -1` and `x` from `0` to `2 * nTbS - 1`, for bit depth 8.
-/

namespace Libhevc.Spec.IntraPred

abbrev Samples := Int → Int → Int

def clip1 (x : Int) : Int := if x < 0 then 0 else if 255 < x then 255 else x

-- ---------------------------------------------------------------------------
-- Section 8.4.4.2.2: substitution
-- ---------------------------------------------------------------------------

/-- The order of the search, from the bottom-left sample up and then to the right. -/
def scanX (nTbS i : Nat) : Int := if i < 2 * nTbS then -1 else i - 2 * nTbS - 1

def scanY (nTbS i : Nat) : Int := if i < 2 * nTbS then 2 * nTbS - 1 - i else -1

def scanIdx (nTbS : Nat) (x y : Int) : Nat :=
  if x = -1 then (2 * nTbS - 1 - y).toNat else (2 * nTbS + 1 + x).toNat

def substitution (nTbS : Nat) (avail : Int → Int → Bool) (s : Samples) : Samples := fun x y =>
  Cells.substituted (4 * nTbS + 1) (2 ^ (8 - 1)) (fun i => avail (scanX nTbS i) (scanY nTbS i))
    (fun i => s (scanX nTbS i) (scanY nTbS i)) (scanIdx nTbS x y)

-- ---------------------------------------------------------------------------
-- Section 8.4.4.2.3: filtering of neighbouring samples
-- ---------------------------------------------------------------------------

def minDistVerHor (mode : Nat) : Int := min |(mode : Int) - 26| |(mode : Int) - 10|

/-- `intraHorVerDistThres` of Table 8-3. -/
def intraHorVerDistThres (nTbS : Nat) : Int := if nTbS = 8 then 7 else if nTbS = 16 then 1 else 0

def filterFlag (mode nTbS : Nat) : Bool :=
  if mode = 1 ∨ nTbS = 4 then false
  else decide (intraHorVerDistThres nTbS < minDistVerHor mode)

def biIntFlag (strong : Bool) (p : Samples) (nTbS : Nat) : Bool :=
  strong && decide (nTbS = 32) &&
    decide (|p (-1) (-1) + p (nTbS * 2 - 1) (-1) - 2 * p (nTbS - 1) (-1)| < 2 ^ (8 - 5)) &&
    decide (|p (-1) (-1) + p (-1) (nTbS * 2 - 1) - 2 * p (-1) (nTbS - 1)| < 2 ^ (8 - 5))

/-- `pF` when `biIntFlag` is 1. -/
def biLinear (p : Samples) : Samples := fun x y =>
  if x = -1 ∧ y = -1 then p (-1) (-1)
  else if x = -1 then
    if y = 63 then p (-1) 63 else ((63 - y) * p (-1) (-1) + (y + 1) * p (-1) 63 + 32) / 64
  else if x = 63 then p 63 (-1)
  else ((63 - x) * p (-1) (-1) + (x + 1) * p 63 (-1) + 32) / 64

/-- `pF` when `biIntFlag` is 0. -/
def threeTap (p : Samples) (nTbS : Nat) : Samples := fun x y =>
  if x = -1 ∧ y = -1 then (p (-1) 0 + 2 * p (-1) (-1) + p 0 (-1) + 2) / 4
  else if x = -1 then
    if y = nTbS * 2 - 1 then p (-1) y else (p (-1) (y + 1) + 2 * p (-1) y + p (-1) (y - 1) + 2) / 4
  else if x = nTbS * 2 - 1 then p x (-1)
  else (p (x - 1) (-1) + 2 * p x (-1) + p (x + 1) (-1) + 2) / 4

def filtered (disabled strong : Bool) (mode nTbS : Nat) (p : Samples) : Samples :=
  if !disabled && filterFlag mode nTbS then
    if biIntFlag strong p nTbS then biLinear p else threeTap p nTbS
  else p

-- ---------------------------------------------------------------------------
-- Sections 8.4.4.2.4 to 8.4.4.2.6: the modes
-- ---------------------------------------------------------------------------

def planar (p : Samples) (nTbS : Nat) (x y : Nat) : Int :=
  ((nTbS - 1 - x) * p (-1) y + (x + 1) * p nTbS (-1) + (nTbS - 1 - y) * p x (-1) +
    (y + 1) * p (-1) nTbS + nTbS) / 2 ^ (Nat.log2 nTbS + 1)

def dcVal (p : Samples) (nTbS : Nat) : Int :=
  (((List.range nTbS).map fun x : Nat => p x (-1)).sum +
    ((List.range nTbS).map fun y : Nat => p (-1) y).sum + nTbS) / 2 ^ (Nat.log2 nTbS + 1)

def dc (p : Samples) (nTbS : Nat) (x y : Nat) : Int :=
  let dcVal := dcVal p nTbS
  if nTbS < 32 then
    if x = 0 ∧ y = 0 then (p (-1) 0 + 2 * dcVal + p 0 (-1) + 2) / 4
    else if y = 0 then (p x (-1) + 3 * dcVal + 2) / 4
    else if x = 0 then (p (-1) y + 3 * dcVal + 2) / 4
    else dcVal
  else dcVal

/-- Table 8-5, for the modes from 2 on. -/
def intraPredAngle (mode : Nat) : Int :=
  [32, 26, 21, 17, 13, 9, 5, 2, 0, -2, -5, -9, -13, -17, -21, -26, -32, -26, -21, -17, -13, -9,
    -5, -2, 0, 2, 5, 9, 13, 17, 21, 26, 32].getD (mode - 2) 0

/-- Table 8-6, for the modes from 11 on. -/
def invAngle (mode : Nat) : Int :=
  [-4096, -1638, -910, -630, -482, -390, -315, -256, -315, -390, -482, -630, -910, -1638,
    -4096].getD (mode - 11) 0

/-- The array `ref`. Its negative part is used when the angle is negative. -/
def refArray (p : Samples) (mode : Nat) (x : Int) : Int :=
  if 18 ≤ mode then
    if x < 0 then p (-1) (-1 + (x * invAngle mode + 128) / 256) else p (-1 + x) (-1)
  else if x < 0 then p (-1 + (x * invAngle mode + 128) / 256) (-1)
  else p (-1) (-1 + x)

/-- The sample at `along` in the line `across` of the array's direction. -/
def interpolated (p : Samples) (mode : Nat) (along across : Nat) : Int :=
  let iIdx := ((across + 1) * intraPredAngle mode) / 32
  let iFact := ((across + 1) * intraPredAngle mode) % 32
  if iFact ≠ 0 then
    ((32 - iFact) * refArray p mode (along + iIdx + 1) +
      iFact * refArray p mode (along + iIdx + 2) + 16) / 32
  else refArray p mode (along + iIdx + 1)

def angular (p : Samples) (mode nTbS : Nat) (disableBoundaryFilter : Bool) (x y : Nat) : Int :=
  if 18 ≤ mode then
    if mode = 26 ∧ x = 0 ∧ disableBoundaryFilter = false ∧ nTbS < 32 then
      clip1 (p 0 (-1) + (p (-1) y - p (-1) (-1)) / 2)
    else interpolated p mode x y
  else if mode = 10 ∧ y = 0 ∧ disableBoundaryFilter = false ∧ nTbS < 32 then
    clip1 (p (-1) 0 + (p x (-1) - p (-1) (-1)) / 2)
  else interpolated p mode y x

def predSample (p : Samples) (mode nTbS : Nat) (disableBoundaryFilter : Bool) (x y : Nat) : Int :=
  if mode = 0 then planar p nTbS x y
  else if mode = 1 then dc p nTbS x y
  else angular p mode nTbS disableBoundaryFilter x y

end Libhevc.Spec.IntraPred
