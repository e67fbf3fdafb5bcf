import Mathlib.Data.Fin.Basic
import Mathlib.Order.Basic

/-!
# The deblocking filter of section 8.7.2.5

An edge of four lines with `n` samples on each side, for bit depth 8. What the
section says of `p` and `q` in turn is said here of a side and the opposite one.
-/

namespace Libhevc.Spec.Deblk

def clip3 (lo hi x : Int) : Int := if x < lo then lo else if hi < x then hi else x

def clip1 (x : Int) : Int := clip3 0 255 x

/-- The samples of a line, counted from the edge. -/
@[ext]
structure EdgeLine (n : Nat) where
  p : Fin n → Int
  q : Fin n → Int

/-- The line seen from the other side of the edge. -/
def EdgeLine.swap (l : EdgeLine n) : EdgeLine n := { p := l.q, q := l.p }

/-- Which samples of the sides may be modified. -/
structure EdgeFlags where
  filterP : Bool
  filterQ : Bool

def EdgeFlags.swap (e : EdgeFlags) : EdgeFlags := { filterP := e.filterQ, filterQ := e.filterP }

/-- A side whose samples are not to be modified keeps them. -/
def EdgeFlags.choose (e : EdgeFlags) (old new : EdgeLine n) : EdgeLine n :=
  { p := if e.filterP then new.p else old.p, q := if e.filterQ then new.q else old.q }

/-- `β′` of Table 8-12. -/
def betaPrime (q : Int) : Int := if q < 16 then 0 else if q ≤ 28 then q - 10 else 2 * q - 38

def tcPrimes : List Int :=
  List.replicate 18 0 ++ List.replicate 9 1 ++ List.replicate 4 2 ++ List.replicate 4 3 ++
    List.replicate 3 4 ++ [5, 5, 6, 6, 7, 8, 9, 10, 11, 13, 14, 16, 18, 20, 22, 24]

/-- `tC′` of Table 8-12. -/
def tcPrime (q : Int) : Int := tcPrimes.getD q.toNat 0

-- ---------------------------------------------------------------------------
-- Luma
-- ---------------------------------------------------------------------------

structure LumaEdge where
  bS : Int
  qpP : Int
  qpQ : Int
  betaOffsetDiv2 : Int
  tcOffsetDiv2 : Int
  flags : EdgeFlags

def LumaEdge.qpL (e : LumaEdge) : Int := (e.qpQ + e.qpP + 1) / 2

def LumaEdge.beta (e : LumaEdge) : Int := betaPrime (clip3 0 51 (e.qpL + 2 * e.betaOffsetDiv2))

def LumaEdge.tc (e : LumaEdge) : Int :=
  tcPrime (clip3 0 53 (e.qpL + 2 * (e.bS - 1) + 2 * e.tcOffsetDiv2))

/-- The second difference of a side, of which `dp` and `dq` are made. -/
def bend (side : Fin 4 → Int) : Int := ((side 2 - 2 * side 1 + side 0).natAbs : Int)

/-- The decision process for a luma sample, 8.7.2.5.6. -/
def dSam (beta tc dpq : Int) (l : EdgeLine 4) : Prop :=
  dpq < beta / 4 ∧
    ((l.p 3 - l.p 0).natAbs : Int) + ((l.q 0 - l.q 3).natAbs : Int) < beta / 8 ∧
    ((l.p 0 - l.q 0).natAbs : Int) < (5 * tc + 1) / 2

instance : Decidable (dSam beta tc dpq l) := inferInstanceAs (Decidable (_ ∧ _ ∧ _))

/-- Whether an edge is filtered at all, `dE` other than 0. -/
def filtered (beta : Int) (block : Fin 4 → EdgeLine 4) : Prop :=
  bend (block 0).p + bend (block 0).q + (bend (block 3).p + bend (block 3).q) < beta

instance : Decidable (filtered beta block) := inferInstanceAs (Decidable (_ < _))

/-- The strong filter, `dE` of 2. -/
def strong (beta tc : Int) (block : Fin 4 → EdgeLine 4) : Prop :=
  dSam beta tc (2 * (bend (block 0).p + bend (block 0).q)) (block 0) ∧
    dSam beta tc (2 * (bend (block 3).p + bend (block 3).q)) (block 3)

instance : Decidable (strong beta tc block) := inferInstanceAs (Decidable (_ ∧ _))

/-- `dEp` and `dEq`: the second sample of a side is modified, too. -/
def second (beta : Int) (side0 side3 : Fin 4 → Int) : Bool :=
  decide (bend side0 + bend side3 < (beta + beta / 2) / 8)

/-- The strong filter of a side, 8.7.2.5.7. -/
def strongSide (tc : Int) (near far : Fin 4 → Int) : Fin 4 → Int
  | 0 => clip3 (near 0 - 2 * tc) (near 0 + 2 * tc)
      ((near 2 + 2 * near 1 + 2 * near 0 + 2 * far 0 + far 1 + 4) / 8)
  | 1 => clip3 (near 1 - 2 * tc) (near 1 + 2 * tc) ((near 2 + near 1 + near 0 + far 0 + 2) / 4)
  | 2 => clip3 (near 2 - 2 * tc) (near 2 + 2 * tc)
      ((2 * near 3 + 3 * near 2 + near 1 + near 0 + far 0 + 4) / 8)
  | 3 => near 3

/-- Sixteen times `Δ`, before it is rounded. -/
def normalDiff (l : EdgeLine 4) : Int := 9 * (l.q 0 - l.p 0) - 3 * (l.q 1 - l.p 1)

/-- The normal filter of the side to which `Δ` is added. -/
def normalSide (tc delta : Int) (dE1 : Bool) (near : Fin 4 → Int) : Fin 4 → Int
  | 0 => clip1 (near 0 + delta)
  | 1 => if dE1 then
      clip1 (near 1 +
        clip3 (-(tc / 2)) (tc / 2) (((near 2 + near 0 + 1) / 2 - near 1 + delta) / 2))
    else near 1
  | 2 => near 2
  | 3 => near 3

/-- The filter of a line with `dE` of 1. -/
def normalLine (tc : Int) (dEp dEq : Bool) (l : EdgeLine 4) : EdgeLine 4 :=
  let delta := (normalDiff l + 8) / 16
  if (delta.natAbs : Int) < tc * 10 then
    { p := normalSide tc (clip3 (-tc) tc delta) dEp l.p
      q := normalSide tc (-clip3 (-tc) tc delta) dEq l.q }
  else l

/-- The lines of an edge after its filter. -/
def LumaEdge.filter (e : LumaEdge) (block : Fin 4 → EdgeLine 4) (k : Fin 4) : EdgeLine 4 :=
  if filtered e.beta block then
    e.flags.choose (block k)
      (if strong e.beta e.tc block then
        { p := strongSide e.tc (block k).p (block k).q
          q := strongSide e.tc (block k).q (block k).p }
      else
        normalLine e.tc (second e.beta (block 0).p (block 3).p)
          (second e.beta (block 0).q (block 3).q) (block k))
  else block k

def LumaEdge.swap (e : LumaEdge) : LumaEdge :=
  { e with qpP := e.qpQ, qpQ := e.qpP, flags := e.flags.swap }

/-- `Δ` of a line that the normal filter may modify lies halfway between two integers. -/
def LumaEdge.Tie (e : LumaEdge) (block : Fin 4 → EdgeLine 4) : Prop :=
  0 < e.tc ∧ filtered e.beta block ∧ ¬ strong e.beta e.tc block ∧
    ∃ k, normalDiff (block k) % 16 = 8

-- ---------------------------------------------------------------------------
-- Chroma
-- ---------------------------------------------------------------------------

structure ChromaEdge where
  chromaArrayType : Int
  qpP : Int
  qpQ : Int
  cQpPicOffset : Int
  tcOffsetDiv2 : Int
  flags : EdgeFlags

/-- `QpC` as a function of `qPi`: Table 8-10 for `ChromaArrayType` 1. -/
def qpC (chromaArrayType qpi : Int) : Int :=
  if chromaArrayType = 1 then
    if qpi < 30 then qpi
    else if qpi ≤ 43 then
      ([29, 30, 31, 32, 33, 33, 34, 34, 35, 35, 36, 36, 37, 37] : List Int).getD
        (qpi - 30).toNat 0
    else qpi - 6
  else min qpi 51

/-- `tC` of a chroma edge, whose `bS` is 2. -/
def ChromaEdge.tc (e : ChromaEdge) : Int :=
  tcPrime (clip3 0 53 (qpC e.chromaArrayType ((e.qpQ + e.qpP + 1) / 2 + e.cQpPicOffset) +
    2 * (2 - 1) + 2 * e.tcOffsetDiv2))

/-- Eight times `Δ`, before it is rounded. -/
def chromaDiff (l : EdgeLine 2) : Int := (l.q 0 - l.p 0) * 4 + l.p 1 - l.q 1

def chromaSide (delta : Int) (near : Fin 2 → Int) : Fin 2 → Int
  | 0 => clip1 (near 0 + delta)
  | 1 => near 1

/-- The filter of a chroma line, 8.7.2.5.8. -/
def chromaLine (tc : Int) (flags : EdgeFlags) (l : EdgeLine 2) : EdgeLine 2 :=
  let delta := clip3 (-tc) tc ((chromaDiff l + 4) / 8)
  flags.choose l { p := chromaSide delta l.p, q := chromaSide (-delta) l.q }

def ChromaEdge.filter (e : ChromaEdge) (block : Fin 4 → EdgeLine 2) (k : Fin 4) : EdgeLine 2 :=
  chromaLine e.tc e.flags (block k)

end Libhevc.Spec.Deblk
