import Libhevc.Common.ItransRecon
import Mathlib.Logic.Function.Basic

/-!
# Deblocking edge filters

`ihevc_deblk_edge_filter.c`, the filters of an edge of four lines for 8-bit
samples, and the tables of `ihevc_deblk_tables.c`. A sample is found at
`across` times its distance from the edge and `along` times its line. In the
luma functions the two edges differ in nothing but these. A right shift is
division rounding down; no value comes near the bounds of `WORD32`.
-/

namespace Libhevc.Deblk

open ItransRecon

def gai4IhevcBetaTable : List Int := [
  0, 0, 0, 0, 0, 0, 0, 0, 0, 0, 0, 0, 0,
  0, 0, 0, 6, 7, 8, 9, 10, 11, 12, 13, 14, 15,
  16, 17, 18, 20, 22, 24, 26, 28, 30, 32, 34, 36, 38,
  40, 42, 44, 46, 48, 50, 52, 54, 56, 58, 60, 62, 64]

def gai4IhevcTcTable : List Int := [
  0, 0, 0, 0, 0, 0, 0, 0, 0,
  0, 0, 0, 0, 0, 0, 0, 0, 0,
  1, 1, 1, 1, 1, 1, 1, 1, 1,
  2, 2, 2, 2, 3, 3, 3, 3, 4,
  4, 4, 5, 5, 6, 6, 7, 8, 9,
  10, 11, 13, 14, 16, 18, 20, 22, 24]

def gai4IhevcQpTable : List Int := [
  0, 1, 2, 3, 4, 5, 6, 7, 8, 9, 10, 11, 12, 13, 14, 15, 16,
  17, 18, 19, 20, 21, 22, 23, 24, 25, 26, 27, 28, 29, 29, 30, 31, 32,
  33, 33, 34, 34, 35, 35, 36, 36, 37, 37, 38, 39, 40, 41, 42, 43, 44,
  45, 46, 47, 48, 49, 50, 51]

def tableAt (table : List Int) (indx : Int) : Int := table.getD indx.toNat 0

/-- The sample at distance `i` from the edge, on the line of address `a`. -/
def sampleAt (src : Int → UInt8) (a across i : Int) : Int := ((src (a + i * across)).toNat : Int)

/-- `pu1_src[i] = x` -/
def store (src : Int → UInt8) (a across i x : Int) : Int → UInt8 :=
  Function.update src (a + i * across) (UInt8.ofInt x)

-- ---------------------------------------------------------------------------
-- Luma
-- ---------------------------------------------------------------------------

structure LumaArgs where
  bs : Int
  quantParamP : Int
  quantParamQ : Int
  betaOffsetDiv2 : Int
  tcOffsetDiv2 : Int
  filterFlagP : Int
  filterFlagQ : Int
  deriving DecidableEq, Repr

namespace LumaArgs

variable (g : LumaArgs)

def qpLuma : Int := (g.quantParamP + g.quantParamQ + 1) / 2

def betaIndx : Int := clip3 (g.qpLuma + 2 * g.betaOffsetDiv2) 0 51

def tcIndx : Int := clip3 (g.qpLuma + 2 * (g.bs / 2) + 2 * g.tcOffsetDiv2) 0 53

def beta : Int := tableAt gai4IhevcBetaTable g.betaIndx

def tc : Int := tableAt gai4IhevcTcTable g.tcIndx

end LumaArgs

/-- `dq0`, `dq3` -/
def dqLine (s : Int → Int) : Int := ((s 2 - 2 * s 1 + s 0).natAbs : Int)

/-- `dp0`, `dp3` -/
def dpLine (s : Int → Int) : Int := ((s (-3) - 2 * s (-2) + s (-1)).natAbs : Int)

/-- `d_sam0`, `d_sam3` -/
def dSam (beta tc d : Int) (s : Int → Int) : Int :=
  if 2 * d < beta / 4 ∧
      ((s 3 - s 0).natAbs : Int) + ((s (-1) - s (-4)).natAbs : Int) < beta / 8 ∧
      ((s 0 - s (-1)).natAbs : Int) < (5 * tc + 1) / 2 then 1 else 0

structure Decision where
  de : Int
  dep : Int
  deq : Int
  deriving DecidableEq, Repr

/-- The decisions, taken on the lines 0 and 3. -/
def lumaDecision (beta tc : Int) (s0 s3 : Int → Int) : Decision :=
  let d0 := dpLine s0 + dqLine s0
  let d3 := dpLine s3 + dqLine s3
  let dp := dpLine s0 + dpLine s3
  let dq := dqLine s0 + dqLine s3
  if d0 + d3 < beta then
    { de := if dSam beta tc d0 s0 = 1 ∧ dSam beta tc d3 s3 = 1 then 2 else 1
      dep := if tc ≤ 1 then 0 else if dp < (beta + beta / 2) / 8 then 1 else 0
      deq := if tc ≤ 1 then 0 else if dq < (beta + beta / 2) / 8 then 1 else 0 }
  else { de := 0, dep := 0, deq := 0 }

/-- `tmp_p0` to `tmp_q2` -/
structure LumaTmp where
  p0 : Int
  p1 : Int
  p2 : Int
  q0 : Int
  q1 : Int
  q2 : Int

def lumaTmp (tc : Int) (dec : Decision) (s : Int → Int) : LumaTmp :=
  if dec.de = 2 then
    { q0 := clip3 ((s 2 + 2 * s 1 + 2 * s 0 + 2 * s (-1) + s (-2) + 4) / 8)
        (s 0 - 2 * tc) (s 0 + 2 * tc)
      q1 := clip3 ((s 2 + s 1 + s 0 + s (-1) + 2) / 4) (s 1 - 2 * tc) (s 1 + 2 * tc)
      q2 := clip3 ((2 * s 3 + 3 * s 2 + s 1 + s 0 + s (-1) + 4) / 8) (s 2 - 2 * tc) (s 2 + 2 * tc)
      p0 := clip3 ((s 1 + 2 * s 0 + 2 * s (-1) + 2 * s (-2) + s (-3) + 4) / 8)
        (s (-1) - 2 * tc) (s (-1) + 2 * tc)
      p1 := clip3 ((s 0 + s (-1) + s (-2) + s (-3) + 2) / 4) (s (-2) - 2 * tc) (s (-2) + 2 * tc)
      p2 := clip3 ((s 0 + s (-1) + s (-2) + 3 * s (-3) + 2 * s (-4) + 4) / 8)
        (s (-3) - 2 * tc) (s (-3) + 2 * tc) }
  else
    let delta := (9 * (s 0 - s (-1)) - 3 * (s 1 - s (-2)) + 8) / 16
    if (delta.natAbs : Int) < 10 * tc then
      let delta := clip3 delta (-tc) tc
      { p0 := clipU8 (s (-1) + delta)
        q0 := clipU8 (s 0 - delta)
        p1 := if dec.dep = 1 then
            clipU8 (s (-2) +
              clip3 (((s (-3) + s (-1) + 1) / 2 - s (-2) + delta) / 2) (-(tc / 2)) (tc / 2))
          else s (-2)
        q1 := if dec.deq = 1 then
            clipU8 (s 1 + clip3 (((s 2 + s 0 + 1) / 2 - s 1 - delta) / 2) (-(tc / 2)) (tc / 2))
          else s 1
        p2 := s (-3)
        q2 := s 2 }
    else { p0 := s (-1), p1 := s (-2), p2 := s (-3), q0 := s 0, q1 := s 1, q2 := s 2 }

/-- One turn of the loop over the lines. -/
def lumaRow (g : LumaArgs) (dec : Decision) (across : Int) (src : Int → UInt8) (a : Int) :
    Int → UInt8 :=
  let tmp := lumaTmp g.tc dec (sampleAt src a across)
  let src := if g.filterFlagP ≠ 0 then
      store (store (store src a across (-3) tmp.p2) a across (-2) tmp.p1) a across (-1) tmp.p0
    else src
  if g.filterFlagQ ≠ 0 then
    store (store (store src a across 0 tmp.q0) a across 1 tmp.q1) a across 2 tmp.q2
  else src

def deblkLuma (g : LumaArgs) (across along : Int) (src : Int → UInt8) (a : Int) : Int → UInt8 :=
  if g.tc = 0 then src
  else
    let dec := lumaDecision g.beta g.tc (sampleAt src a across)
      (sampleAt src (a + 3 * along) across)
    if dec.de ≠ 0 then
      (List.range 4).foldl (fun src (row : Nat) => lumaRow g dec across src (a + row * along)) src
    else src

def ihevcDeblkLumaVert (g : LumaArgs) (srcStrd : Int) (src : Int → UInt8) (pu1Src : Int) :
    Int → UInt8 :=
  deblkLuma g 1 srcStrd src pu1Src

def ihevcDeblkLumaHorz (g : LumaArgs) (srcStrd : Int) (src : Int → UInt8) (pu1Src : Int) :
    Int → UInt8 :=
  deblkLuma g srcStrd 1 src pu1Src

-- ---------------------------------------------------------------------------
-- Chroma
-- ---------------------------------------------------------------------------

def chromaFmtIdcYuv444 : Int := 3

structure ChromaArgs where
  quantParamP : Int
  quantParamQ : Int
  qpOffsetU : Int
  qpOffsetV : Int
  tcOffsetDiv2 : Int
  filterFlagP : Int
  filterFlagQ : Int
  chromaFmtIdc : Int
  deriving DecidableEq, Repr

namespace ChromaArgs

variable (g : ChromaArgs)

/-- `qp_indx_u`, `qp_indx_v` -/
def qpIndx (qpOffset : Int) : Int := qpOffset + (g.quantParamP + g.quantParamQ + 1) / 2

/-- `qp_chroma_u`, `qp_chroma_v` -/
def qpChroma (qpIndx : Int) : Int :=
  if g.chromaFmtIdc = chromaFmtIdcYuv444 then min qpIndx 51
  else if qpIndx < 0 then qpIndx
  else if 57 < qpIndx then qpIndx - 6
  else tableAt gai4IhevcQpTable qpIndx

/-- `tc_indx_u`, `tc_indx_v` -/
def tcIndx (qpOffset : Int) : Int :=
  clip3 (g.qpChroma (g.qpIndx qpOffset) + 2 + 2 * g.tcOffsetDiv2) 0 53

def tcU : Int := tableAt gai4IhevcTcTable (g.tcIndx g.qpOffsetU)

def tcV : Int := tableAt gai4IhevcTcTable (g.tcIndx g.qpOffsetV)

end ChromaArgs

/-- One turn of the loop over the rows: a sample of U and one of V on each side. -/
def chromaVertRow (g : ChromaArgs) (src : Int → UInt8) (a : Int) : Int → UInt8 :=
  let s := sampleAt src a 1
  let deltaU := clip3 (((s 0 - s (-2)) * 4 + s (-4) - s 2 + 4) / 8) (-g.tcU) g.tcU
  let tmpP0U := clipU8 (s (-2) + deltaU)
  let tmpQ0U := clipU8 (s 0 - deltaU)
  let deltaV := clip3 (((s 1 - s (-1)) * 4 + s (-3) - s 3 + 4) / 8) (-g.tcV) g.tcV
  let tmpP0V := clipU8 (s (-1) + deltaV)
  let tmpQ0V := clipU8 (s 1 - deltaV)
  let src := if g.filterFlagP ≠ 0 then store (store src a 1 (-2) tmpP0U) a 1 (-1) tmpP0V else src
  if g.filterFlagQ ≠ 0 then store (store src a 1 0 tmpQ0U) a 1 1 tmpQ0V else src

def ihevcDeblkChromaVert (g : ChromaArgs) (srcStrd : Int) (src : Int → UInt8) (pu1Src : Int) :
    Int → UInt8 :=
  if g.tcU = 0 ∧ g.tcV = 0 then src
  else
    (List.range 4).foldl (fun src (row : Nat) => chromaVertRow g src (pu1Src + row * srcStrd)) src

/-- One turn of the loop over the columns. Those of U and of V alternate. -/
def chromaHorzCol (g : ChromaArgs) (srcStrd : Int) (src : Int → UInt8) (a : Int) (col : Nat) :
    Int → UInt8 :=
  let s := sampleAt src a srcStrd
  let tc := if col % 2 ≠ 0 then g.tcV else g.tcU
  let delta := clip3 (((s 0 - s (-1)) * 4 + s (-2) - s 1 + 4) / 8) (-tc) tc
  let tmpP0 := clipU8 (s (-1) + delta)
  let tmpQ0 := clipU8 (s 0 - delta)
  let src := if g.filterFlagP ≠ 0 then store src a srcStrd (-1) tmpP0 else src
  if g.filterFlagQ ≠ 0 then store src a srcStrd 0 tmpQ0 else src

def ihevcDeblkChromaHorz (g : ChromaArgs) (srcStrd : Int) (src : Int → UInt8) (pu1Src : Int) :
    Int → UInt8 :=
  if g.tcU = 0 ∧ g.tcV = 0 then src
  else
    (List.range 8).foldl (fun src (col : Nat) => chromaHorzCol g srcStrd src (pu1Src + col) col) src

end Libhevc.Deblk
