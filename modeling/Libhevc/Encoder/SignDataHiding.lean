import Libhevc.Common.QuantIquant

/-!
# Sign data hiding in the encoder

`ihevce_sign_data_hiding` of `ihevce_enc_sbh_funcs.c`. Blocks are functions of
row and column, as the caller sets the stride of the levels to the transform
size. A group is the 4x4 levels of one coded sub-block.
-/

namespace Libhevc.Encoder

def gU1ScanTable8x8 (scanIdx : Nat) : List Nat :=
  [[0, 8, 1, 16, 9, 2, 24, 17, 10, 3, 32, 25, 18, 11, 4, 40, 33, 26, 19, 12, 5, 48,
    41, 34, 27, 20, 13, 6, 56, 49, 42, 35, 28, 21, 14, 7, 57, 50, 43, 36, 29, 22, 15, 58,
    51, 44, 37, 30, 23, 59, 52, 45, 38, 31, 60, 53, 46, 39, 61, 54, 47, 62, 55, 63],
   [0, 1, 2, 3, 4, 5, 6, 7, 8, 9, 10, 11, 12, 13, 14, 15, 16, 17, 18, 19, 20, 21,
    22, 23, 24, 25, 26, 27, 28, 29, 30, 31, 32, 33, 34, 35, 36, 37, 38, 39, 40, 41, 42, 43,
    44, 45, 46, 47, 48, 49, 50, 51, 52, 53, 54, 55, 56, 57, 58, 59, 60, 61, 62, 63],
   [0, 8, 16, 24, 32, 40, 48, 56, 1, 9, 17, 25, 33, 41, 49, 57, 2, 10, 18, 26, 34, 42,
    50, 58, 3, 11, 19, 27, 35, 43, 51, 59, 4, 12, 20, 28, 36, 44, 52, 60, 5, 13, 21, 29,
    37, 45, 53, 61, 6, 14, 22, 30, 38, 46, 54, 62, 7, 15, 23, 31, 39, 47, 55, 63]].getD scanIdx []

def gU1ScanTable4x4 (scanIdx : Nat) : List Nat :=
  [[0, 4, 1, 8, 5, 2, 12, 9, 6, 3, 13, 10, 7, 14, 11, 15],
   [0, 1, 2, 3, 4, 5, 6, 7, 8, 9, 10, 11, 12, 13, 14, 15],
   [0, 4, 8, 12, 1, 5, 9, 13, 2, 6, 10, 14, 3, 7, 11, 15]].getD scanIdx []

def gU1ScanTable2x2 (scanIdx : Nat) : List Nat :=
  [[0, 2, 1, 3], [0, 1, 2, 3], [0, 2, 1, 3]].getD scanIdx []

def gU1ScanTable1x1 : List Nat := [0]

def sbhMaxInt : Int := 2 ^ 31 - 1

-- ---------------------------------------------------------------------------
-- One group
-- ---------------------------------------------------------------------------

/-- A group: the levels, the transform coefficients and the dequantised values, in the order of
the scan. -/
structure Group where
  level : Nat → Int
  trCoeff : Nat → Int
  iquantCoeff : Nat → Int

structure FirstLast where
  lastScanPos : Int
  firstScanPos : Int
  sumAbsLevel : Nat

/-- A round of the first loop, `i` from 15 down to 0. -/
def firstLastStep (level : Nat → Int) (s : FirstLast) (j : Nat) : FirstLast :=
  let i := 15 - j
  if level i ≠ 0 then
    { firstScanPos := i
      lastScanPos := if s.lastScanPos = -1 then i else s.lastScanPos
      sumAbsLevel := s.sumAbsLevel + (level i).natAbs }
  else s

def firstLast (level : Nat → Int) : FirstLast :=
  (List.range 16).foldl (firstLastStep level) ⟨-1, 16, 0⟩

/-- `sign_first_coeff` -/
def signFirstCoeff (level : Nat → Int) (firstScanPos : Nat) : Nat :=
  if 0 < level firstScanPos then 0 else 1

def Group.qErr (k : Group) (i : Nat) : Int :=
  ((k.trCoeff i).natAbs : Int) - (k.iquantCoeff i).natAbs

/-- `cur_cost` -/
def Group.curCost (k : Group) (firstScanPos signFirst i : Nat) : Int :=
  if k.level i ≠ 0 then
    if k.qErr i ≤ 0 ∧ i = firstScanPos ∧ (k.level i).natAbs = 1 then sbhMaxInt
    else -1 * (k.qErr i).sign * k.qErr i
  else if i < firstScanPos ∧ signFirst ≠ (if 0 ≤ k.trCoeff i then 0 else 1) then sbhMaxInt
  else -k.qErr i

/-- `cur_change` -/
def Group.curChange (k : Group) (i : Nat) : Int :=
  if k.level i = 0 then 1 else if 0 < k.qErr i then 1 else -1

/-- The variables of the search: `i2_quant_coeff` is the level looked at last. -/
structure SbhSearch where
  minCost : Int
  finalChange : Int
  bestPos : Int
  i2QuantCoeff : Int

/-- A round of the search, `i` from `start` down to 0. -/
def searchStep (k : Group) (firstScanPos signFirst start : Nat) (s : SbhSearch) (j : Nat) :
    SbhSearch :=
  let i := start - j
  let curCost := k.curCost firstScanPos signFirst i
  if curCost < s.minCost then
    { minCost := curCost, finalChange := k.curChange i, bestPos := i, i2QuantCoeff := k.level i }
  else { s with i2QuantCoeff := k.level i }

def search (k : Group) (firstScanPos signFirst start : Nat) (bestPos : Int) : SbhSearch :=
  (List.range (start + 1)).foldl (searchStep k firstScanPos signFirst start)
    ⟨sbhMaxInt, 0, bestPos, 0⟩

/-- `final_change` after the test for saturation. -/
def SbhSearch.change (s : SbhSearch) : Int :=
  if s.i2QuantCoeff = 32767 ∨ s.i2QuantCoeff = -32768 then -1 else s.finalChange

/-- The level that is stored. -/
def changedLevel (level trCoeff change : Int) : Int :=
  i16 (if 0 ≤ trCoeff then level + change else level - change)

/-- What is changed in a group: the position in the scan and its new level. -/
def Group.hide (k : Group) (lastCg : Int) (bestPos : Int) : Option (Nat × Int) :=
  let fl := firstLast k.level
  if 4 ≤ fl.lastScanPos - fl.firstScanPos then
    let first := fl.firstScanPos.toNat
    let signFirst := signFirstCoeff k.level first
    if signFirst ≠ fl.sumAbsLevel % 2 then
      let start := if lastCg = 1 then fl.lastScanPos.toNat else 15
      let s := search k first signFirst start bestPos
      let best := s.bestPos.toNat
      some (best, changedLevel (k.level best) (k.trCoeff best) s.change)
    else none
  else none

-- ---------------------------------------------------------------------------
-- The block
-- ---------------------------------------------------------------------------

/-- What the function reads of `rdoq_sbh_ctxt_t` and does not write. -/
structure RdoqSbhCtxt where
  i4TransSize : Nat
  i4ScanIdx : Nat
  i4QpDiv : Nat
  i2QpRem : Nat
  i4BitDepth : Nat
  pi2TransValues : Nat → Nat → Int
  pi2DequantCoeff : Nat → Nat → Int
  pi4SubBlock2csbfIdMap : Nat → Nat
  pu1CsbfBuf : Nat → Nat

/-- What the function writes, with the variables it carries from group to group. -/
structure SbhSt where
  quantCoeffs : Nat → Nat → Int
  iquantCoeffs : Nat → Nat → Int
  i8SsdCost : Int
  lastCg : Int
  bestPos : Int

namespace RdoqSbhCtxt

variable (ctxt : RdoqSbhCtxt)

def transTable : List Nat :=
  if ctxt.i4TransSize = 32 then gU1ScanTable8x8 ctxt.i4ScanIdx
  else if ctxt.i4TransSize = 16 then gU1ScanTable4x4 ctxt.i4ScanIdx
  else if ctxt.i4TransSize = 8 then gU1ScanTable2x2 ctxt.i4ScanIdx
  else gU1ScanTable1x1

/-- `pu1_trans_table[trans_unit_idx]` -/
def unit (u : Nat) : Nat := ctxt.transTable.getD u 0

def blkRow (u : Nat) : Nat := (ctxt.unit u >>> (getRange ctxt.i4TransSize - 3)) * 4

def blkCol (u : Nat) : Nat := (ctxt.unit u &&& (ctxt.i4TransSize / 4 - 1)) * 4

/-- `pu1_csb_table[i]` -/
def csb (i : Nat) : Nat := (gU1ScanTable4x4 ctxt.i4ScanIdx).getD i 0

def xPos (u i : Nat) : Nat := (ctxt.csb i &&& 0x3) + ctxt.blkCol u

def yPos (u i : Nat) : Nat := (ctxt.csb i >>> 2) + ctxt.blkRow u

def coded (u : Nat) : Bool := ctxt.pu1CsbfBuf (ctxt.pi4SubBlock2csbfIdMap (ctxt.unit u)) != 0

def numUnits : Nat := ctxt.i4TransSize * ctxt.i4TransSize / 16

/-- `shift_iq` -/
def shiftIq : Int := ctxt.i4BitDepth + (getRange ctxt.i4TransSize - 1 : Nat) - 5

/-- `IQUANT` at a position. -/
def iquantAt (y x : Nat) (level : Int) : Int :=
  iquant level (ctxt.pi2DequantCoeff y x * gIhevcIquantScales ctxt.i2QpRem) ctxt.shiftIq
    ctxt.i4QpDiv

def group (s : SbhSt) (u : Nat) : Group :=
  { level := fun i => s.quantCoeffs (ctxt.yPos u i) (ctxt.xPos u i)
    trCoeff := fun i => ctxt.pi2TransValues (ctxt.yPos u i) (ctxt.xPos u i)
    iquantCoeff := fun i => s.iquantCoeffs (ctxt.yPos u i) (ctxt.xPos u i) }

end RdoqSbhCtxt

/-- A store to a block. -/
def storeAt (m : Nat → Nat → Int) (y x : Nat) (v : Int) : Nat → Nat → Int :=
  fun r c => if r = y ∧ c = x then v else m r c

/-- The new level with its dequantised value and the squared errors, which are `WORD32`. -/
def storeLevel (ctxt : RdoqSbhCtxt) (s : SbhSt) (u best : Nat) (level : Int) : SbhSt :=
  let y := ctxt.yPos u best
  let x := ctxt.xPos u best
  let trCoeff := ctxt.pi2TransValues y x
  let err1 := trCoeff - s.iquantCoeffs y x
  let err2 := trCoeff - ctxt.iquantAt y x level
  { s with
    quantCoeffs := storeAt s.quantCoeffs y x level
    iquantCoeffs := storeAt s.iquantCoeffs y x (ctxt.iquantAt y x level)
    i8SsdCost := s.i8SsdCost - i32 (err1 * err1) + i32 (err2 * err2)
    bestPos := best }

/-- One round of the loop over the groups. -/
def hideGroup (ctxt : RdoqSbhCtxt) (s : SbhSt) (u : Nat) : SbhSt :=
  if ctxt.coded u then
    let lastCg := if s.lastCg = -1 then 1 else s.lastCg
    let s :=
      match (ctxt.group s u).hide lastCg s.bestPos with
      | some (best, level) => storeLevel ctxt s u best level
      | none => s
    { s with lastCg := if lastCg = 1 then 0 else lastCg }
  else s

/-- The groups from the last one of the scan to the first. -/
def ihevceSignDataHiding (ctxt : RdoqSbhCtxt) (s : SbhSt) : SbhSt :=
  (List.range ctxt.numUnits).foldl (fun s j => hideGroup ctxt s (ctxt.numUnits - 1 - j))
    { s with lastCg := -1, bestPos := -1 }

end Libhevc.Encoder
