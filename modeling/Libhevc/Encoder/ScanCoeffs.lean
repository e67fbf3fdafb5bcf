import Libhevc.Common.Residual
import Libhevc.Common.QuantIquant

/-!
# The compressed coefficients of a block

`ihevce_scan_coeffs` of `ihevce_enc_loop_utils.c`: the header of the buffer, and
behind it one 16-bit word for each sub-block with its flags, from the last coded
sub-block of the scan down, with more words where the sub-block is coded.
-/

namespace Libhevc.Encoder

/-- `MAX_GT_ONE` -/
def maxGtOne : Nat := 8

/-- The buffer: `COEFF_BUF_HEADER_LEN` bytes, then words. -/
structure CoeffBuf where
  lastCoeffX : Nat
  lastCoeffY : Nat
  scanType : Nat
  lastSubblockNum : Nat
  words : List Nat
  deriving DecidableEq, Repr

/-- `g_u1_scan_table_4x4` -/
def gu1ScanTable4x4 : List (List Nat) :=
  [[0, 4, 1, 8, 5, 2, 12, 9, 6, 3, 13, 10, 7, 14, 11, 15],
   [0, 1, 2, 3, 4, 5, 6, 7, 8, 9, 10, 11, 12, 13, 14, 15],
   [0, 4, 8, 12, 1, 5, 9, 13, 2, 6, 10, 14, 3, 7, 11, 15]]

/-- `g_u1_scan_table_2x2` -/
def gu1ScanTable2x2 : List (List Nat) := [[0, 2, 1, 3], [0, 1, 2, 3], [0, 2, 1, 3]]

/-- `g_u1_scan_table_8x8` -/
def gu1ScanTable8x8 : List (List Nat) :=
  [[0, 8, 1, 16, 9, 2, 24, 17, 10, 3, 32, 25, 18, 11, 4, 40,
    33, 26, 19, 12, 5, 48, 41, 34, 27, 20, 13, 6, 56, 49, 42, 35,
    28, 21, 14, 7, 57, 50, 43, 36, 29, 22, 15, 58, 51, 44, 37, 30,
    23, 59, 52, 45, 38, 31, 60, 53, 46, 39, 61, 54, 47, 62, 55, 63],
   [0, 1, 2, 3, 4, 5, 6, 7, 8, 9, 10, 11, 12, 13, 14, 15,
    16, 17, 18, 19, 20, 21, 22, 23, 24, 25, 26, 27, 28, 29, 30, 31,
    32, 33, 34, 35, 36, 37, 38, 39, 40, 41, 42, 43, 44, 45, 46, 47,
    48, 49, 50, 51, 52, 53, 54, 55, 56, 57, 58, 59, 60, 61, 62, 63],
   [0, 8, 16, 24, 32, 40, 48, 56, 1, 9, 17, 25, 33, 41, 49, 57,
    2, 10, 18, 26, 34, 42, 50, 58, 3, 11, 19, 27, 35, 43, 51, 59,
    4, 12, 20, 28, 36, 44, 52, 60, 5, 13, 21, 29, 37, 45, 53, 61,
    6, 14, 22, 30, 38, 46, 54, 62, 7, 15, 23, 31, 39, 47, 55, 63]]

/-- `trans_size`, the quantised coefficients by row and column, and the flag of each sub-block by
its number in the rows of sub-blocks, through `pi4_subBlock2csbfId_map`. -/
structure ScanArgs where
  transSize : Nat
  scanIdx : Nat
  quantCoeffs : Nat → Nat → Int
  csbf : Nat → Bool

/-- The flags of a sub-block and the levels that are not in them. -/
structure CsbFlags where
  numGt0Flag : Nat
  sigCoeffAbsGt0Flags : Nat
  sigCoeffAbsGt1Flags : Nat
  signFlags : Nat
  absCoeffRemaining : List Nat

def CsbFlags.words (f : CsbFlags) : List Nat :=
  [f.sigCoeffAbsGt0Flags, f.sigCoeffAbsGt1Flags, f.signFlags] ++ f.absCoeffRemaining

namespace ScanArgs

variable (a : ScanArgs)

/-- `pu1_trans_table` -/
def transTable : List Nat :=
  if a.transSize = 32 then scanRow gu1ScanTable8x8 a.scanIdx
  else if a.transSize = 16 then scanRow gu1ScanTable4x4 a.scanIdx
  else if a.transSize = 8 then scanRow gu1ScanTable2x2 a.scanIdx
  else [0]

/-- `shift_value` -/
def shiftValue : Nat := getRange a.transSize - 3

def blkRow (transUnitIdx : Nat) : Nat := a.transTable.getD transUnitIdx 0 >>> a.shiftValue

def blkCol (transUnitIdx : Nat) : Nat := a.transTable.getD transUnitIdx 0 &&& (a.transSize / 4 - 1)

def xPos (transUnitIdx i : Nat) : Nat :=
  ((scanRow gu1ScanTable4x4 a.scanIdx).getD i 0 &&& 0x3) + a.blkCol transUnitIdx * 4

def yPos (transUnitIdx i : Nat) : Nat :=
  ((scanRow gu1ScanTable4x4 a.scanIdx).getD i 0 >>> 2) + a.blkRow transUnitIdx * 4

def quantCoeff (transUnitIdx i : Nat) : Int :=
  a.quantCoeffs (a.yPos transUnitIdx i) (a.xPos transUnitIdx i)

/-- One coefficient of a sub-block, if it is not zero. -/
def flagsStep (quantCoeff : Int) (i : Nat) (f : CsbFlags) : CsbFlags :=
  if quantCoeff ≠ 0 then
    let gt1 := decide (1 < quantCoeff.natAbs ∨ maxGtOne ≤ f.numGt0Flag)
    { numGt0Flag := f.numGt0Flag + 1
      sigCoeffAbsGt0Flags := f.sigCoeffAbsGt0Flags ||| 1 <<< i
      sigCoeffAbsGt1Flags :=
        if gt1 then f.sigCoeffAbsGt1Flags ||| 1 <<< i else f.sigCoeffAbsGt1Flags
      signFlags := if quantCoeff < 0 then f.signFlags ||| 1 <<< i else f.signFlags
      absCoeffRemaining :=
        if gt1 then f.absCoeffRemaining ++ [quantCoeff.natAbs - 1] else f.absCoeffRemaining }
  else f

/-- The loop over the positions below `n`. -/
def flagsLoop (transUnitIdx : Nat) : (n : Nat) → CsbFlags → CsbFlags
  | 0, f => f
  | n + 1, f => flagsLoop transUnitIdx n (flagsStep (a.quantCoeff transUnitIdx n) n f)

def noFlags : CsbFlags := ⟨0, 0, 0, 0, []⟩

/-- `u2_csbf0flags` of the sub-blocks before the last coded one in the scan. -/
def csbf0flags (transUnitIdx : Nat) : Nat :=
  let csbf := (a.csbf (a.transTable.getD transUnitIdx 0)).toNat
  let flags := 0xBAD0 ||| csbf
  let flags := if transUnitIdx = 0 then flags ||| 1 else flags
  let row := a.blkRow transUnitIdx
  let col := a.blkCol transUnitIdx
  let flags :=
    if col + 1 < a.transSize / 4 ∧ a.csbf (row * a.transSize / 4 + col + 1) then flags ||| 1 <<< 1
    else flags
  if row + 1 < a.transSize / 4 ∧ a.csbf ((row + 1) * a.transSize / 4 + col) then flags ||| 1 <<< 2
  else flags

/-- The words of the sub-blocks below `n`. -/
def csbWords : (n : Nat) → List Nat
  | 0 => []
  | n + 1 =>
    a.csbf0flags n ::
      ((if a.csbf0flags n &&& 0x1 ≠ 0 then (a.flagsLoop n 16 noFlags).words else []) ++ csbWords n)

/-- The position of the first coefficient that is not zero, from `n - 1` down. -/
def firstNonZero (transUnitIdx : Nat) : (n : Nat) → Option Nat
  | 0 => none
  | n + 1 => if a.quantCoeff transUnitIdx n ≠ 0 then some n else firstNonZero transUnitIdx n

/-- The first sub-block with its flag, from `n - 1` down. -/
def firstCsb : (n : Nat) → Option Nat
  | 0 => none
  | n + 1 => if a.csbf (a.transTable.getD n 0) then some n else firstCsb n

end ScanArgs

open ScanArgs in
/-- `ihevce_scan_coeffs`. It asserts that the first sub-block has a coefficient; there is nothing
in the buffer where no sub-block is coded. -/
def ihevceScanCoeffs (a : ScanArgs) : Option CoeffBuf := do
  let transUnitIdx ← a.firstCsb (a.transSize * a.transSize / 16)
  let i ← a.firstNonZero transUnitIdx 16
  pure
    { lastCoeffX := a.xPos transUnitIdx i
      lastCoeffY := a.yPos transUnitIdx i
      scanType := a.scanIdx
      lastSubblockNum := transUnitIdx
      words := (0xBAD0 ||| 1) ::
        ((a.flagsLoop transUnitIdx i
          (flagsStep (a.quantCoeff transUnitIdx i) i noFlags)).words ++ a.csbWords transUnitIdx) }

end Libhevc.Encoder
