import Libhevc.Common.Motion
import Mathlib.Data.List.ProdSigma

/-!
# Quantisation and inverse quantisation

The macros of `ihevc_trans_macros.h` and the functions of `ihevc_quant_iquant_ssd.c` for
8-bit video. A block is a function of row and column, in the place of a pointer and a
stride. `LWORD64` values stay far below `2 ^ 63` for all inputs and are not truncated.
-/

namespace Libhevc

def maxTrDynamicRange : Nat := 15
def quantShift : Nat := 14
def flatRescaleMatQShift : Nat := 11
def scalingQShift : Nat := 15
def quantRoundFactorQ : Nat := 9

def gIhevcIquantScales (qpRem : Nat) : Int := [40, 45, 51, 57, 64, 72].getD qpRem 0

def gIhevcQuantScales (qpRem : Nat) : Int :=
  [26214, 23302, 20560, 18396, 16384, 14564].getD qpRem 0

/-- `SHR_NEG` -/
def shrNeg (val shift : Int) : Int :=
  if 0 < shift then val >>> shift.toNat else i32 (val <<< (-shift).toNat)

/-- `SHL_NEG` -/
def shlNeg (val shift : Int) : Int :=
  if shift < 0 then val >>> (-shift).toNat else i32 (val <<< shift.toNat)

/-- `q_bits` of `QUANT`. -/
def qBits (qpDiv log2TransSize : Nat) : Nat :=
  quantShift + qpDiv + (maxTrDynamicRange - 8 - log2TransSize) + scalingQShift - 4

/-- `QUANT` -/
def quant (inp quantCoeff : Int) (qpDiv log2TransSize : Nat) (qAdd : Int) : Int :=
  let sign : Int := if inp < 0 then -1 else 1
  let tmp := inp.natAbs * quantCoeff
  let tmp := tmp + qAdd <<< (qBits qpDiv log2TransSize - quantRoundFactorQ)
  let tmp := tmp >>> qBits qpDiv log2TransSize
  clipS16 (tmp * sign)

/-- `QUANT_NO_WEIGHTMAT`, in `WORD32`. -/
def quantNoWeightmat (inp quantCoeff : Int) (qpDiv log2TransSize : Nat) (qAdd : Int) : Int :=
  let bits := qBits qpDiv log2TransSize - flatRescaleMatQShift
  let sign : Int := if inp < 0 then -1 else 1
  let tmp := i32 (inp.natAbs * quantCoeff)
  let tmp := i32 (tmp + i32 (qAdd <<< (bits - quantRoundFactorQ)))
  let tmp := tmp >>> bits
  clipS16 (tmp * sign)

/-- `IQUANT` -/
def iquant (coeff dequantCoeff shiftIq qpDiv : Int) : Int :=
  let addIq := shlNeg 1 (shiftIq - qpDiv - 1)
  let tmp := i32 (coeff * dequantCoeff)
  let tmp := i32 (tmp + addIq)
  clipS16 (shrNeg tmp (shiftIq - qpDiv))

/-- `IQUANT_4x4` -/
def iquant4x4 (coeff dequantCoeff shiftIq qpDiv : Int) : Int :=
  let coeffBitRange : Nat := if shiftIq < qpDiv then 10 else 16
  let clipCoeff := clip3 coeff (-2 ^ (coeffBitRange - 1)) (2 ^ (coeffBitRange - 1) - 1)
  iquant clipCoeff dequantCoeff shiftIq qpDiv

/-- The arguments that the functions share. -/
structure QuantArgs where
  coeffs : Nat → Nat → Int
  quantCoeff : Nat → Nat → Int
  dequantCoeff : Nat → Nat → Int
  transSize : Nat
  qpDiv : Nat
  qpRem : Nat
  qAdd : Int

/-- What the functions write and return, apart from the cost. -/
structure QuantResult where
  qDst : Nat → Nat → Int
  iqDst : Nat → Nat → Int
  csbf : Nat → Nat → Nat
  zeroCol : Nat
  zeroRow : Nat
  cbf : Bool

def QuantArgs.log2Size (p : QuantArgs) : Nat := getRange p.transSize - 1

def QuantArgs.shiftIq (p : QuantArgs) : Int := (8 + p.log2Size : Nat) - 5

-- ---------------------------------------------------------------------------
-- The update of the coded sub-block flags
-- ---------------------------------------------------------------------------

/-- Two nested loops, each of `n` rounds. -/
def nestedLoops (n : Nat) : List (Nat × Nat) := (List.range n).product (List.range n)

/-- The search of a 4x4 block for a level, which stops at the first one. -/
def codedSubBlock (q : Nat → Nat → Int) (blockRow blockCol : Nat) : Bool :=
  (List.range 4).any fun row => (List.range 4).any fun col =>
    q (4 * blockRow + row) (4 * blockCol + col) != 0

structure CsbfState where
  csbf : Nat → Nat → Nat
  tempZeroCol : Nat
  tempZeroRow : Nat
  cbf : Bool

def csbfStep (q : Nat → Nat → Int) (s : CsbfState) (b : Nat × Nat) : CsbfState :=
  { csbf := fun row col =>
      if (row, col) = b then if codedSubBlock q b.1 b.2 then 1 else 0 else s.csbf row col
    tempZeroCol :=
      if codedSubBlock q b.1 b.2 then s.tempZeroCol ||| u32 (0xF <<< (4 * b.2))
      else s.tempZeroCol
    tempZeroRow :=
      if codedSubBlock q b.1 b.2 then s.tempZeroRow ||| u32 (0xF <<< (4 * b.1))
      else s.tempZeroRow
    cbf := s.cbf || codedSubBlock q b.1 b.2 }

def csbfUpdate (transSize : Nat) (q : Nat → Nat → Int) : CsbfState :=
  (nestedLoops (transSize / 4)).foldl (csbfStep q) ⟨fun _ _ => 0, 0, 0, false⟩

/-- The complement of a `UWORD32`. -/
def u32Not (x : Nat) : Nat := 2 ^ 32 - (x + 1)

/-- The levels, the inverse quantisation of each and the flags. -/
def QuantArgs.block (p : QuantArgs) (level : Nat → Nat → Int)
    (dequant : Nat → Nat → Int → Int) : QuantResult :=
  let flags := csbfUpdate p.transSize level
  { qDst := level
    iqDst := fun i j => dequant i j (level i j)
    csbf := flags.csbf
    zeroCol := u32Not flags.tempZeroCol
    zeroRow := u32Not flags.tempZeroRow
    cbf := flags.cbf }

/-- The sum `ssd_cost`, a `WORD32`. -/
def QuantArgs.ssdCost (p : QuantArgs) (iqDst : Nat → Nat → Int) : Int :=
  (nestedLoops p.transSize).foldl
    (fun cost (i, j) =>
      let val := p.coeffs i j - iqDst i j
      i32 (cost + i32 (val * val))) 0

def QuantArgs.level (p : QuantArgs) (i j : Nat) : Int :=
  quant (p.coeffs i j) (p.quantCoeff i j * gIhevcQuantScales p.qpRem) p.qpDiv p.log2Size p.qAdd

def QuantArgs.levelFlat (p : QuantArgs) (i j : Nat) : Int :=
  quantNoWeightmat (p.coeffs i j) (gIhevcQuantScales p.qpRem) p.qpDiv p.log2Size p.qAdd

def QuantArgs.dequant (p : QuantArgs) (i j : Nat) (q : Int) : Int :=
  iquant q (p.dequantCoeff i j * gIhevcIquantScales p.qpRem) p.shiftIq p.qpDiv

/-- The flat variants do not call `IQUANT` for the level 0. -/
def QuantArgs.dequantFlat (p : QuantArgs) (i j : Nat) (q : Int) : Int :=
  if q = 0 then 0 else p.dequant i j q

def ihevcQuantIquant (p : QuantArgs) : QuantResult := p.block p.level p.dequant

def ihevcQuantIquantSsd (p : QuantArgs) : QuantResult × Int :=
  let out := p.block p.level p.dequant
  (out, p.ssdCost out.iqDst)

def ihevcQuantIquantFlatScaleMat (p : QuantArgs) : QuantResult :=
  p.block p.levelFlat p.dequantFlat

def ihevcQuantIquantSsdFlatScaleMat (p : QuantArgs) : QuantResult × Int :=
  let out := p.block p.levelFlat p.dequantFlat
  (out, p.ssdCost out.iqDst)

/-- The value `ihevcd_unpack_coeffs` puts in the place of a level, without transform skip and
bypass. -/
def Decoder.ihevcdUnpackCoeff (log2TransSize : Nat) (level dequantCoeff : Int)
    (qpRem qpDiv bitDepth : Nat) : Int :=
  let shiftIq : Int := (bitDepth + log2TransSize : Nat) - 5
  if 4 = 1 <<< log2TransSize then
    iquant4x4 level (dequantCoeff * gIhevcIquantScales qpRem) shiftIq qpDiv
  else iquant level (dequantCoeff * gIhevcIquantScales qpRem) shiftIq qpDiv

-- ---------------------------------------------------------------------------
-- What the variants are compared on
-- ---------------------------------------------------------------------------

def IsWord16 (x : Int) : Prop := -32768 ≤ x ∧ x ≤ 32767

/-- The arguments of a call: a transform size, a QP of 0 to 51, blocks of `WORD16` and a
rounding factor between 0 and 1 in Q9. -/
structure QuantArgs.Ok (p : QuantArgs) : Prop where
  size : p.transSize = 4 ∨ p.transSize = 8 ∨ p.transSize = 16 ∨ p.transSize = 32
  qpDiv : p.qpDiv ≤ 8
  qpRem : p.qpRem < 6
  coeffs : ∀ i j, IsWord16 (p.coeffs i j)
  quantCoeff : ∀ i j, IsWord16 (p.quantCoeff i j)
  dequantCoeff : ∀ i j, IsWord16 (p.dequantCoeff i j)
  qAdd : 0 ≤ p.qAdd ∧ p.qAdd ≤ 2 ^ quantRoundFactorQ

/-- The arguments with all scaling factors 16, for which `gi2_flat_rescale_mat` has the
reciprocals `2 ^ 15 / 16`. -/
def QuantArgs.flat (p : QuantArgs) : QuantArgs :=
  { p with quantCoeff := fun _ _ => 2048, dequantCoeff := fun _ _ => 16 }

/-- The sum of the squared errors that quantisation makes in a block. -/
def QuantArgs.distortion (p : QuantArgs) : Int :=
  ((nestedLoops p.transSize).map fun (i, j) =>
    (p.coeffs i j - p.dequant i j (p.level i j)) ^ 2).sum

/-- The masks and flags say what the levels and the dequantised values are. -/
structure QuantResult.Exact (transSize : Nat) (r : QuantResult) : Prop where
  zeroCol : ∀ j < transSize, r.zeroCol.testBit j = true → ∀ i < transSize, r.iqDst i j = 0
  zeroRow : ∀ i < transSize, r.zeroRow.testBit i = true → ∀ j < transSize, r.iqDst i j = 0
  csbf : ∀ row < transSize / 4, ∀ col < transSize / 4,
    r.csbf row col ≤ 1 ∧
      (r.csbf row col = 1 ↔ ∃ i < 4, ∃ j < 4, r.qDst (4 * row + i) (4 * col + j) ≠ 0)
  cbf : r.cbf = true ↔ ∃ i < transSize, ∃ j < transSize, r.qDst i j ≠ 0

end Libhevc
