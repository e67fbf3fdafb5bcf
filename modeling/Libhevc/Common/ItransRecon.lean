import Libhevc.Common.Motion
import Libhevc.Lib.Butterfly

/-!
# Inverse transform and reconstruction

The functions of `ihevc_itrans_recon*.c`, `ihevc_chroma_itrans_recon*.c` and
`ihevcd_itrans_recon_dc.c` for 8-bit samples. All of them run one stage over the
columns of the coefficients and one over the rows of the result; they differ in
the one-dimensional transform, in the rows that the masks allow them to leave out
and in the distance between two samples of a row. `WORD32` is checked for overflow.
-/

namespace Libhevc

open Checked

def itShiftStage1 : Nat := 7
def itShiftStage2 : Nat := 12

def gAi2IhevcTrans4 : List (List Int) := [
  [64, 64, 64, 64],
  [83, 36, -36, -83],
  [64, -64, -64, 64],
  [36, -83, 83, -36]]

def gAi2IhevcTrans8 : List (List Int) := [
  [64, 64, 64, 64, 64, 64, 64, 64],
  [89, 75, 50, 18, -18, -50, -75, -89],
  [83, 36, -36, -83, -83, -36, 36, 83],
  [75, -18, -89, -50, 50, 89, 18, -75],
  [64, -64, -64, 64, 64, -64, -64, 64],
  [50, -89, 18, 75, -75, -18, 89, -50],
  [36, -83, 83, -36, -36, 83, -83, 36],
  [18, -50, 75, -89, 89, -75, 50, -18]]

def gAi2IhevcTrans16 : List (List Int) := [
  [64, 64, 64, 64, 64, 64, 64, 64, 64, 64, 64, 64, 64, 64, 64, 64],
  [90, 87, 80, 70, 57, 43, 25, 9, -9, -25, -43, -57, -70, -80, -87, -90],
  [89, 75, 50, 18, -18, -50, -75, -89, -89, -75, -50, -18, 18, 50, 75, 89],
  [87, 57, 9, -43, -80, -90, -70, -25, 25, 70, 90, 80, 43, -9, -57, -87],
  [83, 36, -36, -83, -83, -36, 36, 83, 83, 36, -36, -83, -83, -36, 36, 83],
  [80, 9, -70, -87, -25, 57, 90, 43, -43, -90, -57, 25, 87, 70, -9, -80],
  [75, -18, -89, -50, 50, 89, 18, -75, -75, 18, 89, 50, -50, -89, -18, 75],
  [70, -43, -87, 9, 90, 25, -80, -57, 57, 80, -25, -90, -9, 87, 43, -70],
  [64, -64, -64, 64, 64, -64, -64, 64, 64, -64, -64, 64, 64, -64, -64, 64],
  [57, -80, -25, 90, -9, -87, 43, 70, -70, -43, 87, 9, -90, 25, 80, -57],
  [50, -89, 18, 75, -75, -18, 89, -50, -50, 89, -18, -75, 75, 18, -89, 50],
  [43, -90, 57, 25, -87, 70, 9, -80, 80, -9, -70, 87, -25, -57, 90, -43],
  [36, -83, 83, -36, -36, 83, -83, 36, 36, -83, 83, -36, -36, 83, -83, 36],
  [25, -70, 90, -80, 43, 9, -57, 87, -87, 57, -9, -43, 80, -90, 70, -25],
  [18, -50, 75, -89, 89, -75, 50, -18, -18, 50, -75, 89, -89, 75, -50, 18],
  [9, -25, 43, -57, 70, -80, 87, -90, 90, -87, 80, -70, 57, -43, 25, -9]]

def gAi2IhevcTrans32 : List (List Int) := [
  [64, 64, 64, 64, 64, 64, 64, 64, 64, 64, 64, 64, 64, 64, 64, 64, 64, 64, 64, 64, 64, 64, 64,
   64, 64, 64, 64, 64, 64, 64, 64, 64],
  [90, 90, 88, 85, 82, 78, 73, 67, 61, 54, 46, 38, 31, 22, 13, 4, -4, -13, -22, -31, -38, -46,
   -54, -61, -67, -73, -78, -82, -85, -88, -90, -90],
  [90, 87, 80, 70, 57, 43, 25, 9, -9, -25, -43, -57, -70, -80, -87, -90, -90, -87, -80, -70, -57,
   -43, -25, -9, 9, 25, 43, 57, 70, 80, 87, 90],
  [90, 82, 67, 46, 22, -4, -31, -54, -73, -85, -90, -88, -78, -61, -38, -13, 13, 38, 61, 78, 88,
   90, 85, 73, 54, 31, 4, -22, -46, -67, -82, -90],
  [89, 75, 50, 18, -18, -50, -75, -89, -89, -75, -50, -18, 18, 50, 75, 89, 89, 75, 50, 18, -18,
   -50, -75, -89, -89, -75, -50, -18, 18, 50, 75, 89],
  [88, 67, 31, -13, -54, -82, -90, -78, -46, -4, 38, 73, 90, 85, 61, 22, -22, -61, -85, -90, -73,
   -38, 4, 46, 78, 90, 82, 54, 13, -31, -67, -88],
  [87, 57, 9, -43, -80, -90, -70, -25, 25, 70, 90, 80, 43, -9, -57, -87, -87, -57, -9, 43, 80,
   90, 70, 25, -25, -70, -90, -80, -43, 9, 57, 87],
  [85, 46, -13, -67, -90, -73, -22, 38, 82, 88, 54, -4, -61, -90, -78, -31, 31, 78, 90, 61, 4,
   -54, -88, -82, -38, 22, 73, 90, 67, 13, -46, -85],
  [83, 36, -36, -83, -83, -36, 36, 83, 83, 36, -36, -83, -83, -36, 36, 83, 83, 36, -36, -83, -83,
   -36, 36, 83, 83, 36, -36, -83, -83, -36, 36, 83],
  [82, 22, -54, -90, -61, 13, 78, 85, 31, -46, -90, -67, 4, 73, 88, 38, -38, -88, -73, -4, 67,
   90, 46, -31, -85, -78, -13, 61, 90, 54, -22, -82],
  [80, 9, -70, -87, -25, 57, 90, 43, -43, -90, -57, 25, 87, 70, -9, -80, -80, -9, 70, 87, 25,
   -57, -90, -43, 43, 90, 57, -25, -87, -70, 9, 80],
  [78, -4, -82, -73, 13, 85, 67, -22, -88, -61, 31, 90, 54, -38, -90, -46, 46, 90, 38, -54, -90,
   -31, 61, 88, 22, -67, -85, -13, 73, 82, 4, -78],
  [75, -18, -89, -50, 50, 89, 18, -75, -75, 18, 89, 50, -50, -89, -18, 75, 75, -18, -89, -50, 50,
   89, 18, -75, -75, 18, 89, 50, -50, -89, -18, 75],
  [73, -31, -90, -22, 78, 67, -38, -90, -13, 82, 61, -46, -88, -4, 85, 54, -54, -85, 4, 88, 46,
   -61, -82, 13, 90, 38, -67, -78, 22, 90, 31, -73],
  [70, -43, -87, 9, 90, 25, -80, -57, 57, 80, -25, -90, -9, 87, 43, -70, -70, 43, 87, -9, -90,
   -25, 80, 57, -57, -80, 25, 90, 9, -87, -43, 70],
  [67, -54, -78, 38, 85, -22, -90, 4, 90, 13, -88, -31, 82, 46, -73, -61, 61, 73, -46, -82, 31,
   88, -13, -90, -4, 90, 22, -85, -38, 78, 54, -67],
  [64, -64, -64, 64, 64, -64, -64, 64, 64, -64, -64, 64, 64, -64, -64, 64, 64, -64, -64, 64, 64,
   -64, -64, 64, 64, -64, -64, 64, 64, -64, -64, 64],
  [61, -73, -46, 82, 31, -88, -13, 90, -4, -90, 22, 85, -38, -78, 54, 67, -67, -54, 78, 38, -85,
   -22, 90, 4, -90, 13, 88, -31, -82, 46, 73, -61],
  [57, -80, -25, 90, -9, -87, 43, 70, -70, -43, 87, 9, -90, 25, 80, -57, -57, 80, 25, -90, 9, 87,
   -43, -70, 70, 43, -87, -9, 90, -25, -80, 57],
  [54, -85, -4, 88, -46, -61, 82, 13, -90, 38, 67, -78, -22, 90, -31, -73, 73, 31, -90, 22, 78,
   -67, -38, 90, -13, -82, 61, 46, -88, 4, 85, -54],
  [50, -89, 18, 75, -75, -18, 89, -50, -50, 89, -18, -75, 75, 18, -89, 50, 50, -89, 18, 75, -75,
   -18, 89, -50, -50, 89, -18, -75, 75, 18, -89, 50],
  [46, -90, 38, 54, -90, 31, 61, -88, 22, 67, -85, 13, 73, -82, 4, 78, -78, -4, 82, -73, -13, 85,
   -67, -22, 88, -61, -31, 90, -54, -38, 90, -46],
  [43, -90, 57, 25, -87, 70, 9, -80, 80, -9, -70, 87, -25, -57, 90, -43, -43, 90, -57, -25, 87,
   -70, -9, 80, -80, 9, 70, -87, 25, 57, -90, 43],
  [38, -88, 73, -4, -67, 90, -46, -31, 85, -78, 13, 61, -90, 54, 22, -82, 82, -22, -54, 90, -61,
   -13, 78, -85, 31, 46, -90, 67, 4, -73, 88, -38],
  [36, -83, 83, -36, -36, 83, -83, 36, 36, -83, 83, -36, -36, 83, -83, 36, 36, -83, 83, -36, -36,
   83, -83, 36, 36, -83, 83, -36, -36, 83, -83, 36],
  [31, -78, 90, -61, 4, 54, -88, 82, -38, -22, 73, -90, 67, -13, -46, 85, -85, 46, 13, -67, 90,
   -73, 22, 38, -82, 88, -54, -4, 61, -90, 78, -31],
  [25, -70, 90, -80, 43, 9, -57, 87, -87, 57, -9, -43, 80, -90, 70, -25, -25, 70, -90, 80, -43,
   -9, 57, -87, 87, -57, 9, 43, -80, 90, -70, 25],
  [22, -61, 85, -90, 73, -38, -4, 46, -78, 90, -82, 54, -13, -31, 67, -88, 88, -67, 31, 13, -54,
   82, -90, 78, -46, 4, 38, -73, 90, -85, 61, -22],
  [18, -50, 75, -89, 89, -75, 50, -18, -18, 50, -75, 89, -89, 75, -50, 18, 18, -50, 75, -89, 89,
   -75, 50, -18, -18, 50, -75, 89, -89, 75, -50, 18],
  [13, -38, 61, -78, 88, -90, 85, -73, 54, -31, 4, 22, -46, 67, -82, 90, -90, 82, -67, 46, -22,
   -4, 31, -54, 73, -85, 90, -88, 78, -61, 38, -13],
  [9, -25, 43, -57, 70, -80, 87, -90, 90, -87, 80, -70, 57, -43, 25, -9, -9, 25, -43, 57, -70,
   80, -87, 90, -90, 87, -80, 70, -57, 43, -25, 9],
  [4, -13, 22, -31, 38, -46, 54, -61, 67, -73, 78, -82, 85, -88, 90, -90, 90, -90, 88, -85, 82,
   -78, 73, -67, 61, -54, 46, -38, 31, -22, 13, -4]]

def tableAt (table : List (List Int)) (m n : Nat) : Int := (table.getD m []).getD n 0

/-- One of the functions: `inverse` is told how many rows of its input may be non-zero. -/
structure ItransRecon where
  transSize : Nat
  inverse : Nat → (Nat → Checked 32) → Nat → Checked 32
  rowLimit : BitVec 32 → Nat
  rowLimit2ndStage : BitVec 32 → Nat
  step : Nat

namespace ItransRecon

variable (f : ItransRecon)

/-- Entry `k` of row `j` of `pi2_tmp` after the first stage. -/
def stage1 (pi2Src pi2Tmp : Nat → Nat → Int) (zeroCols zeroRows : BitVec 32) (j k : Nat) :
    Checked 32 :=
  if j < f.rowLimit2ndStage zeroCols then
    if (zeroCols.sshiftRight j) &&& 1#32 = 1#32 then of 0
    else
      ((f.inverse (f.rowLimit zeroRows) (fun r => of (pi2Src r j)) k +
        of (1 <<< (itShiftStage1 - 1))).shiftRight itShiftStage1).map clipS16
  else of (pi2Tmp j k)

def clipU8 (x : Int) : Int := clip3 x 0 255

/-- What the second stage adds to sample `k` of row `j`. -/
def stage2 (tmp : Nat → Nat → Checked 32) (zeroCols : BitVec 32) (j k : Nat) : Checked 32 :=
  ((f.inverse (f.rowLimit2ndStage zeroCols) (fun r => tmp r j) k +
    of (1 <<< (itShiftStage2 - 1))).shiftRight itShiftStage2).map clipS16

/-- The sample written for row `j` and column `k`, at `pu1_dst[j * dst_strd + k * step]`. -/
def run (pi2Src : Nat → Int16) (pi2Tmp : Nat → Nat → Int16) (pu1Pred : Nat → UInt8)
    (srcStrd predStrd : Nat) (zeroCols zeroRows : BitVec 32) (j k : Nat) : Checked 32 :=
  let tmp := f.stage1 (fun r c => (pi2Src (r * srcStrd + c)).toInt)
    (fun r c => (pi2Tmp r c).toInt) zeroCols zeroRows
  (f.stage2 tmp zeroCols j k + of (pu1Pred (j * predStrd + k * f.step)).toNat).map clipU8

end ItransRecon

/-- The rows of the partial sums `o`, `eo`, `eeo`, … and the rows of the last one. -/
structure ButterflyRows where
  odds : List (List Nat)
  even : List Nat

/-- The partial sums over `rows`, put together by `e + o` and `e - o`. -/
def ButterflyRows.inverse (rows : Nat → ButterflyRows) (trans : List (List Int)) (limit : Nat)
    (src : Nat → Checked 32) : Nat → Checked 32 :=
  butterfly (tableAt trans) (rows limit).even src (rows limit).odds

/-- The sums of the 4-point DST. -/
def inverseTtype1 (src : Nat → Checked 32) (k : Nat) : Checked 32 :=
  let c0 := src 0 + src 2
  let c1 := src 2 + src 3
  let c2 := src 0 - src 3
  let c3 := of 74 * src 1
  match k with
  | 0 => of 29 * c0 + of 55 * c1 + c3
  | 1 => of 55 * c2 - of 29 * c1 + c3
  | 2 => of 74 * (src 0 - src 2 + src 3)
  | _ => of 55 * c0 + of 29 * c2 - c3

def ihevcItransRecon4x4Ttype1 : ItransRecon where
  transSize := 4
  inverse _ := inverseTtype1
  rowLimit _ := 4
  rowLimit2ndStage _ := 4
  step := 1

def rows4 (_ : Nat) : ButterflyRows := ⟨[[1, 3]], [0, 2]⟩

def ihevcItransRecon4x4 : ItransRecon where
  transSize := 4
  inverse := ButterflyRows.inverse rows4 gAi2IhevcTrans4
  rowLimit _ := 4
  rowLimit2ndStage _ := 4
  step := 1

def rows8 : Nat → ButterflyRows
  | 4 => ⟨[[1, 3], [2]], [0]⟩
  | _ => ⟨[[1, 3, 5, 7], [2, 6]], [0, 4]⟩

def rowLimit8 (mask : BitVec 32) : Nat := if mask &&& 0xF0#32 = 0xF0#32 then 4 else 8

def ihevcItransRecon8x8 : ItransRecon where
  transSize := 8
  inverse := ButterflyRows.inverse rows8 gAi2IhevcTrans8
  rowLimit := rowLimit8
  rowLimit2ndStage := rowLimit8
  step := 1

def rows16 : Nat → ButterflyRows
  | 4 => ⟨[[1, 3], [2], []], [0]⟩
  | 8 => ⟨[[1, 3, 5, 7], [2, 6], [4]], [0]⟩
  | _ => ⟨[[1, 3, 5, 7, 9, 11, 13, 15], [2, 6, 10, 14], [4, 12]], [0, 8]⟩

def rowLimit16 (mask : BitVec 32) : Nat :=
  if mask &&& 0xFFF0#32 = 0xFFF0#32 then 4
  else if mask &&& 0xFF00#32 = 0xFF00#32 then 8
  else 16

def ihevcItransRecon16x16 : ItransRecon where
  transSize := 16
  inverse := ButterflyRows.inverse rows16 gAi2IhevcTrans16
  rowLimit := rowLimit16
  rowLimit2ndStage := rowLimit16
  step := 1

def rows32 : Nat → ButterflyRows
  | 4 => ⟨[[1, 3], [2], [], []], [0]⟩
  | 8 => ⟨[[1, 3, 5, 7], [2, 6], [4], []], [0]⟩
  | _ => ⟨[[1, 3, 5, 7, 9, 11, 13, 15, 17, 19, 21, 23, 25, 27, 29, 31],
      [2, 6, 10, 14, 18, 22, 26, 30], [4, 12, 20, 28], [8, 24]], [0, 16]⟩

def rowLimit32 (mask : BitVec 32) : Nat :=
  if mask &&& 0xFFFFFFF0#32 = 0xFFFFFFF0#32 then 4
  else if mask &&& 0xFFFFFF00#32 = 0xFFFFFF00#32 then 8
  else 32

def ihevcItransRecon32x32 : ItransRecon where
  transSize := 32
  inverse := ButterflyRows.inverse rows32 gAi2IhevcTrans32
  rowLimit := rowLimit32
  rowLimit2ndStage := rowLimit32
  step := 1

def ihevcChromaItransRecon4x4 : ItransRecon := { ihevcItransRecon4x4 with step := 2 }

/-- The one that does not look at `zero_rows`. -/
def ihevcChromaItransRecon8x8 : ItransRecon :=
  { ihevcItransRecon8x8 with rowLimit := fun _ => 8, step := 2 }

def ihevcChromaItransRecon16x16 : ItransRecon := { ihevcItransRecon16x16 with step := 2 }

def ihevcChromaItransRecon32x32 : ItransRecon := { ihevcItransRecon32x32 with step := 2 }

/-- `apf_itrans_recon` -/
def apfItransRecon : Fin 9 → ItransRecon
  | 0 => ihevcItransRecon4x4Ttype1
  | 1 => ihevcItransRecon4x4
  | 2 => ihevcItransRecon8x8
  | 3 => ihevcItransRecon16x16
  | 4 => ihevcItransRecon32x32
  | 5 => ihevcChromaItransRecon4x4
  | 6 => ihevcChromaItransRecon8x8
  | 7 => ihevcChromaItransRecon16x16
  | 8 => ihevcChromaItransRecon32x32

/-- The sample that both DC functions write over `pred`. -/
def itransReconDc (pred : UInt8) (i2CoeffValue : Int16) : Checked 32 :=
  let quantOut : Checked 32 := of i2CoeffValue.toInt
  let dcValue := ((quantOut * of 64 + of (1 <<< (itShiftStage1 - 1))).shiftRight
    itShiftStage1).map clipS16
  let dcValue := ((dcValue * of 64 + of (1 <<< (itShiftStage2 - 1))).shiftRight
    itShiftStage2).map clipS16
  (of pred.toNat + dcValue).map ItransRecon.clipU8

def ihevcdItransReconDcLuma (pu1Pred : Nat → UInt8) (predStrd : Nat) (i2CoeffValue : Int16)
    (row col : Nat) : Checked 32 :=
  itransReconDc (pu1Pred (row * predStrd + col)) i2CoeffValue

def ihevcdItransReconDcChroma (pu1Pred : Nat → UInt8) (predStrd : Nat) (i2CoeffValue : Int16)
    (row col : Nat) : Checked 32 :=
  itransReconDc (pu1Pred (row * predStrd + col <<< 1)) i2CoeffValue

/-- `apf_itrans_recon_dc[is_chroma]` -/
def apfItransReconDc (isChroma : Bool) :=
  if isChroma then ihevcdItransReconDcChroma else ihevcdItransReconDcLuma

end Libhevc
