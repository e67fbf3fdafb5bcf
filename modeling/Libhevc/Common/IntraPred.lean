import Libhevc.Common.IntraRefSubst
import Libhevc.Common.ItransRecon

/-!
# Intra prediction of luma

`ihevc_intra_pred_ref_filtering` and the prediction functions of `ihevc_intra_pred_filters.c`,
for samples of 8 bits. A prediction function is read here as the value it stores at a row and a
column of the block.
-/

namespace Libhevc.IntraPred

open Cells

/-- Storing to an `UWORD8`. -/
def u8 (x : Int) : Int := x % 256

def gau1IntraPredRefFilter : List Nat :=
  [14, 0, 14, 12, 12, 12, 12, 12, 12, 8, 0, 8, 12, 12, 12, 12, 12, 12, 14, 12, 12, 12, 12, 12, 12,
    8, 0, 8, 12, 12, 12, 12, 12, 12, 14]

def gai4IhevcAngTable : List Int :=
  [0, 0, 32, 26, 21, 17, 13, 9, 5, 2, 0, -2, -5, -9, -13, -17, -21, -26, -32, -26, -21, -17, -13,
    -9, -5, -2, 0, 2, 5, 9, 13, 17, 21, 26, 32]

def gai4IhevcInvAngTable : List Int :=
  [4096, 1638, 910, 630, 482, 390, 315, 315, 390, 482, 630, 910, 1638, 4096]

def maxCuSize : Nat := 64

section

variable (nt : Nat) (ref : Cells Int)

/-- `pu1_ref[i]` -/
def refAt (i : Int) : Option Int := load (4 * nt + 1) ref i

-- ---------------------------------------------------------------------------
-- Filtering
-- ---------------------------------------------------------------------------

/-- `abs_cond`, for the samples at the two ends of a side and in its middle. -/
def absCond (corner far mid : Int) : Option Bool := do
  let a ← refAt nt ref corner
  let b ← refAt nt ref far
  let c ← refAt nt ref mid
  return decide (|a + b - 2 * c| < 2 ^ (8 - 5))

def biLinearIntFlag (strong : Nat) : Option Bool :=
  if strong = 1 ∧ nt = 32 then do
    let absCondTop ← absCond nt ref (2 * nt) (4 * nt) (3 * nt)
    let absCondLeft ← absCond nt ref (2 * nt) 0 nt
    return absCondLeft && absCondTop
  else some false

/-- A step of the strong filter between two samples of the array. -/
def strongTap (lo hi : Int) (i : Nat) : Option Int := do
  let a ← refAt nt ref lo
  let b ← refAt nt ref hi
  return u8 (((2 * nt - i) * a + i * b + 32) / 2 ^ 6)

def smoothTap (i : Nat) : Option Int := do
  let a ← refAt nt ref i
  let b ← refAt nt ref (i + 1)
  let c ← refAt nt ref (i + 2)
  return u8 ((a + 2 * b + c + 2) / 2 ^ 2)

/-- `au1_flt` -/
def fltSize : Nat := 4 * maxCuSize + 1

def strongFlt (flt : Cells Int) : Option (Cells Int) := do
  let corner ← refAt nt ref (2 * nt)
  let flt ← store fltSize flt ((2 * nt : Nat) : Int) corner
  let flt ← storeUp fltSize (1 : Nat)
    (fun k => strongTap nt ref 0 (2 * nt) (1 + k)) flt (2 * nt - 1)
  storeUp fltSize ((2 * nt + 1 : Nat) : Int)
    (fun k => strongTap nt ref (2 * nt) (4 * nt) (1 + k)) flt (2 * nt - 1)

def smoothFlt (flt : Cells Int) : Option (Cells Int) :=
  storeUp fltSize (1 : Nat) (smoothTap nt ref) flt (4 * nt - 1)

/-- The result is the same when source and destination are one array. -/
def ihevcIntraPredRefFiltering (mode intraSmoothingFlags : Nat) : Option (Cells Int) :=
  let intraSmoothingDisabled := intraSmoothingFlags >>> 3
  let strong := intraSmoothingFlags &&& 1
  let filterFlag :=
    if intraSmoothingDisabled ≠ 0 then 0
    else gau1IntraPredRefFilter.getD mode 0 &&& 1 <<< (ctz nt - 2)
  if filterFlag = 0 then
    storeUp (4 * nt + 1) (0 : Nat) (fun i => refAt nt ref i) fresh (4 * nt + 1)
  else do
    let biLinear ← biLinearIntFlag nt ref strong
    -- The extremities are untouched.
    let first ← refAt nt ref 0
    let flt ← store fltSize fresh 0 first
    let last ← refAt nt ref (4 * nt)
    let flt ← store fltSize flt ((4 * nt : Nat) : Int) last
    let flt ← if biLinear then strongFlt nt ref flt else smoothFlt nt ref flt
    storeUp (4 * nt + 1) (0 : Nat) (fun i => load fltSize flt i) fresh (4 * nt + 1)

-- ---------------------------------------------------------------------------
-- Prediction
-- ---------------------------------------------------------------------------

variable (row col : Nat)

/-- `switch(nt)` -/
def log2nt : Nat :=
  if nt = 32 then 5 else if nt = 16 then 4 else if nt = 8 then 3 else if nt = 4 then 2 else 5

def ihevcIntraPredLumaPlanar : Option Int := do
  let left ← refAt nt ref (2 * nt - 1 - row)
  let topRight ← refAt nt ref (3 * nt + 1)
  let top ← refAt nt ref (2 * nt + 1 + col)
  let botLeft ← refAt nt ref (nt - 1)
  return u8 (((nt - 1 - col) * left + (col + 1) * topRight + (nt - 1 - row) * top +
    (row + 1) * botLeft + nt) / 2 ^ (log2nt nt + 1))

/-- `for(i = lo; i < lo + len; i++) acc_dc += pu1_ref[i];` -/
def accDc (lo : Int) (acc : Int) : Nat → Option Int
  | 0 => some acc
  | len + 1 => do
    let acc ← accDc lo acc len
    let v ← refAt nt ref (lo + len)
    return acc + v

def dcVal : Option Int := do
  let acc ← accDc nt ref nt 0 nt
  let acc ← accDc nt ref (2 * nt + 1) acc nt
  return (acc + nt) / 2 ^ (log2nt nt + 1)

def ihevcIntraPredLumaDc : Option Int := do
  let dcVal ← dcVal nt ref
  if nt = 32 then return u8 dcVal
  else if row = 0 ∧ col = 0 then do
    let left ← refAt nt ref (2 * nt - 1)
    let top ← refAt nt ref (2 * nt + 1)
    return u8 ((left + 2 * dcVal + top + 2) / 2 ^ 2)
  else if row = 0 then do
    let top ← refAt nt ref (2 * nt + 1 + col)
    return u8 ((top + 3 * dcVal + 2) / 2 ^ 2)
  else if col = 0 then do
    let left ← refAt nt ref (2 * nt - 1 - row)
    return u8 ((left + 3 * dcVal + 2) / 2 ^ 2)
  else return u8 dcVal

def boundary (a b c : Int) : Option Int := do
  let a ← refAt nt ref a
  let b ← refAt nt ref b
  let c ← refAt nt ref c
  let s2Predpixel := i16 (a + (b - c) / 2)
  return u8 (ItransRecon.clipU8 s2Predpixel)

def ihevcIntraPredLumaHorz (disableBoundaryFilter : Bool) : Option Int :=
  if nt = 32 ∨ disableBoundaryFilter = true then refAt nt ref (2 * nt - 1 - row)
  else if row = 0 then boundary nt ref (2 * nt - 1) (2 * nt + 1 + col) (2 * nt)
  else refAt nt ref (2 * nt - 1 - row)

def ihevcIntraPredLumaVer (disableBoundaryFilter : Bool) : Option Int :=
  if nt = 32 ∨ disableBoundaryFilter = true then refAt nt ref (2 * nt + 1 + col)
  else if col = 0 then boundary nt ref (2 * nt + 1) (2 * nt - 1 - row) (2 * nt)
  else refAt nt ref (2 * nt + 1 + col)

def ihevcIntraPredLumaMode2 : Option Int :=
  let idx : Int := ((col + 1) * 32) / 32
  refAt nt ref (2 * nt - row - idx - 1)

def ihevcIntraPredLumaMode1834 (mode : Nat) : Option Int :=
  let intraPredAng : Int := if mode = 18 then -32 else 32
  let idx := ((row + 1) * intraPredAng) / 32
  refAt nt ref (2 * nt + col + idx + 1)

/-- The linear filter between two samples. -/
def linear (fract a b : Int) : Int := u8 (((32 - fract) * a + fract * b + 16) / 32)

def angOf (mode : Nat) : Int := gai4IhevcAngTable.getD mode 0

def ihevcIntraPredLumaMode3To9 (mode : Nat) : Option Int := do
  let pos := (col + 1) * angOf mode
  let idx := pos / 32
  let fract := pos % 32
  let refMainIdx := 2 * nt - row - idx - 1
  let a ← refAt nt ref refMainIdx
  let b ← refAt nt ref (refMainIdx - 1)
  return linear fract a b

/-- `ref_temp` -/
def refTempSize : Nat := 2 * maxCuSize + 1

/-- The loop that takes samples from the other side, `for(k = -1; k > ref_idx; k--)`. -/
def extendRef (side : Int → Option Int) (invAng : Int) (temp : Cells Int) :
    Nat → Option (Int × Cells Int)
  | 0 => some (128, temp)
  | k + 1 => do
    let (invAngSum, temp) ← extendRef side invAng temp k
    let invAngSum := invAngSum + invAng
    let v ← side (invAngSum / 2 ^ 8)
    let temp ← store refTempSize temp ((nt - 2 : Nat) - k : Int) v
    return (invAngSum, temp)

/-- `ref_temp`, from the samples of the main side and those of the other one. -/
def refTemp (main side : Int → Option Int) (ang invAng : Int) : Option (Cells Int) := do
  let temp ← storeUp refTempSize ((nt - 1 : Nat) : Int) (fun k => main k) fresh (nt + 1)
  let refIdx := (nt * ang) / 32
  let (_, temp) ← extendRef nt side invAng temp (-1 - refIdx).toNat
  return temp

/-- The sample at `along` in the line `across`, from `ref_main`. -/
def fromRefTemp (temp : Cells Int) (ang : Int) (along across : Nat) : Option Int := do
  let pos := (across + 1) * ang
  let idx := pos / 32
  let fract := pos % 32
  let refMainIdx := along + idx + 1
  let a ← load refTempSize temp ((nt - 1 : Nat) + refMainIdx)
  let b ← load refTempSize temp ((nt - 1 : Nat) + (refMainIdx + 1))
  return linear fract a b

def ihevcIntraPredLumaMode11To17 (mode : Nat) : Option Int := do
  let temp ← refTemp nt (fun k => refAt nt ref (2 * nt - k)) (fun s => refAt nt ref (2 * nt + s))
    (angOf mode) (gai4IhevcInvAngTable.getD (mode - 11) 0)
  fromRefTemp nt temp (angOf mode) row col

def ihevcIntraPredLumaMode19To25 (mode : Nat) : Option Int := do
  let temp ← refTemp nt (fun k => refAt nt ref (2 * nt + k)) (fun s => refAt nt ref (2 * nt - s))
    (angOf mode) (gai4IhevcInvAngTable.getD (mode - 12) 0)
  fromRefTemp nt temp (angOf mode) col row

def ihevcIntraPredLumaMode27To33 (mode : Nat) : Option Int := do
  let pos := (row + 1) * angOf mode
  let idx := pos / 32
  let fract := pos % 32
  let refMainIdx := 2 * nt + col + idx + 1
  let a ← refAt nt ref refMainIdx
  let b ← refAt nt ref (refMainIdx + 1)
  return linear fract a b

/-- `apf_intra_pred_luma[g_i4_ip_funcs[mode]]` -/
def intraPredLuma (mode : Nat) (disableBoundaryFilter : Bool) : Option Int :=
  if mode = 0 then ihevcIntraPredLumaPlanar nt ref row col
  else if mode = 1 then ihevcIntraPredLumaDc nt ref row col
  else if mode = 2 then ihevcIntraPredLumaMode2 nt ref row col
  else if mode ≤ 9 then ihevcIntraPredLumaMode3To9 nt ref row col mode
  else if mode = 10 then ihevcIntraPredLumaHorz nt ref row col disableBoundaryFilter
  else if mode ≤ 17 then ihevcIntraPredLumaMode11To17 nt ref row col mode
  else if mode = 18 then ihevcIntraPredLumaMode1834 nt ref row col mode
  else if mode ≤ 25 then ihevcIntraPredLumaMode19To25 nt ref row col mode
  else if mode = 26 then ihevcIntraPredLumaVer nt ref row col disableBoundaryFilter
  else if mode ≤ 33 then ihevcIntraPredLumaMode27To33 nt ref row col mode
  else ihevcIntraPredLumaMode1834 nt ref row col mode

end

/-- The choice between the two substitution functions. -/
def lumaRef (nb : Neighbours Int) (nt flags : Nat) : Option (Cells Int) :=
  if flags = 0x1ffff then ihevcIntraPredLumaRefSubstAllAvlble nb nt
  else ihevcIntraPredLumaRefSubstitution nb nt flags

/-- Substitution, filtering and prediction of a block, as `ihevcd_iquant_itrans_recon_ctb` calls
them for luma. -/
def predictLuma (nb : Neighbours Int) (nt flags mode intraSmoothingFlags : Nat)
    (disableBoundaryFilter : Bool) (row col : Nat) : Option Int := do
  let ref ← lumaRef nb nt flags
  let ref ← ihevcIntraPredRefFiltering nt ref mode intraSmoothingFlags
  intraPredLuma nt ref row col mode disableBoundaryFilter

end Libhevc.IntraPred
