import Libhevc.Common.QuantIquant

/-!
# The coefficient buffer and its unpacking

`ihevcd_parse_residual_coding` leaves the levels of a block in a packed form,
`ihevcd_unpack_coeffs` of `ihevcd_iquant_itrans_recon_ctb.c` puts them in their
places. A block is a function of row and column, with `ENABLE_MAIN_REXT_PROFILE`.
-/

namespace Libhevc.Decoder

def gau1IhevcInvscan4x4At (scanType : Nat) : List Nat :=
  [[0, 4, 1, 8, 5, 2, 12, 9, 6, 3, 13, 10, 7, 14, 11, 15],
   [0, 1, 2, 3, 4, 5, 6, 7, 8, 9, 10, 11, 12, 13, 14, 15],
   [0, 4, 8, 12, 1, 5, 9, 13, 2, 6, 10, 14, 3, 7, 11, 15]].getD scanType []

-- ---------------------------------------------------------------------------
-- The packed form
-- ---------------------------------------------------------------------------

/-- The two bytes of a 16-bit value. -/
def wordBytes (x : Int) : List Nat := [(x % 256).toNat, (x / 256 % 256).toNat]

def readUword16 (buf : Nat → Nat) (p : Nat) : Nat := buf p + 256 * buf (p + 1)

def readWord16 (buf : Nat → Nat) (p : Nat) : Int := i16 (readUword16 buf p)

/-- `tu_sblk_coeff_data_t`, with as many levels as the map has coefficients. -/
structure TuSblkCoeffData where
  xs : Nat
  ys : Nat
  u2SigCoeffMap : Nat
  ai2Level : List Int

/-- `u2_subblk_pos` -/
def TuSblkCoeffData.u2SubblkPos (d : TuSblkCoeffData) : Nat := d.ys <<< 8 ||| d.xs

def TuSblkCoeffData.bytes (d : TuSblkCoeffData) : List Nat :=
  wordBytes d.u2SubblkPos ++ wordBytes d.u2SigCoeffMap ++ d.ai2Level.flatMap wordBytes

/-- What is written for one block. -/
structure TuCoeffData where
  scanIdx : Nat
  transformSkipFlag : Bool
  explicitRdpcmFlag : Bool
  explicitRdpcmDir : Bool
  sblks : List TuSblkCoeffData

def TuCoeffData.scanByte (t : TuCoeffData) : Nat :=
  t.explicitRdpcmDir.toNat <<< 5 ||| t.explicitRdpcmFlag.toNat <<< 4 ||| t.scanIdx <<< 1 |||
    t.transformSkipFlag.toNat

def TuCoeffData.bytes (t : TuCoeffData) : List Nat :=
  [t.sblks.length, t.scanByte] ++ t.sblks.flatMap TuSblkCoeffData.bytes

-- ---------------------------------------------------------------------------
-- The unpacking
-- ---------------------------------------------------------------------------

structure UnpackArgs where
  log2TransSize : Nat
  pi2DequantMatrix : Nat → Nat → Int
  qpRem : Nat
  qpDiv : Nat
  /-- `e_trans_type` is `DST_4x4`. -/
  dst4x4 : Bool
  transQuantBypass : Bool
  bitDepth : Nat

structure UnpackSt where
  pi2TuCoeff : Nat → Nat → Int
  u4ZeroCols : Nat
  u4ZeroRows : Nat
  u4CoeffType : Nat
  i2CoeffValue : Int

namespace UnpackArgs

variable (a : UnpackArgs)

def transSize : Nat := 1 <<< a.log2TransSize

/-- The shift of a transform skip block. -/
def transSkipShift (iquantOut : Int) : Int :=
  let shiftTs : Int := (maxTrDynamicRange : Int) - a.bitDepth - a.log2TransSize
  if 0 < shiftTs then i16 ((iquantOut + (1 : Int) <<< (shiftTs - 1).toNat) >>> shiftTs.toNat)
  else if shiftTs < 0 then i16 (iquantOut <<< (-shiftTs).toNat)
  else iquantOut

/-- `iquant_out` -/
def iquantOut (transSkip : Bool) (row col : Nat) (level : Int) : Int :=
  if a.transQuantBypass then level
  else
    let dequantCoeff := if transSkip ∧ 4 < a.transSize then 16 else a.pi2DequantMatrix row col
    let iquantOut :=
      ihevcdUnpackCoeff a.log2TransSize level dequantCoeff a.qpRem a.qpDiv a.bitDepth
    if transSkip then a.transSkipShift iquantOut else iquantOut

/-- The `memset` of the block. -/
def clear (m : Nat → Nat → Int) : Nat → Nat → Int :=
  fun row col => if row < a.transSize ∧ col < a.transSize then 0 else m row col

/-- The store of one coefficient. -/
def store (transSkip : Bool) (row col : Nat) (level : Int) (st : UnpackSt) : UnpackSt :=
  { st with
    pi2TuCoeff := fun r c =>
      if r = row ∧ c = col then a.iquantOut transSkip row col level else st.pi2TuCoeff r c
    u4ZeroCols := st.u4ZeroCols &&& u32Not (1 <<< col)
    u4ZeroRows := st.u4ZeroRows &&& u32Not (1 <<< row) }

/-- The loop over the map of a sub-block at `p`, which ends when the map is used up. -/
def sigLoop (buf : Nat → Nat) (transSkip : Bool) (scanType p subblkPosX subblkPosY : Nat) :
    (fuel : Nat) → (sblkScanIdx : Int) → (u4SigCoeffMap sblkNonZeroCoeffIdx : Nat) → UnpackSt →
      Option (Nat × UnpackSt)
  | 0, _, _, _, _ => none
  | fuel + 1, sblkScanIdx, u4SigCoeffMap, idx, st =>
    let clz := clz u4SigCoeffMap
    let sblkScanIdx := sblkScanIdx - clz
    let u4SigCoeffMap := u32 (u4SigCoeffMap <<< clz)
    let coeffRasterIdx := (gau1IhevcInvscan4x4At scanType).getD sblkScanIdx.toNat 0
    let xs := coeffRasterIdx &&& 0x3
    let ys := coeffRasterIdx >>> 2
    let st := a.store transSkip (subblkPosY + ys) (subblkPosX + xs)
      (readWord16 buf (p + 4 + 2 * idx)) st
    let u4SigCoeffMap := u32 (u4SigCoeffMap <<< 1)
    if u4SigCoeffMap = 0 then some (idx + 1, st)
    else sigLoop buf transSkip scanType p subblkPosX subblkPosY fuel (sblkScanIdx - 1)
      u4SigCoeffMap (idx + 1) st

/-- The loop over the coded sub-blocks. -/
def sblkLoop (buf : Nat → Nat) (transSkip : Bool) (scanType : Nat) :
    (numCodedSblks p : Nat) → UnpackSt → Option (Nat × UnpackSt)
  | 0, p, st => some (p, st)
  | n + 1, p, st =>
    let subblkPosX := (readUword16 buf p &&& 0x00FF) * 4
    let subblkPosY := ((readUword16 buf p &&& 0xFF00) >>> 8) * 4
    (a.sigLoop buf transSkip scanType p subblkPosX subblkPosY 32 31 (readUword16 buf (p + 2)) 0
      st).bind fun r => sblkLoop buf transSkip scanType n (p + 4 + 2 * r.1) r.2

/-- What follows when the block is not `DC only`. -/
def general (buf : Nat → Nat) (p : Nat) (st : UnpackSt) : Option (Nat × UnpackSt) :=
  a.sblkLoop buf (buf (p + 1) &&& 1 == 1) ((buf (p + 1) &&& 0xF) >>> 1) (buf p) (p + 2)
    { st with
      pi2TuCoeff := a.clear st.pi2TuCoeff
      u4ZeroCols := 0xFFFFFFFF
      u4ZeroRows := 0xFFFFFFFF
      u4CoeffType := 0 }

/-- The test for `DC only`. -/
def dcTest (buf : Nat → Nat) (p : Nat) : Bool :=
  !a.dst4x4 && buf p == 1 && readUword16 buf (p + 2) == 0 && readUword16 buf (p + 4) == 1

/-- The `DC only` case: the rest of the block is left, but for the column of a bypass block. -/
def dcOnly (buf : Nat → Nat) (p : Nat) (st : UnpackSt) : Nat × UnpackSt :=
  let transSkip := buf (p + 1) &&& 1 == 1
  let cleared := if transSkip then a.clear st.pi2TuCoeff else st.pi2TuCoeff
  let cleared := fun r c =>
    if a.transQuantBypass ∧ r < a.transSize ∧ c = 0 then 0 else cleared r c
  let iquantOut := a.iquantOut transSkip 0 0 (readWord16 buf (p + 6))
  (p + 8,
    { pi2TuCoeff := fun r c => if r = 0 ∧ c = 0 then iquantOut else cleared r c
      u4ZeroCols := 0xFFFFFFFF &&& u32Not 1
      u4ZeroRows := 0xFFFFFFFF &&& u32Not 1
      u4CoeffType := 1
      i2CoeffValue := iquantOut })

end UnpackArgs

/-- `ihevcd_unpack_coeffs` of the buffer from `p`: where it ends, and what is unpacked. -/
def ihevcdUnpackCoeffs (a : UnpackArgs) (buf : Nat → Nat) (p : Nat) (st : UnpackSt) :
    Option (Nat × UnpackSt) :=
  if a.dcTest buf p then some (a.dcOnly buf p st) else a.general buf p st

end Libhevc.Decoder
