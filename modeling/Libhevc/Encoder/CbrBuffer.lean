import Mathlib.Algebra.Order.Field.Rat
import Mathlib.Tactic.Common
import Mathlib.Tactic.FieldSimp
import Mathlib.Tactic.Linarith
import Mathlib.Tactic.Positivity
import Mathlib.Tactic.Ring

/-!
# The buffer of the rate control

`cbr_buffer_control.c` and `fixed_point_error_bits.c`. `X_PROD_Y_DIV_Z` is the integer
quotient, and the numbers are in the range of their types. What only the thresholds of the bit
allocation read is left out.
-/

namespace Libhevc.Encoder

/-- `X_PROD_Y_DIV_Z` -/
def xProdYDivZFloor (x y z : Int) : Int := x * y / z

-- ---------------------------------------------------------------------------
-- Error bits
-- ---------------------------------------------------------------------------

/-- `error_bits_t` -/
structure ErrorBits where
  i4AccumFrmRate : Int
  i4TgtFrmRate : Int
  i4TgtFrmRateIncr : Int
  u1ComputeErrorBits : Bool
  i4AccumBitrate : Int
  i4Bitrate : Int
  deriving DecidableEq, Repr

def initErrorBits (i4TgtFrmRate i4Bitrate : Int) : ErrorBits where
  i4AccumFrmRate := 0
  i4TgtFrmRate := i4TgtFrmRate
  i4TgtFrmRateIncr := 1000
  u1ComputeErrorBits := false
  i4AccumBitrate := 0
  i4Bitrate := i4Bitrate

def updateErrorBits (e : ErrorBits) : ErrorBits :=
  let i4BitsPerFrame := xProdYDivZFloor e.i4Bitrate 1000 e.i4TgtFrmRate
  let e := if e.u1ComputeErrorBits then { e with i4AccumBitrate := 0, i4AccumFrmRate := 0 } else e
  let e := { e with
    i4AccumFrmRate := e.i4AccumFrmRate + e.i4TgtFrmRateIncr
    i4AccumBitrate := e.i4AccumBitrate + i4BitsPerFrame }
  { e with u1ComputeErrorBits := decide (e.i4TgtFrmRate ≤ e.i4AccumFrmRate) }

def getErrorBits (e : ErrorBits) : Int :=
  if e.u1ComputeErrorBits then
    xProdYDivZFloor e.i4Bitrate e.i4AccumFrmRate e.i4TgtFrmRate - e.i4AccumBitrate
  else 0

-- ---------------------------------------------------------------------------
-- The buffer
-- ---------------------------------------------------------------------------

/-- `rc_type_e` -/
inductive RcType
  | vbrStorage
  | vbrStorageDvdComp
  | vbrStreaming
  | constQp
  | cbrLdrc
  | cbrNldrc
  | cbrNldrcHbr
  deriving DecidableEq, Repr

/-- The types of `picture_type_e` that a picture has. -/
inductive PictureType
  | iPic
  | pPic
  | bPic
  | b1Pic
  | b2Pic
  | p1Pic
  | bbPic
  | b11Pic
  | b22Pic
  deriving DecidableEq, Repr

/-- `vbv_buf_status_e` -/
inductive VbvBufStatus
  | normal
  | underflow
  | overflow
  | caution
  deriving DecidableEq, Repr

/-- `VBR_MAX_BIT_DEV_SEC` -/
def vbrMaxBitDevSec : Int := 50

/-- `cbr_buffer_t`, with the entries of I pictures and of the other pictures apart. -/
structure CbrBuffer where
  i4BufferSize : Int
  i4DrainBitsPerFrame : Bool → Int
  i4Ebf : Int
  i8EbfBitAlloc : Int
  i8CreditLevel : Int
  apsBpfErrorBits : Bool → ErrorBits
  i4IsCbrMode : Bool
  ai4BitRate : Int
  i4TgtFrmRate : Int
  u4MaxVbvBufSize : Int
  i4PeakDrainRateFrame : Int
  eRcType : RcType
  i4VbrNoPeakRateDurationLimit : Bool
  i8TotFrmToBeEncoded : Int
  i8NumFramesEncoded : Int
  i4EbfEstimate : Int

/-- The state `init_cbr_buffer` leaves for `CBR_NLDRC`. -/
def initCbrBuffer (i4TgtFrmRate u4BitRate u4VbvBufSize i8NumFramesToEncode : Int) : CbrBuffer where
  i4BufferSize := u4VbvBufSize
  i4DrainBitsPerFrame _ := xProdYDivZFloor u4BitRate 1000 i4TgtFrmRate
  i4Ebf := 0
  i8EbfBitAlloc := 0
  i8CreditLevel := 0
  apsBpfErrorBits _ := initErrorBits i4TgtFrmRate u4BitRate
  i4IsCbrMode := true
  ai4BitRate := u4BitRate
  i4TgtFrmRate := i4TgtFrmRate
  u4MaxVbvBufSize := u4VbvBufSize
  i4PeakDrainRateFrame := xProdYDivZFloor u4BitRate 1000 i4TgtFrmRate
  eRcType := .cbrNldrc
  i4VbrNoPeakRateDurationLimit := false
  i8TotFrmToBeEncoded := i8NumFramesToEncode
  i8NumFramesEncoded := 0
  i4EbfEstimate := 0

/-- The drain bits and the error bits of a picture. -/
def CbrBuffer.drain (s : CbrBuffer) (ePicType : PictureType) : Int :=
  s.i4DrainBitsPerFrame (ePicType = .iPic) + getErrorBits (s.apsBpfErrorBits (ePicType = .iPic))

/-- The status, and the number of bits that are left before an overflow. -/
def getCbrBufferStatus (s : CbrBuffer) (i4TotConsumedBits : Int) (ePicType : PictureType)
    (eRcType : RcType) : VbvBufStatus × Int :=
  let i4CurEncBuf := s.i4Ebf + i4TotConsumedBits
  let r : VbvBufStatus × Int :=
    if s.i4BufferSize < i4CurEncBuf then (.overflow, s.i4BufferSize)
    else
      let i4CurEncBuf := i4CurEncBuf - s.drain ePicType
      let i4CurEncBuf := if eRcType = .vbrStreaming ∧ i4CurEncBuf < 0 then 0 else i4CurEncBuf
      (if i4CurEncBuf < 0 then .underflow else .normal, if i4CurEncBuf < 0 then 0 else i4CurEncBuf)
  -- the status is told from the side of the decoder
  let eBufStatus := if r.1 = .overflow then .underflow
    else if r.1 = .underflow then .overflow else r.1
  (eBufStatus, s.i4BufferSize - r.2)

def getCbrBitsToStuff (s : CbrBuffer) (i4TotConsumedBits : Int) (ePicType : PictureType) : Int :=
  s.drain ePicType - (s.i4Ebf + i4TotConsumedBits)

/-- The limit that follows the size of a stream of unknown length. -/
def CbrBuffer.maxBitDevAllowed (s : CbrBuffer) : Int :=
  let approxFileSize := s.i8NumFramesEncoded * s.ai4BitRate * 1000 / s.i4TgtFrmRate
  let i8MaxBitDevAllowed :=
    if s.ai4BitRate < approxFileSize / 2 ^ 4 then approxFileSize / 2 ^ 4 else s.ai4BitRate
  if vbrMaxBitDevSec * s.ai4BitRate < i8MaxBitDevAllowed then vbrMaxBitDevSec * s.ai4BitRate
  else i8MaxBitDevAllowed

/-- The fullness before it is clamped. -/
def CbrBuffer.consume (s : CbrBuffer) (i4TotConsumedBits : Int) (ePicType : PictureType) :
    CbrBuffer :=
  if s.i4IsCbrMode then
    { s with
      i4Ebf := s.i4Ebf + i4TotConsumedBits - s.drain ePicType
      i8EbfBitAlloc := s.i8EbfBitAlloc + i4TotConsumedBits - s.drain ePicType }
  else
    let i4ErrorBits := getErrorBits (s.apsBpfErrorBits (ePicType = .iPic))
    let i4Ebf := s.i4Ebf + i4TotConsumedBits
    let meanDrain := s.i4DrainBitsPerFrame true + i4ErrorBits
    let i8EbfBitAlloc := s.i8EbfBitAlloc + i4TotConsumedBits - meanDrain
    { s with
      i4Ebf := i4Ebf -
        ((if s.i4PeakDrainRateFrame < i4Ebf then s.i4PeakDrainRateFrame else i4Ebf) + i4ErrorBits)
      i8EbfBitAlloc :=
        if s.i4VbrNoPeakRateDurationLimit = false ∧ i8EbfBitAlloc < 0 then 0 else i8EbfBitAlloc
      i8CreditLevel := s.i8CreditLevel + i4TotConsumedBits - meanDrain }

def updateCbrBuffer (s : CbrBuffer) (i4TotConsumedBits : Int) (ePicType : PictureType) :
    CbrBuffer :=
  let s := { s with i8NumFramesEncoded := s.i8NumFramesEncoded + 1 }
  let s := if s.eRcType = .vbrStreaming ∧ s.i8TotFrmToBeEncoded < 0 then
    { s with u4MaxVbvBufSize := s.maxBitDevAllowed } else s
  let s := s.consume i4TotConsumedBits ePicType
  let s := if s.i4Ebf < 0 then { s with i4Ebf := 0 } else s
  let s := if s.i4BufferSize < s.i4Ebf then { s with i4Ebf := s.i4BufferSize } else s
  { s with
    i4EbfEstimate := s.i4Ebf
    apsBpfErrorBits := fun i => updateErrorBits (s.apsBpfErrorBits i) }

-- ---------------------------------------------------------------------------
-- Runs
-- ---------------------------------------------------------------------------

structure CbrPicture where
  ePicType : PictureType
  i4TotConsumedBits : Int
  deriving DecidableEq, Repr

/-- The status of a picture, before any stuffing. -/
def CbrBuffer.status (s : CbrBuffer) (p : CbrPicture) : VbvBufStatus :=
  (getCbrBufferStatus s p.i4TotConsumedBits p.ePicType .cbrNldrc).1

/-- The consumed bits and, after `VBV_OVERFLOW`, the bits that are stuffed. -/
def CbrBuffer.stuffed (s : CbrBuffer) (p : CbrPicture) : Int :=
  p.i4TotConsumedBits +
    if s.status p = .overflow then getCbrBitsToStuff s p.i4TotConsumedBits p.ePicType else 0

/-- One picture. -/
def CbrBuffer.picture (s : CbrBuffer) (p : CbrPicture) : CbrBuffer :=
  updateCbrBuffer s (s.stuffed p) p.ePicType

def CbrBuffer.run (s : CbrBuffer) (ps : List CbrPicture) : CbrBuffer := ps.foldl CbrBuffer.picture s

/-- The consumed and stuffed bits of a run. -/
def CbrBuffer.runBits : (s : CbrBuffer) → List CbrPicture → Int
  | _, [] => 0
  | s, p :: ps => s.stuffed p + (s.picture p).runBits ps

/-- The bits that are drained over a run. -/
def CbrBuffer.runDrain : (s : CbrBuffer) → List CbrPicture → Int
  | _, [] => 0
  | s, p :: ps => s.drain p.ePicType + (s.picture p).runDrain ps

/-- No picture of the run takes more bits than the buffer has room for. -/
def CbrBuffer.Obeyed : (s : CbrBuffer) → List CbrPicture → Prop
  | _, [] => True
  | s, p :: ps => 0 ≤ p.i4TotConsumedBits ∧ s.status p ≠ .underflow ∧ (s.picture p).Obeyed ps

end Libhevc.Encoder

/-!
## The buffer model under stuffing

The error bits are counted over windows of `framesPerWindow` pictures, and drained with the first
picture of the next window. At the end of a window the drain is the bit rate of the window, cut
off once.
-/

namespace Libhevc.Encoder

/-- The pictures of a second, rounded up. -/
def framesPerWindow (frmRate : Nat) : Nat := (frmRate + 999) / 1000

/-- The drain of a picture without error bits. -/
def bitsPerFrame (bitRate frmRate : Nat) : Int := xProdYDivZFloor bitRate 1000 frmRate

/-- The drain of a window. -/
def windowBits (bitRate frmRate : Nat) : Int :=
  xProdYDivZFloor bitRate (1000 * framesPerWindow frmRate : Nat) frmRate

/-- The drain and the error bits of a picture together, at most. -/
def maxDrain (bitRate frmRate : Nat) : Int :=
  bitsPerFrame bitRate frmRate +
    (windowBits bitRate frmRate - framesPerWindow frmRate * bitsPerFrame bitRate frmRate)

section

variable {R F B m j : Nat} {bits d : Int} {s : CbrBuffer}

theorem bitsPerFrame_bounds (hF : 0 < F) :
    F * bitsPerFrame R F ≤ 1000 * R ∧ 1000 * (R : Int) < F * bitsPerFrame R F + F := by
  have hF' : (0 : Int) < F := by exact_mod_cast hF
  have hdiv := Int.mul_ediv_add_emod (R * 1000) F
  have hnonneg := Int.emod_nonneg (R * 1000) hF'.ne'
  have hlt := Int.emod_lt_of_pos (R * 1000) hF'
  unfold bitsPerFrame xProdYDivZFloor
  constructor <;> linarith

theorem windowBits_bounds (hF : 0 < F) :
    F * windowBits R F ≤ 1000 * framesPerWindow F * R ∧
      1000 * (framesPerWindow F : Int) * R < F * windowBits R F + F := by
  have hF' : (0 : Int) < F := by exact_mod_cast hF
  have hdiv := Int.mul_ediv_add_emod (R * (1000 * framesPerWindow F : Nat)) F
  have hnonneg := Int.emod_nonneg (R * (1000 * framesPerWindow F : Nat)) hF'.ne'
  have hlt := Int.emod_lt_of_pos (R * (1000 * framesPerWindow F : Nat)) hF'
  unfold windowBits xProdYDivZFloor
  push_cast at hdiv hnonneg hlt ⊢
  constructor <;> linarith

theorem bitsPerFrame_nonneg : 0 ≤ bitsPerFrame R F :=
  Int.ediv_nonneg (by positivity) (Int.natCast_nonneg F)

/-- The error bits of a window are not negative. -/
theorem framesPerWindow_mul_le (hF : 0 < F) :
    framesPerWindow F * bitsPerFrame R F ≤ windowBits R F := by
  have hF' : (0 : Int) < F := by exact_mod_cast hF
  apply Int.le_ediv_of_mul_le hF'
  have hle := mul_le_mul_of_nonneg_left (bitsPerFrame_bounds (R := R) hF).1
    (Int.natCast_nonneg (framesPerWindow F))
  push_cast
  linarith

-- ---------------------------------------------------------------------------
-- Error bits
-- ---------------------------------------------------------------------------

/-- `j` pictures of the window are behind us. -/
structure Window (R F j : Nat) (e : ErrorBits) : Prop where
  frmRate : e.i4TgtFrmRate = F
  incr : e.i4TgtFrmRateIncr = 1000
  bitrate : e.i4Bitrate = R
  accumFrmRate : e.i4AccumFrmRate = (1000 * j : Nat)
  accumBitrate : e.i4AccumBitrate = j * bitsPerFrame R F
  flag : e.u1ComputeErrorBits = decide (F ≤ 1000 * j)

theorem Window.init (hF : 0 < F) : Window R F 0 (initErrorBits F R) :=
  ⟨rfl, rfl, rfl, rfl, (Int.zero_mul _).symm, (decide_eq_false (by omega)).symm⟩

theorem Window.update (h : Window R F j e) :
    Window R F (if F ≤ 1000 * j then 1 else j + 1) (updateErrorBits e) := by
  obtain ⟨hrate, hincr, hbitrate, hfrm, hbits, hflag⟩ := h
  have hq : xProdYDivZFloor e.i4Bitrate 1000 e.i4TgtFrmRate = bitsPerFrame R F := by
    rw [hrate, hbitrate]
    rfl
  unfold updateErrorBits
  by_cases hfull : F ≤ 1000 * j
  · rw [decide_eq_true hfull] at hflag
    simp only [hflag, if_true, if_pos hfull]
    refine ⟨hrate, hincr, hbitrate, ?_, ?_, ?_⟩
    · rw [hincr]
      rfl
    · rw [hq]
      simp
    · rw [hrate, hincr]
      apply decide_eq_decide.mpr
      omega
  · rw [decide_eq_false hfull] at hflag
    simp only [hflag, Bool.false_eq_true, if_false, if_neg hfull]
    refine ⟨hrate, hincr, hbitrate, ?_, ?_, ?_⟩
    · rw [hincr, hfrm]
      push_cast
      ring
    · rw [hq, hbits]
      push_cast
      ring
    · rw [hrate, hincr, hfrm]
      apply decide_eq_decide.mpr
      push_cast
      omega

theorem Window.errorBits (h : Window R F j e) (hj : 1000 * j < F + 1000) :
    getErrorBits e = if F ≤ 1000 * j then
      windowBits R F - framesPerWindow F * bitsPerFrame R F else 0 := by
  obtain ⟨hrate, -, hbitrate, hfrm, hbits, hflag⟩ := h
  unfold getErrorBits
  by_cases hfull : F ≤ 1000 * j
  · have hlast : j = framesPerWindow F := by
      unfold framesPerWindow
      omega
    rw [hflag, decide_eq_true hfull, if_pos rfl, if_pos hfull, hrate, hbitrate, hfrm, hbits, hlast]
    rfl
  · rw [hflag, decide_eq_false hfull, if_neg Bool.false_ne_true, if_neg hfull]

-- ---------------------------------------------------------------------------
-- The invariant
-- ---------------------------------------------------------------------------

/-- After `m` whole windows and `j` pictures, with `bits` put in and `drained` taken out. -/
structure CbrInv (R F B m j : Nat) (bits drained : Int) (s : CbrBuffer) : Prop where
  size : s.i4BufferSize = B
  drainRate : ∀ i, s.i4DrainBitsPerFrame i = bitsPerFrame R F
  mode : s.i4IsCbrMode = true
  window : ∀ i, Window R F j (s.apsBpfErrorBits i)
  short : 1000 * j < F + 1000
  first : j = 0 → m = 0
  taken : drained = m * windowBits R F + j * bitsPerFrame R F
  ebf : s.i4Ebf = bits - drained
  alloc : s.i8EbfBitAlloc = s.i4Ebf
  nonneg : 0 ≤ s.i4Ebf
  le : s.i4Ebf ≤ B

theorem CbrInv.init (hF : 0 < F) (B : Nat) (frames : Int) :
    CbrInv R F B 0 0 0 0 (initCbrBuffer F R B frames) where
  size := rfl
  drainRate _ := rfl
  mode := rfl
  window _ := Window.init hF
  short := by omega
  first _ := rfl
  taken := by simp
  ebf := rfl
  alloc := rfl
  nonneg := Int.le_refl 0
  le := Int.natCast_nonneg B

/-- What a picture drains. -/
theorem CbrInv.drain_eq (h : CbrInv R F B m j bits d s) (t : PictureType) :
    s.drain t = bitsPerFrame R F + if F ≤ 1000 * j then
      windowBits R F - framesPerWindow F * bitsPerFrame R F else 0 := by
  rw [CbrBuffer.drain, h.drainRate, (h.window _).errorBits h.short]

theorem CbrInv.drain_nonneg (h : CbrInv R F B m j bits d s) (hF : 0 < F) (t : PictureType) :
    0 ≤ s.drain t := by
  rw [h.drain_eq]
  have hq := bitsPerFrame_nonneg (R := R) (F := F)
  have herr := framesPerWindow_mul_le (R := R) hF
  split <;> linarith

theorem CbrInv.drain_le (h : CbrInv R F B m j bits d s) (hF : 0 < F) (hB : maxDrain R F ≤ B)
    (t : PictureType) : s.drain t ≤ B := by
  rw [h.drain_eq]
  have herr := framesPerWindow_mul_le (R := R) hF
  unfold maxDrain at hB
  split <;> linarith

/-- The status for CBR, from the side of the decoder. -/
theorem status_eq (s : CbrBuffer) (bits : Int) (t : PictureType) :
    (getCbrBufferStatus s bits t .cbrNldrc).1 =
      if s.i4BufferSize < s.i4Ebf + bits then .underflow
      else if s.i4Ebf + bits < s.drain t then .overflow else .normal := by
  unfold getCbrBufferStatus
  by_cases hfull : s.i4BufferSize < s.i4Ebf + bits
  · simp [hfull]
  · by_cases hempty : s.i4Ebf + bits - s.drain t < 0
    · have hlt : s.i4Ebf + bits < s.drain t := by omega
      simp [hfull, hlt]
    · have hge : ¬s.i4Ebf + bits < s.drain t := by omega
      simp [hfull, hge]

/-- A picture fits the buffer, and leaves it with at least nothing. -/
theorem CbrInv.stuffed_bounds (h : CbrInv R F B m j bits d s) (hF : 0 < F)
    (hB : maxDrain R F ≤ B) (p : CbrPicture) (hp : s.status p ≠ .underflow) :
    s.drain p.ePicType ≤ s.i4Ebf + s.stuffed p ∧ s.i4Ebf + s.stuffed p ≤ B := by
  have hdrain := h.drain_le hF hB p.ePicType
  have hsize := h.size
  unfold CbrBuffer.stuffed
  have hstatus := status_eq s p.i4TotConsumedBits p.ePicType
  unfold CbrBuffer.status at hp ⊢
  rw [hstatus] at hp ⊢
  by_cases hfull : s.i4BufferSize < s.i4Ebf + p.i4TotConsumedBits
  · rw [if_pos hfull] at hp
    exact absurd rfl hp
  rw [if_neg hfull]
  by_cases hempty : s.i4Ebf + p.i4TotConsumedBits < s.drain p.ePicType
  · rw [if_pos hempty, if_pos rfl, getCbrBitsToStuff]
    omega
  · rw [if_neg hempty, if_neg nofun]
    omega

/-- The status for the consumed and stuffed bits. -/
theorem CbrInv.status_stuffed (h : CbrInv R F B m j bits d s) (hF : 0 < F)
    (hB : maxDrain R F ≤ B) (p : CbrPicture) (hp : s.status p ≠ .underflow) :
    (getCbrBufferStatus s (s.stuffed p) p.ePicType .cbrNldrc).1 = .normal := by
  obtain ⟨hlo, hhi⟩ := h.stuffed_bounds hF hB p hp
  rw [status_eq, if_neg (by rw [h.size]; omega), if_neg (by omega)]

/-- The fullness before the clamps, which are not taken. -/
theorem CbrInv.consume (h : CbrInv R F B m j bits d s) (b : Int) (t : PictureType) :
    (s.consume b t).i4Ebf = s.i4Ebf + b - s.drain t ∧
      (s.consume b t).i8EbfBitAlloc = s.i8EbfBitAlloc + b - s.drain t := by
  unfold CbrBuffer.consume
  rw [if_pos h.mode]
  exact ⟨rfl, rfl⟩

/-- An update whose clamps are not taken. -/
theorem updateCbrBuffer_fields (hmode : s.i4IsCbrMode = true) (b : Int) (t : PictureType)
    (hlo : 0 ≤ s.i4Ebf + b - s.drain t) (hhi : s.i4Ebf + b - s.drain t ≤ s.i4BufferSize) :
    (updateCbrBuffer s b t).i4BufferSize = s.i4BufferSize ∧
      (updateCbrBuffer s b t).i4DrainBitsPerFrame = s.i4DrainBitsPerFrame ∧
      (updateCbrBuffer s b t).i4IsCbrMode = true ∧
      (updateCbrBuffer s b t).apsBpfErrorBits = (fun i => updateErrorBits (s.apsBpfErrorBits i)) ∧
      (updateCbrBuffer s b t).i4Ebf = s.i4Ebf + b - s.drain t ∧
      (updateCbrBuffer s b t).i8EbfBitAlloc = s.i8EbfBitAlloc + b - s.drain t := by
  have hlo' := Int.not_lt.mpr hlo
  have hhi' := Int.not_lt.mpr hhi
  unfold CbrBuffer.drain at hlo' hhi' ⊢
  unfold updateCbrBuffer CbrBuffer.consume CbrBuffer.drain
  by_cases hvbr : s.eRcType = .vbrStreaming ∧ s.i8TotFrmToBeEncoded < 0
  · simp only [if_pos hvbr, hmode, if_true, if_neg hlo', if_neg hhi', and_self]
  · simp only [if_neg hvbr, hmode, if_true, if_neg hlo', if_neg hhi', and_self]

/-- One picture. -/
theorem CbrInv.picture (h : CbrInv R F B m j bits d s) (hF : 0 < F) (hB : maxDrain R F ≤ B)
    (p : CbrPicture) (hp : s.status p ≠ .underflow) :
    ∃ m' j', m' * framesPerWindow F + j' = m * framesPerWindow F + j + 1 ∧
      CbrInv R F B m' j' (bits + s.stuffed p) (d + s.drain p.ePicType) (s.picture p) := by
  obtain ⟨hlo, hhi⟩ := h.stuffed_bounds hF hB p hp
  have hdrain := h.drain_nonneg hF p.ePicType
  obtain ⟨hsize, hrate, hmode, haps, hebf, halloc⟩ := updateCbrBuffer_fields h.mode (s.stuffed p)
    p.ePicType (by omega) (by rw [h.size]; omega)
  have heq := h.drain_eq p.ePicType
  refine ⟨if F ≤ 1000 * j then m + 1 else m, if F ≤ 1000 * j then 1 else j + 1, ?_, ?_⟩
  · by_cases hfull : F ≤ 1000 * j
    · have hlast : j = framesPerWindow F := by
        have := h.short
        unfold framesPerWindow
        omega
      rw [if_pos hfull, if_pos hfull, hlast]
      ring
    · rw [if_neg hfull, if_neg hfull]
      ring
  · constructor
    case size => exact hsize.trans h.size
    case drainRate => exact fun i => (congrFun hrate i).trans (h.drainRate i)
    case mode => exact hmode
    case window =>
      intro i
      rw [CbrBuffer.picture, haps]
      exact (h.window i).update
    case short => split <;> omega
    case first =>
      intro hzero
      split at hzero <;> omega
    case taken =>
      rw [heq, h.taken]
      by_cases hfull : F ≤ 1000 * j
      · have hlast : j = framesPerWindow F := by
          have := h.short
          unfold framesPerWindow
          omega
        simp only [if_pos hfull]
        rw [hlast]
        push_cast
        ring
      · simp only [if_neg hfull]
        push_cast
        ring
    case ebf =>
      rw [CbrBuffer.picture, hebf, h.ebf]
      ring
    case alloc => rw [CbrBuffer.picture, halloc, hebf, h.alloc]
    case nonneg =>
      rw [CbrBuffer.picture, hebf]
      omega
    case le =>
      rw [CbrBuffer.picture, hebf]
      omega

/-- A whole run. -/
theorem CbrInv.run (h : CbrInv R F B m j bits d s) (hF : 0 < F) (hB : maxDrain R F ≤ B)
    (ps : List CbrPicture) (hps : s.Obeyed ps) :
    ∃ m' j', m' * framesPerWindow F + j' = m * framesPerWindow F + j + ps.length ∧
      CbrInv R F B m' j' (bits + s.runBits ps) (d + s.runDrain ps) (s.run ps) := by
  induction ps generalizing m j bits d s with
  | nil =>
    refine ⟨m, j, rfl, ?_⟩
    rw [CbrBuffer.runBits, CbrBuffer.runDrain, Int.add_zero, Int.add_zero]
    exact h
  | cons p ps ih =>
    obtain ⟨-, hp, hrest⟩ := hps
    obtain ⟨m', j', hcount, hnext⟩ := h.picture hF hB p hp
    obtain ⟨m'', j'', hcount', hend⟩ := ih hnext hrest
    refine ⟨m'', j'', ?_, ?_⟩
    · rw [hcount', hcount, List.length_cons]
      ring
    · rw [CbrBuffer.runBits, CbrBuffer.runDrain, ← Int.add_assoc, ← Int.add_assoc]
      exact hend

theorem CbrBuffer.Obeyed.split {s : CbrBuffer} {pre post : List CbrPicture} {p : CbrPicture}
    (h : s.Obeyed (pre ++ p :: post)) :
    s.Obeyed pre ∧ (s.run pre).status p ≠ .underflow := by
  induction pre generalizing s with
  | nil => exact ⟨trivial, h.2.1⟩
  | cons q pre ih =>
    obtain ⟨hrest, hp⟩ := ih h.2.2
    exact ⟨⟨h.1, h.2.1, hrest⟩, hp⟩

/-- The drain follows the bit rate: of each whole window less than one bit is lost, and less than
one of each picture since. -/
theorem CbrInv.drain_error (h : CbrInv R F B m j bits d s) (hF : 0 < F) (hj : 0 < j) :
    0 ≤ 1000 * ((m * framesPerWindow F + j : Nat) : ℚ) * R / F - d ∧
      1000 * ((m * framesPerWindow F + j : Nat) : ℚ) * R / F - d <
        (((m * framesPerWindow F + j - 1) / framesPerWindow F : Nat) : ℚ) + framesPerWindow F := by
  have hF' : (0 : ℚ) < F := by exact_mod_cast hF
  have hshort : j ≤ framesPerWindow F := by
    have := h.short
    unfold framesPerWindow
    omega
  have hwindow : (m * framesPerWindow F + j - 1) / framesPerWindow F = m := by
    apply Nat.div_eq_of_lt_le
    · omega
    · rw [Nat.add_mul, Nat.one_mul]
      omega
  obtain ⟨hqlo, hqhi⟩ := bitsPerFrame_bounds (R := R) hF
  obtain ⟨hwlo, hwhi⟩ := windowBits_bounds (R := R) hF
  have hm := Int.natCast_nonneg m
  have hj' : (0 : Int) < j := by exact_mod_cast hj
  have hlo : F * d ≤ 1000 * ((m * framesPerWindow F + j : Nat) : Int) * R := by
    rw [h.taken]
    push_cast
    nlinarith [mul_le_mul_of_nonneg_left hwlo hm, mul_le_mul_of_nonneg_left hqlo hj'.le]
  have hhi : 1000 * ((m * framesPerWindow F + j : Nat) : Int) * R < F * d + F * (m + j) := by
    rw [h.taken]
    push_cast
    nlinarith [mul_le_mul_of_nonneg_left hwhi.le hm, mul_lt_mul_of_pos_left hqhi hj']
  have hcount : (m : Int) + j ≤ m + framesPerWindow F := by
    have : (j : Int) ≤ framesPerWindow F := by exact_mod_cast hshort
    linarith
  rw [hwindow, sub_nonneg, le_div_iff₀ hF', sub_lt_iff_lt_add, div_lt_iff₀ hF']
  constructor
  · have : (F * d : ℚ) ≤ 1000 * ((m * framesPerWindow F + j : Nat) : ℚ) * R := by exact_mod_cast hlo
    linarith
  · have hlt : (1000 * ((m * framesPerWindow F + j : Nat) : ℚ) * R) < F * d + F * (m + j) := by
      exact_mod_cast hhi
    have hle : (m + j : ℚ) ≤ m + framesPerWindow F := by exact_mod_cast hcount
    have := mul_le_mul_of_nonneg_left hle hF'.le
    linarith

end

/-- The buffer model for CBR is exact while stuffing is obeyed. -/
theorem cbrBuffer_exact (bitRate frmRate vbvSize : Nat) (frames : Int) (hF : 1000 ≤ frmRate)
    (hB : maxDrain bitRate frmRate ≤ vbvSize) (ps : List CbrPicture)
    (hps : (initCbrBuffer frmRate bitRate vbvSize frames).Obeyed ps) :
    let s := initCbrBuffer frmRate bitRate vbvSize frames
    (0 ≤ (s.run ps).i4Ebf ∧ (s.run ps).i4Ebf ≤ vbvSize ∧
      (s.run ps).i4Ebf = (s.run ps).i8EbfBitAlloc ∧
      (s.run ps).i4Ebf = s.runBits ps - s.runDrain ps) ∧
    (∀ pre p post, ps = pre ++ p :: post →
      let t := s.run pre
      0 ≤ (t.consume (t.stuffed p) p.ePicType).i4Ebf ∧
        (t.consume (t.stuffed p) p.ePicType).i4Ebf ≤ t.i4BufferSize ∧
        (getCbrBufferStatus t (t.stuffed p) p.ePicType .cbrNldrc).1 = .normal) ∧
    (ps ≠ [] →
      0 ≤ 1000 * (ps.length : ℚ) * bitRate / frmRate - s.runDrain ps ∧
        1000 * (ps.length : ℚ) * bitRate / frmRate - s.runDrain ps <
          (((ps.length - 1) / framesPerWindow frmRate : Nat) : ℚ) + framesPerWindow frmRate) := by
  intro s
  have hF' : 0 < frmRate := by omega
  have hinit : CbrInv bitRate frmRate vbvSize 0 0 0 0 s := CbrInv.init hF' vbvSize frames
  obtain ⟨m, j, hcount, hinv⟩ := hinit.run hF' hB ps hps
  simp only [Nat.zero_mul, Nat.zero_add] at hcount
  rw [Int.zero_add, Int.zero_add] at hinv
  refine ⟨⟨hinv.nonneg, hinv.le, hinv.alloc.symm, hinv.ebf⟩, fun pre p post hsplit => ?_,
    fun hne => ?_⟩
  · rw [hsplit] at hps
    obtain ⟨hpre, hp⟩ := hps.split
    obtain ⟨m', j', -, hinv'⟩ := hinit.run hF' hB pre hpre
    obtain ⟨hlo, hhi⟩ := hinv'.stuffed_bounds hF' hB p hp
    have hdrain := hinv'.drain_nonneg hF' p.ePicType
    refine ⟨?_, ?_, hinv'.status_stuffed hF' hB p hp⟩
    · rw [(hinv'.consume _ _).1]
      omega
    · rw [(hinv'.consume _ _).1, hinv'.size]
      omega
  · have hj : 0 < j := by
      apply Nat.pos_of_ne_zero
      intro hzero
      have hm := hinv.first hzero
      rw [hzero, hm, Nat.zero_mul] at hcount
      exact hne (List.eq_nil_of_length_eq_zero hcount.symm)
    have herr := hinv.drain_error hF' hj
    rw [hcount] at herr
    exact herr

/-- A picture that needs no stuffing and one that does. -/
def stuffedPictures : List CbrPicture := [⟨.iPic, 150000⟩, ⟨.pPic, 20000⟩]

theorem cbrBuffer_exact_stuffedPictures :
    0 ≤ ((initCbrBuffer 29970 3000000 3000000 (-1)).run stuffedPictures).i4Ebf ∧
      ((initCbrBuffer 29970 3000000 3000000 (-1)).run stuffedPictures).i4Ebf ≤ 3000000 := by
  have h := (cbrBuffer_exact 3000000 29970 3000000 (-1) (by decide) (by decide) stuffedPictures
    ⟨by decide, by decide, by decide, by decide, trivial⟩).1
  exact ⟨h.1, h.2.1⟩

end Libhevc.Encoder
