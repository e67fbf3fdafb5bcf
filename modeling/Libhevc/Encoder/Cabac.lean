import Libhevc.Common.CabacTables
import Libhevc.Encoder.Bitstream
import Libhevc.Lib.CarryChain
import Libhevc.Spec.Cabac

/-!
# The encoder's CABAC engine

`ihevce_cabac.c` and the inline functions of `ihevce_cabac.h`. The low end of
the interval has `u4_bits_gen + 9` bits and a carry; a byte leaves it when more
than 9 bits have been generated.
-/

namespace Libhevc.Encoder

open Memory

/-- `CABAC_OP_MODE` -/
inductive CabacOpMode
  | encodeBits
  | computeBits
  deriving DecidableEq, Repr

/-- `cab_ctxt_t` of the encoder. -/
structure CabCtxt where
  eCabacOpMode : CabacOpMode
  u4BitsEstimatedQ12 : Nat
  u4Range : Nat
  u4Low : Nat
  u4BitsGen : Nat
  u4OutStandingBytes : Nat
  pu1StrmBuffer : StrmBuffer
  u4MaxStrmSize : Nat
  u4StrmBufOffset : Nat
  i4ZeroBytesRun : Nat
  au1CtxtModels : Nat → Nat
  i1EntropyCodingSyncEnabledFlag : Nat
  u4FirstSliceStartOffset : Nat

def cabacBits : Nat := 9

def cabacFracBitsQ : Nat := 12

def CabCtxt.sink (c : CabCtxt) : ByteSink :=
  { ptr := c.pu1StrmBuffer, off := c.u4StrmBufOffset, zeroRun := c.i4ZeroBytesRun }

def CabCtxt.estimate (c : CabCtxt) (bits : Nat) : CabCtxt :=
  { c with u4BitsEstimatedQ12 := u32 (bits + c.u4BitsEstimatedQ12) }

/-- `ihevce_cabac_init`; `ctxts` is the row of `gau1_ihevc_cab_ctxts` for the slice QP and
`cabac_init_idc`. -/
def ihevceCabacInit (c : CabCtxt) (s : Bitstrm) (ctxts : Nat → Nat) (mode : CabacOpMode) :
    CabCtxt :=
  match mode with
  | .encodeBits =>
    { c with
      eCabacOpMode := mode
      pu1StrmBuffer := s.pu1StrmBuffer
      u4MaxStrmSize := s.u4MaxStrmSize
      u4StrmBufOffset :=
        if c.i1EntropyCodingSyncEnabledFlag = 1 then c.u4FirstSliceStartOffset
        else s.u4StrmBufOffset
      i4ZeroBytesRun := s.i4ZeroBytesRun
      u4Low := 0
      u4Range := 510
      u4BitsGen := 0
      u4OutStandingBytes := 0
      u4BitsEstimatedQ12 := 0
      au1CtxtModels := ctxts }
  | .computeBits =>
    { c with
      eCabacOpMode := mode
      u4BitsEstimatedQ12 := 0
      u4Range := 0
      au1CtxtModels := ctxts }

-- ---------------------------------------------------------------------------
-- Bytes
-- ---------------------------------------------------------------------------

/-- The byte before `off`, by `i`: the index is a `UWORD32`. -/
def ByteSink.before (s : ByteSink) (i : Nat) : Nat := s.ptr.mem (u32Sub s.off i)

/-- The last four bytes are zero, zero, an emulation prevention byte and a 3. -/
def ByteSink.CarryCheck (s : ByteSink) : Prop :=
  s.before 1 = 0x03 ∧ s.before 2 = 0x03 ∧ s.before 3 = 0x00 ∧ s.before 4 = 0x00

instance (s : ByteSink) : Decidable s.CarryCheck := inferInstanceAs (Decidable (_ ∧ _))

/-- A carry into the last byte. If it is a 3 behind an emulation prevention byte, the prevention
is no longer needed and the byte moves in its place. -/
def ByteSink.addCarry (s : ByteSink) : ByteSink :=
  let off := if s.CarryCheck then u32Sub s.off 1 else s.off
  { ptr := s.ptr.store (u32Sub off 1) (s.ptr.mem (u32Sub off 1) + 1), off, zeroRun := 0 }

/-- The carry, then the outstanding bytes. -/
def ByteSink.settle (s : ByteSink) (carry outStandingBytes : Nat) : ByteSink :=
  putBytes (if carry ≠ 0 then s.addCarry else s)
    (List.replicate outStandingBytes (if carry ≠ 0 then 0 else 0xFF))

/-- The room check of `ihevce_cabac_put_byte` and `ihevce_cabac_flush`. -/
def CabCtxt.NoRoom (c : CabCtxt) : Prop :=
  c.u4MaxStrmSize ≤ u32 (u32 (c.u4StrmBufOffset + c.u4OutStandingBytes) + 1)

instance (c : CabCtxt) : Decidable c.NoRoom := inferInstanceAs (Decidable (_ ≤ _))

def CabCtxt.leadByte (c : CabCtxt) : Nat := c.u4Low >>> (c.u4BitsGen + cabacBits - 8)

/-- The low end without the leading byte. -/
def CabCtxt.dropLead (c : CabCtxt) : CabCtxt :=
  { c with
    u4Low := c.u4Low &&& ((1 <<< (cabacBits + (c.u4BitsGen - 8))) - 1)
    u4BitsGen := c.u4BitsGen - 8 }

def CabCtxt.withSink (c : CabCtxt) (s : ByteSink) : CabCtxt :=
  { c with pu1StrmBuffer := s.ptr, u4StrmBufOffset := s.off, i4ZeroBytesRun := s.zeroRun }

def ihevceCabacPutByte (c : CabCtxt) : IhevceErrorT × CabCtxt :=
  if c.leadByte = 0xff then
    (.success, { c.dropLead with u4OutStandingBytes := u32 (c.u4OutStandingBytes + 1) })
  else if c.NoRoom then (.bitstreamBufferOverflow, c.dropLead)
  else
    let carry := (c.leadByte >>> 8) &&& 1
    let out := putbyteEpb (c.sink.settle carry c.u4OutStandingBytes) (c.leadByte &&& 0xFF)
    (.success, { c.dropLead.withSink out with u4OutStandingBytes := 0 })

/-- `if(u4_bits_gen > CABAC_BITS) return ihevce_cabac_put_byte()` -/
def CabCtxt.putReady (c : CabCtxt) : IhevceErrorT × CabCtxt :=
  if cabacBits < c.u4BitsGen then ihevceCabacPutByte c else (.success, c)

/-- The last bytes of a slice: the remaining bits, the stop bit and zeros. -/
def flushBytes (remBits bitsLeft : Nat) : List Nat :=
  let last (bitsLeft : Nat) := ((remBits <<< (8 - bitsLeft)) ||| (1 <<< (7 - bitsLeft))) &&& 0xFF
  if 8 ≤ bitsLeft then [(remBits >>> (bitsLeft - 8)) &&& 0xFF, last (bitsLeft - 8)]
  else [last bitsLeft]

def ihevceCabacFlush (c : CabCtxt) : IhevceErrorT × CabCtxt :=
  let carry := (c.u4Low >>> (c.u4BitsGen + cabacBits)) &&& 1
  if c.NoRoom then (.bitstreamBufferOverflow, c)
  else
    let u4Low := c.u4Low &&& ((1 <<< (c.u4BitsGen + cabacBits)) - 1)
    let bitsLeft := c.u4BitsGen + 1
    let remBits := u4Low >>> (c.u4BitsGen + cabacBits - bitsLeft)
    let out := putBytes (c.sink.settle carry c.u4OutStandingBytes) (flushBytes remBits bitsLeft)
    (.success, { c.withSink out with i4ZeroBytesRun := 0 })

-- ---------------------------------------------------------------------------
-- Bins
-- ---------------------------------------------------------------------------

/-- The new interval, scaled by `shift`. -/
def CabCtxt.scale (c : CabCtxt) (u4Low u4Range shift : Nat) : CabCtxt :=
  { c with
    u4Low := u32 (u4Low <<< shift)
    u4Range := u32 (u4Range <<< shift)
    u4BitsGen := u32 (c.u4BitsGen + shift) }

/-- The context after a bin, before a byte is put: the interval of the bin, scaled. -/
def CabCtxt.narrowBin (c : CabCtxt) (bin ctxtIndex : Nat) : CabCtxt :=
  let stateMps := c.au1CtxtModels ctxtIndex
  let u4Rlps := gau1IhevcCabacRlps (stateMps >>> 1) ((c.u4Range >>> 6) &&& 3)
  let u4Range := u32Sub c.u4Range u4Rlps
  if (stateMps &&& 1) ^^^ bin ≠ 0 then
    c.scale (u32 (c.u4Low + u4Range)) u4Rlps (9 - getRange u4Rlps)
  else c.scale c.u4Low u4Range (9 - getRange u4Range)

def CabCtxt.updateModel (c : CabCtxt) (bin ctxtIndex : Nat) : CabCtxt :=
  { c with
    au1CtxtModels := set c.au1CtxtModels ctxtIndex
      (gau1IhevcNextState ((c.au1CtxtModels ctxtIndex <<< 1) ||| bin)) }

def ihevceCabacEncodeBin (c : CabCtxt) (bin ctxtIndex : Nat) : IhevceErrorT × CabCtxt :=
  let c' := c.estimate (gau2IhevceCabacBinToBits (c.au1CtxtModels ctxtIndex ^^^ bin))
  match c.eCabacOpMode with
  | .encodeBits => ((c'.narrowBin bin ctxtIndex).updateModel bin ctxtIndex).putReady
  | .computeBits => (.success, c'.updateModel bin ctxtIndex)

def ihevceCabacEncodeBypassBin (c : CabCtxt) (bin : Nat) : IhevceErrorT × CabCtxt :=
  let c := c.estimate (1 <<< cabacFracBitsQ)
  match c.eCabacOpMode with
  | .encodeBits =>
    let u4Low := u32 (c.u4Low <<< 1)
    { c with
      u4Low := if bin ≠ 0 then u32 (u4Low + c.u4Range) else u4Low
      u4BitsGen := u32 (c.u4BitsGen + 1) }.putReady
  | .computeBits => (.success, c)

/-- `n` bypass bins at once, before a byte is put. -/
def CabCtxt.append (c : CabCtxt) (nextByte n : Nat) : CabCtxt :=
  { c with
    u4Low := u32 (u32 (c.u4Low <<< n) + nextByte * c.u4Range)
    u4BitsGen := u32 (c.u4BitsGen + n) }

/-- The step of `ihevce_cabac_encode_bypass_bins`. -/
def CabCtxt.appendBins (c : CabCtxt) (nextByte n : Nat) : IhevceErrorT × CabCtxt :=
  (c.append nextByte n).putReady

/-- `while(num_bins > 8)`, 8 bins at a time, and the bins that remain; `rounds` bounds the
number of turns. -/
def bypassBinsLoop (u4Bins : Nat) : Nat → Nat → CabCtxt → IhevceErrorT × CabCtxt
  | 0, numBins, c => c.appendBins (u4Bins &&& ((1 <<< numBins) - 1)) numBins
  | rounds + 1, numBins, c =>
    if 8 < numBins then
      let r := c.appendBins ((u4Bins >>> (numBins - 8)) &&& 0xff) 8
      let rest := bypassBinsLoop u4Bins rounds (numBins - 8) r.2
      (r.1.or rest.1, rest.2)
    else c.appendBins (u4Bins &&& ((1 <<< numBins) - 1)) numBins

def ihevceCabacEncodeBypassBins (c : CabCtxt) (u4Bins numBins : Nat) : IhevceErrorT × CabCtxt :=
  let c := c.estimate (numBins <<< cabacFracBitsQ)
  match c.eCabacOpMode with
  | .encodeBits => bypassBinsLoop u4Bins numBins numBins c
  | .computeBits => (.success, c)

/-- The interval of a terminating bin, scaled. -/
def CabCtxt.part (c : CabCtxt) (termBin : Nat) : CabCtxt :=
  let u4Range := u32Sub c.u4Range 2
  let u4Low := if termBin ≠ 0 then u32 (c.u4Low + u4Range) else c.u4Low
  let u4Range := if termBin ≠ 0 then 2 else u4Range
  c.scale u4Low u4Range (9 - getRange u4Range)

/-- `ihevce_cabac_encode_terminate` before the flush. -/
def CabCtxt.narrowTerminate (c : CabCtxt) (termBin : Nat) : IhevceErrorT × CabCtxt :=
  (c.part termBin).putReady

/-- `ihevce_cabac_encode_terminate`: what the flush returns is not looked at. -/
def ihevceCabacEncodeTerminate (c : CabCtxt) (termBin : Nat) : IhevceErrorT × CabCtxt :=
  let r := c.narrowTerminate termBin
  let c' := if termBin ≠ 0 then (ihevceCabacFlush r.2).2 else r.2
  (r.1, c'.estimate (gau2IhevceCabacBinToBits (62 <<< 1 ||| termBin)))

end Libhevc.Encoder

/-!
## The registers of the encoder's engine

`u4_low`, the outstanding bytes and the bytes put so far are the low end of the
plain coder's interval. Nothing here looks at the stream buffer.
-/

namespace Libhevc.Encoder

open Memory BitString CarryChain RangeCoder Spec

/-- The context stands for the plain coder `k`: the digits and `u4_low` are its low end. -/
structure Counts (c : CabCtxt) (d : Digits) (k : Coder) : Prop where
  mode : c.eCabacOpMode = .encodeBits
  outstanding : c.u4OutStandingBytes = d.outstanding
  low : k.interval.low = d.value * 2 ^ (c.u4BitsGen + 9) + c.u4Low
  range : c.u4Range = k.interval.range
  bits : k.interval.bits = 8 * d.length + c.u4BitsGen
  fits : Fits d c.u4Low c.u4Range (c.u4BitsGen + 9)
  models : c.au1CtxtModels = k.models

theorem and_low (x n : Nat) : x &&& ((1 <<< n) - 1) = x % 2 ^ n := by
  rw [Nat.one_shiftLeft, Nat.and_two_pow_sub_one_eq_mod]

theorem and_byte (x : Nat) : x &&& 0xFF = x % 256 := Nat.and_two_pow_sub_one_eq_mod x 8

/-- The bit above `n` bits, where no other bit is set above them. -/
theorem top_bit (h : x < 2 * 2 ^ n) : (x >>> n) &&& 1 = (decide (2 ^ n ≤ x)).toNat := by
  have hpos := Nat.two_pow_pos n
  rw [Nat.and_one_is_mod, Nat.shiftRight_eq_div_pow]
  by_cases hc : 2 ^ n ≤ x
  · rw [decide_eq_true hc, Bool.toNat_true, Nat.div_eq_of_lt_le (k := 1) (by omega) (by omega)]
  · rw [decide_eq_false hc, Bool.toNat_false, Nat.div_eq_of_lt (by omega)]

theorem counts_init (c : CabCtxt) (s : Bitstrm) (models : Nat → Nat) :
    Counts (ihevceCabacInit c s models .encodeBits) { bytes := [], outstanding := 0 }
      (Coder.init models) := by
  refine ⟨rfl, rfl, ?_, rfl, rfl, ⟨?_, fun _ => ?_⟩, rfl⟩
  · have hvalue : Digits.value { bytes := [], outstanding := 0 } = 0 := rfl
    rw [hvalue, Nat.zero_mul]
    rfl
  · exact (by decide : 0 + 510 ≤ 2 * 2 ^ (0 + 9))
  · exact (by decide : 0 + 510 ≤ 2 ^ (0 + 9))

-- ---------------------------------------------------------------------------
-- The leading byte
-- ---------------------------------------------------------------------------

/-- The leading byte with its carry, and the carry has a byte to go into. -/
theorem Counts.lead (h : Counts c d k) (hgen : 9 < c.u4BitsGen) (hr : 0 < c.u4Range) :
    c.leadByte < 512 ∧ (256 ≤ c.leadByte → ¬d.Full) := by
  obtain ⟨g, hg⟩ : ∃ g, c.u4BitsGen = g + 8 := ⟨c.u4BitsGen - 8, by omega⟩
  have hfits := h.fits
  rw [hg, show g + 8 + 9 = g + 9 + 8 by omega] at hfits
  have hlead : c.leadByte = c.u4Low / 2 ^ (g + 9) := by
    rw [CabCtxt.leadByte, hg, Nat.shiftRight_eq_div_pow]
    rfl
  rw [hlead]
  exact ⟨hfits.lead_lt hr, hfits.lead_carry hr⟩

/-- The leading byte moves to the digits; the interval stays. -/
theorem Counts.push (h : Counts c d k) (hgen : 9 < c.u4BitsGen) (hr : 0 < c.u4Range)
    (hr512 : c.u4Range < 512) :
    Counts { c.dropLead with u4OutStandingBytes := (d.push c.leadByte).outstanding }
      (d.push c.leadByte) k := by
  obtain ⟨-, hcarry⟩ := h.lead hgen hr
  obtain ⟨hmode, hout, hlow, hrange, hkbits, hfits, hmodels⟩ := h
  obtain ⟨g, hg⟩ : ∃ g, c.u4BitsGen = g + 8 := ⟨c.u4BitsGen - 8, by omega⟩
  rw [hg, show g + 8 + 9 = g + 9 + 8 by omega] at hfits hlow
  have hle : c.u4Range ≤ 2 ^ (g + 9) := by
    have := Nat.pow_le_pow_right (n := 2) (by decide) (show 9 ≤ g + 9 by omega)
    omega
  have hvalue := hfits.value_push hr
  have hlength := length_push hcarry
  have hlead : c.leadByte = c.u4Low / 2 ^ (g + 9) := by
    rw [CabCtxt.leadByte, hg, Nat.shiftRight_eq_div_pow]
    rfl
  have hdropLow : c.dropLead.u4Low = c.u4Low % 2 ^ (g + 9) := by
    simp only [CabCtxt.dropLead, and_low, hg]
    rw [Nat.add_comm cabacBits]
    rfl
  have hdropGen : c.dropLead.u4BitsGen = g := by
    simp only [CabCtxt.dropLead, hg, Nat.add_sub_cancel]
  refine ⟨hmode, rfl, ?_, hrange, ?_, ?_, hmodels⟩
  · change _ = _ * 2 ^ (c.dropLead.u4BitsGen + 9) + c.dropLead.u4Low
    rw [hlead, hdropGen, hdropLow, hvalue, hlow]
  · change _ = 8 * (d.push c.leadByte).length + c.dropLead.u4BitsGen
    rw [hlength, hdropGen, hkbits]
    omega
  · change Fits _ c.dropLead.u4Low _ (c.dropLead.u4BitsGen + 9)
    rw [hlead, hdropGen, hdropLow]
    exact hfits.push hr hle

-- ---------------------------------------------------------------------------
-- The interval before a byte is put
-- ---------------------------------------------------------------------------

theorem Counts.estimate (h : Counts c d k) : Counts (c.estimate e) d k :=
  ⟨h.mode, h.outstanding, h.low, h.range, h.bits, h.fits, h.models⟩

theorem Counts.updateModel (h : Counts c d k) (ctxt : Nat) (hbin : bin < 2) :
    Counts (c.updateModel bin ctxt) d
      { k with models := set k.models ctxt (nextModel (k.models ctxt) bin) } := by
  refine ⟨h.mode, h.outstanding, h.low, h.range, h.bits, h.fits, ?_⟩
  simp only [CabCtxt.updateModel, h.models, nextModel_eq hbin]

/-- Taking a part of the interval and scaling it. -/
theorem Counts.narrowScale (h : Counts c d k) (lo width n : Nat) (hgen : c.u4BitsGen ≤ 9)
    (hn : n ≤ 8) (hle : lo + width ≤ c.u4Range) :
    Counts (c.scale (c.u4Low + lo) width n) d
      { k with interval := (k.interval.narrow lo width).scale n } := by
  obtain ⟨hmode, hout, hlow, hrange, hkbits, hfits, hmodels⟩ := h
  have hfits' := (hfits.narrow hle).scale (n := n)
  have hpow := Nat.pow_le_pow_right (n := 2) (by decide) (show c.u4BitsGen + 9 + n ≤ 26 by omega)
  have hsum := hfits'.sum
  have hgen' : u32 (c.u4BitsGen + n) = c.u4BitsGen + n := u32_of_lt (by omega)
  have hlow' : u32 ((c.u4Low + lo) <<< n) = (c.u4Low + lo) * 2 ^ n := by
    rw [Nat.shiftLeft_eq, u32_of_lt (by omega)]
  have hrange' : u32 (width <<< n) = width * 2 ^ n := by
    rw [Nat.shiftLeft_eq, u32_of_lt (by omega)]
  refine ⟨hmode, hout, ?_, ?_, ?_, ?_, hmodels⟩
  · simp only [CabCtxt.scale, hgen', hlow', Interval.narrow, Interval.scale, hlow]
    ring
  · simp only [CabCtxt.scale, hrange', Interval.narrow, Interval.scale]
  · simp only [CabCtxt.scale, hgen', Interval.narrow, Interval.scale, hkbits, Nat.add_assoc]
  · simp only [CabCtxt.scale, hgen', hlow', hrange']
    rwa [Nat.add_right_comm]

theorem shift_eq (hr : 0 < r) (h : r < 512) : 9 - getRange r = renormShift r := by
  rw [getRange, if_neg (by omega), renormShift]
  omega

theorem scale_gen (c : CabCtxt) (low range : Nat) (hgen : c.u4BitsGen ≤ 9) (hn : n ≤ 8) :
    (c.scale low range n).u4BitsGen ≤ 17 := by
  simp only [CabCtxt.scale]
  rw [u32_of_lt (by omega)]
  omega

/-- A bin takes the part of its symbol. -/
theorem Counts.narrowBin (h : Counts c d k) (hk : k.Ok) (hgen : c.u4BitsGen ≤ 9)
    (hctxt : ctxt < ihevcCabCtxtEnd) :
    Counts (c.narrowBin bin ctxt) d { k.codeBin ctxt bin with models := k.models } ∧
      (c.narrowBin bin ctxt).u4BitsGen ≤ 17 := by
  obtain ⟨hlow, hhigh⟩ := hk.range
  have hrange := h.range
  have hqnt : (c.u4Range >>> 6) &&& 3 = k.interval.range / 64 % 4 := by
    rw [hrange, Nat.shiftRight_eq_div_pow]
    exact Nat.and_two_pow_sub_one_eq_mod _ 2
  obtain ⟨h6, hle⟩ := lpsRange_bounds (hk.models ctxt hctxt) ⟨hlow, hhigh⟩
  have hmodel : c.au1CtxtModels ctxt = k.models ctxt := congrFun h.models ctxt
  have hlps : gau1IhevcCabacRlps (k.models ctxt >>> 1) (k.interval.range / 64 % 4) =
      lpsRange (k.models ctxt) k.interval.range := rfl
  have hxor : (k.models ctxt &&& 1) ^^^ bin ≠ 0 ↔ bin ≠ k.models ctxt % 2 := by
    rw [Nat.and_one_is_mod, Ne, Nat.xor_eq_zero_iff, eq_comm]
  generalize hl : lpsRange (k.models ctxt) k.interval.range = l at *
  unfold CabCtxt.narrowBin Coder.codeBin
  dsimp only
  rw [hmodel, hqnt, hlps, hl, u32Sub_of_le (by omega) (by omega)]
  by_cases hmps : bin = k.models ctxt % 2
  · rw [if_neg (mt hxor.mp (by simpa using hmps)), if_pos hmps, hrange,
      shift_eq (by omega) (by omega)]
    have hn : renormShift (k.interval.range - l) ≤ 8 := Nat.sub_le ..
    exact ⟨h.narrowScale 0 _ _ hgen hn (by omega), scale_gen _ _ _ hgen hn⟩
  · have hn : renormShift l ≤ 8 := Nat.sub_le ..
    have hsum := h.fits.sum
    have hpow := Nat.pow_le_pow_right (n := 2) (by decide) (show c.u4BitsGen + 9 ≤ 18 by omega)
    rw [if_pos (hxor.mpr hmps), if_neg hmps, shift_eq (by omega) (by omega),
      u32_of_lt (by omega), hrange]
    exact ⟨h.narrowScale (k.interval.range - l) _ _ hgen hn (by omega), scale_gen _ _ _ hgen hn⟩

/-- Bypass bins, at most 8, are coded as one digit. -/
theorem Counts.append (h : Counts c d k) (hgen : c.u4BitsGen ≤ 9) (hn : n ≤ 8) (hv : v < 2 ^ n) :
    Counts (c.append v n) d (k.codeBypassBins n v) ∧ (c.append v n).u4BitsGen ≤ 17 := by
  obtain ⟨hmode, hout, hlow, hrange, hkbits, hfits, hmodels⟩ := h
  have hwidth : v * c.u4Range + c.u4Range ≤ c.u4Range * 2 ^ n := by
    have hmul := Nat.mul_le_mul_right c.u4Range hv
    rwa [Nat.succ_mul, Nat.mul_comm (2 ^ n)] at hmul
  have hfits' := (hfits.scale (n := n)).narrow hwidth
  have hsum := hfits'.sum
  have hpow := Nat.pow_le_pow_right (n := 2) (by decide) (show c.u4BitsGen + 9 + n ≤ 26 by omega)
  have hgen' : u32 (c.u4BitsGen + n) = c.u4BitsGen + n := u32_of_lt (by omega)
  have hlow' : u32 (u32 (c.u4Low <<< n) + v * c.u4Range) = c.u4Low * 2 ^ n + v * c.u4Range := by
    rw [Nat.shiftLeft_eq, u32_of_lt (x := c.u4Low * 2 ^ n) (by omega), u32_of_lt (by omega)]
  unfold CabCtxt.append
  rw [hgen', hlow']
  refine ⟨⟨hmode, hout, ?_, hrange, ?_, ?_, hmodels⟩, ?_⟩
  · simp only [Coder.codeBypassBins, Interval.scale, Interval.narrow, hlow, hrange]
    ring
  · simp only [Coder.codeBypassBins, Interval.scale, Interval.narrow, hkbits, Nat.add_assoc]
  · simp only
    rwa [Nat.add_right_comm]
  · dsimp only
    omega

/-- The interval of a terminating bin, scaled to 9 bits. -/
def terminated (k : Coder) (bin : Nat) : Coder :=
  if bin = 1 then { k with interval := (k.codeTerminate 1).interval.scale 7 }
  else k.codeTerminate 0

theorem terminated_normal (hk : k.Ok) (hbin : bin < 2) :
    Normal (terminated k bin).interval.range := by
  obtain ⟨hlow, hhigh⟩ := hk.range
  obtain rfl | rfl : bin = 0 ∨ bin = 1 := by omega
  · exact part_range (by omega) (by omega)
  · exact (by decide : 256 ≤ 2 * 2 ^ 7 ∧ 2 * 2 ^ 7 < 512)

theorem Counts.part (h : Counts c d k) (hk : k.Ok) (hgen : c.u4BitsGen ≤ 9) (hbin : bin < 2) :
    Counts (c.part bin) d (terminated k bin) ∧ (c.part bin).u4BitsGen ≤ 17 := by
  obtain ⟨hlow, hhigh⟩ := hk.range
  have hrange := h.range
  have hsum := h.fits.sum
  have hpow := Nat.pow_le_pow_right (n := 2) (by decide) (show c.u4BitsGen + 9 ≤ 18 by omega)
  unfold CabCtxt.part
  rw [u32Sub_of_le (by omega) (by omega)]
  obtain rfl | rfl : bin = 0 ∨ bin = 1 := by omega
  · simp only [ne_eq, not_true_eq_false, if_false]
    have hn : renormShift (c.u4Range - 2) ≤ 8 := Nat.sub_le ..
    rw [shift_eq (by omega) (by omega)]
    have hnarrow := h.narrowScale 0 (c.u4Range - 2) _ hgen hn (by omega)
    rw [hrange] at hnarrow hn ⊢
    exact ⟨hnarrow, scale_gen _ _ _ hgen hn⟩
  · simp only [ne_eq, one_ne_zero, not_false_eq_true, if_true]
    rw [u32_of_lt (by omega)]
    have hnarrow := h.narrowScale (c.u4Range - 2) 2 7 hgen (by decide) (by omega)
    rw [hrange] at hnarrow ⊢
    exact ⟨hnarrow, scale_gen _ _ _ hgen (by decide)⟩

end Libhevc.Encoder
