import Libhevc.Lib.Memory
import Libhevc.Lib.Segments

/-!
# The NAL units of an access unit

`ihevce_entropy_encode_frame`, as far as it counts bytes and NAL units. What a
generator writes behind its start code, and what the arithmetic coder writes
behind a slice header, are the byte strings of the access unit. Pointers are
addresses in the output buffer.
-/

namespace Libhevc.Encoder

open Memory

def maxNalsInAu : Nat := 256

def maxNumPrefixNalsPerAu : Nat := 20

def maxNumSuffixNalsPerAu : Nat := 20

def maxNumVclNalsPerAu : Nat := 200

-- ---------------------------------------------------------------------------
-- The bitstream context
-- ---------------------------------------------------------------------------

/-- What the accounting reads of `bitstrm_t`, with the memory behind it. The entries of
`apu1_nal_start` below `i4_num_nal` are a list. -/
structure AuBitstrm where
  mem : Nat → Nat
  pu1StrmBuffer : Nat
  u4MaxStrmSize : Nat
  u4StrmBufOffset : Nat
  apu1NalStart : List Nat

/-- `ihevce_bitstrm_init`. The NAL units counted so far stay. -/
def AuBitstrm.init (s : AuBitstrm) (pu1BitstrmBuf u4MaxBitstrmSize : Nat) : AuBitstrm :=
  { s with
    pu1StrmBuffer := pu1BitstrmBuf
    u4MaxStrmSize := u4MaxBitstrmSize
    u4StrmBufOffset := 0 }

/-- Bytes written at the offset, `none` where the buffer overflows. -/
def AuBitstrm.put (s : AuBitstrm) (bytes : List Nat) : Option AuBitstrm :=
  if s.u4MaxStrmSize < s.u4StrmBufOffset + bytes.length then none
  else
    some { s with
      mem := copy s.mem (s.pu1StrmBuffer + s.u4StrmBufOffset) bytes
      u4StrmBufOffset := s.u4StrmBufOffset + bytes.length }

/-- The start code with its leading zero byte. -/
def nalStartCode : List Nat := [0x00, 0x00, 0x00, 0x01]

def ihevcePutNalStartCodePrefix (s : AuBitstrm) : Option AuBitstrm :=
  let apu1NalStart :=
    if s.apu1NalStart.length < maxNalsInAu then
      s.apu1NalStart ++ [s.pu1StrmBuffer + s.u4StrmBufOffset]
    else s.apu1NalStart
  { s with apu1NalStart }.put nalStartCode

/-- A NAL unit: the start code, then its bytes. -/
def generateNal (s : AuBitstrm) (bytes : List Nat) : Option AuBitstrm := do
  let s ← ihevcePutNalStartCodePrefix s
  s.put bytes

-- ---------------------------------------------------------------------------
-- The access unit
-- ---------------------------------------------------------------------------

/-- A slice NAL unit. With entropy sync the header is written twice, and the room kept for the
second time holds it. -/
inductive Slice where
  | plain (header data : List Nat)
  | sync (header placeholder data entryPoints : List Nat) (gap : Nat)
    (room : entryPoints.length ≤ gap)

def Slice.isSync : Slice → Bool
  | .plain .. => false
  | .sync .. => true

/-- The flags that ask for a NAL unit, and what each NAL unit holds behind its start code. The
entry points of entropy sync are those of all rows of the picture, and the configuration check
admits neither slice segments nor tiles, so a slice with entropy sync is the only one. -/
structure AccessUnit where
  isISlice : Bool
  nalType : Nat
  i4SpsAtCdrEnable : Bool
  i1AudPresentFlag : Bool
  i1SeiParametersPresentFlag : Bool
  i1BufPeriodParamsPresentFlag : Bool
  i1PicTimingParamsPresentFlag : Bool
  i1RecoveryPointParamsPresentFlag : Bool
  i4SeiMasteringDispColourVolParamsPresentFlags : Bool
  u4NumSeiPayload : Nat
  i1SeiCllEnable : Bool
  i1DecodedPicHashSeiFlag : Nat
  i1EosPresentFlag : Bool
  i4IsEndOfIdrGop : Bool
  aud : List Nat
  vps : List Nat
  sps : List Nat
  pps : List Nat
  activeParameterSetsSei : List Nat
  seiMessages : List Nat
  hashSei : List Nat
  eos : List Nat
  firstSlice : Slice
  slices : List Slice
  syncAlone : firstSlice.isSync → slices = []
  restPlain : ∀ slice ∈ slices, slice.isSync = false

def nalIdrWLp : Nat := 19

def nalIdrNLp : Nat := 20

def nalCra : Nat := 21

/-- `insert_vps_sps_pps` -/
def AccessUnit.insertVpsSpsPps (au : AccessUnit) : Bool :=
  if au.i4SpsAtCdrEnable then
    au.isISlice && (au.nalType == nalIdrNLp || au.nalType == nalCra || au.nalType == nalIdrWLp)
  else au.isISlice && (au.nalType == nalIdrNLp || au.nalType == nalIdrWLp)

/-- `i4_insert_prefix_sei`, where SEI parameters are present. -/
def AccessUnit.insertPrefixSei (au : AccessUnit) : Bool :=
  au.i1SeiParametersPresentFlag &&
    (au.i1BufPeriodParamsPresentFlag || au.i1PicTimingParamsPresentFlag ||
      au.i1RecoveryPointParamsPresentFlag ||
      au.i4SeiMasteringDispColourVolParamsPresentFlags ||
      au.u4NumSeiPayload != 0 || au.i1SeiCllEnable)

/-- The hash SEI is generated. -/
def AccessUnit.insertHashSei (au : AccessUnit) : Bool :=
  au.i1SeiParametersPresentFlag && au.i1DecodedPicHashSeiFlag != 0

/-- The end of sequence is generated. -/
def AccessUnit.insertEos (au : AccessUnit) : Bool :=
  au.i1EosPresentFlag && au.i4IsEndOfIdrGop

-- ---------------------------------------------------------------------------
-- Generators
-- ---------------------------------------------------------------------------

def ihevceGenerateAud (s : AuBitstrm) (au : AccessUnit) : Option AuBitstrm := generateNal s au.aud

def ihevceGenerateVps (s : AuBitstrm) (au : AccessUnit) : Option AuBitstrm := generateNal s au.vps

def ihevceGenerateSps (s : AuBitstrm) (au : AccessUnit) : Option AuBitstrm := generateNal s au.sps

def ihevceGeneratePps (s : AuBitstrm) (au : AccessUnit) : Option AuBitstrm := generateNal s au.pps

def ihevceGenerateEos (s : AuBitstrm) (au : AccessUnit) : Option AuBitstrm := generateNal s au.eos

/-- `ihevce_generate_sei` with `NAL_PREFIX_SEI`: the active parameter sets get a NAL unit of
their own. -/
def ihevceGeneratePrefixSei (s : AuBitstrm) (au : AccessUnit) : Option AuBitstrm :=
  if au.i1BufPeriodParamsPresentFlag then do
    let s ← generateNal s au.activeParameterSetsSei
    generateNal s au.seiMessages
  else generateNal s au.seiMessages

/-- `ihevce_generate_sei` with `NAL_SUFFIX_SEI`. -/
def ihevceGenerateSuffixSei (s : AuBitstrm) (au : AccessUnit) : Option AuBitstrm :=
  generateNal s au.hashSei

/-- Slice header and slice data, with the count of bytes read from the arithmetic coder, or from
the second bitstream context where the entry points were inserted. -/
def encodeSlice (s : AuBitstrm) : Slice → Option (AuBitstrm × Nat)
  | .plain header data => do
    let s ← generateNal s header
    let cabac ← s.put data
    some ({ s with mem := cabac.mem }, cabac.u4StrmBufOffset)
  | .sync header placeholder data entryPoints gap _ => do
    let s ← generateNal s header
    let dup := s
    let s ← s.put placeholder
    let u4FirstSliceStartOffset := dup.u4StrmBufOffset + gap
    let cabac ← { s with u4StrmBufOffset := u4FirstSliceStartOffset }.put data
    -- `ihevce_insert_entry_offset_slice_header`: the one slice of the picture spans all its rows
    let dup ← { dup with mem := cabac.mem }.put entryPoints
    let numBytesShift := cabac.u4StrmBufOffset - u4FirstSliceStartOffset
    let sliceData := cells dup.mem (dup.pu1StrmBuffer + u4FirstSliceStartOffset) numBytesShift
    let mem := copy dup.mem (dup.pu1StrmBuffer + dup.u4StrmBufOffset) sliceData
    some ({ s with mem }, dup.u4StrmBufOffset + numBytesShift)

/-- One pass of the slice loop on the context and `i4_bytes_generated`. -/
def sliceStep (outBufSize : Nat) (st : AuBitstrm × Nat) (slice : Slice) :
    Option (AuBitstrm × Nat) := do
  let (s, bytes) ← encodeSlice st.1 slice
  let i4BytesGenerated := st.2 + bytes
  some (s.init (s.pu1StrmBuffer + bytes) (outBufSize - i4BytesGenerated), i4BytesGenerated)

-- ---------------------------------------------------------------------------
-- Sizes
-- ---------------------------------------------------------------------------

/-- The loop that fills one of the tables of NAL unit sizes, `endPtr` the place behind the last
byte written. -/
def populateNalSizes (s : AuBitstrm) (first num maxNals : Nat) : List Nat :=
  (List.range (min num maxNals)).map fun ctr =>
    let u8CurNalStart := s.apu1NalStart.getD (first + ctr) 0
    let u8NextNalStart :=
      if ctr + 1 < num then s.apu1NalStart.getD (first + ctr + 1) 0
      else s.pu1StrmBuffer + s.u4StrmBufOffset
    u8NextNalStart - u8CurNalStart

/-- What `iv_output_data_buffs_t` reports, with the context the frame leaves. -/
structure AuOutput where
  bitstrm : AuBitstrm
  i4BytesGenerated : Nat
  ai4SizeNonVclPrefixNals : List Nat
  ai4SizeVclNals : List Nat
  ai4SizeNonVclSuffixNals : List Nat

def encodeAud (s : AuBitstrm) (au : AccessUnit) : Option AuBitstrm :=
  if au.i1AudPresentFlag then ihevceGenerateAud s au else some s

def encodeParameterSets (s : AuBitstrm) (au : AccessUnit) : Option AuBitstrm :=
  if au.insertVpsSpsPps then do
    let s ← ihevceGenerateVps s au
    let s ← ihevceGenerateSps s au
    ihevceGeneratePps s au
  else some s

def encodePrefixSei (s : AuBitstrm) (au : AccessUnit) : Option AuBitstrm :=
  if au.insertPrefixSei then ihevceGeneratePrefixSei s au else some s

/-- The suffix SEI on the context and `i4_bytes_generated`: counted even where it is not
generated. -/
def encodeSuffixSei (st : AuBitstrm × Nat) (au : AccessUnit) : Option (AuBitstrm × Nat) :=
  if au.i1SeiParametersPresentFlag then
    (if au.i1DecodedPicHashSeiFlag ≠ 0 then ihevceGenerateSuffixSei st.1 au else some st.1).bind
      fun s => some (s, st.2 + s.u4StrmBufOffset)
  else some st

def encodeEos (st : AuBitstrm × Nat) (au : AccessUnit) : Option (AuBitstrm × Nat) :=
  if au.insertEos then do
    let s ← ihevceGenerateEos st.1 au
    some (s, st.2 + s.u4StrmBufOffset)
  else some st

def ihevceEntropyEncodeFrame (mem : Nat → Nat) (au : AccessUnit) (outBufSize : Nat) :
    Option AuOutput := do
  let s := { mem, pu1StrmBuffer := 0, u4MaxStrmSize := outBufSize, u4StrmBufOffset := 0
             apu1NalStart := [] }
  let s ← encodeAud s au
  let s ← encodeParameterSets s au
  let s ← encodePrefixSei s au
  let numNonVclPrefixNals := s.apu1NalStart.length
  let prefixSizes := populateNalSizes s 0 numNonVclPrefixNals maxNumPrefixNalsPerAu
  let st ← (au.firstSlice :: au.slices).foldlM (sliceStep outBufSize) (s, 0)
  let numVclNals := st.1.apu1NalStart.length - numNonVclPrefixNals
  let vclSizes := populateNalSizes st.1 numNonVclPrefixNals numVclNals maxNumVclNalsPerAu
  let st' ← encodeSuffixSei st au
  let (s, i4BytesGenerated) ← encodeEos st' au
  let nonVclSuffixStart := numNonVclPrefixNals + numVclNals
  let numNonVclSuffixNals := s.apu1NalStart.length - nonVclSuffixStart
  some
    { bitstrm := s
      i4BytesGenerated
      ai4SizeNonVclPrefixNals := prefixSizes
      ai4SizeVclNals := vclSizes
      ai4SizeNonVclSuffixNals :=
        populateNalSizes s nonVclSuffixStart numNonVclSuffixNals maxNumSuffixNalsPerAu }

end Libhevc.Encoder
