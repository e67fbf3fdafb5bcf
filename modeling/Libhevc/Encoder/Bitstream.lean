import Libhevc.Common.Platform

/-!
# The encoder's bitstream writer

`ihevce_bitstream.c`. The stream buffer is the memory behind `pu1_strm_buffer`;
it also remembers the index of every byte store, the latest first, so that
safety can be stated. Indices are `UWORD32` and never checked by the memory.
-/

namespace Libhevc.Encoder

open Memory

/-- The error codes the bitstream functions return. -/
inductive IhevceErrorT
  | success
  | bitstreamBufferOverflow
  deriving DecidableEq, Repr

/-- `error |= e` -/
def IhevceErrorT.or : IhevceErrorT → IhevceErrorT → IhevceErrorT
  | .success, e => e
  | .bitstreamBufferOverflow, _ => .bitstreamBufferOverflow

@[simp] theorem IhevceErrorT.or_eq_success :
    IhevceErrorT.or e e' = .success ↔ e = .success ∧ e' = .success := by
  cases e <;> simp [IhevceErrorT.or]

-- ---------------------------------------------------------------------------
-- Byte stores
-- ---------------------------------------------------------------------------

structure StrmBuffer where
  mem : Nat → Nat
  stores : List Nat

/-- A store of a `UWORD8`. -/
def StrmBuffer.store (b : StrmBuffer) (off byte : Nat) : StrmBuffer :=
  { mem := set b.mem off (byte % 256), stores := off :: b.stores }

/-- The variables `PUTBYTE_EPB` works on. -/
structure ByteSink where
  ptr : StrmBuffer
  off : Nat
  zeroRun : Nat

def epbZeroBytes : Nat := 2

def epbByte : Nat := 0x03

/-- `INSERT_EPB` -/
def insertEpb (zeroRun nextByte : Nat) : Bool :=
  zeroRun == epbZeroBytes && (nextByte &&& 0xFC) == 0

def ByteSink.put (s : ByteSink) (byte : Nat) : ByteSink :=
  { ptr := s.ptr.store s.off byte
    off := u32 (s.off + 1)
    zeroRun := if byte = 0 then s.zeroRun + 1 else 0 }

/-- `PUTBYTE_EPB` -/
def putbyteEpb (s : ByteSink) (byte : Nat) : ByteSink :=
  let s :=
    if insertEpb s.zeroRun byte then
      { ptr := s.ptr.store s.off epbByte, off := u32 (s.off + 1), zeroRun := 0 }
    else s
  s.put byte

/-- `PUTBYTE_EPB` of several bytes in turn. -/
def putBytes (s : ByteSink) (l : List Nat) : ByteSink := l.foldl putbyteEpb s

/-- The first `n` bytes of a 32-bit word, in the order of the loop
`for(i = WORD_SIZE; i > WORD_SIZE - 8 * n; i -= 8)`. -/
def wordBytes (word n : Nat) : List Nat :=
  (List.range n).map fun j => (word >>> (32 - 8 * j - 8)) &&& 0xFF

-- ---------------------------------------------------------------------------
-- The bitstream context
-- ---------------------------------------------------------------------------

/-- `bitstrm_t` of the encoder. -/
structure Bitstrm where
  pu1StrmBuffer : StrmBuffer
  u4MaxStrmSize : Nat
  u4StrmBufOffset : Nat
  u4CurWord : Nat
  i4BitsLeftInCw : Nat
  i4ZeroBytesRun : Nat

/-- The stream variables of a bitstream context. -/
def Bitstrm.sink (s : Bitstrm) : ByteSink :=
  { ptr := s.pu1StrmBuffer, off := s.u4StrmBufOffset, zeroRun := s.i4ZeroBytesRun }

def ihevceBitstrmInit (mem : Nat → Nat) (u4MaxBitstrmSize : Nat) : Bitstrm :=
  { pu1StrmBuffer := { mem, stores := [] }
    u4MaxStrmSize := u4MaxBitstrmSize
    u4StrmBufOffset := 0
    u4CurWord := 0
    i4BitsLeftInCw := 32
    i4ZeroBytesRun := 0 }

def ihevcePutBits (s : Bitstrm) (u4CodeVal codeLen : Nat) : Bitstrm × IhevceErrorT :=
  if codeLen < s.i4BitsLeftInCw then
    let bitsLeftInCw := s.i4BitsLeftInCw - codeLen
    ({ s with
        u4CurWord := s.u4CurWord ||| u32 (u4CodeVal <<< bitsLeftInCw)
        i4BitsLeftInCw := bitsLeftInCw }, .success)
  else
    let remBits := codeLen - s.i4BitsLeftInCw
    if s.u4MaxStrmSize ≤ u32 (s.u4StrmBufOffset + 4) then (s, .bitstreamBufferOverflow)
    else
      let u4CurWord := s.u4CurWord ||| (u4CodeVal >>> remBits)
      let out := putBytes s.sink (wordBytes u4CurWord 4)
      ({ s with
          pu1StrmBuffer := out.ptr
          u4StrmBufOffset := out.off
          u4CurWord := if remBits = 0 then 0 else u32 (u4CodeVal <<< (32 - remBits))
          i4BitsLeftInCw := 32 - remBits
          i4ZeroBytesRun := out.zeroRun }, .success)

def ihevcePutRbspTrailingBits (s : Bitstrm) : Bitstrm × IhevceErrorT :=
  let bytesLeftInCw := (s.i4BitsLeftInCw - 1) >>> 3
  if s.u4MaxStrmSize ≤ u32Sub (s.u4StrmBufOffset + 4) bytesLeftInCw then
    (s, .bitstreamBufferOverflow)
  else
    let u4CurWord := s.u4CurWord ||| u32 (1 <<< (s.i4BitsLeftInCw - 1))
    let out := putBytes s.sink (wordBytes u4CurWord (4 - bytesLeftInCw))
    ({ s with
        pu1StrmBuffer := out.ptr
        u4StrmBufOffset := out.off
        u4CurWord := 0
        i4BitsLeftInCw := 32
        i4ZeroBytesRun := 0 }, .success)

def ihevcePutUev (s : Bitstrm) (u4CodeNum : Nat) : Bitstrm × IhevceErrorT :=
  let u4BitStr := u32 (u4CodeNum + 1)
  ihevcePutBits s u4BitStr (2 * getRange u4BitStr - 1)

/-- The code number of a signed syntax element. -/
def sevCodeNum (syntaxElem : Int) : Nat :=
  if syntaxElem ≤ 0 then u32 ((-syntaxElem).toNat <<< 1)
  else u32Sub (syntaxElem.toNat <<< 1) 1

def ihevcePutSev (s : Bitstrm) (syntaxElem : Int) : Bitstrm × IhevceErrorT :=
  let u4BitStr := u32 (sevCodeNum syntaxElem + 1)
  ihevcePutBits s u4BitStr (2 * getRange u4BitStr - 1)

end Libhevc.Encoder
