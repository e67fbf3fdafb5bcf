import Libhevc.Lib.Memory

/-!
# Emulation prevention removal

`ihevcd_nal_remv_emuln_bytes`: the main loop stops one byte before the end of
the buffer, and a tail case with its own zero-run logic treats the last byte.
-/

namespace Libhevc.Decoder

open Memory

def startCodePrefixByte : Nat := 0x01

def emulationPreventByte : Nat := 0x03

def numZerosBeforeStartCode : Nat := 2

/-- The variables of `ihevcd_nal_remv_emuln_bytes`. -/
structure NalRemv where
  srcCnt : Nat
  dstCnt : Nat
  zeroByteCnt : Nat
  startCodeFound : Bool
  pu1Dst : Nat → Nat

/-- `u1_src = pu1_src[src_cnt++]; pu1_dst[dst_cnt++] = u1_src` -/
def NalRemv.copy (s : NalRemv) (u1Src : Nat) : NalRemv :=
  { s with
    srcCnt := s.srcCnt + 1
    dstCnt := s.dstCnt + 1
    pu1Dst := set s.pu1Dst s.dstCnt u1Src }

/-- One round of the main loop. -/
def nalRemvStep (pu1Src : Nat → Nat) (s : NalRemv) : NalRemv :=
  let u1Src := pu1Src s.srcCnt
  let s := s.copy u1Src
  if u1Src ≠ 0 then { s with zeroByteCnt := 0 }
  else
    let s := { s with zeroByteCnt := s.zeroByteCnt + 1 }
    if numZerosBeforeStartCode ≤ s.zeroByteCnt then
      let u1Src := pu1Src s.srcCnt
      if u1Src = startCodePrefixByte then
        { s with
          srcCnt := s.srcCnt - s.zeroByteCnt
          dstCnt := s.dstCnt - s.zeroByteCnt
          startCodeFound := true }
      else if u1Src = emulationPreventByte then
        { s with srcCnt := s.srcCnt + 1, zeroByteCnt := 0 }
      else s
    else s

/-- The main loop; every round takes at least one byte, so `bytesRemaining` rounds are enough. -/
def nalRemvLoop (pu1Src : Nat → Nat) (bytesRemaining : Nat) : Nat → NalRemv → NalRemv
  | 0, s => s
  | rounds + 1, s =>
    if s.srcCnt < bytesRemaining - 1 ∧ s.startCodeFound = false then
      nalRemvLoop pu1Src bytesRemaining rounds (nalRemvStep pu1Src s)
    else s

/-- The case of the last byte. -/
def nalRemvTail (pu1Src : Nat → Nat) (bytesRemaining : Nat) (s : NalRemv) : NalRemv :=
  if s.startCodeFound = false ∧ s.srcCnt < bytesRemaining then
    let u1Src := pu1Src s.srcCnt
    let s := { s with srcCnt := s.srcCnt + 1 }
    if numZerosBeforeStartCode ≤ s.zeroByteCnt then
      if u1Src = startCodePrefixByte then { s with srcCnt := s.srcCnt - s.zeroByteCnt }
      else if u1Src = emulationPreventByte then
        { s with srcCnt := s.srcCnt + 1, dstCnt := s.dstCnt - 1 }
      else s
    else { s with dstCnt := s.dstCnt + 1, pu1Dst := set s.pu1Dst s.dstCnt u1Src }
  else s

/-- What `ihevcd_nal_remv_emuln_bytes` gives back: `*pi4_nal_len` is `srcCnt`, `*pi4_dst_len`
is `dstCnt`. -/
def ihevcdNalRemvEmulnBytes (pu1Src pu1Dst : Nat → Nat) (bytesRemaining : Nat) : NalRemv :=
  nalRemvTail pu1Src bytesRemaining
    (nalRemvLoop pu1Src bytesRemaining bytesRemaining
      { srcCnt := 0, dstCnt := 0, zeroByteCnt := 0, startCodeFound := false, pu1Dst })

-- ---------------------------------------------------------------------------
-- The rounds of the main loop
-- ---------------------------------------------------------------------------

theorem nalRemvStep_nonzero (hb : src s.srcCnt = b) (h : b ≠ 0) :
    nalRemvStep src s = { s.copy b with zeroByteCnt := 0 } := by
  simp [nalRemvStep, hb, h]

/-- A zero after which neither a start code nor an escape byte is seen. -/
theorem nalRemvStep_zero (h0 : src s.srcCnt = 0)
    (h : 2 ≤ s.zeroByteCnt + 1 → src (s.srcCnt + 1) ≠ 1 ∧ src (s.srcCnt + 1) ≠ 3) :
    nalRemvStep src s = { s.copy 0 with zeroByteCnt := s.zeroByteCnt + 1 } := by
  by_cases hz : 2 ≤ s.zeroByteCnt + 1
  · obtain ⟨h1, h3⟩ := h hz
    simp [nalRemvStep, NalRemv.copy, numZerosBeforeStartCode, startCodePrefixByte,
      emulationPreventByte, h0, h1, h3]
  · simp [nalRemvStep, NalRemv.copy, numZerosBeforeStartCode, h0, hz]

/-- A zero after which an escape byte is skipped. -/
theorem nalRemvStep_escape (h0 : src s.srcCnt = 0) (hz : 2 ≤ s.zeroByteCnt + 1)
    (h3 : src (s.srcCnt + 1) = 3) :
    nalRemvStep src s = { s.copy 0 with srcCnt := s.srcCnt + 2, zeroByteCnt := 0 } := by
  simp [nalRemvStep, NalRemv.copy, numZerosBeforeStartCode, startCodePrefixByte,
    emulationPreventByte, h0, hz, h3]

/-- A zero after which a start code is seen: its zeros are given back. -/
theorem nalRemvStep_startCode (h0 : src s.srcCnt = 0) (hz : 2 ≤ s.zeroByteCnt + 1)
    (h1 : src (s.srcCnt + 1) = 1) :
    nalRemvStep src s =
      { s.copy 0 with
        srcCnt := s.srcCnt + 1 - (s.zeroByteCnt + 1)
        dstCnt := s.dstCnt + 1 - (s.zeroByteCnt + 1)
        zeroByteCnt := s.zeroByteCnt + 1
        startCodeFound := true } := by
  simp [nalRemvStep, NalRemv.copy, numZerosBeforeStartCode, startCodePrefixByte, h0, hz, h1]

end Libhevc.Decoder
