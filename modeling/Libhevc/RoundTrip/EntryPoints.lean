import Libhevc.Encoder.EntryEscapes
import Libhevc.Encoder.EntryPoints
import Libhevc.RoundTrip.Header

/-!
# Entry points in a slice

The room kept for the entry points is enough for them and for the emulation
prevention bytes between them, so the slice data are moved, not overwritten.
-/

namespace Libhevc.Encoder

open Escape BitString Memory RoundTrip

-- ---------------------------------------------------------------------------
-- The elements of the header
-- ---------------------------------------------------------------------------

/-- The bits of an Exp-Golomb code. -/
def uevBits (codeNum : Nat) : List Bool := bitsOf (2 * getRange (codeNum + 1) - 1) (codeNum + 1)

/-- The entry points as fields of `offsetLen` bits. -/
def entryPointBits (offset : Nat → Nat) (offsetLen num : Nat) : List Bool :=
  (List.range num).flatMap fun i => bitsOf offsetLen (offset i)

theorem length_entryPointBits (offset : Nat → Nat) (offsetLen num : Nat) :
    (entryPointBits offset offsetLen num).length = num * offsetLen := by
  induction num with
  | zero => simp [entryPointBits]
  | succ num ih =>
    unfold entryPointBits at ih ⊢
    rw [List.range_succ, List.flatMap_append, List.length_append, ih]
    simp [Nat.succ_mul]

theorem entryPointBits_succ (offset : Nat → Nat) (offsetLen num : Nat) :
    entryPointBits offset offsetLen (num + 1) =
      entryPointBits offset offsetLen num ++ bitsOf offsetLen (offset num) := by
  simp [entryPointBits, List.range_succ]

/-- The code of a number has a one in its middle. -/
theorem uev_middle (h : Starts b p (uevBits v)) : b (p + (getRange (v + 1) - 1)) = true := by
  have hpos := getRange_pos (v + 1)
  have hlo := two_pow_getRange_le (x := v + 1) (by omega)
  have hhi := lt_two_pow_getRange (v + 1)
  obtain ⟨c, hc⟩ : ∃ c, getRange (v + 1) = c + 1 := ⟨getRange (v + 1) - 1, by omega⟩
  unfold Starts uevBits at h
  rw [length_bitsOf, bitVal_bitsOf, hc] at h
  rw [hc] at hlo hhi ⊢
  rw [Nat.add_sub_cancel] at hlo ⊢
  have hlen : 2 * (c + 1) - 1 = c + 1 + c := by omega
  have hlt : v + 1 < 2 ^ (c + 1 + c) :=
    hhi.trans_le (Nat.pow_le_pow_right (by decide) (by omega))
  rw [hlen, Nat.mod_eq_of_lt hlt] at h
  have hone : field b p (c + 1) = 1 := by
    rw [← field_div b p (c + 1) c, h]
    rw [pow_succ] at hhi
    exact Nat.div_eq_of_lt_le (by omega) (by omega)
  rw [field_succ] at hone
  cases hbit : b (p + c)
  · rw [hbit, Bool.toNat_false] at hone
    omega
  · rfl

/-- The writer has succeeded so far and has put the bits `w`. -/
def PutsOk (m : Nat → Nat) (a u4Max : Nat) (r : Bitstrm × IhevceErrorT) (w : List Bool) : Prop :=
  r.2 = .success ∧ ∃ payload, Puts m r.1 a payload w u4Max

section

variable {m : Nat → Nat} {a u4Max k : Nat} {b : Nat → Bool}

theorem PutsOk.putBits (h : PutsOk m a u4Max r w) (hn : n ≤ 32) (hv : v < 2 ^ n)
    (hb : Starts b 0 (w ++ bitsOf n v)) (hk : (w ++ bitsOf n v).length ≤ 8 * k)
    (hroom : a + (epb.escape 0 (packBytes b k)).length < u4Max) (hmax : u4Max ≤ 2 ^ 31) :
    PutsOk m a u4Max (andPut r fun s => ihevcePutBits s v n) (w ++ bitsOf n v) := by
  obtain ⟨hok, payload, hputs⟩ := h
  obtain ⟨hok', hputs'⟩ := hputs.putBits hn hv hb hk hroom hmax
  exact ⟨IhevceErrorT.or_eq_success.mpr ⟨hok, hok'⟩, hputs'⟩

theorem PutsOk.putUev (h : PutsOk m a u4Max r w) (hv : v + 1 < 2 ^ 16)
    (hb : Starts b 0 (w ++ uevBits v)) (hk : (w ++ uevBits v).length ≤ 8 * k)
    (hroom : a + (epb.escape 0 (packBytes b k)).length < u4Max) (hmax : u4Max ≤ 2 ^ 31) :
    PutsOk m a u4Max (andPut r fun s => ihevcePutUev s v) (w ++ uevBits v) := by
  obtain ⟨-, hlen, hlt⟩ := golomb_length hv
  have heq : ∀ s, ihevcePutUev s v = ihevcePutBits s (v + 1) (2 * getRange (v + 1) - 1) := by
    intro s
    unfold ihevcePutUev
    rw [u32_of_lt (by omega)]
  simp only [heq]
  exact h.putBits hlen hlt hb hk hroom hmax

theorem PutsOk.entryPoints {offset : Nat → Nat} (h : PutsOk m a u4Max r w) (hlen : len ≤ 32)
    (he : ∀ i < num, u32OfInt (e i - 1) = offset i ∧ offset i < 2 ^ len)
    (hb : Starts b 0 (w ++ entryPointBits offset len num))
    (hk : (w ++ entryPointBits offset len num).length ≤ 8 * k)
    (hroom : a + (epb.escape 0 (packBytes b k)).length < u4Max) (hmax : u4Max ≤ 2 ^ 31) :
    PutsOk m a u4Max (putEntryPoints e len num r) (w ++ entryPointBits offset len num) := by
  induction num with
  | zero =>
    have hnil : w ++ entryPointBits offset len 0 = w := List.append_nil w
    rw [hnil]
    exact h
  | succ num ih =>
    rw [entryPointBits_succ, ← List.append_assoc] at hb hk ⊢
    have hprev := ih (fun i hi => he i (Nat.lt_succ_of_lt hi)) (Starts.append.mp hb).1
      (by rw [List.length_append] at hk; omega)
    obtain ⟨heq, hlt⟩ := he num (Nat.lt_succ_self num)
    have hstep := hprev.putBits hlen hlt hb hk hroom hmax
    unfold putEntryPoints at hstep ⊢
    rw [List.range_succ, List.foldl_append, List.foldl_cons, List.foldl_nil, heq]
    exact hstep

end

-- ---------------------------------------------------------------------------
-- The slice
-- ---------------------------------------------------------------------------

/-- The saved state of the bitstream and the offsets when the slice data are complete. -/
structure EntryInput (s : Bitstrm) (hdr : EntryHdr) (start a : Nat) (payload : List Nat)
    (w : List Bool) : Prop where
  written : Written s.pu1StrmBuffer.mem s.sink a payload
  word : WordBits payload w s.u4CurWord s.i4BitsLeftInCw
  coded : ∃ fields, w = fields ++ uevBits hdr.i4NumEntryPointOffsets
  rows : hdr.i4NumEntryPointOffsets < 2 ^ 15
  extension : hdr.i2SliceHeaderExtensionLength = 0
  max : s.u4MaxStrmSize < 2 ^ 31
  offset : s.u4StrmBufOffset ≤ s.u4MaxStrmSize
  reserved : 0 < hdr.i4NumEntryPointOffsets →
    start = firstSliceStartOffset s hdr.i4NumEntryPointOffsets 24 ∧
      hdr.pu4EntryPointOffset 0 = start
  sizes : 0 < hdr.i4NumEntryPointOffsets → ∀ i ≤ hdr.i4NumEntryPointOffsets,
    2 ≤ hdr.size i ∧ hdr.size i < 2 ^ 24
  fits : 0 < hdr.i4NumEntryPointOffsets →
    hdr.pu4EntryPointOffset (hdr.i4NumEntryPointOffsets + 1) ≤ s.u4MaxStrmSize

/-- What the header is to hold behind the saved bits. -/
def EntryHdr.bits (hdr : EntryHdr) (offsetLen : Nat) : List Bool :=
  uevBits (offsetLen - 1) ++
    (entryPointBits (fun i => (hdr.size i - 1).toNat) offsetLen hdr.i4NumEntryPointOffsets ++
      if hdr.i1SliceHeaderExtensionPresentFlag then uevBits 0 else [])

/-- The slice after the entry points are in its header: the saved header bits, `offset_len_minus1`,
the sizes of the sub-streams less one and the trailing bits, escaped, and then the slice data as
they were behind `start`. -/
structure SliceIntact (s : Bitstrm) (hdr : EntryHdr) (start a : Nat) (w : List Bool)
    (out : Bitstrm × IhevceErrorT) : Prop where
  ok : out.2 = .success
  holds : ∃ headerEnd offsetLen bytes z,
    headerEnd ≤ start ∧ 1 ≤ offsetLen ∧ offsetLen ≤ 32 ∧
    (∀ i < hdr.i4NumEntryPointOffsets, 1 ≤ hdr.size i ∧ hdr.size i ≤ 2 ^ offsetLen) ∧
    (∀ x ∈ bytes, x < 256) ∧ z < 8 ∧
    8 * bytes.length = (w ++ hdr.bits offsetLen ++ [true]).length + z ∧
    byteVal bytes = bitVal (w ++ hdr.bits offsetLen ++ [true]) * 2 ^ z ∧
    Holds out.1.pu1StrmBuffer.mem a (epb.escape 0 bytes) ∧
    headerEnd = a + (epb.escape 0 bytes).length ∧
    (out.1.u4StrmBufOffset : Int) =
      headerEnd + (hdr.pu4EntryPointOffset (hdr.i4NumEntryPointOffsets + 1) - start) ∧
    ∀ i, headerEnd + i < out.1.u4StrmBufOffset →
      out.1.pu1StrmBuffer.mem (headerEnd + i) = s.pu1StrmBuffer.mem (start + i)
  frame : ∀ i < a, out.1.pu1StrmBuffer.mem i = s.pu1StrmBuffer.mem i

variable {s : Bitstrm} {hdr : EntryHdr} {start a : Nat} {payload : List Nat} {w : List Bool}

theorem u32OfInt_natCast (h : x < 2 ^ 32) : u32OfInt (x : Nat) = x := by
  unfold u32OfInt
  omega

theorem putBits_offset (hw : Written s.pu1StrmBuffer.mem s.sink a payload)
    (hoff : s.u4StrmBufOffset + 8 < 2 ^ 32) (v n : Nat) :
    s.u4StrmBufOffset ≤ (ihevcePutBits s v n).1.u4StrmBufOffset ∧
      (ihevcePutBits s v n).1.u4StrmBufOffset ≤ s.u4StrmBufOffset + 8 := by
  unfold ihevcePutBits
  by_cases hin : n < s.i4BitsLeftInCw
  · rw [if_pos hin]
    exact ⟨le_rfl, Nat.le_add_right s.u4StrmBufOffset 8⟩
  · rw [if_neg hin]
    by_cases hfull : s.u4MaxStrmSize ≤ u32 (s.u4StrmBufOffset + 4)
    · rw [if_pos hfull]
      exact ⟨le_rfl, Nat.le_add_right s.u4StrmBufOffset 8⟩
    · rw [if_neg hfull]
      have hold : s.u4StrmBufOffset = _ := hw.off
      have hbytes : ∀ x ∈ wordBytes (s.u4CurWord ||| v >>> (n - s.i4BitsLeftInCw)) 4, x < 256 :=
        wordBytes_lt
      have hfour : (wordBytes (s.u4CurWord ||| v >>> (n - s.i4BitsLeftInCw)) 4).length = 4 :=
        length_wordBytes
      dsimp only
      generalize wordBytes (s.u4CurWord ||| v >>> (n - s.i4BitsLeftInCw)) 4 = bytes at *
      have hlow := length_escape_le payload bytes
      have hhigh := (length_escape (S := epb) (zeroRun 0 (epb.escape 0 payload)) bytes).2
      have happ : (epb.escape 0 (payload ++ bytes)).length = (epb.escape 0 payload).length +
          (epb.escape (zeroRun 0 (epb.escape 0 payload)) bytes).length := by
        rw [escape_append, List.length_append]
      have hall : (putBytes s.sink bytes).off = _ := (hw.putAll hbytes (by omega)).off
      exact ⟨by omega, by omega⟩

/-- The room kept behind the saved state. -/
theorem EntryInput.start_ge (h : EntryInput s hdr start a payload w)
    (hnum : 0 < hdr.i4NumEntryPointOffsets) :
    s.u4StrmBufOffset + 4 * hdr.i4NumEntryPointOffsets + 8 ≤ start := by
  have hmax := h.max
  have hoffset := h.offset
  have hrows := h.rows
  have huev := putBits_offset h.written (by omega) (u32 (24 - 1 + 1))
    (2 * getRange (u32 (24 - 1 + 1)) - 1)
  rw [(h.reserved hnum).1]
  unfold firstSliceStartOffset ihevcePutUev
  dsimp only
  rw [Nat.shiftRight_eq_div_pow, u32_of_lt (by omega)]
  omega

theorem offsets_mono (hdr : EntryHdr) (hsize : ∀ i < n, 2 ≤ hdr.size i) (j : Nat) (hj : j ≤ n) :
    hdr.pu4EntryPointOffset 0 + 2 * j ≤ hdr.pu4EntryPointOffset j := by
  induction j with
  | zero => simp
  | succ j ih =>
    have hprev := ih (by omega)
    have hstep := hsize j (by omega)
    unfold EntryHdr.size at hstep
    push_cast
    omega

/-- The slice data lie in the buffer. -/
theorem EntryInput.start_lt (h : EntryInput s hdr start a payload w)
    (hnum : 0 < hdr.i4NumEntryPointOffsets) :
    (start : Int) < hdr.pu4EntryPointOffset (hdr.i4NumEntryPointOffsets + 1) ∧
      start < s.u4MaxStrmSize := by
  have hmono := offsets_mono hdr (n := hdr.i4NumEntryPointOffsets + 1)
    (fun i hi => (h.sizes hnum i (by omega)).1) _ le_rfl
  have hfits := h.fits hnum
  rw [(h.reserved hnum).2] at hmono
  push_cast at hmono
  omega

/-- The number of bits of the entry points. -/
theorem EntryInput.offsetLen (h : EntryInput s hdr start a payload w)
    (hnum : 0 < hdr.i4NumEntryPointOffsets) :
    ∃ len, 1 ≤ len ∧ len ≤ 24 ∧ (∃ fuel, offsetLenLoop fuel
        (u32OfInt (relativeOffsets hdr.i4NumEntryPointOffsets hdr.pu4EntryPointOffset).2) 0 =
          some (32 - len)) ∧
      ∀ i < hdr.i4NumEntryPointOffsets, hdr.size i < 2 ^ len := by
  obtain ⟨-, hle, hmax⟩ := relativeOffsets_eq hdr.i4NumEntryPointOffsets hdr.pu4EntryPointOffset
  generalize (relativeOffsets hdr.i4NumEntryPointOffsets hdr.pu4EntryPointOffset).2 = mx at hle hmax
  have hsizes := h.sizes hnum
  have hfirst := hle 0 hnum
  have hfirst2 := (hsizes 0 (by omega)).1
  unfold EntryHdr.size at hsizes hfirst2
  obtain ⟨x, rfl⟩ : ∃ x : Nat, mx = x := ⟨mx.toNat, by omega⟩
  have hx : x < 2 ^ 24 := by
    rcases hmax with hzero | ⟨i, hi, heq⟩
    · omega
    · have := (hsizes i (by omega)).2
      omega
  have hx2 : 2 ≤ x := by omega
  refine ⟨getRange x, getRange_pos x, getRange_le hx (by decide), ?_, fun i hi => ?_⟩
  · refine ⟨32 - getRange x + 1, ?_⟩
    rw [u32OfInt_natCast (by omega)]
    exact offsetLenLoop_getRange (by omega) (by omega)
  · have hlt := lt_two_pow_getRange x
    have hi' := hle i hi
    unfold EntryHdr.size
    have hcast : (x : Int) < 2 ^ getRange x := by exact_mod_cast hlt
    omega

theorem toNat_pred_lt {x : Int} (hlo : 2 ≤ x) (hhi : x < 2 ^ len) : (x - 1).toNat < 2 ^ len := by
  have hcast : ((2 ^ len : Nat) : Int) = 2 ^ len := Nat.cast_pow 2 len
  omega

/-- Each field is one entry point. -/
theorem entryPointBits_field {offset : Nat → Nat} (h : Starts b p (entryPointBits offset len num))
    (hj : j < num) : field b (p + j * len) len = offset j % 2 ^ len := by
  induction num with
  | zero => exact absurd hj (Nat.not_lt_zero j)
  | succ num ih =>
    rw [entryPointBits_succ] at h
    obtain ⟨hprev, hlast⟩ := Starts.append.mp h
    rcases Nat.lt_succ_iff_lt_or_eq.mp hj with hlt | rfl
    · exact ih hprev hlt
    · unfold Starts at hlast
      rw [length_entryPointBits, length_bitsOf, bitVal_bitsOf] at hlast
      exact hlast

/-- The bits of the rewritten header, as a bit string. -/
def EntryHdr.string (hdr : EntryHdr) (w : List Bool) (len : Nat) : Nat → Bool :=
  fun i => (w ++ hdr.bits len ++ [true]).getD i false

theorem EntryInput.entryBits (h : EntryInput s hdr start a payload w) (hlen : 1 ≤ len)
    (hlen24 : len ≤ 24)
    (hsize : ∀ i < hdr.i4NumEntryPointOffsets, 2 ≤ hdr.size i ∧ hdr.size i < 2 ^ len)
    (hk : 8 * k = (w ++ hdr.bits len ++ [true]).length + z) (hz : z < 8) :
    EntryBits (packBytes (hdr.string w len) k) payload.length (32 - s.i4BitsLeftInCw)
      (getRange len - 1) hdr.i4NumEntryPointOffsets len
      (getRange (hdr.i4NumEntryPointOffsets + 1)) := by
  have hlength := h.word.length
  have hpos := h.word.left_pos
  have hrows := h.rows
  have hrange := getRange_pos len
  have hrange5 : getRange len ≤ 5 := getRange_le (by omega) (by decide)
  have hnum := getRange_pos (hdr.i4NumEntryPointOffsets + 1)
  have hnum16 : getRange (hdr.i4NumEntryPointOffsets + 1) ≤ 16 :=
    getRange_le (by omega) (by decide)
  have hall : Starts (hdr.string w len) 0 (w ++ hdr.bits len ++ [true]) :=
    starts_getD (w ++ hdr.bits len ++ [true])
  obtain ⟨hbits, -⟩ := Starts.append.mp hall
  obtain ⟨hw, hrest⟩ := Starts.append.mp hbits
  unfold EntryHdr.bits at hrest hk
  obtain ⟨huev, hentries⟩ := Starts.append.mp hrest
  obtain ⟨hfields, -⟩ := Starts.append.mp hentries
  have huevlen : (uevBits (len - 1)).length = 2 * getRange len - 1 := by
    unfold uevBits
    rw [length_bitsOf, Nat.sub_add_cancel hlen]
  have hext : (if hdr.i1SliceHeaderExtensionPresentFlag then uevBits 0 else []).length ≤ 1 := by
    split
    · decide
    · exact Nat.zero_le 1
  simp only [List.length_append, huevlen, length_entryPointBits, List.length_singleton] at hk
  rw [Nat.zero_add] at huev hfields
  rw [huevlen] at hfields
  rw [hlength] at huev hfields hk
  have hbit : ∀ t, t < 8 * k → ofBytes (fun i => (packBytes (hdr.string w len) k).getD i 0) t =
      hdr.string w len t := fun t ht => ofBytes_packBytes _ ht
  refine ⟨by omega, by omega, hlen24, ?_, ⟨hnum16, hnum, ?_⟩, ?_, fun j hj => ?_, ?_⟩
  · obtain ⟨fields, hfl⟩ := h.coded
    have hlast : Starts (hdr.string w len) 0
        (fields ++ uevBits hdr.i4NumEntryPointOffsets) := by
      rw [← hfl]
      exact hw
    obtain ⟨-, hcode⟩ := Starts.append.mp hlast
    have hmiddle := uev_middle hcode
    have hwlen := congrArg List.length hfl
    unfold uevBits at hwlen
    rw [List.length_append, length_bitsOf, hlength] at hwlen
    rw [hbit _ (by omega), show 8 * payload.length + (32 - s.i4BitsLeftInCw) -
      getRange (hdr.i4NumEntryPointOffsets + 1) =
        0 + fields.length + (getRange (hdr.i4NumEntryPointOffsets + 1) - 1) by omega]
    exact hmiddle
  · obtain ⟨fields, hfl⟩ := h.coded
    have hwlen := congrArg List.length hfl
    unfold uevBits at hwlen
    rw [List.length_append, length_bitsOf, hlength] at hwlen
    omega
  · have hmiddle := uev_middle huev
    rw [Nat.sub_add_cancel hlen] at hmiddle
    rw [hbit _ (by omega)]
    exact hmiddle
  · have hfield := entryPointBits_field hfields hj
    obtain ⟨hlo, hhi⟩ := hsize j hj
    have hne : field (hdr.string w len) (8 * payload.length + (32 - s.i4BitsLeftInCw) +
        (2 * getRange len - 1) + j * len) len ≠ 0 := by
      rw [hfield, Nat.mod_eq_of_lt]
      · omega
      · exact toNat_pred_lt hlo hhi
    obtain ⟨t, ht, hone⟩ := exists_bit hne
    have hmul : j * len + len ≤ hdr.i4NumEntryPointOffsets * len := by
      rw [← Nat.succ_mul]
      exact Nat.mul_le_mul_right len hj
    refine ⟨t, ht, ?_⟩
    rw [hbit _ (by omega), show 8 * payload.length + (32 - s.i4BitsLeftInCw) +
      2 * (getRange len - 1) + 1 = 8 * payload.length + (32 - s.i4BitsLeftInCw) +
        (2 * getRange len - 1) by omega]
    exact hone
  · rw [length_packBytes]
    omega

/-- The elements are written behind the saved bits. -/
theorem EntryInput.putEntryHeader (h : EntryInput s hdr start a payload w)
    (hnum : 0 < hdr.i4NumEntryPointOffsets) (hlen : 1 ≤ len) (hlen24 : len ≤ 24)
    (hsize : ∀ i < hdr.i4NumEntryPointOffsets, 2 ≤ hdr.size i ∧ hdr.size i < 2 ^ len)
    (hb : Starts b 0 (w ++ hdr.bits len)) (hk : (w ++ hdr.bits len).length ≤ 8 * k)
    (hroom : a + (epb.escape 0 (packBytes b k)).length < s.u4MaxStrmSize) :
    PutsOk s.pu1StrmBuffer.mem a s.u4MaxStrmSize (Encoder.putEntryHeader hdr
      (relativeOffsets hdr.i4NumEntryPointOffsets hdr.pu4EntryPointOffset).1 len s)
      (w ++ hdr.bits len) := by
  have hmax : s.u4MaxStrmSize ≤ 2 ^ 31 := h.max.le
  obtain ⟨hrel, -, -⟩ := relativeOffsets_eq hdr.i4NumEntryPointOffsets hdr.pu4EntryPointOffset
  unfold EntryHdr.bits at hb hk ⊢
  rw [← List.append_assoc, ← List.append_assoc] at hb hk ⊢
  obtain ⟨hb2, -⟩ := Starts.append.mp hb
  obtain ⟨hb1, -⟩ := Starts.append.mp hb2
  have hk2 := hk
  rw [List.length_append] at hk2
  have hk1 := hk2
  rw [List.length_append] at hk1
  have h0 : PutsOk s.pu1StrmBuffer.mem a s.u4MaxStrmSize (s, .success) w :=
    ⟨rfl, payload, h.written, h.word, rfl, fun _ _ => rfl⟩
  have h1 := h0.putUev (by omega) hb1 (by omega) hroom hmax
  have hoff : ∀ i < hdr.i4NumEntryPointOffsets, u32OfInt
      ((relativeOffsets hdr.i4NumEntryPointOffsets hdr.pu4EntryPointOffset).1 i - 1) =
        (hdr.size i - 1).toNat ∧ (hdr.size i - 1).toNat < 2 ^ len := by
    intro i hi
    obtain ⟨hlo, hhi⟩ := hsize i hi
    refine ⟨?_, toNat_pred_lt hlo hhi⟩
    rw [hrel i, if_pos hi]
    have hpow : (2 : Int) ^ len ≤ 2 ^ 24 := pow_le_pow_right₀ (by decide) hlen24
    unfold u32OfInt
    unfold EntryHdr.size at hlo hhi ⊢
    rw [Int.emod_eq_of_lt (by omega) (by omega)]
  have h2 := h1.entryPoints (by omega) hoff hb2 (by omega) hroom hmax
  unfold Encoder.putEntryHeader
  dsimp only
  rw [if_pos hnum]
  cases hext : hdr.i1SliceHeaderExtensionPresentFlag with
  | false =>
    simp only [Bool.false_eq_true, if_false, List.append_nil]
    exact h2
  | true =>
    rw [hext] at hb hk
    simp only [if_true] at hb hk ⊢
    unfold putHeaderExtension
    rw [h.extension, List.range_zero, List.foldl_nil]
    exact h2.putUev (by decide) hb hk hroom hmax

/-- Once the entry points are known, the header is written again in the room kept for it. -/
theorem EntryInput.inserted (h : EntryInput s hdr start a payload w)
    (hnum : 0 < hdr.i4NumEntryPointOffsets) :
    ∃ fuel out, ihevceInsertEntryOffsetSliceHeader fuel s hdr start = some out ∧
      SliceIntact s hdr start a w out := by
  obtain ⟨len, hlen, hlen24, ⟨fuel, hfuel⟩, hlt⟩ := h.offsetLen hnum
  have hsize : ∀ i < hdr.i4NumEntryPointOffsets, 2 ≤ hdr.size i ∧ hdr.size i < 2 ^ len :=
    fun i hi => ⟨(h.sizes hnum i hi.le).1, hlt i hi⟩
  have hmax := h.max
  have hstart := h.start_ge hnum
  obtain ⟨hdata, hfits⟩ := h.start_lt hnum
  -- the bytes of the header
  obtain ⟨k, z, hk, hz⟩ : ∃ k z, 8 * k = (w ++ hdr.bits len ++ [true]).length + z ∧ z < 8 :=
    ⟨((w ++ hdr.bits len ++ [true]).length + 7) / 8,
      8 * (((w ++ hdr.bits len ++ [true]).length + 7) / 8) -
        (w ++ hdr.bits len ++ [true]).length, by omega, by omega⟩
  have hentry := h.entryBits hlen hlen24 hsize hk hz
  have hpk : payload.length ≤ k := by
    have hlength := h.word.length
    simp only [List.length_append] at hk
    omega
  have hall : Starts (hdr.string w len) 0 (w ++ hdr.bits len ++ [true]) :=
    starts_getD (w ++ hdr.bits len ++ [true])
  have hbits := (Starts.append.mp hall).1
  have hroom := hentry.escape_le (by rw [length_packBytes]; exact hpk)
  rw [packBytes_take _ hpk, ← h.word.payload_eq (Starts.append.mp hbits).1] at hroom
  have hoff : s.u4StrmBufOffset = _ := h.written.off
  have hroom' : a + (epb.escape 0 (packBytes (hdr.string w len) k)).length < s.u4MaxStrmSize := by
    omega
  have hmax' : s.u4MaxStrmSize ≤ 2 ^ 31 := hmax.le
  -- the elements in turn
  have hlenbits : (w ++ hdr.bits len).length ≤ 8 * k := by
    rw [List.length_append] at hk
    omega
  have hputs := h.putEntryHeader hnum hlen hlen24 hsize hbits hlenbits hroom'
  have hlen32 : u32Sub 32 (32 - len) = len := by
    rw [u32Sub_of_le (by omega) (by omega)]
    omega
  have hshift : u32OfInt (hdr.pu4EntryPointOffset (hdr.i4NumEntryPointOffsets + 1) -
      hdr.pu4EntryPointOffset 0) = (hdr.pu4EntryPointOffset (hdr.i4NumEntryPointOffsets + 1) -
        start).toNat := by
    have hlast := h.fits hnum
    rw [(h.reserved hnum).2]
    unfold u32OfInt
    rw [Int.emod_eq_of_lt (by omega) (by omega)]
  obtain ⟨hok, payload', hputs'⟩ := hputs
  have hz0 : 8 * k = (w ++ hdr.bits len).length + 1 + z := by
    rw [List.length_append, List.length_singleton] at hk
    exact hk
  have hzero : ∀ i, (w ++ hdr.bits len).length + 1 ≤ i → hdr.string w len i = false := by
    intro i hi
    unfold EntryHdr.string
    rw [List.getD_eq_default]
    rw [List.length_append, List.length_singleton]
    exact hi
  obtain ⟨hholds, hend, hbelow, habove⟩ := hputs'.trailing hall hzero hz0 hz hroom' hmax'
  have hlast := h.fits hnum
  have hrest : field (hdr.string w len) (0 + (w ++ hdr.bits len ++ [true]).length) z = 0 := by
    have hlast : (w ++ hdr.bits len ++ [true]).length = (w ++ hdr.bits len).length + 1 := by
      rw [List.length_append, List.length_singleton]
    have hfalse : field (hdr.string w len) (0 + (w ++ hdr.bits len ++ [true]).length) z =
        field (fun _ => false) (0 + (w ++ hdr.bits len ++ [true]).length) z :=
      field_congr fun i _ => hzero _ (by omega)
    rw [hfalse]
    exact field_false _ _
  unfold ihevceInsertEntryOffsetSliceHeader
  refine ⟨fuel, ?_⟩
  dsimp only
  rw [hfuel]
  dsimp only
  rw [hlen32, hshift]
  refine ⟨_, rfl, hok, ?_, ?_⟩
  · refine ⟨a + (epb.escape 0 (packBytes (hdr.string w len) k)).length, len,
      packBytes (hdr.string w len) k, z, by omega, hlen, by omega, fun i hi => ?_,
      packBytes_lt _ _, hz, by rw [length_packBytes]; exact hk, ?_, ?_, rfl, ?_, ?_⟩
    · obtain ⟨hlo, hhi⟩ := hsize i hi
      exact ⟨by omega, hhi.le⟩
    · rw [byteVal_packBytes, hk, field_add, hall, hrest, Nat.add_zero]
    · refine hholds.congr fun i hi => if_neg ?_
      rw [hend]
      omega
    · dsimp only
      rw [hend, u32_of_lt (by omega)]
      omega
    · intro i hi
      dsimp only at hi ⊢
      rw [hend, u32_of_lt (by omega)] at hi
      rw [StrmBuffer.memmove]
      dsimp only
      rw [hend, if_pos ⟨Nat.le_add_right _ i, by omega⟩, Nat.add_sub_cancel_left]
      exact habove _ (by omega)
  · intro i hi
    refine Eq.trans (if_neg ?_) (hbelow i hi)
    rw [hend]
    omega

/-- Without entry points the loop over the bits of the greatest one has no end. -/
theorem ihevceInsertEntryOffsetSliceHeader_none (hnum : hdr.i4NumEntryPointOffsets = 0)
    (fuel : Nat) : ihevceInsertEntryOffsetSliceHeader fuel s hdr start = none := by
  have hzero : (relativeOffsets hdr.i4NumEntryPointOffsets hdr.pu4EntryPointOffset).2 = 0 := by
    rw [hnum]
    rfl
  unfold ihevceInsertEntryOffsetSliceHeader
  dsimp only
  rw [hzero, show u32OfInt 0 = 0 from rfl, offsetLenLoop_zero]

/-- The state saved behind `num_entry_point_offsets` at the start of a buffer of 64 bytes. -/
def savedStrm (num : Nat) : Bitstrm := (ihevcePutUev (ihevceBitstrmInit (fun _ => 0) 64) num).1

/-- The offsets of sub-streams of two bytes behind the room of a single entry point. -/
def twoByteHdr (num : Nat) : EntryHdr where
  i4NumEntryPointOffsets := num
  pu4EntryPointOffset i := 12 + 2 * i
  i1SliceHeaderExtensionPresentFlag := false
  i2SliceHeaderExtensionLength := 0

theorem entryInput_savedStrm (hnum : num < 2) :
    EntryInput (savedStrm num) (twoByteHdr num) 12 0 [] (uevBits num) := by
  obtain rfl | rfl : num = 0 ∨ num = 1 := by omega
  · refine ⟨⟨Holds.nil, rfl, rfl, fun i hi => absurd hi (Nat.not_lt_zero i), by simp⟩,
      ⟨by simp, by decide, by decide, by decide, by decide, by decide⟩, ⟨[], rfl⟩, by decide, rfl,
      by decide, by decide, fun h => absurd h (by decide), fun h => absurd h (by decide),
      fun h => absurd h (by decide)⟩
  · refine ⟨⟨Holds.nil, rfl, rfl, fun i hi => absurd hi (Nat.not_lt_zero i), by simp⟩,
      ⟨by simp, by decide, by decide, by decide, by decide, by decide⟩, ⟨[], rfl⟩, by decide, rfl,
      by decide, by decide, fun _ => ⟨by decide, rfl⟩, fun _ i _ => ?_, fun _ => by decide⟩
    show 2 ≤ (12 + 2 * ((i + 1 : Nat) : Int)) - (12 + 2 * (i : Int)) ∧ _ < (2 : Int) ^ 24
    constructor
    · push_cast
      omega
    · show (12 + 2 * ((i + 1 : Nat) : Int)) - (12 + 2 * (i : Int)) < 2 ^ 24
      push_cast
      omega

end Libhevc.Encoder
