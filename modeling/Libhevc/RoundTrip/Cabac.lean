import Libhevc.Decoder.CabacRefines
import Libhevc.Encoder.CabacLaws

/-!
# Slice data reads back

Symbols encoded by the encoder's engine and closed with a terminating bin come
back from the decoder's engine. Between the two stands the plain coder: the
bytes the encoder leaves are a number in the interval of the symbols.
-/

namespace Libhevc.RoundTrip

open BitString Memory Escape CarryChain RangeCoder Spec Encoder Decoder

/-- The bytes of the slice data, from `a` on. -/
def sliceBytes (c : Encoder.CabCtxt) (a : Nat) : List Nat :=
  (List.range (c.u4StrmBufOffset - a)).map fun i => c.pu1StrmBuffer.mem (a + i)

/-- Read at any byte position, the bytes `out` without their emulation prevention bytes give the
symbols back: the engine ends in the encoder's models, right after the stop bit. -/
def SliceReadsBack (l : List CabacSym) (models models' : Nat → Nat) (out : List Nat) : Prop :=
  ∀ (s : Decoder.Bitstrm) (q : Nat), s.At (8 * q) → Holds s.pu1BufBase q (epb.unescape 0 out) →
    let init := ihevcdCabacInit s models
    let ops := l.map Prod.fst ++ [.terminate]
    let r := cabacRun init.2 ops
    init.1 = .success ∧ r.outputs = l.map Prod.snd ++ [1] ∧ r.stopped = true ∧
      r.state.1.au1CtxtModels = models' ∧
      (∀ n ≤ l.length,
        let r' := cabacRun init.2 (ops.take n)
        r'.stopped = false ∧ r'.state.1.u4Ofst < r'.state.1.u4Range) ∧
      ∃ p z, z < 8 ∧ p + 1 + z = 8 * (q + (epb.unescape 0 out).length) ∧ s.bits p = true ∧
        field s.bits (p + 1) z = 0 ∧ r.state.2.At (p + 1)

/-- Encoder symbols for which the decoder has a call. -/
def Readable (l : List CabacSym) : Prop := Going l ∧ ∀ sym ∈ l, CabacOp.Ok sym.1

theorem init_idle (c : Encoder.CabCtxt) (s : Encoder.Bitstrm) (models : Nat → Nat)
    (hrun : s.i4ZeroBytesRun = 0)
    (hoff : (ihevceCabacInit c s models .encodeBits).u4StrmBufOffset = a) (ha : a < 2 ^ 32) :
    Idle s.pu1StrmBuffer.mem a (ihevceCabacInit c s models .encodeBits) (Coder.init models) := by
  have hsink : (ihevceCabacInit c s models .encodeBits).sink =
      { ptr := s.pu1StrmBuffer, off := a, zeroRun := 0 } := by
    rw [CabCtxt.sink, hoff, ← hrun]
    rfl
  refine ⟨⟨_, counts_init c s models, ?_⟩, Nat.zero_le 9⟩
  rw [hsink]
  exact ⟨⟨Holds.nil, rfl, rfl, fun _ _ => rfl, by simp⟩, ha⟩

/-- A number with a stop bit behind it stays in an interval of two numbers. -/
theorem contains_of_stop {i : Interval} (hr : i.range = 2)
    (h : i.code b p w = 2 * (i.low / 2) + 1) : i.Contains b p w := by
  refine ⟨?_, ?_⟩ <;> rw [h] <;> omega

/-- A payload whose first bits are a number of the coded interval is decoded to the symbols. -/
theorem payload_readsBack {k : Coder} (hk : k = (Coder.init models).codeAll l)
    (hm : ModelsOk models) (hl : Readable l) (hbytes : ∀ x ∈ payload, x < 256) (hz : z < 8)
    (hlen : 8 * payload.length = k.interval.bits + 9 + z)
    (hval : byteVal payload = (2 * ((k.codeTerminate 1).interval.low / 2) + 1) * 2 ^ z)
    (hout : epb.unescape 0 out = payload) : SliceReadsBack l models k.models out := by
  intro s q hat hheld
  obtain ⟨hgoing, hops⟩ := hl
  rw [hout] at hheld ⊢
  have hinit := coder_init_ok hm
  -- the coded number, the stop bit and the zeros in the buffer
  have hall : field s.bits (8 * q) (8 * payload.length) = byteVal payload :=
    field_bytes hheld hbytes
  rw [hlen] at hall
  have hcode : field s.bits (8 * q) (k.interval.bits + 9) =
      2 * ((k.codeTerminate 1).interval.low / 2) + 1 := by
    rw [← field_div _ _ _ z, hall, hval, Nat.mul_div_cancel _ (Nat.two_pow_pos z)]
  have hzeros : field s.bits (8 * q + (k.interval.bits + 9)) z = 0 := by
    rw [← field_mod, hall, hval, Nat.mul_mod_left]
  have hstopBit : s.bits (8 * q + (k.interval.bits + 8)) = true := by
    have hlast := field_mod s.bits (8 * q) (k.interval.bits + 8) 1
    rw [Nat.add_assoc, hcode, field_one] at hlast
    have hone : (s.bits (8 * q + (k.interval.bits + 8))).toNat = 1 := by omega
    exact Bool.toNat_eq_one.mp hone
  have hin : ((k.codeTerminate 1).interval).Contains s.bits (8 * q) 9 := contains_of_stop rfl hcode
  rw [hk] at hin
  obtain ⟨houts, hstopped, hmodels, hpos, hlast⟩ := run_codeAll hinit hgoing hin
  obtain ⟨-, hfirst⟩ := run_going hinit hgoing hlast
  have hengine : (Coder.init models).engine s.bits (8 * q) = Engine.init s.bits (8 * q) models := by
    simp [Coder.engine, Coder.init, Interval.registers, Interval.ofst, Interval.code, Engine.init]
  have hsuccess : (ihevcdCabacInit s models).1 = .success := by
    refine cabacInit_success hat ?_
    simpa [Coder.init, Interval.code] using hfirst.2
  have hopsAll : ∀ op ∈ l.map Prod.fst ++ [.terminate], CabacOp.Ok op := by
    intro op hop
    rcases List.mem_append.mp hop with hop | hop
    · obtain ⟨sym, hsym, rfl⟩ := List.mem_map.mp hop
      exact hops sym hsym
    · rw [List.mem_singleton.mp hop]
      trivial
  obtain ⟨houts', hstopped', hmodels', -, -, hback⟩ := cabacRun_refines hat hm hsuccess hopsAll
  rw [← hengine] at houts' hstopped' hmodels' hback
  refine ⟨hsuccess, houts'.trans houts, hstopped'.trans hstopped, ?_, fun n hn => ?_, ?_⟩
  · rw [hmodels', hmodels, hk]
  · -- the symbols before the next one
    have htake : (l.map Prod.fst ++ [CabacOp.terminate]).take n = (l.take n).map Prod.fst := by
      rw [List.take_append_of_le_length (by simpa using hn), List.map_take]
    have hgoingTake : Going (l.take n) := fun sym hsym => hgoing sym (List.mem_of_mem_take hsym)
    have hgoingDrop : Going (l.drop n) := fun sym hsym => hgoing sym (List.mem_of_mem_drop hsym)
    have hsplit : (Coder.init models).codeAll l =
        ((Coder.init models).codeAll (l.take n)).codeAll (l.drop n) := by
      rw [Coder.codeAll, Coder.codeAll, Coder.codeAll, ← List.foldl_append, List.take_append_drop]
    rw [hsplit] at hlast
    obtain ⟨-, hmid⟩ := run_going (hinit.codeAll hgoingTake) hgoingDrop hlast
    obtain ⟨hrun, -⟩ := run_going hinit hgoingTake hmid
    have hopsTake : ∀ op ∈ (l.take n).map Prod.fst, CabacOp.Ok op := by
      rw [← htake]
      exact fun op hop => hopsAll op (List.mem_of_mem_take hop)
    obtain ⟨-, hstop, -, -, hbounds, -⟩ := cabacRun_refines hat hm hsuccess hopsTake
    rw [← hengine, hrun] at hstop
    rw [htake]
    obtain ⟨-, -, hlt, -⟩ := hbounds hstop
    exact ⟨hstop, hlt⟩
  · refine ⟨8 * q + (k.interval.bits + 8), z, hz, by omega, hstopBit, hzeros, ?_⟩
    have hat' := hback (hstopped'.trans hstopped)
    rw [hpos, ← hk] at hat'
    exact hat'

/-- The whole slice: symbols before the terminating bin, and the terminating bin. -/
def encodeSlice (c : Encoder.CabCtxt) (l : List CabacSym) : IhevceErrorT × Encoder.CabCtxt :=
  cabacEncodeAll c (l ++ [(.terminate, 1)])

theorem encodeSlice_eq (c : Encoder.CabCtxt) (l : List CabacSym) :
    encodeSlice c l =
      ((cabacEncodeAll c l).1.or (ihevceCabacEncodeTerminate (cabacEncodeAll c l).2 1).1,
        (ihevceCabacEncodeTerminate (cabacEncodeAll c l).2 1).2) := by
  rw [encodeSlice, encodeAll_append]
  simp only [cabacEncodeAll, cabacEncode]
  cases (ihevceCabacEncodeTerminate (cabacEncodeAll c l).2 1).1 <;> rfl

/-- No call of the encoder lacks room for the slice of the symbols `l`, nor does the flush; the
payload is no longer than the buffer and every store goes into it. -/
structure SliceFits (models : Nat → Nat) (c : Encoder.CabCtxt) (l : List CabacSym) : Prop where
  bits : ((Coder.init models).codeAll l).interval.bits + 9 ≤ 8 * c.u4MaxStrmSize
  ok : (encodeSlice c l).1 = .success
  flush : (ihevceCabacFlush ((cabacEncodeAll c l).2.narrowTerminate 1).2).1 = .success
  stores : ∀ i ∈ (encodeSlice c l).2.pu1StrmBuffer.stores, i < c.u4MaxStrmSize

section
variable {c₀ c : Encoder.CabCtxt} {bs : Encoder.Bitstrm}

theorem stores_subset_encodeSlice (c : Encoder.CabCtxt) (l : List CabacSym) :
    (cabacEncodeAll c l).2.pu1StrmBuffer.stores ⊆ (encodeSlice c l).2.pu1StrmBuffer.stores := by
  rw [encodeSlice_eq]
  exact stores_subset_encode (cabacEncodeAll c l).2 (.terminate, 1)

/-- In a slice that fits, the context follows the plain coder, symbol by symbol. -/
theorem SliceFits.idle (h : SliceFits models c (l ++ l')) (hm : ModelsOk models)
    (hl : Going (l ++ l')) (hc : ihevceCabacInit c₀ bs models .encodeBits = c)
    (hs : Sealed bs.pu1StrmBuffer.mem c.u4StrmBufOffset) (hrun : bs.i4ZeroBytesRun = 0)
    (hoff : c.u4StrmBufOffset < 2 ^ 32) (hmax : c.u4MaxStrmSize < 2 ^ 32) :
    Idle bs.pu1StrmBuffer.mem c.u4StrmBufOffset (cabacEncodeAll c l).2
      ((Coder.init models).codeAll l) := by
  have hbits := h.bits
  have hle := codeAll_bits_le ((Coder.init models).codeAll l) l'
  rw [Coder.codeAll, List.foldl_append] at hbits
  change (Coder.codeAll (Coder.codeAll _ l) l').interval.bits + 9 ≤ _ at hbits
  have hok := h.ok
  rw [encodeSlice_eq, encodeAll_append] at hok
  obtain ⟨hok₁, -⟩ := IhevceErrorT.or_eq_success.mp (IhevceErrorT.or_eq_success.mp hok).1
  have hidle : Idle bs.pu1StrmBuffer.mem c.u4StrmBufOffset c (Coder.init models) := by
    subst hc
    exact init_idle c₀ bs models hrun rfl hoff
  refine encodeAll_codes hidle (coder_init_ok hm) hs (fun sym hsym => hl sym (by simp [hsym]))
    (by omega) hok₁ fun i hi => ?_
  have hi' : i ∈ (cabacEncodeAll c (l ++ l')).2.pu1StrmBuffer.stores := by
    rw [encodeAll_append]
    exact stores_subset_encodeAll _ l' hi
  exact Nat.lt_of_le_of_lt (h.stores i (stores_subset_encodeSlice c _ hi')) hmax

/-- The bytes of a slice that fits are those of a payload that the plain coder determines. -/
theorem SliceFits.payload (h : SliceFits models c l) (hm : ModelsOk models) (hl : Going l)
    (hc : ihevceCabacInit c₀ bs models .encodeBits = c)
    (hs : Sealed bs.pu1StrmBuffer.mem c.u4StrmBufOffset) (hrun : bs.i4ZeroBytesRun = 0)
    (hoff : c.u4StrmBufOffset < 2 ^ 32) (hmax : c.u4MaxStrmSize < 2 ^ 32) :
    ∃ payload z, z < 8 ∧
      8 * payload.length = ((Coder.init models).codeAll l).interval.bits + 9 + z ∧
      byteVal payload =
        (2 * ((((Coder.init models).codeAll l).codeTerminate 1).interval.low / 2) + 1) * 2 ^ z ∧
      (∀ x ∈ payload, x < 256) ∧
      Holds (encodeSlice c l).2.pu1StrmBuffer.mem c.u4StrmBufOffset (epb.escape 0 payload) ∧
      (encodeSlice c l).2.u4StrmBufOffset = c.u4StrmBufOffset + (epb.escape 0 payload).length ∧
      (encodeSlice c l).2.au1CtxtModels = ((Coder.init models).codeAll l).models ∧
      ∀ i < c.u4StrmBufOffset, (encodeSlice c l).2.pu1StrmBuffer.mem i = bs.pu1StrmBuffer.mem i := by
  have hnil := List.append_nil l
  have hfits : SliceFits models c (l ++ []) := hnil.symm ▸ h
  have hcodes := hfits.idle hm (hnil.symm ▸ hl) hc hs hrun hoff hmax
  have hkok : ((Coder.init models).codeAll l).Ok := (coder_init_ok hm).codeAll hl
  obtain ⟨hbits, hok, hflush, hstores⟩ := h
  rw [encodeSlice_eq] at hok hstores ⊢
  obtain ⟨-, hok₂⟩ := IhevceErrorT.or_eq_success.mp hok
  generalize (cabacEncodeAll c l).2 = e at *
  generalize (Coder.init models).codeAll l = k at *
  have hreach : (ihevceCabacFlush (e.narrowTerminate 1).2).2.pu1StrmBuffer.InReach :=
    fun i hi => Nat.lt_of_le_of_lt (hstores i hi) hmax
  have hreach₂ : (e.narrowTerminate 1).2.pu1StrmBuffer.InReach :=
    fun i hi => hreach i (stores_subset_flush _ hi)
  have hterm : Idle bs.pu1StrmBuffer.mem c.u4StrmBufOffset (e.narrowTerminate 1).2
      (terminated k 1) := by
    refine narrowTerminate_codes hcodes hkok hs (by decide) ?_ hok₂ hreach₂
    change k.interval.bits + 7 < 2 ^ 35
    omega
  obtain ⟨payload, z, hz, hlen, hval, hbytes, hheld, hend, hmodels, hframe⟩ :=
    flush_codes hterm hs (by decide : 0 < 2 * 2 ^ 7) hflush hreach
  have hlow : (terminated k 1).interval.low / 2 ^ 8 = (k.codeTerminate 1).interval.low / 2 := by
    change (k.codeTerminate 1).interval.low * 2 ^ 7 / 2 ^ 8 = _
    omega
  rw [hlow] at hval
  refine ⟨payload, z, hz, ?_, hval, hbytes, hheld, hend, hmodels, hframe⟩
  rw [hlen]
  change k.interval.bits + 7 + 2 + z = _
  omega

end

/-- Slice data reads back, where no call of the encoder and no flush lacks room, the payload is no
longer than the buffer and every store goes into it. -/
theorem slice_readsBack {c₀ : Encoder.CabCtxt} {bs : Encoder.Bitstrm} (hm : ModelsOk models)
    (hl : Readable l) (hc : ihevceCabacInit c₀ bs models .encodeBits = c)
    (hs : Sealed bs.pu1StrmBuffer.mem c.u4StrmBufOffset) (hrun : bs.i4ZeroBytesRun = 0)
    (hoff : c.u4StrmBufOffset < 2 ^ 32) (hmax : c.u4MaxStrmSize < 2 ^ 32)
    (hbits : ((Coder.init models).codeAll l).interval.bits + 9 ≤ 8 * c.u4MaxStrmSize)
    (hok : (encodeSlice c l).1 = .success)
    (hflush : (ihevceCabacFlush ((cabacEncodeAll c l).2.narrowTerminate 1).2).1 = .success)
    (hstores : ∀ i ∈ (encodeSlice c l).2.pu1StrmBuffer.stores, i < c.u4MaxStrmSize) :
    SliceReadsBack l models (encodeSlice c l).2.au1CtxtModels
      (sliceBytes (encodeSlice c l).2 c.u4StrmBufOffset) := by
  have hfits : SliceFits models c l := ⟨hbits, hok, hflush, hstores⟩
  obtain ⟨payload, z, hz, hlen, hval, hbytes, hheld, hend, hmodels, -⟩ :=
    hfits.payload hm hl.1 hc hs hrun hoff hmax
  have hout : sliceBytes (encodeSlice c l).2 c.u4StrmBufOffset = epb.escape 0 payload := by
    rw [sliceBytes, hend, Nat.add_sub_cancel_left]
    exact hheld.map_range_add
  rw [hout, hmodels]
  exact payload_readsBack rfl hm hl hbytes hz hlen hval unescape_escape

/-- A context set up behind `off` bytes of the memory `m`, with all models 0. -/
def startAt (m : Nat → Nat) (u4Max off : Nat) : Encoder.CabCtxt :=
  ihevceCabacInit
    { eCabacOpMode := .encodeBits, u4BitsEstimatedQ12 := 0, u4Range := 0, u4Low := 0
      u4BitsGen := 0, u4OutStandingBytes := 0, pu1StrmBuffer := { mem := m, stores := [] }
      u4MaxStrmSize := 0, u4StrmBufOffset := 0, i4ZeroBytesRun := 0, au1CtxtModels := fun _ => 0
      i1EntropyCodingSyncEnabledFlag := 0, u4FirstSliceStartOffset := 0 }
    { ihevceBitstrmInit m u4Max with u4StrmBufOffset := off } (fun _ => 0) .encodeBits

theorem slice_readsBack_example :
    let l := [(.bin 3, 1), (.bypass, 1), (.bypassBins 10, 1000), (.terminate, 0), (.bin 3, 0)]
    SliceReadsBack l (fun _ => 0) (encodeSlice (startAt (fun _ => 1) 64 1) l).2.au1CtxtModels
      (sliceBytes (encodeSlice (startAt (fun _ => 1) 64 1) l).2 1) :=
  slice_readsBack (c := startAt (fun _ => 1) 64 1) (fun _ _ => by decide)
    ⟨by simp [Going, SymOk, ihevcCabCtxtEnd], by simp [CabacOp.Ok, ihevcCabCtxtEnd]⟩ rfl
    ⟨by decide, by decide, fun h => nomatch h⟩ rfl (by decide) (by decide) (by decide +kernel)
    (by decide +kernel) (by decide +kernel) (by decide +kernel)

/-- Behind the bytes 00 00 03 a carry into a first byte 3 takes the 3 before the slice for an
emulation prevention byte: it becomes 4, and a byte of the slice is lost. -/
theorem slice_lost_behind_epb :
    let c := startAt (fun i => if i < 3 then 0 else 3) 64 4
    let l := ([0, 0, 0, 0, 0, 1, 0, 0, 0, 0] ++ List.replicate 9 1).map fun b => (CabacOp.bypass, b)
    c.pu1StrmBuffer.mem 3 ≠ 0 ∧ Readable l ∧ (encodeSlice c l).1 = .success ∧
      (ihevceCabacFlush ((cabacEncodeAll c l).2.narrowTerminate 1).2).1 = .success ∧
      (∀ i ∈ (encodeSlice c l).2.pu1StrmBuffer.stores, i < c.u4MaxStrmSize) ∧
      ¬SliceReadsBack l (fun _ => 0) (encodeSlice c l).2.au1CtxtModels
        (sliceBytes (encodeSlice c l).2 4) := by
  intro c l
  refine ⟨by decide, ⟨by simp [l, Going, SymOk], by simp [l, CabacOp.Ok]⟩, by decide +kernel,
    by decide +kernel, by decide +kernel, fun h => ?_⟩
  have hbytes : epb.unescape 0 (sliceBytes (encodeSlice c l).2 4) = [59, 191, 240] := by
    decide +kernel
  rw [SliceReadsBack, hbytes] at h
  have hbuf : ∀ i, [59, 191, 240].getD i 0 < 256 :=
    getD_of_forall (P := (· < 256)) (by decide) (by decide)
  obtain ⟨-, houts, -⟩ := h _ 0 (bitsInit_at hbuf (n := 16)) (holds_getD _ 0)
  revert houts
  decide +kernel

end Libhevc.RoundTrip
