import Libhevc.Encoder.Cabac
import Libhevc.Encoder.CarryLaws

/-!
# The encoder's engine follows the plain coder

The bytes written, the outstanding ones and `u4_low` are the low end of the
plain coder's interval.
-/

namespace Libhevc.Encoder

open Memory BitString Escape CarryChain RangeCoder Spec

/-- The context stands for the plain coder `k`, with the settled bytes in memory from `a` on. -/
structure Codes (m : Nat → Nat) (a : Nat) (c : CabCtxt) (d : Digits) (k : Coder) : Prop extends
    Counts c d k where
  reaches : Reaches m c.sink a d.bytes

theorem putByte_held (h : c.leadByte = 0xff) :
    ihevceCabacPutByte c =
      (.success, { c.dropLead with u4OutStandingBytes := u32 (c.u4OutStandingBytes + 1) }) :=
  if_pos h

theorem putByte_out (h : c.leadByte ≠ 0xff) (hroom : ¬c.NoRoom) :
    ihevceCabacPutByte c =
      (.success, { c.dropLead.withSink (putbyteEpb (c.sink.settle ((c.leadByte >>> 8) &&& 1)
        c.u4OutStandingBytes) (c.leadByte &&& 0xFF)) with u4OutStandingBytes := 0 }) :=
  (if_neg h).trans (if_neg hroom)

theorem putByte_full (h : c.leadByte ≠ 0xff) (hroom : c.NoRoom) :
    ihevceCabacPutByte c = (.bitstreamBufferOverflow, c.dropLead) :=
  (if_neg h).trans (if_pos hroom)

theorem putByte_room (h : c.leadByte ≠ 0xff) (hok : (ihevceCabacPutByte c).1 = .success) :
    ¬c.NoRoom := by
  intro hroom
  rw [putByte_full h hroom] at hok
  contradiction

/-- A byte leaves the low end; the interval stays. -/
theorem Codes.putByte (h : Codes m a c d k) (hs : Sealed m a) (hgen : 9 < c.u4BitsGen)
    (hr : 0 < c.u4Range) (hr512 : c.u4Range < 512) (hbits : k.interval.bits < 2 ^ 35)
    (hok : (ihevceCabacPutByte c).1 = .success)
    (hstores : (ihevceCabacPutByte c).2.pu1StrmBuffer.InReach) :
    ∃ d', Codes m a (ihevceCabacPutByte c).2 d' k ∧
      (ihevceCabacPutByte c).2.u4BitsGen = c.u4BitsGen - 8 := by
  obtain ⟨hcounts, hreaches⟩ := h
  obtain ⟨hlt, hcarry⟩ := hcounts.lead hgen hr
  have hpushed := hcounts.push hgen hr hr512
  have hout := hcounts.outstanding
  have hkbits := hcounts.bits
  by_cases hff : c.leadByte = 0xff
  · rw [putByte_held hff]
    have hout' : u32 (c.u4OutStandingBytes + 1) = (d.push c.leadByte).outstanding := by
      have hlen : d.length = d.bytes.length + d.outstanding := rfl
      rw [Digits.push, if_pos hff, hout]
      exact u32_of_lt (by omega)
    rw [hout']
    refine ⟨d.push c.leadByte, ⟨hpushed, ?_⟩, rfl⟩
    rw [Digits.push, if_pos hff]
    exact hreaches
  · rw [putByte_out hff (putByte_room hff hok)] at hstores ⊢
    have hcarry' : (c.leadByte >>> 8) &&& 1 = (decide (256 ≤ c.leadByte)).toNat := top_bit hlt
    rw [hcarry', and_byte] at hstores ⊢
    have hsub := stores_subset_putBytes
      (c.sink.settle (decide (256 ≤ c.leadByte)).toNat c.u4OutStandingBytes) [c.leadByte % 256]
    have hsettle := hreaches.settle hs (decide (256 ≤ c.leadByte)) (by simpa using hcarry)
      fun i hi => hstores i (hsub (hout ▸ hi))
    rw [← hout] at hsettle
    have hput := hsettle.putBytes (k := [c.leadByte % 256])
      (by simpa using Nat.mod_lt _ (by decide)) hstores
    have hpush : d.push c.leadByte =
        { bytes := d.settle (256 ≤ c.leadByte) ++ [c.leadByte % 256], outstanding := 0 } :=
      if_neg hff
    rw [hpush] at hpushed
    exact ⟨_, ⟨⟨hpushed.mode, hpushed.outstanding, hpushed.low, hpushed.range, hpushed.bits,
      hpushed.fits, hpushed.models⟩, hput⟩, rfl⟩

-- ---------------------------------------------------------------------------
-- One symbol
-- ---------------------------------------------------------------------------

/-- The context between two symbols. -/
def Idle (m : Nat → Nat) (a : Nat) (c : CabCtxt) (k : Coder) : Prop :=
  (∃ d, Codes m a c d k) ∧ c.u4BitsGen ≤ 9

theorem Codes.estimate (h : Codes m a c d k) : Codes m a (c.estimate e) d k :=
  ⟨h.toCounts.estimate, h.reaches⟩

theorem Codes.putReady (h : Codes m a c d k) (hs : Sealed m a) (hgen : c.u4BitsGen ≤ 17)
    (hr : Normal c.u4Range) (hbits : k.interval.bits < 2 ^ 35)
    (hok : c.putReady.1 = .success) (hstores : c.putReady.2.pu1StrmBuffer.InReach) :
    Idle m a c.putReady.2 k := by
  unfold CabCtxt.putReady at hok hstores ⊢
  split
  · rename_i hlt
    rw [if_pos hlt] at hok hstores
    have hpos : 0 < c.u4Range := by
      have := hr.1
      omega
    obtain ⟨d', hcodes, hgen'⟩ := h.putByte hs hlt hpos hr.2 hbits hok hstores
    exact ⟨⟨d', hcodes⟩, by omega⟩
  · rename_i hle
    exact ⟨⟨d, h⟩, Nat.le_of_not_lt hle⟩

theorem narrowBin_sink (c : CabCtxt) (bin ctxt : Nat) : (c.narrowBin bin ctxt).sink = c.sink := by
  unfold CabCtxt.narrowBin
  dsimp only
  split <;> rfl

theorem encodeBin_codes (h : Idle m a c k) (hk : k.Ok) (hs : Sealed m a)
    (hctxt : ctxt < ihevcCabCtxtEnd) (hbin : bin < 2)
    (hbits : (k.codeBin ctxt bin).interval.bits < 2 ^ 35)
    (hok : (ihevceCabacEncodeBin c bin ctxt).1 = .success)
    (hstores : (ihevceCabacEncodeBin c bin ctxt).2.pu1StrmBuffer.InReach) :
    Idle m a (ihevceCabacEncodeBin c bin ctxt).2 (k.codeBin ctxt bin) := by
  obtain ⟨⟨d, hcodes⟩, hgen⟩ := h
  obtain ⟨hnarrow, hgen'⟩ := hcodes.estimate.narrowBin hk hgen hctxt
  have hcodes' : Codes m a _ d (k.codeBin ctxt bin) :=
    ⟨hnarrow.updateModel ctxt hbin, (narrowBin_sink _ bin ctxt).symm ▸ hcodes.estimate.reaches⟩
  unfold ihevceCabacEncodeBin at hok hstores ⊢
  rw [hcodes.mode] at hok hstores ⊢
  refine hcodes'.putReady hs hgen' ?_ hbits hok hstores
  have hok' : (k.code (.bin ctxt, bin)).Ok := hk.code ⟨hctxt, hbin⟩ (by simp)
  exact hcodes'.range ▸ hok'.range

theorem stores_subset_addCarry (s : ByteSink) : s.ptr.stores ⊆ s.addCarry.ptr.stores :=
  fun _ hi => List.mem_cons_of_mem _ hi

theorem stores_subset_settle (s : ByteSink) (carry o : Nat) :
    s.ptr.stores ⊆ (s.settle carry o).ptr.stores := by
  refine List.Subset.trans ?_ (stores_subset_putBytes _ _)
  split
  · exact stores_subset_addCarry s
  · exact List.Subset.refl _

theorem stores_subset_putReady (c : CabCtxt) :
    c.pu1StrmBuffer.stores ⊆ c.putReady.2.pu1StrmBuffer.stores := by
  unfold CabCtxt.putReady ihevceCabacPutByte
  split
  · split
    · exact List.Subset.refl _
    · split
      · exact List.Subset.refl _
      · exact List.Subset.trans (stores_subset_settle c.sink _ _)
          (stores_subset_putBytes
            (c.sink.settle ((c.leadByte >>> 8) &&& 1) c.u4OutStandingBytes) [c.leadByte &&& 0xFF])
  · exact List.Subset.refl _

theorem stores_subset_appendBins (c : CabCtxt) (v n : Nat) :
    c.pu1StrmBuffer.stores ⊆ (c.appendBins v n).2.pu1StrmBuffer.stores :=
  stores_subset_putReady (c.append v n)

theorem appendBins_codes (h : Idle m a c k) (hk : k.Ok) (hs : Sealed m a) (hn : n ≤ 8)
    (hv : v < 2 ^ n) (hbits : (k.codeBypassBins n v).interval.bits < 2 ^ 35)
    (hok : (c.appendBins v n).1 = .success)
    (hstores : (c.appendBins v n).2.pu1StrmBuffer.InReach) :
    Idle m a (c.appendBins v n).2 (k.codeBypassBins n v) := by
  obtain ⟨⟨d, hcodes⟩, hgen⟩ := h
  obtain ⟨hcounts, hgen'⟩ := hcodes.append hgen hn hv
  have hcodes' : Codes m a (c.append v n) d (k.codeBypassBins n v) := ⟨hcounts, hcodes.reaches⟩
  exact hcodes'.putReady hs hgen' (hcounts.range ▸ hk.range) hbits hok hstores

@[simp] theorem estimate_mode (c : CabCtxt) (e : Nat) :
    (c.estimate e).eCabacOpMode = c.eCabacOpMode := rfl

theorem estimate_buffer (c : CabCtxt) (e : Nat) :
    (c.estimate e).pu1StrmBuffer = c.pu1StrmBuffer := rfl

theorem encodeBypassBin_eq (h : c.eCabacOpMode = .encodeBits) (hbin : bin < 2) :
    ihevceCabacEncodeBypassBin c bin = (c.estimate (1 <<< cabacFracBitsQ)).appendBins bin 1 := by
  generalize hc : c.estimate (1 <<< cabacFracBitsQ) = c'
  have hmode : c'.eCabacOpMode = .encodeBits := by rw [← hc, estimate_mode, h]
  rw [ihevceCabacEncodeBypassBin, hc, CabCtxt.appendBins, CabCtxt.append]
  obtain rfl | rfl : bin = 0 ∨ bin = 1 := by omega
  · simp [hmode]
  · simp [hmode]

theorem stores_subset_bypassBinsLoop (v r n : Nat) (c : CabCtxt) :
    c.pu1StrmBuffer.stores ⊆ (bypassBinsLoop v r n c).2.pu1StrmBuffer.stores := by
  induction r generalizing n c with
  | zero => exact stores_subset_appendBins c _ n
  | succ r ih =>
    unfold bypassBinsLoop
    split
    · exact List.Subset.trans (stores_subset_appendBins c _ 8) (ih ..)
    · exact stores_subset_appendBins c _ n

theorem bypassBinsLoop_codes (h : Idle m a c k) (hk : k.Ok) (hs : Sealed m a) (hn : n ≤ 8 * r + 8)
    (hbits : (k.codeBypassBins n (v % 2 ^ n)).interval.bits < 2 ^ 35)
    (hok : (bypassBinsLoop v r n c).1 = .success)
    (hstores : (bypassBinsLoop v r n c).2.pu1StrmBuffer.InReach) :
    Idle m a (bypassBinsLoop v r n c).2 (k.codeBypassBins n (v % 2 ^ n)) := by
  induction r generalizing n c k with
  | zero =>
    unfold bypassBinsLoop at hok hstores ⊢
    rw [and_low] at hok hstores ⊢
    exact appendBins_codes h hk hs (by omega) (Nat.mod_lt _ (Nat.two_pow_pos n)) hbits hok hstores
  | succ r ih =>
    unfold bypassBinsLoop at hok hstores ⊢
    by_cases hgt : 8 < n
    · rw [if_pos hgt] at hok hstores ⊢
      obtain ⟨hok₁, hok₂⟩ := IhevceErrorT.or_eq_success.mp hok
      obtain ⟨n, rfl⟩ : ∃ n', n = 8 + n' := ⟨n - 8, by omega⟩
      have hsub : 8 + n - 8 = n := Nat.add_sub_cancel_left ..
      -- the leading 8 bins, and what is left of the value
      have hdiv : v % 2 ^ (8 + n) / 2 ^ n = (v >>> n) &&& 0xff := by
        rw [and_byte, Nat.shiftRight_eq_div_pow, Nat.add_comm, pow_add, Nat.mod_mul_right_div_self]
        rfl
      have hmod : v % 2 ^ (8 + n) % 2 ^ n = v % 2 ^ n := by
        rw [Nat.add_comm, pow_add, Nat.mod_mul_right_mod]
      rw [codeBypassBins_add, hdiv, hmod] at hbits ⊢
      rw [hsub] at hok₁ hok₂ hstores ⊢
      have hlead : (v >>> n) &&& 0xff < 2 ^ 8 := by
        rw [and_byte]
        exact Nat.mod_lt _ (by decide)
      have hreach := fun i hi => hstores i (stores_subset_bypassBinsLoop _ _ _ _ hi)
      have hfirst := appendBins_codes h hk hs le_rfl hlead
        (Nat.lt_of_le_of_lt (Nat.le_add_right ..) hbits) hok₁ hreach
      exact ih hfirst ⟨hk.range, hk.models⟩ (by omega) hbits hok₂ hstores
    · rw [if_neg hgt, and_low] at hok hstores ⊢
      exact appendBins_codes h hk hs (by omega) (Nat.mod_lt _ (Nat.two_pow_pos n)) hbits hok hstores

theorem encodeBypassBins_eq (h : c.eCabacOpMode = .encodeBits) :
    ihevceCabacEncodeBypassBins c v n =
      bypassBinsLoop v n n (c.estimate (n <<< cabacFracBitsQ)) := by
  generalize hc : c.estimate (n <<< cabacFracBitsQ) = c'
  have hmode : c'.eCabacOpMode = .encodeBits := by rw [← hc, estimate_mode, h]
  rw [ihevceCabacEncodeBypassBins, hc]
  simp [hmode]

theorem encodeBypassBins_codes (h : Idle m a c k) (hk : k.Ok) (hs : Sealed m a) (hv : v < 2 ^ n)
    (hbits : (k.codeBypassBins n v).interval.bits < 2 ^ 35)
    (hok : (ihevceCabacEncodeBypassBins c v n).1 = .success)
    (hstores : (ihevceCabacEncodeBypassBins c v n).2.pu1StrmBuffer.InReach) :
    Idle m a (ihevceCabacEncodeBypassBins c v n).2 (k.codeBypassBins n v) := by
  obtain ⟨⟨d, hcodes⟩, hgen⟩ := h
  rw [encodeBypassBins_eq hcodes.mode] at hok hstores ⊢
  have hidle : Idle m a (c.estimate (n <<< cabacFracBitsQ)) k := ⟨⟨d, hcodes.estimate⟩, hgen⟩
  have hmod := Nat.mod_eq_of_lt hv
  have hloop := bypassBinsLoop_codes hidle hk hs (by omega) (by rwa [hmod]) hok hstores
  rwa [hmod] at hloop

theorem narrowTerminate_codes (h : Idle m a c k) (hk : k.Ok) (hs : Sealed m a) (hbin : bin < 2)
    (hbits : (terminated k bin).interval.bits < 2 ^ 35)
    (hok : (c.narrowTerminate bin).1 = .success)
    (hstores : (c.narrowTerminate bin).2.pu1StrmBuffer.InReach) :
    Idle m a (c.narrowTerminate bin).2 (terminated k bin) := by
  obtain ⟨⟨d, hcodes⟩, hgen⟩ := h
  obtain ⟨hcounts, hgen'⟩ := hcodes.part hk hgen hbin
  have hcodes' : Codes m a (c.part bin) d (terminated k bin) := ⟨hcounts, hcodes.reaches⟩
  exact hcodes'.putReady hs hgen' (hcounts.range ▸ terminated_normal hk hbin) hbits hok hstores

-- ---------------------------------------------------------------------------
-- The flush
-- ---------------------------------------------------------------------------

/-- The bits that do not fill a byte, a stop bit and zeros. -/
theorem lastByte_eq (hn : n ≤ 7) :
    ((r <<< (8 - n)) ||| (1 <<< (7 - n))) &&& 0xFF = (2 * (r % 2 ^ n) + 1) * 2 ^ (7 - n) := by
  have hpow : 2 ^ (8 - n) = 2 * 2 ^ (7 - n) := by rw [← pow_succ', show 7 - n + 1 = 8 - n by omega]
  have hfull : 256 = 2 ^ n * 2 ^ (8 - n) := by
    rw [← pow_add, Nat.add_sub_cancel' (by omega : n ≤ 8)]
    rfl
  have hpos := Nat.two_pow_pos (7 - n)
  have hr := Nat.mod_lt r (Nat.two_pow_pos n)
  have hlt : (2 * (r % 2 ^ n) + 1) * 2 ^ (7 - n) < 256 := by
    have := Nat.mul_le_mul_right (2 ^ (8 - n)) (Nat.succ_le_of_lt hr)
    rw [← hfull, Nat.succ_mul, hpow] at this
    have hexp : (2 * (r % 2 ^ n) + 1) * 2 ^ (7 - n) =
        r % 2 ^ n * (2 * 2 ^ (7 - n)) + 2 ^ (7 - n) := by ring
    omega
  have hmod : (r * 2 ^ (8 - n) + 2 ^ (7 - n)) % 256 =
      (2 * (r % 2 ^ n) + 1) * 2 ^ (7 - n) := by
    have hsplit : r * 2 ^ (8 - n) + 2 ^ (7 - n) =
        256 * (r / 2 ^ n) + (2 * (r % 2 ^ n) + 1) * 2 ^ (7 - n) := by
      nth_rewrite 1 [← Nat.div_add_mod r (2 ^ n)]
      rw [hfull, hpow]
      ring
    rw [hsplit, Nat.mul_add_mod, Nat.mod_eq_of_lt hlt]
  rw [shiftLeft_or (by rw [Nat.one_shiftLeft, hpow]; omega), Nat.one_shiftLeft, and_byte, hmod]

/-- The last bytes hold the remaining bits, a stop bit and fewer than 8 zeros. -/
theorem flushBytes_eq (hn : n ≤ 15) (hr : r < 2 ^ n) :
    ∃ z < 8, 8 * (flushBytes r n).length = n + 1 + z ∧
      byteVal (flushBytes r n) = (2 * r + 1) * 2 ^ z ∧ ∀ x ∈ flushBytes r n, x < 256 := by
  have hbyte (x : Nat) : x &&& 0xFF < 256 := by
    rw [and_byte]
    exact Nat.mod_lt _ (by decide)
  unfold flushBytes
  dsimp only
  split
  · rename_i h8
    obtain ⟨j, rfl⟩ : ∃ j, n = j + 8 := ⟨n - 8, by omega⟩
    have hlead : (r >>> j) &&& 0xFF = r / 2 ^ j := by
      rw [and_byte, Nat.shiftRight_eq_div_pow, Nat.mod_eq_of_lt]
      exact Nat.div_lt_of_lt_mul (by rwa [pow_add] at hr)
    have hdm := Nat.div_add_mod r (2 ^ j)
    have h256 : 256 = 2 ^ j * 2 * 2 ^ (7 - j) := by
      rw [← pow_succ, ← pow_add, show j + 1 + (7 - j) = 8 by omega]
      rfl
    rw [Nat.add_sub_cancel, lastByte_eq (by omega), hlead]
    refine ⟨7 - j, by omega, by simp; omega, ?_, ?_⟩
    · have hval : byteVal [r / 2 ^ j, (2 * (r % 2 ^ j) + 1) * 2 ^ (7 - j)] =
          256 * (r / 2 ^ j) + (2 * (r % 2 ^ j) + 1) * 2 ^ (7 - j) := by simp [byteVal]
      have hr2 : 2 * r + 1 = 2 * (2 ^ j * (r / 2 ^ j) + r % 2 ^ j) + 1 := by rw [hdm]
      rw [hval, h256, hr2]
      ring
    · simp only [List.mem_cons, List.not_mem_nil, or_false, forall_eq_or_imp, forall_eq]
      exact ⟨hlead ▸ hbyte _, lastByte_eq (r := r) (n := j) (by omega) ▸ hbyte _⟩
  · rename_i h8
    refine ⟨7 - n, by omega, by simp; omega, ?_, ?_⟩
    · rw [lastByte_eq (by omega), Nat.mod_eq_of_lt hr]
      simp [byteVal]
    · simp only [List.mem_singleton, forall_eq]
      exact hbyte _

/-- What the flush leaves: the low end of the interval without its last 8 bits, a stop bit, zeros. -/
theorem flush_codes (h : Idle m a c k) (hs : Sealed m a) (hr : 0 < k.interval.range)
    (hok : (ihevceCabacFlush c).1 = .success)
    (hstores : (ihevceCabacFlush c).2.pu1StrmBuffer.InReach) :
    ∃ l z, z < 8 ∧ 8 * l.length = k.interval.bits + 2 + z ∧
      byteVal l = (2 * (k.interval.low / 2 ^ 8) + 1) * 2 ^ z ∧ (∀ x ∈ l, x < 256) ∧
      Holds (ihevceCabacFlush c).2.pu1StrmBuffer.mem a (epb.escape 0 l) ∧
      (ihevceCabacFlush c).2.u4StrmBufOffset = a + (epb.escape 0 l).length ∧
      (ihevceCabacFlush c).2.au1CtxtModels = k.models ∧
      ∀ i < a, (ihevceCabacFlush c).2.pu1StrmBuffer.mem i = m i := by
  obtain ⟨⟨d, ⟨hmode, hout, hlow, hrange, hkbits, hfits, hmodels⟩, hreaches⟩, hgen⟩ := h
  have hroom : ¬c.NoRoom := by
    intro hroom
    have hover : ihevceCabacFlush c = (.bitstreamBufferOverflow, c) := if_pos hroom
    rw [hover] at hok
    contradiction
  have hflush : ihevceCabacFlush c = _ := if_neg hroom
  have hK : c.u4Low < 2 * 2 ^ (c.u4BitsGen + 9) := by
    have := hfits.sum
    omega
  have hcarry : (c.u4Low >>> (c.u4BitsGen + cabacBits)) &&& 1 =
      (decide (2 ^ (c.u4BitsGen + 9) ≤ c.u4Low)).toNat := top_bit hK
  have hrem : (c.u4Low &&& ((1 <<< (c.u4BitsGen + cabacBits)) - 1)) >>>
      (c.u4BitsGen + cabacBits - (c.u4BitsGen + 1)) =
      c.u4Low % 2 ^ (c.u4BitsGen + 9) / 2 ^ 8 := by
    rw [and_low, Nat.shiftRight_eq_div_pow, cabacBits,
      show c.u4BitsGen + 9 - (c.u4BitsGen + 1) = 8 by omega]
  rw [hcarry, hrem] at hflush
  rw [hflush] at hstores ⊢
  have hfull : decide (2 ^ (c.u4BitsGen + 9) ≤ c.u4Low) = true → ¬d.Full := fun hc =>
    hfits.carry (hrange ▸ hr) (of_decide_eq_true hc)
  generalize hcd : decide (2 ^ (c.u4BitsGen + 9) ≤ c.u4Low) = carry at *
  have hsub := stores_subset_putBytes (c.sink.settle carry.toNat c.u4OutStandingBytes)
    (flushBytes (c.u4Low % 2 ^ (c.u4BitsGen + 9) / 2 ^ 8) (c.u4BitsGen + 1))
  have hsettle := hreaches.settle hs _ hfull fun i hi => hstores i (hsub (hout ▸ hi))
  rw [← hout] at hsettle
  have hremlt : c.u4Low % 2 ^ (c.u4BitsGen + 9) / 2 ^ 8 < 2 ^ (c.u4BitsGen + 1) := by
    refine Nat.div_lt_of_lt_mul ?_
    rw [← pow_add, show 8 + (c.u4BitsGen + 1) = c.u4BitsGen + 9 by omega]
    exact Nat.mod_lt _ (Nat.two_pow_pos _)
  obtain ⟨z, hz, hlen, hval, hbytes⟩ := flushBytes_eq (by omega) hremlt
  have hput := hsettle.putBytes hbytes hstores
  refine ⟨_, z, hz, ?_, ?_, hput.written.bytes, hput.written.holds, hput.written.off, hmodels,
    hput.written.frame⟩
  · rw [List.length_append, length_settle _ hfull, Nat.mul_add, hlen, hkbits]
    omega
  · -- the carry and the bits below it are `u4_low`
    have hsplit : (d.value + carry.toNat) * 2 ^ (c.u4BitsGen + 9) +
        c.u4Low % 2 ^ (c.u4BitsGen + 9) = k.interval.low := by
      rw [hlow, Nat.add_mul]
      cases carry with
      | false =>
        rw [Nat.mod_eq_of_lt (Nat.lt_of_not_le (of_decide_eq_false hcd)), Bool.toNat_false]
        omega
      | true =>
        have hge := of_decide_eq_true hcd
        rw [Nat.mod_eq_sub_mod hge, Nat.mod_eq_of_lt (by omega), Bool.toNat_true]
        omega
    have hdiv : k.interval.low / 2 ^ 8 = (d.value + carry.toNat) * 2 ^ (c.u4BitsGen + 1) +
        c.u4Low % 2 ^ (c.u4BitsGen + 9) / 2 ^ 8 := by
      rw [← hsplit, show c.u4BitsGen + 9 = 8 + (c.u4BitsGen + 1) by omega, pow_add 2 8,
        Nat.mul_left_comm, Nat.mul_add_div (by decide)]
    have hpow : 256 ^ (flushBytes (c.u4Low % 2 ^ (c.u4BitsGen + 9) / 2 ^ 8)
        (c.u4BitsGen + 1)).length = 2 * 2 ^ (c.u4BitsGen + 1) * 2 ^ z := by
      rw [show 256 = 2 ^ 8 by rfl, ← pow_mul, hlen, pow_add, pow_succ']
    rw [byteVal_append, byteVal_settle _ hfull, hval, hpow, hdiv]
    ring

-- ---------------------------------------------------------------------------
-- Sequences of symbols
-- ---------------------------------------------------------------------------

def cabacEncode (c : CabCtxt) : CabacSym → IhevceErrorT × CabCtxt
  | (.bin ctxtIndex, v) => ihevceCabacEncodeBin c v ctxtIndex
  | (.bypass, v) => ihevceCabacEncodeBypassBin c v
  | (.bypassBins numbins, v) => ihevceCabacEncodeBypassBins c v numbins
  | (.terminate, v) => ihevceCabacEncodeTerminate c v

def cabacEncodeAll : CabCtxt → List CabacSym → IhevceErrorT × CabCtxt
  | c, [] => (.success, c)
  | c, sym :: l =>
    let r := cabacEncode c sym
    let rest := cabacEncodeAll r.2 l
    (r.1.or rest.1, rest.2)

theorem stores_subset_flush (c : CabCtxt) :
    c.pu1StrmBuffer.stores ⊆ (ihevceCabacFlush c).2.pu1StrmBuffer.stores := by
  unfold ihevceCabacFlush
  dsimp only
  split
  · exact List.Subset.refl _
  · exact List.Subset.trans (stores_subset_settle c.sink _ _) (stores_subset_putBytes _ _)

theorem stores_subset_encode (c : CabCtxt) (sym : CabacSym) :
    c.pu1StrmBuffer.stores ⊆ (cabacEncode c sym).2.pu1StrmBuffer.stores := by
  obtain ⟨op, v⟩ := sym
  cases op with
  | bin ctxt =>
    unfold cabacEncode ihevceCabacEncodeBin
    cases c.eCabacOpMode with
    | encodeBits =>
      refine List.Subset.trans ?_ (stores_subset_putReady _)
      change _ ⊆ (CabCtxt.narrowBin _ v ctxt).sink.ptr.stores
      rw [narrowBin_sink]
      exact List.Subset.refl _
    | computeBits => exact List.Subset.refl _
  | bypass =>
    unfold cabacEncode ihevceCabacEncodeBypassBin
    dsimp only
    rw [← estimate_buffer c (1 <<< cabacFracBitsQ)]
    generalize c.estimate (1 <<< cabacFracBitsQ) = c'
    split
    · refine List.Subset.trans ?_ (stores_subset_putReady _)
      exact List.Subset.refl _
    · exact List.Subset.refl _
  | bypassBins n =>
    unfold cabacEncode ihevceCabacEncodeBypassBins
    dsimp only
    rw [← estimate_buffer c (n <<< cabacFracBitsQ)]
    generalize c.estimate (n <<< cabacFracBitsQ) = c'
    split
    · exact stores_subset_bypassBinsLoop v n n c'
    · exact List.Subset.refl _
  | terminate =>
    have hnarrow : c.pu1StrmBuffer.stores ⊆ (c.narrowTerminate v).2.pu1StrmBuffer.stores :=
      stores_subset_putReady (c.part v)
    unfold cabacEncode ihevceCabacEncodeTerminate
    dsimp only
    split
    · exact List.Subset.trans hnarrow (stores_subset_flush _)
    · exact hnarrow

theorem stores_subset_encodeAll (c : CabCtxt) (l : List CabacSym) :
    c.pu1StrmBuffer.stores ⊆ (cabacEncodeAll c l).2.pu1StrmBuffer.stores := by
  induction l generalizing c with
  | nil => exact List.Subset.refl _
  | cons sym l ih => exact List.Subset.trans (stores_subset_encode c sym) (ih _)

theorem encodeAll_append (c : CabCtxt) (l l' : List CabacSym) :
    cabacEncodeAll c (l ++ l') =
      ((cabacEncodeAll c l).1.or (cabacEncodeAll (cabacEncodeAll c l).2 l').1,
        (cabacEncodeAll (cabacEncodeAll c l).2 l').2) := by
  induction l generalizing c with
  | nil =>
    simp only [List.nil_append, cabacEncodeAll]
    rfl
  | cons sym l ih =>
    simp only [List.cons_append, cabacEncodeAll, ih]
    cases (cabacEncode c sym).1 <;> rfl

theorem encode_codes (h : Idle m a c k) (hk : k.Ok) (hs : Sealed m a) (hsym : SymOk sym)
    (hgo : sym ≠ (.terminate, 1)) (hbits : (k.code sym).interval.bits < 2 ^ 35)
    (hok : (cabacEncode c sym).1 = .success)
    (hstores : (cabacEncode c sym).2.pu1StrmBuffer.InReach) :
    Idle m a (cabacEncode c sym).2 (k.code sym) := by
  obtain ⟨op, v⟩ := sym
  cases op with
  | bin ctxt => exact encodeBin_codes h hk hs hsym.1 hsym.2 hbits hok hstores
  | bypass =>
    obtain ⟨⟨d, hcodes⟩, hgen⟩ := h
    have hv : v < 2 := hsym
    have heq : cabacEncode c (.bypass, v) = _ := encodeBypassBin_eq hcodes.mode hv
    rw [heq] at hok hstores ⊢
    exact appendBins_codes ⟨⟨d, hcodes.estimate⟩, hgen⟩ hk hs (by decide) hv hbits hok hstores
  | bypassBins n => exact encodeBypassBins_codes h hk hs hsym hbits hok hstores
  | terminate =>
    obtain rfl : v = 0 := by
      have hlt : v < 2 := hsym
      have hv : v ≠ 1 := by
        rintro rfl
        exact hgo rfl
      omega
    have hnarrow : Idle m a (c.narrowTerminate 0).2 (terminated k 0) :=
      narrowTerminate_codes h hk hs (by decide) hbits hok hstores
    obtain ⟨⟨d, hcodes⟩, hgen⟩ := hnarrow
    exact ⟨⟨d, hcodes.estimate⟩, hgen⟩

theorem code_bits_le (k : Coder) (sym : CabacSym) : k.interval.bits ≤ (k.code sym).interval.bits := by
  obtain ⟨op, v⟩ := sym
  cases op with
  | bin ctxt =>
    simp only [Coder.code, Coder.codeBin]
    split <;> exact Nat.le_add_right ..
  | bypass => exact Nat.le_add_right ..
  | bypassBins n => exact Nat.le_add_right ..
  | terminate =>
    simp only [Coder.code, Coder.codeTerminate]
    split
    · exact le_rfl
    · exact Nat.le_add_right ..

theorem codeAll_bits_le (k : Coder) (l : List CabacSym) :
    k.interval.bits ≤ (k.codeAll l).interval.bits := by
  induction l generalizing k with
  | nil => exact le_rfl
  | cons sym l ih => exact Nat.le_trans (code_bits_le k sym) (ih _)

theorem encodeAll_codes (h : Idle m a c k) (hk : k.Ok) (hs : Sealed m a) (hl : Going l)
    (hbits : (k.codeAll l).interval.bits < 2 ^ 35) (hok : (cabacEncodeAll c l).1 = .success)
    (hstores : (cabacEncodeAll c l).2.pu1StrmBuffer.InReach) :
    Idle m a (cabacEncodeAll c l).2 (k.codeAll l) := by
  induction l generalizing c k with
  | nil => exact h
  | cons sym l ih =>
    obtain ⟨hsym, hgo⟩ := hl sym (by simp)
    obtain ⟨hok₁, hok₂⟩ := IhevceErrorT.or_eq_success.mp hok
    have hle := codeAll_bits_le (k.code sym) l
    have hstep := encode_codes h hk hs hsym hgo (Nat.lt_of_le_of_lt hle hbits) hok₁
      fun i hi => hstores i (stores_subset_encodeAll _ l hi)
    exact ih hstep (hk.code hsym hgo) (fun x hx => hl x (by simp [hx])) hbits hok₂ hstores

end Libhevc.Encoder
