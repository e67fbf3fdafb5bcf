import Libhevc.Encoder.Stream

/-!
# The encoder's stream buffer

In every run of clear calls all stores go inside the buffer, and a call whose
bytes do not fit reports the overflow.
-/

namespace Libhevc.Encoder

open Spec

-- ---------------------------------------------------------------------------
-- A call that succeeds does what it does without room checks
-- ---------------------------------------------------------------------------

theorem noRoom_unlimited (c : CabCtxt) : ¬c.unlimited.NoRoom :=
  Nat.not_le_of_lt (u32_lt _)

theorem putReady_unlimited {c : CabCtxt} (hok : c.putReady.1 = .success) :
    c.unlimited.putReady = (.success, c.putReady.2.unlimited) := by
  unfold CabCtxt.putReady at hok ⊢
  by_cases hgen : cabacBits < c.u4BitsGen
  · have hgen' : cabacBits < c.unlimited.u4BitsGen := hgen
    rw [if_pos hgen] at hok ⊢
    rw [if_pos hgen']
    by_cases hff : c.leadByte = 0xff
    · rw [putByte_held hff, putByte_held (c := c.unlimited) hff]
      rfl
    · rw [putByte_out hff (putByte_room hff hok),
        putByte_out (c := c.unlimited) hff (noRoom_unlimited c)]
      rfl
  · have hgen' : ¬cabacBits < c.unlimited.u4BitsGen := hgen
    rw [if_neg hgen, if_neg hgen']

theorem bypassBinsLoop_unlimited {c : CabCtxt} (hok : (bypassBinsLoop v r n c).1 = .success) :
    bypassBinsLoop v r n c.unlimited = (.success, (bypassBinsLoop v r n c).2.unlimited) := by
  induction r generalizing n c with
  | zero => exact putReady_unlimited hok
  | succ r ih =>
    unfold bypassBinsLoop at hok ⊢
    split
    · rename_i hgt
      rw [if_pos hgt] at hok
      obtain ⟨hok₁, hok₂⟩ := IhevceErrorT.or_eq_success.mp hok
      have hfirst : c.unlimited.appendBins _ 8 = (.success, (c.appendBins _ 8).2.unlimited) :=
        putReady_unlimited hok₁
      rw [hfirst]
      dsimp only
      rw [ih hok₂]
      rfl
    · rename_i hle
      rw [if_neg hle] at hok
      exact putReady_unlimited hok

theorem narrowBin_unlimited (c : CabCtxt) (bin i : Nat) :
    c.unlimited.narrowBin bin i = (c.narrowBin bin i).unlimited := by
  unfold CabCtxt.narrowBin
  dsimp only
  by_cases hlps : (c.au1CtxtModels i &&& 1) ^^^ bin ≠ 0
  · have hlps' : (c.unlimited.au1CtxtModels i &&& 1) ^^^ bin ≠ 0 := hlps
    rw [if_pos hlps, if_pos hlps']
    rfl
  · have hlps' : ¬(c.unlimited.au1CtxtModels i &&& 1) ^^^ bin ≠ 0 := hlps
    rw [if_neg hlps, if_neg hlps']
    rfl

theorem flush_unlimited {c : CabCtxt} (hroom : ¬c.NoRoom) :
    (ihevceCabacFlush c.unlimited).2 = (ihevceCabacFlush c).2.unlimited := by
  have hflush : ihevceCabacFlush c = _ := if_neg hroom
  have hflush' : ihevceCabacFlush c.unlimited = _ := if_neg (noRoom_unlimited c)
  rw [hflush, hflush']
  rfl

theorem encode_unlimited {c : CabCtxt} (hmode : c.eCabacOpMode = .encodeBits) (hsym : SymOk sym)
    (hclear : c.EncodeClear sym) (hok : (cabacEncode c sym).1 = .success) :
    (cabacEncode c.unlimited sym).2 = (cabacEncode c sym).2.unlimited := by
  obtain ⟨op, v⟩ := sym
  cases op with
  | bin i =>
    unfold cabacEncode ihevceCabacEncodeBin at hok ⊢
    have hmode' : c.unlimited.eCabacOpMode = .encodeBits := hmode
    rw [hmode] at hok
    rw [hmode, hmode']
    have hput := putReady_unlimited hok
    dsimp only
    change (((c.estimate _).unlimited.narrowBin v i).updateModel v i).putReady.2 = _
    rw [narrowBin_unlimited]
    exact congrArg Prod.snd hput
  | bypass =>
    have heq : cabacEncode c (.bypass, v) = _ := encodeBypassBin_eq hmode hsym
    have heq' : cabacEncode c.unlimited (.bypass, v) = _ := encodeBypassBin_eq hmode hsym
    rw [heq] at hok
    rw [heq, heq']
    exact congrArg Prod.snd (putReady_unlimited hok)
  | bypassBins n =>
    have heq : cabacEncode c (.bypassBins n, v) = _ := encodeBypassBins_eq hmode
    have heq' : cabacEncode c.unlimited (.bypassBins n, v) = _ := encodeBypassBins_eq hmode
    rw [heq] at hok
    rw [heq, heq']
    exact congrArg Prod.snd (bypassBinsLoop_unlimited hok)
  | terminate =>
    have hok' : (c.narrowTerminate v).1 = .success := hok
    have hnarrow : c.unlimited.narrowTerminate v = _ := putReady_unlimited hok'
    have hlt : v < 2 := hsym
    obtain rfl | rfl : v = 0 ∨ v = 1 := by omega
    · change (c.unlimited.narrowTerminate 0).2.estimate _ = ((c.narrowTerminate 0).2.estimate _).unlimited
      rw [hnarrow]
      rfl
    · change (ihevceCabacFlush (c.unlimited.narrowTerminate 1).2).2.estimate _ =
        ((ihevceCabacFlush (c.narrowTerminate 1).2).2.estimate _).unlimited
      have hroom := (hclear.2 rfl).2 hok'
      rw [hnarrow]
      change (ihevceCabacFlush (c.narrowTerminate 1).2.unlimited).2.estimate _ = _
      rw [flush_unlimited hroom]
      rfl

theorem putBits_unlimited {s : Bitstrm} (hok : (ihevcePutBits s v n).2 = .success) :
    (ihevcePutBits s.unlimited v n).1 = (ihevcePutBits s v n).1.unlimited := by
  unfold ihevcePutBits at hok ⊢
  by_cases hin : n < s.i4BitsLeftInCw
  · have hin' : n < s.unlimited.i4BitsLeftInCw := hin
    rw [if_pos hin, if_pos hin']
    rfl
  · have hin' : ¬n < s.unlimited.i4BitsLeftInCw := hin
    have hroom' : ¬s.unlimited.u4MaxStrmSize ≤ u32 (s.unlimited.u4StrmBufOffset + 4) :=
      Nat.not_le_of_lt (u32_lt _)
    rw [if_neg hin] at hok ⊢
    rw [if_neg hin']
    dsimp only at hok ⊢
    rw [if_neg hroom']
    split at hok
    · contradiction
    · rename_i hroom
      rw [if_neg hroom]
      rfl

theorem putRbspTrailingBits_unlimited {s : Bitstrm}
    (hok : (ihevcePutRbspTrailingBits s).2 = .success) :
    (ihevcePutRbspTrailingBits s.unlimited).1 = (ihevcePutRbspTrailingBits s).1.unlimited := by
  unfold ihevcePutRbspTrailingBits at hok ⊢
  dsimp only at hok ⊢
  split at hok
  · contradiction
  · rename_i hroom
    have hroom' : ¬s.unlimited.u4MaxStrmSize ≤
        u32Sub (s.unlimited.u4StrmBufOffset + 4) ((s.unlimited.i4BitsLeftInCw - 1) >>> 3) :=
      Nat.not_le_of_lt (u32_lt _)
    rw [if_neg hroom, if_neg hroom']
    rfl

-- ---------------------------------------------------------------------------
-- Runs
-- ---------------------------------------------------------------------------

def Stream.Inside : Stream → Nat → Prop
  | header s, u4Max => s.Inside u4Max
  | slice c, u4Max => c.Inside u4Max 9
  | flushed c, u4Max => c.sink.Inside u4Max

theorem Stream.Inside.stores {st : Stream} (h : st.Inside u4Max) :
    (∀ i ∈ st.buffer.stores, i < u4Max) ∧ st.off ≤ u4Max := by
  cases st with
  | header s => exact ⟨h.sink.stores, h.sink.off⟩
  | slice c => exact ⟨h.sink.stores, h.sink.off⟩
  | flushed c => exact ⟨ByteSink.Inside.stores h, ByteSink.Inside.off h⟩

/-- The codes of `ue(v)` and `se(v)` have at most 31 bits. -/
theorem golomb_le (h : x ≤ 65534) : 2 * getRange (u32 (x + 1)) - 1 ≤ 32 := by
  have hlt : u32 (x + 1) < 2 ^ 16 := by
    rw [u32_of_lt (by omega)]
    omega
  have := getRange_le hlt (by decide)
  omega

theorem sevCodeNum_le {x : Int} (h : x.natAbs ≤ 32767) : sevCodeNum x ≤ 65534 := by
  unfold sevCodeNum
  split
  · rw [Nat.shiftLeft_eq, u32_of_lt (by omega)]
    omega
  · rw [Nat.shiftLeft_eq, u32Sub_of_le (by omega) (by omega)]
    omega

theorem cabacInit_inside {s : Bitstrm} (h : s.Inside u4Max) (hm : ModelsOk ctxts)
    (hoff : (ihevceCabacInit c s ctxts .encodeBits).u4StrmBufOffset ≤ s.u4MaxStrmSize) :
    (ihevceCabacInit c s ctxts .encodeBits).Inside u4Max 9 := by
  obtain ⟨⟨hstores, -, hrun⟩, hmax, -, -⟩ := h
  exact ⟨⟨hstores, hmax ▸ hoff, hrun⟩, hmax, rfl,
    .inr (.inr ⟨0, _, counts_init c s ctxts, coder_init_ok hm, Nat.zero_le 9⟩)⟩

/-- Every clear call keeps the invariant. -/
theorem call_inside {st : Stream} (h : st.Inside u4Max) (hmax : u4Max < 2 ^ 32)
    (hadmits : st.Admits x) (hclear : st.Clear x) : (st.call x).2.Inside u4Max := by
  cases st with
  | header s =>
    cases x with
    | putBits v n => exact putBits_inside h hmax hadmits.2.1 hclear
    | putUev n => exact putBits_inside h hmax (golomb_le hadmits) hclear
    | putSev e => exact putBits_inside h hmax (golomb_le (sevCodeNum_le hadmits)) hclear
    | putRbspTrailingBits => exact putRbspTrailingBits_inside h hmax hclear
    | cabacInit c ctxts => exact cabacInit_inside h hadmits hclear
    | encode sym => exact h
    | flush => exact h
  | slice c =>
    cases x with
    | encode sym =>
      by_cases hgo : sym = (.terminate, 1)
      · subst hgo
        exact encodeTerminate_inside h hmax hclear
      · have hnext : (Stream.call (.slice c) (.encode sym)).2 = .slice (cabacEncode c sym).2 :=
          if_neg hgo
        rw [hnext]
        exact encode_inside h hmax hadmits.1 hgo hclear
    | flush => exact flush_inside h hmax hclear
    | putBits v n => exact h
    | putUev n => exact h
    | putSev e => exact h
    | putRbspTrailingBits => exact h
    | cabacInit c' ctxts => exact h
  | flushed c => exact h

theorem run_inside (hmax : u4Max < 2 ^ 32)
    (hrun : Relation.ReflTransGen Stream.ClearStep (.header (ihevceBitstrmInit m u4Max)) st) :
    st.Inside u4Max := by
  induction hrun with
  | refl => exact bitstrmInit_inside m u4Max
  | tail _ hstep ih =>
    obtain ⟨x, hadmits, hclear, rfl⟩ := hstep
    exact call_inside ih hmax hadmits hclear

theorem Stream.unlimited_buffer (st : Stream) : st.unlimited.buffer = st.buffer := by
  cases st <;> rfl

/-- A clear call that succeeds does what it does without the room checks. -/
theorem call_unlimited {st : Stream} (h : st.Inside u4Max) (hadmits : st.Admits x)
    (hclear : st.Clear x) (hok : (st.call x).1 = .success) :
    (st.unlimited.call x).2 = (st.call x).2.unlimited := by
  cases st with
  | header s =>
    cases x with
    | putBits v n => exact congrArg Stream.header (putBits_unlimited hok)
    | putUev n => exact congrArg Stream.header (putBits_unlimited hok)
    | putSev e => exact congrArg Stream.header (putBits_unlimited hok)
    | putRbspTrailingBits => exact congrArg Stream.header (putRbspTrailingBits_unlimited hok)
    | cabacInit c ctxts => rfl
    | encode sym => rfl
    | flush => rfl
  | slice c =>
    cases x with
    | encode sym =>
      have hencode := encode_unlimited h.mode hadmits.1 hclear hok
      change (if sym = (.terminate, 1) then Stream.flushed (cabacEncode c.unlimited sym).2
        else Stream.slice (cabacEncode c.unlimited sym).2) =
          (if sym = (.terminate, 1) then Stream.flushed (cabacEncode c sym).2
            else Stream.slice (cabacEncode c sym).2).unlimited
      rw [hencode]
      split <;> rfl
    | flush =>
      refine congrArg Stream.flushed (flush_unlimited fun hroom => ?_)
      have hover : ihevceCabacFlush c = (.bitstreamBufferOverflow, c) := if_pos hroom
      change (ihevceCabacFlush c).1 = .success at hok
      rw [hover] at hok
      contradiction
    | putBits v n => rfl
    | putUev n => rfl
    | putSev e => rfl
    | putRbspTrailingBits => rfl
    | cabacInit c' ctxts => rfl
  | flushed c => rfl

end Libhevc.Encoder
