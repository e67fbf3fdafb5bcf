import Libhevc.Encoder.CabacLaws
import Mathlib.Logic.Relation

/-!
# Runs of the stream writers

A stream starts as a header, becomes slice data with `ihevce_cabac_init`, and
ends with a flush. `Clear` says of the room checks, before a call, what they
leave out: wrapping sums and emulation prevention bytes.
-/

namespace Libhevc.Encoder

open Memory Spec

inductive Stream
  | header (s : Bitstrm)
  | slice (c : CabCtxt)
  | flushed (c : CabCtxt)

inductive StreamCall
  | putBits (u4CodeVal codeLen : Nat)
  | putUev (u4CodeNum : Nat)
  | putSev (syntaxElem : Int)
  | putRbspTrailingBits
  | cabacInit (c : CabCtxt) (ctxts : Nat → Nat)
  | encode (sym : CabacSym)
  | flush

def Stream.buffer : Stream → StrmBuffer
  | header s => s.pu1StrmBuffer
  | slice c | flushed c => c.pu1StrmBuffer

def Stream.off : Stream → Nat
  | header s => s.u4StrmBufOffset
  | slice c | flushed c => c.u4StrmBufOffset

/-- What a call returns and leaves. A terminating bin of 1 flushes. -/
def Stream.call : Stream → StreamCall → IhevceErrorT × Stream
  | header s, .putBits v n => ((ihevcePutBits s v n).2, header (ihevcePutBits s v n).1)
  | header s, .putUev n => ((ihevcePutUev s n).2, header (ihevcePutUev s n).1)
  | header s, .putSev x => ((ihevcePutSev s x).2, header (ihevcePutSev s x).1)
  | header s, .putRbspTrailingBits =>
    ((ihevcePutRbspTrailingBits s).2, header (ihevcePutRbspTrailingBits s).1)
  | header s, .cabacInit c ctxts => (.success, slice (ihevceCabacInit c s ctxts .encodeBits))
  | slice c, .encode sym =>
    ((cabacEncode c sym).1,
      if sym = (.terminate, 1) then flushed (cabacEncode c sym).2 else slice (cabacEncode c sym).2)
  | slice c, .flush => ((ihevceCabacFlush c).1, flushed (ihevceCabacFlush c).2)
  | st, _ => (.success, st)

/-- The calls that may come next, with arguments that pass the assertions of the functions. -/
def Stream.Admits : Stream → StreamCall → Prop
  | header _, .putBits v n => 0 < n ∧ n ≤ 32 ∧ v < 2 ^ n
  | header _, .putUev n => n ≤ 65534
  | header _, .putSev x => x.natAbs ≤ 32767
  | header _, .putRbspTrailingBits => True
  | header _, .cabacInit _ ctxts => ModelsOk ctxts
  | slice _, .encode sym => SymOk sym ∧ CabacOp.Ok sym.1
  | slice _, .flush => True
  | _, _ => False

/-- The same stream over a buffer whose room checks never fail. -/
def Bitstrm.unlimited (s : Bitstrm) : Bitstrm := { s with u4MaxStrmSize := 2 ^ 32 }

def CabCtxt.unlimited (c : CabCtxt) : CabCtxt := { c with u4MaxStrmSize := 2 ^ 32 }

def Stream.unlimited : Stream → Stream
  | header s => header s.unlimited
  | slice c => slice c.unlimited
  | flushed c => flushed c.unlimited

/-- With the room checks away, the call stores a byte at an index from `u4Max` on. -/
def Stream.Exceeds (st : Stream) (call : StreamCall) (u4Max : Nat) : Prop :=
  ∃ i ∈ (st.unlimited.call call).2.buffer.stores, u4Max ≤ i

-- ---------------------------------------------------------------------------
-- What the room checks leave out
-- ---------------------------------------------------------------------------

/-- How often `PUTBYTE_EPB` of the bytes in turn inserts an emulation prevention byte. -/
def epbCount : Nat → List Nat → Nat
  | _, [] => 0
  | run, b :: l =>
    if insertEpb run b then epbCount (Escape.step 0 b) l + 1 else epbCount (Escape.step run b) l

/-- The first `n` bytes of the word end below `2 ^ 32`, and leave room for their emulation
prevention bytes. -/
def Bitstrm.RoomFor (s : Bitstrm) (word n : Nat) : Prop :=
  s.u4StrmBufOffset + n < 2 ^ 32 ∧
    epbCount s.i4ZeroBytesRun (wordBytes word n) ≤ s.u4MaxStrmSize - (s.u4StrmBufOffset + n)

/-- A call of `ihevce_put_bits` that passes its check has the room. -/
def Bitstrm.PutClear (s : Bitstrm) (u4CodeVal codeLen : Nat) : Prop :=
  s.i4BitsLeftInCw ≤ codeLen → ¬s.u4MaxStrmSize ≤ u32 (s.u4StrmBufOffset + 4) →
    s.RoomFor (s.u4CurWord ||| (u4CodeVal >>> (codeLen - s.i4BitsLeftInCw))) 4

def Bitstrm.TrailingClear (s : Bitstrm) : Prop :=
  let bytesLeftInCw := (s.i4BitsLeftInCw - 1) >>> 3
  ¬s.u4MaxStrmSize ≤ u32Sub (s.u4StrmBufOffset + 4) bytesLeftInCw →
    s.RoomFor (s.u4CurWord ||| u32 (1 <<< (s.i4BitsLeftInCw - 1))) (4 - bytesLeftInCw)

/-- The outstanding bytes and the last ones: the sum of the check does not wrap, the carry check
does not succeed with fewer than two bytes written, and the bytes leave room for their emulation
prevention bytes. -/
def CabCtxt.SettleClear (c : CabCtxt) (carry : Nat) (last : List Nat) : Prop :=
  let back := if carry ≠ 0 ∧ c.sink.CarryCheck then 1 else 0
  let bytes := List.replicate c.u4OutStandingBytes (if carry ≠ 0 then 0 else 0xFF) ++ last
  c.u4StrmBufOffset + c.u4OutStandingBytes + 1 < 2 ^ 32 ∧ (back = 1 → 2 ≤ c.u4StrmBufOffset) ∧
    epbCount (if carry ≠ 0 then 0 else c.i4ZeroBytesRun) bytes ≤
      c.u4MaxStrmSize - (c.u4StrmBufOffset - back + bytes.length)

/-- A call of `ihevce_cabac_put_byte`: the count of outstanding bytes does not wrap, and bytes
that pass the check have the room. -/
def CabCtxt.PutClear (c : CabCtxt) : Prop :=
  cabacBits < c.u4BitsGen →
    (c.leadByte = 0xff → c.u4OutStandingBytes + 1 < 2 ^ 32) ∧
      (c.leadByte ≠ 0xff → ¬c.NoRoom →
        c.SettleClear ((c.leadByte >>> 8) &&& 1) [c.leadByte &&& 0xFF])

def CabCtxt.FlushClear (c : CabCtxt) : Prop :=
  let bitsLeft := c.u4BitsGen + 1
  let u4Low := c.u4Low &&& ((1 <<< (c.u4BitsGen + cabacBits)) - 1)
  ¬c.NoRoom →
    c.SettleClear ((c.u4Low >>> (c.u4BitsGen + cabacBits)) &&& 1)
      (flushBytes (u4Low >>> (c.u4BitsGen + cabacBits - bitsLeft)) bitsLeft)

/-- The contexts in which `bypassBinsLoop` puts a byte. -/
def bypassPuts (u4Bins : Nat) : Nat → Nat → CabCtxt → List CabCtxt
  | 0, numBins, c => [c.append (u4Bins &&& ((1 <<< numBins) - 1)) numBins]
  | rounds + 1, numBins, c =>
    if 8 < numBins then
      let c := c.append ((u4Bins >>> (numBins - 8)) &&& 0xff) 8
      c :: bypassPuts u4Bins rounds (numBins - 8) c.putReady.2
    else [c.append (u4Bins &&& ((1 <<< numBins) - 1)) numBins]

/-- The contexts in which the encoding of a symbol puts a byte. -/
def CabCtxt.puts (c : CabCtxt) : CabacSym → List CabCtxt
  | (.bin i, v) =>
    [((c.estimate (gau2IhevceCabacBinToBits (c.au1CtxtModels i ^^^ v))).narrowBin v i).updateModel
      v i]
  | (.bypass, v) => [(c.estimate (1 <<< cabacFracBitsQ)).append v 1]
  | (.bypassBins n, v) => bypassPuts v n n (c.estimate (n <<< cabacFracBitsQ))
  | (.terminate, v) => [c.part v]

/-- Every byte put is clear; the flush of a terminating bin of 1 is clear and has room. -/
def CabCtxt.EncodeClear (c : CabCtxt) (sym : CabacSym) : Prop :=
  (∀ c' ∈ c.puts sym, c'.PutClear) ∧
    (sym = (.terminate, 1) → (c.narrowTerminate 1).2.FlushClear ∧
      ((c.narrowTerminate 1).1 = .success → ¬(c.narrowTerminate 1).2.NoRoom))

def Stream.Clear : Stream → StreamCall → Prop
  | header s, .putBits v n => s.PutClear v n
  | header s, .putUev n => s.PutClear (u32 (n + 1)) (2 * getRange (u32 (n + 1)) - 1)
  | header s, .putSev x =>
    s.PutClear (u32 (sevCodeNum x + 1)) (2 * getRange (u32 (sevCodeNum x + 1)) - 1)
  | header s, .putRbspTrailingBits => s.TrailingClear
  | header s, .cabacInit c ctxts =>
    (ihevceCabacInit c s ctxts .encodeBits).u4StrmBufOffset ≤ s.u4MaxStrmSize
  | slice c, .encode sym => c.EncodeClear sym
  | slice c, .flush => c.FlushClear
  | _, _ => True

/-- One clear call. -/
def Stream.ClearStep (st st' : Stream) : Prop :=
  ∃ call, st.Admits call ∧ st.Clear call ∧ st' = (st.call call).2

end Libhevc.Encoder

/-!
## Clear calls stay inside the buffer

The invariant of a run: stores and offset inside the buffer, and a carry never
comes before a byte is written. Every clear call keeps it.
-/

namespace Libhevc.Encoder

open Memory Escape CarryChain RangeCoder Spec

-- ---------------------------------------------------------------------------
-- Bytes
-- ---------------------------------------------------------------------------

structure ByteSink.Inside (s : ByteSink) (u4Max : Nat) : Prop where
  stores : ∀ i ∈ s.ptr.stores, i < u4Max
  off : s.off ≤ u4Max
  run : s.zeroRun ≤ 2

theorem StrmBuffer.stores_lt_store {b : StrmBuffer} (h : ∀ i ∈ b.stores, i < u4Max)
    (hoff : off < u4Max) : ∀ i ∈ (b.store off x).stores, i < u4Max := by
  intro i hi
  rcases List.mem_cons.mp hi with rfl | hi
  · exact hoff
  · exact h i hi

theorem put_inside {s : ByteSink} (h : s.Inside u4Max) (hmax : u4Max < 2 ^ 32)
    (hrun : s.zeroRun < 2 ∨ b ≠ 0) (hoff : s.off + 1 ≤ u4Max) :
    (s.put b).Inside u4Max ∧ (s.put b).off = s.off + 1 ∧ (s.put b).zeroRun = step s.zeroRun b := by
  have hoff' : (s.put b).off = s.off + 1 := u32_of_lt (by omega)
  refine ⟨⟨StrmBuffer.stores_lt_store h.stores hoff, hoff' ▸ hoff, ?_⟩, hoff', rfl⟩
  have hle := h.run
  change (if b = 0 then s.zeroRun + 1 else 0) ≤ 2
  split
  · omega
  · exact Nat.zero_le 2

theorem insertEpb_zero : insertEpb 2 0 = true := rfl

theorem putbyteEpb_inside {s : ByteSink} (h : s.Inside u4Max) (hmax : u4Max < 2 ^ 32)
    (hoff : s.off + 1 + epbCount s.zeroRun [b] ≤ u4Max) :
    (putbyteEpb s b).Inside u4Max ∧ (putbyteEpb s b).off = s.off + 1 + epbCount s.zeroRun [b] ∧
      (putbyteEpb s b).zeroRun = step (if insertEpb s.zeroRun b then 0 else s.zeroRun) b := by
  unfold putbyteEpb
  simp only [epbCount] at hoff ⊢
  cases hepb : insertEpb s.zeroRun b with
  | true =>
    simp only [hepb, if_true] at hoff ⊢
    have hoff' : u32 (s.off + 1) = s.off + 1 := u32_of_lt (by omega)
    have hmid : ByteSink.Inside
        { ptr := s.ptr.store s.off epbByte, off := u32 (s.off + 1), zeroRun := 0 } u4Max :=
      ⟨StrmBuffer.stores_lt_store h.stores (by omega), by dsimp only; omega, Nat.zero_le 2⟩
    obtain ⟨hin, ho, hr⟩ := put_inside (b := b) hmid hmax (.inl Nat.zero_lt_two) (by dsimp only; omega)
    refine ⟨hin, ?_, hr⟩
    dsimp only at ho
    omega
  | false =>
    simp only [hepb, Bool.false_eq_true, if_false] at hoff ⊢
    have hrun : s.zeroRun < 2 ∨ b ≠ 0 := by
      have hle := h.run
      by_contra hcon
      obtain ⟨hge, rfl⟩ : ¬s.zeroRun < 2 ∧ b = 0 := by simpa using hcon
      rw [show s.zeroRun = 2 by omega, insertEpb_zero] at hepb
      contradiction
    exact put_inside h hmax hrun (by omega)

theorem epbCount_cons (run b : Nat) (l : List Nat) :
    epbCount run (b :: l) =
      epbCount run [b] + epbCount (step (if insertEpb run b then 0 else run) b) l := by
  simp only [epbCount]
  cases insertEpb run b with
  | true => simp [Nat.add_comm]
  | false => simp

/-- Bytes that fit with their emulation prevention bytes are stored inside the buffer. -/
theorem putBytes_inside {s : ByteSink} (h : s.Inside u4Max) (hmax : u4Max < 2 ^ 32)
    (hoff : s.off + l.length + epbCount s.zeroRun l ≤ u4Max) :
    (putBytes s l).Inside u4Max ∧
      (putBytes s l).off = s.off + l.length + epbCount s.zeroRun l := by
  induction l generalizing s with
  | nil => exact ⟨h, rfl⟩
  | cons b l ih =>
    rw [epbCount_cons, List.length_cons] at hoff ⊢
    obtain ⟨hin, ho, hr⟩ := putbyteEpb_inside (b := b) h hmax (by omega)
    rw [← hr] at hoff ⊢
    obtain ⟨hin', ho'⟩ := ih hin (by omega)
    refine ⟨hin', ?_⟩
    change (putBytes (putbyteEpb s b) l).off = _
    omega

/-- A carry goes into the byte before the offset, or one further back. -/
theorem addCarry_inside {s : ByteSink} (h : s.Inside u4Max) (hmax : u4Max < 2 ^ 32)
    (hpos : 0 < s.off) (hback : s.CarryCheck → 2 ≤ s.off) :
    s.addCarry.Inside u4Max ∧ s.addCarry.off = s.off - (if s.CarryCheck then 1 else 0) ∧
      s.addCarry.zeroRun = 0 := by
  have hle := h.off
  by_cases hcheck : s.CarryCheck
  · have h2 := hback hcheck
    rw [addCarry_back hcheck h2 (by omega), if_pos hcheck]
    refine ⟨⟨StrmBuffer.stores_lt_store h.stores (by omega), ?_, Nat.zero_le 2⟩, rfl, rfl⟩
    dsimp only
    omega
  · rw [addCarry_stay hcheck hpos (by omega), if_neg hcheck]
    exact ⟨⟨StrmBuffer.stores_lt_store h.stores (by omega), hle, Nat.zero_le 2⟩, rfl, rfl⟩

/-- The outstanding bytes and the last ones, where the room check passed. -/
theorem settle_inside {c : CabCtxt} (h : c.sink.Inside c.u4MaxStrmSize)
    (hmax : c.u4MaxStrmSize < 2 ^ 32) (hroom : ¬c.NoRoom) (hclear : c.SettleClear carry last)
    (hpos : carry ≠ 0 → 0 < c.u4StrmBufOffset) (hlast : 0 < last.length ∧ last.length ≤ 2) :
    let out := putBytes (c.sink.settle carry c.u4OutStandingBytes) last
    out.Inside c.u4MaxStrmSize ∧ c.u4StrmBufOffset ≤ out.off ∧ 0 < out.off := by
  obtain ⟨hsum, hback, hepbs⟩ := hclear
  obtain ⟨hlen, hlen2⟩ := hlast
  have hroom' : c.u4StrmBufOffset + c.u4OutStandingBytes + 1 < c.u4MaxStrmSize := by
    unfold CabCtxt.NoRoom at hroom
    rw [u32_of_lt (x := _ + c.u4OutStandingBytes) (by omega), u32_of_lt (by omega)] at hroom
    omega
  have hsplit (s : ByteSink) (l : List Nat) : putBytes (putBytes s l) last = putBytes s (l ++ last) :=
    (List.foldl_append ..).symm
  intro out
  change (putBytes (putBytes _ _) last).Inside _ ∧ _ ≤ (putBytes (putBytes _ _) last).off ∧
    0 < (putBytes (putBytes _ _) last).off
  rw [hsplit]
  rw [List.length_append, List.length_replicate] at hepbs
  by_cases hcarry : carry ≠ 0
  · simp only [hcarry, ne_eq, not_false_eq_true, true_and, if_true] at hback hepbs ⊢
    have hso : c.sink.off = c.u4StrmBufOffset := rfl
    obtain ⟨hin, ho, hr⟩ := addCarry_inside h hmax (hpos hcarry) fun hcheck => by
      simpa [hcheck, hso] using hback
    rw [hso] at ho
    have hone : (if c.sink.CarryCheck then 1 else 0) ≤ 1 := by split <;> decide
    have hp := hpos hcarry
    obtain ⟨hput, hoff⟩ := putBytes_inside (l := List.replicate c.u4OutStandingBytes 0 ++ last)
      hin hmax (by rw [hr, List.length_append, List.length_replicate]; omega)
    rw [List.length_append, List.length_replicate] at hoff
    exact ⟨hput, by omega, by omega⟩
  · simp only [hcarry, false_and, if_false, Nat.sub_zero] at hepbs ⊢
    obtain ⟨hput, hoff⟩ := putBytes_inside (l := List.replicate c.u4OutStandingBytes 0xFF ++ last) h
      hmax (by
        rw [List.length_append, List.length_replicate]
        change c.u4StrmBufOffset + _ + epbCount c.i4ZeroBytesRun _ ≤ _
        omega)
    rw [List.length_append, List.length_replicate] at hoff
    change _ = c.u4StrmBufOffset + _ + _ at hoff
    exact ⟨hput, by omega, by omega⟩

-- ---------------------------------------------------------------------------
-- The header
-- ---------------------------------------------------------------------------

/-- A header with `u4Max` bytes of buffer, between two calls. -/
structure Bitstrm.Inside (s : Bitstrm) (u4Max : Nat) : Prop where
  sink : s.sink.Inside u4Max
  max : s.u4MaxStrmSize = u4Max
  left_pos : 0 < s.i4BitsLeftInCw
  left_le : s.i4BitsLeftInCw ≤ 32

theorem bitstrmInit_inside (m : Nat → Nat) (u4Max : Nat) :
    (ihevceBitstrmInit m u4Max).Inside u4Max :=
  ⟨⟨nofun, Nat.zero_le _, Nat.zero_le 2⟩, rfl, Nat.zero_lt_succ 31, Nat.le_refl 32⟩

theorem word_inside {s : Bitstrm} (h : s.Inside u4Max) (hmax : u4Max < 2 ^ 32)
    (hroom : s.u4StrmBufOffset + n < u4Max) (hclear : s.RoomFor word n) :
    (putBytes s.sink (wordBytes word n)).Inside u4Max := by
  obtain ⟨-, hepbs⟩ := hclear
  rw [h.max] at hepbs
  refine (putBytes_inside h.sink hmax ?_).1
  rw [length_wordBytes]
  change s.u4StrmBufOffset + n + epbCount s.i4ZeroBytesRun _ ≤ u4Max
  omega

theorem putBits_inside {s : Bitstrm} (h : s.Inside u4Max) (hmax : u4Max < 2 ^ 32) (hn : n ≤ 32)
    (hclear : s.PutClear v n) : (ihevcePutBits s v n).1.Inside u4Max := by
  obtain ⟨hpos, hle⟩ := And.intro h.left_pos h.left_le
  unfold ihevcePutBits
  split
  · exact ⟨h.sink, h.max, by dsimp only; omega, by dsimp only; omega⟩
  · rename_i hfull
    dsimp only
    split
    · exact h
    · rename_i hroom
      have hfor := hclear (by omega) hroom
      have hsum := hfor.1
      rw [u32_of_lt hsum, h.max] at hroom
      obtain ⟨hstores, hoff, hrun⟩ := word_inside h hmax (by omega) hfor
      exact ⟨⟨hstores, hoff, hrun⟩, h.max, by dsimp only; omega, by dsimp only; omega⟩

theorem putRbspTrailingBits_inside {s : Bitstrm} (h : s.Inside u4Max) (hmax : u4Max < 2 ^ 32)
    (hclear : s.TrailingClear) : (ihevcePutRbspTrailingBits s).1.Inside u4Max := by
  obtain ⟨hpos, hle⟩ := And.intro h.left_pos h.left_le
  have hleft : (s.i4BitsLeftInCw - 1) >>> 3 ≤ 3 := by
    rw [Nat.shiftRight_eq_div_pow]
    omega
  unfold ihevcePutRbspTrailingBits
  dsimp only
  split
  · exact h
  · rename_i hroom
    have hfor := hclear hroom
    have hsum := hfor.1
    have hsub : u32Sub (s.u4StrmBufOffset + 4) ((s.i4BitsLeftInCw - 1) >>> 3) =
        s.u4StrmBufOffset + (4 - (s.i4BitsLeftInCw - 1) >>> 3) := by
      unfold u32Sub u32
      omega
    rw [hsub, h.max] at hroom
    obtain ⟨hstores, hoff, -⟩ := word_inside h hmax (by omega) hfor
    exact ⟨⟨hstores, hoff, Nat.zero_le 2⟩, h.max, by dsimp only; omega, by dsimp only; omega⟩

-- ---------------------------------------------------------------------------
-- Slice data
-- ---------------------------------------------------------------------------

/-- No byte is written yet: all that has left `u4_low` is outstanding. -/
def CabCtxt.Fresh (c : CabCtxt) (gen : Nat) : Prop :=
  ∃ o k, Counts c { bytes := [], outstanding := o } k ∧ k.Ok ∧ c.u4BitsGen ≤ gen

/-- The room check fails from here on. -/
def CabCtxt.Full (c : CabCtxt) : Prop :=
  c.u4MaxStrmSize ≤ c.u4StrmBufOffset + c.u4OutStandingBytes + 1

/-- A carry has a byte to go into, or is never written. -/
def CabCtxt.Live (c : CabCtxt) (gen : Nat) : Prop := 0 < c.u4StrmBufOffset ∨ c.Full ∨ c.Fresh gen

/-- Slice data with `u4Max` bytes of buffer and at most `gen` bits in `u4_low`. -/
structure CabCtxt.Inside (c : CabCtxt) (u4Max gen : Nat) : Prop where
  sink : c.sink.Inside u4Max
  max : c.u4MaxStrmSize = u4Max
  mode : c.eCabacOpMode = .encodeBits
  live : c.Live gen

/-- What an interval update leaves as it was. -/
structure CabCtxt.Keeps (c c' : CabCtxt) : Prop where
  sink : c'.sink = c.sink
  max : c'.u4MaxStrmSize = c.u4MaxStrmSize
  mode : c'.eCabacOpMode = c.eCabacOpMode
  outstanding : c'.u4OutStandingBytes = c.u4OutStandingBytes

theorem CabCtxt.Inside.of_keeps {c c' : CabCtxt} (h : c.Inside u4Max 9) (hk : c.Keeps c')
    (hfresh : c.Fresh 9 → c'.Fresh 17) : c'.Inside u4Max 17 := by
  obtain ⟨hsink, hmax, hmode, hlive⟩ := h
  have hoff : c'.u4StrmBufOffset = c.u4StrmBufOffset := congrArg ByteSink.off hk.sink
  refine ⟨hk.sink ▸ hsink, hk.max.trans hmax, hk.mode.trans hmode, ?_⟩
  rcases hlive with hpos | hfull | hf
  · exact .inl (hoff ▸ hpos)
  · refine .inr (.inl ?_)
    unfold CabCtxt.Full at hfull ⊢
    rwa [hk.max, hoff, hk.outstanding]
  · exact .inr (.inr (hfresh hf))

theorem fresh_full (o : Nat) : Digits.Full { bytes := [], outstanding := o } := nofun

/-- Where the room check passes, a carry comes only behind a written byte. -/
theorem CabCtxt.Live.carry {c : CabCtxt} (bit : Nat) (h : c.Live gen) (hroom : ¬c.NoRoom)
    (hsum : c.u4StrmBufOffset + c.u4OutStandingBytes + 1 < 2 ^ 32)
    (hfresh : ∀ d k, Counts c d k → k.Ok → d.Full → bit = 0) (hbit : bit ≠ 0) :
    0 < c.u4StrmBufOffset := by
  rcases h with hpos | hfull | ⟨o, k, hcounts, hk, -⟩
  · exact hpos
  · unfold CabCtxt.NoRoom at hroom
    unfold CabCtxt.Full at hfull
    rw [u32_of_lt (x := _ + c.u4OutStandingBytes) (by omega), u32_of_lt hsum] at hroom
    exact absurd hfull hroom
  · exact absurd (hfresh _ _ hcounts hk (fresh_full o)) hbit

/-- Putting a byte, if one is ready, keeps the invariant. -/
theorem putReady_inside {c : CabCtxt} (h : c.Inside u4Max 17) (hmax : u4Max < 2 ^ 32)
    (hclear : c.PutClear) : c.putReady.2.Inside u4Max 9 := by
  obtain ⟨hsink, hcmax, hmode, hlive⟩ := h
  unfold CabCtxt.putReady
  split
  · rename_i hgen
    have hgen' : 9 < c.u4BitsGen := hgen
    obtain ⟨hheld, hout⟩ := hclear hgen
    have hrange {d k} (hc : Counts c d k) (hk : k.Ok) : 0 < c.u4Range ∧ c.u4Range < 512 := by
      have hnormal := hk.range
      rw [← hc.range] at hnormal
      obtain ⟨hlo, hhi⟩ := hnormal
      exact ⟨by omega, hhi⟩
    by_cases hff : c.leadByte = 0xff
    · rw [putByte_held hff]
      have ho : u32 (c.u4OutStandingBytes + 1) = c.u4OutStandingBytes + 1 := u32_of_lt (hheld hff)
      refine ⟨hsink, hcmax, hmode, ?_⟩
      rw [ho]
      rcases hlive with hpos | hfull | ⟨o, k, hcounts, hk, hle⟩
      · exact .inl hpos
      · exact .inr (.inl (Nat.le_trans hfull (Nat.le_succ _)))
      · obtain ⟨hr, hr512⟩ := hrange hcounts hk
        have hpush := hcounts.push hgen' hr hr512
        rw [Digits.push, if_pos hff] at hpush
        refine .inr (.inr ⟨o + 1, k, ?_, hk, ?_⟩)
        · rw [hcounts.outstanding]
          exact hpush
        · exact Nat.sub_le_of_le_add hle
    · by_cases hroom : c.NoRoom
      · rw [putByte_full hff hroom]
        refine ⟨hsink, hcmax, hmode, .inr (.inl (Nat.le_trans hroom ?_))⟩
        exact Nat.le_trans (Nat.mod_le _ _) (Nat.succ_le_succ (Nat.mod_le _ _))
      · rw [putByte_out hff hroom]
        have hsettle := hout hff hroom
        have hpos := CabCtxt.Live.carry ((c.leadByte >>> 8) &&& 1) hlive hroom hsettle.1
          fun d k hcounts hk hfull => by
            obtain ⟨hlt, hcarry⟩ := hcounts.lead hgen' (hrange hcounts hk).1
            have hno : ¬256 ≤ c.leadByte := fun hge => hcarry hge hfull
            rw [Nat.shiftRight_eq_div_pow, Nat.div_eq_of_lt (Nat.lt_of_not_le hno)]
            rfl
        obtain ⟨hin, -, hoff⟩ := settle_inside (hcmax ▸ hsink) (hcmax ▸ hmax) hroom hsettle hpos
          ⟨Nat.one_pos, Nat.le_succ 1⟩
        exact ⟨hcmax ▸ hin, hcmax, hmode, .inl hoff⟩
  · rename_i hgen
    refine ⟨hsink, hcmax, hmode, ?_⟩
    rcases hlive with hpos | hfull | ⟨o, k, hcounts, hk, -⟩
    · exact .inl hpos
    · exact .inr (.inl hfull)
    · exact .inr (.inr ⟨o, k, hcounts, hk, Nat.le_of_not_lt hgen⟩)

theorem narrowBin_keeps (c : CabCtxt) (bin i : Nat) :
    c.Keeps ((c.narrowBin bin i).updateModel bin i) := by
  unfold CabCtxt.narrowBin
  dsimp only
  split <;> exact ⟨rfl, rfl, rfl, rfl⟩

theorem append_keeps (c : CabCtxt) (v n : Nat) : c.Keeps (c.append v n) := ⟨rfl, rfl, rfl, rfl⟩

theorem part_keeps (c : CabCtxt) (bin : Nat) : c.Keeps (c.part bin) := ⟨rfl, rfl, rfl, rfl⟩

theorem CabCtxt.Inside.estimate {c : CabCtxt} (h : c.Inside u4Max 9) (e : Nat) :
    (c.estimate e).Inside u4Max 9 := by
  refine ⟨h.sink, h.max, h.mode, ?_⟩
  rcases h.live with hpos | hfull | ⟨o, k, hcounts, hk, hgen⟩
  · exact .inl hpos
  · exact .inr (.inl hfull)
  · exact .inr (.inr ⟨o, k, hcounts.estimate, hk, hgen⟩)

theorem appendBins_inside {c : CabCtxt} (h : c.Inside u4Max 9) (hmax : u4Max < 2 ^ 32)
    (hn : n ≤ 8) (hv : v < 2 ^ n) (hclear : (c.append v n).PutClear) :
    (c.appendBins v n).2.Inside u4Max 9 := by
  refine putReady_inside (h.of_keeps (append_keeps c v n) ?_) hmax hclear
  rintro ⟨o, k, hcounts, hk, hgen⟩
  obtain ⟨hcounts', hgen'⟩ := hcounts.append hgen hn hv
  exact ⟨o, _, hcounts', ⟨hk.range, hk.models⟩, hgen'⟩

theorem bypassBinsLoop_inside {c : CabCtxt} (h : c.Inside u4Max 9) (hmax : u4Max < 2 ^ 32)
    (hn : n ≤ 8 * r + 8) (hclear : ∀ c' ∈ bypassPuts v r n c, c'.PutClear) :
    (bypassBinsLoop v r n c).2.Inside u4Max 9 := by
  induction r generalizing n c with
  | zero =>
    rw [bypassBinsLoop]
    refine appendBins_inside h hmax (by omega) ?_ (hclear _ (List.mem_singleton_self _))
    rw [and_low]
    exact Nat.mod_lt _ (Nat.two_pow_pos n)
  | succ r ih =>
    unfold bypassPuts at hclear
    unfold bypassBinsLoop
    split
    · rename_i hgt
      rw [if_pos hgt] at hclear
      refine ih (appendBins_inside h hmax le_rfl ?_ (hclear _ (List.mem_cons_self ..))) (by omega)
        fun c' hc' => hclear c' (List.mem_cons_of_mem _ hc')
      rw [and_byte]
      exact Nat.mod_lt _ (by decide)
    · rename_i hle
      rw [if_neg hle] at hclear
      refine appendBins_inside h hmax (by omega) ?_ (hclear _ (List.mem_singleton_self _))
      rw [and_low]
      exact Nat.mod_lt _ (Nat.two_pow_pos n)

theorem narrowTerminate_inside {c : CabCtxt} (h : c.Inside u4Max 9) (hmax : u4Max < 2 ^ 32)
    (hbin : bin < 2) (hclear : (c.part bin).PutClear) :
    (c.narrowTerminate bin).2.Inside u4Max 9 := by
  refine putReady_inside (h.of_keeps (part_keeps c bin) ?_) hmax hclear
  rintro ⟨o, k, hcounts, hk, hgen⟩
  obtain ⟨hcounts', hgen'⟩ := hcounts.part hk hgen hbin
  refine ⟨o, _, hcounts', ⟨terminated_normal hk hbin, ?_⟩, hgen'⟩
  unfold terminated
  split <;> exact hk.models

theorem length_flushBytes (r n : Nat) : 0 < (flushBytes r n).length ∧ (flushBytes r n).length ≤ 2 := by
  unfold flushBytes
  dsimp only
  split
  · exact ⟨Nat.two_pos, Nat.le_refl 2⟩
  · exact ⟨Nat.one_pos, Nat.le_succ 1⟩

theorem flush_inside {c : CabCtxt} (h : c.Inside u4Max 9) (hmax : u4Max < 2 ^ 32)
    (hclear : c.FlushClear) : (ihevceCabacFlush c).2.sink.Inside u4Max := by
  obtain ⟨hsink, hcmax, -, hlive⟩ := h
  unfold ihevceCabacFlush
  dsimp only
  split
  · exact hsink
  · rename_i hroom
    have hsettle := hclear hroom
    have hpos := CabCtxt.Live.carry ((c.u4Low >>> (c.u4BitsGen + cabacBits)) &&& 1) hlive hroom
      hsettle.1 fun d k hcounts hk hfull => by
        have hfits := hcounts.fits
        have hr : 0 < c.u4Range := by
          have hlow := hk.range.1
          rw [← hcounts.range] at hlow
          omega
        have hlt : c.u4Low < 2 ^ (c.u4BitsGen + 9) :=
          Nat.lt_of_not_le fun hge => hfits.carry hr hge hfull
        rw [cabacBits, Nat.shiftRight_eq_div_pow, Nat.div_eq_of_lt hlt]
        rfl
    obtain ⟨⟨hstores, hoff, -⟩, -⟩ := settle_inside (hcmax ▸ hsink) (hcmax ▸ hmax) hroom hsettle hpos
      (length_flushBytes _ _)
    exact ⟨hcmax ▸ hstores, hcmax ▸ hoff, Nat.zero_le 2⟩

/-- A symbol that does not end the slice. -/
theorem encode_inside {c : CabCtxt} (h : c.Inside u4Max 9) (hmax : u4Max < 2 ^ 32)
    (hsym : SymOk sym) (hgo : sym ≠ (.terminate, 1)) (hclear : c.EncodeClear sym) :
    (cabacEncode c sym).2.Inside u4Max 9 := by
  obtain ⟨op, v⟩ := sym
  obtain ⟨hputs, -⟩ := hclear
  cases op with
  | bin i =>
    have hput := hputs _ (List.mem_singleton_self _)
    unfold cabacEncode ihevceCabacEncodeBin
    rw [h.mode]
    refine putReady_inside ((h.estimate _).of_keeps (narrowBin_keeps _ v i) ?_) hmax hput
    rintro ⟨o, k, hcounts, hk, hgen⟩
    obtain ⟨hnarrow, hgen'⟩ := hcounts.narrowBin hk hgen hsym.1
    exact ⟨o, _, hnarrow.updateModel i hsym.2, hk.code hsym hgo, hgen'⟩
  | bypass =>
    have heq : cabacEncode c (.bypass, v) = _ := encodeBypassBin_eq h.mode hsym
    rw [heq]
    exact appendBins_inside (h.estimate _) hmax (by decide) hsym
      (hputs _ (List.mem_singleton_self _))
  | bypassBins n =>
    have heq : cabacEncode c (.bypassBins n, v) = _ := encodeBypassBins_eq h.mode
    rw [heq]
    exact bypassBinsLoop_inside (h.estimate _) hmax (by omega) hputs
  | terminate =>
    obtain rfl : v = 0 := by
      have hlt : v < 2 := hsym
      have hv : v ≠ 1 := by
        rintro rfl
        exact hgo rfl
      omega
    exact (narrowTerminate_inside h hmax (by decide) (hputs _ (List.mem_singleton_self _))).estimate _

/-- The terminating bin of 1, with its flush. -/
theorem encodeTerminate_inside {c : CabCtxt} (h : c.Inside u4Max 9) (hmax : u4Max < 2 ^ 32)
    (hclear : c.EncodeClear (.terminate, 1)) :
    (cabacEncode c (.terminate, 1)).2.sink.Inside u4Max := by
  obtain ⟨hputs, hflush⟩ := hclear
  have hnarrow := narrowTerminate_inside h hmax (by decide) (hputs _ (List.mem_singleton_self _))
  exact flush_inside hnarrow hmax (hflush rfl).1

end Libhevc.Encoder
