import Libhevc.Encoder.Bitstream
import Libhevc.Encoder.BitstreamLaws
import Libhevc.Lib.PackBytes

/-!
# Entry points

With entropy synchronisation the slice data are coded behind room for the entry
points, which `ihevce_generate_slice_header` keeps. When they are known
`ihevce_insert_entry_offset_slice_header` writes the header again from the state
saved in front of them and moves the slice data up to it.
-/

namespace Libhevc.Encoder

open Memory

/-- Conversion to `UWORD32`. -/
def u32OfInt (x : Int) : Nat := (x % 2 ^ 32).toNat

/-- What is read of the slice header and of the picture parameter set. -/
structure EntryHdr where
  i4NumEntryPointOffsets : Nat
  pu4EntryPointOffset : Nat → Int
  i1SliceHeaderExtensionPresentFlag : Bool
  i2SliceHeaderExtensionLength : Nat

/-- Where the slice data begins, with room for the entry points. -/
def firstSliceStartOffset (s : Bitstrm) (numEntryPointOffsets offsetLen : Nat) : Nat :=
  u32 ((ihevcePutUev s (offsetLen - 1)).1.u4StrmBufOffset +
    (numEntryPointOffsets * offsetLen) >>> 3 + numEntryPointOffsets + 4 + 4)

/-- The loop that makes the offsets relative and finds the greatest. -/
def relativeOffsets (num : Nat) (e : Nat → Int) : (Nat → Int) × Int :=
  (List.range num).foldl (fun r i =>
    let d := r.1 (i + 1) - r.1 i
    (set r.1 i d, if r.2 < d then d else r.2)) (e, 0)

/-- The `while(1)` loop over the bits of `max_offset`. -/
def offsetLenLoop : (fuel maxOffset offsetLen : Nat) → Option Nat
  | 0, _, _ => none
  | fuel + 1, maxOffset, offsetLen =>
    if maxOffset &&& 0x80000000 ≠ 0 then some offsetLen
    else offsetLenLoop fuel (u32 (maxOffset <<< 1)) (offsetLen + 1)

/-- `return_status |= put` -/
def andPut (r : Bitstrm × IhevceErrorT) (put : Bitstrm → Bitstrm × IhevceErrorT) :
    Bitstrm × IhevceErrorT :=
  ((put r.1).1, r.2.or (put r.1).2)

def StrmBuffer.memmove (b : StrmBuffer) (dst src n : Nat) : StrmBuffer :=
  { mem := fun i => if dst ≤ i ∧ i < dst + n then b.mem (src + (i - dst)) else b.mem i
    stores := ((List.range n).map (dst + ·)).reverse ++ b.stores }

def putEntryPoints (e : Nat → Int) (offsetLen num : Nat) (r : Bitstrm × IhevceErrorT) :
    Bitstrm × IhevceErrorT :=
  (List.range num).foldl
    (fun r i => andPut r fun s => ihevcePutBits s (u32OfInt (e i - 1)) offsetLen) r

def putHeaderExtension (hdr : EntryHdr) (r : Bitstrm × IhevceErrorT) : Bitstrm × IhevceErrorT :=
  (List.range hdr.i2SliceHeaderExtensionLength).foldl
    (fun r _ => andPut r fun s => ihevcePutBits s 0xFF 8)
    (andPut r fun s => ihevcePutUev s hdr.i2SliceHeaderExtensionLength)

/-- The elements behind the saved state, with the relative offsets `e`. -/
def putEntryHeader (hdr : EntryHdr) (e : Nat → Int) (offsetLen : Nat) (s : Bitstrm) :
    Bitstrm × IhevceErrorT :=
  let num := hdr.i4NumEntryPointOffsets
  let r := if 0 < num then andPut (s, .success) fun s => ihevcePutUev s (offsetLen - 1)
    else (s, .success)
  let r := putEntryPoints e offsetLen num r
  if hdr.i1SliceHeaderExtensionPresentFlag then putHeaderExtension hdr r else r

def ihevceInsertEntryOffsetSliceHeader (fuel : Nat) (s : Bitstrm) (hdr : EntryHdr)
    (u4FirstSliceStartOffset : Nat) : Option (Bitstrm × IhevceErrorT) :=
  let num := hdr.i4NumEntryPointOffsets
  let numBytesShift := u32OfInt (hdr.pu4EntryPointOffset (num + 1) - hdr.pu4EntryPointOffset 0)
  let rel := relativeOffsets num hdr.pu4EntryPointOffset
  match offsetLenLoop fuel (u32OfInt rel.2) 0 with
  | none => none
  | some len =>
    let r := putEntryHeader hdr rel.1 (u32Sub 32 len) s
    let s := (ihevcePutRbspTrailingBits r.1).1
    some ({ s with
      pu1StrmBuffer := s.pu1StrmBuffer.memmove s.u4StrmBufOffset u4FirstSliceStartOffset
        numBytesShift
      u4StrmBufOffset := u32 (s.u4StrmBufOffset + numBytesShift) }, r.2)

end Libhevc.Encoder

/-!
## Writing within the room kept

The loops over the offsets, and the bitstream writer where all that is still to
be written is known to fit: no call then reports an overflow.
-/

namespace Libhevc.Encoder

open Escape BitString Memory

-- ---------------------------------------------------------------------------
-- The loops over the offsets
-- ---------------------------------------------------------------------------

/-- The size of sub-stream `i`. -/
def EntryHdr.size (hdr : EntryHdr) (i : Nat) : Int :=
  hdr.pu4EntryPointOffset (i + 1) - hdr.pu4EntryPointOffset i

theorem relativeOffsets_eq (num : Nat) (e : Nat → Int) :
    (∀ i, (relativeOffsets num e).1 i = if i < num then e (i + 1) - e i else e i) ∧
      (∀ i < num, e (i + 1) - e i ≤ (relativeOffsets num e).2) ∧
      ((relativeOffsets num e).2 = 0 ∨
        ∃ i < num, (relativeOffsets num e).2 = e (i + 1) - e i) := by
  induction num with
  | zero => exact ⟨fun i => rfl, fun i hi => absurd hi (Nat.not_lt_zero i), Or.inl rfl⟩
  | succ num ih =>
    obtain ⟨hrel, hle, hmax⟩ := ih
    have hstep : relativeOffsets (num + 1) e =
        (set (relativeOffsets num e).1 num (e (num + 1) - e num),
          if (relativeOffsets num e).2 < e (num + 1) - e num then e (num + 1) - e num
          else (relativeOffsets num e).2) := by
      have hnext := hrel (num + 1)
      have hcur := hrel num
      rw [if_neg (by omega)] at hnext hcur
      unfold relativeOffsets at hnext hcur ⊢
      rw [List.range_succ, List.foldl_append, List.foldl_cons, List.foldl_nil, hnext, hcur]
    rw [hstep]
    refine ⟨fun i => ?_, fun i hi => ?_, ?_⟩
    · dsimp only [Memory.set]
      split
      · rename_i h
        rw [h, if_pos (Nat.lt_succ_self num)]
      · rename_i h
        rw [hrel i]
        split
        · rw [if_pos (by omega)]
        · rw [if_neg (by omega)]
    · dsimp only
      rcases Nat.lt_succ_iff_lt_or_eq.mp hi with hlt | rfl
      · have := hle i hlt
        split <;> omega
      · split <;> omega
    · dsimp only
      split
      · exact Or.inr ⟨num, Nat.lt_succ_self num, rfl⟩
      · rcases hmax with hzero | ⟨i, hi, heq⟩
        · exact Or.inl hzero
        · exact Or.inr ⟨i, Nat.lt_succ_of_lt hi, heq⟩

/-- Without a greatest offset the loop has no end. -/
theorem offsetLenLoop_zero (fuel offsetLen : Nat) : offsetLenLoop fuel 0 offsetLen = none := by
  induction fuel generalizing offsetLen with
  | zero => rfl
  | succ fuel ih => exact ih (offsetLen + 1)

theorem and_topBit (x : Nat) : x &&& 0x80000000 = x / 2 ^ 31 % 2 * 2 ^ 31 := by
  rw [show 0x80000000 = 2 ^ 31 from rfl, Nat.and_two_pow, Nat.testBit_eq_decide_div_mod_eq]
  rcases Nat.mod_two_eq_zero_or_one (x / 2 ^ 31) with h | h <;> rw [h] <;> rfl

theorem offsetLenLoop_eq (t x offsetLen : Nat) (hlo : 2 ^ 31 ≤ x * 2 ^ t)
    (hhi : x * 2 ^ t < 2 ^ 32) : offsetLenLoop (t + 1) x offsetLen = some (offsetLen + t) := by
  induction t generalizing x offsetLen with
  | zero =>
    unfold offsetLenLoop
    rw [and_topBit, if_pos (by omega)]
    rfl
  | succ t ih =>
    rw [pow_succ] at hlo hhi
    have hpos := Nat.two_pow_pos t
    have hx : x < 2 ^ 31 := by
      by_contra hge
      have hmul : 2 ^ 31 * (1 * 2) ≤ x * (2 ^ t * 2) :=
        Nat.mul_le_mul (by omega) (Nat.mul_le_mul_right 2 hpos)
      omega
    have hswap : x * 2 ^ 1 * 2 ^ t = x * (2 ^ t * 2) := by ring
    unfold offsetLenLoop
    rw [and_topBit, if_neg (by omega), Nat.shiftLeft_eq, u32_of_lt (by omega),
      ih (x * 2 ^ 1) (offsetLen + 1) (hswap ▸ hlo) (hswap ▸ hhi), Nat.add_assoc, Nat.add_comm 1]

/-- The loop finds the number of bits of the greatest offset. -/
theorem offsetLenLoop_getRange (hpos : x ≠ 0) (hx : x < 2 ^ 32) :
    offsetLenLoop (32 - getRange x + 1) x 0 = some (32 - getRange x) := by
  have hle := getRange_le hx (by decide)
  have hlo := two_pow_getRange_le hpos
  have hhi := lt_two_pow_getRange x
  have hrange := getRange_pos x
  rw [offsetLenLoop_eq, Nat.zero_add]
  · calc 2 ^ 31 = 2 ^ (getRange x - 1) * 2 ^ (32 - getRange x) := by
          rw [← pow_add]
          congr 1
          omega
      _ ≤ x * 2 ^ (32 - getRange x) := Nat.mul_le_mul_right _ hlo
  · calc x * 2 ^ (32 - getRange x) < 2 ^ getRange x * 2 ^ (32 - getRange x) :=
          Nat.mul_lt_mul_of_pos_right hhi (Nat.two_pow_pos _)
      _ = 2 ^ 32 := by rw [← pow_add, Nat.add_sub_cancel' hle]

-- ---------------------------------------------------------------------------
-- Writing within the room
-- ---------------------------------------------------------------------------

/-- The bytes from `a` on and the current word hold the bits `w`; behind the offset the memory is
as in `m`. -/
structure Puts (m : Nat → Nat) (s : Bitstrm) (a : Nat) (payload : List Nat) (w : List Bool)
    (u4Max : Nat) : Prop where
  written : Written m s.sink a payload
  word : WordBits payload w s.u4CurWord s.i4BitsLeftInCw
  max : s.u4MaxStrmSize = u4Max
  above : ∀ i, s.u4StrmBufOffset ≤ i → s.pu1StrmBuffer.mem i = m i

theorem mem_put_above {s : ByteSink} {l : List Nat} (hoff : s.off + l.length < 2 ^ 32)
    (hi : s.off + l.length ≤ i) : (l.foldl ByteSink.put s).ptr.mem i = s.ptr.mem i := by
  induction l generalizing s with
  | nil => rfl
  | cons b l ih =>
    rw [List.length_cons] at hoff hi
    have ho1 : (s.put b).off = s.off + 1 := u32_of_lt (by omega)
    rw [List.foldl_cons, ih (by omega) (by omega)]
    exact set_ne (by omega)

theorem Written.putAll_above (h : Written m s a l) (hk : ∀ x ∈ k, x < 256)
    (hoff : a + (epb.escape 0 (l ++ k)).length < 2 ^ 32) (hi : (putBytes s k).off ≤ i) :
    (putBytes s k).ptr.mem i = s.ptr.mem i := by
  induction k generalizing s l with
  | nil => rfl
  | cons b k ih =>
    have hb : b < 256 := hk b (by simp)
    rw [List.append_cons] at hoff
    have hle := length_escape_le (l ++ [b]) k
    have hput := h.put hb (by omega)
    have hall := hput.putAll (fun x hx => hk x (by simp [hx])) hoff
    have hoff1 := hput.off
    have hoff2 : (putBytes s (b :: k)).off = _ := hall.off
    have hoff0 := h.off
    have hsnoc : epb.escape 0 (l ++ [b]) = epb.escape 0 l ++ epb.put s.zeroRun b := by
      rw [escape_snoc, h.run]
    have hrest := ih hput (fun x hx => hk x (by simp [hx])) hoff hi
    refine Eq.trans hrest ?_
    rw [hsnoc, List.length_append] at hoff1 hle
    rw [putbyteEpb_eq hb]
    exact mem_put_above (by omega) (by omega)

/-- The bytes of a first part of the bits take no more room than all of them. -/
theorem escape_packBytes_le (b : Nat → Bool) (h : j ≤ k) :
    (epb.escape 0 (packBytes b j)).length ≤ (epb.escape 0 (packBytes b k)).length := by
  obtain ⟨l, hl⟩ := packBytes_add b j (k - j)
  rw [Nat.add_sub_cancel' h] at hl
  rw [hl]
  exact length_escape_le _ _

/-- The bytes are those of the bits. -/
theorem WordBits.payload_eq (h : WordBits payload w cur left) (hb : Starts b 0 w) :
    payload = packBytes b payload.length := by
  have hvalue := h.value
  have hword := h.word
  have hle := h.left_le
  refine byteVal_inj (by simp) h.bytes (packBytes_lt b _) ?_
  rw [byteVal_packBytes]
  have hdiv : byteVal payload = bitVal w / 2 ^ (32 - left) := by
    have hpow : 2 ^ 32 = 2 ^ (32 - left) * 2 ^ left := by
      rw [← pow_add, Nat.sub_add_cancel hle]
    have hq : (byteVal payload * 2 ^ 32 + cur) / 2 ^ 32 = byteVal payload := by
      omega
    rw [← hq, hvalue, hpow, Nat.mul_div_mul_right _ _ (Nat.two_pow_pos left)]
  rw [hdiv, ← hb, h.length, field_div]

variable {m : Nat → Nat} {a u4Max k : Nat} {b : Nat → Bool}

/-- A word more of the bits fits, with its emulation prevention bytes. -/
theorem Puts.room (h : Puts m s a payload w u4Max) {bytes : List Nat}
    (heq : payload ++ bytes = packBytes b (payload ++ bytes).length)
    (hk : (payload ++ bytes).length ≤ k)
    (hroom : a + (epb.escape 0 (packBytes b k)).length < u4Max) :
    a + (epb.escape 0 (payload ++ bytes)).length < u4Max ∧
      s.u4StrmBufOffset + bytes.length < u4Max := by
  have hle := escape_packBytes_le b hk
  rw [← heq] at hle
  have hoff : s.u4StrmBufOffset = _ := h.written.off
  have happ : (epb.escape 0 payload).length + bytes.length ≤
      (epb.escape 0 (payload ++ bytes)).length := by
    rw [escape_append, List.length_append]
    exact Nat.add_le_add_left (length_escape _ _).1 _
  omega

theorem Puts.above_putBytes (h : Puts m s a payload w u4Max) (hbytes : ∀ x ∈ bytes, x < 256)
    (hoff : a + (epb.escape 0 (payload ++ bytes)).length < 2 ^ 32)
    (hi : (putBytes s.sink bytes).off ≤ i) : (putBytes s.sink bytes).ptr.mem i = m i := by
  have hold : s.u4StrmBufOffset = _ := h.written.off
  have hall := (h.written.putAll hbytes hoff).off
  have hle := length_escape_le payload bytes
  exact (h.written.putAll_above hbytes hoff hi).trans (h.above i (by omega))

theorem Puts.putBits (h : Puts m s a payload w u4Max) (hn : n ≤ 32) (hv : v < 2 ^ n)
    (hb : Starts b 0 (w ++ bitsOf n v)) (hk : (w ++ bitsOf n v).length ≤ 8 * k)
    (hroom : a + (epb.escape 0 (packBytes b k)).length < u4Max) (hmax : u4Max ≤ 2 ^ 31) :
    (ihevcePutBits s v n).2 = .success ∧
      ∃ payload', Puts m (ihevcePutBits s v n).1 a payload' (w ++ bitsOf n v) u4Max := by
  unfold ihevcePutBits
  by_cases hin : n < s.i4BitsLeftInCw
  · rw [if_pos hin]
    exact ⟨rfl, payload, h.written, h.word.fit hv hin, h.max, h.above⟩
  · have hword := h.word.flush hn hv (by omega)
    have hbytes : ∀ x ∈ wordBytes (s.u4CurWord ||| (v >>> (n - s.i4BitsLeftInCw))) 4, x < 256 :=
      wordBytes_lt
    rw [if_neg hin]
    set bytes := wordBytes (s.u4CurWord ||| (v >>> (n - s.i4BitsLeftInCw))) 4 with hdef
    have hfour : bytes.length = 4 := by
      rw [hdef]
      exact length_wordBytes
    have hlen := hword.length
    obtain ⟨hlt, hle⟩ := h.room (hword.payload_eq hb) (k := k) (by omega) hroom
    have hlt32 : a + (epb.escape 0 (payload ++ bytes)).length < 2 ^ 32 := by omega
    have hall := h.written.putAll hbytes hlt32
    have hmaxs := h.max
    rw [if_neg (by rw [u32_of_lt (by omega)]; omega)]
    exact ⟨rfl, _, hall, hword, h.max, fun i hi => h.above_putBytes hbytes hlt32 hi⟩

/-- The stop bit and the zeros behind it complete the bytes. -/
theorem Puts.trailing (h : Puts m s a payload w u4Max) (hb : Starts b 0 (w ++ [true]))
    (hzero : ∀ i, w.length + 1 ≤ i → b i = false) (hk : 8 * k = w.length + 1 + z) (hz : z < 8)
    (hroom : a + (epb.escape 0 (packBytes b k)).length < u4Max) (hmax : u4Max ≤ 2 ^ 31) :
    let s' := (ihevcePutRbspTrailingBits s).1
    Holds s'.pu1StrmBuffer.mem a (epb.escape 0 (packBytes b k)) ∧
      s'.u4StrmBufOffset = a + (epb.escape 0 (packBytes b k)).length ∧
      (∀ i < a, s'.pu1StrmBuffer.mem i = m i) ∧
      ∀ i, s'.u4StrmBufOffset ≤ i → s'.pu1StrmBuffer.mem i = m i := by
  have hpos := h.word.left_pos
  have hle32 := h.word.left_le
  obtain ⟨hlen, hval⟩ := h.word.trailing
  have hbytes : ∀ x ∈ wordBytes (s.u4CurWord ||| u32 (1 <<< (s.i4BitsLeftInCw - 1)))
      (4 - (s.i4BitsLeftInCw - 1) / 2 ^ 3), x < 256 := wordBytes_lt
  unfold ihevcePutRbspTrailingBits
  dsimp only
  rw [Nat.shiftRight_eq_div_pow]
  set bytes := wordBytes (s.u4CurWord ||| u32 (1 <<< (s.i4BitsLeftInCw - 1)))
    (4 - (s.i4BitsLeftInCw - 1) / 2 ^ 3) with hdef
  have hcount : bytes.length = 4 - (s.i4BitsLeftInCw - 1) / 2 ^ 3 := by
    rw [hdef]
    exact length_wordBytes
  have hkp : (payload ++ bytes).length = k := by omega
  have hzp : (s.i4BitsLeftInCw - 1) % 8 = z := by omega
  have hpayload : payload ++ bytes = packBytes b k := by
    refine byteVal_inj (by rw [hkp, length_packBytes]) (fun x hx => ?_)
      (packBytes_lt b k) ?_
    · rcases List.mem_append.mp hx with hx | hx
      · exact h.word.bytes x hx
      · exact hbytes x hx
    · have hrest : field b (0 + (w.length + 1)) z = 0 := by
        have hfalse : field b (0 + (w.length + 1)) z =
            field (fun _ => false) (0 + (w.length + 1)) z :=
          field_congr fun i _ => hzero _ (by omega)
        rw [hfalse]
        exact field_false _ _
      unfold Starts at hb
      rw [List.length_append, List.length_singleton] at hb
      rw [hval, byteVal_packBytes, hk, field_add, hb, hrest, hzp, Nat.add_zero]
  have hpack : payload ++ bytes = packBytes b (payload ++ bytes).length := by rw [hkp, hpayload]
  obtain ⟨hlt, hle⟩ := h.room hpack hkp.le hroom
  have hlt32 : a + (epb.escape 0 (payload ++ bytes)).length < 2 ^ 32 := by omega
  have hall := h.written.putAll hbytes hlt32
  have hmaxs := h.max
  rw [if_neg (by rw [u32Sub_of_le (by omega) (by omega)]; omega)]
  rw [← hpayload]
  exact ⟨hall.holds, hall.off, fun i hi => hall.frame i hi,
    fun i hi => h.above_putBytes hbytes hlt32 hi⟩

end Libhevc.Encoder
