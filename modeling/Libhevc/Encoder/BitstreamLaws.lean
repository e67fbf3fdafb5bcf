import Libhevc.Encoder.Bitstream
import Libhevc.Lib.Escape

/-!
# What the bitstream writer leaves in memory

`PUTBYTE_EPB` is zero-run escaping with limit 2 and escape byte 3. `Written`
says that the memory from `a` on holds the escaped form of a payload, and
`Pending` adds the bits that wait in the current word.
-/

namespace Libhevc.Encoder

open Memory BitString Escape

/-- Emulation prevention: after two zeros a byte up to 3 is preceded by 3. -/
def epb : Scheme where
  limit := epbZeroBytes
  top := 3
  esc := epbByte
  limit_pos := by decide
  esc_pos := by decide
  esc_le := by decide

/-- The bytes from `a` on are the escaped form of `payload`; those below `a` are as in `m`. -/
structure Written (m : Nat → Nat) (s : ByteSink) (a : Nat) (payload : List Nat) : Prop where
  holds : Holds s.ptr.mem a (epb.escape 0 payload)
  off : s.off = a + (epb.escape 0 payload).length
  run : s.zeroRun = zeroRun 0 (epb.escape 0 payload)
  frame : ∀ i < a, s.ptr.mem i = m i
  bytes : ∀ x ∈ payload, x < 256

theorem insertEpb_iff (hb : b < 256) :
    insertEpb run b = true ↔ run = epb.limit ∧ b ≤ epb.top := by
  have hmask : b &&& 252 = b / 4 % 64 * 4 := by simpa using and_mask b 6 2
  simp only [insertEpb, epb, hmask, Bool.and_eq_true, beq_iff_eq]
  omega

theorem byte_lt_of_mem_escape (run : Nat) (hl : ∀ x ∈ l, x < 256) :
    ∀ x ∈ epb.escape run l, x < 256 := by
  induction l generalizing run with
  | nil => simp
  | cons b l ih =>
    intro x hx
    rw [Scheme.escape, List.mem_append] at hx
    rcases hx with hx | hx
    · have hb := hl b (by simp)
      unfold Scheme.put at hx
      split at hx
      · simp only [List.mem_cons, List.not_mem_nil, or_false] at hx
        rcases hx with rfl | rfl
        · decide
        · exact hb
      · simp only [List.mem_singleton] at hx
        omega
    · exact ih _ (fun y hy => hl y (by simp [hy])) x hx

-- ---------------------------------------------------------------------------
-- Byte sinks
-- ---------------------------------------------------------------------------

/-- `PUTBYTE_EPB` as the plain stores of what the escaping scheme writes. -/
theorem putbyteEpb_eq (hb : b < 256) :
    putbyteEpb s b = (epb.put s.zeroRun b).foldl ByteSink.put s := by
  by_cases h : s.zeroRun = epb.limit ∧ b ≤ epb.top
  · rw [put_escaped h.1 h.2, putbyteEpb, if_pos ((insertEpb_iff hb).mpr h)]
    rfl
  · rw [put_plain h, putbyteEpb, if_neg (mt (insertEpb_iff hb).mp h)]
    rfl

/-- Plain stores that stay below `2 ^ 32` write their bytes in order and nothing else. -/
theorem foldl_put {s : ByteSink} (hl : ∀ x ∈ l, x < 256) (hoff : s.off + l.length < 2 ^ 32) :
    let s' := l.foldl ByteSink.put s
    Holds s'.ptr.mem s.off l ∧ s'.off = s.off + l.length ∧ s'.zeroRun = zeroRun s.zeroRun l ∧
      ∀ i < s.off, s'.ptr.mem i = s.ptr.mem i := by
  induction l generalizing s with
  | nil => simp
  | cons b l ih =>
    rw [List.length_cons] at hoff
    have ho1 : (s.put b).off = s.off + 1 := u32_of_lt (by omega)
    obtain ⟨hh, ho, hr, hf⟩ := ih (s := s.put b) (fun x hx => hl x (by simp [hx])) (by omega)
    have hb : (s.put b).ptr.mem s.off = b := by
      simp [ByteSink.put, StrmBuffer.store, Nat.mod_eq_of_lt (hl b (by simp))]
    rw [ho1] at hh ho hf
    refine ⟨Holds.cons.mpr ⟨(hf _ (by omega)).trans hb, hh⟩, ?_, ?_, fun i hi => ?_⟩
    · rw [List.foldl_cons, ho, List.length_cons]
      omega
    · rw [List.foldl_cons, hr, zeroRun_cons]
      rfl
    · rw [List.foldl_cons, hf i (by omega)]
      exact set_ne (by omega)

theorem stores_subset_put (s : ByteSink) (l : List Nat) :
    s.ptr.stores ⊆ (l.foldl ByteSink.put s).ptr.stores := by
  induction l generalizing s with
  | nil => simp
  | cons b l ih => exact fun i hi => ih (s.put b) (List.mem_cons_of_mem _ hi)

/-- Where plain stores that stay below `2 ^ 32` go. -/
theorem mem_stores_put {s : ByteSink} {l : List Nat} (hoff : s.off + l.length < 2 ^ 32) :
    i ∈ (l.foldl ByteSink.put s).ptr.stores ↔
      i ∈ s.ptr.stores ∨ s.off ≤ i ∧ i < s.off + l.length := by
  induction l generalizing s with
  | nil => simp
  | cons b l ih =>
    rw [List.length_cons] at hoff
    have ho1 : (s.put b).off = s.off + 1 := u32_of_lt (by omega)
    have hs : (s.put b).ptr.stores = s.off :: s.ptr.stores := rfl
    rw [List.foldl_cons, ih (by omega), ho1, hs, List.mem_cons, List.length_cons]
    constructor
    · rintro ((rfl | h) | ⟨hlo, hhi⟩)
      · exact .inr ⟨le_rfl, by omega⟩
      · exact .inl h
      · exact .inr ⟨by omega, by omega⟩
    · rintro (h | ⟨hlo, hhi⟩)
      · exact .inl (.inr h)
      · by_cases he : i = s.off
        · exact .inl (.inl he)
        · exact .inr ⟨by omega, by omega⟩

/-- Stores below `2 ^ 32 - 1` leave the offset below `2 ^ 32`. -/
theorem off_lt_of_stores {s : ByteSink} {l : List Nat} (hs : s.off < 2 ^ 32)
    (hstores : ∀ i ∈ (l.foldl ByteSink.put s).ptr.stores, i + 1 < 2 ^ 32) :
    s.off + l.length < 2 ^ 32 := by
  induction l generalizing s with
  | nil => simpa using hs
  | cons b l ih =>
    have hmem : s.off ∈ ((b :: l).foldl ByteSink.put s).ptr.stores :=
      stores_subset_put (s.put b) l (List.mem_cons_self ..)
    have ho1 : (s.put b).off = s.off + 1 := u32_of_lt (hstores _ hmem)
    have := ih (s := s.put b) (u32_lt _) hstores
    rw [List.length_cons]
    omega

theorem Written.put (h : Written m s a l) (hb : b < 256)
    (hoff : a + (epb.escape 0 (l ++ [b])).length < 2 ^ 32) :
    Written m (putbyteEpb s b) a (l ++ [b]) := by
  have hput : ∀ x ∈ epb.put s.zeroRun b, x < 256 := by
    have := byte_lt_of_mem_escape s.zeroRun (l := [b]) (by simpa using hb)
    simpa [Scheme.escape] using this
  have hesc : epb.escape 0 (l ++ [b]) = epb.escape 0 l ++ epb.put s.zeroRun b := by
    rw [escape_snoc, h.run]
  rw [hesc, List.length_append, ← Nat.add_assoc, ← h.off] at hoff
  rw [putbyteEpb_eq hb]
  obtain ⟨hh, ho, hr, hf⟩ := foldl_put hput hoff
  refine ⟨?_, ?_, ?_, fun i hi => ?_, ?_⟩
  · rw [hesc, Holds.append, ← h.off]
    exact ⟨h.holds.congr fun i hi => hf _ (by rw [h.off]; omega), hh⟩
  · rw [ho, hesc, List.length_append, h.off]
    omega
  · rw [hr, hesc, zeroRun_append, ← h.run]
  · rw [hf i (by rw [h.off]; omega), h.frame i hi]
  · intro x hx
    rcases List.mem_append.mp hx with hx | hx
    · exact h.bytes x hx
    · rw [List.mem_singleton.mp hx]
      exact hb

theorem length_escape_le (l k : List Nat) :
    (epb.escape 0 l).length ≤ (epb.escape 0 (l ++ k)).length := by
  rw [escape_append, List.length_append]
  omega

theorem Written.putAll (h : Written m s a l) (hk : ∀ x ∈ k, x < 256)
    (hoff : a + (epb.escape 0 (l ++ k)).length < 2 ^ 32) :
    Written m (putBytes s k) a (l ++ k) := by
  induction k generalizing s l with
  | nil => simpa [putBytes] using h
  | cons b k ih =>
    rw [List.append_cons] at hoff ⊢
    have hle := length_escape_le (l ++ [b]) k
    exact ih (h.put (hk b (by simp)) (by omega)) (fun x hx => hk x (by simp [hx])) hoff

theorem stores_subset_putBytes (s : ByteSink) (l : List Nat) :
    s.ptr.stores ⊆ (putBytes s l).ptr.stores := by
  induction l generalizing s with
  | nil => simp [putBytes]
  | cons b l ih =>
    refine List.Subset.trans ?_ (ih (putbyteEpb s b))
    unfold putbyteEpb
    split
    · exact fun i hi => List.mem_cons_of_mem _ (List.mem_cons_of_mem _ hi)
    · exact fun i hi => List.mem_cons_of_mem _ hi

/-- Stores below the offset stay below it. -/
theorem Written.stores_lt (h : Written m s a l) (hk : ∀ x ∈ k, x < 256)
    (hoff : a + (epb.escape 0 (l ++ k)).length < 2 ^ 32)
    (hstores : ∀ i ∈ s.ptr.stores, i < s.off) :
    ∀ i ∈ (putBytes s k).ptr.stores, i < (putBytes s k).off := by
  induction k generalizing s l with
  | nil => exact hstores
  | cons b k ih =>
    have hb : b < 256 := hk b (by simp)
    rw [List.append_cons] at hoff
    have hle := length_escape_le (l ++ [b]) k
    have hput := h.put hb (by omega)
    refine ih hput (fun x hx => hk x (by simp [hx])) hoff fun i hi => ?_
    have hsnoc : epb.escape 0 (l ++ [b]) = epb.escape 0 l ++ epb.put s.zeroRun b := by
      rw [escape_snoc, h.run]
    rw [hsnoc, List.length_append] at hle
    have hputoff := hput.off
    rw [hsnoc, List.length_append] at hputoff
    have hoff' := h.off
    rw [putbyteEpb_eq hb, mem_stores_put (by omega)] at hi
    rcases hi with hi | ⟨-, hi⟩
    · have := hstores i hi
      omega
    · omega

/-- A sink whose stores all stay below `2 ^ 32 - 1` has not wrapped its offset. -/
theorem Written.length_lt (h : Written m s a l) (hk : ∀ x ∈ k, x < 256)
    (hl : a + (epb.escape 0 l).length < 2 ^ 32)
    (hstores : ∀ i ∈ (putBytes s k).ptr.stores, i + 1 < 2 ^ 32) :
    a + (epb.escape 0 (l ++ k)).length < 2 ^ 32 := by
  induction k generalizing s l with
  | nil => simpa using hl
  | cons b k ih =>
    have hb : b < 256 := hk b (by simp)
    have hstores' : ∀ i ∈ ((epb.put s.zeroRun b).foldl ByteSink.put s).ptr.stores,
        i + 1 < 2 ^ 32 := by
      rw [← putbyteEpb_eq hb]
      exact fun i hi => hstores i (stores_subset_putBytes _ k hi)
    have hlen := off_lt_of_stores (by rw [h.off]; exact hl) hstores'
    have hsnoc : a + (epb.escape 0 (l ++ [b])).length < 2 ^ 32 := by
      rw [escape_snoc, ← h.run, List.length_append, ← Nat.add_assoc, ← h.off]
      exact hlen
    rw [List.append_cons]
    exact ih (h.put hb hsnoc) (fun x hx => hk x (by simp [hx])) hsnoc hstores

-- ---------------------------------------------------------------------------
-- Words
-- ---------------------------------------------------------------------------

theorem wordBytes_lt : ∀ x ∈ wordBytes word n, x < 256 := by
  intro x hx
  obtain ⟨j, -, rfl⟩ := List.mem_map.mp hx
  have := Nat.and_le_right (n := word >>> (32 - 8 * j - 8)) (m := 0xFF)
  omega

@[simp] theorem length_wordBytes : (wordBytes word n).length = n := by simp [wordBytes]

theorem byteVal_wordBytes (hw : word < 2 ^ 32) (hn : n ≤ 4) :
    byteVal (wordBytes word n) = word / 2 ^ (32 - 8 * n) := by
  induction n with
  | zero => rw [Nat.div_eq_of_lt hw]; rfl
  | succ n ih =>
    have hsnoc : wordBytes word (n + 1) =
        wordBytes word n ++ [(word >>> (32 - 8 * n - 8)) &&& 0xFF] := by
      simp [wordBytes, List.range_succ]
    have hmask (x : Nat) : x &&& 0xFF = x % 256 := Nat.and_two_pow_sub_one_eq_mod x 8
    have hpow : 2 ^ (32 - 8 * n) = 2 ^ (32 - 8 * (n + 1)) * 256 := by
      rw [show 32 - 8 * n = 32 - 8 * (n + 1) + 8 by omega, pow_add]
      rfl
    rw [hsnoc, byteVal_append_singleton, ih (by omega), hmask, Nat.shiftRight_eq_div_pow, hpow,
      ← Nat.div_div_eq_div_mul, show 32 - 8 * n - 8 = 32 - 8 * (n + 1) by omega]
    omega

-- ---------------------------------------------------------------------------
-- Bits
-- ---------------------------------------------------------------------------

theorem bitVal_append_bitsOf (w : List Bool) (hv : v < 2 ^ n) :
    bitVal (w ++ bitsOf n v) = bitVal w * 2 ^ n + v := by
  rw [bitVal_append, bitVal_bitsOf, length_bitsOf, Nat.mod_eq_of_lt hv]

/-- The bits `w` as whole words of bytes and the rest in the upper part of a word. -/
structure WordBits (payload : List Nat) (w : List Bool) (cur left : Nat) : Prop where
  bytes : ∀ x ∈ payload, x < 256
  left_pos : 0 < left
  left_le : left ≤ 32
  word : cur < 2 ^ 32
  value : byteVal payload * 2 ^ 32 + cur = bitVal w * 2 ^ left
  length : w.length = 8 * payload.length + (32 - left)

/-- The bits not yet used of the word are zero. -/
theorem WordBits.word_dvd (h : WordBits payload w cur left) : 2 ^ left ∣ cur := by
  have hpow : 2 ^ left ∣ byteVal payload * 2 ^ 32 := Dvd.dvd.mul_left (pow_dvd_pow 2 h.left_le) _
  rw [← Nat.dvd_add_right hpow, h.value]
  exact Nat.dvd_mul_left ..

/-- Filling the unused bits of the word adds to it. -/
theorem WordBits.word_or (h : WordBits payload w cur left) (hy : y < 2 ^ left) :
    cur ||| y = cur + y ∧ cur + y < 2 ^ 32 := by
  obtain ⟨q, hq⟩ := h.word_dvd
  have hword := h.word
  have hpow : 2 ^ 32 = 2 ^ left * 2 ^ (32 - left) := by
    rw [← pow_add, Nat.add_sub_cancel' h.left_le]
  rw [hq, Nat.mul_comm, mul_or hy]
  refine ⟨rfl, ?_⟩
  rw [hq, hpow] at hword
  have hlt : q + 1 ≤ 2 ^ (32 - left) := Nat.lt_of_mul_lt_mul_left hword
  calc q * 2 ^ left + y < (q + 1) * 2 ^ left := by
        rw [Nat.succ_mul]; omega
    _ ≤ 2 ^ (32 - left) * 2 ^ left := Nat.mul_le_mul_right _ hlt
    _ = 2 ^ 32 := by rw [Nat.mul_comm, ← hpow]

/-- A code that fits in the current word. -/
theorem WordBits.fit (h : WordBits payload w cur left) (hv : v < 2 ^ n) (hin : n < left) :
    WordBits payload (w ++ bitsOf n v) (cur ||| u32 (v <<< (left - n))) (left - n) := by
  have hle := h.left_le
  have hlen := h.length
  have hpow : 2 ^ left = 2 ^ n * 2 ^ (left - n) := by
    rw [← pow_add, Nat.add_sub_cancel' (by omega)]
  have hcode : v * 2 ^ (left - n) < 2 ^ left := by
    rw [hpow]
    exact Nat.mul_lt_mul_of_pos_right hv (by positivity)
  have hle32 : 2 ^ left ≤ 2 ^ 32 := Nat.pow_le_pow_right (by decide) hle
  obtain ⟨hor, hlt⟩ := h.word_or hcode
  rw [Nat.shiftLeft_eq, u32_of_lt (by omega), hor]
  refine ⟨h.bytes, by omega, by omega, hlt, ?_, ?_⟩
  · rw [← Nat.add_assoc, h.value, bitVal_append_bitsOf w hv, hpow]
    ring
  · rw [List.length_append, length_bitsOf]
    omega

/-- A code that completes the current word. -/
theorem WordBits.flush (h : WordBits payload w cur left) (hn32 : n ≤ 32) (hv : v < 2 ^ n)
    (hout : left ≤ n) :
    WordBits (payload ++ wordBytes (cur ||| (v >>> (n - left))) 4) (w ++ bitsOf n v)
      (if n - left = 0 then 0 else u32 (v <<< (32 - (n - left)))) (32 - (n - left)) := by
  have hpos := h.left_pos
  have hle := h.left_le
  have hlen := h.length
  set rem := n - left
  have hv' : v / 2 ^ rem < 2 ^ left := by
    rw [Nat.div_lt_iff_lt_mul (by positivity), ← pow_add]
    rwa [show left + rem = n by omega]
  obtain ⟨hor, hlt⟩ := h.word_or hv'
  have h32 : 2 ^ 32 = 2 ^ rem * 2 ^ (32 - rem) := by
    rw [← pow_add]
    congr 1
    omega
  have hcur : (if rem = 0 then 0 else u32 (v <<< (32 - rem))) = v % 2 ^ rem * 2 ^ (32 - rem) := by
    split
    · rename_i h0
      simp [h0, Nat.mod_one]
    · rw [Nat.shiftLeft_eq, u32, h32, Nat.mul_mod_mul_right]
  rw [Nat.shiftRight_eq_div_pow, hor, hcur]
  refine ⟨?_, by omega, by omega, ?_, ?_, ?_⟩
  · intro x hx
    rcases List.mem_append.mp hx with hx | hx
    · exact h.bytes x hx
    · exact wordBytes_lt x hx
  · rw [h32]
    exact Nat.mul_lt_mul_of_pos_right (Nat.mod_lt _ (by positivity)) (by positivity)
  · have hbytes := byteVal_wordBytes hlt (n := 4) (by omega)
    rw [show 32 - 8 * 4 = 0 from rfl, pow_zero, Nat.div_one] at hbytes
    have hcode : 2 ^ n * 2 ^ (32 - rem) = 2 ^ left * 2 ^ 32 := by
      rw [← pow_add, ← pow_add]
      congr 1
      omega
    have hsplit : v * 2 ^ (32 - rem) = v / 2 ^ rem * 2 ^ 32 + v % 2 ^ rem * 2 ^ (32 - rem) := by
      conv_lhs => rw [← Nat.div_add_mod v (2 ^ rem)]
      rw [h32]
      ring
    calc byteVal (payload ++ wordBytes (cur + v / 2 ^ rem) 4) * 2 ^ 32 +
          v % 2 ^ rem * 2 ^ (32 - rem)
        = (byteVal payload * 2 ^ 32 + cur) * 2 ^ 32 + v * 2 ^ (32 - rem) := by
          rw [byteVal_append, length_wordBytes, hbytes, hsplit]
          ring
      _ = bitVal (w ++ bitsOf n v) * 2 ^ (32 - rem) := by
          rw [h.value, bitVal_append_bitsOf w hv, Nat.add_mul, Nat.mul_assoc (bitVal w),
            Nat.mul_assoc (bitVal w), hcode]
  · rw [List.length_append, List.length_append, length_bitsOf, length_wordBytes]
    omega

/-- The stop bit and the zeros that fill the last byte. -/
theorem WordBits.trailing (h : WordBits payload w cur left) :
    let rest := (left - 1) / 2 ^ 3
    let bytes := payload ++ wordBytes (cur ||| u32 (1 <<< (left - 1))) (4 - rest)
    8 * bytes.length = w.length + 1 + (left - 1) % 8 ∧
      byteVal bytes = bitVal (w ++ [true]) * 2 ^ ((left - 1) % 8) := by
  have hpos := h.left_pos
  have hle := h.left_le
  have hlen := h.length
  intro rest
  have hrest : rest ≤ 3 := by omega
  have hstop : 2 ^ (left - 1) < 2 ^ left := Nat.pow_lt_pow_right (by decide) (by omega)
  have hle32 : 2 ^ left ≤ 2 ^ 32 := Nat.pow_le_pow_right (by decide) hle
  have hone : u32 (1 <<< (left - 1)) = 2 ^ (left - 1) := by
    rw [Nat.shiftLeft_eq, Nat.one_mul, u32_of_lt (by omega)]
  obtain ⟨hor, hlt⟩ := h.word_or hstop
  rw [hone, hor]
  dsimp only
  refine ⟨?_, ?_⟩
  · rw [List.length_append, length_wordBytes]
    omega
  · have hbl : 2 ^ left = 2 * 2 ^ (left - 1) := by
      rw [← pow_succ']
      congr 1
      omega
    have hz : 2 ^ (left - 1) = 2 ^ ((left - 1) % 8) * 2 ^ (8 * rest) := by
      rw [← pow_add]
      congr 1
      omega
    have h32 : 2 ^ 32 = 256 ^ (4 - rest) * 2 ^ (8 * rest) := by
      rw [show 256 = 2 ^ 8 from rfl, ← pow_mul, ← pow_add]
      congr 1
      omega
    have hbytes := byteVal_wordBytes hlt (n := 4 - rest) (by omega)
    rw [show 32 - 8 * (4 - rest) = 8 * rest by omega] at hbytes
    have hsum : byteVal payload * 2 ^ 32 + (cur + 2 ^ (left - 1)) =
        bitVal (w ++ [true]) * 2 ^ ((left - 1) % 8) * 2 ^ (8 * rest) := by
      rw [← Nat.add_assoc, h.value, bitVal_append_singleton, Nat.mul_assoc, ← hz, hbl]
      simp
      ring
    rw [byteVal_append, length_wordBytes, hbytes]
    rw [h32, ← Nat.mul_assoc] at hsum
    rw [← Nat.mul_add_div (by positivity), Nat.mul_comm (2 ^ (8 * rest)), hsum,
      Nat.mul_div_cancel _ (by positivity)]

/-- The writer has put the bits `w`: whole words of them are escaped in memory from byte 0 on,
the rest waits in the upper part of the current word. -/
structure Pending (m : Nat → Nat) (s : Bitstrm) (payload : List Nat) (w : List Bool) : Prop where
  written : Written m s.sink 0 payload
  offset : s.u4StrmBufOffset < 2 ^ 32
  left_pos : 0 < s.i4BitsLeftInCw
  left_le : s.i4BitsLeftInCw ≤ 32
  word : s.u4CurWord < 2 ^ 32
  value : byteVal payload * 2 ^ 32 + s.u4CurWord = bitVal w * 2 ^ s.i4BitsLeftInCw
  length : w.length = 8 * payload.length + (32 - s.i4BitsLeftInCw)

theorem pending_init (m : Nat → Nat) (u4Max : Nat) :
    Pending m (ihevceBitstrmInit m u4Max) [] [] := by
  refine ⟨⟨by simp, rfl, rfl, by simp [ihevceBitstrmInit, Bitstrm.sink], by simp⟩, ?_, ?_, ?_, ?_,
    ?_, ?_⟩ <;> simp [ihevceBitstrmInit]

theorem Pending.wordBits (h : Pending m s payload w) :
    WordBits payload w s.u4CurWord s.i4BitsLeftInCw :=
  ⟨h.written.bytes, h.left_pos, h.left_le, h.word, h.value, h.length⟩

/-- `ihevce_put_bits` puts the bits of its code, unless it reports an overflow. -/
theorem Pending.putBits (h : Pending m s payload w) (hn32 : n ≤ 32) (hv : v < 2 ^ n)
    (hok : (ihevcePutBits s v n).2 = .success)
    (hstores : ∀ i ∈ (ihevcePutBits s v n).1.pu1StrmBuffer.stores, i + 1 < 2 ^ 32) :
    ∃ payload', Pending m (ihevcePutBits s v n).1 payload' (w ++ bitsOf n v) := by
  unfold ihevcePutBits at hok hstores ⊢
  by_cases hin : n < s.i4BitsLeftInCw
  · -- the code fits in the current word
    rw [if_pos hin]
    have hbits := h.wordBits.fit hv hin
    exact ⟨payload, h.written, h.offset, hbits.left_pos, hbits.left_le, hbits.word, hbits.value,
      hbits.length⟩
  · -- the current word is completed and written
    rw [if_neg hin] at hok hstores ⊢
    by_cases hfull : s.u4MaxStrmSize ≤ u32 (s.u4StrmBufOffset + 4)
    · simp [hfull] at hok
    · rw [if_neg hfull] at hstores ⊢
      have hbits := h.wordBits.flush hn32 hv (Nat.le_of_not_lt hin)
      have hroom := h.written.length_lt wordBytes_lt (h.written.off ▸ h.offset) hstores
      have hwritten := h.written.putAll wordBytes_lt hroom
      have hoff : (putBytes s.sink _).off = _ := hwritten.off
      refine ⟨_, hwritten, ?_, hbits.left_pos, hbits.left_le, hbits.word, hbits.value,
        hbits.length⟩
      simp only
      omega

/-- `ihevce_put_rbsp_trailing_bits` ends the bits with a one and fills the last byte with
zeros. -/
theorem Pending.putRbspTrailingBits (h : Pending m s payload w)
    (hok : (ihevcePutRbspTrailingBits s).2 = .success)
    (hstores : ∀ i ∈ (ihevcePutRbspTrailingBits s).1.pu1StrmBuffer.stores, i + 1 < 2 ^ 32) :
    ∃ payload' z,
      let s' := (ihevcePutRbspTrailingBits s).1
      Holds s'.pu1StrmBuffer.mem 0 (epb.escape 0 payload') ∧
      s'.u4StrmBufOffset = (epb.escape 0 payload').length ∧
      (∀ x ∈ payload', x < 256) ∧ z < 8 ∧ 8 * payload'.length = w.length + 1 + z ∧
      byteVal payload' = bitVal (w ++ [true]) * 2 ^ z := by
  obtain ⟨hlen, hval⟩ := h.wordBits.trailing
  unfold ihevcePutRbspTrailingBits at hok hstores ⊢
  simp only [Nat.shiftRight_eq_div_pow] at hok hstores ⊢
  split at hok
  · simp at hok
  · rename_i hfull
    rw [if_neg hfull] at hstores ⊢
    have hroom := h.written.length_lt wordBytes_lt (h.written.off ▸ h.offset) hstores
    have hwritten := h.written.putAll wordBytes_lt hroom
    exact ⟨_, (s.i4BitsLeftInCw - 1) % 8, hwritten.holds, by simpa using hwritten.off,
      hwritten.bytes, Nat.mod_lt _ (by decide), hlen, hval⟩

-- ---------------------------------------------------------------------------
-- Stores and room
-- ---------------------------------------------------------------------------

theorem stores_subset_putBits (s : Bitstrm) (v n : Nat) :
    s.pu1StrmBuffer.stores ⊆ (ihevcePutBits s v n).1.pu1StrmBuffer.stores := by
  unfold ihevcePutBits
  split
  · exact List.Subset.refl _
  · simp only
    split
    · exact List.Subset.refl _
    · exact stores_subset_putBytes s.sink _

theorem stores_subset_putRbspTrailingBits (s : Bitstrm) :
    s.pu1StrmBuffer.stores ⊆ (ihevcePutRbspTrailingBits s).1.pu1StrmBuffer.stores := by
  unfold ihevcePutRbspTrailingBits
  simp only
  split
  · exact List.Subset.refl _
  · exact stores_subset_putBytes s.sink _

/-- The stores so far are below the offset. -/
def Bitstrm.StoresBelow (s : Bitstrm) : Prop :=
  ∀ i ∈ s.pu1StrmBuffer.stores, i < s.u4StrmBufOffset

theorem Pending.escaped_le (h : Pending m s payload w) :
    s.u4StrmBufOffset ≤ 2 * payload.length := by
  have hoff : s.u4StrmBufOffset = _ := h.written.off
  have := (length_escape (S := epb) 0 payload).2
  omega

/-- Four more bytes, with their escapes. -/
theorem escaped_append_le (payload : List Nat) (hk : k.length ≤ 4) :
    (epb.escape 0 (payload ++ k)).length ≤ 2 * payload.length + 8 := by
  have := (length_escape (S := epb) 0 (payload ++ k)).2
  rw [List.length_append] at this
  omega

/-- Up to four more bytes need twice the room, and twice the bytes so far. -/
theorem Pending.putAll_room (h : Pending m s payload w) (hbelow : s.StoresBelow)
    (hk : k.length ≤ 4) (hbytes : ∀ x ∈ k, x < 256) (hroom : 2 * payload.length + 8 < 2 ^ 32) :
    (∀ i ∈ (putBytes s.sink k).ptr.stores, i < (putBytes s.sink k).off) ∧
      (putBytes s.sink k).off ≤ 2 * payload.length + 8 := by
  have hlen := escaped_append_le payload hk
  have hoff := (h.written.putAll hbytes (by omega)).off
  exact ⟨h.written.stores_lt hbytes (by omega) hbelow, by omega⟩

theorem Pending.putBits_room (h : Pending m s payload w) (hbelow : s.StoresBelow)
    (hroom : 2 * payload.length + 8 < s.u4MaxStrmSize) (hmax : s.u4MaxStrmSize < 2 ^ 32) :
    let s' := (ihevcePutBits s v n).1
    (ihevcePutBits s v n).2 = .success ∧ s'.StoresBelow ∧
      s'.u4StrmBufOffset ≤ 2 * payload.length + 8 ∧ s'.u4MaxStrmSize = s.u4MaxStrmSize := by
  have hle := h.escaped_le
  unfold ihevcePutBits
  split
  · exact ⟨rfl, hbelow, by simp only; omega, rfl⟩
  · have hfull : ¬s.u4MaxStrmSize ≤ u32 (s.u4StrmBufOffset + 4) := by
      rw [u32_of_lt (by omega)]
      omega
    obtain ⟨hstores, hoff⟩ := h.putAll_room hbelow
      (k := wordBytes (s.u4CurWord ||| v >>> (n - s.i4BitsLeftInCw)) 4) (by simp) wordBytes_lt
      (by omega)
    simp only [hfull, if_false, true_and]
    exact ⟨hstores, hoff, trivial⟩

theorem Pending.putRbspTrailingBits_room (h : Pending m s payload w) (hbelow : s.StoresBelow)
    (hroom : 2 * payload.length + 8 < s.u4MaxStrmSize) (hmax : s.u4MaxStrmSize < 2 ^ 32) :
    let s' := (ihevcePutRbspTrailingBits s).1
    (ihevcePutRbspTrailingBits s).2 = .success ∧ s'.StoresBelow ∧
      s'.u4StrmBufOffset ≤ 2 * payload.length + 8 := by
  have hle := h.escaped_le
  have hleft := h.left_le
  unfold ihevcePutRbspTrailingBits
  simp only
  set rest := (s.i4BitsLeftInCw - 1) >>> 3 with hrest
  rw [Nat.shiftRight_eq_div_pow] at hrest
  have hfull : ¬s.u4MaxStrmSize ≤ u32Sub (s.u4StrmBufOffset + 4) rest := by
    rw [u32Sub_of_le (by omega) (by omega)]
    omega
  obtain ⟨hstores, hoff⟩ := h.putAll_room hbelow
    (k := wordBytes (s.u4CurWord ||| u32 (1 <<< (s.i4BitsLeftInCw - 1))) (4 - rest)) (by simp)
    wordBytes_lt (by omega)
  simp only [hfull, if_false, true_and]
  exact ⟨hstores, hoff⟩

end Libhevc.Encoder
