import Libhevc.Common.Platform

/-!
# The decoder's bitstream reader

`ihevcd_bitstream.c` and the macros of `ihevcd_bitstream.h`. The buffer is read
by 32-bit words through `pu4_buf`, counted in words from `pu1_buf_base`; two
words are held back to front, `u4_cur_word` and `u4_nxt_word`.
-/

namespace Libhevc.Decoder

open BitString

/-- `bitstrm_t` of the decoder. -/
structure Bitstrm where
  pu1BufBase : Nat → Nat
  pu4Buf : Nat
  u4BitOfst : Nat
  u4CurWord : Nat
  u4NxtWord : Nat
  pu1BufMax : Nat

def ihevcdBitsInit (pu1Buf : Nat → Nat) (u4Numbytes : Nat) : Bitstrm :=
  { pu1BufBase := pu1Buf
    pu4Buf := 2
    u4BitOfst := 0
    u4CurWord := ittBigEndian (loadWord pu1Buf 0)
    u4NxtWord := ittBigEndian (loadWord pu1Buf 1)
    pu1BufMax := u4Numbytes + 8 }

/-- The refill that `BITS_FLUSH` and `BITS_GET` share. -/
def Bitstrm.refill (s : Bitstrm) : Bitstrm :=
  if 32 ≤ s.u4BitOfst then
    { s with
      u4CurWord := s.u4NxtWord
      pu4Buf := s.pu4Buf + 1
      u4BitOfst := s.u4BitOfst - 32
      u4NxtWord := ittBigEndian (loadWord s.pu1BufBase s.pu4Buf) }
  else s

/-- `BITS_FLUSH` -/
def bitsFlush (s : Bitstrm) (cnt : Nat) : Bitstrm :=
  Bitstrm.refill { s with u4BitOfst := u32 (s.u4BitOfst + cnt) }

/-- It skips a whole byte where the reader stands on a byte boundary. -/
def ihevcdBitsFlushToByteBoundary (s : Bitstrm) : Bitstrm :=
  bitsFlush s (8 - (s.u4BitOfst &&& 7))

/-- `BITS_NXT` -/
def ihevcdBitsNxt (s : Bitstrm) (cnt : Nat) : Nat :=
  let bits := u32 (s.u4CurWord <<< s.u4BitOfst) >>> (32 - cnt)
  if 32 - cnt < s.u4BitOfst then bits ||| shr s.u4NxtWord (32 + 32 - cnt - s.u4BitOfst) else bits

/-- `BITS_NXT32` -/
def bitsNxt32 (s : Bitstrm) : Nat :=
  u32 (s.u4CurWord <<< s.u4BitOfst) ||| shr s.u4NxtWord (32 - s.u4BitOfst)

/-- `BITS_GET` -/
def ihevcdBitsGet (s : Bitstrm) (cnt : Nat) : Nat × Bitstrm :=
  let bits := u32 (s.u4CurWord <<< s.u4BitOfst) >>> (32 - cnt)
  let ofst := u32 (s.u4BitOfst + cnt)
  let bits := if 32 < ofst then bits ||| shr s.u4NxtWord (64 - ofst) else bits
  (bits, Bitstrm.refill { s with u4BitOfst := ofst })

/-- `BIT_GET` -/
def bitGet (s : Bitstrm) : Nat × Bitstrm :=
  let ofst := u32 (s.u4BitOfst + 1)
  (u32 (s.u4CurWord <<< s.u4BitOfst) >>> 31,
    if ofst = 32 then
      { s with
        u4CurWord := s.u4NxtWord
        pu4Buf := s.pu4Buf + 1
        u4BitOfst := 0
        u4NxtWord := ittBigEndian (loadWord s.pu1BufBase s.pu4Buf) }
    else { s with u4BitOfst := ofst })

/-- `ihevcd_bits_seek` -/
def ihevcdBitsSeek (s : Bitstrm) (numbits : Int) : Bitstrm :=
  if numbits < 0 then
    let absNumbits := (-numbits).toNat
    if absNumbits ≤ s.u4BitOfst then { s with u4BitOfst := s.u4BitOfst - absNumbits }
    else
      let pu4Buf := s.pu4Buf - 1
      { s with
        u4BitOfst := u32Sub (s.u4BitOfst + 32) absNumbits
        pu4Buf := pu4Buf
        u4NxtWord := s.u4CurWord
        u4CurWord := ittBigEndian (loadWord s.pu1BufBase (pu4Buf - 2)) }
  else bitsFlush s numbits.toNat

def ihevcdBitsNumBitsConsumed (s : Bitstrm) : Nat :=
  u32 (u32 ((4 * s.pu4Buf - 8) <<< 3) + s.u4BitOfst)

def ihevcdBitsNumBitsRemaining (s : Bitstrm) : Nat :=
  let u4BitsConsumed := u32 (u32 ((4 * s.pu4Buf - 8) <<< 3) + s.u4BitOfst)
  let u4SizeInBits := u32 (u32Sub s.pu1BufMax 8 <<< 3)
  if u4BitsConsumed < u4SizeInBits then u4SizeInBits - u4BitsConsumed else 0

/-- The part `ihevcd_uev` and `ihevcd_sev` share: the number of leading zeros, the bits after
the stop bit, and the reader after them. -/
def golombGet (s : Bitstrm) : Nat × Nat × Bitstrm :=
  let u4Clz := clz (bitsNxt32 s)
  let s := bitsFlush s (u4Clz + 1)
  if u4Clz = 0 then (u4Clz, 0, s) else (u4Clz, ihevcdBitsGet s u4Clz)

def ihevcdUev (s : Bitstrm) : Nat × Bitstrm :=
  let g := golombGet s
  (u32Sub (u32 (1 <<< g.1 + g.2.1)) 1, g.2.2)

def ihevcdSev (s : Bitstrm) : Int × Bitstrm :=
  let g := golombGet s
  let u4AbsVal := u32 (1 <<< g.1 + g.2.1) >>> 1
  (if g.2.1 &&& 1 = 1 then i32 (-(u4AbsVal : Int)) else i32 u4AbsVal, g.2.2)

end Libhevc.Decoder

/-!
## The reader as a position in a bit string

`s.At p` relates a reader to the bit position `p` of its buffer. Every operation
gives back the bits from `p` on and moves the position.
-/

namespace Libhevc.Decoder

open BitString

/-- The bits of the buffer. -/
def Bitstrm.bits (s : Bitstrm) : Nat → Bool := ofBytes s.pu1BufBase

/-- The reader stands at bit `p`: the two words it holds are the ones `p` needs. -/
structure Bitstrm.At (s : Bitstrm) (p : Nat) : Prop where
  bytes : ∀ i, s.pu1BufBase i < 256
  pu4Buf : s.pu4Buf = p / 32 + 2
  ofst : s.u4BitOfst = p % 32
  cur : s.u4CurWord = field s.bits (32 * (p / 32)) 32
  nxt : s.u4NxtWord = field s.bits (32 * (p / 32) + 32) 32

theorem bitsInit_at (h : ∀ i, buf i < 256) : (ihevcdBitsInit buf n).At 0 :=
  ⟨h, rfl, rfl, ittBigEndian_loadWord h, ittBigEndian_loadWord h⟩

/-- A reader whose offset has run past its current word is put right by the refill. -/
theorem refill_at (h : Bitstrm.At s p) (hn : n ≤ 32) :
    (Bitstrm.refill { s with u4BitOfst := s.u4BitOfst + n }).At (p + n) := by
  have hofst := h.ofst
  unfold Bitstrm.refill
  split
  · rename_i hge
    simp only at hge
    have hdiv : (p + n) / 32 = p / 32 + 1 := by omega
    have hmul : 32 * (p / 32 + 1) = 32 * (p / 32) + 32 := by omega
    have hnxt := ittBigEndian_loadWord (k := s.pu4Buf) h.bytes
    have hpos : 32 * s.pu4Buf = 32 * (p / 32) + 32 + 32 := by rw [h.pu4Buf]; omega
    rw [hpos] at hnxt
    refine ⟨h.bytes, ?_, ?_, ?_, ?_⟩
    · simp only [h.pu4Buf, hdiv]
    · simp only
      omega
    · simp only [h.nxt, hdiv, hmul]
      rfl
    · simp only [hdiv, hmul]
      exact hnxt
  · rename_i hlt
    simp only at hlt
    have hdiv : (p + n) / 32 = p / 32 := by omega
    refine ⟨h.bytes, ?_, ?_, ?_, ?_⟩
    · simp only [h.pu4Buf, hdiv]
    · simp only
      omega
    · simp only [h.cur, hdiv]
      rfl
    · simp only [h.nxt, hdiv]
      rfl

theorem bitsFlush_at (h : Bitstrm.At s p) (hn : n ≤ 32) : (bitsFlush s n).At (p + n) := by
  have hofst := h.ofst
  rw [bitsFlush, u32_of_lt (by omega)]
  exact refill_at h hn

/-- The current word, without the bits already read, on top of a word. -/
theorem cur_shiftLeft (h : Bitstrm.At s p) :
    u32 (s.u4CurWord <<< s.u4BitOfst) =
      field s.bits p (32 - s.u4BitOfst) * 2 ^ s.u4BitOfst := by
  have hofst := h.ofst
  have hsplit : s.u4BitOfst + (32 - s.u4BitOfst) = 32 := by omega
  have hpos : 32 * (p / 32) + s.u4BitOfst = p := by omega
  have hmod := field_mod s.bits (32 * (p / 32)) s.u4BitOfst (32 - s.u4BitOfst)
  rw [hsplit, hpos, ← h.cur] at hmod
  have hpow : 2 ^ 32 = 2 ^ (32 - s.u4BitOfst) * 2 ^ s.u4BitOfst := by
    rw [← pow_add, Nat.add_comm, hsplit]
  rw [u32, Nat.shiftLeft_eq, hpow, Nat.mul_mod_mul_right, hmod]

/-- The leading bits of the next word. -/
theorem shr_nxt (h : Bitstrm.At s p) (hm : m ≤ 32) :
    shr s.u4NxtWord (32 - m) = field s.bits (32 * (p / 32) + 32) m := by
  by_cases hm0 : m = 0
  · subst hm0
    simp [shr]
  · have hsplit : m + (32 - m) = 32 := by omega
    have hdiv := field_div s.bits (32 * (p / 32) + 32) m (32 - m)
    rw [hsplit, ← h.nxt] at hdiv
    rw [shr, if_pos (by omega), Nat.shiftRight_eq_div_pow, hdiv]

theorem nxt32_eq (h : Bitstrm.At s p) : bitsNxt32 s = field s.bits p 32 := by
  have hofst := h.ofst
  have hnext : p + (32 - s.u4BitOfst) = 32 * (p / 32) + 32 := by omega
  have hsplit : 32 - s.u4BitOfst + s.u4BitOfst = 32 := by omega
  have hadd := field_add s.bits p (32 - s.u4BitOfst) s.u4BitOfst
  rw [hsplit, hnext] at hadd
  rw [bitsNxt32, cur_shiftLeft h, shr_nxt h (by omega), mul_or (field_lt ..), hadd]

theorem bitsGet_eq (h : Bitstrm.At s p) (hn : n ≤ 32) :
    (ihevcdBitsGet s n).1 = field s.bits p n := by
  have hofst := h.ofst
  have hcur := cur_shiftLeft h
  simp only [ihevcdBitsGet]
  rw [u32_of_lt (by omega), hcur, Nat.shiftRight_eq_div_pow]
  by_cases hin : s.u4BitOfst + n ≤ 32
  · -- all bits come from the current word
    have hpow : 2 ^ (32 - n) = 2 ^ (32 - s.u4BitOfst - n) * 2 ^ s.u4BitOfst := by
      rw [← pow_add]
      congr 1
      omega
    have hdiv := field_div s.bits p n (32 - s.u4BitOfst - n)
    rw [show n + (32 - s.u4BitOfst - n) = 32 - s.u4BitOfst by omega] at hdiv
    rw [if_neg (by omega), hpow, Nat.mul_div_mul_right _ _ (by positivity), hdiv]
  · have hm : s.u4BitOfst + n - 32 ≤ 32 := by omega
    have hpow : 2 ^ s.u4BitOfst = 2 ^ (s.u4BitOfst + n - 32) * 2 ^ (32 - n) := by
      rw [← pow_add]
      congr 1
      omega
    have hnext : p + (32 - s.u4BitOfst) = 32 * (p / 32) + 32 := by omega
    have hadd := field_add s.bits p (32 - s.u4BitOfst) (s.u4BitOfst + n - 32)
    rw [show 32 - s.u4BitOfst + (s.u4BitOfst + n - 32) = n by omega, hnext] at hadd
    have hshr := shr_nxt h hm
    rw [show 32 - (s.u4BitOfst + n - 32) = 64 - (s.u4BitOfst + n) by omega] at hshr
    rw [if_pos (by omega), hpow, ← Nat.mul_assoc, Nat.mul_div_cancel _ (by positivity), hshr,
      mul_or (field_lt ..), hadd]

theorem bitsGet_at (h : Bitstrm.At s p) (hn : n ≤ 32) : (ihevcdBitsGet s n).2.At (p + n) := by
  have hofst := h.ofst
  simp only [ihevcdBitsGet]
  rw [u32_of_lt (by omega)]
  exact refill_at h hn

theorem bitsGet_bits : (ihevcdBitsGet s n).2.bits = s.bits := by
  simp only [ihevcdBitsGet, Bitstrm.refill]
  split <;> rfl

/-- The single-bit read is the general one: the current word always holds the bit. -/
theorem bitGet_eq (h : Bitstrm.At s p) : bitGet s = ihevcdBitsGet s 1 := by
  have hofst := h.ofst
  simp only [bitGet, ihevcdBitsGet, Bitstrm.refill]
  rw [u32_of_lt (x := s.u4BitOfst + 1) (by omega)]
  have hin : ¬32 < s.u4BitOfst + 1 := by omega
  by_cases hfull : s.u4BitOfst + 1 = 32
  · rw [if_pos hfull, if_neg hin, if_pos (by omega), hfull]
  · rw [if_neg hfull, if_neg hin, if_neg (by omega)]

theorem bitsSeek_bits : (ihevcdBitsSeek s n).bits = s.bits := by
  simp only [ihevcdBitsSeek, bitsFlush, Bitstrm.refill]
  split <;> split <;> rfl

/-- Seeking back undoes reading. -/
theorem bitsSeek_at (h : Bitstrm.At s (p + n)) (hn : n ≤ 32) :
    (ihevcdBitsSeek s (-(n : Int))).At p := by
  have hofst := h.ofst
  unfold ihevcdBitsSeek
  by_cases hn0 : n = 0
  · subst hn0
    have hflush := bitsFlush_at (p := p) h (n := 0) (by decide)
    simpa using hflush
  · rw [if_pos (by omega)]
    simp only [neg_neg, Int.toNat_natCast]
    by_cases hle : n ≤ s.u4BitOfst
    · have hdiv : (p + n) / 32 = p / 32 := by omega
      rw [if_pos hle]
      refine ⟨h.bytes, ?_, ?_, ?_, ?_⟩
      · simp only [h.pu4Buf, hdiv]
      · simp only
        omega
      · simp only [h.cur, hdiv]
        rfl
      · simp only [h.nxt, hdiv]
        rfl
    · -- the position is in the word before the current one
      have hdiv : (p + n) / 32 = p / 32 + 1 := by omega
      have hmul : 32 * (p / 32 + 1) = 32 * (p / 32) + 32 := by omega
      have hbuf : s.pu4Buf - 1 - 2 = p / 32 := by
        rw [h.pu4Buf]
        omega
      rw [if_neg hle, u32Sub_of_le (by omega) (by omega)]
      refine ⟨h.bytes, ?_, ?_, ?_, ?_⟩
      · simp only [h.pu4Buf]
        omega
      · simp only
        omega
      · simp only [hbuf]
        exact ittBigEndian_loadWord h.bytes
      · simp only [h.cur, hdiv, hmul]
        rfl

theorem numBitsConsumed_eq (h : Bitstrm.At s p) : ihevcdBitsNumBitsConsumed s = u32 p := by
  rw [ihevcdBitsNumBitsConsumed, h.pu4Buf, h.ofst, Nat.shiftLeft_eq]
  unfold u32
  omega

-- ---------------------------------------------------------------------------
-- Exponential Golomb codes
-- ---------------------------------------------------------------------------

/-- `c` zeros and a one stand at `p`. -/
def GolombPrefix (b : Nat → Bool) (p c : Nat) : Prop := field b p (c + 1) = 1

theorem GolombPrefix.clz (h : GolombPrefix b p c) (hc : c < 32) :
    clz (field b p 32) = c := by
  have hlo := field_add b p (c + 1) (31 - c)
  rw [show c + 1 + (31 - c) = 32 by omega, h, Nat.one_mul] at hlo
  have hlt := field_lt b (p + (c + 1)) (31 - c)
  have hclz := clz_eq (x := field b p 32) (n := 31 - c) (by omega) (by rw [pow_succ]; omega)
  omega

theorem golombGet_of_clz (h : Bitstrm.At s p) (hclz : clz (field s.bits p 32) = c)
    (hc : c < 32) :
    (golombGet s).1 = c ∧ (golombGet s).2.1 = field s.bits (p + c + 1) c ∧
      (golombGet s).2.2.At (p + (2 * c + 1)) ∧ (golombGet s).2.2.pu1BufBase = s.pu1BufBase := by
  rw [← nxt32_eq h] at hclz
  have hflush := bitsFlush_at h (n := c + 1) (by omega)
  have hbase : (bitsFlush s (c + 1)).pu1BufBase = s.pu1BufBase := by
    simp only [bitsFlush, Bitstrm.refill]
    split <;> rfl
  simp only [golombGet, hclz]
  by_cases hc0 : c = 0
  · subst hc0
    simpa using ⟨hflush, hbase⟩
  · have hbits : (bitsFlush s (c + 1)).bits = s.bits := congrArg ofBytes hbase
    have hget := bitsGet_eq hflush (n := c) (by omega)
    have hat := bitsGet_at hflush (n := c) (by omega)
    rw [if_neg hc0]
    refine ⟨rfl, ?_, ?_, ?_⟩
    · rw [hget, hbits, Nat.add_assoc]
    · rwa [show p + (2 * c + 1) = p + (c + 1) + c by omega]
    · rw [← hbase]
      simp only [ihevcdBitsGet, Bitstrm.refill]
      split <;> rfl

theorem golombGet_eq (h : Bitstrm.At s p) (hp : GolombPrefix s.bits p c) (hc : c < 32) :
    (golombGet s).1 = c ∧ (golombGet s).2.1 = field s.bits (p + c + 1) c ∧
      (golombGet s).2.2.At (p + (2 * c + 1)) ∧ (golombGet s).2.2.pu1BufBase = s.pu1BufBase :=
  golombGet_of_clz h (hp.clz hc) hc

end Libhevc.Decoder
