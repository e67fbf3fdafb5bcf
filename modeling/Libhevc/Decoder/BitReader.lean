import Libhevc.Decoder.Bitstream

/-!
# Runs of the bitstream reader

Calls on a reader in any order, from `ihevcd_bits_init` on, and what they are
on the bit string of the buffer: each reads bits at a position and moves it.
-/

namespace Libhevc.Decoder

open BitString

inductive BitsCall
  | flush (u4Numbits : Nat)
  | nxt (u4Numbits : Nat)
  | get (u4Numbits : Nat)
  | nxt32
  | uev
  | sev
  | flushToByteBoundary
  /-- `ihevcd_bits_seek` with `numbits` negative -/
  | seekBack (absNumbits : Nat)
  deriving DecidableEq, Repr

/-- What the call returns, if anything, and the reader after it. -/
def BitsCall.exec (s : Bitstrm) : BitsCall → Option Int × Bitstrm
  | .flush n => (none, bitsFlush s n)
  | .nxt n => (some (ihevcdBitsNxt s n), s)
  | .get n => (some (ihevcdBitsGet s n).1, (ihevcdBitsGet s n).2)
  | .nxt32 => (some (bitsNxt32 s), s)
  | .uev => (some (ihevcdUev s).1, (ihevcdUev s).2)
  | .sev => (some (ihevcdSev s).1, (ihevcdSev s).2)
  | .flushToByteBoundary => (none, ihevcdBitsFlushToByteBoundary s)
  | .seekBack n => (none, ihevcdBitsSeek s (-(n : Int)))

def bitsRun : Bitstrm → List BitsCall → List (Option Int) × Bitstrm
  | s, [] => ([], s)
  | s, call :: l =>
    let r := call.exec s
    let rest := bitsRun r.2 l
    (r.1 :: rest.1, rest.2)

-- ---------------------------------------------------------------------------
-- The position in the bit string
-- ---------------------------------------------------------------------------

/-- The zeros that lead the `n` bits from `p` on. -/
def leadingZeros (b : Nat → Bool) : Nat → Nat → Nat
  | _, 0 => 0
  | p, n + 1 => if b p then 0 else leadingZeros b (p + 1) n + 1

/-- The length of an Exp-Golomb prefix: bits behind 31 zeros are not looked at. -/
def golombPrefix (b : Nat → Bool) (p : Nat) : Nat := leadingZeros b p 31

/-- The number of an Exp-Golomb code: as many bits as the prefix has follow the stop bit. -/
def golombNum (b : Nat → Bool) (p : Nat) : Nat :=
  2 ^ golombPrefix b p - 1 + field b (p + golombPrefix b p + 1) (golombPrefix b p)

/-- The signed value of the number `k`: 0, 1, -1, 2, -2 and so on. -/
def sevOf (k : Nat) : Int := if k % 2 = 1 then ((k + 1) / 2 : Nat) else -((k / 2 : Nat) : Int)

/-- What the call reads from the bits `b` at position `p`, and the position after it. -/
def BitsCall.read (b : Nat → Bool) (p : Nat) : BitsCall → Option Int × Nat
  | .flush n => (none, p + n)
  | .nxt n => (some (field b p n), p)
  | .get n => (some (field b p n), p + n)
  | .nxt32 => (some (field b p 32), p)
  | .uev => (some (golombNum b p), p + (2 * golombPrefix b p + 1))
  | .sev => (some (sevOf (golombNum b p)), p + (2 * golombPrefix b p + 1))
  | .flushToByteBoundary => (none, p + (8 - p % 8))
  | .seekBack n => (none, p - n)

def readRun (b : Nat → Bool) : Nat → List BitsCall → List (Option Int) × Nat
  | p, [] => ([], p)
  | p, call :: l =>
    let r := call.read b p
    let rest := readRun b r.2 l
    (r.1 :: rest.1, rest.2)

/-- Up to 32 bits at a time, at least one where bits are returned, and never to before the start. -/
def BitsCall.Ok (p : Nat) : BitsCall → Prop
  | .flush n => n ≤ 32
  | .nxt n => 0 < n ∧ n ≤ 32
  | .get n => 0 < n ∧ n ≤ 32
  | .seekBack n => n ≤ 32 ∧ n ≤ p
  | _ => True

def CallsOk (b : Nat → Bool) : Nat → List BitsCall → Prop
  | _, [] => True
  | p, call :: l => call.Ok p ∧ CallsOk b (call.read b p).2 l

-- ---------------------------------------------------------------------------
-- Exponential Golomb codes of any prefix
-- ---------------------------------------------------------------------------

theorem leadingZeros_spec (b : Nat → Bool) (p n : Nat) :
    leadingZeros b p n ≤ n ∧ field b p (leadingZeros b p n) = 0 ∧
      (leadingZeros b p n < n → b (p + leadingZeros b p n) = true) := by
  induction n generalizing p with
  | zero => exact ⟨Nat.le_refl 0, rfl, fun h => nomatch h⟩
  | succ n ih =>
    obtain ⟨hle, hzero, hstop⟩ := ih (p + 1)
    unfold leadingZeros
    split
    · rename_i hone
      exact ⟨Nat.zero_le _, rfl, fun _ => hone⟩
    · rename_i hnot
      have hfalse : b p = false := Bool.eq_false_of_not_eq_true hnot
      refine ⟨Nat.succ_le_succ hle, ?_, fun hlt => ?_⟩
      · rw [field_succ_left, hfalse, hzero]
        simp
      · have hpos : p + (leadingZeros b (p + 1) n + 1) = p + 1 + leadingZeros b (p + 1) n := by
          omega
        rw [hpos]
        exact hstop (Nat.lt_of_succ_lt_succ hlt)

theorem golombPrefix_le (b : Nat → Bool) (p : Nat) : golombPrefix b p ≤ 31 :=
  (leadingZeros_spec b p 31).1

/-- Behind 31 zeros the last bit of the word does not matter. -/
theorem clz_field (b : Nat → Bool) (p : Nat) : clz (field b p 32) = golombPrefix b p := by
  obtain ⟨hle, hzero, hstop⟩ := leadingZeros_spec b p 31
  change golombPrefix b p ≤ 31 at hle
  change field b p (golombPrefix b p) = 0 at hzero
  change golombPrefix b p < 31 → b (p + golombPrefix b p) = true at hstop
  rcases Nat.lt_or_eq_of_le hle with hlt | heq
  · have hprefix : GolombPrefix b p (golombPrefix b p) := by
      rw [GolombPrefix, field_succ, hzero, hstop hlt]
      rfl
    exact hprefix.clz (by omega)
  · rw [heq] at hzero ⊢
    rw [field_succ (n := 31), hzero]
    cases b (p + 31) <;> decide

/-- The number before 1 is subtracted fits a word. -/
theorem golombNum_succ (b : Nat → Bool) (p : Nat) :
    golombNum b p + 1 =
        2 ^ golombPrefix b p + field b (p + golombPrefix b p + 1) (golombPrefix b p) ∧
      golombNum b p + 1 < 2 ^ 32 := by
  have hfield := field_lt b (p + golombPrefix b p + 1) (golombPrefix b p)
  have hpos := Nat.two_pow_pos (golombPrefix b p)
  have hpow : 2 ^ golombPrefix b p ≤ 2 ^ 31 :=
    Nat.pow_le_pow_right (by decide) (golombPrefix_le b p)
  unfold golombNum
  omega

theorem uev_eq (h : Bitstrm.At s p) :
    (ihevcdUev s).1 = golombNum s.bits p ∧
      (ihevcdUev s).2.At (p + (2 * golombPrefix s.bits p + 1)) := by
  have hle := golombPrefix_le s.bits p
  obtain ⟨hclz, hread, hat, -⟩ := golombGet_of_clz h (clz_field s.bits p) (by omega)
  obtain ⟨hsum, hlt⟩ := golombNum_succ s.bits p
  refine ⟨?_, hat⟩
  simp only [ihevcdUev]
  rw [hclz, hread, Nat.one_shiftLeft, ← hsum, u32_of_lt hlt, u32Sub_of_le (by omega) hlt,
    Nat.add_sub_cancel]

theorem sev_eq (h : Bitstrm.At s p) :
    (ihevcdSev s).1 = sevOf (golombNum s.bits p) ∧
      (ihevcdSev s).2.At (p + (2 * golombPrefix s.bits p + 1)) := by
  have hle := golombPrefix_le s.bits p
  obtain ⟨hclz, hread, hat, -⟩ := golombGet_of_clz h (clz_field s.bits p) (by omega)
  obtain ⟨hsum, hlt⟩ := golombNum_succ s.bits p
  refine ⟨?_, hat⟩
  simp only [ihevcdSev]
  rw [hclz, hread, Nat.one_shiftLeft, ← hsum, u32_of_lt hlt, Nat.shiftRight_eq_div_pow, pow_one,
    Nat.and_one_is_mod]
  -- the last bit of the number, unless there is none
  have hodd : field s.bits (p + golombPrefix s.bits p + 1) (golombPrefix s.bits p) % 2 = 1 ↔
      golombNum s.bits p ≠ 0 ∧ golombNum s.bits p % 2 = 0 := by
    rcases Nat.eq_zero_or_pos (golombPrefix s.bits p) with h0 | hpos
    · have hnum : golombNum s.bits p = 0 := by simp [golombNum, h0]
      simp [hnum, h0]
    · obtain ⟨c, hc⟩ : ∃ c, golombPrefix s.bits p = c + 1 :=
        ⟨_, (Nat.succ_pred_eq_of_pos hpos).symm⟩
      have hpow : 2 ^ golombPrefix s.bits p = 2 * 2 ^ c := by rw [hc, pow_succ']
      have hpos := Nat.two_pow_pos c
      omega
  unfold sevOf
  split
  · rename_i hbit
    obtain ⟨-, heven⟩ := hodd.mp hbit
    rw [if_neg (by omega), i32_of_bounds (by omega) (by omega)]
    omega
  · rename_i hbit
    have hnot : golombNum s.bits p = 0 ∨ golombNum s.bits p % 2 = 1 := by
      have := mt hodd.mpr hbit
      omega
    rw [i32_of_bounds (by omega) (by omega)]
    split <;> omega

-- ---------------------------------------------------------------------------
-- One call
-- ---------------------------------------------------------------------------

theorem bitsNxt_eq (h : Bitstrm.At s p) (hn : n ≤ 32) :
    ihevcdBitsNxt s n = field s.bits p n := by
  have hofst := h.ofst
  rw [← bitsGet_eq h hn]
  simp only [ihevcdBitsNxt, ihevcdBitsGet]
  rw [u32_of_lt (x := s.u4BitOfst + n) (by omega),
    show 32 + 32 - n - s.u4BitOfst = 64 - (s.u4BitOfst + n) by omega]
  exact if_congr (by omega) rfl rfl

theorem flushToByteBoundary_at (h : Bitstrm.At s p) :
    (ihevcdBitsFlushToByteBoundary s).At (p + (8 - p % 8)) := by
  have hand : s.u4BitOfst &&& 7 = p % 8 := by
    rw [h.ofst]
    have hmod := Nat.and_two_pow_sub_one_eq_mod (p % 32) 3
    simp only [Nat.reducePow, Nat.reduceSub] at hmod
    omega
  rw [ihevcdBitsFlushToByteBoundary, hand]
  exact bitsFlush_at h (by omega)

theorem exec_read (h : Bitstrm.At s p) {call : BitsCall} (hok : call.Ok p) :
    (call.exec s).1 = (call.read s.bits p).1 ∧ (call.exec s).2.At (call.read s.bits p).2 := by
  cases call with
  | flush n => exact ⟨rfl, bitsFlush_at h hok⟩
  | nxt n => exact ⟨congrArg (fun v : Nat => some (v : Int)) (bitsNxt_eq h hok.2), h⟩
  | get n =>
    exact ⟨congrArg (fun v : Nat => some (v : Int)) (bitsGet_eq h hok.2), bitsGet_at h hok.2⟩
  | nxt32 => exact ⟨congrArg (fun v : Nat => some (v : Int)) (nxt32_eq h), h⟩
  | uev =>
    obtain ⟨hval, hat⟩ := uev_eq h
    exact ⟨congrArg (fun v : Nat => some (v : Int)) hval, hat⟩
  | sev =>
    obtain ⟨hval, hat⟩ := sev_eq h
    exact ⟨congrArg some hval, hat⟩
  | flushToByteBoundary => exact ⟨rfl, flushToByteBoundary_at h⟩
  | seekBack n =>
    obtain ⟨hn, hle⟩ := hok
    have hat : s.At (p - n + n) := by rwa [Nat.sub_add_cancel hle]
    exact ⟨rfl, bitsSeek_at hat hn⟩

/-- No call changes the buffer or its end. -/
theorem exec_frame (s : Bitstrm) (call : BitsCall) :
    (call.exec s).2.pu1BufBase = s.pu1BufBase ∧ (call.exec s).2.pu1BufMax = s.pu1BufMax := by
  have hrefill (s : Bitstrm) :
      s.refill.pu1BufBase = s.pu1BufBase ∧ s.refill.pu1BufMax = s.pu1BufMax := by
    unfold Bitstrm.refill
    split <;> exact ⟨rfl, rfl⟩
  have hflush (s : Bitstrm) (n : Nat) : (bitsFlush s n).pu1BufBase = s.pu1BufBase ∧
      (bitsFlush s n).pu1BufMax = s.pu1BufMax := hrefill _
  have hget (s : Bitstrm) (n : Nat) : (ihevcdBitsGet s n).2.pu1BufBase = s.pu1BufBase ∧
      (ihevcdBitsGet s n).2.pu1BufMax = s.pu1BufMax := hrefill _
  have hgolomb : (golombGet s).2.2.pu1BufBase = s.pu1BufBase ∧
      (golombGet s).2.2.pu1BufMax = s.pu1BufMax := by
    simp only [golombGet]
    split
    · exact hflush ..
    · exact ⟨(hget ..).1.trans (hflush ..).1, (hget ..).2.trans (hflush ..).2⟩
  cases call with
  | flush n => exact hflush s n
  | get n => exact hget s n
  | uev => exact hgolomb
  | sev => exact hgolomb
  | flushToByteBoundary => exact hflush ..
  | seekBack n =>
    simp only [BitsCall.exec, ihevcdBitsSeek]
    split
    · split <;> exact ⟨rfl, rfl⟩
    · exact hflush ..
  | nxt n => exact ⟨rfl, rfl⟩
  | nxt32 => exact ⟨rfl, rfl⟩

/-- The position determines the reader. -/
theorem Bitstrm.At.unique {s t : Bitstrm} (hs : s.At p) (ht : t.At p)
    (hbase : s.pu1BufBase = t.pu1BufBase) (hmax : s.pu1BufMax = t.pu1BufMax) : s = t := by
  have hbits : s.bits = t.bits := congrArg ofBytes hbase
  have hbuf := hs.pu4Buf.trans ht.pu4Buf.symm
  have hofst := hs.ofst.trans ht.ofst.symm
  have hcur : s.u4CurWord = t.u4CurWord := by rw [hs.cur, ht.cur, hbits]
  have hnxt : s.u4NxtWord = t.u4NxtWord := by rw [hs.nxt, ht.nxt, hbits]
  cases s
  cases t
  simp_all

/-- The two counts add up to the size of the buffer in bits, as a 32-bit number, until the first
one passes it. -/
theorem numBits_add (h : Bitstrm.At s p) (hmax : s.pu1BufMax = n + 8) (hle : u32 p ≤ u32 (8 * n)) :
    ihevcdBitsNumBitsConsumed s + ihevcdBitsNumBitsRemaining s = u32 (8 * n) := by
  have hsize : u32 (u32Sub s.pu1BufMax 8 <<< 3) = u32 (8 * n) := by
    rw [hmax, Nat.shiftLeft_eq]
    unfold u32Sub u32
    omega
  have hremaining : ihevcdBitsNumBitsRemaining s =
      if u32 p < u32 (8 * n) then u32 (8 * n) - u32 p else 0 := by
    rw [← hsize, ← numBitsConsumed_eq h]
    rfl
  rw [numBitsConsumed_eq h, hremaining]
  split <;> omega

-- ---------------------------------------------------------------------------
-- Runs
-- ---------------------------------------------------------------------------

theorem bitsRun_read (h : Bitstrm.At s p) (hok : CallsOk s.bits p l) :
    (bitsRun s l).1 = (readRun s.bits p l).1 ∧ (bitsRun s l).2.At (readRun s.bits p l).2 ∧
      (bitsRun s l).2.pu1BufBase = s.pu1BufBase ∧ (bitsRun s l).2.pu1BufMax = s.pu1BufMax := by
  induction l generalizing s p with
  | nil => exact ⟨rfl, h, rfl, rfl⟩
  | cons call l ih =>
    obtain ⟨hcall, hrest⟩ := hok
    obtain ⟨hout, hat⟩ := exec_read h hcall
    obtain ⟨hbase, hmax⟩ := exec_frame s call
    have hbits : (call.exec s).2.bits = s.bits := congrArg ofBytes hbase
    obtain ⟨houts, hend, hbase', hmax'⟩ := ih hat (hbits ▸ hrest)
    rw [hbits] at houts hend
    refine ⟨?_, hend, hbase'.trans hbase, hmax'.trans hmax⟩
    simp only [bitsRun, readRun]
    rw [hout, houts]

/-- Any calls on a reader: what they return are the bits at the position the calls before have
moved to, and the words held are those of the position. A backward seek gives the reader that any
calls leave at the earlier position. -/
theorem bitsRun_init (u4Numbytes : Nat) (hbuf : ∀ i, buf i < 256)
    (hok : CallsOk (ofBytes buf) 0 l) :
    let s := (bitsRun (ihevcdBitsInit buf u4Numbytes) l).2
    let p := (readRun (ofBytes buf) 0 l).2
    (bitsRun (ihevcdBitsInit buf u4Numbytes) l).1 = (readRun (ofBytes buf) 0 l).1 ∧
      s.u4BitOfst ≤ 31 ∧ 2 ≤ s.pu4Buf ∧ 32 * (s.pu4Buf - 2) + s.u4BitOfst = p ∧
      s.u4CurWord = ittBigEndian (loadWord buf (s.pu4Buf - 2)) ∧
      s.u4NxtWord = ittBigEndian (loadWord buf (s.pu4Buf - 1)) ∧
      (∀ n ≤ 32, ∀ l', CallsOk (ofBytes buf) 0 l' → (readRun (ofBytes buf) 0 l').2 + n = p →
        ihevcdBitsSeek s (-(n : Int)) = (bitsRun (ihevcdBitsInit buf u4Numbytes) l').2) ∧
      ihevcdBitsNumBitsConsumed s = u32 p ∧
      (u32 p ≤ u32 (8 * u4Numbytes) →
        ihevcdBitsNumBitsConsumed s + ihevcdBitsNumBitsRemaining s = u32 (8 * u4Numbytes)) := by
  intro s p
  have hinit := bitsInit_at (n := u4Numbytes) hbuf
  obtain ⟨houts, hat, hbase, hmax⟩ := bitsRun_read hinit hok
  change s.At p at hat
  have hbits : s.bits = ofBytes buf := congrArg ofBytes hbase
  have hword (k : Nat) : ittBigEndian (loadWord buf k) = field s.bits (32 * k) 32 := by
    rw [hbits]
    exact ittBigEndian_loadWord hbuf
  have hpos := hat.pu4Buf
  have hofst := hat.ofst
  refine ⟨houts, by omega, by omega, by omega, ?_, ?_, fun n hn l' hok' hp => ?_,
    numBitsConsumed_eq hat, numBits_add hat hmax⟩
  · rw [hat.cur, hword, hpos, Nat.add_sub_cancel]
  · rw [hat.nxt, hword, hpos, show p / 32 + 2 - 1 = p / 32 + 1 by omega, Nat.mul_succ]
  · obtain ⟨-, hat', hbase', hmax'⟩ := bitsRun_read hinit hok'
    have hback : (ihevcdBitsSeek s (-(n : Int))).At (readRun (ofBytes buf) 0 l').2 :=
      bitsSeek_at (hp ▸ hat) hn
    obtain ⟨hbase'', hmax''⟩ := exec_frame s (.seekBack n)
    exact hback.unique hat' ((hbase''.trans hbase).trans hbase'.symm)
      ((hmax''.trans hmax).trans hmax'.symm)

theorem bitsRun_init_words :
    let s := ihevcdBitsInit (fun i => (5 * i + 3) % 256) 16
    (bitsRun s [.get 28, .nxt 32, .uev, .sev, .get 9]).1 =
        [some 3178705, some 561103378, some 3, some (-2), some 398] ∧
      ihevcdBitsSeek (bitsRun s [.get 28, .nxt 32, .uev, .sev, .get 9]).2 (-19) =
        (bitsRun s [.get 28]).2 := by
  have hbuf : ∀ i, (5 * i + 3) % 256 < 256 := fun i => Nat.mod_lt _ (by decide)
  have h := bitsRun_init (l := [.get 28, .nxt 32, .uev, .sev, .get 9]) 16 hbuf
    ⟨⟨by decide, by decide⟩, ⟨by decide, by decide⟩, trivial, trivial, ⟨by decide, by decide⟩,
      trivial⟩
  refine ⟨h.1.trans (by decide +kernel), ?_⟩
  exact h.2.2.2.2.2.2.1 19 (by decide) [.get 28] ⟨⟨by decide, by decide⟩, trivial⟩
    (by decide +kernel)

/-- The size of a buffer of 2^29 bytes, in bits, does not fit the 32-bit count. -/
theorem numBits_not_constant :
    let s := ihevcdBitsInit (fun _ => 0) (2 ^ 29)
    CallsOk (ofBytes fun _ => 0) 0 [.flush 1] ∧
      (readRun (ofBytes fun _ => 0) 0 [.flush 1]).2 ≤ 8 * 2 ^ 29 ∧
      ihevcdBitsNumBitsConsumed s + ihevcdBitsNumBitsRemaining s ≠
        ihevcdBitsNumBitsConsumed (bitsRun s [.flush 1]).2 +
          ihevcdBitsNumBitsRemaining (bitsRun s [.flush 1]).2 := by
  refine ⟨⟨?_, trivial⟩, by decide, by decide +kernel⟩
  exact (by decide : 1 ≤ 32)

end Libhevc.Decoder
