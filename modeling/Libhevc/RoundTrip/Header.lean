import Libhevc.Decoder.Bitstream
import Libhevc.Encoder.BitstreamLaws

/-!
# Header syntax elements, written and read

Every element is one call of `ihevce_put_bits`: `code` gives the value and the
length of its bits. The reader recovers an element from these bits alone.
-/

namespace Libhevc.RoundTrip

open BitString Memory Escape Encoder Decoder

/-- The descriptor of a header element. -/
inductive Descriptor
  | u (n : Nat)
  | ue
  | se

abbrev HeaderElem := Descriptor × Int

def HeaderElem.Valid : HeaderElem → Prop
  | (.u n, v) => 1 ≤ n ∧ n ≤ 32 ∧ 0 ≤ v ∧ v < 2 ^ n
  | (.ue, v) => 0 ≤ v ∧ v ≤ 65534
  | (.se, v) => -32767 ≤ v ∧ v ≤ 32767

def putElem (s : Encoder.Bitstrm) : HeaderElem → Encoder.Bitstrm × IhevceErrorT
  | (.u n, v) => ihevcePutBits s v.toNat n
  | (.ue, v) => ihevcePutUev s v.toNat
  | (.se, v) => ihevcePutSev s v

def getElem (s : Decoder.Bitstrm) : Descriptor → Int × Decoder.Bitstrm
  | .u n => ((ihevcdBitsGet s n).1, (ihevcdBitsGet s n).2)
  | .ue => ((ihevcdUev s).1, (ihevcdUev s).2)
  | .se => ihevcdSev s

/-- Elements written in order; the error codes are or-ed. -/
def putElems (s : Encoder.Bitstrm) : List HeaderElem → Encoder.Bitstrm × IhevceErrorT
  | [] => (s, .success)
  | e :: l =>
    let r := putElem s e
    let r' := putElems r.1 l
    (r'.1, r.2.or r'.2)

/-- A whole header: its elements and the trailing bits. -/
def putHeader (s : Encoder.Bitstrm) (l : List HeaderElem) : Encoder.Bitstrm × IhevceErrorT :=
  let r := putElems s l
  let r' := ihevcePutRbspTrailingBits r.1
  (r'.1, r.2.or r'.2)

def getElems (s : Decoder.Bitstrm) : List Descriptor → List Int × Decoder.Bitstrm
  | [] => ([], s)
  | d :: l =>
    let r := getElem s d
    let r' := getElems r.2 l
    (r.1 :: r'.1, r'.2)

-- ---------------------------------------------------------------------------
-- Codes
-- ---------------------------------------------------------------------------

/-- The value and the length of an element's bits. -/
def HeaderElem.code : HeaderElem → Nat × Nat
  | (.u n, v) => (v.toNat, n)
  | (.ue, v) => (v.toNat + 1, 2 * getRange (v.toNat + 1) - 1)
  | (.se, v) => (sevCodeNum v + 1, 2 * getRange (sevCodeNum v + 1) - 1)

def HeaderElem.bits (e : HeaderElem) : List Bool := bitsOf e.code.2 e.code.1

def headerBits (l : List HeaderElem) : List Bool := l.flatMap HeaderElem.bits

theorem sevCodeNum_eq (h : -32767 ≤ v ∧ v ≤ 32767) :
    sevCodeNum v = if v ≤ 0 then 2 * (-v).toNat else 2 * v.toNat - 1 := by
  unfold sevCodeNum
  split
  · rw [Nat.shiftLeft_eq, u32_of_lt (by omega)]
    omega
  · rw [Nat.shiftLeft_eq, u32Sub_of_le (by omega) (by omega)]
    omega

/-- A Golomb code of a value below `2 ^ 16 - 1` has at most 31 bits. -/
theorem golomb_length (h : v + 1 < 2 ^ 16) :
    0 < 2 * getRange (v + 1) - 1 ∧ 2 * getRange (v + 1) - 1 ≤ 32 ∧
      v + 1 < 2 ^ (2 * getRange (v + 1) - 1) := by
  have hpos := getRange_pos (v + 1)
  have hle := getRange_le h (by decide)
  have hlt := lt_two_pow_getRange (v + 1)
  refine ⟨by omega, by omega, hlt.trans_le ?_⟩
  exact Nat.pow_le_pow_right (by decide) (by omega)

theorem HeaderElem.Valid.code {e : HeaderElem} (h : e.Valid) :
    0 < e.code.2 ∧ e.code.2 ≤ 32 ∧ e.code.1 < 2 ^ e.code.2 := by
  match e with
  | (.u n, v) =>
    obtain ⟨h1, h32, h0, hlt⟩ := h
    refine ⟨h1, h32, ?_⟩
    simp only [HeaderElem.code]
    rw [← Int.ofNat_lt, Int.toNat_of_nonneg h0]
    exact_mod_cast hlt
  | (.ue, v) => exact golomb_length (by have := h.2; omega)
  | (.se, v) =>
    refine golomb_length ?_
    rw [sevCodeNum_eq h]
    have := h.1
    have := h.2
    split <;> omega

/-- Every element is one call of `ihevce_put_bits`. -/
theorem putElem_eq (s : Encoder.Bitstrm) {e : HeaderElem} (h : e.Valid) :
    putElem s e = ihevcePutBits s e.code.1 e.code.2 := by
  match e with
  | (.u n, v) => rfl
  | (.ue, v) =>
    have := h.2
    simp only [putElem, ihevcePutUev, HeaderElem.code]
    rw [u32_of_lt (by omega)]
  | (.se, v) =>
    have hcode : sevCodeNum v + 1 < 2 ^ 32 := by
      rw [sevCodeNum_eq h]
      have := h.1
      have := h.2
      split <;> omega
    simp only [putElem, ihevcePutSev, HeaderElem.code]
    rw [u32_of_lt hcode]

-- ---------------------------------------------------------------------------
-- Reading one element
-- ---------------------------------------------------------------------------

/-- The reader after a step stands at `p` of the same buffer. -/
structure Moved (s s' : Decoder.Bitstrm) (p : Nat) : Prop where
  at_ : s'.At p
  base : s'.pu1BufBase = s.pu1BufBase

theorem bitsGet_moved (h : s.At p) (hn : n ≤ 32) : Moved s (ihevcdBitsGet s n).2 (p + n) := by
  refine ⟨bitsGet_at h hn, ?_⟩
  simp only [ihevcdBitsGet, Bitstrm.refill]
  split <;> rfl

/-- What both Golomb readers find where the code of `v` stands. -/
theorem golombGet_code (h : s.At p) (hv : v + 1 < 2 ^ 16)
    (hbits : field s.bits p (2 * getRange (v + 1) - 1) = v + 1) :
    (golombGet s).1 = getRange (v + 1) - 1 ∧
      2 ^ (getRange (v + 1) - 1) + (golombGet s).2.1 = v + 1 ∧
      Moved s (golombGet s).2.2 (p + (2 * getRange (v + 1) - 1)) := by
  have hpos := getRange_pos (v + 1)
  have hle := getRange_le hv (by decide)
  obtain ⟨c, hc⟩ : ∃ c, getRange (v + 1) = c + 1 := ⟨getRange (v + 1) - 1, by omega⟩
  have hlo := two_pow_getRange_le (x := v + 1) (by omega)
  have hhi := lt_two_pow_getRange (v + 1)
  rw [hc] at hbits hlo hhi ⊢
  rw [Nat.add_sub_cancel] at hlo ⊢
  have hlen : 2 * (c + 1) - 1 = c + 1 + c := by omega
  rw [hlen] at hbits ⊢
  have hone : (v + 1) / 2 ^ c = 1 := by
    rw [pow_succ] at hhi
    exact Nat.div_eq_of_lt_le (by omega) (by omega)
  have hprefix : GolombPrefix s.bits p c := by
    rw [GolombPrefix, ← field_div _ _ _ c, hbits, hone]
  have hsuffix : field s.bits (p + c + 1) c = (v + 1) % 2 ^ c := by
    rw [← hbits, field_mod, Nat.add_assoc]
  obtain ⟨hclz, hread, hat, hbase⟩ := golombGet_eq h hprefix (by omega)
  refine ⟨hclz, ?_, ?_, hbase⟩
  · rw [hread, hsuffix]
    have := Nat.div_add_mod (v + 1) (2 ^ c)
    rw [hone] at this
    omega
  · rwa [show 2 * c + 1 = c + 1 + c by omega] at hat

/-- The code of an element at the reader's position gives the element. -/
theorem getElem_eq {e : HeaderElem} (h : s.At p) (hvalid : e.Valid)
    (hbits : field s.bits p e.code.2 = e.code.1) :
    (getElem s e.1).1 = e.2 ∧ Moved s (getElem s e.1).2 (p + e.code.2) := by
  match e with
  | (.u n, v) =>
    obtain ⟨-, h32, h0, -⟩ := hvalid
    refine ⟨?_, bitsGet_moved h h32⟩
    simp only [getElem, HeaderElem.code] at hbits ⊢
    rw [bitsGet_eq h h32, hbits, Int.toNat_of_nonneg h0]
  | (.ue, v) =>
    obtain ⟨h0, hle⟩ := hvalid
    have hv : v.toNat + 1 < 2 ^ 16 := by omega
    obtain ⟨hclz, hsum, hmoved⟩ := golombGet_code h hv hbits
    have hv32 : u32 (v.toNat + 1) = v.toNat + 1 := u32_of_lt (by omega)
    have hsub : u32Sub (v.toNat + 1) 1 = v.toNat := u32Sub_of_le (by omega) (by omega)
    simp only [getElem, ihevcdUev, HeaderElem.code]
    refine ⟨?_, hmoved⟩
    rw [hclz, Nat.shiftLeft_eq, Nat.one_mul, hsum, hv32, hsub]
    omega
  | (.se, v) =>
    have hcode := sevCodeNum_eq hvalid
    obtain ⟨hlo, hhi⟩ := hvalid
    have hv : sevCodeNum v + 1 < 2 ^ 16 := by
      rw [hcode]
      split <;> omega
    obtain ⟨hclz, hsum, hmoved⟩ := golombGet_code h hv hbits
    refine ⟨?_, hmoved⟩
    have hv32 : u32 (sevCodeNum v + 1) = sevCodeNum v + 1 := u32_of_lt (by omega)
    simp only [getElem, ihevcdSev]
    rw [hclz, Nat.shiftLeft_eq, Nat.one_mul, hsum, hv32, Nat.and_one_is_mod,
      Nat.shiftRight_eq_div_pow]
    -- the sign is the parity of the code number
    have hzero : sevCodeNum v = 0 → (golombGet s).2.1 = 0 := by
      intro h0
      rw [h0, show getRange (0 + 1) - 1 = 0 from rfl, pow_zero] at hsum
      omega
    have heven : 0 < sevCodeNum v → 2 ^ (getRange (sevCodeNum v + 1) - 1) % 2 = 0 := by
      intro hk
      have hlt := lt_two_pow_getRange (sevCodeNum v + 1)
      obtain ⟨c, hc⟩ : ∃ c, getRange (sevCodeNum v + 1) = c + 2 := by
        refine ⟨getRange (sevCodeNum v + 1) - 2, ?_⟩
        by_contra hne
        have hle : getRange (sevCodeNum v + 1) ≤ 1 := by omega
        have := Nat.pow_le_pow_right (n := 2) (by decide) hle
        omega
      rw [hc, show c + 2 - 1 = c + 1 by omega, pow_succ]
      omega
    generalize 2 ^ (getRange (sevCodeNum v + 1) - 1) = top at hsum heven
    split
    · rw [i32_of_bounds (by omega) (by omega)]
      split at hcode <;> omega
    · rw [i32_of_bounds (by omega) (by omega)]
      split at hcode <;> omega

/-- The bits of a header at the reader's position give its values. -/
theorem getElems_eq {l : List HeaderElem} (h : s.At p) (hvalid : ∀ e ∈ l, e.Valid)
    (hbits : field s.bits p (headerBits l).length = bitVal (headerBits l)) :
    (getElems s (l.map Prod.fst)).1 = l.map Prod.snd ∧
      Moved s (getElems s (l.map Prod.fst)).2 (p + (headerBits l).length) := by
  induction l generalizing s p with
  | nil => exact ⟨rfl, h, rfl⟩
  | cons e l ih =>
    have hv := hvalid e (by simp)
    have hcode := hv.code
    have hsplit : headerBits (e :: l) = e.bits ++ headerBits l := rfl
    have hlen : (headerBits (e :: l)).length = e.code.2 + (headerBits l).length := by
      simp [hsplit, HeaderElem.bits]
    have hval : bitVal (headerBits (e :: l)) =
        e.code.1 * 2 ^ (headerBits l).length + bitVal (headerBits l) := by
      rw [hsplit, bitVal_append, HeaderElem.bits, bitVal_bitsOf, Nat.mod_eq_of_lt hcode.2.2]
    have hrest := bitVal_lt (headerBits l)
    rw [hlen, hval] at hbits
    have hhead : field s.bits p e.code.2 = e.code.1 := by
      rw [← field_div _ _ _ (headerBits l).length, hbits, Nat.mul_comm,
        Nat.mul_add_div (by positivity), Nat.div_eq_of_lt hrest, Nat.add_zero]
    have htail : field s.bits (p + e.code.2) (headerBits l).length = bitVal (headerBits l) := by
      rw [← field_mod, hbits, Nat.mul_comm, Nat.mul_add_mod, Nat.mod_eq_of_lt hrest]
    obtain ⟨hget, hat, hbase⟩ := getElem_eq h hv hhead
    have hbits' : (getElem s e.1).2.bits = s.bits := congrArg ofBytes hbase
    obtain ⟨hgets, hat', hbase'⟩ := ih hat (fun e' he' => hvalid e' (by simp [he']))
      (hbits' ▸ htail)
    refine ⟨by simp [getElems, hget, hgets], ?_, hbase'.trans hbase⟩
    rw [hlen, ← Nat.add_assoc]
    exact hat'

-- ---------------------------------------------------------------------------
-- Writing
-- ---------------------------------------------------------------------------

theorem stores_subset_putElem (s : Encoder.Bitstrm) (e : HeaderElem) :
    s.pu1StrmBuffer.stores ⊆ (putElem s e).1.pu1StrmBuffer.stores := by
  match e with
  | (.u n, v) => exact stores_subset_putBits ..
  | (.ue, v) => exact stores_subset_putBits ..
  | (.se, v) => exact stores_subset_putBits ..

theorem stores_subset_putElems (s : Encoder.Bitstrm) (l : List HeaderElem) :
    s.pu1StrmBuffer.stores ⊆ (putElems s l).1.pu1StrmBuffer.stores := by
  induction l generalizing s with
  | nil => exact List.Subset.refl _
  | cons e l ih => exact List.Subset.trans (stores_subset_putElem s e) (ih _)

/-- Elements written without an overflow put their bits. -/
theorem putElems_pending {l : List HeaderElem} (h : Pending m s payload w)
    (hvalid : ∀ e ∈ l, e.Valid) (hok : (putElems s l).2 = .success)
    (hstores : ∀ i ∈ (putElems s l).1.pu1StrmBuffer.stores, i + 1 < 2 ^ 32) :
    ∃ payload', Pending m (putElems s l).1 payload' (w ++ headerBits l) := by
  induction l generalizing s payload w with
  | nil => exact ⟨payload, by simpa [headerBits, putElems] using h⟩
  | cons e l ih =>
    have hv := hvalid e (by simp)
    obtain ⟨-, h32, hlt⟩ := hv.code
    simp only [putElems, IhevceErrorT.or_eq_success] at hok hstores ⊢
    have hstores' : ∀ i ∈ (putElem s e).1.pu1StrmBuffer.stores, i + 1 < 2 ^ 32 :=
      fun i hi => hstores i (stores_subset_putElems _ l hi)
    rw [putElem_eq s hv] at hok hstores hstores' ⊢
    obtain ⟨payload', hp⟩ := h.putBits h32 hlt hok.1 hstores'
    obtain ⟨payload'', hp'⟩ := ih hp (fun e' he' => hvalid e' (by simp [he'])) hok.2 hstores
    refine ⟨payload'', ?_⟩
    simpa [headerBits, HeaderElem.bits] using hp'

/-- Twice the bytes of the header, and eight more, are room enough to write its elements. -/
theorem putElems_room {l : List HeaderElem} (h : Pending m s payload w) (hbelow : s.StoresBelow)
    (hvalid : ∀ e ∈ l, e.Valid) (hmax : s.u4MaxStrmSize < 2 ^ 32)
    (hroom : (w.length + (headerBits l).length) / 4 + 8 < s.u4MaxStrmSize) :
    let s' := (putElems s l).1
    (putElems s l).2 = .success ∧ s'.StoresBelow ∧ s'.u4MaxStrmSize = s.u4MaxStrmSize ∧
      ∃ payload', Pending m s' payload' (w ++ headerBits l) := by
  induction l generalizing s payload w with
  | nil => exact ⟨rfl, hbelow, rfl, payload, by simpa [headerBits, putElems] using h⟩
  | cons e l ih =>
    have hv := hvalid e (by simp)
    obtain ⟨-, h32, hlt⟩ := hv.code
    have hlen := h.length
    have hsplit : headerBits (e :: l) = e.bits ++ headerBits l := rfl
    rw [hsplit, List.length_append] at hroom
    obtain ⟨hok, hbelow', hoff, hmax'⟩ := h.putBits_room (v := e.code.1) (n := e.code.2) hbelow
      (by omega) hmax
    obtain ⟨payload', hp⟩ := h.putBits h32 hlt hok fun i hi => by
      have := hbelow' i hi
      omega
    rw [← hmax'] at hmax hroom
    obtain ⟨hok', hbelow'', hmax'', payload'', hp'⟩ := ih hp hbelow'
      (fun e' he' => hvalid e' (by simp [he'])) hmax
      (by simpa [HeaderElem.bits, Nat.add_assoc] using hroom)
    simp only [putElems, putElem_eq s hv, IhevceErrorT.or_eq_success]
    refine ⟨⟨hok, hok'⟩, hbelow'', hmax''.trans hmax', payload'', ?_⟩
    simpa [hsplit, HeaderElem.bits] using hp'

theorem putHeader_room {l : List HeaderElem} (hvalid : ∀ e ∈ l, e.Valid) (hmax : u4Max < 2 ^ 32)
    (hroom : (headerBits l).length / 4 + 8 < u4Max) :
    let r := putHeader (ihevceBitstrmInit m u4Max) l
    r.2 = .success ∧ ∀ i ∈ r.1.pu1StrmBuffer.stores, i < u4Max := by
  have hbelow : (ihevceBitstrmInit m u4Max).StoresBelow := by
    intro i hi
    simp [ihevceBitstrmInit] at hi
  obtain ⟨hok, hbelow', hmax', payload, hp⟩ := putElems_room (pending_init m u4Max) hbelow hvalid
    hmax (by simpa [ihevceBitstrmInit] using hroom)
  have hmaxInit : (ihevceBitstrmInit m u4Max).u4MaxStrmSize = u4Max := rfl
  have hlen := hp.length
  rw [List.nil_append] at hlen
  obtain ⟨hok', hbelow'', hoff⟩ := hp.putRbspTrailingBits_room hbelow' (by omega) (by omega)
  refine ⟨by simp [putHeader, hok, hok'], fun i hi => ?_⟩
  have := hbelow'' i hi
  omega

-- ---------------------------------------------------------------------------
-- The round trip
-- ---------------------------------------------------------------------------

/-- The bytes a writer has stored, up to its offset. -/
def streamBytes (s : Encoder.Bitstrm) : List Nat :=
  (List.range s.u4StrmBufOffset).map s.pu1StrmBuffer.mem

/-- The stream has no start code or reserved pattern inside, and without its emulation
prevention bytes it reads back as the values written, with `consumed` bits consumed. -/
def ReadsBack (l : List HeaderElem) (e : List Nat) (consumed : Nat) : Prop :=
  (∀ p b q, e = p ++ 0 :: 0 :: b :: q → 3 ≤ b) ∧
    ∀ buf n, (∀ i, buf i < 256) → Holds buf 0 (epb.unescape 0 e) →
      let r := getElems (ihevcdBitsInit buf n) (l.map Prod.fst)
      r.1 = l.map Prod.snd ∧ ihevcdBitsNumBitsConsumed r.2 = consumed

/-- What the writer leaves in the stream buffer: the escaped form of the bits, a stop bit and
zeros. -/
theorem putHeader_written {l : List HeaderElem} (hvalid : ∀ e ∈ l, e.Valid)
    (hmax : u4Max < 2 ^ 32) (hok : (putHeader (ihevceBitstrmInit m u4Max) l).2 = .success)
    (hroom : ∀ i ∈ (putHeader (ihevceBitstrmInit m u4Max) l).1.pu1StrmBuffer.stores, i < u4Max) :
    ∃ payload z, streamBytes (putHeader (ihevceBitstrmInit m u4Max) l).1 = epb.escape 0 payload ∧
      (∀ x ∈ payload, x < 256) ∧ 8 * payload.length = (headerBits l).length + 1 + z ∧
      byteVal payload = bitVal (headerBits l ++ [true]) * 2 ^ z := by
  simp only [putHeader, IhevceErrorT.or_eq_success] at hok hroom ⊢
  have hstores : ∀ i ∈ (putElems (ihevceBitstrmInit m u4Max) l).1.pu1StrmBuffer.stores,
      i + 1 < 2 ^ 32 := fun i hi => by
    have := hroom i (stores_subset_putRbspTrailingBits _ hi)
    omega
  obtain ⟨_, hp⟩ := putElems_pending (pending_init m u4Max) hvalid hok.1 hstores
  rw [List.nil_append] at hp
  obtain ⟨payload, z, hheld, hoff, hbytes, -, hlen, hval⟩ := hp.putRbspTrailingBits hok.2
    fun i hi => by
      have := hroom i hi
      omega
  refine ⟨payload, z, ?_, hbytes, hlen, hval⟩
  rw [streamBytes, hoff, hheld.map_range]

/-- A buffer that starts with these bytes reads back as the values. -/
theorem getElems_payload {l : List HeaderElem} (hvalid : ∀ e ∈ l, e.Valid)
    (hbuf : ∀ i, buf i < 256) (hheld : Holds buf 0 payload) (hbytes : ∀ x ∈ payload, x < 256)
    (hlen : 8 * payload.length = (headerBits l).length + 1 + z)
    (hval : byteVal payload = bitVal (headerBits l ++ [true]) * 2 ^ z) :
    let r := getElems (ihevcdBitsInit buf n) (l.map Prod.fst)
    r.1 = l.map Prod.snd ∧ r.2.At (headerBits l).length := by
  have hfield := field_bytes hheld hbytes
  rw [hlen, hval, Nat.mul_zero] at hfield
  have hbits : field (ofBytes buf) 0 (headerBits l).length = bitVal (headerBits l) := by
    rw [← field_div _ _ _ 1, ← field_div _ _ _ z, hfield, Nat.mul_div_cancel _ (by positivity),
      bitVal_append_singleton]
    simp only [Bool.toNat_true]
    omega
  obtain ⟨hvals, hmoved⟩ := getElems_eq (bitsInit_at (n := n) hbuf) hvalid hbits
  exact ⟨hvals, by simpa using hmoved.at_⟩

/-- Headers read back; the count of consumed bits is kept modulo `2 ^ 32`. -/
theorem header_readsBack {l : List HeaderElem} (hvalid : ∀ e ∈ l, e.Valid)
    (hmax : u4Max < 2 ^ 32) (hok : (putHeader (ihevceBitstrmInit m u4Max) l).2 = .success)
    (hroom : ∀ i ∈ (putHeader (ihevceBitstrmInit m u4Max) l).1.pu1StrmBuffer.stores, i < u4Max) :
    ReadsBack l (streamBytes (putHeader (ihevceBitstrmInit m u4Max) l).1)
      (u32 (headerBits l).length) := by
  obtain ⟨payload, z, hstream, hbytes, hlen, hval⟩ := putHeader_written hvalid hmax hok hroom
  rw [hstream]
  refine ⟨fun p b q he => ?_, fun buf n hbuf hheld => ?_⟩
  · have hwindow : epb.escape 0 payload = p ++ List.replicate epb.limit 0 ++ b :: q := by
      rw [he]
      simp [epb, epbZeroBytes]
    rcases escape_window (Nat.zero_le _) hwindow with rfl | hb
    · decide
    · exact Nat.le_of_lt hb
  · rw [unescape_escape] at hheld
    obtain ⟨hvals, hat⟩ := getElems_payload (n := n) hvalid hbuf hheld hbytes hlen hval
    exact ⟨hvals, numBitsConsumed_eq hat⟩

theorem header_readsBack_example :
    ReadsBack [(.u 8, 0), (.u 16, 1), (.ue, 7), (.se, -3)]
      (streamBytes (putHeader (ihevceBitstrmInit (fun _ => 0) 64)
        [(.u 8, 0), (.u 16, 1), (.ue, 7), (.se, -3)]).1)
      (u32 (headerBits [(.u 8, 0), (.u 16, 1), (.ue, 7), (.se, -3)]).length) :=
  header_readsBack (by simp [HeaderElem.Valid]) (by decide) (by decide) (by decide)

theorem length_headerBits_replicate (n : Nat) (e : HeaderElem) :
    (headerBits (List.replicate n e)).length = n * e.code.2 := by
  induction n with
  | zero => simp [headerBits]
  | succ n ih =>
    have hsplit : headerBits (List.replicate (n + 1) e) =
        e.bits ++ headerBits (List.replicate n e) := rfl
    rw [hsplit, List.length_append, ih, HeaderElem.bits, length_bitsOf, Nat.succ_mul, Nat.add_comm]

/-- A header of `2 ^ 32` bits that fits its buffer does not leave the count at its length. -/
theorem not_readsBack_of_wrap {l : List HeaderElem} (hvalid : ∀ e ∈ l, e.Valid)
    (hlen : (headerBits l).length = 2 ^ 32) :
    let r := putHeader (ihevceBitstrmInit (fun _ => 0) (2 ^ 32 - 1)) l
    r.2 = .success ∧ (∀ i ∈ r.1.pu1StrmBuffer.stores, i < 2 ^ 32 - 1) ∧
      ¬ReadsBack l (streamBytes r.1) (headerBits l).length := by
  obtain ⟨hok, hroom⟩ := putHeader_room (m := fun _ => 0) hvalid
    (show 2 ^ 32 - 1 < 2 ^ 32 by decide) (by omega)
  refine ⟨hok, hroom, fun ⟨_, hback⟩ => ?_⟩
  obtain ⟨payload, z, hstream, hbytes, hlen', hval⟩ :=
    putHeader_written hvalid (by decide) hok hroom
  rw [hstream, unescape_escape] at hback
  have hbuf : ∀ i, payload.getD i 0 < 256 := getD_of_forall hbytes (by decide)
  have hheld := holds_getD payload 0
  obtain ⟨-, hcount⟩ := hback _ 0 hbuf hheld
  obtain ⟨-, hat⟩ := getElems_payload (n := 0) hvalid hbuf hheld hbytes hlen' hval
  rw [numBitsConsumed_eq hat, hlen] at hcount
  simp [u32] at hcount

/-- `2 ^ 27` words of ones: the claimed count of consumed bits has wrapped to 0. -/
theorem header_consumed_wraps :
    let l : List HeaderElem := List.replicate (2 ^ 27) (.u 32, 2 ^ 32 - 1)
    let r := putHeader (ihevceBitstrmInit (fun _ => 0) (2 ^ 32 - 1)) l
    r.2 = .success ∧ (∀ i ∈ r.1.pu1StrmBuffer.stores, i < 2 ^ 32 - 1) ∧
      ¬ReadsBack l (streamBytes r.1) (headerBits l).length := by
  refine not_readsBack_of_wrap (fun e he => ?_) ?_
  · rw [List.eq_of_mem_replicate he]
    simp [HeaderElem.Valid]
  · rw [length_headerBits_replicate]
    rfl

end Libhevc.RoundTrip
