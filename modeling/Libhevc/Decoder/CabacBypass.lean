import Libhevc.Decoder.CabacRefines
import Libhevc.Decoder.BitReader

/-!
# Bypass bins in groups

The functions and the macros that take several bypass bins read their bits at
once. They leave the registers, the models and the reader that single bypass
bins leave.
-/

namespace Libhevc.Decoder

open BitString Memory Spec Transducer

-- ---------------------------------------------------------------------------
-- The macros of `ihevcd_cabac.h`
-- ---------------------------------------------------------------------------

/-- `IHEVCD_CABAC_DECODE_BIN` -/
def cabacDecodeBinMacro (c : CabCtxt) (s : Bitstrm) (ctxtIndex : Nat) : Nat × CabCtxt × Bitstrm :=
  let stateMps := c.au1CtxtModels ctxtIndex
  let clz := clz c.u4Range - (32 - rangeNumbits)
  let u4QntRange := (u32 (c.u4Range <<< clz) >>> (rangeShift + 6)) &&& 3
  let u4Rlps := u32 (gau1IhevcCabacRlps (stateMps >>> 1) u4QntRange <<< (rangeShift - clz))
  let u4Range := u32Sub c.u4Range u4Rlps
  let u4Bin := stateMps &&& 1
  let (u4Bin, u4Ofst, u4Range) :=
    if u4Range ≤ c.u4Ofst then (1 - u4Bin, u32Sub c.u4Ofst u4Range, u4Rlps)
    else (u4Bin, c.u4Ofst, u4Range)
  let models := set c.au1CtxtModels ctxtIndex (gau1IhevcNextState ((stateMps <<< 1) ||| u4Bin))
  if u4Range < 256 then
    let numbits := Libhevc.clz u4Range - (32 - rangeNumbits)
    let get := ihevcdBitsGet s numbits
    (u4Bin, { c with
      u4Ofst := u32 (u4Ofst <<< numbits) ||| get.1
      u4Range := u32 (u4Range <<< numbits)
      au1CtxtModels := models }, get.2)
  else (u4Bin, { c with u4Ofst := u4Ofst, u4Range := u4Range, au1CtxtModels := models }, s)

/-- `IHEVCD_CABAC_DECODE_BYPASS_BIN` -/
def cabacDecodeBypassBinMacro (c : CabCtxt) (s : Bitstrm) : Nat × CabCtxt × Bitstrm :=
  let get := bitGet s
  let u4Ofst := u32 (c.u4Ofst <<< 1) ||| get.1
  let (u4Bin, u4Ofst) :=
    if c.u4Range ≤ u4Ofst then (1, u32Sub u4Ofst c.u4Range) else (0, u4Ofst)
  (u4Bin, { c with u4Ofst := u4Ofst }, get.2)

/-- The loop of `IHEVCD_CABAC_DECODE_BYPASS_BINS`. -/
def bypassMacroLoop (u4Range u4Bits : Nat) : (numbinsTmp u4Bins u4Ofst : Nat) → Nat × Nat
  | 0, u4Bins, u4Ofst => (u4Bins, u4Ofst)
  | numbinsTmp + 1, u4Bins, u4Ofst =>
    let u4Ofst := u32 (u4Ofst <<< 1) ||| ((u4Bits >>> numbinsTmp) &&& 1)
    let u4Bins := u32 (u4Bins <<< 1)
    if u4Range ≤ u4Ofst then
      bypassMacroLoop u4Range u4Bits numbinsTmp (u4Bins + 1) (u32Sub u4Ofst u4Range)
    else bypassMacroLoop u4Range u4Bits numbinsTmp u4Bins u4Ofst

/-- `IHEVCD_CABAC_DECODE_BYPASS_BINS` -/
def cabacDecodeBypassBinsMacro (c : CabCtxt) (s : Bitstrm) (numbins : Nat) :
    Nat × CabCtxt × Bitstrm :=
  let get := ihevcdBitsGet s numbins
  let (u4Bins, u4Ofst) := bypassMacroLoop c.u4Range get.1 numbins 0 c.u4Ofst
  (u4Bins, { c with u4Ofst := u4Ofst }, get.2)

-- ---------------------------------------------------------------------------
-- The truncated unary code
-- ---------------------------------------------------------------------------

/-- The loop of `ihevcd_cabac_decode_bypass_bins_tunary`, `n` bins before the maximum: the number
of bins, the last of them and the offset. -/
def tunaryBits (u4Range : Nat) : (n u4Sym u4Ofst u4Bits : Nat) → Nat × Nat × Nat
  | 0, u4Sym, u4Ofst, _ => (u4Sym, 0, u4Ofst)
  | n + 1, u4Sym, u4Ofst, u4Bits =>
    let u4Ofst := u32 (u4Ofst <<< 1) ||| (u4Bits >>> 31)
    if u4Range ≤ u4Ofst then
      if n = 0 then (u4Sym + 1, 1, u32Sub u4Ofst u4Range)
      else tunaryBits u4Range n (u4Sym + 1) (u32Sub u4Ofst u4Range) (u32 (u4Bits <<< 1))
    else (u4Sym + 1, 0, u4Ofst)

/-- `ihevcd_cabac_decode_bypass_bins_tunary`. It looks at `cMax` bits and takes as many as it
needs. -/
def cabacDecodeBypassBinsTunary (c : CabCtxt) (s : Bitstrm) (cMax : Nat) :
    Nat × CabCtxt × Bitstrm :=
  let u4Bits := u32 (ihevcdBitsNxt s cMax <<< (32 - cMax))
  let (u4Sym, bin, u4Ofst) := tunaryBits c.u4Range cMax 0 c.u4Ofst u4Bits
  (u4Sym - 1 + bin, { c with u4Ofst := u4Ofst }, bitsFlush s u4Sym)

-- ---------------------------------------------------------------------------
-- Bin by bin
-- ---------------------------------------------------------------------------

/-- `n` calls of `ihevcd_cabac_decode_bypass_bin`, the first bin on top. -/
def singleBypassBins : (n u4Bins : Nat) → CabCtxt → Bitstrm → Nat × CabCtxt × Bitstrm
  | 0, u4Bins, c, s => (u4Bins, c, s)
  | n + 1, u4Bins, c, s =>
    let r := ihevcdCabacDecodeBypassBin c s
    singleBypassBins n (2 * u4Bins + r.1) r.2.1 r.2.2

/-- Calls of `ihevcd_cabac_decode_bypass_bin` up to the first 0, and `n` at most. -/
def singleBypassUnary : (n u4Sym : Nat) → CabCtxt → Bitstrm → Nat × CabCtxt × Bitstrm
  | 0, u4Sym, c, s => (u4Sym, c, s)
  | n + 1, u4Sym, c, s =>
    let r := ihevcdCabacDecodeBypassBin c s
    if r.1 = 0 then (u4Sym, r.2) else singleBypassUnary n (u4Sym + 1) r.2.1 r.2.2

-- ---------------------------------------------------------------------------
-- States that differ in what they remember of the past
-- ---------------------------------------------------------------------------

/-- All that the source keeps is the same. -/
structure SameState (x y : CabCtxt × Bitstrm) : Prop where
  range : x.1.u4Range = y.1.u4Range
  ofst : x.1.u4Ofst = y.1.u4Ofst
  models : x.1.au1CtxtModels = y.1.au1CtxtModels
  reader : x.2 = y.2

/-- The same value, a state that is the same, and so the same symbols from it on. -/
structure Agrees (r r' : Nat × CabCtxt × Bitstrm) : Prop where
  value : r.1 = r'.1
  state : SameState r.2 r'.2
  later : ∀ ops, (cabacRun r.2 ops).outputs = (cabacRun r'.2 ops).outputs

theorem SameState.symm (h : SameState x y) : SameState y x :=
  ⟨h.range.symm, h.ofst.symm, h.models.symm, h.reader.symm⟩

theorem SameState.trans (h : SameState x y) (h' : SameState y z) : SameState x z :=
  ⟨h.range.trans h'.range, h.ofst.trans h'.ofst, h.models.trans h'.models,
    h.reader.trans h'.reader⟩

theorem SameState.eq (h : SameState x y) :
    ∃ ops, x = ({ y.1 with ops := ops }, y.2) := by
  obtain ⟨⟨range, ofst, models, ops⟩, s⟩ := x
  obtain ⟨hrange, hofst, hmodels, hreader⟩ := h
  simp only at hrange hofst hmodels hreader
  subst hrange hofst hmodels hreader
  exact ⟨ops, rfl⟩

-- ---------------------------------------------------------------------------
-- The reader
-- ---------------------------------------------------------------------------

theorem refill_buf (s : Bitstrm) :
    s.refill.pu1BufBase = s.pu1BufBase ∧ s.refill.pu1BufMax = s.pu1BufMax := by
  unfold Bitstrm.refill
  split <;> exact ⟨rfl, rfl⟩

theorem bitsNxt_get (h : Bitstrm.At s p) (hn : n ≤ 32) :
    ihevcdBitsNxt s n = (ihevcdBitsGet s n).1 := by
  have hofst := h.ofst
  have hu : u32 (s.u4BitOfst + n) = s.u4BitOfst + n := u32_of_lt (by omega)
  have hiff : 32 - n < s.u4BitOfst ↔ 32 < s.u4BitOfst + n := by omega
  have hshr : 32 + 32 - n - s.u4BitOfst = 64 - (s.u4BitOfst + n) := by omega
  simp only [ihevcdBitsNxt, ihevcdBitsGet, hu, hiff, hshr]

/-- A single bypass bin takes one bit. -/
theorem decodeBypassBin_reader (h : Bitstrm.At s p) (c : CabCtxt) :
    (ihevcdCabacDecodeBypassBin c s).2.2.At (p + 1) ∧
      (ihevcdCabacDecodeBypassBin c s).2.2.pu1BufBase = s.pu1BufBase ∧
      (ihevcdCabacDecodeBypassBin c s).2.2.pu1BufMax = s.pu1BufMax := by
  have hreader : (ihevcdCabacDecodeBypassBin c s).2.2 = (ihevcdBitsGet s 1).2 :=
    congrArg Prod.snd (bitGet_eq h)
  rw [hreader]
  exact ⟨bitsGet_at h (by decide), refill_buf _⟩

@[simp] theorem note_range (c : CabCtxt) (l : List EngineOp) : (c.note l).u4Range = c.u4Range := rfl

@[simp] theorem note_ofst (c : CabCtxt) (l : List EngineOp) : (c.note l).u4Ofst = c.u4Ofst := rfl

@[simp] theorem note_models (c : CabCtxt) (l : List EngineOp) :
    (c.note l).au1CtxtModels = c.au1CtxtModels := rfl

theorem bypassBit_regs (c : CabCtxt) (bit : Nat) :
    let u4Ofst := u32 (c.u4Ofst <<< 1) ||| bit
    (bypassBit c bit).1 = (if c.u4Range ≤ u4Ofst then 1 else 0) ∧
      (bypassBit c bit).2.u4Ofst =
        (if c.u4Range ≤ u4Ofst then u32Sub u4Ofst c.u4Range else u4Ofst) ∧
      (bypassBit c bit).2.u4Range = c.u4Range ∧
      (bypassBit c bit).2.au1CtxtModels = c.au1CtxtModels := by
  intro u4Ofst
  cases Nat.lt_or_ge u4Ofst c.u4Range with
  | inl hlt =>
    rw [bypassBit_zero hlt, if_neg (Nat.not_le.mpr hlt), if_neg (Nat.not_le.mpr hlt)]
    exact ⟨rfl, rfl, rfl, rfl⟩
  | inr hge =>
    rw [bypassBit_one hge, if_pos hge, if_pos hge]
    exact ⟨rfl, rfl, rfl, rfl⟩

theorem decodeBypassBin_regs (h : Bitstrm.At s p) (c : CabCtxt) :
    let u4Ofst := u32 (c.u4Ofst <<< 1) ||| (s.bits p).toNat
    (ihevcdCabacDecodeBypassBin c s).1 = (if c.u4Range ≤ u4Ofst then 1 else 0) ∧
      (ihevcdCabacDecodeBypassBin c s).2.1.u4Ofst =
        (if c.u4Range ≤ u4Ofst then u32Sub u4Ofst c.u4Range else u4Ofst) ∧
      (ihevcdCabacDecodeBypassBin c s).2.1.u4Range = c.u4Range ∧
      (ihevcdCabacDecodeBypassBin c s).2.1.au1CtxtModels = c.au1CtxtModels := by
  have hbit : (bitGet s).1 = (s.bits p).toNat := by
    rw [bitGet_eq h, bitsGet_eq h (by decide), field_one]
  rw [ihevcdCabacDecodeBypassBin, hbit]
  exact bypassBit_regs (c.note [.bitsGet 1]) (s.bits p).toNat

-- ---------------------------------------------------------------------------
-- Groups
-- ---------------------------------------------------------------------------

theorem bypassMacroLoop_succ (u4Range u4Bits n u4Bins u4Ofst : Nat) :
    let u4Next := u32 (u4Ofst <<< 1) ||| ((u4Bits >>> n) &&& 1)
    bypassMacroLoop u4Range u4Bits (n + 1) u4Bins u4Ofst =
      bypassMacroLoop u4Range u4Bits n (u32 (u4Bins <<< 1) + if u4Range ≤ u4Next then 1 else 0)
        (if u4Range ≤ u4Next then u32Sub u4Next u4Range else u4Next) := by
  rw [bypassMacroLoop]
  dsimp only
  split <;> rfl

/-- The function runs the loop of the macro. -/
theorem bypassLoop_macro (u4Bits n u4Bins : Nat) (c : CabCtxt) :
    let r := bypassMacroLoop c.u4Range u4Bits n u4Bins c.u4Ofst
    (bypassLoop u4Bits n u4Bins c).1 = r.1 ∧ (bypassLoop u4Bits n u4Bins c).2.u4Ofst = r.2 ∧
      (bypassLoop u4Bits n u4Bins c).2.u4Range = c.u4Range ∧
      (bypassLoop u4Bits n u4Bins c).2.au1CtxtModels = c.au1CtxtModels := by
  induction n generalizing u4Bins c with
  | zero => exact ⟨rfl, rfl, rfl, rfl⟩
  | succ n ih =>
    obtain ⟨hbin, hofst, hrange, hmodels⟩ := bypassBit_regs c ((u4Bits >>> n) &&& 1)
    have hnext := ih (u32 (u4Bins <<< 1) + (bypassBit c ((u4Bits >>> n) &&& 1)).1)
      ((bypassBit c ((u4Bits >>> n) &&& 1)).2.note [.shl u4Bins 1])
    simp only [note_range, note_ofst, note_models, hrange, hofst, hmodels] at hnext
    rw [bypassMacroLoop_succ, bypassLoop, ← hbin]
    exact hnext

theorem decodeBypassBins_macro (c : CabCtxt) (s : Bitstrm) (n : Nat) :
    (ihevcdCabacDecodeBypassBins c s n).1 = (cabacDecodeBypassBinsMacro c s n).1 ∧
      SameState (ihevcdCabacDecodeBypassBins c s n).2 (cabacDecodeBypassBinsMacro c s n).2 := by
  obtain ⟨hval, hofst, hrange, hmodels⟩ :=
    bypassLoop_macro (ihevcdBitsGet s n).1 n 0 (c.note [.bitsGet n])
  exact ⟨hval, hrange, hofst, hmodels, rfl⟩

/-- The bins of a group one by one, whatever the registers hold. -/
theorem singleBypassBins_macro (h : Bitstrm.At s p) (u4Bins : Nat) (c : CabCtxt)
    (hbits : u4Bits % 2 ^ n = field s.bits p n) (hbins : (u4Bins + 1) * 2 ^ n ≤ 2 ^ 32) :
    let r := bypassMacroLoop c.u4Range u4Bits n u4Bins c.u4Ofst
    let x := singleBypassBins n u4Bins c s
    x.1 = r.1 ∧ x.2.1.u4Ofst = r.2 ∧ x.2.1.u4Range = c.u4Range ∧
      x.2.1.au1CtxtModels = c.au1CtxtModels ∧ x.2.2.At (p + n) ∧
      x.2.2.pu1BufBase = s.pu1BufBase ∧ x.2.2.pu1BufMax = s.pu1BufMax := by
  induction n generalizing u4Bins c s p with
  | zero => exact ⟨rfl, rfl, rfl, rfl, h, rfl, rfl⟩
  | succ n ih =>
    obtain ⟨hat, hbase, hmax⟩ := decodeBypassBin_reader h c
    obtain ⟨hbin, hofst, hrange, hmodels⟩ := decodeBypassBin_regs h c
    have hbit : (u4Bits >>> n) &&& 1 = (s.bits p).toNat := by
      have hdiv := field_div s.bits p 1 n
      rw [Nat.add_comm 1 n, ← hbits, field_one] at hdiv
      rw [Nat.and_one_is_mod, Nat.shiftRight_eq_div_pow, ← hdiv, pow_succ,
        Nat.mod_mul_right_div_self]
    have hrest : u4Bits % 2 ^ n = field (ihevcdCabacDecodeBypassBin c s).2.2.bits (p + 1) n := by
      have hmod := field_mod s.bits p 1 n
      rw [Nat.add_comm 1 n, ← hbits, pow_succ, Nat.mod_mul_right_mod] at hmod
      rw [hmod, Bitstrm.bits, Bitstrm.bits, hbase]
    have hpow := Nat.two_pow_pos n
    have hdouble : u32 (u4Bins <<< 1) = 2 * u4Bins := by
      have hmul : (u4Bins + 1) * 2 ^ (n + 1) = (2 * u4Bins + 2) * 2 ^ n := by ring
      have hle : 2 * u4Bins + 2 ≤ (2 * u4Bins + 2) * 2 ^ n := Nat.le_mul_of_pos_right _ hpow
      rw [Nat.shiftLeft_eq, u32_of_lt (by omega)]
      ring
    have hbound : ∀ bin ≤ 1, (2 * u4Bins + bin + 1) * 2 ^ n ≤ 2 ^ 32 := by
      intro bin hle
      have hmul : (u4Bins + 1) * 2 ^ (n + 1) = (2 * u4Bins + 2) * 2 ^ n := by ring
      exact Nat.le_trans (Nat.mul_le_mul_right _ (by omega)) (hmul ▸ hbins)
    have hle : (ihevcdCabacDecodeBypassBin c s).1 ≤ 1 := by
      rw [hbin]
      split <;> decide
    have hnext := ih hat (2 * u4Bins + (ihevcdCabacDecodeBypassBin c s).1)
      (ihevcdCabacDecodeBypassBin c s).2.1 hrest (hbound _ hle)
    simp only [hrange, hofst, hmodels, hbase, hmax] at hnext
    rw [bypassMacroLoop_succ, singleBypassBins, hbit, hdouble, ← hbin, Nat.add_comm n 1,
      ← Nat.add_assoc]
    exact hnext

-- ---------------------------------------------------------------------------
-- The truncated unary code, bin by bin
-- ---------------------------------------------------------------------------

theorem tunaryBits_zero {u4Range : Nat} (h : u32 (u4Ofst <<< 1) ||| (u4Bits >>> 31) < u4Range) :
    tunaryBits u4Range (n + 1) u4Sym u4Ofst u4Bits =
      (u4Sym + 1, 0, u32 (u4Ofst <<< 1) ||| (u4Bits >>> 31)) := if_neg (Nat.not_le.mpr h)

theorem tunaryBits_last {u4Range : Nat} (h : u4Range ≤ u32 (u4Ofst <<< 1) ||| (u4Bits >>> 31)) :
    tunaryBits u4Range 1 u4Sym u4Ofst u4Bits =
      (u4Sym + 1, 1, u32Sub (u32 (u4Ofst <<< 1) ||| (u4Bits >>> 31)) u4Range) := if_pos h

theorem tunaryBits_one {u4Range : Nat} (h : u4Range ≤ u32 (u4Ofst <<< 1) ||| (u4Bits >>> 31)) :
    tunaryBits u4Range (n + 1 + 1) u4Sym u4Ofst u4Bits =
      tunaryBits u4Range (n + 1) (u4Sym + 1)
        (u32Sub (u32 (u4Ofst <<< 1) ||| (u4Bits >>> 31)) u4Range) (u32 (u4Bits <<< 1)) := if_pos h

/-- The bits that are left stand at the top of the word. -/
theorem tunaryBits_single (h : Bitstrm.At s p) (hn : n < 32) (u4Sym : Nat) (c : CabCtxt) :
    let r := tunaryBits c.u4Range (n + 1) u4Sym c.u4Ofst
      (field s.bits p (n + 1) * 2 ^ (31 - n))
    let x := singleBypassUnary (n + 1) u4Sym c s
    r.1 - 1 + r.2.1 = x.1 ∧ u4Sym < r.1 ∧ r.1 ≤ u4Sym + n + 1 ∧ r.2.2 = x.2.1.u4Ofst ∧
      x.2.1.u4Range = c.u4Range ∧ x.2.1.au1CtxtModels = c.au1CtxtModels ∧
      x.2.2.At (p + (r.1 - u4Sym)) ∧
      x.2.2.pu1BufBase = s.pu1BufBase ∧ x.2.2.pu1BufMax = s.pu1BufMax := by
  intro r x
  obtain ⟨hat, hbase, hmax⟩ := decodeBypassBin_reader h c
  obtain ⟨hbin, hofst, hrange, hmodels⟩ := decodeBypassBin_regs h c
  have hlow := field_lt s.bits (p + 1) n
  have hpow : 2 ^ n * 2 ^ (31 - n) = 2 ^ 31 := by
    rw [← pow_add]
    congr 1
    omega
  have hlow31 : field s.bits (p + 1) n * 2 ^ (31 - n) < 2 ^ 31 :=
    hpow ▸ Nat.mul_lt_mul_of_pos_right hlow (Nat.two_pow_pos _)
  have hword : field s.bits p (n + 1) * 2 ^ (31 - n) =
      (s.bits p).toNat * 2 ^ 31 + field s.bits (p + 1) n * 2 ^ (31 - n) := by
    rw [field_succ_left s.bits p n, Nat.add_mul, Nat.mul_assoc, hpow]
  have hbit : (field s.bits p (n + 1) * 2 ^ (31 - n)) >>> 31 = (s.bits p).toNat := by
    rw [hword, Nat.shiftRight_eq_div_pow]
    omega
  rw [← hbit] at hbin hofst
  cases Nat.lt_or_ge (u32 (c.u4Ofst <<< 1) ||| (field s.bits p (n + 1) * 2 ^ (31 - n)) >>> 31)
      c.u4Range with
  | inl hlt =>
    rw [if_neg (Nat.not_le.mpr hlt)] at hbin hofst
    have hr : r = _ := tunaryBits_zero hlt
    have hx : x = (u4Sym, (ihevcdCabacDecodeBypassBin c s).2) := if_pos hbin
    rw [hr, hx, hofst, Nat.add_sub_cancel_left]
    exact ⟨rfl, Nat.lt_succ_self _, by omega, rfl, hrange, hmodels, hat, hbase, hmax⟩
  | inr hge =>
    rw [if_pos hge] at hbin hofst
    have hx : x = singleBypassUnary n (u4Sym + 1) (ihevcdCabacDecodeBypassBin c s).2.1
        (ihevcdCabacDecodeBypassBin c s).2.2 := if_neg (by rw [hbin]; decide)
    cases n with
    | zero =>
      have hr : r = _ := tunaryBits_last hge
      rw [hr, hx, Nat.add_sub_cancel_left]
      exact ⟨rfl, Nat.lt_succ_self _, le_rfl, hofst.symm, hrange, hmodels, hat, hbase, hmax⟩
    | succ n =>
      have hr : r = _ := tunaryBits_one hge
      have hnext : u32 ((field s.bits p (n + 1 + 1) * 2 ^ (31 - (n + 1))) <<< 1) =
          field (ihevcdCabacDecodeBypassBin c s).2.2.bits (p + 1) (n + 1) * 2 ^ (31 - n) := by
        have hdouble : 2 ^ (31 - n) = 2 ^ (31 - (n + 1)) * 2 := by
          rw [← pow_succ]
          congr 1
          omega
        have hbits : (ihevcdCabacDecodeBypassBin c s).2.2.bits = s.bits := congrArg ofBytes hbase
        rw [hword, hbits, hdouble, ← Nat.mul_assoc, u32, Nat.shiftLeft_eq]
        omega
      obtain ⟨hsym, hmore, hless, hofst', hrange', hmodels', hat', hbase', hmax'⟩ :=
        tunaryBits_single (n := n) hat (by omega) (u4Sym + 1) (ihevcdCabacDecodeBypassBin c s).2.1
      rw [← hnext, hrange, hofst, ← hr] at hsym hmore hless hofst' hat'
      rw [← hx] at hsym hofst' hrange' hmodels' hat' hbase' hmax'
      refine ⟨hsym, by omega, by omega, hofst', hrange'.trans hrange, hmodels'.trans hmodels, ?_,
        hbase'.trans hbase, hmax'.trans hmax⟩
      rwa [show p + (r.1 - u4Sym) = p + 1 + (r.1 - (u4Sym + 1)) by omega]
termination_by n

/-- The function leaves what the single bins leave, whatever the registers hold. -/
theorem bypassTunary_single (h : Bitstrm.At s p) (c : CabCtxt) (hpos : 0 < cMax)
    (hmax : cMax ≤ 32) :
    (cabacDecodeBypassBinsTunary c s cMax).1 = (singleBypassUnary cMax 0 c s).1 ∧
      SameState (cabacDecodeBypassBinsTunary c s cMax).2 (singleBypassUnary cMax 0 c s).2 := by
  obtain ⟨n, rfl⟩ : ∃ n, cMax = n + 1 := ⟨cMax - 1, by omega⟩
  have hbits : u32 (ihevcdBitsNxt s (n + 1) <<< (32 - (n + 1))) =
      field s.bits p (n + 1) * 2 ^ (31 - n) := by
    have hlt := Nat.mul_lt_mul_of_pos_right (field_lt s.bits p (n + 1))
      (Nat.two_pow_pos (31 - n))
    rw [← pow_add, show n + 1 + (31 - n) = 32 by omega] at hlt
    rw [bitsNxt_get h hmax, bitsGet_eq h hmax, Nat.shiftLeft_eq, Nat.add_comm n 1, ← Nat.sub_sub,
      Nat.add_comm 1 n, u32_of_lt hlt]
  obtain ⟨hsym, -, hless, hofst, hrange, hmodels, hat, hbase, hbufmax⟩ :=
    tunaryBits_single h hmax 0 c
  rw [← hbits] at hsym hless hofst hat
  have hflush := bitsFlush_at h (n := (tunaryBits c.u4Range (n + 1) 0 c.u4Ofst
    (u32 (ihevcdBitsNxt s (n + 1) <<< (32 - (n + 1))))).1) (by omega)
  refine ⟨hsym, hrange.symm, hofst, hmodels.symm, ?_⟩
  exact hflush.unique hat ((refill_buf _).1.trans hbase.symm) ((refill_buf _).2.trans hbufmax.symm)

/-- A group leaves what the single bins leave, whatever the registers hold. -/
theorem bypassBins_single (h : Bitstrm.At s p) (c : CabCtxt) (hn : n ≤ 16) :
    (ihevcdCabacDecodeBypassBins c s n).1 = (singleBypassBins n 0 c s).1 ∧
      SameState (ihevcdCabacDecodeBypassBins c s n).2 (singleBypassBins n 0 c s).2 := by
  have hget := bitsGet_eq h (n := n) (by omega)
  have hbits : (ihevcdBitsGet s n).1 % 2 ^ n = field s.bits p n := by
    rw [hget, Nat.mod_eq_of_lt (field_lt ..)]
  have hpow : (0 + 1) * 2 ^ n ≤ 2 ^ 32 := by
    rw [Nat.zero_add, Nat.one_mul]
    exact Nat.pow_le_pow_right (by decide) (by omega)
  obtain ⟨hval, hofst, hrange, hmodels, hat, hbase, hmax⟩ := singleBypassBins_macro h 0 c hbits hpow
  obtain ⟨hval', hofst', hrange', hmodels'⟩ :=
    bypassLoop_macro (ihevcdBitsGet s n).1 n 0 (c.note [.bitsGet n])
  refine ⟨hval'.trans hval.symm, hrange'.trans hrange.symm, hofst'.trans hofst.symm,
    hmodels'.trans hmodels.symm, ?_⟩
  exact (bitsGet_at h (by omega)).unique hat ((refill_buf _).1.trans hbase.symm)
    ((refill_buf _).2.trans hmax.symm)

-- ---------------------------------------------------------------------------
-- The symbols after a group
-- ---------------------------------------------------------------------------

theorem narrowBin_ge {u4Range : Nat} (h : u4Range ≤ c.u4Ofst) :
    narrowBin c ctxtIndex u4Range u4Rlps =
      (1 - (c.au1CtxtModels ctxtIndex &&& 1),
        { c with
          u4Ofst := u32Sub c.u4Ofst u4Range
          u4Range := u4Rlps
          au1CtxtModels := set c.au1CtxtModels ctxtIndex (gau1IhevcNextState
            ((c.au1CtxtModels ctxtIndex <<< 1) ||| (1 - (c.au1CtxtModels ctxtIndex &&& 1)))) }) :=
  if_pos h

theorem narrowBin_lt {u4Range : Nat} (h : ¬u4Range ≤ c.u4Ofst) :
    narrowBin c ctxtIndex u4Range u4Rlps =
      (c.au1CtxtModels ctxtIndex &&& 1,
        { c with
          u4Range := u4Range
          au1CtxtModels := set c.au1CtxtModels ctxtIndex (gau1IhevcNextState
            ((c.au1CtxtModels ctxtIndex <<< 1) ||| (c.au1CtxtModels ctxtIndex &&& 1))) }) :=
  if_neg h

theorem narrowBin_same {c c' : CabCtxt} (h : SameState (c, s) (c', s))
    (ctxtIndex u4Range u4Rlps : Nat) :
    (narrowBin c ctxtIndex u4Range u4Rlps).1 = (narrowBin c' ctxtIndex u4Range u4Rlps).1 ∧
      SameState ((narrowBin c ctxtIndex u4Range u4Rlps).2, s)
        ((narrowBin c' ctxtIndex u4Range u4Rlps).2, s) := by
  obtain ⟨ops, hops⟩ := h.eq
  obtain rfl : c = { c' with ops := ops } := congrArg Prod.fst hops
  by_cases hofst : u4Range ≤ c'.u4Ofst
  · rw [narrowBin_ge hofst, narrowBin_ge (c := { c' with ops := ops }) hofst]
    exact ⟨rfl, rfl, rfl, rfl, rfl⟩
  · rw [narrowBin_lt hofst, narrowBin_lt (c := { c' with ops := ops }) hofst]
    exact ⟨rfl, rfl, rfl, rfl, rfl⟩

theorem renorm_same {c c' : CabCtxt} (h : SameState (c, s) (c', s)) (n : Nat) :
    SameState (renorm c s n) (renorm c' s n) := by
  obtain ⟨ops, hops⟩ := h.eq
  obtain rfl : c = { c' with ops := ops } := congrArg Prod.fst hops
  exact ⟨rfl, rfl, rfl, rfl⟩

/-- What a context-coded bin leaves after the renormalisation. -/
theorem renormLazy_same {c c' : CabCtxt} (h : SameState (c, s) (c', s)) :
    SameState
      (if c.u4Range < 256 then renorm c s (clz c.u4Range - (32 - rangeNumbits)) else (c, s))
      (if c'.u4Range < 256 then renorm c' s (clz c'.u4Range - (32 - rangeNumbits))
        else (c', s)) := by
  have hrange : c.u4Range = c'.u4Range := h.range
  rw [hrange]
  split
  · exact renorm_same h _
  · exact h

theorem decodeBin_same {c c' : CabCtxt} (h : SameState (c, s) (c', s)) (ctxtIndex : Nat) :
    (ihevcdCabacDecodeBin c s ctxtIndex).1 = (ihevcdCabacDecodeBin c' s ctxtIndex).1 ∧
      SameState (ihevcdCabacDecodeBin c s ctxtIndex).2 (ihevcdCabacDecodeBin c' s ctxtIndex).2 := by
  have hnoted (l l' : List EngineOp) : SameState (c.note l, s) (c'.note l', s) :=
    ⟨h.range, h.ofst, h.models, rfl⟩
  have hrange : c.u4Range = c'.u4Range := h.range
  have hmodels : c.au1CtxtModels = c'.au1CtxtModels := h.models
  unfold ihevcdCabacDecodeBin
  dsimp only
  rw [hrange, hmodels]
  obtain ⟨hbin, hsame⟩ := narrowBin_same (hnoted _ _) ctxtIndex _ _
  exact ⟨hbin, renormLazy_same hsame⟩

/-- The macro renormalises as the function does. -/
theorem decodeBinMacro_eq (c : CabCtxt) (s : Bitstrm) (ctxtIndex : Nat) :
    let clz := clz c.u4Range - (32 - rangeNumbits)
    let u4QntRange := (u32 (c.u4Range <<< clz) >>> (rangeShift + 6)) &&& 3
    let lps := gau1IhevcCabacRlps (c.au1CtxtModels ctxtIndex >>> 1) u4QntRange
    let u4Rlps := u32 (lps <<< (rangeShift - clz))
    let r := narrowBin c ctxtIndex (u32Sub c.u4Range u4Rlps) u4Rlps
    let x := if r.2.u4Range < 256 then renorm r.2 s (Libhevc.clz r.2.u4Range - (32 - rangeNumbits))
      else (r.2, s)
    (cabacDecodeBinMacro c s ctxtIndex).1 = r.1 ∧
      SameState (cabacDecodeBinMacro c s ctxtIndex).2 x := by
  unfold cabacDecodeBinMacro
  dsimp only
  generalize u32 (gau1IhevcCabacRlps _ _ <<< _) = u4Rlps
  generalize u32Sub c.u4Range u4Rlps = u4Range
  by_cases hofst : u4Range ≤ c.u4Ofst
  · rw [narrowBin_ge hofst, if_pos hofst]
    dsimp only
    split <;> exact ⟨rfl, rfl, rfl, rfl, rfl⟩
  · rw [narrowBin_lt hofst, if_neg hofst]
    dsimp only
    split <;> exact ⟨rfl, rfl, rfl, rfl, rfl⟩

theorem decodeBin_macro (c : CabCtxt) (s : Bitstrm) (ctxtIndex : Nat) :
    (ihevcdCabacDecodeBin c s ctxtIndex).1 = (cabacDecodeBinMacro c s ctxtIndex).1 ∧
      SameState (ihevcdCabacDecodeBin c s ctxtIndex).2 (cabacDecodeBinMacro c s ctxtIndex).2 := by
  obtain ⟨hbin, hsame⟩ := decodeBinMacro_eq c s ctxtIndex
  have hnoted (l : List EngineOp) : SameState (c.note l, s) (c, s) := ⟨rfl, rfl, rfl, rfl⟩
  have hnarrow (l : List EngineOp) := narrowBin_same (hnoted l) ctxtIndex
  exact ⟨(hnarrow _ _ _).1.trans hbin.symm,
    (renormLazy_same (hnarrow _ _ _).2).trans hsame.symm⟩

theorem bypassBit_same {c c' : CabCtxt} (h : SameState (c, s) (c', s)) (bit : Nat) :
    (bypassBit c bit).1 = (bypassBit c' bit).1 ∧
      SameState ((bypassBit c bit).2, s) ((bypassBit c' bit).2, s) := by
  obtain ⟨hbin, hofst, hrange, hmodels⟩ := bypassBit_regs c bit
  obtain ⟨hbin', hofst', hrange', hmodels'⟩ := bypassBit_regs c' bit
  obtain ⟨hsrange, hsofst, hsmodels, -⟩ := h
  dsimp only at hsrange hsofst hsmodels
  rw [hsrange, hsofst] at hbin hofst
  exact ⟨hbin.trans hbin'.symm, (hrange.trans hsrange).trans hrange'.symm, hofst.trans hofst'.symm,
    (hmodels.trans hsmodels).trans hmodels'.symm, rfl⟩

theorem decodeBypassBin_macro (c : CabCtxt) (s : Bitstrm) :
    (ihevcdCabacDecodeBypassBin c s).1 = (cabacDecodeBypassBinMacro c s).1 ∧
      SameState (ihevcdCabacDecodeBypassBin c s).2 (cabacDecodeBypassBinMacro c s).2 := by
  have hregs := bypassBit_regs (c.note [.bitsGet 1]) (bitGet s).1
  rw [note_range, note_ofst] at hregs
  obtain ⟨hbin, hofst, hrange, hmodels⟩ := hregs
  unfold ihevcdCabacDecodeBypassBin cabacDecodeBypassBinMacro
  dsimp only
  by_cases hge : c.u4Range ≤ u32 (c.u4Ofst <<< 1) ||| (bitGet s).1
  · rw [if_pos hge] at hbin hofst ⊢
    exact ⟨hbin, hrange, hofst, hmodels, rfl⟩
  · rw [if_neg hge] at hbin hofst ⊢
    exact ⟨hbin, hrange, hofst, hmodels, rfl⟩

theorem decodeBypassBins_same {c c' : CabCtxt} (h : SameState (c, s) (c', s)) (n : Nat) :
    (ihevcdCabacDecodeBypassBins c s n).1 = (ihevcdCabacDecodeBypassBins c' s n).1 ∧
      SameState (ihevcdCabacDecodeBypassBins c s n).2 (ihevcdCabacDecodeBypassBins c' s n).2 := by
  obtain ⟨hval, hrange, hofst, hmodels, hreader⟩ := decodeBypassBins_macro c s n
  obtain ⟨hval', hrange', hofst', hmodels', hreader'⟩ := decodeBypassBins_macro c' s n
  obtain ⟨ops, hops⟩ := h.eq
  obtain rfl : c = { c' with ops := ops } := congrArg Prod.fst hops
  exact ⟨hval.trans hval'.symm, hrange.trans hrange'.symm, hofst.trans hofst'.symm,
    hmodels.trans hmodels'.symm, hreader.trans hreader'.symm⟩

theorem decodeTerminate_same {c c' : CabCtxt} (h : SameState (c, s) (c', s)) :
    (ihevcdCabacDecodeTerminate c s).1 = (ihevcdCabacDecodeTerminate c' s).1 ∧
      SameState (ihevcdCabacDecodeTerminate c s).2 (ihevcdCabacDecodeTerminate c' s).2 := by
  obtain ⟨hrange, hofst, hmodels, -⟩ := h
  dsimp only at hrange hofst hmodels
  unfold ihevcdCabacDecodeTerminate
  dsimp only
  rw [note_ofst, note_ofst, hrange, hofst]
  generalize u32Sub c'.u4Range _ = u4Range
  by_cases hge : u4Range ≤ c'.u4Ofst
  · rw [if_pos hge, if_pos hge]
    exact ⟨rfl, rfl, rfl, hmodels, rfl⟩
  · rw [if_neg hge, if_neg hge]
    refine ⟨rfl, ?_⟩
    dsimp only
    split
    · exact ⟨rfl, rfl, hmodels, rfl⟩
    · apply renorm_same
      exact ⟨rfl, rfl, hmodels, rfl⟩

/-- A step looks at what the source keeps only. -/
theorem SameState.decode (h : SameState x y) (op : CabacOp) :
    (cabacDecode x op).1 = (cabacDecode y op).1 ∧
      SameState (cabacDecode x op).2 (cabacDecode y op).2 := by
  obtain ⟨c, s⟩ := x
  obtain ⟨c', s'⟩ := y
  obtain rfl : s = s' := h.reader
  cases op with
  | bin ctxtIndex => exact decodeBin_same h ctxtIndex
  | bypass =>
    have hnoted : SameState (c.note [.bitsGet 1], (bitGet s).2)
        (c'.note [.bitsGet 1], (bitGet s).2) := ⟨h.range, h.ofst, h.models, rfl⟩
    exact bypassBit_same hnoted (bitGet s).1
  | bypassBins numbins => exact decodeBypassBins_same h numbins
  | terminate => exact decodeTerminate_same h

theorem sameState_simulates :
    Simulates cabacDecode cabacDecode CabacOp.stops (fun _ => True) SameState SameState where
  output _ h := (h.decode _).1
  go _ h _ := (h.decode _).2
  stop _ h _ := (h.decode _).2

theorem Agrees.of_same (h : r.1 = r'.1 ∧ SameState r.2 r'.2) : Agrees r r' :=
  ⟨h.1, h.2, fun _ => (sameState_simulates.run (fun _ _ => trivial) h.2).1⟩

-- ---------------------------------------------------------------------------
-- Every state that decoding reaches
-- ---------------------------------------------------------------------------

/-- The states between two symbols: the decoding starts anywhere in a stream of bytes, also where
the initialisation fails, and goes on up to the first terminating bin of 1. -/
inductive Reachable : CabCtxt × Bitstrm → Prop
  | init (models : Nat → Nat) (h : Bitstrm.At s p) : Reachable (ihevcdCabacInit s models).2
  | decode (h : Reachable x) (hop : op.Ok)
    (hgo : CabacOp.stops op (cabacDecode x op).1 = false) : Reachable (cabacDecode x op).2
  | tunary (h : Reachable x) (hpos : 0 < cMax) (hmax : cMax ≤ 32) :
    Reachable (cabacDecodeBypassBinsTunary x.1 x.2 cMax).2

theorem renorm_at (h : Bitstrm.At s p) (c : CabCtxt) (hn : n ≤ 32) : (renorm c s n).2.At (p + n) :=
  bitsGet_at h hn

/-- The reader stays on its stream, wherever the offset stands to the range. -/
theorem decode_at {x : CabCtxt × Bitstrm} (h : x.2.At p) (hop : op.Ok)
    (hgo : CabacOp.stops op (cabacDecode x op).1 = false) : ∃ q, (cabacDecode x op).2.2.At q := by
  obtain ⟨c, s⟩ := x
  have hclz (r : Nat) : clz r - (32 - rangeNumbits) ≤ 32 := by
    unfold clz
    split <;> omega
  cases op with
  | bin ctxtIndex =>
    unfold cabacDecode ihevcdCabacDecodeBin
    dsimp only
    split
    · exact ⟨_, renorm_at h _ (hclz _)⟩
    · exact ⟨p, h⟩
  | bypass => exact ⟨p + 1, (decodeBypassBin_reader h c).1⟩
  | bypassBins numbins =>
    have hlt : numbins < 17 := hop.2
    exact ⟨p + numbins, bitsGet_at h (by omega)⟩
  | terminate =>
    unfold cabacDecode ihevcdCabacDecodeTerminate at hgo ⊢
    dsimp only at hgo ⊢
    split
    · rename_i hge
      rw [if_pos hge] at hgo
      nomatch hgo
    · dsimp only
      split
      · exact ⟨p, h⟩
      · exact ⟨_, renorm_at h _ (hclz _)⟩

theorem singleBypassUnary_at (h : Bitstrm.At s p) (c : CabCtxt) (u4Sym : Nat) :
    ∃ q, (singleBypassUnary n u4Sym c s).2.2.At q := by
  induction n generalizing u4Sym c s p with
  | zero => exact ⟨p, h⟩
  | succ n ih =>
    obtain ⟨hat, -⟩ := decodeBypassBin_reader h c
    unfold singleBypassUnary
    dsimp only
    split
    · exact ⟨p + 1, hat⟩
    · exact ih hat _ _

theorem Reachable.at {x : CabCtxt × Bitstrm} (h : Reachable x) : ∃ p, x.2.At p := by
  induction h with
  | init models h => exact ⟨_, bitsGet_at h (by decide)⟩
  | decode h hop hgo ih =>
    obtain ⟨p, hat⟩ := ih
    exact decode_at hat hop hgo
  | tunary h hpos hmax ih =>
    obtain ⟨p, hat⟩ := ih
    rw [(bypassTunary_single hat _ hpos hmax).2.reader]
    exact singleBypassUnary_at hat _ 0

/-- From every state that is reached, groups of bypass bins and truncated unary codes give the
value of their bins one by one and leave a state with the same future, and the macros do what the
functions do. -/
theorem bypassGroups_bitByBit {x : CabCtxt × Bitstrm} (h : Reachable x) :
    (∀ n, 1 ≤ n → n ≤ 16 →
      Agrees (ihevcdCabacDecodeBypassBins x.1 x.2 n) (singleBypassBins n 0 x.1 x.2) ∧
      Agrees (cabacDecodeBypassBinsMacro x.1 x.2 n) (singleBypassBins n 0 x.1 x.2)) ∧
    (∀ cMax, 1 ≤ cMax → cMax ≤ 32 →
      Agrees (cabacDecodeBypassBinsTunary x.1 x.2 cMax) (singleBypassUnary cMax 0 x.1 x.2)) ∧
    (∀ ctxtIndex, Agrees (cabacDecodeBinMacro x.1 x.2 ctxtIndex)
      (ihevcdCabacDecodeBin x.1 x.2 ctxtIndex)) ∧
    Agrees (cabacDecodeBypassBinMacro x.1 x.2) (ihevcdCabacDecodeBypassBin x.1 x.2) ∧
    ∀ n, Agrees (cabacDecodeBypassBinsMacro x.1 x.2 n)
      (ihevcdCabacDecodeBypassBins x.1 x.2 n) := by
  obtain ⟨p, hat⟩ := h.at
  obtain ⟨c, s⟩ := x
  have hgroup (n : Nat) := decodeBypassBins_macro c s n
  refine ⟨fun n _ hn => ⟨.of_same (bypassBins_single hat c hn), .of_same ?_⟩,
    fun cMax hpos hmax => .of_same (bypassTunary_single hat c hpos hmax), fun ctxtIndex => ?_, ?_,
    fun n => ?_⟩
  · obtain ⟨hval, hsame⟩ := bypassBins_single hat c hn
    exact ⟨(hgroup n).1.symm.trans hval, (hgroup n).2.symm.trans hsame⟩
  · obtain ⟨hval, hsame⟩ := decodeBin_macro c s ctxtIndex
    exact .of_same ⟨hval.symm, hsame.symm⟩
  · obtain ⟨hval, hsame⟩ := decodeBypassBin_macro c s
    exact .of_same ⟨hval.symm, hsame.symm⟩
  · exact .of_same ⟨(hgroup n).1.symm, (hgroup n).2.symm⟩

/-- The first state of a stream of ones, whose initialisation fails. -/
theorem bypassGroups_bitByBit_ones :
    let x := (ihevcdCabacInit (ihevcdBitsInit (fun _ => 255) 16) fun _ => 0).2
    Agrees (ihevcdCabacDecodeBypassBins x.1 x.2 7) (singleBypassBins 7 0 x.1 x.2) :=
  have hat : (ihevcdBitsInit (fun _ => 255) 16).At 0 := bitsInit_at fun _ => by decide
  ((bypassGroups_bitByBit (.init (fun _ => 0) hat)).1 7 (by decide) (by decide)).1

end Libhevc.Decoder
