import Libhevc.Decoder.Bitstream
import Libhevc.Decoder.Cabac
import Libhevc.Spec.Cabac

/-!
# The full-range engine follows the plain one

The decoder's registers are the plain registers with up to 22 more bits shifted
in; its reader is that many bits ahead. The terminating bin gives them back.
-/

namespace Libhevc.Decoder

open BitString Memory RangeCoder Spec Transducer

/-- A bit read of 1 to 31 bits, or a left shift that loses no set bit. -/
def EngineOp.Safe : EngineOp → Prop
  | .bitsGet cnt => 1 ≤ cnt ∧ cnt ≤ 31
  | .shl x n => x * 2 ^ n < 2 ^ 32

def CabCtxt.OpsSafe (c : CabCtxt) : Prop := ∀ op ∈ c.ops, op.Safe

def CabCtxt.regs (c : CabCtxt) (p : Nat) : Registers :=
  { range := c.u4Range, ofst := c.u4Ofst, pos := p }

/-- The context has the registers `e` with `sh` more bits shifted in. -/
structure Held (b : Nat → Bool) (sh : Nat) (c : CabCtxt) (e : Registers) (models : Nat → Nat) :
    Prop where
  regs : c.regs (e.pos + sh) = e.shiftBy b sh
  models : c.au1CtxtModels = models
  ops : c.OpsSafe

/-- The reader is as many bits ahead as the context. -/
structure Scaled (b : Nat → Bool) (sh : Nat) (x : CabCtxt × Bitstrm) (e : Registers)
    (models : Nat → Nat) : Prop where
  held : Held b sh x.1 e models
  reader : x.2.At (e.pos + sh)
  bits : x.2.bits = b

section
variable {b : Nat → Bool} {c : CabCtxt} {s : Bitstrm} {e : Registers}

theorem Held.range (h : Held b sh c e m) : c.u4Range = e.range * 2 ^ sh :=
  congrArg Registers.range h.regs

theorem Held.ofst (h : Held b sh c e m) : c.u4Ofst = e.ofst * 2 ^ sh + field b e.pos sh :=
  congrArg Registers.ofst h.regs

theorem Held.of_eq (hrange : c.u4Range = e.range * 2 ^ sh)
    (hofst : c.u4Ofst = e.ofst * 2 ^ sh + field b e.pos sh) (hmodels : c.au1CtxtModels = m)
    (hops : c.OpsSafe) : Held b sh c e m := by
  refine ⟨?_, hmodels, hops⟩
  rw [CabCtxt.regs, hrange, hofst]
  rfl

theorem Held.ofst_lt_iff (h : Held b sh c e m) (r : Nat) :
    c.u4Ofst < r * 2 ^ sh ↔ e.ofst < r := by
  rw [h.ofst]
  exact shiftBy_ofst_lt_iff e r

/-- Bits may be counted to the plain registers or to the ones ahead. -/
theorem Scaled.shift (h : Scaled b (k + sh) x e m) : Scaled b sh x (e.shiftBy b k) m := by
  obtain ⟨⟨hregs, hmodels, hops⟩, hreader, hbits⟩ := h
  have hpos : (e.shiftBy b k).pos + sh = e.pos + (k + sh) := Nat.add_assoc ..
  refine ⟨⟨?_, hmodels, hops⟩, ?_, hbits⟩
  · rw [hpos, hregs, shiftBy_shiftBy]
  · rwa [hpos]

theorem CabCtxt.OpsSafe.note (h : c.OpsSafe) (hop : EngineOp.Safe o) : (c.note [o]).OpsSafe := by
  intro op hmem
  cases hmem with
  | head => exact hop
  | tail _ hold => exact h op hold

theorem renorm_scaled (h : Scaled b sh (c, s) e m) (hn : 0 < n) (hn31 : n ≤ 31)
    (hr : e.range * 2 ^ (sh + n) < 2 ^ 31) (ho : e.ofst < e.range) :
    Scaled b (sh + n) (renorm c s n) e m := by
  have hget := bitsGet_eq h.reader (n := n) (by omega)
  have hat := bitsGet_at h.reader (n := n) (by omega)
  have hlt := field_lt b (e.pos + sh) n
  rw [h.bits] at hget
  have hrange : c.u4Range * 2 ^ n = e.range * 2 ^ (sh + n) := by
    rw [h.held.range, Nat.mul_assoc, ← pow_add]
  have hofst : c.u4Ofst * 2 ^ n + field b (e.pos + sh) n =
      e.ofst * 2 ^ (sh + n) + field b e.pos (sh + n) := by
    rw [h.held.ofst, field_add, Nat.add_mul, Nat.mul_assoc, ← pow_add, Nat.add_assoc]
  have hbound := (shiftBy_ofst_lt_iff (b := b) (k := sh + n) e e.range).mpr ho
  change e.ofst * 2 ^ (sh + n) + field b e.pos (sh + n) < e.range * 2 ^ (sh + n) at hbound
  refine ⟨⟨?_, h.held.models, ?_⟩, ?_, bitsGet_bits.trans h.bits⟩
  · simp only [CabCtxt.regs, renorm, CabCtxt.note, hget, Nat.shiftLeft_eq, Registers.shiftBy]
    rw [u32_of_lt (by omega), u32_of_lt (by omega), mul_or hlt, hrange, hofst]
  · have hshlRange : (EngineOp.shl c.u4Range n).Safe := by
      change c.u4Range * 2 ^ n < 2 ^ 32
      omega
    have hshlOfst : (EngineOp.shl c.u4Ofst n).Safe := by
      change c.u4Ofst * 2 ^ n < 2 ^ 32
      omega
    exact ((h.held.ops.note hshlRange).note hshlOfst).note (o := .bitsGet n) ⟨hn, hn31⟩
  · rwa [← Nat.add_assoc]

theorem clz_scaled (hr : 0 < r) (h : r < 512) (hsh : sh ≤ 22) :
    clz (r * 2 ^ sh) = 23 + renormShift r - sh := by
  have hlog := log2_bounds hr h
  have hlo := Nat.mul_le_mul_right (2 ^ sh) (Nat.log2_self_le (Nat.ne_of_gt hr))
  have hhi := Nat.mul_lt_mul_of_pos_right (Nat.lt_log2_self (n := r)) (Nat.two_pow_pos sh)
  rw [← pow_add] at hlo hhi
  rw [clz_eq (n := Nat.log2 r + sh) hlo (by rwa [Nat.add_right_comm]), renormShift]
  omega

theorem scaled_lt (hr : 0 < r) (h : r < 512) (hsh : sh ≤ 22 + renormShift r) :
    r * 2 ^ sh < 2 ^ 31 := by
  have hnormal := renormShift_normal hr h
  have hpow : 2 ^ sh ≤ 2 ^ renormShift r * 2 ^ 22 := by
    rw [← pow_add]
    exact Nat.pow_le_pow_right (by decide) (by omega)
  calc r * 2 ^ sh ≤ r * (2 ^ renormShift r * 2 ^ 22) := Nat.mul_le_mul_left _ hpow
    _ = r * 2 ^ renormShift r * 2 ^ 22 := (Nat.mul_assoc ..).symm
    _ < 2 ^ 31 := by
      have := hnormal.2
      omega

/-- After a renormalisation to the full range, the state is 22 bits ahead. -/
theorem renormFull_scaled (h : Scaled b sh (c, s) e m) (hsh : sh ≤ 22) (hr : 0 < e.range)
    (hlt : e.range < 512) (ho : e.ofst < e.range)
    (hn : clz c.u4Range - (32 - rangeNumbits) = n) :
    Scaled b 22 (if n = 0 then (c, s) else renorm c s n) (e.renorm b 256 8) m := by
  have hrange : c.u4Range = _ := h.held.range
  have hk : renormShift e.range ≤ 8 := Nat.sub_le ..
  have hclz := clz_scaled hr hlt hsh
  rw [← hrange] at hclz
  rw [hclz, rangeNumbits] at hn
  have hsum : sh + n = renormShift e.range + 22 := by omega
  rw [renorm_regs b hr hlt]
  refine Scaled.shift ?_
  rw [← hsum]
  split
  · rename_i hzero
    rwa [hzero]
  · exact renorm_scaled h (by omega) (by omega) (scaled_lt hr hlt (by omega)) ho

/-- The lazy renormalisation of a context-coded bin. -/
theorem renormLazy_scaled (h : Scaled b sh (c, s) e m) (hsh : sh ≤ 22) (hr : 0 < e.range)
    (hlt : e.range < 512) (ho : e.ofst < e.range) :
    ∃ sh' ≤ 22, Scaled b sh'
      (if c.u4Range < 256 then renorm c s (clz c.u4Range - (32 - rangeNumbits)) else (c, s))
      (e.renorm b 256 8) m := by
  cases Nat.lt_or_ge c.u4Range 256 with
  | inl hlow =>
    have hn : clz c.u4Range - (32 - rangeNumbits) ≠ 0 := by
      have hrange : c.u4Range = _ := h.held.range
      have hclz := clz_scaled hr hlt hsh
      rw [← hrange] at hclz
      rw [hclz, rangeNumbits]
      intro hzero
      obtain ⟨hk, rfl⟩ : renormShift e.range = 0 ∧ sh = 22 := by omega
      omega
    have hfull := renormFull_scaled h hsh hr hlt ho rfl
    rw [if_neg hn] at hfull
    rw [if_pos hlow]
    exact ⟨22, le_rfl, hfull⟩
  | inr hhigh =>
    rw [if_neg (Nat.not_lt.mpr hhigh), renorm_regs b hr hlt]
    have hle : renormShift e.range ≤ sh := by
      by_contra hc
      have hleast := renormShift_least hr hlt (Nat.lt_of_not_le hc)
      rw [← h.held.range] at hleast
      exact absurd hleast (Nat.not_lt.mpr hhigh)
    refine ⟨sh - renormShift e.range, by omega, Scaled.shift ?_⟩
    rwa [Nat.add_sub_cancel' hle]

/-- The decoder state follows the plain engine between two decodes. -/
def Follows (b : Nat → Bool) (x : CabCtxt × Bitstrm) (d : Engine) : Prop :=
  d.Ok ∧ ∃ sh ≤ 22, Scaled b sh x d.regs d.models

/-- The quantised range selects the same column of the table. -/
theorem quantised (hr : r < 512) (hsh : sh ≤ 22) :
    (u32 ((r * 2 ^ sh) <<< (22 - sh)) >>> (rangeShift + 6)) &&& 3 = r / 64 % 4 := by
  have hscaled : r * 2 ^ sh * 2 ^ (22 - sh) = r * 2 ^ 22 := by
    rw [Nat.mul_assoc, ← pow_add, Nat.add_sub_cancel' hsh]
  have hmask : ∀ x, x &&& 3 = x % 4 := fun x => Nat.and_two_pow_sub_one_eq_mod x 2
  rw [Nat.shiftLeft_eq, hscaled, u32_of_lt (by omega), hmask, Nat.shiftRight_eq_div_pow]
  simp only [rangeShift, rangeNumbits]
  omega

theorem lps_scaled (hl : l < 512) (hsh : sh ≤ 22) :
    u32 (l <<< (rangeShift - (22 - sh))) = l * 2 ^ sh ∧ l * 2 ^ sh < 2 ^ 32 := by
  have hpow := Nat.pow_le_pow_right (n := 2) (by decide) hsh
  have hlt : l * 2 ^ sh < 2 ^ 32 := by
    have := Nat.mul_le_mul_left l hpow
    omega
  have hshift : rangeShift - (22 - sh) = sh := by
    simp only [rangeShift, rangeNumbits]
    omega
  rw [hshift, Nat.shiftLeft_eq, u32_of_lt hlt]
  exact ⟨rfl, hlt⟩

theorem clz_follows (hok : Normal e.range) (h : Scaled b sh (c, s) e m) (hsh : sh ≤ 22) :
    clz c.u4Range = 23 - sh := by
  have hzero : renormShift e.range = 0 := by
    by_contra hc
    have hleast := renormShift_least (by have := hok.1; omega) hok.2 (Nat.pos_of_ne_zero hc)
    have := hok.1
    omega
  have hrange : c.u4Range = _ := h.held.range
  have hclz := clz_scaled (by have := hok.1; omega) hok.2 hsh
  rw [hrange, hclz, hzero, Nat.add_zero]

/-- Narrowing to one of the two symbols commutes with shifting bits in. -/
theorem narrowBin_held {d : Engine} (h : Held b sh c d.regs d.models)
    (hr : d.regs.range * 2 ^ sh < 2 ^ 31) (hofst : d.regs.ofst < d.regs.range)
    (hl : lpsRange (d.models ctxt) d.regs.range = l) :
    (narrowBin c ctxt ((d.regs.range - l) * 2 ^ sh) (l * 2 ^ sh)).1 = (d.narrowBin ctxt).1 ∧
      Held b sh (narrowBin c ctxt ((d.regs.range - l) * 2 ^ sh) (l * 2 ^ sh)).2
        (d.narrowBin ctxt).2.regs (d.narrowBin ctxt).2.models := by
  have hiff := h.ofst_lt_iff (d.regs.range - l)
  have hbit : d.models ctxt &&& 1 = d.models ctxt % 2 := Nat.and_one_is_mod _
  have hlt2 : d.models ctxt % 2 < 2 := Nat.mod_lt _ (by decide)
  cases Nat.lt_or_ge d.regs.ofst (d.regs.range - l) with
  | inl hlt =>
    rw [narrowBin_mps (hl ▸ hlt), narrowBin, if_neg (Nat.not_le.mpr (hiff.mpr hlt)), h.models, hbit]
    dsimp only
    rw [nextModel_eq hlt2, hl]
    exact ⟨rfl, congrArg (fun r => { r with range := (d.regs.range - l) * 2 ^ sh }) h.regs, rfl,
      h.ops⟩
  | inr hge =>
    have hle : (d.regs.range - l) * 2 ^ sh ≤ c.u4Ofst := Nat.not_lt.mp (mt hiff.mp (by omega))
    have hclt := (h.ofst_lt_iff d.regs.range).mpr hofst
    have hmul := Nat.mul_le_mul_right (2 ^ sh) hge
    have hsub : u32Sub c.u4Ofst ((d.regs.range - l) * 2 ^ sh) =
        (d.regs.ofst - (d.regs.range - l)) * 2 ^ sh + field b d.regs.pos sh := by
      rw [u32Sub_of_le hle (by omega), h.ofst, Nat.sub_mul d.regs.ofst]
      omega
    rw [narrowBin_lps (hl ▸ hge), narrowBin, if_pos hle, h.models, hbit]
    dsimp only
    rw [nextModel_eq (by omega), hl, hsub]
    exact ⟨rfl, rfl, rfl, h.ops⟩

theorem decodeBin_follows (h : Follows b (c, s) d) (hctxt : ctxt < ihevcCabCtxtEnd) :
    (ihevcdCabacDecodeBin c s ctxt).1 = (d.decodeBin b ctxt).1 ∧
      Follows b (ihevcdCabacDecodeBin c s ctxt).2 (d.decodeBin b ctxt).2 := by
  obtain ⟨hok, sh, hsh, hscaled⟩ := h
  have hnarrowed := hok.narrowBin hctxt
  obtain ⟨⟨hlow, hhigh⟩, hofst, hmodels⟩ := hok
  obtain ⟨h6, hle⟩ := lpsRange_bounds (hmodels ctxt hctxt) ⟨hlow, hhigh⟩
  have hmodel : c.au1CtxtModels ctxt = d.models ctxt := congrFun hscaled.held.models ctxt
  have hrange : c.u4Range = _ := hscaled.held.range
  have hclz := clz_follows ⟨hlow, hhigh⟩ hscaled hsh
  have hahead : 23 - sh - (32 - rangeNumbits) = 22 - sh := by
    rw [rangeNumbits]
    omega
  have hqnt := quantised hhigh hsh
  rw [← hrange] at hqnt
  generalize hl : lpsRange (d.models ctxt) d.regs.range = l at h6 hle
  obtain ⟨hlps, hlpslt⟩ := lps_scaled (l := l) (by omega) hsh
  have hlpsdef : gau1IhevcCabacRlps (d.models ctxt >>> 1) (d.regs.range / 64 % 4) = l := hl
  have hrlt : d.regs.range * 2 ^ sh < 2 ^ 31 := scaled_lt (by omega) hhigh (by omega)
  have hmul := Nat.mul_le_mul_right (2 ^ sh) (show l ≤ d.regs.range by omega)
  have hsub : u32Sub c.u4Range (l * 2 ^ sh) = (d.regs.range - l) * 2 ^ sh := by
    rw [hrange, u32Sub_of_le hmul (by omega), Nat.sub_mul]
  have hnoted : Held b sh (c.note [.shl c.u4Range (22 - sh), .shl l (rangeShift - (22 - sh))])
      d.regs d.models := by
    have hshlRange : (EngineOp.shl c.u4Range (22 - sh)).Safe := by
      change c.u4Range * 2 ^ (22 - sh) < 2 ^ 32
      rw [hrange, Nat.mul_assoc, ← pow_add, Nat.add_sub_cancel' hsh]
      omega
    have hshlLps : (EngineOp.shl l (rangeShift - (22 - sh))).Safe := by
      change l * 2 ^ (22 - (22 - sh)) < 2 ^ 32
      rwa [Nat.sub_sub_self hsh]
    exact ⟨hscaled.held.regs, hscaled.held.models,
      (hscaled.held.ops.note hshlLps).note hshlRange⟩
  obtain ⟨hbin, hheld⟩ := narrowBin_held hnoted hrlt hofst hl
  have hpos : (d.narrowBin ctxt).2.regs.pos = d.regs.pos := narrowBin_pos
  have hlazy := renormLazy_scaled ⟨hheld, hpos ▸ hscaled.reader, hscaled.bits⟩ hsh hnarrowed.pos
    hnarrowed.lt hnarrowed.ofst
  rw [ihevcdCabacDecodeBin, hclz, hahead, hmodel, hqnt, hlpsdef, hlps, hsub]
  exact ⟨hbin, hnarrowed.renorm, hlazy⟩

theorem bypassBit_one (h : c.u4Range ≤ u32 (c.u4Ofst <<< 1) ||| bit) :
    bypassBit c bit = (1, { c.note [.shl c.u4Ofst 1] with
      u4Ofst := u32Sub (u32 (c.u4Ofst <<< 1) ||| bit) c.u4Range }) := if_pos h

theorem bypassBit_zero (h : u32 (c.u4Ofst <<< 1) ||| bit < c.u4Range) :
    bypassBit c bit =
      (0, { c.note [.shl c.u4Ofst 1] with u4Ofst := u32 (c.u4Ofst <<< 1) ||| bit }) :=
  if_neg (Nat.not_le.mpr h)

theorem Held.note (h : Held b sh c e m) (hop : EngineOp.Safe o) : Held b sh (c.note [o]) e m :=
  ⟨h.regs, h.models, h.ops.note hop⟩

/-- One bypass bin, given the next bit of the stream. -/
theorem bypassBit_held {d : Engine} (h : Held b sh c d.regs d.models)
    (hr : d.regs.range * 2 ^ sh < 2 ^ 31) (ho : d.regs.ofst < d.regs.range)
    (hbit : bit = (b (d.regs.pos + sh)).toNat) :
    (bypassBit c bit).1 = (d.decodeBypass b).1 ∧
      Held b sh (bypassBit c bit).2 (d.decodeBypass b).2.regs (d.decodeBypass b).2.models := by
  have hrange := h.range
  have hofst := h.ofst
  have hclt := (h.ofst_lt_iff d.regs.range).mpr ho
  have hbit2 : bit < 2 := hbit ▸ Bool.toNat_lt _
  have hsafe : (EngineOp.shl c.u4Ofst 1).Safe := by
    change c.u4Ofst * 2 ^ 1 < 2 ^ 32
    omega
  -- the bit read is the last one ahead; the first one ahead is the plain engine's next bit
  have hnext : u32 (c.u4Ofst <<< 1) ||| bit =
      (2 * d.regs.ofst + (b d.regs.pos).toNat) * 2 ^ sh + field b (d.regs.pos + 1) sh := by
    have hfield : 2 * field b d.regs.pos sh + bit =
        (b d.regs.pos).toNat * 2 ^ sh + field b (d.regs.pos + 1) sh := by
      rw [hbit, ← field_succ, field_succ_left]
    have horder : (2 * d.regs.ofst + (b d.regs.pos).toNat) * 2 ^ sh =
        2 * (d.regs.ofst * 2 ^ sh) + (b d.regs.pos).toNat * 2 ^ sh := by
      rw [Nat.add_mul, Nat.mul_assoc]
    rw [Nat.shiftLeft_eq, u32_of_lt (by omega), mul_or (k := 1) hbit2]
    omega
  have hlt_iff (r : Nat) : u32 (c.u4Ofst <<< 1) ||| bit < r * 2 ^ sh ↔
      2 * d.regs.ofst + (b d.regs.pos).toNat < r := by
    rw [hnext]
    exact shiftBy_ofst_lt_iff
      { range := 0, ofst := 2 * d.regs.ofst + (b d.regs.pos).toNat, pos := d.regs.pos + 1 } _
  have hiff := hlt_iff d.regs.range
  rw [← hrange] at hiff
  cases Nat.lt_or_ge (2 * d.regs.ofst + (b d.regs.pos).toNat) d.regs.range with
  | inl hlt =>
    rw [decodeBypass_zero hlt, bypassBit_zero (hiff.mpr hlt), hnext]
    exact ⟨rfl, .of_eq hrange rfl h.models (h.ops.note hsafe)⟩
  | inr hge =>
    have hmul := Nat.mul_le_mul_right (2 ^ sh) hge
    have hhead := Bool.toNat_lt (b d.regs.pos)
    have hbound := (hlt_iff (2 * d.regs.range)).mpr (by omega)
    rw [hnext, Nat.mul_assoc] at hbound
    have hge' : c.u4Range ≤ u32 (c.u4Ofst <<< 1) ||| bit := Nat.not_lt.mp (mt hiff.mp (by omega))
    have hsub : u32Sub ((2 * d.regs.ofst + (b d.regs.pos).toNat) * 2 ^ sh +
        field b (d.regs.pos + 1) sh) c.u4Range =
        (2 * d.regs.ofst + (b d.regs.pos).toNat - d.regs.range) * 2 ^ sh +
          field b (d.regs.pos + 1) sh := by
      rw [hrange, u32Sub_of_le (by omega) (by omega), Nat.sub_mul]
      omega
    rw [decodeBypass_one hge, bypassBit_one hge', hnext]
    exact ⟨rfl, .of_eq hrange hsub h.models (h.ops.note hsafe)⟩

theorem range_lt {d : Engine} (hok : d.Ok) (hsh : sh ≤ 22) : d.regs.range * 2 ^ sh < 2 ^ 31 :=
  scaled_lt (by have := hok.range.1; omega) hok.range.2 (by omega)

theorem decodeBypass_pos {d : Engine} : (d.decodeBypass b).2.regs.pos = d.regs.pos + 1 := by
  unfold Engine.decodeBypass
  dsimp only
  split <;> rfl

theorem decodeBypass_lt {d : Engine} : (d.decodeBypass b).1 < 2 := by
  unfold Engine.decodeBypass
  dsimp only
  split <;> simp

theorem decodeBypassBins_pos {d : Engine} :
    (d.decodeBypassBins b n).2.regs.pos = d.regs.pos + n := by
  induction n with
  | zero => rfl
  | succ n ih => rw [Engine.decodeBypassBins, decodeBypass_pos, ih, Nat.add_assoc]

theorem decodeBypass_follows (h : Follows b (c, s) d) :
    (ihevcdCabacDecodeBypassBin c s).1 = (d.decodeBypass b).1 ∧
      Follows b (ihevcdCabacDecodeBypassBin c s).2 (d.decodeBypass b).2 := by
  obtain ⟨hok, sh, hsh, hheld, hreader, hbits⟩ := h
  have hget := bitsGet_eq hreader (n := 1) (by decide)
  have hat := bitsGet_at hreader (n := 1) (by decide)
  rw [hbits, field_one] at hget
  have hnoted := hheld.note (o := .bitsGet 1) ⟨le_rfl, by decide⟩
  obtain ⟨hbin, hheld'⟩ := bypassBit_held hnoted (range_lt hok hsh) hok.ofst hget
  rw [ihevcdCabacDecodeBypassBin, bitGet_eq hreader]
  refine ⟨hbin, hok.decodeBypass, sh, hsh, hheld', ?_, bitsGet_bits.trans hbits⟩
  rwa [decodeBypass_pos, Nat.add_right_comm]

/-- The loop over the bits of a group, read at once. -/
theorem bypassLoop_held {d : Engine} (bins : Nat) (h : Held b sh c d.regs d.models) (hok : d.Ok)
    (hsh : sh ≤ 22) (hbits : bits % 2 ^ n = field b (d.regs.pos + sh) n)
    (hbins : (bins + 1) * 2 ^ n ≤ 2 ^ 31) :
    (bypassLoop bits n bins c).1 = bins * 2 ^ n + (d.decodeBypassBins b n).1 ∧
      Held b sh (bypassLoop bits n bins c).2 (d.decodeBypassBins b n).2.regs
        (d.decodeBypassBins b n).2.models := by
  induction n generalizing c d bins with
  | zero => exact ⟨by simp [bypassLoop, Engine.decodeBypassBins], h⟩
  | succ n ih =>
    have hbit : (bits >>> n) &&& 1 = (b (d.regs.pos + sh)).toNat := by
      have hdiv := field_div b (d.regs.pos + sh) 1 n
      rw [Nat.add_comm 1 n, ← hbits, field_one] at hdiv
      rw [Nat.and_one_is_mod, Nat.shiftRight_eq_div_pow, ← hdiv, pow_succ,
        Nat.mod_mul_right_div_self]
    obtain ⟨hbin, hheld⟩ := bypassBit_held h (range_lt hok hsh) hok.ofst hbit
    have hlow : bits % 2 ^ n = field b ((d.decodeBypass b).2.regs.pos + sh) n := by
      have hmod := field_mod b (d.regs.pos + sh) 1 n
      rw [Nat.add_comm 1 n, ← hbits, pow_succ, Nat.mod_mul_right_mod] at hmod
      rw [hmod, decodeBypass_pos, Nat.add_right_comm]
    have hbinlt : (d.decodeBypass b).1 < 2 := decodeBypass_lt
    have hmul : (bins + 1) * 2 ^ (n + 1) = 2 * bins * 2 ^ n + 2 * 2 ^ n := by ring
    have hpow := Nat.two_pow_pos n
    have hstep : (2 * bins + (d.decodeBypass b).1 + 1) * 2 ^ n ≤ 2 ^ 31 := by
      have := Nat.mul_le_mul_right (2 ^ n) (show (d.decodeBypass b).1 + 1 ≤ 2 by omega)
      rw [Nat.add_assoc, Nat.add_mul]
      omega
    have hsmall : 2 * bins ≤ 2 * bins * 2 ^ n := Nat.le_mul_of_pos_right _ hpow
    have hdouble : u32 (bins <<< 1) = 2 * bins := by
      rw [Nat.shiftLeft_eq, u32_of_lt (by omega)]
      ring
    have hsafe : (EngineOp.shl bins 1).Safe := by
      change bins * 2 ^ 1 < 2 ^ 32
      omega
    obtain ⟨hval, hheld'⟩ := ih _ (hheld.note hsafe) hok.decodeBypass hlow hstep
    rw [bypassLoop, hdouble, hbin, decodeBypassBins_succ']
    refine ⟨?_, hheld'⟩
    rw [hval]
    dsimp only
    ring

theorem decodeBypassBins_follows (h : Follows b (c, s) d) (hn : 0 < n) (hn16 : n < 17) :
    (ihevcdCabacDecodeBypassBins c s n).1 = (d.decodeBypassBins b n).1 ∧
      Follows b (ihevcdCabacDecodeBypassBins c s n).2 (d.decodeBypassBins b n).2 := by
  obtain ⟨hok, sh, hsh, hheld, hreader, hbits⟩ := h
  have hget := bitsGet_eq hreader (n := n) (by omega)
  have hat := bitsGet_at hreader (n := n) (by omega)
  rw [hbits] at hget
  have hnoted := hheld.note (o := .bitsGet n) ⟨hn, by omega⟩
  have hpow := Nat.pow_le_pow_right (n := 2) (by decide) (show n ≤ 31 by omega)
  have hmod : (ihevcdBitsGet s n).1 % 2 ^ n = field b (d.regs.pos + sh) n := by
    rw [hget, Nat.mod_eq_of_lt (field_lt ..)]
  obtain ⟨hbins, hheld'⟩ := bypassLoop_held 0 hnoted hok hsh hmod
    (by rwa [Nat.zero_add, Nat.one_mul])
  rw [Nat.zero_mul, Nat.zero_add] at hbins
  refine ⟨hbins, hok.decodeBypassBins, sh, hsh, hheld', ?_, bitsGet_bits.trans hbits⟩
  rwa [decodeBypassBins_pos, Nat.add_right_comm]

/-- After a terminating bin of 1 the reader is back where the plain engine stands. -/
def Stopped (b : Nat → Bool) (x : CabCtxt × Bitstrm) (d : Engine) : Prop :=
  x.2.At d.regs.pos ∧ x.2.bits = b ∧ x.1.au1CtxtModels = d.models ∧ x.1.OpsSafe

theorem decodeTerminate_follows (h : Follows b (c, s) d) :
    (ihevcdCabacDecodeTerminate c s).1 = (d.decodeTerminate b).1 ∧
      ((d.decodeTerminate b).1 ≠ 1 →
        Follows b (ihevcdCabacDecodeTerminate c s).2 (d.decodeTerminate b).2) ∧
      ((d.decodeTerminate b).1 = 1 →
        Stopped b (ihevcdCabacDecodeTerminate c s).2 (d.decodeTerminate b).2) := by
  obtain ⟨hok, sh, hsh, hscaled⟩ := h
  have hhold := hok.decodeTerminate (b := b)
  obtain ⟨⟨hlow, hhigh⟩, hofst, hmodels⟩ := hok
  have hrange : c.u4Range = _ := hscaled.held.range
  have hclz := clz_follows ⟨hlow, hhigh⟩ hscaled hsh
  have hahead : 23 - sh - (32 - rangeNumbits) = 22 - sh := by
    rw [rangeNumbits]
    omega
  obtain ⟨htwo, htwolt⟩ := lps_scaled (l := 2) (by decide) hsh
  have hrlt : d.regs.range * 2 ^ sh < 2 ^ 31 := scaled_lt (by omega) hhigh (by omega)
  have hmul := Nat.mul_le_mul_right (2 ^ sh) (show 2 ≤ d.regs.range by omega)
  have hsub : u32Sub c.u4Range (2 * 2 ^ sh) = (d.regs.range - 2) * 2 ^ sh := by
    rw [hrange, u32Sub_of_le hmul (by omega), Nat.sub_mul]
  have hsafe : (EngineOp.shl 2 (rangeShift - (22 - sh))).Safe := by
    change 2 * 2 ^ (22 - (22 - sh)) < 2 ^ 32
    rwa [Nat.sub_sub_self hsh]
  have hnoted := hscaled.held.note hsafe
  have hiff : c.u4Ofst < (d.regs.range - 2) * 2 ^ sh ↔ d.regs.ofst < d.regs.range - 2 :=
    hnoted.ofst_lt_iff _
  rw [ihevcdCabacDecodeTerminate, hclz, hahead, htwo, hsub]
  cases Nat.lt_or_ge d.regs.ofst (d.regs.range - 2) with
  | inl hlt =>
    rw [decodeTerminate_zero hlt] at hhold ⊢
    rw [if_neg (Nat.not_le.mpr (hiff.mpr hlt))]
    refine ⟨rfl, fun hgo => ⟨hhold hgo, 22, le_rfl, ?_⟩, fun hstop => nomatch hstop⟩
    have hnarrow : Scaled b sh
        ({ c.note [.shl 2 (rangeShift - (22 - sh))] with u4Range := (d.regs.range - 2) * 2 ^ sh }, s)
        { d.regs with range := d.regs.range - 2 } d.models :=
      ⟨.of_eq rfl hnoted.ofst hnoted.models hnoted.ops, hscaled.reader, hscaled.bits⟩
    exact renormFull_scaled hnarrow hsh (by dsimp only; omega) (by dsimp only; omega) hlt rfl
  | inr hge =>
    have hback : (32 : Int) - ((23 - sh : Nat) : Int) - 9 = (sh : Int) := by omega
    rw [decodeTerminate_one hge, if_pos (Nat.not_lt.mp (mt hiff.mp (by omega)))]
    dsimp only
    rw [hback]
    exact ⟨rfl, fun hgo => absurd rfl hgo, fun _ => ⟨bitsSeek_at hscaled.reader (by omega),
      bitsSeek_bits.trans hscaled.bits, hnoted.models, hnoted.ops⟩⟩

end

-- ---------------------------------------------------------------------------
-- Whole runs
-- ---------------------------------------------------------------------------

def cabacDecode (x : CabCtxt × Bitstrm) : CabacOp → Nat × CabCtxt × Bitstrm
  | .bin ctxtIndex => ihevcdCabacDecodeBin x.1 x.2 ctxtIndex
  | .bypass => ihevcdCabacDecodeBypassBin x.1 x.2
  | .bypassBins numbins => ihevcdCabacDecodeBypassBins x.1 x.2 numbins
  | .terminate => ihevcdCabacDecodeTerminate x.1 x.2

/-- Decodes from a state on, up to the first terminating bin of 1. -/
def cabacRun (x : CabCtxt × Bitstrm) (ops : List CabacOp) : Outcome (CabCtxt × Bitstrm) Nat :=
  Transducer.run cabacDecode CabacOp.stops x ops

theorem cabacDecode_simulates (b : Nat → Bool) :
    Simulates cabacDecode (Engine.decode b) CabacOp.stops CabacOp.Ok (Follows b) (Stopped b) where
  output := by
    rintro ⟨c, s⟩ d op hop h
    cases op with
    | bin ctxt => exact (decodeBin_follows h hop).1
    | bypass => exact (decodeBypass_follows h).1
    | bypassBins n => exact (decodeBypassBins_follows h hop.1 hop.2).1
    | terminate => exact (decodeTerminate_follows h).1
  go := by
    rintro ⟨c, s⟩ d op hop h hgo
    cases op with
    | bin ctxt => exact (decodeBin_follows h hop).2
    | bypass => exact (decodeBypass_follows h).2
    | bypassBins n => exact (decodeBypassBins_follows h hop.1 hop.2).2
    | terminate =>
      obtain ⟨hbin, hfollows, -⟩ := decodeTerminate_follows h
      exact hfollows (by simpa [CabacOp.stops, cabacDecode, hbin] using hgo)
  stop := by
    rintro ⟨c, s⟩ d op hop h hstop
    cases op with
    | terminate =>
      obtain ⟨hbin, -, hstopped⟩ := decodeTerminate_follows h
      exact hstopped (by simpa [CabacOp.stops, cabacDecode, hbin] using hstop)
    | _ => contradiction

/-- The initialisation accepts an offset of 9 bits below the range. -/
theorem cabacInit_success (h : Bitstrm.At s p) (hlt : field s.bits p 9 < 510) :
    (ihevcdCabacInit s models).1 = .success := by
  have hget := bitsGet_eq h (n := 31) (by decide)
  have hofst : field s.bits p 31 = _ := field_add s.bits p 9 22
  have hrange : u32 (510 <<< rangeShift) = 510 * 2 ^ 22 := by decide
  have hfield := field_lt s.bits (p + 9) 22
  refine if_neg ?_
  change ¬u32 (510 <<< rangeShift) ≤ (ihevcdBitsGet s 31).1
  rw [hrange, hget, hofst]
  omega

theorem cabacInit_follows (h : Bitstrm.At s p) (hm : ModelsOk models)
    (hinit : (ihevcdCabacInit s models).1 = .success) :
    Follows s.bits (ihevcdCabacInit s models).2 (Engine.init s.bits p models) := by
  have hget := bitsGet_eq h (n := 31) (by decide)
  have hat := bitsGet_at h (n := 31) (by decide)
  have hofst : field s.bits p 31 = _ := field_add s.bits p 9 22
  have hrange : u32 (510 <<< rangeShift) = 510 * 2 ^ 22 := by decide
  have hlt : (ihevcdBitsGet s 31).1 < 510 * 2 ^ 22 := by
    by_contra hc
    have hfail : (ihevcdCabacInit s models).1 = .fail :=
      if_pos (hrange ▸ Nat.not_lt.mp hc)
    rw [hinit] at hfail
    contradiction
  rw [hget] at hlt
  have hheld : Held s.bits 22 (ihevcdCabacInit s models).2.1
      { range := 510, ofst := field s.bits p 9, pos := p + 9 } models := by
    refine .of_eq hrange (hget.trans hofst) rfl ?_
    intro op hop
    cases hop with
    | head => exact ⟨by decide, by decide⟩
    | tail _ hop =>
      cases hop with
      | head => exact (by decide : 510 * 2 ^ 22 < 2 ^ 32)
      | tail _ hop => nomatch hop
  refine ⟨⟨⟨?_, ?_⟩, ?_, hm⟩, 22, le_rfl, hheld, ?_, bitsGet_bits⟩
  · exact (by decide : 256 ≤ 510)
  · exact (by decide : 510 < 512)
  · change field s.bits p 9 < 510
    omega
  · change (ihevcdBitsGet s 31).2.At (p + 9 + 22)
    rwa [Nat.add_assoc]

/-- Every run of the full-range engine that the initialisation accepts is a run of the plain
engine: the same bins, the same models, registers scaled by at most `2 ^ 22`, and the same
position after a terminating bin of 1. -/
theorem cabacRun_refines (h : Bitstrm.At s p) (hm : ModelsOk models)
    (hinit : (ihevcdCabacInit s models).1 = .success) (hops : ∀ op ∈ ops, CabacOp.Ok op) :
    let full := cabacRun (ihevcdCabacInit s models).2 ops
    let plain := (Engine.init s.bits p models).run s.bits ops
    full.outputs = plain.outputs ∧ full.stopped = plain.stopped ∧
      full.state.1.au1CtxtModels = plain.state.models ∧ full.state.1.OpsSafe ∧
      (full.stopped = false →
        256 ≤ full.state.1.u4Range ∧ full.state.1.u4Range < 2 ^ 31 ∧
          full.state.1.u4Ofst < full.state.1.u4Range ∧
          ∃ sh ≤ 22, full.state.1.u4Range = plain.state.regs.range * 2 ^ sh) ∧
      (full.stopped = true → full.state.2.At plain.state.regs.pos) := by
  intro full plain
  obtain ⟨houts, hstopped, hgo, hstop⟩ :=
    (cabacDecode_simulates s.bits).run hops (cabacInit_follows h hm hinit)
  change full.outputs = plain.outputs at houts
  change full.stopped = plain.stopped at hstopped
  change full.stopped = false → Follows s.bits full.state plain.state at hgo
  change full.stopped = true → Stopped s.bits full.state plain.state at hstop
  cases hcase : full.stopped with
  | false =>
    obtain ⟨hok, sh, hsh, hheld, -, -⟩ := hgo hcase
    have hrange := hheld.range
    have hpow := Nat.two_pow_pos sh
    have hlow : 256 ≤ plain.state.regs.range * 2 ^ sh :=
      Nat.le_trans hok.range.1 (Nat.le_mul_of_pos_right _ hpow)
    have hofst := (hheld.ofst_lt_iff _).mpr hok.ofst
    rw [← hrange] at hlow hofst
    refine ⟨houts, hcase ▸ hstopped, hheld.models, hheld.ops, fun _ => ⟨hlow, ?_, hofst, sh, hsh,
      hrange⟩, fun hstop => nomatch hstop⟩
    rw [hrange]
    exact range_lt hok hsh
  | true =>
    obtain ⟨hat, -, hmodels, hops'⟩ := hstop hcase
    exact ⟨houts, hcase ▸ hstopped, hmodels, hops', fun hgo => (nomatch hgo), fun _ => hat⟩

/-- A stream of zero bits is accepted. -/
theorem cabacRun_refines_zeros :
    let s := ihevcdBitsInit (fun _ => 0) 16
    let full := cabacRun (ihevcdCabacInit s fun _ => 0).2 [.bin 5, .bypassBins 3, .terminate]
    let plain := (Engine.init s.bits 0 fun _ => 0).run s.bits [.bin 5, .bypassBins 3, .terminate]
    full.outputs = plain.outputs ∧ full.stopped = plain.stopped :=
  have h := cabacRun_refines (bitsInit_at (fun _ => by decide))
    (show ModelsOk fun _ => 0 from fun _ _ => Nat.zero_lt_succ 125) (by decide +kernel)
    (show ∀ op ∈ [CabacOp.bin 5, .bypassBins 3, .terminate], op.Ok by
      simp [CabacOp.Ok, ihevcCabCtxtEnd])
  ⟨h.1, h.2.1⟩

/-- From an offset of 511 the registers part: a context-coded bin and nine bypass bins of a stream
of ten ones and zeros, whose initialisation fails. -/
theorem cabacRun_parts_at_511 :
    let s := ihevcdBitsInit (fun i => if i = 0 then 255 else if i = 1 then 192 else 0) 16
    let ops : List CabacOp := .bin 0 :: List.replicate 9 .bypass
    s.At 0 ∧ (∀ op ∈ ops, op.Ok) ∧
      (cabacRun (ihevcdCabacInit s fun _ => 0).2 ops).outputs = [1, 1, 1, 1, 1, 1, 1, 1, 1, 0] ∧
      ((Engine.init s.bits 0 fun _ => 0).run s.bits ops).outputs =
        [1, 1, 1, 1, 1, 1, 1, 1, 1, 1] := by
  refine ⟨bitsInit_at fun i => ?_, ?_, by decide +kernel, by decide +kernel⟩
  · split
    · decide
    · split <;> decide
  · simp [List.replicate, CabacOp.Ok, ihevcCabCtxtEnd]

end Libhevc.Decoder
