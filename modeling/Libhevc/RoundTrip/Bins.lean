import Libhevc.Decoder.Bins
import Libhevc.Encoder.Bins
import Mathlib.Data.Nat.Bitwise
import Mathlib.Tactic.Ring

/-!
# Binarizations round trip

Each symbol that the encoder makes bins of is what the decoder takes from them.
-/

namespace Libhevc.RoundTrip

open Reader Encoder Decoder

theorem decodeBin_reads (i : Nat) (b : Bool) :
    Reads (decodeBin i : BinReader ρ Bool) [.ctxt i b] b := fun _ => if_pos rfl

theorem decodeBypassBin_reads (b : Bool) :
    Reads (decodeBypassBin : BinReader ρ Bool) [.bypass b] b := fun _ => rfl

-- ---------------------------------------------------------------------------
-- Bypass bins
-- ---------------------------------------------------------------------------

theorem bypassBins_succ (v n : Nat) :
    (bypassBins v (n + 1) : List (Bin ρ)) = [.bypass (v.testBit n)] ++ bypassBins v n := by
  simp only [bypassBins, List.range_succ_eq_map, List.map_cons, List.map_map,
    Nat.add_sub_cancel, Nat.sub_zero, List.singleton_append, List.cons.injEq, true_and]
  refine List.map_congr_left fun i _ => ?_
  simp only [Function.comp_apply, Nat.succ_eq_add_one, Nat.sub_sub, Nat.add_comm 1 i]

theorem bypassBins_reads (v n u : Nat) :
    Reads (decodeBypassBins n u : BinReader ρ Nat) (bypassBins v n) (u * 2 ^ n + v % 2 ^ n) := by
  induction n generalizing u with
  | zero =>
    rw [Nat.pow_zero, Nat.mul_one, Nat.mod_one]
    exact Reads.pure u
  | succ n ih =>
    have hvalue : (2 * u + (v.testBit n).toNat) * 2 ^ n + v % 2 ^ n =
        u * 2 ^ (n + 1) + v % 2 ^ (n + 1) := by
      rw [Nat.mod_pow_succ, Nat.toNat_testBit]
      ring
    rw [bypassBins_succ, ← hvalue]
    exact (decodeBypassBin_reads _).bind (ih _)

theorem bypassBins_reads_lt (h : v < 2 ^ n) :
    Reads (decodeBypassBins n 0 : BinReader ρ Nat) (bypassBins v n) v := by
  have hreads := bypassBins_reads (ρ := ρ) v n 0
  rwa [Nat.zero_mul, Nat.zero_add, Nat.mod_eq_of_lt h] at hreads

/-- Only ones. -/
theorem bypassBins_ones (n : Nat) :
    (bypassBins (2 ^ n - 1) n : List (Bin ρ)) = List.replicate n (.bypass true) := by
  rw [List.eq_replicate_iff]
  refine ⟨by simp [bypassBins], fun b hb => ?_⟩
  obtain ⟨i, hi, rfl⟩ := List.mem_map.mp hb
  have hlt := List.mem_range.mp hi
  rw [Nat.testBit_two_pow_sub_one, decide_eq_true (by omega)]

-- ---------------------------------------------------------------------------
-- Truncated unary codes
-- ---------------------------------------------------------------------------

section
variable {decode : Nat → BinReader ρ Bool}

theorem tunaryLoop_reads (put : Nat → Bool → Bin ρ) (s : Nat) (h : ∀ i b, Reads (decode i) [put i b] b) (hmn : m ≤ n) :
    Reads (tunaryLoop decode n s)
      ((List.range m).map (fun i => put (s + i) true) ++ if m < n then [put (s + m) false] else [])
      (s + m) := by
  induction n generalizing m s with
  | zero =>
    obtain rfl := Nat.le_zero.mp hmn
    exact Reads.pure s
  | succ n ih =>
    cases m with
    | zero => exact (h s false).bind_nil (Reads.pure s)
    | succ m =>
      have hrest := ih (s + 1) (Nat.le_of_succ_le_succ hmn)
      rw [Nat.add_assoc, Nat.add_comm 1 m] at hrest
      simp only [Nat.add_lt_add_iff_right]
      have hshift : (List.range m).map ((fun i => put (s + i) true) ∘ Nat.succ) =
          (List.range m).map fun i => put (s + 1 + i) true :=
        List.map_congr_left fun i _ => by
          rw [Function.comp_apply, Nat.succ_eq_add_one, Nat.add_right_comm, Nat.add_assoc]
      rw [List.range_succ_eq_map, List.map_cons, List.map_map, hshift]
      exact (h s true).bind hrest

end

theorem tunary_reads (ctxtIndex ctxtShift ctxtIncMax : Nat) (h : sym ≤ cMax) :
    Reads (ihevcdCabacDecodeBinsTunary cMax ctxtIndex ctxtShift ctxtIncMax : BinReader ρ Nat)
      (ihevceCabacEncodeTunary sym cMax ctxtIndex ctxtShift ctxtIncMax) sym := by
  have hreads := tunaryLoop_reads (ρ := ρ)
    (fun i => .ctxt (ctxtIndex + min (i >>> ctxtShift) ctxtIncMax)) 0
    (fun i b => decodeBin_reads (ctxtIndex + min (i >>> ctxtShift) ctxtIncMax) b) h
  simp only [Nat.zero_add] at hreads
  exact hreads

theorem bypassBins_unary (n : Nat) :
    (bypassBins (2 ^ (n + 1) - 2) (n + 1) : List (Bin ρ)) =
      List.replicate n (.bypass true) ++ [.bypass false] := by
  have hdouble : 2 ^ (n + 1) - 2 = 2 * (2 ^ n - 1) := by
    rw [Nat.pow_succ, Nat.mul_sub, Nat.mul_comm]
  have hbits : (bypassBins (2 ^ (n + 1) - 2) (n + 1) : List (Bin ρ)) =
      bypassBins (2 ^ n - 1) n ++ [.bypass false] := by
    simp only [bypassBins, List.range_succ, List.map_append, List.map_cons, List.map_nil,
      Nat.add_sub_cancel, Nat.sub_self]
    congr 1
    · refine List.map_congr_left fun i hi => ?_
      have hlt := List.mem_range.mp hi
      rw [hdouble, show n - i = n - 1 - i + 1 by omega, Nat.testBit_succ,
        Nat.mul_div_cancel_left _ Nat.zero_lt_two]
    · rw [hdouble, Nat.testBit_zero, Nat.mul_mod_right]
      rfl
  rw [hbits, bypassBins_ones]

theorem tunaryBypass_reads (h : sym ≤ cMax) :
    Reads (ihevcdCabacDecodeBypassBinsTunary cMax : BinReader ρ Nat)
      (ihevceCabacEncodeTunaryBypass sym cMax) sym := by
  have hreads := tunaryLoop_reads (ρ := ρ) (fun _ => .bypass) 0 (fun _ b => decodeBypassBin_reads b) h
  have hones : (List.range sym).map (fun _ => (.bypass true : Bin ρ)) =
      List.replicate sym (.bypass true) := by
    rw [List.map_const', List.length_range]
  rw [hones, Nat.zero_add] at hreads
  unfold ihevceCabacEncodeTunaryBypass
  by_cases hlt : sym < cMax
  · rw [if_pos hlt] at hreads
    rw [if_pos hlt, bypassBins_unary]
    exact hreads
  · rw [if_neg hlt, List.append_nil] at hreads
    rw [if_neg hlt, bypassBins_ones]
    exact hreads

-- ---------------------------------------------------------------------------
-- Exponential Golomb codes
-- ---------------------------------------------------------------------------

theorem bypassBins_append (v w n m : Nat) (hw : w < 2 ^ m) :
    (bypassBins (2 ^ m * v + w) (n + m) : List (Bin ρ)) = bypassBins v n ++ bypassBins w m := by
  simp only [bypassBins, List.range_add, List.map_append, List.map_map]
  congr 1
  · refine List.map_congr_left fun i hi => ?_
    have hlt := List.mem_range.mp hi
    have hindex : n + m - 1 - i - m = n - 1 - i := by omega
    rw [Nat.testBit_two_pow_mul_add v hw, if_neg (by omega), hindex]
  · refine List.map_congr_left fun i hi => ?_
    have hlt := List.mem_range.mp hi
    have hindex : n + m - 1 - (n + i) = m - 1 - i := by omega
    rw [Function.comp_apply, Nat.testBit_two_pow_mul_add v hw, if_pos (by omega), hindex]

theorem egkOnes_reads (c s : Nat) (h : m < n) :
    Reads (egkOnes n c s : BinReader ρ (Nat × Nat))
      (List.replicate m (.bypass true) ++ [.bypass false])
      (c + m + 1, s + (2 ^ (c + m) - 2 ^ c)) := by
  induction m generalizing n c s with
  | zero =>
    cases n with
    | zero => exact absurd h (Nat.lt_irrefl 0)
    | succ n =>
      simp only [Nat.add_zero, Nat.sub_self]
      exact (decodeBypassBin_reads false).bind_nil (Reads.pure _)
  | succ m ih =>
    cases n with
    | zero => exact absurd h (Nat.not_lt_zero _)
    | succ n =>
      have hrest := ih (c + 1) (s + 2 ^ c) (Nat.lt_of_succ_lt_succ h)
      have hcount : c + 1 + m + 1 = c + (m + 1) + 1 := by omega
      have hle : 2 ^ (c + 1) ≤ 2 ^ (c + 1 + m) := Nat.pow_le_pow_right Nat.two_pos (by omega)
      have hsum : s + 2 ^ c + (2 ^ (c + 1 + m) - 2 ^ (c + 1)) =
          s + (2 ^ (c + (m + 1)) - 2 ^ c) := by
        rw [Nat.pow_succ] at hle ⊢
        rw [show c + (m + 1) = c + 1 + m by omega]
        omega
      rw [hcount, hsum] at hrest
      exact (decodeBypassBin_reads true).bind hrest

/-- The ones of the prefix, its zero, and what is left of the symbol in the suffix. -/
theorem egk_bins (k : Nat) (hlow : 2 ^ n ≤ (sym >>> k) + 1) (hhigh : (sym >>> k) + 1 < 2 ^ (n + 1)) :
    (ihevceCabacEncodeEgk sym k : List (Bin ρ)) =
      (List.replicate n (.bypass true) ++ [.bypass false]) ++
        bypassBins (sym + 2 ^ k - 2 ^ (k + n)) (k + n) ∧
      2 ^ (k + n) ≤ sym + 2 ^ k ∧ sym + 2 ^ k - 2 ^ (k + n) < 2 ^ (k + n) := by
  have hlog : Nat.log2 ((sym >>> k) + 1) = n :=
    (Nat.log2_eq_iff (Nat.succ_ne_zero _)).mpr ⟨hlow, hhigh⟩
  have hlen : getRange ((sym >>> k) + 1) = n + 1 := by simp [getRange, hlog]
  have hmod : ((sym >>> k) + 1) % 2 ^ n = (sym >>> k) + 1 - 2 ^ n := by
    rw [Nat.mod_eq_sub_mod hlow, Nat.mod_eq_of_lt]
    rw [Nat.pow_succ] at hhigh
    omega
  have hlt : (sym >>> k) + 1 - 2 ^ n < 2 ^ n := hmod ▸ Nat.mod_lt _ (Nat.two_pow_pos n)
  have hsplit : (sym >>> k) * 2 ^ k + sym % 2 ^ k = sym := by
    rw [Nat.shiftRight_eq_div_pow, Nat.div_add_mod']
  have hlowk : sym % 2 ^ k < 2 ^ k := Nat.mod_lt _ (Nat.two_pow_pos k)
  have hpow : 2 ^ (k + n) = 2 ^ n * 2 ^ k := by rw [Nat.add_comm, pow_add]
  have hmul := Nat.mul_le_mul_right (2 ^ k) hlow
  rw [Nat.add_mul, Nat.one_mul, ← hpow] at hmul
  have hsuffix : ((sym >>> k) + 1 - 2 ^ n) * 2 ^ k + sym % 2 ^ k = sym + 2 ^ k - 2 ^ (k + n) := by
    rw [Nat.sub_mul, Nat.add_mul, Nat.one_mul, ← hpow]
    omega
  have hle : 2 ^ (k + n) ≤ sym + 2 ^ k := by omega
  have hsmall : sym + 2 ^ k - 2 ^ (k + n) < 2 ^ (k + n) := by
    have hnext := Nat.mul_le_mul_right (2 ^ k) (Nat.succ_le_of_lt hlt)
    rw [Nat.succ_mul, ← hpow] at hnext
    omega
  refine ⟨?_, hle, hsmall⟩
  simp only [ihevceCabacEncodeEgk, hlen, Nat.add_sub_cancel, Nat.and_two_pow_sub_one_eq_mod, hmod]
  rw [← Nat.shiftLeft_add_eq_or_of_lt hlt, ← Nat.shiftLeft_add_eq_or_of_lt hlowk,
    Nat.shiftLeft_eq, Nat.shiftLeft_eq, Nat.add_mul, Nat.add_assoc, hsuffix, Nat.mul_assoc, ← hpow,
    Nat.mul_comm, show 2 * (n + 1) - 1 + k = n + 1 + (k + n) by omega, bypassBins_append _ _ _ _ hsmall,
    bypassBins_unary]

theorem egk_reads (k : Nat) (h : sym + 2 ^ k < 2 ^ 17) :
    Reads (ihevcdCabacDecodeBypassBinsEgk k : BinReader ρ Nat) (ihevceCabacEncodeEgk sym k) sym := by
  obtain ⟨hbins, hle, hlt⟩ := egk_bins (ρ := ρ) k (n := Nat.log2 ((sym >>> k) + 1))
    (Nat.log2_self_le (Nat.succ_ne_zero _)) Nat.lt_log2_self
  generalize Nat.log2 ((sym >>> k) + 1) = n at hbins hle hlt
  have hn : k + n < 17 := (Nat.pow_lt_pow_iff_right Nat.one_lt_two).mp (lt_of_le_of_lt hle h)
  have hpow : 2 ^ k ≤ 2 ^ (k + n) := Nat.pow_le_pow_right Nat.two_pos (by omega)
  have hones := egkOnes_reads (ρ := ρ) (m := n) (n := 17 - k) k 0 (by omega)
  rw [Nat.zero_add] at hones
  rw [hbins]
  refine hones.bind (Reads.bind_nil (bypassBins_reads_lt hlt) (Reads.pure_of_eq ?_))
  omega

/-- The code of order 0. -/
theorem eg0_reads (h : sym + 1 < 2 ^ 17) :
    Reads (ihevcdCabacDecodeBypassBinsEgk 0 : BinReader ρ Nat) (ihevceCabacEncodeEgk sym 0) sym :=
  egk_reads 0 h

end Libhevc.RoundTrip

/-!
## Binarizations are inverse

Truncated Rice codes read back, and the decoder's side on bins that no encoder made: it is done
after a number of bins that its parameters bound.
-/

namespace Libhevc

/-- The bin itself, where it is one. -/
def Bin.value : Bin ρ → Option Bool
  | .ctxt _ bin => some bin
  | .bypass bin => some bin
  | .piece _ => none

end Libhevc

namespace Libhevc.RoundTrip

open Reader Encoder Decoder

-- ---------------------------------------------------------------------------
-- Truncated Rice codes
-- ---------------------------------------------------------------------------

theorem truncRice_bins (u4Sym cRiceParam cRiceMax : Nat) :
    (ihevceCabacEncodeTruncRice u4Sym cRiceParam cRiceMax : List (Bin ρ)) =
      (List.replicate (u4Sym >>> cRiceParam) (.bypass true) ++ [.bypass false]) ++
        bypassBins (u4Sym % 2 ^ cRiceParam) cRiceParam := by
  have hlt : u4Sym % 2 ^ cRiceParam < 2 ^ cRiceParam := Nat.mod_lt _ (Nat.two_pow_pos _)
  simp only [ihevceCabacEncodeTruncRice, Nat.and_two_pow_sub_one_eq_mod]
  rw [← Nat.shiftLeft_add_eq_or_of_lt hlt, Nat.shiftLeft_eq, Nat.mul_comm,
    bypassBins_append _ _ _ _ hlt, bypassBins_unary]

theorem unaryLoop_reads (h : m < n) :
    Reads (tunaryLoop (fun _ => decodeBypassBin) n 0 : BinReader ρ Nat)
      (List.replicate m (.bypass true) ++ [.bypass false]) m := by
  have hreads := tunaryLoop_reads (ρ := ρ) (fun _ => .bypass) 0
    (fun _ b => decodeBypassBin_reads b) (Nat.le_of_lt h)
  rwa [if_pos h, List.map_const', List.length_range, Nat.zero_add] at hreads

/-- The prefix is below its maximum, so that its zero is there. -/
theorem truncRice_reads (cRiceParam : Nat) (h : u4Sym < m <<< cRiceParam) :
    Reads (ihevcdCabacDecodeBypassBinsTruncRice cRiceParam (m <<< cRiceParam) : BinReader ρ Nat)
      (ihevceCabacEncodeTruncRice u4Sym cRiceParam (m <<< cRiceParam)) u4Sym := by
  have hmax : (m <<< cRiceParam) >>> cRiceParam = m := by
    rw [Nat.shiftLeft_eq, Nat.shiftRight_eq_div_pow, Nat.mul_div_cancel _ (Nat.two_pow_pos _)]
  have hunary : u4Sym >>> cRiceParam < max m 1 := by
    rw [Nat.shiftRight_eq_div_pow]
    rw [Nat.shiftLeft_eq] at h
    exact Nat.lt_of_lt_of_le (Nat.div_lt_of_lt_mul (Nat.mul_comm .. ▸ h)) (Nat.le_max_left m 1)
  have hlt : u4Sym % 2 ^ cRiceParam < 2 ^ cRiceParam := Nat.mod_lt _ (Nat.two_pow_pos _)
  rw [truncRice_bins]
  unfold ihevcdCabacDecodeBypassBinsTruncRice
  dsimp only
  rw [hmax]
  refine (unaryLoop_reads hunary).bind ?_
  split
  · rename_i hzero
    subst hzero
    exact Reads.pure _
  · refine Reads.bind_nil (bypassBins_reads_lt hlt) (Reads.pure_of_eq ?_)
    rw [← Nat.shiftLeft_add_eq_or_of_lt hlt, Nat.shiftLeft_eq, Nat.shiftRight_eq_div_pow,
      Nat.div_add_mod']

-- ---------------------------------------------------------------------------
-- Decoding any bins
-- ---------------------------------------------------------------------------

/-- On every string of bins the reader has a value after `n` of them at most, for which `P`
holds. The contexts are those it asks for. -/
def Answers (x : BinReader ρ α) (n : Nat) (P : α → Prop) : Prop :=
  ∀ bins : List Bool, n ≤ bins.length →
    ∃ taken rest l a, bins = taken ++ rest ∧ taken.length ≤ n ∧
      l.map Bin.value = taken.map some ∧ Reads x l a ∧ P a

section
variable {P Q : α → Prop}

theorem Answers.pure (h : P a) : Answers (Pure.pure a : BinReader ρ α) 0 P :=
  fun bins _ => ⟨[], bins, [], a, rfl, le_rfl, rfl, Reads.pure a, h⟩

theorem Answers.mono {x : BinReader ρ α} (h : Answers x m P) (hmn : m ≤ n)
    (hPQ : ∀ a, P a → Q a) : Answers x n Q := by
  intro bins hlen
  obtain ⟨taken, rest, l, a, hbins, htaken, hvalues, hreads, hP⟩ := h bins (hmn.trans hlen)
  exact ⟨taken, rest, l, a, hbins, htaken.trans hmn, hvalues, hreads, hPQ a hP⟩

theorem Answers.bind {x : BinReader ρ α} {f : α → BinReader ρ β} {R : β → Prop}
    (hx : Answers x m P) (hf : ∀ a, P a → Answers (f a) n R) : Answers (x >>= f) (n + m) R := by
  intro bins hlen
  obtain ⟨taken, rest, l, a, rfl, htaken, hvalues, hreads, hP⟩ := hx bins (by omega)
  rw [List.length_append] at hlen
  obtain ⟨taken', rest', l', b, rfl, htaken', hvalues', hreads', hQ⟩ := hf a hP rest (by omega)
  refine ⟨taken ++ taken', rest', l ++ l', b, (List.append_assoc ..).symm, ?_, ?_,
    hreads.bind hreads', hQ⟩
  · rw [List.length_append]
    omega
  · rw [List.map_append, List.map_append, hvalues, hvalues']

/-- The last reader of several takes no bin. -/
theorem Answers.bind_pure {x : BinReader ρ α} {f : α → β} (hx : Answers x m P) :
    Answers (x >>= fun a => Pure.pure (f a)) m fun _ => True :=
  Nat.zero_add m ▸ hx.bind fun _ _ => .pure trivial

end

/-- A reader of one bin, whatever it is. -/
theorem Answers.one {x : BinReader ρ Bool} (put : Bool → Bin ρ)
    (hput : ∀ b, (put b).value = some b) (h : ∀ b, Reads x [put b] b) :
    Answers x 1 fun _ => True := by
  intro bins hlen
  cases bins with
  | nil => exact absurd hlen (by decide)
  | cons b bins => exact ⟨[b], bins, [put b], b, rfl, le_rfl, by simp [hput], h b, trivial⟩

theorem decodeBin_answers (ctxtIndex : Nat) :
    Answers (decodeBin ctxtIndex : BinReader ρ Bool) 1 fun _ => True :=
  .one (.ctxt ctxtIndex) (fun _ => rfl) (decodeBin_reads ctxtIndex)

theorem decodeBypassBin_answers : Answers (decodeBypassBin : BinReader ρ Bool) 1 fun _ => True :=
  .one .bypass (fun _ => rfl) decodeBypassBin_reads

theorem decodeBypassBins_answers (n u4Bins : Nat) :
    Answers (decodeBypassBins n u4Bins : BinReader ρ Nat) n fun _ => True := by
  induction n generalizing u4Bins with
  | zero => exact .pure trivial
  | succ n ih =>
    exact decodeBypassBin_answers.bind fun bin _ => ih _

theorem tunaryLoop_answers {decode : Nat → BinReader ρ Bool}
    (h : ∀ i, Answers (decode i) 1 fun _ => True) (n u4Sym : Nat) :
    Answers (tunaryLoop decode n u4Sym) n fun sym => sym ≤ u4Sym + n := by
  induction n generalizing u4Sym with
  | zero => exact .pure le_rfl
  | succ n ih =>
    refine (h u4Sym).bind fun bin _ => ?_
    split
    · exact (ih (u4Sym + 1)).mono le_rfl fun a ha => by omega
    · exact (Answers.pure (P := fun sym => sym ≤ u4Sym + (n + 1)) (by omega)).mono (Nat.zero_le n)
        fun _ ha => ha

theorem egkOnes_answers (n numones u4Sym : Nat) :
    Answers (egkOnes n numones u4Sym : BinReader ρ (Nat × Nat)) n
      fun r => r.1 ≤ numones + n := by
  induction n generalizing numones u4Sym with
  | zero => exact .pure le_rfl
  | succ n ih =>
    refine decodeBypassBin_answers.bind fun bin _ => ?_
    split
    · exact (ih (numones + 1) _).mono le_rfl fun r hr => by omega
    · exact (Answers.pure (P := fun r : Nat × Nat => r.1 ≤ numones + (n + 1))
        (by dsimp only; omega)).mono (Nat.zero_le n) fun _ hr => hr

/-- Whatever the order, the prefix ends after 17 bins, and the suffix has 16 where the order is
below 17. -/
theorem egk_answers (k : Nat) :
    Answers (ihevcdCabacDecodeBypassBinsEgk k : BinReader ρ Nat) (max 16 k + (17 - k))
      fun _ => True := by
  refine (egkOnes_answers (17 - k) k 0).bind fun r hr => ?_
  exact (decodeBypassBins_answers _ _).bind_pure.mono (by omega) fun _ ha => ha

theorem truncRice_answers (cRiceParam cRiceMax : Nat) :
    Answers (ihevcdCabacDecodeBypassBinsTruncRice cRiceParam cRiceMax : BinReader ρ Nat)
      (cRiceParam + max (cRiceMax >>> cRiceParam) 1) fun _ => True := by
  refine (tunaryLoop_answers (fun _ => decodeBypassBin_answers) _ 0).bind fun sym _ => ?_
  split
  · exact (Answers.pure trivial).mono (Nat.zero_le _) fun _ ha => ha
  · exact (decodeBypassBins_answers _ _).bind_pure

-- ---------------------------------------------------------------------------
-- All of them
-- ---------------------------------------------------------------------------

/-- Every symbol whose code fits a word, as the callers' do, is read back from just its bins, in
the same contexts, and no decoder goes on for ever on any bins. -/
theorem binarizations_inverse (ρ : Type) :
    (∀ sym cMax ctxtIndex ctxtShift ctxtIncMax, 0 < cMax → sym ≤ cMax →
      Reads (ihevcdCabacDecodeBinsTunary cMax ctxtIndex ctxtShift ctxtIncMax : BinReader ρ Nat)
        (ihevceCabacEncodeTunary sym cMax ctxtIndex ctxtShift ctxtIncMax) sym) ∧
    (∀ sym cMax, 0 < cMax → cMax ≤ 31 → sym ≤ cMax →
      Reads (ihevcdCabacDecodeBypassBinsTunary cMax : BinReader ρ Nat)
        (ihevceCabacEncodeTunaryBypass sym cMax) sym) ∧
    (∀ k sym, sym + 2 ^ k < 2 ^ 17 → (k = 0 → sym + 1 < 2 ^ 16) →
      Reads (ihevcdCabacDecodeBypassBinsEgk k : BinReader ρ Nat) (ihevceCabacEncodeEgk sym k) sym) ∧
    (∀ cRiceParam m u4Sym, u4Sym < m <<< cRiceParam → (u4Sym >>> cRiceParam) + cRiceParam < 31 →
      Reads (ihevcdCabacDecodeBypassBinsTruncRice cRiceParam (m <<< cRiceParam) : BinReader ρ Nat)
        (ihevceCabacEncodeTruncRice u4Sym cRiceParam (m <<< cRiceParam)) u4Sym) ∧
    (∀ cMax ctxtIndex ctxtShift ctxtIncMax, 0 < cMax →
      Answers (ihevcdCabacDecodeBinsTunary cMax ctxtIndex ctxtShift ctxtIncMax : BinReader ρ Nat)
        cMax fun sym => sym ≤ cMax) ∧
    (∀ cMax, 0 < cMax →
      Answers (ihevcdCabacDecodeBypassBinsTunary cMax : BinReader ρ Nat) cMax
        fun sym => sym ≤ cMax) ∧
    (∀ k, Answers (ihevcdCabacDecodeBypassBinsEgk k : BinReader ρ Nat) (max 16 k + (17 - k))
      fun _ => True) ∧
    ∀ cRiceParam cRiceMax,
      Answers (ihevcdCabacDecodeBypassBinsTruncRice cRiceParam cRiceMax : BinReader ρ Nat)
        (cRiceParam + max (cRiceMax >>> cRiceParam) 1) fun _ => True := by
  refine ⟨fun sym cMax ctxtIndex ctxtShift ctxtIncMax _ h => tunary_reads _ _ _ h,
    fun sym cMax _ _ h => tunaryBypass_reads h, fun k sym h _ => egk_reads k h,
    fun cRiceParam m u4Sym h _ => truncRice_reads cRiceParam h,
    fun cMax ctxtIndex ctxtShift _ _ => ?_, fun cMax _ => ?_, egk_answers, truncRice_answers⟩
  · exact (tunaryLoop_answers (fun _ => decodeBin_answers _) cMax 0).mono le_rfl
      fun a ha => by omega
  · exact (tunaryLoop_answers (fun _ => decodeBypassBin_answers) cMax 0).mono le_rfl
      fun a ha => by omega

/-- The largest remaining level of order 5, and a level of rice parameter 4. -/
theorem binarizations_inverse_levels :
    Reads (ihevcdCabacDecodeBypassBinsEgk 5 : BinReader Empty Nat) (ihevceCabacEncodeEgk 32704 5)
        32704 ∧
      Reads (ihevcdCabacDecodeBypassBinsTruncRice 4 (4 <<< 4) : BinReader Empty Nat)
        (ihevceCabacEncodeTruncRice 55 4 (4 <<< 4)) 55 ∧
      Reads (ihevcdCabacDecodeBinsTunary 9 60 2 9 : BinReader Empty Nat)
        (ihevceCabacEncodeTunary 7 9 60 2 9) 7 ∧
      Reads (ihevcdCabacDecodeBypassBinsTunary 4 : BinReader Empty Nat)
        (ihevceCabacEncodeTunaryBypass 4 4) 4 :=
  have h := binarizations_inverse Empty
  ⟨h.2.2.1 5 32704 (by decide) (by decide), h.2.2.2.1 4 4 55 (by decide) (by decide),
    h.1 7 9 60 2 9 (by decide) (by decide), h.2.1 4 4 (by decide) (by decide) le_rfl⟩

end Libhevc.RoundTrip
