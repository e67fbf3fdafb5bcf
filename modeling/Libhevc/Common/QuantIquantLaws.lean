import Libhevc.Common.QuantIquant
import Mathlib.Tactic.IntervalCases
import Mathlib.Tactic.Linarith

/-!
# The variants of the quantiser agree

Without the scaling matrix the quantiser leaves a factor `2 ^ 11` out of both the
product and the shift. The cost is summed in `WORD32`, and is the sum of the squared
errors exactly when that sum is a `WORD32`.
-/

namespace Libhevc

theorem QuantArgs.Ok.log2Size {p : QuantArgs} (h : p.Ok) : 2 ≤ p.log2Size ∧ p.log2Size ≤ 5 := by
  unfold QuantArgs.log2Size
  rcases h.size with hs | hs | hs | hs <;> rw [hs] <;> decide

theorem QuantArgs.Ok.quantScale {p : QuantArgs} (h : p.Ok) :
    0 < gIhevcQuantScales p.qpRem ∧ gIhevcQuantScales p.qpRem ≤ 26214 := by
  have := h.qpRem
  unfold gIhevcQuantScales
  interval_cases p.qpRem <;> decide

-- ---------------------------------------------------------------------------
-- Levels
-- ---------------------------------------------------------------------------

theorem qBits_eq (hlog : log2Size ≤ 5) : qBits qpDiv log2Size = 32 + qpDiv - log2Size := by
  simp only [qBits, quantShift, maxTrDynamicRange, scalingQShift]
  omega

/-- The factor 2048 of a flat matrix cancels against the shift. -/
theorem shift_factor (x : Int) (qAdd : Int) (m : Nat) :
    (x * 2 ^ 11 + qAdd <<< (m + 11)) >>> (m + 20) = (x + qAdd <<< m) >>> (m + 9) := by
  rw [Int.shiftRight_eq_div_pow, Int.shiftRight_eq_div_pow, Int.shiftLeft_eq, Int.shiftLeft_eq]
  push_cast
  have hnum : x * 2048 + qAdd * 2 ^ (m + 11) = 2048 * (x + qAdd * 2 ^ m) := by
    rw [pow_add]
    ring
  have hden : (2 : Int) ^ (m + 20) = 2048 * 2 ^ (m + 9) := by
    rw [pow_add, pow_add]
    ring
  rw [hnum, hden, Int.mul_ediv_mul_of_pos _ _ (by decide)]

/-- No value of `QUANT_NO_WEIGHTMAT` leaves `WORD32`. -/
theorem quantNoWeightmat_eq (hinp : IsWord16 inp) (hscale : 0 < scale ∧ scale ≤ 26214)
    (hqpDiv : qpDiv ≤ 8) (hlog : 2 ≤ log2Size ∧ log2Size ≤ 5)
    (hqAdd : 0 ≤ qAdd ∧ qAdd ≤ 2 ^ quantRoundFactorQ) :
    quantNoWeightmat inp scale qpDiv log2Size qAdd =
      quant inp (2048 * scale) qpDiv log2Size qAdd := by
  obtain ⟨m, hm, hm18⟩ : ∃ m, qBits qpDiv log2Size = m + 20 ∧ m ≤ 18 := by
    refine ⟨12 + qpDiv - log2Size, ?_, ?_⟩
    · rw [qBits_eq hlog.2]
      omega
    · omega
  have habs : (inp.natAbs : Int) ≤ 32768 := by
    have := hinp.1
    have := hinp.2
    omega
  have hprod : 0 ≤ (inp.natAbs : Int) * scale ∧ (inp.natAbs : Int) * scale ≤ 32768 * 26214 :=
    ⟨Int.mul_nonneg (Int.natCast_nonneg _) hscale.1.le,
      Int.mul_le_mul habs hscale.2 hscale.1.le (by decide)⟩
  have hround : 0 ≤ qAdd <<< m ∧ qAdd <<< m ≤ 2 ^ 27 := by
    rw [Int.shiftLeft_eq]
    have hpow : (2 : Int) ^ m ≤ 2 ^ 18 := pow_le_pow_right₀ (by decide) hm18
    have hpos : (0 : Int) ≤ 2 ^ m := by positivity
    refine ⟨Int.mul_nonneg hqAdd.1 (by exact_mod_cast hpos), ?_⟩
    calc qAdd * ((2 ^ m : Nat) : Int) ≤ 2 ^ 9 * 2 ^ 18 := by
          push_cast
          exact Int.mul_le_mul hqAdd.2 hpow hpos (by decide)
      _ = 2 ^ 27 := by norm_num
  have hbits : m + 20 - flatRescaleMatQShift = m + 9 := rfl
  have hshift : m + 9 - quantRoundFactorQ = m := rfl
  have hshift' : m + 20 - quantRoundFactorQ = m + 11 := rfl
  unfold quantNoWeightmat quant
  rw [hm]
  simp only [hbits, hshift, hshift']
  rw [i32_of_bounds (x := (inp.natAbs : Int) * scale) (by omega) (by omega),
    i32_of_bounds (x := qAdd <<< m) (by omega) (by omega),
    i32_of_bounds (x := (inp.natAbs : Int) * scale + qAdd <<< m) (by omega) (by omega),
    ← shift_factor]
  have hmul : (inp.natAbs : Int) * scale * 2 ^ 11 = inp.natAbs * (2048 * scale) := by ring
  rw [hmul]

theorem QuantArgs.Ok.levelFlat {p : QuantArgs} (h : p.Ok) : p.flat.levelFlat = p.flat.level := by
  funext i j
  exact quantNoWeightmat_eq (h.coeffs i j) h.quantScale h.qpDiv h.log2Size h.qAdd

-- ---------------------------------------------------------------------------
-- Inverse quantisation
-- ---------------------------------------------------------------------------

theorem iquant_zero {qpDiv : Nat} (dequantCoeff : Int) (hlog : 2 ≤ log2Size ∧ log2Size ≤ 5) (hqpDiv : qpDiv ≤ 8) :
    iquant 0 dequantCoeff ((8 + log2Size : Nat) - 5) qpDiv = 0 := by
  unfold iquant
  rw [Int.zero_mul]
  obtain ⟨hlo, hhi⟩ := hlog
  interval_cases log2Size <;> interval_cases qpDiv <;> decide

theorem QuantArgs.Ok.dequant_zero {p : QuantArgs} (h : p.Ok) (i j : Nat) : p.dequant i j 0 = 0 :=
  iquant_zero _ h.log2Size h.qpDiv

theorem QuantArgs.Ok.dequantFlat {p : QuantArgs} (h : p.Ok) : p.dequantFlat = p.dequant := by
  funext i j q
  unfold QuantArgs.dequantFlat
  split
  case isTrue hq => rw [hq, h.dequant_zero]
  case isFalse => rfl

theorem clipS16_bounds (x : Int) : IsWord16 (clipS16 x) := by
  unfold IsWord16 clipS16 clip3
  split_ifs <;> omega

theorem clip3_of_mem (hlo : lo ≤ x) (hhi : x ≤ hi) : clip3 x lo hi = x := by
  unfold clip3
  rw [if_neg (Int.not_lt.mpr hhi), if_neg (Int.not_lt.mpr hlo)]

/-- The levels of a 4x4 block are short where `IQUANT_4x4` clips them. -/
theorem quant_short {qpDiv : Nat} (hinp : IsWord16 inp) (hmat : IsWord16 mat)
    (hscale : 0 < scale ∧ scale ≤ 26214) (hqpDiv : 6 ≤ qpDiv ∧ qpDiv ≤ 8)
    (hqAdd : 0 ≤ qAdd ∧ qAdd ≤ 2 ^ quantRoundFactorQ) :
    -512 ≤ quant inp (mat * scale) qpDiv 2 qAdd ∧ quant inp (mat * scale) qpDiv 2 qAdd ≤ 511 := by
  have habs : (inp.natAbs : Int) ≤ 32768 := by
    have := hinp.1
    have := hinp.2
    omega
  have hcoeff : |mat * scale| ≤ 32768 * 26214 := by
    rw [abs_mul, abs_of_pos hscale.1]
    refine Int.mul_le_mul ?_ hscale.2 hscale.1.le (by decide)
    have := hmat.1
    have := hmat.2
    exact abs_le.mpr ⟨by omega, by omega⟩
  have hprod : |(inp.natAbs : Int) * (mat * scale)| ≤ 32768 * (32768 * 26214) := by
    rw [abs_mul, abs_of_nonneg (Int.natCast_nonneg _)]
    exact Int.mul_le_mul habs hcoeff (abs_nonneg _) (by decide)
  have htmp : -411 ≤ ((inp.natAbs : Int) * (mat * scale) +
        qAdd <<< (qBits qpDiv 2 - quantRoundFactorQ)) >>> qBits qpDiv 2 ∧
      ((inp.natAbs : Int) * (mat * scale) +
        qAdd <<< (qBits qpDiv 2 - quantRoundFactorQ)) >>> qBits qpDiv 2 ≤ 411 := by
    obtain ⟨hlo, hhi⟩ := abs_le.mp hprod
    obtain ⟨hadd, hadd'⟩ := hqAdd
    rw [qBits_eq (by decide), Int.shiftRight_eq_div_pow, Int.shiftLeft_eq]
    simp only [quantRoundFactorQ] at hadd' ⊢
    obtain ⟨hq, hq'⟩ := hqpDiv
    generalize (inp.natAbs : Int) * (mat * scale) = x at hlo hhi
    interval_cases qpDiv <;> norm_num <;> omega
  unfold quant
  dsimp only
  generalize ((inp.natAbs : Int) * (mat * scale) +
    qAdd <<< (qBits qpDiv 2 - quantRoundFactorQ)) >>> qBits qpDiv 2 = tmp at htmp
  unfold clipS16 clip3
  split_ifs <;> omega

theorem iquant4x4_eq (dequantCoeff : Int) (hword : IsWord16 coeff)
    (hshort : shiftIq < qpDiv → -512 ≤ coeff ∧ coeff ≤ 511) :
    iquant4x4 coeff dequantCoeff shiftIq qpDiv = iquant coeff dequantCoeff shiftIq qpDiv := by
  refine congrArg (fun c => iquant c dequantCoeff shiftIq qpDiv) (clip3_of_mem ?_ ?_)
  · split
    case isTrue hlt => exact (hshort hlt).1
    case isFalse => exact hword.1
  · split
    case isTrue hlt => exact (hshort hlt).2
    case isFalse => exact hword.2

/-- The encoder's value of a level is the decoder's. -/
theorem QuantArgs.Ok.decoder {p : QuantArgs} (h : p.Ok) (i j : Nat) :
    p.dequant i j (p.level i j) =
      Decoder.ihevcdUnpackCoeff p.log2Size (p.level i j) (p.dequantCoeff i j) p.qpRem p.qpDiv 8 := by
  unfold Decoder.ihevcdUnpackCoeff
  dsimp only
  split
  case isFalse => rfl
  case isTrue hsize =>
    have hlog : p.log2Size = 2 := by
      obtain ⟨hlo, hhi⟩ := h.log2Size
      interval_cases p.log2Size <;> first | rfl | contradiction
    have hword : IsWord16 (p.level i j) := clipS16_bounds _
    have hshort : p.shiftIq < p.qpDiv → -512 ≤ p.level i j ∧ p.level i j ≤ 511 := by
      intro hlt
      have hqp : 6 ≤ p.qpDiv := by
        unfold QuantArgs.shiftIq at hlt
        omega
      unfold QuantArgs.level
      rw [hlog]
      exact quant_short (h.coeffs i j) (h.quantCoeff i j) h.quantScale ⟨hqp, h.qpDiv⟩ h.qAdd
    exact (iquant4x4_eq _ hword hshort).symm

-- ---------------------------------------------------------------------------
-- Masks and flags
-- ---------------------------------------------------------------------------

theorem mem_nestedLoops : (i, j) ∈ nestedLoops n ↔ i < n ∧ j < n := by
  simp [nestedLoops, List.product]

theorem codedSubBlock_iff (q : Nat → Nat → Int) (row col : Nat) :
    codedSubBlock q row col = true ↔ ∃ i < 4, ∃ j < 4, q (4 * row + i) (4 * col + j) ≠ 0 := by
  simp [codedSubBlock]

/-- A level is in the block of its group of rows and its group of columns. -/
theorem codedSubBlock_of_ne {q : Nat → Nat → Int} (h : q i j ≠ 0) :
    codedSubBlock q (i / 4) (j / 4) = true := by
  refine (codedSubBlock_iff q _ _).mpr
    ⟨i % 4, Nat.mod_lt _ (by decide), j % 4, Nat.mod_lt _ (by decide), ?_⟩
  rwa [Nat.div_add_mod, Nat.div_add_mod]

theorem csbf_foldl (q : Nat → Nat → Int) (l : List (Nat × Nat)) (s : CsbfState) :
    (l.foldl (csbfStep q) s).csbf row col =
      if (row, col) ∈ l then if codedSubBlock q row col then 1 else 0 else s.csbf row col := by
  induction l generalizing s with
  | nil => simp
  | cons b l ih =>
    rw [List.foldl_cons, ih]
    by_cases hl : (row, col) ∈ l
    · simp [hl]
    · by_cases hb : (row, col) = b
      · subst hb
        simp [hl, csbfStep]
      · simp [hl, hb, csbfStep]

theorem cbf_foldl (q : Nat → Nat → Int) (l : List (Nat × Nat)) (s : CsbfState) :
    (l.foldl (csbfStep q) s).cbf = true ↔
      s.cbf = true ∨ ∃ b ∈ l, codedSubBlock q b.1 b.2 = true := by
  induction l generalizing s with
  | nil => simp
  | cons b l ih =>
    rw [List.foldl_cons, ih]
    simp [csbfStep, or_assoc]

section
variable {q : Nat → Nat → Int} {f : CsbfState → Nat} {g : Nat × Nat → Nat}
  (hstep : ∀ s b, f (csbfStep q s b) =
    if codedSubBlock q b.1 b.2 then f s ||| u32 (0xF <<< (4 * g b)) else f s)
include hstep

theorem mask_foldl_lt (l : List (Nat × Nat)) (s : CsbfState) (h : f s < 2 ^ 32) :
    f (l.foldl (csbfStep q) s) < 2 ^ 32 := by
  induction l generalizing s with
  | nil => exact h
  | cons b l ih =>
    refine ih _ ?_
    rw [hstep]
    split
    · exact Nat.or_lt_two_pow h (u32_lt _)
    · exact h

/-- A bit of a f stays set, and each coded block sets the four bits of its group. -/
theorem mask_foldl_testBit (hn : n < 32) (l : List (Nat × Nat)) (s : CsbfState)
    (h : (f s).testBit n = true ∨
      ∃ b ∈ l, codedSubBlock q b.1 b.2 = true ∧ n / 4 = g b) :
    (f (l.foldl (csbfStep q) s)).testBit n = true := by
  induction l generalizing s with
  | nil => simpa using h
  | cons b l ih =>
    refine ih _ ?_
    rcases h with h | ⟨b', hb', hcoded, hgroup⟩
    · refine .inl ?_
      rw [hstep]
      split
      · rw [Nat.testBit_or, h, Bool.true_or]
      · exact h
    · rcases List.mem_cons.mp hb' with rfl | hl
      · refine .inl ?_
        have hbit : (15 : Nat).testBit (n - 4 * g b') = true := by
          rw [show (15 : Nat) = 2 ^ 4 - 1 from rfl, Nat.testBit_two_pow_sub_one]
          exact decide_eq_true (by omega)
        have hle : 4 * g b' ≤ n := by omega
        rw [hstep, if_pos hcoded, Nat.testBit_or, u32, Nat.testBit_mod_two_pow,
          Nat.testBit_shiftLeft]
        simp [hbit, hle, hn]
      · exact .inr ⟨b', hl, hcoded, hgroup⟩

end

theorem u32Not_testBit (hx : x < 2 ^ 32) (hn : n < 32) (h : (u32Not x).testBit n = true) :
    x.testBit n = false := by
  unfold u32Not at h
  rw [Nat.testBit_two_pow_sub_succ hx] at h
  simpa [hn] using h

/-- The masks and flags of a block, whatever the levels are. -/
theorem block_exact {p : QuantArgs} (hsize : 4 ∣ p.transSize ∧ p.transSize ≤ 32)
    (level : Nat → Nat → Int) {dequant : Nat → Nat → Int → Int}
    (hzero : ∀ i j, dequant i j 0 = 0) : (p.block level dequant).Exact p.transSize := by
  obtain ⟨⟨n, hn⟩, hle⟩ := hsize
  have hdiv : p.transSize / 4 = n := by omega
  have hmem : ∀ {i j}, i < p.transSize → j < p.transSize →
      (i / 4, j / 4) ∈ nestedLoops (p.transSize / 4) := by
    intro i j hi hj
    rw [mem_nestedLoops, hdiv]
    omega
  constructor
  case zeroCol =>
    intro j hj hbit i hi
    have hlt := mask_foldl_lt (q := level) (f := CsbfState.tempZeroCol) (g := Prod.snd)
      (fun _ _ => rfl) (nestedLoops (p.transSize / 4)) ⟨fun _ _ => 0, 0, 0, false⟩ (by decide)
    have hfalse := u32Not_testBit hlt (by omega) hbit
    have hlevel : level i j = 0 := by
      by_contra hne
      rw [mask_foldl_testBit (q := level) (f := CsbfState.tempZeroCol) (g := Prod.snd)
        (fun _ _ => rfl) (by omega) _ _
        (.inr ⟨_, hmem hi hj, codedSubBlock_of_ne hne, rfl⟩)] at hfalse
      contradiction
    change dequant i j (level i j) = 0
    rw [hlevel, hzero]
  case zeroRow =>
    intro i hi hbit j hj
    have hlt := mask_foldl_lt (q := level) (f := CsbfState.tempZeroRow) (g := Prod.fst)
      (fun _ _ => rfl) (nestedLoops (p.transSize / 4)) ⟨fun _ _ => 0, 0, 0, false⟩ (by decide)
    have hfalse := u32Not_testBit hlt (by omega) hbit
    have hlevel : level i j = 0 := by
      by_contra hne
      rw [mask_foldl_testBit (q := level) (f := CsbfState.tempZeroRow) (g := Prod.fst)
        (fun _ _ => rfl) (by omega) _ _
        (.inr ⟨_, hmem hi hj, codedSubBlock_of_ne hne, rfl⟩)] at hfalse
      contradiction
    change dequant i j (level i j) = 0
    rw [hlevel, hzero]
  case csbf =>
    intro row hrow col hcol
    have hcsbf : (p.block level dequant).csbf row col =
        if codedSubBlock level row col then 1 else 0 := by
      change ((nestedLoops (p.transSize / 4)).foldl (csbfStep level) _).csbf row col = _
      rw [csbf_foldl, if_pos (mem_nestedLoops.mpr ⟨hrow, hcol⟩)]
    rw [hcsbf]
    refine ⟨by split <;> decide, ?_⟩
    rw [show (p.block level dequant).qDst = level from rfl, ← codedSubBlock_iff]
    simp
  case cbf =>
    change ((nestedLoops (p.transSize / 4)).foldl (csbfStep level) _).cbf = true ↔ _
    rw [cbf_foldl]
    constructor
    · rintro (h | ⟨⟨row, col⟩, hb, hcoded⟩)
      · contradiction
      · obtain ⟨hrow, hcol⟩ := mem_nestedLoops.mp hb
        obtain ⟨i, hi, j, hj, hne⟩ := (codedSubBlock_iff level row col).mp hcoded
        exact ⟨4 * row + i, by omega, 4 * col + j, by omega, hne⟩
    · rintro ⟨i, hi, j, hj, hne⟩
      exact .inr ⟨_, hmem hi hj, codedSubBlock_of_ne hne⟩

-- ---------------------------------------------------------------------------
-- The cost
-- ---------------------------------------------------------------------------

theorem i32_add_i32 (x y : Int) : i32 (i32 x + i32 y) = i32 (x + y) := by
  unfold i32 wrapInt
  omega

theorem cost_foldl (f : Nat × Nat → Int) (l : List (Nat × Nat)) (x : Int) :
    l.foldl (fun cost b => i32 (cost + i32 (f b))) (i32 x) = i32 (x + (l.map f).sum) := by
  induction l generalizing x with
  | nil => simp
  | cons b l ih =>
    rw [List.foldl_cons, i32_add_i32, ih, List.map_cons, List.sum_cons, Int.add_assoc]

/-- What is returned is the sum of the squared errors, truncated. -/
theorem ssdCost_eq (p : QuantArgs) : (ihevcQuantIquantSsd p).2 = i32 p.distortion := by
  have hsquare : p.distortion = ((nestedLoops p.transSize).map fun b =>
      (p.coeffs b.1 b.2 - p.dequant b.1 b.2 (p.level b.1 b.2)) *
        (p.coeffs b.1 b.2 - p.dequant b.1 b.2 (p.level b.1 b.2))).sum := by
    unfold QuantArgs.distortion
    congr 2
    funext b
    exact sq _
  have hfold := cost_foldl (fun b =>
    (p.coeffs b.1 b.2 - p.dequant b.1 b.2 (p.level b.1 b.2)) *
      (p.coeffs b.1 b.2 - p.dequant b.1 b.2 (p.level b.1 b.2))) (nestedLoops p.transSize) 0
  rw [hsquare, ← Int.zero_add (List.sum _), ← hfold]
  rfl

theorem distortion_nonneg (p : QuantArgs) : 0 ≤ p.distortion := by
  refine List.sum_nonneg ?_
  intro x hx
  obtain ⟨b, -, rfl⟩ := List.mem_map.mp hx
  exact sq_nonneg _

theorem i32_eq_self_iff (h : 0 ≤ x) : i32 x = x ↔ x < 2 ^ 31 := by
  unfold i32 wrapInt
  omega

/-- The functions agree, on the masks, flags and cost too, and with the decoder. -/
structure QuantArgs.Agree (p : QuantArgs) : Prop where
  same : (ihevcQuantIquantSsd p).1 = ihevcQuantIquant p
  flatSsd : ihevcQuantIquantSsdFlatScaleMat p.flat = ihevcQuantIquantSsd p.flat
  flat : ihevcQuantIquantFlatScaleMat p.flat = ihevcQuantIquant p.flat
  exact : (ihevcQuantIquant p).Exact p.transSize
  cost : (ihevcQuantIquantSsd p).2 = p.distortion
  decoder : ∀ i j, (ihevcQuantIquant p).iqDst i j =
    Decoder.ihevcdUnpackCoeff p.log2Size ((ihevcQuantIquant p).qDst i j) (p.dequantCoeff i j)
      p.qpRem p.qpDiv 8

theorem QuantArgs.Ok.flat {p : QuantArgs} (h : p.Ok) : p.flat.Ok :=
  ⟨h.size, h.qpDiv, h.qpRem, h.coeffs, fun _ _ => by simp [QuantArgs.flat, IsWord16],
    fun _ _ => by simp [QuantArgs.flat, IsWord16], h.qAdd⟩

/-- A 4x4 block of one value, with a matrix of one scaling factor. -/
def evenBlock (coeff quantCoeff dequantCoeff : Int) (qpDiv : Nat) : QuantArgs :=
  ⟨fun _ _ => coeff, fun _ _ => quantCoeff, fun _ _ => dequantCoeff, 4, qpDiv, 0, 171⟩

theorem evenBlock_ok (hcoeff : IsWord16 coeff) (hquant : IsWord16 quantCoeff)
    (hdequant : IsWord16 dequantCoeff) (hqpDiv : qpDiv ≤ 8) :
    (evenBlock coeff quantCoeff dequantCoeff qpDiv).Ok :=
  ⟨.inl rfl, hqpDiv, (by decide : 0 < 6), fun _ _ => hcoeff, fun _ _ => hquant,
    fun _ _ => hdequant, (by decide : (0 : Int) ≤ 171 ∧ (171 : Int) ≤ 2 ^ 9)⟩

end Libhevc
