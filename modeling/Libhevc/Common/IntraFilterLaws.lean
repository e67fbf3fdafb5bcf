import Libhevc.Common.IntraPred
import Libhevc.Common.IntraRefSubstLaws
import Libhevc.Spec.IntraPred
import Mathlib.Tactic.Linarith

/-!
# The reference filter

An array that holds the samples of a block is filtered to one that holds the samples of
section 8.4.4.2.3.
-/

namespace Libhevc.IntraPred

open Cells Spec.IntraPred

variable {nt : Nat} {p : Samples} {b : Cells Int}

/-- The sample at a place of the array. -/
def atScan (p : Samples) (nt i : Nat) : Int :=
  if i < 2 * nt then p (-1) (2 * nt - 1 - i) else p (i - 2 * nt - 1) (-1)

def Byte (x : Int) : Prop := 0 ≤ x ∧ x ≤ 255

/-- The array holds the samples, which are of 8 bits. -/
structure Holds (nt : Nat) (p : Samples) (b : Cells Int) : Prop where
  cell : ∀ i < 4 * nt + 1, b i = some (atScan p nt i)
  byte : ∀ i < 4 * nt + 1, Byte (atScan p nt i)

theorem u8_of_byte (h : Byte x) : u8 x = x := Int.emod_eq_of_lt h.1 (by have := h.2; omega)

theorem atScan_left (h : i ≤ 2 * nt) : atScan p nt i = p (-1) (2 * nt - 1 - i) := by
  unfold atScan
  split
  · rfl
  · obtain rfl : i = 2 * nt := by omega
    congr 1 <;> push_cast <;> omega

theorem atScan_top (h : 2 * nt ≤ i) : atScan p nt i = p (i - 2 * nt - 1) (-1) :=
  if_neg (by omega)

theorem Holds.refAt (h : Holds nt p b) (hi : i < 4 * nt + 1) :
    refAt nt b (i : Nat) = some (atScan p nt i) := by
  rw [IntraPred.refAt, load_eq (by omega), Int.toNat_natCast, h.cell i hi]

/-- A sample to the left, or the top-left one. -/
theorem Holds.left (h : Holds nt p b) {i y : Int} (hlo : -1 ≤ y) (hhi : y < 2 * nt)
    (hi : i = 2 * nt - 1 - y) :
    IntraPred.refAt nt b i = some (p (-1) y) ∧ Byte (p (-1) y) := by
  obtain ⟨k, rfl⟩ : ∃ k : Nat, i = k := ⟨i.toNat, by omega⟩
  have hscan : atScan p nt k = p (-1) y := by
    rw [atScan_left (by omega)]
    congr 1
    omega
  rw [← hscan]
  exact ⟨h.refAt (by omega), h.byte k (by omega)⟩

/-- A sample above, or the top-left one. -/
theorem Holds.top (h : Holds nt p b) {i x : Int} (hlo : -1 ≤ x) (hhi : x < 2 * nt)
    (hi : i = 2 * nt + 1 + x) :
    IntraPred.refAt nt b i = some (p x (-1)) ∧ Byte (p x (-1)) := by
  obtain ⟨k, rfl⟩ : ∃ k : Nat, i = k := ⟨i.toNat, by omega⟩
  have hscan : atScan p nt k = p x (-1) := by
    rw [atScan_top (by omega)]
    congr 1
    omega
  rw [← hscan]
  exact ⟨h.refAt (by omega), h.byte k (by omega)⟩

-- ---------------------------------------------------------------------------
-- Three taps
-- ---------------------------------------------------------------------------

theorem atScan_threeTap (hlo : 0 < i) (hhi : i < 4 * nt) :
    atScan (threeTap p nt) nt i =
      (atScan p nt (i - 1) + 2 * atScan p nt i + atScan p nt (i + 1) + 2) / 4 := by
  rcases Nat.lt_trichotomy i (2 * nt) with hlt | heq | hgt
  · have hbefore : 2 * (nt : Int) - 1 - (i - 1 : Nat) = 2 * nt - 1 - i + 1 := by omega
    have hbehind : 2 * (nt : Int) - 1 - (i + 1 : Nat) = 2 * nt - 1 - i - 1 := by omega
    rw [atScan_left hlt.le, atScan_left hlt.le, atScan_left (by omega), atScan_left (by omega),
      threeTap, if_neg (by omega), if_pos rfl, if_neg (by omega), hbefore, hbehind]
  · have hcorner : 2 * (nt : Int) - 1 - i = -1 := by omega
    have hbefore : 2 * (nt : Int) - 1 - (i - 1 : Nat) = 0 := by omega
    have hbehind : ((i + 1 : Nat) : Int) - 2 * nt - 1 = 0 := by omega
    rw [atScan_left heq.le, atScan_left heq.le, atScan_left (by omega), atScan_top (by omega),
      threeTap, hcorner, if_pos ⟨rfl, rfl⟩, hbefore, hbehind]
  · have hbefore : ((i - 1 : Nat) : Int) - 2 * nt - 1 = i - 2 * nt - 1 - 1 := by omega
    have hbehind : ((i + 1 : Nat) : Int) - 2 * nt - 1 = i - 2 * nt - 1 + 1 := by omega
    rw [atScan_top hgt.le, atScan_top hgt.le, atScan_top (by omega), atScan_top (by omega),
      threeTap, if_neg (by omega), if_neg (by omega), if_neg (by omega), hbefore, hbehind]

theorem atScan_threeTap_first (hnt : 0 < nt) : atScan (threeTap p nt) nt 0 = atScan p nt 0 := by
  rw [atScan_left (by omega), atScan_left (by omega), threeTap, if_neg (by omega), if_pos rfl,
    if_pos (by push_cast; omega)]

theorem atScan_threeTap_last (hnt : 0 < nt) :
    atScan (threeTap p nt) nt (4 * nt) = atScan p nt (4 * nt) := by
  rw [atScan_top (by omega), atScan_top (by omega), threeTap, if_neg (by omega),
    if_neg (by omega), if_pos (by push_cast; omega)]

-- ---------------------------------------------------------------------------
-- Strong smoothing
-- ---------------------------------------------------------------------------

theorem blend_byte {n w a c : Int} (hn : n = 32 ∨ n = 64) (hlo : 0 ≤ w) (hhi : w ≤ n)
    (ha : Byte a) (hc : Byte c) : Byte (((n - w) * a + w * c + n / 2) / n) := by
  have h1 : 0 ≤ (n - w) * a := mul_nonneg (by omega) ha.1
  have h2 : 0 ≤ w * c := mul_nonneg hlo hc.1
  have h3 : (n - w) * a ≤ (n - w) * 255 := mul_le_mul_of_nonneg_left ha.2 (by omega)
  have h4 : w * c ≤ w * 255 := mul_le_mul_of_nonneg_left hc.2 hlo
  unfold Byte
  rcases hn with rfl | rfl <;> omega

theorem atScan_biLinear_left (hlo : 0 < i) (hhi : i < 64) :
    atScan (biLinear p) 32 i =
      ((64 - i) * atScan p 32 0 + i * atScan p 32 64 + 32) / 64 := by
  rw [atScan_left (by omega), atScan_left (by omega), atScan_left (by omega), biLinear,
    if_neg (by omega), if_pos rfl, if_neg (by omega)]
  push_cast
  congr 2
  ring_nf

theorem atScan_biLinear_top (hlo : 0 < i) (hhi : i < 64) :
    atScan (biLinear p) 32 (64 + i) =
      ((64 - i) * atScan p 32 64 + i * atScan p 32 128 + 32) / 64 := by
  rw [atScan_top (by omega), atScan_left (by omega : 64 ≤ 2 * 32), atScan_top (by omega), biLinear,
    if_neg (by push_cast; omega), if_neg (by push_cast; omega), if_neg (by push_cast; omega)]
  push_cast
  congr 2
  ring_nf

-- ---------------------------------------------------------------------------
-- The function
-- ---------------------------------------------------------------------------

theorem filterFlag_eq (hmode : mode < 35) (hnt : nt = 4 ∨ nt = 8 ∨ nt = 16 ∨ nt = 32) :
    (gau1IntraPredRefFilter.getD mode 0 &&& 1 <<< (ctz nt - 2) ≠ 0) ↔
      filterFlag mode nt = true := by
  have hall : ∀ m < 35, ∀ k ∈ [4, 8, 16, 32],
      (gau1IntraPredRefFilter.getD m 0 &&& 1 <<< (ctz k - 2) ≠ 0) ↔ filterFlag m k = true := by
    decide +kernel
  exact hall mode hmode nt (by simpa using hnt)

theorem absCond_eq (h : Holds nt p b) {i j k : Nat} (hi : i < 4 * nt + 1) (hj : j < 4 * nt + 1)
    (hk : k < 4 * nt + 1) :
    absCond nt b (i : Nat) (j : Nat) (k : Nat) =
      some (decide (|atScan p nt i + atScan p nt j - 2 * atScan p nt k| < 2 ^ (8 - 5))) := by
  simp only [absCond, h.refAt hi, h.refAt hj, h.refAt hk, Option.bind_eq_bind, Option.bind_some]
  rfl

theorem biLinearIntFlag_eq (h : Holds nt p b) (hnt : 0 < nt) (strong : Nat) :
    biLinearIntFlag nt b strong = some (biIntFlag (decide (strong = 1)) p nt) := by
  unfold biLinearIntFlag biIntFlag
  by_cases hcond : strong = 1 ∧ nt = 32
  · obtain ⟨rfl, rfl⟩ := hcond
    have htop : absCond 32 b (2 * (32 : Nat)) (4 * (32 : Nat)) (3 * (32 : Nat)) =
        some (decide (|p (-1) (-1) + p ((32 : Nat) * 2 - 1) (-1) - 2 * p ((32 : Nat) - 1) (-1)| <
          2 ^ (8 - 5))) :=
      absCond_eq h (i := 64) (j := 128) (k := 96) (by decide) (by decide) (by decide)
    have hleft : absCond 32 b (2 * (32 : Nat)) 0 (32 : Nat) =
        some (decide (|p (-1) (-1) + p (-1) ((32 : Nat) * 2 - 1) - 2 * p (-1) ((32 : Nat) - 1)| <
          2 ^ (8 - 5))) :=
      absCond_eq h (i := 64) (j := 0) (k := 32) (by decide) (by decide) (by decide)
    rw [if_pos ⟨rfl, rfl⟩, htop, hleft]
    simp only [Option.bind_eq_bind, Option.bind_some, decide_true, Bool.true_and]
    rw [Bool.and_comm]
    rfl
  · rw [if_neg hcond]
    rcases not_and_or.mp hcond with hs | hn
    · simp [hs]
    · simp [hn]

theorem smoothFlt_spec (h : Holds nt p b) (hnt : 0 < nt) (hmax : nt ≤ 32) (flt : Cells Int) :
    ∃ flt', smoothFlt nt b flt = some flt' ∧
      Wrote 1 (4 * nt) True (atScan (threeTap p nt) nt) flt flt' ∧
      ∀ i, 0 < i → i < 4 * nt → Byte (atScan (threeTap p nt) nt i) := by
  have hbyte : ∀ i, 0 < i → i < 4 * nt → Byte (atScan (threeTap p nt) nt i) := by
    intro i hlo hhi
    have h1 := h.byte (i - 1) (by omega)
    have h2 := h.byte i (by omega)
    have h3 := h.byte (i + 1) (by omega)
    rw [atScan_threeTap hlo hhi]
    unfold Byte at *
    omega
  have hstore : ∃ flt', smoothFlt nt b flt = some flt' ∧
      Wrote 1 (1 + (4 * nt - 1)) True (atScan (threeTap p nt) nt) flt flt' := by
    refine storeUp_wrote (fun k hk => ?_) (by unfold fltSize maxCuSize; omega)
    have h1 := h.refAt (i := k) (by omega)
    have h2 := h.refAt (i := k + 1) (by omega)
    have h3 := h.refAt (i := k + 2) (by omega)
    rw [← u8_of_byte (hbyte (1 + k) (by omega) (by omega)), atScan_threeTap (by omega) (by omega)]
    push_cast at h2 h3
    simp only [smoothTap, h1, h2, h3, Option.bind_eq_bind, Option.bind_some]
    rw [show 1 + k - 1 = k by omega, show 1 + k = k + 1 by omega]
    rfl
  obtain ⟨flt', hflt', hw⟩ := hstore
  rw [show 1 + (4 * nt - 1) = 4 * nt by omega] at hw
  exact ⟨flt', hflt', hw, hbyte⟩

theorem strongTap_eq (h : Holds 32 p b) {i j k : Nat} (hi : i < 129) (hj : j < 129)
    (hk : k < 64) : strongTap 32 b (i : Nat) (j : Nat) k =
      some (((64 - k) * atScan p 32 i + k * atScan p 32 j + 32) / 64) := by
  have hblend := blend_byte (n := 64) (w := k) (.inr rfl) (by omega) (by omega) (h.byte i hi)
    (h.byte j hj)
  have hsize : 2 * ((32 : Nat) : Int) = 64 := rfl
  have hpow : (2 : Int) ^ 6 = 64 := rfl
  rw [strongTap, h.refAt hi, h.refAt hj, hsize, hpow]
  exact congrArg some (u8_of_byte hblend)

theorem strongFlt_spec (h : Holds 32 p b) (flt : Cells Int) :
    ∃ flt', strongFlt 32 b flt = some flt' ∧
      Wrote 1 128 True (atScan (biLinear p) 32) flt flt' ∧
      ∀ i, 0 < i → i < 128 → Byte (atScan (biLinear p) 32 i) := by
  have hcorner : atScan (biLinear p) 32 64 = atScan p 32 64 := by
    rw [atScan_left (by decide), atScan_left (by decide)]
    exact if_pos ⟨rfl, rfl⟩
  have hhalf : ∀ i j : Nat, i < 129 → j < 129 → ∀ k : Nat, k < 64 →
      Byte (((64 - k) * atScan p 32 i + k * atScan p 32 j + 32) / 64) := by
    intro i j hi hj k hk
    exact blend_byte (n := 64) (w := k) (.inr rfl) (by omega) (by omega) (h.byte i hi) (h.byte j hj)
  have hbyte : ∀ i, 0 < i → i < 128 → Byte (atScan (biLinear p) 32 i) := by
    intro i hlo hhi
    rcases Nat.lt_trichotomy i 64 with hlt | rfl | hgt
    · rw [atScan_biLinear_left hlo hlt]
      exact hhalf 0 64 (by decide) (by decide) i hlt
    · rw [hcorner]
      exact h.byte 64 (by decide)
    · obtain ⟨k, rfl⟩ : ∃ k, i = 64 + k := ⟨i - 64, by omega⟩
      rw [atScan_biLinear_top (by omega) (by omega)]
      exact hhalf 64 128 (by decide) (by decide) k (by omega)
  obtain ⟨f₁, e₁, w₁⟩ : ∃ f₁, store fltSize flt ((2 * 32 : Nat) : Int) (atScan p 32 64) = some f₁ ∧
      Wrote 64 65 True (atScan (biLinear p) 32) flt f₁ := by
    refine ⟨_, if_pos (by decide), fun _ i hlo hhi => ?_, fun i hi => if_neg ?_⟩
    · obtain rfl : i = 64 := by omega
      rw [hcorner]
      rfl
    · intro heq
      exact hi (by rw [heq]; decide)
  obtain ⟨f₂, e₂, w₂⟩ : ∃ f₂, storeUp fltSize (1 : Nat)
      (fun k => strongTap 32 b 0 (2 * (32 : Nat)) (1 + k)) f₁ (2 * 32 - 1) = some f₂ ∧
        Wrote 1 64 True (atScan (biLinear p) 32) f₁ f₂ := by
    refine storeUp_wrote (fun k hk => ?_) (by decide)
    rw [atScan_biLinear_left (by omega) (by omega)]
    exact strongTap_eq h (i := 0) (j := 64) (by decide) (by decide) (by omega)
  obtain ⟨f₃, e₃, w₃⟩ : ∃ f₃, storeUp fltSize ((2 * 32 + 1 : Nat) : Int)
      (fun k => strongTap 32 b (2 * (32 : Nat)) (4 * (32 : Nat)) (1 + k)) f₂ (2 * 32 - 1) =
        some f₃ ∧ Wrote 65 128 True (atScan (biLinear p) 32) f₂ f₃ := by
    refine storeUp_wrote (fun k hk => ?_) (by decide)
    rw [show 2 * 32 + 1 + k = 64 + (1 + k) by omega, atScan_biLinear_top (by omega) (by omega)]
    exact strongTap_eq h (i := 64) (j := 128) (by decide) (by decide) (by omega)
  refine ⟨f₃, ?_, ⟨fun _ i hlo hhi => ?_, fun i hi => ?_⟩, hbyte⟩
  · have hload : refAt 32 b (2 * (32 : Nat)) = some (atScan p 32 64) :=
      h.refAt (i := 64) (by decide)
    simp only [strongFlt, hload, Option.bind_eq_bind, Option.bind_some]
    rw [e₁, Option.bind_some, e₂, Option.bind_some, e₃]
  · rcases Nat.lt_trichotomy i 64 with hlt | rfl | hgt
    · rw [w₃.frame i (by omega), w₂.cell trivial i hlo hlt]
    · rw [w₃.frame 64 (by omega), w₂.frame 64 (by omega), w₁.cell trivial 64 (by omega) (by omega)]
    · exact w₃.cell trivial i (by omega) hhi
  · rw [w₃.frame i (by omega), w₂.frame i (by omega), w₁.frame i (by omega)]

/-- What both filters leave unchanged. -/
theorem biLinear_ends : atScan (biLinear p) 32 0 = atScan p 32 0 ∧
    atScan (biLinear p) 32 128 = atScan p 32 128 := by
  constructor
  · rw [atScan_left (by decide), atScan_left (by decide), biLinear, if_neg (by decide), if_pos rfl]
    exact if_pos rfl
  · rw [atScan_top (by decide), atScan_top (by decide), biLinear, if_neg (by decide),
      if_neg (by decide)]
    exact if_pos rfl

/-- The filtered array, from the inner cells that one of the filters computes. -/
theorem refFiltering_inner {q : Samples} (h : Holds nt p b) (hnt : 0 < nt) (hmax : nt ≤ 32)
    (fill : Cells Int → Option (Cells Int))
    (hfill : ∀ flt, ∃ flt', fill flt = some flt' ∧ Wrote 1 (4 * nt) True (atScan q nt) flt flt' ∧
      ∀ i, 0 < i → i < 4 * nt → Byte (atScan q nt i))
    (hfirst : atScan q nt 0 = atScan p nt 0)
    (hlast : atScan q nt (4 * nt) = atScan p nt (4 * nt)) :
    ∃ b', (do
        let first ← refAt nt b 0
        let flt ← store fltSize fresh 0 first
        let last ← refAt nt b (4 * nt)
        let flt ← store fltSize flt ((4 * nt : Nat) : Int) last
        let flt ← fill flt
        storeUp (4 * nt + 1) (0 : Nat) (fun i => load fltSize flt i) fresh (4 * nt + 1)) = some b' ∧
      Holds nt q b' := by
  have hload0 : refAt nt b 0 = some (atScan p nt 0) := h.refAt (i := 0) (by omega)
  have hload4 : refAt nt b (4 * nt) = some (atScan p nt (4 * nt)) := by
    have hload := h.refAt (i := 4 * nt) (by omega)
    push_cast at hload
    exact hload
  obtain ⟨f₁, e₁, w₁⟩ : ∃ f₁, store fltSize fresh 0 (atScan p nt 0) = some f₁ ∧
      Wrote 0 1 True (atScan q nt) fresh f₁ := by
    refine ⟨_, if_pos (by decide), fun _ i hlo hhi => ?_, fun i hi => if_neg ?_⟩
    · obtain rfl : i = 0 := by omega
      rw [hfirst]
      rfl
    · intro heq
      exact hi (by rw [heq]; decide)
  obtain ⟨f₂, e₂, w₂⟩ : ∃ f₂, store fltSize f₁ ((4 * nt : Nat) : Int) (atScan p nt (4 * nt)) =
      some f₂ ∧ Wrote (4 * nt) (4 * nt + 1) True (atScan q nt) f₁ f₂ := by
    refine ⟨_, if_pos (by unfold fltSize maxCuSize; omega), fun _ i hlo hhi => ?_,
      fun i hi => if_neg (by omega)⟩
    rw [if_pos (by omega), show i = 4 * nt by omega, hlast]
  obtain ⟨f₃, e₃, w₃, hbyte⟩ := hfill f₂
  have hcell : ∀ i < 4 * nt + 1, f₃ i = some (atScan q nt i) := by
    intro i hi
    rcases Nat.eq_zero_or_pos i with rfl | hlo
    · rw [w₃.frame 0 (by omega), w₂.frame 0 (by omega), w₁.cell trivial 0 (by omega) (by omega)]
    · by_cases hhi : i < 4 * nt
      · exact w₃.cell trivial i hlo hhi
      · rw [w₃.frame i (by omega), w₂.cell trivial i (by omega) hi]
  obtain ⟨f₄, e₄, w₄⟩ : ∃ f₄, storeUp (4 * nt + 1) (0 : Nat) (fun i => load fltSize f₃ i) fresh
      (4 * nt + 1) = some f₄ ∧ Wrote 0 (0 + (4 * nt + 1)) True (atScan q nt) fresh f₄ := by
    refine storeUp_wrote (fun k hk => ?_) (by omega)
    rw [load_eq (by unfold fltSize maxCuSize; omega), Int.toNat_natCast, Nat.zero_add, hcell k hk]
  refine ⟨f₄, ?_, fun i hi => w₄.cell trivial i (Nat.zero_le i) (by omega), fun i hi => ?_⟩
  · rw [hload0, hload4]
    simp only [Option.bind_eq_bind, Option.bind_some]
    rw [e₁, Option.bind_some, e₂, Option.bind_some, e₃, Option.bind_some, e₄]
  · rcases Nat.eq_zero_or_pos i with rfl | hlo
    · rw [hfirst]
      exact h.byte 0 (by omega)
    · by_cases hhi : i < 4 * nt
      · exact hbyte i hlo hhi
      · rw [show i = 4 * nt by omega, hlast]
        exact h.byte _ (by omega)

theorem ihevcIntraPredRefFiltering_spec (h : Holds nt p b)
    (hnt : nt = 4 ∨ nt = 8 ∨ nt = 16 ∨ nt = 32) (hmode : mode < 35) (flags : Nat) :
    ∃ b', ihevcIntraPredRefFiltering nt b mode flags = some b' ∧
      Holds nt (filtered (decide (flags >>> 3 ≠ 0)) (decide (flags &&& 1 = 1)) mode nt p) b' := by
  have hpos : 0 < nt := by omega
  have hflag := filterFlag_eq hmode hnt
  unfold ihevcIntraPredRefFiltering filtered
  by_cases hon : flags >>> 3 = 0 ∧ filterFlag mode nt = true
  · have hne := hflag.mpr hon.2
    simp only [hon.1, ne_eq, not_true_eq_false, if_false, decide_false, Bool.not_false, hon.2,
      Bool.and_self, if_true]
    rw [if_neg hne, biLinearIntFlag_eq h hpos]
    simp only [Option.bind_eq_bind, Option.bind_some]
    cases hbi : biIntFlag (decide (flags &&& 1 = 1)) p nt with
    | true =>
      have h32 : nt = 32 := by
        simp only [biIntFlag, Bool.and_eq_true, decide_eq_true_iff] at hbi
        exact hbi.1.1.2
      subst h32
      exact refFiltering_inner h hpos (by omega) (strongFlt 32 b) (strongFlt_spec h)
        biLinear_ends.1 biLinear_ends.2
    | false =>
      exact refFiltering_inner h hpos (by omega) (smoothFlt nt b)
        (smoothFlt_spec h hpos (by omega)) (atScan_threeTap_first hpos) (atScan_threeTap_last hpos)
  · have hcopy : ∃ b', storeUp (4 * nt + 1) (0 : Nat) (fun i => refAt nt b i) fresh (4 * nt + 1) =
        some b' ∧ Wrote 0 (0 + (4 * nt + 1)) True (atScan p nt) fresh b' := by
      refine storeUp_wrote (fun k hk => ?_) (by omega)
      rw [Nat.zero_add]
      exact h.refAt hk
    obtain ⟨b', hb', hw⟩ := hcopy
    have hoff : (!decide (flags >>> 3 ≠ 0) && filterFlag mode nt) = false := by
      simpa using hon
    rw [hoff]
    refine ⟨b', ?_, fun i hi => hw.cell trivial i (Nat.zero_le i) (by omega), h.byte⟩
    have hzero : (if flags >>> 3 ≠ 0 then 0
        else gau1IntraPredRefFilter.getD mode 0 &&& 1 <<< (ctz nt - 2)) = 0 := by
      by_cases hdis : flags >>> 3 = 0
      · rw [if_neg (by simpa using hdis)]
        by_contra hne
        exact hon ⟨hdis, hflag.mp hne⟩
      · rw [if_pos hdis]
    simp only [hzero, if_true]
    exact hb'

end Libhevc.IntraPred
