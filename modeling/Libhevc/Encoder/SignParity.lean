import Libhevc.Encoder.SignDataHidingRun
import Mathlib.Algebra.BigOperators.Ring.Finset

/-!
# The parities after sign data hiding

Each group ends with the parity of the sign of its first level, but for a
saturated level that grows where position 0 is not saturated.
-/

namespace Libhevc.Encoder

open Finset (range)

variable {ctxt : RdoqSbhCtxt} {s : SbhSt}

-- ---------------------------------------------------------------------------
-- The block after the function
-- ---------------------------------------------------------------------------

/-- What is to hold: each group hides its sign, the values are those of the levels, and the cost
moves as the squared errors do. -/
structure SignDataHidden (ctxt : RdoqSbhCtxt) (s s' : SbhSt) : Prop where
  groups : ∀ u < ctxt.numUnits, GroupHides (ctxt.group s u).level (ctxt.group s' u).level
  untouched : ∀ u < ctxt.numUnits, ctxt.coded u = false → ctxt.group s' u = ctxt.group s u
  dequantised : Dequantised ctxt s → Dequantised ctxt s'
  ssd : s'.i8SsdCost - s.i8SsdCost = blockSsd ctxt s' - blockSsd ctxt s

open Classical in
/-- No saturated level grows, a clear flag stands for a group with nothing to hide, and as many
old errors as new ones have a square that `WORD32` does not hold. -/
structure HidesWhen (ctxt : RdoqSbhCtxt) (s : SbhSt) : Prop where
  grows : ∀ u < ctxt.numUnits, ∀ b, Changed ctxt s u b → ¬ (ctxt.group s u).GrowsSaturated b
  clear : ∀ u < ctxt.numUnits, ctxt.coded u = false → Hidden (ctxt.group s u).level
  wide : ((range ctxt.numUnits).filter (OldErrorWide ctxt s)).card
    = ((range ctxt.numUnits).filter (NewErrorWide ctxt s)).card

/-- Only the levels of a group count. -/
theorem GroupHides.congr (h : GroupHides old new) (heq : ∀ i < 16, new' i = new i) :
    GroupHides old new' := by
  have hsum : sumAbs new' = sumAbs new :=
    Finset.sum_congr rfl fun i hi => by rw [heq i (Finset.mem_range.mp hi)]
  refine ⟨?_, fun hne => ?_, fun f l hf hl hfar => ?_⟩
  · rcases h.change with hsame | ⟨b, hb, hrest, hone⟩
    · exact Or.inl fun j hj => (heq j hj).trans (hsame j hj)
    · refine Or.inr ⟨b, hb, fun j hj hne => (heq j hj).trans (hrest j hj hne), ?_⟩
      rwa [heq b hb]
  · obtain ⟨j, hj, hne'⟩ := h.nonempty hne
    exact ⟨j, hj, by rwa [heq j hj]⟩
  · rw [hsum, heq f hf.lt]
    refine h.hidden f l ⟨hf.lt, ?_, fun i hi => ?_⟩ ⟨hl.lt, ?_, fun i hi hli => ?_⟩ hfar
    · rw [← heq f hf.lt]
      exact hf.ne
    · rw [← heq i (hi.trans hf.lt)]
      exact hf.before i hi
    · rw [← heq l hl.lt]
      exact hl.ne
    · rw [← heq i hi]
      exact hl.behind i hi hli

open Classical in
theorem sum_lostCost :
    ∑ j ∈ range ctxt.numUnits, lostCost ctxt s (ctxt.numUnits - 1 - j)
      = 2 ^ 32 * ((((range ctxt.numUnits).filter (OldErrorWide ctxt s)).card : Int)
        - ((range ctxt.numUnits).filter (NewErrorWide ctxt s)).card) := by
  rw [Finset.sum_range_reflect (fun u => lostCost ctxt s u) ctxt.numUnits]
  unfold lostCost
  rw [← Finset.mul_sum, Finset.sum_sub_distrib, Finset.sum_boole, Finset.sum_boole]

theorem HideResult.hides_iff {s' : SbhSt} (h : HideResult ctxt s s' u)
    (hk : (ctxt.group s u).Ok) :
    GroupHides (ctxt.group s u).level (ctxt.group s' u).level ↔
      (∀ b, Changed ctxt s u b → ¬ (ctxt.group s u).GrowsSaturated b) ∧
      (ctxt.coded u = false → Hidden (ctxt.group s u).level) := by
  rcases h with ⟨hno, hsame, hcoded⟩ | ⟨b, hb, hnew⟩
  · rw [hsame]
    refine ⟨fun hh => ⟨fun b hb => absurd hb (hno b), fun _ => hh.hidden⟩, fun ⟨_, hclear⟩ => ?_⟩
    cases hc : ctxt.coded u with
    | true => exact Group.hides_same (hcoded hc)
    | false => exact ⟨Or.inl fun _ _ => rfl, id, hclear hc⟩
  · have hiff := hk.hides_iff hb.2
    constructor
    · intro hh
      refine ⟨fun b' hb' => ?_, fun hc => ?_⟩
      · rw [← hb.unique hb']
        exact hiff.mp (hh.congr fun i hi => (hnew i hi).symm)
      · rw [hb.1] at hc
        exact absurd hc (by decide)
    · exact fun hh => (hiff.mpr (hh.1 b hb)).congr hnew

/-- A 4x4 block with the level `a` at the first place and `b` in the second row. -/
def twoLevels (a b : Int) (y x : Nat) : Int :=
  if y = 0 ∧ x = 0 then a else if y = 1 ∧ x = 1 then b else 0

def twoLevelCtxt (a b : Int) : RdoqSbhCtxt where
  i4TransSize := 4
  i4ScanIdx := 1
  i4QpDiv := 0
  i2QpRem := 0
  i4BitDepth := 10
  pi2TransValues := twoLevels a b
  pi2DequantCoeff := fun _ _ => 1
  pi4SubBlock2csbfIdMap := fun u => u
  pu1CsbfBuf := fun _ => 1

/-- The levels, dequantised by 40 and a shift of 7. -/
def twoLevelSt (a b iqA iqB : Int) : SbhSt where
  quantCoeffs := twoLevels a b
  iquantCoeffs := twoLevels iqA iqB
  i8SsdCost := 0
  lastCg := -1
  bestPos := -1

end Libhevc.Encoder
