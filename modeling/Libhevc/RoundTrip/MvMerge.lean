import Libhevc.Decoder.MvMerge
import Libhevc.Encoder.MvMerge
import Libhevc.RoundTrip.MvPred

/-!
# Merge candidates of both sides

From the same data, decoder and encoder have the same merge list, which the
decoder only looks into. The encoder's list ends when there is a zero candidate
for each reference picture.
-/

namespace Libhevc.RoundTrip

open Decoder (ihevcdMvMerge mergeContext)
open Encoder (ihevceMvPredMerge MergeCandList)

/-- What the merge list of a partition depends on, on both sides. -/
structure SameMerge (h : Decoder.SliceHeader) (i1Log2ParallelMergeLevel : Nat)
    (c : Encoder.MvPredCtxt) (nbrsD : Nbrs Decoder.Pu) (nbrsE : Nbrs Encoder.Nbr4x4)
    (colD colE : Nat → Nat → ColMvp) : Prop where
  type : h.i1SliceType = c.psSliceHdr.i1SliceType
  numRefIdx : h.numRefIdx = c.psSliceHdr.numRefIdx
  numRefIdx_pos : 0 < c.psSliceHdr.numRefIdx
  refPoc : c.psSliceHdr.i1SliceType = .bslice → ∀ lx refIdx,
    (h.psRefList lx refIdx).pvPicBuf.i4AbsPoc = (c.psRefList lx refIdx).i4Poc
  level : i1Log2ParallelMergeLevel = c.i4Log2ParallelMergeLevelMinus2 + 2
  nbr : ∀ nbr, SameAvail c.psSliceHdr (nbrsD.get nbr) (nbrsE.get nbr)
  avail : ∀ x y lx, (colD x y).u4AvailColFlag lx = (colE x y).u4AvailColFlag lx
  mvCol : ∀ x y lx, (colE x y).u4AvailColFlag lx = true →
    (colD x y).mvCol lx = (colE x y).mvCol lx

section
variable {h : Decoder.SliceHeader} {level : Nat} {c : Encoder.MvPredCtxt} {nbrsD : Nbrs Decoder.Pu}
  {nbrsE : Nbrs Encoder.Nbr4x4} {colD colE : Nat → Nat → ColMvp}

theorem SameNbr.motion {d : Decoder.Pu} {n : Encoder.Nbr4x4} (hnbr : SameNbr e d n) :
    d.mergeCand.motion = n.motion := by
  have hl0 := hnbr.flag .l0
  have hl1 := hnbr.flag .l1
  have hmv0 := hnbr.mv .l0
  have hmv1 := hnbr.mv .l1
  have hidx0 := hnbr.refIdx .l0
  have hidx1 := hnbr.refIdx .l1
  unfold Decoder.MergeCand.motion Decoder.Pu.mergeCand Encoder.Nbr4x4.motion Encoder.flagMotion
  cases hmode : d.b2PredMode <;>
    simp_all [Encoder.Nbr4x4.predFlag, PredMode.uses, PuMv.mv, PuMv.refIdx]

theorem SameMerge.hasMotion (hm : SameMerge h level c nbrsD nbrsE colD colE) :
    Encoder.HasMotion nbrsE := by
  intro nbr havail hinter
  have hnbr := (hm.nbr nbr).nbr havail hinter
  have hl0 := hnbr.flag .l0
  have hl1 := hnbr.flag .l1
  cases hmode : (nbrsD.get nbr).2.b2PredMode <;>
    simp_all [Encoder.Nbr4x4.predFlag, PredMode.uses]

theorem SameMerge.temporalMv (hm : SameMerge h level c nbrsD nbrsE colD colE) (x y x' y' : Nat) :
    temporalMv (colD x y) (colD x' y') = temporalMv (colE x y) (colE x' y') := by
  funext lx
  unfold Libhevc.temporalMv
  rw [hm.avail, hm.avail]
  by_cases hfirst : (colE x y).u4AvailColFlag lx = true
  · rw [if_pos hfirst, if_pos hfirst, hm.mvCol _ _ _ hfirst]
  · rw [if_neg hfirst, if_neg hfirst]
    by_cases hsecond : (colE x' y').u4AvailColFlag lx = true
    · rw [if_pos hsecond, if_pos hsecond, hm.mvCol _ _ _ hsecond]
    · rw [if_neg hsecond, if_neg hsecond]

theorem SameMerge.nbrMotion (hm : SameMerge h level c nbrsD nbrsE colD colE) (nbr : NbrPos) :
    (mergeContext h level nbrsD part colD).motion nbr =
      (c.mergeContext nbrsE part colE).motion nbr := by
  obtain ⟨havail, hintra, hnbr⟩ := hm.nbr nbr
  unfold mergeContext Encoder.MvPredCtxt.mergeContext
  dsimp only
  rw [havail]
  cases hin : (nbrsE.get nbr).1 with
  | false => rfl
  | true =>
    rw [hintra hin]
    cases hinter : (nbrsE.get nbr).2.b1IntraFlag with
    | true => rfl
    | false => exact congrArg some (hnbr hin hinter).motion

/-- The complete list is the same for both sides. -/
theorem SameMerge.mergeList (hm : SameMerge h level c nbrsD nbrsE colD colE) (part : Part)
    (maxCand : Nat) :
    (mergeContext h level nbrsD part colD).mergeList maxCand =
      (c.mergeContext nbrsE part colE).mergeList maxCand := by
  have hcontext : mergeContext h level nbrsD part colD =
      { c.mergeContext nbrsE part colE with
        refPoc := (mergeContext h level nbrsD part colD).refPoc } := by
    refine (Spec.MergeContext.mk.injEq ..).mpr
      ⟨hm.type, hm.numRefIdx, rfl, hm.level, rfl, funext hm.nbrMotion, hm.temporalMv ..⟩
  rw [hcontext]
  refine Spec.mergeList_refPoc fun hb => ?_
  funext lx refIdx
  exact hm.refPoc hb lx refIdx

/-- The decoder returns the entry of the complete list at the merge index, and an entry of the
encoder's list at that index has the same motion. -/
theorem mvMerge_agree (h : Decoder.SliceHeader) (level : Nat) (nbrsD : Nbrs Decoder.Pu) (part : Part)
    (colD : Nat → Nat → ColMvp) (hidx : b3MergeIdx < maxCand) (hmax : maxCand ≤ maxNumMergeCand) :
    ((mergeContext h level nbrsD part colD).mergeList maxCand)[b3MergeIdx]? =
        some (ihevcdMvMerge h level nbrsD b3MergeIdx part colD).motion ∧
      ∀ c nbrsE colE cand, SameMerge h level c nbrsD nbrsE colD colE →
        (ihevceMvPredMerge c nbrsE part colE)[b3MergeIdx]? = some cand →
          cand.motion = (ihevcdMvMerge h level nbrsD b3MergeIdx part colD).motion := by
  refine ⟨Decoder.ihevcdMvMerge_entry hidx hmax, fun c nbrsE colE cand hm hcand => ?_⟩
  have hentry :
      ((mergeContext h level nbrsD part colD).mergeList maxNumMergeCand)[b3MergeIdx]? = _ :=
    Decoder.ihevcdMvMerge_entry (hidx.trans_le hmax) le_rfl
  obtain ⟨rest, hlist⟩ : _ <+: (c.mergeContext nbrsE part colE).mergeList maxNumMergeCand :=
    Encoder.ihevceMvPredMerge_prefix hm.hasMotion hm.numRefIdx_pos
  obtain ⟨hin, _⟩ := List.getElem?_eq_some_iff.mp hcand
  rw [hm.mergeList, ← hlist, List.getElem?_append_left (by simpa using hin), List.getElem?_map,
    hcand] at hentry
  exact Option.some.inj hentry

end

-- ---------------------------------------------------------------------------
-- A slice with one reference picture
-- ---------------------------------------------------------------------------

def wholePart : Part where
  partMode := .part2Nx2N
  partIdx := 0
  partPosX := 0
  partPosY := 0
  partWd := 16
  partHt := 16
  singleMclFlag := false

theorem above_merge :
    SameMerge (aboveDecoder 8) 2 (aboveEncoder 8) (oneAbove abovePu) (oneAbove aboveNbr) noTemporal
      noTemporal where
  type := rfl
  numRefIdx := rfl
  numRefIdx_pos := by decide
  refPoc := nofun
  level := rfl
  nbr
    | .a0 | .a1 | .b0 | .b2 => .unavailable ..
    | .b1 => (above_nbr 8).available rfl
  avail := fun _ _ _ => rfl
  mvCol := fun _ _ _ _ => rfl

/-- The unit above is the first candidate. -/
theorem mvMerge_agree_above :
    ∃ cand, (ihevceMvPredMerge (aboveEncoder 8) (oneAbove aboveNbr) wholePart noTemporal)[0]? =
        some cand ∧
      cand.motion =
        (ihevcdMvMerge (aboveDecoder 8) 2 (oneAbove abovePu) 0 wholePart noTemporal).motion :=
  ⟨_, rfl, (mvMerge_agree (aboveDecoder 8) 2 (oneAbove abovePu) wholePart noTemporal (by decide)
    le_rfl).2 _ _ _ _ above_merge rfl⟩

/-- After one zero candidate the list of the encoder ends, and that of the decoder goes on. -/
theorem mvMerge_short_list :
    SameMerge (aboveDecoder 8) 2 (aboveEncoder 8) (oneAbove abovePu) (oneAbove aboveNbr) noTemporal
        noTemporal ∧
      (ihevceMvPredMerge (aboveEncoder 8) (oneAbove aboveNbr) wholePart noTemporal)[2]? = none ∧
      (ihevcdMvMerge (aboveDecoder 8) 2 (oneAbove abovePu) 2 wholePart noTemporal).motion =
        { l0 := some (.zero, 0), l1 := none } :=
  ⟨above_merge, by decide +kernel, by decide +kernel⟩

end Libhevc.RoundTrip
