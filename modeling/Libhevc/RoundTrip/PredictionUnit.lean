import Libhevc.Decoder.ParseCodingUnit
import Libhevc.Encoder.CodingUnit
import Libhevc.RoundTrip.Bins

/-!
# Prediction units round trip

Merge data, reference indices, vector differences and intra modes, as the parser gets them from
the bins of the writer. What is not in the stream has its default value.
-/

namespace Libhevc.RoundTrip

open Reader Encoder Decoder Encoder.CuSyntax Decoder.CuSyntax

-- ---------------------------------------------------------------------------
-- Merge index and references
-- ---------------------------------------------------------------------------

theorem mergeIdx_reads (h : mergeIdx < max 1 maxMergeCand) :
    Reads (parseMergeIdx maxMergeCand : BinReader ρ Nat)
      (ihevceCabacEncodeMergeIdx mergeIdx maxMergeCand) mergeIdx := by
  unfold parseMergeIdx ihevceCabacEncodeMergeIdx
  by_cases hmax : 1 < maxMergeCand
  · rw [if_pos hmax, if_pos hmax]
    refine (decodeBin_reads _ _).bind (Reads.bind_nil (a := mergeIdx - 1) ?_
      (Reads.pure_of_eq ?_))
    · simp only [decide_eq_true_eq]
      refine Reads.ite_pure (fun _ => tunaryBypass_reads ?_) fun hnot => ?_
      all_goals omega
    · simp only [decide_eq_true_eq]
      split_ifs
      all_goals omega
  · obtain rfl : mergeIdx = 0 := by omega
    rw [if_neg hmax, if_neg hmax]
    refine (Reads.pure false).nil_bind ?_
    simp only [Bool.false_eq_true, and_false, if_false]
    exact (Reads.pure 0).nil_bind (Reads.pure 0)

/-- No bi-prediction for blocks of 8x4 and 4x8. -/
theorem interPredIdc_reads (h : puWPlusPuH = 12 → mode ≠ .predBi) :
    Reads (parseInterPredIdc ctDepth puWPlusPuH : BinReader ρ PredMode)
      (ihevceCabacEncodeInterPredIdc mode ctDepth puWPlusPuH) mode := by
  unfold parseInterPredIdc ihevceCabacEncodeInterPredIdc
  by_cases htwelve : puWPlusPuH = 12
  · rw [if_pos htwelve, if_pos htwelve]
    refine (Reads.pure false).nil_bind ?_
    rw [if_pos rfl]
    refine (decodeBin_reads _ _).bind_nil ?_
    cases mode with
    | predL0 => exact Reads.pure _
    | predL1 => exact Reads.pure _
    | predBi => exact absurd rfl (h htwelve)
  · rw [if_neg htwelve, if_neg htwelve]
    refine (decodeBin_reads _ _).bind ?_
    cases mode with
    | predL0 => exact (decodeBin_reads _ _).bind_nil (Reads.pure _)
    | predL1 => exact (decodeBin_reads _ _).bind_nil (Reads.pure _)
    | predBi => exact (Reads.pure false).nil_bind (Reads.pure _)

/-- The clip to the DPB does nothing to an index below its size. -/
theorem refIdx_reads (h : refIdx < max 1 activeRefs) (hdpb : refIdx < maxDpbSize) :
    Reads (parseRefIdx activeRefs : BinReader ρ Nat) (ihevceCabacEncodeRefidx refIdx activeRefs)
      refIdx := by
  unfold parseRefIdx ihevceCabacEncodeRefidx
  have hsum : (decide (0 < refIdx)).toNat + (decide (1 < refIdx)).toNat + (refIdx - 2) =
      refIdx := by
    rcases refIdx with _ | _ | n
    · rfl
    · rfl
    · simp only [Nat.zero_lt_succ, decide_true, Bool.toNat_true, Nat.lt_add_left_iff_pos]
      omega
  have hclip : min refIdx (maxDpbSize - 1) = refIdx := min_eq_left (Nat.le_pred_of_lt hdpb)
  by_cases hone : 1 < activeRefs
  · rw [if_pos hone, if_pos hone]
    refine (decodeBin_reads _ _).bind (Reads.bind (a := decide (1 < refIdx)) ?_
      (Reads.bind_nil (a := refIdx - 2) ?_ (Reads.pure_of_eq (hsum.symm ▸ hclip))))
    · simp only [decide_eq_true_eq]
      refine Reads.ite_pure (fun _ => decodeBin_reads _ _) fun hnot => decide_eq_false ?_
      omega
    · simp only [decide_eq_true_eq]
      refine Reads.ite_pure (fun hrest => tunaryBypass_reads (by omega)) fun hnot => ?_
      omega
  · obtain rfl : refIdx = 0 := by omega
    rw [if_neg hone, if_neg hone]
    refine (Reads.pure false).nil_bind ?_
    simp only [Bool.false_eq_true, and_false, if_false]
    refine (Reads.pure false).nil_bind ?_
    simp only [Bool.false_eq_true, and_false, if_false]
    exact (Reads.pure 0).nil_bind (Reads.pure 0)

-- ---------------------------------------------------------------------------
-- Vector differences
-- ---------------------------------------------------------------------------

/-- A component of a vector difference is in 16 bits. -/
structure MvdLegal (mvd : Mv) : Prop where
  x : -2 ^ 15 ≤ mvd.i2Mvx ∧ mvd.i2Mvx < 2 ^ 15
  y : -2 ^ 15 ≤ mvd.i2Mvy ∧ mvd.i2Mvy < 2 ^ 15

theorem mvdRest_reads {mvd : Int} (h : -2 ^ 15 ≤ mvd ∧ mvd < 2 ^ 15) :
    Reads (parseMvdRest (0 < mvd.natAbs) (1 < mvd.natAbs) : BinReader ρ Int) (encodeMvdRest mvd)
      mvd := by
  unfold parseMvdRest encodeMvdRest
  simp only [decide_eq_true_eq]
  have habs : (if 0 < mvd.natAbs then if 1 < mvd.natAbs then mvd.natAbs - 2 + 2 else 1 else 0) =
      mvd.natAbs := by
    split_ifs <;> omega
  refine Reads.bind (a := mvd.natAbs - 2) ?_ (Reads.bind_nil (a := decide (mvd < 0)) ?_ ?_)
  · refine Reads.ite_pure (fun _ => egk_reads 1 ?_) fun hone => ?_
    all_goals omega
  · refine Reads.ite_pure (fun _ => decodeBypassBin_reads _) fun hzero => decide_eq_false ?_
    omega
  · refine Reads.pure_of_eq ?_
    have hsign : (if mvd < 0 then -(mvd.natAbs : Int) else mvd.natAbs) = mvd := by
      split_ifs <;> omega
    simp only [habs, decide_eq_true_eq, hsign]
    exact wrapInt_of_bounds (by decide) h.1 h.2

theorem mvd_reads {mvd : Mv} (h : MvdLegal mvd) :
    Reads (ihevcdParseMvd : BinReader ρ Mv) (ihevceCabacEncodeMvd mvd) mvd := by
  unfold ihevcdParseMvd ihevceCabacEncodeMvd
  have hgreater1 (n : Nat) : Reads
      (if decide (0 < n) = true then decodeBin ihevcCabMvdGrt1 else pure false : BinReader ρ Bool)
      (if 0 < n then [.ctxt ihevcCabMvdGrt1 (1 < n)] else []) (1 < n) := by
    simp only [decide_eq_true_eq]
    refine Reads.ite_pure (fun _ => decodeBin_reads _ _) fun hzero => decide_eq_false ?_
    omega
  refine (decodeBin_reads _ _).bind ((decodeBin_reads _ _).bind ?_)
  refine (hgreater1 _).bind ((hgreater1 _).bind ?_)
  exact (mvdRest_reads h.x).bind ((mvdRest_reads h.y).bind_nil (Reads.pure mvd))

-- ---------------------------------------------------------------------------
-- Motion
-- ---------------------------------------------------------------------------

/-- What the stream has for one list. -/
theorem listMotion_reads {mvd : Mv} {used zeroMvd : Bool}
    (hidx : used = true → refIdx < max 1 activeRefs ∧ refIdx < maxDpbSize)
    (hlegal : used = true → MvdLegal mvd)
    (hzero : zeroMvd = true → mvd = .zero) (mvp : Bool) :
    Reads (parseListMotion used activeRefs zeroMvd : BinReader ρ (Int × Mv × Bool))
      (if used = true then
        ihevceCabacEncodeRefidx refIdx activeRefs ++
          ((if zeroMvd = true then [] else ihevceCabacEncodeMvd mvd) ++ [.ctxt ihevcCabMvpL0L1 mvp])
      else [])
      (if used = true then ((refIdx : Int), mvd, mvp) else (0, Mv.zero, false)) := by
  unfold parseListMotion
  cases used with
  | false =>
    simp only [Bool.false_eq_true, false_and, if_false]
    exact (Reads.pure 0).nil_bind ((Reads.pure _).nil_bind ((Reads.pure _).nil_bind (Reads.pure _)))
  | true =>
    simp only [if_true, true_and]
    refine (refIdx_reads (hidx rfl).1 (hidx rfl).2).bind (Reads.bind ?_
      ((decodeBin_reads _ mvp).bind_nil (Reads.pure _)))
    cases zeroMvd with
    | false => exact mvd_reads (hlegal rfl)
    | true => exact hzero rfl ▸ Reads.pure _

/-- What the motion of a prediction unit may be: the indices are below their maxima. -/
structure MotionLegal (h : CuHeader) (pu : PuSyntax) : Prop where
  pslice : h.i1SliceType ≠ .bslice → pu.b2PredMode = .predL0
  small : pu.wPlusH = 12 → pu.b2PredMode ≠ .predBi
  refIdx0 : pu.b2PredMode ≠ .predL1 → 0 ≤ pu.mv.i1L0RefIdx ∧
    pu.mv.i1L0RefIdx.toNat < max 1 h.i1NumRefIdxL0Active ∧ pu.mv.i1L0RefIdx.toNat < maxDpbSize
  refIdx1 : pu.b2PredMode ≠ .predL0 → 0 ≤ pu.mv.i1L1RefIdx ∧
    pu.mv.i1L1RefIdx.toNat < max 1 h.i1NumRefIdxL1Active ∧ pu.mv.i1L1RefIdx.toNat < maxDpbSize
  mvd0 : MvdLegal pu.mv.sL0Mv
  mvd1 : MvdLegal pu.mv.sL1Mv
  zeroMvd : h.i1MvdL1ZeroFlag = true → pu.b2PredMode = .predBi → pu.mv.sL1Mv = .zero

structure PuLegal (h : CuHeader) (pu : PuSyntax) : Prop where
  mergeIdx : pu.b1MergeFlag = true → pu.b3MergeIdx < max 1 h.i1MaxNumMergeCand
  motion : pu.b1MergeFlag = false → MotionLegal h pu

/-- The motion that is in the stream: that of the lists in use. -/
def usedMotion (pu : PuSyntax) : PuSyntax :=
  let l0 := decide (pu.b2PredMode ≠ .predL1)
  let l1 := decide (pu.b2PredMode ≠ .predL0)
  { pu with
    b1L0MvpIdx := l0 && pu.b1L0MvpIdx
    b1L1MvpIdx := l1 && pu.b1L1MvpIdx
    mv :=
      { sL0Mv := if l0 then pu.mv.sL0Mv else .zero
        sL1Mv := if l1 then pu.mv.sL1Mv else .zero
        i1L0RefIdx := if l0 then pu.mv.i1L0RefIdx else 0
        i1L1RefIdx := if l1 then pu.mv.i1L1RefIdx else 0 } }

/-- The place of a unit, without its motion. -/
def place (pu : PuSyntax) : PuSyntax :=
  { pu with
    b1IntraFlag := false
    b1MergeFlag := false
    b3MergeIdx := 0
    b2PredMode := .predL0
    b1L0MvpIdx := false
    b1L1MvpIdx := false
    mv := { sL0Mv := .zero, sL1Mv := .zero, i1L0RefIdx := 0, i1L1RefIdx := 0 } }

/-- What the stream says of a unit. -/
def carried (skip : Bool) (pu : PuSyntax) : PuSyntax :=
  if skip || pu.b1MergeFlag then { place pu with b1MergeFlag := true, b3MergeIdx := pu.b3MergeIdx }
  else { usedMotion pu with b1IntraFlag := false, b1MergeFlag := false, b3MergeIdx := 0 }

theorem motion_reads (hlegal : MotionLegal h pu) (ctDepth : Nat) :
    Reads (ihevcdParsePuMvp h ctDepth (place pu) : BinReader ρ PuSyntax)
      (encodeMotion h pu ctDepth)
      { usedMotion pu with b1IntraFlag := false, b1MergeFlag := false, b3MergeIdx := 0 } := by
  unfold ihevcdParsePuMvp encodeMotion
  have hidc : Reads (if h.i1SliceType = .bslice then parseInterPredIdc ctDepth (place pu).wPlusH
        else pure .predL0 : BinReader ρ PredMode)
      (if h.i1SliceType = .bslice then
        ihevceCabacEncodeInterPredIdc pu.b2PredMode ctDepth pu.wPlusH else []) pu.b2PredMode :=
    Reads.ite_pure (fun _ => interPredIdc_reads hlegal.small) hlegal.pslice
  have hl0 := @listMotion_reads pu.mv.i1L0RefIdx.toNat h.i1NumRefIdxL0Active ρ pu.mv.sL0Mv
    (pu.b2PredMode ≠ .predL1) false
    (fun hused => (hlegal.refIdx0 (of_decide_eq_true hused)).2) (fun _ => hlegal.mvd0)
    (fun hzero => Bool.noConfusion hzero) pu.b1L0MvpIdx
  have hl1 := @listMotion_reads pu.mv.i1L1RefIdx.toNat h.i1NumRefIdxL1Active ρ pu.mv.sL1Mv
    (pu.b2PredMode ≠ .predL0) (h.i1MvdL1ZeroFlag && decide (pu.b2PredMode = .predBi))
    (fun hused => (hlegal.refIdx1 (of_decide_eq_true hused)).2) (fun _ => hlegal.mvd1)
    (fun hzero => by
      obtain ⟨hflag, hbi⟩ := (Bool.and_eq_true _ _).mp hzero
      exact hlegal.zeroMvd hflag (of_decide_eq_true hbi)) pu.b1L1MvpIdx
  simp only [decide_eq_true_eq, Bool.and_eq_true, Bool.false_eq_true, if_false] at hl0 hl1
  refine hidc.bind (hl0.bind (hl1.bind_nil (Reads.pure_of_eq ?_)))
  have h0 := hlegal.refIdx0
  have h1 := hlegal.refIdx1
  unfold usedMotion place
  cases hmode : pu.b2PredMode with
  | predL0 => simp_all
  | predL1 => simp_all
  | predBi => simp_all

theorem predictionUnit_reads (hlegal : PuLegal h pu) (ctDepth : Nat) :
    Reads (ihevcdParsePredictionUnit h false ctDepth (place pu) : BinReader ρ PuSyntax)
      (encodePart h pu ctDepth) (carried false pu) := by
  unfold ihevcdParsePredictionUnit encodePart carried
  refine (decodeBin_reads _ _).bind ?_
  cases hmerge : pu.b1MergeFlag with
  | true =>
    simp only [Bool.or_true, if_true]
    exact (mergeIdx_reads (hlegal.mergeIdx hmerge)).bind_nil (Reads.pure _)
  | false =>
    simp only [Bool.or_false, Bool.false_eq_true, if_false]
    exact (Reads.pure 0).nil_bind (motion_reads (hlegal.motion hmerge) ctDepth)

/-- The unit of a skipped coding unit has a merge index and nothing else. -/
theorem skipped_reads (h : pu.b3MergeIdx < max 1 hdr.i1MaxNumMergeCand) (ctDepth : Nat) :
    Reads (ihevcdParsePredictionUnit hdr true ctDepth (place pu) : BinReader ρ PuSyntax)
      (ihevceCabacEncodeMergeIdx pu.b3MergeIdx hdr.i1MaxNumMergeCand) (carried true pu) := by
  unfold ihevcdParsePredictionUnit carried
  refine (Reads.pure true).nil_bind ?_
  simp only [Bool.true_or, if_true]
  exact (mergeIdx_reads h).bind_nil (Reads.pure _)

-- ---------------------------------------------------------------------------
-- Intra modes
-- ---------------------------------------------------------------------------

/-- The modes of an intra coding unit have their ranges. -/
structure IntraLegal (asPrevRem : Nat → IntraPrevRemFlags) (b3ChromaIntraPredMode : Nat) :
    Prop where
  mpmIdx : ∀ i, (asPrevRem i).b2MpmIdx < 3
  rem : ∀ i, (asPrevRem i).b5RemIntraPredMode < 32
  chroma : b3ChromaIntraPredMode ≤ 4

/-- The mode as the parser has it. -/
def lumaMode (flags : IntraPrevRemFlags) : LumaMode :=
  if flags.b1PrevIntraLumaPredFlag then .mpm flags.b2MpmIdx else .rem flags.b5RemIntraPredMode

theorem lumaMode_reads {flags : IntraPrevRemFlags} (hmpm : flags.b2MpmIdx < 3)
    (hrem : flags.b5RemIntraPredMode < 32) :
    Reads (parseLumaMode flags.b1PrevIntraLumaPredFlag : BinReader ρ LumaMode)
      (encodeLumaMode flags) (lumaMode flags) := by
  obtain ⟨prev, mpmIdx, remMode⟩ := flags
  cases prev with
  | false => exact (bypassBins_reads_lt hrem).bind_nil (Reads.pure _)
  | true =>
    -- the bins are those of the truncated unary code
    have hbins : encodeLumaMode ⟨true, mpmIdx, remMode⟩ =
        (ihevceCabacEncodeTunaryBypass mpmIdx 2 : List (Bin ρ)) := by
      rcases mpmIdx with _ | _ | _ | n
      · rfl
      · simp [encodeLumaMode, ihevceCabacEncodeTunaryBypass]
      · simp [encodeLumaMode, ihevceCabacEncodeTunaryBypass]
      · exact absurd hmpm (by simp)
    rw [hbins]
    exact (tunaryBypass_reads (Nat.le_of_lt_succ hmpm)).bind_nil (Reads.pure _)

theorem chromaMode_reads (h : chromaMode ≤ 4) :
    Reads (if decide (chromaMode ≠ 4) = true then decodeBypassBins 2 0 else pure 4 :
        BinReader ρ Nat)
      (if chromaMode ≠ 4 then bypassBins chromaMode 2 else []) chromaMode := by
  simp only [decide_eq_true_eq]
  refine Reads.ite_pure (fun hne => bypassBins_reads_lt ?_) fun heq => not_not.mp heq
  omega

theorem intraPu_reads (hlegal : IntraLegal asPrevRem chromaMode) (partMode : PartMode) :
    Reads (ihevcdParseCodingUnitIntra partMode : BinReader ρ (List LumaMode × Nat))
      (ihevceCabacEncodeIntraPu partMode asPrevRem chromaMode)
      ((List.range (if partMode = .partNxN then 4 else 1)).map (fun i => lumaMode (asPrevRem i)),
        chromaMode) := by
  unfold ihevcdParseCodingUnitIntra ihevceCabacEncodeIntraPu
  generalize (if partMode = .partNxN then 4 else 1) = numParts
  refine Reads.bind (Reads.mapM fun i _ =>
    decodeBin_reads _ (asPrevRem i).b1PrevIntraLumaPredFlag) ?_
  rw [List.mapM_map]
  refine Reads.bind (Reads.mapM fun i _ => lumaMode_reads (hlegal.mpmIdx i) (hlegal.rem i)) ?_
  refine (decodeBin_reads _ _).bind ?_
  exact (chromaMode_reads hlegal.chroma).bind_nil (Reads.pure _)

end Libhevc.RoundTrip
