import Libhevc.Decoder.Tiles

/-!
# Parameter sets

`ihevcd_parse_pps`, the copies of parsed parameter sets into their slots, and
the cases of `ihevcd_nal_unit` that call them. The last slot of each array is
the one that is parsed into. Of an SPS only what a PPS is compared with is kept.
-/

namespace Libhevc.Decoder

open Memory

def maxSpsCnt : Nat := 16 + 1

def maxPpsCnt : Nat := 64 + 1

def maxDpbSize : Nat := 16

/-- What `ihevcd_get_profile` finds for an SPS that `ihevcd_parse_sps` accepts. -/
inductive Profile
  | main
  | mainStill
  | mainRext
  deriving DecidableEq, Repr

/-- The fields of an accepted SPS that a PPS depends on. -/
structure Sps extends SpsSize where
  profile : Profile
  i1Log2MinCodingBlockSize : Nat
  i1Log2DiffMaxMinCodingBlockSize : Nat
  log2CtbSize_eq :
    i1Log2CtbSize = i1Log2MinCodingBlockSize + i1Log2DiffMaxMinCodingBlockSize

/-- The fields of the range extension. -/
structure PpsRange where
  i1Log2MaxTransformSkipBlockSizeMinus2 : Int
  i1CrossComponentPredictionEnabledFlag : Nat
  i1ChromaQpOffsetListEnabledFlag : Nat
  i1Log2SaoOfstScaleLuma : Int
  i1Log2SaoOfstScaleChroma : Int
  deriving DecidableEq

/-- The fields of a PPS that depend on its SPS. -/
structure Pps extends PpsTiles, PpsRange where
  i1PpsValid : Bool
  i1SpsId : Nat
  i1DiffCuQpDeltaDepth : Nat
  i1Log2MinCuQpDeltaSize : Int
  i1Log2ParallelMergeLevel : Nat

/-- The part of `codec_t` with the parameter sets. -/
structure ParameterSets where
  spsBase : Nat → Option Sps
  ppsBase : Nat → Pps
  i4SpsDone : Bool
  i4PpsDone : Bool
  i4Wd : Nat
  i4Ht : Nat

-- ---------------------------------------------------------------------------
-- Syntax elements with their checks
-- ---------------------------------------------------------------------------

/-- `UEV_PARSE` and the check against an upper bound. -/
def uevAtMost (s : Bitstrm) (bound : Nat) : Except IhevcdErrorT (Nat × Bitstrm) :=
  let get := ihevcdUev s
  if bound < get.1 then .error .invalidParameter else .ok get

/-- `SEV_PARSE` and the check against two bounds. -/
def sevWithin (s : Bitstrm) (lo hi : Int) : Except IhevcdErrorT (Int × Bitstrm) :=
  let get := ihevcdSev s
  if get.1 < lo ∨ hi < get.1 then .error .invalidParameter else .ok get

/-- A syntax element that is there when `flag` is set. -/
def readIf (flag : Nat) (dflt : α) (read : Bitstrm → Except IhevcdErrorT (α × Bitstrm))
    (s : Bitstrm) : Except IhevcdErrorT (α × Bitstrm) :=
  if flag ≠ 0 then read s else .ok (dflt, s)

/-- `n` values of `scaling_list_delta_coef`; the reader stops behind one out of range. -/
def scalingCoefs : Nat → Bitstrm → Bool × Bitstrm
  | 0, s => (true, s)
  | n + 1, s =>
    let get := ihevcdSev s
    if get.1 < -256 ∨ 255 < get.1 then (false, get.2) else scalingCoefs n get.2

/-- One list of `ihevcd_scaling_list_data`. -/
def scalingList (sizeId matrixId : Nat) (s : Bitstrm) : Bool × Bitstrm :=
  let (scalingListPredModeFlag, s) := ihevcdBitsGet s 1
  if scalingListPredModeFlag = 0 then
    let (value, s) := ihevcdUev s
    (if sizeId ≤ 2 then value ≤ matrixId else value ≤ matrixId / 3, s)
  else
    let coefNum := min 64 (1 <<< (4 + sizeId <<< 1))
    if 1 < sizeId then
      let (value, s) := ihevcdSev s
      if value < -7 ∨ 247 < value then (false, s) else scalingCoefs coefNum s
    else scalingCoefs coefNum s

def scalingLists : List (Nat × Nat) → Bitstrm → Bitstrm
  | [], s => s
  | (sizeId, matrixId) :: rest, s =>
    let (ok, s) := scalingList sizeId matrixId s
    if ok then scalingLists rest s else s

/-- The reader after `ihevcd_scaling_list_data`, whose error `ihevcd_parse_pps` does not look at;
the matrices themselves are not kept. -/
def ihevcdScalingListData (s : Bitstrm) : Bitstrm :=
  scalingLists
    ((List.range 6).map (0, ·) ++ (List.range 6).map (1, ·) ++ (List.range 6).map (2, ·) ++
      [(3, 0), (3, 3)]) s

/-- The pairs of `cb_qp_offset_list` and `cr_qp_offset_list`. -/
def chromaQpOffsets : Nat → Bitstrm → Bitstrm
  | 0, s => s
  | n + 1, s => chromaQpOffsets n (ihevcdSev (ihevcdSev s).2).2

-- ---------------------------------------------------------------------------
-- The parts of a PPS
-- ---------------------------------------------------------------------------

/-- From `dependent_slices_enabled_flag` to the flag before the tiles:
`transform_skip_enabled_flag` and `diff_cu_qp_delta_depth`. -/
def ppsQp (sps : Sps) (s : Bitstrm) : Except IhevcdErrorT (Nat × Nat × Bitstrm) := do
  let (_, s) := ihevcdBitsGet s 1 -- dependent_slices_enabled_flag
  let (_, s) := ihevcdBitsGet s 1 -- output_flag_present_flag
  let (_, s) := ihevcdBitsGet s 3 -- num_extra_slice_header_bits
  let (_, s) := ihevcdBitsGet s 1 -- sign_data_hiding_flag
  let (_, s) := ihevcdBitsGet s 1 -- cabac_init_present_flag
  let (_, s) ← uevAtMost s (maxDpbSize - 2) -- num_ref_idx_l0_default_active_minus1
  let (_, s) ← uevAtMost s (maxDpbSize - 2) -- num_ref_idx_l1_default_active_minus1
  let (_, s) ← sevWithin s (-26) 25 -- pic_init_qp_minus26
  let (_, s) := ihevcdBitsGet s 1 -- constrained_intra_pred_flag
  let (transformSkipEnabledFlag, s) := ihevcdBitsGet s 1
  let (cuQpDeltaEnabledFlag, s) := ihevcdBitsGet s 1
  let (diffCuQpDeltaDepth, s) ←
    readIf cuQpDeltaEnabledFlag 0 (uevAtMost · sps.i1Log2DiffMaxMinCodingBlockSize) s
  let (_, s) ← sevWithin s (-12) 12 -- cb_qp_offset
  let (_, s) ← sevWithin s (-12) 12 -- cr_qp_offset
  let (_, s) := ihevcdBitsGet s 1 -- slicelevel_chroma_qp_flag
  let (_, s) := ihevcdBitsGet s 1 -- weighted_pred_flag
  let (_, s) := ihevcdBitsGet s 1 -- weighted_bipred_flag
  let (_, s) := ihevcdBitsGet s 1 -- transquant_bypass_enable_flag
  .ok (transformSkipEnabledFlag, diffCuQpDeltaDepth, s)

/-- `pps_beta_offset_div2` and `pps_tc_offset_div2` -/
def deblockingOffsets (s : Bitstrm) : Except IhevcdErrorT (Unit × Bitstrm) := do
  let (_, s) ← sevWithin s (-6) 6
  let (_, s) ← sevWithin s (-6) 6
  .ok ((), s)

def deblockingControl (s : Bitstrm) : Except IhevcdErrorT (Unit × Bitstrm) := do
  let (_, s) := ihevcdBitsGet s 1 -- deblocking_filter_override_enabled_flag
  let (picDisableDeblockingFilterFlag, s) := ihevcdBitsGet s 1
  readIf (if picDisableDeblockingFilterFlag = 0 then 1 else 0) () deblockingOffsets s

/-- From `loop_filter_across_slices_enabled_flag` to `lists_modification_present_flag`. -/
def ppsFilters (s : Bitstrm) : Except IhevcdErrorT (Unit × Bitstrm) := do
  let (_, s) := ihevcdBitsGet s 1 -- loop_filter_across_slices_enabled_flag
  let (deblockingFilterControlPresentFlag, s) := ihevcdBitsGet s 1
  let (_, s) ← readIf deblockingFilterControlPresentFlag () deblockingControl s
  let (scalingListDataPresentFlag, s) := ihevcdBitsGet s 1
  let s := if scalingListDataPresentFlag ≠ 0 then ihevcdScalingListData s else s
  let (_, s) := ihevcdBitsGet s 1 -- lists_modification_present_flag
  .ok ((), s)

/-- A range extension that is not there. -/
def PpsRange.none : PpsRange :=
  { i1Log2MaxTransformSkipBlockSizeMinus2 := 0
    i1CrossComponentPredictionEnabledFlag := 0
    i1ChromaQpOffsetListEnabledFlag := 0
    i1Log2SaoOfstScaleLuma := 0
    i1Log2SaoOfstScaleChroma := 0 }

/-- The chroma offset lists, and the values before them. -/
def chromaQpOffsetLists (s : Bitstrm) : Except IhevcdErrorT (Unit × Bitstrm) := do
  let (_, s) := ihevcdUev s -- diff_cu_chroma_qp_offset_depth
  let (listLenMinus1, s) ← uevAtMost s 5
  .ok ((), chromaQpOffsets (listLenMinus1 + 1) s)

/-- The syntax of the range extension. -/
def ppsRange (transformSkipEnabledFlag : Nat) (s : Bitstrm) :
    Except IhevcdErrorT (PpsRange × Bitstrm) := do
  let (log2MaxTransformSkip, s) ← readIf transformSkipEnabledFlag 0 (.ok <| ihevcdUev ·) s
  let (crossComponentPrediction, s) := ihevcdBitsGet s 1
  let (chromaQpOffsetList, s) := ihevcdBitsGet s 1
  let (_, s) ← readIf chromaQpOffsetList () chromaQpOffsetLists s
  let (log2SaoOfstScaleLuma, s) := ihevcdUev s
  let (log2SaoOfstScaleChroma, s) := ihevcdUev s
  .ok
    ({ i1Log2MaxTransformSkipBlockSizeMinus2 := i8 log2MaxTransformSkip
       i1CrossComponentPredictionEnabledFlag := crossComponentPrediction
       i1ChromaQpOffsetListEnabledFlag := chromaQpOffsetList
       i1Log2SaoOfstScaleLuma := i8 log2SaoOfstScaleLuma
       i1Log2SaoOfstScaleChroma := i8 log2SaoOfstScaleChroma }, s)

/-- The checks of the range extension, with `ENABLE_MAIN_REXT_PROFILE`. -/
def PpsRange.accepted (profile : Profile) (r : PpsRange) : Bool :=
  (profile = .mainRext ∨ r = { PpsRange.none with
      i1Log2SaoOfstScaleLuma := r.i1Log2SaoOfstScaleLuma
      i1Log2SaoOfstScaleChroma := r.i1Log2SaoOfstScaleChroma }) ∧
    r.i1Log2SaoOfstScaleLuma = 0 ∧ r.i1Log2SaoOfstScaleChroma = 0

/-- `pps_range_extension_flag`, and whether one of the flags for extensions that are not supported
is set. -/
def extensionFlags (s : Bitstrm) : (Nat × Nat) × Bitstrm :=
  let (rangeExtensionFlag, s) := ihevcdBitsGet s 1
  let (multilayerExtensionFlag, s) := ihevcdBitsGet s 1
  let (extension3dFlag, s) := ihevcdBitsGet s 1
  let (sccExtensionFlag, s) := ihevcdBitsGet s 1
  let (_, s) := ihevcdBitsGet s 4 -- pps_extension_4bits
  ((rangeExtensionFlag, multilayerExtensionFlag ||| extension3dFlag ||| sccExtensionFlag), s)

/-- The extensions of a PPS. -/
def ppsExtension (sps : Sps) (transformSkipEnabledFlag : Nat) (s : Bitstrm) :
    Except IhevcdErrorT (PpsRange × Bitstrm) := do
  let (_, s) := ihevcdBitsGet s 1 -- slice_header_extension_present_flag
  let (extensionPresentFlag, s) := ihevcdBitsGet s 1
  let ((rangeExtensionFlag, unsupported), s) ←
    readIf extensionPresentFlag (0, 0) (.ok <| extensionFlags ·) s
  let (range, s) ← readIf rangeExtensionFlag .none (ppsRange transformSkipEnabledFlag) s
  if range.accepted sps.profile = false then .error .invalidParameter
  else if unsupported ≠ 0 then .error .unsupportedToolSet
  else .ok (range, s)

/-- `ihevcd_parse_pps` behind the two ids. -/
def parsePpsOf (sps : Sps) (i4Wd i4Ht spsId : Nat) (psTile : Nat → Tile) (s : Bitstrm) :
    Except IhevcdErrorT Pps := do
  let (transformSkipEnabledFlag, depth, s) ← ppsQp sps s
  let (tiles, s) ← parseTiles sps.toSpsSize i4Wd i4Ht psTile s
  let (_, s) ← ppsFilters s
  let (value, s) ←
    uevAtMost s (sps.i1Log2MinCodingBlockSize + sps.i1Log2DiffMaxMinCodingBlockSize)
  let (range, s) ← ppsExtension sps transformSkipEnabledFlag s
  if s.pu1BufMax < 4 * s.pu4Buf then .error .invalidParameter
  else
    .ok
      { toPpsTiles := tiles
        toPpsRange := range
        i1PpsValid := false
        i1SpsId := spsId
        i1DiffCuQpDeltaDepth := depth
        i1Log2MinCuQpDeltaSize := sps.i1Log2CtbSize - depth
        i1Log2ParallelMergeLevel := value + 2 }

-- ---------------------------------------------------------------------------
-- The slots
-- ---------------------------------------------------------------------------

/-- `pic_parameter_set_id`, the slot of the PPS. -/
def ParameterSets.ppsSlot (c : ParameterSets) (s : Bitstrm) :
    Except IhevcdErrorT (Nat × Bitstrm) :=
  if c.i4SpsDone = false then .error .invalidHeader
  else
    let (ppsId, s) := ihevcdUev s
    if maxPpsCnt ≤ ppsId then
      if c.i4PpsDone then .error .unsupportedPpsId else .ok (0, s)
    else .ok (ppsId, s)

/-- `ihevcd_parse_pps` behind the slot. -/
def ParameterSets.parsePps (c : ParameterSets) (s : Bitstrm) : Except IhevcdErrorT Pps := do
  let (spsId, s) ← uevAtMost s (maxSpsCnt - 2)
  match c.spsBase spsId with
  | none => .error .invalidHeader
  | some sps => parsePpsOf sps c.i4Wd c.i4Ht spsId (c.ppsBase (maxPpsCnt - 1)).psTile s

/-- `ihevcd_copy_pps`, from the slot that was parsed into. -/
def ParameterSets.copyPps (c : ParameterSets) (ppsId : Nat) : ParameterSets :=
  let ref := c.ppsBase (maxPpsCnt - 1)
  let maxTileCols := (align64 c.i4Wd + minTileWd - 1) / minTileWd
  let maxTileRows := (align64 c.i4Ht + minTileHt - 1) / minTileHt
  let psTile := fun i =>
    if i < maxTileCols * maxTileRows then ref.psTile i else (c.ppsBase ppsId).psTile i
  { c with ppsBase := set c.ppsBase ppsId { ref with psTile, i1PpsValid := true } }

/-- The case `NAL_PPS` of `ihevcd_nal_unit`; the slot that is parsed into is cleared first. -/
def ParameterSets.nalPps (c : ParameterSets) (s : Bitstrm) : ParameterSets :=
  match c.ppsSlot s with
  | .error _ => c
  | .ok (ppsId, s) =>
    let parsed (pps : Pps) : ParameterSets :=
      { c with ppsBase := set c.ppsBase (maxPpsCnt - 1) pps }
    match c.parsePps s with
    | .error _ => parsed { c.ppsBase (maxPpsCnt - 1) with i1PpsValid := false }
    | .ok pps => { (parsed pps).copyPps ppsId with i4PpsDone := true }

/-- `ihevcd_unmark_pps` -/
def ParameterSets.unmarkPps (c : ParameterSets) (spsId : Nat) : ParameterSets :=
  { c with
    ppsBase := fun k =>
      let pps := c.ppsBase k
      if k < maxPpsCnt - 1 ∧ pps.i1PpsValid = true ∧ pps.i1SpsId = spsId then
        { pps with i1PpsValid := false }
      else pps }

/-- The three fields that `ihevcd_copy_sps` compares. -/
def SpsSize.sameInCtb (sps ref : SpsSize) : Bool :=
  sps.i1Log2CtbSize = ref.i1Log2CtbSize ∧ sps.i2PicWdInCtb = ref.i2PicWdInCtb ∧
    sps.i2PicHtInCtb = ref.i2PicHtInCtb

/-- `ihevcd_copy_sps` -/
def ParameterSets.copySps (c : ParameterSets) (spsId : Nat) (ref : Sps) : ParameterSets :=
  let c :=
    match c.spsBase spsId with
    | none => c
    | some sps => if sps.sameInCtb ref.toSpsSize then c else c.unmarkPps spsId
  { c with spsBase := set c.spsBase spsId (some ref) }

/-- The slot of an SPS that `ihevcd_parse_sps` reads, or its error: an id out of range, or a valid
SPS in the slot with CTBs of another size. -/
def ParameterSets.spsSlot (c : ParameterSets) (spsId : Nat) (sps : Sps) :
    Except IhevcdErrorT Nat :=
  if maxSpsCnt ≤ spsId ∧ c.i4SpsDone = true then .error .unsupportedSpsId
  else
    let spsId := if maxSpsCnt ≤ spsId then 0 else spsId
    match set c.spsBase (maxSpsCnt - 1) none spsId with
    | none => .ok spsId
    | some old =>
      if old.i1Log2CtbSize = sps.i1Log2CtbSize then .ok spsId else .error .resChanged

/-- The slot that an SPS is parsed into, cleared. -/
def ParameterSets.clearSps (c : ParameterSets) : ParameterSets :=
  { c with spsBase := set c.spsBase (maxSpsCnt - 1) none }

/-- A NAL unit that holds a parameter set. An SPS is given by what is read from it; `rejectedSps`
is one that is given up for another reason, before or after the slot is cleared. -/
inductive ParamNal
  | sps (spsId : Nat) (sps : Sps)
  | rejectedSps (cleared : Bool)
  | pps (s : Bitstrm)

/-- The case `NAL_SPS` of `ihevcd_nal_unit`. -/
def ParameterSets.nalSps (c : ParameterSets) (spsId : Nat) (sps : Sps) : ParameterSets :=
  match c.spsSlot spsId sps with
  | .error .unsupportedSpsId => c
  | .error _ => c.clearSps
  | .ok spsId =>
    { c.clearSps.copySps spsId sps with
      i4SpsDone := true
      i4Wd := sps.i2PicWidthInLumaSamples
      i4Ht := sps.i2PicHeightInLumaSamples }

def ParameterSets.step (c : ParameterSets) : ParamNal → ParameterSets
  | .sps spsId sps => c.nalSps spsId sps
  | .rejectedSps cleared => if cleared then c.clearSps else c
  | .pps s => c.nalPps s

end Libhevc.Decoder
