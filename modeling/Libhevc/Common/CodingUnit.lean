import Libhevc.Common.CodingQuadtree

/-!
# Coding units

What the two sides share of `coding_unit` and `prediction_unit`: the contexts, and
the fields of the SPS and the slice header that the syntax depends on. PCM and
the bypass of transform and quantization are off, as the encoder has them.
-/

namespace Libhevc

/-- `IHEVC_CAB_SPLIT_CU_FLAG` -/
def ihevcCabSplitCuFlag : Nat := 2

/-- `IHEVC_CAB_SKIP_FLAG` -/
def ihevcCabSkipFlag : Nat := 6

/-- `IHEVC_CAB_PRED_MODE` -/
def ihevcCabPredMode : Nat := 11

/-- `IHEVC_CAB_PART_MODE` -/
def ihevcCabPartMode : Nat := 12

/-- `IHEVC_CAB_INTRA_LUMA_PRED_FLAG` -/
def ihevcCabIntraLumaPredFlag : Nat := 16

/-- `IHEVC_CAB_CHROMA_PRED_MODE` -/
def ihevcCabChromaPredMode : Nat := 17

/-- `IHEVC_CAB_MERGE_FLAG_EXT` -/
def ihevcCabMergeFlagExt : Nat := 18

/-- `IHEVC_CAB_MERGE_IDX_EXT` -/
def ihevcCabMergeIdxExt : Nat := 19

/-- `IHEVC_CAB_INTER_PRED_IDC` -/
def ihevcCabInterPredIdc : Nat := 20

/-- `IHEVC_CAB_INTER_REF_IDX` -/
def ihevcCabInterRefIdx : Nat := 25

/-- `IHEVC_CAB_MVD_GRT0` -/
def ihevcCabMvdGrt0 : Nat := 27

/-- `IHEVC_CAB_MVD_GRT1` -/
def ihevcCabMvdGrt1 : Nat := 28

/-- `IHEVC_CAB_MVP_L0L1` -/
def ihevcCabMvpL0L1 : Nat := 29

/-- `IHEVC_CAB_NORES_IDX` -/
def ihevcCabNoresIdx : Nat := 30

/-- The value of the enumeration. -/
def PartMode.idx : PartMode → Nat
  | .part2Nx2N => 0
  | .part2NxN => 1
  | .partNx2N => 2
  | .partNxN => 3
  | .part2NxnU => 4
  | .part2NxnD => 5
  | .partnLx2N => 6
  | .partnRx2N => 7

/-- The fields of `slice_header_t` for coding units. -/
structure CuHeader where
  i1SliceType : SliceType
  i1MaxNumMergeCand : Nat
  i1NumRefIdxL0Active : Nat
  i1NumRefIdxL1Active : Nat
  i1MvdL1ZeroFlag : Bool

/-- `pu_t` with the vectors that the bitstream has, which are differences; the position in the CTB
and the size less one are in units of 4. -/
structure PuSyntax where
  b4PosX : Nat
  b4PosY : Nat
  b4Wd : Nat
  b4Ht : Nat
  b1IntraFlag : Bool
  b3PartMode : PartMode
  b2PartIdx : Nat
  b1MergeFlag : Bool
  b3MergeIdx : Nat
  b2PredMode : PredMode
  b1L0MvpIdx : Bool
  b1L1MvpIdx : Bool
  mv : PuMv
  deriving DecidableEq, Repr

/-- `pu_w_plus_pu_h` -/
def PuSyntax.wPlusH (pu : PuSyntax) : Nat := ((pu.b4Wd + 1) <<< 2) + ((pu.b4Ht + 1) <<< 2)

/-- A bin whose context has another index. -/
def Bin.rename (f : Nat → Nat) : Bin ρ → Bin ρ
  | .ctxt ctxtIndex bin => .ctxt (f ctxtIndex) bin
  | .bypass bin => .bypass bin
  | .piece r => .piece r

/-- The parser has a context of its own for the third bin of `part_mode` with AMP. It begins in the
state of the writer's, which has no other use where the smallest blocks are 8x8. -/
def ampCtxt (ampEnabled : Bool) (ctxtIndex : Nat) : Nat :=
  if ampEnabled = true ∧ ctxtIndex = ihevcCabPartMode + 2 then ihevcCabPartMode + 3 else ctxtIndex

/-- What stands in the stream for the transform tree of a coding unit. -/
structure TreePiece (τ : Type) where
  log2CbSize : Nat
  tree : τ
  deriving DecidableEq, Repr

end Libhevc
