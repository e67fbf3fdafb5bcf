import Libhevc.Common.CabacTables
import Libhevc.Common.Merge
import Mathlib.Data.Nat.Bitwise
import Mathlib.Tactic.Common

/-!
# Coding quadtrees

A CTB is a tree of coding units. Nodes that begin outside the picture are there,
but neither side goes to them.
-/

namespace Libhevc

inductive CodingQuadtree (α : Type)
  | cu (c : α)
  | split (c0 c1 c2 c3 : CodingQuadtree α)

/-- The flags of a quadtree whose contexts depend on the neighbours. -/
inductive CuFlag
  | split
  | skip
  deriving DecidableEq, Repr

/-- Flags still to be decoded, and the increments of the contexts used so far. -/
structure FlagStream where
  bins : List Bool
  ctxtIncs : List (CuFlag × Nat)
  deriving DecidableEq, Repr

def FlagStream.decode (flag : CuFlag) (ctxtInc : Nat) (s : FlagStream) : Bool × FlagStream :=
  (s.bins.headD false, { bins := s.bins.tail, ctxtIncs := s.ctxtIncs ++ [(flag, ctxtInc)] })

/-- The sizes a coding quadtree is gone through with. -/
structure CtbGrid where
  i1Log2CtbSize : Nat
  i2PicWidthInLumaSamples : Nat
  i2PicHeightInLumaSamples : Nat

def CtbGrid.i2PicWdInCtb (g : CtbGrid) : Nat :=
  (g.i2PicWidthInLumaSamples + 2 ^ g.i1Log2CtbSize - 1) / 2 ^ g.i1Log2CtbSize

def CtbGrid.i2PicHtInCtb (g : CtbGrid) : Nat :=
  (g.i2PicHeightInLumaSamples + 2 ^ g.i1Log2CtbSize - 1) / 2 ^ g.i1Log2CtbSize

/-- A position in a CTB that lies in the picture. -/
def CtbGrid.InWidth (g : CtbGrid) (ctbX x : Nat) : Prop :=
  ctbX * 2 ^ g.i1Log2CtbSize + x < g.i2PicWidthInLumaSamples

def CtbGrid.InHeight (g : CtbGrid) (ctbY y : Nat) : Prop :=
  ctbY * 2 ^ g.i1Log2CtbSize + y < g.i2PicHeightInLumaSamples

instance (g : CtbGrid) (ctbX x : Nat) : Decidable (g.InWidth ctbX x) :=
  inferInstanceAs (Decidable (_ < _))

instance (g : CtbGrid) (ctbY y : Nat) : Decidable (g.InHeight ctbY y) :=
  inferInstanceAs (Decidable (_ < _))

/-- The coded block flags of a transform unit. -/
structure TuCbf where
  cbfLuma : Bool
  cbfChroma : Bool

/-- What a coding unit says about its residual. -/
structure CuResidual where
  skipFlag : Bool
  noResFlag : Bool
  tus : List TuCbf
  b7Qp : Int

def TuCbf.coded (tu : TuCbf) : Bool := tu.cbfLuma || tu.cbfChroma

/-- The transform tree is there, and a transform unit of it is coded. -/
def CuResidual.coded (cu : CuResidual) : Bool :=
  !(cu.skipFlag || cu.noResFlag) && cu.tus.any TuCbf.coded

/-- Parameters of the QP coding; `cu_qp_delta_enabled_flag` is set. -/
structure QpConfig extends CtbGrid where
  i1DiffCuQpDeltaDepth : Nat
  i1EntropyCodingSyncEnabledFlag : Bool
  sliceQp : Int

end Libhevc

/-!
## Transform trees

What the two sides share of `transform_tree`: the contexts, and the fields of the
SPS, the PPS and the coding unit that it depends on. The chroma format is 4:2:0.
-/

namespace Libhevc

/-- The coefficients of a block; `residual_coding` has a grammar of its own. -/
structure ResidualBlock (α : Type) where
  log2TrSize : Nat
  isLuma : Bool
  coeffs : α
  deriving DecidableEq, Repr

/-- `IHEVC_CAB_QP_DELTA_ABS` -/
def ihevcCabQpDeltaAbs : Nat := 9

/-- `IHEVC_CAB_SPLIT_TFM` -/
def ihevcCabSplitTfm : Nat := 31

/-- `IHEVC_CAB_CBF_LUMA_IDX` -/
def ihevcCabCbfLumaIdx : Nat := ihevcCabSplitTfm + 3

/-- `IHEVC_CAB_CBCR_IDX` -/
def ihevcCabCbcrIdx : Nat := ihevcCabCbfLumaIdx + 2

/-- `TU_MAX_QP_DELTA_ABS` -/
def tuMaxQpDeltaAbs : Nat := 5

/-- `CTXT_MAX_QP_DELTA_ABS` -/
def ctxtMaxQpDeltaAbs : Nat := 1

/-- The fields of the SPS and the PPS. -/
structure TreeConfig where
  i1Log2MinTransformBlockSize : Nat
  i1Log2DiffMaxMinTransformBlockSize : Nat
  i1MaxTransformHierarchyDepthInter : Nat
  i1MaxTransformHierarchyDepthIntra : Nat
  i1CuQpDeltaEnabledFlag : Bool

def TreeConfig.i1Log2MaxTransformBlockSize (p : TreeConfig) : Nat :=
  p.i1Log2MinTransformBlockSize + p.i1Log2DiffMaxMinTransformBlockSize

/-- What a coding unit says of its transform tree. -/
structure TreeCu where
  isIntra : Bool
  partMode : PartMode

/-- `intra_nxn_pu` of the encoder, `i4_intra_split_flag` of the decoder -/
def TreeCu.intraNxN (cu : TreeCu) : Bool := cu.isIntra && decide (cu.partMode = .partNxN)

end Libhevc
