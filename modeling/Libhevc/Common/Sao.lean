import Libhevc.Common.CabacTables

/-!
# SAO parameters

What `sao_t` of the decoder and `sao_enc_t` of the encoder have in common.
-/

namespace Libhevc

/-- `IHEVC_CAB_SAO_MERGE` -/
def ihevcCabSaoMerge : Nat := 0

/-- `IHEVC_CAB_SAO_TYPE` -/
def ihevcCabSaoType : Nat := ihevcCabSaoMerge + 1

/-- The fields of one component: the type is 0 for no offsets, 1 for a band, and 2 and up for the
edge classes. -/
structure SaoComp where
  b3TypeIdx : Nat
  b5BandPos : Nat
  offset : List Int
  deriving DecidableEq, Repr

/-- The SAO flags of a slice header. -/
structure SaoFlags where
  i1SliceSaoLumaFlag : Bool
  i1SliceSaoChromaFlag : Bool

/-- The flag of a component: 0 is luma. -/
def SaoFlags.flag (h : SaoFlags) (cIdx : Nat) : Bool :=
  (h.i1SliceSaoLumaFlag && cIdx = 0) || (h.i1SliceSaoChromaFlag && 0 < cIdx)

/-- The largest absolute value of an offset. -/
def saoCMax (bitDepth : Nat) : Nat := (1 <<< (min bitDepth 10 - 5)) - 1

end Libhevc
