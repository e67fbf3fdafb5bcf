import Libhevc.Lib.SortLoops
import Mathlib.Algebra.Order.Ring.Int

/-!
# Reference pictures of the look-ahead

`ref_pic_population` and `ref_b_pic_population`, which give each picture the POCs
that it may refer to, from one array that all pictures share. The input is progressive.
-/

namespace Libhevc.Encoder

open Memory

inductive IvPicType
  | idrFrame
  | iFrame
  | pFrame
  | bFrame
  deriving DecidableEq

/-- The fields of `ihevce_ref_pic_attrs_t` that the look-ahead sets. -/
structure RefPicAttrs where
  i4RefPicDeltaPoc : Int
  i4UsedByCurPicFlag : Bool
  i4NumDuplicateEntriesInRefList : Nat

/-- The fields of `ihevce_lap_output_params_t` for the references. -/
structure LapOut where
  i4Poc : Int
  i4IdrGopNum : Int
  i4AssocIrapPoc : Int
  i4TemporalLyrId : Nat
  i4PicType : IvPicType
  i4IsCraPic : Bool
  i4IsRefPic : Nat
  i4NumRefPics : Nat
  asRefPics : List RefPicAttrs

/-- The fields of `lap_struct_t` for the references; the array has `MAX_REF_PICS` places. -/
structure LapStruct where
  refPocArray : Nat → Int
  i4CurrRefPics : Nat
  i4IdrGopNum : Int
  i4AssocIrapPoc : Int
  i4CraPoc : Int
  i4CraIPicFlag : Bool

structure LapStaticParams where
  i4MaxReferenceFrames : Nat
  i4MaxTemporalLayers : Nat

/-- `ihevce_lap_init` -/
def LapStruct.init : LapStruct where
  refPocArray := fun _ => -1
  i4CurrRefPics := 0
  i4IdrGopNum := -1
  i4AssocIrapPoc := 0
  i4CraPoc := 0
  i4CraIPicFlag := false

/-- `gau1_use_by_cur_pic_flag` -/
def gau1UseByCurPicFlag (i : Nat) : Bool := decide (i < 8)

/-- The deltas by their size; of two equal ones the later goes first. -/
def refPicsWeightOffsetCalc (poc : Int) (s : LapStruct) : List RefPicAttrs :=
  let n := s.i4CurrRefPics
  let ai4DeltaPoc := passes (selectPass Int.natAbs n) n fun i => s.refPocArray i - poc
  (List.range n).map fun i => ⟨ai4DeltaPoc i, gau1UseByCurPicFlag i, 1⟩

/-- The end of both functions: one place more for a picture that is referred to, the array in
ascending order, and the picture in the place of the least POC. -/
def updateRefPocArray (p : LapStaticParams) (poc : Int) (i4IsRefPic : Nat) (s : LapStruct) :
    LapStruct :=
  let n :=
    if s.i4CurrRefPics < p.i4MaxReferenceFrames ∧ i4IsRefPic ≠ 0 then s.i4CurrRefPics + 1
    else s.i4CurrRefPics
  let sorted := passes (fun i => exchangeFrom id i (n - 1 - i)) (n - 1) s.refPocArray
  { s with
    i4CurrRefPics := n
    refPocArray := if i4IsRefPic ≠ 0 ∧ sorted 0 < poc then set sorted 0 poc else sorted }

def refBPicPopulation (p : LapStaticParams) (currLayer : Nat) (poc : Int) (s : LapStruct) :
    LapStruct × LapOut :=
  let s :=
    if s.i4CraPoc < poc ∧ s.refPocArray 0 < s.i4CraPoc ∧ s.i4CraIPicFlag = true then
      { s with refPocArray := set s.refPocArray 0 s.i4CraPoc, i4CurrRefPics := 1 }
    else s
  let top := p.i4MaxTemporalLayers ≤ currLayer
  let i4IsRefPic := if top then 0 else 1
  (updateRefPocArray p poc i4IsRefPic s,
    { i4Poc := poc
      i4IdrGopNum := s.i4IdrGopNum
      i4AssocIrapPoc := s.i4AssocIrapPoc
      i4TemporalLyrId := if top then p.i4MaxTemporalLayers else currLayer
      i4PicType := .bFrame
      i4IsCraPic := false
      i4IsRefPic := i4IsRefPic
      i4NumRefPics := s.i4CurrRefPics
      asRefPics := refPicsWeightOffsetCalc poc s })

/-- A picture behind a CRA does not refer to one before it. -/
def dropBeforeCra (poc : Int) (s : LapStruct) : LapStruct :=
  if s.i4CraPoc < poc ∧ s.refPocArray 0 ≤ s.i4CraPoc ∧ s.i4CraIPicFlag = true then
    { s with refPocArray := set s.refPocArray 0 s.i4CraPoc, i4CurrRefPics := 1 }
  else s

/-- What the type of the picture does to the array. -/
def startPicType (picType : IvPicType) (i4IsCraPic : Bool) (poc : Int) (s : LapStruct) :
    LapStruct :=
  match picType with
  | .idrFrame =>
    { s with
      i4IdrGopNum := s.i4IdrGopNum + 1
      i4CurrRefPics := 0
      i4CraIPicFlag := true
      i4CraPoc := poc
      refPocArray := fun _ => -1 }
  | .iFrame =>
    { s with
      i4CurrRefPics := if s.i4CraIPicFlag && i4IsCraPic then 0 else s.i4CurrRefPics
      i4CraPoc := poc
      i4CraIPicFlag := i4IsCraPic }
  | .pFrame =>
    if s.i4CraIPicFlag then { s with i4CurrRefPics := 1, i4CraIPicFlag := false } else s
  | .bFrame => s

/-- The IRAP picture that the pictures behind it are associated with. -/
def setAssocIrapPoc (picType : IvPicType) (i4IsCraPic : Bool) (poc : Int) (s : LapStruct) :
    LapStruct :=
  { s with
    i4AssocIrapPoc :=
      if picType = .idrFrame ∨ picType = .iFrame ∧ i4IsCraPic = true then poc
      else s.i4AssocIrapPoc }

def refPicPopulation (p : LapStaticParams) (picType : IvPicType) (i4IsCraPic : Bool) (poc : Int)
    (s : LapStruct) : LapStruct × LapOut :=
  let s := startPicType picType i4IsCraPic poc (dropBeforeCra poc s)
  let s := setAssocIrapPoc picType i4IsCraPic poc s
  (updateRefPocArray p poc 1 s,
    { i4Poc := poc
      i4IdrGopNum := s.i4IdrGopNum
      i4AssocIrapPoc := s.i4AssocIrapPoc
      i4TemporalLyrId := 0
      i4PicType := picType
      i4IsCraPic := i4IsCraPic
      i4IsRefPic := 1
      i4NumRefPics := s.i4CurrRefPics
      asRefPics := refPicsWeightOffsetCalc poc s })

end Libhevc.Encoder
