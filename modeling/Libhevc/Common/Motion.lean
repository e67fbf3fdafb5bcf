import Libhevc.Common.DpbMgr
import Mathlib.Data.Int.Bitwise

/-!
# Motion data

Motion vectors, what a prediction unit says about its motion, and the scaling of
vectors by distances between pictures. Decoder and encoder have copies of their
own of the scaling, which differ in what they do about a distance of zero.
-/

namespace Libhevc

def longTermRef : Nat := 1

inductive SliceType
  | bslice
  | pslice
  | islice
  deriving DecidableEq, Repr

/-- `b2_pred_mode` -/
inductive PredMode
  | predL0
  | predL1
  | predBi
  deriving DecidableEq, Repr

/-- A reference list, `l_x`. -/
inductive ListX
  | l0
  | l1
  deriving DecidableEq, Repr

/-- `l_y = !l_x` -/
def ListX.other : ListX → ListX
  | .l0 => .l1
  | .l1 => .l0

/-- `mv_t` -/
structure Mv where
  i2Mvx : Int
  i2Mvy : Int
  deriving DecidableEq, Repr

def Mv.zero : Mv := { i2Mvx := 0, i2Mvy := 0 }

/-- `pu_mv_t` -/
structure PuMv where
  sL0Mv : Mv
  sL1Mv : Mv
  i1L0RefIdx : Int
  i1L1RefIdx : Int
  deriving DecidableEq, Repr

def PuMv.mv (m : PuMv) : ListX → Mv
  | .l0 => m.sL0Mv
  | .l1 => m.sL1Mv

def PuMv.refIdx (m : PuMv) : ListX → Int
  | .l0 => m.i1L0RefIdx
  | .l1 => m.i1L1RefIdx

/-- The tests `b2_pred_mode != PRED_L1` for list 0, and `b2_pred_mode != PRED_L0` for list 1. -/
def PredMode.uses (mode : PredMode) : ListX → Bool
  | .l0 => mode ≠ .predL1
  | .l1 => mode ≠ .predL0

/-- The fields of `slice_header_t` that the prediction of motion reads. -/
structure MotionHeader where
  i1SliceType : SliceType
  i4AbsPicOrderCnt : Int
  i1SliceTemporalMvpEnableFlag : Bool
  i1CollocatedFromL0Flag : Bool
  i1CollocatedRefIdx : Int
  i1LowDelayFlag : Bool
  i1NumRefIdxL0Active : Int
  i1NumRefIdxL1Active : Int

/-- The list has reference pictures: list 1 has none in a P slice. -/
def MotionHeader.HasList (h : MotionHeader) (lx : ListX) : Prop :=
  lx = .l1 → h.i1SliceType = .bslice

/-- The neighbours of a prediction block with the flags that say whether they are available. -/
structure Nbrs (α : Type) where
  lbAvail : Bool
  lAvail : Bool
  trAvail : Bool
  tAvail : Bool
  tlAvail : Bool
  a0 : α
  a1 : α
  b0 : α
  b1 : α
  b2 : α

def Nbrs.left (n : Nbrs α) : List (Bool × α) := [(n.lbAvail, n.a0), (n.lAvail, n.a1)]

def Nbrs.top (n : Nbrs α) : List (Bool × α) :=
  [(n.trAvail, n.b0), (n.tAvail, n.b1), (n.tlAvail, n.b2)]

/-- The list of a collocated block that a list of the current block gets its vector from:
`au4_list_col`, which goes with `as_mv_col` and `au4_ref_idx_col`. -/
def MotionHeader.listCol (h : MotionHeader) (mode : PredMode) (lx : ListX) : ListX :=
  match mode with
  | .predL1 => .l1
  | .predL0 => .l0
  | .predBi =>
    if h.i1LowDelayFlag then lx
    else if h.i1CollocatedFromL0Flag then .l1
    else .l0

/-- The list that the collocated picture is taken from. -/
def MotionHeader.collocatedList (h : MotionHeader) : ListX :=
  if h.i1SliceType = .bslice ∧ h.i1CollocatedFromL0Flag = false then .l1 else .l0

/-- `pu4_avail_col_flag` and `ps_mv_col`. -/
structure ColMvp where
  u4AvailColFlag : ListX → Bool
  mvCol : ListX → Mv

def ColMvp.unavailable : ColMvp :=
  { u4AvailColFlag := fun _ => false, mvCol := fun _ => .zero }

def ColMvp.ofLists (l0 l1 : Bool × Mv) : ColMvp where
  u4AvailColFlag
    | .l0 => l0.1
    | .l1 => l1.1
  mvCol
    | .l0 => l0.2
    | .l1 => l1.2

-- ---------------------------------------------------------------------------
-- Scaling
-- ---------------------------------------------------------------------------

def clipS8 (x : Int) : Int := clip3 x (-128) 127

def clipS16 (x : Int) : Int := clip3 x (-32768) 32767

def distScaleFactor (td tb : Int) : Int :=
  let tx := (16384 + (td.natAbs : Int) >>> 1).tdiv td
  clip3 ((tb * tx + 32) >>> 6) (-4096) 4095

def scaleComponent (distScaleFactor v : Int) : Int :=
  let product := distScaleFactor * v
  clipS16 (product.sign * (((product.natAbs : Int) + 127) >>> 8))

def Mv.scale (mv : Mv) (distScaleFactor : Int) : Mv :=
  { i2Mvx := scaleComponent distScaleFactor mv.i2Mvx
    i2Mvy := scaleComponent distScaleFactor mv.i2Mvy }

/-- The division by `td` of the scaling functions; there is no result where `td` is zero. -/
def Mv.scaleBy (mv : Mv) (td tb : Int) : Option Mv :=
  if td = 0 then none else some (mv.scale (distScaleFactor td tb))

def Decoder.ihevcdScaleMv (mv : Mv) (curRefPoc nbrRefPoc curPoc : Int) : Mv :=
  let td := clipS8 (i32 (curPoc - nbrRefPoc))
  let tb := clipS8 (i32 (curPoc - curRefPoc))
  if td ≠ 0 then mv.scale (distScaleFactor td tb) else mv

def Decoder.ihevcdScaleCollocatedMv (mv : Mv) (curRefPoc colRefPoc colPoc curPoc : Int) :
    Option Mv :=
  mv.scaleBy (clipS8 (i32 (colPoc - colRefPoc))) (clipS8 (i32 (curPoc - curRefPoc)))

def Encoder.ihevceScaleMv (mv : Mv) (i4PocTo i4PocFrom i4CurrPoc : Int) : Option Mv :=
  mv.scaleBy (clipS8 (i32 (i4CurrPoc - i4PocFrom))) (clipS8 (i32 (i4CurrPoc - i4PocTo)))

def Encoder.ihevceScaleCollocatedMv (mv : Mv) (curRefPoc colRefPoc colPoc curPoc : Int) :
    Option Mv :=
  mv.scaleBy (clipS8 (i32 (colPoc - colRefPoc))) (clipS8 (i32 (curPoc - curRefPoc)))

/-- The temporal vector of a list: from the position at the bottom right, else from the centre. -/
def temporalMv (botRight centre : ColMvp) (lx : ListX) : Option Mv :=
  if botRight.u4AvailColFlag lx = true then some (botRight.mvCol lx)
  else if centre.u4AvailColFlag lx = true then some (centre.mvCol lx)
  else none

/-- A picture order count is a `WORD32`. -/
def IsPoc (poc : Int) : Prop := -2 ^ 31 ≤ poc ∧ poc < 2 ^ 31

theorem clipS8_eq_zero : clipS8 x = 0 ↔ x = 0 := by
  unfold clipS8 clip3
  constructor
  · intro hclip
    split_ifs at hclip <;> omega
  · rintro rfl
    rfl

theorem i32_sub_eq_zero (hx : IsPoc x) (hy : IsPoc y) : i32 (x - y) = 0 ↔ x = y := by
  obtain ⟨hxlo, hxhi⟩ := hx
  obtain ⟨hylo, hyhi⟩ := hy
  norm_num [i32, wrapInt] at *
  omega

theorem clipS8_distance (hx : IsPoc x) (hy : IsPoc y) : clipS8 (i32 (x - y)) = 0 ↔ x = y :=
  clipS8_eq_zero.trans (i32_sub_eq_zero hx hy)

/-- Between different pictures the scaling divides by no zero. -/
theorem Mv.scaleBy_some (mv : Mv) (hx : IsPoc x) (hy : IsPoc y) (hne : x ≠ y) :
    mv.scaleBy (clipS8 (i32 (x - y))) tb =
      some (mv.scale (distScaleFactor (clipS8 (i32 (x - y))) tb)) :=
  if_neg ((clipS8_distance hx hy).not.mpr hne)

end Libhevc
