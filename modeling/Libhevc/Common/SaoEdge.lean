import Mathlib.Logic.Function.Basic
import Mathlib.Data.Int.Basic

/-!
# SAO edge offset kernels

`ihevc_sao.c`, the four edge classes for luma and for interleaved chroma. A
luma kernel and its chroma version differ in the distance of neighbouring
samples of one component, `step`, and in the offsets of each component. Arrays
are functions of addresses, so the sizes of the local arrays for a coding tree
block set no bound.
-/

namespace Libhevc

/-- `SIGN` -/
def saoSign (x : Int) : Int := if 0 ≤ x then if 0 < x then 1 else 0 else -1

/-- `SIGN` of the difference of two samples. -/
def sgn (x y : UInt8) : Int := saoSign ((x.toNat : Int) - y.toNat)

/-- `CLIP3` to the samples of bit depth 8. -/
def clipSample (x : Int) : UInt8 :=
  UInt8.ofNat (if 255 < x then 255 else if x < 0 then 0 else x).toNat

/-- `gi4_ihevc_table_edge_idx` -/
def giIhevcTableEdgeIdx : List Nat := [1, 2, 0, 3, 4]

def tableEdgeIdx (edgeIdx : Int) : Nat := giIhevcTableEdgeIdx.getD edgeIdx.toNat 0

/-- The offsets of a component. Entry 0 is 0 at every caller. -/
structure SaoOffset where
  val : Nat → Int
  val_zero : val 0 = 0

/-- The sample an offset is added to, where there is an edge. -/
def addOffset (offset : SaoOffset) (x : UInt8) (edgeIdx : Nat) : UInt8 :=
  if edgeIdx ≠ 0 then clipSample (x.toNat + offset.val edgeIdx) else x

/-- `if(0 != edge_idx) pu1_src[col] = ...` -/
def storeOffset (offset : SaoOffset) (src : Int → UInt8) (a : Int) (edgeIdx : Nat) : Int → UInt8 :=
  if edgeIdx ≠ 0 then Function.update src a (clipSample ((src a).toNat + offset.val edgeIdx))
  else src

/-- A corner sample between its neighbours `y` and `z`, unchanged where its flag is 0. -/
def cornerSample (offset : SaoOffset) (avail : Nat) (x y z : UInt8) : UInt8 :=
  if avail ≠ 0 then addOffset offset x (tableEdgeIdx (2 + sgn x y + sgn x z)) else x

/-- The arguments of a kernel that it only reads. -/
structure SaoArgs where
  step : Nat
  pu1Src : Int
  srcStrd : Nat
  pu1SrcTopRight : Nat → UInt8
  pu1SrcBotLeft : Nat → UInt8
  pu1Avail : Nat → Nat
  offset : Nat → SaoOffset
  wd : Nat
  ht : Nat

/-- The buffers of a kernel that it writes. -/
structure SaoBufs where
  src : Int → UInt8
  left : Int → UInt8
  top : Nat → UInt8
  topLeft : Nat → UInt8

/-- `n` entries of an array stored. -/
def storeArray (m : Nat → UInt8) (n : Nat) (f : Nat → UInt8) : Nat → UInt8 :=
  fun i => if i < n then f i else m i

/-- `n` entries of the left array stored, which is read in front of its start, too. -/
def storeLeft (m : Int → UInt8) (n : Nat) (f : Nat → UInt8) : Int → UInt8 :=
  fun i => if 0 ≤ i ∧ i < n then f i.toNat else m i

namespace SaoArgs

variable (g : SaoArgs)

/-- The last column of the block. -/
def lastColumn (src : Int → UInt8) : Nat → UInt8 := fun i =>
  src (g.pu1Src + ((i / g.step : Nat) : Int) * g.srcStrd + g.wd - g.step +
    ((i % g.step : Nat) : Int))

/-- The last row of the block. -/
def lastRow (src : Int → UInt8) : Nat → UInt8 := fun col =>
  src (g.pu1Src + ((g.ht : Int) - 1) * g.srcStrd + col)

/-- The last sample of the top row. -/
def lastTop (top : Nat → UInt8) : Nat → UInt8 := fun i => top (g.wd - g.step + i)

/-- `au1_mask` after the flags of the left and the right side. -/
def mask : Nat → Nat :=
  let au1Mask := fun _ => 0xFF
  let au1Mask := if g.pu1Avail 0 = 0 then Function.update au1Mask 0 0 else au1Mask
  if g.pu1Avail 1 = 0 then Function.update au1Mask ((g.wd - 1) / g.step) 0 else au1Mask

/-- The rows the top and the bottom flag leave out. -/
def skipTop : Nat := if g.pu1Avail 2 = 0 then 1 else 0

def skipBottom : Nat := if g.pu1Avail 3 = 0 then 1 else 0

/-- `pu1_src`, `ht` and `pu1_src_left_cpy` after the flags of the top and the bottom. -/
def firstRow : Int := g.pu1Src + g.skipTop * g.srcStrd

def rows : Nat := g.ht - g.skipTop - g.skipBottom

def leftCpy (left : Int → UInt8) : Int → UInt8 := fun i => left (i + g.step * g.skipTop)

end SaoArgs

-- ---------------------------------------------------------------------------
-- Class 0
-- ---------------------------------------------------------------------------

/-- One column: the memory and the signs against the sample on the left, of each component. -/
def class0Col (g : SaoArgs) (p : Int) (st : (Int → UInt8) × (Nat → Int)) (col : Nat) :
    (Int → UInt8) × (Nat → Int) :=
  let (src, signLeft) := st
  let signRight := sgn (src (p + col)) (src (p + col + g.step))
  let edgeIdx := 2 + signLeft (col % g.step) + signRight
  let edgeIdx := tableEdgeIdx edgeIdx &&& g.mask (col / g.step)
  (storeOffset (g.offset (col % g.step)) src (p + col) edgeIdx,
    Function.update signLeft (col % g.step) (-signRight))

def class0Row (g : SaoArgs) (left : Int → UInt8) (st : (Int → UInt8) × Unit) (row : Nat) :
    (Int → UInt8) × Unit :=
  let p := g.pu1Src + row * g.srcStrd
  let signLeft := fun i : Nat => sgn (st.1 (p + i)) (left (g.step * row + i))
  (((List.range g.wd).foldl (class0Col g p) (st.1, signLeft)).1, ())

def edgeOffsetClass0 (g : SaoArgs) (b : SaoBufs) : SaoBufs :=
  let topLeft := storeArray b.topLeft g.step (g.lastTop b.top)
  let leftTmp := g.lastColumn b.src
  let top := storeArray b.top g.wd (g.lastRow b.src)
  let src := ((List.range g.ht).foldl (class0Row g b.left) (b.src, ())).1
  { src, left := storeLeft b.left (g.step * g.ht) leftTmp, top, topLeft }

-- ---------------------------------------------------------------------------
-- Class 1
-- ---------------------------------------------------------------------------

/-- One column: the memory and the signs against the row above. -/
def class1Col (g : SaoArgs) (p : Int) (st : (Int → UInt8) × (Nat → Int)) (col : Nat) :
    (Int → UInt8) × (Nat → Int) :=
  let (src, signUp) := st
  let signDown := sgn (src (p + col)) (src (p + col + g.srcStrd))
  let edgeIdx := 2 + signUp col + signDown
  -- The masks stay at their initial value
  let edgeIdx := tableEdgeIdx edgeIdx &&& 0xFF
  (storeOffset (g.offset (col % g.step)) src (p + col) edgeIdx,
    Function.update signUp col (-signDown))

def class1Row (g : SaoArgs) (p : Int) (st : (Int → UInt8) × (Nat → Int)) (row : Nat) :
    (Int → UInt8) × (Nat → Int) :=
  (List.range g.wd).foldl (class1Col g (p + row * g.srcStrd)) st

/-- `au1_sign_up` in front of the first row. -/
def class1SignUp (g : SaoArgs) (b : SaoBufs) : Nat → Int := fun col =>
  if g.pu1Avail 2 = 0 then sgn (b.src (g.firstRow + col)) (b.src (g.firstRow + col - g.srcStrd))
  else sgn (b.src (g.firstRow + col)) (b.top col)

def edgeOffsetClass1 (g : SaoArgs) (b : SaoBufs) : SaoBufs :=
  let topLeft := storeArray b.topLeft g.step (g.lastTop b.top)
  let left := storeLeft b.left (g.step * g.ht) (g.lastColumn b.src)
  let topTmp := g.lastRow b.src
  let signUp := class1SignUp g b
  let src := ((List.range g.rows).foldl (class1Row g g.firstRow) (b.src, signUp)).1
  { src, left, top := storeArray b.top g.wd topTmp, topLeft }

-- ---------------------------------------------------------------------------
-- Class 2
-- ---------------------------------------------------------------------------

/-- One column: the memory, `pu1_sign_up` and `pu1_sign_up_tmp`. -/
def class2Col (g : SaoArgs) (p : Int) (signUp : Nat → Int) (st : (Int → UInt8) × (Nat → Int))
    (col : Nat) : (Int → UInt8) × (Nat → Int) :=
  let (src, signUpTmp) := st
  let signDown := sgn (src (p + col)) (src (p + col + g.step + g.srcStrd))
  let edgeIdx := 2 + signUp col + signDown
  let edgeIdx := tableEdgeIdx edgeIdx &&& g.mask (col / g.step)
  (storeOffset (g.offset (col % g.step)) src (p + col) edgeIdx,
    Function.update signUpTmp (col + g.step) (-signDown))

/-- One row, at its end the two sign arrays swapped. -/
def class2Row (g : SaoArgs) (p : Int) (leftCpy : Int → UInt8)
    (st : (Int → UInt8) × (Nat → Int) × (Nat → Int)) (row : Nat) :
    (Int → UInt8) × (Nat → Int) × (Nat → Int) :=
  let (src, signUp, signUpTmp) := st
  let p := p + row * g.srcStrd
  let signUp := fun i : Nat =>
    if i < g.step then sgn (src (p + i)) (leftCpy (g.step * ((row : Int) - 1) + i)) else signUp i
  let (src, signUpTmp) := (List.range g.wd).foldl (class2Col g p signUp) (src, signUpTmp)
  (src, signUpTmp, signUp)

/-- A corner written back, component by component. -/
def storeCorner (g : SaoArgs) (src : Int → UInt8) (p : Int) (pos : Nat → UInt8) : Int → UInt8 :=
  (List.range g.step).foldl (fun src (i : Nat) => Function.update src (p + i) (pos i)) src

/-- `u1_pos_0_0_tmp` -/
def class2Pos00 (g : SaoArgs) (b : SaoBufs) : Nat → UInt8 := fun i =>
  cornerSample (g.offset i) (g.pu1Avail 4) (b.src (g.pu1Src + i)) (b.topLeft i)
    (b.src (g.pu1Src + i + g.step + g.srcStrd))

/-- `u1_pos_wd_ht_tmp` -/
def class2PosWdHt (g : SaoArgs) (b : SaoBufs) : Nat → UInt8 := fun i =>
  let a := g.pu1Src + g.wd - g.step + i + ((g.ht : Int) - 1) * g.srcStrd
  cornerSample (g.offset i) (g.pu1Avail 7) (b.src a) (b.src (a - g.step - g.srcStrd))
    (b.src (a + g.step + g.srcStrd))

/-- `pu1_sign_up` in front of the first row. The entries that are not set are those of the
stack. -/
def class2SignUp (g : SaoArgs) (b : SaoBufs) (signs : Nat → Int) : Nat → Int := fun col =>
  if g.step ≤ col ∧ col < g.wd then
    if g.pu1Avail 2 = 0 then
      sgn (b.src (g.firstRow + col)) (b.src (g.firstRow + col - g.step - g.srcStrd))
    else sgn (b.src (g.firstRow + col)) (b.top (col - g.step))
  else signs col

def edgeOffsetClass2 (g : SaoArgs) (b : SaoBufs) (signs signsTmp : Nat → Int) : SaoBufs :=
  let topLeftTmp := g.lastTop b.top
  let leftTmp := g.lastColumn b.src
  let topTmp := g.lastRow b.src
  let pos00 := class2Pos00 g b
  let posWdHt := class2PosWdHt g b
  let signUp := class2SignUp g b signs
  let src := ((List.range g.rows).foldl (class2Row g g.firstRow (g.leftCpy b.left))
    (b.src, signUp, signsTmp)).1
  let p := g.firstRow + g.rows * g.srcStrd
  let rowsUp : Int := if g.pu1Avail 2 ≠ 0 then g.rows else g.rows + 1
  let src := storeCorner g src (p - rowsUp * g.srcStrd) pos00
  let src := storeCorner g src
    (p + if g.pu1Avail 3 ≠ 0 then (g.wd : Int) - g.step - g.srcStrd else (g.wd : Int) - g.step)
    posWdHt
  { src
    left := storeLeft b.left (g.step * g.ht) leftTmp
    top := storeArray b.top g.wd topTmp
    topLeft := storeArray b.topLeft g.step topLeftTmp }

-- ---------------------------------------------------------------------------
-- Class 3
-- ---------------------------------------------------------------------------

/-- One column: the memory and the signs against the row above, shifted by one sample. -/
def class3Col (g : SaoArgs) (p : Int) (leftCpy : Int → UInt8) (row : Nat)
    (st : (Int → UInt8) × (Nat → Int)) (col : Nat) : (Int → UInt8) × (Nat → Int) :=
  let (src, signUp) := st
  let below :=
    if col < g.step then leftCpy (g.step * ((row : Int) + 1) + col)
    else src (p + col - g.step + g.srcStrd)
  let signDown := sgn (src (p + col)) below
  let edgeIdx := 2 + signUp col + signDown
  let signUp := if g.step ≤ col then Function.update signUp (col - g.step) (-signDown) else signUp
  let edgeIdx := tableEdgeIdx edgeIdx &&& g.mask (col / g.step)
  (storeOffset (g.offset (col % g.step)) src (p + col) edgeIdx, signUp)

def class3Row (g : SaoArgs) (p : Int) (leftCpy : Int → UInt8) (st : (Int → UInt8) × (Nat → Int))
    (row : Nat) : (Int → UInt8) × (Nat → Int) :=
  let (src, signUp) := st
  let p := p + row * g.srcStrd
  let signUp := fun col : Nat =>
    if g.wd - g.step ≤ col ∧ col < g.wd then
      sgn (src (p + col)) (src (p + col + g.step - g.srcStrd))
    else signUp col
  (List.range g.wd).foldl (class3Col g p leftCpy row) (src, signUp)

/-- `u1_pos_wd_0_tmp` -/
def class3PosWd0 (g : SaoArgs) (b : SaoBufs) : Nat → UInt8 := fun i =>
  let a := g.pu1Src + g.wd - g.step + i
  cornerSample (g.offset i) (g.pu1Avail 5) (b.src a) (g.pu1SrcTopRight i)
    (b.src (a - g.step + g.srcStrd))

/-- `u1_pos_0_ht_tmp` -/
def class3Pos0Ht (g : SaoArgs) (b : SaoBufs) : Nat → UInt8 := fun i =>
  let a := g.pu1Src + ((g.ht : Int) - 1) * g.srcStrd + i
  cornerSample (g.offset i) (g.pu1Avail 6) (b.src a) (b.src (a + g.step - g.srcStrd))
    (g.pu1SrcBotLeft i)

/-- `au1_sign_up` in front of the first row. -/
def class3SignUp (g : SaoArgs) (b : SaoBufs) (signs : Nat → Int) : Nat → Int := fun col =>
  if col < g.wd - g.step then
    if g.pu1Avail 2 = 0 then
      sgn (b.src (g.firstRow + col)) (b.src (g.firstRow + col + g.step - g.srcStrd))
    else sgn (b.src (g.firstRow + col)) (b.top (col + g.step))
  else signs col

def edgeOffsetClass3 (g : SaoArgs) (b : SaoBufs) (signs : Nat → Int) : SaoBufs :=
  let topLeftTmp := g.lastTop b.top
  let leftTmp := g.lastColumn b.src
  let topTmp := g.lastRow b.src
  let posWd0 := class3PosWd0 g b
  let pos0Ht := class3Pos0Ht g b
  let signUp := class3SignUp g b signs
  let src := ((List.range g.rows).foldl (class3Row g g.firstRow (g.leftCpy b.left))
    (b.src, signUp)).1
  let p := g.firstRow + g.rows * g.srcStrd
  let rowsUp : Int := if g.pu1Avail 2 ≠ 0 then g.rows else g.rows + 1
  let src := storeCorner g src (p - rowsUp * g.srcStrd + g.wd - g.step) posWd0
  let src := storeCorner g src (p + if g.pu1Avail 3 ≠ 0 then -(g.srcStrd : Int) else 0) pos0Ht
  { src
    left := storeLeft b.left (g.step * g.ht) leftTmp
    top := storeArray b.top g.wd topTmp
    topLeft := storeArray b.topLeft g.step topLeftTmp }

-- ---------------------------------------------------------------------------
-- The kernels
-- ---------------------------------------------------------------------------

/-- The arguments common to luma and chroma, the width in samples of the picture memory. -/
structure SaoBlock where
  pu1Src : Int
  srcStrd : Nat
  pu1SrcTopRight : Nat → UInt8
  pu1SrcBotLeft : Nat → UInt8
  pu1Avail : Nat → Nat
  wd : Nat
  ht : Nat

def SaoBlock.luma (k : SaoBlock) (piSaoOffset : SaoOffset) : SaoArgs :=
  { k with step := 1, offset := fun _ => piSaoOffset }

/-- Even columns are U, odd columns V. -/
def SaoBlock.chroma (k : SaoBlock) (piSaoOffsetU piSaoOffsetV : SaoOffset) : SaoArgs :=
  { k with step := 2, offset := fun i => if i = 0 then piSaoOffsetU else piSaoOffsetV }

variable (k : SaoBlock) (o u v : SaoOffset) (signs signsTmp : Nat → Int) (b : SaoBufs)

def ihevcSaoEdgeOffsetClass0 : SaoBufs := edgeOffsetClass0 (k.luma o) b

def ihevcSaoEdgeOffsetClass0Chroma : SaoBufs := edgeOffsetClass0 (k.chroma u v) b

def ihevcSaoEdgeOffsetClass1 : SaoBufs := edgeOffsetClass1 (k.luma o) b

def ihevcSaoEdgeOffsetClass1Chroma : SaoBufs := edgeOffsetClass1 (k.chroma u v) b

def ihevcSaoEdgeOffsetClass2 : SaoBufs := edgeOffsetClass2 (k.luma o) b signs signsTmp

def ihevcSaoEdgeOffsetClass2Chroma : SaoBufs :=
  edgeOffsetClass2 (k.chroma u v) b signs signsTmp

def ihevcSaoEdgeOffsetClass3 : SaoBufs := edgeOffsetClass3 (k.luma o) b signs

def ihevcSaoEdgeOffsetClass3Chroma : SaoBufs := edgeOffsetClass3 (k.chroma u v) b signs

end Libhevc
