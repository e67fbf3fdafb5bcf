import Libhevc.Common.CodingQuadtree
import Libhevc.Spec.EntropyStart

/-!
# Contexts from neighbouring coding blocks

The contexts of `split_cu_flag` and `cu_skip_flag`, in terms of the coding blocks
that cover the samples to the left of a block and above it.
-/

namespace Libhevc.Spec

/-- A coding block that has been decoded, and the CTU it is in, by decoding order. -/
structure CodedCu where
  ctu : Nat
  ctDepth : Nat
  skip : Bool

/-- The coding blocks by the samples they cover. -/
abbrev CodedCus := Nat → Nat → Option CodedCu

/-- CTU `ctu` of a picture is decoded. -/
structure CuSetting where
  order : CtuOrder
  ctu : Nat
  picWidth : Nat
  picHeight : Nat
  log2MinCbSize : Nat
  intraSlice : Bool

namespace CuSetting

variable (c : CuSetting)

/-- A block of the same slice and the same tile. -/
def Available (cu : CodedCu) : Prop :=
  c.order.sliceStart cu.ctu = c.order.sliceStart c.ctu ∧
    c.order.tileId cu.ctu = c.order.tileId c.ctu

instance (cu : CodedCu) : Decidable (c.Available cu) := by
  unfold Available
  infer_instance

/-- The block to the left of `(x, y)`, if it is available. -/
def left (cus : CodedCus) (x y : Nat) : Option CodedCu :=
  if x = 0 then none else (cus (x - 1) y).filter fun cu => c.Available cu

/-- The block above `(x, y)`, if it is available. -/
def above (cus : CodedCus) (x y : Nat) : Option CodedCu :=
  if y = 0 then none else (cus x (y - 1)).filter fun cu => c.Available cu

/-- How many of the two neighbours are available and meet the condition. -/
def ctxtInc (cus : CodedCus) (x y : Nat) (cond : CodedCu → Bool) : Nat :=
  (if (c.above cus x y).any cond then 1 else 0) + (if (c.left cus x y).any cond then 1 else 0)

/-- The block from `(x₀, y₀)` has been decoded. -/
def coded (cus : CodedCus) (x₀ y₀ size ctDepth : Nat) (skip : Bool) : CodedCus := fun x y =>
  if x₀ ≤ x ∧ x < x₀ + size ∧ y₀ ≤ y ∧ y < y₀ + size then some { ctu := c.ctu, ctDepth, skip }
  else cus x y

def codingUnit (x₀ y₀ log2CbSize ctDepth : Nat) (s : CodedCus × FlagStream) :
    CodedCus × FlagStream :=
  let r :=
    if c.intraSlice then (false, s.2)
    else s.2.decode .skip (c.ctxtInc s.1 x₀ y₀ CodedCu.skip)
  (c.coded s.1 x₀ y₀ (2 ^ log2CbSize) ctDepth r.1, r.2)

def splitCuFlag (x₀ y₀ log2CbSize ctDepth : Nat) (s : CodedCus × FlagStream) : Bool × FlagStream :=
  if x₀ + 2 ^ log2CbSize ≤ c.picWidth ∧ y₀ + 2 ^ log2CbSize ≤ c.picHeight ∧
      c.log2MinCbSize < log2CbSize then
    s.2.decode .split (c.ctxtInc s.1 x₀ y₀ fun cu => ctDepth < cu.ctDepth)
  else (c.log2MinCbSize < log2CbSize, s.2)

/-- The coding quadtree of a block. -/
def codingQuadtree : (log2CbSize x₀ y₀ ctDepth : Nat) → CodedCus × FlagStream →
    CodedCus × FlagStream
  | 0, x₀, y₀, ctDepth, s =>
    c.codingUnit x₀ y₀ 0 ctDepth (s.1, (c.splitCuFlag x₀ y₀ 0 ctDepth s).2)
  | log2CbSize + 1, x₀, y₀, ctDepth, s =>
    let r := c.splitCuFlag x₀ y₀ (log2CbSize + 1) ctDepth s
    if r.1 then
      let x₁ := x₀ + 2 ^ log2CbSize
      let y₁ := y₀ + 2 ^ log2CbSize
      let s := codingQuadtree log2CbSize x₀ y₀ (ctDepth + 1) (s.1, r.2)
      let s := if x₁ < c.picWidth then codingQuadtree log2CbSize x₁ y₀ (ctDepth + 1) s else s
      let s := if y₁ < c.picHeight then codingQuadtree log2CbSize x₀ y₁ (ctDepth + 1) s else s
      if x₁ < c.picWidth ∧ y₁ < c.picHeight then
        codingQuadtree log2CbSize x₁ y₁ (ctDepth + 1) s
      else s
    else c.codingUnit x₀ y₀ (log2CbSize + 1) ctDepth (s.1, r.2)

end CuSetting

/-- The first `k` CTUs of a picture, each of size `2 ^ log2CtbSize`. -/
def cuFlags (setting : Nat → CuSetting) (log2CtbSize : Nat) (flags : FlagStream) :
    Nat → CodedCus × FlagStream
  | 0 => (fun _ _ => none, flags)
  | k + 1 =>
    (setting k).codingQuadtree log2CtbSize (((setting k).order.pos k).1 * 2 ^ log2CtbSize)
      (((setting k).order.pos k).2 * 2 ^ log2CtbSize) 0 (cuFlags setting log2CtbSize flags k)

end Libhevc.Spec
