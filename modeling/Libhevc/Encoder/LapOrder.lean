import Libhevc.Encoder.LapRefs
import Mathlib.Data.List.Perm.Basic

/-!
# The encode order of the look-ahead

The pictures of a sub-GOP in the capture array, which an IDR picture or the end of
the input may cut short, and the tree over it that gives their encode order.
-/

namespace Libhevc.Encoder

open Memory

-- ---------------------------------------------------------------------------
-- The tree
-- ---------------------------------------------------------------------------

/-- `ihevce_encode_node_t` -/
inductive EncodeNode (α : Type)
  | null
  | node (data : α) (pvLeftNode pvRightNode : EncodeNode α)

/-- Without layers there is a single node, which nothing uses. -/
def populateTreeNodes : (hierLayer : Nat) → EncodeNode Unit
  | 0 => .null
  | n + 1 => .node () (populateTreeNodes n) (populateTreeNodes n)

/-- In order, each node takes the next slot; the count of slots comes back. -/
def captureOrderTraversalNodes (slots : Nat → α) : EncodeNode Unit → (loopCount : Nat) →
    EncodeNode α × Nat
  | .null, loopCount => (.null, loopCount)
  | .node _ left right, loopCount =>
    let l := captureOrderTraversalNodes slots left loopCount
    let r := captureOrderTraversalNodes slots right (l.2 + 1)
    (.node (slots l.2) l.1 r.1, r.2)

/-- The nodes with their layers, each before its children. -/
def encodeOrderTraversalNodes : EncodeNode α → (currLayer : Nat) → List (Nat × α)
  | .null, _ => []
  | .node data left right, currLayer =>
    (currLayer, data) :: (encodeOrderTraversalNodes left (currLayer + 1) ++
      encodeOrderTraversalNodes right (currLayer + 1))

-- ---------------------------------------------------------------------------
-- Sub-GOPs
-- ---------------------------------------------------------------------------

/-- `PIC_TYPE_I` and so on -/
inductive PicType
  | i
  | p
  | b
  | idr
  | cra
  deriving DecidableEq

/-- `ihevce_assign_pic_type`: the type of the frame, and whether it is a CRA picture. -/
def assignPicType : PicType → IvPicType × Bool
  | .i => (.iFrame, false)
  | .p => (.pFrame, false)
  | .b => (.bFrame, false)
  | .idr => (.idrFrame, false)
  | .cra => (.iFrame, true)

/-- What is in the capture array when it is handled. -/
inductive SubGop
  -- as many pictures as it takes; the last one may be any but an IDR picture
  | full (last : PicType)
  -- `n` pictures, then an IDR picture by command
  | cut (n : Nat)
  -- `n` pictures, then the flush buffer
  | ended (n : Nat)

def subGopSize (layers : Nat) : Nat := 2 ^ layers

def SubGop.Legal (layers : Nat) : SubGop → Prop
  | .full last => last = .i ∨ last = .p ∨ last = .cra
  | .cut n => 0 < n ∧ n < subGopSize layers
  | .ended n => 0 < n ∧ n < subGopSize layers

def SubGop.numPics (layers : Nat) : SubGop → Nat
  | .full _ => subGopSize layers
  | .cut n => n
  | .ended n => n

/-- A sub-GOP cut short ends with a P picture. -/
def SubGop.last : SubGop → PicType
  | .full last => last
  | .cut _ => .p
  | .ended _ => .p

def subgopTemporalLayer3 : List Nat := [7, 3, 1, 0, 2, 5, 4, 6]

def subgopTemporalLayer2 : List Nat := [3, 1, 0, 2]

/-- The capture array and `i4_sub_gop_end`. -/
structure DummyFill where
  slots : Nat → Option Nat
  i4SubGopEnd : Int

/-- One step of the loop that moves pictures to where the tree has its first nodes. -/
def fillStep (layers : Nat) (s : DummyFill) (picIdx : Nat) : DummyFill :=
  let subgopPicIdx := if layers = 2 then subgopTemporalLayer2 else subgopTemporalLayer3
  let i4TempIdx := if 1 < layers then subgopPicIdx.getD picIdx 0 else 1
  if s.slots i4TempIdx = none then
    ⟨set (set s.slots i4TempIdx (s.slots s.i4SubGopEnd.toNat)) s.i4SubGopEnd.toNat none,
      s.i4SubGopEnd - 1⟩
  else s

/-- The first `n` slots have a picture each. -/
def captured (n : Nat) : Nat → Option Nat := fun i => if i < n then some i else none

/-- With `i4_end_flag_pic_idx` at the flush buffer: the picture before it becomes the last. -/
def swapEndFlag (size i4EndFlagPicIdx : Nat) (slots : Nat → Option Nat) : Nat → Option Nat :=
  let temp := slots (i4EndFlagPicIdx - 1)
  let slots := set slots (i4EndFlagPicIdx - 1) none
  let slots := set slots (size - 2) (slots i4EndFlagPicIdx)
  let slots := if size - 2 ≠ i4EndFlagPicIdx then set slots i4EndFlagPicIdx none else slots
  set slots (size - 1) temp

/-- The capture array: for each slot the number of its picture, from the first of the sub-GOP on;
the flush buffer has the number behind the last picture. -/
def SubGop.captureOrder (layers : Nat) : SubGop → Nat → Option Nat
  | .full _ => captured (subGopSize layers)
  | .cut n => ((List.range n).foldl (fillStep layers) ⟨captured n, n - 1⟩).slots
  | .ended n => swapEndFlag (subGopSize layers) n (captured (n + 1))

/-- The pictures of the tree with their layers. The flush buffer, which is no picture, comes last
of all. -/
def SubGop.bPics (layers : Nat) (g : SubGop) : List (Nat × Nat) :=
  let tree := (captureOrderTraversalNodes (g.captureOrder layers) (populateTreeNodes layers) 0).1
  (encodeOrderTraversalNodes tree 1).filterMap fun e =>
    e.2.bind fun j => if j < g.numPics layers then some (e.1, j) else none

-- ---------------------------------------------------------------------------
-- Runs
-- ---------------------------------------------------------------------------

/-- The look-ahead, with the pictures that it has given out. -/
structure LapRun where
  s : LapStruct
  i4CurrPoc : Int
  outs : List LapOut

def LapRun.add (r : LapRun) (out : LapStruct × LapOut) : LapRun :=
  { r with s := out.1, outs := r.outs ++ [out.2] }

section
variable (p : LapStaticParams)

/-- An IDR picture is alone in its capture array. -/
def LapRun.idr (r : LapRun) : LapRun :=
  let pic := assignPicType .idr
  { r.add (refPicPopulation p pic.1 pic.2 0 r.s) with i4CurrPoc := 1 }

def LapRun.bPic (base : Int) (r : LapRun) (e : Nat × Nat) : LapRun :=
  r.add (refBPicPopulation p e.1 (base + e.2) r.s)

/-- `ihevce_ip_pic_population` and `ihevce_b_pic_population` for a capture array. -/
def LapRun.subGop (r : LapRun) (g : SubGop) : LapRun :=
  let base := r.i4CurrPoc
  let r :=
    match g.captureOrder p.i4MaxTemporalLayers (subGopSize p.i4MaxTemporalLayers - 1) with
    | some j =>
      let pic := assignPicType g.last
      r.add (refPicPopulation p pic.1 pic.2 (base + j) r.s)
    | none => r
  let r := (g.bPics p.i4MaxTemporalLayers).foldl (LapRun.bPic p base) r
  { r with i4CurrPoc := base + g.numPics p.i4MaxTemporalLayers }

/-- What the look-ahead does next. -/
inductive LapStep
  | idr
  | subGop (g : SubGop)

def LapStep.Legal : LapStep → Prop
  | .idr => True
  | .subGop g => g.Legal p.i4MaxTemporalLayers

def LapRun.step (r : LapRun) : LapStep → LapRun
  | .idr => r.idr p
  | .subGop g => r.subGop p g

/-- The first picture is an IDR picture. -/
def lapRun (steps : List LapStep) : LapRun :=
  steps.foldl (LapRun.step p) (LapRun.idr p ⟨.init, 0, []⟩)

end

end Libhevc.Encoder

/-!
## Sub-GOPs in encode order

However a sub-GOP is cut short, its last picture is coded first, and each of the
others once.
-/

namespace Libhevc.Encoder

open Memory

-- ---------------------------------------------------------------------------
-- The tree
-- ---------------------------------------------------------------------------

def EncodeNode.size : EncodeNode α → Nat
  | .null => 0
  | .node _ left right => left.size + 1 + right.size

theorem populateTreeNodes_size (n : Nat) : (populateTreeNodes n).size = 2 ^ n - 1 := by
  induction n with
  | zero => rfl
  | succ n ih =>
    have hpos := Nat.two_pow_pos n
    rw [populateTreeNodes, EncodeNode.size, ih, Nat.pow_succ]
    omega

theorem captureOrder_count (slots : Nat → α) (t : EncodeNode Unit) (loopCount : Nat) :
    (captureOrderTraversalNodes slots t loopCount).2 = loopCount + t.size := by
  induction t generalizing loopCount with
  | null => rfl
  | node data left right ihl ihr =>
    simp only [captureOrderTraversalNodes, EncodeNode.size, ihl, ihr]
    omega

/-- The encode order has the slots of the tree, each once. -/
theorem encodeOrder_perm (slots : Nat → α) (t : EncodeNode Unit) (loopCount currLayer : Nat) :
    ((encodeOrderTraversalNodes (captureOrderTraversalNodes slots t loopCount).1 currLayer).map
      Prod.snd).Perm ((List.range' loopCount t.size).map slots) := by
  induction t generalizing loopCount currLayer with
  | null => exact .refl _
  | node data left right ihl ihr =>
    have hrange : List.range' loopCount (left.size + 1 + right.size) =
        List.range' loopCount left.size ++ (loopCount + left.size) ::
          List.range' (loopCount + left.size + 1) right.size := by
      rw [Nat.add_assoc, ← List.range'_append_1, Nat.add_comm 1, List.range'_succ]
    simp only [captureOrderTraversalNodes, encodeOrderTraversalNodes, EncodeNode.size, hrange,
      captureOrder_count, List.map_cons, List.map_append]
    exact (((ihl loopCount _).append (ihr _ _)).cons _).trans List.perm_middle.symm

-- ---------------------------------------------------------------------------
-- The capture array
-- ---------------------------------------------------------------------------

/-- The last picture in the last slot, and no picture in two slots. -/
structure SlotsOk (layers : Nat) (g : SubGop) : Prop where
  last : g.captureOrder layers (subGopSize layers - 1) = some (g.numPics layers - 1)
  inj : ∀ i < subGopSize layers, ∀ k < subGopSize layers,
    g.captureOrder layers i = g.captureOrder layers k → g.captureOrder layers i ≠ none → i = k

instance (layers : Nat) (g : SubGop) : Decidable (SlotsOk layers g) :=
  decidable_of_iff
    (g.captureOrder layers (subGopSize layers - 1) = some (g.numPics layers - 1) ∧
      ∀ i < subGopSize layers, ∀ k < subGopSize layers,
        g.captureOrder layers i = g.captureOrder layers k → g.captureOrder layers i ≠ none → i = k)
    ⟨fun h => ⟨h.1, h.2⟩, fun h => ⟨h.last, h.inj⟩⟩

theorem captured_some (h : captured n i = some j) : i = j := by
  unfold captured at h
  split at h
  · exact Option.some.inj h
  · cases h

theorem full_slotsOk (layers : Nat) (last : PicType) : SlotsOk layers (.full last) where
  last := if_pos (Nat.sub_lt (Nat.two_pow_pos layers) Nat.one_pos)
  inj i _ k _ heq hne := by
    obtain ⟨j, hj⟩ := Option.ne_none_iff_exists'.mp hne
    exact (captured_some hj).trans (captured_some (heq ▸ hj)).symm

theorem short_slotsOk : ∀ layers < 4, ∀ n < subGopSize layers, 0 < n →
    SlotsOk layers (.cut n) ∧ SlotsOk layers (.ended n) := by
  decide

/-- Three pictures before an IDR picture are coded from the last to the first. -/
example : (SubGop.cut 3).captureOrder 3 7 = some 2 ∧ (SubGop.cut 3).bPics 3 = [(1, 1), (2, 0)] := by
  decide

theorem SubGop.Legal.slotsOk {g : SubGop} (h : g.Legal layers) (hlayers : layers ≤ 3) :
    SlotsOk layers g := by
  cases g with
  | full last => exact full_slotsOk layers last
  | cut n => exact (short_slotsOk layers (Nat.lt_succ_of_le hlayers) n h.2 h.1).1
  | ended n => exact (short_slotsOk layers (Nat.lt_succ_of_le hlayers) n h.2 h.1).2

theorem SubGop.Legal.numPics_pos {g : SubGop} (h : g.Legal layers) : 0 < g.numPics layers := by
  cases g with
  | full last => exact Nat.two_pow_pos layers
  | cut n => exact h.1
  | ended n => exact h.1

theorem SubGop.Legal.last {g : SubGop} (h : g.Legal layers) :
    g.last = .i ∨ g.last = .p ∨ g.last = .cra := by
  cases g with
  | full last => exact h
  | cut n => exact .inr (.inl rfl)
  | ended n => exact .inr (.inl rfl)

/-- The slots of the tree that have a picture. -/
theorem bPics_perm (layers : Nat) (g : SubGop) :
    ((g.bPics layers).map Prod.snd).Perm ((List.range (subGopSize layers - 1)).filterMap fun i =>
      (g.captureOrder layers i).bind fun j =>
        if j < g.numPics layers then some j else none) := by
  have hperm := encodeOrder_perm (g.captureOrder layers) (populateTreeNodes layers) 0 1
  have hfilter := hperm.filterMap fun o : Option Nat => o.bind fun j =>
    if j < g.numPics layers then some j else none
  rw [populateTreeNodes_size, ← List.range_eq_range', List.filterMap_map, List.filterMap_map]
    at hfilter
  refine List.Perm.trans (.of_eq ?_) hfilter
  unfold SubGop.bPics
  rw [List.map_filterMap]
  refine List.filterMap_congr fun e _ => ?_
  obtain ⟨layer, slot⟩ := e
  cases slot with
  | none => rfl
  | some j =>
    simp only [Function.comp_apply, Option.bind_some]
    split <;> rfl

theorem SlotsOk.bPics {g : SubGop} (h : SlotsOk layers g) :
    ((g.bPics layers).map Prod.snd).Nodup ∧ ∀ e ∈ g.bPics layers, e.2 < g.numPics layers - 1 := by
  have hperm := bPics_perm layers g
  have hslot {i j : Nat} (hsome : ((g.captureOrder layers i).bind fun j =>
      if j < g.numPics layers then some j else none) = some j) :
      g.captureOrder layers i = some j ∧ j < g.numPics layers := by
    obtain ⟨k, hk, hlt⟩ := Option.bind_eq_some_iff.mp hsome
    split at hlt
    · obtain rfl := Option.some.inj hlt
      exact ⟨hk, ‹_›⟩
    · cases hlt
  have hpos := Nat.two_pow_pos layers
  constructor
  · refine hperm.nodup_iff.mpr (List.pairwise_filterMap.mpr ?_)
    refine List.pairwise_lt_range.imp_of_mem fun {i k} hi hk hlt j hj j' hj' heq => ?_
    obtain ⟨hi', -⟩ := hslot hj
    obtain ⟨hk', -⟩ := hslot hj'
    have hi := List.mem_range.mp hi
    have hk := List.mem_range.mp hk
    have hsame := h.inj i (by omega) k (by omega) (by rw [hi', hk', heq]) (by simp [hi'])
    omega
  · intro e he
    obtain ⟨i, hi, hj⟩ := List.mem_filterMap.mp
      (hperm.mem_iff.mp (List.mem_map_of_mem (f := Prod.snd) he))
    obtain ⟨hi', hlt⟩ := hslot hj
    have hi := List.mem_range.mp hi
    -- the last picture has the slot behind the tree
    have hne : e.2 ≠ g.numPics layers - 1 := fun heq => by
      have hsame := h.inj i (by omega) (subGopSize layers - 1) (Nat.sub_lt hpos Nat.one_pos)
        (by rw [hi', h.last, heq]) (by simp [hi'])
      omega
    omega

end Libhevc.Encoder
