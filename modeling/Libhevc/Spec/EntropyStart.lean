import Libhevc.Common.Motion
import Libhevc.Common.Platform

/-!
# The start of a coding tree unit

With which context variables the parsing of each coding tree unit of a picture
begins, for any tiles, slices and slice segments, with wavefronts or without.
-/

namespace Libhevc.Spec

/-- Context variables, and the Rice statistics where they persist. -/
structure EntropyVars where
  ctxtModels : List Nat
  statCoeff : Option (List Int)
  deriving DecidableEq, Repr

/-- `initType` of the context tables. -/
def initType (sliceType : SliceType) (cabacInitFlag : Bool) : Nat :=
  match sliceType with
  | .islice => 0
  | .pslice => if cabacInitFlag then 2 else 1
  | .bslice => if cabacInitFlag then 1 else 2

/-- The initial variables of a slice. -/
def initVars (table : Nat → Nat → List Nat) (persistentRice : Bool) (sliceType : SliceType)
    (cabacInitFlag : Bool) (sliceQpY : Int) : EntropyVars where
  ctxtModels := table (initType sliceType cabacInitFlag) (clip3 sliceQpY 0 51).toNat
  statCoeff := if persistentRice then some [0, 0, 0, 0] else none

/-- The coding tree units of a picture in decoding order: their places and tiles, and the slice
segments that begin with them, each dependent or not. -/
structure CtuOrder where
  syncEnabled : Bool
  pos : Nat → Nat × Nat
  tileId : Nat → Nat
  segment : Nat → Option Bool

namespace CtuOrder

variable (o : CtuOrder)

/-- Where the slice of a unit begins. -/
def sliceStart : Nat → Nat
  | 0 => 0
  | k + 1 => if o.segment (k + 1) = some false then k + 1 else sliceStart k

/-- Where the slice segment of a unit begins. -/
def segmentStart : Nat → Nat
  | 0 => 0
  | k + 1 => if (o.segment (k + 1)).isSome then k + 1 else segmentStart k

/-- A slice segment lies in one tile, or consists of whole tiles: of the segment and the tile of
each unit, one has all units of the other. -/
def SegmentsAndTiles (numCtus : Nat) : Prop :=
  ∀ k < numCtus,
    (∀ j < numCtus, o.segmentStart j = o.segmentStart k → o.tileId j = o.tileId k) ∨
    (∀ j < numCtus, o.tileId j = o.tileId k → o.segmentStart j = o.segmentStart k)

def FirstInTile (k : Nat) : Prop := ∀ j < k, o.tileId j ≠ o.tileId k

/-- The first unit of a row of its tile: the one to the left is of another tile, or outside. -/
def FirstInRow (k : Nat) : Prop :=
  ∀ j < k, (o.pos j).1 + 1 = (o.pos k).1 → (o.pos j).2 = (o.pos k).2 → o.tileId j ≠ o.tileId k

/-- Unit `j` is above and to the right of unit `k`, and available to it. -/
def TopRight (k j : Nat) : Prop :=
  j < k ∧ (o.pos j).1 = (o.pos k).1 + 1 ∧ (o.pos j).2 + 1 = (o.pos k).2 ∧
    o.tileId j = o.tileId k ∧ o.sliceStart j = o.sliceStart k

instance (k : Nat) : Decidable (o.FirstInTile k) := by
  unfold FirstInTile
  infer_instance

instance (k : Nat) : Decidable (o.FirstInRow k) := by
  unfold FirstInRow
  infer_instance

instance (k j : Nat) : Decidable (o.TopRight k j) := by
  unfold TopRight
  infer_instance

def topRight? (k : Nat) : Option Nat := (List.range k).find? fun j => o.TopRight k j

/-- The variables at the start of unit `k`; `ends` has those at the end of the units before it. A
dependent segment takes over the end of the segment before it, which is the unit before. -/
def startVars (tables ends : Nat → α) (k : Nat) : α :=
  if o.FirstInTile k ∨ o.segment k = some false then tables k
  else if o.syncEnabled = true ∧ o.FirstInRow k then
    match o.topRight? k with
    | some j => ends j
    | none => ends (k - 1)
  else ends (k - 1)

/-- The first `numCtus` units start from what is prescribed; `parse k` is what unit `k` makes of its
variables. -/
def Prescribed (numCtus : Nat) (tables : Nat → α) (parse : Nat → α → α) (start : Nat → α) : Prop :=
  ∀ k < numCtus, start k = o.startVars tables (fun j => parse j (start j)) k

/-- What the specification allows with wavefronts: a slice that begins inside a row of its tile ends
in that row. -/
def WavefrontSlices (numCtus : Nat) : Prop :=
  ∀ k < numCtus, ¬o.FirstInRow (o.sliceStart k) → (o.pos k).2 = (o.pos (o.sliceStart k)).2

variable {o}

theorem sliceStart_le (k : Nat) : o.sliceStart k ≤ k := by
  induction k with
  | zero => exact Nat.le_refl 0
  | succ k ih =>
    unfold sliceStart
    split
    · exact Nat.le_refl _
    · exact ih.trans (Nat.le_succ k)

theorem sliceStart_of_independent (h : o.segment k = some false) : o.sliceStart k = k := by
  cases k with
  | zero => rfl
  | succ k => simp [sliceStart, h]

theorem sliceStart_of_none (h : o.segment (k + 1) ≠ some false) :
    o.sliceStart (k + 1) = o.sliceStart k := by
  simp [sliceStart, h]

theorem independent_of_sliceStart (h : o.sliceStart k = k) :
    k = 0 ∨ o.segment k = some false := by
  cases k with
  | zero => exact .inl rfl
  | succ k =>
    refine .inr ?_
    by_contra hne
    rw [sliceStart_of_none hne] at h
    have hle := o.sliceStart_le k
    omega

theorem segmentStart_le (k : Nat) : o.segmentStart k ≤ k := by
  induction k with
  | zero => exact Nat.le_refl 0
  | succ k ih =>
    unfold segmentStart
    split
    · exact Nat.le_refl _
    · exact ih.trans (Nat.le_succ k)

theorem segmentStart_of_some (h : (o.segment k).isSome) : o.segmentStart k = k := by
  cases k with
  | zero => rfl
  | succ k => simp [segmentStart, h]

theorem segmentStart_of_none (h : o.segment (k + 1) = none) :
    o.segmentStart (k + 1) = o.segmentStart k := by
  simp [segmentStart, h]

theorem segmentStart_idem (k : Nat) : o.segmentStart (o.segmentStart k) = o.segmentStart k := by
  induction k with
  | zero => rfl
  | succ k ih =>
    cases hs : o.segment (k + 1) with
    | none => rw [segmentStart_of_none hs, ih]
    | some dependent =>
      have hself : o.segmentStart (k + 1) = k + 1 := segmentStart_of_some (by simp [hs])
      rw [hself, hself]

theorem sliceStart_le_segmentStart (k : Nat) : o.sliceStart k ≤ o.segmentStart k := by
  induction k with
  | zero => exact Nat.le_refl 0
  | succ k ih =>
    cases hs : o.segment (k + 1) with
    | none => rwa [segmentStart_of_none hs, sliceStart_of_none (by simp [hs])]
    | some dependent =>
      rw [segmentStart_of_some (by simp [hs])]
      exact o.sliceStart_le _

/-- No slice begins between the start of a slice and a unit of it. -/
theorem sliceStart_between (hge : o.sliceStart k ≤ j) (hle : j ≤ k) :
    o.sliceStart j = o.sliceStart k := by
  induction k with
  | zero =>
    obtain rfl : j = 0 := by simpa using hle
    rfl
  | succ k ih =>
    rcases Nat.lt_or_eq_of_le hle with hlt | rfl
    · by_cases hs : o.segment (k + 1) = some false
      · rw [sliceStart_of_independent hs] at hge
        omega
      · rw [sliceStart_of_none hs] at hge ⊢
        exact ih hge (Nat.le_of_lt_succ hlt)
    · rfl

theorem topRight?_eq_some (h : o.topRight? k = some j) : o.TopRight k j := by
  simpa using List.find?_some h

theorem topRight?_eq_none : o.topRight? k = none ↔ ∀ j, ¬o.TopRight k j := by
  simp only [topRight?, List.find?_eq_none, List.mem_range, decide_eq_true_eq]
  exact ⟨fun h j hj => h j hj.1 hj, fun h j _ => h j⟩

/-- The start depends on no unit but those before. -/
theorem startVars_congr {tables ends ends' : Nat → α} (hpos : 0 < k)
    (h : ∀ j < k, ends j = ends' j) :
    o.startVars tables ends k = o.startVars tables ends' k := by
  have hprev : ends (k - 1) = ends' (k - 1) := h _ (by omega)
  unfold startVars
  split
  · rfl
  · split
    · cases htr : o.topRight? k with
      | none => exact hprev
      | some j => exact h j (topRight?_eq_some htr).1
    · exact hprev

/-- There is one way to start all units. -/
theorem Prescribed.unique {tables : Nat → α} {parse : Nat → α → α} {start start' : Nat → α}
    (h : o.Prescribed numCtus tables parse start) (h' : o.Prescribed numCtus tables parse start')
    (hk : k < numCtus) : start k = start' k := by
  induction k using Nat.strongRecOn with
  | ind k ih =>
    rw [h k hk, h' k hk]
    rcases Nat.eq_zero_or_pos k with rfl | hpos
    · simp [startVars, FirstInTile]
    · refine startVars_congr hpos fun j hj => ?_
      rw [ih j hj (hj.trans hk)]

end CtuOrder

end Libhevc.Spec
