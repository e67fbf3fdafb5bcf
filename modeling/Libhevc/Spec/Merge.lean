import Libhevc.Common.Merge
import Mathlib.Data.List.ReduceOption

/-!
# The merge list

The complete list of a prediction block, in terms of the motion of its
neighbours: spatial candidates, the temporal one, combinations of these two by
two, and zero candidates up to the length of the list.
-/

namespace Libhevc.Spec

/-- The vector and the reference index of each list that is used. -/
structure Motion where
  l0 : Option (Mv × Int)
  l1 : Option (Mv × Int)
  deriving DecidableEq, Repr

/-- What the merge list depends on. A neighbour has motion if it is available and inter. -/
structure MergeContext where
  sliceType : SliceType
  numRefIdx : Int
  refPoc : ListX → Int → Int
  mergeLevel : Nat
  part : Part
  motion : NbrPos → Option Motion
  temporal : ListX → Option Mv

/-- A second part does not take the motion of the first one, with which it would be one block. -/
def firstPart (part : Part) : NbrPos → Bool
  | .a1 => part.secondOf besideModes
  | .b1 => part.secondOf belowModes
  | _ => false

def MergeContext.usable (c : MergeContext) (nbr : NbrPos) : Option Motion :=
  if c.part.sameLevel c.mergeLevel nbr || firstPart c.part nbr then none else c.motion nbr

/-- A candidate, unless it is equal to one of the others. -/
def unlessIn [DecidableEq α] (cand : Option α) (others : List (Option α)) : Option α :=
  if cand ∈ others then none else cand

def MergeContext.firstFour (c : MergeContext) : List (Option Motion) :=
  [c.usable .a1, unlessIn (c.usable .b1) [c.usable .a1], unlessIn (c.usable .b0) [c.usable .b1],
    unlessIn (c.usable .a0) [c.usable .a1]]

def MergeContext.fifth (c : MergeContext) : Option Motion :=
  if c.firstFour.reduceOption.length = 4 then none
  else unlessIn (c.usable .b2) [c.usable .a1, c.usable .b1]

def MergeContext.temporalCand (c : MergeContext) : Option Motion :=
  if c.temporal .l0 = none ∧ c.temporal .l1 = none then none
  else some
    { l0 := (c.temporal .l0).map fun mv => (mv, 0)
      l1 := (c.temporal .l1).map fun mv => (mv, 0) }

/-- The candidates of neighbours and of the collocated picture. -/
def MergeContext.original (c : MergeContext) : List Motion :=
  (c.firstFour ++ [c.fifth, c.temporalCand]).reduceOption

/-- List 0 of one candidate and list 1 of another one, unless they are the same prediction. -/
def MergeContext.combine (c : MergeContext) (first second : Motion) : Option Motion :=
  match first.l0, second.l1 with
  | some (mv0, refIdx0), some (mv1, refIdx1) =>
    if c.refPoc .l0 refIdx0 ≠ c.refPoc .l1 refIdx1 ∨ mv0 ≠ mv1 then
      some { l0 := some (mv0, refIdx0), l1 := some (mv1, refIdx1) }
    else none
  | _, _ => none

def MergeContext.combinePair (c : MergeContext) (list : List Motion) (pair : Nat × Nat) :
    Option Motion :=
  match list[pair.1]?, list[pair.2]? with
  | some first, some second => c.combine first second
  | _, _ => none

/-- All pairs of different candidates of a list of length `n`, in the order of their priority. -/
def pairs (n : Nat) : List (Nat × Nat) := priorityList.take (n * (n - 1))

def MergeContext.combined (c : MergeContext) (maxCand : Nat) : List Motion :=
  let n := c.original.length
  if c.sliceType = .bslice ∧ 1 < n ∧ n < maxCand then
    ((pairs n).filterMap (c.combinePair c.original)).take (maxCand - n)
  else []

/-- After the last reference picture, zero candidates stay at the first one. -/
def MergeContext.zero (c : MergeContext) (zeroIdx : Nat) : Motion :=
  let refIdx : Int := if (zeroIdx : Int) < c.numRefIdx then zeroIdx else 0
  { l0 := some (.zero, refIdx)
    l1 := if c.sliceType = .pslice then none else some (.zero, refIdx) }

/-- The complete list, for a slice whose lists have up to `maxCand` candidates. -/
def MergeContext.mergeList (c : MergeContext) (maxCand : Nat) : List Motion :=
  let list := c.original ++ c.combined maxCand
  list ++ (List.range (maxCand - list.length)).map c.zero

-- ---------------------------------------------------------------------------
-- Entries
-- ---------------------------------------------------------------------------

/-- The combined candidates of a list with room for all of them. -/
def MergeContext.allCombined (c : MergeContext) : List Motion :=
  if c.sliceType = .bslice ∧ 1 < c.original.length then
    (pairs c.original.length).filterMap (c.combinePair c.original)
  else []

variable {c : MergeContext}

theorem combined_take (hlt : c.original.length < maxCand) :
    c.combined maxCand = c.allCombined.take (maxCand - c.original.length) := by
  unfold MergeContext.combined MergeContext.allCombined
  by_cases hb : c.sliceType = .bslice ∧ 1 < c.original.length
  · exact (if_pos ⟨hb.1, hb.2, hlt⟩).trans (by rw [if_pos hb])
  · rw [if_neg hb, List.take_nil]
    exact if_neg fun hall => hb ⟨hall.1, hall.2.1⟩

theorem combined_full (hge : maxCand ≤ c.original.length) : c.combined maxCand = [] :=
  if_neg fun hall => Nat.not_lt.mpr hge hall.2.2

/-- An entry does not depend on the length of the list. -/
theorem mergeList_get (c : MergeContext) (hidx : idx < maxCand) :
    (c.mergeList maxCand)[idx]? =
      some (((c.original ++ c.allCombined)[idx]?).getD
        (c.zero (idx - (c.original ++ c.allCombined).length))) := by
  unfold MergeContext.mergeList
  dsimp only
  obtain hge | hlt := le_or_gt maxCand c.original.length
  · have hin : idx < c.original.length := by omega
    rw [combined_full hge, List.append_nil, List.getElem?_append_left hin,
      List.getElem?_append_left hin, List.getElem?_eq_getElem hin]
    rfl
  · have htake : c.original ++ c.combined maxCand = (c.original ++ c.allCombined).take maxCand := by
      rw [combined_take hlt, List.take_append, List.take_of_length_le hlt.le]
    rw [htake]
    generalize c.original ++ c.allCombined = all
    obtain hin | hout := Nat.lt_or_ge idx all.length
    · have htaken : idx < (all.take maxCand).length := by
        rw [List.length_take]
        omega
      rw [List.getElem?_append_left htaken, List.getElem?_take_of_lt hidx,
        List.getElem?_eq_getElem hin]
      rfl
    · rw [List.take_of_length_le (by omega), List.getElem?_append_right hout, List.getElem?_map,
        List.getElem?_range (by omega), List.getElem?_eq_none hout]
      rfl

/-- There are at most four spatial candidates. -/
theorem spatial_le (c : MergeContext) : (c.firstFour ++ [c.fifth]).reduceOption.length ≤ 4 := by
  have hfour : c.firstFour.reduceOption.length ≤ 4 :=
    List.reduceOption_length_le c.firstFour
  rw [List.reduceOption_append, List.length_append]
  unfold MergeContext.fifth
  split
  case isTrue => simpa using hfour
  case isFalse hlen =>
    have hfifth := List.reduceOption_length_le
      [unlessIn (c.usable .b2) [c.usable .a1, c.usable .b1]]
    rw [List.length_singleton] at hfifth
    omega

/-- A candidate that may be unavailable, and others that may be. -/
def ifAvail (cand : Bool × α) : Option α := if cand.1 then some cand.2 else none

@[simp] theorem ifAvail_true (x : α) : ifAvail (true, x) = some x := rfl

@[simp] theorem ifAvail_false (x : α) : ifAvail (false, x) = none := rfl

/-- A candidate that is available counts when no available one of the others is equal to it. -/
theorem unlessIn_ifAvail [DecidableEq α] (cand : Bool × α) (others : List (Bool × α)) :
    unlessIn (ifAvail cand) (others.map ifAvail) =
      ifAvail (cand.1 && others.all fun other => !(other.1 && decide (other.2 = cand.2)), cand.2) := by
  obtain ⟨avail, x⟩ := cand
  cases avail with
  | false => exact ite_self none
  | true =>
    have hmem : some x ∈ others.map ifAvail ↔
        ¬(others.all fun other => !(other.1 && decide (other.2 = x))) = true := by
      induction others with
      | nil => simp
      | cons other others ih =>
        obtain ⟨available, y⟩ := other
        rw [List.map_cons, List.mem_cons, ih, List.all_cons]
        cases available with
        | false => simp
        | true => by_cases hsame : y = x <;> simp [hsame, Ne.symm]
    rw [ifAvail_true, Bool.true_and]
    by_cases hall : (others.all fun other => !(other.1 && decide (other.2 = x))) = true
    · exact (if_neg (not_not.mpr hall ∘ hmem.mp)).trans (by rw [hall, ifAvail_true])
    · have hin := hmem.mpr hall
      rw [Bool.not_eq_true] at hall
      exact (if_pos hin).trans (by rw [hall, ifAvail_false])

/-- The reference pictures matter in B slices only. -/
theorem mergeList_refPoc {refPoc : ListX → Int → Int}
    (h : c.sliceType = .bslice → refPoc = c.refPoc) :
    { c with refPoc := refPoc }.mergeList maxCand = c.mergeList maxCand := by
  by_cases hb : c.sliceType = .bslice
  · rw [h hb]
  · have hcombined : { c with refPoc := refPoc }.combined maxCand = c.combined maxCand :=
      (if_neg fun hall => hb hall.1).trans (if_neg fun hall => hb hall.1).symm
    unfold MergeContext.mergeList
    rw [hcombined]
    rfl

theorem pairs_lt (hpair : pair ∈ pairs n) (hn : n ≤ 4) : pair.1 < n ∧ pair.2 < n := by
  have hall : ∀ n < 5, ∀ pair ∈ pairs n, pair.1 < n ∧ pair.2 < n := by decide
  exact hall n (by omega) pair hpair

end Libhevc.Spec
