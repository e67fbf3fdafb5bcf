import Mathlib.Data.List.Basic
import Mathlib.Order.Basic

/-!
# Picture order count

The derivation of the specification: the most significant bits follow those of
the last picture that may be a reference for the derivation, so that the count
moves by half a period at most. Every coded video sequence starts anew.
-/

namespace Libhevc.Spec

/-- What the derivation reads of a picture: `slice_pic_order_cnt_lsb`, and whether the picture is
of temporal layer 0 and neither a leading nor a sub-layer non-reference picture. -/
structure Picture where
  lsb : Int
  tid0 : Bool

/-- The count of the picture that was the last of its kind. -/
structure PrevTid0 where
  msb : Int
  lsb : Int

def picOrderCntMsb (maxLsb : Int) (prev : PrevTid0) (lsb : Int) : Int :=
  if lsb < prev.lsb ∧ maxLsb / 2 ≤ prev.lsb - lsb then prev.msb + maxLsb
  else if prev.lsb < lsb ∧ maxLsb / 2 < lsb - prev.lsb then prev.msb - maxLsb
  else prev.msb

def PrevTid0.next (prev : PrevTid0) (msb : Int) (pic : Picture) : PrevTid0 :=
  if pic.tid0 then ⟨msb, pic.lsb⟩ else prev

/-- The parts of the counts of the pictures behind the first. -/
def picOrderCnts (maxLsb : Int) : PrevTid0 → List Picture → List (Int × Int)
  | _, [] => []
  | prev, pic :: pics =>
    let msb := picOrderCntMsb maxLsb prev pic.lsb
    (msb, pic.lsb) :: picOrderCnts maxLsb (prev.next msb pic) pics

def lastTid0 (maxLsb : Int) : PrevTid0 → List Picture → PrevTid0
  | prev, [] => prev
  | prev, pic :: pics =>
    lastTid0 maxLsb (prev.next (picOrderCntMsb maxLsb prev pic.lsb) pic) pics

/-- A coded video sequence: a random access picture, and the pictures up to the next one that
starts a sequence. -/
structure Cvs where
  first : Int
  rest : List Picture

def Cvs.counts (maxLsb : Int) (cvs : Cvs) : List (Int × Int) :=
  (0, cvs.first) :: picOrderCnts maxLsb ⟨0, cvs.first⟩ cvs.rest

/-- `PicOrderCntVal` of every picture. -/
def Cvs.picOrderCntVals (maxLsb : Int) (cvs : Cvs) : List Int :=
  (cvs.counts maxLsb).map fun count => count.1 + count.2

def Cvs.lastMsb (maxLsb : Int) (cvs : Cvs) : Int := (lastTid0 maxLsb ⟨0, cvs.first⟩ cvs.rest).msb

/-- How far each count is from the one it is derived from. -/
def moves (maxLsb : Int) : PrevTid0 → List Picture → List Int
  | _, [] => []
  | prev, pic :: pics =>
    let msb := picOrderCntMsb maxLsb prev pic.lsb
    (msb + pic.lsb - (prev.msb + prev.lsb)) :: moves maxLsb (prev.next msb pic) pics

/-- The count never moves by half a period or more. -/
def Cvs.HalfRange (maxLsb : Int) (cvs : Cvs) : Prop :=
  ∀ move ∈ moves maxLsb ⟨0, cvs.first⟩ cvs.rest, -maxLsb < 2 * move ∧ 2 * move < maxLsb

/-- Every value of a list is below every value of another. -/
def Below (earlier later : List Int) : Prop := ∀ x ∈ earlier, ∀ y ∈ later, x < y

theorem Below.trans (h : Below k l) (h' : Below l m) (hne : l ≠ []) : Below k m := by
  obtain ⟨y, hy⟩ := List.exists_mem_of_ne_nil l hne
  intro x hx z hz
  exact Int.lt_trans (h x hx y hy) (h' y hy z hz)

/-- Lists that are not empty are in order when each one is below the next. -/
theorem pairwise_below {lists : List (List Int)} (h : lists.IsChain Below)
    (hne : ∀ l ∈ lists, l ≠ []) : lists.Pairwise Below := by
  induction lists with
  | nil => exact .nil
  | cons k lists ih =>
    cases lists with
    | nil => exact List.pairwise_singleton _ _
    | cons l lists =>
      obtain ⟨hkl, hchain⟩ := List.isChain_cons_cons.mp h
      obtain ⟨_, hne⟩ := List.forall_mem_cons.mp hne
      have hrest := ih hchain hne
      refine List.pairwise_cons.mpr ⟨fun m hm => ?_, hrest⟩
      rcases List.mem_cons.mp hm with rfl | hm
      · exact hkl
      · exact hkl.trans ((List.pairwise_cons.mp hrest).1 m hm) (hne l List.mem_cons_self)

/-- The values of the sequences on one scale, on which a sequence starts two periods above the most
significant bits at the end of the one before. -/
def shiftedVals (maxLsb : Int) : Int → List Cvs → List (List Int)
  | _, [] => []
  | start, cvs :: rest =>
    (cvs.picOrderCntVals maxLsb).map (start + ·) ::
      shiftedVals maxLsb (start + cvs.lastMsb maxLsb + 2 * maxLsb) rest

/-- On this scale the next sequence is above. -/
def NextAbove (maxLsb : Int) (cvs next : Cvs) : Prop :=
  ∀ x ∈ cvs.picOrderCntVals maxLsb, ∀ y ∈ next.picOrderCntVals maxLsb,
    x < y + cvs.lastMsb maxLsb + 2 * maxLsb

theorem shiftedVals_shifted (maxLsb start : Int) (seqs : List Cvs) :
    List.Forall₂ (fun shifted cvs => ∃ ahead, shifted = (cvs.picOrderCntVals maxLsb).map (ahead + ·))
      (shiftedVals maxLsb start seqs) seqs := by
  induction seqs generalizing start with
  | nil => exact .nil
  | cons cvs rest ih => exact .cons ⟨start, rfl⟩ (ih _)

theorem below_shifted_iff {cvs next : Cvs} :
    Below ((cvs.picOrderCntVals maxLsb).map (start + ·))
        ((next.picOrderCntVals maxLsb).map (start + cvs.lastMsb maxLsb + 2 * maxLsb + ·)) ↔
      NextAbove maxLsb cvs next := by
  simp only [Below, NextAbove, List.forall_mem_map]
  refine forall₂_congr fun x _ => forall₂_congr fun y _ => ?_
  omega

theorem shiftedVals_ordered_iff (maxLsb start : Int) (seqs : List Cvs) :
    (shiftedVals maxLsb start seqs).Pairwise Below ↔ seqs.IsChain (NextAbove maxLsb) := by
  constructor
  · intro h
    have hchain := h.isChain
    clear h
    induction seqs generalizing start with
    | nil => exact .nil
    | cons cvs rest ih =>
      cases rest with
      | nil => exact .singleton _
      | cons next rest =>
        obtain ⟨hbelow, hchain⟩ := List.isChain_cons_cons.mp hchain
        exact List.isChain_cons_cons.mpr ⟨below_shifted_iff.mp hbelow, ih _ hchain⟩
  · intro h
    refine pairwise_below ?_ ?_
    · induction seqs generalizing start with
      | nil => exact .nil
      | cons cvs rest ih =>
        cases rest with
        | nil => exact .singleton _
        | cons next rest =>
          obtain ⟨hnext, hchain⟩ := List.isChain_cons_cons.mp h
          exact List.isChain_cons_cons.mpr ⟨below_shifted_iff.mpr hnext, ih _ hchain⟩
    · clear h
      induction seqs generalizing start with
      | nil => exact fun _ h => nomatch h
      | cons cvs rest ih => exact List.forall_mem_cons.mpr ⟨List.cons_ne_nil _ _, ih _⟩

end Libhevc.Spec
