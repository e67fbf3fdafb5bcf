import Mathlib.Order.Basic
import Mathlib.Data.List.Basic
import Mathlib.Order.Lattice

/-!
# Bumping

Items come in one order and are put out by their keys: while more than a given
number wait, the least of them is put out. The output is sorted when no more
than that number of items precede one of less key.
-/

namespace Bumping

variable [LinearOrder κ] {key : α → κ}

/-- Every item of `done` was put out or waits. -/
def Kept (done out waiting : List α) : Prop := (out ++ waiting).Perm done

theorem Kept.add (h : Kept done out waiting) (a : α) : Kept (done ++ [a]) out (a :: waiting) := by
  refine (List.perm_middle.trans ?_).trans List.perm_append_comm
  exact h.cons a

theorem Kept.put (h : Kept done out waiting) (hw : waiting.Perm (m :: rest)) :
    Kept done (out ++ [m]) rest := by
  rw [Kept, List.append_assoc]
  exact (hw.symm.append_left out).trans h

/-- What was put out is sorted, and before all that is to come. -/
structure Sorted (key : α → κ) (later out waiting : List α) : Prop where
  sorted : out.Pairwise fun x y => key x < key y
  below : ∀ x ∈ out, ∀ y ∈ waiting ++ later, key x < key y
  distinct : (waiting ++ later).Pairwise fun x y => key x ≠ key y

theorem Sorted.add (h : Sorted key (a :: later) out waiting) :
    Sorted key later out (a :: waiting) := by
  have hperm : (waiting ++ a :: later).Perm (a :: waiting ++ later) := List.perm_middle
  refine ⟨h.sorted, fun x hx y hy => h.below x hx y (hperm.mem_iff.mpr hy), ?_⟩
  exact (hperm.pairwise_iff Ne.symm).mp h.distinct

theorem Sorted.put (h : Sorted key later out waiting) (hw : waiting.Perm (m :: rest))
    (hleast : ∀ x ∈ waiting, key m ≤ key x) (hlater : ∀ x ∈ later, key m < key x) :
    Sorted key later (out ++ [m]) rest := by
  have hperm := hw.append_right later
  have hdistinct := (hperm.pairwise_iff Ne.symm).mp h.distinct
  obtain ⟨hne, hdistinct⟩ := List.pairwise_cons.mp hdistinct
  have hm : m ∈ waiting := hw.mem_iff.mpr List.mem_cons_self
  refine ⟨?_, fun x hx y hy => ?_, hdistinct⟩
  · rw [List.pairwise_append]
    refine ⟨h.sorted, List.pairwise_singleton _ _, fun x hx y hy => ?_⟩
    obtain rfl := List.mem_singleton.mp hy
    exact h.below x hx y (List.mem_append_left _ hm)
  · rcases List.mem_append.mp hx with hx | hx
    · exact h.below x hx y (hperm.mem_iff.mpr (List.mem_cons_of_mem _ hy))
    · obtain rfl := List.mem_singleton.mp hx
      rcases List.mem_append.mp hy with hy' | hy'
      · exact lt_of_le_of_ne (hleast y (hw.mem_iff.mpr (List.mem_cons_of_mem _ hy'))) (hne y hy)
      · exact hlater y hy'

/-- With more than `depth` items waiting, the least precedes every later item that at most `depth`
items of `done` are above. -/
theorem least_before_later (hkept : Kept done out waiting) (hdepth : depth < waiting.length)
    (hleast : ∀ x ∈ waiting, key m ≤ key x) (hreorder : done.countP (key y < key ·) ≤ depth)
    (hne : key m ≠ key y) : key m < key y := by
  rcases lt_or_gt_of_ne hne with hlt | hgt
  · exact hlt
  · have hall : waiting.countP (key y < key ·) = waiting.length := by
      rw [List.countP_eq_length]
      intro x hx
      simpa using hgt.trans_le (hleast x hx)
    have hcount : waiting.countP (key y < key ·) ≤ done.countP (key y < key ·) := by
      rw [← hkept.countP_eq, List.countP_append]
      exact Nat.le_add_left _ _
    omega

end Bumping
