import Mathlib.Data.List.Nodup
import Mathlib.Logic.Function.Basic

/-!
# Linked lists

Nodes of a type `α` that each name at most one next node. `Linked next h l`
says that following `next` from `h` visits the nodes `l` and then ends.
-/

namespace LinkedList

/-- From `h`, the links lead through `l` to an end. -/
def Linked (next : α → Option α) : Option α → List α → Prop
  | h, [] => h = none
  | h, a :: l => h = some a ∧ Linked next (next a) l

@[simp] theorem linked_nil : Linked next h [] ↔ h = none := Iff.rfl

@[simp] theorem linked_cons : Linked next h (a :: l) ↔ h = some a ∧ Linked next (next a) l :=
  Iff.rfl

theorem Linked.head (hl : Linked next h l) : h = l.head? := by
  cases l with
  | nil => exact hl
  | cons a l => exact hl.1

theorem Linked.link_eq (hl : Linked next h (pre ++ a :: b :: post)) : next a = some b := by
  induction pre generalizing h with
  | nil => exact hl.2.1
  | cons c pre ih => exact ih hl.2

/-- Links of nodes outside the list do not matter. -/
theorem Linked.congr (hl : Linked next h l) (he : ∀ a ∈ l, next' a = next a) :
    Linked next' h l := by
  induction l generalizing h with
  | nil => exact hl
  | cons a l ih =>
    refine ⟨hl.1, ?_⟩
    rw [he a List.mem_cons_self]
    exact ih hl.2 fun b hb => he b (List.mem_cons_of_mem _ hb)

section
variable {α : Type} [DecidableEq α] {next : α → Option α} {a b : α} {l pre post : List α}

theorem Linked.update (hl : Linked next h l) (ha : a ∉ l) :
    Linked (Function.update next a t) h l := by
  refine hl.congr fun b hb => Function.update_of_ne ?_ _ _
  rintro rfl
  exact ha hb

/-- A new node in front of the list. -/
theorem Linked.push (hl : Linked next h l) (ha : a ∉ l) :
    Linked (Function.update next a h) (some a) (a :: l) := by
  refine ⟨rfl, ?_⟩
  rw [Function.update_self]
  exact hl.update ha

/-- The node behind `a` is taken out. -/
theorem Linked.unlink (hl : Linked next h (pre ++ a :: b :: post))
    (hn : (pre ++ a :: b :: post).Nodup) :
    Linked (Function.update next a (next b)) h (pre ++ a :: post) := by
  induction pre generalizing h with
  | nil =>
    obtain ⟨rfl, _, hpost⟩ := hl
    have ha : a ∉ post := fun ha => (List.nodup_cons.mp hn).1 (List.mem_cons_of_mem _ ha)
    refine ⟨rfl, ?_⟩
    rw [Function.update_self]
    exact hpost.update ha
  | cons c pre ih =>
    obtain ⟨rfl, hl⟩ := hl
    obtain ⟨hc, hn⟩ := List.nodup_cons.mp hn
    refine ⟨rfl, ?_⟩
    have hca : c ≠ a := by
      rintro rfl
      exact hc (by simp)
    rw [Function.update_of_ne hca]
    exact ih hl hn

end

end LinkedList
