import Mathlib.Data.List.Induction
import Mathlib.Tactic.Common

/-!
# Endless sequences and the lists they hold

A memory of cells `α` is a function `Nat → α`, read at any address. `Holds m a l`
says that the list `l` stands at address `a`. The laws say how held lists
split, shrink and survive a store.
-/

namespace Memory

/-- The list `l` stands in `m` from address `a`. -/
def Holds (m : Nat → α) (a : Nat) (l : List α) : Prop :=
  ∀ i (h : i < l.length), m (a + i) = l[i]

@[simp] theorem Holds.nil : Holds m a [] := by
  intro i h
  simp at h

theorem Holds.append : Holds m a (l ++ k) ↔ Holds m a l ∧ Holds m (a + l.length) k := by
  constructor
  · intro h
    refine ⟨fun i hi => ?_, fun i hi => ?_⟩
    · rw [h i (by simp; omega), List.getElem_append_left hi]
    · rw [Nat.add_assoc, h (l.length + i) (by simp; omega),
        List.getElem_append_right (by omega)]
      simp
  · rintro ⟨hl, hk⟩ i hi
    by_cases h : i < l.length
    · rw [List.getElem_append_left h, hl i h]
    · rw [List.getElem_append_right (by omega), ← hk (i - l.length) (by simp at hi; omega)]
      congr 1
      omega

@[simp] theorem Holds.singleton : Holds m a [x] ↔ m a = x := by
  constructor
  · intro h
    simpa using h 0 (by simp)
  · rintro rfl i hi
    obtain rfl : i = 0 := by simpa using hi
    rfl

theorem Holds.cons : Holds m a (x :: l) ↔ m a = x ∧ Holds m (a + 1) l := by
  simpa using Holds.append (m := m) (a := a) (l := [x]) (k := l)

theorem Holds.snoc : Holds m a (l ++ [x]) ↔ Holds m a l ∧ m (a + l.length) = x := by
  rw [Holds.append, Holds.singleton]

theorem Holds.congr (h : Holds m a l) (he : ∀ i < l.length, m' (a + i) = m (a + i)) :
    Holds m' a l := by
  intro i hi
  rw [he i hi, h i hi]

theorem Holds.all {P : α → Prop} (h : Holds m 0 l) (hl : ∀ x ∈ l, P x) (hi : i < l.length) :
    P (m i) := by
  have hcell := h i hi
  rw [Nat.zero_add] at hcell
  rw [hcell]
  exact hl _ (List.getElem_mem hi)

/-- Two lists of one length that stand at one address are equal. -/
theorem Holds.unique (h : Holds m a l) (h' : Holds m a l') (hn : l.length = l'.length) :
    l = l' := by
  refine List.ext_getElem hn fun i hi hi' => ?_
  rw [← h i hi, ← h' i hi']

/-- A held list, read back. -/
theorem Holds.map_range_add (h : Holds m a l) :
    (List.range l.length).map (fun i => m (a + i)) = l := by
  refine List.ext_getElem (by simp) fun i hi hi' => ?_
  simpa using h i hi'

theorem Holds.map_range (h : Holds m 0 l) : (List.range l.length).map m = l := by
  simpa using h.map_range_add

theorem holds_getD (l : List α) (d : α) : Holds (fun i => l.getD i d) 0 l := by
  intro i hi
  simp [hi]

theorem getD_of_forall {l : List α} {P : α → Prop} (hl : ∀ x ∈ l, P x) (hd : P d) (i : Nat) :
    P (l.getD i d) := by
  by_cases h : i < l.length
  · simpa [h] using hl _ (List.getElem_mem h)
  · simpa [Nat.le_of_not_lt h] using hd

-- ---------------------------------------------------------------------------
-- Stores
-- ---------------------------------------------------------------------------

/-- The memory after `v` is stored at address `a`. -/
def set (m : Nat → α) (a : Nat) (v : α) : Nat → α := fun i => if i = a then v else m i

@[simp] theorem set_same : set m a v a = v := by simp [set]

theorem set_ne (h : i ≠ a) : set m a v i = m i := by simp [set, h]

/-- A store outside a held list leaves it alone. -/
theorem Holds.set_outside (h : Holds m a l) (hk : k < a ∨ a + l.length ≤ k) :
    Holds (set m k v) a l :=
  h.congr fun i hi => set_ne (by omega)

/-- A store just after a held list extends it. -/
theorem Holds.set_snoc (h : Holds m a l) : Holds (set m (a + l.length) v) a (l ++ [v]) :=
  Holds.snoc.mpr ⟨h.set_outside (by omega), set_same⟩

/-- The memory after the list `l` is copied to address `a`. -/
def copy (m : Nat → α) (a : Nat) (l : List α) : Nat → α :=
  fun i => if a ≤ i then l.getD (i - a) (m i) else m i

/-- A list copied just behind a held list extends it. -/
theorem Holds.copy_append (h : Holds m a l) : Holds (copy m (a + l.length) k) a (l ++ k) := by
  refine Holds.append.mpr ⟨h.congr fun i hi => ?_, fun i hi => ?_⟩
  · exact if_neg (by omega)
  · simp [copy, hi]

/-- A copied list stands where it was copied to. -/
theorem holds_copy : Holds (copy m a l) a l := by
  intro i hi
  simp [copy, hi]

/-- A copy outside a held list leaves it alone. -/
theorem Holds.copy_outside (h : Holds m a l) (hk : k + r.length ≤ a ∨ a + l.length ≤ k) :
    Holds (copy m k r) a l := by
  refine h.congr fun i hi => ?_
  rcases hk with hk | hk
  · simp [copy, show r.length ≤ a + i - k by omega]
  · exact if_neg (by omega)

/-- The `n` cells from address `a`. -/
def cells (m : Nat → α) (a n : Nat) : List α := (List.range n).map (fun i => m (a + i))

theorem Holds.cells_eq (h : Holds m a l) : cells m a l.length = l := h.map_range_add

end Memory
