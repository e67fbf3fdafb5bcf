import Mathlib.Data.List.Basic
import Mathlib.Tactic.Common
import Mathlib.Algebra.GroupWithZero.Nat

/-!
# Segments laid out one behind the other

The segments of a list stand in one memory without gaps. Where each of them
starts determines how long they are, and a table that holds the first starts
only still determines the lengths of the segments it covers.
-/

namespace Segments

/-- The addresses at which the segments start, the first one at `a`. -/
def starts (a : Nat) : List (List α) → List Nat
  | [] => []
  | l :: rest => a :: starts (a + l.length) rest

@[simp] theorem starts_length {ls : List (List α)} : (starts a ls).length = ls.length := by
  induction ls generalizing a with
  | nil => rfl
  | cons l rest ih => simp [starts, ih]

theorem starts_append {ls ks : List (List α)} :
    starts a (ls ++ ks) = starts a ls ++ starts (a + ls.flatten.length) ks := by
  induction ls generalizing a with
  | nil => simp [starts]
  | cons l rest ih => simp [starts, ih, Nat.add_assoc]

@[simp] theorem starts_singleton {l : List α} : starts a [l] = [a] := rfl

theorem starts_getD {ls : List (List α)} (h : i < ls.length) :
    (starts a ls).getD i d = a + (ls.take i).flatten.length := by
  induction ls generalizing a i with
  | nil => simp at h
  | cons l rest ih =>
    cases i with
    | zero => simp [starts]
    | succ i =>
      have hstep := ih (a := a + l.length) (i := i) (by simpa using h)
      simp [starts] at hstep ⊢
      omega

theorem flatten_take_succ (ls : List (List α)) (h : i < ls.length) :
    (ls.take (i + 1)).flatten.length = (ls.take i).flatten.length + ls[i].length := by
  rw [List.take_succ_eq_append_getElem h, List.flatten_append, List.length_append]
  simp

/-- Two starts that follow each other differ by a length. -/
theorem starts_sub {ls : List (List α)} (h : i + 1 < ls.length) :
    (starts a ls).getD (i + 1) d - (starts a ls).getD i d = ls[i].length := by
  rw [starts_getD h, starts_getD (Nat.lt_of_succ_lt h), flatten_take_succ _ (Nat.lt_of_succ_lt h)]
  omega

/-- The last start is a length before the end. -/
theorem end_sub_starts {ls : List (List α)} (h : i + 1 = ls.length) :
    ls.flatten.length - (starts 0 ls).getD i d = (ls.get ⟨i, by omega⟩).length := by
  have hall : ls.take (i + 1) = ls := by rw [h, List.take_length]
  have hlast := flatten_take_succ ls (show i < ls.length by omega)
  rw [hall] at hlast
  rw [starts_getD (by omega), hlast, List.get_eq_getElem, Nat.zero_add, Nat.add_sub_cancel_left]

/-- A table with room for `n` starts holds what it holds of all of them. -/
theorem take_getD {s : List Nat} (h : i < n) : (s.take n).getD i d = s.getD i d := by
  simp [List.getD_eq_getElem?_getD, h]

/-- A table with room for `n` entries takes one more while it is not full. -/
theorem take_snoc {s : List β} :
    (s ++ [x]).take n = if (s.take n).length < n then s.take n ++ [x] else s.take n := by
  rw [List.length_take]
  split
  · have hlen : (s ++ [x]).length ≤ n := by
      rw [List.length_append, List.length_singleton]
      omega
    rw [List.take_of_length_le hlen, List.take_of_length_le (by omega)]
  · exact List.take_append_of_le_length (by omega)

/-- The lengths of the first segments add up to no more than those of all. -/
theorem sum_take_le {ls : List (List α)} :
    ((ls.take n).map List.length).sum ≤ (ls.map List.length).sum := by
  conv => rhs; rw [← List.take_append_drop n ls, List.map_append, List.sum_append]
  exact Nat.le_add_right ..

/-- They add up to less where a segment that is left out has elements. -/
theorem sum_take_lt {ls : List (List α)} (hpos : ∀ l ∈ ls, 0 < l.length) (h : n < ls.length) :
    ((ls.take n).map List.length).sum < (ls.map List.length).sum := by
  have hleft := hpos ls[n] (List.getElem_mem h)
  conv => rhs; rw [← List.take_append_drop n ls, List.map_append, List.sum_append,
    List.drop_eq_getElem_cons h, List.map_cons, List.sum_cons]
  omega

end Segments
