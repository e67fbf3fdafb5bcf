import Mathlib.Data.List.Iterate
import Mathlib.Data.List.Nodup
import Mathlib.Data.List.ProdSigma
import Mathlib.Algebra.BigOperators.Group.List.Basic
import Mathlib.Tactic.Common
import Mathlib.Algebra.GroupWithZero.Nat

/-!
# Grids and their scan

An interval that is cut into parts, a rectangle that is cut along both sides,
and the order that takes the parts of the rectangle row by row, and the cells
of each part row by row.
-/

namespace Grid

/-- `start` cuts `[0, size)` into `n` parts that are not empty. -/
structure Cuts (n size : Nat) (start : Nat → Nat) : Prop where
  first : start 0 = 0
  last : start n = size
  lt : ∀ i < n, start i < start (i + 1)

/-- One part. -/
theorem Cuts.whole (h : 0 < size) : Cuts 1 size (fun i => i * size) := by
  refine ⟨Nat.zero_mul _, Nat.one_mul _, fun i hi => ?_⟩
  obtain rfl : i = 0 := by omega
  simpa using h

theorem Cuts.mono (h : Cuts n size start) (hij : i ≤ j) (hj : j ≤ n) : start i ≤ start j := by
  induction j, hij using Nat.le_induction with
  | base => exact Nat.le_refl _
  | succ j _ ih => exact (ih (by omega)).trans (h.lt j (by omega)).le

theorem Cuts.pos (h : Cuts n size start) (hsize : 0 < size) : 0 < n := by
  rcases Nat.eq_zero_or_pos n with rfl | hn
  · rw [← h.last, h.first] at hsize
    contradiction
  · exact hn

theorem Cuts.le_size (h : Cuts n size start) (hi : i ≤ n) : start i ≤ size := by
  rw [← h.last]
  exact h.mono hi (Nat.le_refl n)

/-- Every point lies in one part. -/
theorem Cuts.exists_part (h : Cuts n size start) (hx : x < size) :
    ∃ i < n, start i ≤ x ∧ x < start (i + 1) := by
  by_contra hno
  have hall : ∀ i ≤ n, start i ≤ x := by
    intro i hi
    induction i with
    | zero =>
      rw [h.first]
      exact Nat.zero_le x
    | succ i ih =>
      by_contra hlt
      exact hno ⟨i, hi, ih (by omega), by omega⟩
  have hn := hall n (Nat.le_refl n)
  rw [h.last] at hn
  omega

/-- Only the last part ends where the interval ends. -/
theorem Cuts.end_iff (h : Cuts n size start) (hi : i < n) : start (i + 1) = size ↔ i + 1 = n := by
  constructor
  · intro he
    by_contra hne
    have hlt := h.lt (i + 1) (by omega)
    have hle := h.le_size (i := i + 1 + 1) (by omega)
    omega
  · rintro rfl
    exact h.last

/-- The cells of the part from `(x₀, y₀)`, row by row. -/
def cells (x₀ y₀ wd ht : Nat) : List (Nat × Nat) :=
  (List.range ht).flatMap fun y => (List.range wd).map fun x => (x₀ + x, y₀ + y)

/-- The cells of a grid, part by part. -/
def scan (cols rows : Nat) (X Y : Nat → Nat) : List (Nat × Nat) :=
  (List.range rows).flatMap fun r => (List.range cols).flatMap fun c =>
    cells (X c) (Y r) (X (c + 1) - X c) (Y (r + 1) - Y r)

theorem mem_cells :
    (x, y) ∈ cells x₀ y₀ wd ht ↔ (x₀ ≤ x ∧ x < x₀ + wd) ∧ y₀ ≤ y ∧ y < y₀ + ht := by
  simp only [cells, List.mem_flatMap, List.mem_map, List.mem_range, Prod.mk.injEq]
  constructor
  · rintro ⟨b, hb, a, ha, rfl, rfl⟩
    omega
  · rintro ⟨⟨hx, hx'⟩, hy, hy'⟩
    exact ⟨y - y₀, by omega, x - x₀, by omega, by omega, by omega⟩

theorem nodup_cells : (cells x₀ y₀ wd ht).Nodup := by
  refine List.nodup_flatMap.mpr ⟨fun y _ => ?_, ?_⟩
  · refine List.nodup_range.map fun a b hab => ?_
    have := (Prod.mk.inj hab).1
    omega
  · refine List.pairwise_lt_range.imp fun {a b} hab => ?_
    intro p ha hb
    obtain ⟨_, _, rfl⟩ := List.mem_map.mp ha
    obtain ⟨_, _, he⟩ := List.mem_map.mp hb
    have := (Prod.mk.inj he).2
    omega

section
variable {cols rows W H : Nat} {X Y : Nat → Nat} (hX : Cuts cols W X) (hY : Cuts rows H Y)
include hX hY

theorem mem_scan : (x, y) ∈ scan cols rows X Y ↔ x < W ∧ y < H := by
  simp only [scan, List.mem_flatMap, List.mem_range, mem_cells]
  constructor
  · rintro ⟨r, hr, c, hc, hx, hy⟩
    have := hX.lt c hc
    have := hY.lt r hr
    have := hX.le_size (i := c + 1) hc
    have := hY.le_size (i := r + 1) hr
    omega
  · rintro ⟨hx, hy⟩
    obtain ⟨c, hc, hcx, hxc⟩ := hX.exists_part hx
    obtain ⟨r, hr, hry, hyr⟩ := hY.exists_part hy
    exact ⟨r, hr, c, hc, by omega, by omega⟩

theorem nodup_scan : (scan cols rows X Y).Nodup := by
  refine List.nodup_flatMap.mpr ⟨fun r hr => List.nodup_flatMap.mpr ⟨fun _ _ => nodup_cells, ?_⟩,
    ?_⟩
  · refine List.pairwise_lt_range.imp_of_mem fun {a b} ha hb hab => ?_
    rintro ⟨x, y⟩ hpa hpb
    have hbn := List.mem_range.mp hb
    have := hX.mono (i := a + 1) (j := b) hab hbn.le
    have := hX.lt a (by omega)
    rw [mem_cells] at hpa hpb
    omega
  · refine List.pairwise_lt_range.imp_of_mem fun {a b} ha hb hab => ?_
    rintro ⟨x, y⟩ hpa hpb
    obtain ⟨_, _, hpa⟩ := List.mem_flatMap.mp hpa
    obtain ⟨_, _, hpb⟩ := List.mem_flatMap.mp hpb
    have hbn := List.mem_range.mp hb
    have := hY.mono (i := a + 1) (j := b) hab hbn.le
    have := hY.lt a (by omega)
    rw [mem_cells] at hpa hpb
    omega

theorem length_scan : (scan cols rows X Y).length = W * H := by
  have hperm : (scan cols rows X Y).Perm (List.range W ×ˢ List.range H) := by
    rw [List.perm_ext_iff_of_nodup (nodup_scan hX hY) (List.nodup_range.product List.nodup_range)]
    rintro ⟨x, y⟩
    rw [mem_scan hX hY, List.mem_product, List.mem_range, List.mem_range]
  rw [hperm.length_eq, List.length_product, List.length_range, List.length_range]

end

/-- A range of pairs, counted through. -/
theorem flatMap_range_mul (f : Nat → List α) (m n : Nat) :
    (List.range (m * n)).flatMap f =
      (List.range m).flatMap fun r => (List.range n).flatMap fun c => f (r * n + c) := by
  induction m with
  | zero => simp
  | succ m ih =>
    rw [Nat.succ_mul, List.range_add, List.flatMap_append, ih, List.range_succ,
      List.flatMap_append, List.flatMap_map]
    simp

/-- A run that goes from `p i` to `p (i + 1)` in `len i` steps, for every `i < n`. -/
theorem iterate_blocks (f : σ → σ) (p : Nat → σ) (len : Nat → Nat)
    (h : ∀ i < n, f^[len i] (p i) = p (i + 1)) :
    List.iterate f (p 0) ((List.range n).map len).sum =
        (List.range n).flatMap (fun i => List.iterate f (p i) (len i)) ∧
      f^[((List.range n).map len).sum] (p 0) = p n := by
  induction n with
  | zero => exact ⟨rfl, rfl⟩
  | succ n ih =>
    obtain ⟨hi, hf⟩ := ih fun i hin => h i (by omega)
    rw [List.range_succ, List.map_append, List.sum_append, List.flatMap_append]
    constructor
    · rw [List.iterate_add, hi, hf]
      simp
    · rw [Nat.add_comm, Function.iterate_add_apply, hf]
      simpa using h n (by omega)

end Grid
