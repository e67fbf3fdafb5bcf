import Mathlib.Tactic.Common
import Mathlib.Tactic.Ring

/-!
# The z-scan of a square

Cells of a square of `2 ^ k` by `2 ^ k` in the order of a quadtree. An aligned
square of cells is one stretch of the scan, so it lies before a cell as a whole.
-/

namespace ZScan

/-- The number of the cell in column `x` and row `y`. -/
def index : (k x y : Nat) → Nat
  | 0, _, _ => 0
  | k + 1, x, y => 4 * index k (x / 2) (y / 2) + 2 * (y % 2) + x % 2

theorem index_scale (k j x y : Nat) :
    index (k + j) x y / 4 ^ j = index k (x / 2 ^ j) (y / 2 ^ j) := by
  induction j generalizing x y with
  | zero => simp
  | succ j ih =>
    have hquarter : index (k + (j + 1)) x y / 4 = index (k + j) (x / 2) (y / 2) := by
      show (4 * index (k + j) (x / 2) (y / 2) + 2 * (y % 2) + x % 2) / 4 = _
      omega
    rw [pow_succ', pow_succ', ← Nat.div_div_eq_div_mul, ← Nat.div_div_eq_div_mul,
      ← Nat.div_div_eq_div_mul, hquarter, ih]

theorem index_aligned (k j x y : Nat) :
    index (k + j) (2 ^ j * x) (2 ^ j * y) = 4 ^ j * index k x y := by
  induction j with
  | zero => simp
  | succ j ih =>
    show 4 * index (k + j) (2 ^ (j + 1) * x / 2) (2 ^ (j + 1) * y / 2)
      + 2 * (2 ^ (j + 1) * y % 2) + 2 ^ (j + 1) * x % 2 = _
    have hdouble : ∀ z, 2 ^ (j + 1) * z = 2 * (2 ^ j * z) := by
      intro z
      rw [pow_succ]
      ring
    rw [hdouble x, hdouble y, Nat.mul_div_cancel_left _ (by decide),
      Nat.mul_div_cancel_left _ (by decide), ih, Nat.mul_mod_right, Nat.mul_mod_right, pow_succ]
    ring

/-- A cell comes before an aligned square when the square of its size around it does. -/
theorem index_lt_aligned (k j x y X Y : Nat) :
    index (k + j) x y < index (k + j) (2 ^ j * X) (2 ^ j * Y) ↔
      index k (x / 2 ^ j) (y / 2 ^ j) < index k X Y := by
  rw [index_aligned, ← index_scale, Nat.mul_comm, Nat.div_lt_iff_lt_mul (Nat.pow_pos (by decide))]

/-- To the left and above, the scan has been already. -/
theorem index_lt (hx : x < 2 ^ k) (hy : y < 2 ^ k) (hx' : x' ≤ x) (hy' : y' ≤ y)
    (hne : x' ≠ x ∨ y' ≠ y) : index k x' y' < index k x y := by
  induction k generalizing x y x' y' with
  | zero =>
    rw [pow_zero] at hx hy
    omega
  | succ k ih =>
    rw [pow_succ] at hx hy
    unfold index
    by_cases hsame : x' / 2 = x / 2 ∧ y' / 2 = y / 2
    · rw [hsame.1, hsame.2]
      omega
    · have hlt : index k (x' / 2) (y' / 2) < index k (x / 2) (y / 2) :=
        ih (by omega) (by omega) (Nat.div_le_div_right hx') (Nat.div_le_div_right hy')
          (by omega)
      omega

end ZScan
