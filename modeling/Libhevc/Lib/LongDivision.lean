import Mathlib.Tactic.Linarith
import Mathlib.Tactic.Ring

/-!
# Division by shifts and subtractions

The remainder is kept below twice the divisor and is doubled after each bit of the
quotient.
-/

namespace LongDivision

/-- One bit: the remainder and the quotient behind it. -/
def step (d : Nat) (s : Nat × Nat) : Nat × Nat :=
  if d ≤ s.1 then (2 * (s.1 - d), 2 * s.2 + 1) else (2 * s.1, 2 * s.2)

def steps (d : Nat) : (n : Nat) → Nat × Nat → Nat × Nat
  | 0, s => s
  | n + 1, s => steps d n (step d s)

theorem step_lt (h : s.1 < 2 * d) : (step d s).1 < 2 * d := by
  unfold step
  split <;> dsimp only <;> omega

theorem step_eq (d : Nat) (s : Nat × Nat) :
    d * (2 * (step d s).2) + (step d s).1 = 2 * (d * (2 * s.2) + s.1) := by
  unfold step
  split
  · rename_i hle
    obtain ⟨r, hr⟩ := Nat.exists_eq_add_of_le hle
    rw [hr, Nat.add_sub_cancel_left]
    ring
  · ring

theorem steps_lt (n : Nat) (h : s.1 < 2 * d) : (steps d n s).1 < 2 * d := by
  induction n generalizing s with
  | zero => exact h
  | succ n ih => exact ih (step_lt h)

theorem steps_eq (d n : Nat) (s : Nat × Nat) :
    d * (2 * (steps d n s).2) + (steps d n s).1 = 2 ^ n * (d * (2 * s.2) + s.1) := by
  induction n generalizing s with
  | zero => rw [steps, Nat.pow_zero, Nat.one_mul]
  | succ n ih =>
    rw [steps, ih, step_eq]
    ring

/-- The quotient after `n + 1` bits. -/
theorem steps_quotient (n : Nat) (h : r < 2 * d) :
    (steps d (n + 1) (r, 0)).2 = r * 2 ^ n / d := by
  have heq := steps_eq d (n + 1) (r, 0)
  have hlt : (steps d (n + 1) (r, 0)).1 < 2 * d := steps_lt (n + 1) h
  generalize (steps d (n + 1) (r, 0)).2 = q at heq
  generalize (steps d (n + 1) (r, 0)).1 = rem at heq hlt
  have hd : 0 < d := by omega
  have hmul : 2 * (d * q) + rem = 2 * (r * 2 ^ n) := by
    calc 2 * (d * q) + rem = d * (2 * q) + rem := by ring
      _ = 2 ^ (n + 1) * (d * (2 * 0) + r) := heq
      _ = 2 * (r * 2 ^ n) := by ring
  symm
  apply Nat.div_eq_of_lt_le
  · rw [Nat.mul_comm q d]
    omega
  · rw [Nat.add_mul, Nat.one_mul, Nat.mul_comm q d]
    omega

end LongDivision
