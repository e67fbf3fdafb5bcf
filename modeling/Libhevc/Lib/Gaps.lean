import Mathlib.Tactic.Common

/-!
# Distances between marked places

A sequence is scanned in blocks of which only the last place may be marked. A counter holds the
distance from the last marked place to the end of the block.
-/

namespace Gaps

/-- The next marked place behind `i` is `j`. -/
def NextAt (P : Nat → Prop) (i j : Nat) : Prop := i < j ∧ P j ∧ ∀ k, i < k → k < j → ¬P k

/-- `B t c` says that a block ends at `t` with the counter `c`, and `Q d j` that a distance of `d`
to the marked place `j` is allowed. -/
structure Scan (P : Nat → Prop) (Q B : Nat → Nat → Prop) (bound : Nat) : Prop where
  start : B 0 0
  lt : ∀ t c, B t c → c < bound
  mark : ∀ t c, B t c → P t → c = 0
  step : ∀ t c, B t c → ∃ t', t < t' ∧ (∀ k, t < k → k < t' → ¬P k) ∧
    ((P t' ∧ Q (c + (t' - t)) t' ∧ B t' 0) ∨ (¬P t' ∧ B t' (c + (t' - t))))

variable {P : Nat → Prop} {Q B : Nat → Nat → Prop} {bound : Nat}

/-- The last block that ends at `n` or before, with nothing marked since. -/
theorem Scan.last (h : Scan P Q B bound) (n : Nat) : ∀ d t c, n - t = d → B t c → t ≤ n →
    ∃ t' c', B t' c' ∧ t' ≤ n ∧ ∀ k, t' < k → k ≤ n → ¬P k := by
  intro d
  induction d using Nat.strongRecOn with
  | ind d ih =>
    intro t c hd hB hle
    obtain ⟨t', hlt, hnone, hnext⟩ := h.step t c hB
    by_cases hbehind : t' ≤ n
    · rcases hnext with ⟨-, -, hB'⟩ | ⟨-, hB'⟩
      · exact ih (n - t') (by omega) t' _ rfl hB' hbehind
      · exact ih (n - t') (by omega) t' _ rfl hB' hbehind
    · exact ⟨t, c, hB, hle, fun k hk hkn => hnone k hk (by omega)⟩

/-- The next marked place behind a block. -/
theorem Scan.find (h : Scan P Q B bound) : ∀ d t c, bound - c = d → B t c →
    ∃ j, t < j ∧ P j ∧ (∀ k, t < k → k < j → ¬P k) ∧ Q (c + (j - t)) j := by
  intro d
  induction d using Nat.strongRecOn with
  | ind d ih =>
    intro t c hd hB
    have hc := h.lt t c hB
    obtain ⟨t', hlt, hnone, hnext⟩ := h.step t c hB
    rcases hnext with ⟨hP, hQ, -⟩ | ⟨hP, hB'⟩
    · exact ⟨t', hlt, hP, hnone, hQ⟩
    · obtain ⟨j, hj, hPj, hnone', hQ⟩ := ih (bound - (c + (t' - t))) (by omega) t' _ rfl hB'
      refine ⟨j, by omega, hPj, fun k hk hkj => ?_, ?_⟩
      · rcases Nat.lt_trichotomy k t' with hkt | rfl | hkt
        · exact hnone k hk hkt
        · exact hP
        · exact hnone' k hkt hkj
      · rw [show c + (j - t) = c + (t' - t) + (j - t') by omega]
        exact hQ

/-- Every marked place has a next one, at an allowed distance. -/
theorem Scan.next (h : Scan P Q B bound) (i : Nat) (hi : P i) :
    ∃ j, NextAt P i j ∧ Q (j - i) j := by
  obtain ⟨t, c, hB, hle, hnone⟩ := h.last i i 0 0 (Nat.sub_zero i) h.start (Nat.zero_le i)
  obtain rfl : t = i := by
    rcases Nat.lt_or_eq_of_le hle with hlt | heq
    · exact absurd hi (hnone i hlt (Nat.le_refl i))
    · exact heq
  obtain rfl := h.mark t c hB hi
  obtain ⟨j, hj, hP, hbetween, hQ⟩ := h.find (bound - 0) t 0 rfl hB
  rw [Nat.zero_add] at hQ
  exact ⟨j, ⟨hj, hP, hbetween⟩, hQ⟩

end Gaps
