import Mathlib.Data.Int.Basic
import Mathlib.Data.List.Range
import Mathlib.Logic.Function.Basic
import Mathlib.Tactic.Common

/-!
# Scans of a raster in place

A raster is a function of addresses, its rows `strd` apart. A scan that writes
every cell of a block once, row by row, and that finds the cells it has not
written yet as they were, writes what it would have written to a copy.
-/

namespace Raster

variable {m : Int → α} {a p : Int} {n r c strd wd : Nat} {f : Nat → α} {g : Nat → Nat → α}

/-- `n` cells from address `p` hold `f`. -/
def rowSet (m : Int → α) (p : Int) (n : Nat) (f : Nat → α) : Int → α :=
  fun a => if p ≤ a ∧ a < p + n then f (a - p).toNat else m a

@[simp] theorem rowSet_zero : rowSet m p 0 f = m := by
  funext a
  exact if_neg (by omega)

theorem rowSet_at (h : c < n) : rowSet m p n f (p + c) = f c := by
  unfold rowSet
  rw [if_pos (by omega)]
  congr 1
  omega

theorem rowSet_outside (h : a < p ∨ p + n ≤ a) : rowSet m p n f a = m a := if_neg (by omega)

theorem rowSet_congr {f' : Nat → α} (h : ∀ c < n, f c = f' c) :
    rowSet m p n f = rowSet m p n f' := by
  funext a
  unfold rowSet
  split
  · exact h _ (by omega)
  · rfl

theorem rowSet_succ :
    Function.update (rowSet m p n f) (p + n) (f n) = rowSet m p (n + 1) f := by
  funext a
  by_cases h : a = p + n
  · subst h
    rw [Function.update_self, rowSet_at (Nat.lt_succ_self n)]
  · rw [Function.update_of_ne h]
    unfold rowSet
    exact if_congr (by omega) rfl rfl

/-- Cells stored in turn. -/
theorem foldl_update :
    (List.range n).foldl (fun m (i : Nat) => Function.update m (p + i) (f i)) m =
      rowSet m p n f := by
  induction n with
  | zero => simp
  | succ n ih =>
    rw [List.range_succ, List.foldl_append, ih, List.foldl_cons, List.foldl_nil, rowSet_succ]

/-- `n` rows of `wd` cells hold `g`. -/
def blockSet (m : Int → α) (p : Int) (strd wd : Nat) (g : Nat → Nat → α) : Nat → Int → α
  | 0 => m
  | n + 1 => rowSet (blockSet m p strd wd g n) (p + n * strd) wd (g n)

/-- The rows of a block are in the order of their addresses. -/
theorem row_le (strd : Nat) (h : r < n) : ((r : Int) * strd) + strd ≤ n * strd := by
  have hle := Nat.mul_le_mul_right strd (Nat.succ_le_of_lt h)
  rw [Nat.succ_mul] at hle
  exact_mod_cast hle

theorem blockSet_outside (h : ∀ r < n, ∀ c < wd, a ≠ p + r * strd + c) :
    blockSet m p strd wd g n a = m a := by
  induction n with
  | zero => rfl
  | succ n ih =>
    rw [blockSet, rowSet_outside, ih fun r hr => h r (by omega)]
    by_contra hin
    have hcol := h n (Nat.lt_succ_self n) (a - (p + n * strd)).toNat (by omega)
    omega

/-- Behind the last cell of the block nothing is set. -/
theorem blockSet_beyond (h : p + n * strd + wd ≤ a + strd) :
    blockSet m p strd wd g n a = m a := by
  refine blockSet_outside fun r hr c hc => ?_
  have hrow := row_le strd hr
  omega

theorem blockSet_at (hs : wd ≤ strd) (hr : r < n) (hc : c < wd) :
    blockSet m p strd wd g n (p + r * strd + c) = g r c := by
  induction n with
  | zero => exact absurd hr (Nat.not_lt_zero r)
  | succ n ih =>
    rcases Nat.lt_succ_iff_lt_or_eq.mp hr with hr | rfl
    · have hrow := row_le strd hr
      rw [blockSet, rowSet_outside (by omega), ih hr]
    · exact rowSet_at hc

/-- A cell of the block that is not one of `k` cells of a row is in front of them or behind. -/
theorem cell_apart (hs : wd ≤ strd) (hc : c < wd) (hk : c' + k ≤ wd)
    (h : ¬(r = r' ∧ c' ≤ c ∧ c < c' + k)) :
    p + (r : Int) * strd + c < p + (r' : Int) * strd + c' ∨
      p + (r' : Int) * strd + c' + k ≤ p + (r : Int) * strd + c := by
  rcases Nat.lt_trichotomy r r' with hlt | rfl | hlt
  · have hrow := row_le strd hlt
    omega
  · omega
  · have hrow := row_le strd hlt
    omega

-- ---------------------------------------------------------------------------
-- Scans
-- ---------------------------------------------------------------------------

section scans

variable {σ : Type} {I : Nat → σ → Prop}

/-- A scan of one row. The state `σ` goes from cell to cell and is described by `I`. -/
theorem foldl_row {step : (Int → α) × σ → Nat → (Int → α) × σ}
    (hstep : ∀ c < n, ∀ m' s, (∀ a, p + c ≤ a → m' a = m a) → I c s →
      ∃ s', step (m', s) c = (Function.update m' (p + c) (f c), s') ∧ I (c + 1) s')
    (h : I 0 s) :
    ∃ s', (List.range n).foldl step (m, s) = (rowSet m p n f, s') ∧ I n s' := by
  induction n with
  | zero => exact ⟨s, by simp, h⟩
  | succ n ih =>
    obtain ⟨t, ht, hI⟩ := ih fun c hc => hstep c (by omega)
    obtain ⟨s', hs', hI'⟩ := hstep n (Nat.lt_succ_self n) (rowSet m p n f) t
      (fun a ha => rowSet_outside (Or.inr ha)) hI
    refine ⟨s', ?_, hI'⟩
    rw [List.range_succ, List.foldl_append, ht, List.foldl_cons, List.foldl_nil, hs', rowSet_succ]

/-- A scan of a block. A row finds everything from the end of the row above on as it was. -/
theorem foldl_block {step : (Int → α) × σ → Nat → (Int → α) × σ}
    (hstep : ∀ r < n, ∀ m' s, (∀ a, p + r * strd + wd ≤ a + strd → m' a = m a) → I r s →
      ∃ s', step (m', s) r = (rowSet m' (p + r * strd) wd (g r), s') ∧ I (r + 1) s')
    (h : I 0 s) :
    ∃ s', (List.range n).foldl step (m, s) = (blockSet m p strd wd g n, s') ∧ I n s' := by
  induction n with
  | zero => exact ⟨s, rfl, h⟩
  | succ n ih =>
    obtain ⟨t, ht, hI⟩ := ih fun r hr => hstep r (by omega)
    obtain ⟨s', hs', hI'⟩ := hstep n (Nat.lt_succ_self n) (blockSet m p strd wd g n) t
      (fun a ha => blockSet_beyond ha) hI
    refine ⟨s', ?_, hI'⟩
    rw [List.range_succ, List.foldl_append, ht, List.foldl_cons, List.foldl_nil, hs', blockSet]

end scans

end Raster
