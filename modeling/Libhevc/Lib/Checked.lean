import Mathlib.Algebra.BigOperators.Group.List.Basic
import Mathlib.Algebra.Order.Ring.Abs
import Mathlib.Algebra.Order.Ring.Int
import Mathlib.Tactic.Linarith
import Mathlib.Tactic.Ring

/-!
# Signed arithmetic that fails on overflow

A value of `Checked w` is an integer in the range of a signed type of `w` bits, or
`none` once an operation has left that range. `Bounded c v b` says that `c` has
not failed, that its value is `v` and that `v` is at most `b` in size: the rules
add and multiply the bounds, so a computation is free of overflow when the bound
it ends with fits the type.
-/

def Checked (_ : Nat) := Option Int

namespace Checked

def of (x : Int) : Checked w := if -2 ^ (w - 1) ≤ x ∧ x < 2 ^ (w - 1) then some x else none

def map (f : Int → Int) (a : Checked w) : Checked w := Option.bind a fun x => (of (f x) : Checked w)

def map₂ (f : Int → Int → Int) (a b : Checked w) : Checked w :=
  Option.bind a fun x => Option.bind b fun y => (of (f x y) : Checked w)

instance : Add (Checked w) := ⟨map₂ (· + ·)⟩
instance : Sub (Checked w) := ⟨map₂ (· - ·)⟩
instance : Mul (Checked w) := ⟨map₂ (· * ·)⟩

def shiftRight (a : Checked w) (n : Nat) : Checked w := a.map (· >>> n)

/-- Products of the entries in `rows`, added up from the left. -/
def sumProd (coeff : Nat → Int) (src : Nat → Checked w) (rows : List Nat) : Checked w :=
  rows.foldl (fun acc r => acc + of (coeff r) * src r) (of 0)

structure Bounded (c : Checked w) (v b : Int) : Prop where
  eq : c = some v
  le : |v| ≤ b

theorem Bounded.mono {c : Checked w} (h : Bounded c v b) (hle : b ≤ b') : Bounded c v b' :=
  ⟨h.eq, h.le.trans hle⟩

theorem Bounded.congr {c : Checked w} (h : Bounded c v b) (hv : v = v') : Bounded c v' b := hv ▸ h

theorem Bounded.nonneg {c : Checked w} (h : Bounded c v b) : 0 ≤ b := (abs_nonneg v).trans h.le

theorem of_bounded (hle : |x| ≤ b) (hfit : b < 2 ^ (w - 1)) : Bounded (of x : Checked w) x b := by
  have hx := abs_le.mp hle
  refine ⟨if_pos ?_, hle⟩
  constructor <;> omega

theorem Bounded.map {c : Checked w} {f : Int → Int} (h : Bounded c v b) (hle : |f v| ≤ b')
    (hfit : b' < 2 ^ (w - 1)) : Bounded (c.map f) (f v) b' := by
  rw [h.eq]
  exact of_bounded hle hfit

theorem Bounded.map₂ {c c' : Checked w} {f : Int → Int → Int} (h : Bounded c v b)
    (h' : Bounded c' v' b') (hle : |f v v'| ≤ b'') (hfit : b'' < 2 ^ (w - 1)) :
    Bounded (Checked.map₂ f c c') (f v v') b'' := by
  rw [h.eq, h'.eq]
  exact of_bounded hle hfit

section
variable {c c' : Checked w}

theorem Bounded.add (h : Bounded c v b) (h' : Bounded c' v' b') (hfit : b + b' < 2 ^ (w - 1)) :
    Bounded (c + c') (v + v') (b + b') :=
  h.map₂ h' ((abs_add_le v v').trans (add_le_add h.le h'.le)) hfit

theorem Bounded.sub (h : Bounded c v b) (h' : Bounded c' v' b') (hfit : b + b' < 2 ^ (w - 1)) :
    Bounded (c - c') (v - v') (b + b') :=
  h.map₂ h' ((abs_sub v v').trans (add_le_add h.le h'.le)) hfit

theorem Bounded.mul (h : Bounded c v b) (h' : Bounded c' v' b') (hfit : b * b' < 2 ^ (w - 1)) :
    Bounded (c * c') (v * v') (b * b') := by
  refine h.map₂ h' ?_ hfit
  rw [abs_mul]
  exact mul_le_mul h.le h'.le (abs_nonneg v') h.nonneg

theorem Bounded.shiftRight (h : Bounded c v b) (hfit : b < 2 ^ (w - 1)) :
    Bounded (c.shiftRight n) (v >>> n) b := by
  refine h.map ?_ hfit
  have hv := abs_le.mp h.le
  have hone : (1 : Int) ≤ 2 ^ n := Int.pow_pos (by decide)
  rw [Int.shiftRight_eq_div_pow, abs_le]
  push_cast
  constructor
  · apply Int.le_ediv_of_mul_le (by linarith)
    nlinarith [h.nonneg]
  · apply Int.ediv_le_of_le_mul (by linarith)
    nlinarith [h.nonneg]

theorem foldl_bounded {coeff x : Nat → Int} {src : Nat → Checked w} {rows : List Nat}
    (hcoeff : ∀ r ∈ rows, |coeff r| ≤ m) (hsrc : ∀ r ∈ rows, Bounded (src r) (x r) d)
    (hm : m < 2 ^ (w - 1)) (hacc : Bounded c v b)
    (hfit : b + rows.length * (m * d) < 2 ^ (w - 1)) :
    Bounded (rows.foldl (fun acc r => acc + of (coeff r) * src r) c)
      (v + (rows.map fun r => coeff r * x r).sum) (b + rows.length * (m * d)) := by
  induction rows generalizing c v b with
  | nil => simpa using hacc
  | cons r rows ih =>
    have hr := of_bounded (w := w) (hcoeff r (by simp)) hm
    have hx := hsrc r (by simp)
    have hrest : 0 ≤ (rows.length : Int) * (m * d) :=
      mul_nonneg (Int.natCast_nonneg _) (mul_nonneg hr.nonneg hx.nonneg)
    have hlen : b + m * d + rows.length * (m * d) = b + (r :: rows).length * (m * d) := by
      push_cast [List.length_cons]
      ring
    have hprod := hr.mul hx (by linarith [hacc.nonneg])
    have hall := ih (fun r hr => hcoeff r (by simp [hr])) (fun r hr => hsrc r (by simp [hr]))
      (hacc.add hprod (by linarith)) (by linarith)
    rw [List.foldl_cons, List.map_cons, List.sum_cons, ← add_assoc, ← hlen]
    exact hall

theorem sumProd_bounded {coeff x : Nat → Int} {src : Nat → Checked w} {rows : List Nat}
    (hcoeff : ∀ r ∈ rows, |coeff r| ≤ m) (hsrc : ∀ r ∈ rows, Bounded (src r) (x r) d)
    (hm : m < 2 ^ (w - 1)) (hfit : rows.length * (m * d) < 2 ^ (w - 1)) :
    Bounded (sumProd coeff src rows) (rows.map fun r => coeff r * x r).sum
      (rows.length * (m * d)) := by
  have hzero : Bounded (of 0 : Checked w) 0 0 := of_bounded (by simp) (Int.pow_pos (by decide))
  have h := foldl_bounded hcoeff hsrc hm hzero (by linarith)
  rw [zero_add, zero_add] at h
  exact h

end

end Checked
