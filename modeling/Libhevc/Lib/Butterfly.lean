import Libhevc.Lib.Checked

/-!
# Matrix products by even and odd parts

Where a row of a matrix is symmetric or antisymmetric about its middle, the product
of the rows with a vector is needed for the first half of the columns only: the
second half repeats it with the sign of the antisymmetric rows changed. Folding
the symmetric rows again gives the fast transforms of size `2 ^ n`.
-/

namespace Checked

section
variable (matrix : Nat → Nat → Int) (even : List Nat)

/-- The product at column `k`. The lists of antisymmetric rows stand from the whole
size down to size 4, and `even` holds the rows of the last two columns. -/
def butterfly (src : Nat → Checked w) : List (List Nat) → Nat → Checked w
  | [], k => sumProd (fun r => matrix r k) src even
  | odd :: odds, k =>
    let half := 2 ^ (odds.length + 1)
    if k < half then butterfly src odds k + sumProd (fun r => matrix r k) src odd
    else
      butterfly src odds (2 * half - 1 - k) -
        sumProd (fun r => matrix r (2 * half - 1 - k)) src odd

/-- The rows are symmetric and antisymmetric as the lists have them. -/
def Folds : List (List Nat) → Prop
  | [] => True
  | odd :: odds =>
    (∀ k < 2 * 2 ^ (odds.length + 1),
      (∀ r ∈ odd, matrix r (2 * 2 ^ (odds.length + 1) - 1 - k) = -matrix r k) ∧
      ∀ r ∈ odds.flatten ++ even, matrix r (2 * 2 ^ (odds.length + 1) - 1 - k) = matrix r k) ∧
    Folds odds

instance decidableFolds : (odds : List (List Nat)) → Decidable (Folds matrix even odds)
  | [] => inferInstanceAs (Decidable True)
  | _ :: odds => @instDecidableAnd _ _ inferInstance (decidableFolds odds)

end

variable {matrix : Nat → Nat → Int} {even : List Nat}

theorem sum_neg (rows : List Nat) (f g : Nat → Int) (h : ∀ r ∈ rows, f r = -g r) :
    (rows.map f).sum = -(rows.map g).sum := by
  induction rows with
  | nil => simp
  | cons r rows ih =>
    rw [List.map_cons, List.map_cons, List.sum_cons, List.sum_cons, h r (by simp),
      ih fun r hr => h r (by simp [hr])]
    ring

/-- The size of a product is at most that of its rows, the bound of each being `m * d`. -/
theorem butterfly_bounded {src : Nat → Checked w} {x : Nat → Int} {odds : List (List Nat)}
    (hfold : Folds matrix even odds) (hmatrix : ∀ r k, |matrix r k| ≤ m)
    (hsrc : ∀ r ∈ odds.flatten ++ even, Bounded (src r) (x r) d) (hm : m < 2 ^ (w - 1))
    (hd : 0 ≤ d) (hfit : (odds.flatten ++ even).length * (m * d) < 2 ^ (w - 1))
    (hk : k < 2 ^ (odds.length + 1)) :
    Bounded (butterfly matrix even src odds k)
      ((odds.flatten ++ even).map fun r => matrix r k * x r).sum
      ((odds.flatten ++ even).length * (m * d)) := by
  induction odds generalizing k with
  | nil => exact sumProd_bounded (fun r _ => hmatrix r k) hsrc hm hfit
  | cons odd odds ih =>
    obtain ⟨hsym, hfold⟩ := hfold
    have hmd : 0 ≤ m * d := mul_nonneg ((abs_nonneg _).trans (hmatrix 0 0)) hd
    have hrows : (odd :: odds).flatten ++ even = odd ++ (odds.flatten ++ even) := by simp
    have hadd : (odd ++ (odds.flatten ++ even)).length =
        odd.length + (odds.flatten ++ even).length := List.length_append
    have hlen : ((odds.flatten ++ even).length : Int) * (m * d) + odd.length * (m * d) =
        ((odd :: odds).flatten ++ even).length * (m * d) := by
      rw [hrows, hadd, Nat.cast_add]
      ring
    have hodd : 0 ≤ (odd.length : Int) * (m * d) := mul_nonneg (Int.natCast_nonneg _) hmd
    have heven : 0 ≤ ((odds.flatten ++ even).length : Int) * (m * d) :=
      mul_nonneg (Int.natCast_nonneg _) hmd
    have hinner {j} (hj : j < 2 ^ (odds.length + 1)) :=
      ih (k := j) hfold (fun r hr => hsrc r (by rw [hrows]; exact List.mem_append_right _ hr))
        (by linarith) hj
    have houter (j : Nat) : Bounded (sumProd (fun r => matrix r j) src odd)
        (odd.map fun r => matrix r j * x r).sum (odd.length * (m * d)) :=
      sumProd_bounded (fun r _ => hmatrix r j)
        (fun r hr => hsrc r (by rw [hrows]; exact List.mem_append_left _ hr)) hm (by linarith)
    rw [List.length_cons, pow_succ, mul_comm] at hk
    rw [butterfly, ← hlen, hrows, List.map_append, List.sum_append]
    split
    case isTrue hlt =>
      rw [add_comm (List.sum _)]
      exact (hinner hlt).add (houter k) (by linarith)
    case isFalse hge =>
      -- the mirror of `k` lies in the first half
      have hmirror : 2 * 2 ^ (odds.length + 1) - 1 - k < 2 ^ (odds.length + 1) := by omega
      have h := (hinner hmirror).sub (houter (2 * 2 ^ (odds.length + 1) - 1 - k)) (by linarith)
      have hflip := sum_neg odd (fun r => matrix r (2 * 2 ^ (odds.length + 1) - 1 - k) * x r)
        (fun r => matrix r k * x r) fun r hr => by rw [(hsym k hk).1 r hr, neg_mul]
      have hkeep : ((odds.flatten ++ even).map fun r =>
          matrix r (2 * 2 ^ (odds.length + 1) - 1 - k) * x r) =
          (odds.flatten ++ even).map fun r => matrix r k * x r :=
        List.map_congr_left fun r hr => by rw [(hsym k hk).2 r hr]
      rw [hflip, hkeep, sub_neg_eq_add, add_comm (List.sum _)] at h
      exact h

end Checked
