import Libhevc.Lib.Memory
import Mathlib.Data.List.Basic
import Mathlib.Data.List.Nodup
import Mathlib.Logic.Equiv.Basic
import Mathlib.Order.Basic
import Mathlib.Order.Lattice

/-!
# Sorting and reversing in place

An insertion sort whose inner loop does not stop at the place of insertion, and
the reversal of a prefix by swaps, over a memory with a list at its start.
-/

namespace Memory

-- ---------------------------------------------------------------------------
-- Lists
-- ---------------------------------------------------------------------------

theorem pairwise_snoc {R : α → α → Prop} {l : List α} :
    (l ++ [x]).Pairwise R ↔ l.Pairwise R ∧ ∀ y ∈ l, R y x := by
  simp [List.pairwise_append]

/-- A sorted list is split at `a` where as many elements as are below `a` come first. -/
theorem sorted_split [LinearOrder α] {l : List α} (hl : l.Pairwise (· ≤ ·)) (hn : n ≤ l.length) :
    (∀ x ∈ l.take n, x < a) ∧ (∀ x ∈ l.drop n, a < x) ↔ l.countP (· < a) = n ∧ a ∉ l := by
  constructor
  · rintro ⟨hlt, hgt⟩
    have hcount : l.countP (· < a) = (l.take n).countP (· < a) + (l.drop n).countP (· < a) := by
      rw [← List.countP_append, List.take_append_drop]
    constructor
    · rw [hcount, List.countP_eq_length.mpr, List.countP_eq_zero.mpr, List.length_take]
      · omega
      · intro x hx
        simpa using (hgt x hx).le
      · intro x hx
        simpa using hlt x hx
    · intro ha
      rw [← List.take_append_drop n l, List.mem_append] at ha
      rcases ha with ha | ha
      · exact lt_irrefl _ (hlt a ha)
      · exact lt_irrefl _ (hgt a ha)
  · rintro ⟨hcount, ha⟩
    induction l generalizing n with
    | nil => simp
    | cons x l ih =>
      obtain ⟨hx, hl⟩ := List.pairwise_cons.mp hl
      obtain ⟨hax, hal⟩ : a ≠ x ∧ a ∉ l := by simpa using ha
      by_cases hlt : x < a
      · obtain ⟨n, rfl⟩ : ∃ n', n = n' + 1 := ⟨l.countP (· < a), by simp [← hcount, hlt]⟩
        have hcount' : l.countP (· < a) = n := by simpa [hlt] using hcount
        obtain ⟨htake, hdrop⟩ := ih hl (Nat.le_of_succ_le_succ hn) hcount' hal
        refine ⟨fun y hy => ?_, hdrop⟩
        rcases List.mem_cons.mp hy with rfl | hy
        · exact hlt
        · exact htake y hy
      · have hgt : a < x := lt_of_le_of_ne (not_lt.mp hlt) hax
        have hzero : (x :: l).countP (· < a) = 0 := by
          rw [List.countP_eq_zero]
          intro y hy
          rcases List.mem_cons.mp hy with rfl | hy
          · simpa using hgt.le
          · simpa using hgt.le.trans (hx y hy)
        obtain rfl : n = 0 := hcount.symm.trans hzero
        refine ⟨by simp, fun y hy => ?_⟩
        rcases List.mem_cons.mp hy with rfl | hy
        · exact hgt
        · exact hgt.trans_le (hx y hy)

-- ---------------------------------------------------------------------------
-- Insertion sort
-- ---------------------------------------------------------------------------

theorem Holds.exchange (h : Holds m 0 (l ++ x :: y :: b)) :
    Holds (set (set m (l.length + 1) x) l.length y) 0 (l ++ y :: x :: b) := by
  obtain ⟨hl, hb⟩ := Holds.append.mp h
  obtain ⟨_, hb⟩ := Holds.cons.mp hb
  obtain ⟨_, hb⟩ := Holds.cons.mp hb
  rw [Holds.append, Holds.cons, Holds.cons]
  simp only [Nat.zero_add] at hb ⊢
  refine ⟨?_, set_same, ?_, ?_⟩
  · exact (hl.set_outside (.inr (by omega))).set_outside (.inr (by omega))
  · rw [set_ne (by omega), set_same]
  · exact (hb.set_outside (.inl (by omega))).set_outside (.inl (by omega))

section
variable [LinearOrder α]

/-- Moves `v` from cell `k` below every larger one, looking at all the cells down to the first. -/
def sink (v : α) : Nat → (Nat → α) → Nat → α
  | 0, m => m
  | k + 1, m => sink v k (if v < m k then set (set m (k + 1) (m k)) k v else m)

/-- Sorts the first `n` cells. -/
def insertionSort : Nat → (Nat → α) → Nat → α
  | 0, m => m
  | n + 1, m => sink (insertionSort n m n) n (insertionSort n m)

theorem sink_of_le {m : Nat → α} (h : ∀ i < k, m i ≤ v) : sink v k m = m := by
  induction k with
  | zero => rfl
  | succ k ih =>
    rw [sink, if_neg (not_lt.mpr (h k (Nat.lt_succ_self k)))]
    exact ih fun i hi => h i (Nat.lt_succ_of_lt hi)

theorem sink_holds {l : List α} (h : Holds m 0 (l ++ v :: b)) (hl : l.Pairwise (· ≤ ·)) :
    ∃ l', l'.Perm (l ++ [v]) ∧ l'.Pairwise (· ≤ ·) ∧ Holds (sink v l.length m) 0 (l' ++ b) := by
  induction l using List.reverseRecOn generalizing m b with
  | nil => exact ⟨[v], .refl _, List.pairwise_singleton _ _, h⟩
  | append_singleton l t ih =>
    have hh := h
    rw [List.append_assoc] at h
    obtain ⟨hl', hle⟩ := pairwise_snoc.mp hl
    have ht : m l.length = t := by
      simpa using (Holds.cons.mp (Holds.append.mp h).2).1
    rw [List.length_append, List.length_singleton, sink, ht]
    by_cases hlt : v < t
    · rw [if_pos hlt]
      obtain ⟨l', hperm, hsorted, hholds⟩ := ih h.exchange hl'
      refine ⟨l' ++ [t], ?_, pairwise_snoc.mpr ⟨hsorted, fun x hx => ?_⟩, ?_⟩
      · calc
          (l' ++ [t]).Perm (l ++ [v] ++ [t]) := hperm.append_right [t]
          _ = l ++ [v, t] := List.append_assoc ..
          (l ++ [v, t]).Perm (l ++ [t, v]) := (List.Perm.swap t v []).append_left l
          _ = l ++ [t] ++ [v] := by rw [List.append_assoc]; rfl
      · rcases List.mem_append.mp (hperm.mem_iff.mp hx) with hx | hx
        · exact hle x hx
        · obtain rfl := List.mem_singleton.mp hx
          exact hlt.le
      · rw [List.append_assoc]
        exact hholds
    · -- the cells before are not larger either
      have hall : ∀ x ∈ l ++ [t], x ≤ v := by
        intro x hx
        rcases List.mem_append.mp hx with hx | hx
        · exact (hle x hx).trans (not_lt.mp hlt)
        · obtain rfl := List.mem_singleton.mp hx
          exact not_lt.mp hlt
      refine ⟨l ++ [t] ++ [v], .refl _, pairwise_snoc.mpr ⟨hl, hall⟩, ?_⟩
      rw [if_neg hlt, sink_of_le, List.append_assoc]
      · exact hh
      · intro i hi
        refine (Holds.append.mp hh).1.all hall ?_
        rw [List.length_append]
        exact Nat.lt_succ_of_lt hi

theorem insertionSort_holds {l : List α} (h : Holds m 0 (l ++ b)) :
    ∃ l', l'.Perm l ∧ l'.Pairwise (· ≤ ·) ∧ Holds (insertionSort l.length m) 0 (l' ++ b) := by
  induction l using List.reverseRecOn generalizing b with
  | nil => exact ⟨[], .refl _, .nil, h⟩
  | append_singleton l v ih =>
    rw [List.append_assoc] at h
    obtain ⟨l', hperm, hsorted, hholds⟩ := ih h
    have hv : insertionSort l.length m l.length = v := by
      have hcell := (Holds.cons.mp (Holds.append.mp hholds).2).1
      rwa [hperm.length_eq, Nat.zero_add] at hcell
    obtain ⟨l'', hperm', hsorted', hholds'⟩ := sink_holds hholds hsorted
    refine ⟨l'', hperm'.trans (hperm.append_right [v]), hsorted', ?_⟩
    rw [List.length_append, List.length_singleton, insertionSort, hv]
    rwa [hperm.length_eq] at hholds'

end

-- ---------------------------------------------------------------------------
-- Reversal
-- ---------------------------------------------------------------------------

def exchange (m : Nat → α) (i k : Nat) : Nat → α := set (set m i (m k)) k (m i)

/-- The first `j` swaps that reverse the first `n` cells. -/
def reverseLoop (n : Nat) : Nat → (Nat → α) → Nat → α
  | 0, m => m
  | j + 1, m => exchange (reverseLoop n j m) j (n - 1 - j)

theorem reverseLoop_apply (hj : j ≤ n / 2) :
    reverseLoop n j m i = if i < j ∨ n - j ≤ i ∧ i < n then m (n - 1 - i) else m i := by
  induction j generalizing i with
  | zero =>
    rw [if_neg (by omega)]
    rfl
  | succ j ih =>
    rw [reverseLoop, exchange]
    by_cases hk : i = n - 1 - j
    · rw [hk, set_same, ih (by omega), if_neg (by omega), if_pos (by omega)]
      congr 1
      omega
    · rw [set_ne hk]
      by_cases hi : i = j
      · rw [hi, set_same, ih (by omega), if_neg (by omega), if_pos (by omega)]
      · rw [set_ne hi, ih (by omega)]
        refine if_congr ?_ rfl rfl
        omega

theorem reverseLoop_holds {l : List α} (h : Holds m 0 (l ++ b)) :
    Holds (reverseLoop l.length (l.length / 2) m) 0 (l.reverse ++ b) := by
  obtain ⟨hl, hb⟩ := Holds.append.mp h
  rw [Holds.append, List.length_reverse]
  constructor
  · intro i hi
    rw [List.length_reverse] at hi
    rw [List.getElem_reverse, Nat.zero_add, reverseLoop_apply (Nat.le_refl _)]
    split
    case isTrue => simpa using hl (l.length - 1 - i) (by omega)
    case isFalse hmid =>
      -- the middle cell of an odd number of cells
      have hsame : l.length - 1 - i = i := by omega
      simpa [hsame] using hl i hi
  · refine hb.congr fun i hi => ?_
    rw [reverseLoop_apply (Nat.le_refl _), if_neg (by omega)]

end Memory

/-!
## Sorting by passes

A pass brings the least of the cells from the `i`-th on to cell `i`, and only
moves these cells. Passes over the first cells one by one sort them, whichever way a
pass finds the least cell.
-/

namespace Memory

/-- The first `n` cells. -/
def front (m : Nat → α) (n : Nat) : List α := (List.range n).map m

theorem mem_front : x ∈ front m n ↔ ∃ i < n, m i = x := by
  simp [front]

theorem front_mem (m : Nat → α) (h : i < n) : m i ∈ front m n := mem_front.mpr ⟨i, h, rfl⟩

@[simp] theorem length_front : (front m n).length = n := by
  simp [front]

theorem front_succ (m : Nat → α) (n : Nat) : front m (n + 1) = front m n ++ [m n] := by
  simp [front, List.range_succ]

theorem front_cons (m : Nat → α) (n : Nat) :
    front m (n + 1) = m 0 :: front (fun i => m (i + 1)) n := by
  simp [front, List.range_succ_eq_map, Function.comp_def]

theorem front_congr (h : ∀ i < n, m' i = m i) : front m' n = front m n :=
  List.map_congr_left fun i hi => h i (List.mem_range.mp hi)

-- ---------------------------------------------------------------------------
-- Exchanges
-- ---------------------------------------------------------------------------

theorem exchange_apply (m : Nat → α) (i k a : Nat) : exchange m i k a = m (Equiv.swap i k a) := by
  rw [Equiv.swap_apply_def]
  unfold exchange set
  by_cases hk : a = k
  · obtain rfl := hk
    by_cases hi : a = i
    · obtain rfl := hi
      simp
    · simp [hi]
  · by_cases hi : a = i
    · obtain rfl := hi
      simp [hk]
    · simp [hi, hk]

theorem exchange_left (m : Nat → α) (i k : Nat) : exchange m i k i = m k := by
  rw [exchange_apply, Equiv.swap_apply_left]

theorem exchange_right (m : Nat → α) (i k : Nat) : exchange m i k k = m i := by
  rw [exchange_apply, Equiv.swap_apply_right]

theorem exchange_ne (m : Nat → α) (hi : a ≠ i) (hk : a ≠ k) : exchange m i k a = m a := by
  rw [exchange_apply, Equiv.swap_apply_of_ne_of_ne hi hk]

theorem front_exchange (m : Nat → α) (hi : i < n) (hk : k < n) :
    (front (exchange m i k) n).Perm (front m n) := by
  have hswap (a : Nat) (ha : a < n) : Equiv.swap i k a < n := by
    rw [Equiv.swap_apply_def]
    split
    · exact hk
    · split
      · exact hi
      · exact ha
  have hrange : ((List.range n).map (Equiv.swap i k)).Perm (List.range n) := by
    refine (List.perm_ext_iff_of_nodup
      (List.nodup_range.map (Equiv.injective _)) List.nodup_range).mpr fun a => ?_
    simp only [List.mem_map, List.mem_range]
    constructor
    · rintro ⟨b, hb, rfl⟩
      exact hswap b hb
    · exact fun ha => ⟨_, hswap a ha, Equiv.swap_apply_self i k a⟩
  have hmap : front (exchange m i k) n = ((List.range n).map (Equiv.swap i k)).map m := by
    rw [List.map_map]
    exact List.map_congr_left fun a _ => exchange_apply m i k a
  rw [hmap]
  exact hrange.map m

-- ---------------------------------------------------------------------------
-- Passes
-- ---------------------------------------------------------------------------

section
variable {κ : Type} [LinearOrder κ] {key : α → κ}

structure Pass (key : α → κ) (i n : Nat) (m m' : Nat → α) : Prop where
  frame : ∀ a, a < i ∨ n ≤ a → m' a = m a
  within : ∀ b, i ≤ b → b < n → ∃ c, i ≤ c ∧ c < n ∧ m' b = m c
  perm : (front m' n).Perm (front m n)
  first : ∀ b, i ≤ b → b < n → key (m' i) ≤ key (m' b)

/-- The passes for the first `k` cells. -/
def passes (pass : Nat → (Nat → α) → Nat → α) : Nat → (Nat → α) → Nat → α
  | 0, m => m
  | k + 1, m => pass k (passes pass k m)

structure PassesDone (key : α → κ) (k n : Nat) (m m' : Nat → α) : Prop where
  frame : ∀ a, n ≤ a → m' a = m a
  perm : (front m' n).Perm (front m n)
  sorted : ∀ a < k, ∀ b, a < b → b < n → key (m' a) ≤ key (m' b)

theorem passes_done {pass : Nat → (Nat → α) → Nat → α}
    (h : ∀ i < k, ∀ m, Pass key i n m (pass i m)) (m : Nat → α) :
    PassesDone key k n m (passes pass k m) := by
  induction k with
  | zero => exact ⟨fun _ _ => rfl, .refl _, fun a ha => absurd ha (Nat.not_lt_zero a)⟩
  | succ k ih =>
    have hdone := ih fun i hi => h i (Nat.lt_succ_of_lt hi)
    have hpass := h k (Nat.lt_succ_self k) (passes pass k m)
    refine ⟨fun a ha => ?_, hpass.perm.trans hdone.perm, fun a ha b hab hb => ?_⟩
    · exact (hpass.frame a (.inr ha)).trans (hdone.frame a ha)
    · change key (pass k (passes pass k m) a) ≤ key (pass k (passes pass k m) b)
      rcases Nat.lt_succ_iff_lt_or_eq.mp ha with hlt | rfl
      · rw [hpass.frame a (.inl hlt)]
        by_cases hbk : b < k
        · rw [hpass.frame b (.inl hbk)]
          exact hdone.sorted a hlt b hab hb
        · -- the pass has only moved cells behind `a`
          obtain ⟨c, hc, hcn, heq⟩ := hpass.within b (Nat.le_of_not_lt hbk) hb
          rw [heq]
          exact hdone.sorted a hlt c (Nat.lt_of_lt_of_le hlt hc) hcn
      · exact hpass.first b (Nat.le_of_lt hab) hb

theorem PassesDone.pairwise (h : PassesDone key k n m m') (hk : n ≤ k + 1) :
    (front m' n).Pairwise fun x y => key x ≤ key y := by
  unfold front
  refine List.pairwise_map.mpr (List.pairwise_lt_range.imp_of_mem fun {a b} _ hb hab => ?_)
  have hbn := List.mem_range.mp hb
  exact h.sorted a (by omega) b hab hbn

theorem PassesDone.least (h : PassesDone key k n m m') (hk : n ≤ k + 1) (hx : x ∈ front m' n) :
    key (m' 0) ≤ key x := by
  obtain ⟨i, hi, rfl⟩ := mem_front.mp hx
  rcases Nat.eq_zero_or_pos i with rfl | hpos
  · exact le_rfl
  · exact h.sorted 0 (by omega) i hpos hi

-- ---------------------------------------------------------------------------
-- The least cell last
-- ---------------------------------------------------------------------------

/-- The last one of the least cells of `k` cells from `i` on. -/
def lastLeast (key : α → κ) (m : Nat → α) (i : Nat) : Nat → Nat
  | 0 => i
  | k + 1 =>
    let j := lastLeast key m i k
    if key (m (i + k)) ≤ key (m j) then i + k else j

theorem lastLeast_spec (key : α → κ) (m : Nat → α) (i : Nat) (hk : 0 < k) :
    i ≤ lastLeast key m i k ∧ lastLeast key m i k < i + k ∧
      ∀ b, i ≤ b → b < i + k → key (m (lastLeast key m i k)) ≤ key (m b) := by
  induction k with
  | zero => exact absurd hk (Nat.lt_irrefl 0)
  | succ k ih =>
    rcases Nat.eq_zero_or_pos k with rfl | hpos
    · have hone : lastLeast key m i 1 = i := ite_self i
      rw [hone]
      refine ⟨Nat.le_refl i, Nat.lt_succ_self i, fun b hb hbk => ?_⟩
      rw [show b = i by omega]
    · rw [lastLeast]
      obtain ⟨hlow, hhigh, hleast⟩ := ih hpos
      have hcase (b : Nat) (hbk : b < i + (k + 1)) : b < i + k ∨ b = i + k := by omega
      split
      case isTrue hle =>
        refine ⟨Nat.le_add_right i k, Nat.lt_succ_self _, fun b hb hbk => ?_⟩
        rcases hcase b hbk with hlt | rfl
        · exact hle.trans (hleast b hb hlt)
        · exact le_rfl
      case isFalse hgt =>
        refine ⟨hlow, Nat.lt_succ_of_lt hhigh, fun b hb hbk => ?_⟩
        rcases hcase b hbk with hlt | rfl
        · exact hleast b hb hlt
        · exact (lt_of_not_ge hgt).le

def selectPass (key : α → κ) (n i : Nat) (m : Nat → α) : Nat → α :=
  exchange m i (lastLeast key m i (n - i))

theorem selectPass_pass (hi : i < n) (m : Nat → α) : Pass key i n m (selectPass key n i m) := by
  obtain ⟨hlow, hhigh, hleast⟩ := lastLeast_spec key m i (Nat.sub_pos_of_lt hi)
  rw [Nat.add_sub_of_le (Nat.le_of_lt hi)] at hhigh hleast
  unfold selectPass
  generalize lastLeast key m i (n - i) = j at hlow hhigh hleast
  have hwithin (b : Nat) (hb : i ≤ b) (hbn : b < n) :
      ∃ c, i ≤ c ∧ c < n ∧ exchange m i j b = m c := by
    by_cases hbi : b = i
    · exact ⟨j, hlow, hhigh, hbi ▸ exchange_left m b j⟩
    · by_cases hbj : b = j
      · exact ⟨i, Nat.le_refl i, hi, hbj ▸ exchange_right m i b⟩
      · exact ⟨b, hb, hbn, exchange_ne m hbi hbj⟩
  refine ⟨fun a ha => exchange_ne m (by omega) (by omega), hwithin, front_exchange m hi hhigh,
    fun b hb hbn => ?_⟩
  obtain ⟨c, hc, hcn, heq⟩ := hwithin b hb hbn
  rw [exchange_left, heq]
  exact hleast c hc hcn

-- ---------------------------------------------------------------------------
-- Exchanges with each later cell
-- ---------------------------------------------------------------------------

/-- Cell `i` is exchanged with each of the next `k` cells that is less. -/
def exchangeFrom (key : α → κ) (i : Nat) : Nat → (Nat → α) → Nat → α
  | 0, m => m
  | k + 1, m =>
    let m' := exchangeFrom key i k m
    if key (m' (i + 1 + k)) < key (m' i) then exchange m' i (i + 1 + k) else m'

theorem exchangeFrom_pass (i k : Nat) (m : Nat → α) :
    Pass key i (i + 1 + k) m (exchangeFrom key i k m) := by
  induction k with
  | zero =>
    refine ⟨fun _ _ => rfl, fun b hb hbn => ⟨b, hb, hbn, rfl⟩, .refl _, fun b hb hbn => ?_⟩
    rw [show b = i by omega]
  | succ k ih =>
    have hpass := ih
    rw [exchangeFrom]
    generalize exchangeFrom key i k m = m' at hpass
    have hcase (b : Nat) (hbk : b < i + 1 + (k + 1)) : b < i + 1 + k ∨ b = i + 1 + k := by omega
    have hlast : m' (i + 1 + k) = m (i + 1 + k) := hpass.frame _ (.inr (Nat.le_refl _))
    have hwithin (b : Nat) (hb : i ≤ b) (hbk : b < i + 1 + (k + 1)) :
        ∃ c, i ≤ c ∧ c < i + 1 + (k + 1) ∧ m' b = m c := by
      rcases hcase b hbk with hlt | rfl
      · obtain ⟨c, hc, hcn, heq⟩ := hpass.within b hb hlt
        exact ⟨c, hc, Nat.lt_succ_of_lt hcn, heq⟩
      · exact ⟨i + 1 + k, hb, Nat.lt_succ_self _, hlast⟩
    have hsucc : (front m' (i + 1 + (k + 1))).Perm (front m (i + 1 + (k + 1))) := by
      rw [← Nat.add_assoc, front_succ, front_succ, hlast]
      exact hpass.perm.append_right _
    split
    case isTrue hlt =>
      have hi : i < i + 1 + (k + 1) := by omega
      have hj : i + 1 + k < i + 1 + (k + 1) := Nat.lt_succ_self _
      refine ⟨fun a ha => ?_, fun b hb hbk => ?_, (front_exchange m' hi hj).trans hsucc,
        fun b hb hbk => ?_⟩
      · rw [exchange_ne m' (by omega) (by omega)]
        exact hpass.frame a (by omega)
      · by_cases hbi : b = i
        · rw [hbi, exchange_left]
          exact hwithin _ (by omega) hj
        · by_cases hbj : b = i + 1 + k
          · rw [hbj, exchange_right]
            exact hwithin i (Nat.le_refl i) hi
          · rw [exchange_ne m' hbi hbj]
            exact hwithin b hb hbk
      · rw [exchange_left]
        by_cases hbi : b = i
        · rw [hbi, exchange_left]
        · by_cases hbj : b = i + 1 + k
          · rw [hbj, exchange_right]
            exact hlt.le
          · rw [exchange_ne m' hbi hbj]
            exact hlt.le.trans (hpass.first b hb (by omega))
    case isFalse hge =>
      refine ⟨fun a ha => hpass.frame a (by omega), hwithin, hsucc, fun b hb hbk => ?_⟩
      rcases hcase b hbk with hlt | rfl
      · exact hpass.first b hb hlt
      · exact not_lt.mp hge

theorem exchangePass_pass (hi : i < n) (m : Nat → α) :
    Pass key i n m (exchangeFrom key i (n - 1 - i) m) := by
  have hpass : Pass key _ _ _ _ := exchangeFrom_pass i (n - 1 - i) m
  rwa [show i + 1 + (n - 1 - i) = n by omega] at hpass

end

end Memory
