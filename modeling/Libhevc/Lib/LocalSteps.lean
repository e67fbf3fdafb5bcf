import Mathlib.Data.Set.BooleanAlgebra
import Mathlib.Order.CompletePartialOrder

/-!
# Steps on disjoint parts of a memory

A loop whose step `k` reads and writes the cells of part `k` only. What is seen
of a part after the loop is what its own step makes of it.
-/

namespace Memory

variable {A α ι β : Type*}

/-- What `view` sees of part `k` are the cells of that part, and a step is confined to them. -/
structure Confined (cells : ι → Set A) (view : (A → α) → ι → β) (step : (A → α) → ι → A → α)
    (f : ι → β → β) : Prop where
  view_congr : ∀ {m m' k}, (∀ x ∈ cells k, m x = m' x) → view m k = view m' k
  step_view : ∀ m k, view (step m k) k = f k (view m k)
  step_outside : ∀ m k x, x ∉ cells k → step m k x = m x

namespace Confined

variable {cells : ι → Set A} {view : (A → α) → ι → β} {step : (A → α) → ι → A → α} {f : ι → β → β}

theorem foldl_outside (h : Confined cells view step f) (ks : List ι) (m : A → α) {x : A}
    (hx : ∀ k ∈ ks, x ∉ cells k) : ks.foldl step m x = m x := by
  induction ks generalizing m with
  | nil => rfl
  | cons k ks ih =>
    rw [List.foldl_cons, ih _ fun l hl => hx l (List.mem_cons_of_mem _ hl)]
    exact h.step_outside m k x (hx k (List.mem_cons_self ..))

theorem foldl_view_of_disjoint (h : Confined cells view step f) (ks : List ι) (m : A → α) {k : ι}
    (hk : ∀ l ∈ ks, Disjoint (cells k) (cells l)) : view (ks.foldl step m) k = view m k := by
  apply h.view_congr
  intro x hx
  apply h.foldl_outside
  intro l hl
  exact Set.disjoint_left.mp (hk l hl) hx

/-- Each part met once, the loop applies the step of a part to what was there before the loop. -/
theorem foldl_view (h : Confined cells view step f) (ks : List ι) (m : A → α) {k : ι}
    (hdisj : ks.Pairwise fun k l => Disjoint (cells k) (cells l)) (hk : k ∈ ks) :
    view (ks.foldl step m) k = f k (view m k) := by
  induction ks generalizing m with
  | nil => cases hk
  | cons l ks ih =>
    obtain ⟨hhead, htail⟩ := List.pairwise_cons.mp hdisj
    rw [List.foldl_cons]
    cases hk with
    | head =>
      rw [h.foldl_view_of_disjoint ks _ hhead]
      exact h.step_view m k
    | tail _ hk =>
      rw [ih _ htail hk]
      congr 1
      apply h.view_congr
      intro x hx
      exact h.step_outside m l x (Set.disjoint_right.mp (hhead k hk) hx)

end Confined

end Memory
