import Mathlib.Tactic.Common

/-!
# Readers of a stream

A reader takes symbols from the front of a list and gives a value, or fails. What a
writer has put is read back by a reader if it takes just these symbols, whatever
comes behind them.
-/

abbrev Reader (σ : Type) := StateT (List σ) Option

namespace Reader

variable {x : Reader σ α} {f : α → Reader σ β}

/-- The reader takes `l`, whatever comes behind, and gives `a`. -/
def Reads (x : Reader σ α) (l : List σ) (a : α) : Prop := ∀ rest, x (l ++ rest) = some (a, rest)

/-- The reader fails on all that begins with `l`. -/
def Rejects (x : Reader σ α) (l : List σ) : Prop := ∀ rest, x (l ++ rest) = none

theorem bind_apply (x : Reader σ α) (f : α → Reader σ β) (l : List σ) :
    (x >>= f) l = (x l).bind fun r => f r.1 r.2 := rfl

theorem Reads.pure (a : α) : Reads (Pure.pure a : Reader σ α) [] a := fun _ => rfl

theorem Reads.pure_of_eq (h : a = b) : Reads (Pure.pure a : Reader σ α) [] b := fun _ => h ▸ rfl

theorem Reads.bind (hx : Reads x l a) (hf : Reads (f a) m b) : Reads (x >>= f) (l ++ m) b := by
  intro rest
  rw [bind_apply, List.append_assoc, hx]
  exact hf rest

/-- The last reader of several takes nothing more. -/
theorem Reads.bind_nil (hx : Reads x l a) (hf : Reads (f a) [] b) : Reads (x >>= f) l b :=
  List.append_nil l ▸ hx.bind hf

theorem Reads.nil_bind (hx : Reads x [] a) (hf : Reads (f a) m b) : Reads (x >>= f) m b :=
  hx.bind hf

/-- A part that is there under a condition, on both sides. -/
theorem Reads.ite_pure {c : Prop} [Decidable c] (ht : c → Reads x l a) (hf : ¬ c → a = b) :
    Reads (if c then x else Pure.pure b) (if c then l else []) a := by
  split
  case isTrue h => exact ht h
  case isFalse h => exact hf h ▸ Reads.pure a

/-- A list of values, each with its own symbols. -/
theorem Reads.mapM {read : ι → Reader σ α} {put : ι → List σ} {value : ι → α} {is : List ι}
    (h : ∀ i ∈ is, Reads (read i) (put i) (value i)) :
    Reads (is.mapM read) (is.flatMap put) (is.map value) := by
  induction is with
  | nil => exact Reads.pure []
  | cons i is ih =>
    rw [List.mapM_cons, List.flatMap_cons, List.map_cons]
    refine (h i (List.mem_cons_self ..)).bind (Reads.bind_nil (ih fun j hj => ?_) (Reads.pure _))
    exact h j (List.mem_cons_of_mem _ hj)

end Reader
