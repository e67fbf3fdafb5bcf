import Mathlib.Data.List.Range
import Mathlib.Tactic.Common

/-!
# Buffers of checked cells

A buffer of `n` cells in which a cell that was not written holds nothing. A load of such a
cell or outside the buffer fails, and so does a store outside it. The second part is about
filling gaps: a cell that is not available takes the value of the cell before it, and the
cells before the first available one take its value.
-/

abbrev Cells (α : Type*) := Nat → Option α

namespace Cells

variable {α β : Type*}

def fresh : Cells α := fun _ => none

def load (n : Nat) (b : Cells α) (i : Int) : Option α :=
  if 0 ≤ i ∧ i < n then b i.toNat else none

def store (n : Nat) (b : Cells α) (i : Int) (v : α) : Option (Cells α) :=
  if 0 ≤ i ∧ i < n then some fun j => if j = i.toNat then some v else b j else none

/-- `len` stores in a loop, upwards from `base`. -/
def storeUp (n : Nat) (base : Int) (val : Nat → Option α) (b : Cells α) : Nat → Option (Cells α)
  | 0 => some b
  | len + 1 => do
    let b ← storeUp n base val b len
    let v ← val len
    store n b (base + len) v

/-- `len` stores in a loop, downwards from `base`. -/
def storeDown (n : Nat) (base : Int) (val : Nat → Option α) (b : Cells α) : Nat → Option (Cells α)
  | 0 => some b
  | len + 1 => do
    let b ← storeDown n base val b len
    let v ← val len
    store n b (base - len) v

/-- `len` cells of one value. -/
def fill (n : Nat) (b : Cells α) (base : Int) (v : α) (len : Nat) : Option (Cells α) :=
  storeUp n base (fun _ => some v) b len

section Loops

variable {n base len : Nat} {val : Nat → Option α} {v f : Nat → α} {b : Cells α} {p : Prop}

theorem load_eq {i : Int} (h : 0 ≤ i ∧ i < n) : load n b i = b i.toNat := if_pos h

theorem storeUp_eq (hv : ∀ k < len, val k = some (v k))
    (h : base + len ≤ n) : storeUp n base val b len =
      some fun j => if base ≤ j ∧ j < base + len then some (v (j - base)) else b j := by
  induction len with
  | zero =>
    refine congrArg some (funext fun j => ?_)
    rw [if_neg (by omega)]
  | succ len ih =>
    rw [storeUp, ih (fun k hk => hv k (by omega)) (by omega), hv len (by omega)]
    refine (if_pos (by omega)).trans (congrArg some (funext fun j => ?_))
    by_cases hj : j = base + len
    · rw [if_pos (by omega), if_pos (by omega), hj, Nat.add_sub_cancel_left]
    · rw [if_neg (by omega)]
      by_cases hin : base ≤ j ∧ j < base + len
      · exact (if_pos hin).trans (if_pos (by omega)).symm
      · exact (if_neg hin).trans (if_neg (by omega)).symm

theorem storeDown_eq (hv : ∀ k < len, val k = some (v k))
    (h : base < n) (hlen : len ≤ base + 1) : storeDown n base val b len =
      some fun j => if base < j + len ∧ j ≤ base then some (v (base - j)) else b j := by
  induction len with
  | zero =>
    refine congrArg some (funext fun j => ?_)
    rw [if_neg (by omega)]
  | succ len ih =>
    rw [storeDown, ih (fun k hk => hv k (by omega)) (by omega), hv len (by omega)]
    refine (if_pos (by omega)).trans (congrArg some (funext fun j => ?_))
    by_cases hj : j = base - len
    · rw [if_pos (by omega), if_pos (by omega), hj, Nat.sub_sub_self (by omega)]
    · rw [if_neg (by omega)]
      by_cases hin : base < j + len ∧ j ≤ base
      · exact (if_pos hin).trans (if_pos (by omega)).symm
      · exact (if_neg hin).trans (if_neg (by omega)).symm

theorem fill_eq {v : α} (h : base + len ≤ n) : fill n b base v len =
    some fun j => if base ≤ j ∧ j < base + len then some v else b j :=
  storeUp_eq (fun _ _ => rfl) h

/-- The cells from `lo` to `hi` are written, with `f` when `p` holds, and no others. -/
structure Wrote (lo hi : Nat) (p : Prop) (f : Nat → α) (b b' : Cells α) : Prop where
  cell : p → ∀ i, lo ≤ i → i < hi → b' i = some (f i)
  frame : ∀ i, ¬(lo ≤ i ∧ i < hi) → b' i = b i

theorem Wrote.skip {lo hi : Nat} (h : ¬p) : Wrote lo hi p f b b :=
  ⟨fun hp => absurd hp h, fun _ _ => rfl⟩

theorem storeUp_wrote (hv : ∀ k < len, val k = some (f (base + k)))
    (h : base + len ≤ n) :
    ∃ b', storeUp n base val b len = some b' ∧ Wrote base (base + len) p f b b' := by
  refine ⟨_, storeUp_eq hv h, fun _ i hlo hhi => ?_, fun i hi => if_neg hi⟩
  rw [if_pos ⟨hlo, hhi⟩, Nat.add_sub_cancel' hlo]

theorem storeDown_wrote (hv : ∀ k < len, val k = some (f (base - k)))
    (h : base < n) (hlen : len ≤ base + 1) :
    ∃ b', storeDown n base val b len = some b' ∧ Wrote (base + 1 - len) (base + 1) p f b b' := by
  refine ⟨_, storeDown_eq hv h hlen, fun _ i hlo hhi => ?_, fun i hi => if_neg (by omega)⟩
  rw [if_pos (by omega), Nat.sub_sub_self (by omega)]

theorem fill_wrote {v : α} (hp : ¬p) (h : base + len ≤ n) :
    ∃ b', fill n b base v len = some b' ∧ Wrote base (base + len) p f b b' :=
  ⟨_, fill_eq h, fun hp' => absurd hp' hp, fun _ hi => if_neg hi⟩

end Loops

section Carry

/-- Each cell that is not available takes the value before it. -/
def carry (avail : Nat → Bool) (src : Nat → α) (first : α) : Nat → α
  | 0 => if avail 0 then src 0 else first
  | i + 1 => if avail (i + 1) then src (i + 1) else carry avail src first i

/-- The first available cell of `n` is looked for, its value is taken by those before it, and
the others are carried. Without an available cell all have the value `dc`. -/
def substituted (n : Nat) (dc : α) (avail : Nat → Bool) (src : Nat → α) : Nat → α :=
  match (List.range n).find? avail with
  | none => fun _ => dc
  | some first => carry avail src (src first)

variable {avail : Nat → Bool} {src : Nat → α} {first dc : α} {n pos len : Nat}

theorem carry_of_avail (h : avail i) : carry avail src first i = src i := by
  cases i with
  | zero => exact if_pos h
  | succ i => exact if_pos h

theorem carry_before (h : ∀ j ≤ i, ¬avail j) : carry avail src first i = first := by
  induction i with
  | zero => exact if_neg (h 0 (Nat.le_refl 0))
  | succ i ih => rw [carry, if_neg (h (i + 1) (Nat.le_refl _)), ih fun j hj => h j (by omega)]

theorem carry_run (h : ∀ j, pos ≤ j → j < pos + len → ¬avail j) (hpos : 0 < pos) :
    ∀ k ≤ len, carry avail src first (pos - 1 + k) = carry avail src first (pos - 1) := by
  intro k hk
  induction k with
  | zero => rfl
  | succ k ih =>
    rw [← Nat.add_assoc, carry, if_neg (h _ (by omega) (by omega)), ih (by omega)]

theorem substituted_none (h : ∀ i < n, ¬avail i) : substituted n dc avail src i = dc := by
  have hnone : (List.range n).find? avail = none := by
    simpa [List.find?_eq_none] using h
  rw [substituted, hnone]

theorem substituted_some (h : f < n) (hf : avail f) (hbefore : ∀ j < f, ¬avail j) :
    substituted n dc avail src i = carry avail src (src f) i := by
  have hsome : (List.range n).find? avail = some f := by
    rw [List.find?_range_eq_some]
    exact ⟨hf, List.mem_range.mpr h, by simpa using hbefore⟩
  rw [substituted, hsome]

/-- Every value is that of a source cell or the default. -/
theorem substituted_of {P : α → Prop} (hdc : P dc) (hsrc : ∀ i, P (src i)) (i : Nat) :
    P (substituted n dc avail src i) := by
  unfold substituted
  cases (List.range n).find? avail with
  | none => exact hdc
  | some f =>
    induction i with
    | zero => exact (apply_ite P _ _ _).mpr (by split <;> exact hsrc _)
    | succ i ih =>
      refine (apply_ite P _ _ _).mpr ?_
      split
      · exact hsrc _
      · exact ih

theorem substituted_map (g : α → β) :
    g (substituted n dc avail src i) = substituted n (g dc) avail (fun i => g (src i)) i := by
  unfold substituted
  cases (List.range n).find? avail with
  | none => rfl
  | some f =>
    dsimp only
    induction i with
    | zero => simp only [carry, apply_ite g]
    | succ i ih => simp only [carry, apply_ite g, ih]

/-- The cells before `pos` are done, and the available ones from there are in place. -/
structure Upto (n : Nat) (avail : Nat → Bool) (src : Nat → α) (first : α) (pos : Nat)
    (b : Cells α) : Prop where
  done : ∀ i < pos, b i = some (carry avail src first i)
  rest : ∀ i, pos ≤ i → i < n → avail i → b i = some (src i)

theorem Upto.mono {b : Cells α} (h : Upto n avail src first pos b) (hle : p ≤ pos) :
    Upto n avail src first p b := by
  refine ⟨fun i hi => h.done i (by omega), fun i hi hn ha => ?_⟩
  by_cases hpos : i < pos
  · rw [h.done i hpos, carry_of_avail ha]
  · exact h.rest i (by omega) hn ha

theorem Upto.keep {b : Cells α} (h : Upto n avail src first pos b) (hn : pos + len ≤ n)
    (ha : ∀ i, pos ≤ i → i < pos + len → avail i) :
    Upto n avail src first (pos + len) b := by
  refine ⟨fun i hi => ?_, fun i hi => h.rest i (by omega)⟩
  by_cases hpos : i < pos
  · exact h.done i hpos
  · have hav := ha i (by omega) hi
    rw [h.rest i (by omega) (by omega) hav, carry_of_avail hav]

/-- A run of cells that are not available is filled with the cell before it. -/
theorem Upto.fill {b : Cells α} (h : Upto n avail src first pos b) (hpos : 0 < pos)
    (hn : pos + len ≤ n) (ha : ∀ i, pos ≤ i → i < pos + len → ¬avail i) :
    ∃ b', (do let v ← load n b ((pos : Int) - 1); Cells.fill n b pos v len) = some b' ∧
      Upto n avail src first (pos + len) b' := by
  have hrun : ∀ k ≤ len, carry avail src first (pos - 1 + k) = carry avail src first (pos - 1) :=
    carry_run ha hpos
  have hload : load n b ((pos : Int) - 1) = some (carry avail src first (pos - 1)) := by
    rw [load_eq (by omega), show ((pos : Int) - 1).toNat = pos - 1 by omega]
    exact h.done _ (by omega)
  refine ⟨_, (congrArg (Option.bind · _) hload).trans (fill_eq hn), fun i hi => ?_,
    fun i hi hin hav => ?_⟩
  · by_cases hin : pos ≤ i ∧ i < pos + len
    · rw [if_pos hin, ← hrun (i - (pos - 1)) (by omega)]
      congr 2
      omega
    · rw [if_neg hin]
      exact h.done i (by omega)
  · rw [if_neg (by omega)]
    exact h.rest i (by omega) hin hav

/-- The cells before the first available one take its value. -/
theorem Upto.start {b b' : Cells α} (hb : ∀ i < n, avail i → b i = some (src i))
    (hbefore : ∀ j < pos, ¬avail j)
    (hw : Wrote 0 pos True (fun _ => first) b b') : Upto n avail src first pos b' := by
  refine ⟨fun i hi => ?_, fun i hi hn ha => ?_⟩
  · rw [hw.cell trivial i (Nat.zero_le i) hi, carry_before fun j hj => hbefore j (by omega)]
  · rw [hw.frame i (by omega), hb i hn ha]

end Carry

end Cells
