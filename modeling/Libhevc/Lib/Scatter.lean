import Libhevc.Lib.Memory
import Mathlib.Data.List.GetD

/-!
# Scattered stores

A table of positions is walked and a value stored for each, which may change
several cells. What is said of one address: it belongs to at most one position,
and a store changes it only for that position.
-/

namespace Memory

variable {put : (Nat → α) → Nat → α → Nat → α} {cell : Option Nat} {a : Nat}

/-- An address that belongs to no position of the table is left alone. -/
theorem scatter_outside (scan : List Nat) (vs : List α) (m : Nat → α)
    (hput : ∀ pos ∈ scan, ∀ m v, put m pos v a = if cell = some pos then v else m a)
    (hcell : ∀ pos ∈ scan, cell ≠ some pos) :
    (scan.zip vs).foldl (fun m e => put m e.1 e.2) m a = m a := by
  induction scan generalizing vs m with
  | nil => rfl
  | cons pos scan ih =>
    cases vs with
    | nil => rfl
    | cons v vs =>
      rw [List.zip_cons_cons, List.foldl_cons,
        ih vs (put m pos v) (fun p hp => hput p (List.mem_cons_of_mem _ hp))
          (fun p hp => hcell p (List.mem_cons_of_mem _ hp)),
        hput pos (List.mem_cons_self ..), if_neg (hcell pos (List.mem_cons_self ..))]

/-- An address holds the value of its position, where every position is met once. -/
theorem scatter_apply (scan : List Nat) (vs : List α) (m : Nat → α) (d : α)
    (hput : ∀ pos ∈ scan, ∀ m v, put m pos v a = if cell = some pos then v else m a)
    (hnodup : scan.Nodup) (hlen : vs.length = scan.length) (hcell : cell = some p)
    (hmem : p ∈ scan) :
    (scan.zip vs).foldl (fun m e => put m e.1 e.2) m a = vs.getD (scan.idxOf p) d := by
  induction scan generalizing vs m with
  | nil => cases hmem
  | cons pos scan ih =>
    cases vs with
    | nil => cases hlen
    | cons v vs =>
      have htail : ∀ q ∈ scan, ∀ m v, put m q v a = if cell = some q then v else m a :=
        fun q hq => hput q (List.mem_cons_of_mem _ hq)
      obtain ⟨hnot, hnodup⟩ := List.nodup_cons.mp hnodup
      rw [List.zip_cons_cons, List.foldl_cons]
      by_cases hp : p = pos
      · subst hp
        have hout : ∀ q ∈ scan, cell ≠ some q := by
          rintro q hq heq
          rw [hcell] at heq
          exact hnot (Option.some.inj heq ▸ hq)
        rw [scatter_outside scan vs _ htail hout, hput p (List.mem_cons_self ..), if_pos hcell]
        simp
      · have hmem' : p ∈ scan := (List.mem_cons.mp hmem).resolve_left hp
        rw [ih vs (put m pos v) htail hnodup (Nat.succ.inj hlen) hmem',
          List.idxOf_cons, beq_false_of_ne (Ne.symm hp)]
        rfl

/-- The last of several stores to an address. -/
theorem scatter_last (l : List ι) (step : (Nat → α) → ι → Nat → α) (m : Nat → α)
    (hstep : ∀ m e, step m e a = v) (hl : l ≠ []) : l.foldl step m a = v := by
  obtain ⟨l, e, rfl⟩ := (List.eq_nil_or_concat l).resolve_left hl
  simp [hstep]

/-- Values that are read from cells no store touches can be read beforehand. -/
theorem foldl_read (scan : List Nat) (read : (Nat → α) → Nat → α) (m : Nat → α)
    (hread : ∀ m pos v, ∀ p ∈ scan, read (put m pos v) p = read m p) :
    scan.foldl (fun m pos => put m pos (read m pos)) m =
      (scan.zip (scan.map (read m))).foldl (fun m e => put m e.1 e.2) m := by
  induction scan generalizing m with
  | nil => rfl
  | cons pos scan ih =>
    have hsame : scan.map (read (put m pos (read m pos))) = scan.map (read m) :=
      List.map_congr_left fun p hp => hread m pos _ p (List.mem_cons_of_mem _ hp)
    rw [List.foldl_cons, ih _ fun m q v p hp => hread m q v p (List.mem_cons_of_mem _ hp), hsame]
    rfl

-- ---------------------------------------------------------------------------
-- Copies
-- ---------------------------------------------------------------------------

theorem copy_outside {m : Nat → α} (h : i < a ∨ a + l.length ≤ i) : copy m a l i = m i := by
  unfold copy
  split
  · exact List.getD_eq_default _ _ (by omega)
  · rfl

theorem copy_apply {m : Nat → α} (h : i < l.length) (d : α) :
    copy m a l (a + i) = l.getD i d := by
  rw [copy, if_pos (Nat.le_add_right ..), Nat.add_sub_cancel_left, List.getD_eq_getElem _ _ h,
    List.getD_eq_getElem _ _ h]

theorem copy_cells_apply {m : Nat → α} (h : i < n) :
    copy m a (cells m b n) (a + i) = m (b + i) := by
  have hlen : (cells m b n).length = n := by simp [cells]
  rw [copy_apply (hlen.symm ▸ h) (m (b + i))]
  simp [cells, h]

theorem copies_outside (copies : List (Nat × List α)) (m : Nat → α)
    (h : ∀ c ∈ copies, i < c.1 ∨ c.1 + c.2.length ≤ i) :
    copies.foldl (fun m c => copy m c.1 c.2) m i = m i := by
  induction copies generalizing m with
  | nil => rfl
  | cons c copies ih =>
    rw [List.foldl_cons, ih _ fun c hc => h c (List.mem_cons_of_mem _ hc),
      copy_outside (h c (List.mem_cons_self ..))]

/-- Each of several copies to places one behind the other is there in the end. -/
theorem copies_apply (copies : List (Nat × List α)) (m : Nat → α) (d : α)
    (hsorted : copies.Pairwise fun c c' => c.1 + c.2.length ≤ c'.1) (hmem : c ∈ copies)
    (hi : i < c.2.length) :
    copies.foldl (fun m c => copy m c.1 c.2) m (c.1 + i) = c.2.getD i d := by
  induction copies generalizing m with
  | nil => cases hmem
  | cons c' copies ih =>
    obtain ⟨hhead, htail⟩ := List.pairwise_cons.mp hsorted
    rw [List.foldl_cons]
    rcases List.mem_cons.mp hmem with rfl | hmem
    · rw [copies_outside copies _ fun c' hc' => .inl (by have := hhead c' hc'; omega)]
      exact copy_apply hi d
    · exact ih _ htail hmem

end Memory
