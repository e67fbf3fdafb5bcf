import Libhevc.Common.SaoEdge
import Libhevc.Lib.Raster
import Mathlib.Tactic.SplitIfs
import Mathlib.Tactic.Ring

/-!
# SAO edge offset kernels filter as if from a copy

A kernel runs over its block in the order of the addresses. What it reads
ahead it has not written yet, and what it knows of the row above are signs it
kept. So every sample is compared with its neighbours before filtering.
-/

namespace Libhevc

open Raster

-- ---------------------------------------------------------------------------
-- Samples
-- ---------------------------------------------------------------------------

theorem saoSign_neg (x : Int) : saoSign (-x) = -saoSign x := by
  unfold saoSign
  split_ifs <;> omega

theorem sgn_comm (x y : UInt8) : -sgn x y = sgn y x := by
  unfold sgn
  rw [← saoSign_neg]
  congr 1
  omega

theorem sgn_cases (x y : UInt8) : sgn x y = -1 ∨ sgn x y = 0 ∨ sgn x y = 1 := by
  unfold sgn saoSign
  split
  · split
    · exact Or.inr (Or.inr rfl)
    · exact Or.inr (Or.inl rfl)
  · exact Or.inl rfl

/-- A set mask keeps the edge index. -/
theorem tableEdgeIdx_mask (x y z : UInt8) :
    tableEdgeIdx (2 + sgn x y + sgn x z) &&& 0xFF = tableEdgeIdx (2 + sgn x y + sgn x z) := by
  rcases sgn_cases x y with h | h | h <;> rcases sgn_cases x z with h' | h' | h' <;>
    rw [h, h'] <;> decide

theorem clipSample_self (x : UInt8) : clipSample x.toNat = x := by
  have hlt := x.toNat_lt
  unfold clipSample
  rw [if_neg (by omega), if_neg (by omega), Int.toNat_natCast, UInt8.ofNat_toNat]

/-- The offset of edge index 0 is 0, so the sample is clipped in any case. -/
theorem addOffset_eq (offset : SaoOffset) (x : UInt8) (edgeIdx : Nat) :
    addOffset offset x edgeIdx = clipSample (x.toNat + offset.val edgeIdx) := by
  unfold addOffset
  split
  · rfl
  · rename_i hzero
    obtain rfl : edgeIdx = 0 := by omega
    rw [offset.val_zero, Int.add_zero, clipSample_self]

theorem addOffset_zero (offset : SaoOffset) (x : UInt8) : addOffset offset x 0 = x := rfl

theorem storeOffset_eq (offset : SaoOffset) (src : Int → UInt8) (a : Int) (edgeIdx : Nat) :
    storeOffset offset src a edgeIdx =
      Function.update src a (addOffset offset (src a) edgeIdx) := by
  unfold storeOffset addOffset
  split
  · rfl
  · exact (Function.update_eq_self a src).symm

-- ---------------------------------------------------------------------------
-- Rows
-- ---------------------------------------------------------------------------

section rows

variable {g : SaoArgs} {m src : Int → UInt8} {P : Int} {σ u : Nat → Int} {y : Nat → UInt8}

/-- A row of a kernel finds everything as in `src` from the end of the row above on. -/
def Ahead (g : SaoArgs) (P : Int) (m src : Int → UInt8) : Prop :=
  ∀ a, P + g.wd ≤ a + g.srcStrd → m a = src a

/-- What a kernel stores at a column, from the signs against its two neighbours. -/
def edgeValue (g : SaoArgs) (src : Int → UInt8) (P : Int) (mask : Nat → Nat)
    (up down : Nat → Int) (c : Nat) : UInt8 :=
  addOffset (g.offset (c % g.step)) (src (P + c))
    (tableEdgeIdx (2 + up c + down c) &&& mask (c / g.step))

/-- Columns that are less than a step apart belong to different components. -/
theorem mod_step_ne (hstep : g.step = 1 ∨ g.step = 2) (h : c < j) (hj : j < c + g.step) :
    j % g.step ≠ c % g.step := by
  rcases hstep with hs | hs <;> rw [hs] at hj ⊢ <;> omega

theorem class0_row (hstep : g.step = 1 ∨ g.step = 2) (hwd : g.wd ≤ g.srcStrd)
    (hm : Ahead g P m src) (hσ : ∀ i < g.step, σ i = sgn (src (P + i)) (y i)) :
    ((List.range g.wd).foldl (class0Col g P) (m, σ)).1 =
      rowSet m P g.wd (edgeValue g src P g.mask
        (fun c => sgn (src (P + c)) (if c < g.step then y c else src (P + c - g.step)))
        (fun c => sgn (src (P + c)) (src (P + c + g.step)))) := by
  -- Each component's sign is that of its next column
  let I : Nat → (Nat → Int) → Prop := fun c σ => ∀ j, c ≤ j → j < c + g.step →
    σ (j % g.step) = sgn (src (P + j)) (if j < g.step then y j else src (P + j - g.step))
  have hfold : ∃ σ', (List.range g.wd).foldl (class0Col g P) (m, σ) = (rowSet m P g.wd
      (edgeValue g src P g.mask
        (fun c => sgn (src (P + c)) (if c < g.step then y c else src (P + c - g.step)))
        (fun c => sgn (src (P + c)) (src (P + c + g.step)))), σ') ∧ I g.wd σ' := by
    refine foldl_row ?_ ?_
    · intro c hc m' s hm' hI
      have hread : ∀ a, P + c ≤ a → m' a = src a := fun a ha =>
        (hm' a ha).trans (hm a (by omega))
      refine ⟨Function.update s (c % g.step) (-sgn (src (P + c)) (src (P + c + g.step))), ?_, ?_⟩
      · simp only [class0Col, storeOffset_eq, edgeValue, hread (P + c) (Int.le_refl _),
          hread (P + c + g.step) (by omega), hI c (Nat.le_refl c) (by omega)]
      · intro j hj hj'
        rcases Nat.lt_or_ge j (c + g.step) with hlt | hge
        · rw [Function.update_of_ne (mod_step_ne hstep hj hlt)]
          exact hI j (by omega) hlt
        · obtain rfl : j = c + g.step := by omega
          rw [Nat.add_mod_right, Function.update_self, sgn_comm, if_neg (by omega)]
          congr 2 <;> omega
    · intro j _ hj
      rw [Nat.zero_add] at hj
      rw [Nat.mod_eq_of_lt hj, if_pos hj]
      exact hσ j hj
  obtain ⟨σ', hfold, -⟩ := hfold
  rw [hfold]

theorem class1_row (hwd : g.wd ≤ g.srcStrd) (hm : Ahead g P m src)
    (hσ : ∀ c < g.wd, σ c = sgn (src (P + c)) (y c)) :
    ∃ σ', (List.range g.wd).foldl (class1Col g P) (m, σ) =
        (rowSet m P g.wd (edgeValue g src P (fun _ => 0xFF) (fun c => sgn (src (P + c)) (y c))
          (fun c => sgn (src (P + c)) (src (P + c + g.srcStrd)))), σ') ∧
      ∀ c < g.wd, σ' c = sgn (src (P + c + g.srcStrd)) (src (P + c)) := by
  -- The signs in front of the column are already those of the next row
  let I : Nat → (Nat → Int) → Prop := fun c σ => ∀ j < g.wd,
    σ j = if j < c then sgn (src (P + j + g.srcStrd)) (src (P + j)) else sgn (src (P + j)) (y j)
  have hfold : ∃ σ', (List.range g.wd).foldl (class1Col g P) (m, σ) = (rowSet m P g.wd
      (edgeValue g src P (fun _ => 0xFF) (fun c => sgn (src (P + c)) (y c))
        (fun c => sgn (src (P + c)) (src (P + c + g.srcStrd)))), σ') ∧ I g.wd σ' := by
    refine foldl_row ?_ ?_
    · intro c hc m' s hm' hI
      have hread : ∀ a, P + c ≤ a → m' a = src a := fun a ha =>
        (hm' a ha).trans (hm a (by omega))
      have hsign := hI c hc
      rw [if_neg (Nat.lt_irrefl c)] at hsign
      refine ⟨Function.update s c (-sgn (src (P + c)) (src (P + c + g.srcStrd))), ?_, ?_⟩
      · simp only [class1Col, storeOffset_eq, edgeValue, hread (P + c) (Int.le_refl _),
          hread (P + c + g.srcStrd) (by omega), hsign]
      · intro j hj
        rcases eq_or_ne j c with rfl | hne
        · rw [Function.update_self, sgn_comm, if_pos (Nat.lt_succ_self j)]
        · rw [Function.update_of_ne hne, hI j hj]
          exact if_congr (by omega) rfl rfl
    · intro j hj
      rw [if_neg (Nat.not_lt_zero j)]
      exact hσ j hj
  obtain ⟨σ', hfold, hI⟩ := hfold
  refine ⟨σ', hfold, fun c hc => ?_⟩
  rw [hI c hc, if_pos hc]

theorem class2_row (hwd : g.wd ≤ g.srcStrd) (hm : Ahead g P m src) :
    ∃ σ', (List.range g.wd).foldl (class2Col g P u) (m, σ) =
        (rowSet m P g.wd (edgeValue g src P g.mask u
          (fun c => sgn (src (P + c)) (src (P + c + g.step + g.srcStrd)))), σ') ∧
      ∀ c, g.step ≤ c → c < g.wd →
        σ' c = sgn (src (P + c + g.srcStrd)) (src (P + c - g.step)) := by
  let I : Nat → (Nat → Int) → Prop := fun c σ => ∀ j, g.step ≤ j → j < c + g.step →
    σ j = sgn (src (P + j + g.srcStrd)) (src (P + j - g.step))
  have hfold : ∃ σ', (List.range g.wd).foldl (class2Col g P u) (m, σ) = (rowSet m P g.wd
      (edgeValue g src P g.mask u
        (fun c => sgn (src (P + c)) (src (P + c + g.step + g.srcStrd)))), σ') ∧ I g.wd σ' := by
    refine foldl_row ?_ ?_
    · intro c hc m' s hm' hI
      have hread : ∀ a, P + c ≤ a → m' a = src a := fun a ha =>
        (hm' a ha).trans (hm a (by omega))
      refine ⟨Function.update s (c + g.step)
        (-sgn (src (P + c)) (src (P + c + g.step + g.srcStrd))), ?_, ?_⟩
      · simp only [class2Col, storeOffset_eq, edgeValue, hread (P + c) (Int.le_refl _),
          hread (P + c + g.step + g.srcStrd) (by omega)]
      · intro j hj hj'
        rcases eq_or_ne j (c + g.step) with rfl | hne
        · rw [Function.update_self, sgn_comm]
          congr 2 <;> omega
        · rw [Function.update_of_ne hne]
          exact hI j hj (by omega)
    · intro j hj hj'
      omega
  obtain ⟨σ', hfold, hI⟩ := hfold
  exact ⟨σ', hfold, fun c hc hc' => hI c hc (by omega)⟩

theorem class3_row (leftCpy : Int → UInt8) (row : Nat) (hwd : g.wd ≤ g.srcStrd)
    (hstrd : g.step ≤ g.srcStrd) (hm : Ahead g P m src) (hσ : ∀ c < g.wd, σ c = u c) :
    ∃ σ', (List.range g.wd).foldl (class3Col g P leftCpy row) (m, σ) =
        (rowSet m P g.wd (edgeValue g src P g.mask u
          (fun c => sgn (src (P + c)) (if c < g.step then
              leftCpy (g.step * ((row : Int) + 1) + c)
            else src (P + c - g.step + g.srcStrd)))), σ') ∧
      ∀ c, c + g.step < g.wd →
        σ' c = sgn (src (P + c + g.srcStrd)) (src (P + c + g.step)) := by
  let I : Nat → (Nat → Int) → Prop := fun c σ => (∀ j, c ≤ j → j < g.wd → σ j = u j) ∧
    ∀ j, j + g.step < c → σ j = sgn (src (P + j + g.srcStrd)) (src (P + j + g.step))
  have hfold : ∃ σ', (List.range g.wd).foldl (class3Col g P leftCpy row) (m, σ) =
      (rowSet m P g.wd (edgeValue g src P g.mask u
        (fun c => sgn (src (P + c)) (if c < g.step then
            leftCpy (g.step * ((row : Int) + 1) + c)
          else src (P + c - g.step + g.srcStrd)))), σ') ∧ I g.wd σ' := by
    refine foldl_row ?_ ?_
    · intro c hc m' s hm' hI
      have hread : ∀ a, P + c ≤ a → m' a = src a := fun a ha =>
        (hm' a ha).trans (hm a (by omega))
      refine ⟨if g.step ≤ c then Function.update s (c - g.step) (-sgn (src (P + c))
        (if c < g.step then leftCpy (g.step * ((row : Int) + 1) + c)
          else src (P + c - g.step + g.srcStrd))) else s, ?_, ?_⟩
      · simp only [class3Col, storeOffset_eq, edgeValue, hread (P + c) (Int.le_refl _),
          hread (P + c - g.step + g.srcStrd) (by omega), hI.1 c (Nat.le_refl c) hc]
      · split
        · rename_i hcol
          refine ⟨fun j hj hj' => ?_, fun j hj => ?_⟩
          · rw [Function.update_of_ne (by omega)]
            exact hI.1 j (by omega) hj'
          · rcases eq_or_ne j (c - g.step) with rfl | hne
            · rw [Function.update_self, sgn_comm, if_neg (by omega)]
              congr 2 <;> omega
            · rw [Function.update_of_ne hne]
              exact hI.2 j (by omega)
        · rename_i hcol
          refine ⟨fun j hj hj' => hI.1 j (by omega) hj', fun j hj => ?_⟩
          omega
    · exact ⟨fun j _ hj => hσ j hj, fun j hj => by omega⟩
  obtain ⟨σ', hfold, hI⟩ := hfold
  exact ⟨σ', hfold, fun c hc => hI.2 c hc⟩

end rows

-- ---------------------------------------------------------------------------
-- Filtering from a copy
-- ---------------------------------------------------------------------------

/-- The sample at a row and a column relative to the block before filtering: the neighbours above
and on the left are in buffers of their own. -/
def SaoArgs.sampleAt (g : SaoArgs) (b : SaoBufs) (r c : Int) : UInt8 :=
  if r < 0 then
    if c < 0 then b.topLeft (c + g.step).toNat
    else if c < g.wd then b.top c.toNat
    else g.pu1SrcTopRight (c - g.wd).toNat
  else if c < 0 then
    if r < g.ht then b.left (g.step * r + c + g.step) else g.pu1SrcBotLeft (c + g.step).toNat
  else b.src (g.pu1Src + r * g.srcStrd + c)

/-- The availability flag of the side or the corner a sample lies on, 1 inside the block. -/
def SaoArgs.flagAt (g : SaoArgs) (r c : Int) : Nat :=
  if r < 0 then
    if c < 0 then g.pu1Avail 4 else if c < g.wd then g.pu1Avail 2 else g.pu1Avail 5
  else if r < g.ht then
    if c < 0 then g.pu1Avail 0 else if c < g.wd then 1 else g.pu1Avail 1
  else
    if c < 0 then g.pu1Avail 6 else if c < g.wd then g.pu1Avail 3 else g.pu1Avail 7

/-- The two neighbours of a sample in the direction of a class are available. -/
def SaoArgs.Avail (g : SaoArgs) (dr dc : Int) (r c : Nat) : Prop :=
  g.flagAt (r - dr) (c - dc * g.step) ≠ 0 ∧ g.flagAt (r + dr) (c + dc * g.step) ≠ 0

instance : Decidable (SaoArgs.Avail g dr dc r c) := inferInstanceAs (Decidable (_ ∧ _))

/-- The sample an edge class leaves at a position: clipped with the offset of its edge index, and
unchanged where one of the neighbours is not available. -/
def SaoArgs.filtered (g : SaoArgs) (b : SaoBufs) (dr dc : Int) (r c : Nat) : UInt8 :=
  let x := g.sampleAt b r c
  let y := g.sampleAt b (r - dr) (c - dc * g.step)
  let z := g.sampleAt b (r + dr) (c + dc * g.step)
  if g.Avail dr dc r c then
    clipSample (x.toNat + (g.offset (c % g.step)).val (tableEdgeIdx (2 + sgn x y + sgn x z)))
  else x

/-- A block of `n` samples of each component in width. -/
structure SaoArgs.Block (g : SaoArgs) (n : Nat) : Prop where
  step : g.step = 1 ∨ g.step = 2
  wd : g.wd = g.step * n
  two : 2 ≤ n
  ht : 2 ≤ g.ht
  strd : g.wd ≤ g.srcStrd

/-- What a kernel of direction `(dr, dc)` leaves. -/
structure SaoArgs.Filters (g : SaoArgs) (b out : SaoBufs) (dr dc : Int) : Prop where
  inside : ∀ r < g.ht, ∀ c < g.wd,
    out.src (g.pu1Src + (r : Int) * g.srcStrd + c) = g.filtered b dr dc r c
  outside : ∀ a, (∀ r < g.ht, ∀ c < g.wd, a ≠ g.pu1Src + (r : Int) * g.srcStrd + c) →
    out.src a = b.src a
  left : ∀ r < g.ht, ∀ i < g.step, out.left ((g.step * r + i : Nat) : Int) =
    b.src (g.pu1Src + (r : Int) * g.srcStrd + g.wd - g.step + i)
  top : ∀ c < g.wd, out.top c = b.src (g.pu1Src + ((g.ht : Int) - 1) * g.srcStrd + c)
  topLeft : ∀ i < g.step, out.topLeft i = b.top (g.wd - g.step + i)

variable {g : SaoArgs} {b out : SaoBufs} {n : Nat} {dr dc : Int} {r c : Nat}

theorem sampleAt_src (hr : 0 ≤ r') (hc : 0 ≤ c') :
    g.sampleAt b r' c' = b.src (g.pu1Src + r' * g.srcStrd + c') := by
  unfold SaoArgs.sampleAt
  rw [if_neg (by omega), if_neg (by omega)]

theorem SaoArgs.Block.wide (hb : g.Block n) : 2 * g.step ≤ g.wd ∧ 0 < g.step := by
  have htwo := Nat.mul_le_mul_left g.step hb.two
  rw [← hb.wd] at htwo
  have hstep := hb.step
  omega

/-- The buffers a kernel leaves for the blocks on the right and below. -/
theorem SaoArgs.Block.buffers (hb : g.Block n) :
    (∀ r < g.ht, ∀ i < g.step,
      storeLeft b.left (g.step * g.ht) (g.lastColumn b.src) ((g.step * r + i : Nat) : Int) =
        b.src (g.pu1Src + (r : Int) * g.srcStrd + g.wd - g.step + i)) ∧
    (∀ c < g.wd, storeArray b.top g.wd (g.lastRow b.src) c =
      b.src (g.pu1Src + ((g.ht : Int) - 1) * g.srcStrd + c)) ∧
    ∀ i < g.step, storeArray b.topLeft g.step (g.lastTop b.top) i = b.top (g.wd - g.step + i) := by
  refine ⟨fun r hr i hi => ?_, fun c hc => if_pos hc, fun i hi => if_pos hi⟩
  have hrow := Nat.mul_le_mul_left g.step (Nat.succ_le_of_lt hr)
  rw [Nat.mul_succ] at hrow
  unfold storeLeft
  rw [if_pos (by omega), Int.toNat_natCast]
  unfold SaoArgs.lastColumn
  rw [Nat.mul_add_div hb.wide.2, Nat.div_eq_of_lt hi, Nat.add_zero, Nat.mul_add_mod,
    Nat.mod_eq_of_lt hi]

/-- The mask of a column is cleared where its left or its right neighbour is not available. -/
theorem SaoArgs.Block.mask_at (hb : g.Block n) (hc : c < g.wd) :
    g.mask (c / g.step) =
      if (c < g.step → g.pu1Avail 0 ≠ 0) ∧ (g.wd ≤ c + g.step → g.pu1Avail 1 ≠ 0) then 0xFF
      else 0 := by
  have hfirst : c / g.step = 0 ↔ c < g.step := by
    rw [Nat.div_eq_zero_iff]
    have hpos := hb.wide.2
    omega
  have hlast : c / g.step = (g.wd - 1) / g.step ↔ g.wd ≤ c + g.step := by
    have hwd := hb.wd
    rcases hb.step with hs | hs <;> rw [hs] at hwd ⊢ <;> omega
  unfold SaoArgs.mask
  cases hleft : g.pu1Avail 0 <;> cases hright : g.pu1Avail 1 <;>
    simp [Function.update_apply, hfirst, hlast]
  all_goals split_ifs <;> omega

/-- The value of a column is the filtered sample where its mask and its signs are those of the
neighbours. -/
theorem edgeValue_filtered {mask : Nat → Nat} {up down : Nat → Int} {P : Int}
    (hP : P = g.pu1Src + (r : Int) * g.srcStrd)
    (hmask : mask (c / g.step) = if g.Avail dr dc r c then 0xFF else 0)
    (hup : g.Avail dr dc r c →
      up c = sgn (g.sampleAt b r c) (g.sampleAt b (r - dr) (c - dc * g.step)))
    (hdown : g.Avail dr dc r c →
      down c = sgn (g.sampleAt b r c) (g.sampleAt b (r + dr) (c + dc * g.step))) :
    edgeValue g b.src P mask up down c = g.filtered b dr dc r c := by
  have hx : b.src (P + c) = g.sampleAt b r c := by
    rw [sampleAt_src (Int.natCast_nonneg r) (Int.natCast_nonneg c), hP]
  unfold edgeValue SaoArgs.filtered
  rw [hmask, hx]
  split
  · rename_i h
    rw [hup h, hdown h, tableEdgeIdx_mask, addOffset_eq]
  · rw [Nat.and_zero, addOffset_zero]

theorem sampleAt_left {r' c' : Int} (hr : 0 ≤ r') (hr' : r' < g.ht) (hc : c' < 0) :
    g.sampleAt b r' c' = b.left (g.step * r' + c' + g.step) := by
  unfold SaoArgs.sampleAt
  rw [if_neg (by omega), if_pos hc, if_pos hr']

theorem sampleAt_top {r' c' : Int} (hr : r' < 0) (hc : 0 ≤ c') (hc' : c' < g.wd) :
    g.sampleAt b r' c' = b.top c'.toNat := by
  unfold SaoArgs.sampleAt
  rw [if_pos hr, if_neg (by omega), if_pos hc']

/-- The position of a row in the memory. -/
theorem row_add (p : Int) (r k strd : Nat) :
    p + ((r + k : Nat) : Int) * strd = p + (k : Int) * strd + (r : Int) * strd := by
  push_cast
  ring

-- ---------------------------------------------------------------------------
-- Class 0
-- ---------------------------------------------------------------------------

theorem avail_class0 (hr : r < g.ht) (hc : c < g.wd) :
    g.Avail 0 1 r c ↔
      (c < g.step → g.pu1Avail 0 ≠ 0) ∧ (g.wd ≤ c + g.step → g.pu1Avail 1 ≠ 0) := by
  unfold SaoArgs.Avail SaoArgs.flagAt
  split_ifs <;> omega

theorem class0_src (hb : g.Block n) :
    (edgeOffsetClass0 g b).src =
      blockSet b.src g.pu1Src g.srcStrd g.wd (fun r c => g.filtered b 0 1 r c) g.ht := by
  have hfold : ∃ s', (List.range g.ht).foldl (class0Row g b.left) (b.src, ()) =
      (blockSet b.src g.pu1Src g.srcStrd g.wd (fun r c => g.filtered b 0 1 r c) g.ht, s') ∧
        True := by
    refine foldl_block (I := fun _ _ => True) ?_ trivial
    intro r hr m' s hm' _
    have hwide := hb.wide
    have hstrd := hb.strd
    refine ⟨(), ?_, trivial⟩
    refine (congrArg (·, ()) (class0_row (y := fun i => b.left (g.step * (r : Int) + i))
      hb.step hb.strd hm' fun i hi => congrArg (sgn · _) (hm' _ (by omega)))).trans ?_
    refine congrArg (·, ()) (rowSet_congr fun c hc => edgeValue_filtered rfl ?_ ?_ ?_)
    · rw [hb.mask_at hc]
      exact if_congr (avail_class0 hr hc).symm rfl rfl
    · intro _
      rw [Int.sub_zero, sampleAt_src (Int.natCast_nonneg r) (Int.natCast_nonneg c)]
      congr 1
      split
      · rw [sampleAt_left (by omega) (by omega) (by omega)]
        congr 1
        omega
      · rw [sampleAt_src (by omega) (by omega)]
        congr 1
        omega
    · intro _
      rw [Int.add_zero, sampleAt_src (Int.natCast_nonneg r) (Int.natCast_nonneg c),
        sampleAt_src (by omega) (by omega)]
      congr 2
      omega
  obtain ⟨s', hfold, -⟩ := hfold
  exact congrArg Prod.fst hfold

theorem class0_filters (hb : g.Block n) : g.Filters b (edgeOffsetClass0 g b) 0 1 := by
  obtain ⟨hleft, htop, htopLeft⟩ := hb.buffers (b := b)
  refine ⟨fun r hr c hc => ?_, fun a ha => ?_, hleft, htop, htopLeft⟩
  · rw [class0_src hb, blockSet_at hb.strd hr hc]
  · rw [class0_src hb, blockSet_outside ha]

-- ---------------------------------------------------------------------------
-- The rows that are not left out
-- ---------------------------------------------------------------------------

theorem skipTop_cases (g : SaoArgs) :
    g.pu1Avail 2 = 0 ∧ g.skipTop = 1 ∨ g.pu1Avail 2 ≠ 0 ∧ g.skipTop = 0 := by
  unfold SaoArgs.skipTop
  split_ifs with h
  · exact Or.inl ⟨h, rfl⟩
  · exact Or.inr ⟨h, rfl⟩

theorem skipBottom_cases (g : SaoArgs) :
    g.pu1Avail 3 = 0 ∧ g.skipBottom = 1 ∨ g.pu1Avail 3 ≠ 0 ∧ g.skipBottom = 0 := by
  unfold SaoArgs.skipBottom
  split_ifs with h
  · exact Or.inl ⟨h, rfl⟩
  · exact Or.inr ⟨h, rfl⟩

theorem firstRow_add (g : SaoArgs) (k : Nat) :
    g.firstRow + (k : Int) * g.srcStrd =
      g.pu1Src + ((k + g.skipTop : Nat) : Int) * g.srcStrd := (row_add ..).symm

/-- What a scan of these rows leaves in the block. -/
theorem SaoArgs.Block.rows_at (hb : g.Block n) (hc : c < g.wd) :
    blockSet b.src g.firstRow g.srcStrd g.wd G g.rows (g.pu1Src + (r : Int) * g.srcStrd + c) =
      if g.skipTop ≤ r ∧ r + g.skipBottom < g.ht then G (r - g.skipTop) c
      else b.src (g.pu1Src + (r : Int) * g.srcStrd + c) := by
  split
  · rename_i hin
    have haddr := firstRow_add g (r - g.skipTop)
    rw [Nat.sub_add_cancel hin.1] at haddr
    rw [← haddr]
    refine blockSet_at hb.strd ?_ hc
    unfold SaoArgs.rows
    omega
  · rename_i hout
    refine blockSet_outside fun k hk c' hc' heq => hout ?_
    unfold SaoArgs.rows at hk
    rw [firstRow_add] at heq
    have hstrd := hb.strd
    have hsame : r = k + g.skipTop := by
      rcases Nat.lt_trichotomy r (k + g.skipTop) with hlt | heq' | hlt
      · have hle := row_le g.srcStrd hlt
        omega
      · exact heq'
      · have hle := row_le g.srcStrd hlt
        omega
    omega

/-- It leaves the memory around the block alone. -/
theorem rows_outside (ha : ∀ r < g.ht, ∀ c < g.wd, a ≠ g.pu1Src + (r : Int) * g.srcStrd + c) :
    blockSet b.src g.firstRow g.srcStrd g.wd G g.rows a = b.src a := by
  refine blockSet_outside fun k hk c hc => ?_
  rw [firstRow_add]
  refine ha _ ?_ c hc
  unfold SaoArgs.rows at hk
  omega

/-- A row of the memory holds the samples of the row, and the next one those of the next row. -/
theorem row_sample {P : Int} (hP : P = g.pu1Src + (r : Int) * g.srcStrd) (hc : 0 ≤ c') :
    b.src (P + c') = g.sampleAt b r c' := by
  rw [sampleAt_src (Int.natCast_nonneg r) hc, hP]

theorem row_sample_next {P : Int} (hP : P = g.pu1Src + (r : Int) * g.srcStrd) (hc : 0 ≤ c') :
    b.src (P + c' + g.srcStrd) = g.sampleAt b (r + 1) c' := by
  rw [sampleAt_src (by omega) hc, hP, Int.add_mul]
  congr 1
  omega

theorem row_sample_above {P : Int} (hP : P = g.pu1Src + (r : Int) * g.srcStrd) (hr : 1 ≤ r)
    (hc : 0 ≤ c') : b.src (P + c' - g.srcStrd) = g.sampleAt b (r - 1) c' := by
  rw [sampleAt_src (by omega) hc, hP, Int.sub_mul]
  congr 1
  omega

/-- The signs of the first row come from the row above it in the memory or from the top buffer. -/
theorem above_sample {c' : Int} (x : UInt8) (hc : 0 ≤ c') (hc' : c' < g.wd) :
    (if g.pu1Avail 2 = 0 then sgn x (b.src (g.firstRow + c' - g.srcStrd))
      else sgn x (b.top c'.toNat)) = sgn x (g.sampleAt b (g.skipTop - 1) c') := by
  rcases skipTop_cases g with ⟨hflag, hskip⟩ | ⟨hflag, hskip⟩
  · rw [if_pos hflag, sampleAt_src (by omega) hc]
    unfold SaoArgs.firstRow
    rw [hskip]
    congr 2
    omega
  · rw [if_neg hflag, sampleAt_top (by omega) hc hc']

-- ---------------------------------------------------------------------------
-- Class 1
-- ---------------------------------------------------------------------------

theorem avail_class1 (hc : c < g.wd) (hr : r < g.ht) :
    g.Avail 1 0 r c ↔ (r = 0 → g.pu1Avail 2 ≠ 0) ∧ (r + 1 = g.ht → g.pu1Avail 3 ≠ 0) := by
  unfold SaoArgs.Avail SaoArgs.flagAt
  split_ifs <;> omega

theorem class1_src (hb : g.Block n) :
    (edgeOffsetClass1 g b).src = blockSet b.src g.firstRow g.srcStrd g.wd
      (fun k c => g.filtered b 1 0 (k + g.skipTop) c) g.rows := by
  have htop := skipTop_cases g
  have hbottom := skipBottom_cases g
  -- The signs are those against the row above
  let I : Nat → (Nat → Int) → Prop := fun k σ => ∀ c < g.wd,
    σ c = sgn (g.sampleAt b (k + g.skipTop : Nat) c) (g.sampleAt b ((k + g.skipTop : Nat) - 1) c)
  have hstep : ∀ k < g.rows, ∀ m' s, Ahead g (g.firstRow + (k : Int) * g.srcStrd) m' b.src →
      I k s → ∃ s', class1Row g g.firstRow (m', s) k = (rowSet m' (g.firstRow + k * g.srcStrd) g.wd
        (fun c => g.filtered b 1 0 (k + g.skipTop) c), s') ∧ I (k + 1) s' := by
    intro k hk m' s hm' hI
    unfold SaoArgs.rows at hk
    have hP := firstRow_add g k
    obtain ⟨s', hrow, hs'⟩ := class1_row
      (y := fun c => g.sampleAt b ((k + g.skipTop : Nat) - 1) c) hb.strd hm'
      fun c hc => (hI c hc).trans (by rw [row_sample hP (Int.natCast_nonneg c)])
    refine ⟨s', hrow.trans (congrArg (·, s') (rowSet_congr fun c hc => ?_)), fun c hc => ?_⟩
    · have havail : g.Avail 1 0 (k + g.skipTop) c := (avail_class1 hc (by omega)).mpr (by omega)
      refine edgeValue_filtered hP ?_ (fun _ => ?_) fun _ => ?_
      · exact (if_pos havail).symm
      · rw [row_sample hP (Int.natCast_nonneg c), Int.zero_mul, Int.sub_zero]
      · rw [row_sample hP (Int.natCast_nonneg c), row_sample_next hP (Int.natCast_nonneg c),
          Int.zero_mul, Int.add_zero]
    · rw [hs' c hc, row_sample hP (Int.natCast_nonneg c), row_sample_next hP (Int.natCast_nonneg c)]
      congr 2
      all_goals omega
  have hinit : I 0 (class1SignUp g b) := by
    intro c hc
    have habove := above_sample (b := b) (b.src (g.firstRow + c)) (Int.natCast_nonneg c)
      (Int.ofNat_lt.mpr hc)
    have hP := firstRow_add g 0
    rw [Int.natCast_zero, Int.zero_mul, Int.add_zero] at hP
    rw [Nat.zero_add, ← row_sample (hP.trans (by rw [Nat.zero_add])) (Int.natCast_nonneg c),
      ← habove]
    rfl
  obtain ⟨s', hfold, -⟩ := foldl_block (I := I) hstep hinit
  exact congrArg Prod.fst hfold

theorem class1_filters (hb : g.Block n) : g.Filters b (edgeOffsetClass1 g b) 1 0 := by
  obtain ⟨hleft, htop, htopLeft⟩ := hb.buffers (b := b)
  refine ⟨fun r hr c hc => ?_, fun a ha => ?_, hleft, htop, htopLeft⟩
  · rw [class1_src hb, hb.rows_at hc]
    split
    · rename_i hin
      rw [Nat.sub_add_cancel hin.1]
    · rename_i hout
      have htop := skipTop_cases g
      have hbottom := skipBottom_cases g
      have havail : ¬g.Avail 1 0 r c := fun h => by
        rw [avail_class1 hc hr] at h
        omega
      unfold SaoArgs.filtered
      rw [if_neg havail, sampleAt_src (Int.natCast_nonneg r) (Int.natCast_nonneg c)]
  · rw [class1_src hb, rows_outside ha]

end Libhevc
