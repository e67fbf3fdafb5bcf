import Libhevc.Common.DeblkEdgeLaws

/-!
# The chroma edges

The samples of the two components alternate, so those of one are two apart. The
loop over the rows of a vertical edge has a line of each component in a turn,
the loop over the columns of a horizontal edge has one line.
-/

namespace Libhevc.Deblk

open Spec.Deblk (EdgeLine EdgeFlags ChromaEdge clip1 chromaLine)
open ItransRecon

theorem EdgeLine.ext_two {l l' : EdgeLine 2} (hp : l.p 0 = l'.p 0 ∧ l.p 1 = l'.p 1)
    (hq : l.q 0 = l'.q 0 ∧ l.q 1 = l'.q 1) : l = l' := by
  refine EdgeLine.ext (funext fun i => ?_) (funext fun i => ?_)
  · match i with
    | 0 => exact hp.1
    | 1 => exact hp.2
  · match i with
    | 0 => exact hq.1
    | 1 => exact hq.2

/-- The flags of the arguments. -/
def ChromaArgs.flags (g : ChromaArgs) : EdgeFlags := flagsOf g.filterFlagP g.filterFlagQ

/-- Where `tC` is 0 the section leaves a chroma line alone. -/
theorem chromaLine_of_tc_zero (flags : EdgeFlags) (hl : InDepth l) : chromaLine 0 flags l = l := by
  have hclip : ∀ x, Spec.Deblk.clip3 (-0) 0 x = 0 := by
    intro x
    have hbounds := clip3_bounds (x := x) (show (-0 : Int) ≤ 0 by decide)
    omega
  have hsame : ∀ x, 0 ≤ x ∧ x ≤ 255 → clip1 x = x := by
    intro x hx
    unfold clip1 Spec.Deblk.clip3
    rw [if_neg (by omega), if_neg (by omega)]
  have hside : ∀ near : Fin 2 → Int, (∀ i, 0 ≤ near i ∧ near i ≤ 255) →
      Spec.Deblk.chromaSide 0 near = near := by
    intro near hnear
    funext i
    match i with
    | 0 => rw [Spec.Deblk.chromaSide, add_zero, hsame _ (hnear 0)]
    | 1 => rfl
  unfold chromaLine
  simp only [hclip]
  rw [neg_zero, hside _ fun i => (hl i).1, hside _ fun i => (hl i).2]
  simp [EdgeFlags.choose]

/-- The two samples of a chroma line that the code stores. -/
theorem chromaLine_lineOf (htc : 0 ≤ tc) (flags : EdgeFlags) (s : Int → Int) :
    chromaLine tc flags (lineOf 2 s) =
      let delta := Libhevc.clip3 (((s 0 - s (-1)) * 4 + s (-2) - s 1 + 4) / 8) (-tc) tc
      flags.choose (lineOf 2 s)
        { p := ![clipU8 (s (-1) + delta), s (-2)], q := ![clipU8 (s 0 - delta), s 1] } := by
  have hdelta : ∀ x, Libhevc.clip3 x (-tc) tc = Spec.Deblk.clip3 (-tc) tc x :=
    fun x => clip3_eq (by omega)
  have hdiff : Spec.Deblk.chromaDiff (lineOf 2 s) = (s 0 - s (-1)) * 4 + s (-2) - s 1 := rfl
  unfold chromaLine
  simp only [hdelta, hdiff, clipU8_eq, sub_eq_add_neg]
  congr 1
  exact EdgeLine.ext_two ⟨rfl, rfl⟩ ⟨rfl, rfl⟩

-- ---------------------------------------------------------------------------
-- The rows of a vertical edge
-- ---------------------------------------------------------------------------

/-- The line of each component in a row. -/
def rowLines (src : Int → UInt8) (a : Int) : EdgeLine 2 × EdgeLine 2 :=
  (lineOf 2 (sampleAt src a 2), lineOf 2 (sampleAt src (a + 1) 2))

theorem rowLines_eq (src : Int → UInt8) (a : Int) :
    rowLines src a = (lineOf 2 fun i => sampleAt src a 1 (2 * i),
      lineOf 2 fun i => sampleAt src a 1 (2 * i + 1)) := by
  have hu : ∀ i, sampleAt src a 2 i = sampleAt src a 1 (2 * i) := by
    intro i
    unfold sampleAt
    congr 3
    ring
  have hv : ∀ i, sampleAt src (a + 1) 2 i = sampleAt src a 1 (2 * i + 1) := by
    intro i
    unfold sampleAt
    congr 3
    ring
  rw [rowLines, funext hu, funext hv]

theorem rowLines_congr (h : ∀ x ∈ lineCells 4 a 1, src x = src' x) :
    rowLines src a = rowLines src' a := by
  have hread : ∀ i : Int, -4 ≤ i → i < 4 → sampleAt src a 1 i = sampleAt src' a 1 i := by
    intro i hlo hhi
    unfold sampleAt
    rw [h _ ⟨i, hlo, hhi, rfl⟩]
  rw [rowLines_eq, rowLines_eq]
  congr 1
  · apply EdgeLine.ext_two
    · exact ⟨hread _ (by decide) (by decide), hread _ (by decide) (by decide)⟩
    · exact ⟨hread _ (by decide) (by decide), hread _ (by decide) (by decide)⟩
  · apply EdgeLine.ext_two
    · exact ⟨hread _ (by decide) (by decide), hread _ (by decide) (by decide)⟩
    · exact ⟨hread _ (by decide) (by decide), hread _ (by decide) (by decide)⟩

theorem chromaVertRow_lines (g : ChromaArgs) (src : Int → UInt8) (a : Int) :
    rowLines (chromaVertRow g src a) a =
      (chromaLine (g.tcOf false) g.flags (rowLines src a).1,
        chromaLine (g.tcOf true) g.flags (rowLines src a).2) := by
  have hone : (1 : Int) ≠ 0 := by decide
  have hstore : ∀ (m : Int → UInt8) (i x j : Int), sampleAt (store m a 1 i (clipU8 x)) a 1 j =
      if j = i then clipU8 x else sampleAt m a 1 j :=
    fun m i x j => sampleAt_store hone (by rw [clipU8_eq]; exact clip1_bounds x) j
  rw [rowLines_eq, rowLines_eq, chromaLine_lineOf (g.tcOf_nonneg false),
    chromaLine_lineOf (g.tcOf_nonneg true)]
  unfold chromaVertRow
  by_cases hp : g.filterFlagP = 0 <;> by_cases hq : g.filterFlagQ = 0
  all_goals
    simp only [hp, hq, ne_eq, not_true_eq_false, not_false_eq_true, if_true, if_false]
    congr 1
    all_goals
      apply EdgeLine.ext_two <;>
        simp [lineOf, EdgeFlags.choose, ChromaArgs.flags, flagsOf, hp, hq, hstore,
          ChromaArgs.tcOf]

theorem chromaVertRow_outside (h : x ∉ lineCells 4 a 1) : chromaVertRow g src a x = src x := by
  have hne : ∀ i : Int, -4 ≤ i → i < 4 → x ≠ a + i * 1 :=
    fun i hlo hhi heq => h ⟨i, hlo, hhi, heq⟩
  unfold chromaVertRow
  simp only [apply_ite (fun m : Int → UInt8 => m x)]
  split_ifs <;>
    simp only [store_apply_of_ne (hne (-2) (by decide) (by decide)),
      store_apply_of_ne (hne (-1) (by decide) (by decide)),
      store_apply_of_ne (hne 0 (by decide) (by decide)),
      store_apply_of_ne (hne 1 (by decide) (by decide))]

-- ---------------------------------------------------------------------------
-- The columns of a horizontal edge
-- ---------------------------------------------------------------------------

theorem chromaHorzCol_line (g : ChromaArgs) (hstrd : srcStrd ≠ 0) (src : Int → UInt8) (a : Int)
    (col : Nat) :
    lineOf 2 (sampleAt (chromaHorzCol g srcStrd src a col) a srcStrd) =
      chromaLine (g.tcOf (decide (col % 2 ≠ 0))) g.flags (lineOf 2 (sampleAt src a srcStrd)) := by
  have hstore : ∀ (m : Int → UInt8) (i x j : Int),
      sampleAt (store m a srcStrd i (clipU8 x)) a srcStrd j =
        if j = i then clipU8 x else sampleAt m a srcStrd j :=
    fun m i x j => sampleAt_store hstrd (by rw [clipU8_eq]; exact clip1_bounds x) j
  have htc : g.tcOf (decide (col % 2 ≠ 0)) = if col % 2 ≠ 0 then g.tcV else g.tcU := by
    simp [ChromaArgs.tcOf]
  rw [chromaLine_lineOf (g.tcOf_nonneg _), htc]
  unfold chromaHorzCol
  generalize (if col % 2 ≠ 0 then g.tcV else g.tcU) = tc
  by_cases hp : g.filterFlagP = 0 <;> by_cases hq : g.filterFlagQ = 0
  all_goals
    apply EdgeLine.ext_two <;>
      simp [lineOf, EdgeFlags.choose, ChromaArgs.flags, flagsOf, hp, hq, hstore]

theorem chromaHorzCol_outside (h : x ∉ lineCells 2 a srcStrd) :
    chromaHorzCol g srcStrd src a col x = src x := by
  have hne : ∀ i : Int, -2 ≤ i → i < 2 → x ≠ a + i * srcStrd :=
    fun i hlo hhi heq => h ⟨i, hlo, hhi, heq⟩
  unfold chromaHorzCol
  simp only [apply_ite (fun m : Int → UInt8 => m x)]
  split_ifs <;>
    simp only [store_apply_of_ne (hne (-1) (by decide) (by decide)),
      store_apply_of_ne (hne 0 (by decide) (by decide))]

-- ---------------------------------------------------------------------------
-- The chroma edges
-- ---------------------------------------------------------------------------

/-- Where the first sample of a component lies. -/
def component (a : Int) (v : Bool) : Int := a + (if v then 1 else 0)

/-- The edge of a component, each line filtered. -/
def ChromaArgs.filter (g : ChromaArgs) (v : Bool) (block : Fin 4 → EdgeLine 2) (k : Fin 4) :
    EdgeLine 2 :=
  chromaLine (g.tcOf v) g.flags (block k)

theorem ChromaArgs.filter_eq (g : ChromaArgs) (hfmt : g.chromaFmtIdc = 1 ∨ g.chromaFmtIdc = 3)
    (v : Bool) : g.filter v = (g.edge v).filter := by
  funext block k
  rw [filter, g.tcOf_eq hfmt]
  rfl

theorem blockAt_inDepth (src : Int → UInt8) (a across along : Int) (k : Fin 4) :
    InDepth (blockAt n src a across along k) := lineOf_inDepth (sampleAt_samples _ _ _)

theorem ChromaArgs.filter_of_tc_zero (g : ChromaArgs) (h : g.tcU = 0 ∧ g.tcV = 0) (v : Bool)
    (hblock : ∀ k, InDepth (block k)) : g.filter v block = block := by
  have htc : g.tcOf v = 0 := by
    cases v with
    | false => exact h.1
    | true => exact h.2
  funext k
  rw [filter, htc, chromaLine_of_tc_zero _ (hblock k)]

/-- The loop over the rows filters both lines of each. -/
theorem chromaRows_confined (g : ChromaArgs) (a srcStrd : Int) :
    Memory.Confined (fun k : Nat => lineCells 4 (a + k * srcStrd) 1)
      (fun src k => rowLines src (a + k * srcStrd))
      (fun src row => chromaVertRow g src (a + row * srcStrd))
      (fun _ l => (chromaLine (g.tcOf false) g.flags l.1, chromaLine (g.tcOf true) g.flags l.2))
      where
  view_congr := fun h => rowLines_congr h
  step_view := fun src _ => chromaVertRow_lines g src _
  step_outside := fun _ _ _ hx => chromaVertRow_outside hx

theorem chromaVert_block (g : ChromaArgs) (hstrd : 8 ≤ srcStrd) (src : Int → UInt8) (a : Int)
    (v : Bool) :
    blockAt 2 (ihevcDeblkChromaVert g srcStrd src a) (component a v) 2 srcStrd =
      g.filter v (blockAt 2 src (component a v) 2 srcStrd) := by
  unfold ihevcDeblkChromaVert
  split_ifs with htc
  · rw [g.filter_of_tc_zero htc v (blockAt_inDepth src _ _ _)]
  · have hrow : ∀ (src : Int → UInt8) (k : Fin 4), blockAt 2 src (component a v) 2 srcStrd k =
        if v then (rowLines src (a + (k : Nat) * srcStrd)).2
        else (rowLines src (a + (k : Nat) * srcStrd)).1 := by
      intro src k
      cases v with
      | false => simp [blockAt, component, rowLines]
      | true => simp [blockAt, component, rowLines, add_right_comm]
    funext k
    have hloop := (chromaRows_confined g a srcStrd).foldl_view (List.range 4) src
      (apart_rows (by omega) 4 a) (List.mem_range.mpr k.isLt)
    rw [hrow, hloop, ChromaArgs.filter, hrow]
    cases v with
    | false => rfl
    | true => rfl

theorem chromaVert_outside (g : ChromaArgs) (src : Int → UInt8) (a : Int)
    (hx : ∀ k < 4, x ∉ lineCells 4 (a + (k : Nat) * srcStrd) 1) :
    ihevcDeblkChromaVert g srcStrd src a x = src x := by
  unfold ihevcDeblkChromaVert
  split_ifs
  · rfl
  · exact (chromaRows_confined g a srcStrd).foldl_outside _ src
      fun k hk => hx k (List.mem_range.mp hk)

/-- The loop over the columns filters a line in each turn. -/
theorem chromaColumns_confined (g : ChromaArgs) (hstrd : srcStrd ≠ 0) (a : Int) :
    Memory.Confined (fun col : Nat => lineCells 2 (a + col * 1) srcStrd)
      (fun src col => lineOf 2 (sampleAt src (a + col * 1) srcStrd))
      (fun src col => chromaHorzCol g srcStrd src (a + col) col)
      (fun col l => chromaLine (g.tcOf (decide (col % 2 ≠ 0))) g.flags l) where
  view_congr := fun h => lineOf_congr h
  step_view := by
    intro src col
    rw [mul_one]
    exact chromaHorzCol_line g hstrd src _ col
  step_outside := by
    intro src col x hx
    rw [mul_one] at hx
    exact chromaHorzCol_outside hx

theorem chromaHorz_block (g : ChromaArgs) (hstrd : 8 ≤ srcStrd) (src : Int → UInt8) (a : Int)
    (v : Bool) :
    blockAt 2 (ihevcDeblkChromaHorz g srcStrd src a) (component a v) srcStrd 2 =
      g.filter v (blockAt 2 src (component a v) srcStrd 2) := by
  unfold ihevcDeblkChromaHorz
  split_ifs with htc
  · rw [g.filter_of_tc_zero htc v (blockAt_inDepth src _ _ _)]
  · funext k
    obtain ⟨col, hcol, hparity, hlt⟩ : ∃ col : Nat,
        component a v + (k : Nat) * 2 = a + col * 1 ∧ decide (col % 2 ≠ 0) = v ∧ col < 8 := by
      cases v with
      | false => exact ⟨2 * k, by simp [component]; ring, by simp, by omega⟩
      | true => exact ⟨2 * k + 1, by simp [component]; ring, by simp, by omega⟩
    have hloop := (chromaColumns_confined g (show srcStrd ≠ 0 by omega) a).foldl_view
      (List.range 8) src (apart_columns (by omega) a) (List.mem_range.mpr hlt)
    rw [ChromaArgs.filter, blockAt, blockAt, hcol, hloop, hparity]

theorem chromaHorz_outside (g : ChromaArgs) (hstrd : srcStrd ≠ 0) (src : Int → UInt8) (a : Int)
    (hx : ∀ col < 8, x ∉ lineCells 2 (a + (col : Nat) * 1) srcStrd) :
    ihevcDeblkChromaHorz g srcStrd src a x = src x := by
  unfold ihevcDeblkChromaHorz
  split_ifs
  · rfl
  · exact (chromaColumns_confined g hstrd a).foldl_outside _ src
      fun col hcol => hx col (List.mem_range.mp hcol)

end Libhevc.Deblk
