import Libhevc.Common.DeblkChromaLaws

/-!
# Symmetry of the deblocking filters

Seen from the other side of the edge, all decisions are the same and the filters
exchange their samples. Only the rounding of `Δ` has a direction: a value halfway
between two integers is rounded up, and so is its negative.
-/

namespace Libhevc.Deblk

open Spec.Deblk (EdgeLine EdgeFlags LumaEdge ChromaEdge clip1 chromaLine)

/-- `Δ` is the opposite for the opposite difference, except halfway between two integers. -/
theorem round_neg {m : Int} (hm : m = 4 ∨ m = 8) (h : x % (2 * m) ≠ m) :
    (-x + m) / (2 * m) = -((x + m) / (2 * m)) := by
  rcases hm with rfl | rfl
  · omega
  · omega

theorem clip3_neg (htc : 0 ≤ tc) (x : Int) :
    Spec.Deblk.clip3 (-tc) tc (-x) = -Spec.Deblk.clip3 (-tc) tc x := by
  unfold Spec.Deblk.clip3
  split_ifs <;> omega

theorem choose_swap (flags : EdgeFlags) (old new : EdgeLine n) :
    flags.swap.choose old.swap new.swap = (flags.choose old new).swap := rfl

/-- What is seen from the other side of the edge. -/
def mirror (block : Fin 4 → EdgeLine n) : Fin 4 → EdgeLine n := fun k => (block k).swap

-- ---------------------------------------------------------------------------
-- Luma
-- ---------------------------------------------------------------------------

theorem filtered_mirror (beta : Int) (block : Fin 4 → EdgeLine 4) :
    Spec.Deblk.filtered beta (mirror block) ↔ Spec.Deblk.filtered beta block := by
  simp only [Spec.Deblk.filtered, mirror, EdgeLine.swap]
  omega

theorem dSam_swap (beta tc : Int) (h : d = d') (l : EdgeLine 4) :
    Spec.Deblk.dSam beta tc d l.swap ↔ Spec.Deblk.dSam beta tc d' l := by
  have hside : ((l.q 3 - l.q 0).natAbs : Int) + ((l.p 0 - l.p 3).natAbs : Int) =
      ((l.p 3 - l.p 0).natAbs : Int) + ((l.q 0 - l.q 3).natAbs : Int) := by omega
  have hedge : ((l.q 0 - l.p 0).natAbs : Int) = ((l.p 0 - l.q 0).natAbs : Int) := by omega
  simp only [Spec.Deblk.dSam, EdgeLine.swap, hside, hedge, h]

theorem strong_mirror (beta tc : Int) (block : Fin 4 → EdgeLine 4) :
    Spec.Deblk.strong beta tc (mirror block) ↔ Spec.Deblk.strong beta tc block := by
  unfold Spec.Deblk.strong
  exact and_congr (dSam_swap beta tc (congrArg (2 * ·) (add_comm ..)) (block 0))
    (dSam_swap beta tc (congrArg (2 * ·) (add_comm ..)) (block 3))

theorem normalLine_swap (htc : 0 ≤ tc) (dEp dEq : Bool) {l : EdgeLine 4}
    (hround : 0 < tc → Spec.Deblk.normalDiff l % 16 ≠ 8) :
    Spec.Deblk.normalLine tc dEq dEp l.swap = (Spec.Deblk.normalLine tc dEp dEq l).swap := by
  unfold Spec.Deblk.normalLine
  dsimp only
  rcases htc.eq_or_lt with rfl | hpos
  · rw [if_neg (by omega), if_neg (by omega)]
  · have hdiff : Spec.Deblk.normalDiff l.swap = -Spec.Deblk.normalDiff l := by
      unfold Spec.Deblk.normalDiff EdgeLine.swap
      ring
    have hdelta : (Spec.Deblk.normalDiff l.swap + 8) / 16 =
        -((Spec.Deblk.normalDiff l + 8) / 16) := by
      rw [hdiff]
      exact round_neg (.inr rfl) (hround hpos)
    rw [hdelta, Int.natAbs_neg, clip3_neg htc, neg_neg]
    split_ifs <;> rfl

theorem LumaEdge.beta_swap (e : LumaEdge) : e.swap.beta = e.beta := by
  simp only [LumaEdge.beta, LumaEdge.qpL, LumaEdge.swap, add_comm e.qpP]

theorem LumaEdge.tc_swap (e : LumaEdge) : e.swap.tc = e.tc := by
  simp only [LumaEdge.tc, LumaEdge.qpL, LumaEdge.swap, add_comm e.qpP]

theorem LumaEdge.filter_mirror {e : LumaEdge} (htc : 0 ≤ e.tc) {block : Fin 4 → EdgeLine 4}
    (htie : ¬ e.Tie block) : e.swap.filter (mirror block) = mirror (e.filter block) := by
  funext k
  change e.swap.filter (mirror block) k = (e.filter block k).swap
  rw [LumaEdge.filter, LumaEdge.filter]
  simp only [beta_swap, tc_swap, filtered_mirror, strong_mirror]
  by_cases hfil : Spec.Deblk.filtered e.beta block
  · rw [if_pos hfil, if_pos hfil]
    by_cases hst : Spec.Deblk.strong e.beta e.tc block
    · rw [if_pos hst, if_pos hst]
      rfl
    · have hround : 0 < e.tc → Spec.Deblk.normalDiff (block k) % 16 ≠ 8 :=
        fun hpos hmod => htie ⟨hpos, hfil, hst, k, hmod⟩
      have hline := normalLine_swap htc (Spec.Deblk.second e.beta (block 0).p (block 3).p)
        (Spec.Deblk.second e.beta (block 0).q (block 3).q) hround
      rw [if_neg hst, if_neg hst, ← choose_swap, ← hline]
      rfl
  · rw [if_neg hfil, if_neg hfil]
    rfl

-- ---------------------------------------------------------------------------
-- Chroma
-- ---------------------------------------------------------------------------

theorem chromaLine_swap (htc : 0 ≤ tc) (flags : EdgeFlags) {l : EdgeLine 2}
    (hround : 0 < tc → Spec.Deblk.chromaDiff l % 8 ≠ 4) :
    chromaLine tc flags.swap l.swap = (chromaLine tc flags l).swap := by
  have hdelta : Spec.Deblk.clip3 (-tc) tc ((Spec.Deblk.chromaDiff l.swap + 4) / 8) =
      -Spec.Deblk.clip3 (-tc) tc ((Spec.Deblk.chromaDiff l + 4) / 8) := by
    rcases htc.eq_or_lt with rfl | hpos
    · have hzero : ∀ x, Spec.Deblk.clip3 (-0) 0 x = 0 := by
        intro x
        have hbounds := clip3_bounds (x := x) (show (-0 : Int) ≤ 0 by decide)
        omega
      rw [hzero, hzero, neg_zero]
    · have hdiff : Spec.Deblk.chromaDiff l.swap = -Spec.Deblk.chromaDiff l := by
        unfold Spec.Deblk.chromaDiff EdgeLine.swap
        ring
      rw [hdiff, ← clip3_neg htc]
      congr 1
      exact round_neg (.inl rfl) (hround hpos)
  unfold chromaLine
  dsimp only
  rw [hdelta, neg_neg]
  rfl

/-- `Δ` of a line that may be modified lies halfway between two integers. -/
def ChromaArgs.Tie (g : ChromaArgs) (v : Bool) (block : Fin 4 → EdgeLine 2) : Prop :=
  0 < g.tcOf v ∧ ∃ k, Spec.Deblk.chromaDiff (block k) % 8 = 4

theorem ChromaArgs.filter_mirror (g : ChromaArgs) (v : Bool) {block : Fin 4 → EdgeLine 2}
    (htie : ¬ g.Tie v block) :
    (fun k => chromaLine (g.tcOf v) g.flags.swap (mirror block k)) =
      mirror (g.filter v block) := by
  funext k
  exact chromaLine_swap (g.tcOf_nonneg v) g.flags fun hpos hmod => htie ⟨hpos, k, hmod⟩

-- ---------------------------------------------------------------------------
-- The arguments for the other side
-- ---------------------------------------------------------------------------

def LumaArgs.swap (g : LumaArgs) : LumaArgs :=
  { g with
    quantParamP := g.quantParamQ
    quantParamQ := g.quantParamP
    filterFlagP := g.filterFlagQ
    filterFlagQ := g.filterFlagP }

def ChromaArgs.swap (g : ChromaArgs) : ChromaArgs :=
  { g with
    quantParamP := g.quantParamQ
    quantParamQ := g.quantParamP
    filterFlagP := g.filterFlagQ
    filterFlagQ := g.filterFlagP }

theorem ChromaArgs.tcOf_swap (g : ChromaArgs) (v : Bool) : g.swap.tcOf v = g.tcOf v := by
  have hindx : ∀ o, g.swap.tcIndx o = g.tcIndx o := by
    intro o
    have hqp : g.swap.qpIndx o = g.qpIndx o := by
      simp only [qpIndx, ChromaArgs.swap, add_comm g.quantParamQ]
    rw [tcIndx, hqp]
    rfl
  cases v with
  | false => exact congrArg (tableAt gai4IhevcTcTable) (hindx g.qpOffsetU)
  | true => exact congrArg (tableAt gai4IhevcTcTable) (hindx g.qpOffsetV)

theorem ChromaArgs.filter_swap (g : ChromaArgs) (v : Bool) (block : Fin 4 → EdgeLine 2) :
    g.swap.filter v block = fun k => chromaLine (g.tcOf v) g.flags.swap (block k) := by
  funext k
  rw [ChromaArgs.filter, g.tcOf_swap]
  rfl

-- ---------------------------------------------------------------------------
-- Both edges
-- ---------------------------------------------------------------------------

inductive EdgeType
  | vert
  | horz
  deriving DecidableEq, Repr

namespace EdgeType

def luma : EdgeType → LumaArgs → Int → (Int → UInt8) → Int → Int → UInt8
  | .vert => ihevcDeblkLumaVert
  | .horz => ihevcDeblkLumaHorz

def chroma : EdgeType → ChromaArgs → Int → (Int → UInt8) → Int → Int → UInt8
  | .vert => ihevcDeblkChromaVert
  | .horz => ihevcDeblkChromaHorz

/-- The lines of the edge at `a`. -/
def lumaBlock (t : EdgeType) (strd : Int) (src : Int → UInt8) (a : Int) : Fin 4 → EdgeLine 4 :=
  match t with
  | .vert => blockAt 4 src a 1 strd
  | .horz => blockAt 4 src a strd 1

/-- The lines of a component. -/
def chromaBlock (t : EdgeType) (strd : Int) (src : Int → UInt8) (a : Int) (v : Bool) :
    Fin 4 → EdgeLine 2 :=
  match t with
  | .vert => blockAt 2 src (component a v) 2 strd
  | .horz => blockAt 2 src (component a v) strd 2

/-- The cells of the block. -/
def lumaCells (t : EdgeType) (strd a : Int) : Set Int :=
  match t with
  | .vert => {x | ∃ k : Nat, k < 4 ∧ x ∈ lineCells 4 (a + k * strd) 1}
  | .horz => {x | ∃ k : Nat, k < 4 ∧ x ∈ lineCells 4 (a + k * 1) strd}

def chromaCells (t : EdgeType) (strd a : Int) : Set Int :=
  match t with
  | .vert => {x | ∃ k : Nat, k < 4 ∧ x ∈ lineCells 4 (a + k * strd) 1}
  | .horz => {x | ∃ k : Nat, k < 8 ∧ x ∈ lineCells 2 (a + k * 1) strd}

variable (t : EdgeType)

theorem luma_block (g : LumaArgs) (hbs : g.bs = 1 ∨ g.bs = 2) (hstrd : 8 ≤ strd)
    (src : Int → UInt8) (a : Int) :
    t.lumaBlock strd (t.luma g strd src a) a = g.edge.filter (t.lumaBlock strd src a) := by
  cases t with
  | vert => exact deblkLuma_block g hbs (by decide) (apart_rows (by omega) 4) src a
  | horz => exact deblkLuma_block g hbs (by omega) (apart_columns (by omega)) src a

theorem luma_outside (g : LumaArgs) (hstrd : 8 ≤ strd) (src : Int → UInt8)
    (hx : x ∉ t.lumaCells strd a) : t.luma g strd src a x = src x := by
  cases t with
  | vert => exact deblkLuma_outside g (by decide) src a fun k hk hmem => hx ⟨k, hk, hmem⟩
  | horz => exact deblkLuma_outside g (by omega) src a fun k hk hmem => hx ⟨k, hk, hmem⟩

theorem chroma_block (g : ChromaArgs) (hstrd : 8 ≤ strd) (src : Int → UInt8) (a : Int)
    (v : Bool) : t.chromaBlock strd (t.chroma g strd src a) a v =
      g.filter v (t.chromaBlock strd src a v) := by
  cases t with
  | vert => exact chromaVert_block g hstrd src a v
  | horz => exact chromaHorz_block g hstrd src a v

theorem chroma_outside (g : ChromaArgs) (hstrd : 8 ≤ strd) (src : Int → UInt8)
    (hx : x ∉ t.chromaCells strd a) : t.chroma g strd src a x = src x := by
  cases t with
  | vert => exact chromaVert_outside g src a fun k hk hmem => hx ⟨k, hk, hmem⟩
  | horz => exact chromaHorz_outside g (by omega) src a fun k hk hmem => hx ⟨k, hk, hmem⟩

end EdgeType

/-- The functions filter an edge as the section does and change nothing else. The direction of
the edge makes no difference, the side from which it is seen only where a `Δ` is rounded that
lies halfway between two integers. -/
theorem ihevcDeblk_edges (g : LumaArgs) (hbs : g.bs = 1 ∨ g.bs = 2) (c : ChromaArgs)
    (t : EdgeType) {strd : Int} (hstrd : 8 ≤ strd) (src : Int → UInt8) (a : Int) :
    ((0 ≤ g.betaIndx ∧ g.betaIndx < gai4IhevcBetaTable.length) ∧
      (0 ≤ g.tcIndx ∧ g.tcIndx < gai4IhevcTcTable.length) ∧
      ∀ o, 0 ≤ c.tcIndx o ∧ c.tcIndx o < gai4IhevcTcTable.length) ∧
    t.lumaBlock strd (t.luma g strd src a) a = g.edge.filter (t.lumaBlock strd src a) ∧
    (∀ x ∉ t.lumaCells strd a, t.luma g strd src a x = src x) ∧
    (c.chromaFmtIdc = 1 ∨ c.chromaFmtIdc = 3 → ∀ v,
      t.chromaBlock strd (t.chroma c strd src a) a v =
        (c.edge v).filter (t.chromaBlock strd src a v)) ∧
    (∀ x ∉ t.chromaCells strd a, t.chroma c strd src a x = src x) ∧
    ∀ (t' : EdgeType) (strd' : Int) (src' : Int → UInt8) (a' : Int), 8 ≤ strd' →
      (t'.lumaBlock strd' src' a' = t.lumaBlock strd src a →
        t'.lumaBlock strd' (t'.luma g strd' src' a') a' =
          t.lumaBlock strd (t.luma g strd src a) a) ∧
      (∀ v, t'.chromaBlock strd' src' a' v = t.chromaBlock strd src a v →
        t'.chromaBlock strd' (t'.chroma c strd' src' a') a' v =
          t.chromaBlock strd (t.chroma c strd src a) a v) ∧
      (t'.lumaBlock strd' src' a' = mirror (t.lumaBlock strd src a) →
        ¬ g.edge.Tie (t.lumaBlock strd src a) →
        t'.lumaBlock strd' (t'.luma g.swap strd' src' a') a' =
          mirror (t.lumaBlock strd (t.luma g strd src a) a)) ∧
      ∀ v, t'.chromaBlock strd' src' a' v = mirror (t.chromaBlock strd src a v) →
        ¬ c.Tie v (t.chromaBlock strd src a v) →
        t'.chromaBlock strd' (t'.chroma c.swap strd' src' a') a' v =
          mirror (t.chromaBlock strd (t.chroma c strd src a) a v) := by
  have htc : 0 ≤ g.edge.tc := by
    rw [← g.tc_eq hbs]
    exact tcTable_nonneg _
  have hbeta := g.betaIndx_bounds
  have htcIndx := g.tcIndx_bounds
  refine ⟨⟨⟨hbeta.1, Int.lt_add_one_of_le hbeta.2⟩, ⟨htcIndx.1, Int.lt_add_one_of_le htcIndx.2⟩,
    fun o => ⟨(c.tcIndx_bounds o).1, Int.lt_add_one_of_le (c.tcIndx_bounds o).2⟩⟩,
    t.luma_block g hbs hstrd src a, fun x hx => t.luma_outside g hstrd src hx, ?_,
    fun x hx => t.chroma_outside c hstrd src hx, ?_⟩
  · intro hfmt v
    rw [t.chroma_block c hstrd, c.filter_eq hfmt]
  · intro t' strd' src' a' hstrd'
    refine ⟨?_, ?_, ?_, ?_⟩
    · intro hsame
      rw [t'.luma_block g hbs hstrd', t.luma_block g hbs hstrd, hsame]
    · intro v hsame
      rw [t'.chroma_block c hstrd', t.chroma_block c hstrd, hsame]
    · intro hmirror htie
      have hedge : g.swap.edge = g.edge.swap := rfl
      rw [t'.luma_block g.swap hbs hstrd', t.luma_block g hbs hstrd, hmirror, hedge,
        LumaEdge.filter_mirror htc htie]
    · intro v hmirror htie
      rw [t'.chroma_block c.swap hstrd', t.chroma_block c hstrd, hmirror, c.filter_swap,
        c.filter_mirror v htie]

/-- Rows of eight samples, all of them alike. -/
def rows (samples : List UInt8) (x : Int) : UInt8 := samples.getD (x % 8).toNat 0

def someArgs : LumaArgs where
  bs := 2
  quantParamP := 37
  quantParamQ := 40
  betaOffsetDiv2 := 1
  tcOffsetDiv2 := -1
  filterFlagP := 1
  filterFlagQ := 0

def someChromaArgs : ChromaArgs where
  quantParamP := 37
  quantParamQ := 40
  qpOffsetU := 2
  qpOffsetV := -3
  tcOffsetDiv2 := 0
  filterFlagP := 1
  filterFlagQ := 1
  chromaFmtIdc := 1

theorem ihevcDeblk_edges_rows :
    EdgeType.vert.lumaBlock 8
        (ihevcDeblkLumaVert someArgs 8 (rows [100, 101, 103, 104, 109, 111, 112, 112]) 4) 4 =
      someArgs.edge.filter
        (EdgeType.vert.lumaBlock 8 (rows [100, 101, 103, 104, 109, 111, 112, 112]) 4) ∧
    ∀ v, EdgeType.horz.chromaBlock 8 (ihevcDeblkChromaHorz someChromaArgs 8 (rows [7, 9]) 16) 16 v =
      (someChromaArgs.edge v).filter (EdgeType.horz.chromaBlock 8 (rows [7, 9]) 16 v) :=
  ⟨(ihevcDeblk_edges someArgs (.inr rfl) someChromaArgs .vert (by decide)
      (rows [100, 101, 103, 104, 109, 111, 112, 112]) 4).2.1,
    (ihevcDeblk_edges someArgs (.inr rfl) someChromaArgs .horz (by decide) (rows [7, 9])
      16).2.2.2.1 (.inl rfl)⟩

def tieArgs : LumaArgs where
  bs := 1
  quantParamP := 40
  quantParamQ := 40
  betaOffsetDiv2 := 0
  tcOffsetDiv2 := 0
  filterFlagP := 1
  filterFlagQ := 1

/-- `9 * 3 - 3 * 1` is 24: `Δ` is 2 from the one side and -1 from the other. -/
theorem deblk_mirror_counterexample :
    EdgeType.vert.lumaBlock 8 (rows [150, 99, 101, 103, 100, 100, 100, 100]) 4 =
        mirror (EdgeType.vert.lumaBlock 8 (rows [100, 100, 100, 100, 103, 101, 99, 150]) 4) ∧
      EdgeType.vert.lumaBlock 8 (ihevcDeblkLumaVert tieArgs.swap 8
          (rows [150, 99, 101, 103, 100, 100, 100, 100]) 4) 4 ≠
        mirror (EdgeType.vert.lumaBlock 8 (ihevcDeblkLumaVert tieArgs 8
          (rows [100, 100, 100, 100, 103, 101, 99, 150]) 4) 4) := by
  refine ⟨?_, ?_⟩
  · funext k
    apply EdgeLine.ext
    · funext i
      revert k i
      decide
    · funext i
      revert k i
      decide
  · intro hmirror
    have hq := congrArg (fun block : Fin 4 → EdgeLine 4 => (block 0).q 0) hmirror
    revert hq
    decide +kernel

end Libhevc.Deblk
