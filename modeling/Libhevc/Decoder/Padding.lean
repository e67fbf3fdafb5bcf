import Mathlib.Data.List.Basic
import Mathlib.Tactic.Linarith
import Mathlib.Tactic.NormNum
import Mathlib.Tactic.Ring

/-!
# Padding of a decoded picture

The calls of the padding functions at the end of `ihevcd_process`, between the
filters of the coding tree blocks. A plane gives the sample in a row and a column,
for chroma the pair of samples there, so its rows do not overlap; addresses and
sizes are in units of such samples, the same for all bit depths. What the filters
compute does not matter here, only which samples they may change.
-/

namespace Libhevc.Padding

abbrev Plane (α : Type) := Int → Int → α

-- ---------------------------------------------------------------------------
-- `ihevc_padding.c`
-- ---------------------------------------------------------------------------

/-- Of the rows of `pu1_src`, at `row` and `col`, the samples in front are set to the first. -/
def ihevcPadLeft (p : Plane α) (row col ht padSize : Int) : Plane α := fun r c =>
  if row ≤ r ∧ r < row + ht ∧ col - padSize ≤ c ∧ c < col then p r col else p r c

/-- The samples from `pu1_src` on are set to the one in front of it. -/
def ihevcPadRight (p : Plane α) (row col ht padSize : Int) : Plane α := fun r c =>
  if row ≤ r ∧ r < row + ht ∧ col ≤ c ∧ c < col + padSize then p r (col - 1) else p r c

/-- The row of `pu1_src` is copied to the rows above. -/
def ihevcPadTop (p : Plane α) (row col wd padSize : Int) : Plane α := fun r c =>
  if row - padSize ≤ r ∧ r < row ∧ col ≤ c ∧ c < col + wd then p row c else p r c

/-- The row above `pu1_src` is copied to the rows from there on. -/
def ihevcPadBottom (p : Plane α) (row col wd padSize : Int) : Plane α := fun r c =>
  if row ≤ r ∧ r < row + padSize ∧ col ≤ c ∧ c < col + wd then p (row - 1) c else p r c

-- ---------------------------------------------------------------------------
-- Pictures
-- ---------------------------------------------------------------------------

/-- `PAD_LEFT`, `PAD_RIGHT`, `PAD_TOP` and `PAD_BOT` -/
def padSize : Int := 80

def chromaFmtIdcMonochrome : Nat := 0
def chromaFmtIdcYuv420 : Nat := 1
def chromaFmtIdcYuv422 : Nat := 2
def chromaFmtIdcYuv444 : Nat := 3

structure Sps where
  i1ChromaFormatIdc : Nat
  i1Log2CtbSize : Nat
  i2PicWidthInLumaSamples : Int
  i2PicHeightInLumaSamples : Int
  fmt_le : i1ChromaFormatIdc ≤ 3
  log2_mem : i1Log2CtbSize = 4 ∨ i1Log2CtbSize = 5 ∨ i1Log2CtbSize = 6
  width_pos : 0 < i2PicWidthInLumaSamples
  width_mul : i2PicWidthInLumaSamples % 8 = 0
  height_pos : 0 < i2PicHeightInLumaSamples
  height_mul : i2PicHeightInLumaSamples % 8 = 0

/-- The sizes of a component in its own samples. -/
structure Component where
  isChroma : Bool
  wd : Int
  ht : Int
  ctbWd : Int
  ctbHt : Int
  padWd : Int
  padHt : Int
  /-- The rows by which the left and the right border are padded later. -/
  lag : Int

namespace Sps

variable (s : Sps)

def ctbSize : Int := 2 ^ s.i1Log2CtbSize

def i2PicWdInCtb : Int := (s.i2PicWidthInLumaSamples + s.ctbSize - 1) / s.ctbSize

def i2PicHtInCtb : Int := (s.i2PicHeightInLumaSamples + s.ctbSize - 1) / s.ctbSize

def hSampFactor : Int := if s.i1ChromaFormatIdc = chromaFmtIdcYuv444 then 1 else 2

def vSampFactor : Int := if s.i1ChromaFormatIdc = chromaFmtIdcYuv420 then 2 else 1

def luma : Component where
  isChroma := false
  wd := s.i2PicWidthInLumaSamples
  ht := s.i2PicHeightInLumaSamples
  ctbWd := s.ctbSize
  ctbHt := s.ctbSize
  padWd := padSize
  padHt := padSize
  lag := 8

def chroma : Component where
  isChroma := true
  wd := s.i2PicWidthInLumaSamples / s.hSampFactor
  ht := s.i2PicHeightInLumaSamples / s.vSampFactor
  ctbWd := s.ctbSize / s.hSampFactor
  ctbHt := s.ctbSize / s.vSampFactor
  padWd := padSize / s.hSampFactor
  padHt := padSize / s.vSampFactor
  lag := 8 * s.vSampFactor

end Sps

/-- `i4_ctb_x` and `i4_ctb_y` -/
structure Ctb where
  x : Nat
  y : Nat
  deriving DecidableEq, Repr

-- ---------------------------------------------------------------------------
-- Filters
-- ---------------------------------------------------------------------------

namespace Component

variable (k : Component)

/-- What `ihevcd_deblk_ctb` may change: the edges of a coding tree block and what it left out of
the blocks above and to the left. -/
def DeblkMayChange (c : Ctb) (row col : Int) : Prop :=
  0 ≤ row ∧ row < k.ht ∧ 0 ≤ col ∧ col < k.wd ∧
    c.y * k.ctbHt - 4 ≤ row ∧ row < (c.y + 1) * k.ctbHt ∧
    c.x * k.ctbWd - 4 ≤ col ∧ col < (c.x + 1) * k.ctbWd

/-- `sao_wd` or `sao_ht` of the current block, `SAO_SHIFT_CTB` less than its size except at the
end of the picture. -/
def saoSize (ctb size n : Int) : Int :=
  let remaining := size - (n * ctb + (ctb - 8))
  if remaining ≤ 8 then ctb - 8 + remaining else ctb - 8

/-- The rows or columns of the current block and of the one before it. -/
def SaoSpan (ctb size n i : Int) : Prop :=
  (n * ctb ≤ i ∧ i < n * ctb + saoSize ctb size n) ∨ (0 < n ∧ n * ctb - 8 ≤ i ∧ i < n * ctb)

/-- The four blocks of `ihevcd_sao_shift_ctb`. -/
def SaoMayChange (c : Ctb) (row col : Int) : Prop :=
  SaoSpan k.ctbHt k.ht c.y row ∧ SaoSpan k.ctbWd k.wd c.x col

/-- The filters of the blocks of a component. -/
structure Filters (α : Type) where
  deblk : Ctb → Plane α → Plane α
  sao : Ctb → Plane α → Plane α
  deblk_outside : ∀ c p row col, ¬ k.DeblkMayChange c row col → deblk c p row col = p row col
  sao_outside : ∀ c p row col, ¬ k.SaoMayChange c row col → sao c p row col = p row col

end Component

-- ---------------------------------------------------------------------------
-- The last pass
-- ---------------------------------------------------------------------------

section

variable (s : Sps) (k : Component)

/-- The padding after a coding tree block, for one component. -/
def padCtb (p : Plane α) (c : Ctb) : Plane α :=
  let lastRow := s.i2PicHtInCtb - 1 = c.y
  let row := c.y * k.ctbHt - k.lag
  let p := if 0 = c.x then
      let padHt := if k.isChroma then k.ctbHt else k.ctbHt + (if lastRow then k.lag else 0)
      ihevcPadLeft p row 0 padHt k.padWd
    else p
  if s.i2PicWdInCtb - 1 = c.x then
    let colsRemaining := k.wd - c.x * k.ctbWd
    let padHt := k.ctbHt + (if lastRow then k.lag else 0)
    let p := if lastRow ∧ k.isChroma then ihevcPadLeft p (k.ht - k.lag) 0 k.lag k.padWd else p
    let p := ihevcPadRight p row (c.x * k.ctbWd + colsRemaining) padHt k.padWd
    if lastRow then
      let p := ihevcPadTop p 0 (-k.padWd) (k.wd + 2 * k.padWd) k.padHt
      ihevcPadBottom p k.ht (-k.padWd) (k.wd + 2 * k.padWd) k.padHt
    else p
  else p

/-- A pass over a coding tree block that changes samples. -/
inductive Event
  | deblk (c : Ctb)
  | last (c : Ctb)

def Event.ctb : Event → Ctb
  | .deblk c => c
  | .last c => c

def step (f : k.Filters α) (p : Plane α) : Event → Plane α
  | .deblk c => f.deblk c p
  | .last c => padCtb s k (f.sao c p) c

/-- Calls of `ihevcd_process`, each with the blocks it is called for. -/
def trace (jobs : List (List Ctb)) : List Event :=
  jobs.flatMap fun job => job.map .deblk ++ job.map .last

/-- A component after all passes over the picture. -/
def picture (f : k.Filters α) (jobs : List (List Ctb)) (p : Plane α) : Plane α :=
  (trace jobs).foldl (step s k f) p

end

end Libhevc.Padding

/-!
## When the padding is complete

The border of a row is right from the time on at which it is padded for the last
time, if the filters have left the samples at its ends for good by then. At the
right end they always have. At the left end they have not where the filters of
the first block lag behind by its whole width.
-/

namespace Libhevc.Padding

-- ---------------------------------------------------------------------------
-- The padding functions
-- ---------------------------------------------------------------------------

theorem padLeft_of_nonneg (hc : 0 ≤ c) : ihevcPadLeft p row 0 ht n r c = p r c :=
  if_neg (by omega)

theorem padRight_of_lt (hc : c < col) : ihevcPadRight p row col ht n r c = p r c :=
  if_neg (by omega)

theorem padTop_of_le (hr : row ≤ r) : ihevcPadTop p row col wd n r c = p r c := if_neg (by omega)

theorem padBottom_of_lt (hr : r < row) : ihevcPadBottom p row col wd n r c = p r c :=
  if_neg (by omega)

/-- The sizes of a component fit those of the picture in coding tree blocks. -/
structure Component.Fits (k : Component) (s : Sps) : Prop where
  ctbWd : k.ctbWd = 8 ∨ k.ctbWd = 16 ∨ k.ctbWd = 32 ∨ k.ctbWd = 64
  ctbHt : k.ctbHt = 8 ∨ k.ctbHt = 16 ∨ k.ctbHt = 32 ∨ k.ctbHt = 64
  wd_gt : (s.i2PicWdInCtb - 1) * k.ctbWd < k.wd
  wd_le : k.wd ≤ s.i2PicWdInCtb * k.ctbWd
  ht_gt : (s.i2PicHtInCtb - 1) * k.ctbHt < k.ht
  ht_le : k.ht ≤ s.i2PicHtInCtb * k.ctbHt
  wd_pos : 0 < k.wd
  ht_pos : 0 < k.ht
  padWd : 0 ≤ k.padWd
  padHt : 0 ≤ k.padHt
  lag : 8 ≤ k.lag

section

variable {s : Sps} {k : Component} {c : Ctb} {p : Plane α} {r col : Int}

/-- The rows whose left border is padded after a block. -/
def LeftPads (s : Sps) (k : Component) (c : Ctb) (r : Int) : Prop :=
  (0 = c.x ∧ c.y * k.ctbHt - k.lag ≤ r ∧ r < c.y * k.ctbHt - k.lag + k.ctbHt +
      (if s.i2PicHtInCtb - 1 = c.y ∧ k.isChroma = false then k.lag else 0)) ∨
    (s.i2PicWdInCtb - 1 = c.x ∧ s.i2PicHtInCtb - 1 = c.y ∧ k.isChroma = true ∧ k.ht - k.lag ≤ r)

/-- The rows whose right border is padded. -/
def RightPads (s : Sps) (k : Component) (c : Ctb) (r : Int) : Prop :=
  s.i2PicWdInCtb - 1 = c.x ∧ c.y * k.ctbHt - k.lag ≤ r ∧ r < c.y * k.ctbHt - k.lag + k.ctbHt +
    (if s.i2PicHtInCtb - 1 = c.y then k.lag else 0)

theorem padCtb_inside (hr : 0 ≤ r ∧ r < k.ht) (hcol : 0 ≤ col ∧ col < k.wd) :
    padCtb s k p c r col = p r col := by
  unfold padCtb
  dsimp only
  rw [add_sub_cancel]
  split_ifs <;>
    simp only [padBottom_of_lt hr.2, padTop_of_le hr.1, padRight_of_lt hcol.2,
      padLeft_of_nonneg hcol.1]

theorem padLeft_border (hcol : -n ≤ col ∧ col < 0) :
    ihevcPadLeft p row 0 ht n r col = if row ≤ r ∧ r < row + ht then p r 0 else p r col := by
  unfold ihevcPadLeft
  exact if_congr (by omega) rfl rfl

theorem padRight_border (hcol : wd ≤ col ∧ col < wd + n) :
    ihevcPadRight p row wd ht n r col =
      if row ≤ r ∧ r < row + ht then p r (wd - 1) else p r col := by
  unfold ihevcPadRight
  exact if_congr (by omega) rfl rfl

theorem padCtb_left (hr : 0 ≤ r ∧ r < k.ht) (hwd : 0 < k.wd) (hcol : -k.padWd ≤ col ∧ col < 0) :
    (LeftPads s k c r → padCtb s k p c r col = p r 0) ∧
      (¬ LeftPads s k c r → padCtb s k p c r col = p r col) := by
  have hlt : col < k.wd := by omega
  have hextra : r < k.ht - k.lag + k.lag := by omega
  unfold padCtb LeftPads
  dsimp only
  rw [add_sub_cancel]
  by_cases hx : 0 = c.x <;> by_cases hl : s.i2PicWdInCtb - 1 = c.x <;>
    by_cases hy : s.i2PicHtInCtb - 1 = c.y <;> cases hchroma : k.isChroma
  all_goals
    simp only [hx, hl, hy, if_true, if_false, true_and, and_true, false_and, and_false, false_or,
      or_false, reduceCtorEq, padBottom_of_lt hr.2, padTop_of_le hr.1, padRight_of_lt hlt,
      padLeft_border hcol, padLeft_of_nonneg le_rfl, hextra]
    refine ⟨fun h => ?_, fun h => ?_⟩ <;> (try split_ifs) <;>
      first | rfl | trivial | exact h.elim | omega

theorem padCtb_right (hr : 0 ≤ r ∧ r < k.ht) (hwd : 0 < k.wd)
    (hcol : k.wd ≤ col ∧ col < k.wd + k.padWd) :
    (RightPads s k c r → padCtb s k p c r col = p r (k.wd - 1)) ∧
      (¬ RightPads s k c r → padCtb s k p c r col = p r col) := by
  have hnonneg : 0 ≤ col := by omega
  have hlast : 0 ≤ k.wd - 1 := by omega
  unfold padCtb RightPads
  dsimp only
  rw [add_sub_cancel]
  by_cases hx : 0 = c.x <;> by_cases hl : s.i2PicWdInCtb - 1 = c.x <;>
    by_cases hy : s.i2PicHtInCtb - 1 = c.y <;> cases hchroma : k.isChroma
  all_goals
    simp only [hx, hl, hy, if_true, if_false, true_and, and_true, false_and, and_false,
      reduceCtorEq, padBottom_of_lt hr.2, padTop_of_le hr.1, padRight_border hcol,
      padLeft_of_nonneg hnonneg, padLeft_of_nonneg hlast]
    refine ⟨fun h => ?_, fun h => ?_⟩ <;> (try split_ifs) <;>
      first | rfl | trivial | exact h.elim | omega

/-- The rows above and below the picture, after the last block. -/
theorem padCtb_rows (hx : s.i2PicWdInCtb - 1 = c.x) (hy : s.i2PicHtInCtb - 1 = c.y)
    (hht : 0 < k.ht) (hcol : -k.padWd ≤ col ∧ col < k.wd + k.padWd) :
    (-k.padHt ≤ r ∧ r < 0 → padCtb s k p c r col = padCtb s k p c 0 col) ∧
      (k.ht ≤ r ∧ r < k.ht + k.padHt → padCtb s k p c r col = padCtb s k p c (k.ht - 1) col) := by
  unfold padCtb
  dsimp only
  rw [if_pos hx, if_pos hy]
  generalize ihevcPadRight _ _ _ _ _ = q
  have hrow : ∀ r, 0 ≤ r ∧ r < k.ht →
      ihevcPadBottom (ihevcPadTop q 0 (-k.padWd) (k.wd + 2 * k.padWd) k.padHt) k.ht (-k.padWd)
        (k.wd + 2 * k.padWd) k.padHt r col = q r col := by
    intro r hr
    rw [padBottom_of_lt hr.2, padTop_of_le hr.1]
  constructor
  · intro hr
    rw [hrow 0 ⟨le_rfl, hht⟩, padBottom_of_lt (by omega), ihevcPadTop, if_pos (by omega)]
  · intro hr
    rw [hrow (k.ht - 1) ⟨by omega, by omega⟩, ihevcPadBottom, if_pos (by omega),
      padTop_of_le (by omega)]

end

-- ---------------------------------------------------------------------------
-- The order of the passes
-- ---------------------------------------------------------------------------

/-- All coding tree blocks, each after those above it and to its left. -/
structure DecodingOrder (s : Sps) (order : List Ctb) : Prop where
  mem : ∀ c, c ∈ order ↔ (c.x : Int) < s.i2PicWdInCtb ∧ (c.y : Int) < s.i2PicHtInCtb
  mono : order.Pairwise fun a b => ¬ (b.x ≤ a.x ∧ b.y ≤ a.y)

theorem ctb_mem_of_mem_trace (h : e ∈ trace jobs) : e.ctb ∈ jobs.flatten := by
  obtain ⟨job, hjob, he⟩ := List.mem_flatMap.mp h
  apply List.mem_flatten.mpr
  refine ⟨job, hjob, ?_⟩
  rcases List.mem_append.mp he with he | he
  · obtain ⟨c, hc, rfl⟩ := List.mem_map.mp he
    exact hc
  · obtain ⟨c, hc, rfl⟩ := List.mem_map.mp he
    exact hc

theorem last_mem_trace (h : c ∈ jobs.flatten) : Event.last c ∈ trace jobs := by
  obtain ⟨job, hjob, hc⟩ := List.mem_flatten.mp h
  exact List.mem_flatMap.mpr
    ⟨job, hjob, List.mem_append_right _ (List.mem_map_of_mem hc)⟩

/-- What comes after the last pass over a block is about later blocks. -/
theorem trace_pairwise {R : Ctb → Ctb → Prop} {jobs : List (List Ctb)}
    (h : jobs.flatten.Pairwise R) :
    (trace jobs).Pairwise fun e e' => ∀ a, e = .last a → R a e'.ctb := by
  induction jobs with
  | nil => exact List.Pairwise.nil
  | cons job jobs ih =>
    rw [List.flatten_cons, List.pairwise_append] at h
    obtain ⟨hjob, hjobs, hcross⟩ := h
    have hdeblk : ∀ e ∈ job.map Event.deblk, ∀ a, e ≠ .last a := by
      rintro e he a rfl
      obtain ⟨c, -, heq⟩ := List.mem_map.mp he
      cases heq
    change ((job.map Event.deblk ++ job.map Event.last) ++ trace jobs).Pairwise _
    rw [List.pairwise_append, List.pairwise_append]
    refine ⟨⟨?_, ?_, ?_⟩, ih hjobs, ?_⟩
    · exact List.pairwise_map.mpr (List.pairwise_of_forall fun _ _ _ heq => nomatch heq)
    · apply List.pairwise_map.mpr
      apply hjob.imp
      rintro a b hab _ ⟨⟩
      exact hab
    · intro e he _ _ a heq
      exact absurd heq (hdeblk e he a)
    · rintro e he e' he' a rfl
      rcases List.mem_append.mp he with he | he
      · exact absurd rfl (hdeblk _ he a)
      · obtain ⟨c, hc, heq⟩ := List.mem_map.mp he
        cases heq
        exact hcross a hc _ (ctb_mem_of_mem_trace he')

theorem trace_split {R : Ctb → Ctb → Prop} {jobs : List (List Ctb)}
    (h : jobs.flatten.Pairwise R) (hc : c ∈ jobs.flatten) :
    ∃ before after, trace jobs = before ++ .last c :: after ∧ (∀ e ∈ after, R c e.ctb) ∧
      ∀ a, .last a ∈ before → R a c := by
  obtain ⟨before, after, heq⟩ := List.append_of_mem (last_mem_trace hc)
  have hpair := trace_pairwise h
  rw [heq, List.pairwise_append] at hpair
  obtain ⟨-, htail, hcross⟩ := hpair
  refine ⟨before, after, heq, ?_, ?_⟩
  · exact fun e he => (List.pairwise_cons.mp htail).1 e he c rfl
  · exact fun a ha => hcross _ ha _ (List.mem_cons_self ..) a rfl

-- ---------------------------------------------------------------------------
-- A side of the picture
-- ---------------------------------------------------------------------------

/-- The left or the right border: the columns it consists of, the one it repeats, and the rows
padded after a block. -/
structure Side (s : Sps) (k : Component) where
  anchor : Int
  border : Int → Prop
  pads : Ctb → Int → Prop
  anchor_mem : 0 ≤ anchor ∧ anchor < k.wd
  border_outside : ∀ col, border col → ¬ (0 ≤ col ∧ col < k.wd)
  padCtb_border : ∀ {α : Type} (p : Plane α) (c : Ctb) (r col : Int), 0 ≤ r ∧ r < k.ht →
    border col → (pads c r → padCtb s k p c r col = p r anchor) ∧
      (¬ pads c r → padCtb s k p c r col = p r col)

def leftSide (s : Sps) (k : Component) (hwd : 0 < k.wd) : Side s k where
  anchor := 0
  border col := -k.padWd ≤ col ∧ col < 0
  pads := LeftPads s k
  anchor_mem := ⟨le_rfl, hwd⟩
  border_outside := fun _ h h' => by omega
  padCtb_border := fun _ _ _ _ hr hcol => padCtb_left hr hwd hcol

def rightSide (s : Sps) (k : Component) (hwd : 0 < k.wd) : Side s k where
  anchor := k.wd - 1
  border col := k.wd ≤ col ∧ col < k.wd + k.padWd
  pads := RightPads s k
  anchor_mem := ⟨by omega, by omega⟩
  border_outside := fun _ h h' => by omega
  padCtb_border := fun _ _ _ _ hr hcol => padCtb_right hr hwd hcol

section

variable {s : Sps} {k : Component} {f : k.Filters α} {p : Plane α} {r : Int}

/-- The filters of a block do not change a sample. -/
def Component.Leaves (k : Component) (c : Ctb) (r col : Int) : Prop :=
  ¬ k.DeblkMayChange c r col ∧ ¬ k.SaoMayChange c r col

theorem saoSpan_bounds {ctb size i : Int} (hctb : ctb = 8 ∨ ctb = 16 ∨ ctb = 32 ∨ ctb = 64)
    {n : Nat} (hn : n * ctb < size) (h : Component.SaoSpan ctb size n i) : 0 ≤ i ∧ i < size := by
  unfold Component.SaoSpan Component.saoSize at h
  dsimp only at h
  rcases hctb with rfl | rfl | rfl | rfl <;> split_ifs at h <;> omega

/-- The sample at a border is none that a filter changes. -/
theorem leaves_outside (hk : k.Fits s) (hc : (c.x : Int) < s.i2PicWdInCtb) {col : Int}
    (hcol : ¬ (0 ≤ col ∧ col < k.wd)) : k.Leaves c r col := by
  constructor
  · rintro ⟨-, -, hlo, hhi, -⟩
    exact hcol ⟨hlo, hhi⟩
  · rintro ⟨-, hspan⟩
    have hle : (c.x : Int) * k.ctbWd < k.wd := by
      have hgt := hk.wd_gt
      rcases hk.ctbWd with h | h | h | h <;> rw [h] at hgt ⊢ <;> omega
    exact hcol (saoSpan_bounds hk.ctbWd hle hspan)

theorem step_inside (hr : 0 ≤ r ∧ r < k.ht) (hcol : 0 ≤ col ∧ col < k.wd)
    (h : k.Leaves e.ctb r col) : step s k f p e r col = p r col := by
  cases e with
  | deblk c => exact f.deblk_outside c p r col h.1
  | last c => exact (padCtb_inside hr hcol).trans (f.sao_outside c p r col h.2)

/-- The border of a row repeats the sample at its end. -/
def Side.Ok (σ : Side s k) (p : Plane α) (r : Int) : Prop :=
  ∀ col, σ.border col → p r col = p r σ.anchor

theorem Side.ok_of_pads (σ : Side s k) (hr : 0 ≤ r ∧ r < k.ht) (h : σ.pads c r) :
    σ.Ok (step s k f p (.last c)) r := by
  intro col hcol
  exact ((σ.padCtb_border _ c r col hr hcol).1 h).trans (padCtb_inside hr σ.anchor_mem).symm

theorem Side.ok_step (σ : Side s k) (hk : k.Fits s) (hr : 0 ≤ r ∧ r < k.ht)
    (hgrid : (e.ctb.x : Int) < s.i2PicWdInCtb) (hleaves : k.Leaves e.ctb r σ.anchor)
    (h : σ.Ok p r) : σ.Ok (step s k f p e) r := by
  intro col hcol
  have hborder : k.Leaves e.ctb r col := leaves_outside hk hgrid (σ.border_outside col hcol)
  rw [step_inside hr σ.anchor_mem hleaves]
  cases e with
  | deblk c => exact (f.deblk_outside c p r col hborder.1).trans (h col hcol)
  | last c =>
    have hsame := f.sao_outside c p r
    by_cases hpads : σ.pads c r
    · exact ((σ.padCtb_border _ c r col hr hcol).1 hpads).trans (hsame _ hleaves.2)
    · rw [step, (σ.padCtb_border _ c r col hr hcol).2 hpads, hsame col hborder.2]
      exact h col hcol

/-- A row padded after a block, whose end is left alone from then on. -/
theorem Side.ok_picture (σ : Side s k) (hk : k.Fits s) {jobs : List (List Ctb)}
    {R : Ctb → Ctb → Prop} (horder : DecodingOrder s jobs.flatten)
    (hR : jobs.flatten.Pairwise R) (hr : 0 ≤ r ∧ r < k.ht) (hc : c ∈ jobs.flatten)
    (hpads : σ.pads c r) (hlater : ∀ b ∈ jobs.flatten, R c b → k.Leaves b r σ.anchor) :
    σ.Ok (picture s k f jobs p) r := by
  obtain ⟨before, after, heq, hafter, -⟩ := trace_split hR hc
  have hmem : ∀ e ∈ after, e.ctb ∈ jobs.flatten := by
    intro e he
    apply ctb_mem_of_mem_trace
    rw [heq]
    exact List.mem_append_right _ (List.mem_cons_of_mem _ he)
  have hrun : ∀ (t : List Event) (q : Plane α), (∀ e ∈ t, e ∈ after) → σ.Ok q r →
      σ.Ok (t.foldl (step s k f) q) r := by
    intro t
    induction t with
    | nil => exact fun _ _ h => h
    | cons e t ih =>
      intro q hsub hq
      have he := hsub e (List.mem_cons_self ..)
      apply ih _ fun e' he' => hsub e' (List.mem_cons_of_mem _ he')
      exact σ.ok_step hk hr ((horder.mem _).mp (hmem e he)).1
        (hlater _ (hmem e he) (hafter e he)) hq
  rw [picture, heq, List.foldl_append, List.foldl_cons]
  exact hrun after _ (fun _ he => he) (σ.ok_of_pads hr hpads)

end

end Libhevc.Padding
