import Libhevc.Decoder.TileGrid

/-!
# The walk over the CTBs

The position update visits the CTBs of a picture in tile scan, whatever the
slices are, and keeps the position that `ihevcd_get_tile_pos` computes.
-/

namespace Libhevc.Decoder

open Grid

/-- A position without the slice it is relative to. -/
def CtbPos.place (p : CtbPos) : CtbPos := { p with i4CtbSliceX := 0, i4CtbSliceY := 0 }

/-- The update of a place. -/
def CtbPos.advance (pps : PpsTiles) (sps : SpsSize) (p : CtbPos) : CtbPos :=
  (p.update pps sps 0 0).place

/-- CTB `(x, y)` of tile `t`. -/
def placeIn (pps : PpsTiles) (sps : SpsSize) (t y x : Nat) : CtbPos :=
  let tile := pps.psTile t
  { i4CtbX := tile.u1PosX + x
    i4CtbY := tile.u1PosY + y
    i4CtbTileX := x
    i4CtbTileY := y
    psTile := t
    i4CtbSliceX := 0
    i4CtbSliceY := 0
    i4NextCtbIndx := tile.u1PosX + x + (tile.u1PosY + y) * sps.i2PicWdInCtb
    endOfPic := 0 }

/-- The place behind the last of `n` tiles. -/
def placeEnd (sps : SpsSize) (n : Nat) : CtbPos :=
  { i4CtbX := 0
    i4CtbY := sps.i2PicHtInCtb
    i4CtbTileX := 0
    i4CtbTileY := 0
    psTile := n
    i4CtbSliceX := 0
    i4CtbSliceY := 0
    i4NextCtbIndx := 0 + sps.i2PicHtInCtb * sps.i2PicWdInCtb
    endOfPic := 1 }

-- ---------------------------------------------------------------------------
-- One update
-- ---------------------------------------------------------------------------

/-- The slice-relative position is all that `slice` changes. -/
theorem slice_eq (pps : PpsTiles) (sps : SpsSize) (sliceX sliceY : Nat) (p : CtbPos) :
    ∃ a b, p.slice pps sps sliceX sliceY = { p with i4CtbSliceX := a, i4CtbSliceY := b } := by
  unfold CtbPos.slice
  dsimp only
  split_ifs
  all_goals exact ⟨_, _, rfl⟩

/-- The position when a CTB is done, before anything is compared. -/
def CtbPos.bump (p : CtbPos) : CtbPos :=
  { p with
    endOfPic := 0
    i4CtbTileX := p.i4CtbTileX + 1
    i4CtbX := p.i4CtbX + 1
    i4CtbSliceX := p.i4CtbSliceX + 1 }

/-- An update, with the slice-relative position left open. -/
theorem update_eq (pps : PpsTiles) (sps : SpsSize) (sliceX sliceY : Nat) (p : CtbPos) :
    ∃ a b, p.update pps sps sliceX sliceY =
      let q : CtbPos := { p.bump with i4CtbSliceX := a, i4CtbSliceY := b }
      let q := if q.i4CtbTileX = (pps.psTile q.psTile).u2Wd then q.nextRow pps sps else q
      { q with i4NextCtbIndx := q.i4CtbX + q.i4CtbY * sps.i2PicWdInCtb } := by
  obtain ⟨a, b, h⟩ := slice_eq pps sps sliceX sliceY p.bump
  refine ⟨a, b, ?_⟩
  rw [← h]
  rfl

/-- The slice does not matter for the place. -/
theorem update_place (pps : PpsTiles) (sps : SpsSize) (sliceX sliceY : Nat) (p : CtbPos) :
    (p.update pps sps sliceX sliceY).place = p.place.advance pps sps := by
  obtain ⟨a, b, h⟩ := update_eq pps sps sliceX sliceY p
  obtain ⟨a', b', h'⟩ := update_eq pps sps 0 0 p.place
  rw [CtbPos.advance, h, h']
  unfold CtbPos.nextRow CtbPos.place CtbPos.bump
  dsimp only
  split_ifs <;> rfl

section
variable {pps : PpsTiles} {sps : SpsSize} {t x y : Nat}

theorem advance_column (hx : x + 1 < (pps.psTile t).u2Wd) :
    (placeIn pps sps t y x).advance pps sps = placeIn pps sps t y (x + 1) := by
  obtain ⟨a, b, h⟩ := update_eq pps sps 0 0 (placeIn pps sps t y x)
  rw [CtbPos.advance, h]
  simp [CtbPos.place, CtbPos.bump, placeIn, hx.ne, Nat.add_assoc]

theorem advance_row (hx : x + 1 = (pps.psTile t).u2Wd) (hy : y + 1 < (pps.psTile t).u2Ht) :
    (placeIn pps sps t y x).advance pps sps = placeIn pps sps t (y + 1) 0 := by
  obtain ⟨a, b, h⟩ := update_eq pps sps 0 0 (placeIn pps sps t y x)
  rw [CtbPos.advance, h]
  simp [CtbPos.place, CtbPos.bump, CtbPos.nextRow, placeIn, hx, hy.ne, Nat.add_assoc]

/-- The tile ends in the corner of the picture. -/
def PpsTiles.Last (pps : PpsTiles) (sps : SpsSize) (t : Nat) : Prop :=
  (pps.psTile t).u2Ht + (pps.psTile t).u1PosY = sps.i2PicHtInCtb ∧
    (pps.psTile t).u2Wd + (pps.psTile t).u1PosX = sps.i2PicWdInCtb

theorem advance_tile (hx : x + 1 = (pps.psTile t).u2Wd) (hy : y + 1 = (pps.psTile t).u2Ht)
    (hlast : ¬pps.Last sps t) :
    (placeIn pps sps t y x).advance pps sps = placeIn pps sps (t + 1) 0 0 := by
  obtain ⟨a, b, h⟩ := update_eq pps sps 0 0 (placeIn pps sps t y x)
  rw [PpsTiles.Last] at hlast
  rw [CtbPos.advance, h]
  simp [CtbPos.place, CtbPos.bump, CtbPos.nextRow, placeIn, hx, hy, hlast]

theorem advance_end (hx : x + 1 = (pps.psTile t).u2Wd) (hy : y + 1 = (pps.psTile t).u2Ht)
    (hlast : pps.Last sps t) :
    (placeIn pps sps t y x).advance pps sps = placeEnd sps (t + 1) := by
  obtain ⟨a, b, h⟩ := update_eq pps sps 0 0 (placeIn pps sps t y x)
  rw [CtbPos.advance, h]
  simp [CtbPos.place, CtbPos.bump, CtbPos.nextRow, placeIn, placeEnd, hx, hy, hlast.1, hlast.2]

end

-- ---------------------------------------------------------------------------
-- The tiles of a grid
-- ---------------------------------------------------------------------------

section
variable {pps : PpsTiles} {sps : SpsSize} {X Y : Nat → Nat}
  (h : pps.InGrid sps.i2PicWdInCtb sps.i2PicHtInCtb X Y)
include h

/-- Every tile is one of a row and a column. -/
theorem PpsTiles.InGrid.tile_at (ht : t < pps.i1NumTileRows * pps.i1NumTileColumns) :
    ∃ r < pps.i1NumTileRows, ∃ c < pps.i1NumTileColumns, t = r * pps.i1NumTileColumns + c ∧
      pps.psTile t =
        { u1PosX := X c, u1PosY := Y r, u2Wd := X (c + 1) - X c, u2Ht := Y (r + 1) - Y r } := by
  have hcols : 0 < pps.i1NumTileColumns := Nat.pos_of_mul_pos_left (Nat.zero_lt_of_lt ht)
  have hr : t / pps.i1NumTileColumns < pps.i1NumTileRows :=
    Nat.div_lt_of_lt_mul (by rwa [Nat.mul_comm])
  have hc := Nat.mod_lt t hcols
  have ht' : t / pps.i1NumTileColumns * pps.i1NumTileColumns + t % pps.i1NumTileColumns = t := by
    rw [Nat.mul_comm]
    exact Nat.div_add_mod t _
  refine ⟨_, hr, _, hc, ht'.symm, ?_⟩
  rw [← h.tile _ hr _ hc, ht']

theorem PpsTiles.InGrid.tile_pos (ht : t < pps.i1NumTileRows * pps.i1NumTileColumns) :
    0 < (pps.psTile t).u2Wd ∧ 0 < (pps.psTile t).u2Ht := by
  obtain ⟨r, hr, c, hc, _, htile⟩ := h.tile_at ht
  have hX := h.cols.lt c hc
  have hY := h.rows.lt r hr
  rw [htile]
  exact ⟨by simp only; omega, by simp only; omega⟩

theorem PpsTiles.InGrid.last_iff (ht : t < pps.i1NumTileRows * pps.i1NumTileColumns) :
    pps.Last sps t ↔ t + 1 = pps.i1NumTileRows * pps.i1NumTileColumns := by
  obtain ⟨r, hr, c, hc, rfl, htile⟩ := h.tile_at ht
  have hX := h.cols.lt c hc
  have hY := h.rows.lt r hr
  have hlast : pps.Last sps (r * pps.i1NumTileColumns + c) ↔
      r + 1 = pps.i1NumTileRows ∧ c + 1 = pps.i1NumTileColumns := by
    rw [← h.rows.end_iff hr, ← h.cols.end_iff hc, PpsTiles.Last, htile]
    dsimp only
    rw [Nat.sub_add_cancel hX.le, Nat.sub_add_cancel hY.le]
  rw [hlast]
  constructor
  · rintro ⟨hr', hc'⟩
    rw [← hr', Nat.add_assoc, hc', Nat.succ_mul]
  · intro he
    have hr' : r + 1 = pps.i1NumTileRows := by
      by_contra hne
      have hle : (r + 2) * pps.i1NumTileColumns ≤ pps.i1NumTileRows * pps.i1NumTileColumns :=
        Nat.mul_le_mul_right _ (by omega)
      rw [Nat.add_mul] at hle
      omega
    refine ⟨hr', ?_⟩
    rw [← hr', Nat.succ_mul] at he
    omega

end

-- ---------------------------------------------------------------------------
-- The whole walk
-- ---------------------------------------------------------------------------

/-- Where tile `t` is entered; behind the last tile, the end. -/
def tileEntry (pps : PpsTiles) (sps : SpsSize) (t : Nat) : CtbPos :=
  if t < pps.i1NumTileRows * pps.i1NumTileColumns then placeIn pps sps t 0 0
  else placeEnd sps (pps.i1NumTileRows * pps.i1NumTileColumns)

/-- Where row `y` of tile `t` is entered; behind the last row, the next tile. -/
def rowEntry (pps : PpsTiles) (sps : SpsSize) (t y : Nat) : CtbPos :=
  if y < (pps.psTile t).u2Ht then placeIn pps sps t y 0 else tileEntry pps sps (t + 1)

/-- CTB `x` of a row; behind the last one, the next row. -/
def cellEntry (pps : PpsTiles) (sps : SpsSize) (t y x : Nat) : CtbPos :=
  if x < (pps.psTile t).u2Wd then placeIn pps sps t y x else rowEntry pps sps t (y + 1)

/-- The places of a walk, tile by tile. -/
def places (pps : PpsTiles) (sps : SpsSize) : List CtbPos :=
  (List.range (pps.i1NumTileRows * pps.i1NumTileColumns)).flatMap fun t =>
    (List.range (pps.psTile t).u2Ht).flatMap fun y =>
      (List.range (pps.psTile t).u2Wd).map fun x => placeIn pps sps t y x

theorem sum_map_const (n k : Nat) : ((List.range n).map fun _ => k).sum = n * k := by
  simp

section
variable {pps : PpsTiles} {sps : SpsSize} {X Y : Nat → Nat}
  (h : pps.InGrid sps.i2PicWdInCtb sps.i2PicHtInCtb X Y)
include h

theorem PpsTiles.InGrid.advance_cell (ht : t < pps.i1NumTileRows * pps.i1NumTileColumns)
    (hy : y < (pps.psTile t).u2Ht) (hx : x < (pps.psTile t).u2Wd) :
    (cellEntry pps sps t y x).advance pps sps = cellEntry pps sps t y (x + 1) := by
  have hlast := h.last_iff ht
  unfold cellEntry
  rw [if_pos hx]
  by_cases hx' : x + 1 < (pps.psTile t).u2Wd
  · rw [if_pos hx', advance_column hx']
  · rw [if_neg hx']
    have hx' : x + 1 = (pps.psTile t).u2Wd := by omega
    unfold rowEntry
    by_cases hy' : y + 1 < (pps.psTile t).u2Ht
    · rw [if_pos hy', advance_row hx' hy']
    · rw [if_neg hy']
      have hy' : y + 1 = (pps.psTile t).u2Ht := by omega
      unfold tileEntry
      by_cases ht' : t + 1 < pps.i1NumTileRows * pps.i1NumTileColumns
      · rw [if_pos ht', advance_tile hx' hy' fun hl => by
          have := hlast.mp hl
          omega]
      · rw [if_neg ht']
        have ht' : t + 1 = pps.i1NumTileRows * pps.i1NumTileColumns := by omega
        rw [advance_end hx' hy' (hlast.mpr ht'), ht']

theorem PpsTiles.InGrid.walk_row (ht : t < pps.i1NumTileRows * pps.i1NumTileColumns)
    (hy : y < (pps.psTile t).u2Ht) :
    List.iterate (CtbPos.advance pps sps) (rowEntry pps sps t y) (pps.psTile t).u2Wd =
        (List.range (pps.psTile t).u2Wd).map (fun x => placeIn pps sps t y x) ∧
      (CtbPos.advance pps sps)^[(pps.psTile t).u2Wd] (rowEntry pps sps t y) =
        rowEntry pps sps t (y + 1) := by
  have hentry : rowEntry pps sps t y = cellEntry pps sps t y 0 := by
    rw [rowEntry, cellEntry, if_pos hy, if_pos (h.tile_pos ht).1]
  obtain ⟨hi, hf⟩ := iterate_blocks (CtbPos.advance pps sps) (cellEntry pps sps t y) (fun _ => 1)
    fun x hx => h.advance_cell ht hy hx
  rw [sum_map_const, Nat.mul_one] at hi hf
  rw [hentry, hi, hf]
  constructor
  · rw [List.map_eq_flatMap]
    refine List.flatMap_congr fun x hx => ?_
    rw [cellEntry, if_pos (List.mem_range.mp hx)]
    rfl
  · rw [cellEntry, if_neg (Nat.lt_irrefl _)]

theorem PpsTiles.InGrid.walk_tile (ht : t < pps.i1NumTileRows * pps.i1NumTileColumns) :
    List.iterate (CtbPos.advance pps sps) (tileEntry pps sps t)
        ((pps.psTile t).u2Ht * (pps.psTile t).u2Wd) =
        (List.range (pps.psTile t).u2Ht).flatMap (fun y =>
          (List.range (pps.psTile t).u2Wd).map fun x => placeIn pps sps t y x) ∧
      (CtbPos.advance pps sps)^[(pps.psTile t).u2Ht * (pps.psTile t).u2Wd]
        (tileEntry pps sps t) = tileEntry pps sps (t + 1) := by
  have hentry : tileEntry pps sps t = rowEntry pps sps t 0 := by
    rw [tileEntry, rowEntry, if_pos ht, if_pos (h.tile_pos ht).2]
  obtain ⟨hi, hf⟩ := iterate_blocks (CtbPos.advance pps sps) (rowEntry pps sps t)
    (fun _ => (pps.psTile t).u2Wd) fun y hy => (h.walk_row ht hy).2
  rw [sum_map_const] at hi hf
  rw [hentry, hi, hf]
  constructor
  · exact List.flatMap_congr fun y hy => (h.walk_row ht (List.mem_range.mp hy)).1
  · rw [rowEntry, if_neg (Nat.lt_irrefl _)]

theorem PpsTiles.InGrid.places_scan :
    (places pps sps).map (fun p => (p.i4CtbX, p.i4CtbY)) =
      scan pps.i1NumTileColumns pps.i1NumTileRows X Y := by
  rw [places, List.map_flatMap, flatMap_range_mul, scan]
  refine List.flatMap_congr fun r hr => List.flatMap_congr fun c hc => ?_
  rw [h.tile r (List.mem_range.mp hr) c (List.mem_range.mp hc), List.map_flatMap, cells]
  refine List.flatMap_congr fun y _ => ?_
  rw [List.map_map]
  refine List.map_congr_left fun x _ => ?_
  simp [placeIn, h.tile r (List.mem_range.mp hr) c (List.mem_range.mp hc)]

/-- From CTB 0 the walk goes through all the places and then ends. -/
theorem PpsTiles.InGrid.walk :
    List.iterate (CtbPos.advance pps sps) (tileEntry pps sps 0)
        (sps.i2PicWdInCtb * sps.i2PicHtInCtb) = places pps sps ∧
      (CtbPos.advance pps sps)^[sps.i2PicWdInCtb * sps.i2PicHtInCtb] (tileEntry pps sps 0) =
        placeEnd sps (pps.i1NumTileRows * pps.i1NumTileColumns) := by
  obtain ⟨hi, hf⟩ := iterate_blocks (CtbPos.advance pps sps) (tileEntry pps sps)
    (fun t => (pps.psTile t).u2Ht * (pps.psTile t).u2Wd) fun t ht => (h.walk_tile ht).2
  have hplaces := hi.trans (List.flatMap_congr fun t ht => (h.walk_tile (List.mem_range.mp ht)).1)
  have hlen := congrArg List.length hplaces
  rw [List.length_iterate] at hlen
  have hcount : (places pps sps).length = sps.i2PicWdInCtb * sps.i2PicHtInCtb := by
    have := congrArg List.length h.places_scan
    rwa [List.length_map, length_scan h.cols h.rows] at this
  rw [show _ = sps.i2PicWdInCtb * sps.i2PicHtInCtb from hlen.trans hcount] at hplaces hf
  refine ⟨hplaces, hf.trans ?_⟩
  rw [tileEntry, if_neg (Nat.lt_irrefl _)]

end

-- ---------------------------------------------------------------------------
-- The position from scratch
-- ---------------------------------------------------------------------------

/-- The search stops at the part that holds the position. -/
theorem findPart_eq (h : Cuts num size cut) (hstart : ∀ k < num, partStart k = cut k)
    (hi : i < num) (hn : n ≤ num) (hni : num - n ≤ i) (hlo : cut i ≤ pos)
    (hhi : pos < cut (i + 1)) : findPart num size pos partStart n = (i, i) := by
  induction n with
  | zero => omega
  | succ n ih =>
    have hk : num - (n + 1) < num := by omega
    have hnext : (if num - 1 = num - (n + 1) then size else partStart (num - (n + 1) + 1)) =
        cut (num - (n + 1) + 1) := by
      split
      case isTrue he =>
        rw [← h.last]
        congr 1
        omega
      case isFalse he => exact hstart _ (by omega)
    simp only [findPart, hnext, hstart _ hk]
    by_cases he : num - (n + 1) = i
    · rw [he, if_pos ⟨hlo, hhi⟩]
    · rw [if_neg]
      · exact ih (by omega) (by omega)
      · rintro ⟨_, hlt⟩
        have := h.mono (i := num - (n + 1) + 1) (j := i) (by omega) hi.le
        omega

section
variable {pps : PpsTiles} {sps : SpsSize} {X Y : Nat → Nat}
  (h : pps.InGrid sps.i2PicWdInCtb sps.i2PicHtInCtb X Y)
include h

theorem PpsTiles.InGrid.getTilePos (ht : t < pps.i1NumTileRows * pps.i1NumTileColumns)
    (hy : y < (pps.psTile t).u2Ht) (hx : x < (pps.psTile t).u2Wd) :
    ihevcdGetTilePos pps sps ((pps.psTile t).u1PosX + x) ((pps.psTile t).u1PosY + y) =
      (x, y, t) := by
  obtain ⟨r, hr, c, hc, rfl, htile⟩ := h.tile_at ht
  have hXc := h.cols.lt c hc
  have hYr := h.rows.lt r hr
  rw [htile] at hx hy ⊢
  dsimp only at hx hy ⊢
  unfold ihevcdGetTilePos
  by_cases hflag : pps.i1TilesEnabledFlag = 0
  · rw [if_pos hflag]
    obtain ⟨hcols, hrows⟩ := h.untiled hflag
    obtain rfl : c = 0 := by omega
    obtain rfl : r = 0 := by omega
    rw [h.cols.first, h.rows.first, Nat.zero_add, Nat.zero_add, Nat.zero_mul]
  · rw [if_neg hflag]
    have hrow0 : ∀ k < pps.i1NumTileColumns, (pps.psTile k).u1PosX = X k := fun k hk => by
      have := h.tile 0 (by omega) k hk
      rw [Nat.zero_mul, Nat.zero_add] at this
      rw [this]
    have hcol0 : ∀ k < pps.i1NumTileRows,
        (pps.psTile (k * pps.i1NumTileColumns)).u1PosY = Y k := fun k hk => by
      have := h.tile k hk 0 (by omega)
      rw [Nat.add_zero] at this
      rw [this]
    dsimp only
    rw [findPart_eq h.cols hrow0 hc (Nat.le_refl _) (by omega) (Nat.le_add_right _ x) (by omega),
      findPart_eq h.rows hcol0 hr (Nat.le_refl _) (by omega) (Nat.le_add_right _ y) (by omega)]
    dsimp only
    rw [hrow0 c hc, hcol0 r hr, Nat.add_sub_cancel_left, Nat.add_sub_cancel_left]

/-- Without tiles the places are numbered in their order. -/
theorem PpsTiles.InGrid.places_rank (hflag : pps.i1TilesEnabledFlag = 0) :
    (places pps sps).map CtbPos.i4NextCtbIndx =
      List.range (sps.i2PicHtInCtb * sps.i2PicWdInCtb) := by
  obtain ⟨hcols, hrows⟩ := h.untiled hflag
  have hX := h.cols.last
  have hY := h.rows.last
  have htile := h.tile 0 (by omega) 0 (by omega)
  rw [hcols] at hX
  rw [hrows] at hY
  rw [Nat.zero_mul, Nat.zero_add, Nat.zero_add, hX, hY, h.cols.first, h.rows.first] at htile
  have hrange := flatMap_range_mul (fun i => [i]) sps.i2PicHtInCtb sps.i2PicWdInCtb
  rw [List.flatMap_singleton'] at hrange
  rw [places, hcols, hrows, hrange, Nat.one_mul, List.range_one, List.flatMap_singleton, htile,
    List.map_flatMap]
  refine List.flatMap_congr fun y _ => ?_
  rw [List.map_map, ← List.map_eq_flatMap]
  refine List.map_congr_left fun x _ => ?_
  simp [placeIn, htile, Nat.add_comm]

end

-- ---------------------------------------------------------------------------
-- The walk of the decoder
-- ---------------------------------------------------------------------------

/-- The walk visits the CTBs in tile scan, each once, and then stops; its position is the one
computed from scratch, and without tiles the next index is the rank. -/
structure TileWalk (pps : PpsTiles) (sps : SpsSize) (slice : Nat → Nat × Nat)
    (X Y : Nat → Nat) : Prop where
  grid : pps.InGrid sps.i2PicWdInCtb sps.i2PicHtInCtb X Y
  visits : (List.range (sps.i2PicWdInCtb * sps.i2PicHtInCtb)).map (fun k =>
      ((ctbPos pps sps slice k).i4CtbX, (ctbPos pps sps slice k).i4CtbY)) =
    scan pps.i1NumTileColumns pps.i1NumTileRows X Y
  once : (scan pps.i1NumTileColumns pps.i1NumTileRows X Y).Nodup
  all : ∀ x y, (x, y) ∈ scan pps.i1NumTileColumns pps.i1NumTileRows X Y ↔
    x < sps.i2PicWdInCtb ∧ y < sps.i2PicHtInCtb
  stops : ∀ k < sps.i2PicWdInCtb * sps.i2PicHtInCtb,
    (ctbPos pps sps slice (k + 1)).endOfPic = 1 ↔ k + 1 = sps.i2PicWdInCtb * sps.i2PicHtInCtb
  tilePos : ∀ k < sps.i2PicWdInCtb * sps.i2PicHtInCtb,
    ihevcdGetTilePos pps sps (ctbPos pps sps slice k).i4CtbX (ctbPos pps sps slice k).i4CtbY =
      ((ctbPos pps sps slice k).i4CtbTileX, (ctbPos pps sps slice k).i4CtbTileY,
        (ctbPos pps sps slice k).psTile)
  rank : pps.i1TilesEnabledFlag = 0 → ∀ k ≤ sps.i2PicWdInCtb * sps.i2PicHtInCtb,
    (ctbPos pps sps slice k).i4NextCtbIndx = k

/-- The places of the decoder's walk, whatever its slices are. -/
theorem ctbPos_place (pps : PpsTiles) (sps : SpsSize) (slice : Nat → Nat × Nat) (k : Nat) :
    (ctbPos pps sps slice k).place = (CtbPos.advance pps sps)^[k] .first := by
  induction k with
  | zero => rfl
  | succ k ih => rw [ctbPos, update_place, ih, Function.iterate_succ_apply']

theorem mem_places (hp : p ∈ places pps sps) :
    ∃ t < pps.i1NumTileRows * pps.i1NumTileColumns, ∃ y < (pps.psTile t).u2Ht,
      ∃ x < (pps.psTile t).u2Wd, p = placeIn pps sps t y x := by
  simp only [places, List.mem_flatMap, List.mem_map, List.mem_range] at hp
  obtain ⟨t, ht, y, hy, x, hx, rfl⟩ := hp
  exact ⟨t, ht, y, hy, x, hx, rfl⟩

section
variable {pps : PpsTiles} {sps : SpsSize} {X Y : Nat → Nat}
  (h : pps.InGrid sps.i2PicWdInCtb sps.i2PicHtInCtb X Y)
include h

theorem PpsTiles.InGrid.tileEntry_zero : tileEntry pps sps 0 = .first := by
  have hcols := h.cols.pos sps.wdInCtb_pos
  have hrows := h.rows.pos sps.htInCtb_pos
  have htile := h.tile 0 hrows 0 hcols
  rw [Nat.zero_mul, Nat.zero_add, h.cols.first, h.rows.first] at htile
  rw [tileEntry, if_pos (Nat.mul_pos hrows hcols)]
  simp [placeIn, htile, CtbPos.first]

theorem PpsTiles.InGrid.ctbPos_places (slice : Nat → Nat × Nat) :
    (List.range (sps.i2PicWdInCtb * sps.i2PicHtInCtb)).map
        (fun k => (ctbPos pps sps slice k).place) = places pps sps := by
  rw [← h.walk.1, h.tileEntry_zero, ← List.range_map_iterate]
  exact List.map_congr_left fun k _ => ctbPos_place pps sps slice k

theorem PpsTiles.InGrid.ctbPos_mem (slice : Nat → Nat × Nat)
    (hk : k < sps.i2PicWdInCtb * sps.i2PicHtInCtb) :
    (ctbPos pps sps slice k).place ∈ places pps sps := by
  rw [← h.ctbPos_places slice]
  exact List.mem_map.mpr ⟨k, List.mem_range.mpr hk, rfl⟩

theorem PpsTiles.InGrid.ctbPos_end (slice : Nat → Nat × Nat) :
    (ctbPos pps sps slice (sps.i2PicWdInCtb * sps.i2PicHtInCtb)).place =
      placeEnd sps (pps.i1NumTileRows * pps.i1NumTileColumns) := by
  rw [ctbPos_place, ← h.tileEntry_zero]
  exact h.walk.2

theorem PpsTiles.InGrid.tileWalk (slice : Nat → Nat × Nat) : TileWalk pps sps slice X Y := by
  refine ⟨h, ?_, nodup_scan h.cols h.rows, fun x y => mem_scan h.cols h.rows, fun k hk => ?_,
    fun k hk => ?_, fun hflag k hk => ?_⟩
  · rw [← h.places_scan, ← h.ctbPos_places slice, List.map_map]
    rfl
  · rcases Nat.lt_or_eq_of_le (Nat.succ_le_of_lt hk) with hlt | heq
    · obtain ⟨t, _, y, _, x, _, hp⟩ := mem_places (h.ctbPos_mem slice hlt)
      have hend : (ctbPos pps sps slice (k + 1)).endOfPic = 0 := congrArg CtbPos.endOfPic hp
      rw [hend]
      exact iff_of_false (by decide) hlt.ne
    · have hp := h.ctbPos_end slice
      rw [← heq] at hp
      have hend : (ctbPos pps sps slice (k + 1)).endOfPic = 1 := congrArg CtbPos.endOfPic hp
      exact iff_of_true hend heq
  · obtain ⟨t, ht, y, hy, x, hx, hp⟩ := mem_places (h.ctbPos_mem slice hk)
    change ihevcdGetTilePos pps sps (ctbPos pps sps slice k).place.i4CtbX
        (ctbPos pps sps slice k).place.i4CtbY =
      ((ctbPos pps sps slice k).place.i4CtbTileX, (ctbPos pps sps slice k).place.i4CtbTileY,
        (ctbPos pps sps slice k).place.psTile)
    rw [hp]
    exact h.getTilePos ht hy hx
  · change (ctbPos pps sps slice k).place.i4NextCtbIndx = k
    rcases Nat.lt_or_eq_of_le hk with hlt | rfl
    · have hrank := h.places_rank hflag
      rw [← h.ctbPos_places slice, List.map_map, Nat.mul_comm sps.i2PicHtInCtb] at hrank
      have hget := congrArg (fun l => l[k]?) hrank
      simpa [hlt] using hget
    · rw [h.ctbPos_end slice]
      exact (Nat.zero_add _).trans (Nat.mul_comm _ _)

end

/-- For every picture size and every accepted tile syntax, with tiles or without. -/
theorem tile_walk {sps : SpsSize} (h : parseTiles sps i4Wd i4Ht psTile s = .ok (pps, s'))
    (slice : Nat → Nat × Nat) : ∃ X Y, TileWalk pps sps slice X Y := by
  obtain ⟨X, Y, hgrid⟩ := parseTiles_inGrid h
  exact ⟨X, Y, hgrid.tileWalk slice⟩

/-- A picture of two CTBs. -/
def twoCtbs : SpsSize :=
  { i2PicWidthInLumaSamples := 128
    i2PicHeightInLumaSamples := 64
    i1Log2CtbSize := 6
    width_pos := SpsSize.pos_128
    width_le := SpsSize.le_128
    height_pos := SpsSize.pos_64
    height_le := SpsSize.le_64
    log2CtbSize_ge := SpsSize.log2_le
    log2CtbSize_le := SpsSize.log2_max }

/-- Two tile columns and one tile row, spaced uniformly. -/
theorem tile_walk_twoCtbs :
    ∃ pps s', parseTiles twoCtbs 128 64 (fun _ => ⟨0, 0, 0, 0⟩)
        (ihevcdBitsInit (fun i => if i = 0 then 0x97 else 0) 1) = .ok (pps, s') ∧
      ∀ slice, ∃ X Y, TileWalk pps twoCtbs slice X Y := by
  have hparse : ∃ r, parseTiles twoCtbs 128 64 (fun _ => ⟨0, 0, 0, 0⟩)
      (ihevcdBitsInit (fun i => if i = 0 then 0x97 else 0) 1) = .ok r := ⟨_, rfl⟩
  obtain ⟨⟨pps, s'⟩, h⟩ := hparse
  exact ⟨pps, s', h, fun slice => tile_walk h slice⟩

end Libhevc.Decoder
