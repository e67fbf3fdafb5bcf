import Libhevc.Decoder.CabacStartLaws

/-!
# Positions relative to slices

What the slice-relative position of a CTB says about the CTBs to its left and
above it, for any tiles, slices and slice segments.
-/

namespace Libhevc.Decoder

open Spec Grid

-- ---------------------------------------------------------------------------
-- The CTBs of a tile
-- ---------------------------------------------------------------------------

theorem placeIn_mem {pps : PpsTiles} (ht : t < pps.i1NumTileRows * pps.i1NumTileColumns)
    (hy : y < (pps.psTile t).u2Ht) (hx : x < (pps.psTile t).u2Wd) (sps : SpsSize) :
    placeIn pps sps t y x ∈ places pps sps := by
  simp only [places, List.mem_flatMap, List.mem_map, List.mem_range]
  exact ⟨t, ht, y, hy, x, hx, rfl⟩

section
variable {pps : PpsTiles} {sps : SpsSize} {X Y : Nat → Nat}
  (h : pps.InGrid sps.i2PicWdInCtb sps.i2PicHtInCtb X Y)
include h

theorem PpsTiles.InGrid.ctbAt_inj (hi : i < sps.i2PicWdInCtb * sps.i2PicHtInCtb)
    (hj : j < sps.i2PicWdInCtb * sps.i2PicHtInCtb) (he : ctbAt pps sps i = ctbAt pps sps j) :
    i = j := by
  rcases Nat.lt_trichotomy i j with hlt | heq | hgt
  · have hbefore := h.ctbAt_before hlt hj
    rw [he] at hbefore
    exact absurd hbefore hbefore.not_symm
  · exact heq
  · have hbefore := h.ctbAt_before hgt hi
    rw [he] at hbefore
    exact absurd hbefore hbefore.not_symm

/-- A place that the next update leads to, and that comes later, is the next one. -/
theorem PpsTiles.InGrid.ctbAt_next (hi : i < sps.i2PicWdInCtb * sps.i2PicHtInCtb)
    (hq : q ∈ places pps sps) (hadv : (ctbAt pps sps i).advance pps sps = q)
    (hbefore : (ctbAt pps sps i).Before q) :
    i + 1 < sps.i2PicWdInCtb * sps.i2PicHtInCtb ∧ ctbAt pps sps (i + 1) = q := by
  obtain ⟨j, hj, rfl⟩ := h.exists_ctbAt hq
  have hlt : i < j := by
    rcases Nat.lt_trichotomy i j with hlt | rfl | hgt
    · exact hlt
    · exact absurd hbefore hbefore.not_symm
    · exact absurd (h.ctbAt_before hgt hi) hbefore.not_symm
  have hi1 : i + 1 < sps.i2PicWdInCtb * sps.i2PicHtInCtb := by omega
  exact ⟨hi1, by rw [← h.ctbAt_succ hi1, hadv]⟩

/-- The CTBs of a tile follow each other row by row. -/
theorem PpsTiles.InGrid.ctbAt_tile (hT : T < sps.i2PicWdInCtb * sps.i2PicHtInCtb)
    (hfirst : ctbAt pps sps T = placeIn pps sps t 0 0)
    (ht : t < pps.i1NumTileRows * pps.i1NumTileColumns) (m : Nat)
    (hm : m < (pps.psTile t).u2Ht * (pps.psTile t).u2Wd) :
    T + m < sps.i2PicWdInCtb * sps.i2PicHtInCtb ∧
      ctbAt pps sps (T + m) =
        placeIn pps sps t (m / (pps.psTile t).u2Wd) (m % (pps.psTile t).u2Wd) := by
  obtain ⟨hwd, hht⟩ := h.tile_pos ht
  induction m with
  | zero =>
    rw [Nat.zero_div, Nat.zero_mod]
    exact ⟨hT, hfirst⟩
  | succ m ih =>
    obtain ⟨hlt, hm'⟩ := ih (by omega)
    have hx := Nat.mod_lt m hwd
    have hy : m / (pps.psTile t).u2Wd < (pps.psTile t).u2Ht :=
      Nat.div_lt_of_lt_mul (by rw [Nat.mul_comm]; omega)
    rw [← Nat.add_assoc]
    rcases Nat.lt_or_eq_of_le (Nat.succ_le_of_lt hx) with hx' | hx'
    · -- the next CTB of the row
      obtain ⟨hdiv, hmod⟩ : (m + 1) / (pps.psTile t).u2Wd = m / (pps.psTile t).u2Wd ∧
          (m + 1) % (pps.psTile t).u2Wd = m % (pps.psTile t).u2Wd + 1 := by
        refine (Nat.div_mod_unique hwd).mpr ⟨?_, hx'⟩
        have := Nat.div_add_mod m (pps.psTile t).u2Wd
        omega
      rw [hdiv, hmod]
      refine h.ctbAt_next hlt (placeIn_mem ht hy hx' sps) ?_ ?_
      · rw [hm', advance_column hx']
      · rw [hm']
        exact .inr ⟨rfl, .inr ⟨rfl, Nat.lt_succ_self _⟩⟩
    · -- the next row
      obtain ⟨hdiv, hmod⟩ : (m + 1) / (pps.psTile t).u2Wd = m / (pps.psTile t).u2Wd + 1 ∧
          (m + 1) % (pps.psTile t).u2Wd = 0 := by
        refine (Nat.div_mod_unique hwd).mpr ⟨?_, hwd⟩
        have := Nat.div_add_mod m (pps.psTile t).u2Wd
        rw [Nat.mul_succ]
        omega
      have hy' : m / (pps.psTile t).u2Wd + 1 < (pps.psTile t).u2Ht := by
        rw [← hdiv]
        exact Nat.div_lt_of_lt_mul (by rw [Nat.mul_comm]; exact hm)
      rw [hdiv, hmod]
      refine h.ctbAt_next hlt (placeIn_mem ht hy' hwd sps) ?_ ?_
      · rw [hm', advance_row hx' hy']
      · rw [hm']
        exact .inr ⟨rfl, .inl (Nat.lt_succ_self _)⟩

end

/-- The first CTB of the tile of CTB `k`. -/
def tileStart (pps : PpsTiles) (sps : SpsSize) (k : Nat) : Nat :=
  k - ((ctbAt pps sps k).i4CtbTileY * (pps.psTile (ctbAt pps sps k).psTile).u2Wd +
    (ctbAt pps sps k).i4CtbTileX)

/-- Where CTB `k` is in its tile, and where the tile is in the picture. -/
structure InTile (pps : PpsTiles) (sps : SpsSize) (k : Nat) : Prop where
  rank : tileStart pps sps k + ((ctbAt pps sps k).i4CtbTileY *
    (pps.psTile (ctbAt pps sps k).psTile).u2Wd + (ctbAt pps sps k).i4CtbTileX) = k
  tileX : (ctbAt pps sps k).i4CtbTileX < (pps.psTile (ctbAt pps sps k).psTile).u2Wd
  posX : (ctbAt pps sps k).i4CtbX =
    (pps.psTile (ctbAt pps sps k).psTile).u1PosX + (ctbAt pps sps k).i4CtbTileX
  posY : (ctbAt pps sps k).i4CtbY =
    (pps.psTile (ctbAt pps sps k).psTile).u1PosY + (ctbAt pps sps k).i4CtbTileY

section
variable {pps : PpsTiles} {sps : SpsSize} {X Y : Nat → Nat}
  (h : pps.InGrid sps.i2PicWdInCtb sps.i2PicHtInCtb X Y)
include h

/-- Every CTB is at a row and a column of a tile, which begins with CTB `T`. -/
theorem PpsTiles.InGrid.exists_tile (hk : k < sps.i2PicWdInCtb * sps.i2PicHtInCtb) :
    ∃ t < pps.i1NumTileRows * pps.i1NumTileColumns, ∃ y < (pps.psTile t).u2Ht,
      ∃ x < (pps.psTile t).u2Wd, ∃ T < sps.i2PicWdInCtb * sps.i2PicHtInCtb,
        ctbAt pps sps T = placeIn pps sps t 0 0 ∧ k = T + (y * (pps.psTile t).u2Wd + x) ∧
          ctbAt pps sps k = placeIn pps sps t y x := by
  obtain ⟨t, ht, y, hy, x, hx, hplace⟩ := mem_places (h.ctbAt_mem hk)
  obtain ⟨T, hT, hfirst⟩ := h.exists_ctbAt
    (placeIn_mem (y := 0) (x := 0) ht (by omega) (by omega) sps)
  have hm : y * (pps.psTile t).u2Wd + x < (pps.psTile t).u2Ht * (pps.psTile t).u2Wd := by
    have hle : (y + 1) * (pps.psTile t).u2Wd ≤ (pps.psTile t).u2Ht * (pps.psTile t).u2Wd :=
      Nat.mul_le_mul_right _ hy
    rw [Nat.succ_mul] at hle
    omega
  obtain ⟨hlt, hplace'⟩ := h.ctbAt_tile hT hfirst ht _ hm
  obtain ⟨hdiv, hmod⟩ : (y * (pps.psTile t).u2Wd + x) / (pps.psTile t).u2Wd = y ∧
      (y * (pps.psTile t).u2Wd + x) % (pps.psTile t).u2Wd = x :=
    (Nat.div_mod_unique (by omega)).mpr ⟨by rw [Nat.mul_comm, Nat.add_comm], hx⟩
  rw [hdiv, hmod, ← hplace] at hplace'
  exact ⟨t, ht, y, hy, x, hx, T, hT, hfirst, (h.ctbAt_inj hlt hk hplace').symm, hplace⟩

theorem PpsTiles.InGrid.inTile (hk : k < sps.i2PicWdInCtb * sps.i2PicHtInCtb) :
    InTile pps sps k := by
  obtain ⟨t, _, y, _, x, hx, T, _, _, hkT, hplace⟩ := h.exists_tile hk
  refine ⟨?_, ?_, ?_, ?_⟩
  · rw [tileStart, hplace]
    dsimp only [placeIn]
    omega
  all_goals
    rw [hplace]
    dsimp only [placeIn]
  exact hx

/-- The first CTB of the tile, and the CTBs of the tile. -/
theorem PpsTiles.InGrid.tileStart_spec (hk : k < sps.i2PicWdInCtb * sps.i2PicHtInCtb) :
    ((ctbAt pps sps (tileStart pps sps k)).psTile = (ctbAt pps sps k).psTile ∧
      (ctbAt pps sps (tileStart pps sps k)).atTileStart = true) ∧
      ∀ j < sps.i2PicWdInCtb * sps.i2PicHtInCtb,
        ((ctbAt pps sps j).psTile = (ctbAt pps sps k).psTile →
          tileStart pps sps j = tileStart pps sps k) ∧
        (tileStart pps sps k ≤ j → j ≤ k →
          (ctbAt pps sps j).psTile = (ctbAt pps sps k).psTile) := by
  have hstart {k t y x T} (hkT : k = T + (y * (pps.psTile t).u2Wd + x))
      (hplace : ctbAt pps sps k = placeIn pps sps t y x) : tileStart pps sps k = T := by
    rw [tileStart, hplace]
    dsimp only [placeIn]
    omega
  obtain ⟨t, ht, y, hy, x, hx, T, hT, hfirst, hkT, hplace⟩ := h.exists_tile hk
  rw [hstart hkT hplace, hfirst, hplace]
  refine ⟨⟨rfl, rfl⟩, fun j hj => ⟨fun htile => ?_, fun hTj hjk => ?_⟩⟩
  · obtain ⟨t', _, y', _, x', _, T', hT', hfirst', hjT, hplace'⟩ := h.exists_tile hj
    rw [hplace'] at htile
    obtain rfl : t' = t := htile
    rw [hstart hjT hplace']
    exact h.ctbAt_inj hT' hT (hfirst'.trans hfirst.symm)
  · have hm : j - T < (pps.psTile t).u2Ht * (pps.psTile t).u2Wd := by
      have hle : (y + 1) * (pps.psTile t).u2Wd ≤ (pps.psTile t).u2Ht * (pps.psTile t).u2Wd :=
        Nat.mul_le_mul_right _ hy
      rw [Nat.succ_mul] at hle
      omega
    obtain ⟨_, hplace'⟩ := h.ctbAt_tile hT hfirst ht (j - T) hm
    rw [Nat.add_sub_of_le hTj] at hplace'
    rw [hplace']
    rfl

end

end Libhevc.Decoder
