import Libhevc.Decoder.CabacStartRun
import Libhevc.Decoder.SlicePos

/-!
# Slice-relative positions over a picture

In the tile in which a slice segment begins, the position counts the CTBs of the
slice in that tile; in tiles that the segment reaches later it counts from the
left of the picture. Both tell whether the CTBs to the left and above belong to
the slice.
-/

namespace Libhevc.Decoder

open Spec Grid

/-- Slices and slice segments as the specification allows them. -/
structure EntropySetup.Slices (e : EntropySetup) (segments : Nat → Option SegmentHdr) : Prop where
  first : ∃ hdr, segments 0 = some hdr ∧ hdr.i1DependentSliceFlag = false
  address : ∀ k < e.numCtbs, ∀ hdr, segments k = some hdr →
    hdr.i2CtbX = (ctbAt e.pps e.sps k).i4CtbX ∧ hdr.i2CtbY = (ctbAt e.pps e.sps k).i4CtbY
  tiles : (e.ctuOrder segments).SegmentsAndTiles e.numCtbs

/-- The slice-relative position of CTB `k`, in a slice segment from CTB `segment` of a slice from
CTB `slice`. -/
structure SlicePos (pps : PpsTiles) (sps : SpsSize) (k segment slice : Nat) (p : CtbPos) :
    Prop where
  inTile : tileStart pps sps k ≤ segment →
    p.i4CtbSliceX < (pps.psTile (ctbAt pps sps k).psTile).u2Wd ∧
      p.i4CtbSliceY * (pps.psTile (ctbAt pps sps k).psTile).u2Wd + p.i4CtbSliceX +
        max slice (tileStart pps sps k) = k
  later : segment < tileStart pps sps k →
    p.i4CtbSliceX = (ctbAt pps sps k).i4CtbX ∧ (ctbAt pps sps k).i4CtbTileY ≤ p.i4CtbSliceY

theorem SlicePos.congr {segment slice : Nat} (h : SlicePos pps sps k segment slice p)
    (hx : q.i4CtbSliceX = p.i4CtbSliceX) (hy : q.i4CtbSliceY = p.i4CtbSliceY) :
    SlicePos pps sps k segment slice q := by
  refine ⟨fun hle => ?_, fun hlt => ?_⟩
  · rw [hx, hy]
    exact h.inTile hle
  · rw [hx, hy]
    exact h.later hlt

/-- Inside a tile the update only counts. -/
theorem update_inside {p : CtbPos} {a b : Nat}
    (hin : (p.update pps sps a b).atTileStart = false) :
    (p.update pps sps a b).i4CtbSliceX = (p.bump.slice pps sps a b).i4CtbSliceX ∧
      (p.update pps sps a b).i4CtbSliceY = (p.bump.slice pps sps a b).i4CtbSliceY := by
  have hupdate : p.update pps sps a b =
      let q := p.bump.slice pps sps a b
      let q := if q.i4CtbTileX = (pps.psTile q.psTile).u2Wd then q.nextRow pps sps else q
      { q with i4NextCtbIndx := q.i4CtbX + q.i4CtbY * sps.i2PicWdInCtb } := rfl
  rw [hupdate] at hin ⊢
  unfold CtbPos.nextRow at *
  dsimp only at *
  split_ifs at hin ⊢ <;> simp_all [CtbPos.atTileStart]

/-- Quotient and remainder are unique. -/
theorem mul_add_inj {a b c d wd : Nat} (hb : b < wd) (hd : d < wd) (hn : a * wd + b = c * wd + d) :
    b = d ∧ a = c := by
  have hdm := (Nat.div_mod_unique (by omega : 0 < wd) (a := a * wd + b) (c := b) (d := a)).mpr
    ⟨by rw [Nat.mul_comm, Nat.add_comm], hb⟩
  have hdm' := (Nat.div_mod_unique (by omega : 0 < wd) (a := c * wd + d) (c := d) (d := c)).mpr
    ⟨by rw [Nat.mul_comm, Nat.add_comm], hd⟩
  rw [hn] at hdm
  exact ⟨hdm.2.symm.trans hdm'.2, hdm.1.symm.trans hdm'.1⟩

section
variable {e : EntropySetup} {segments : Nat → Option SegmentHdr} {X Y : Nat → Nat}
  (h : e.pps.InGrid e.sps.i2PicWdInCtb e.sps.i2PicHtInCtb X Y)
include h

-- ---------------------------------------------------------------------------
-- Segments and tiles
-- ---------------------------------------------------------------------------

/-- In raster scan a tile begins where no later tile does, but after the tiles before it. -/
theorem PpsTiles.InGrid.tile_raster_lt (ht : t < e.pps.i1NumTileRows * e.pps.i1NumTileColumns)
    (hlt : s < t) :
    (e.pps.psTile s).u1PosX + (e.pps.psTile s).u1PosY * e.sps.i2PicWdInCtb <
      (e.pps.psTile t).u1PosX + (e.pps.psTile t).u1PosY * e.sps.i2PicWdInCtb := by
  obtain ⟨r, hr, c, hc, rfl, htile⟩ := h.tile_at ht
  obtain ⟨r', hr', c', hc', rfl, htile'⟩ := h.tile_at (hlt.trans ht)
  rw [htile, htile']
  dsimp only
  have hwd : X c' < e.sps.i2PicWdInCtb :=
    (h.cols.lt c' hc').trans_le (h.cols.le_size (Nat.succ_le_of_lt hc'))
  rcases Nat.lt_trichotomy r' r with hrows | rfl | hrows
  · have hY : Y r' + 1 ≤ Y r := (h.rows.lt r' hr').trans_le (h.rows.mono hrows hr.le)
    have hmul : (Y r' + 1) * e.sps.i2PicWdInCtb ≤ Y r * e.sps.i2PicWdInCtb :=
      Nat.mul_le_mul_right _ hY
    rw [Nat.succ_mul] at hmul
    omega
  · have hcols : c' < c := by omega
    have hX : X c' < X c := (h.cols.lt c' hc').trans_le (h.cols.mono hcols hc.le)
    omega
  · have hmul : (r + 1) * e.pps.i1NumTileColumns ≤ r' * e.pps.i1NumTileColumns :=
      Nat.mul_le_mul_right _ hrows
    rw [Nat.succ_mul] at hmul
    omega

theorem PpsTiles.InGrid.psTile_lt (hk : k < e.numCtbs) :
    (ctbAt e.pps e.sps k).psTile < e.pps.i1NumTileRows * e.pps.i1NumTileColumns := by
  obtain ⟨t, ht, y, _, x, _, hplace⟩ := mem_places (h.ctbAt_mem hk)
  rw [hplace]
  exact ht

theorem PpsTiles.InGrid.tileStart_le (hk : k < e.numCtbs) : tileStart e.pps e.sps k ≤ k := by
  have hrank := (h.inTile hk).rank
  omega

/-- A segment from an earlier tile begins with its tile. -/
theorem PpsTiles.InGrid.segment_tileStart (hp : e.Slices segments) (hk : k < e.numCtbs)
    (hlt : (e.ctuOrder segments).segmentStart k < tileStart e.pps e.sps k) :
    tileStart e.pps e.sps ((e.ctuOrder segments).segmentStart k) =
      (e.ctuOrder segments).segmentStart k := by
  have hle := (e.ctuOrder segments).segmentStart_le k
  have hs : (e.ctuOrder segments).segmentStart k < e.numCtbs := hle.trans_lt hk
  have hsTile := h.tileStart_le hs
  rcases hp.tiles _ hs with hone | hall
  · -- CTB `k` is of the segment, but not of the tile in which it begins
    have htile := hone k hk (CtuOrder.segmentStart_idem k).symm
    have hstart := (((h.tileStart_spec hs).2 k hk).1 htile)
    omega
  · have hfirst := hall (tileStart e.pps e.sps ((e.ctuOrder segments).segmentStart k))
      (hsTile.trans_lt hs) (h.tileStart_spec hs).1.1
    rw [CtuOrder.segmentStart_idem] at hfirst
    have hle' := (e.ctuOrder segments).segmentStart_le
      (tileStart e.pps e.sps ((e.ctuOrder segments).segmentStart k))
    omega

/-- No segment begins inside a tile that a segment before has reached. -/
theorem PpsTiles.InGrid.segment_inTile (hp : e.Slices segments) (hk : k + 1 < e.numCtbs)
    (htile : (ctbAt e.pps e.sps (k + 1)).psTile = (ctbAt e.pps e.sps k).psTile)
    (hseg : (segments (k + 1)).isSome) :
    tileStart e.pps e.sps k ≤ (e.ctuOrder segments).segmentStart k := by
  by_contra hlt
  rw [Nat.not_le] at hlt
  have hk' : k < e.numCtbs := Nat.lt_of_succ_lt hk
  have hle := (e.ctuOrder segments).segmentStart_le k
  rcases hp.tiles k hk' with hone | hall
  · have hstart := hone _ (hle.trans_lt hk') (CtuOrder.segmentStart_idem k)
    have heq := ((h.tileStart_spec hk').2 _ (hle.trans_lt hk')).1 hstart
    have hsTile := h.tileStart_le (k := (e.ctuOrder segments).segmentStart k) (hle.trans_lt hk')
    omega
  · have hnext := hall (k + 1) hk htile
    rw [CtuOrder.segmentStart_of_some (by simpa [EntropySetup.ctuOrder] using hseg)] at hnext
    omega

/-- The comparison of the two addresses tells in which tile the segment began. -/
theorem PpsTiles.InGrid.raster_lt_iff (hp : e.Slices segments) (hk : k < e.numCtbs) :
    (ctbAt e.pps e.sps ((e.ctuOrder segments).segmentStart k)).i4CtbX +
        (ctbAt e.pps e.sps ((e.ctuOrder segments).segmentStart k)).i4CtbY * e.sps.i2PicWdInCtb <
      (e.pps.psTile (ctbAt e.pps e.sps k).psTile).u1PosX +
        (e.pps.psTile (ctbAt e.pps e.sps k).psTile).u1PosY * e.sps.i2PicWdInCtb ↔
    (e.ctuOrder segments).segmentStart k < tileStart e.pps e.sps k := by
  have hle := (e.ctuOrder segments).segmentStart_le k
  have hs : (e.ctuOrder segments).segmentStart k < e.numCtbs := hle.trans_lt hk
  have hin := h.inTile hs
  have hx := hin.posX
  have hy := hin.posY
  rcases Nat.lt_or_ge ((e.ctuOrder segments).segmentStart k) (tileStart e.pps e.sps k)
    with hlt | hge
  · refine iff_of_true ?_ hlt
    have hrank := hin.rank
    rw [h.segment_tileStart hp hk hlt] at hrank
    have hzero : (ctbAt e.pps e.sps ((e.ctuOrder segments).segmentStart k)).i4CtbTileY *
        (e.pps.psTile (ctbAt e.pps e.sps ((e.ctuOrder segments).segmentStart k)).psTile).u2Wd =
        0 := by omega
    have hwd := hin.tileX
    have hTileY : (ctbAt e.pps e.sps ((e.ctuOrder segments).segmentStart k)).i4CtbTileY = 0 := by
      rcases Nat.mul_eq_zero.mp hzero with hz | hz
      · exact hz
      · omega
    have htiles : (ctbAt e.pps e.sps ((e.ctuOrder segments).segmentStart k)).psTile <
        (ctbAt e.pps e.sps k).psTile := by
      have hbefore := h.ctbAt_before (show (e.ctuOrder segments).segmentStart k < k by
        have hT := h.tileStart_le hk
        omega) hk
      rcases hbefore with hbefore | ⟨heq, _⟩
      · exact hbefore
      · have hstart := ((h.tileStart_spec hk).2 _ hs).1 heq
        have hT := h.segment_tileStart hp hk hlt
        omega
    have hraster := h.tile_raster_lt (h.psTile_lt hk) htiles
    rw [hx, hy, hTileY, Nat.add_zero]
    omega
  · refine iff_of_false ?_ (by omega)
    have htile := ((h.tileStart_spec hk).2 _ hs).2 hge hle
    rw [hx, hy, htile, Nat.add_mul]
    omega

-- ---------------------------------------------------------------------------
-- The end of a CTB
-- ---------------------------------------------------------------------------

/-- The next CTB of a tile is to the right, or the first one of the next row. -/
theorem PpsTiles.InGrid.next_inTile (hk : k + 1 < e.numCtbs)
    (htile : (ctbAt e.pps e.sps (k + 1)).psTile = (ctbAt e.pps e.sps k).psTile) :
    tileStart e.pps e.sps (k + 1) = tileStart e.pps e.sps k ∧
    (ctbAt e.pps e.sps (k + 1)).i4CtbTileX =
      (if (ctbAt e.pps e.sps k).i4CtbTileX + 1 = (e.pps.psTile (ctbAt e.pps e.sps k).psTile).u2Wd
        then 0 else (ctbAt e.pps e.sps k).i4CtbTileX + 1) ∧
    (ctbAt e.pps e.sps (k + 1)).i4CtbTileY =
      (if (ctbAt e.pps e.sps k).i4CtbTileX + 1 = (e.pps.psTile (ctbAt e.pps e.sps k).psTile).u2Wd
        then (ctbAt e.pps e.sps k).i4CtbTileY + 1 else (ctbAt e.pps e.sps k).i4CtbTileY) := by
  have hk' : k < e.numCtbs := Nat.lt_of_succ_lt hk
  have hstart := ((h.tileStart_spec hk').2 _ hk).1 htile
  have hin := h.inTile hk'
  have hin' := h.inTile hk
  have hrank := hin.rank
  have hrank' := hin'.rank
  have hx := hin.tileX
  have hx' := hin'.tileX
  rw [htile] at hrank' hx'
  rw [hstart] at hrank'
  generalize (e.pps.psTile (ctbAt e.pps e.sps k).psTile).u2Wd = wd at *
  refine ⟨hstart, ?_⟩
  -- both are the quotient and the remainder of the same number
  have hnum : (ctbAt e.pps e.sps (k + 1)).i4CtbTileY * wd + (ctbAt e.pps e.sps (k + 1)).i4CtbTileX =
      (ctbAt e.pps e.sps k).i4CtbTileY * wd + (ctbAt e.pps e.sps k).i4CtbTileX + 1 := by omega
  split_ifs with hend
  · exact mul_add_inj hx' (by omega) (by rw [hnum, Nat.succ_mul]; omega)
  · exact mul_add_inj hx' (by omega) (by rw [hnum]; omega)

/-- A CTB inside a tile goes on with the count. -/
theorem PpsTiles.InGrid.slice_step (hp : e.Slices segments) (hk : k + 1 < e.numCtbs)
    (htile : (ctbAt e.pps e.sps (k + 1)).psTile = (ctbAt e.pps e.sps k).psTile) {p : CtbPos}
    (hctb : p.ctb = (ctbAt e.pps e.sps k).ctb)
    (hs : SlicePos e.pps e.sps k ((e.ctuOrder segments).segmentStart k) slice p) :
    SlicePos e.pps e.sps (k + 1) ((e.ctuOrder segments).segmentStart k) slice
      (p.bump.slice e.pps e.sps
        (ctbAt e.pps e.sps ((e.ctuOrder segments).segmentStart k)).i4CtbX
        (ctbAt e.pps e.sps ((e.ctuOrder segments).segmentStart k)).i4CtbY) := by
  have hk' : k < e.numCtbs := Nat.lt_of_succ_lt hk
  have hraster := h.raster_lt_iff hp hk'
  obtain ⟨hstart, hx, hy⟩ := h.next_inTile hk htile
  have hposX := (h.inTile hk').posX
  have hposX' := (h.inTile hk).posX
  rw [htile] at hposX'
  have ht : p.bump.psTile = (ctbAt e.pps e.sps k).psTile := (ctb_eq_iff.mp hctb).2.2.2.2
  have hbumpX : p.bump.i4CtbSliceX = p.i4CtbSliceX + 1 := rfl
  have hbumpY : p.bump.i4CtbSliceY = p.i4CtbSliceY := rfl
  -- without tiles every segment begins in the only tile
  have huntiled : e.pps.i1TilesEnabledFlag = 0 →
      ¬(e.ctuOrder segments).segmentStart k < tileStart e.pps e.sps k := by
    intro hflag
    obtain ⟨hcols, hrows⟩ := h.untiled hflag
    have htile0 := h.tile 0 (by omega) 0 (by omega)
    rw [Nat.zero_mul, Nat.zero_add, h.cols.first, h.rows.first] at htile0
    rw [← hraster, (h.ctbAt_untiled hflag hk').2.2.2.2, htile0]
    simp
  constructor
  · intro hle
    rw [hstart] at hle
    have hge : ¬(e.ctuOrder segments).segmentStart k < tileStart e.pps e.sps k := by omega
    obtain ⟨hlt, hpos⟩ := hs.inTile hle
    have hslice : p.bump.slice e.pps e.sps
        (ctbAt e.pps e.sps ((e.ctuOrder segments).segmentStart k)).i4CtbX
        (ctbAt e.pps e.sps ((e.ctuOrder segments).segmentStart k)).i4CtbY =
        if p.bump.i4CtbSliceX = (e.pps.psTile (ctbAt e.pps e.sps k).psTile).u2Wd then
          { p.bump with i4CtbSliceY := p.bump.i4CtbSliceY + 1, i4CtbSliceX := 0 }
        else p.bump := by
      unfold CtbPos.slice
      dsimp only
      rw [ht, if_neg (mt hraster.mp hge), ite_id]
    rw [hslice, hstart, htile]
    split_ifs with hend
    · rw [hbumpX] at hend
      dsimp only
      rw [hbumpY, Nat.succ_mul]
      omega
    · rw [hbumpX] at hend
      rw [hbumpX, hbumpY]
      omega
  · intro hlt
    rw [hstart] at hlt
    obtain ⟨hpx, hpy⟩ := hs.later hlt
    have hflag : e.pps.i1TilesEnabledFlag ≠ 0 := fun hflag => huntiled hflag hlt
    have hslice : p.bump.slice e.pps e.sps
        (ctbAt e.pps e.sps ((e.ctuOrder segments).segmentStart k)).i4CtbX
        (ctbAt e.pps e.sps ((e.ctuOrder segments).segmentStart k)).i4CtbY =
        if p.bump.i4CtbSliceX = (e.pps.psTile (ctbAt e.pps e.sps k).psTile).u1PosX +
            (e.pps.psTile (ctbAt e.pps e.sps k).psTile).u2Wd then
          { p.bump with
            i4CtbSliceY := p.bump.i4CtbSliceY + 1
            i4CtbSliceX := (e.pps.psTile (ctbAt e.pps e.sps k).psTile).u1PosX }
        else p.bump := by
      unfold CtbPos.slice
      dsimp only
      rw [ht, if_pos hflag, if_pos (hraster.mpr hlt)]
    rw [hslice, hposX', hx, hy]
    split_ifs with hend hcol hcol
    · dsimp only
      rw [hbumpY]
      omega
    · rw [hbumpX] at hend
      omega
    · rw [hbumpX] at hend
      omega
    · rw [hbumpX, hbumpY]
      omega

-- ---------------------------------------------------------------------------
-- The start of a CTB
-- ---------------------------------------------------------------------------

omit h in
theorem startTile_keeps (s : SliceData) : (s.startTile e).hdr = s.hdr ∧
    (s.startTile e).pos.i4CtbSliceX = s.pos.i4CtbSliceX ∧
    (s.pos.atTileStart = false ∨ (s.pos.i4CtbSliceX = 0 ∧ s.pos.i4CtbSliceY = 0) →
      (s.startTile e).pos = s.pos) := by
  unfold SliceData.startTile
  dsimp only
  split_ifs with hc hr
  · exact ⟨rfl, rfl, fun hn => absurd hc
      (by rintro ⟨h1, -, h3⟩; rcases hn with hn | hn <;> simp_all)⟩
  · exact ⟨rfl, rfl, fun hn => absurd hc
      (by rintro ⟨h1, -, h3⟩; rcases hn with hn | hn <;> simp_all)⟩
  · exact ⟨rfl, rfl, fun _ => rfl⟩

theorem PpsTiles.InGrid.startTile_ctb (hk : k < e.numCtbs) {s : SliceData}
    (hctb : s.pos.ctb = (ctbAt e.pps e.sps k).ctb) :
    (s.startTile e).pos.ctb = (ctbAt e.pps e.sps k).ctb := by
  obtain ⟨hx, hy, _⟩ := ctb_eq_iff.mp hctb
  have hset := h.setTile_ctb (h.ctbAt_mem hk) hx hy
  unfold SliceData.startTile
  dsimp only
  split_ifs
  · exact hset
  · exact hset
  · exact hctb

/-- Inside a tile the CTB before is of the tile. -/
theorem PpsTiles.InGrid.prev_inTile (hk : k + 1 < e.numCtbs)
    (hstart : (ctbAt e.pps e.sps (k + 1)).atTileStart = false) :
    (ctbAt e.pps e.sps (k + 1)).psTile = (ctbAt e.pps e.sps k).psTile := by
  have hrank := (h.inTile hk).rank
  have hx := (h.inTile hk).tileX
  have hT : tileStart e.pps e.sps (k + 1) ≤ k := by
    by_contra hgt
    have hle := h.tileStart_le hk
    have hzero : (ctbAt e.pps e.sps (k + 1)).i4CtbTileY *
        (e.pps.psTile (ctbAt e.pps e.sps (k + 1)).psTile).u2Wd = 0 ∧
        (ctbAt e.pps e.sps (k + 1)).i4CtbTileX = 0 := by omega
    have hTileY : (ctbAt e.pps e.sps (k + 1)).i4CtbTileY = 0 := by
      rcases Nat.mul_eq_zero.mp hzero.1 with hz | hz
      · exact hz
      · omega
    simp [CtbPos.atTileStart, hzero.2, hTileY] at hstart
  exact (((h.tileStart_spec hk).2 k (Nat.lt_of_succ_lt hk)).2 hT (Nat.le_succ k)).symm

theorem PpsTiles.InGrid.tileStart_self (hk : k < e.numCtbs)
    (hstart : (ctbAt e.pps e.sps k).atTileStart = true) : tileStart e.pps e.sps k = k := by
  have hrank := (h.inTile hk).rank
  simp only [CtbPos.atTileStart, decide_eq_true_eq] at hstart
  rw [hstart.1, hstart.2, Nat.zero_mul] at hrank
  omega

omit h in
/-- CTB `k` is about to be parsed. -/
structure SliceAt (e : EntropySetup) (segments : Nat → Option SegmentHdr) (k : Nat)
    (s : SliceData) : Prop where
  ctb : s.pos.ctb = (ctbAt e.pps e.sps k).ctb
  slice : SlicePos e.pps e.sps k ((e.ctuOrder segments).segmentStart k)
    ((e.ctuOrder segments).sliceStart k) s.pos
  hdrX : s.hdr.i2CtbX = (ctbAt e.pps e.sps ((e.ctuOrder segments).segmentStart k)).i4CtbX
  hdrY : s.hdr.i2CtbY = (ctbAt e.pps e.sps ((e.ctuOrder segments).segmentStart k)).i4CtbY
  sliceType : (segments ((e.ctuOrder segments).sliceStart k)).map SegmentHdr.i1SliceType =
    some s.hdr.i1SliceType

/-- After CTB `k`, the next one is in the picture. -/
structure SliceAfter (e : EntropySetup) (segments : Nat → Option SegmentHdr) (k : Nat)
    (s : SliceData) : Prop where
  place : s.pos.place = ctbAt e.pps e.sps (k + 1)
  tile : s.pos.atTileStart = true → s.pos.i4CtbSliceX = s.pos.i4CtbX
  slice : s.pos.atTileStart = false → SlicePos e.pps e.sps (k + 1)
    ((e.ctuOrder segments).segmentStart k) ((e.ctuOrder segments).sliceStart k) s.pos
  hdrX : s.hdr.i2CtbX = (ctbAt e.pps e.sps ((e.ctuOrder segments).segmentStart k)).i4CtbX
  hdrY : s.hdr.i2CtbY = (ctbAt e.pps e.sps ((e.ctuOrder segments).segmentStart k)).i4CtbY
  sliceType : (segments ((e.ctuOrder segments).sliceStart k)).map SegmentHdr.i1SliceType =
    some s.hdr.i1SliceType

theorem PpsTiles.InGrid.sliceAt_startSegment (hp : e.Slices segments) (hk : k < e.numCtbs)
    (hs : ∀ j, k = j + 1 → SliceAfter e segments j s) (hseg : segments k = some hdr) :
    SliceAt e segments k (s.startSegment e hdr) ∧
      ((ctbAt e.pps e.sps k).atTileStart = true →
        (s.startSegment e hdr).pos.i4CtbSliceX = 0 ∧
          (s.startSegment e hdr).pos.i4CtbSliceY = 0) := by
  obtain ⟨hx, hy⟩ := hp.address k hk hdr hseg
  obtain ⟨hdep, hx', hy'⟩ := parsed_fields s.hdr hdr
  obtain ⟨hctb, hsx, hsy⟩ := h.startPos_eq (h.ctbAt_mem hk) (hx'.trans hx) (hy'.trans hy) s.pos
  rw [hdep] at hsx hsy
  have hself : (e.ctuOrder segments).segmentStart k = k :=
    CtuOrder.segmentStart_of_some (by simp [EntropySetup.ctuOrder, hseg])
  have hT := h.tileStart_le hk
  have hfirst : hdr.i1DependentSliceFlag = true → ∃ j, k = j + 1 := by
    intro hd
    obtain ⟨hdr₀, hseg₀, hdep₀⟩ := hp.first
    cases k with
    | zero =>
      rw [hseg₀] at hseg
      cases hseg
      rw [hdep₀] at hd
      contradiction
    | succ j => exact ⟨j, rfl⟩
  have hpred : hdr.i1DependentSliceFlag = true → ∀ j, k = j + 1 →
      (e.ctuOrder segments).sliceStart k = (e.ctuOrder segments).sliceStart j := by
    rintro hd j rfl
    exact CtuOrder.sliceStart_of_none (by simp [EntropySetup.ctuOrder, hseg, hd])
  have hindep : hdr.i1DependentSliceFlag = false →
      (e.ctuOrder segments).sliceStart k = k := fun hd =>
    CtuOrder.sliceStart_of_independent (by simp [EntropySetup.ctuOrder, hseg, hd])
  have hwd := (h.inTile hk).tileX
  refine ⟨⟨hctb, ⟨fun _ => ?_, fun hlt => ?_⟩, ?_, ?_, ?_⟩, fun htile => ?_⟩
  · change (SegmentHdr.startPos e _ s.pos).i4CtbSliceX < _ ∧
      (SegmentHdr.startPos e _ s.pos).i4CtbSliceY * _ +
        (SegmentHdr.startPos e _ s.pos).i4CtbSliceX + _ = k
    rw [hsx, hsy]
    split_ifs with hzero
    · rw [Nat.zero_mul]
      refine ⟨by omega, ?_⟩
      rcases hzero with hd | htile
      · rw [hindep hd]
        omega
      · have hstart := h.tileStart_self hk htile
        have hle := (e.ctuOrder segments).sliceStart_le k
        omega
    · -- a dependent segment inside a tile goes on with the slice
      obtain ⟨hd, hinside⟩ := not_or.mp hzero
      rw [Bool.not_eq_false] at hd
      rw [Bool.not_eq_true] at hinside
      obtain ⟨j, rfl⟩ := hfirst hd
      have hafter := hs j rfl
      have htile := h.prev_inTile hk hinside
      have hstart := ((h.tileStart_spec (Nat.lt_of_succ_lt hk)).2 _ hk).1 htile
      have hseg' := h.segment_inTile hp hk htile (by simp [hseg])
      have hnot : s.pos.atTileStart = false := by
        have := hafter.place
        rw [← hinside, ← this]
        rfl
      rw [hpred hd j rfl]
      exact (hafter.slice hnot).inTile (by omega)
  · omega
  · rw [hself]
    exact hx'.trans hx
  · rw [hself]
    exact hy'.trans hy
  · change _ = some (s.hdr.parsed hdr).i1SliceType
    cases hd : hdr.i1DependentSliceFlag with
    | false => rw [hindep hd, hseg, parsed_independent hd, Option.map_some]
    | true =>
      obtain ⟨j, rfl⟩ := hfirst hd
      rw [hpred hd j rfl, (hs j rfl).sliceType]
      simp [SegmentHdr.parsed, hd]
  · change (SegmentHdr.startPos e _ s.pos).i4CtbSliceX = 0 ∧
      (SegmentHdr.startPos e _ s.pos).i4CtbSliceY = 0
    rw [hsx, hsy, if_pos (.inr htile), if_pos (.inr htile)]
    exact ⟨rfl, rfl⟩

omit h in
theorem SliceAt.congr (hs : SliceAt e segments k s) (hpos : s'.pos = s.pos)
    (hhdr : s'.hdr = s.hdr) : SliceAt e segments k s' := by
  refine ⟨?_, ?_, ?_, ?_, ?_⟩
  · rw [hpos]
    exact hs.ctb
  · rw [hpos]
    exact hs.slice
  · rw [hhdr]
    exact hs.hdrX
  · rw [hhdr]
    exact hs.hdrY
  · rw [hhdr]
    exact hs.sliceType

omit h in
/-- Inside a tile, and where a slice begins, the start of a tile does nothing to positions. -/
theorem SliceAt.startTile (hs : SliceAt e segments k s)
    (hkeep : (ctbAt e.pps e.sps k).atTileStart = false ∨
      (s.pos.i4CtbSliceX = 0 ∧ s.pos.i4CtbSliceY = 0)) :
    SliceAt e segments k (s.startTile e) := by
  obtain ⟨hhdr, _, hpos⟩ := startTile_keeps (e := e) s
  rw [← atTileStart_congr hs.ctb] at hkeep
  exact hs.congr (hpos hkeep) hhdr

/-- No segment begins with the CTB. -/
theorem PpsTiles.InGrid.sliceAt_goesOn (hk : j + 1 < e.numCtbs) (hs : SliceAfter e segments j s)
    (hseg : segments (j + 1) = none) : SliceAt e segments (j + 1) (s.startTile e) := by
  have hsegment : (e.ctuOrder segments).segmentStart (j + 1) =
      (e.ctuOrder segments).segmentStart j :=
    CtuOrder.segmentStart_of_none (by simp [EntropySetup.ctuOrder, hseg])
  have hslice : (e.ctuOrder segments).sliceStart (j + 1) = (e.ctuOrder segments).sliceStart j :=
    CtuOrder.sliceStart_of_none (by simp [EntropySetup.ctuOrder, hseg])
  have hctb : s.pos.ctb = (ctbAt e.pps e.sps (j + 1)).ctb :=
    ctb_eq_iff.mpr (by rw [← hs.place]; exact ⟨rfl, rfl, rfl, rfl, rfl⟩)
  have hstart := atTileStart_congr hctb
  obtain ⟨hhdr, hsx, hpos⟩ := startTile_keeps (e := e) s
  refine ⟨h.startTile_ctb hk hctb, ?_, ?_, ?_, ?_⟩
  · rw [hsegment, hslice]
    cases htile : (ctbAt e.pps e.sps (j + 1)).atTileStart with
    | false =>
      rw [htile] at hstart
      rw [hpos (.inl hstart)]
      exact hs.slice hstart
    | true =>
      -- the segment comes from a tile before
      rw [htile] at hstart
      have hself := h.tileStart_self hk htile
      have hle := (e.ctuOrder segments).segmentStart_le j
      simp only [CtbPos.atTileStart, decide_eq_true_eq] at htile
      refine ⟨fun hle' => by omega, fun _ => ⟨?_, ?_⟩⟩
      · rw [hsx, hs.tile hstart]
        exact (ctb_eq_iff.mp hctb).1
      · rw [htile.2]
        exact Nat.zero_le _
  · rw [hhdr, hsegment]
    exact hs.hdrX
  · rw [hhdr, hsegment]
    exact hs.hdrY
  · rw [hhdr, hslice]
    exact hs.sliceType

theorem PpsTiles.InGrid.sliceAt_startCtb (hp : e.Slices segments) (hk : k < e.numCtbs)
    (hs : ∀ j, k = j + 1 → SliceAfter e segments j s) :
    SliceAt e segments k (s.startCtb e (segments k)) := by
  have htile : SliceAt e segments k (((segments k).elim s (s.startSegment e)).startTile e) := by
    cases hseg : segments k with
    | none =>
      cases k with
      | zero =>
        obtain ⟨hdr, hfirst, _⟩ := hp.first
        rw [hfirst] at hseg
        contradiction
      | succ j => exact h.sliceAt_goesOn hk (hs j rfl) hseg
    | some hdr =>
      obtain ⟨hat, hzero⟩ := h.sliceAt_startSegment hp hk hs hseg
      refine hat.startTile ?_
      cases htile : (ctbAt e.pps e.sps k).atTileStart with
      | false => exact .inl rfl
      | true => exact .inr (hzero htile)
  obtain ⟨hpos, hhdr, _⟩ := startRow_eq (e := e)
    (((segments k).elim s (s.startSegment e)).startTile e)
  exact htile.congr hpos hhdr

theorem PpsTiles.InGrid.sliceAfter_endCtb (hp : e.Slices segments) (hk : k + 1 < e.numCtbs)
    (hs : SliceAt e segments k s) (parser : CtuParser) :
    SliceAfter e segments k (s.endCtb e parser k) := by
  have hplace : (s.endCtb e parser k).pos.place = ctbAt e.pps e.sps (k + 1) := by
    have hctb : s.pos.place.ctb = (ctbAt e.pps e.sps k).ctb := hs.ctb
    rw [← h.ctbAt_succ hk, ← advance_congr hctb]
    exact update_place e.pps e.sps _ _ _
  have hend : (s.endCtb e parser k).pos.endOfPic = 0 := by
    obtain ⟨t, _, y, _, x, _, hq⟩ := mem_places (h.ctbAt_mem hk)
    rw [← hplace] at hq
    exact congrArg CtbPos.endOfPic hq
  refine ⟨hplace, fun htile => (update_atTileStart hend htile).1, fun hinside => ?_, hs.hdrX,
    hs.hdrY, hs.sliceType⟩
  have hstart : (ctbAt e.pps e.sps (k + 1)).atTileStart = false := by
    rw [← hplace]
    exact hinside
  have hstep := h.slice_step hp hk (h.prev_inTile hk hstart) hs.ctb hs.slice
  rw [← hs.hdrX, ← hs.hdrY] at hstep
  obtain ⟨hx, hy⟩ := update_inside hinside
  exact hstep.congr hx hy

-- ---------------------------------------------------------------------------
-- All CTBs of a picture
-- ---------------------------------------------------------------------------

/-- The position of every CTB of a picture, and its slice type. -/
theorem PpsTiles.InGrid.atCtb_slice (hp : e.Slices segments) (parser : CtuParser) (s : SliceData)
    (hk : k < e.numCtbs) : SliceAt e segments k (s.atCtb e parser segments k) := by
  induction k with
  | zero => exact h.sliceAt_startCtb hp hk fun j hj => by contradiction
  | succ k ih =>
    refine h.sliceAt_startCtb hp hk fun j hj => ?_
    cases hj
    exact h.sliceAfter_endCtb hp hk (ih (Nat.lt_of_succ_lt hk)) parser

-- ---------------------------------------------------------------------------
-- The CTBs to the left and above
-- ---------------------------------------------------------------------------

omit h in
/-- CTB `j` is some columns to the left of CTB `k` and some rows above it, in the same slice and the
same tile. -/
structure Near (e : EntropySetup) (segments : Nat → Option SegmentHdr) (k j dx dy : Nat) :
    Prop where
  lt : j < k
  posX : (ctbAt e.pps e.sps j).i4CtbX + dx = (ctbAt e.pps e.sps k).i4CtbX
  posY : (ctbAt e.pps e.sps j).i4CtbY + dy = (ctbAt e.pps e.sps k).i4CtbY
  tile : (ctbAt e.pps e.sps j).psTile = (ctbAt e.pps e.sps k).psTile
  slice : (e.ctuOrder segments).sliceStart j = (e.ctuOrder segments).sliceStart k

/-- The distance in the tile scan, and in the tile. -/
theorem PpsTiles.InGrid.near_inTile (hk : k < e.numCtbs) (hn : Near e segments k j dx dy) :
    (ctbAt e.pps e.sps j).i4CtbTileX + dx = (ctbAt e.pps e.sps k).i4CtbTileX ∧
      (ctbAt e.pps e.sps j).i4CtbTileY + dy = (ctbAt e.pps e.sps k).i4CtbTileY ∧
      j + (dy * (e.pps.psTile (ctbAt e.pps e.sps k).psTile).u2Wd + dx) = k := by
  have hj := hn.lt.trans hk
  have hstart := ((h.tileStart_spec hk).2 j hj).1 hn.tile
  obtain ⟨hrank, _, hposX, hposY⟩ := h.inTile hj
  obtain ⟨hrank', _, hposX', hposY'⟩ := h.inTile hk
  have hdx := hn.posX
  have hdy := hn.posY
  rw [hn.tile] at hrank hposX hposY
  have htileX : (ctbAt e.pps e.sps j).i4CtbTileX + dx = (ctbAt e.pps e.sps k).i4CtbTileX := by
    omega
  have htileY : (ctbAt e.pps e.sps j).i4CtbTileY + dy = (ctbAt e.pps e.sps k).i4CtbTileY := by
    omega
  refine ⟨htileX, htileY, ?_⟩
  rw [← htileX, ← htileY, Nat.add_mul] at hrank'
  omega

/-- The CTBs of a tile before CTB `k`, by their distance in the tile scan. -/
theorem PpsTiles.InGrid.near_of_distance (hk : k < e.numCtbs) (hpos : 0 < dy + dx)
    (hx : dx ≤ (ctbAt e.pps e.sps k).i4CtbTileX) (hy : dy ≤ (ctbAt e.pps e.sps k).i4CtbTileY)
    (hreach : (e.ctuOrder segments).sliceStart k +
      (dy * (e.pps.psTile (ctbAt e.pps e.sps k).psTile).u2Wd + dx) ≤ k) :
    Near e segments k
      (k - (dy * (e.pps.psTile (ctbAt e.pps e.sps k).psTile).u2Wd + dx)) dx dy := by
  obtain ⟨hrank, hwd, hposX, hposY⟩ := h.inTile hk
  have hmul : dy * (e.pps.psTile (ctbAt e.pps e.sps k).psTile).u2Wd ≤
      (ctbAt e.pps e.sps k).i4CtbTileY * (e.pps.psTile (ctbAt e.pps e.sps k).psTile).u2Wd :=
    Nat.mul_le_mul_right _ hy
  have hdist : 0 < dy * (e.pps.psTile (ctbAt e.pps e.sps k).psTile).u2Wd + dx := by
    rcases Nat.eq_zero_or_pos dx with rfl | hdx
    · exact Nat.add_pos_left (Nat.mul_pos (by omega) (by omega)) _
    · omega
  generalize hj : k - (dy * (e.pps.psTile (ctbAt e.pps e.sps k).psTile).u2Wd + dx) = j
  have hlt : j < k := by omega
  have hTj : tileStart e.pps e.sps k ≤ j := by omega
  have hjn : j < e.numCtbs := hlt.trans hk
  have htile := ((h.tileStart_spec hk).2 j hjn).2 hTj hlt.le
  have hstart := ((h.tileStart_spec hk).2 j hjn).1 htile
  obtain ⟨hrank', hwd', hposX', hposY'⟩ := h.inTile hjn
  rw [htile, hstart] at hrank'
  rw [htile] at hwd' hposX' hposY'
  have hsub := Nat.sub_mul (ctbAt e.pps e.sps k).i4CtbTileY dy
    (e.pps.psTile (ctbAt e.pps e.sps k).psTile).u2Wd
  obtain ⟨hcol, hrow⟩ := mul_add_inj (a := (ctbAt e.pps e.sps j).i4CtbTileY)
    (c := (ctbAt e.pps e.sps k).i4CtbTileY - dy) (d := (ctbAt e.pps e.sps k).i4CtbTileX - dx) hwd'
    (by omega) (by omega)
  exact ⟨hlt, by omega, by omega, htile, CtuOrder.sliceStart_between (by omega) hlt.le⟩

/-- Between the CTB above and CTB `k` no CTB is in their column. -/
theorem PpsTiles.InGrid.near_above_last (hk : k < e.numCtbs) (hn : Near e segments k j 0 1)
    (hji : j < i) (hik : i < k) :
    (ctbAt e.pps e.sps i).i4CtbX ≠ (ctbAt e.pps e.sps k).i4CtbX := by
  intro hcol
  obtain ⟨_, _, hdist⟩ := h.near_inTile hk hn
  have hj := hn.lt.trans hk
  have hi := hik.trans hk
  have hstart := ((h.tileStart_spec hk).2 j hj).1 hn.tile
  have hTj := h.tileStart_le hj
  have htile := ((h.tileStart_spec hk).2 i hi).2 (by omega) hik.le
  have hstart' := ((h.tileStart_spec hk).2 i hi).1 htile
  obtain ⟨hrank, hwd, hposX, _⟩ := h.inTile hk
  obtain ⟨hrank', _, hposX', _⟩ := h.inTile hi
  rw [htile] at hrank' hposX'
  -- they are less than a row apart
  generalize (e.pps.psTile (ctbAt e.pps e.sps k).psTile).u2Wd = wd at *
  have hrows : (ctbAt e.pps e.sps i).i4CtbTileY < (ctbAt e.pps e.sps k).i4CtbTileY :=
    Nat.lt_of_mul_lt_mul_right (a := wd) (by omega)
  have hmul : ((ctbAt e.pps e.sps i).i4CtbTileY + 1) * wd ≤
      (ctbAt e.pps e.sps k).i4CtbTileY * wd := Nat.mul_le_mul_right _ hrows
  rw [Nat.succ_mul] at hmul
  omega

/-- In the tile in which the segment begins, the slice-relative position counts from the slice or
the tile; a segment from an earlier tile has all of the tile. -/
theorem PpsTiles.InGrid.above_iff (hk : k < e.numCtbs) (hs : SliceAt e segments k s) :
    (s.pos.i4CtbSliceY ≠ 0 ∧ s.pos.i4CtbTileY ≠ 0) ↔ ∃ j, Near e segments k j 0 1 := by
  obtain ⟨_, _, _, hty, _⟩ := ctb_eq_iff.mp hs.ctb
  obtain ⟨hrank, hwd, _, _⟩ := h.inTile hk
  have hle := (e.ctuOrder segments).sliceStart_le_segmentStart k
  rw [hty]
  constructor
  · rintro ⟨hy, htileY⟩
    refine ⟨_, h.near_of_distance hk (by omega) (Nat.zero_le _) (Nat.pos_of_ne_zero htileY) ?_⟩
    have hrow : (e.pps.psTile (ctbAt e.pps e.sps k).psTile).u2Wd ≤
        (ctbAt e.pps e.sps k).i4CtbTileY * (e.pps.psTile (ctbAt e.pps e.sps k).psTile).u2Wd :=
      Nat.le_mul_of_pos_left _ (Nat.pos_of_ne_zero htileY)
    rcases Nat.lt_or_ge ((e.ctuOrder segments).segmentStart k) (tileStart e.pps e.sps k)
      with hlt | hge
    · omega
    · obtain ⟨_, hcount⟩ := hs.slice.inTile hge
      have hrow' : (e.pps.psTile (ctbAt e.pps e.sps k).psTile).u2Wd ≤
          s.pos.i4CtbSliceY * (e.pps.psTile (ctbAt e.pps e.sps k).psTile).u2Wd :=
        Nat.le_mul_of_pos_left _ (Nat.pos_of_ne_zero hy)
      omega
  · rintro ⟨j, hn⟩
    obtain ⟨_, htileY, hdist⟩ := h.near_inTile hk hn
    have hj := hn.lt.trans hk
    have hstart := ((h.tileStart_spec hk).2 j hj).1 hn.tile
    have hTj := h.tileStart_le hj
    have hSj := (e.ctuOrder segments).sliceStart_le j
    rw [hn.slice] at hSj
    refine ⟨fun hy => ?_, by omega⟩
    rcases Nat.lt_or_ge ((e.ctuOrder segments).segmentStart k) (tileStart e.pps e.sps k)
      with hlt | hge
    · have hlater := (hs.slice.later hlt).2
      omega
    · obtain ⟨hsx, hcount⟩ := hs.slice.inTile hge
      rw [hy, Nat.zero_mul] at hcount
      omega

theorem PpsTiles.InGrid.left_iff (hk : k < e.numCtbs) (hs : SliceAt e segments k s) :
    ((s.pos.i4CtbSliceX ≠ 0 ∨ s.pos.i4CtbSliceY ≠ 0) ∧ s.pos.i4CtbTileX ≠ 0) ↔
      ∃ j, Near e segments k j 1 0 := by
  obtain ⟨_, _, htx, _, _⟩ := ctb_eq_iff.mp hs.ctb
  obtain ⟨hrank, hwd, hposX, _⟩ := h.inTile hk
  have hle := (e.ctuOrder segments).sliceStart_le_segmentStart k
  rw [htx]
  constructor
  · rintro ⟨hxy, htileX⟩
    refine ⟨_, h.near_of_distance hk (by omega) (Nat.pos_of_ne_zero htileX) (Nat.zero_le _) ?_⟩
    rcases Nat.lt_or_ge ((e.ctuOrder segments).segmentStart k) (tileStart e.pps e.sps k)
      with hlt | hge
    · omega
    · obtain ⟨_, hcount⟩ := hs.slice.inTile hge
      rcases hxy with hx | hy
      · omega
      · have hrow : (e.pps.psTile (ctbAt e.pps e.sps k).psTile).u2Wd ≤
            s.pos.i4CtbSliceY * (e.pps.psTile (ctbAt e.pps e.sps k).psTile).u2Wd :=
          Nat.le_mul_of_pos_left _ (Nat.pos_of_ne_zero hy)
        omega
  · rintro ⟨j, hn⟩
    obtain ⟨htileX, _, hdist⟩ := h.near_inTile hk hn
    have hj := hn.lt.trans hk
    have hstart := ((h.tileStart_spec hk).2 j hj).1 hn.tile
    have hTj := h.tileStart_le hj
    have hSj := (e.ctuOrder segments).sliceStart_le j
    rw [hn.slice] at hSj
    refine ⟨?_, by omega⟩
    rcases Nat.lt_or_ge ((e.ctuOrder segments).segmentStart k) (tileStart e.pps e.sps k)
      with hlt | hge
    · have hlater := (hs.slice.later hlt).1
      exact .inl (by omega)
    · obtain ⟨_, hcount⟩ := hs.slice.inTile hge
      by_contra hzero
      obtain ⟨hx, hy⟩ := not_or.mp hzero
      rw [not_not.mp hx, not_not.mp hy, Nat.zero_mul] at hcount
      omega

end

end Libhevc.Decoder
