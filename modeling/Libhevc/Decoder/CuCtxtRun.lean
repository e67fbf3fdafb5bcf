import Libhevc.Decoder.CuCtxtTree
import Libhevc.Decoder.SlicePosRun

/-!
# Contexts over a picture

The maps outlive CTBs, tiles and slices. Where the position of a CTB lets them be
read, they have the CTB to the left and the CTB above.
-/

namespace Libhevc.Decoder

open Spec Grid

/-- A picture, with the size of its smallest coding blocks. -/
structure CuSetup extends EntropySetup where
  i1Log2MinCodingBlockSize : Nat
  log2MinCodingBlockSize_ge : 3 ≤ i1Log2MinCodingBlockSize
  log2MinCodingBlockSize_le : i1Log2MinCodingBlockSize ≤ sps.i1Log2CtbSize

namespace CuSetup

variable (u : CuSetup) (segments : Nat → Option SegmentHdr)

def spsCu : SpsCu :=
  { u.sps with
    i1Log2MinCodingBlockSize := u.i1Log2MinCodingBlockSize
    log2MinCodingBlockSize_ge := u.log2MinCodingBlockSize_ge
    log2MinCodingBlockSize_le := u.log2MinCodingBlockSize_le }

/-- What CTB `k` is parsed with. -/
def place (parser : CtuParser) (s : SliceData) (k : Nat) : CuPlace where
  sps := u.spsCu
  pos := (s.atCtb u.toEntropySetup parser segments k).pos
  isIslice := (s.atCtb u.toEntropySetup parser segments k).hdr.i1SliceType = .islice

/-- CTB `k` as the specification has it. -/
def setting (k : Nat) : CuSetting where
  order := u.ctuOrder segments
  ctu := k
  picWidth := u.sps.i2PicWidthInLumaSamples
  picHeight := u.sps.i2PicHeightInLumaSamples
  log2MinCbSize := u.i1Log2MinCodingBlockSize
  intraSlice := (segments ((u.ctuOrder segments).sliceStart k)).any fun hdr =>
    hdr.i1SliceType = .islice

def ctbSize : Nat := 2 ^ u.sps.i1Log2CtbSize

/-- The left and the upper sample of CTB `k`. -/
def x0 (k : Nat) : Nat := (ctbAt u.pps u.sps k).i4CtbX * u.ctbSize

def y0 (k : Nat) : Nat := (ctbAt u.pps u.sps k).i4CtbY * u.ctbSize

end CuSetup

variable {u : CuSetup} {segments : Nat → Option SegmentHdr} {X Y : Nat → Nat}

/-- After `k` CTBs. The lower edge of the last CTB in each column is in the maps, and the right edge
of the last CTB. -/
structure MapsInv (u : CuSetup) (segments : Nat → Option SegmentHdr) (k : Nat) (m : CuMaps)
    (cus : CodedCus) : Prop where
  coded : ∀ x y cu, cus x y = some cu → cu.ctu < k ∧
    x / u.ctbSize = (ctbAt u.pps u.sps cu.ctu).i4CtbX ∧
    y / u.ctbSize = (ctbAt u.pps u.sps cu.ctu).i4CtbY
  bottom : ∀ j < k,
    (∀ i, j < i → i < k → (ctbAt u.pps u.sps i).i4CtbX ≠ (ctbAt u.pps u.sps j).i4CtbX) →
    u.y0 j + u.ctbSize ≤ u.sps.i2PicHeightInLumaSamples →
    BottomEdge (u.setting segments j) m cus (u.x0 j) (u.y0 j + u.ctbSize) u.ctbSize
  right : ∀ j, k = j + 1 → u.x0 j + u.ctbSize ≤ u.sps.i2PicWidthInLumaSamples →
    RightEdge (u.setting segments j) m cus (u.x0 j + u.ctbSize) (u.y0 j) u.ctbSize

theorem MapsInv.start (u : CuSetup) (segments : Nat → Option SegmentHdr) (m : CuMaps) :
    MapsInv u segments 0 m fun _ _ => none where
  coded x y cu hcu := by contradiction
  bottom j hj := by contradiction
  right j hj := by contradiction

theorem CuSetup.ctbSize_pos (u : CuSetup) : 0 < u.ctbSize := Nat.two_pow_pos _

/-- The samples of a CTB. -/
theorem CuSetup.div_ctbSize (u : CuSetup) (hx : a * u.ctbSize ≤ x)
    (hx' : x < a * u.ctbSize + u.ctbSize) : x / u.ctbSize = a :=
  Nat.div_eq_of_lt_le hx (by rwa [Nat.succ_mul])

/-- Different columns of CTBs have no sample in common. -/
theorem CuSetup.columns_disjoint (u : CuSetup) {a b : Nat} (hne : a ≠ b) :
    a * u.ctbSize + u.ctbSize ≤ b * u.ctbSize ∨ b * u.ctbSize + u.ctbSize ≤ a * u.ctbSize := by
  rcases Nat.lt_or_gt_of_ne hne with hlt | hgt
  · have hmul : (a + 1) * u.ctbSize ≤ b * u.ctbSize := Nat.mul_le_mul_right _ hlt
    rw [Nat.succ_mul] at hmul
    exact .inl hmul
  · have hmul : (b + 1) * u.ctbSize ≤ a * u.ctbSize := Nat.mul_le_mul_right _ hgt
    rw [Nat.succ_mul] at hmul
    exact .inr hmul

-- ---------------------------------------------------------------------------
-- One CTB
-- ---------------------------------------------------------------------------

/-- What a CTB does to the maps. -/
theorem MapsInv.step (h : MapsInv u segments k m cus)
    (hd : NodeDone (u.setting segments k) (u.x0 k) (u.y0 k) u.ctbSize m cus m' cus') :
    MapsInv u segments (k + 1) m' cus' := by
  refine ⟨fun x y cu hcu => ?_, fun j hj hlast hht => ?_, fun j hj hwd => ?_⟩
  · rcases hd.frame.inside x y cu hcu with hold | hnew
    · obtain ⟨hlt, hxy⟩ := h.coded x y cu hold
      exact ⟨hlt.trans k.lt_succ_self, hxy⟩
    · have hctu : cu.ctu = k := hnew
      rw [hctu]
      refine ⟨k.lt_succ_self, ?_⟩
      by_cases hin : u.x0 k ≤ x ∧ x < u.x0 k + u.ctbSize ∧ u.y0 k ≤ y ∧ y < u.y0 k + u.ctbSize
      · obtain ⟨hx, hx', hy, hy'⟩ := hin
        exact ⟨u.div_ctbSize hx hx', u.div_ctbSize hy hy'⟩
      · rw [hd.frame.outside x y hin] at hcu
        have hlt := (h.coded x y cu hcu).1
        omega
  · rcases Nat.lt_or_eq_of_le (Nat.le_of_lt_succ hj) with hlt | rfl
    · have hedge := h.bottom j hlt (fun i hji hik => hlast i hji (hik.trans k.lt_succ_self)) hht
      exact hedge.keep hd.frame (u.columns_disjoint (hlast k hlt k.lt_succ_self).symm)
    · exact hd.bottom hht
  · cases hj
    exact hd.right hwd

section
variable (h : u.pps.InGrid u.sps.i2PicWdInCtb u.sps.i2PicHtInCtb X Y)
include h

/-- Every CTB begins in the picture. -/
theorem PpsTiles.InGrid.ctb_inPicture (hk : k < u.numCtbs) :
    u.x0 k < u.sps.i2PicWidthInLumaSamples ∧ u.y0 k < u.sps.i2PicHeightInLumaSamples := by
  obtain ⟨t, ht, y, hy, x, hx, hplace⟩ := mem_places (h.ctbAt_mem hk)
  obtain ⟨r, hr, c, hc, rfl, htile⟩ := h.tile_at ht
  have hX : X (c + 1) ≤ u.sps.i2PicWdInCtb := h.cols.le_size (Nat.succ_le_of_lt hc)
  have hY : Y (r + 1) ≤ u.sps.i2PicHtInCtb := h.rows.le_size (Nat.succ_le_of_lt hr)
  rw [htile] at hx hy
  dsimp only at hx hy
  have hcol : (ctbAt u.pps u.sps k).i4CtbX < u.sps.i2PicWdInCtb := by
    rw [hplace, placeIn, htile]
    dsimp only
    omega
  have hrow : (ctbAt u.pps u.sps k).i4CtbY < u.sps.i2PicHtInCtb := by
    rw [hplace, placeIn, htile]
    dsimp only
    omega
  unfold CuSetup.x0 CuSetup.y0 CuSetup.ctbSize
  unfold SpsSize.i2PicWdInCtb at hcol
  unfold SpsSize.i2PicHtInCtb at hrow
  rcases u.sps.log2CtbSize_cases with hlog | hlog | hlog <;> rw [hlog] at hcol hrow ⊢ <;>
    simp only [Nat.shiftLeft_eq] at hcol hrow <;> omega

end

section
variable {parser : CtuParser} {s : SliceData}

theorem topAvailable_y0 (hat : SliceAt u.toEntropySetup segments k
      (s.atCtb u.toEntropySetup parser segments k)) :
    (u.place segments parser s k).topAvailable (u.y0 k) = true ↔
      (u.place segments parser s k).pos.i4CtbSliceY ≠ 0 ∧
        (u.place segments parser s k).pos.i4CtbTileY ≠ 0 := by
  have hpos : (u.place segments parser s k).cuPosY (u.y0 k) = 0 := by
    have hy : (u.place segments parser s k).pos.i4CtbY = (ctbAt u.pps u.sps k).i4CtbY :=
      (ctb_eq_iff.mp hat.ctb).2.1
    rw [CuPlace.cuPosY, hy, Nat.shiftLeft_eq]
    exact Nat.shiftRight_eq_zero _ _
      (by simp [CuSetup.y0, CuSetup.ctbSize, CuSetup.place, CuSetup.spsCu])
  simp [CuPlace.topAvailable, hpos]

theorem leftAvailable_x0 (hat : SliceAt u.toEntropySetup segments k
      (s.atCtb u.toEntropySetup parser segments k)) :
    (u.place segments parser s k).leftAvailable (u.x0 k) = true ↔
      ((u.place segments parser s k).pos.i4CtbSliceX ≠ 0 ∨
        (u.place segments parser s k).pos.i4CtbSliceY ≠ 0) ∧
        (u.place segments parser s k).pos.i4CtbTileX ≠ 0 := by
  have hpos : (u.place segments parser s k).cuPosX (u.x0 k) = 0 := by
    have hx : (u.place segments parser s k).pos.i4CtbX = (ctbAt u.pps u.sps k).i4CtbX :=
      (ctb_eq_iff.mp hat.ctb).1
    rw [CuPlace.cuPosX, hx, Nat.shiftLeft_eq]
    exact Nat.shiftRight_eq_zero _ _
      (by simp [CuSetup.x0, CuSetup.ctbSize, CuSetup.place, CuSetup.spsCu])
  simp [CuPlace.leftAvailable, hpos]

theorem sameCtu_place (hat : SliceAt u.toEntropySetup segments k
      (s.atCtb u.toEntropySetup parser segments k)) :
    SameCtu (u.place segments parser s k) (u.setting segments k) := by
  refine ⟨rfl, rfl, rfl, ?_⟩
  obtain ⟨hdr, hseg, htype⟩ := Option.map_eq_some_iff.mp hat.sliceType
  change (segments ((u.ctuOrder segments).sliceStart k)).any _ = _
  rw [hseg, Option.any_some, htype]
  rfl

end

-- ---------------------------------------------------------------------------
-- The edges of a CTB
-- ---------------------------------------------------------------------------

theorem Near.available {cu : CodedCu} (hn : Near u.toEntropySetup segments k cu.ctu dx dy) :
    (u.setting segments k).Available cu := ⟨hn.slice, hn.tile⟩

section
variable (h : u.pps.InGrid u.sps.i2PicWdInCtb u.sps.i2PicHtInCtb X Y) (hk : k < u.numCtbs)
  {parser : CtuParser} {s : SliceData}
  (hat : SliceAt u.toEntropySetup segments k (s.atCtb u.toEntropySetup parser segments k))
  (hinv : MapsInv u segments k m cus)
include h hk hat hinv

/-- The blocks above a CTB are in the maps, where the CTB above is available; elsewhere the maps are
not read. -/
theorem MapsInv.topEdge : TopEdge (u.place segments parser s k) (u.setting segments k) m cus
    (u.x0 k) (u.y0 k) u.ctbSize := by
  intro x hx hx' hw
  have hread := (topAvailable_y0 hat).trans (h.above_iff hk hat)
  have hpos := u.ctbSize_pos
  by_cases hn : ∃ j, Near u.toEntropySetup segments k j 0 1
  · rw [if_pos (hread.mpr hn)]
    obtain ⟨j, hn⟩ := hn
    have hcol : u.x0 j = u.x0 k := congrArg (· * u.ctbSize) hn.posX
    have hrow : u.y0 j + u.ctbSize = u.y0 k := by
      rw [CuSetup.y0, CuSetup.y0, ← Nat.succ_mul]
      exact congrArg (· * u.ctbSize) hn.posY
    have hht := (h.ctb_inPicture hk).2
    have hsame : (ctbAt u.pps u.sps j).i4CtbX = (ctbAt u.pps u.sps k).i4CtbX := hn.posX
    have hedge := hinv.bottom j hn.lt
      (fun i hji hik => by rw [hsame]; exact h.near_above_last hk hn hji hik) (by omega)
    rw [hcol, hrow] at hedge
    obtain ⟨cu, hcu, hctu, hmarks⟩ := hedge x hx hx' hw
    obtain rfl : cu.ctu = j := hctu
    rw [CuSetting.above, if_neg (by omega), hcu, ← hmarks]
    simp [hn.available]
  · rw [if_neg (mt hread.mp hn)]
    rw [CuSetting.above, Option.map_eq_none_iff]
    split_ifs with hy
    · rfl
    · rw [Option.filter_eq_none_iff]
      intro cu hcu hav
      -- it would be the CTB above
      obtain ⟨hslice, htile⟩ := of_decide_eq_true hav
      obtain ⟨hlt, hcol, hrow⟩ := hinv.coded x _ cu hcu
      rw [u.div_ctbSize hx hx'] at hcol
      obtain ⟨y, hy'⟩ : ∃ y, (ctbAt u.pps u.sps k).i4CtbY = y + 1 := by
        refine Nat.exists_eq_succ_of_ne_zero fun hzero => hy ?_
        rw [CuSetup.y0, hzero, Nat.zero_mul]
      have hy0 : u.y0 k = y * u.ctbSize + u.ctbSize := by
        rw [CuSetup.y0, hy', Nat.succ_mul]
      rw [hy0, u.div_ctbSize (a := y) (by omega) (by omega)] at hrow
      exact hn ⟨cu.ctu, hlt, hcol.symm, by rw [← hrow]; exact hy'.symm, htile, hslice⟩

theorem MapsInv.leftEdge : LeftEdge (u.place segments parser s k) (u.setting segments k) m cus
    (u.x0 k) (u.y0 k) u.ctbSize := by
  intro y hy hy' hh
  have hread := (leftAvailable_x0 hat).trans (h.left_iff hk hat)
  have hpos := u.ctbSize_pos
  by_cases hn : ∃ j, Near u.toEntropySetup segments k j 1 0
  · rw [if_pos (hread.mpr hn)]
    obtain ⟨j, hn⟩ := hn
    have hrow : u.y0 j = u.y0 k := congrArg (· * u.ctbSize) hn.posY
    have hcol : u.x0 j + u.ctbSize = u.x0 k := by
      rw [CuSetup.x0, CuSetup.x0, ← Nat.succ_mul]
      exact congrArg (· * u.ctbSize) hn.posX
    have hwd := (h.ctb_inPicture hk).1
    obtain ⟨_, _, hdist⟩ := h.near_inTile hk hn
    have hedge := hinv.right j (by omega) (by omega)
    rw [hcol, hrow] at hedge
    obtain ⟨cu, hcu, hctu, hmarks⟩ := hedge y hy hy' hh
    obtain rfl : cu.ctu = j := hctu
    rw [CuSetting.left, if_neg (by omega), hcu, ← hmarks]
    simp [hn.available]
  · rw [if_neg (mt hread.mp hn)]
    rw [CuSetting.left, Option.map_eq_none_iff]
    split_ifs with hx
    · rfl
    · rw [Option.filter_eq_none_iff]
      intro cu hcu hav
      -- it would be the CTB to the left
      obtain ⟨hslice, htile⟩ := of_decide_eq_true hav
      obtain ⟨hlt, hcol, hrow⟩ := hinv.coded _ y cu hcu
      rw [u.div_ctbSize hy hy'] at hrow
      obtain ⟨x, hx'⟩ : ∃ x, (ctbAt u.pps u.sps k).i4CtbX = x + 1 := by
        refine Nat.exists_eq_succ_of_ne_zero fun hzero => hx ?_
        rw [CuSetup.x0, hzero, Nat.zero_mul]
      have hx0 : u.x0 k = x * u.ctbSize + u.ctbSize := by
        rw [CuSetup.x0, hx', Nat.succ_mul]
      rw [hx0, u.div_ctbSize (a := x) (by omega) (by omega)] at hcol
      exact hn ⟨cu.ctu, hlt, by rw [← hcol]; exact hx'.symm, hrow.symm, htile, hslice⟩

/-- One CTB of both loops. -/
theorem MapsInv.parseCtb (f : FlagStream) :
    let d := (u.place segments parser s k).parseCtb (m, f)
    let g := (u.setting segments k).codingQuadtree u.sps.i1Log2CtbSize (u.x0 k) (u.y0 k) 0 (cus, f)
    d.2 = g.2 ∧ MapsInv u segments (k + 1) d.1 g.1 := by
  obtain ⟨hx, hy, _⟩ := ctb_eq_iff.mp hat.ctb
  have hroot : (u.place segments parser s k).parseCtb (m, f) =
      (u.place segments parser s k).parseCodingQuadtree u.sps.i1Log2CtbSize (u.x0 k) (u.y0 k) 0
        (m, f) := by
    unfold CuPlace.parseCtb
    rw [Nat.shiftLeft_eq, Nat.shiftLeft_eq]
    change CuPlace.parseCodingQuadtree _ _
      ((s.atCtb u.toEntropySetup parser segments k).pos.i4CtbX * _)
      ((s.atCtb u.toEntropySetup parser segments k).pos.i4CtbY * _) _ _ = _
    rw [hx, hy]
    rfl
  have hnode : CuNode (u.place segments parser s k) u.sps.i1Log2CtbSize (u.x0 k) (u.y0 k) 0 := by
    refine ⟨Nat.le_of_succ_le u.sps.log2CtbSize_ge, Nat.zero_add _, Nat.dvd_mul_left _ _,
      Nat.dvd_mul_left _ _, ?_, ?_⟩
    · exact (congrArg (· * u.ctbSize) hx).le
    · exact (congrArg (· * u.ctbSize) hy).le
  obtain ⟨hw, hh⟩ := h.ctb_inPicture hk
  obtain ⟨hflags, hdone⟩ := quadtree_step (sameCtu_place hat) u.sps.i1Log2CtbSize (u.x0 k) (u.y0 k)
    0 (m, f) (cus, f) hnode rfl (hinv.topEdge h hk hat) (hinv.leftEdge h hk hat) hw hh
  dsimp only
  rw [hroot]
  exact ⟨hflags, hinv.step hdone⟩

end

-- ---------------------------------------------------------------------------
-- All CTBs of a picture
-- ---------------------------------------------------------------------------

theorem PpsTiles.InGrid.cuFlags_eq
    (h : u.pps.InGrid u.sps.i2PicWdInCtb u.sps.i2PicHtInCtb X Y) (hp : u.Slices segments)
    (parser : CtuParser) (s : SliceData) (m : CuMaps) (f : FlagStream) (hk : k ≤ u.numCtbs) :
    let d := parseCuFlags (u.place segments parser s) (m, f) k
    let g := Spec.cuFlags (u.setting segments) u.sps.i1Log2CtbSize f k
    d.2 = g.2 ∧ MapsInv u segments k d.1 g.1 := by
  induction k with
  | zero => exact ⟨rfl, .start u segments m⟩
  | succ k ih =>
    have hat := h.atCtb_slice hp parser s hk
    have ih := ih (Nat.le_of_succ_le hk)
    unfold parseCuFlags Spec.cuFlags
    generalize parseCuFlags (u.place segments parser s) (m, f) k = d at ih ⊢
    generalize Spec.cuFlags (u.setting segments) u.sps.i1Log2CtbSize f k = g at ih ⊢
    obtain ⟨m', f'⟩ := d
    obtain ⟨cus', g'⟩ := g
    obtain ⟨hflags, hinv⟩ := ih
    obtain rfl : f' = g' := hflags
    exact hinv.parseCtb h hk hat f'

/-- For every accepted tile syntax, every partition into slices and slice segments, and whatever the
maps hold before the picture, all flags of the coding quadtrees are decoded with the contexts that
the neighbouring blocks prescribe. -/
theorem cu_contexts {u : CuSetup} {segments : Nat → Option SegmentHdr}
    (hparse : parseTiles u.sps i4Wd i4Ht psTile b = .ok (u.pps, b')) (hp : u.Slices segments)
    (parser : CtuParser) (s : SliceData) (m : CuMaps) (f : FlagStream) (hk : k ≤ u.numCtbs) :
    (parseCuFlags (u.place segments parser s) (m, f) k).2 =
      (Spec.cuFlags (u.setting segments) u.sps.i1Log2CtbSize f k).2 := by
  obtain ⟨X, Y, h⟩ := parseTiles_inGrid hparse
  exact (h.cuFlags_eq hp parser s m f hk).1

instance (o : CtuOrder) (numCtus : Nat) : Decidable (o.SegmentsAndTiles numCtus) := by
  unfold CtuOrder.SegmentsAndTiles
  infer_instance

/-- Two tiles, one above the other, of two CTBs each. -/
def twoTiles : CuSetup where
  toEntropySetup := waveSetup twoColumns 0xEA
  i1Log2MinCodingBlockSize := 3
  log2MinCodingBlockSize_ge := by decide
  log2MinCodingBlockSize_le := by decide

/-- What an earlier picture has left. -/
def staleMaps : CuMaps where
  pu4CtDepthTop _ := 0xFFFFFFFF#32
  u4CtDepthLeft := 0xFFFFFFFF#32
  pu4SkipCuTop _ := 0xFFFFFFFF#32
  u4SkipCuLeft := 0xFFFFFFFF#32

/-- The second tile is a dependent segment; its blocks have no neighbours in the first one. -/
theorem cu_contexts_twoTiles :
    (parseCuFlags (twoTiles.place (twoSegments 2) countingParser zeroedData)
        (staleMaps, ⟨[false, true, false, true, false, true, false, true], []⟩) 4).2 =
      (Spec.cuFlags (twoTiles.setting (twoSegments 2)) 6
        ⟨[false, true, false, true, false, true, false, true], []⟩ 4).2 := by
  have hparse : ∃ b', parseByte twoColumns 0xEA = .ok (byteTiles twoColumns 0xEA, b') := ⟨_, rfl⟩
  obtain ⟨b', hparse⟩ := hparse
  have hpart := twoSegments_partition twoTiles.toEntropySetup 2 (by decide +kernel)
    (by decide +kernel) (by decide +kernel)
  exact cu_contexts (u := twoTiles) hparse ⟨hpart.first, hpart.address, by decide +kernel⟩
    countingParser zeroedData staleMaps _ (by decide +kernel)

end Libhevc.Decoder
