import Libhevc.Decoder.CabacStart
import Libhevc.Decoder.TileScan
import Libhevc.Spec.EntropyStart

/-!
# CTBs start from the prescribed state

What `ihevcd_parse_slice_data` has in its context models and Rice statistics when
it begins with a CTB, for every picture that does not have tiles and wavefronts
at once.
-/

namespace Libhevc.Decoder

open Spec Grid

-- ---------------------------------------------------------------------------
-- The places of the CTBs
-- ---------------------------------------------------------------------------

/-- CTB `k` in tile scan. -/
def ctbAt (pps : PpsTiles) (sps : SpsSize) (k : Nat) : CtbPos := (places pps sps).getD k .first

/-- A position without all that the next update does not depend on. -/
def CtbPos.ctb (p : CtbPos) : CtbPos := { p.place with i4NextCtbIndx := 0, endOfPic := 0 }

theorem ctb_eq_iff {p q : CtbPos} :
    p.ctb = q.ctb ↔ p.i4CtbX = q.i4CtbX ∧ p.i4CtbY = q.i4CtbY ∧ p.i4CtbTileX = q.i4CtbTileX ∧
      p.i4CtbTileY = q.i4CtbTileY ∧ p.psTile = q.psTile := by
  simp [CtbPos.ctb, CtbPos.place]

theorem advance_congr {p q : CtbPos} (h : p.ctb = q.ctb) :
    p.advance pps sps = q.advance pps sps := by
  obtain ⟨hx, hy, htx, hty, ht⟩ := ctb_eq_iff.mp h
  obtain ⟨a, b, hp⟩ := update_eq pps sps 0 0 p
  obtain ⟨a', b', hq⟩ := update_eq pps sps 0 0 q
  rw [CtbPos.advance, CtbPos.advance, hp, hq]
  unfold CtbPos.nextRow CtbPos.place CtbPos.bump
  simp only [hx, hy, htx, hty, ht]
  split_ifs <;> rfl

/-- The order of the tile scan. -/
def CtbPos.Before (p q : CtbPos) : Prop :=
  p.psTile < q.psTile ∨ p.psTile = q.psTile ∧
    (p.i4CtbTileY < q.i4CtbTileY ∨ p.i4CtbTileY = q.i4CtbTileY ∧ p.i4CtbTileX < q.i4CtbTileX)

theorem places_before (pps : PpsTiles) (sps : SpsSize) :
    (places pps sps).Pairwise CtbPos.Before := by
  refine List.pairwise_flatMap.mpr ⟨fun t _ => List.pairwise_flatMap.mpr ⟨fun y _ => ?_, ?_⟩, ?_⟩
  · refine List.pairwise_map.mpr (List.pairwise_lt_range.imp fun {a b} hab => ?_)
    exact .inr ⟨rfl, .inr ⟨rfl, hab⟩⟩
  · refine List.pairwise_lt_range.imp fun {a b} hab p hp q hq => ?_
    obtain ⟨x, _, rfl⟩ := List.mem_map.mp hp
    obtain ⟨x', _, rfl⟩ := List.mem_map.mp hq
    exact .inr ⟨rfl, .inl hab⟩
  · refine List.pairwise_lt_range.imp fun {a b} hab p hp q hq => ?_
    obtain ⟨y, _, hp⟩ := List.mem_flatMap.mp hp
    obtain ⟨x, _, rfl⟩ := List.mem_map.mp hp
    obtain ⟨y', _, hq⟩ := List.mem_flatMap.mp hq
    obtain ⟨x', _, rfl⟩ := List.mem_map.mp hq
    exact .inl hab

theorem CtbPos.Before.not_symm {p q : CtbPos} (h : p.Before q) : ¬q.Before p := by
  unfold CtbPos.Before at *
  omega

section
variable {pps : PpsTiles} {sps : SpsSize} {X Y : Nat → Nat}
  (h : pps.InGrid sps.i2PicWdInCtb sps.i2PicHtInCtb X Y)
include h

theorem PpsTiles.InGrid.length_places :
    (places pps sps).length = sps.i2PicWdInCtb * sps.i2PicHtInCtb := by
  have hlen := congrArg List.length (h.ctbPos_places fun _ => (0, 0))
  rw [← hlen, List.length_map, List.length_range]

theorem PpsTiles.InGrid.ctbAt_eq (hk : k < sps.i2PicWdInCtb * sps.i2PicHtInCtb)
    (slice : Nat → Nat × Nat) : (ctbPos pps sps slice k).place = ctbAt pps sps k := by
  rw [ctbAt, ← h.ctbPos_places slice]
  simp [List.getD_eq_getElem?_getD, hk]

theorem PpsTiles.InGrid.ctbAt_succ (hk : k + 1 < sps.i2PicWdInCtb * sps.i2PicHtInCtb) :
    (ctbAt pps sps k).advance pps sps = ctbAt pps sps (k + 1) := by
  rw [← h.ctbAt_eq (Nat.lt_of_succ_lt hk) fun _ => (0, 0), ← h.ctbAt_eq hk fun _ => (0, 0), ctbPos,
    update_place]

theorem PpsTiles.InGrid.ctbAt_mem (hk : k < sps.i2PicWdInCtb * sps.i2PicHtInCtb) :
    ctbAt pps sps k ∈ places pps sps := by
  rw [← h.ctbAt_eq hk fun _ => (0, 0)]
  exact h.ctbPos_mem _ hk

theorem PpsTiles.InGrid.ctbAt_before (hj : j < k)
    (hk : k < sps.i2PicWdInCtb * sps.i2PicHtInCtb) :
    (ctbAt pps sps j).Before (ctbAt pps sps k) := by
  have hlen := h.length_places
  have hord := List.pairwise_iff_getElem.mp (places_before pps sps) j k (by omega) (by omega) hj
  rw [ctbAt, ctbAt, List.getD_eq_getElem _ _ (by omega), List.getD_eq_getElem _ _ (by omega)]
  exact hord

theorem PpsTiles.InGrid.exists_ctbAt (hp : p ∈ places pps sps) :
    ∃ j < sps.i2PicWdInCtb * sps.i2PicHtInCtb, ctbAt pps sps j = p := by
  obtain ⟨j, hj, rfl⟩ := List.getElem_of_mem hp
  rw [h.length_places] at hj
  exact ⟨j, hj, List.getD_eq_getElem _ _ _⟩

/-- The search for the tile of a CTB finds it. -/
theorem PpsTiles.InGrid.setTile_ctb {p : CtbPos} (hp : q ∈ places pps sps)
    (hx : p.i4CtbX = q.i4CtbX) (hy : p.i4CtbY = q.i4CtbY) :
    (p.setTile pps sps).ctb = q.ctb := by
  obtain ⟨t, ht, y, hy', x, hx', rfl⟩ := mem_places hp
  have htile := h.getTilePos ht hy' hx'
  unfold placeIn at hx hy
  dsimp only at hx hy
  rw [← hx, ← hy] at htile
  exact ctb_eq_iff.mpr ⟨hx, hy, congrArg (·.1) htile, congrArg (·.2.1) htile,
    congrArg (·.2.2) htile⟩

end

-- ---------------------------------------------------------------------------
-- The prescribed order
-- ---------------------------------------------------------------------------

namespace EntropySetup

def numCtbs (e : EntropySetup) : Nat := e.sps.i2PicWdInCtb * e.sps.i2PicHtInCtb

/-- The CTBs of a picture in tile scan, with the slice segments. -/
def ctuOrder (e : EntropySetup) (segments : Nat → Option SegmentHdr) : CtuOrder where
  syncEnabled := e.i1EntropyCodingSyncEnabledFlag
  pos k := ((ctbAt e.pps e.sps k).i4CtbX, (ctbAt e.pps e.sps k).i4CtbY)
  tileId k := (ctbAt e.pps e.sps k).psTile
  segment k := (segments k).map SegmentHdr.i1DependentSliceFlag

/-- The initial variables under a header. -/
def initVars (e : EntropySetup) (hdr : SegmentHdr) : EntropyVars :=
  Spec.initVars e.gau1IhevcCabCtxts e.i1PersistentRiceAdaptationEnabledFlag hdr.i1SliceType
    hdr.i1CabacInitFlag (e.i1PicInitQp + hdr.i1SliceQpDelta)

/-- The initial variables of the slice of CTB `k`. -/
def tables (e : EntropySetup) (segments : Nat → Option SegmentHdr) (k : Nat) : EntropyVars :=
  ((segments ((e.ctuOrder segments).sliceStart k)).map e.initVars).getD ⟨[], none⟩

/-- Slice segments as the specification allows them: the first one is independent, each one has the
address of its first CTB, and slices keep to rows with wavefronts. -/
structure Partition (e : EntropySetup) (segments : Nat → Option SegmentHdr) : Prop where
  first : ∃ hdr, segments 0 = some hdr ∧ hdr.i1DependentSliceFlag = false
  address : ∀ k < e.numCtbs, ∀ hdr, segments k = some hdr →
    hdr.i2CtbX = (ctbAt e.pps e.sps k).i4CtbX ∧ hdr.i2CtbY = (ctbAt e.pps e.sps k).i4CtbY
  wavefront : e.i1EntropyCodingSyncEnabledFlag = true →
    (e.ctuOrder segments).WavefrontSlices e.numCtbs

end EntropySetup

/-- What a CTB is parsed with. -/
def CabModels.vars (e : EntropySetup) (psCabac : CabModels) : EntropyVars where
  ctxtModels := psCabac.au1CtxtModels
  statCoeff := e.persistent psCabac.ai4RiceStatCoeff

def CabModels.syncVars (e : EntropySetup) (psCabac : CabModels) : EntropyVars where
  ctxtModels := psCabac.au1CtxtModelsSync
  statCoeff := e.persistent psCabac.ai4RiceStatCoeffSync

/-- What the syntax of CTB `k` makes of its variables. -/
def CtuParser.parse (parser : CtuParser) (k : Nat) (vars : EntropyVars) : EntropyVars where
  ctxtModels := parser.ctxtModels k vars.ctxtModels vars.statCoeff
  statCoeff := vars.statCoeff.map (parser.statCoeff k vars.ctxtModels)

section
variable {e : EntropySetup}

@[simp] theorem tableInit_syncVars (hdr : SegmentHdr) (c : CabModels) :
    (e.tableInit hdr c).syncVars e = c.syncVars e := rfl

@[simp] theorem cabacInitModels_syncVars (models : List Nat) (stats : Option (List Int))
    (c : CabModels) : (cabacInitModels models stats c).syncVars e = c.syncVars e := rfl

@[simp] theorem parseCtb_syncVars (parser : CtuParser) (k : Nat) (c : CabModels) :
    (c.parseCtb e parser k).syncVars e = c.syncVars e := rfl

@[simp] theorem backUp_vars (c : CabModels) : c.backUp.vars e = c.vars e := rfl

@[simp] theorem backUp_syncVars (c : CabModels) : c.backUp.syncVars e = c.vars e := rfl

theorem cabacInitIdc_eq (hdr : SegmentHdr) :
    hdr.cabacInitIdc = initType hdr.i1SliceType hdr.i1CabacInitFlag := by
  unfold SegmentHdr.cabacInitIdc initType
  cases hdr.i1SliceType <;> simp

@[simp] theorem tableInit_vars (hdr : SegmentHdr) (c : CabModels) :
    (e.tableInit hdr c).vars e = e.initVars hdr := by
  have hqp : clip3 (e.sliceQp hdr) 0 51 = clip3 (e.i1PicInitQp + hdr.i1SliceQpDelta) 0 51 := by
    unfold EntropySetup.sliceQp clip3
    split_ifs <;> omega
  unfold CabModels.vars EntropySetup.initVars Spec.initVars EntropySetup.tableInit cabacInitModels
    EntropySetup.persistent
  rw [hqp, cabacInitIdc_eq]
  cases e.i1PersistentRiceAdaptationEnabledFlag <;> simp

/-- The copy for the row below, as it is taken back. -/
@[simp] theorem syncInit_vars (c : CabModels) :
    (cabacInitModels c.au1CtxtModelsSync (e.persistent c.ai4RiceStatCoeffSync) c).vars e =
      c.syncVars e := by
  unfold CabModels.vars CabModels.syncVars cabacInitModels EntropySetup.persistent
  cases e.i1PersistentRiceAdaptationEnabledFlag <;> simp

@[simp] theorem parseCtb_vars (parser : CtuParser) (k : Nat) (c : CabModels) :
    (c.parseCtb e parser k).vars e = parser.parse k (c.vars e) := by
  unfold CabModels.vars CtuParser.parse CabModels.parseCtb EntropySetup.persistent
  cases e.i1PersistentRiceAdaptationEnabledFlag <;> simp

theorem parsed_dependent (h : hdr.i1DependentSliceFlag = true) (prev : SegmentHdr) :
    e.initVars (prev.parsed hdr) = e.initVars prev := by
  simp [SegmentHdr.parsed, h, EntropySetup.initVars]

theorem parsed_independent (h : hdr.i1DependentSliceFlag = false) (prev : SegmentHdr) :
    prev.parsed hdr = hdr := by
  simp [SegmentHdr.parsed, h]

theorem parsed_fields (prev hdr : SegmentHdr) :
    (prev.parsed hdr).i1DependentSliceFlag = hdr.i1DependentSliceFlag ∧
      (prev.parsed hdr).i2CtbX = hdr.i2CtbX ∧ (prev.parsed hdr).i2CtbY = hdr.i2CtbY := by
  unfold SegmentHdr.parsed
  cases h : hdr.i1DependentSliceFlag <;> simp [h]

end

section
variable {e : EntropySetup} {segments : Nat → Option SegmentHdr} {X Y : Nat → Nat}

theorem tables_of_independent (hseg : segments k = some hdr)
    (hdep : hdr.i1DependentSliceFlag = false) : e.tables segments k = e.initVars hdr := by
  have hs : (e.ctuOrder segments).sliceStart k = k :=
    CtuOrder.sliceStart_of_independent (by simp [EntropySetup.ctuOrder, hseg, hdep])
  simp [EntropySetup.tables, hs, hseg]

/-- BeforeCtb slices the tables are those of the CTB before. -/
theorem tables_pred (hk : 0 < k)
    (hseg : ∀ hdr, segments k = some hdr → hdr.i1DependentSliceFlag = true) :
    (e.ctuOrder segments).sliceStart k = (e.ctuOrder segments).sliceStart (k - 1) ∧
      e.tables segments k = e.tables segments (k - 1) := by
  obtain ⟨k, rfl⟩ := Nat.exists_eq_succ_of_ne_zero hk.ne'
  have hne : (e.ctuOrder segments).segment (k + 1) ≠ some false := by
    intro hsome
    obtain ⟨hdr, hhdr, hdep⟩ := Option.map_eq_some_iff.mp hsome
    rw [hseg hdr hhdr] at hdep
    contradiction
  have hs : (e.ctuOrder segments).sliceStart (k + 1) = (e.ctuOrder segments).sliceStart k :=
    CtuOrder.sliceStart_of_none hne
  exact ⟨hs, by rw [EntropySetup.tables, EntropySetup.tables, Nat.succ_sub_one, hs]⟩

variable (h : e.pps.InGrid e.sps.i2PicWdInCtb e.sps.i2PicHtInCtb X Y)
include h

/-- The first CTB of a tile, by its position in the tile. -/
theorem PpsTiles.InGrid.firstInTile_iff (hk : k < e.numCtbs) :
    (e.ctuOrder segments).FirstInTile k ↔ (ctbAt e.pps e.sps k).atTileStart = true := by
  obtain ⟨t, ht, y, hy, x, hx, hplace⟩ := mem_places (h.ctbAt_mem hk)
  simp only [CtbPos.atTileStart, decide_eq_true_eq]
  constructor
  · intro hfirst
    -- the first CTB of the tile is among those before, or it is this one
    have hentry : placeIn e.pps e.sps t 0 0 ∈ places e.pps e.sps := by
      simp only [places, List.mem_flatMap, List.mem_map, List.mem_range]
      exact ⟨t, ht, 0, by omega, 0, by omega, rfl⟩
    obtain ⟨j, hj, hjeq⟩ := h.exists_ctbAt hentry
    have htile : (ctbAt e.pps e.sps j).psTile = (ctbAt e.pps e.sps k).psTile := by
      rw [hjeq, hplace]
      rfl
    rcases Nat.lt_trichotomy j k with hlt | rfl | hgt
    · exact absurd htile (hfirst j hlt)
    · rw [hjeq]
      exact ⟨rfl, rfl⟩
    · have hbefore := h.ctbAt_before hgt hj
      rw [hjeq, hplace] at hbefore
      simp [CtbPos.Before, placeIn] at hbefore
  · rintro ⟨hx0, hy0⟩ j hj htile
    have hbefore := h.ctbAt_before hj hk
    have htile : (ctbAt e.pps e.sps j).psTile = (ctbAt e.pps e.sps k).psTile := htile
    unfold CtbPos.Before at hbefore
    omega

/-- A tile that is entered after CTB 0 does not lie in the corner of the picture. -/
theorem PpsTiles.InGrid.tilePos_ne (hk : k < e.numCtbs) (hpos : 0 < k)
    (hstart : (ctbAt e.pps e.sps k).atTileStart = true) :
    (e.pps.psTile (ctbAt e.pps e.sps k).psTile).u1PosX = (ctbAt e.pps e.sps k).i4CtbX ∧
      (e.pps.psTile (ctbAt e.pps e.sps k).psTile).u1PosY = (ctbAt e.pps e.sps k).i4CtbY ∧
        ¬((ctbAt e.pps e.sps k).i4CtbX = 0 ∧ (ctbAt e.pps e.sps k).i4CtbY = 0) := by
  obtain ⟨t, ht, y, hy, x, hx, hplace⟩ := mem_places (h.ctbAt_mem hk)
  simp only [CtbPos.atTileStart, decide_eq_true_eq, hplace, placeIn] at hstart
  obtain ⟨rfl, rfl⟩ := hstart
  refine ⟨by rw [hplace]; rfl, by rw [hplace]; rfl, ?_⟩
  intro hzero
  -- CTB 0 has the same tile
  have h0 : ctbAt e.pps e.sps 0 = .first := (h.ctbAt_eq (Nat.zero_lt_of_lt hk) fun _ => (0, 0)).symm
  have htile0 := h.getTilePos ht hy hx
  have htile1 := (h.tileWalk fun _ => (0, 0)).tilePos 0 (Nat.zero_lt_of_lt hk)
  have hx0 : (e.pps.psTile t).u1PosX + 0 = 0 := by
    have := hzero.1
    rwa [hplace] at this
  have hy0 : (e.pps.psTile t).u1PosY + 0 = 0 := by
    have := hzero.2
    rwa [hplace] at this
  rw [hx0, hy0] at htile0
  have ht0 : t = 0 := congrArg (·.2.2) (htile0.symm.trans htile1)
  have hbefore := h.ctbAt_before hpos hk
  rw [h0, hplace, ht0] at hbefore
  simp [CtbPos.Before, CtbPos.first, placeIn] at hbefore

/-- Without tiles the CTBs are in raster scan. -/
theorem PpsTiles.InGrid.ctbAt_untiled (hflag : e.pps.i1TilesEnabledFlag = 0)
    (hk : k < e.numCtbs) :
    (ctbAt e.pps e.sps k).i4CtbX + (ctbAt e.pps e.sps k).i4CtbY * e.sps.i2PicWdInCtb = k ∧
      (ctbAt e.pps e.sps k).i4CtbX < e.sps.i2PicWdInCtb ∧
      (ctbAt e.pps e.sps k).i4CtbTileX = (ctbAt e.pps e.sps k).i4CtbX ∧
      (ctbAt e.pps e.sps k).i4CtbTileY = (ctbAt e.pps e.sps k).i4CtbY ∧
      (ctbAt e.pps e.sps k).psTile = 0 := by
  have hrank := (h.tileWalk fun _ => (0, 0)).rank hflag k hk.le
  have hnext : (ctbAt e.pps e.sps k).i4NextCtbIndx = k := by
    rw [← h.ctbAt_eq hk fun _ => (0, 0)]
    exact hrank
  obtain ⟨hcols, hrows⟩ := h.untiled hflag
  have hX := h.cols.last
  have htile := h.tile 0 (by omega) 0 (by omega)
  rw [hcols] at hX
  rw [Nat.zero_mul, Nat.zero_add, Nat.zero_add, hX, h.cols.first, h.rows.first] at htile
  obtain ⟨t, ht, y, hy, x, hx, hplace⟩ := mem_places (h.ctbAt_mem hk)
  rw [hcols, hrows] at ht
  obtain rfl : t = 0 := Nat.lt_one_iff.mp ht
  rw [htile] at hx
  rw [hplace] at hnext ⊢
  simp only [placeIn, htile, Nat.zero_add] at hnext ⊢
  exact ⟨hnext, hx, trivial, trivial, trivial⟩

/-- Without tiles a slice counts its CTBs by rows of the picture. -/
theorem PpsTiles.InGrid.update_slice (hflag : e.pps.i1TilesEnabledFlag = 0) {p : CtbPos}
    (hp : p.psTile = 0) (a b : Nat) :
    (p.update e.pps e.sps a b).i4CtbSliceX =
        (if p.i4CtbSliceX + 1 = e.sps.i2PicWdInCtb then 0 else p.i4CtbSliceX + 1) ∧
      (p.update e.pps e.sps a b).i4CtbSliceY =
        (if p.i4CtbSliceX + 1 = e.sps.i2PicWdInCtb then p.i4CtbSliceY + 1 else p.i4CtbSliceY) := by
  obtain ⟨hcols, hrows⟩ := h.untiled hflag
  have hX := h.cols.last
  have hY := h.rows.last
  have htile := h.tile 0 (by omega) 0 (by omega)
  rw [hcols] at hX
  rw [hrows] at hY
  rw [Nat.zero_mul, Nat.zero_add, Nat.zero_add, hX, hY, h.cols.first, h.rows.first] at htile
  unfold CtbPos.update CtbPos.slice CtbPos.nextRow
  simp only [hflag, hp, htile, ne_eq, not_true_eq_false, if_false]
  split_ifs <;> simp_all

end

/-- Where an update enters a tile, the slice-relative position is that of the tile. -/
theorem update_atTileStart {p : CtbPos} (hend : (p.update pps sps a b).endOfPic = 0)
    (hstart : (p.update pps sps a b).atTileStart = true) :
    (p.update pps sps a b).i4CtbSliceX = (p.update pps sps a b).i4CtbX ∧
      (p.update pps sps a b).i4CtbSliceY = (p.update pps sps a b).i4CtbY := by
  obtain ⟨c, d, hp⟩ := update_eq pps sps a b p
  rw [hp] at hend hstart ⊢
  unfold CtbPos.nextRow CtbPos.bump at *
  dsimp only at *
  split_ifs at hend hstart ⊢ <;> simp_all [CtbPos.atTileStart]

-- ---------------------------------------------------------------------------
-- The start of a CTB
-- ---------------------------------------------------------------------------

/-- After some CTBs, `k` is the next. -/
structure BeforeCtb (e : EntropySetup) (segments : Nat → Option SegmentHdr) (k : Nat)
    (s : SliceData) : Prop where
  place : s.pos.place = ctbAt e.pps e.sps k
  tile : s.pos.atTileStart = true →
    s.pos.i4CtbSliceX = s.pos.i4CtbX ∧ s.pos.i4CtbSliceY = s.pos.i4CtbY
  slice : e.pps.i1TilesEnabledFlag = 0 → s.pos.i4CtbSliceX < e.sps.i2PicWdInCtb ∧
    s.pos.i4CtbSliceY * e.sps.i2PicWdInCtb + s.pos.i4CtbSliceX +
      (e.ctuOrder segments).sliceStart (k - 1) = k
  hdr : e.initVars s.hdr = e.tables segments (k - 1)

/-- CTB `k` is about to be parsed. -/
structure AtCtb (e : EntropySetup) (segments : Nat → Option SegmentHdr) (k : Nat)
    (s : SliceData) : Prop where
  ctb : s.pos.ctb = (ctbAt e.pps e.sps k).ctb
  slice : e.pps.i1TilesEnabledFlag = 0 → s.pos.i4CtbSliceX < e.sps.i2PicWdInCtb ∧
    s.pos.i4CtbSliceY * e.sps.i2PicWdInCtb + s.pos.i4CtbSliceX +
      (e.ctuOrder segments).sliceStart k = k
  hdr : e.initVars s.hdr = e.tables segments k

theorem atTileStart_congr {p q : CtbPos} (h : p.ctb = q.ctb) : p.atTileStart = q.atTileStart := by
  obtain ⟨_, _, hx, hy, _⟩ := ctb_eq_iff.mp h
  simp [CtbPos.atTileStart, hx, hy]

section
variable {e : EntropySetup} {segments : Nat → Option SegmentHdr} {X Y : Nat → Nat}
  (h : e.pps.InGrid e.sps.i2PicWdInCtb e.sps.i2PicHtInCtb X Y)
include h

/-- A header with the address of a CTB sets the position to it. -/
theorem PpsTiles.InGrid.startPos_eq (hq : q ∈ places e.pps e.sps) {hdr : SegmentHdr}
    (hx : hdr.i2CtbX = q.i4CtbX) (hy : hdr.i2CtbY = q.i4CtbY) (p : CtbPos) :
    (hdr.startPos e p).ctb = q.ctb ∧
      (hdr.startPos e p).i4CtbSliceX =
        (if hdr.i1DependentSliceFlag = false ∨ q.atTileStart = true then 0 else p.i4CtbSliceX) ∧
      (hdr.startPos e p).i4CtbSliceY =
        (if hdr.i1DependentSliceFlag = false ∨ q.atTileStart = true then 0 else p.i4CtbSliceY) := by
  have hctb : ({ p with i4CtbX := hdr.i2CtbX, i4CtbY := hdr.i2CtbY }.setTile e.pps e.sps).ctb =
      q.ctb := h.setTile_ctb hq hx hy
  have hstart := atTileStart_congr hctb
  obtain ⟨hx', hy', htx, hty, ht⟩ := ctb_eq_iff.mp hctb
  -- at the frame level nothing changes: CTB 0 is first in its tile
  have hframe : q.i4CtbY = 0 ∧ q.i4CtbX = 0 → q.i4CtbTileX = 0 ∧ q.i4CtbTileY = 0 := by
    obtain ⟨t, _, y, _, x, _, rfl⟩ := mem_places hq
    simp only [placeIn]
    omega
  unfold SegmentHdr.startPos
  dsimp only
  rw [hstart]
  split_ifs with hs hf hf
  · have hzero := hframe ⟨by rw [← hy']; exact hf.1, by rw [← hx']; exact hf.2⟩
    exact ⟨ctb_eq_iff.mpr ⟨hx', hy', hzero.1.symm, hzero.2.symm, ht⟩, rfl, rfl⟩
  · exact ⟨ctb_eq_iff.mpr ⟨hx', hy', htx, hty, ht⟩, rfl, rfl⟩
  · have hzero := hframe ⟨by rw [← hy']; exact hf.1, by rw [← hx']; exact hf.2⟩
    exact ⟨ctb_eq_iff.mpr ⟨hx', hy', hzero.1.symm, hzero.2.symm, ht⟩, rfl, rfl⟩
  · exact ⟨hctb, rfl, rfl⟩

/-- The start of a slice segment: the position, and the variables where wavefronts leave them to
the start of the row. -/
theorem PpsTiles.InGrid.startSegment_at (hp : e.Partition segments) (hk : k < e.numCtbs)
    (hs : 0 < k → BeforeCtb e segments k s) (hseg : segments k = some hdr) :
    AtCtb e segments k (s.startSegment e hdr) ∧
      ((ctbAt e.pps e.sps k).atTileStart = true →
        (s.startSegment e hdr).pos.i4CtbSliceX = 0 ∧
          (s.startSegment e hdr).pos.i4CtbSliceY = 0) ∧
      (s.startSegment e hdr).cabac.syncVars e = s.cabac.syncVars e ∧
      (s.startSegment e hdr).cabac.vars e =
        if hdr.i1DependentSliceFlag = true ∧ (ctbAt e.pps e.sps k).atTileStart = false then
          s.cabac.vars e
        else if e.i1EntropyCodingSyncEnabledFlag = false ∨ (ctbAt e.pps e.sps k).i4CtbX ≠ 0 then
          e.tables segments k
        else s.cabac.vars e := by
  obtain ⟨hx, hy⟩ := hp.address k hk hdr hseg
  obtain ⟨hdep', hx', hy'⟩ := parsed_fields s.hdr hdr
  obtain ⟨hctb, hsx, hsy⟩ := h.startPos_eq (h.ctbAt_mem hk)
    (hx'.trans hx) (hy'.trans hy) s.pos
  have hstart := atTileStart_congr hctb
  have hctbX := (ctb_eq_iff.mp hctb).1
  rw [hdep'] at hsx hsy
  -- a dependent segment does not begin the picture
  have hpos : hdr.i1DependentSliceFlag = true → 0 < k := by
    intro hdep
    obtain ⟨hdr₀, hseg₀, hdep₀⟩ := hp.first
    rcases Nat.eq_zero_or_pos k with rfl | hk0
    · rw [hseg₀] at hseg
      cases hseg
      rw [hdep₀] at hdep
      contradiction
    · exact hk0
  have hinit : e.initVars (s.hdr.parsed hdr) = e.tables segments k := by
    cases hdep : hdr.i1DependentSliceFlag with
    | false => rw [parsed_independent hdep, tables_of_independent hseg hdep]
    | true =>
      have hk0 := hpos hdep
      rw [parsed_dependent hdep, (hs hk0).hdr, (tables_pred hk0 fun hdr' hseg' => ?_).2]
      rw [hseg] at hseg'
      cases hseg'
      exact hdep
  refine ⟨⟨hctb, fun hflag => ?_, hinit⟩, fun htile => ?_, ?_, ?_⟩
  · change (SegmentHdr.startPos e _ s.pos).i4CtbSliceX < _ ∧
      (SegmentHdr.startPos e _ s.pos).i4CtbSliceY * _ +
        (SegmentHdr.startPos e _ s.pos).i4CtbSliceX + _ = k
    rw [hsx, hsy]
    cases hdep : hdr.i1DependentSliceFlag with
    | false =>
      have hsk : (e.ctuOrder segments).sliceStart k = k :=
        CtuOrder.sliceStart_of_independent (by simp [EntropySetup.ctuOrder, hseg, hdep])
      have hwd := e.sps.wdInCtb_pos
      simp [hsk, hwd]
    | true =>
      have hk0 := hpos hdep
      obtain ⟨hpic, hlt, htx, hty, _⟩ := h.ctbAt_untiled hflag hk
      have hnot : ¬(true = false ∨ (ctbAt e.pps e.sps k).atTileStart = true) := by
        simp only [Bool.true_eq_false, false_or, CtbPos.atTileStart, decide_eq_true_eq, htx, hty]
        rintro ⟨hzx, hzy⟩
        rw [hzx, hzy] at hpic
        omega
      have hslice := (hs hk0).slice hflag
      rw [if_neg hnot, if_neg hnot, (tables_pred hk0 fun hdr' hseg' => ?_).1]
      · exact hslice
      · rw [hseg] at hseg'
        cases hseg'
        exact hdep
  · change (SegmentHdr.startPos e _ s.pos).i4CtbSliceX = 0 ∧
      (SegmentHdr.startPos e _ s.pos).i4CtbSliceY = 0
    rw [hsx, hsy, if_pos (.inr htile), if_pos (.inr htile)]
    exact ⟨rfl, rfl⟩
  · unfold SliceData.startSegment
    dsimp only
    split_ifs <;> simp
  · unfold SliceData.startSegment
    dsimp only
    rw [hdep', hstart, hctbX]
    split_ifs
    · rfl
    · rw [tableInit_vars, hinit]
    · rfl

/-- The start of a tile: only the row of the slice changes, and with tiles only. -/
theorem PpsTiles.InGrid.startTile_at (hk : k < e.numCtbs) (hs : AtCtb e segments k s) :
    AtCtb e segments k (s.startTile e) ∧
      (s.startTile e).cabac.syncVars e = s.cabac.syncVars e ∧
      (s.startTile e).hdr = s.hdr ∧
      (s.startTile e).cabac.vars e =
        if (ctbAt e.pps e.sps k).atTileStart = true ∧ 0 < k ∧
            ¬(s.pos.i4CtbSliceX = 0 ∧ s.pos.i4CtbSliceY = 0) then
          e.tables segments k
        else s.cabac.vars e := by
  obtain ⟨hx, hy, _, _, ht⟩ := ctb_eq_iff.mp hs.ctb
  have hstart := atTileStart_congr hs.ctb
  have hset := h.setTile_ctb (h.ctbAt_mem hk) hx hy
  -- the tile in the corner is the one that is entered with CTB 0
  have hcorner : (ctbAt e.pps e.sps k).atTileStart = true →
      (¬((e.pps.psTile s.pos.psTile).u1PosX = 0 ∧ (e.pps.psTile s.pos.psTile).u1PosY = 0) ↔
        0 < k) := by
    intro htile
    constructor
    · intro hne
      rcases Nat.eq_zero_or_pos k with rfl | hk0
      · have h0 : ctbAt e.pps e.sps 0 = .first := (h.ctbAt_eq hk fun _ => (0, 0)).symm
        obtain ⟨t, _, y, _, x, _, hplace⟩ := mem_places (h.ctbAt_mem hk)
        rw [h0, CtbPos.first, placeIn, CtbPos.mk.injEq] at hplace
        obtain ⟨hpx, hpy, _, _, htt, _⟩ := hplace
        rw [ht, h0] at hne
        rw [← htt] at hpx hpy
        exact absurd ⟨(Nat.add_eq_zero_iff.mp hpx.symm).1, (Nat.add_eq_zero_iff.mp hpy.symm).1⟩ hne
      · exact hk0
    · intro hk0
      obtain ⟨hpx, hpy, hne⟩ := h.tilePos_ne hk hk0 htile
      rw [ht, hpx, hpy]
      exact hne
  have hcond : (s.pos.atTileStart = true ∧
      ¬((e.pps.psTile s.pos.psTile).u1PosX = 0 ∧ (e.pps.psTile s.pos.psTile).u1PosY = 0) ∧
      ¬(s.pos.i4CtbSliceX = 0 ∧ s.pos.i4CtbSliceY = 0)) ↔
      ((ctbAt e.pps e.sps k).atTileStart = true ∧ 0 < k ∧
        ¬(s.pos.i4CtbSliceX = 0 ∧ s.pos.i4CtbSliceY = 0)) := by
    rw [hstart]
    exact and_congr_right fun htile => and_congr_left' (hcorner htile)
  unfold SliceData.startTile
  by_cases hc : s.pos.atTileStart = true ∧
      ¬((e.pps.psTile s.pos.psTile).u1PosX = 0 ∧ (e.pps.psTile s.pos.psTile).u1PosY = 0) ∧
      ¬(s.pos.i4CtbSliceX = 0 ∧ s.pos.i4CtbSliceY = 0)
  · have hc' := hcond.mp hc
    dsimp only
    rw [if_pos hc, if_pos hc']
    refine ⟨⟨?_, fun hflag => ?_, hs.hdr⟩, tableInit_syncVars _ _, rfl, ?_⟩
    · dsimp only
      split_ifs
      · exact hset
      · exact hset
    · obtain ⟨hpic, _, htx, hty, _⟩ := h.ctbAt_untiled hflag hk
      have htile := hc'.1
      simp only [CtbPos.atTileStart, decide_eq_true_eq, htx, hty] at htile
      rw [htile.1, htile.2] at hpic
      omega
    · rw [tableInit_vars, hs.hdr]
  · have hc' := fun hc' => hc (hcond.mpr hc')
    dsimp only
    rw [if_neg hc, if_neg hc']
    exact ⟨hs, rfl, rfl, rfl⟩

end

end Libhevc.Decoder
