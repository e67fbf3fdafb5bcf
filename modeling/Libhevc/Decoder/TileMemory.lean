import Libhevc.Decoder.ParameterSetLaws
import Mathlib.Algebra.BigOperators.Intervals

/-!
# The tiles of valid PPSs

The parameter sets with the memory their tiles lie in. It is allocated behind
the first SPS, for the size of that SPS, and from then on an SPS of another size
is not accepted. A slice whose PPS is not valid is given a copy of another one.
-/

namespace Libhevc.Decoder

open Memory Grid

/-- The parameter sets, the `i1_pps_id` of each slot, and the size that the dynamic buffers are
allocated for. -/
structure TileMemory extends ParameterSets where
  i1PpsId : Nat → Nat
  dynamicBufs : Option (Nat × Nat)

/-- `ihevcd_copy_pps` -/
def TileMemory.copyPps (c : TileMemory) (ppsId ppsIdRef : Nat) : TileMemory :=
  let ref := c.ppsBase ppsIdRef
  let maxTileCols := (align64 c.i4Wd + minTileWd - 1) / minTileWd
  let maxTileRows := (align64 c.i4Ht + minTileHt - 1) / minTileHt
  let psTile := fun i =>
    if i < maxTileCols * maxTileRows then ref.psTile i else (c.ppsBase ppsId).psTile i
  { c with
    ppsBase := set c.ppsBase ppsId { ref with psTile, i1PpsValid := true }
    i1PpsId := set c.i1PpsId ppsId (c.i1PpsId ppsIdRef) }

/-- `ihevcd_allocate_dynamic_bufs`; all tiles are zero. That it fails is a fatal error, and stops
the decoder. -/
def TileMemory.allocateDynamicBufs (c : TileMemory) : TileMemory :=
  { c with
    ppsBase := fun k => { c.ppsBase k with psTile := fun _ => ⟨0, 0, 0, 0⟩ }
    dynamicBufs := some (c.i4Wd, c.i4Ht) }

/-- The case `NAL_SPS` of `ihevcd_nal_unit`, with the check of the size in `ihevcd_parse_sps`, and
the allocation in `ihevcd_decode` behind it. -/
def TileMemory.nalSps (c : TileMemory) (spsId : Nat) (sps : Sps) : TileMemory :=
  match c.spsSlot spsId sps with
  | .error .unsupportedSpsId => c
  | .error _ => { c with toParameterSets := c.clearSps }
  | .ok _ =>
    if c.dynamicBufs.isSome ∧
        (c.i4Wd ≠ sps.i2PicWidthInLumaSamples ∨ c.i4Ht ≠ sps.i2PicHeightInLumaSamples) then
      { c with toParameterSets := c.clearSps }
    else
      let c := { c with toParameterSets := c.toParameterSets.nalSps spsId sps }
      if c.dynamicBufs.isSome then c else c.allocateDynamicBufs

/-- The case `NAL_PPS`; the slot that is parsed into has its `i1_pps_id` from the start. -/
def TileMemory.nalPps (c : TileMemory) (s : Bitstrm) : TileMemory :=
  match c.ppsSlot s with
  | .error _ => c
  | .ok (ppsId, s) =>
    let parsed (pps : Pps) : TileMemory :=
      { c with
        ppsBase := set c.ppsBase (maxPpsCnt - 1) pps
        i1PpsId := set c.i1PpsId (maxPpsCnt - 1) ppsId }
    match c.parsePps s with
    | .error _ => parsed { c.ppsBase (maxPpsCnt - 1) with i1PpsValid := false }
    | .ok pps =>
      let c := (parsed pps).copyPps ppsId (maxPpsCnt - 1)
      { c with i4PpsDone := true }

/-- The PPS of a slice, in `ihevcd_parse_slice_header`: one that is not valid becomes a copy of
the one that the first valid PPS has the id of. -/
def TileMemory.slicePps (c : TileMemory) (ppsId : Nat) : TileMemory :=
  if c.i4SpsDone = false ∨ c.i4PpsDone = false ∨ maxPpsCnt - 2 < ppsId then c
  else if (c.ppsBase ppsId).i1PpsValid then c
  else
    match (List.range (maxPpsCnt - 1)).find? fun k => (c.ppsBase k).i1PpsValid with
    | none => c
    | some ref => c.copyPps ppsId (c.i1PpsId ref)

/-- `ihevcd_init` -/
def TileMemory.init (c : TileMemory) : TileMemory :=
  { c with
    spsBase := fun _ => none
    ppsBase := fun k => { c.ppsBase k with i1PpsValid := false }
    i4SpsDone := false
    i4PpsDone := false
    i4Wd := 0
    i4Ht := 0
    dynamicBufs := none }

/-- What reaches the parameter sets. -/
inductive TileEvent
  | param (nal : ParamNal)
  | slice (ppsId : Nat)
  | init

def TileMemory.step (c : TileMemory) : TileEvent → TileMemory
  | .param (.sps spsId sps) => c.nalSps spsId sps
  | .param (.rejectedSps cleared) =>
    if cleared then { c with toParameterSets := c.clearSps } else c
  | .param (.pps s) => c.nalPps s
  | .slice ppsId => c.slicePps ppsId
  | .init => c.init

/-- The NAL units lead to the parameter sets that `ParameterSets.step` has for them. -/
theorem TileMemory.nalPps_eq (c : TileMemory) (s : Bitstrm) :
    (c.nalPps s).toParameterSets = c.toParameterSets.nalPps s := by
  unfold TileMemory.nalPps ParameterSets.nalPps
  cases c.ppsSlot s with
  | error e => rfl
  | ok r =>
    obtain ⟨ppsId, s'⟩ := r
    dsimp only
    cases c.parsePps s' <;> rfl

end Libhevc.Decoder

/-!
## Every valid PPS has a grid of tiles

Once the dynamic buffers are allocated every valid SPS has the size they are
allocated for, so no SPS that comes later changes the size in CTBs of one that a
PPS refers to.
-/

namespace Libhevc.Decoder

open Memory Grid Finset

-- ---------------------------------------------------------------------------
-- Grids as sums
-- ---------------------------------------------------------------------------

/-- The tile in column `c` of row `r`. -/
def PpsTiles.tile (pps : PpsTiles) (r c : Nat) : Tile := pps.psTile (r * pps.i1NumTileColumns + c)

/-- The tiles, row by row, are a grid of rectangles that are not empty; the widths sum up to the
width of the picture and the heights to its height, and each position is the sum of the sizes
before it. -/
structure PpsTiles.Partition (pps : PpsTiles) (wd ht : Nat) : Prop where
  cols_pos : 0 < pps.i1NumTileColumns
  rows_pos : 0 < pps.i1NumTileRows
  size_pos : ∀ r < pps.i1NumTileRows, ∀ c < pps.i1NumTileColumns,
    0 < (pps.tile r c).u2Wd ∧ 0 < (pps.tile r c).u2Ht
  column : ∀ r < pps.i1NumTileRows, ∀ c < pps.i1NumTileColumns,
    (pps.tile r c).u2Wd = (pps.tile 0 c).u2Wd ∧ (pps.tile r c).u2Ht = (pps.tile r 0).u2Ht
  width : ∑ c ∈ range pps.i1NumTileColumns, (pps.tile 0 c).u2Wd = wd
  height : ∑ r ∈ range pps.i1NumTileRows, (pps.tile r 0).u2Ht = ht
  position : ∀ r < pps.i1NumTileRows, ∀ c < pps.i1NumTileColumns,
    (pps.tile r c).u1PosX = ∑ i ∈ range c, (pps.tile 0 i).u2Wd ∧
      (pps.tile r c).u1PosY = ∑ i ∈ range r, (pps.tile i 0).u2Ht

/-- The sizes of the first parts add up to the next cut. -/
theorem sum_cuts (h : Cuts n size X) (hi : i ≤ n) : ∑ k ∈ range i, (X (k + 1) - X k) = X i := by
  induction i with
  | zero => rw [sum_range_zero, h.first]
  | succ i ih =>
    have hlt := h.lt i hi
    rw [sum_range_succ, ih (Nat.le_of_succ_le hi)]
    omega

theorem PpsTiles.InGrid.partition {pps : PpsTiles} (h : pps.InGrid wd ht X Y) (hwd : 0 < wd)
    (hht : 0 < ht) : pps.Partition wd ht := by
  have hcols := h.cols.pos hwd
  have hrows := h.rows.pos hht
  have hwidth : ∀ i ≤ pps.i1NumTileColumns, ∑ k ∈ range i, (pps.tile 0 k).u2Wd = X i := by
    intro i hi
    rw [← sum_cuts h.cols hi]
    refine sum_congr rfl fun k hk => ?_
    have hk := Nat.lt_of_lt_of_le (mem_range.mp hk) hi
    rw [PpsTiles.tile, h.tile 0 hrows k hk]
  have hheight : ∀ i ≤ pps.i1NumTileRows, ∑ k ∈ range i, (pps.tile k 0).u2Ht = Y i := by
    intro i hi
    rw [← sum_cuts h.rows hi]
    refine sum_congr rfl fun k hk => ?_
    have hk := Nat.lt_of_lt_of_le (mem_range.mp hk) hi
    rw [PpsTiles.tile, h.tile k hk 0 hcols]
  refine ⟨hcols, hrows, fun r hr c hc => ?_, fun r hr c hc => ?_, ?_, ?_, fun r hr c hc => ?_⟩
  · have hX := h.cols.lt c hc
    have hY := h.rows.lt r hr
    rw [PpsTiles.tile, h.tile r hr c hc]
    exact ⟨Nat.sub_pos_of_lt hX, Nat.sub_pos_of_lt hY⟩
  · simp only [PpsTiles.tile]
    rw [h.tile r hr c hc, h.tile 0 hrows c hc, h.tile r hr 0 hcols]
    exact ⟨rfl, rfl⟩
  · rw [hwidth _ (Nat.le_refl _), h.cols.last]
  · rw [hheight _ (Nat.le_refl _), h.rows.last]
  · rw [hwidth c hc.le, hheight r hr.le, PpsTiles.tile, h.tile r hr c hc]
    exact ⟨rfl, rfl⟩

-- ---------------------------------------------------------------------------
-- The invariant
-- ---------------------------------------------------------------------------

/-- The PPS refers to a valid SPS and its tiles are a grid over the picture, no more than there is
room for. -/
structure Pps.Tiled (pps : Pps) (c : ParameterSets) : Prop where
  spsId : pps.i1SpsId < maxSpsCnt - 1
  grid : ∃ sps X Y, c.spsBase pps.i1SpsId = some sps ∧
    pps.toPpsTiles.InGrid sps.i2PicWdInCtb sps.i2PicHtInCtb X Y
  room : pps.i1NumTileRows * pps.i1NumTileColumns ≤ tileRoom c.i4Wd c.i4Ht

/-- What holds of the decoder between the NAL units. -/
structure TileMemory.Good (c : TileMemory) : Prop where
  bufs : c.dynamicBufs = if c.i4SpsDone then some (c.i4Wd, c.i4Ht) else none
  sps : ∀ slot sps, c.spsBase slot = some sps → c.i4SpsDone = true ∧
    sps.i2PicWidthInLumaSamples = c.i4Wd ∧ sps.i2PicHeightInLumaSamples = c.i4Ht
  size : c.i4SpsDone = true → 0 < c.i4Wd ∧ 0 < c.i4Ht
  pps : ∀ k < maxPpsCnt, (c.ppsBase k).i1PpsValid = true → (c.ppsBase k).Tiled c.toParameterSets
  ids : ∀ k < maxPpsCnt - 1, (c.ppsBase k).i1PpsValid = true →
    c.i1PpsId k < maxPpsCnt - 1 ∧ (c.ppsBase (c.i1PpsId k)).i1PpsValid = true

variable {c : TileMemory}

/-- Before the first SPS nothing is valid. -/
theorem TileMemory.Good.no_sps (h : c.Good) (hdone : c.i4SpsDone = false) (slot : Nat) :
    c.spsBase slot = none := by
  cases hslot : c.spsBase slot with
  | none => rfl
  | some sps =>
    have htrue := (h.sps slot sps hslot).1
    rw [hdone] at htrue
    contradiction

theorem TileMemory.Good.no_pps (h : c.Good) (hdone : c.i4SpsDone = false) (hk : k < maxPpsCnt) :
    (c.ppsBase k).i1PpsValid = false := by
  cases hvalid : (c.ppsBase k).i1PpsValid with
  | false => rfl
  | true =>
    obtain ⟨sps, _, _, hsps, -⟩ := (h.pps k hk hvalid).grid
    rw [h.no_sps hdone] at hsps
    contradiction

/-- A PPS that is copied has the tiles of the other one. -/
theorem Pps.Tiled.copy {pps : Pps} {c : ParameterSets} (h : pps.Tiled c)
    (htile : ∀ i < tileRoom c.i4Wd c.i4Ht, psTile i = pps.psTile i) :
    Pps.Tiled { pps with psTile, i1PpsValid := true } c := by
  obtain ⟨sps, X, Y, hsps, hg⟩ := h.grid
  refine ⟨h.spsId, ⟨sps, X, Y, hsps, hg.cols, hg.rows, ?_, hg.untiled⟩, h.room⟩
  intro r hr i hi
  have hroom := h.room
  have hle : (r + 1) * pps.i1NumTileColumns ≤ pps.i1NumTileRows * pps.i1NumTileColumns :=
    Nat.mul_le_mul_right _ hr
  rw [Nat.succ_mul] at hle
  exact (htile _ (by dsimp only at hi ⊢; omega)).trans (hg.tile r hr i hi)

/-- The slots are changed only in `ppsBase`. -/
theorem Pps.Tiled.setPps {pps : Pps} {c : ParameterSets} (h : pps.Tiled c) (ppsBase : Nat → Pps) :
    pps.Tiled { c with ppsBase } :=
  ⟨h.spsId, h.grid, h.room⟩

-- ---------------------------------------------------------------------------
-- The steps
-- ---------------------------------------------------------------------------

/-- The slot that is parsed into is filled with a PPS that is not valid yet. -/
theorem TileMemory.Good.parsed {new : Pps} (h : c.Good) (hnew : new.i1PpsValid = false)
    (ppsId : Nat) :
    TileMemory.Good
      { c with
        ppsBase := set c.ppsBase (maxPpsCnt - 1) new
        i1PpsId := set c.i1PpsId (maxPpsCnt - 1) ppsId } := by
  refine ⟨h.bufs, h.sps, h.size, fun k hk hvalid => ?_, fun k hk hvalid => ?_⟩
  · by_cases hlast : k = maxPpsCnt - 1
    · subst hlast
      simp only [set_same, hnew] at hvalid
      contradiction
    · simp only [set_ne hlast] at hvalid ⊢
      exact (h.pps k hk hvalid).setPps _
  · simp only [set_ne hk.ne] at hvalid ⊢
    obtain ⟨hid, href⟩ := h.ids k hk hvalid
    rw [set_ne hid.ne]
    exact ⟨hid, href⟩

theorem TileMemory.Good.copyPps (h : c.Good) (href : (c.ppsBase ref).Tiled c.toParameterSets)
    (hid : ppsId < maxPpsCnt - 1 → c.i1PpsId ref < maxPpsCnt - 1 ∧
      (c.i1PpsId ref ≠ ppsId → (c.ppsBase (c.i1PpsId ref)).i1PpsValid = true)) :
    (c.copyPps ppsId ref).Good := by
  -- a slot that was valid is still valid
  have hkeep : ∀ k, (k ≠ ppsId → (c.ppsBase k).i1PpsValid = true) →
      ((c.copyPps ppsId ref).ppsBase k).i1PpsValid = true := by
    intro k hvalid
    simp only [TileMemory.copyPps]
    by_cases hslot : k = ppsId
    · rw [hslot, set_same]
    · rw [set_ne hslot]
      exact hvalid hslot
  refine ⟨h.bufs, h.sps, h.size, fun k hk hvalid => ?_, fun k hk hvalid => ?_⟩
  · by_cases hslot : k = ppsId
    · subst hslot
      simp only [TileMemory.copyPps, set_same]
      exact (href.copy fun i hi => if_pos hi).setPps _
    · simp only [TileMemory.copyPps, set_ne hslot] at hvalid ⊢
      exact (h.pps k hk hvalid).setPps _
  · by_cases hslot : k = ppsId
    · subst hslot
      have hnew : (c.copyPps k ref).i1PpsId k = c.i1PpsId ref := set_same
      rw [hnew]
      exact ⟨(hid hk).1, hkeep _ (hid hk).2⟩
    · have hold : (c.copyPps ppsId ref).i1PpsId k = c.i1PpsId k := set_ne hslot
      simp only [TileMemory.copyPps, set_ne hslot] at hvalid
      obtain ⟨hlt, href⟩ := h.ids k hk hvalid
      rw [hold]
      exact ⟨hlt, hkeep _ fun _ => href⟩

theorem parsePps_not_valid {c : ParameterSets} (h : c.parsePps s = .ok pps) :
    pps.i1PpsValid = false := by
  unfold ParameterSets.parsePps at h
  obtain ⟨⟨spsId, s₁⟩, -, h⟩ := bind_ok h
  dsimp only at h
  cases hsps : c.spsBase spsId with
  | none =>
    rw [hsps] at h
    contradiction
  | some sps =>
    rw [hsps] at h
    unfold parsePpsOf at h
    obtain ⟨_, -, h⟩ := bind_ok h
    obtain ⟨_, -, h⟩ := bind_ok h
    obtain ⟨_, -, h⟩ := bind_ok h
    obtain ⟨_, -, h⟩ := bind_ok h
    obtain ⟨_, -, h⟩ := bind_ok h
    dsimp only at h
    split at h
    · contradiction
    · rw [← Except.ok.inj h]

/-- An accepted PPS has a grid, of tiles there is room for. -/
theorem parsePps_tiled {c : ParameterSets} (h : c.parsePps s = .ok pps) (hwd : 0 < c.i4Wd)
    (hht : 0 < c.i4Ht) : pps.Tiled c := by
  obtain ⟨sps, hsps, hfits, hid, hroom⟩ := ParameterSets.parsePps_ok h hwd hht
  obtain ⟨X, Y, hg⟩ := hfits.tiles
  exact ⟨hid, ⟨sps, X, Y, hsps, hg⟩, hroom⟩

theorem TileMemory.Good.setPpsDone (h : c.Good) (i4PpsDone : Bool) :
    TileMemory.Good { c with i4PpsDone } :=
  ⟨h.bufs, h.sps, h.size, fun k hk hvalid => ⟨(h.pps k hk hvalid).spsId, (h.pps k hk hvalid).grid,
    (h.pps k hk hvalid).room⟩, h.ids⟩

theorem TileMemory.Good.nalPps (h : c.Good) (s : Bitstrm) : (c.nalPps s).Good := by
  unfold TileMemory.nalPps
  cases hslot : c.ppsSlot s with
  | error e => exact h
  | ok r =>
    obtain ⟨ppsId, s'⟩ := r
    obtain ⟨hwd, hht⟩ := h.size (ppsSlot_ok hslot)
    dsimp only
    cases hparse : c.parsePps s' with
    | error e => exact h.parsed rfl ppsId
    | ok pps =>
      have hparsed := h.parsed (parsePps_not_valid hparse) ppsId
      have htiled : (set c.ppsBase (maxPpsCnt - 1) pps (maxPpsCnt - 1)).Tiled
          { c.toParameterSets with ppsBase := set c.ppsBase (maxPpsCnt - 1) pps } := by
        rw [set_same]
        exact (parsePps_tiled hparse hwd hht).setPps _
      have hid (hlt : ppsId < maxPpsCnt - 1) :
          set c.i1PpsId (maxPpsCnt - 1) ppsId (maxPpsCnt - 1) < maxPpsCnt - 1 ∧
            (set c.i1PpsId (maxPpsCnt - 1) ppsId (maxPpsCnt - 1) ≠ ppsId →
              (set c.ppsBase (maxPpsCnt - 1) pps
                (set c.i1PpsId (maxPpsCnt - 1) ppsId (maxPpsCnt - 1))).i1PpsValid = true) := by
        rw [set_same]
        exact ⟨hlt, fun hne => absurd rfl hne⟩
      exact (hparsed.copyPps htiled hid).setPpsDone true

theorem TileMemory.Good.slicePps (h : c.Good) (ppsId : Nat) : (c.slicePps ppsId).Good := by
  unfold TileMemory.slicePps
  by_cases hskip : c.i4SpsDone = false ∨ c.i4PpsDone = false ∨ maxPpsCnt - 2 < ppsId
  · rw [if_pos hskip]
    exact h
  · rw [if_neg hskip]
    by_cases hvalid : (c.ppsBase ppsId).i1PpsValid = true
    · rw [if_pos hvalid]
      exact h
    · rw [if_neg hvalid]
      cases hfind : (List.range (maxPpsCnt - 1)).find? fun k => (c.ppsBase k).i1PpsValid with
      | none => exact h
      | some k =>
        have hk := List.mem_range.mp (List.mem_of_find?_eq_some hfind)
        have hvalid := List.find?_some (p := fun k => (c.ppsBase k).i1PpsValid) hfind
        obtain ⟨hlt, href⟩ := h.ids k hk hvalid
        obtain ⟨hlt', href'⟩ := h.ids _ hlt href
        exact h.copyPps (h.pps _ (Nat.lt_of_lt_of_le hlt (Nat.sub_le _ _)) href)
          fun _ => ⟨hlt', fun _ => href'⟩

theorem TileMemory.Good.clearSps (h : c.Good) :
    TileMemory.Good { c with toParameterSets := c.clearSps } := by
  refine ⟨h.bufs, fun slot sps hsps => ?_, h.size, fun k hk hvalid => ?_, h.ids⟩
  · by_cases hlast : slot = maxSpsCnt - 1
    · subst hlast
      simp only [ParameterSets.clearSps, set_same] at hsps
      contradiction
    · simp only [ParameterSets.clearSps, set_ne hlast] at hsps
      exact h.sps slot sps hsps
  · obtain ⟨sps, X, Y, hsps, hg⟩ := (h.pps k hk hvalid).grid
    refine ⟨(h.pps k hk hvalid).spsId, ⟨sps, X, Y, ?_, hg⟩, (h.pps k hk hvalid).room⟩
    change set c.spsBase (maxSpsCnt - 1) none (c.ppsBase k).i1SpsId = _
    rw [set_ne (h.pps k hk hvalid).spsId.ne]
    exact hsps

theorem TileMemory.init_good (c : TileMemory) : c.init.Good := by
  refine ⟨rfl, fun slot sps hsps => ?_, fun hdone => ?_, fun k hk hvalid => ?_,
    fun k hk hvalid => ?_⟩ <;> contradiction


/-- The size in CTBs follows from the size in samples and the size of the CTBs. -/
theorem sameInCtb_of_size {old new : SpsSize} (hlog : old.i1Log2CtbSize = new.i1Log2CtbSize)
    (hwd : old.i2PicWidthInLumaSamples = new.i2PicWidthInLumaSamples)
    (hht : old.i2PicHeightInLumaSamples = new.i2PicHeightInLumaSamples) :
    old.i2PicWdInCtb = new.i2PicWdInCtb ∧ old.i2PicHtInCtb = new.i2PicHtInCtb := by
  unfold SpsSize.i2PicWdInCtb SpsSize.i2PicHtInCtb
  rw [hlog, hwd, hht]
  exact ⟨rfl, rfl⟩

theorem spsSlot_ok {c : ParameterSets} (h : c.spsSlot spsId new = .ok slot)
    (hold : c.clearSps.spsBase slot = some old) : old.i1Log2CtbSize = new.i1Log2CtbSize := by
  change set c.spsBase (maxSpsCnt - 1) none slot = some old at hold
  unfold ParameterSets.spsSlot at h
  split at h
  · contradiction
  · dsimp only at h
    generalize (if maxSpsCnt ≤ spsId then 0 else spsId) = id at h
    cases hset : set c.spsBase (maxSpsCnt - 1) none id with
    | none =>
      rw [hset] at h
      obtain rfl := Except.ok.inj h
      rw [hset] at hold
      contradiction
    | some sps =>
      rw [hset] at h
      dsimp only at h
      split at h
      case isTrue hlog =>
        obtain rfl := Except.ok.inj h
        obtain rfl := Option.some.inj (hset.symm.trans hold)
        exact hlog
      · contradiction

/-- An SPS over one of the same size in CTBs, or none, changes no PPS. -/
theorem copySps_eq {c : ParameterSets} {new : Sps}
    (hsame : ∀ old, c.spsBase slot = some old → old.sameInCtb new.toSpsSize = true) :
    c.copySps slot new = { c with spsBase := set c.spsBase slot (some new) } := by
  unfold ParameterSets.copySps
  cases hold : c.spsBase slot with
  | none => rfl
  | some old =>
    dsimp only
    rw [hsame old hold, if_pos rfl]

/-- What `ihevcd_nal_unit` makes of an accepted SPS. -/
def ParameterSets.acceptSps (c : ParameterSets) (slot : Nat) (new : Sps) : ParameterSets :=
  { c.copySps slot new with
    i4SpsDone := true
    i4Wd := new.i2PicWidthInLumaSamples
    i4Ht := new.i2PicHeightInLumaSamples }

/-- An SPS of the size that the buffers are allocated for. -/
theorem TileMemory.Good.acceptSps {new : Sps} (h : c.Good) (hdone : c.i4SpsDone = true)
    (hwd : new.i2PicWidthInLumaSamples = c.i4Wd) (hht : new.i2PicHeightInLumaSamples = c.i4Ht)
    (hlog : ∀ old, c.spsBase slot = some old → old.i1Log2CtbSize = new.i1Log2CtbSize) :
    TileMemory.Good { c with toParameterSets := c.acceptSps slot new } := by
  have hsize : ∀ old, c.spsBase slot = some old →
      old.i2PicWdInCtb = new.i2PicWdInCtb ∧ old.i2PicHtInCtb = new.i2PicHtInCtb := by
    intro old hold
    obtain ⟨-, hwd', hht'⟩ := h.sps slot old hold
    exact sameInCtb_of_size (hlog old hold) (hwd'.trans hwd.symm) (hht'.trans hht.symm)
  unfold ParameterSets.acceptSps
  rw [copySps_eq fun old hold => by simp [SpsSize.sameInCtb, hlog old hold, hsize old hold]]
  refine ⟨?_, fun slot' sps hsps => ?_, fun _ => ⟨new.width_pos, new.height_pos⟩,
    fun k hk hvalid => ?_, h.ids⟩
  · simp only [h.bufs, hdone, if_true, hwd, hht]
  · refine ⟨rfl, ?_⟩
    by_cases hslot : slot' = slot
    · subst hslot
      simp only [set_same, Option.some.injEq] at hsps
      subst hsps
      exact ⟨rfl, rfl⟩
    · simp only [set_ne hslot] at hsps
      obtain ⟨-, hwd', hht'⟩ := h.sps slot' sps hsps
      exact ⟨hwd'.trans hwd.symm, hht'.trans hht.symm⟩
  · have htiled := h.pps k hk hvalid
    obtain ⟨sps, X, Y, hsps, hg⟩ := htiled.grid
    refine ⟨htiled.spsId, ?_, ?_⟩
    · dsimp only
      by_cases hslot : (c.ppsBase k).i1SpsId = slot
      · obtain ⟨hwd', hht'⟩ := hsize sps (hslot ▸ hsps)
        rw [hslot, set_same]
        exact ⟨new, X, Y, rfl, hwd' ▸ hht' ▸ hg⟩
      · rw [set_ne hslot]
        exact ⟨sps, X, Y, hsps, hg⟩
    · dsimp only
      rw [hwd, hht]
      exact htiled.room

/-- The first SPS, before which nothing is valid. -/
theorem TileMemory.Good.firstSps {new : Sps} (h : c.Good) (hdone : c.i4SpsDone = false) :
    TileMemory.Good
      (TileMemory.allocateDynamicBufs { c with toParameterSets := c.acceptSps slot new }) := by
  have hnone := h.no_sps hdone
  unfold ParameterSets.acceptSps
  rw [copySps_eq fun old hold => by rw [hnone] at hold; contradiction]
  refine ⟨rfl, fun slot' sps hsps => ?_, fun _ => ⟨new.width_pos, new.height_pos⟩,
    fun k hk hvalid => ?_, fun k hk hvalid => ?_⟩
  · simp only [TileMemory.allocateDynamicBufs] at hsps
    by_cases hslot : slot' = slot
    · subst hslot
      simp only [set_same, Option.some.injEq] at hsps
      subst hsps
      exact ⟨rfl, rfl, rfl⟩
    · rw [set_ne hslot, hnone] at hsps
      contradiction
  · simp only [TileMemory.allocateDynamicBufs, h.no_pps hdone hk] at hvalid
    contradiction
  · have hk := Nat.lt_of_lt_of_le hk (Nat.sub_le _ _)
    simp only [TileMemory.allocateDynamicBufs, h.no_pps hdone hk] at hvalid
    contradiction

theorem TileMemory.Good.nalSps (h : c.Good) (spsId : Nat) (new : Sps) :
    (c.nalSps spsId new).Good := by
  have hclear := h.clearSps
  unfold TileMemory.nalSps
  cases hslot : c.spsSlot spsId new with
  | error e => cases e <;> assumption
  | ok slot =>
    dsimp only
    by_cases hother : c.dynamicBufs.isSome ∧
        (c.i4Wd ≠ new.i2PicWidthInLumaSamples ∨ c.i4Ht ≠ new.i2PicHeightInLumaSamples)
    · rw [if_pos hother]
      exact hclear
    · rw [if_neg hother]
      have hbufs := h.bufs
      have hnal : c.toParameterSets.nalSps spsId new = c.clearSps.acceptSps slot new := by
        unfold ParameterSets.nalSps
        rw [hslot]
        rfl
      rw [hnal]
      cases hdone : c.i4SpsDone with
      | true =>
        rw [hdone, if_pos rfl] at hbufs
        have hsome : c.dynamicBufs.isSome = true := by rw [hbufs]; rfl
        rw [if_pos hsome]
        obtain ⟨hwd, hht⟩ := not_or.mp fun hne => hother ⟨hsome, hne⟩
        exact hclear.acceptSps hdone (Decidable.not_not.mp hwd).symm (Decidable.not_not.mp hht).symm
          fun old => spsSlot_ok hslot
      | false =>
        rw [hdone, if_neg Bool.false_ne_true] at hbufs
        have hnone : ¬c.dynamicBufs.isSome = true := by rw [hbufs]; exact Bool.false_ne_true
        rw [if_neg hnone]
        exact hclear.firstSps hdone

theorem TileMemory.Good.step (h : c.Good) (e : TileEvent) : (c.step e).Good := by
  cases e with
  | param nal =>
    cases nal with
    | sps spsId new => exact h.nalSps spsId new
    | rejectedSps cleared =>
      cases cleared with
      | true => exact h.clearSps
      | false => exact h
    | pps s => exact h.nalPps s
  | slice ppsId => exact h.slicePps ppsId
  | init => exact c.init_good

-- ---------------------------------------------------------------------------
-- Runs
-- ---------------------------------------------------------------------------

/-- What the decoder comes to: the decoder is initialised, and then takes step after step. -/
inductive TileMemory.Run : TileMemory → Prop
  | start (c₀ : TileMemory) : Run c₀.init
  | step {c₀ : TileMemory} (e : TileEvent) : Run c₀ → Run (c₀.step e)

theorem TileMemory.Run.good (h : c.Run) : c.Good := by
  induction h with
  | start c₀ => exact c₀.init_good
  | step e _ ih => exact ih.step e

theorem Pps.Tiled.partition {pps : Pps} {c : ParameterSets} (h : pps.Tiled c) :
    ∃ sps, c.spsBase pps.i1SpsId = some sps ∧
      pps.toPpsTiles.Partition sps.i2PicWdInCtb sps.i2PicHtInCtb := by
  obtain ⟨sps, X, Y, hsps, hg⟩ := h.grid
  exact ⟨sps, hsps, hg.partition sps.wdInCtb_pos sps.htInCtb_pos⟩

/-- A decoder that has read an SPS and a PPS for it. -/
def onePps : TileMemory :=
  let c : TileMemory := { noParameterSets with i1PpsId := fun _ => 0, dynamicBufs := none }
  (c.init.step (.param (.sps 0 (smallSps 4 SpsSize.log2_le)))).step
    (.param (.pps (ihevcdBitsInit (fun i => depthTwoPps.getD i 0) depthTwoPps.length)))

end Libhevc.Decoder
