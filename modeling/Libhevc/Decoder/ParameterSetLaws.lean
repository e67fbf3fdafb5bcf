import Libhevc.Decoder.TileGrid
import Libhevc.Decoder.ParameterSets

/-!
# What a PPS keeps of its SPS

A PPS that is accepted fits the SPS it refers to. It goes on to fit it as long
as the SPS is not replaced by one of the same size in CTBs that it does not fit.
-/

namespace Libhevc.Decoder

open Memory Grid

/-- The relations that `ihevcd_parse_pps` checks or derives. -/
structure Pps.Fits (pps : Pps) (sps : Sps) : Prop where
  depth : pps.i1DiffCuQpDeltaDepth ≤ sps.i1Log2DiffMaxMinCodingBlockSize
  minSize : pps.i1Log2MinCuQpDeltaSize = sps.i1Log2CtbSize - pps.i1DiffCuQpDeltaDepth
  merge : pps.i1Log2ParallelMergeLevel ≤
    sps.i1Log2MinCodingBlockSize + sps.i1Log2DiffMaxMinCodingBlockSize + 2
  range : pps.toPpsRange.accepted sps.profile = true
  tiles : ∃ X Y, pps.toPpsTiles.InGrid sps.i2PicWdInCtb sps.i2PicHtInCtb X Y
  tileSize : pps.i1TilesEnabledFlag ≠ 0 →
    ¬(sps.tooLarge 4 4096 ∨ sps.tooLarge 5 8192 ∨ sps.tooLarge 6 16384)

-- ---------------------------------------------------------------------------
-- Accepted syntax
-- ---------------------------------------------------------------------------

theorem bind_ok {x : Except ε α} {f : α → Except ε β} (h : x >>= f = .ok b) :
    ∃ a, x = .ok a ∧ f a = .ok b := by
  cases x with
  | error e => contradiction
  | ok a => exact ⟨a, rfl, h⟩

theorem uevAtMost_ok (h : uevAtMost s bound = .ok (value, s')) : value ≤ bound := by
  unfold uevAtMost at h
  dsimp only at h
  split at h
  · contradiction
  case isFalse hb =>
    obtain ⟨rfl, _⟩ := Prod.mk.inj (Except.ok.inj h)
    exact Nat.le_of_not_lt hb

theorem uevAtMost_eq (h : uevAtMost s bound = .ok (value, s')) :
    ihevcdUev s = (value, s') := by
  unfold uevAtMost at h
  dsimp only at h
  split at h
  · contradiction
  · exact Except.ok.inj h

theorem readIf_ok {read : Bitstrm → Except IhevcdErrorT (α × Bitstrm)} (h : readIf flag dflt read s = .ok (value, s')) :
    value = dflt ∨ read s = .ok (value, s') := by
  unfold readIf at h
  split at h
  · exact .inr h
  · exact .inl (Prod.mk.inj (Except.ok.inj h)).1.symm

theorem ppsQp_ok (h : ppsQp sps s = .ok (flag, depth, s')) :
    depth ≤ sps.i1Log2DiffMaxMinCodingBlockSize := by
  unfold ppsQp at h
  obtain ⟨_, _, h⟩ := bind_ok h
  obtain ⟨_, _, h⟩ := bind_ok h
  obtain ⟨_, _, h⟩ := bind_ok h
  obtain ⟨⟨depth', s₄⟩, hdepth, h⟩ := bind_ok h
  obtain ⟨_, _, h⟩ := bind_ok h
  obtain ⟨_, _, h⟩ := bind_ok h
  obtain ⟨_, he⟩ := Prod.mk.inj (Except.ok.inj h)
  obtain ⟨rfl, _⟩ := Prod.mk.inj he
  rcases readIf_ok hdepth with rfl | hdepth
  · exact Nat.zero_le _
  · exact uevAtMost_ok hdepth

theorem ppsExtension_ok (h : ppsExtension sps flag s = .ok (range, s')) :
    range.accepted sps.profile = true := by
  unfold ppsExtension at h
  obtain ⟨_, _, h⟩ := bind_ok h
  obtain ⟨⟨range', s₂⟩, _, h⟩ := bind_ok h
  dsimp only at h
  split at h
  · contradiction
  case isFalse hacc =>
    split at h
    · contradiction
    · obtain ⟨rfl, _⟩ := Prod.mk.inj (Except.ok.inj h)
      exact Bool.of_not_eq_false hacc

/-- The tiles a PPS has room for. -/
def tileRoom (i4Wd i4Ht : Nat) : Nat :=
  (align64 i4Wd + minTileWd - 1) / minTileWd * ((align64 i4Ht + minTileHt - 1) / minTileHt)

theorem tileRoom_pos (hwd : 0 < i4Wd) (hht : 0 < i4Ht) : 0 < tileRoom i4Wd i4Ht := by
  have hside : ∀ x, 0 < x → 0 < (align64 x + 64 - 1) / 64 := by
    intro x hx
    rw [align64, Nat.shiftRight_eq_div_pow, Nat.shiftLeft_eq]
    omega
  exact Nat.mul_pos (hside _ hwd) (hside _ hht)

theorem parseTiles_ok {sps : SpsSize} (h : parseTiles sps i4Wd i4Ht psTile s = .ok (pps, s'))
    (hwd : 0 < i4Wd) (hht : 0 < i4Ht) :
    pps.i1NumTileRows * pps.i1NumTileColumns ≤ tileRoom i4Wd i4Ht ∧
      (pps.i1TilesEnabledFlag ≠ 0 →
        ¬(sps.tooLarge 4 4096 ∨ sps.tooLarge 5 8192 ∨ sps.tooLarge 6 16384)) := by
  rcases parseTiles_cases h with rfl | ⟨_, hsize, _, hcols, _, hrows, _⟩
  · exact ⟨tileRoom_pos hwd hht, fun hflag => absurd rfl hflag⟩
  · refine ⟨?_, fun _ => hsize⟩
    rw [Nat.mul_comm]
    exact Nat.mul_le_mul hcols hrows

theorem parsePpsOf_ok (h : parsePpsOf sps i4Wd i4Ht spsId psTile s = .ok pps) (hwd : 0 < i4Wd)
    (hht : 0 < i4Ht) : pps.Fits sps ∧ pps.i1SpsId = spsId ∧
      pps.i1NumTileRows * pps.i1NumTileColumns ≤ tileRoom i4Wd i4Ht := by
  unfold parsePpsOf at h
  obtain ⟨⟨flag, depth, s₁⟩, hqp, h⟩ := bind_ok h
  obtain ⟨⟨tiles, s₂⟩, htiles, h⟩ := bind_ok h
  obtain ⟨_, _, h⟩ := bind_ok h
  obtain ⟨⟨value, s₄⟩, hmerge, h⟩ := bind_ok h
  obtain ⟨⟨range, s₅⟩, hrange, h⟩ := bind_ok h
  dsimp only at h
  split at h
  · contradiction
  · obtain rfl := Except.ok.inj h
    obtain ⟨hcount, hsize⟩ := parseTiles_ok htiles hwd hht
    refine ⟨⟨ppsQp_ok hqp, rfl, ?_, ppsExtension_ok hrange, parseTiles_inGrid htiles, hsize⟩,
      rfl, hcount⟩
    have := uevAtMost_ok hmerge
    dsimp only
    omega

-- ---------------------------------------------------------------------------
-- Another SPS in the same slot
-- ---------------------------------------------------------------------------

/-- The relations that do not follow from an equal size in CTBs. -/
structure Pps.Suits (pps : Pps) (sps : Sps) : Prop where
  depth : pps.i1DiffCuQpDeltaDepth ≤ sps.i1Log2DiffMaxMinCodingBlockSize
  range : pps.toPpsRange.accepted sps.profile = true
  tileSize : pps.i1TilesEnabledFlag ≠ 0 →
    ¬(sps.tooLarge 4 4096 ∨ sps.tooLarge 5 8192 ∨ sps.tooLarge 6 16384)

/-- The picture that a grid covers ends where its last tile does. -/
theorem PpsTiles.InGrid.ends {pps : PpsTiles} (h : pps.InGrid wd ht X Y) (hwd : 0 < wd)
    (hht : 0 < ht) :
    let last := pps.psTile
      ((pps.i1NumTileRows - 1) * pps.i1NumTileColumns + (pps.i1NumTileColumns - 1))
    wd = last.u1PosX + last.u2Wd ∧ ht = last.u1PosY + last.u2Ht := by
  have hcols := h.cols.pos hwd
  have hrows := h.rows.pos hht
  have hX := h.cols.lt (pps.i1NumTileColumns - 1) (by omega)
  have hY := h.rows.lt (pps.i1NumTileRows - 1) (by omega)
  have hXend := h.cols.last
  have hYend := h.rows.last
  rw [Nat.sub_add_cancel hcols] at hX
  rw [Nat.sub_add_cancel hrows] at hY
  dsimp only
  rw [h.tile _ (by omega) _ (by omega), Nat.sub_add_cancel hcols, Nat.sub_add_cancel hrows]
  dsimp only
  omega

theorem Pps.Fits.sameInCtb {pps : Pps} {old new : Sps} (h : pps.Fits old) (h' : pps.Fits new) :
    old.sameInCtb new.toSpsSize = true := by
  obtain ⟨X, Y, hg⟩ := h.tiles
  obtain ⟨X', Y', hg'⟩ := h'.tiles
  obtain ⟨hw, hh⟩ := hg.ends old.wdInCtb_pos old.htInCtb_pos
  obtain ⟨hw', hh'⟩ := hg'.ends new.wdInCtb_pos new.htInCtb_pos
  have hm := h.minSize
  have hm' := h'.minSize
  have hctb : old.i1Log2CtbSize = new.i1Log2CtbSize := by omega
  simp [SpsSize.sameInCtb, hctb, hw.trans hw'.symm, hh.trans hh'.symm]

theorem Pps.Fits.fits_iff {pps : Pps} {old new : Sps} (h : pps.Fits old)
    (hsame : old.sameInCtb new.toSpsSize = true) : pps.Fits new ↔ pps.Suits new := by
  obtain ⟨hctb, hw, hh⟩ : old.i1Log2CtbSize = new.i1Log2CtbSize ∧
      old.i2PicWdInCtb = new.i2PicWdInCtb ∧ old.i2PicHtInCtb = new.i2PicHtInCtb := by
    simpa [SpsSize.sameInCtb] using hsame
  constructor
  · intro h'
    exact ⟨h'.depth, h'.range, h'.tileSize⟩
  · intro hs
    refine ⟨hs.depth, ?_, ?_, hs.range, ?_, hs.tileSize⟩
    · rw [← hctb]
      exact h.minSize
    · rw [← new.log2CtbSize_eq, ← hctb, old.log2CtbSize_eq]
      exact h.merge
    · rw [← hw, ← hh]
      exact h.tiles

-- ---------------------------------------------------------------------------
-- Every valid PPS
-- ---------------------------------------------------------------------------

/-- Every valid PPS fits the valid SPS it refers to. -/
def ParameterSets.Consistent (c : ParameterSets) : Prop :=
  ∀ k < maxPpsCnt, (c.ppsBase k).i1PpsValid = true →
    ∃ sps, c.spsBase (c.ppsBase k).i1SpsId = some sps ∧ (c.ppsBase k).Fits sps

/-- What holds of the ids and of the picture size besides. -/
structure ParameterSets.Bounds (c : ParameterSets) : Prop where
  spsId : ∀ k < maxPpsCnt, (c.ppsBase k).i1PpsValid = true →
    (c.ppsBase k).i1SpsId < maxSpsCnt - 1
  size : c.i4SpsDone = true → 0 < c.i4Wd ∧ 0 < c.i4Ht

/-- An SPS that is read into a valid slot: if its size in CTBs is the old one, it suits every
valid PPS that refers to the slot; otherwise none of these is in the slot for parsing. -/
def ParamNal.Clear (c : ParameterSets) : ParamNal → Prop
  | .sps spsId new => ∀ slot, c.spsSlot spsId new = .ok slot → ∀ old, c.spsBase slot = some old →
      ∀ k < maxPpsCnt, (c.ppsBase k).i1PpsValid = true → (c.ppsBase k).i1SpsId = slot →
        if old.sameInCtb new.toSpsSize then (c.ppsBase k).Suits new else k ≠ maxPpsCnt - 1
  | _ => True

section
variable {c : ParameterSets} (h : c.Consistent) (hb : c.Bounds)
include h hb

theorem ParameterSets.Consistent.clearSps : c.clearSps.Consistent := by
  intro k hk hvalid
  obtain ⟨sps, hsps, hfits⟩ := h k hk hvalid
  refine ⟨sps, ?_, hfits⟩
  change set c.spsBase (maxSpsCnt - 1) none (c.ppsBase k).i1SpsId = _
  rw [set_ne (hb.spsId k hk hvalid).ne]
  exact hsps

omit hb in
/-- A slot that is filled with a PPS that is not valid, or fits. -/
theorem ParameterSets.Consistent.setPps (slot : Nat) (pps : Pps)
    (hpps : pps.i1PpsValid = true → ∃ sps, c.spsBase pps.i1SpsId = some sps ∧ pps.Fits sps) :
    ParameterSets.Consistent { c with ppsBase := set c.ppsBase slot pps } := by
  intro k hk hvalid
  by_cases hslot : k = slot
  · subst hslot
    simp only [set_same] at hvalid ⊢
    exact hpps hvalid
  · simp only [set_ne hslot] at hvalid ⊢
    exact h k hk hvalid

end

theorem ParameterSets.Bounds.setPps {c : ParameterSets} (hb : c.Bounds) (slot : Nat) (pps : Pps)
    (hpps : pps.i1PpsValid = true → pps.i1SpsId < maxSpsCnt - 1) :
    ParameterSets.Bounds { c with ppsBase := set c.ppsBase slot pps } := by
  refine ⟨fun k hk hvalid => ?_, hb.size⟩
  by_cases hslot : k = slot
  · subst hslot
    simp only [set_same] at hvalid ⊢
    exact hpps hvalid
  · simp only [set_ne hslot] at hvalid ⊢
    exact hb.spsId k hk hvalid

/-- The tiles that are not copied do not belong to the grid. -/
theorem Pps.Fits.copy {pps : Pps} (h : pps.Fits sps)
    (hroom : pps.i1NumTileRows * pps.i1NumTileColumns ≤ room)
    (htile : ∀ i < room, psTile i = pps.psTile i) :
    Pps.Fits { pps with psTile, i1PpsValid := true } sps := by
  obtain ⟨X, Y, hg⟩ := h.tiles
  refine ⟨h.depth, h.minSize, h.merge, h.range, ⟨X, Y, hg.cols, hg.rows, ?_, hg.untiled⟩,
    h.tileSize⟩
  intro r hr c hc
  have hle : (r + 1) * pps.i1NumTileColumns ≤ pps.i1NumTileRows * pps.i1NumTileColumns :=
    Nat.mul_le_mul_right _ hr
  rw [Nat.succ_mul] at hle
  exact (htile _ (by dsimp only at hc ⊢; omega)).trans (hg.tile r hr c hc)

/-- An accepted PPS refers to a valid SPS and fits it. -/
theorem ParameterSets.parsePps_ok {c : ParameterSets} (h : c.parsePps s = .ok pps)
    (hwd : 0 < c.i4Wd) (hht : 0 < c.i4Ht) :
    ∃ sps, c.spsBase pps.i1SpsId = some sps ∧ pps.Fits sps ∧ pps.i1SpsId < maxSpsCnt - 1 ∧
      pps.i1NumTileRows * pps.i1NumTileColumns ≤ tileRoom c.i4Wd c.i4Ht := by
  unfold ParameterSets.parsePps at h
  obtain ⟨⟨spsId, s₁⟩, hid, h⟩ := bind_ok h
  dsimp only at h
  cases hsps : c.spsBase spsId with
  | none =>
    rw [hsps] at h
    contradiction
  | some sps =>
    rw [hsps] at h
    obtain ⟨hfits, hpid, hroom⟩ := parsePpsOf_ok h hwd hht
    have hle := uevAtMost_ok hid
    refine ⟨sps, ?_, hfits, ?_, hroom⟩
    · rw [hpid]
      exact hsps
    · rw [hpid]
      exact Nat.lt_of_le_of_lt hle (by decide)

theorem ppsSlot_ok {c : ParameterSets} (h : c.ppsSlot s = .ok (slot, s')) :
    c.i4SpsDone = true := by
  unfold ParameterSets.ppsSlot at h
  split at h
  · contradiction
  case isFalse hdone => exact Bool.of_not_eq_false hdone

/-- A PPS, accepted or not, keeps all of it. -/
theorem ParameterSets.Consistent.nalPps {c : ParameterSets} (h : c.Consistent) (hb : c.Bounds)
    (s : Bitstrm) : (c.nalPps s).Consistent ∧ (c.nalPps s).Bounds := by
  unfold ParameterSets.nalPps
  cases hslot : c.ppsSlot s with
  | error e => exact ⟨h, hb⟩
  | ok r =>
    obtain ⟨slot, s'⟩ := r
    obtain ⟨hwd, hht⟩ := hb.size (ppsSlot_ok hslot)
    dsimp only
    cases hparse : c.parsePps s' with
    | error e =>
      exact ⟨h.setPps _ _ fun hv => by contradiction, hb.setPps _ _ fun hv => by contradiction⟩
    | ok pps =>
      obtain ⟨sps, hsps, hfits, hid, hroom⟩ := ParameterSets.parsePps_ok hparse hwd hht
      have hb' := hb.setPps (maxPpsCnt - 1) pps fun _ => hid
      have h' := h.setPps (maxPpsCnt - 1) pps fun _ => ⟨sps, hsps, hfits⟩
      unfold ParameterSets.copyPps
      dsimp only
      rw [set_same]
      refine ⟨h'.setPps slot _ fun _ => ⟨sps, hsps, hfits.copy hroom ?_⟩,
        ⟨(hb'.setPps slot _ ?_).spsId, hb.size⟩⟩
      · intro i hi
        exact if_pos hi
      · exact fun _ => hid

/-- What a new SPS leaves of a slot that held none: no valid PPS refers to it. -/
theorem ParameterSets.Consistent.no_dependent {c : ParameterSets} (h : c.Consistent)
    (hslot : c.spsBase slot = none) (hk : k < maxPpsCnt)
    (hvalid : (c.ppsBase k).i1PpsValid = true) : (c.ppsBase k).i1SpsId ≠ slot := by
  rintro rfl
  obtain ⟨sps, hsps, _⟩ := h k hk hvalid
  rw [hslot] at hsps
  contradiction

/-- An SPS that is stored without looking at the PPSs. -/
theorem ParameterSets.Consistent.setSps_iff {c : ParameterSets} (h : c.Consistent) :
    ParameterSets.Consistent { c with spsBase := set c.spsBase slot (some new) } ↔
      ∀ k < maxPpsCnt, (c.ppsBase k).i1PpsValid = true → (c.ppsBase k).i1SpsId = slot →
        (c.ppsBase k).Fits new := by
  constructor
  · intro h' k hk hvalid hslot
    obtain ⟨sps, hsps, hfits⟩ := h' k hk hvalid
    change set c.spsBase slot (some new) (c.ppsBase k).i1SpsId = some sps at hsps
    rw [hslot, set_same] at hsps
    obtain rfl := Option.some.inj hsps
    exact hfits
  · intro hfits k hk hvalid
    change ∃ sps, set c.spsBase slot (some new) (c.ppsBase k).i1SpsId = some sps ∧ _
    by_cases hslot : (c.ppsBase k).i1SpsId = slot
    · rw [hslot, set_same]
      exact ⟨new, rfl, hfits k hk hvalid hslot⟩
    · rw [set_ne hslot]
      exact h k hk hvalid

theorem ParameterSets.Consistent.unmarkPps {c : ParameterSets} (h : c.Consistent) (slot : Nat) :
    (c.unmarkPps slot).Consistent := by
  intro k hk hvalid
  unfold ParameterSets.unmarkPps at hvalid ⊢
  dsimp only at hvalid ⊢
  split at hvalid
  · contradiction
  case isFalse hno =>
    rw [if_neg hno]
    exact h k hk hvalid

/-- The PPSs that `ihevcd_unmark_pps` leaves valid. -/
theorem unmarkPps_valid {c : ParameterSets} :
    ((c.unmarkPps slot).ppsBase k).i1PpsValid = true ∧ ((c.unmarkPps slot).ppsBase k).i1SpsId = slot ↔
      (c.ppsBase k).i1PpsValid = true ∧ (c.ppsBase k).i1SpsId = slot ∧ maxPpsCnt - 1 ≤ k := by
  unfold ParameterSets.unmarkPps
  dsimp only
  split
  case isTrue hyes =>
    obtain ⟨hk, hvalid, hid⟩ := hyes
    constructor
    · rintro ⟨hv, _⟩
      contradiction
    · rintro ⟨_, _, hle⟩
      omega
  case isFalse hno =>
    constructor
    · rintro ⟨hvalid, hid⟩
      exact ⟨hvalid, hid, Nat.le_of_not_lt fun hk => hno ⟨hk, hvalid, hid⟩⟩
    · rintro ⟨hvalid, hid, _⟩
      exact ⟨hvalid, hid⟩

theorem unmarkPps_last {c : ParameterSets} :
    (c.unmarkPps slot).ppsBase (maxPpsCnt - 1) = c.ppsBase (maxPpsCnt - 1) := by
  unfold ParameterSets.unmarkPps
  dsimp only
  exact if_neg fun hk => Nat.lt_irrefl _ hk.1

/-- `ihevcd_copy_sps` over a valid SPS. -/
theorem ParameterSets.Consistent.copySps_iff {c : ParameterSets} (h : c.Consistent)
    (hold : c.spsBase slot = some old) :
    (c.copySps slot new).Consistent ↔
      ∀ k < maxPpsCnt, (c.ppsBase k).i1PpsValid = true → (c.ppsBase k).i1SpsId = slot →
        if old.sameInCtb new.toSpsSize then (c.ppsBase k).Suits new else k ≠ maxPpsCnt - 1 := by
  have hfits : ∀ k < maxPpsCnt, (c.ppsBase k).i1PpsValid = true →
      (c.ppsBase k).i1SpsId = slot → (c.ppsBase k).Fits old := by
    intro k hk hvalid hslot
    obtain ⟨sps, hsps, hf⟩ := h k hk hvalid
    rw [hslot, hold] at hsps
    obtain rfl := Option.some.inj hsps
    exact hf
  unfold ParameterSets.copySps
  rw [hold]
  by_cases hsame : old.sameInCtb new.toSpsSize = true
  · simp only [hsame, if_true]
    rw [h.setSps_iff]
    refine forall_congr' fun k => forall_congr' fun hk => forall_congr' fun hvalid =>
      forall_congr' fun hslot => ?_
    exact (hfits k hk hvalid hslot).fits_iff hsame
  · have hnot : old.sameInCtb new.toSpsSize = false := Bool.of_not_eq_true hsame
    simp only [hnot, Bool.false_eq_true, if_false]
    rw [(h.unmarkPps slot).setSps_iff]
    constructor
    · rintro hleft k hk hvalid hslot rfl
      obtain ⟨hv, hs⟩ := unmarkPps_valid.mpr ⟨hvalid, hslot, Nat.le_refl _⟩
      have hnew := hleft _ hk hv hs
      rw [unmarkPps_last] at hnew
      exact hsame ((hfits _ hk hvalid hslot).sameInCtb hnew)
    · intro hclear k hk hv hs
      obtain ⟨hvalid, hslot, hlast⟩ := unmarkPps_valid.mp ⟨hv, hs⟩
      have := hclear k hk hvalid hslot
      omega

-- ---------------------------------------------------------------------------
-- Sequences of parameter sets
-- ---------------------------------------------------------------------------

theorem ParameterSets.Bounds.copySps {c : ParameterSets} (hb : c.Bounds) (slot : Nat) (new : Sps) :
    ∀ k < maxPpsCnt, ((c.copySps slot new).ppsBase k).i1PpsValid = true →
      ((c.copySps slot new).ppsBase k).i1SpsId < maxSpsCnt - 1 := by
  have hunmark : ∀ k < maxPpsCnt, ((c.unmarkPps slot).ppsBase k).i1PpsValid = true →
      ((c.unmarkPps slot).ppsBase k).i1SpsId < maxSpsCnt - 1 := by
    intro k hk hvalid
    unfold ParameterSets.unmarkPps at hvalid ⊢
    dsimp only at hvalid ⊢
    split at hvalid
    · contradiction
    case isFalse hno =>
      rw [if_neg hno]
      exact hb.spsId k hk hvalid
  unfold ParameterSets.copySps
  cases hold : c.spsBase slot with
  | none => exact hb.spsId
  | some old =>
    dsimp only
    cases old.sameInCtb new.toSpsSize with
    | true => exact hb.spsId
    | false => exact hunmark

theorem ParameterSets.Bounds.nalSps {c : ParameterSets} (hb : c.Bounds) (spsId : Nat) (new : Sps) :
    (c.nalSps spsId new).Bounds := by
  have hclear : c.clearSps.Bounds := ⟨hb.spsId, hb.size⟩
  unfold ParameterSets.nalSps
  cases c.spsSlot spsId new with
  | error e => cases e <;> assumption
  | ok slot => exact ⟨hclear.copySps slot new, fun _ => ⟨new.width_pos, new.height_pos⟩⟩

theorem ParameterSets.Bounds.step {c : ParameterSets} (hb : c.Bounds) (h : c.Consistent)
    (nal : ParamNal) : (c.step nal).Bounds := by
  cases nal with
  | sps spsId new => exact hb.nalSps spsId new
  | rejectedSps cleared =>
    cases cleared with
    | true => exact ⟨hb.spsId, hb.size⟩
    | false => exact hb
  | pps s => exact (h.nalPps hb s).2

theorem ParameterSets.Consistent.nalSps_iff {c : ParameterSets} (h : c.Consistent) (hb : c.Bounds) :
    (c.nalSps spsId new).Consistent ↔ ParamNal.Clear c (.sps spsId new) := by
  have hclear := h.clearSps hb
  unfold ParameterSets.nalSps ParamNal.Clear
  cases hslot : c.spsSlot spsId new with
  | error e =>
    refine iff_of_true (by cases e <;> assumption) fun slot hok => ?_
    rw [hslot] at hok
    contradiction
  | ok slot =>
    change (c.clearSps.copySps slot new).Consistent ↔ _
    by_cases hlast : slot = maxSpsCnt - 1
    · -- no valid PPS refers to the slot for parsing
      have hnone : c.clearSps.spsBase slot = none := by
        rw [hlast]
        change set c.spsBase (maxSpsCnt - 1) none (maxSpsCnt - 1) = none
        exact set_same
      refine iff_of_true ?_ ?_
      · unfold ParameterSets.copySps
        rw [hnone]
        exact hclear.setSps_iff.mpr fun k hk hvalid hid =>
          absurd hid (hclear.no_dependent hnone hk hvalid)
      · intro slot' hok old _ k hk hvalid hid
        obtain rfl := Except.ok.inj (hslot.symm.trans hok)
        exact absurd (hid.trans hlast) (hb.spsId k hk hvalid).ne
    · have hsame : c.clearSps.spsBase slot = c.spsBase slot := set_ne hlast
      cases hold : c.spsBase slot with
      | none =>
        rw [hold] at hsame
        refine iff_of_true ?_ ?_
        · unfold ParameterSets.copySps
          rw [hsame]
          exact hclear.setSps_iff.mpr fun k hk hvalid hid =>
            absurd hid (hclear.no_dependent hsame hk hvalid)
        · intro slot' hok old hsome
          obtain rfl := Except.ok.inj (hslot.symm.trans hok)
          rw [hold] at hsome
          contradiction
      | some old =>
        rw [hclear.copySps_iff (hsame.trans hold)]
        constructor
        · intro hall slot' hok old' hold'
          obtain rfl := Except.ok.inj (hslot.symm.trans hok)
          obtain rfl := Option.some.inj (hold.symm.trans hold')
          exact hall
        · intro hall
          exact hall slot hslot old hold

/-- A NAL unit keeps every valid PPS consistent exactly when it is clear. -/
theorem ParameterSets.Consistent.step_iff {c : ParameterSets} (h : c.Consistent) (hb : c.Bounds)
    (nal : ParamNal) : (c.step nal).Consistent ↔ nal.Clear c := by
  cases nal with
  | sps spsId new => exact h.nalSps_iff hb
  | rejectedSps cleared =>
    refine iff_of_true ?_ trivial
    cases cleared with
    | true => exact h.clearSps hb
    | false => exact h
  | pps s => exact iff_of_true (h.nalPps hb s).1 trivial

/-- The parameter sets of a decoder that has read none. -/
structure ParameterSets.Start (c : ParameterSets) : Prop where
  sps : ∀ slot, c.spsBase slot = none
  pps : ∀ k, (c.ppsBase k).i1PpsValid = false
  done : c.i4SpsDone = false

/-- What a sequence of NAL units leads to, each of them clear when it comes. -/
inductive ParameterSets.Run : ParameterSets → Prop
  | start : c.Start → Run c
  | step (nal : ParamNal) : Run c → nal.Clear c → Run (c.step nal)

theorem ParameterSets.Run.consistent {c : ParameterSets} (h : c.Run) :
    c.Consistent ∧ c.Bounds := by
  induction h with
  | start hs =>
    refine ⟨fun k _ hvalid => ?_, fun k _ hvalid => ?_, fun hdone => ?_⟩
    · rw [hs.pps] at hvalid
      contradiction
    · rw [hs.pps] at hvalid
      contradiction
    · rw [hs.done] at hdone
      contradiction
  | step nal _ hclear ih =>
    obtain ⟨hc, hb⟩ := ih
    exact ⟨(hc.step_iff hb nal).mpr hclear, hb.step hc nal⟩

/-- No parameter set has been read. -/
def noParameterSets : ParameterSets :=
  { spsBase := fun _ => none
    ppsBase := fun _ =>
      { i1TilesEnabledFlag := 0
        i1NumTileColumns := 0
        i1NumTileRows := 0
        psTile := fun _ => ⟨0, 0, 0, 0⟩
        toPpsRange := .none
        i1PpsValid := false
        i1SpsId := 0
        i1DiffCuQpDeltaDepth := 0
        i1Log2MinCuQpDeltaSize := 0
        i1Log2ParallelMergeLevel := 0 }
    i4SpsDone := false
    i4PpsDone := false
    i4Wd := 0
    i4Ht := 0 }

/-- A picture of 64x64 in one CTB, with coding blocks from `1 << log2Min`. -/
def smallSps (log2Min : Nat) (hle : log2Min ≤ 6) : Sps :=
  { i2PicWidthInLumaSamples := 64
    i2PicHeightInLumaSamples := 64
    i1Log2CtbSize := 6
    width_pos := SpsSize.pos_64
    width_le := SpsSize.le_64
    height_pos := SpsSize.pos_64
    height_le := SpsSize.le_64
    log2CtbSize_ge := SpsSize.log2_le
    log2CtbSize_le := SpsSize.log2_max
    profile := .main
    i1Log2MinCodingBlockSize := log2Min
    i1Log2DiffMaxMinCodingBlockSize := 6 - log2Min
    log2CtbSize_eq := by omega }

/-- A PPS for SPS 0 with a `diff_cu_qp_delta_depth` of 2. -/
def depthTwoPps : List Nat := [0xC0, 0x72, 0xF0, 0x02, 0x40]

/-- An SPS with larger coding blocks behind a PPS that refers to it. -/
def resentSps : ParameterSets :=
  ([.sps 0 (smallSps 4 SpsSize.log2_le),
    .pps (ihevcdBitsInit (fun i => depthTwoPps.getD i 0) depthTwoPps.length),
    .sps 0 (smallSps 5 (by decide))] : List ParamNal).foldl ParameterSets.step noParameterSets

end Libhevc.Decoder
