import Libhevc.Decoder.CabacStartLaws

/-!
# Start states over a picture

From the start of one CTB to the start of all CTBs of a picture: the copy that
wavefronts take back is the end of the second CTB of the row above.
-/

namespace Libhevc.Decoder

open Spec Grid

section
variable {e : EntropySetup} {segments : Nat → Option SegmentHdr} {X Y : Nat → Nat}

/-- With CTB `k` a slice begins. -/
def Independent (segments : Nat → Option SegmentHdr) (k : Nat) : Prop :=
  ∃ hdr, segments k = some hdr ∧ hdr.i1DependentSliceFlag = false

theorem independent_iff :
    Independent segments k ↔ (e.ctuOrder segments).segment k = some false := by
  simp [Independent, EntropySetup.ctuOrder]

/-- The start of a row leaves all but the variables as they are. -/
theorem startRow_eq (s : SliceData) : (s.startRow e).pos = s.pos ∧ (s.startRow e).hdr = s.hdr ∧
    (s.startRow e).cabac.syncVars e = s.cabac.syncVars e := by
  unfold SliceData.startRow
  split_ifs <;> exact ⟨rfl, rfl, rfl⟩

theorem startRow_of_inside (s : SliceData)
    (hrow : e.i1EntropyCodingSyncEnabledFlag = false ∨ s.pos.i4CtbX ≠ 0) :
    s.startRow e = s := by
  unfold SliceData.startRow
  rw [if_neg]
  rintro ⟨hsync, hx⟩
  rcases hrow with hrow | hrow
  · rw [hsync] at hrow
    contradiction
  · exact hrow hx

theorem endCtb_vars (parser : CtuParser) (k : Nat) (s : SliceData) :
    (s.endCtb e parser k).cabac.vars e = parser.parse k (s.cabac.vars e) := by
  unfold SliceData.endCtb
  dsimp only
  split_ifs <;> simp

theorem endCtb_syncVars (parser : CtuParser) (k : Nat) (s : SliceData)
    (hsync : e.i1EntropyCodingSyncEnabledFlag = true) :
    (s.endCtb e parser k).cabac.syncVars e =
      if s.pos.i4CtbX = 1 then parser.parse k (s.cabac.vars e) else s.cabac.syncVars e := by
  unfold SliceData.endCtb
  simp only [hsync, or_true, true_and]
  split_ifs <;> simp

/-- The variables behind a CTB. -/
theorem run_vars_succ (parser : CtuParser) (s : SliceData) (k : Nat) :
    (s.run e parser segments (k + 1)).cabac.vars e =
      parser.parse k ((s.atCtb e parser segments k).cabac.vars e) :=
  endCtb_vars parser k _

variable (h : e.pps.InGrid e.sps.i2PicWdInCtb e.sps.i2PicHtInCtb X Y)
include h

/-- Where a CTB starts, short of what wavefronts do at the start of a row. -/
theorem PpsTiles.InGrid.beforeRow (hp : e.Partition segments) (hk : k < e.numCtbs)
    (hs : 0 < k → BeforeCtb e segments k s) :
    AtCtb e segments k (((segments k).elim s (s.startSegment e)).startTile e) ∧
      (((segments k).elim s (s.startSegment e)).startTile e).cabac.syncVars e =
        s.cabac.syncVars e ∧
      (e.i1EntropyCodingSyncEnabledFlag = false ∨ (ctbAt e.pps e.sps k).i4CtbX ≠ 0 →
        (((ctbAt e.pps e.sps k).atTileStart = true ∨ Independent segments k) →
          (((segments k).elim s (s.startSegment e)).startTile e).cabac.vars e =
            e.tables segments k) ∧
        (¬((ctbAt e.pps e.sps k).atTileStart = true ∨ Independent segments k) →
          (((segments k).elim s (s.startSegment e)).startTile e).cabac.vars e =
            s.cabac.vars e)) ∧
      (∀ hdr, segments k = some hdr → hdr.i1DependentSliceFlag = false →
        (((segments k).elim s (s.startSegment e)).startTile e).hdr.i1DependentSliceFlag = false) := by
  cases hseg : segments k with
  | none =>
    have hnone : ∀ hdr, segments k = some hdr → hdr.i1DependentSliceFlag = true := by
      simp [hseg]
    have hk0 : 0 < k := by
      obtain ⟨hdr₀, hseg₀, _⟩ := hp.first
      rcases Nat.eq_zero_or_pos k with rfl | hk0
      · rw [hseg] at hseg₀
        contradiction
      · exact hk0
    have hb := hs hk0
    obtain ⟨hslice, htables⟩ := tables_pred (e := e) hk0 hnone
    have hat : AtCtb e segments k s :=
      ⟨ctb_eq_iff.mpr (by rw [← hb.place]; exact ⟨rfl, rfl, rfl, rfl, rfl⟩),
        fun hflag => by rw [hslice]; exact hb.slice hflag, by rw [htables]; exact hb.hdr⟩
    obtain ⟨hat', hsync, _, hvars⟩ := h.startTile_at hk hat
    have hnind : ¬Independent segments k := by
      rintro ⟨hdr, hsome, _⟩
      rw [hseg] at hsome
      contradiction
    refine ⟨hat', hsync, fun _ => ⟨?_, ?_⟩, by simp⟩
    · rintro (htile | hind)
      · -- the slice-relative position is that of the tile
        obtain ⟨_, _, hne⟩ := h.tilePos_ne hk hk0 htile
        have htile' := hb.tile (by rw [atTileStart_congr hat.ctb]; exact htile)
        obtain ⟨hx, hy, _⟩ := ctb_eq_iff.mp hat.ctb
        refine hvars.trans (if_pos ⟨htile, hk0, ?_⟩)
        rw [htile'.1, htile'.2, hx, hy]
        exact hne
      · exact absurd hind hnind
    · intro hn
      exact hvars.trans (if_neg fun hc => hn (.inl hc.1))
  | some hdr =>
    obtain ⟨hat, hzero, hsync, hvars⟩ := h.startSegment_at hp hk hs hseg
    obtain ⟨hat', hsync', hhdr, hvars'⟩ := h.startTile_at hk hat
    have hind : Independent segments k ↔ hdr.i1DependentSliceFlag = false := by
      simp [Independent, hseg]
    have hkeep : (((some hdr).elim s (s.startSegment e)).startTile e).cabac.vars e =
        (s.startSegment e hdr).cabac.vars e :=
      hvars'.trans (if_neg fun hc => hc.2.2 (hzero hc.1))
    refine ⟨hat', hsync'.trans hsync, fun hrow => ?_, ?_⟩
    · rw [hkeep, hvars, hind]
      constructor
      · intro hc
        rw [if_neg ?_, if_pos hrow]
        rintro ⟨hdep, htile⟩
        rw [hdep, htile] at hc
        simp at hc
      · intro hc
        rw [if_pos]
        simpa [not_or, and_comm] using hc
    · intro hdr' hsome hdep
      cases hsome
      change ((s.startSegment e hdr).startTile e).hdr.i1DependentSliceFlag = false
      rw [hhdr]
      exact (parsed_fields s.hdr hdr).1.trans hdep

/-- Without tiles a CTB is found by its number in raster scan. -/
theorem PpsTiles.InGrid.ctbAt_raster (hflag : e.pps.i1TilesEnabledFlag = 0)
    (hx : x < e.sps.i2PicWdInCtb) (hk : x + y * e.sps.i2PicWdInCtb < e.numCtbs) :
    (ctbAt e.pps e.sps (x + y * e.sps.i2PicWdInCtb)).i4CtbX = x ∧
      (ctbAt e.pps e.sps (x + y * e.sps.i2PicWdInCtb)).i4CtbY = y ∧
      (ctbAt e.pps e.sps (x + y * e.sps.i2PicWdInCtb)).psTile = 0 := by
  obtain ⟨hpic, hlt, _, _, ht⟩ := h.ctbAt_untiled hflag hk
  have hwd := e.sps.wdInCtb_pos
  have hmod := congrArg (· % e.sps.i2PicWdInCtb) hpic
  have hdiv := congrArg (· / e.sps.i2PicWdInCtb) hpic
  simp only [Nat.add_mul_mod_self_right, Nat.mod_eq_of_lt hlt, Nat.mod_eq_of_lt hx] at hmod
  simp only [Nat.add_mul_div_right _ _ hwd, Nat.div_eq_of_lt hlt, Nat.div_eq_of_lt hx,
    Nat.zero_add] at hdiv
  exact ⟨hmod, hdiv, ht⟩

/-- Without tiles the first CTB of a row is at the left of the picture. -/
theorem PpsTiles.InGrid.firstInRow_iff (hflag : e.pps.i1TilesEnabledFlag = 0)
    (hk : k < e.numCtbs) :
    (e.ctuOrder segments).FirstInRow k ↔ (ctbAt e.pps e.sps k).i4CtbX = 0 := by
  obtain ⟨hpic, hlt, _, _, ht⟩ := h.ctbAt_untiled hflag hk
  constructor
  · intro hfirst
    by_contra hx
    obtain ⟨x, hx⟩ := Nat.exists_eq_succ_of_ne_zero hx
    -- the CTB before is the one to the left
    obtain ⟨hleft, hrow, ht'⟩ := h.ctbAt_raster hflag (x := x)
      (y := (ctbAt e.pps e.sps k).i4CtbY) (by omega) (by omega)
    refine hfirst _ (by omega) ?_ hrow (ht'.trans ht.symm)
    exact (congrArg (· + 1) hleft).trans hx.symm
  · intro hx j _ hj
    change (ctbAt e.pps e.sps j).i4CtbX + 1 = (ctbAt e.pps e.sps k).i4CtbX at hj
    omega

/-- With wavefronts, a slice that goes on at the left of the picture has begun there, in a row
above. -/
theorem PpsTiles.InGrid.sliceStart_row (hflag : e.pps.i1TilesEnabledFlag = 0)
    (hwave : (e.ctuOrder segments).WavefrontSlices e.numCtbs) (hk : k < e.numCtbs)
    (hx : (ctbAt e.pps e.sps k).i4CtbX = 0)
    (hlt : (e.ctuOrder segments).sliceStart k < k) :
    ∃ y < (ctbAt e.pps e.sps k).i4CtbY,
      (e.ctuOrder segments).sliceStart k = y * e.sps.i2PicWdInCtb := by
  have hs := hlt.trans hk
  obtain ⟨hpic, _⟩ := h.ctbAt_untiled hflag hk
  obtain ⟨hpic', _⟩ := h.ctbAt_untiled hflag hs
  have hfirst : (e.ctuOrder segments).FirstInRow ((e.ctuOrder segments).sliceStart k) := by
    by_contra hne
    have hrow : (ctbAt e.pps e.sps k).i4CtbY =
        (ctbAt e.pps e.sps ((e.ctuOrder segments).sliceStart k)).i4CtbY := hwave k hk hne
    rw [hrow] at hpic
    omega
  have hx' := (h.firstInRow_iff hflag hs).mp hfirst
  rw [hx', Nat.zero_add] at hpic'
  rw [hx, Nat.zero_add] at hpic
  refine ⟨_, ?_, hpic'.symm⟩
  refine Nat.lt_of_mul_lt_mul_right (a := e.sps.i2PicWdInCtb) ?_
  rw [hpic, hpic']
  exact hlt

/-- There the CTB above and to the right is available, and it is the second CTB of its row. -/
theorem PpsTiles.InGrid.topRight_eq (hflag : e.pps.i1TilesEnabledFlag = 0)
    (hwave : (e.ctuOrder segments).WavefrontSlices e.numCtbs) (hk : k < e.numCtbs)
    (hx : (ctbAt e.pps e.sps k).i4CtbX = 0) (hwd : 1 < e.sps.i2PicWdInCtb)
    (hlt : (e.ctuOrder segments).sliceStart k < k) :
    ∃ y, (ctbAt e.pps e.sps k).i4CtbY = y + 1 ∧
      (e.ctuOrder segments).topRight? k = some (1 + y * e.sps.i2PicWdInCtb) := by
  obtain ⟨hpic, _, _, _, ht⟩ := h.ctbAt_untiled hflag hk
  obtain ⟨y₀, hy₀, hstart⟩ := h.sliceStart_row hflag hwave hk hx hlt
  obtain ⟨y, hy⟩ := Nat.exists_eq_succ_of_ne_zero (Nat.ne_zero_of_lt hy₀)
  rw [hx, hy, Nat.zero_add, Nat.succ_mul] at hpic
  refine ⟨y, hy, ?_⟩
  obtain ⟨hx₁, hy₁, ht₁⟩ := h.ctbAt_raster hflag (x := 1) (y := y) hwd (by omega)
  have hrows : y₀ * e.sps.i2PicWdInCtb ≤ y * e.sps.i2PicWdInCtb :=
    Nat.mul_le_mul_right _ (by omega)
  have htr : (e.ctuOrder segments).TopRight k (1 + y * e.sps.i2PicWdInCtb) := by
    refine ⟨by omega, ?_, ?_, ht₁.trans ht.symm,
      CtuOrder.sliceStart_between (by omega) (by omega)⟩
    · exact hx₁.trans (congrArg (· + 1) hx.symm)
    · exact (congrArg (· + 1) hy₁).trans hy.symm
  cases hfound : (e.ctuOrder segments).topRight? k with
  | none => exact absurd htr (CtuOrder.topRight?_eq_none.mp hfound _)
  | some j =>
    obtain ⟨hj, hjx, hjy, _⟩ := CtuOrder.topRight?_eq_some hfound
    change (ctbAt e.pps e.sps j).i4CtbX = (ctbAt e.pps e.sps k).i4CtbX + 1 at hjx
    change (ctbAt e.pps e.sps j).i4CtbY + 1 = (ctbAt e.pps e.sps k).i4CtbY at hjy
    obtain ⟨hpicj, _⟩ := h.ctbAt_untiled hflag (hj.trans hk)
    rw [hjx, hx, show (ctbAt e.pps e.sps j).i4CtbY = y by omega] at hpicj
    rw [← hpicj]

/-- There the slice has counted a row. -/
theorem PpsTiles.InGrid.sliceY_ne (hflag : e.pps.i1TilesEnabledFlag = 0)
    (hwave : (e.ctuOrder segments).WavefrontSlices e.numCtbs) (hk : k < e.numCtbs)
    (hx : (ctbAt e.pps e.sps k).i4CtbX = 0)
    (hlt : (e.ctuOrder segments).sliceStart k < k) (hs : AtCtb e segments k s) :
    s.pos.i4CtbSliceY ≠ 0 := by
  obtain ⟨hsx, hpos⟩ := hs.slice hflag
  obtain ⟨hpic, _⟩ := h.ctbAt_untiled hflag hk
  obtain ⟨y₀, hy₀, hstart⟩ := h.sliceStart_row hflag hwave hk hx hlt
  have hrows : (y₀ + 1) * e.sps.i2PicWdInCtb ≤
      (ctbAt e.pps e.sps k).i4CtbY * e.sps.i2PicWdInCtb := Nat.mul_le_mul_right _ hy₀
  rw [Nat.succ_mul] at hrows
  intro hzero
  rw [hzero, Nat.zero_mul, Nat.zero_add] at hpos
  omega

-- ---------------------------------------------------------------------------
-- One CTB
-- ---------------------------------------------------------------------------

theorem PpsTiles.InGrid.startCtb_at (hp : e.Partition segments) (hk : k < e.numCtbs)
    (hs : 0 < k → BeforeCtb e segments k s) :
    AtCtb e segments k (s.startCtb e (segments k)) ∧
      (s.startCtb e (segments k)).cabac.syncVars e = s.cabac.syncVars e := by
  obtain ⟨hat, hsync, _⟩ := h.beforeRow hp hk hs
  obtain ⟨hpos, hhdr, hsync'⟩ := startRow_eq (e := e)
    (((segments k).elim s (s.startSegment e)).startTile e)
  refine ⟨⟨?_, fun hflag => ?_, ?_⟩, hsync'.trans hsync⟩
  · rw [SliceData.startCtb, hpos]
    exact hat.ctb
  · rw [SliceData.startCtb, hpos]
    exact hat.slice hflag
  · rw [SliceData.startCtb, hhdr]
    exact hat.hdr

/-- Inside a row, and everywhere without wavefronts. -/
theorem PpsTiles.InGrid.startCtb_inside (hp : e.Partition segments) (hk : k < e.numCtbs)
    (hs : 0 < k → BeforeCtb e segments k s)
    (hrow : e.i1EntropyCodingSyncEnabledFlag = false ∨ (ctbAt e.pps e.sps k).i4CtbX ≠ 0) :
    (((ctbAt e.pps e.sps k).atTileStart = true ∨ Independent segments k) →
      (s.startCtb e (segments k)).cabac.vars e = e.tables segments k) ∧
    (¬((ctbAt e.pps e.sps k).atTileStart = true ∨ Independent segments k) →
      (s.startCtb e (segments k)).cabac.vars e = s.cabac.vars e) := by
  obtain ⟨hat, _, hvars, _⟩ := h.beforeRow hp hk hs
  rw [SliceData.startCtb, startRow_of_inside]
  · exact hvars hrow
  · rw [(ctb_eq_iff.mp hat.ctb).1]
    exact hrow

/-- At the left of the picture with wavefronts: the tables where a slice begins, and in a picture
one CTB wide; the copy of the row above elsewhere. -/
theorem PpsTiles.InGrid.startCtb_left (hp : e.Partition segments) (hk : k < e.numCtbs)
    (hs : 0 < k → BeforeCtb e segments k s) (hflag : e.pps.i1TilesEnabledFlag = 0)
    (hsync : e.i1EntropyCodingSyncEnabledFlag = true)
    (hx : (ctbAt e.pps e.sps k).i4CtbX = 0) :
    (Independent segments k ∨ e.sps.i2PicWdInCtb = 1 →
      (s.startCtb e (segments k)).cabac.vars e = e.tables segments k) ∧
    (¬(Independent segments k ∨ e.sps.i2PicWdInCtb = 1) →
      (s.startCtb e (segments k)).cabac.vars e = s.cabac.syncVars e) := by
  obtain ⟨hat, hsyncVars, _, hdep⟩ := h.beforeRow hp hk hs
  obtain ⟨hposx, _⟩ := ctb_eq_iff.mp hat.ctb
  have hleft : e.i1EntropyCodingSyncEnabledFlag = true ∧
      (((segments k).elim s (s.startSegment e)).startTile e).pos.i4CtbX = 0 :=
    ⟨hsync, hposx.trans hx⟩
  rw [SliceData.startCtb, SliceData.startRow, if_pos hleft]
  constructor
  · intro hc
    rw [if_pos]
    · exact (tableInit_vars _ _).trans hat.hdr
    rcases hc with ⟨hdr, hseg, hind⟩ | hwd
    · -- the slice begins here, and has no row yet
      have hslice := (hat.slice hflag).2
      have hstart : (e.ctuOrder segments).sliceStart k = k :=
        CtuOrder.sliceStart_of_independent (independent_iff.mp ⟨hdr, hseg, hind⟩)
      rw [hstart] at hslice
      have hwd := e.sps.wdInCtb_pos
      have hzero : (((segments k).elim s (s.startSegment e)).startTile e).pos.i4CtbSliceY *
          e.sps.i2PicWdInCtb = 0 := by omega
      refine .inl ⟨?_, hdep hdr hseg hind⟩
      rcases Nat.mul_eq_zero.mp hzero with hy | hw
      · exact hy
      · omega
    · exact .inr hwd
  · intro hc
    obtain ⟨hnind, hwd⟩ := not_or.mp hc
    have hlt : (e.ctuOrder segments).sliceStart k < k := by
      refine Nat.lt_of_le_of_ne (CtuOrder.sliceStart_le k) fun heq => ?_
      rcases CtuOrder.independent_of_sliceStart heq with rfl | hind
      · exact hnind hp.first
      · exact hnind (independent_iff.mpr hind)
    have hne := h.sliceY_ne hflag (hp.wavefront hsync) hk hx hlt hat
    rw [if_neg fun hdef => hdef.elim (fun hy => hne hy.1) hwd]
    exact (syncInit_vars _).trans hsyncVars

/-- The end of a CTB that is not the last. -/
theorem PpsTiles.InGrid.endCtb_before (hk : k + 1 < e.numCtbs) (hs : AtCtb e segments k s)
    (parser : CtuParser) : BeforeCtb e segments (k + 1) (s.endCtb e parser k) := by
  have hplace : (s.endCtb e parser k).pos.place = ctbAt e.pps e.sps (k + 1) := by
    have hctb : s.pos.place.ctb = (ctbAt e.pps e.sps k).ctb := hs.ctb
    rw [← h.ctbAt_succ hk, ← advance_congr hctb]
    exact update_place e.pps e.sps _ _ _
  have hend : (s.endCtb e parser k).pos.endOfPic = 0 := by
    obtain ⟨t, _, y, _, x, _, hp⟩ := mem_places (h.ctbAt_mem hk)
    rw [← hplace] at hp
    exact congrArg CtbPos.endOfPic hp
  refine ⟨hplace, update_atTileStart hend, fun hflag => ?_, hs.hdr⟩
  obtain ⟨hlt, hpos⟩ := hs.slice hflag
  have ht := (ctb_eq_iff.mp hs.ctb).2.2.2.2
  rw [(h.ctbAt_untiled hflag (Nat.lt_of_succ_lt hk)).2.2.2.2] at ht
  obtain ⟨hx, hy⟩ := h.update_slice hflag ht s.hdr.i2CtbX s.hdr.i2CtbY
  change (s.pos.update e.pps e.sps _ _).i4CtbSliceX < _ ∧
    (s.pos.update e.pps e.sps _ _).i4CtbSliceY * _ +
      (s.pos.update e.pps e.sps _ _).i4CtbSliceX + _ = k + 1
  rw [hx, hy, Nat.add_sub_cancel]
  split_ifs with hend
  · rw [Nat.succ_mul]
    omega
  · omega

-- ---------------------------------------------------------------------------
-- All CTBs of a picture
-- ---------------------------------------------------------------------------

section
variable (hp : e.Partition segments) (parser : CtuParser) (s : SliceData)
include hp

theorem PpsTiles.InGrid.run_before (hk : k < e.numCtbs) (hpos : 0 < k) :
    BeforeCtb e segments k (s.run e parser segments k) := by
  induction k with
  | zero => contradiction
  | succ k ih =>
    exact h.endCtb_before hk (h.startCtb_at hp (Nat.lt_of_succ_lt hk)
      (ih (Nat.lt_of_succ_lt hk))).1 parser

/-- The copy is from the last CTB in the second column. -/
theorem PpsTiles.InGrid.run_syncVars (hsync : e.i1EntropyCodingSyncEnabledFlag = true)
    (hk : k ≤ e.numCtbs) (hj : j < k) (hx : (ctbAt e.pps e.sps j).i4CtbX = 1)
    (hlast : ∀ i, j < i → i < k → (ctbAt e.pps e.sps i).i4CtbX ≠ 1) :
    (s.run e parser segments k).cabac.syncVars e =
      parser.parse j ((s.atCtb e parser segments j).cabac.vars e) := by
  induction k with
  | zero => contradiction
  | succ k ih =>
    obtain ⟨hat, hkeep⟩ := h.startCtb_at hp hk (h.run_before hp parser s hk)
    have hposx := (ctb_eq_iff.mp hat.ctb).1
    refine (endCtb_syncVars parser k _ hsync).trans ?_
    rcases Nat.lt_or_eq_of_le (Nat.le_of_lt_succ hj) with hlt | rfl
    · rw [if_neg, hkeep]
      · exact ih (Nat.le_of_lt hk) hlt fun i hji hik => hlast i hji (hik.trans k.lt_succ_self)
      · rw [hposx]
        exact hlast k hlt k.lt_succ_self
    · rw [if_pos (hposx.trans hx)]
      rfl

end

end

/-- Without wavefronts. -/
theorem PpsTiles.InGrid.starts_without {e : EntropySetup}
    (h : e.pps.InGrid e.sps.i2PicWdInCtb e.sps.i2PicHtInCtb X Y) (hp : e.Partition segments)
    (parser : CtuParser) (s : SliceData) (hsync : e.i1EntropyCodingSyncEnabledFlag = false) :
    (e.ctuOrder segments).Prescribed e.numCtbs (e.tables segments) parser.parse
      fun k => (s.atCtb e parser segments k).cabac.vars e := by
  intro k hk
  have hbegin : ((e.ctuOrder segments).FirstInTile k ∨
        (e.ctuOrder segments).segment k = some false) ↔
      ((ctbAt e.pps e.sps k).atTileStart = true ∨ Independent segments k) :=
    or_congr (h.firstInTile_iff hk) independent_iff.symm
  obtain ⟨htables, hkeep⟩ := h.startCtb_inside hp hk (h.run_before hp parser s hk) (.inl hsync)
  have hnosync : ¬((e.ctuOrder segments).syncEnabled = true ∧
      (e.ctuOrder segments).FirstInRow k) := by
    rintro ⟨hon, _⟩
    rw [show (e.ctuOrder segments).syncEnabled = false from hsync] at hon
    contradiction
  rw [CtuOrder.startVars, if_neg hnosync]
  split_ifs with hc
  · exact htables (hbegin.mp hc)
  · cases k with
    | zero => exact absurd (.inr (independent_iff.mp hp.first)) hc
    | succ k => exact (hkeep (mt hbegin.mpr hc)).trans (run_vars_succ parser s k)

/-- With wavefronts and no tiles, in a picture at least two CTBs wide. -/
theorem PpsTiles.InGrid.starts_with {e : EntropySetup}
    (h : e.pps.InGrid e.sps.i2PicWdInCtb e.sps.i2PicHtInCtb X Y) (hp : e.Partition segments)
    (parser : CtuParser) (s : SliceData) (hsync : e.i1EntropyCodingSyncEnabledFlag = true)
    (hflag : e.pps.i1TilesEnabledFlag = 0) (hwd : e.sps.i2PicWdInCtb ≠ 1) :
    (e.ctuOrder segments).Prescribed e.numCtbs (e.tables segments) parser.parse
      fun k => (s.atCtb e parser segments k).cabac.vars e := by
  intro k hk
  have hbegin : ((e.ctuOrder segments).FirstInTile k ∨
        (e.ctuOrder segments).segment k = some false) ↔
      ((ctbAt e.pps e.sps k).atTileStart = true ∨ Independent segments k) :=
    or_congr (h.firstInTile_iff hk) independent_iff.symm
  have hrow : (e.ctuOrder segments).FirstInRow k ↔ (ctbAt e.pps e.sps k).i4CtbX = 0 :=
    h.firstInRow_iff hflag hk
  have hbefore := h.run_before hp parser s hk
  obtain ⟨hpic, hlt, htx, hty, _⟩ := h.ctbAt_untiled hflag hk
  -- the only tile begins with the first slice
  have hind : (ctbAt e.pps e.sps k).atTileStart = true → Independent segments k := by
    simp only [CtbPos.atTileStart, decide_eq_true_eq, htx, hty]
    rintro ⟨hx, hy⟩
    rw [hx, hy, Nat.zero_mul, Nat.zero_add] at hpic
    rw [← hpic]
    exact hp.first
  rw [CtuOrder.startVars]
  by_cases hx : (ctbAt e.pps e.sps k).i4CtbX = 0
  · obtain ⟨htables, hcopy⟩ := h.startCtb_left hp hk hbefore hflag hsync hx
    split_ifs with hc hs
    · exact htables (.inl ((hbegin.mp hc).elim hind id))
    · have hnind : ¬Independent segments k := fun hi => hc (hbegin.mpr (.inr hi))
      have hstart : (e.ctuOrder segments).sliceStart k < k := by
        refine Nat.lt_of_le_of_ne (CtuOrder.sliceStart_le k) fun heq => ?_
        rcases CtuOrder.independent_of_sliceStart heq with rfl | hi
        · exact hnind hp.first
        · exact hnind (independent_iff.mpr hi)
      obtain ⟨y, hy, htr⟩ := h.topRight_eq hflag (hp.wavefront hsync) hk hx (by omega) hstart
      rw [htr]
      rw [hx, hy, Nat.zero_add, Nat.succ_mul] at hpic
      refine (hcopy (not_or.mpr ⟨hnind, hwd⟩)).trans ?_
      -- the CTBs since then are of the same row, and farther right
      refine h.run_syncVars hp parser s hsync hk.le (by omega)
        (h.ctbAt_raster hflag (by omega) (by omega)).1 fun i hji hik => ?_
      obtain ⟨x, rfl⟩ := Nat.exists_eq_add_of_le (show y * e.sps.i2PicWdInCtb ≤ i by omega)
      rw [Nat.add_comm, (h.ctbAt_raster hflag (by omega) (by omega)).1]
      omega
    · exact absurd ⟨hsync, hrow.mpr hx⟩ hs
  · obtain ⟨htables, hkeep⟩ := h.startCtb_inside hp hk hbefore (.inr hx)
    split_ifs with hc hs
    · exact htables (hbegin.mp hc)
    · exact absurd (hrow.mp hs.2) hx
    · cases k with
      | zero => exact absurd (.inr (independent_iff.mp hp.first)) hc
      | succ k => exact (hkeep (mt hbegin.mpr hc)).trans (run_vars_succ parser s k)

/-- For every accepted tile syntax that does not come with wavefronts, with wavefronts alone, and
with neither, and for every partition into slices and slice segments, all CTBs of a picture start
from what is prescribed. In a picture one CTB wide, wavefronts start each CTB from the tables. -/
theorem start_states {e : EntropySetup} {segments : Nat → Option SegmentHdr}
    (hparse : parseTiles e.sps i4Wd i4Ht psTile b = .ok (e.pps, b'))
    (hboth : e.pps.i1TilesEnabledFlag ≠ 0 → e.i1EntropyCodingSyncEnabledFlag = false)
    (hp : e.Partition segments) (parser : CtuParser) (s : SliceData) :
    (¬(e.i1EntropyCodingSyncEnabledFlag = true ∧ e.sps.i2PicWdInCtb = 1) →
      (e.ctuOrder segments).Prescribed e.numCtbs (e.tables segments) parser.parse
        fun k => (s.atCtb e parser segments k).cabac.vars e) ∧
    (e.i1EntropyCodingSyncEnabledFlag = true ∧ e.sps.i2PicWdInCtb = 1 →
      ∀ k < e.numCtbs, (s.atCtb e parser segments k).cabac.vars e = e.tables segments k) := by
  obtain ⟨X, Y, h⟩ := parseTiles_inGrid hparse
  have huntiled : e.i1EntropyCodingSyncEnabledFlag = true → e.pps.i1TilesEnabledFlag = 0 := by
    intro hsync
    by_contra hflag
    rw [hboth hflag] at hsync
    contradiction
  constructor
  · intro hwide
    cases hsync : e.i1EntropyCodingSyncEnabledFlag with
    | false => exact h.starts_without hp parser s hsync
    | true => exact h.starts_with hp parser s hsync (huntiled hsync) fun hwd => hwide ⟨hsync, hwd⟩
  · rintro ⟨hsync, hwd⟩ k hk
    have hflag := huntiled hsync
    obtain ⟨_, hlt, _⟩ := h.ctbAt_untiled hflag hk
    exact (h.startCtb_left hp hk (h.run_before hp parser s hk) hflag hsync (by omega)).1
      (.inr hwd)

/-- Two rows of CTBs. -/
def twoRows (wd : Nat) (hpos : 0 < wd) (hle : wd ≤ 32767) : SpsSize where
  i2PicWidthInLumaSamples := wd
  i2PicHeightInLumaSamples := 128
  i1Log2CtbSize := 6
  width_pos := hpos
  width_le := hle
  height_pos := SpsSize.pos_128
  height_le := SpsSize.le_128
  log2CtbSize_ge := SpsSize.log2_le
  log2CtbSize_le := SpsSize.log2_max

def oneColumn : SpsSize := twoRows 64 SpsSize.pos_64 SpsSize.le_64

def twoColumns : SpsSize := twoRows 128 SpsSize.pos_128 SpsSize.le_128

/-- The tile syntax is the byte. -/
def parseByte (sps : SpsSize) (byte : Nat) : Except IhevcdErrorT (PpsTiles × Bitstrm) :=
  parseTiles sps 128 128 (fun _ => ⟨0, 0, 0, 0⟩)
    (ihevcdBitsInit (fun i => if i = 0 then byte else 0) 1)

def byteTiles (sps : SpsSize) (byte : Nat) : PpsTiles :=
  match parseByte sps byte with
  | .ok (pps, _) => pps
  | .error _ => ⟨0, 1, 1, fun _ => ⟨0, 0, 0, 0⟩⟩

/-- Wavefronts, and one context model. -/
def waveSetup (sps : SpsSize) (byte : Nat) : EntropySetup where
  pps := byteTiles sps byte
  sps
  i1EntropyCodingSyncEnabledFlag := true
  i1PersistentRiceAdaptationEnabledFlag := true
  i1PicInitQp := 26
  i4QpBdOffsetY := 0
  gau1IhevcCabCtxts _ _ := [154]

/-- Each CTB changes the model. -/
def countingParser : CtuParser where
  ctxtModels _ models _ := models.map (· + 1)
  statCoeff _ _ stats := stats

def pHdr (i1DependentSliceFlag : Bool) (i2CtbX i2CtbY : Nat) : SegmentHdr where
  i1DependentSliceFlag
  i2CtbX
  i2CtbY
  i1SliceType := .pslice
  i1CabacInitFlag := false
  i1SliceQpDelta := 0

/-- One slice, with a second segment from CTB `k₂` in the second row. -/
def twoSegments (k₂ k : Nat) : Option SegmentHdr :=
  if k = 0 then some (pHdr false 0 0) else if k = k₂ then some (pHdr true 0 1) else none

def zeroedData : SliceData where
  pos := .first
  hdr := pHdr false 0 0
  cabac := ⟨[], [], [], []⟩

/-- A second segment, if it is in the picture, begins at the left of the second row. -/
theorem twoSegments_partition (e : EntropySetup) (k₂ : Nat)
    (h0 : (ctbAt e.pps e.sps 0).i4CtbX = 0 ∧ (ctbAt e.pps e.sps 0).i4CtbY = 0)
    (h2 : k₂ < e.numCtbs →
      (ctbAt e.pps e.sps k₂).i4CtbX = 0 ∧ (ctbAt e.pps e.sps k₂).i4CtbY = 1)
    (hwave : (e.ctuOrder (twoSegments k₂)).WavefrontSlices e.numCtbs) :
    e.Partition (twoSegments k₂) := by
  refine ⟨⟨_, rfl, rfl⟩, fun k hlt hdr hseg => ?_, fun _ => hwave⟩
  unfold twoSegments at hseg
  split_ifs at hseg with hk hk
  · cases hseg
    rw [hk]
    exact ⟨h0.1.symm, h0.2.symm⟩
  · cases hseg
    rw [hk] at hlt ⊢
    exact ⟨(h2 hlt).1.symm, (h2 hlt).2.symm⟩

instance (o : CtuOrder) (numCtus : Nat) : Decidable (o.WavefrontSlices numCtus) := by
  unfold CtuOrder.WavefrontSlices
  infer_instance

/-- The start of a CTB of `twoSegments`. -/
def waveStart (sps : SpsSize) (byte k₂ k : Nat) : EntropyVars :=
  (zeroedData.atCtb (waveSetup sps byte) countingParser (twoSegments k₂) k).cabac.vars
    (waveSetup sps byte)

/-- Two CTBs a row, no tiles, and a dependent segment in the second row. -/
theorem start_states_twoColumns :
    ((waveSetup twoColumns 0x40).ctuOrder (twoSegments 2)).Prescribed 4
      ((waveSetup twoColumns 0x40).tables (twoSegments 2)) countingParser.parse
      (waveStart twoColumns 0x40 2) := by
  have hparse : ∃ b', parseByte twoColumns 0x40 = .ok (byteTiles twoColumns 0x40, b') := ⟨_, rfl⟩
  obtain ⟨b', hparse⟩ := hparse
  exact (start_states (e := waveSetup twoColumns 0x40) hparse (fun h => absurd rfl h)
    (twoSegments_partition _ 2 (by decide +kernel) (by decide +kernel) (by decide +kernel))
    countingParser zeroedData).1 (by decide +kernel)

/-- With two tiles, one above the other, as well: the second one does not start from the tables. And
in a picture one CTB wide the second segment does not go on from the first one. -/
theorem start_states_differ :
    ((∃ b', parseByte twoColumns 0xEA = .ok (byteTiles twoColumns 0xEA, b')) ∧
      (waveSetup twoColumns 0xEA).Partition (twoSegments 4) ∧
      ¬((waveSetup twoColumns 0xEA).ctuOrder (twoSegments 4)).Prescribed 4
        ((waveSetup twoColumns 0xEA).tables (twoSegments 4)) countingParser.parse
        (waveStart twoColumns 0xEA 4)) ∧
    (∃ b', parseByte oneColumn 0x40 = .ok (byteTiles oneColumn 0x40, b')) ∧
      (waveSetup oneColumn 0x40).Partition (twoSegments 1) ∧
      ¬((waveSetup oneColumn 0x40).ctuOrder (twoSegments 1)).Prescribed 2
        ((waveSetup oneColumn 0x40).tables (twoSegments 1)) countingParser.parse
        (waveStart oneColumn 0x40 1) := by
  refine ⟨⟨⟨_, rfl⟩, ?_, fun h => ?_⟩, ⟨_, rfl⟩, ?_, fun h => ?_⟩
  · exact twoSegments_partition _ 4 (by decide +kernel) (by decide +kernel) (by decide +kernel)
  · have htile := h 2 (by decide)
    revert htile
    decide +kernel
  · exact twoSegments_partition _ 1 (by decide +kernel) (by decide +kernel) (by decide +kernel)
  · have hsegment := h 1 (by decide)
    revert hsegment
    decide +kernel

end Libhevc.Decoder
