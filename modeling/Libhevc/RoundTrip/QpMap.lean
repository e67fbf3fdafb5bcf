import Libhevc.RoundTrip.QpMapCtb

/-!
# The QP map of a picture

What the deblocking of the encoder takes for the QP of a block, against the QP that
the decoder derives. The offset of the last QP in a row counts in CTBs of 64x64,
whatever the size of the CTBs is.
-/

namespace Libhevc.RoundTrip

open Encoder Decoder

variable {g : CtbGrid} {cfg : QpConfig} {ctbs : Nat → Nat → CodingQuadtree CuResidual}

/-- All quadtrees of the picture are legal. -/
def LegalPicture (cfg : QpConfig) (ctbs : Nat → Nat → CodingQuadtree CuResidual)
    (q : Nat → Nat → Nat → Nat → Int) : Prop :=
  ∀ ctbX < cfg.i2PicWdInCtb, ∀ ctbY < cfg.i2PicHtInCtb,
    LegalQuadtree cfg ctbX ctbY (q ctbX ctbY) (ctbs ctbX ctbY) 0 0 cfg.i1Log2CtbSize

-- ---------------------------------------------------------------------------
-- The offset of the last QP
-- ---------------------------------------------------------------------------

/-- For CTBs of 64x64, and for a single CTB, the offset is in the last block of the row. -/
theorem offset_lastCtb (hsize : SizedCtb g) (hw8 : 8 ∣ g.i2PicWidthInLumaSamples)
    (hwd : 0 < g.i2PicWdInCtb) (h : g.i1Log2CtbSize = 6 ∨ g.i2PicWdInCtb = 1) :
    ∃ x, offsetForLastCuQp g = (g.i2PicWdInCtb - 1) * ctbSizeIn4x4 g + (2 * x + 1) ∧
      8 * x < 2 ^ g.i1Log2CtbSize ∧ g.InWidth (g.i2PicWdInCtb - 1) (8 * x) ∧
      ¬ g.InWidth (g.i2PicWdInCtb - 1) (8 * x + 8) := by
  refine ⟨(g.i2PicWidthInLumaSamples - (g.i2PicWdInCtb - 1) * 2 ^ g.i1Log2CtbSize) / 8 - 1, ?_⟩
  unfold offsetForLastCuQp CtbGrid.InWidth ctbSizeIn4x4 u4Width maxCtbSize
  unfold CtbGrid.i2PicWdInCtb at hwd h ⊢
  rcases hsize with hlog | hlog | hlog <;> simp only [hlog] at hwd h ⊢
  · have hone : (g.i2PicWidthInLumaSamples + 2 ^ 4 - 1) / 2 ^ 4 = 1 := by omega
    rw [hone]
    refine ⟨by omega, by omega, by omega, by omega⟩
  · have hone : (g.i2PicWidthInLumaSamples + 2 ^ 5 - 1) / 2 ^ 5 = 1 := by omega
    rw [hone]
    refine ⟨by omega, by omega, by omega, by omega⟩
  · refine ⟨by omega, by omega, by omega, by omega⟩

/-- Otherwise it is behind the row. -/
theorem offset_behind (hsize : SizedCtb g) (hw8 : 8 ∣ g.i2PicWidthInLumaSamples)
    (hwd : 0 < g.i2PicWdInCtb) (hlog : g.i1Log2CtbSize ≠ 6) (hone : g.i2PicWdInCtb ≠ 1) :
    qpBufferStride g ≤ offsetForLastCuQp g := by
  unfold offsetForLastCuQp qpBufferStride u4Width maxCtbSize
  unfold CtbGrid.i2PicWdInCtb at hwd hone ⊢
  rcases hsize with h | h | h
  · simp only [h] at hwd hone ⊢
    omega
  · simp only [h] at hwd hone ⊢
    omega
  · exact absurd h hlog

/-- A row of CTBs that has another below it is whole. -/
theorem inHeight_of_above (hsize : SizedCtb g) (hy : ctbY + 1 < g.i2PicHtInCtb)
    (h : y < 2 ^ g.i1Log2CtbSize) : g.InHeight ctbY y := by
  unfold CtbGrid.i2PicHtInCtb at hy
  unfold CtbGrid.InHeight
  rcases hsize with hlog | hlog | hlog <;> simp only [hlog] at hy h ⊢ <;> omega

-- ---------------------------------------------------------------------------
-- One row
-- ---------------------------------------------------------------------------

/-- The buffer at the start of a row. -/
def rowStart (cfg : QpConfig) (ctbs : Nat → Nat → CodingQuadtree CuResidual)
    (ctbRowQp : Nat → Nat → Int) (qpTop : Nat → Int) (ctbY : Nat) : Nat → Int :=
  if ctbY ≠ 0 then
    memcpy (ctbRowQp ctbY) (qpTopBefore cfg ctbs ctbRowQp qpTop ctbY) 0
      ((ctbY - 1) * qpBufferStride cfg.toCtbGrid) (offsetForLastCuQp cfg.toCtbGrid + 1)
  else ctbRowQp ctbY

/-- The map after the first `n` CTBs of a row. -/
def rowState (cfg : QpConfig) (ctbs : Nat → Nat → CodingQuadtree CuResidual) (ctbY : Nat)
    (m : Nat → Int) (n : Nat) : (Nat → Int) × Int :=
  (List.range n).foldl (populateCtb cfg ctbs ctbY) (m, cfg.sliceQp)

theorem rowQpMap_eq (ctbRowQp : Nat → Nat → Int) (qpTop : Nat → Int) (ctbY : Nat) :
    rowQpMap cfg ctbs ctbRowQp qpTop ctbY =
      (rowState cfg ctbs ctbY (rowStart cfg ctbs ctbRowQp qpTop ctbY) cfg.i2PicWdInCtb).1 := rfl

theorem rowState_succ (ctbY : Nat) (m : Nat → Int) (n : Nat) :
    rowState cfg ctbs ctbY m (n + 1) =
      populateCtb cfg ctbs ctbY (rowState cfg ctbs ctbY m n) n := by
  unfold rowState
  rw [List.range_succ, List.foldl_append]
  rfl

/-- At the offset the next row finds what the row has in its last line. -/
theorem rowStart_offset (ctbRowQp : Nat → Nat → Int) (qpTop : Nat → Int) (ctbY : Nat) :
    rowStart cfg ctbs ctbRowQp qpTop (ctbY + 1) (offsetForLastCuQp cfg.toCtbGrid) =
      rowQpMap cfg ctbs ctbRowQp qpTop ctbY
        (ctbSizeIn4x4 cfg.toCtbGrid * qpBufferStride cfg.toCtbGrid +
          offsetForLastCuQp cfg.toCtbGrid) := by
  simp [rowStart, memcpy, qpTopBefore, ihevceDeblkPopulateQpMap, rowQpMap]

section
variable {q : Nat → Nat → Nat → Nat → Int} (hsize : SizedCtb cfg.toCtbGrid)
  (hlegal : LegalPicture cfg ctbs q) (hy : ctbY < cfg.i2PicHtInCtb)
include hsize hlegal hy

/-- A later CTB leaves the cells of those before it. -/
theorem rowState_cell (m : Nat → Int) (hn : c < n) (hle : n ≤ cfg.i2PicWdInCtb)
    (hx : x < ctbSizeIn4x4 cfg.toCtbGrid) :
    (rowState cfg ctbs ctbY m n).1 (cell cfg.toCtbGrid c x y) =
      (rowState cfg ctbs ctbY m (c + 1)).1 (cell cfg.toCtbGrid c x y) := by
  induction n with
  | zero => exact absurd hn (Nat.not_lt_zero c)
  | succ n ih =>
    rcases Nat.eq_or_lt_of_le (Nat.le_of_lt_succ hn) with rfl | hlt
    · rfl
    · rw [rowState_succ, populateCtb_frame (hlegal n (by omega) ctbY hy) hsize, ih hlt (by omega)]
      intro x' hx' y' _ heq
      have hctb := (cell_inj hsize (by omega) (by omega) hx hx' heq).1
      omega

/-- Behind the lines of the CTBs the buffer is left alone. -/
theorem rowState_behind (m : Nat → Int) (hle : n ≤ cfg.i2PicWdInCtb)
    (ha : (ctbSizeIn4x4 cfg.toCtbGrid + 1) * qpBufferStride cfg.toCtbGrid ≤ a) :
    (rowState cfg ctbs ctbY m n).1 a = m a := by
  induction n with
  | zero => rfl
  | succ n ih =>
    rw [rowState_succ, populateCtb_frame (hlegal n (by omega) ctbY hy) hsize, ih (by omega)]
    rintro x hx y hy' rfl
    have hcol := hsize.col_lt (show n < cfg.i2PicWdInCtb by omega) hx
    have hrow := Nat.mul_le_mul_right (qpBufferStride cfg.toCtbGrid)
      (show 1 + y + 1 ≤ ctbSizeIn4x4 cfg.toCtbGrid + 1 by omega)
    rw [Nat.succ_mul] at hrow
    unfold cell at ha
    omega

end

-- ---------------------------------------------------------------------------
-- With delta QPs
-- ---------------------------------------------------------------------------

/-- The entropy coder behind a CTB, before the start of another row. -/
def quadAt (cfg : QpConfig) (ctbs : Nat → Nat → CodingQuadtree CuResidual) (ctbX ctbY : Nat)
    (e : QpContext) : QpContext :=
  (ihevceEncodeCodingQuadtree cfg ctbX ctbY (ctbs ctbX ctbY) 0 0 cfg.i1Log2CtbSize 0 e).1

/-- The entropy coder before CTB `k`. -/
def encBefore (cfg : QpConfig) (ctbs : Nat → Nat → CodingQuadtree CuResidual) (e : QpContext)
    (k : Nat) : QpContext :=
  (encodeCtbs cfg ctbs { e with i1CurQp := cfg.sliceQp } (List.range k)).1

theorem raster_mod (hc : c < wd) (v : Nat) : (v * wd + c) % wd = c ∧ (v * wd + c) / wd = v := by
  have hwd : 0 < wd := Nat.zero_lt_of_lt hc
  rw [Nat.mul_comm]
  exact ⟨by rw [Nat.mul_add_mod, Nat.mod_eq_of_lt hc],
    by rw [Nat.mul_add_div hwd, Nat.div_eq_of_lt hc, Nat.add_zero]⟩

theorem raster_lt {wd ht c v : Nat} (hc : c < wd) (hv : v < ht) : v * wd + c < wd * ht := by
  have hle := Nat.mul_le_mul_left wd (Nat.succ_le_of_lt hv)
  rw [Nat.mul_succ, Nat.mul_comm wd v] at hle
  omega

/-- A CTB begins in the picture. -/
theorem ctb_begins (hc : c < cfg.i2PicWdInCtb) (hy : ctbY < cfg.i2PicHtInCtb) :
    cfg.InWidth c 0 ∧ cfg.InHeight ctbY 0 := by
  have hk := raster_lt hc hy
  have hw := ctb_inWidth hk
  have hh := ctb_inHeight hk
  obtain ⟨hmod, hdiv⟩ := raster_mod hc ctbY
  rw [hmod] at hw
  rw [hdiv] at hh
  exact ⟨hw, hh⟩

theorem encBefore_succ (hc : c < cfg.i2PicWdInCtb) (e : QpContext) (v : Nat) :
    encBefore cfg ctbs e (v * cfg.i2PicWdInCtb + c + 1) =
      if c + 1 = cfg.i2PicWdInCtb ∧
          v * cfg.i2PicWdInCtb + c + 1 < cfg.i2PicWdInCtb * cfg.i2PicHtInCtb ∧
          cfg.i1EntropyCodingSyncEnabledFlag = true then
        { quadAt cfg ctbs c v (encBefore cfg ctbs e (v * cfg.i2PicWdInCtb + c)) with
          i1CurQp := cfg.sliceQp }
      else quadAt cfg ctbs c v (encBefore cfg ctbs e (v * cfg.i2PicWdInCtb + c)) := by
  obtain ⟨hmod, hdiv⟩ := raster_mod hc v
  have hend : (v * cfg.i2PicWdInCtb + c + 1) % cfg.i2PicWdInCtb = 0 ↔
      c + 1 = cfg.i2PicWdInCtb := by
    rw [Nat.add_assoc, Nat.mul_comm, Nat.mul_add_mod]
    rcases Nat.lt_or_eq_of_le (Nat.succ_le_of_lt hc) with hlt | heq
    · rw [Nat.mod_eq_of_lt hlt]
      omega
    · rw [← heq, Nat.mod_self]
      simp
  unfold encBefore
  rw [encodeCtbs_succ]
  simp only [encodeCtb, hmod, hdiv, hend, quadAt]
  split <;> rfl

theorem encBefore_cuQp (hc : c < cfg.i2PicWdInCtb) (e : QpContext) (v : Nat) :
    (encBefore cfg ctbs e (v * cfg.i2PicWdInCtb + c + 1)).ai48x8CuQp =
      (quadAt cfg ctbs c v (encBefore cfg ctbs e (v * cfg.i2PicWdInCtb + c))).ai48x8CuQp := by
  rw [encBefore_succ hc]
  split <;> rfl

section
variable {q : Nat → Nat → Nat → Nat → Int} {e : QpContext} {ctbRowQp : Nat → Nat → Int}
  {qpTop : Nat → Int} (hfine : FineGroups cfg) (hlegal : LegalPicture cfg ctbs q)
  (hq : ∀ ctbX ctbY i j, QpInRange (q ctbX ctbY i j))
include hfine hlegal hq

/-- The map of a row whose start is right. -/
theorem row_agrees (hy : ctbY < cfg.i2PicHtInCtb) {m : Nat → Int}
    (hzero : (encBefore cfg ctbs e (ctbY * cfg.i2PicWdInCtb)).i4IsCuCbfZero = true)
    (hrange : QpInRange (encBefore cfg ctbs e (ctbY * cfg.i2PicWdInCtb)).i1CurQp)
    (hlast : updateLastCodedCuQp cfg m ctbY 0 cfg.sliceQp =
      (encBefore cfg ctbs e (ctbY * cfg.i2PicWdInCtb)).i1CurQp)
    (hc : c < cfg.i2PicWdInCtb) :
    MapAgrees cfg c (InPicture cfg.toCtbGrid c ctbY) (rowState cfg ctbs ctbY m (c + 1))
      (quadAt cfg ctbs c ctbY (encBefore cfg ctbs e (ctbY * cfg.i2PicWdInCtb + c))) := by
  have hin := fun {c} (hc : c < cfg.i2PicWdInCtb) => ctb_begins hc hy
  induction c with
  | zero =>
    rw [rowState_succ]
    exact populateCtb_agrees (hlegal 0 hc ctbY hy) hfine (hq 0 ctbY) hc (hin hc).1 (hin hc).2
      hzero hrange hlast
  | succ c ih =>
    have hprev := ih (Nat.lt_of_succ_lt hc)
    have hbefore : encBefore cfg ctbs e (ctbY * cfg.i2PicWdInCtb + (c + 1)) =
        quadAt cfg ctbs c ctbY (encBefore cfg ctbs e (ctbY * cfg.i2PicWdInCtb + c)) := by
      rw [← Nat.add_assoc, encBefore_succ (Nat.lt_of_succ_lt hc), if_neg fun h => by omega]
    rw [rowState_succ, hbefore]
    exact populateCtb_agrees (hlegal (c + 1) hc ctbY hy) hfine (hq (c + 1) ctbY) hc
      (hin hc).1 (hin hc).2 hprev.zero hprev.lastRange hprev.last

omit hq in
/-- Without wavefronts the row goes on from the last block of the row above. -/
theorem nextRow_start (hw8 : 8 ∣ cfg.i2PicWidthInLumaSamples) (hwd : 0 < cfg.i2PicWdInCtb)
    (hy : ctbY + 1 < cfg.i2PicHtInCtb)
    (hrow : MapAgrees cfg (cfg.i2PicWdInCtb - 1)
      (InPicture cfg.toCtbGrid (cfg.i2PicWdInCtb - 1) ctbY)
      (rowState cfg ctbs ctbY (rowStart cfg ctbs ctbRowQp qpTop ctbY) cfg.i2PicWdInCtb)
      (quadAt cfg ctbs (cfg.i2PicWdInCtb - 1) ctbY e'))
    (hzero : e'.i4IsCuCbfZero = true) :
    rowStart cfg ctbs ctbRowQp qpTop (ctbY + 1) (offsetForLastCuQp cfg.toCtbGrid) =
      (quadAt cfg ctbs (cfg.i2PicWdInCtb - 1) ctbY e').i1CurQp := by
  have hsize : SizedCtb cfg.toCtbGrid := .inr (.inr hfine.ctb)
  have hcells : ctbSizeIn4x4 cfg.toCtbGrid = 16 := by
    unfold ctbSizeIn4x4
    rw [hfine.ctb]
    rfl
  obtain ⟨x, hoff, hx, hwx, hwx'⟩ := offset_lastCtb hsize hw8 hwd (.inl hfine.ctb)
  have hh : ∀ y < 64, cfg.InHeight ctbY y := fun y hy64 =>
    inHeight_of_above hsize hy (by rw [hfine.ctb]; exact hy64)
  have hlast : LastBlock cfg.toCtbGrid (cfg.i2PicWdInCtb - 1) ctbY 0 0 (2 ^ cfg.i1Log2CtbSize) x 7 :=
    { left := Nat.zero_le _
      right := by omega
      top := Nat.zero_le _
      bottom := by rw [hfine.ctb]; decide
      inWidth := hwx
      inHeight := hh _ (by decide)
      lastX := fun _ => hwx'
      lastY := fun h => by rw [hfine.ctb] at h; exact absurd h (by decide) }
  rw [rowStart_offset, rowQpMap_eq, hoff, hcells]
  have hcell : 16 * qpBufferStride cfg.toCtbGrid + ((cfg.i2PicWdInCtb - 1) * 16 + (2 * x + 1)) =
      cell cfg.toCtbGrid (cfg.i2PicWdInCtb - 1) (2 * x + 1) (2 * 7 + 1) := by
    unfold cell
    rw [hcells]
  have hpic : InPicture cfg.toCtbGrid (cfg.i2PicWdInCtb - 1) ctbY x 7 :=
    ⟨hx, by rw [hfine.ctb]; decide, hwx, hh _ (by decide)⟩
  rw [hcell, hrow.stores x 7 hpic 1 (by decide) 1 (by decide)]
  exact encodeCtb_lastBlock (hlegal _ (by omega) ctbY (by omega)) hfine hzero hlast

/-- All rows, and the QP with which each of them starts. -/
theorem rows_agree (hw8 : 8 ∣ cfg.i2PicWidthInLumaSamples) (hslice : QpInRange cfg.sliceQp)
    (hzero : e.i4IsCuCbfZero = true) (hy : ctbY < cfg.i2PicHtInCtb)
    (hc : c < cfg.i2PicWdInCtb) :
    MapAgrees cfg c (InPicture cfg.toCtbGrid c ctbY)
      (rowState cfg ctbs ctbY (rowStart cfg ctbs ctbRowQp qpTop ctbY) (c + 1))
      (quadAt cfg ctbs c ctbY (encBefore cfg ctbs e (ctbY * cfg.i2PicWdInCtb + c))) := by
  have hwd : 0 < cfg.i2PicWdInCtb := Nat.zero_lt_of_lt hc
  suffices hstart : ∀ {ctbY}, ctbY < cfg.i2PicHtInCtb →
      (encBefore cfg ctbs e (ctbY * cfg.i2PicWdInCtb)).i4IsCuCbfZero = true ∧
      QpInRange (encBefore cfg ctbs e (ctbY * cfg.i2PicWdInCtb)).i1CurQp ∧
      updateLastCodedCuQp cfg (rowStart cfg ctbs ctbRowQp qpTop ctbY) ctbY 0 cfg.sliceQp =
        (encBefore cfg ctbs e (ctbY * cfg.i2PicWdInCtb)).i1CurQp by
    obtain ⟨hz, hr, hl⟩ := hstart hy
    exact row_agrees hfine hlegal hq hy hz hr hl hc
  intro ctbY
  induction ctbY with
  | zero =>
    intro _
    rw [Nat.zero_mul]
    exact ⟨hzero, hslice, rfl⟩
  | succ ctbY ih =>
    intro hy
    obtain ⟨hz, hr, hl⟩ := ih (Nat.lt_of_succ_lt hy)
    have hprev := row_agrees hfine hlegal hq (Nat.lt_of_succ_lt hy) hz hr hl
      (Nat.sub_lt hwd Nat.one_pos)
    rw [Nat.sub_add_cancel hwd] at hprev
    have hk : (ctbY + 1) * cfg.i2PicWdInCtb =
        ctbY * cfg.i2PicWdInCtb + (cfg.i2PicWdInCtb - 1) + 1 := by
      rw [Nat.succ_mul]
      omega
    have hlt := raster_lt hwd hy
    rw [Nat.add_zero, hk] at hlt
    rw [hk, encBefore_succ (Nat.sub_lt hwd Nat.one_pos), Nat.sub_add_cancel hwd]
    by_cases hsync : cfg.i1EntropyCodingSyncEnabledFlag = true
    · rw [if_pos ⟨rfl, hlt, hsync⟩]
      refine ⟨hprev.zero, hslice, ?_⟩
      simp [updateLastCodedCuQp, hsync]
    · rw [if_neg fun h => hsync h.2.2]
      refine ⟨hprev.zero, hprev.lastRange, ?_⟩
      have hzero' : ∀ c < cfg.i2PicWdInCtb,
          (encBefore cfg ctbs e (ctbY * cfg.i2PicWdInCtb + c)).i4IsCuCbfZero = true := by
        intro c hc
        cases c with
        | zero => exact hz
        | succ c =>
          have hc' := row_agrees hfine hlegal hq (Nat.lt_of_succ_lt hy) hz hr hl
            (Nat.lt_of_succ_lt hc)
          rw [← Nat.add_assoc, encBefore_succ (Nat.lt_of_succ_lt hc), if_neg fun h => by omega]
          exact hc'.zero
      rw [← nextRow_start hfine hlegal hw8 hwd hy hprev
        (hzero' _ (Nat.sub_lt hwd Nat.one_pos))]
      simp [updateLastCodedCuQp, hsync]

end

-- ---------------------------------------------------------------------------
-- Without delta QPs
-- ---------------------------------------------------------------------------

theorem average_self (qp : Int) (h : QpInRange qp) : (qp + qp + 1).tdiv 2 = qp := by
  rw [average_of_range h h]
  omega

section
variable {ctbRowQp : Nat → Nat → Int} {qpTop : Nat → Int} (hsize : SizedCtb cfg.toCtbGrid)
  (hlegal : LegalPicture cfg ctbs fun _ _ _ _ => cfg.sliceQp) (hslice : QpInRange cfg.sliceQp)
include hsize hlegal hslice

omit hsize hslice in
theorem firstQp_slice (hc : c < cfg.i2PicWdInCtb) (hy : ctbY < cfg.i2PicHtInCtb)
    (hl : quadtreeCus cfg.toCtbGrid c ctbY (ctbs c ctbY) 0 0 cfg.i1Log2CtbSize = p :: l)
    (h : p.cu.coded = true ∨ (last + last + 1).tdiv 2 = cfg.sliceQp) :
    firstQp last p = cfg.sliceQp := by
  have hp := quadtreeCus_placed (ctbs c ctbY) (hlegal c hc ctbY hy) (Nat.dvd_zero 8)
    (Nat.dvd_zero 8) p (by rw [hl]; exact List.mem_cons_self ..)
  unfold firstQp
  split
  case isTrue => exact hp.qp
  case isFalse hcoded => exact h.resolve_left hcoded

theorem row_const (hy : ctbY < cfg.i2PicHtInCtb) {m : Nat → Int}
    (hfirst : ∀ p l,
      quadtreeCus cfg.toCtbGrid 0 ctbY (ctbs 0 ctbY) 0 0 cfg.i1Log2CtbSize = p :: l →
        firstQp (updateLastCodedCuQp cfg m ctbY 0 cfg.sliceQp) p = cfg.sliceQp)
    (hc : c < cfg.i2PicWdInCtb) :
    MapConst cfg c cfg.sliceQp (InPicture cfg.toCtbGrid c ctbY)
      (rowState cfg ctbs ctbY m (c + 1)) := by
  have hin := fun {c} (hc : c < cfg.i2PicWdInCtb) => ctb_begins hc hy
  induction c with
  | zero =>
    rw [rowState_succ]
    exact populateCtb_const (hlegal 0 hc ctbY hy) hsize (fun _ _ => rfl) hslice hc (hin hc).1
      (hin hc).2 hfirst
  | succ c ih =>
    have hprev := ih (Nat.lt_of_succ_lt hc)
    rw [rowState_succ]
    refine populateCtb_const (hlegal (c + 1) hc ctbY hy) hsize (fun _ _ => rfl) hslice hc
      (hin hc).1 (hin hc).2 fun p l hl => ?_
    refine firstQp_slice hlegal hc hy hl (.inr ?_)
    have hlast : updateLastCodedCuQp cfg (rowState cfg ctbs ctbY m (c + 1)).1 ctbY (c + 1)
        (rowState cfg ctbs ctbY m (c + 1)).2 = cfg.sliceQp := hprev.last
    rw [hlast]
    exact average_self _ hslice

omit hlegal hslice in
/-- For CTBs of 64x64, and for a single CTB, the row goes on with a QP of the row above. -/
theorem nextRow_const (hw8 : 8 ∣ cfg.i2PicWidthInLumaSamples) (hwd : 0 < cfg.i2PicWdInCtb)
    (hone : cfg.i1Log2CtbSize = 6 ∨ cfg.i2PicWdInCtb = 1) (hy : ctbY + 1 < cfg.i2PicHtInCtb)
    (hrow : MapConst cfg (cfg.i2PicWdInCtb - 1) cfg.sliceQp
      (InPicture cfg.toCtbGrid (cfg.i2PicWdInCtb - 1) ctbY)
      (rowState cfg ctbs ctbY (rowStart cfg ctbs ctbRowQp qpTop ctbY) cfg.i2PicWdInCtb)) :
    rowStart cfg ctbs ctbRowQp qpTop (ctbY + 1) (offsetForLastCuQp cfg.toCtbGrid) =
      cfg.sliceQp := by
  obtain ⟨hsize4, hcells⟩ := hsize.size
  obtain ⟨x, hoff, hx, hwx, -⟩ := offset_lastCtb hsize hw8 hwd hone
  have hlastY : 2 * (ctbSizeIn4x4 cfg.toCtbGrid / 2 - 1) + 1 = ctbSizeIn4x4 cfg.toCtbGrid - 1 := by
    omega
  have hpic : InPicture cfg.toCtbGrid (cfg.i2PicWdInCtb - 1) ctbY x
      (ctbSizeIn4x4 cfg.toCtbGrid / 2 - 1) := by
    refine ⟨hx, by omega, hwx, inHeight_of_above hsize hy (by omega)⟩
  have hcell : ctbSizeIn4x4 cfg.toCtbGrid * qpBufferStride cfg.toCtbGrid +
      ((cfg.i2PicWdInCtb - 1) * ctbSizeIn4x4 cfg.toCtbGrid + (2 * x + 1)) =
      cell cfg.toCtbGrid (cfg.i2PicWdInCtb - 1) (2 * x + 1)
        (2 * (ctbSizeIn4x4 cfg.toCtbGrid / 2 - 1) + 1) := by
    unfold cell
    rw [hlastY, Nat.add_sub_cancel' (by omega)]
  rw [rowStart_offset, rowQpMap_eq, hoff, hcell]
  exact hrow.stores x _ hpic 1 (by decide) 1 (by decide)

end

/-- What the buffer of a row has had where the row below looks for the last QP. -/
def staleQp (cfg : QpConfig) (ctbRowQp : Nat → Nat → Int) (ctbY : Nat) : Int :=
  ctbRowQp ctbY (ctbSizeIn4x4 cfg.toCtbGrid * qpBufferStride cfg.toCtbGrid +
    offsetForLastCuQp cfg.toCtbGrid)

/-- For smaller CTBs it looks where no QP has been stored. -/
theorem nextRow_stale {q : Nat → Nat → Nat → Nat → Int} {ctbRowQp : Nat → Nat → Int}
    {qpTop : Nat → Int} (hsize : SizedCtb cfg.toCtbGrid) (hlegal : LegalPicture cfg ctbs q)
    (hw8 : 8 ∣ cfg.i2PicWidthInLumaSamples) (hwd : 0 < cfg.i2PicWdInCtb)
    (hlog : cfg.i1Log2CtbSize ≠ 6) (hone : cfg.i2PicWdInCtb ≠ 1)
    (hy : ctbY + 1 < cfg.i2PicHtInCtb) :
    rowStart cfg ctbs ctbRowQp qpTop (ctbY + 1) (offsetForLastCuQp cfg.toCtbGrid) =
      staleQp cfg ctbRowQp ctbY := by
  have hbehind := offset_behind hsize hw8 hwd hlog hone
  have hcells := hsize.size.2
  have hstride : 0 < qpBufferStride cfg.toCtbGrid :=
    Nat.lt_of_lt_of_le (Nat.mul_pos hwd (by omega)) hsize.row_le
  rw [rowStart_offset, rowQpMap_eq, rowState_behind hsize hlegal (Nat.lt_of_succ_lt hy) _ le_rfl
    (by rw [Nat.succ_mul]; omega)]
  unfold rowStart
  split
  · refine if_neg fun h => ?_
    have hpos := Nat.mul_pos (show 0 < ctbSizeIn4x4 cfg.toCtbGrid by omega) hstride
    omega
  · rfl

/-- The first CU of the row below is coded, or the stale byte gives it the QP of the slice. -/
def FirstCuOk (cfg : QpConfig) (ctbs : Nat → Nat → CodingQuadtree CuResidual)
    (ctbRowQp : Nat → Nat → Int) (ctbY : Nat) : Prop :=
  ∀ p, (quadtreeCus cfg.toCtbGrid 0 (ctbY + 1) (ctbs 0 (ctbY + 1)) 0 0
      cfg.i1Log2CtbSize).head? = some p →
    p.cu.coded = true ∨
      (staleQp cfg ctbRowQp ctbY + staleQp cfg ctbRowQp ctbY + 1).tdiv 2 = cfg.sliceQp

/-- All rows, when each of them begins with the QP of the slice. -/
theorem rows_const {ctbRowQp : Nat → Nat → Int} {qpTop : Nat → Int}
    (hsize : SizedCtb cfg.toCtbGrid) (hlegal : LegalPicture cfg ctbs fun _ _ _ _ => cfg.sliceQp)
    (hslice : QpInRange cfg.sliceQp) (hw8 : 8 ∣ cfg.i2PicWidthInLumaSamples)
    (hok : ∀ ctbY, ctbY + 1 < cfg.i2PicHtInCtb →
      cfg.i1EntropyCodingSyncEnabledFlag = true ∨
        (cfg.i1Log2CtbSize = 6 ∨ cfg.i2PicWdInCtb = 1) ∨ FirstCuOk cfg ctbs ctbRowQp ctbY)
    (hy : ctbY < cfg.i2PicHtInCtb) (hc : c < cfg.i2PicWdInCtb) :
    MapConst cfg c cfg.sliceQp (InPicture cfg.toCtbGrid c ctbY)
      (rowState cfg ctbs ctbY (rowStart cfg ctbs ctbRowQp qpTop ctbY) (c + 1)) := by
  have hwd : 0 < cfg.i2PicWdInCtb := Nat.zero_lt_of_lt hc
  induction ctbY generalizing c with
  | zero =>
    refine row_const hsize hlegal hslice hy (fun p l hl => ?_) hc
    exact firstQp_slice hlegal hwd hy hl (.inr (average_self _ hslice))
  | succ ctbY ih =>
    refine row_const hsize hlegal hslice hy (fun p l hl => ?_) hc
    refine firstQp_slice hlegal hwd hy hl ?_
    by_cases hsync : cfg.i1EntropyCodingSyncEnabledFlag = true
    · right
      simp [updateLastCodedCuQp, hsync, average_self _ hslice]
    · have hlast : updateLastCodedCuQp cfg (rowStart cfg ctbs ctbRowQp qpTop (ctbY + 1)) (ctbY + 1)
          0 cfg.sliceQp =
          rowStart cfg ctbs ctbRowQp qpTop (ctbY + 1) (offsetForLastCuQp cfg.toCtbGrid) := by
        simp [updateLastCodedCuQp, hsync]
      rw [hlast]
      by_cases hone : cfg.i1Log2CtbSize = 6 ∨ cfg.i2PicWdInCtb = 1
      · have hprev := ih (Nat.lt_of_succ_lt hy) (Nat.sub_lt hwd Nat.one_pos)
        rw [Nat.sub_add_cancel hwd] at hprev
        rw [nextRow_const hsize hw8 hwd hone hy hprev]
        exact .inr (average_self _ hslice)
      · rw [not_or] at hone
        rw [nextRow_stale hsize hlegal hw8 hwd hone.1 hone.2 hy]
        have hfirst := ((hok ctbY hy).resolve_left hsync).resolve_left (not_or.mpr hone)
        exact hfirst p (by rw [hl]; rfl)

-- ---------------------------------------------------------------------------
-- The picture
-- ---------------------------------------------------------------------------

/-- The QPs that the decoder has for the blocks of 8x8 of CTB `k`; without the flag it is the QP
of the slice. -/
def decodedQp (cfg : QpConfig) (i1CuQpDeltaEnabledFlag : Bool)
    (ctbs : Nat → Nat → CodingQuadtree CuResidual) (d : QpCtxt) (deltas : List Int) (k : Nat) :
    Option (Nat → Nat → Int) :=
  if i1CuQpDeltaEnabledFlag then
    (parseDiffCuQpDeltaDepth (cfg.i1Log2CtbSize - 3) cfg.i1DiffCuQpDeltaDepth).bind fun _ =>
      (parseCtbs cfg ctbs { d with u4Qp := cfg.sliceQp } (List.range (k + 1)) deltas).map
        fun r => r.1.ai18x8CuQp
  else some fun _ _ => cfg.sliceQp

/-- In every block of 4x4 of the picture the deblocking has the QP of the decoder. -/
def QpMapAgrees (cfg : QpConfig) (i1CuQpDeltaEnabledFlag : Bool)
    (ctbs : Nat → Nat → CodingQuadtree CuResidual) (e : QpContext) (d : QpCtxt)
    (ctbRowQp : Nat → Nat → Int) (qpTop : Nat → Int) : Prop :=
  ∀ ctbY < cfg.i2PicHtInCtb, ∀ ctbX < cfg.i2PicWdInCtb,
    ∃ qpY, decodedQp cfg i1CuQpDeltaEnabledFlag ctbs d (ihevceEncodeSliceData cfg ctbs e).2
        (ctbY * cfg.i2PicWdInCtb + ctbX) = some qpY ∧
      ∀ x y, InPicture cfg.toCtbGrid ctbX ctbY (x / 2) (y / 2) →
        deblkQp cfg ctbs ctbRowQp qpTop ctbX ctbY x y = qpY (x / 2) (y / 2)

/-- The CTBs are of 64x64, or there are no delta QPs and no row begins with a CU without residual
whose QP comes from a byte that has not been stored. -/
def QpMapOk (cfg : QpConfig) (i1CuQpDeltaEnabledFlag : Bool)
    (ctbs : Nat → Nat → CodingQuadtree CuResidual) (ctbRowQp : Nat → Nat → Int) : Prop :=
  cfg.i1Log2CtbSize = 6 ∨ i1CuQpDeltaEnabledFlag = false ∧
    ∀ ctbY, ctbY + 1 < cfg.i2PicHtInCtb →
      cfg.i1EntropyCodingSyncEnabledFlag = true ∨ cfg.i2PicWdInCtb = 1 ∨
        FirstCuOk cfg ctbs ctbRowQp ctbY

theorem deblkQp_cell (ctbRowQp : Nat → Nat → Int) (qpTop : Nat → Int) (ctbX ctbY x y : Nat) :
    deblkQp cfg ctbs ctbRowQp qpTop ctbX ctbY x y =
      rowQpMap cfg ctbs ctbRowQp qpTop ctbY (cell cfg.toCtbGrid ctbX x y) := by
  unfold deblkQp cell
  refine congrArg _ ?_
  ring

/-- What a CTB has stored is what the deblocking finds. -/
theorem deblkQp_of_stores {q : Nat → Nat → Nat → Nat → Int} {ctbRowQp : Nat → Nat → Int}
    {qpTop : Nat → Int} (hsize : SizedCtb cfg.toCtbGrid) (hlegal : LegalPicture cfg ctbs q)
    (hc : ctbX < cfg.i2PicWdInCtb) (hy : ctbY < cfg.i2PicHtInCtb)
    (hin : InPicture cfg.toCtbGrid ctbX ctbY (x / 2) (y / 2))
    (h : Stores cfg.toCtbGrid ctbX
      (rowState cfg ctbs ctbY (rowStart cfg ctbs ctbRowQp qpTop ctbY) (ctbX + 1)).1
      (x / 2) (y / 2) qp) :
    deblkQp cfg ctbs ctbRowQp qpTop ctbX ctbY x y = qp := by
  have hx := hin.1
  have hsize4 := hsize.size
  rw [deblkQp_cell, rowQpMap_eq, rowState_cell hsize hlegal hy _ hc le_rfl (by omega)]
  have hcell := h (x % 2) (Nat.mod_lt _ Nat.two_pos) (y % 2) (Nat.mod_lt _ Nat.two_pos)
  rwa [Nat.div_add_mod, Nat.div_add_mod] at hcell

variable {e : QpContext} {d : QpCtxt} {ctbRowQp : Nat → Nat → Int} {qpTop : Nat → Int}

section
variable {q : Nat → Nat → Nat → Nat → Int} (hlegal : LegalPicture cfg ctbs q)
  (hq : ∀ ctbX ctbY i j, QpInRange (q ctbX ctbY i j))
  (hslice : QpInRange cfg.sliceQp) (hw8 : 8 ∣ cfg.i2PicWidthInLumaSamples)
include hlegal hq hslice hw8

/-- With delta QPs: the decoder has the QPs of the entropy coder, and so has the map. -/
theorem qpMap_of_deltas (hfine : FineGroups cfg) (hzero : e.i4IsCuCbfZero = true)
    (he : e.cuQps = []) (hd : d.cuQps = [])
    (hdeltas : ∀ delta ∈ (ihevceEncodeSliceData cfg ctbs e).2, DeltaLegal delta) :
    QpMapAgrees cfg true ctbs e d ctbRowQp qpTop := by
  intro ctbY hy ctbX hc
  have hsize : SizedCtb cfg.toCtbGrid := .inr (.inr hfine.ctb)
  have hs : Sizes cfg := by
    refine ⟨Nat.le_of_eq hfine.ctb, ?_⟩
    rw [i1Log2MinCuQpDeltaSize, hfine.ctb, hfine.depth]
    decide
  have hk := raster_lt hc hy
  obtain ⟨hmod, hdiv⟩ := raster_mod hc ctbY
  have hqps : List.Forall₂ SameQp e.cuQps d.cuQps := by
    rw [he, hd]
    exact .nil
  have hlegal' : ∀ k < cfg.i2PicWdInCtb * cfg.i2PicHtInCtb,
      LegalQuadtree cfg (k % cfg.i2PicWdInCtb) (k / cfg.i2PicWdInCtb)
        (q (k % cfg.i2PicWdInCtb) (k / cfg.i2PicWdInCtb))
        (ctbs (k % cfg.i2PicWdInCtb) (k / cfg.i2PicWdInCtb)) 0 0 cfg.i1Log2CtbSize :=
    fun k hk => hlegal _ (Nat.mod_lt k (Nat.zero_lt_of_lt hc)) _ (Nat.div_lt_of_lt_mul hk)
  -- what comes behind the CTB is left for the CTBs that follow
  obtain ⟨m, hm⟩ := Nat.exists_eq_add_of_le (Nat.succ_le_of_lt hk)
  have hsplit : (ihevceEncodeSliceData cfg ctbs e).2 = _ :=
    congrArg Prod.snd ((congrArg (encodeCtbs cfg ctbs { e with i1CurQp := cfg.sliceQp })
      ((congrArg List.range hm).trans List.range_add)).trans
        (encodeCtbs_append _ _ _))
  rw [hsplit] at hdeltas ⊢
  obtain ⟨d', hruns, -, hagree, -⟩ := ctbs_runs (e := { e with i1CurQp := cfg.sliceQp })
    (d := { d with u4Qp := cfg.sliceQp }) hs hslice hq hlegal' hqps
    ⟨hzero, hslice, hqps, fun _ _ => rfl, fun _ => rfl⟩ _ hk
    fun delta hdelta => hdeltas delta (List.mem_append_left _ hdelta)
  refine ⟨d'.ai18x8CuQp, ?_, fun x y hin => ?_⟩
  · unfold decodedQp
    rw [if_pos rfl, hfine.ctb, hfine.depth, hruns]
    rfl
  · have hrow : MapAgrees cfg ctbX (InPicture cfg.toCtbGrid ctbX ctbY)
        (rowState cfg ctbs ctbY (rowStart cfg ctbs ctbRowQp qpTop ctbY) (ctbX + 1)) _ :=
      rows_agree hfine hlegal hq hw8 hslice hzero hy hc
    obtain ⟨hx64, hy64, hinw, hinh⟩ := hin
    have hat := hagree _ rfl (x / 2) (y / 2)
    rw [hmod, hdiv, Nat.zero_add] at hat
    obtain ⟨heq, -⟩ := hat (Nat.zero_le _) hx64 (Nat.zero_le _) hy64 hinw hinh
    have hcuQp := @encBefore_cuQp cfg ctbs _ hc e ctbY
    rw [deblkQp_of_stores hsize hlegal hc hy ⟨hx64, hy64, hinw, hinh⟩
      (hrow.stores _ _ ⟨hx64, hy64, hinw, hinh⟩), ← heq]
    exact congrFun (congrFun hcuQp.symm _) _

end

/-- Without delta QPs the first block of a row says what the row starts with. -/
theorem firstCuOk_of_agrees {q : Nat → Nat → Nat → Nat → Int} (hsize : SizedCtb cfg.toCtbGrid)
    (hlegal : LegalPicture cfg ctbs q) (hw8 : 8 ∣ cfg.i2PicWidthInLumaSamples)
    (hwd : 0 < cfg.i2PicWdInCtb) (hlog : cfg.i1Log2CtbSize ≠ 6) (hone : cfg.i2PicWdInCtb ≠ 1)
    (hsync : ¬ cfg.i1EntropyCodingSyncEnabledFlag = true) (hy : ctbY + 1 < cfg.i2PicHtInCtb)
    (hagrees : QpMapAgrees cfg false ctbs e d ctbRowQp qpTop) :
    FirstCuOk cfg ctbs ctbRowQp ctbY := by
  intro p hp
  obtain ⟨qpY, hqpY, hblocks⟩ := hagrees (ctbY + 1) hy 0 hwd
  have hpic : InPicture cfg.toCtbGrid 0 (ctbY + 1) 0 0 := by
    obtain ⟨hw, hh⟩ := ctb_begins hwd hy
    exact ⟨Nat.two_pow_pos _, Nat.two_pow_pos _, hw, hh⟩
  have hcells : 0 < ctbSizeIn4x4 cfg.toCtbGrid := by
    have hcases := hsize.size.2
    omega
  have hfirst := hblocks 0 0 hpic
  obtain ⟨p', l, hl, hcell⟩ := @populateCtb_firstCell 0 (ctbY + 1) cfg ctbs _
    (hlegal 0 hwd (ctbY + 1) hy)
    (rowState cfg ctbs (ctbY + 1) (rowStart cfg ctbs ctbRowQp qpTop (ctbY + 1)) 0) hsize hwd
  rw [deblkQp_cell, rowQpMap_eq, rowState_cell hsize hlegal hy _ hwd le_rfl hcells, rowState_succ,
    hcell] at hfirst
  have hstart : updateLastCodedCuQp cfg
      (rowState cfg ctbs (ctbY + 1) (rowStart cfg ctbs ctbRowQp qpTop (ctbY + 1)) 0).1 (ctbY + 1) 0
      (rowState cfg ctbs (ctbY + 1) (rowStart cfg ctbs ctbRowQp qpTop (ctbY + 1)) 0).2 =
      staleQp cfg ctbRowQp ctbY := by
    have hstale : rowStart cfg ctbs ctbRowQp qpTop (ctbY + 1) _ = _ :=
      nextRow_stale hsize hlegal hw8 hwd hlog hone hy
    rw [← hstale]
    simp [updateLastCodedCuQp, hsync, rowState]
  rw [hl] at hp
  obtain rfl : p' = p := Option.some.inj hp
  rw [hstart, ← Option.some.inj hqpY] at hfirst
  by_cases hcoded : p'.cu.coded = true
  · exact .inl hcoded
  · rw [firstQp, if_neg hcoded] at hfirst
    exact .inr hfirst

/-- For every picture of one slice: the map has the QPs of the decoder exactly when the CTBs are of
64x64, or nothing that matters is read behind the row. -/
theorem qpMap_agrees {q : Nat → Nat → Nat → Nat → Int} {i1CuQpDeltaEnabledFlag : Bool}
    (hsize : SizedCtb cfg.toCtbGrid) (hdepth : cfg.i1DiffCuQpDeltaDepth = cuLevelQpLimit8x8)
    (hw8 : 8 ∣ cfg.i2PicWidthInLumaSamples) (hwd : 0 < cfg.i2PicWdInCtb)
    (hht : 0 < cfg.i2PicHtInCtb) (hslice : QpInRange cfg.sliceQp)
    (hq : ∀ ctbX ctbY i j, QpInRange (q ctbX ctbY i j))
    (hconst : i1CuQpDeltaEnabledFlag = false → q = fun _ _ _ _ => cfg.sliceQp)
    (hlegal : LegalPicture cfg ctbs q) (hzero : e.i4IsCuCbfZero = true) (he : e.cuQps = [])
    (hd : d.cuQps = [])
    (hdeltas : i1CuQpDeltaEnabledFlag = true →
      ∀ delta ∈ (ihevceEncodeSliceData cfg ctbs e).2, DeltaLegal delta) :
    QpMapAgrees cfg i1CuQpDeltaEnabledFlag ctbs e d ctbRowQp qpTop ↔
      QpMapOk cfg i1CuQpDeltaEnabledFlag ctbs ctbRowQp := by
  cases i1CuQpDeltaEnabledFlag with
  | true =>
    constructor
    · intro hagrees
      obtain ⟨qpY, hqpY, -⟩ := hagrees 0 hht 0 hwd
      left
      by_contra hlog
      -- the decoder does not take groups that are smaller than 8x8
      have hlt : cfg.i1Log2CtbSize - 3 < cuLevelQpLimit8x8 := by
        unfold SizedCtb at hsize
        unfold cuLevelQpLimit8x8
        omega
      simp [decodedQp, parseDiffCuQpDeltaDepth, hdepth, hlt] at hqpY
    · intro hok
      have hlog : cfg.i1Log2CtbSize = 6 := hok.resolve_right fun h => Bool.noConfusion h.1
      exact qpMap_of_deltas hlegal hq hslice hw8 ⟨hlog, hdepth⟩ hzero he hd (hdeltas rfl)
  | false =>
    obtain rfl := hconst rfl
    constructor
    · intro hagrees
      by_cases hlog : cfg.i1Log2CtbSize = 6
      · exact .inl hlog
      · refine .inr ⟨rfl, fun ctbY hy => ?_⟩
        by_cases hsync : cfg.i1EntropyCodingSyncEnabledFlag = true
        · exact .inl hsync
        · by_cases hone : cfg.i2PicWdInCtb = 1
          · exact .inr (.inl hone)
          · exact .inr (.inr (firstCuOk_of_agrees hsize hlegal hw8 hwd hlog hone hsync hy hagrees))
    · intro hok ctbY hy ctbX hc
      refine ⟨fun _ _ => cfg.sliceQp, rfl, fun x y hin => ?_⟩
      refine deblkQp_of_stores hsize hlegal hc hy hin ?_
      refine (rows_const hsize hlegal hslice hw8 (fun ctbY hy => ?_) hy hc).stores _ _ hin
      rcases hok with hlog | ⟨-, hrows⟩
      · exact .inr (.inl (.inl hlog))
      · rcases hrows ctbY hy with hsync | hone | hfirst
        · exact .inl hsync
        · exact .inr (.inl (.inr hone))
        · exact .inr (.inr hfirst)

theorem qpMap_agrees_oneCu :
    QpMapAgrees (oneCuConfig 6) true (fun _ _ => oneCu) oneCuEnc oneCuDec (fun _ _ => 0)
        (fun _ => 0) ↔
      QpMapOk (oneCuConfig 6) true (fun _ _ => oneCu) fun _ _ => 0 :=
  qpMap_agrees (q := fun _ _ _ _ => 30) (.inr (.inr rfl)) rfl (by decide) (by decide) (by decide)
    ⟨by decide, by decide⟩ (fun _ _ _ _ => ⟨by decide, by decide⟩) (fun h => nomatch h)
    (fun _ _ _ _ => ⟨by decide, rfl⟩) rfl rfl rfl
    (fun _ => by rw [oneCu_deltas]; simp [DeltaLegal])

/-- Two CTBs of 16x16 in each of two rows. -/
def fourCtbsConfig : QpConfig where
  i1Log2CtbSize := 4
  i2PicWidthInLumaSamples := 32
  i2PicHeightInLumaSamples := 32
  i1DiffCuQpDeltaDepth := cuLevelQpLimit8x8
  i1EntropyCodingSyncEnabledFlag := false
  sliceQp := 32

def skippedCu : CodingQuadtree CuResidual :=
  .cu { skipFlag := true, noResFlag := true, tus := [], b7Qp := 32 }

/-- The second row begins with a skipped CU; in buffers of zeros its QP becomes 0. -/
theorem qpMap_ctb16 :
    ¬ QpMapAgrees fourCtbsConfig false (fun _ _ => skippedCu) oneCuEnc oneCuDec (fun _ _ => 0)
      fun _ => 0 := by
  intro hagrees
  obtain ⟨qpY, hqpY, hblocks⟩ := hagrees 1 (by decide) 0 (by decide)
  have hfirst := hblocks 0 0 ⟨by decide, by decide, by decide, by decide⟩
  rw [← Option.some.inj hqpY] at hfirst
  exact absurd hfirst (by decide)

end Libhevc.RoundTrip
