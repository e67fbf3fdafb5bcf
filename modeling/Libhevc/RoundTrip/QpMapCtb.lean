import Libhevc.RoundTrip.CodingOrder
import Libhevc.RoundTrip.CuQpPicture
import Mathlib.Tactic.Ring

/-!
# The QP map of a CTB

What the map of the deblocking holds behind a CTB, against the QPs that the entropy
coder records.
-/

namespace Libhevc.RoundTrip

open Encoder Decoder

-- ---------------------------------------------------------------------------
-- The cells of the map
-- ---------------------------------------------------------------------------

/-- The address of a block of 4x4 of a CTB. -/
def cell (g : CtbGrid) (ctbX x y : Nat) : Nat :=
  (1 + y) * qpBufferStride g + (ctbX * ctbSizeIn4x4 g + x)

theorem row_col_inj {stride r r' c c' : Nat} (hc : c < stride) (hc' : c' < stride)
    (h : r * stride + c = r' * stride + c') : r = r' ∧ c = c' := by
  have hpos : 0 < stride := Nat.zero_lt_of_lt hc
  have hrow : r = r' := by
    have hdiv := congrArg (· / stride) h
    simpa only [Nat.mul_comm _ stride, Nat.mul_add_div hpos, Nat.div_eq_of_lt hc,
      Nat.div_eq_of_lt hc', Nat.add_zero] using hdiv
  subst hrow
  exact ⟨rfl, Nat.add_left_cancel h⟩

/-- The CTB has a size that there is. -/
def SizedCtb (g : CtbGrid) : Prop :=
  g.i1Log2CtbSize = 4 ∨ g.i1Log2CtbSize = 5 ∨ g.i1Log2CtbSize = 6

variable {g : CtbGrid} {cfg : QpConfig}

theorem SizedCtb.size (h : SizedCtb g) : 2 ^ g.i1Log2CtbSize = 4 * ctbSizeIn4x4 g ∧
    (ctbSizeIn4x4 g = 4 ∨ ctbSizeIn4x4 g = 8 ∨ ctbSizeIn4x4 g = 16) := by
  unfold ctbSizeIn4x4
  rcases h with h | h | h <;> simp [h]

/-- The buffer has room for the CTBs of a row. -/
theorem SizedCtb.row_le (h : SizedCtb g) :
    g.i2PicWdInCtb * ctbSizeIn4x4 g ≤ qpBufferStride g := by
  unfold CtbGrid.i2PicWdInCtb ctbSizeIn4x4 qpBufferStride u4Width maxCtbSize
  rcases h with h | h | h <;> simp only [h] <;> omega

theorem SizedCtb.col_lt (h : SizedCtb g) (hc : ctbX < g.i2PicWdInCtb) (hx : x < ctbSizeIn4x4 g) :
    ctbX * ctbSizeIn4x4 g + x < qpBufferStride g := by
  have hle := Nat.mul_le_mul_right (ctbSizeIn4x4 g) (Nat.succ_le_of_lt hc)
  rw [Nat.succ_mul] at hle
  have hrow := h.row_le
  omega

theorem cell_inj (h : SizedCtb g) (hc : ctbX < g.i2PicWdInCtb) (hc' : ctbX' < g.i2PicWdInCtb)
    (hx : x < ctbSizeIn4x4 g) (hx' : x' < ctbSizeIn4x4 g)
    (heq : cell g ctbX x y = cell g ctbX' x' y') : ctbX = ctbX' ∧ x = x' ∧ y = y' := by
  obtain ⟨hrow, hcol⟩ := row_col_inj (h.col_lt hc hx) (h.col_lt hc' hx') heq
  obtain ⟨hctb, hin⟩ := row_col_inj hx hx' hcol
  exact ⟨hctb, hin, by omega⟩

/-- The block of 8x8 has the QP in its four cells. -/
def Stores (g : CtbGrid) (ctbX : Nat) (m : Nat → Int) (x y : Nat) (qp : Int) : Prop :=
  ∀ i < 2, ∀ j < 2, m (cell g ctbX (2 * x + i) (2 * y + j)) = qp

/-- Where the loops over a CU begin. -/
def cuPos (g : CtbGrid) (ctbX : Nat) (p : CuInCtb) : Nat :=
  qpBufferStride g + ctbX * ctbSizeIn4x4 g + p.y0 / 8 * 2 * qpBufferStride g + p.x0 / 8 * 2

theorem cuPos_add (p : CuInCtb) (v h : Nat) : cuPos g ctbX p + v * qpBufferStride g + h =
    cell g ctbX (2 * (p.x0 / 8) + h) (2 * (p.y0 / 8) + v) := by
  unfold cuPos cell
  ring

section
variable {q : Nat → Nat → Int} {p : CuInCtb}
  (hsize : SizedCtb g) (hp : PlacedIn cfg q 0 0 (2 ^ g.i1Log2CtbSize) p)
include hsize hp

/-- The sizes of a CU in blocks of 4x4. -/
theorem PlacedIn.inCells : 2 * (p.x0 / 8) + 2 ^ p.log2CbSize / 8 * 2 ≤ ctbSizeIn4x4 g ∧
    2 * (p.y0 / 8) + 2 ^ p.log2CbSize / 8 * 2 ≤ ctbSizeIn4x4 g := by
  have h8 : 8 ∣ 2 ^ p.log2CbSize := pow_dvd_pow 2 hp.log2CbSize
  have hright := hp.right
  have hbottom := hp.bottom
  have hx := hp.dvdX
  have hy := hp.dvdY
  have hctb := hsize.size.1
  omega

/-- Outside of the CTB the loops store nothing. -/
theorem fillQpMap_frame (m : Nat → Int) (qp : Int)
    (ha : ∀ x < ctbSizeIn4x4 g, ∀ y < ctbSizeIn4x4 g, a ≠ cell g ctbX x y) :
    fillQpMap m (qpBufferStride g) (cuPos g ctbX p) (2 ^ p.log2CbSize / 8) qp a = m a := by
  refine if_neg ?_
  rintro ⟨v, hv, h, hh, heq⟩
  obtain ⟨hx, hy⟩ := hp.inCells hsize
  rw [cuPos_add] at heq
  exact ha _ (by omega) _ (by omega) heq

theorem fillQpMap_cell (hc : ctbX < g.i2PicWdInCtb) (m : Nat → Int) (qp : Int)
    (hx : x < ctbSizeIn4x4 g) :
    fillQpMap m (qpBufferStride g) (cuPos g ctbX p) (2 ^ p.log2CbSize / 8) qp (cell g ctbX x y) =
      if CuInCtb.Covers p (x / 2) (y / 2) then qp else m (cell g ctbX x y) := by
  have h8 : 8 ∣ 2 ^ p.log2CbSize := pow_dvd_pow 2 hp.log2CbSize
  have hx8 := hp.dvdX
  have hy8 := hp.dvdY
  obtain ⟨hxin, hyin⟩ := hp.inCells hsize
  refine if_congr ⟨?_, fun hcov => ?_⟩ rfl rfl
  · rintro ⟨v, hv, h, hh, heq⟩
    rw [cuPos_add] at heq
    obtain ⟨-, rfl, rfl⟩ := cell_inj hsize hc hc hx (by omega) heq
    exact ⟨by omega, by omega, by omega, by omega⟩
  · obtain ⟨hleft, hright, htop, hbottom⟩ := hcov
    refine ⟨y - 2 * (p.y0 / 8), by omega, x - 2 * (p.x0 / 8), by omega, ?_⟩
    rw [cuPos_add]
    congr 1 <;> omega

theorem Stores.fill (hc : ctbX < g.i2PicWdInCtb) (hx : 2 * x + 2 ≤ ctbSizeIn4x4 g)
    (h : CuInCtb.Covers p x y → v = qp) (h' : ¬ CuInCtb.Covers p x y → Stores g ctbX m x y v) :
    Stores g ctbX
      (fillQpMap m (qpBufferStride g) (cuPos g ctbX p) (2 ^ p.log2CbSize / 8) qp) x y v := by
  intro i hi j hj
  rw [fillQpMap_cell hsize hp hc m qp (by omega), show (2 * x + i) / 2 = x by omega,
    show (2 * y + j) / 2 = y by omega]
  split
  case isTrue hcov => exact (h hcov).symm
  case isFalse hcov => exact h' hcov i hi j hj

end

-- ---------------------------------------------------------------------------
-- One CU of the map
-- ---------------------------------------------------------------------------

/-- The CU at the address of its CTB. -/
def mapCu (cfg : QpConfig) (ctbX : Nat) (s : (Nat → Int) × Int) (p : CuInCtb) : (Nat → Int) × Int :=
  populateCu (qpBufferStride cfg.toCtbGrid)
    (qpBufferStride cfg.toCtbGrid + ctbX * ctbSizeIn4x4 cfg.toCtbGrid) s (cuEncLoopOut cfg p)

theorem mapCu_fst (s : (Nat → Int) × Int) (p : CuInCtb) :
    (mapCu cfg ctbX s p).1 = fillQpMap s.1 (qpBufferStride cfg.toCtbGrid)
      (cuPos cfg.toCtbGrid ctbX p) (2 ^ p.log2CbSize / 8) (mapCu cfg ctbX s p).2 := rfl

theorem mapCu_snd (s : (Nat → Int) × Int) (p : CuInCtb) :
    (mapCu cfg ctbX s p).2 =
      if p.cu.skipFlag || !p.cu.coded then
        if (cuEncLoopOut cfg p).b1FirstCuInQg then
          ((if p.x0 / 8 = 0 then s.2 else s.1 (cuPos cfg.toCtbGrid ctbX p - 1)) +
            (if p.y0 / 8 = 0 then s.2 else
              s.1 (cuPos cfg.toCtbGrid ctbX p - qpBufferStride cfg.toCtbGrid)) + 1).tdiv 2
        else s.2
      else p.cu.b7Qp := rfl

theorem skip_or_uncoded (cu : CuResidual) : (cu.skipFlag || !cu.coded) = !cu.coded := by
  unfold CuResidual.coded
  cases cu.skipFlag <;> simp

theorem mapCu_coded {p : CuInCtb} (s : (Nat → Int) × Int) (h : p.cu.coded = true) :
    (mapCu cfg ctbX s p).2 = p.cu.b7Qp := by
  rw [mapCu_snd, skip_or_uncoded, h]
  rfl

/-- Without a residual it is the prediction from the blocks at the left and above. -/
theorem mapCu_uncoded {p : CuInCtb} (s : (Nat → Int) × Int) (h : p.cu.coded = false)
    (left top : Int)
    (hleft : if p.x0 / 8 = 0 then left = s.2 else
      Stores cfg.toCtbGrid ctbX s.1 (p.x0 / 8 - 1) (p.y0 / 8) left)
    (htop : if p.y0 / 8 = 0 then top = s.2 else
      Stores cfg.toCtbGrid ctbX s.1 (p.x0 / 8) (p.y0 / 8 - 1) top) :
    (mapCu cfg ctbX s p).2 =
      if (cuEncLoopOut cfg p).b1FirstCuInQg then (left + top + 1).tdiv 2 else s.2 := by
  have hl : (if p.x0 / 8 = 0 then s.2 else s.1 (cuPos cfg.toCtbGrid ctbX p - 1)) = left := by
    split at hleft
    case isTrue hx => rw [if_pos hx, hleft]
    case isFalse hx =>
      rw [if_neg hx, ← hleft 1 (by decide) 0 (by decide)]
      refine congrArg s.1 ?_
      unfold cuPos cell
      have hy : (1 + (2 * (p.y0 / 8) + 0)) * qpBufferStride cfg.toCtbGrid =
          qpBufferStride cfg.toCtbGrid + p.y0 / 8 * 2 * qpBufferStride cfg.toCtbGrid := by ring
      omega
  have ht : (if p.y0 / 8 = 0 then s.2 else
      s.1 (cuPos cfg.toCtbGrid ctbX p - qpBufferStride cfg.toCtbGrid)) = top := by
    split at htop
    case isTrue hy => rw [if_pos hy, htop]
    case isFalse hy =>
      rw [if_neg hy, ← htop 0 (by decide) 1 (by decide)]
      refine congrArg s.1 ?_
      unfold cuPos cell
      rw [show 1 + (2 * (p.y0 / 8 - 1) + 1) = p.y0 / 8 * 2 by omega]
      omega
  rw [mapCu_snd, skip_or_uncoded, h, hl, ht]
  rfl

-- ---------------------------------------------------------------------------
-- One CU of the entropy coder
-- ---------------------------------------------------------------------------

/-- Every coding unit begins a quantization group. -/
structure FineGroups (cfg : QpConfig) : Prop where
  ctb : cfg.i1Log2CtbSize = 6
  depth : cfg.i1DiffCuQpDeltaDepth = cuLevelQpLimit8x8

theorem FineGroups.qgPos (h : FineGroups cfg) : ∀ pos < 8, qgPos cfg pos = pos := by
  unfold Encoder.qgPos
  rw [h.ctb, h.depth]
  decide

theorem FineGroups.placed {q : Nat → Nat → Int} {p : CuInCtb} (h : FineGroups cfg)
    (hp : PlacedIn cfg q 0 0 (2 ^ cfg.i1Log2CtbSize) p) : PlacedIn cfg q 0 0 64 p := by
  have hpow : 2 ^ cfg.i1Log2CtbSize = 64 := by
    rw [h.ctb]
    rfl
  rwa [hpow] at hp

/-- The CU in the quadtree of the entropy coder. -/
def encodeCu (cfg : QpConfig) (ctbX ctbY : Nat) (e : QpContext) (p : CuInCtb) : QpContext :=
  (ihevceCabacEncodeCodingUnit cfg ctbX ctbY p.x0 p.y0 p.log2CbSize p.cu
    { e with i1EncodeQpDelta := true }).1

theorem encodeTransformTree_any {qp : Int} (tus : List TuCbf) {e : QpContext} :
    (encodeTransformTree cfg ctbX gx gy qp e tus).1 =
      if tus.any TuCbf.coded then
        { e with
          i1CurQp := if e.i1EncodeQpDelta then qp else e.i1CurQp
          i1EncodeQpDelta := false
          i4IsCuCbfZero := false }
      else e := by
  induction tus generalizing e with
  | nil => rfl
  | cons tu tus ih =>
    simp only [encodeTransformTree, ih, List.any_cons]
    by_cases htu : tu.coded = true
    · by_cases he : e.i1EncodeQpDelta = true <;> simp [encodeTu, htu, he]
    · simp [encodeTu, htu]

/-- What a CU of its own group leaves. -/
theorem encodeCu_eq {q : Nat → Nat → Int} {e : QpContext} {p : CuInCtb} (ctbX ctbY : Nat)
    (hfine : FineGroups cfg) (hp : PlacedIn cfg q 0 0 64 p) (hzero : e.i4IsCuCbfZero = true) :
    ∃ qp, qp = (if p.cu.coded then p.cu.b7Qp
        else groupPred e.ai48x8CuQp e.i1CurQp (p.x0 / 8) (p.y0 / 8)) ∧
      (encodeCu cfg ctbX ctbY e p).i1CurQp = qp ∧
      (encodeCu cfg ctbX ctbY e p).i4IsCuCbfZero = true ∧
      (encodeCu cfg ctbX ctbY e p).ai48x8CuQp =
        fillCuQp e.ai48x8CuQp (p.x0 / 8) (p.y0 / 8) (2 ^ p.log2CbSize) qp := by
  have hpos : 2 ^ 3 ≤ 2 ^ p.log2CbSize := Nat.pow_le_pow_right Nat.two_pos hp.log2CbSize
  have hright := hp.right
  have hbottom := hp.bottom
  have hx := hfine.qgPos (p.x0 / 8) (by omega)
  have hy := hfine.qgPos (p.y0 / 8) (by omega)
  have hdx := hp.dvdX
  have hdy := hp.dvdY
  have hlast : isLastBlkInQg cfg ctbX ctbY p.x0 p.y0 (2 ^ p.log2CbSize) = true := by
    have hsize : 2 ^ (cfg.i1Log2CtbSize - cfg.i1DiffCuQpDeltaDepth) = 8 := by
      rw [hfine.ctb, hfine.depth]
      rfl
    have hr : p.x0 / 8 * 8 + 8 ≤ p.x0 + 2 ^ p.log2CbSize := by omega
    have hb : p.y0 / 8 * 8 + 8 ≤ p.y0 + 2 ^ p.log2CbSize := by omega
    simp [isLastBlkInQg, hx, hy, hsize, hr, hb]
  refine ⟨_, rfl, ?_⟩
  unfold encodeCu ihevceCabacEncodeCodingUnit
  by_cases hskip : (p.cu.skipFlag || p.cu.noResFlag) = true
  · have hcoded : p.cu.coded = false := by simp [CuResidual.coded, hskip]
    have hpred : ((true || p.cu.noResFlag || p.cu.skipFlag) && true) = true := by simp
    simp only [hskip, if_true, hx, hy, hlast, hcoded, hzero, hpred, Bool.false_eq_true, if_false]
    exact ⟨rfl, trivial, rfl⟩
  · simp only [Bool.not_eq_true, Bool.or_eq_false_iff] at hskip
    obtain ⟨hskip, hnores⟩ := hskip
    simp only [hskip, hnores, Bool.or_false, Bool.false_eq_true, if_false, encodeTransformTree_any,
      hx, hy, hlast, hzero]
    by_cases hany : p.cu.tus.any TuCbf.coded = true
    · have hcoded : p.cu.coded = true := by simp [CuResidual.coded, hskip, hnores, hany]
      simp only [hany, hcoded, if_true]
      exact ⟨rfl, trivial, rfl⟩
    · have hcoded : p.cu.coded = false := by simp [CuResidual.coded, hany]
      simp only [hany, hcoded, Bool.false_eq_true, if_false, if_true, Bool.and_self]
      exact ⟨rfl, trivial, rfl⟩

-- ---------------------------------------------------------------------------
-- The coding units of a CTB
-- ---------------------------------------------------------------------------

/-- The map has the QPs that the entropy coder has recorded, in the blocks of `P`. -/
structure MapAgrees (cfg : QpConfig) (ctbX : Nat) (P : Nat → Nat → Prop) (s : (Nat → Int) × Int)
    (e : QpContext) : Prop where
  inCtb : ∀ x y, P x y → 2 * x + 2 ≤ ctbSizeIn4x4 cfg.toCtbGrid
  stores : ∀ x y, P x y → Stores cfg.toCtbGrid ctbX s.1 x y (e.ai48x8CuQp x y)
  range : ∀ x y, P x y → QpInRange (e.ai48x8CuQp x y)
  last : s.2 = e.i1CurQp
  lastRange : QpInRange e.i1CurQp
  zero : e.i4IsCuCbfZero = true

/-- The map has one QP in the blocks of `P`. -/
structure MapConst (cfg : QpConfig) (ctbX : Nat) (qp : Int) (P : Nat → Nat → Prop)
    (s : (Nat → Int) × Int) : Prop where
  inCtb : ∀ x y, P x y → 2 * x + 2 ≤ ctbSizeIn4x4 cfg.toCtbGrid
  stores : ∀ x y, P x y → Stores cfg.toCtbGrid ctbX s.1 x y qp
  last : s.2 = qp

theorem fillCuQp_covers {q : Nat → Nat → Int} {p : CuInCtb} (hp : PlacedIn cfg q x0 y0 n p)
    (m : Nat → Nat → Int) (qp : Int) (x y : Nat) :
    fillCuQp m (p.x0 / 8) (p.y0 / 8) (2 ^ p.log2CbSize) qp x y =
      if CuInCtb.Covers p x y then qp else m x y := by
  have h8 : 8 ∣ 2 ^ p.log2CbSize := pow_dvd_pow 2 hp.log2CbSize
  have hx := hp.dvdX
  have hy := hp.dvdY
  refine if_congr ⟨?_, ?_⟩ rfl rfl
  · rintro ⟨h1, h2, h3, h4⟩
    exact ⟨by omega, by omega, by omega, by omega⟩
  · rintro ⟨h1, h2, h3, h4⟩
    exact ⟨by omega, by omega, by omega, by omega⟩

theorem PlacedIn.covers_inCtb {q : Nat → Nat → Int} {p : CuInCtb} (hsize : SizedCtb g)
    (hp : PlacedIn cfg q 0 0 (2 ^ g.i1Log2CtbSize) p) (h : CuInCtb.Covers p x y) :
    2 * x + 2 ≤ ctbSizeIn4x4 g := by
  have h8 : 8 ∣ 2 ^ p.log2CbSize := pow_dvd_pow 2 hp.log2CbSize
  have hin := (hp.inCells hsize).1
  have hx := hp.dvdX
  have hlt := h.2.1
  omega

theorem average_of_range (hl : QpInRange left) (ht : QpInRange top) :
    (left + top + 1).tdiv 2 = (left + top + 1) / 2 :=
  Int.tdiv_eq_ediv_of_nonneg (by have := hl.1; have := ht.1; omega)

/-- A CU that has the QP. -/
theorem MapConst.stored {q : Nat → Nat → Int} {p : CuInCtb} {P : Nat → Nat → Prop}
    (hsize : SizedCtb cfg.toCtbGrid) (hc : ctbX < cfg.i2PicWdInCtb)
    (hp : PlacedIn cfg q 0 0 (2 ^ cfg.i1Log2CtbSize) p)
    (hP : ∀ x y, P x y → 2 * x + 2 ≤ ctbSizeIn4x4 cfg.toCtbGrid ∧
      Stores cfg.toCtbGrid ctbX s.1 x y qp)
    (hsnd : (mapCu cfg ctbX s p).2 = qp) :
    MapConst cfg ctbX qp (fun x y => P x y ∨ CuInCtb.Covers p x y) (mapCu cfg ctbX s p) := by
  have hin : ∀ x y, P x y ∨ CuInCtb.Covers p x y →
      2 * x + 2 ≤ ctbSizeIn4x4 cfg.toCtbGrid := by
    rintro x y (hxy | hcov)
    · exact (hP x y hxy).1
    · exact hp.covers_inCtb hsize hcov
  refine ⟨hin, fun x y hxy => ?_, hsnd⟩
  rw [mapCu_fst, hsnd]
  exact Stores.fill hsize hp hc (hin x y hxy) (fun _ => rfl) fun hcov =>
    (hP x y (hxy.resolve_right hcov)).2

theorem MapAgrees.cu {q : Nat → Nat → Int} {p : CuInCtb} {P : Nat → Nat → Prop}
    (hfine : FineGroups cfg) (hc : ctbX < cfg.i2PicWdInCtb)
    (hp : PlacedIn cfg q 0 0 (2 ^ cfg.i1Log2CtbSize) p) (hq : QpInRange p.cu.b7Qp)
    (h : MapAgrees cfg ctbX P s e) (hleft : p.x0 / 8 ≠ 0 → P (p.x0 / 8 - 1) (p.y0 / 8))
    (htop : p.y0 / 8 ≠ 0 → P (p.x0 / 8) (p.y0 / 8 - 1)) :
    MapAgrees cfg ctbX (fun x y => P x y ∨ CuInCtb.Covers p x y) (mapCu cfg ctbX s p)
      (encodeCu cfg ctbX ctbY e p) := by
  have hsize : SizedCtb cfg.toCtbGrid := .inr (.inr hfine.ctb)
  have hp64 := hfine.placed hp
  obtain ⟨qp, hqp, hcur, hzero, hmap⟩ := encodeCu_eq ctbX ctbY hfine hp64 h.zero
  let left := if p.x0 / 8 = 0 then e.i1CurQp else e.ai48x8CuQp (p.x0 / 8 - 1) (p.y0 / 8)
  let top := if p.y0 / 8 = 0 then e.i1CurQp else e.ai48x8CuQp (p.x0 / 8) (p.y0 / 8 - 1)
  have hleftRange : QpInRange left := by
    simp only [left]
    split
    case isTrue => exact h.lastRange
    case isFalse hx => exact h.range _ _ (hleft hx)
  have htopRange : QpInRange top := by
    simp only [top]
    split
    case isTrue => exact h.lastRange
    case isFalse hy => exact h.range _ _ (htop hy)
  have hleftStored : if p.x0 / 8 = 0 then left = s.2 else
      Stores cfg.toCtbGrid ctbX s.1 (p.x0 / 8 - 1) (p.y0 / 8) left := by
    simp only [left]
    split
    case isTrue => exact h.last.symm
    case isFalse hx => exact h.stores _ _ (hleft hx)
  have htopStored : if p.y0 / 8 = 0 then top = s.2 else
      Stores cfg.toCtbGrid ctbX s.1 (p.x0 / 8) (p.y0 / 8 - 1) top := by
    simp only [top]
    split
    case isTrue => exact h.last.symm
    case isFalse hy => exact h.stores _ _ (htop hy)
  have hsnd : (mapCu cfg ctbX s p).2 = qp := by
    by_cases hcoded : p.cu.coded = true
    · rw [mapCu_coded s hcoded, hqp, if_pos hcoded]
    · have hfirst : (cuEncLoopOut cfg p).b1FirstCuInQg = true := by
        have hpos := Nat.two_pow_pos p.log2CbSize
        have hright := hp64.right
        have hbottom := hp64.bottom
        simp [cuEncLoopOut, hfine.qgPos (p.x0 / 8) (by omega), hfine.qgPos (p.y0 / 8) (by omega)]
      rw [mapCu_uncoded s (Bool.not_eq_true _ ▸ hcoded) left top hleftStored htopStored, hqp,
        if_pos hfirst, if_neg hcoded, average_of_range hleftRange htopRange]
      rfl
  have hrange : QpInRange qp := by
    rw [hqp]
    split
    · exact hq
    · exact groupPred_range h.lastRange (fun hx => h.range _ _ (hleft hx))
        fun hy => h.range _ _ (htop hy)
  have hin : ∀ x y, P x y ∨ CuInCtb.Covers p x y →
      2 * x + 2 ≤ ctbSizeIn4x4 cfg.toCtbGrid := by
    rintro x y (hP | hcov)
    · exact h.inCtb x y hP
    · exact hp.covers_inCtb hsize hcov
  refine ⟨hin, fun x y hxy => ?_, fun x y hxy => ?_, hsnd.trans hcur.symm, hcur ▸ hrange, hzero⟩
  · rw [mapCu_fst, hsnd, hmap, fillCuQp_covers hp]
    refine Stores.fill hsize hp hc (hin x y hxy) (fun hcov => if_pos hcov) fun hcov => ?_
    rw [if_neg hcov]
    exact h.stores x y (hxy.resolve_right hcov)
  · rw [hmap, fillCuQp_covers hp]
    split
    case isTrue => exact hrange
    case isFalse hcov => exact h.range x y (hxy.resolve_right hcov)

theorem MapConst.cu {q : Nat → Nat → Int} {p : CuInCtb} {P : Nat → Nat → Prop}
    (hsize : SizedCtb cfg.toCtbGrid) (hc : ctbX < cfg.i2PicWdInCtb) (hqp : QpInRange qp)
    (hp : PlacedIn cfg q 0 0 (2 ^ cfg.i1Log2CtbSize) p) (hq : p.cu.b7Qp = qp)
    (h : MapConst cfg ctbX qp P s) (hleft : p.x0 / 8 ≠ 0 → P (p.x0 / 8 - 1) (p.y0 / 8))
    (htop : p.y0 / 8 ≠ 0 → P (p.x0 / 8) (p.y0 / 8 - 1)) :
    MapConst cfg ctbX qp (fun x y => P x y ∨ CuInCtb.Covers p x y) (mapCu cfg ctbX s p) := by
  have hsnd : (mapCu cfg ctbX s p).2 = qp := by
    by_cases hcoded : p.cu.coded = true
    · rw [mapCu_coded s hcoded, hq]
    · rw [mapCu_uncoded s (Bool.not_eq_true _ ▸ hcoded) qp qp ?_ ?_, average_of_range hqp hqp]
      · split
        case isTrue => omega
        case isFalse => exact h.last
      · split
        case isTrue => exact h.last.symm
        case isFalse hx => exact h.stores _ _ (hleft hx)
      · split
        case isTrue => exact h.last.symm
        case isFalse hy => exact h.stores _ _ (htop hy)
  exact MapConst.stored hsize hc hp (fun x y hxy => ⟨h.inCtb x y hxy, h.stores x y hxy⟩) hsnd


-- ---------------------------------------------------------------------------
-- One CTB
-- ---------------------------------------------------------------------------

/-- A block of 8x8 of a CTB that lies in the picture. -/
def InPicture (g : CtbGrid) (ctbX ctbY x y : Nat) : Prop :=
  8 * x < 2 ^ g.i1Log2CtbSize ∧ 8 * y < 2 ^ g.i1Log2CtbSize ∧
    g.InWidth ctbX (8 * x) ∧ g.InHeight ctbY (8 * y)

theorem encodeCus_zero (ctbX ctbY : Nat) (l : List CuInCtb) {e : QpContext}
    (h : e.i4IsCuCbfZero = true) :
    (l.foldl (encodeCu cfg ctbX ctbY) e).i4IsCuCbfZero = true := by
  induction l generalizing e with
  | nil => exact h
  | cons p l ih => exact ih rfl

variable {ctbs : Nat → Nat → CodingQuadtree CuResidual}

theorem populateCtb_eq (s : (Nat → Int) × Int) : populateCtb cfg ctbs ctbY s ctbX =
    (quadtreeCus cfg.toCtbGrid ctbX ctbY (ctbs ctbX ctbY) 0 0 cfg.i1Log2CtbSize).foldl
      (mapCu cfg ctbX) (s.1, updateLastCodedCuQp cfg s.1 ctbY ctbX s.2) := by
  unfold populateCtb
  rw [List.foldl_map]
  rfl

section
variable {q : Nat → Nat → Int}

/-- The quadtree of the entropy coder goes through the coding units in order. -/
theorem quadtree_foldl (hfine : FineGroups cfg) (t : CodingQuadtree CuResidual) :
    ∀ {x0 y0 log2CbSize ctDepth e}, LegalQuadtree cfg ctbX ctbY q t x0 y0 log2CbSize →
      8 ∣ x0 → 8 ∣ y0 → ctDepth + log2CbSize = 6 →
      (ihevceEncodeCodingQuadtree cfg ctbX ctbY t x0 y0 log2CbSize ctDepth e).1 =
        (quadtreeCus cfg.toCtbGrid ctbX ctbY t x0 y0 log2CbSize).foldl
          (encodeCu cfg ctbX ctbY) e := by
  have hdelta : ∀ {ctDepth log2CbSize}, 3 ≤ log2CbSize → ctDepth + log2CbSize = 6 →
      ∀ e : QpContext, { e with
        i1EncodeQpDelta := decide (ctDepth ≤ cfg.i1DiffCuQpDeltaDepth) || e.i1EncodeQpDelta } =
        { e with i1EncodeQpDelta := true } := by
    intro ctDepth log2CbSize hlog hdepth e
    have hle : ctDepth ≤ cfg.i1DiffCuQpDeltaDepth := by
      rw [hfine.depth]
      unfold cuLevelQpLimit8x8
      omega
    simp [hle]
  induction t with
  | cu cu =>
    intro x0 y0 log2CbSize ctDepth e hlegal _ _ hdepth
    simp only [ihevceEncodeCodingQuadtree, quadtreeCus, hdelta hlegal.1 hdepth]
    rfl
  | split c0 c1 c2 c3 ih0 ih1 ih2 ih3 =>
    intro x0 y0 log2CbSize ctDepth e hlegal hx8 hy8 hdepth
    obtain ⟨hlog, hlegal0, hlegal1, hlegal2, hlegal3⟩ := hlegal
    have h8 : 8 ∣ 2 ^ (log2CbSize - 1) := pow_dvd_pow 2 (show 3 ≤ log2CbSize - 1 by omega)
    have hdepth' : ctDepth + 1 + (log2CbSize - 1) = 6 := by omega
    have hfirst : (quadtreeCus cfg.toCtbGrid ctbX ctbY c0 x0 y0 (log2CbSize - 1)).foldl
        (encodeCu cfg ctbX ctbY) { e with i1EncodeQpDelta := true } =
        (quadtreeCus cfg.toCtbGrid ctbX ctbY c0 x0 y0 (log2CbSize - 1)).foldl
          (encodeCu cfg ctbX ctbY) e := by
      -- the first coding unit does not look at the flag
      obtain ⟨p, l, hl, -⟩ := quadtreeCus_first c0 hlegal0 hx8 hy8
      rw [hl]
      rfl
    simp only [ihevceEncodeCodingQuadtree, quadtreeCus, List.foldl_append,
      hdelta (show 3 ≤ log2CbSize by omega) hdepth, ih0 hlegal0 hx8 hy8 hdepth', hfirst]
    by_cases hw : cfg.InWidth ctbX (x0 + 2 ^ (log2CbSize - 1)) <;>
      by_cases hh : cfg.InHeight ctbY (y0 + 2 ^ (log2CbSize - 1)) <;>
      simp only [hw, hh, and_self, and_true, and_false, if_true, if_false, List.foldl_nil]
    · rw [ih3 (hlegal3 hw hh) (Nat.dvd_add hx8 h8) (Nat.dvd_add hy8 h8) hdepth',
        ih2 (hlegal2 hh) hx8 (Nat.dvd_add hy8 h8) hdepth',
        ih1 (hlegal1 hw) (Nat.dvd_add hx8 h8) hy8 hdepth']
    · rw [ih1 (hlegal1 hw) (Nat.dvd_add hx8 h8) hy8 hdepth']
    · rw [ih2 (hlegal2 hh) hx8 (Nat.dvd_add hy8 h8) hdepth']

variable (hlegal : LegalQuadtree cfg ctbX ctbY q (ctbs ctbX ctbY) 0 0 cfg.i1Log2CtbSize)
  (hc : ctbX < cfg.i2PicWdInCtb) (hw : cfg.InWidth ctbX 0) (hh : cfg.InHeight ctbY 0)
include hlegal

theorem ctbCus_ready (hw : cfg.InWidth ctbX 0) (hh : cfg.InHeight ctbY 0) :
    Ready (fun _ _ => False)
      (quadtreeCus cfg.toCtbGrid ctbX ctbY (ctbs ctbX ctbY) 0 0 cfg.i1Log2CtbSize) ∧
    ∀ x y, InPicture cfg.toCtbGrid ctbX ctbY x y →
      Covered (quadtreeCus cfg.toCtbGrid ctbX ctbY (ctbs ctbX ctbY) 0 0 cfg.i1Log2CtbSize) x y := by
  obtain ⟨hready, hin⟩ := quadtreeCus_ready (ctbs ctbX ctbY) hlegal (Nat.dvd_zero 8)
    (Nat.dvd_zero 8) hw hh fun x y _ _ hbefore => by omega
  refine ⟨hready, fun x y hxy => ?_⟩
  obtain ⟨hx, hy, hwx, hhy⟩ := hxy
  exact hin x y (Nat.zero_le _) (by omega) (Nat.zero_le _) (by omega) hwx hhy

omit hlegal in
/-- Cells that no coding unit is on keep their QP. -/
theorem mapCus_frame (l : List CuInCtb) {s : (Nat → Int) × Int}
    (h : ∀ p ∈ l, ∀ s, (mapCu cfg ctbX s p).1 a = s.1 a) :
    (l.foldl (mapCu cfg ctbX) s).1 a = s.1 a := by
  induction l generalizing s with
  | nil => rfl
  | cons p l ih =>
    rw [List.foldl_cons, ih fun p' hp' => h p' (List.mem_cons_of_mem _ hp')]
    exact h p (List.mem_cons_self ..) s

/-- Outside of the CTB the map is left alone. -/
theorem populateCtb_frame (hsize : SizedCtb cfg.toCtbGrid) (s : (Nat → Int) × Int)
    (ha : ∀ x < ctbSizeIn4x4 cfg.toCtbGrid, ∀ y < ctbSizeIn4x4 cfg.toCtbGrid,
      a ≠ cell cfg.toCtbGrid ctbX x y) : (populateCtb cfg ctbs ctbY s ctbX).1 a = s.1 a := by
  have hplaced := quadtreeCus_placed (ctbs ctbX ctbY) hlegal (Nat.dvd_zero 8) (Nat.dvd_zero 8)
  rw [populateCtb_eq, mapCus_frame _ fun p hp s => ?_]
  rw [mapCu_fst]
  exact fillQpMap_frame hsize (hplaced p hp) _ _ ha

/-- The map of the CTB against the entropy coder. -/
theorem populateCtb_agrees {e : QpContext} {s : (Nat → Int) × Int} (hfine : FineGroups cfg)
    (hq : ∀ i j, QpInRange (q i j)) (hc : ctbX < cfg.i2PicWdInCtb) (hw : cfg.InWidth ctbX 0)
    (hh : cfg.InHeight ctbY 0) (hzero : e.i4IsCuCbfZero = true) (hrange : QpInRange e.i1CurQp)
    (hlast : updateLastCodedCuQp cfg s.1 ctbY ctbX s.2 = e.i1CurQp) :
    MapAgrees cfg ctbX (InPicture cfg.toCtbGrid ctbX ctbY) (populateCtb cfg ctbs ctbY s ctbX)
      (ihevceEncodeCodingQuadtree cfg ctbX ctbY (ctbs ctbX ctbY) 0 0 cfg.i1Log2CtbSize 0 e).1 := by
  obtain ⟨hready, hcovered⟩ := ctbCus_ready hlegal hw hh
  have hplaced := quadtreeCus_placed (ctbs ctbX ctbY) hlegal (Nat.dvd_zero 8) (Nat.dvd_zero 8)
  rw [populateCtb_eq, quadtree_foldl hfine _ hlegal (Nat.dvd_zero 8) (Nat.dvd_zero 8)
    ((Nat.zero_add _).trans hfine.ctb)]
  have hmono : ∀ {P Q : Nat → Nat → Prop} {s e}, (∀ x y, Q x y → P x y) →
      MapAgrees cfg ctbX P s e → MapAgrees cfg ctbX Q s e := fun hQP h =>
    ⟨fun x y hxy => h.inCtb x y (hQP x y hxy), fun x y hxy => h.stores x y (hQP x y hxy),
      fun x y hxy => h.range x y (hQP x y hxy), h.last, h.lastRange, h.zero⟩
  refine hmono (fun x y hxy => .inr (hcovered x y hxy)) (hready.foldl_rel hmono
    (fun p hp h hleft htop => h.cu hfine hc (hplaced p hp) ?_ hleft htop)
    ⟨fun x y h => h.elim, fun x y h => h.elim, fun x y h => h.elim, hlast, hrange, hzero⟩)
  rw [(hplaced p hp).qp]
  exact hq _ _

/-- Behind the CTB its last block has the last QP. -/
theorem encodeCtb_lastBlock {e : QpContext} (hfine : FineGroups cfg)
    (hzero : e.i4IsCuCbfZero = true)
    (hlast : LastBlock cfg.toCtbGrid ctbX ctbY 0 0 (2 ^ cfg.i1Log2CtbSize) x y) :
    let r := ihevceEncodeCodingQuadtree cfg ctbX ctbY (ctbs ctbX ctbY) 0 0 cfg.i1Log2CtbSize 0 e
    r.1.ai48x8CuQp x y = r.1.i1CurQp := by
  intro r
  have hplaced := quadtreeCus_placed (ctbs ctbX ctbY) hlegal (Nat.dvd_zero 8) (Nat.dvd_zero 8)
  obtain ⟨l, p, hl, hcov⟩ := quadtreeCus_last (ctbs ctbX ctbY) hlegal (Nat.dvd_zero 8)
    (Nat.dvd_zero 8) hlast
  have hp := hplaced p (by rw [hl]; exact List.mem_append_right _ (List.mem_singleton_self _))
  have hp64 := hfine.placed hp
  have hr : r.1 = encodeCu cfg ctbX ctbY (l.foldl (encodeCu cfg ctbX ctbY) e) p := by
    simp only [r]
    rw [quadtree_foldl hfine _ hlegal (Nat.dvd_zero 8) (Nat.dvd_zero 8)
      ((Nat.zero_add _).trans hfine.ctb), hl, List.foldl_append]
    rfl
  obtain ⟨qp, -, hcur, -, hmap⟩ := encodeCu_eq ctbX ctbY hfine hp64
    (encodeCus_zero ctbX ctbY l hzero)
  rw [hr, hmap, hcur, fillCuQp_covers hp, if_pos hcov]

/-- The QP of the first CU, from the last QP before the CTB. -/
def firstQp (last : Int) (p : CuInCtb) : Int :=
  if p.cu.coded then p.cu.b7Qp else (last + last + 1).tdiv 2

omit hlegal in
theorem mapCu_first {p : CuInCtb} {s : (Nat → Int) × Int} (hx : p.x0 = 0) (hy : p.y0 = 0) :
    (mapCu cfg ctbX s p).2 = firstQp s.2 p := by
  unfold firstQp
  by_cases hcoded : p.cu.coded = true
  · rw [mapCu_coded s hcoded, if_pos hcoded]
  · have hfirst : (cuEncLoopOut cfg p).b1FirstCuInQg = true := by
      simp [cuEncLoopOut, hx, hy, qgPos]
    rw [mapCu_uncoded s (Bool.not_eq_true _ ▸ hcoded) s.2 s.2 (by simp [hx]) (by simp [hy]),
      if_pos hfirst, if_neg hcoded]

/-- One QP in the whole CTB, if the first CU gets it. -/
theorem populateCtb_const {s : (Nat → Int) × Int} {qp : Int} (hsize : SizedCtb cfg.toCtbGrid)
    (hq : ∀ i j, q i j = qp) (hqp : QpInRange qp) (hc : ctbX < cfg.i2PicWdInCtb)
    (hw : cfg.InWidth ctbX 0) (hh : cfg.InHeight ctbY 0)
    (hfirst : ∀ p l,
      quadtreeCus cfg.toCtbGrid ctbX ctbY (ctbs ctbX ctbY) 0 0 cfg.i1Log2CtbSize = p :: l →
        firstQp (updateLastCodedCuQp cfg s.1 ctbY ctbX s.2) p = qp) :
    MapConst cfg ctbX qp (InPicture cfg.toCtbGrid ctbX ctbY)
      (populateCtb cfg ctbs ctbY s ctbX) := by
  obtain ⟨hready, hcovered⟩ := ctbCus_ready hlegal hw hh
  have hplaced := quadtreeCus_placed (ctbs ctbX ctbY) hlegal (Nat.dvd_zero 8) (Nat.dvd_zero 8)
  obtain ⟨p, l, hl, hx, hy, -⟩ := quadtreeCus_first (ctbs ctbX ctbY) hlegal (Nat.dvd_zero 8)
    (Nat.dvd_zero 8)
  have hqp1 := hfirst p l hl
  rw [populateCtb_eq]
  rw [hl] at hready hcovered hplaced ⊢
  have hmono : ∀ {P Q : Nat → Nat → Prop} {s} {u : Unit}, (∀ x y, Q x y → P x y) →
      MapConst cfg ctbX qp P s → MapConst cfg ctbX qp Q s := fun hQP h =>
    ⟨fun x y hxy => h.inCtb x y (hQP x y hxy), fun x y hxy => h.stores x y (hQP x y hxy), h.last⟩
  have h1 := MapConst.stored (s := (s.1, updateLastCodedCuQp cfg s.1 ctbY ctbX s.2)) hsize hc
    (hplaced p (List.mem_cons_self ..)) (P := fun _ _ => False) (fun x y h => h.elim)
    ((mapCu_first hx hy).trans hqp1)
  rw [List.foldl_cons]
  refine hmono (u := ()) (fun x y hxy => ?_) (hready.2.2.foldl_rel
    (R := fun P s (_ : Unit) => MapConst cfg ctbX qp P s) (g := fun u _ => u) (t := ())
    (fun hQP h => hmono (u := ()) hQP h)
    (fun p' hp' h hleft htop => h.cu hsize hc hqp (hplaced p' (List.mem_cons_of_mem _ hp'))
      ((hplaced p' (List.mem_cons_of_mem _ hp')).qp.trans (hq _ _)) hleft htop) h1)
  obtain ⟨p', hp', hcov⟩ := hcovered x y hxy
  rcases List.mem_cons.mp hp' with rfl | hp'
  · exact .inl (.inr hcov)
  · exact .inr ⟨p', hp', hcov⟩

/-- The first cell has the QP of the first CU. -/
theorem populateCtb_firstCell {s : (Nat → Int) × Int} (hsize : SizedCtb cfg.toCtbGrid)
    (hc : ctbX < cfg.i2PicWdInCtb) :
    ∃ p l, quadtreeCus cfg.toCtbGrid ctbX ctbY (ctbs ctbX ctbY) 0 0 cfg.i1Log2CtbSize = p :: l ∧
      (populateCtb cfg ctbs ctbY s ctbX).1 (cell cfg.toCtbGrid ctbX 0 0) =
        firstQp (updateLastCodedCuQp cfg s.1 ctbY ctbX s.2) p := by
  have hplaced := quadtreeCus_placed (ctbs ctbX ctbY) hlegal (Nat.dvd_zero 8) (Nat.dvd_zero 8)
  obtain ⟨p, l, hl, hx, hy, hother⟩ := quadtreeCus_first (ctbs ctbX ctbY) hlegal (Nat.dvd_zero 8)
    (Nat.dvd_zero 8)
  have hcells : 0 < ctbSizeIn4x4 cfg.toCtbGrid := by
    have hcases := hsize.size.2
    omega
  refine ⟨p, l, hl, ?_⟩
  rw [populateCtb_eq, hl, List.foldl_cons, mapCus_frame]
  · have hpos := Nat.two_pow_pos p.log2CbSize
    have hcov : CuInCtb.Covers p (0 / 2) (0 / 2) := ⟨by omega, by omega, by omega, by omega⟩
    rw [mapCu_fst, fillQpMap_cell hsize (hplaced p (by rw [hl]; exact List.mem_cons_self ..)) hc _ _
      hcells, if_pos hcov, mapCu_first hx hy]
  · intro p' hp' s'
    have hcov : ¬ CuInCtb.Covers p' (0 / 2) (0 / 2) := by
      rintro ⟨hleft, -, htop, -⟩
      have := hother p' hp'
      omega
    rw [mapCu_fst, fillQpMap_cell hsize
      (hplaced p' (by rw [hl]; exact List.mem_cons_of_mem _ hp')) hc _ _ hcells, if_neg hcov]

end

end Libhevc.RoundTrip
