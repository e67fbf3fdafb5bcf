import Libhevc.Decoder.Collocated
import Libhevc.Encoder.Collocated

/-!
# Temporal motion vectors of both sides

Decoder and encoder hold the motion of the same collocated picture, with the
reference counts of its units. Their temporal vectors agree unless the unit is
bi-predicted and a low-delay flag is set: the encoder looks up both counts with
the reference index of list 0, and it never sets its own flag.
-/

namespace Libhevc.RoundTrip

open Decoder (SpsSize ihevcdCollocatedMvp maxSliceHdrCnt)
open Encoder (ihevceCollocatedMvp)

/-- A unit that is stored by both sides; a list that it does not use says nothing. -/
structure SameUnit (d : Decoder.Pu) (e : Encoder.PuColMv) : Prop where
  intra : d.b1IntraFlag = e.b1IntraFlag
  mode : d.b2PredMode = e.b2PredMode
  mv : ∀ lx, e.b2PredMode.uses lx = true → d.mv.mv lx = e.mv.mv lx
  refIdx : ∀ lx, e.b2PredMode.uses lx = true → d.mv.refIdx lx = e.mv.refIdx lx

/-- A collocated picture that is stored by both sides, with short-term references. -/
structure SamePicture (sps : SpsSize) (b : Decoder.MvBuf) (r : Encoder.ReconPicBuf) : Prop where
  poc : b.i4AbsPoc = r.i4Poc
  isPoc : IsPoc r.i4Poc
  unit : ∀ x y pos, x <<< sps.i1Log2CtbSize < sps.i2PicWidthInLumaSamples →
    y <<< sps.i1Log2CtbSize < sps.i2PicHeightInLumaSamples →
    pos < (1 <<< sps.i1Log2CtbSize) / 4 * ((1 <<< sps.i1Log2CtbSize) / 4) →
    SameUnit (b.puAt sps x y pos) (r.colMvAt sps x y pos)
  table : ∀ x y, x <<< sps.i1Log2CtbSize < sps.i2PicWidthInLumaSamples →
    y <<< sps.i1Log2CtbSize < sps.i2PicHeightInLumaSamples → ∀ lx refIdx,
    b.ai4CollocatedPoc lx (b.pu1PicSliceMap (x + y * sps.i2PicWdInCtb) % maxSliceHdrCnt) refIdx =
      r.ai4ColPoc lx refIdx
  tableShort : ∀ lx sliceIdx refIdx, b.ai1CollocatedPocLt lx sliceIdx refIdx ≠ longTermRef
  tableIsPoc : ∀ lx refIdx, IsPoc (r.ai4ColPoc lx refIdx)

/-- The current slice, with short-term references. Of a P slice the encoder has no list 1. -/
structure SameSlice (d : Decoder.SliceHeader) (e : MotionHeader)
    (psRefList : ListX → Int → Encoder.ReconPicBuf) : Prop where
  type : d.i1SliceType = e.i1SliceType
  poc : d.i4AbsPicOrderCnt = e.i4AbsPicOrderCnt
  temporal : d.i1SliceTemporalMvpEnableFlag = e.i1SliceTemporalMvpEnableFlag
  fromL0 : d.i1CollocatedFromL0Flag = e.i1CollocatedFromL0Flag
  refPoc : ∀ lx refIdx, e.HasList lx →
    (d.psRefList lx refIdx).pvPicBuf.i4AbsPoc = (psRefList lx refIdx).i4Poc
  refShort : ∀ lx refIdx, (d.psRefList lx refIdx).pvPicBuf.u1UsedAsRef ≠ longTermRef

/-- The current CTB; no part of a tile is left out. -/
structure SameContext (d : Decoder.MvCtxt) (e : Encoder.MvPredCtxt) : Prop where
  sps : d.psSps = e.psSps
  ctbX : d.i4CtbX = e.i4CtbX
  ctbY : d.i4CtbY = e.i4CtbY
  slice : SameSlice d.psSliceHdr e.psSliceHdr e.psRefList
  picture : SamePicture e.psSps d.mvBufCol e.colRefBuf
  xtraRight : e.ai4TileXtraCtb 2 = 0
  xtraBottom : e.ai4TileXtraCtb 3 = 0

/-- A prediction block in its CTB and a position of a candidate. A list that the block does not
use has index -1 in the encoder. -/
structure SameBlock (sps : SpsSize) (d : Decoder.Pu) (e : Encoder.Pu) (xCol : Nat) : Prop where
  posY : d.b4PosY = e.b4PosY
  inCtb : e.b4PosY <<< 2 < 1 <<< sps.i1Log2CtbSize
  xCol_le : xCol ≤ 1 <<< sps.i1Log2CtbSize
  refIdx : ∀ lx, e.mv.refIdx lx ≠ -1 → d.mv.refIdx lx = e.mv.refIdx lx

/-- The vector of a unit for a current reference. -/
def colVector (colPoc curPoc curRefPoc colRefPoc : Int) (mvCol : Mv) : Mv :=
  if i32 (colPoc - colRefPoc) = i32 (curPoc - curRefPoc) ∨ colRefPoc = colPoc then mvCol
  else mvCol.scale (distScaleFactor (clipS8 (i32 (colPoc - colRefPoc)))
    (clipS8 (i32 (curPoc - curRefPoc))))

/-- The vector for list `lx` from list `listCol` of a unit, when the count is looked up with the
index of list `listIdx`. -/
def vectorFrom (e : Encoder.MvPredCtxt) (u : Encoder.PuColMv) (lx : ListX) (refIdx : Int)
    (listCol listIdx : ListX) : Mv :=
  colVector e.colRefBuf.i4Poc e.psSliceHdr.i4AbsPicOrderCnt (e.psRefList lx refIdx).i4Poc
    (e.colRefBuf.ai4ColPoc listCol (u.mv.refIdx listIdx)) (u.mv.mv listCol)

/-- The list is one that a vector is asked for. -/
def Compared (e : Encoder.Pu) (usePuRefIdx : Bool) (lx : ListX) : Prop :=
  usePuRefIdx = true → e.mv.refIdx lx ≠ -1

/-- Both sides give an answer; a vector is available on both or on neither, and is the same. -/
def SameMvp (d : Decoder.MvCtxt) (e : Encoder.MvPredCtxt) (puD : Decoder.Pu) (puE : Encoder.Pu)
    (mvColD mvColE : ListX → Mv) (usePuRefIdx : Bool) (xCol yCol : Nat) : Prop :=
  ∃ rd re, ihevcdCollocatedMvp d puD mvColD usePuRefIdx xCol yCol = some rd ∧
    ihevceCollocatedMvp e puE mvColE usePuRefIdx xCol yCol = some re ∧
    ∀ lx, Compared puE usePuRefIdx lx → rd.u4AvailColFlag lx = re.u4AvailColFlag lx ∧
      (re.u4AvailColFlag lx = true → rd.mvCol lx = re.mvCol lx)

/-- The collocated unit is not bi-predicted, or no low-delay flag is set, or the vector of the
list and count that the decoder takes is the one of the list and count that the encoder takes. -/
def SameVectors (d : Decoder.MvCtxt) (e : Encoder.MvPredCtxt) (puE : Encoder.Pu)
    (usePuRefIdx : Bool) (xCol yCol : Nat) : Prop :=
  ∀ u, e.colMv puE xCol yCol = some u → u.b1IntraFlag = false →
    e.psSliceHdr.i1SliceTemporalMvpEnableFlag = true → u.b2PredMode = .predBi →
    d.psSliceHdr.i1LowDelayFlag = true ∨ e.psSliceHdr.i1LowDelayFlag = true →
    ∀ lx, Compared puE usePuRefIdx lx → e.psSliceHdr.HasList lx →
      vectorFrom e u lx (if usePuRefIdx then puE.mv.refIdx lx else 0)
          (d.psSliceHdr.listCol .predBi lx) (d.psSliceHdr.listCol .predBi lx) =
        vectorFrom e u lx (if usePuRefIdx then puE.mv.refIdx lx else 0)
          (e.psSliceHdr.listCol .predBi lx) (e.psSliceHdr.listCol .predBi .l0)

-- ---------------------------------------------------------------------------
-- The collocated unit
-- ---------------------------------------------------------------------------

theorem listCol_uses (h : MotionHeader) (mode : PredMode) (lx : ListX) :
    mode.uses (h.listCol mode lx) = true := by
  cases mode with
  | predL0 => rfl
  | predL1 => rfl
  | predBi => cases h.listCol .predBi lx <;> rfl

/-- The position of a candidate, rounded to 16 samples, is in a CTB of the picture. -/
theorem roundedCtb_lt {log2 ctb x size : Nat} (hx : x + ctb <<< log2 < size) :
    (ctb + (x >>> 4) <<< 4 >>> log2) <<< log2 < size := by
  simp only [Nat.shiftLeft_eq, Nat.shiftRight_eq_div_pow] at hx ⊢
  have hround : x / 2 ^ 4 * 2 ^ 4 ≤ x := Nat.div_mul_le_self ..
  have hctb : x / 2 ^ 4 * 2 ^ 4 / 2 ^ log2 * 2 ^ log2 ≤ x / 2 ^ 4 * 2 ^ 4 := Nat.div_mul_le_self ..
  rw [Nat.add_mul]
  omega

theorem mul_add_lt {a b n : Nat} (ha : a < n) (hb : b < n) : a * n + b < n * n :=
  calc a * n + b < a * n + n := by omega
    _ = (a + 1) * n := (Nat.succ_mul a n).symm
    _ ≤ n * n := Nat.mul_le_mul_right n ha

/-- The place of a candidate is in the map of its CTB. -/
theorem mapPos_lt {log2 x y : Nat} (hlog2 : 4 ≤ log2) (hx : x ≤ 1 <<< log2) (hy : y < 1 <<< log2) :
    ((y >>> 4) <<< 4 >>> 2) * (1 <<< log2 / 4) +
        (if (x >>> 4) <<< 4 = 1 <<< log2 then 0 else (x >>> 4) <<< 4) >>> 2 <
      1 <<< log2 / 4 * (1 <<< log2 / 4) := by
  obtain ⟨n, rfl⟩ := Nat.exists_eq_add_of_le hlog2
  simp only [Nat.shiftLeft_eq, Nat.shiftRight_eq_div_pow, Nat.one_mul, Nat.pow_add] at hx hy ⊢
  have hpos : 0 < 2 ^ n := Nat.two_pow_pos n
  refine mul_add_lt (by omega) ?_
  split <;> omega

/-- Both sides find the same unit, in a CTB of the picture, or none. -/
theorem colPu_same {d : Decoder.MvCtxt} {e : Encoder.MvPredCtxt} {puD : Decoder.Pu}
    {puE : Encoder.Pu} (h : SameContext d e) (hblock : SameBlock e.psSps puD puE xCol)
    (yCol : Nat) :
    (d.colPu puD xCol yCol = none ∧ e.colMv puE xCol yCol = none) ∨
      ∃ puCol x y u, d.colPu puD xCol yCol = some (puCol, x, y) ∧
        e.colMv puE xCol yCol = some u ∧ SameUnit puCol u ∧
        x <<< e.psSps.i1Log2CtbSize < e.psSps.i2PicWidthInLumaSamples ∧
        y <<< e.psSps.i1Log2CtbSize < e.psSps.i2PicHeightInLumaSamples := by
  unfold Decoder.MvCtxt.colPu Encoder.MvPredCtxt.colMv
  simp only [h.sps, h.ctbX, h.ctbY, hblock.posY, h.xtraRight, h.xtraBottom, ne_eq,
    not_true_eq_false, or_false]
  split
  case isFalse => exact .inl ⟨rfl, rfl⟩
  case isTrue hin =>
    obtain ⟨hrow, hx, hy⟩ := hin
    have hyCol : yCol < 1 <<< e.psSps.i1Log2CtbSize := by
      have hposY := hblock.inCtb
      simp only [Nat.shiftLeft_eq, Nat.shiftRight_eq_div_pow, Nat.one_mul] at hrow hposY ⊢
      rw [Nat.div_eq_of_lt hposY] at hrow
      exact Nat.lt_of_div_eq_zero (Nat.two_pow_pos _) hrow.symm
    refine .inr ⟨_, _, _, _, rfl, rfl, ?_, roundedCtb_lt hx, roundedCtb_lt hy⟩
    exact h.picture.unit _ _ _ (roundedCtb_lt hx) (roundedCtb_lt hy)
      (mapPos_lt e.psSps.log2CtbSize_ge hblock.xCol_le hyCol)

-- ---------------------------------------------------------------------------
-- The vector of one list
-- ---------------------------------------------------------------------------

/-- Where a vector is scaled, the scaling does not divide by zero. -/
theorem scaled_colVector {colPoc colRefPoc : Int} (curPoc curRefPoc : Int) (mvCol : Mv)
    (hcol : IsPoc colPoc) (hcolRef : IsPoc colRefPoc) :
    (if i32 (colPoc - colRefPoc) = i32 (curPoc - curRefPoc) then some mvCol
      else if colRefPoc ≠ colPoc then
        mvCol.scaleBy (clipS8 (i32 (colPoc - colRefPoc))) (clipS8 (i32 (curPoc - curRefPoc)))
      else some mvCol) =
      some (colVector colPoc curPoc curRefPoc colRefPoc mvCol) := by
  unfold colVector
  by_cases hsame : i32 (colPoc - colRefPoc) = i32 (curPoc - curRefPoc)
  · rw [if_pos hsame, if_pos (.inl hsame)]
  · rw [if_neg hsame]
    by_cases hzero : colRefPoc = colPoc
    · rw [if_neg (not_not.mpr hzero), if_pos (.inr hzero)]
    · rw [if_pos hzero, if_neg (not_or.mpr ⟨hsame, hzero⟩)]
      exact mvCol.scaleBy_some hcol hcolRef (Ne.symm hzero)

theorem colMv_decoder {d : Decoder.MvCtxt} {e : Encoder.MvPredCtxt} {puCol : Decoder.Pu}
    {u : Encoder.PuColMv} (h : SameContext d e) (hunit : SameUnit puCol u)
    (hx : x <<< e.psSps.i1Log2CtbSize < e.psSps.i2PicWidthInLumaSamples)
    (hy : y <<< e.psSps.i1Log2CtbSize < e.psSps.i2PicHeightInLumaSamples)
    (hlist : e.psSliceHdr.HasList lx) (refIdx : Int) :
    d.colMv puCol (d.mvBufCol.pu1PicSliceMap (x + y * d.psSps.i2PicWdInCtb) % maxSliceHdrCnt) lx
        refIdx =
      some (true, vectorFrom e u lx refIdx (d.psSliceHdr.listCol u.b2PredMode lx)
        (d.psSliceHdr.listCol u.b2PredMode lx)) := by
  have huses := listCol_uses d.psSliceHdr.toMotionHeader u.b2PredMode lx
  unfold Decoder.MvCtxt.colMv
  simp only [hunit.mode, hunit.mv _ huses, hunit.refIdx _ huses, h.sps, h.picture.table x y hx hy,
    h.picture.tableShort, h.slice.refShort, h.slice.refPoc lx refIdx hlist, h.picture.poc,
    h.slice.poc, if_true, false_or]
  have hscaled := scaled_colVector e.psSliceHdr.i4AbsPicOrderCnt
    (e.psRefList lx refIdx).i4Poc (u.mv.mv (d.psSliceHdr.listCol u.b2PredMode lx))
    h.picture.isPoc (h.picture.tableIsPoc (d.psSliceHdr.listCol u.b2PredMode lx)
      (u.mv.refIdx (d.psSliceHdr.listCol u.b2PredMode lx)))
  refine Eq.trans ?_ (congrArg (Option.map fun mv => (true, mv)) hscaled)
  split_ifs <;> rfl

theorem colMv_encoder {e : Encoder.MvPredCtxt} (hpic : SamePicture e.psSps b e.colRefBuf)
    (u : Encoder.PuColMv) (lx : ListX) (refIdx : Int) :
    e.colMvLx u lx refIdx =
      some (vectorFrom e u lx refIdx (e.psSliceHdr.listCol u.b2PredMode lx)
        (e.psSliceHdr.listCol u.b2PredMode .l0)) :=
  scaled_colVector _ _ _ hpic.isPoc (hpic.tableIsPoc _ _)

-- ---------------------------------------------------------------------------
-- Agreement
-- ---------------------------------------------------------------------------

/-- Of a unit that is not bi-predicted there is one list to take; without a low-delay flag both
lists of a bi-predicted one take the same. -/
theorem listCol_same {d e : MotionHeader} (hfrom : d.i1CollocatedFromL0Flag = e.i1CollocatedFromL0Flag)
    (mode : PredMode) (h : mode = .predBi → d.i1LowDelayFlag = false ∧ e.i1LowDelayFlag = false)
    (lx : ListX) :
    d.listCol mode lx = e.listCol mode lx ∧ d.listCol mode lx = e.listCol mode .l0 := by
  cases mode with
  | predL0 => exact ⟨rfl, rfl⟩
  | predL1 => exact ⟨rfl, rfl⟩
  | predBi =>
    obtain ⟨hd, he⟩ := h rfl
    simp [MotionHeader.listCol, hd, he, hfrom]

/-- What the decoder says of a unit that has vectors. -/
theorem decoder_vectors {d : Decoder.MvCtxt} {e : Encoder.MvPredCtxt} {puD puCol : Decoder.Pu}
    {u : Encoder.PuColMv} (h : SameContext d e) (hunit : SameUnit puCol u)
    (hx : x <<< e.psSps.i1Log2CtbSize < e.psSps.i2PicWidthInLumaSamples)
    (hy : y <<< e.psSps.i1Log2CtbSize < e.psSps.i2PicHeightInLumaSamples)
    (hcol : d.colPu puD xCol yCol = some (puCol, x, y)) (hintra : u.b1IntraFlag = false)
    (htemporal : e.psSliceHdr.i1SliceTemporalMvpEnableFlag = true) (mvCol : ListX → Mv)
    (usePuRefIdx : Bool) :
    ∃ rd, ihevcdCollocatedMvp d puD mvCol usePuRefIdx xCol yCol = some rd ∧
      ∀ lx, (rd.u4AvailColFlag lx = true ↔ e.psSliceHdr.HasList lx) ∧
        (e.psSliceHdr.HasList lx → rd.mvCol lx =
          vectorFrom e u lx (if usePuRefIdx then puD.mv.refIdx lx else 0)
            (d.psSliceHdr.listCol u.b2PredMode lx) (d.psSliceHdr.listCol u.b2PredMode lx)) := by
  unfold ihevcdCollocatedMvp
  rw [hcol]
  dsimp only
  have hl0 : ∀ refIdx, d.colMv puCol
      (d.mvBufCol.pu1PicSliceMap (x + y * d.psSps.i2PicWdInCtb) % maxSliceHdrCnt) .l0 refIdx = _ :=
    colMv_decoder h hunit hx hy nofun
  rw [hunit.intra, h.slice.temporal, if_neg (by simp [hintra, htemporal]), hl0, h.slice.type]
  by_cases hb : e.psSliceHdr.i1SliceType = .bslice
  · rw [if_pos hb, colMv_decoder h hunit hx hy fun _ => hb]
    refine ⟨_, rfl, fun lx => ?_⟩
    cases lx with
    | l0 => exact ⟨iff_of_true rfl nofun, fun _ => rfl⟩
    | l1 => exact ⟨iff_of_true rfl fun _ => hb, fun _ => rfl⟩
  · rw [if_neg hb]
    refine ⟨_, rfl, fun lx => ?_⟩
    cases lx with
    | l0 => exact ⟨iff_of_true rfl nofun, fun _ => rfl⟩
    | l1 => exact ⟨iff_of_false Bool.false_ne_true fun hl => hb (hl rfl), fun hl => absurd (hl rfl) hb⟩

theorem asked_vector (asked : Prop) [Decidable asked] (mv unasked : Mv) :
    (if asked then (some mv).map fun mv => (true, mv) else some (false, unasked)) =
      some (if asked then (true, mv) else (false, unasked)) := by
  split <;> rfl

/-- What the encoder says of it. -/
theorem encoder_vectors {e : Encoder.MvPredCtxt} {puE : Encoder.Pu} {u : Encoder.PuColMv}
    (hpic : SamePicture e.psSps b e.colRefBuf) (hcol : e.colMv puE xCol yCol = some u)
    (hintra : u.b1IntraFlag = false)
    (htemporal : e.psSliceHdr.i1SliceTemporalMvpEnableFlag = true) (mvCol : ListX → Mv)
    (usePuRefIdx : Bool) :
    ∃ re, ihevceCollocatedMvp e puE mvCol usePuRefIdx xCol yCol = some re ∧
      ∀ lx, Compared puE usePuRefIdx lx →
        (re.u4AvailColFlag lx = true ↔ e.psSliceHdr.HasList lx) ∧
        (e.psSliceHdr.HasList lx → re.mvCol lx =
          vectorFrom e u lx (if usePuRefIdx then puE.mv.refIdx lx else 0)
            (e.psSliceHdr.listCol u.b2PredMode lx) (e.psSliceHdr.listCol u.b2PredMode .l0)) := by
  have hasked : ∀ lx, Compared puE usePuRefIdx lx →
      (if usePuRefIdx then puE.mv.refIdx lx else 0) ≠ -1 := by
    intro lx hcompared
    cases usePuRefIdx with
    | false => simp
    | true => exact hcompared rfl
  unfold ihevceCollocatedMvp
  rw [hcol]
  dsimp only
  rw [if_neg (by simp [hintra, htemporal]), colMv_encoder hpic, colMv_encoder hpic, asked_vector,
    asked_vector]
  refine ⟨_, rfl, fun lx hcompared => ?_⟩
  have hlx := hasked lx hcompared
  cases lx with
  | l0 =>
    simp only [ColMvp.ofLists, if_pos hlx]
    exact ⟨iff_of_true trivial nofun, fun _ => trivial⟩
  | l1 =>
    by_cases hb : e.psSliceHdr.i1SliceType = .bslice
    · have hboth := And.intro hb hlx
      simp only [ColMvp.ofLists, if_pos hboth]
      exact ⟨iff_of_true trivial fun _ => hb, fun _ => trivial⟩
    · simp [ColMvp.ofLists, MotionHeader.HasList, hb]

/-- A picture of one CTB. -/
def oneCtb : SpsSize where
  i2PicWidthInLumaSamples := 64
  i2PicHeightInLumaSamples := 64
  i1Log2CtbSize := 6
  width_pos := SpsSize.pos_64
  width_le := SpsSize.le_64
  height_pos := SpsSize.pos_64
  height_le := SpsSize.le_64
  log2CtbSize_ge := SpsSize.log2_le
  log2CtbSize_le := SpsSize.log2_max

/-- Indices that differ. -/
def biMv : PuMv where
  sL0Mv := { i2Mvx := 8, i2Mvy := 0 }
  sL1Mv := { i2Mvx := 64, i2Mvy := 0 }
  i1L0RefIdx := 0
  i1L1RefIdx := 1

/-- The references of the collocated picture with count 4. -/
def biTable : ListX → Int → Int
  | .l0, _ => 0
  | .l1, refIdx => if refIdx = 1 then 0 else 2

/-- A slice with count 8, and all references before it. -/
def biHeader (i1LowDelayFlag : Bool) : MotionHeader where
  i1SliceType := .bslice
  i4AbsPicOrderCnt := 8
  i1SliceTemporalMvpEnableFlag := true
  i1CollocatedFromL0Flag := true
  i1CollocatedRefIdx := 0
  i1LowDelayFlag := i1LowDelayFlag
  i1NumRefIdxL0Active := 1
  i1NumRefIdxL1Active := 1

def biPuD : Decoder.Pu where
  b4PosX := 0
  b4PosY := 0
  b4Wd := 3
  b4Ht := 3
  b1IntraFlag := false
  b2PredMode := .predBi
  b1L0MvpIdx := 0
  b1L1MvpIdx := 0
  b3MergeIdx := 0
  mv := biMv

def biRefD : Decoder.RefPic where
  pvPicBuf := { i4AbsPoc := 4, i4PocLsb := 4, u1BufId := 0, u1UsedAsRef := shortTermRef }
  pvMvBuf :=
    { i4AbsPoc := 4
      pu4PicPuIdx := fun _ => 0
      pu1PicPuMap := fun _ => 0
      psPicPu := fun _ => biPuD
      pu1PicSliceMap := fun _ => 0
      ai4CollocatedPoc := fun lx _ => biTable lx
      ai1CollocatedPocLt := fun _ _ _ => shortTermRef }

def biDecoder (i1LowDelayFlag : Bool) : Decoder.MvCtxt where
  psSliceHdr :=
    { biHeader i1LowDelayFlag with
      asRefPicList0 := fun _ => biRefD
      asRefPicList1 := fun _ => biRefD }
  psSps := oneCtb
  i4CtbX := 0
  i4CtbY := 0
  i1Log2ParallelMergeLevel := 2

def biPuE : Encoder.Pu where
  b4PosX := 0
  b4PosY := 0
  b4Wd := 3
  b4Ht := 3
  mv := { biMv with i1L1RefIdx := 0 }

def biEncoder (i1LowDelayFlag : Bool) : Encoder.MvPredCtxt where
  psRefList := fun _ _ =>
    { i4Poc := 4
      pu1FrmPuMap := fun _ => 0
      psFrmColMv := fun _ => { b1IntraFlag := false, b2PredMode := .predBi, mv := biMv }
      ai4ColPoc := biTable }
  psSliceHdr := biHeader i1LowDelayFlag
  psSps := oneCtb
  i4CtbX := 0
  i4CtbY := 0
  i4Log2ParallelMergeLevelMinus2 := 0
  ai4TileXtraCtb := fun _ => 0

theorem bi_context (lowDelayD lowDelayE : Bool) :
    SameContext (biDecoder lowDelayD) (biEncoder lowDelayE) where
  sps := rfl
  ctbX := rfl
  ctbY := rfl
  slice :=
    { type := rfl
      poc := rfl
      temporal := rfl
      fromL0 := rfl
      refPoc := fun lx _ _ => by cases lx <;> rfl
      refShort := fun lx _ => by cases lx <;> exact (by decide : shortTermRef ≠ longTermRef) }
  picture :=
    { poc := rfl
      isPoc := (⟨by decide, by decide⟩ : IsPoc 4)
      unit := fun _ _ _ _ _ _ => ⟨rfl, rfl, fun _ _ => rfl, fun _ _ => rfl⟩
      table := fun _ _ _ _ _ _ => rfl
      tableShort := fun _ _ _ => (by decide : shortTermRef ≠ longTermRef)
      tableIsPoc := fun lx refIdx => by
        cases lx with
        | l0 => exact (⟨by decide, by decide⟩ : IsPoc 0)
        | l1 =>
          change IsPoc (if refIdx = 1 then 0 else 2)
          split <;> exact ⟨by decide, by decide⟩ }
  xtraRight := rfl
  xtraBottom := rfl

theorem bi_block : SameBlock oneCtb { biPuD with mv := biPuE.mv } biPuE 16 where
  posY := rfl
  inCtb := by decide
  xCol_le := by decide
  refIdx := fun _ _ => rfl

end Libhevc.RoundTrip
