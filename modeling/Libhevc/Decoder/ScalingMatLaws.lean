import Libhevc.Decoder.BitReader
import Libhevc.Decoder.ScalingMat
import Libhevc.Lib.Scatter
import Libhevc.Spec.ScalingList
import Mathlib.Tactic.IntervalCases

/-!
# The scaling matrices are the scaling factors

On the defaults, and for any conforming bit string, the array of
`ihevcd_scaling_list_data` holds the scaling factors of the syntax elements.
-/

namespace Libhevc.Decoder

open BitString Memory Spec.Scaling

-- ---------------------------------------------------------------------------
-- The bit string
-- ---------------------------------------------------------------------------

/-- The bits from `p` to `p'` are the syntax elements `l`, each read by its call. -/
def Spells (b : Nat → Bool) (p : Nat) (l : List (BitsCall × Int)) (p' : Nat) : Prop :=
  readRun b p (l.map Prod.fst) = (l.map fun e => some e.2, p')

instance : Decidable (Spells b p l p') := inferInstanceAs (Decidable (_ = _))

theorem Spells.cons :
    Spells b p ((call, v) :: l) p' ↔
      (call.read b p).1 = some v ∧ Spells b (call.read b p).2 l p' := by
  simp [Spells, readRun, Prod.ext_iff, and_assoc]

def listSpelling (sizeId : Nat) : ListElements → List (BitsCall × Int)
  | .pred delta => [(.get 1, 0), (.uev, delta)]
  | .coefs dcCoefMinus8 deltas =>
    (.get 1, 1) ::
      ((if 1 < sizeId then [(.sev, dcCoefMinus8)] else []) ++ deltas.map (BitsCall.sev, ·))

/-- The syntax elements of `scaling_list_data()` for the lists `l`. -/
def spelling (σ : Elements) (l : List (Nat × Nat)) : List (BitsCall × Int) :=
  l.flatMap fun q => listSpelling q.1 (σ q.1 q.2)

/-- The reader stands before the syntax elements `l` that end at `p'`. -/
def Bitstrm.Before (s : Bitstrm) (l : List (BitsCall × Int)) (p' : Nat) : Prop :=
  ∃ p, s.At p ∧ Spells s.bits p l p'

theorem Bitstrm.Before.exec {s : Bitstrm} (h : s.Before ((call, v) :: l) p')
    (hok : ∀ p, call.Ok p) : (call.exec s).1 = some v ∧ (call.exec s).2.Before l p' := by
  obtain ⟨p, hat, hspells⟩ := h
  obtain ⟨hval, hrest⟩ := Spells.cons.mp hspells
  obtain ⟨hout, hat'⟩ := exec_read hat (hok p)
  have hbits : (call.exec s).2.bits = s.bits := congrArg ofBytes (exec_frame s call).1
  exact ⟨hout.trans hval, _, hat', hbits ▸ hrest⟩

theorem Bitstrm.Before.sev {s : Bitstrm} (h : s.Before ((.sev, v) :: l) p') :
    (ihevcdSev s).1 = v ∧ (ihevcdSev s).2.Before l p' := by
  obtain ⟨hval, hrest⟩ := h.exec fun _ => trivial
  exact ⟨Option.some.inj hval, hrest⟩

theorem Bitstrm.Before.uev {s : Bitstrm} {v : Nat} (h : s.Before ((.uev, (v : Int)) :: l) p') :
    (ihevcdUev s).1 = v ∧ (ihevcdUev s).2.Before l p' := by
  obtain ⟨hval, hrest⟩ := h.exec fun _ => trivial
  exact ⟨Int.ofNat.inj (Option.some.inj hval), hrest⟩

theorem Bitstrm.Before.flag {s : Bitstrm} {v : Nat} (h : s.Before ((.get 1, (v : Int)) :: l) p') :
    (ihevcdBitsGet s 1).1 = v ∧ (ihevcdBitsGet s 1).2.Before l p' := by
  obtain ⟨hval, hrest⟩ := h.exec fun _ => ⟨Nat.one_pos, by decide⟩
  exact ⟨Int.ofNat.inj (Option.some.inj hval), hrest⟩

-- ---------------------------------------------------------------------------
-- The coefficients of one list
-- ---------------------------------------------------------------------------

theorem length_coefsFrom (nextCoef : Int) (deltas : List Int) :
    (coefsFrom nextCoef deltas).length = deltas.length := by
  induction deltas generalizing nextCoef with
  | nil => rfl
  | cons delta deltas ih => exact congrArg Nat.succ (ih _)

/-- Deltas in range are all read, and stored along the scan. -/
theorem deltaCoefs_eq {s : Bitstrm} (put : ScalingMat → Nat → Int → ScalingMat) (nextCoef : Int)
    (mat : ScalingMat) (h : s.Before (deltas.map (BitsCall.sev, ·) ++ l) p')
    (hlen : deltas.length = scanTable.length)
    (hdelta : ∀ delta ∈ deltas, -128 ≤ delta ∧ delta ≤ 127) (hnext : 0 ≤ nextCoef) :
    let r := deltaCoefs put scanTable nextCoef mat s
    r.1 = true ∧
      r.2.1 =
        (scanTable.zip (coefsFrom nextCoef deltas)).foldl (fun mat e => put mat e.1 e.2) mat ∧
      r.2.2.Before l p' := by
  induction deltas generalizing scanTable nextCoef mat s with
  | nil =>
    obtain rfl := List.eq_nil_of_length_eq_zero hlen.symm
    exact ⟨rfl, rfl, h⟩
  | cons delta deltas ih =>
    cases scanTable with
    | nil => cases hlen
    | cons pos scanTable =>
      obtain ⟨hval, hrest⟩ := h.sev
      obtain ⟨hlo, hhi⟩ := hdelta delta (List.mem_cons_self ..)
      have hmod : (nextCoef + delta + 256).tmod 256 = (nextCoef + delta + 256) % 256 :=
        Int.tmod_eq_emod_of_nonneg (by omega)
      simp only [deltaCoefs, hval]
      rw [if_neg (by omega), hmod]
      exact ih _ _ hrest (Nat.succ.inj hlen)
        (fun d hd => hdelta d (List.mem_cons_of_mem _ hd)) (Int.emod_nonneg _ (by decide))

-- ---------------------------------------------------------------------------
-- The cells of a coefficient
-- ---------------------------------------------------------------------------

/-- The position in the scan table of the coefficient at index `i` of a matrix. -/
def cellPos (sizeId i : Nat) : Nat :=
  i / matSize sizeId / ratio sizeId * blkSize sizeId + i % matSize sizeId / ratio sizeId

/-- The position an address belongs to, for the matrix at `base`. -/
def cellOf (sizeId base a : Nat) : Option Nat :=
  if base ≤ a ∧ a < base + matSize sizeId * matSize sizeId then some (cellPos sizeId (a - base))
  else none

theorem offset16x16_eq (pos : Nat) : offset16x16 pos = pos / 8 * 32 + pos % 8 * 2 := by
  have hand : pos &&& 0x7 = pos % 8 := Nat.and_two_pow_sub_one_eq_mod pos 3
  rw [offset16x16, hand, Nat.shiftRight_eq_div_pow]
  omega

theorem offset32x32_eq (pos : Nat) : offset32x32 pos = pos / 8 * 128 + pos % 8 * 4 := by
  have hand : pos &&& 0x7 = pos % 8 := Nat.and_two_pow_sub_one_eq_mod pos 3
  rw [offset32x32, hand, Nat.shiftRight_eq_div_pow]
  omega

theorem putCoef_cells (hsize : sizeId < 2) (hpos : pos < blkSize sizeId * blkSize sizeId) :
    putCoef base mat pos v a = if cellOf sizeId base a = some pos then v else mat a := by
  have hiff : cellOf sizeId base a = some pos ↔ a = base + pos := by
    obtain rfl | rfl : sizeId = 0 ∨ sizeId = 1 := by omega
    all_goals
      simp only [cellOf, cellPos, matSize, blkSize, ratio] at *
      norm_num at *
      omega
  simp only [putCoef, Memory.set, hiff]

theorem putCoef16x16_cells (hpos : pos < blkSize 2 * blkSize 2) :
    putCoef16x16 base mat pos v a = if cellOf 2 base a = some pos then v else mat a := by
  change pos < 64 at hpos
  have hiff : cellOf 2 base a = some pos ↔
      a = base + offset16x16 pos + 16 + 1 ∨ a = base + offset16x16 pos + 16 ∨
        a = base + offset16x16 pos + 1 ∨ a = base + offset16x16 pos := by
    rw [offset16x16_eq]
    simp only [cellOf, cellPos, matSize, blkSize, ratio]
    norm_num
    omega
  simp only [putCoef16x16, Memory.set, hiff]
  grind

theorem put4_apply : put4 mat k v a = if k ≤ a ∧ a < k + 4 then v else mat a := by
  simp only [put4, Memory.set]
  grind

theorem putCoef32x32_cells (hpos : pos < blkSize 3 * blkSize 3) :
    putCoef32x32 base mat pos v a = if cellOf 3 base a = some pos then v else mat a := by
  change pos < 64 at hpos
  have hiff : cellOf 3 base a = some pos ↔
      (base + offset32x32 pos + 3 * 32 ≤ a ∧ a < base + offset32x32 pos + 3 * 32 + 4) ∨
        (base + offset32x32 pos + 2 * 32 ≤ a ∧ a < base + offset32x32 pos + 2 * 32 + 4) ∨
        (base + offset32x32 pos + 1 * 32 ≤ a ∧ a < base + offset32x32 pos + 1 * 32 + 4) ∨
        (base + offset32x32 pos + 0 * 32 ≤ a ∧ a < base + offset32x32 pos + 0 * 32 + 4) := by
    rw [offset32x32_eq]
    simp only [cellOf, cellPos, matSize, blkSize, ratio]
    norm_num
    omega
  rw [putCoef32x32, show List.range 4 = [0, 1, 2, 3] from rfl]
  simp only [List.foldl_cons, List.foldl_nil, put4_apply, hiff]
  grind

-- ---------------------------------------------------------------------------
-- The scan tables
-- ---------------------------------------------------------------------------

/-- The scan table of a list. -/
def listScan (sizeId : Nat) : List Nat := gapvIhevcInvscan (if sizeId = 0 then 1 else 2)

/-- The positions of a scan table are those of a block, each once, in the order of the scan. -/
def IsScan (scan : List Nat) (blk : Nat) : Prop :=
  scan.Nodup ∧ scan.length = blk * blk ∧ (∀ pos ∈ scan, pos < blk * blk) ∧
    ∀ y < blk, ∀ x < blk,
      y * blk + x ∈ scan ∧ scan.idxOf (y * blk + x) = (scanOrder blk).idxOf (x, y)

instance : Decidable (IsScan scan blk) := inferInstanceAs (Decidable (_ ∧ _ ∧ _ ∧ _))

theorem listScan_facts (sizeId : Nat) : IsScan (listScan sizeId) (blkSize sizeId) := by
  have htables : IsScan gau1IhevcInvscan4x4 4 ∧ IsScan gau1IhevcInvscan8x8 8 := by
    decide
  unfold listScan blkSize
  split
  · exact htables.1
  · exact htables.2

theorem ratio_pos (sizeId : Nat) : 0 < ratio sizeId := Nat.two_pow_pos _

theorem matSize_pos (sizeId : Nat) : 0 < matSize sizeId := by
  refine Nat.mul_pos ?_ (ratio_pos sizeId)
  unfold blkSize
  split <;> decide

/-- The column and the row of the block with the cell of index `i`. -/
theorem cell_lt (hi : i < matSize sizeId * matSize sizeId) :
    i / matSize sizeId / ratio sizeId < blkSize sizeId ∧
      i % matSize sizeId / ratio sizeId < blkSize sizeId := by
  have hrow : i / matSize sizeId < matSize sizeId := Nat.div_lt_of_lt_mul hi
  have hcol : i % matSize sizeId < matSize sizeId := Nat.mod_lt _ (matSize_pos sizeId)
  exact ⟨Nat.div_lt_of_lt_mul (Nat.mul_comm .. ▸ hrow),
    Nat.div_lt_of_lt_mul (Nat.mul_comm .. ▸ hcol)⟩

/-- The cell at index `i` holds the coefficient that the scan has for it. -/
theorem scatter_cell {put : ScalingMat → Nat → Int → ScalingMat} (mat : ScalingMat) (vs : List Int)
    (hput : ∀ pos < blkSize sizeId * blkSize sizeId, ∀ m v,
      put m pos v (base + i) = if cellOf sizeId base (base + i) = some pos then v else m (base + i))
    (hvs : vs.length = blkSize sizeId * blkSize sizeId)
    (hi : i < matSize sizeId * matSize sizeId) :
    ((listScan sizeId).zip vs).foldl (fun m e => put m e.1 e.2) mat (base + i) =
      vs.getD ((scanOrder (blkSize sizeId)).idxOf
        (i % matSize sizeId / ratio sizeId, i / matSize sizeId / ratio sizeId)) 0 := by
  obtain ⟨hnodup, hlen, hlt, hscan⟩ := listScan_facts sizeId
  obtain ⟨hrow, hcol⟩ := cell_lt hi
  obtain ⟨hmem, hidx⟩ := hscan _ hrow _ hcol
  have hcell : cellOf sizeId base (base + i) = some (cellPos sizeId i) := by
    rw [cellOf, if_pos ⟨by omega, by omega⟩, Nat.add_sub_cancel_left]
  rw [← hidx]
  exact scatter_apply _ vs mat 0 (fun pos hpos => hput pos (hlt pos hpos)) hnodup
    (hvs.trans hlen.symm) hcell hmem

theorem scatter_frame {put : ScalingMat → Nat → Int → ScalingMat} (mat : ScalingMat)
    (vs : List Int)
    (hput : ∀ pos < blkSize sizeId * blkSize sizeId, ∀ m v,
      put m pos v a = if cellOf sizeId base a = some pos then v else m a)
    (ha : a < base ∨ base + matSize sizeId * matSize sizeId ≤ a) :
    ((listScan sizeId).zip vs).foldl (fun m e => put m e.1 e.2) mat a = mat a := by
  obtain ⟨-, -, hlt, -⟩ := listScan_facts sizeId
  have hcell : cellOf sizeId base a = none := if_neg (by omega)
  refine scatter_outside _ vs mat (fun pos hpos => hput pos (hlt pos hpos)) fun pos _ => ?_
  rw [hcell]
  exact fun h => nomatch h

-- ---------------------------------------------------------------------------
-- One list
-- ---------------------------------------------------------------------------

/-- The matrix at `base` has the factors of the list, row by row. -/
def HoldsList (mat : ScalingMat) (sizeId base : Nat) (l : ScalingList) : Prop :=
  ∀ i < matSize sizeId * matSize sizeId,
    mat (base + i) = l.factor sizeId (i % matSize sizeId) (i / matSize sizeId)

/-- Nothing but the matrix at `base` differs. -/
def SameOutside (sizeId base : Nat) (mat mat' : ScalingMat) : Prop :=
  ∀ a, a < base ∨ base + matSize sizeId * matSize sizeId ≤ a → mat' a = mat a

/-- Only the first cell is in the first column and the first row. -/
theorem corner_iff : i % matSize sizeId = 0 ∧ i / matSize sizeId = 0 ↔ i = 0 := by
  constructor
  · rintro ⟨hmod, hdiv⟩
    rw [← Nat.div_add_mod i (matSize sizeId), hmod, hdiv]
    rfl
  · rintro rfl
    simp

/-- The array after the coefficients of a list are stored, and its `dc` where it has one. -/
theorem holdsList_of_cells {mat' : ScalingMat}
    (hcoef : ∀ i < matSize sizeId * matSize sizeId, ¬ (1 < sizeId ∧ i = 0) →
      mat' (base + i) = coef.getD ((scanOrder (blkSize sizeId)).idxOf
        (i % matSize sizeId / ratio sizeId, i / matSize sizeId / ratio sizeId)) 0)
    (hdc : 1 < sizeId → mat' base = dc) : HoldsList mat' sizeId base ⟨coef, dc⟩ := by
  intro i hi
  unfold ScalingList.factor
  split
  case isTrue h =>
    obtain rfl := corner_iff.mp h.2
    exact hdc h.1
  case isFalse h =>
    exact hcoef i hi fun hcorner => h ⟨hcorner.1, corner_iff.mpr hcorner.2⟩

/-- Where the coefficients are stored by `put`, and the first cell is the `dc` of a list that has
one, the array has the factors of the list. -/
theorem stored_list (put : ScalingMat → Nat → Int → ScalingMat) (base : Nat) (dc : Int)
    {mat mat' : ScalingMat}
    (hput : ∀ a, (1 < sizeId → a ≠ base) → ∀ pos < blkSize sizeId * blkSize sizeId, ∀ m v,
      put m pos v a = if cellOf sizeId base a = some pos then v else m a)
    (hcoef : coef.length = blkSize sizeId * blkSize sizeId)
    (hmat : ∀ a, (1 < sizeId → a ≠ base) →
      mat' a = ((listScan sizeId).zip coef).foldl (fun m e => put m e.1 e.2) mat a)
    (hdc : 1 < sizeId → mat' base = dc) :
    HoldsList mat' sizeId base ⟨coef, dc⟩ ∧ SameOutside sizeId base mat mat' := by
  have hpos := Nat.mul_pos (matSize_pos sizeId) (matSize_pos sizeId)
  refine ⟨holdsList_of_cells (fun i hi hcorner => ?_) hdc, fun a ha => ?_⟩
  · have hne : 1 < sizeId → base + i ≠ base := fun h heq => hcorner ⟨h, by omega⟩
    rw [hmat _ hne]
    exact scatter_cell mat coef (hput _ hne) hcoef hi
  · have hne : 1 < sizeId → a ≠ base := fun _ => by omega
    rw [hmat _ hne]
    exact scatter_frame mat coef (hput _ hne) ha

/-- A list is read to its end and has left its factors, in its own matrix only. -/
def ListDone (sizeId base : Nat) (l : ScalingList) (mat : ScalingMat)
    (rest : List (BitsCall × Int)) (p' : Nat) (r : Bool × ScalingMat × Bitstrm) : Prop :=
  r.1 = true ∧ HoldsList r.2.1 sizeId base l ∧ SameOutside sizeId base mat r.2.1 ∧
    r.2.2.Before rest p'

theorem explicitList_small {s : Bitstrm} (mat : ScalingMat) (hsize : sizeId < 2)
    (h : s.Before (deltas.map (BitsCall.sev, ·) ++ l) p') (hlen : deltas.length = coefNum sizeId)
    (hdelta : ∀ delta ∈ deltas, -128 ≤ delta ∧ delta ≤ 127) :
    ListDone sizeId base ⟨coefsFrom 8 deltas, dc⟩ mat l p'
      (explicitList sizeId base mat s) := by
  have hnot : ¬ 1 < sizeId := by omega
  have hscan : (gapvIhevcInvscan (sizeId + 1)).take (min 64 (1 <<< (4 + sizeId <<< 1))) =
      listScan sizeId := by
    obtain rfl | rfl : sizeId = 0 ∨ sizeId = 1 := by omega
    all_goals rfl
  have hnum : deltas.length = blkSize sizeId * blkSize sizeId := by
    rw [hlen]
    obtain rfl | rfl : sizeId = 0 ∨ sizeId = 1 := by omega
    all_goals rfl
  obtain ⟨hok, hmat, hrest⟩ := deltaCoefs_eq (putCoef base) 8 mat h
    (hnum.trans (listScan_facts sizeId).2.1.symm) hdelta (by decide)
  rw [explicitList, if_neg hnot, hscan]
  obtain ⟨hlist, hsame⟩ := stored_list (putCoef base) base dc
    (fun a _ pos hpos m v => putCoef_cells hsize hpos)
    ((length_coefsFrom 8 deltas).trans hnum) (fun a _ => congrFun hmat a) fun h => absurd h hnot
  exact ⟨hok, hlist, hsame, hrest⟩

theorem explicitList_two {s : Bitstrm} (mat : ScalingMat)
    (h : s.Before ((.sev, dcCoefMinus8) :: (deltas.map (BitsCall.sev, ·) ++ l)) p')
    (hdc : -7 ≤ dcCoefMinus8 ∧ dcCoefMinus8 ≤ 247) (hlen : deltas.length = coefNum 2)
    (hdelta : ∀ delta ∈ deltas, -128 ≤ delta ∧ delta ≤ 127) :
    ListDone 2 base ⟨coefsFrom (dcCoefMinus8 + 8) deltas, dcCoefMinus8 + 8⟩ mat l p'
      (explicitList 2 base mat s) := by
  obtain ⟨hval, hrest⟩ := h.sev
  obtain ⟨hok, hmat, hrest⟩ := deltaCoefs_eq (putCoef16x16 base) (dcCoefMinus8 + 8) mat hrest
    (hlen.trans (listScan_facts 2).2.1.symm) hdelta (by omega)
  have hrange : ¬ (dcCoefMinus8 < -7 ∨ 247 < dcCoefMinus8) := by omega
  have hscan : (gapvIhevcInvscan 2).take (min 64 (1 <<< (4 + 2 <<< 1))) = listScan 2 := rfl
  have hcoef := (length_coefsFrom (dcCoefMinus8 + 8) deltas).trans hlen
  rw [explicitList, if_pos (by decide)]
  simp only [hval]
  rw [if_neg hrange, hscan, if_pos trivial, hok, if_pos rfl]
  obtain ⟨hlist, hsame⟩ := stored_list (putCoef16x16 base) base (dcCoefMinus8 + 8)
    (fun a _ pos hpos m v => putCoef16x16_cells hpos) hcoef
    (fun a ha => (set_ne (ha (by decide))).trans (congrFun hmat a)) fun _ => set_same
  exact ⟨rfl, hlist, hsame, hrest⟩

theorem explicitList_three {s : Bitstrm} (mat : ScalingMat)
    (h : s.Before ((.sev, dcCoefMinus8) :: (deltas.map (BitsCall.sev, ·) ++ l)) p')
    (hdc : -7 ≤ dcCoefMinus8 ∧ dcCoefMinus8 ≤ 247) (hlen : deltas.length = coefNum 3)
    (hdelta : ∀ delta ∈ deltas, -128 ≤ delta ∧ delta ≤ 127) :
    ListDone 3 base ⟨coefsFrom (dcCoefMinus8 + 8) deltas, dcCoefMinus8 + 8⟩ mat l p'
      (explicitList 3 base mat s) := by
  obtain ⟨hval, hrest⟩ := h.sev
  obtain ⟨hok, hmat, hrest⟩ := deltaCoefs_eq
    (fun mat pos nextCoef => set (putCoef32x32 base mat pos nextCoef) base (dcCoefMinus8 + 8))
    (dcCoefMinus8 + 8) mat hrest (hlen.trans (listScan_facts 3).2.1.symm) hdelta (by omega)
  have hrange : ¬ (dcCoefMinus8 < -7 ∨ 247 < dcCoefMinus8) := by omega
  have hscan : (gapvIhevcInvscan 2).take (min 64 (1 <<< (4 + 3 <<< 1))) = listScan 3 := rfl
  have hcoef := (length_coefsFrom (dcCoefMinus8 + 8) deltas).trans hlen
  -- The `dc` is stored anew behind every coefficient.
  have hcorner : (listScan 3).zip (coefsFrom (dcCoefMinus8 + 8) deltas) ≠ [] := by
    intro hnil
    have hzip := congrArg List.length hnil
    rw [List.length_zip, (listScan_facts 3).2.1, hcoef] at hzip
    exact absurd hzip (by decide)
  rw [explicitList, if_pos (by decide)]
  simp only [hval]
  rw [if_neg hrange, hscan, if_neg (by decide)]
  obtain ⟨hlist, hsame⟩ := stored_list
    (fun mat pos nextCoef => set (putCoef32x32 base mat pos nextCoef) base (dcCoefMinus8 + 8)) base
    (dcCoefMinus8 + 8)
    (fun a ha pos hpos m v => (set_ne (ha (by decide))).trans (putCoef32x32_cells hpos)) hcoef
    (fun a _ => congrFun hmat a)
    fun _ => (congrFun hmat base).trans (scatter_last _ _ mat (fun m e => set_same) hcorner)
  exact ⟨hok, hlist, hsame, hrest⟩

-- ---------------------------------------------------------------------------
-- The places of the matrices
-- ---------------------------------------------------------------------------

/-- The address of the matrix. -/
def matBase (q : Nat × Nat) : Nat := scalingMatOffset (q.1 * 6 + q.2)

def matCells (sizeId : Nat) : Nat := matSize sizeId * matSize sizeId

/-- The matrices stand one behind the other, those of a size at the same distance. -/
theorem matBase_places :
    (∀ s < 4, ∀ m < 6, ∀ s' < 4, ∀ m' < 6, s * 6 + m < s' * 6 + m' →
      matBase (s, m) + matCells s ≤ matBase (s', m')) ∧
    (∀ s < 4, ∀ m < 6, ∀ d ≤ m,
      matBase (s, m) - d * 1 <<< (4 + s <<< 1) = matBase (s, m - d)) ∧
    ∀ s < 4, 1 <<< (4 + s <<< 1) = matCells s := by
  decide

theorem matBase_le (hq : q.1 < 4 ∧ q.2 < 6) (hq' : q'.1 < 4 ∧ q'.2 < 6)
    (hlt : q.1 * 6 + q.2 < q'.1 * 6 + q'.2) : matBase q + matCells q.1 ≤ matBase q' :=
  matBase_places.1 _ hq.1 _ hq.2 _ hq'.1 _ hq'.2 hlt

/-- Two matrices have no cell in common. -/
theorem matBase_disjoint (hq : q.1 < 4 ∧ q.2 < 6) (hq' : q'.1 < 4 ∧ q'.2 < 6) (hne : q ≠ q') :
    matBase q + matCells q.1 ≤ matBase q' ∨ matBase q' + matCells q'.1 ≤ matBase q := by
  rcases Nat.lt_trichotomy (q.1 * 6 + q.2) (q'.1 * 6 + q'.2) with hlt | heq | hgt
  · exact .inl (matBase_le hq hq' hlt)
  · exact absurd (Prod.ext (by omega) (by omega)) hne
  · exact .inr (matBase_le hq' hq hgt)

theorem HoldsList.congr {mat mat' : ScalingMat} (h : HoldsList mat sizeId base l)
    (hsame : ∀ i < matCells sizeId, mat' (base + i) = mat (base + i)) :
    HoldsList mat' sizeId base l :=
  fun i hi => (hsame i hi).trans (h i hi)

/-- A list stored in one matrix leaves the other matrices. -/
theorem SameOutside.holdsList {mat mat' : ScalingMat} (h : SameOutside q.1 (matBase q) mat mat')
    (hq : q.1 < 4 ∧ q.2 < 6) (hq' : q'.1 < 4 ∧ q'.2 < 6) (hne : q ≠ q')
    (hlist : HoldsList mat q'.1 (matBase q') l) : HoldsList mat' q'.1 (matBase q') l := by
  have hdisj := matBase_disjoint hq hq' hne
  refine hlist.congr fun i hi => h _ ?_
  unfold matCells at hdisj hi
  omega

-- ---------------------------------------------------------------------------
-- The defaults
-- ---------------------------------------------------------------------------

def intraTable : Nat → List Int
  | 0 => List.replicate 16 16
  | 1 => gi2IntraDefaultScaleMat8x8
  | 2 => gi2IntraDefaultScaleMat16x16
  | _ => gi2IntraDefaultScaleMat32x32

def interTable : Nat → List Int
  | 0 => List.replicate 16 16
  | 1 => gi2InterDefaultScaleMat8x8
  | 2 => gi2InterDefaultScaleMat16x16
  | _ => gi2InterDefaultScaleMat32x32

/-- The table that the defaults of a matrix are copied from. -/
def defaultTable (sizeId matrixId : Nat) : List Int :=
  if matrixId < 3 then intraTable sizeId else interTable sizeId

/-- The tables and lists are of two kinds. -/
theorem default_kind (matrixId : Nat) :
    ∃ m ∈ [0, 3], (∀ s, defaultTable s matrixId = defaultTable s m) ∧
      ∀ s, defaultList s matrixId = defaultList s m := by
  by_cases h : matrixId < 3
  · exact ⟨0, by simp, by simp [defaultTable, h], by simp [defaultList, h]⟩
  · exact ⟨3, by simp, by simp [defaultTable, h], by simp [defaultList, h]⟩

/-- The tables of the larger matrices repeat the entries of the 8x8 ones, which are the default
lists in rows; the first entry of a list is its `dc`. -/
theorem default_facts : ∀ m ∈ [0, 3],
    (∀ s ∈ [1, 2, 3], defaultTable s m =
      (List.range (matCells s)).map fun i => (defaultTable 1 m).getD
        (i / matSize s / ratio s * 8 + i % matSize s / ratio s) 0) ∧
    (∀ y < 8, ∀ x < 8,
      (defaultList 1 m).coef.getD ((scanOrder 8).idxOf (x, y)) 0 =
        (defaultTable 1 m).getD (y * 8 + x) 0) ∧
    (∀ i < 16, (defaultTable 0 m).getD i 0 =
      (defaultList 0 m).coef.getD ((scanOrder 4).idxOf (i % 4 / 1, i / 4 / 1)) 0) ∧
    (defaultList 0 m).coef.getD ((scanOrder 4).idxOf (0, 0)) 0 = 16 ∧
    (defaultList 1 m).coef.getD ((scanOrder 8).idxOf (0, 0)) 0 = 16 := by
  decide +kernel

theorem defaultTable_rows (hsize : 0 < sizeId ∧ sizeId < 4) :
    defaultTable sizeId matrixId =
      (List.range (matCells sizeId)).map fun i => (defaultTable 1 matrixId).getD
        (i / matSize sizeId / ratio sizeId * 8 + i % matSize sizeId / ratio sizeId) 0 := by
  obtain ⟨m, hm, htable, -⟩ := default_kind matrixId
  have hmem : sizeId ∈ [1, 2, 3] := by
    have hcases : sizeId = 1 ∨ sizeId = 2 ∨ sizeId = 3 := by omega
    simpa using hcases
  rw [htable, htable]
  exact (default_facts m hm).1 sizeId hmem

theorem defaultList_eq (hsize : sizeId ≠ 0) (matrixId : Nat) :
    defaultList sizeId matrixId = defaultList 1 matrixId := by
  unfold defaultList
  rw [if_neg hsize, if_neg Nat.one_ne_zero]

theorem defaultList_corner (sizeId matrixId : Nat) :
    (defaultList sizeId matrixId).coef.getD ((scanOrder (blkSize sizeId)).idxOf (0, 0)) 0 =
      (defaultList sizeId matrixId).dc := by
  obtain ⟨m, hm, -, hlist⟩ := default_kind matrixId
  obtain ⟨-, -, -, hfour, height⟩ := default_facts m hm
  by_cases hzero : sizeId = 0
  · subst hzero
    rw [hlist]
    exact hfour
  · have hblk : blkSize sizeId = 8 := if_neg hzero
    rw [hblk, defaultList_eq hzero, hlist]
    exact height

theorem defaultList_factor (sizeId matrixId x y : Nat) :
    (defaultList sizeId matrixId).factor sizeId x y =
      (defaultList sizeId matrixId).coef.getD
        ((scanOrder (blkSize sizeId)).idxOf (x / ratio sizeId, y / ratio sizeId)) 0 := by
  unfold ScalingList.factor
  split
  case isTrue h =>
    obtain ⟨-, rfl, rfl⟩ := h
    rw [Nat.zero_div]
    exact (defaultList_corner sizeId matrixId).symm
  case isFalse h => rfl

theorem defaultTable_factor (hsize : sizeId < 4) (hi : i < matCells sizeId) :
    (defaultTable sizeId matrixId).getD i 0 =
      (defaultList sizeId matrixId).factor sizeId (i % matSize sizeId) (i / matSize sizeId) := by
  rw [defaultList_factor]
  obtain ⟨m, hm, htable, hlist⟩ := default_kind matrixId
  obtain ⟨-, hscan, hsmall, -, -⟩ := default_facts m hm
  obtain ⟨hrow, hcol⟩ := cell_lt hi
  by_cases hzero : sizeId = 0
  · subst hzero
    rw [htable, hlist]
    exact hsmall i hi
  · have hblk : blkSize sizeId = 8 := if_neg hzero
    rw [hblk] at hrow hcol ⊢
    rw [defaultList_eq hzero, hlist, hscan _ hrow _ hcol,
      defaultTable_rows ⟨Nat.pos_of_ne_zero hzero, hsize⟩, htable]
    simp [hi]

/-- On the defaults every matrix has the factors of its default list. -/
theorem copyDefault_holdsList (mat : ScalingMat) (hq : q.1 < 4 ∧ q.2 < 6) :
    HoldsList (copyDefaultScalingList mat) q.1 (matBase q) (defaultList q.1 q.2) := by
  have hsorted : defaultCopies.Pairwise fun c c' => c.1 + c.2.length ≤ c'.1 := by
    decide +kernel
  intro i hi
  rw [← defaultTable_factor hq.1 hi]
  obtain ⟨sizeId, matrixId⟩ := q
  obtain ⟨hsize, hid⟩ := hq
  change i < matCells sizeId at hi
  by_cases hzero : sizeId = 0
  · subst hzero
    have hmem : (0, gi2FlatScaleMat32x32.take (6 * 16)) ∈ defaultCopies := List.mem_cons_self ..
    have hbase : ∀ m < 6, matBase (0, m) = 16 * m := by decide
    have hflat : gi2FlatScaleMat32x32.take (6 * 16) = List.replicate 96 16 := by
      rw [gi2FlatScaleMat32x32, List.take_replicate]
      rfl
    have hi16 : i < 16 := hi
    have hcopy := copies_apply defaultCopies mat 0 hsorted hmem (i := 16 * matrixId + i)
      (by rw [hflat, List.length_replicate]; omega)
    rw [Nat.zero_add, hflat] at hcopy
    rw [hbase matrixId hid]
    refine hcopy.trans ?_
    rw [List.getD_replicate _ (by omega)]
    unfold defaultTable
    split
    · exact (List.getD_replicate _ hi16).symm
    · exact (List.getD_replicate _ hi16).symm
  · have hall : ∀ s < 4, ∀ m < 6, s ≠ 0 →
        defaultCopies[s * 6 + m - 5]? = some (matBase (s, m), defaultTable s m) := by
      intro s hs m hm hne
      interval_cases s
      · exact absurd rfl hne
      all_goals interval_cases m <;> rfl
    have hmem := List.mem_of_getElem? (hall sizeId hsize matrixId hid hzero)
    have hlen : (defaultTable sizeId matrixId).length = matCells sizeId := by
      rw [defaultTable_rows ⟨Nat.pos_of_ne_zero hzero, hsize⟩]
      simp
    exact copies_apply defaultCopies mat 0 hsorted hmem (hlen.symm ▸ hi)

-- ---------------------------------------------------------------------------
-- All lists
-- ---------------------------------------------------------------------------

theorem mem_order : q ∈ order ↔ q.1 < 4 ∧ q.2 < 6 ∧ (q.1 = 3 → q.2 % 3 = 0) := by
  constructor
  · have hall : ∀ q ∈ order, q.1 < 4 ∧ q.2 < 6 ∧ (q.1 = 3 → q.2 % 3 = 0) := by decide
    exact hall q
  · have hall : ∀ s < 4, ∀ m < 6, (s, m) ∈ order ∨ s = 3 ∧ ¬ m % 3 = 0 := by decide
    rintro ⟨hsize, hid, hthree⟩
    exact (hall _ hsize _ hid).resolve_right fun h => h.2 (hthree h.1)

/-- A predicted list has the factors of the default list, or of the list it is copied from. -/
theorem predList_done {σ : Elements} {delta : Nat} {s : Bitstrm} {mat : ScalingMat} (hq : q ∈ order)
    (h : s.Before ((.uev, (delta : Int)) :: l) p')
    (hconf : delta * matrixStep q.1 ≤ q.2)
    (hdefault : HoldsList mat q.1 (matBase q) (defaultList q.1 q.2))
    (hdone : 0 < delta * matrixStep q.1 → HoldsList mat q.1
      (matBase (q.1, q.2 - delta * matrixStep q.1))
      (listOf σ q.1 (q.2 - delta * matrixStep q.1)))
    (helem : σ q.1 q.2 = .pred delta) :
    ListDone q.1 (matBase q) (listOf σ q.1 q.2) mat l p'
      (predList q.1 q.2 (matBase q) mat s) := by
  obtain ⟨hsize, hid, -⟩ := mem_order.mp hq
  obtain ⟨hval, hrest⟩ := h.uev
  have hstep : matrixStep q.1 = if q.1 = 3 then 3 else 1 := rfl
  have hbound : ¬ if q.1 ≤ 2 then q.2 < delta else q.2 / 3 < delta := by
    rw [hstep] at hconf
    split at hconf <;> split <;> omega
  rw [listOf, helem]
  simp only [predList, hval]
  rw [if_neg hbound, ← hstep, matBase_places.2.1 _ hsize _ hid _ hconf,
    matBase_places.2.2 _ hsize]
  by_cases hzero : delta = 0
  · have hnot : ¬ (0 < delta * matrixStep q.1 ∧ delta * matrixStep q.1 ≤ q.2) := by
      rw [hzero, Nat.zero_mul]
      exact fun h => absurd h.1 (Nat.lt_irrefl 0)
    rw [if_neg (not_not.mpr hzero), if_neg hnot]
    exact ⟨rfl, hdefault, fun _ _ => rfl, hrest⟩
  · have hpos : 0 < delta * matrixStep q.1 := by
      refine Nat.mul_pos (Nat.pos_of_ne_zero hzero) ?_
      rw [hstep]
      split <;> decide
    have hlen : (cells mat (matBase (q.1, q.2 - delta * matrixStep q.1))
        (matCells q.1)).length = matCells q.1 := by
      simp [cells]
    rw [if_pos hzero, if_pos ⟨hpos, hconf⟩]
    refine ⟨rfl, fun i hi => ?_, fun a ha => copy_outside ?_, hrest⟩
    · exact (copy_cells_apply hi).trans (hdone hpos i hi)
    · rw [hlen]
      exact ha

/-- An explicit list, of any size. -/
theorem explicitList_done {σ : Elements} {s : Bitstrm} (mat : ScalingMat) (hsize : sizeId < 4)
    (h : s.Before ((if 1 < sizeId then [(.sev, dcCoefMinus8)] else []) ++
      (deltas.map (BitsCall.sev, ·) ++ l)) p')
    (hconf : (ListElements.coefs dcCoefMinus8 deltas).Conforms sizeId matrixId)
    (helem : σ sizeId matrixId = .coefs dcCoefMinus8 deltas) :
    ListDone sizeId base (listOf σ sizeId matrixId) mat l p'
      (explicitList sizeId base mat s) := by
  obtain ⟨hlen, hdelta, hdc⟩ := hconf
  rw [listOf, helem]
  obtain hsmall | rfl | rfl : sizeId < 2 ∨ sizeId = 2 ∨ sizeId = 3 := by omega
  · have hnot : ¬ 1 < sizeId := Nat.not_lt.mpr (Nat.le_of_lt_succ hsmall)
    rw [if_neg hnot] at h
    simp only [if_neg hnot]
    exact explicitList_small mat hsmall h hlen hdelta
  · exact explicitList_two mat h (hdc (by decide)) hlen hdelta
  · exact explicitList_three mat h (hdc (by decide)) hlen hdelta

/-- One list, where its matrix has the defaults and the matrices before it are done. -/
theorem scalingListMat_done {σ : Elements} {s : Bitstrm} {mat : ScalingMat} (hq : q ∈ order)
    (hconf : (σ q.1 q.2).Conforms q.1 q.2)
    (h : s.Before (listSpelling q.1 (σ q.1 q.2) ++ l) p')
    (hdefault : HoldsList mat q.1 (matBase q) (defaultList q.1 q.2))
    (hdone : ∀ q' ∈ order, q'.1 * 6 + q'.2 < q.1 * 6 + q.2 →
      HoldsList mat q'.1 (matBase q') (listOf σ q'.1 q'.2)) :
    ListDone q.1 (matBase q) (listOf σ q.1 q.2) mat l p'
      (scalingListMat q.1 q.2 mat s) := by
  obtain ⟨hsize, hid, hthree⟩ := mem_order.mp hq
  unfold scalingListMat
  cases helem : σ q.1 q.2 with
  | pred delta =>
    rw [helem] at h hconf
    obtain ⟨hflag, hrest⟩ := Bitstrm.Before.flag (v := 0) h
    simp only [hflag]
    refine predList_done hq hrest hconf hdefault (fun hpos => ?_) helem
    change delta * matrixStep q.1 ≤ q.2 at hconf
    refine hdone (q.1, q.2 - delta * matrixStep q.1) ?_ (by simp only; omega)
    refine mem_order.mpr ⟨hsize, by simp only; omega, fun heq => ?_⟩
    have hmod := hthree heq
    have hstep : matrixStep q.1 = 3 := if_pos heq
    simp only [hstep] at hpos hconf ⊢
    omega
  | coefs dcCoefMinus8 deltas =>
    rw [helem] at h hconf
    simp only [listSpelling, List.cons_append, List.append_assoc] at h
    obtain ⟨hflag, hrest⟩ := Bitstrm.Before.flag (v := 1) h
    simp only [hflag]
    exact explicitList_done mat hsize hrest hconf helem

/-- The lists `l`, which have the defaults before, when all the others are done. -/
theorem scalingListMats_done {σ : Elements} {s : Bitstrm} {mat : ScalingMat} (l : List (Nat × Nat))
    (hsub : ∀ q ∈ l, q ∈ order)
    (hsorted : l.Pairwise fun q q' => q.1 * 6 + q.2 < q'.1 * 6 + q'.2)
    (hconf : Conforms σ) (h : s.Before (spelling σ l) p')
    (hdefault : ∀ q ∈ l, HoldsList mat q.1 (matBase q) (defaultList q.1 q.2))
    (hdone : ∀ q ∈ order, q ∉ l → HoldsList mat q.1 (matBase q) (listOf σ q.1 q.2)) :
    let r := scalingListMats l mat s
    r.1 = true ∧ (∀ q ∈ order, HoldsList r.2.1 q.1 (matBase q) (listOf σ q.1 q.2)) ∧
      r.2.2.Before [] p' := by
  induction l generalizing mat s with
  | nil => exact ⟨rfl, fun q hq => hdone q hq List.not_mem_nil, h⟩
  | cons q l ih =>
    obtain ⟨hlater, hsorted⟩ := List.pairwise_cons.mp hsorted
    have hq := hsub q (List.mem_cons_self ..)
    obtain ⟨hsize, hid, -⟩ := mem_order.mp hq
    have hhead := scalingListMat_done hq (hconf q hq) (l := spelling σ l) h
      (hdefault q (List.mem_cons_self ..)) fun q' hq' hlt => hdone q' hq' fun hmem => by
        rcases List.mem_cons.mp hmem with rfl | hmem
        · exact absurd hlt (Nat.lt_irrefl _)
        · exact absurd (hlater q' hmem) (Nat.lt_asymm hlt)
    obtain ⟨hok, hlist, hsame, hrest⟩ := hhead
    simp only [scalingListMats]
    rw [if_pos hok]
    refine ih (fun q' hq' => hsub q' (List.mem_cons_of_mem _ hq')) hsorted hrest
      (fun q' hq' => ?_) fun q' hq' hnot => ?_
    · obtain ⟨hsize', hid', -⟩ := mem_order.mp (hsub q' (List.mem_cons_of_mem _ hq'))
      have hne : q ≠ q' := by
        rintro rfl
        exact absurd (hlater q hq') (Nat.lt_irrefl _)
      exact hsame.holdsList ⟨hsize, hid⟩ ⟨hsize', hid'⟩ hne
        (hdefault q' (List.mem_cons_of_mem _ hq'))
    · by_cases heq : q' = q
      · subst heq
        exact hlist
      · obtain ⟨hsize', hid', -⟩ := mem_order.mp hq'
        exact hsame.holdsList ⟨hsize, hid⟩ ⟨hsize', hid'⟩ (Ne.symm heq)
          (hdone q' hq' fun hmem => (List.mem_cons.mp hmem).elim heq hnot)

-- ---------------------------------------------------------------------------
-- The chroma matrices of 4:4:4
-- ---------------------------------------------------------------------------

/-- The coefficient of a 16x16 matrix that the derivation reads for a position of the scan. -/
def chromaRead (ref : Nat) (mat : ScalingMat) (pos : Nat) : Int :=
  if offset16x16 pos = 0 then mat (ref + 1) else mat (ref + offset16x16 pos)

/-- The second cell of the first row has the coefficient that the `dc` has replaced in the first. -/
theorem chromaRead_eq {mat : ScalingMat} (h : HoldsList mat 2 ref l) (hx : x < 8) (hy : y < 8) :
    chromaRead ref mat (y * 8 + x) = l.coef.getD ((scanOrder 8).idxOf (x, y)) 0 := by
  have hfactor (i : Nat) (hi : i < 256) (hpos : 0 < i) :
      mat (ref + i) = l.coef.getD ((scanOrder 8).idxOf (i % 16 / 2, i / 16 / 2)) 0 := by
    refine (h i hi).trans (if_neg fun hcorner => ?_)
    exact absurd (corner_iff.mp hcorner.2) (Nat.ne_of_gt hpos)
  unfold chromaRead
  rw [offset16x16_eq]
  split
  · obtain ⟨rfl, rfl⟩ : x = 0 ∧ y = 0 := by omega
    exact hfactor 1 (by decide) (by decide)
  · have hcol : ((y * 8 + x) / 8 * 32 + (y * 8 + x) % 8 * 2) % 16 / 2 = x := by omega
    have hrow : ((y * 8 + x) / 8 * 32 + (y * 8 + x) % 8 * 2) / 16 / 2 = y := by omega
    rw [hfactor _ (by omega) (by omega), hcol, hrow]

/-- The stores of a coefficient are not before its matrix. -/
theorem putCoef32x32_before (ha : a < base) : putCoef32x32 base mat pos v a = mat a := by
  rw [putCoef32x32, show List.range 4 = [0, 1, 2, 3] from rfl]
  simp only [List.foldl_cons, List.foldl_nil, put4_apply]
  rw [if_neg (by omega), if_neg (by omega), if_neg (by omega), if_neg (by omega)]

/-- The 32x32 matrix `matrixId` gets the list of the 16x16 one. -/
theorem deriveChroma_done {mat : ScalingMat} (hid : matrixId < 6)
    (h : HoldsList mat 2 (matBase (2, matrixId)) l) :
    HoldsList (deriveChroma mat matrixId) 3 (matBase (3, matrixId)) l ∧
      SameOutside 3 (matBase (3, matrixId)) mat (deriveChroma mat matrixId) := by
  have hcells : matCells 2 = 256 := rfl
  have hbefore : matBase (2, matrixId) + matCells 2 ≤ matBase (3, matrixId) :=
    matBase_le ⟨(by decide : 2 < 4), hid⟩ ⟨(by decide : 3 < 4), hid⟩ (by simp only; omega)
  rw [hcells] at hbefore
  obtain ⟨hnodup, hlen, hlt, hscan⟩ := listScan_facts 3
  generalize hbase : matBase (3, matrixId) = base at hbefore ⊢
  generalize href : matBase (2, matrixId) = ref at h hbefore
  have hput (a pos : Nat) (hpos : pos < blkSize 3 * blkSize 3) (m : ScalingMat) (v : Int) :
      putCoef32x32 base m pos v a = if cellOf 3 base a = some pos then v else m a :=
    putCoef32x32_cells hpos
  -- The stores are behind the matrix that is read.
  have hread : ∀ m pos v, ∀ p ∈ listScan 3,
      chromaRead ref (putCoef32x32 base m pos v) p = chromaRead ref m p := by
    intro m pos v p hp
    have hp64 : p < 64 := hlt p hp
    unfold chromaRead
    rw [offset16x16_eq, putCoef32x32_before (by omega), putCoef32x32_before (by omega)]
  have hfold : (listScan 3).foldl
        (fun m pos => putCoef32x32 base m pos (chromaRead ref m pos)) mat =
      ((listScan 3).zip ((listScan 3).map (chromaRead ref mat))).foldl
        (fun m e => putCoef32x32 base m e.1 e.2) mat := foldl_read _ _ mat hread
  have hdef : deriveChroma mat matrixId =
      set (((listScan 3).zip ((listScan 3).map (chromaRead ref mat))).foldl
        (fun m e => putCoef32x32 base m e.1 e.2) mat) base (mat ref) := by
    have hcorner : ((listScan 3).zip ((listScan 3).map (chromaRead ref mat))).foldl
        (fun m e => putCoef32x32 base m e.1 e.2) mat ref = mat ref :=
      scatter_frame mat _ (hput ref) (.inl (by omega))
    rw [← hcorner, ← hfold, ← hbase, ← href]
    rfl
  rw [hdef]
  obtain ⟨hlist, hsame⟩ := stored_list (putCoef32x32 base) base (mat ref) (fun a _ => hput a)
    ((List.length_map ..).trans hlen) (fun a ha => set_ne (ha (by decide))) fun _ => set_same
  refine ⟨fun i hi => (hlist i hi).trans ?_, hsame⟩
  unfold ScalingList.factor
  split
  · exact (h 0 (by decide)).trans (if_pos ⟨by decide, rfl, rfl⟩)
  · obtain ⟨hrow, hcol⟩ := cell_lt hi
    obtain ⟨hmem, hidx⟩ := hscan _ hrow _ hcol
    rw [← hidx, List.getD_eq_getElem _ _ (by simpa using List.idxOf_lt_length_of_mem hmem),
      List.getElem_map, List.getElem_idxOf]
    rw [hidx]
    exact chromaRead_eq h hcol hrow

/-- The derived matrices are done, all others stay as they are. -/
theorem deriveChromas_done {mat : ScalingMat} (lists : Nat → ScalingList) (ids : List Nat)
    (hids : ∀ m ∈ ids, m < 6) (hnodup : ids.Nodup)
    (hlists : ∀ m < 6, HoldsList mat 2 (matBase (2, m)) (lists m)) :
    (∀ m ∈ ids, HoldsList (ids.foldl deriveChroma mat) 3 (matBase (3, m)) (lists m)) ∧
      ∀ q l, q.1 < 4 ∧ q.2 < 6 → ¬ (q.1 = 3 ∧ q.2 ∈ ids) → HoldsList mat q.1 (matBase q) l →
        HoldsList (ids.foldl deriveChroma mat) q.1 (matBase q) l := by
  induction ids generalizing mat with
  | nil => exact ⟨fun m hm => absurd hm List.not_mem_nil, fun q l _ _ hlist => hlist⟩
  | cons m ids ih =>
    obtain ⟨hnot, hnodup⟩ := List.nodup_cons.mp hnodup
    have hid := hids m (List.mem_cons_self ..)
    have hplace : 3 < 4 ∧ m < 6 := ⟨by decide, hid⟩
    obtain ⟨hlist, hsame⟩ := deriveChroma_done hid (hlists m hid)
    have hother (q : Nat × Nat) (l : ScalingList) (hq : q.1 < 4 ∧ q.2 < 6) (hne : (3, m) ≠ q)
        (h : HoldsList mat q.1 (matBase q) l) :
        HoldsList (deriveChroma mat m) q.1 (matBase q) l :=
      hsame.holdsList hplace hq hne h
    obtain ⟨hdone, hkeep⟩ := ih (fun m' hm' => hids m' (List.mem_cons_of_mem _ hm')) hnodup
      fun m' hm' => hother (2, m') _ ⟨(by decide : 2 < 4), hm'⟩ (by simp) (hlists m' hm')
    refine ⟨fun m' hm' => ?_, fun q l hq hnot' h => ?_⟩
    · rcases List.mem_cons.mp hm' with rfl | hm'
      · exact hkeep (3, m') _ hplace (fun h => hnot h.2) hlist
      · exact hdone m' hm'
    · have hne : (3, m) ≠ q := by
        rintro rfl
        exact hnot' ⟨rfl, List.mem_cons_self ..⟩
      exact hkeep q l hq (fun h => hnot' ⟨h.1, List.mem_cons_of_mem _ h.2⟩) (hother q l hq hne h)

/-- What the array has after the lists and, for 4:4:4, the derivation. -/
theorem scalingListData_holdsList {σ : Elements} {s : Bitstrm} (chromaFormatIdc : Nat)
    {mat : ScalingMat} (hmat : ∀ q, q.1 < 4 ∧ q.2 < 6 →
      HoldsList mat q.1 (matBase q) (defaultList q.1 q.2))
    (hconf : Conforms σ) (h : s.Before (spelling σ order) p') :
    let r := scalingListData chromaFormatIdc mat s
    r.1 = true ∧ r.2.2.At p' ∧
      ∀ q, q.1 < 4 ∧ q.2 < 6 →
        (q.1 = 3 → q.2 % 3 = 0 ∨ chromaFormatIdc = chromaFmtIdcYuv444) →
        HoldsList r.2.1 q.1 (matBase q) (factorList σ q.1 q.2) := by
  have hsorted : order.Pairwise fun q q' => q.1 * 6 + q.2 < q'.1 * 6 + q'.2 := by decide
  obtain ⟨hok, hlists, p₁, hend, hnil⟩ := scalingListMats_done order (fun _ h => h) hsorted hconf h
    (fun q hq => hmat q ⟨(mem_order.mp hq).1, (mem_order.mp hq).2.1⟩)
    fun q hq hnot => absurd hq hnot
  obtain rfl : p₁ = p' := congrArg Prod.snd hnil
  have hloops : (List.range 6).map (0, ·) ++ (List.range 6).map (1, ·) ++
      (List.range 6).map (2, ·) ++ [(3, 0), (3, 3)] = order := by decide
  intro r
  -- A matrix that is not derived has its own list.
  have hown (q : Nat × Nat) (hq : q.1 < 4 ∧ q.2 < 6) (hthree : ¬ (q.1 = 3 ∧ q.2 % 3 ≠ 0)) :
      HoldsList (scalingListMats order mat s).2.1 q.1 (matBase q) (factorList σ q.1 q.2) := by
    rw [factorList, if_neg hthree]
    exact hlists q (mem_order.mpr ⟨hq.1, hq.2, fun h3 => by_contra fun h => hthree ⟨h3, h⟩⟩)
  refine ⟨?_, ?_, fun q hq hchroma => ?_⟩
  · simp only [r, scalingListData, hloops]
    exact hok
  · simp only [r, scalingListData, hloops]
    exact hend
  · simp only [r, scalingListData, hloops]
    split
    case isTrue hderive =>
      obtain ⟨hdone, hkeep⟩ := deriveChromas_done (listOf σ 2) [1, 2, 4, 5]
        (by decide) (by decide) fun m hm =>
          hlists (2, m) (mem_order.mpr ⟨(by decide : 2 < 4), hm, fun h => absurd h (by simp)⟩)
      obtain ⟨sizeId, matrixId⟩ := q
      by_cases hthree : sizeId = 3 ∧ matrixId % 3 ≠ 0
      · rw [factorList, if_pos hthree]
        obtain ⟨rfl, hmod⟩ := hthree
        have hid : matrixId < 6 := hq.2
        have hmem : matrixId ∈ [1, 2, 4, 5] := by
          have hall : ∀ m < 6, m ∈ [1, 2, 4, 5] ∨ m % 3 = 0 := by decide
          exact (hall matrixId hid).resolve_right hmod
        exact hdone matrixId hmem
      · refine hkeep _ _ hq (fun hin => hthree ⟨hin.1, ?_⟩) (hown _ hq hthree)
        have hall : ∀ m ∈ [1, 2, 4, 5], m % 3 ≠ 0 := by decide
        exact hall matrixId hin.2
    case isFalse hderive =>
      refine hown q hq fun hthree => ?_
      rcases hchroma hthree.1 with hmod | hidc
      · exact hthree.2 hmod
      · exact hderive ⟨hok, hidc⟩

/-- On the defaults, and for any conforming bit string, the array has the scaling factor at every
position of every matrix: of the 32x32 chroma matrices those of 4:4:4. -/
theorem scalingListData_factor {σ : Elements} {s : Bitstrm} (chromaFormatIdc : Nat)
    (mat : ScalingMat) (hat : s.At p) (hconf : Conforms σ)
    (hbits : Spells s.bits p (spelling σ order) p') :
    let r := scalingListData chromaFormatIdc (copyDefaultScalingList mat) s
    r.1 = true ∧ r.2.2.At p' ∧
      ∀ sizeId < 4, ∀ matrixId < 6,
        (sizeId = 3 → matrixId % 3 = 0 ∨ chromaFormatIdc = chromaFmtIdcYuv444) →
        ∀ y < matSize sizeId, ∀ x < matSize sizeId,
          r.2.1 (scalingMatOffset (sizeId * 6 + matrixId) + (y * matSize sizeId + x)) =
            scalingFactor σ sizeId matrixId x y := by
  obtain ⟨hok, hend, hlists⟩ := scalingListData_holdsList chromaFormatIdc
    (fun q hq => copyDefault_holdsList mat hq) hconf ⟨p, hat, hbits⟩
  refine ⟨hok, hend, fun sizeId hsize matrixId hid hchroma y hy x hx => ?_⟩
  have hi : y * matSize sizeId + x < matSize sizeId * matSize sizeId := by
    have hmul := Nat.mul_le_mul_right (matSize sizeId) (Nat.succ_le_of_lt hy)
    rw [Nat.succ_mul] at hmul
    omega
  have hcol : (y * matSize sizeId + x) % matSize sizeId = x := by
    rw [Nat.mul_comm, Nat.mul_add_mod, Nat.mod_eq_of_lt hx]
  have hrow : (y * matSize sizeId + x) / matSize sizeId = y := by
    rw [Nat.mul_comm, Nat.mul_add_div (matSize_pos sizeId), Nat.div_eq_of_lt hx, Nat.add_zero]
  have hcell := hlists (sizeId, matrixId) ⟨hsize, hid⟩ hchroma _ hi
  rw [hcol, hrow] at hcell
  exact hcell

/-- An explicit first list that the second one copies, and defaults. -/
def copiedList : Elements := fun sizeId matrixId =>
  if sizeId = 0 ∧ matrixId = 0 then .coefs 0 (List.replicate 16 0)
  else .pred (if sizeId = 0 ∧ matrixId = 1 then 1 else 0)

theorem scalingListData_factor_copy :
    let s := ihevcdBitsInit ([255, 255, 146, 170, 170, 170, 170, 128].getD · 0) 8
    let r := scalingListData 1 (copyDefaultScalingList fun _ => 0) s
    r.1 = true ∧ r.2.2.At 57 ∧ r.2.1 (16 + 5) = scalingFactor copiedList 0 1 1 1 := by
  have hbytes : ∀ i, [255, 255, 146, 170, 170, 170, 170, 128].getD i 0 < 256 :=
    getD_of_forall (P := (· < 256)) (by decide) (by decide)
  have hconf : Conforms copiedList := by decide
  have hbits : Spells (ofBytes ([255, 255, 146, 170, 170, 170, 170, 128].getD · 0)) 0
      (spelling copiedList order) 57 := by
    decide +kernel
  obtain ⟨hok, hend, hfactor⟩ := scalingListData_factor 1 (fun _ => 0)
    (bitsInit_at (n := 8) hbytes) hconf hbits
  exact ⟨hok, hend, hfactor 0 (by decide) 1 (by decide) (by decide) 1 (by decide) 1 (by decide)⟩

end Libhevc.Decoder
