import Libhevc.Common.ItransRecon
import Libhevc.Spec.Residual
import Mathlib.Tactic.IntervalCases

/-!
# The inverse transforms are the matrix products

Every function of the table gives the samples of the plain two-stage transform, for
all coefficients and all masks that mark zero rows and columns only, and no sum
leaves the range of `WORD32`. The DC functions agree with them.
-/

namespace Libhevc

open Checked

/-- The bound of every sum of a stage: 32 products of a coefficient of at most 90. -/
def stageBound : Int := 32 * (90 * 32768)

/-- What a function needs to be a fast form of `t`. -/
structure ItransRecon.Computes (f : ItransRecon) (t : Spec.Transform) (limits : List Nat) : Prop where
  size : t.nTbS = f.transSize
  limit_le : ∀ limit ∈ limits, limit ≤ f.transSize
  size_le : f.transSize ≤ 32
  inverse : ∀ limit ∈ limits, ∀ (src : Nat → Checked 32) (x : Nat → Int),
    (∀ r < limit, Bounded (src r) (x r) 32768) → (∀ r < f.transSize, limit ≤ r → x r = 0) →
    ∀ k < f.transSize, Bounded (f.inverse limit src k) (t.oneD x k) stageBound
  rowLimit : ∀ mask, f.rowLimit mask ∈ limits ∧
    ∀ r < f.transSize, f.rowLimit mask ≤ r → mask.getLsbD r
  rowLimit2ndStage : ∀ mask, f.rowLimit2ndStage mask ∈ limits ∧
    ∀ r < f.transSize, f.rowLimit2ndStage mask ≤ r → mask.getLsbD r

-- ---------------------------------------------------------------------------
-- One-dimensional transforms
-- ---------------------------------------------------------------------------

/-- The rows of a butterfly of `table` are all rows of `t` below `limit`. -/
structure ButterflyRows.Covers (b : ButterflyRows) (table : List (List Int)) (t : Spec.Transform)
    (limit : Nat) : Prop where
  rows : (b.odds.flatten ++ b.even).Perm (List.range limit)
  folds : Folds (tableAt table) b.even b.odds
  size : t.nTbS = 2 ^ (b.odds.length + 1)
  limit_le : limit ≤ t.nTbS
  size_le : t.nTbS ≤ 32

theorem tableAt_le {table : List (List Int)} (h : ∀ row ∈ table, ∀ x ∈ row, |x| ≤ 90) (m n : Nat) :
    |tableAt table m n| ≤ 90 := by
  unfold tableAt
  rw [List.getD_eq_getElem?_getD, List.getD_eq_getElem?_getD]
  cases hrow : table[m]? with
  | none => simp
  | some row =>
    rw [Option.getD_some]
    cases hx : row[n]? with
    | none => simp
    | some x => exact h row (List.mem_of_getElem? hrow) x (List.mem_of_getElem? hx)

theorem ButterflyRows.Covers.inverse {b : ButterflyRows} {table : List (List Int)}
    {t : Spec.Transform} (h : b.Covers table t limit)
    (htable : ∀ row ∈ table, ∀ x ∈ row, |x| ≤ 90)
    (hmatrix : ∀ m < t.nTbS, ∀ n < t.nTbS, tableAt table m n = t.matrix m n)
    (hsrc : ∀ r < limit, Bounded (src r) (x r) 32768)
    (hzero : ∀ r < t.nTbS, limit ≤ r → x r = 0) (hk : k < t.nTbS) :
    Bounded (butterfly (tableAt table) b.even src b.odds k : Checked 32) (t.oneD x k)
      stageBound := by
  have hlen : (b.odds.flatten ++ b.even).length = limit := by simpa using h.rows.length_eq
  have hlimit : (limit : Int) ≤ 32 := by exact_mod_cast h.limit_le.trans h.size_le
  have hbound := butterfly_bounded (k := k) h.folds (tableAt_le htable)
    (fun r hr => hsrc r (List.mem_range.mp (h.rows.mem_iff.mp hr))) (by decide) (by decide)
    (by rw [hlen]; norm_num; linarith) (by rw [← h.size]; exact hk)
  have hsum : ((b.odds.flatten ++ b.even).map fun r => tableAt table r k * x r).sum =
      t.oneD x k := by
    calc ((b.odds.flatten ++ b.even).map fun r => tableAt table r k * x r).sum
        = ((List.range limit).map fun r => tableAt table r k * x r).sum :=
          (h.rows.map _).sum_eq
      _ = ∑ r ∈ Finset.range limit, tableAt table r k * x r := rfl
      _ = ∑ r ∈ Finset.range t.nTbS, tableAt table r k * x r := by
        apply Finset.sum_subset (Finset.range_subset_range.mpr h.limit_le)
        intro r hr hlow
        rw [Finset.mem_range] at hr hlow
        rw [hzero r hr (Nat.le_of_not_lt hlow), mul_zero]
      _ = t.oneD x k :=
        Finset.sum_congr rfl fun r hr => by rw [hmatrix r (Finset.mem_range.mp hr) k hk]
  rw [hsum, hlen] at hbound
  refine hbound.mono ?_
  norm_num [stageBound]
  linarith

-- ---------------------------------------------------------------------------
-- Stages
-- ---------------------------------------------------------------------------

/-- The masks mark zero columns and zero rows of the block only. -/
structure ZeroMasks (d : Nat → Nat → Int) (size : Nat) (zeroCols zeroRows : BitVec 32) : Prop where
  cols : ∀ c < size, zeroCols.getLsbD c → ∀ r < size, d r c = 0
  rows : ∀ r < size, zeroRows.getLsbD r → ∀ c < size, d r c = 0

theorem abs_clipS16_le (x : Int) : |clipS16 x| ≤ 32768 := by
  unfold clipS16 clip3
  rw [abs_le]
  split
  · decide
  · split <;> omega

theorem zeroCol_iff (mask : BitVec 32) (hj : j < 32) :
    (mask.sshiftRight j) &&& 1#32 = 1#32 ↔ mask.getLsbD j = true := by
  rw [BitVec.and_one_eq_setWidth_ofBool_getLsbD, BitVec.getLsbD_sshiftRight]
  simp only [Nat.add_zero, hj]
  cases mask.getLsbD j <;> simp

theorem Spec.Transform.oneD_zero (t : Spec.Transform) (h : ∀ j < t.nTbS, x j = 0) (k : Nat) :
    t.oneD x k = 0 :=
  Finset.sum_eq_zero fun j hj => by rw [h j (Finset.mem_range.mp hj), mul_zero]

theorem Spec.Transform.intermediate_zero (t : Spec.Transform)
    (h : ∀ r < t.nTbS, d r col = 0) (row : Nat) : t.intermediate d row col = 0 := by
  rw [Spec.Transform.intermediate, t.oneD_zero h]
  decide

section
variable {f : ItransRecon} {t : Spec.Transform} {limits : List Nat} {d : Nat → Nat → Int}
  {zeroCols zeroRows : BitVec 32}

theorem ItransRecon.Computes.stage1 (hf : f.Computes t limits) (hd : ∀ r c, |d r c| ≤ 32768)
    (hmask : ZeroMasks d f.transSize zeroCols zeroRows) (tmp : Nat → Nat → Int)
    (hj : j < f.rowLimit2ndStage zeroCols) (hk : k < f.transSize) :
    Bounded (f.stage1 d tmp zeroCols zeroRows j k) (t.intermediate d k j) 32768 := by
  obtain ⟨hmem, -⟩ := hf.rowLimit2ndStage zeroCols
  have hjsize : j < f.transSize := hj.trans_le (hf.limit_le _ hmem)
  rw [ItransRecon.stage1, if_pos hj]
  split
  case isTrue hzero =>
    have hcol := hmask.cols j hjsize ((zeroCol_iff _ (hjsize.trans_le hf.size_le)).mp hzero)
    rw [t.intermediate_zero (fun r hr => hcol r (hf.size ▸ hr))]
    exact of_bounded (by decide) (by decide)
  case isFalse =>
    obtain ⟨hrow, hlow⟩ := hf.rowLimit zeroRows
    have hin := hf.inverse _ hrow (fun r => of (d r j)) (fun r => d r j)
      (fun r _ => of_bounded (hd r j) (by decide))
      (fun r hr hle => hmask.rows r hr (hlow r hr hle) j hjsize) k hk
    have hround := hin.add (of_bounded (x := 64) (b := 64) (by decide) (by decide)) (by decide)
    exact (hround.shiftRight (by decide)).map (abs_clipS16_le _) (by decide)

theorem clipS16_shift (h : |v| ≤ stageBound + 2048) :
    clipS16 (v >>> (12 : Nat)) = v >>> (12 : Nat) := by
  have hv := abs_le.mp h
  norm_num [stageBound] at hv
  unfold clipS16 clip3
  rw [Int.shiftRight_eq_div_pow]
  norm_num
  omega

theorem ItransRecon.Computes.stage2 (hf : f.Computes t limits) (hd : ∀ r c, |d r c| ≤ 32768)
    (hmask : ZeroMasks d f.transSize zeroCols zeroRows) (tmp : Nat → Nat → Int)
    (hj : j < f.transSize) (hk : k < f.transSize) :
    Bounded (f.stage2 (f.stage1 d tmp zeroCols zeroRows) zeroCols j k) (t.residual d j k)
      32768 := by
  obtain ⟨hmem, hlow⟩ := hf.rowLimit2ndStage zeroCols
  have hin := hf.inverse _ hmem (fun r => f.stage1 d tmp zeroCols zeroRows r j)
    (fun r => t.intermediate d j r) (fun r hr => hf.stage1 hd hmask tmp hr hj)
    (fun r hr hle => t.intermediate_zero
      (fun r' hr' => hmask.cols r hr (hlow r hr hle) r' (hf.size ▸ hr')) j) k hk
  have hround := hin.add (of_bounded (x := 2048) (b := 2048) (by decide) (by decide)) (by decide)
  have hclip := (hround.shiftRight (n := 12) (by decide)).map (abs_clipS16_le _) (by decide)
  rw [clipS16_shift hround.le] at hclip
  exact hclip

end

-- ---------------------------------------------------------------------------
-- Masks
-- ---------------------------------------------------------------------------

theorem getLsbD_of_and_eq {mask m : BitVec 32} (h : mask &&& m = m) (hr : m.getLsbD r = true) :
    mask.getLsbD r = true := by
  rw [← h, BitVec.getLsbD_and, Bool.and_eq_true] at hr
  exact hr.1

theorem limit_full {size : Nat} (limits : List Nat) (h : size ∈ limits) (mask : BitVec 32) :
    size ∈ limits ∧ ∀ r < size, size ≤ r → mask.getLsbD r = true :=
  ⟨h, fun _ hr hle => absurd hle (Nat.not_le_of_lt hr)⟩

/-- A mask that has all of `bits` lets the passes stop at the first line of `bits`. -/
theorem limit_of_bits {limit size : Nat} {limits : List Nat} {mask bits : BitVec 32}
    (h : mask &&& bits = bits) (hmem : limit ∈ limits)
    (hbits : ∀ r < size, limit ≤ r → bits.getLsbD r = true) :
    limit ∈ limits ∧ ∀ r < size, limit ≤ r → mask.getLsbD r = true :=
  ⟨hmem, fun r hr hle => getLsbD_of_and_eq h (hbits r hr hle)⟩

theorem rowLimit8_spec (mask : BitVec 32) : rowLimit8 mask ∈ [4, 8] ∧
    ∀ r < 8, rowLimit8 mask ≤ r → mask.getLsbD r = true := by
  unfold rowLimit8
  split
  case isTrue h => exact limit_of_bits h (by simp) (by decide)
  case isFalse => exact limit_full _ (by simp) mask

theorem rowLimit16_spec (mask : BitVec 32) : rowLimit16 mask ∈ [4, 8, 16] ∧
    ∀ r < 16, rowLimit16 mask ≤ r → mask.getLsbD r = true := by
  unfold rowLimit16
  split
  case isTrue h => exact limit_of_bits h (by simp) (by decide)
  case isFalse =>
    split
    case isTrue h => exact limit_of_bits h (by simp) (by decide)
    case isFalse => exact limit_full _ (by simp) mask

theorem rowLimit32_spec (mask : BitVec 32) : rowLimit32 mask ∈ [4, 8, 32] ∧
    ∀ r < 32, rowLimit32 mask ≤ r → mask.getLsbD r = true := by
  unfold rowLimit32
  split
  case isTrue h => exact limit_of_bits h (by simp) (by decide)
  case isFalse =>
    split
    case isTrue h => exact limit_of_bits h (by simp) (by decide)
    case isFalse => exact limit_full _ (by simp) mask

-- ---------------------------------------------------------------------------
-- The functions of the table
-- ---------------------------------------------------------------------------

theorem rows_cover :
    (∀ limit ∈ [4], (rows4 limit).Covers gAi2IhevcTrans4 ⟨0, 4⟩ limit) ∧
    (∀ limit ∈ [4, 8], (rows8 limit).Covers gAi2IhevcTrans8 ⟨0, 8⟩ limit) ∧
    (∀ limit ∈ [4, 8, 16], (rows16 limit).Covers gAi2IhevcTrans16 ⟨0, 16⟩ limit) ∧
    ∀ limit ∈ [4, 8, 32], (rows32 limit).Covers gAi2IhevcTrans32 ⟨0, 32⟩ limit := by
  refine ⟨?_, ?_, ?_, ?_⟩ <;> intro limit h <;>
    simp only [List.mem_cons, List.not_mem_nil, or_false] at h
  · subst h
    constructor <;> decide +kernel
  · rcases h with rfl | rfl <;> constructor <;> decide +kernel
  · rcases h with rfl | rfl | rfl <;> constructor <;> decide +kernel
  · rcases h with rfl | rfl | rfl <;> constructor <;> decide +kernel

/-- The table of a size has the matrix of that size, with entries that fit. -/
def TableOf (table : List (List Int)) (size : Nat) : Prop :=
  (∀ row ∈ table, ∀ x ∈ row, |x| ≤ 90) ∧
    ∀ m < size, ∀ n < size, tableAt table m n = Spec.Transform.matrix ⟨0, size⟩ m n

theorem tables_eq : TableOf gAi2IhevcTrans4 4 ∧ TableOf gAi2IhevcTrans8 8 ∧
    TableOf gAi2IhevcTrans16 16 ∧ TableOf gAi2IhevcTrans32 32 := by
  refine ⟨?_, ?_, ?_, ?_⟩ <;> constructor <;> decide +kernel

theorem computes_dct {rows : Nat → ButterflyRows} {table : List (List Int)} {size step : Nat}
    {limits : List Nat} {rowLimit rowLimit2 : BitVec 32 → Nat}
    (hcovers : ∀ limit ∈ limits, (rows limit).Covers table ⟨0, size⟩ limit)
    (htable : TableOf table size)
    (hlimit : ∀ mask, rowLimit mask ∈ limits ∧
      ∀ r < size, rowLimit mask ≤ r → mask.getLsbD r = true)
    (hlimit2 : ∀ mask, rowLimit2 mask ∈ limits ∧
      ∀ r < size, rowLimit2 mask ≤ r → mask.getLsbD r = true) :
    ItransRecon.Computes ⟨size, ButterflyRows.inverse rows table, rowLimit, rowLimit2, step⟩
      ⟨0, size⟩ limits where
  size := rfl
  limit_le _ h := (hcovers _ h).limit_le
  size_le := (hcovers _ (hlimit 0).1).size_le
  inverse _ h _ _ hsrc hzero _ hk := (hcovers _ h).inverse htable.1 htable.2 hsrc hzero hk
  rowLimit := hlimit
  rowLimit2ndStage := hlimit2

theorem inverseTtype1_bounded {src : Nat → Checked 32} {x : Nat → Int}
    (hsrc : ∀ r < 4, Bounded (src r) (x r) 32768) (hk : k < 4) :
    Bounded (inverseTtype1 src k) (Spec.Transform.oneD ⟨1, 4⟩ x k) stageBound := by
  have h0 := hsrc 0 (by decide)
  have h1 := hsrc 1 (by decide)
  have h2 := hsrc 2 (by decide)
  have h3 := hsrc 3 (by decide)
  have c0 := h0.add h2 (by decide)
  have c1 := h2.add h3 (by decide)
  have c2 := h0.sub h3 (by decide)
  have h29 : Bounded (of 29 : Checked 32) 29 29 := of_bounded (by decide) (by decide)
  have h55 : Bounded (of 55 : Checked 32) 55 55 := of_bounded (by decide) (by decide)
  have h74 : Bounded (of 74 : Checked 32) 74 74 := of_bounded (by decide) (by decide)
  have c3 := h74.mul h1 (by decide)
  have hexpand (k : Nat) : Spec.Transform.oneD ⟨1, 4⟩ x k =
      Spec.dstMatrix 0 k * x 0 + Spec.dstMatrix 1 k * x 1 + Spec.dstMatrix 2 k * x 2 +
        Spec.dstMatrix 3 k * x 3 := by
    simp [Spec.Transform.oneD, Finset.sum_range_succ, Spec.Transform.matrix]
  interval_cases k
  · have h := (((h29.mul c0 (by decide)).add (h55.mul c1 (by decide)) (by decide)).add c3
      (by decide)).mono (by decide : _ ≤ stageBound)
    exact h.congr (by rw [hexpand]; simp [Spec.dstMatrix]; ring)
  · have h := (((h55.mul c2 (by decide)).sub (h29.mul c1 (by decide)) (by decide)).add c3
      (by decide)).mono (by decide : _ ≤ stageBound)
    exact h.congr (by rw [hexpand]; simp [Spec.dstMatrix]; ring)
  · have h := (h74.mul ((h0.sub h2 (by decide)).add h3 (by decide)) (by decide)).mono
      (by decide : _ ≤ stageBound)
    exact h.congr (by rw [hexpand]; simp [Spec.dstMatrix]; ring)
  · have h := (((h55.mul c0 (by decide)).add (h29.mul c2 (by decide)) (by decide)).sub c3
      (by decide)).mono (by decide : _ ≤ stageBound)
    exact h.congr (by rw [hexpand]; simp [Spec.dstMatrix]; ring)

theorem ihevcItransRecon4x4Ttype1_computes : ihevcItransRecon4x4Ttype1.Computes ⟨1, 4⟩ [4] where
  size := rfl
  limit_le := by decide
  size_le := by decide
  inverse limit h src x hsrc _ k hk := by
    rw [List.mem_singleton] at h
    subst h
    exact inverseTtype1_bounded hsrc hk
  rowLimit := limit_full [4] (by decide)
  rowLimit2ndStage := limit_full [4] (by decide)

/-- The transform of entry `i` of the table. -/
def transformOf (i : Fin 9) : Spec.Transform :=
  ⟨if i = 0 then 1 else 0, (apfItransRecon i).transSize⟩

theorem apfItransRecon_computes (i : Fin 9) :
    ∃ limits, (apfItransRecon i).Computes (transformOf i) limits := by
  match i with
  | 0 => exact ⟨_, ihevcItransRecon4x4Ttype1_computes⟩
  | 1 | 5 =>
    exact ⟨_, computes_dct rows_cover.1 tables_eq.1
      (limit_full [4] (by decide)) (limit_full [4] (by decide))⟩
  | 2 =>
    exact ⟨_, computes_dct rows_cover.2.1 tables_eq.2.1 rowLimit8_spec rowLimit8_spec⟩
  | 6 =>
    exact ⟨_, computes_dct rows_cover.2.1 tables_eq.2.1
      (limit_full [4, 8] (by decide)) rowLimit8_spec⟩
  | 3 | 7 =>
    exact ⟨_, computes_dct rows_cover.2.2.1 tables_eq.2.2.1 rowLimit16_spec rowLimit16_spec⟩
  | 4 | 8 =>
    exact ⟨_, computes_dct rows_cover.2.2.2 tables_eq.2.2.2 rowLimit32_spec rowLimit32_spec⟩

-- ---------------------------------------------------------------------------
-- Samples
-- ---------------------------------------------------------------------------

theorem abs_toInt_le (x : Int16) : |x.toInt| ≤ 32768 := by
  have hlo := x.le_toInt
  have hhi := x.toInt_lt
  rw [abs_le]
  constructor <;> linarith

theorem abs_clipU8_le (x : Int) : |ItransRecon.clipU8 x| ≤ 255 := by
  unfold ItransRecon.clipU8 clip3
  rw [abs_le]
  split
  · decide
  · split <;> omega

theorem pred_bounded (x : UInt8) : Bounded (of x.toNat : Checked 32) (x.toNat : Int) 255 := by
  refine of_bounded ?_ (by decide)
  have hlt := x.toNat_lt
  rw [Nat.abs_cast]
  omega

theorem ItransRecon.Computes.run {f : ItransRecon} {t : Spec.Transform}
    (hf : f.Computes t limits) {pi2Src : Nat → Int16}
    (hmask : ZeroMasks (fun r c => (pi2Src (r * srcStrd + c)).toInt) f.transSize zeroCols zeroRows)
    (pi2Tmp : Nat → Nat → Int16) (pu1Pred : Nat → UInt8) (predStrd : Nat)
    (hrow : row < f.transSize) (hcol : col < f.transSize) :
    f.run pi2Src pi2Tmp pu1Pred srcStrd predStrd zeroCols zeroRows row col =
      some (t.recSample (fun r c => (pi2Src (r * srcStrd + c)).toInt)
        (fun r c => (pu1Pred (r * predStrd + c * f.step)).toNat) row col) := by
  have hstage := hf.stage2 (fun r c => abs_toInt_le _) hmask (fun r c => (pi2Tmp r c).toInt)
    hrow hcol
  have hsum := hstage.add (pred_bounded (pu1Pred (row * predStrd + col * f.step))) (by decide)
  have hpixel := hsum.map (abs_clipU8_le _) (by decide)
  rw [ItransRecon.run, hpixel.eq, add_comm]
  rfl

/-- A coefficient block with no entry but the first. -/
def DcOnly (d : Nat → Nat → Int) (size : Nat) : Prop :=
  ∀ r < size, ∀ c < size, r ≠ 0 ∨ c ≠ 0 → d r c = 0

/-- The residual of every sample of such a block. -/
def dcResidual (c : Int) : Int :=
  let g : Int := clipS16 ((64 * c + 64) >>> (7 : Nat))
  (64 * g + 2 ^ 11) >>> (12 : Nat)

section
variable {t : Spec.Transform} {x : Nat → Int} {d : Nat → Nat → Int}

theorem Spec.Transform.oneD_first (htype : t.trType ≠ 1) (hpos : 0 < t.nTbS)
    (hzero : ∀ j < t.nTbS, j ≠ 0 → x j = 0) (k : Nat) : t.oneD x k = 64 * x 0 := by
  have hentry : t.matrix 0 k = 64 := by
    simp [Spec.Transform.matrix, htype, Spec.transMatrix, Spec.transColumn]
  rw [Spec.Transform.oneD, Finset.sum_eq_single 0, hentry]
  · intro j hj hne
    rw [hzero j (Finset.mem_range.mp hj) hne, mul_zero]
  · intro hnot
    exact absurd (Finset.mem_range.mpr hpos) hnot

theorem Spec.Transform.residual_dc (htype : t.trType ≠ 1) (hdc : DcOnly d t.nTbS)
    (hrow : row < t.nTbS) (col : Nat) :
    t.residual d row col = dcResidual (d 0 0) := by
  have hpos : 0 < t.nTbS := Nat.zero_lt_of_lt hrow
  have hfirst : t.intermediate d row 0 = clipS16 ((64 * d 0 0 + 64) >>> (7 : Nat)) := by
    rw [Spec.Transform.intermediate,
      Spec.Transform.oneD_first htype hpos fun j hj hne => hdc j hj 0 hpos (.inl hne)]
  have hlater : ∀ j < t.nTbS, j ≠ 0 → t.intermediate d row j = 0 := fun j hj hne =>
    t.intermediate_zero (fun r hr => hdc r hr j hj (.inr hne)) row
  rw [Spec.Transform.residual, Spec.Transform.oneD_first htype hpos hlater, hfirst]
  rfl

end

theorem itransReconDc_eq (pred : UInt8) (c : Int16) :
    itransReconDc pred c = some (clip3 (pred.toNat + dcResidual c.toInt) 0 255) := by
  have hc : Bounded (of c.toInt : Checked 32) c.toInt 32768 :=
    of_bounded (abs_toInt_le c) (by decide)
  have h64 : Bounded (of 64 : Checked 32) 64 64 := of_bounded (by decide) (by decide)
  have h2048 : Bounded (of 2048 : Checked 32) 2048 2048 := of_bounded (by decide) (by decide)
  have hfirst := (((hc.mul h64 (by decide)).add h64 (by decide)).shiftRight (n := 7)
    (by decide)).map (abs_clipS16_le _) (by decide)
  have hround := (hfirst.mul h64 (by decide)).add h2048 (by decide)
  have hsecond := (hround.shiftRight (n := 12) (by decide)).map (abs_clipS16_le _) (by decide)
  have hpixel := ((pred_bounded pred).add hsecond (by decide)).map (abs_clipU8_le _) (by decide)
  rw [clipS16_shift (hround.le.trans (by decide)), mul_comm, mul_comm c.toInt] at hpixel
  exact hpixel.eq

theorem apfItransReconDc_eq (funcIdx : Fin 9) (pu1Pred : Nat → UInt8) (predStrd : Nat)
    (coeff : Int16) (row col : Nat) :
    apfItransReconDc (5 ≤ funcIdx) pu1Pred predStrd coeff row col =
      itransReconDc (pu1Pred (row * predStrd + col * (apfItransRecon funcIdx).step)) coeff := by
  by_cases hchroma : 5 ≤ funcIdx
  · have hstep : (apfItransRecon funcIdx).step = 2 := by
      revert hchroma
      decide +revert
    simp only [apfItransReconDc, hchroma, decide_true, if_true, ihevcdItransReconDcChroma, hstep,
      Nat.shiftLeft_eq, pow_one]
  · have hstep : (apfItransRecon funcIdx).step = 1 := by
      revert hchroma
      decide +revert
    simp [apfItransReconDc, hchroma, ihevcdItransReconDcLuma, hstep]

/-- Every function writes the samples of the plain transform, and for a block with the first
coefficient only the DC function writes the same. -/
theorem apfItransRecon_eq_recSample (funcIdx : Fin 9) (pi2Src : Nat → Int16)
    (pi2Tmp : Nat → Nat → Int16) (pu1Pred : Nat → UInt8) (srcStrd predStrd : Nat)
    (zeroCols zeroRows : BitVec 32)
    (hmask : ZeroMasks (fun r c => (pi2Src (r * srcStrd + c)).toInt)
      (apfItransRecon funcIdx).transSize zeroCols zeroRows)
    (row col : Nat) (hrow : row < (apfItransRecon funcIdx).transSize)
    (hcol : col < (apfItransRecon funcIdx).transSize) :
    (apfItransRecon funcIdx).run pi2Src pi2Tmp pu1Pred srcStrd predStrd zeroCols zeroRows row col =
        some ((transformOf funcIdx).recSample (fun r c => (pi2Src (r * srcStrd + c)).toInt)
          (fun r c => (pu1Pred (r * predStrd + c * (apfItransRecon funcIdx).step)).toNat) row col) ∧
      (funcIdx ≠ 0 → DcOnly (fun r c => (pi2Src (r * srcStrd + c)).toInt)
          (apfItransRecon funcIdx).transSize →
        apfItransReconDc (5 ≤ funcIdx) pu1Pred predStrd (pi2Src 0) row col =
          (apfItransRecon funcIdx).run pi2Src pi2Tmp pu1Pred srcStrd predStrd zeroCols zeroRows
            row col) := by
  obtain ⟨limits, hf⟩ := apfItransRecon_computes funcIdx
  have hrun := hf.run hmask pi2Tmp pu1Pred predStrd hrow hcol
  refine ⟨hrun, fun hne hdc => ?_⟩
  have htype : (transformOf funcIdx).trType ≠ 1 := by simp [transformOf, hne]
  have hstep := apfItransReconDc_eq funcIdx pu1Pred predStrd (pi2Src 0) row col
  rw [hrun, hstep, itransReconDc_eq, Spec.Transform.recSample,
    Spec.Transform.residual_dc htype hdc hrow, Nat.zero_mul]

/-- A block of one DC coefficient of 64 adds 1 to every sample, here to the last one. -/
theorem apfItransRecon_eq_recSample_dc :
    (apfItransRecon 4).run (fun a => if a = 0 then 64 else 0) (fun _ _ => 7) (fun _ => 100) 32 32
        0xFFFFFFFE#32 0xFFFFFFFE#32 31 31 = some 101 := by
  have hmask : ZeroMasks (fun r c => (if r * 32 + c = 0 then 64 else 0 : Int16).toInt) 32
      0xFFFFFFFE#32 0xFFFFFFFE#32 := by constructor <;> decide +kernel
  have hdc : DcOnly (fun r c => (if r * 32 + c = 0 then 64 else 0 : Int16).toInt) 32 := by
    unfold DcOnly
    decide +kernel
  have h := apfItransRecon_eq_recSample 4 (fun a => if a = 0 then 64 else 0) (fun _ _ => 7)
    (fun _ => 100) 32 32 0xFFFFFFFE#32 0xFFFFFFFE#32 hmask 31 31 (by decide) (by decide)
  have hvalue : itransReconDc 100 64 = some 101 :=
    (itransReconDc_eq 100 64).trans (congrArg some (by decide +kernel))
  exact (h.2 (by decide) hdc).symm.trans hvalue

end Libhevc
