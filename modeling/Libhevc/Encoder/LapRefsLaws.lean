import Libhevc.Encoder.LapOrder
import Mathlib.Data.List.Perm.Basic

/-!
# The reference sets of the look-ahead

One picture after the other: what the shared array holds before a picture, what the
picture gets from it, and what it leaves.
-/

namespace Libhevc.Encoder

open Memory

-- ---------------------------------------------------------------------------
-- The array
-- ---------------------------------------------------------------------------

/-- The POCs that may be referred to. -/
def LapStruct.refs (s : LapStruct) : List Int := front s.refPocArray s.i4CurrRefPics

/-- What `updateRefPocArray` leaves. -/
structure RefsUpdated (p : LapStaticParams) (poc : Int) (i4IsRefPic : Nat) (s s' : LapStruct) :
    Prop where
  count : s'.i4CurrRefPics ≤ p.i4MaxReferenceFrames
  grows : s.i4CurrRefPics ≤ s'.i4CurrRefPics
  nodup : s'.refs.Nodup
  sub : ∀ x ∈ s'.refs, x ∈ s.refs ∨ i4IsRefPic ≠ 0 ∧ x = poc
  keeps : ∀ x ∈ s.refs, poc ≤ x → x ∈ s'.refs
  self : i4IsRefPic ≠ 0 → (∀ x ∈ s.refs, x < poc) → poc ∈ s'.refs
  behind : ∀ i, s'.i4CurrRefPics ≤ i → s'.refPocArray i = s.refPocArray i
  cells : ∀ i, s'.refPocArray i = poc ∨ ∃ j, s'.refPocArray i = s.refPocArray j

theorem sorted_done (n : Nat) (m : Nat → Int) :
    PassesDone id (n - 1) n m (passes (fun i => exchangeFrom id i (n - 1 - i)) (n - 1) m) :=
  passes_done (fun _ hi m => exchangePass_pass (by omega) m) m

theorem deltas_done (n : Nat) (m : Nat → Int) :
    PassesDone Int.natAbs n n m (passes (selectPass Int.natAbs n) n m) :=
  passes_done (fun _ hi m => selectPass_pass hi m) m

theorem PassesDone.cell {key : α → κ} [LinearOrder κ] (h : PassesDone key k n m m') (i : Nat) :
    ∃ j, m' i = m j := by
  by_cases hi : i < n
  · obtain ⟨j, -, hj⟩ := mem_front.mp (h.perm.mem_iff.mp (front_mem m' hi))
    exact ⟨j, hj.symm⟩
  · exact ⟨i, h.frame i (Nat.le_of_not_lt hi)⟩

theorem front_set_zero (m : Nat → α) (v : α) (n : Nat) :
    front (set m 0 v) (n + 1) = v :: front (fun i => m (i + 1)) n := by
  rw [front_cons, set_same]
  exact congrArg _ (front_congr fun i _ => set_ne (Nat.succ_ne_zero i))

/-- A place with a POC that is not above the others: it comes first. -/
theorem grown_front {m m' : Nat → Int} (h : PassesDone id (n + 1 - 1) (n + 1) m m')
    (hstale : ∀ x ∈ front m n, m n ≤ x) :
    m' 0 = m n ∧ (front (fun i => m' (i + 1)) n).Perm (front m n) := by
  have hperm : (m' 0 :: front (fun i => m' (i + 1)) n).Perm (m n :: front m n) := by
    rw [← front_cons]
    refine h.perm.trans ?_
    rw [front_succ]
    exact List.perm_append_comm
  have hle : m' 0 ≤ m n := by
    refine h.least (Nat.le_refl (n + 1)) ?_
    rw [front_cons]
    exact hperm.mem_iff.mpr (List.mem_cons_self ..)
  have hge : m n ≤ m' 0 := by
    rcases List.mem_cons.mp (hperm.mem_iff.mp (List.mem_cons_self ..)) with heq | hmem
    · exact Int.le_of_eq heq.symm
    · exact hstale _ hmem
  have heq : m' 0 = m n := Int.le_antisymm hle hge
  rw [heq] at hperm
  exact ⟨heq, hperm.cons_inv⟩

theorem updateRefPocArray_spec {p : LapStaticParams} {poc : Int} {i4IsRefPic : Nat} {s : LapStruct}
    (hmax : 0 < p.i4MaxReferenceFrames) (hcount : s.i4CurrRefPics ≤ p.i4MaxReferenceFrames)
    (hnodup : s.refs.Nodup) (hself : poc ∉ s.refs)
    (hstale : ∀ i, s.i4CurrRefPics ≤ i →
      s.refPocArray i < poc ∧ ∀ x ∈ s.refs, s.refPocArray i ≤ x) :
    RefsUpdated p poc i4IsRefPic s (updateRefPocArray p poc i4IsRefPic s) := by
  obtain ⟨m, n, gop, irap, cra, flag⟩ := s
  unfold LapStruct.refs at hnodup hself hstale
  simp only at hcount hnodup hself hstale
  by_cases hgrow : n < p.i4MaxReferenceFrames ∧ i4IsRefPic ≠ 0
  · have hdone := sorted_done (n + 1) m
    have hset : updateRefPocArray p poc i4IsRefPic ⟨m, n, gop, irap, cra, flag⟩ =
        ⟨set (passes (fun i => exchangeFrom id i (n + 1 - 1 - i)) (n + 1 - 1) m) 0 poc, n + 1, gop,
          irap, cra, flag⟩ := by
      obtain ⟨heq, -⟩ := grown_front hdone (hstale n (Nat.le_refl n)).2
      have hless := (hstale n (Nat.le_refl n)).1
      rw [← heq] at hless
      unfold updateRefPocArray
      simp only [if_pos hgrow, if_pos (And.intro hgrow.2 hless)]
    rw [hset]
    generalize passes (fun i => exchangeFrom id i (n + 1 - 1 - i)) (n + 1 - 1) m = m' at hdone
    obtain ⟨-, hperm⟩ := grown_front hdone (hstale n (Nat.le_refl n)).2
    have hfront : (front (set m' 0 poc) (n + 1)).Perm (poc :: front m n) := by
      rw [front_set_zero]
      exact hperm.cons poc
    refine ⟨hgrow.1, Nat.le_succ n, ?_, fun x hx => ?_, fun x hx _ => ?_, fun _ _ => ?_,
      fun i hi => ?_, fun i => ?_⟩
    · exact hfront.nodup_iff.mpr (List.nodup_cons.mpr ⟨hself, hnodup⟩)
    · rcases List.mem_cons.mp (hfront.mem_iff.mp hx) with rfl | hmem
      · exact .inr ⟨hgrow.2, rfl⟩
      · exact .inl hmem
    · exact hfront.mem_iff.mpr (List.mem_cons_of_mem _ hx)
    · exact hfront.mem_iff.mpr (List.mem_cons_self ..)
    · exact (set_ne (Nat.ne_of_gt (Nat.lt_of_lt_of_le (Nat.succ_pos n) hi))).trans (hdone.frame i hi)
    · by_cases hzero : i = 0
      · exact .inl (hzero ▸ set_same)
      · obtain ⟨j, hj⟩ := PassesDone.cell hdone i
        exact .inr ⟨j, (set_ne hzero).trans hj⟩
  · have hdone := sorted_done n m
    have hset : updateRefPocArray p poc i4IsRefPic ⟨m, n, gop, irap, cra, flag⟩ =
        ⟨if i4IsRefPic ≠ 0 ∧ passes (fun i => exchangeFrom id i (n - 1 - i)) (n - 1) m 0 < poc then
            set (passes (fun i => exchangeFrom id i (n - 1 - i)) (n - 1) m) 0 poc
          else passes (fun i => exchangeFrom id i (n - 1 - i)) (n - 1) m, n, gop, irap, cra,
          flag⟩ := by
      unfold updateRefPocArray
      simp only [if_neg hgrow]
    rw [hset]
    generalize passes (fun i => exchangeFrom id i (n - 1 - i)) (n - 1) m = m' at hdone
    by_cases hput : i4IsRefPic ≠ 0 ∧ m' 0 < poc
    · rw [if_pos hput]
      -- the array is full, so there is a first place
      obtain ⟨k, rfl⟩ : ∃ k, n = k + 1 := Nat.exists_eq_succ_of_ne_zero fun hzero =>
        hgrow ⟨hzero ▸ hmax, hput.1⟩
      have hold : (m' 0 :: front (fun i => m' (i + 1)) k).Perm (front m (k + 1)) := by
        rw [← front_cons]
        exact hdone.perm
      have hmem (x : Int) (hx : x ∈ front (fun i => m' (i + 1)) k) : x ∈ front m (k + 1) :=
        hold.mem_iff.mp (List.mem_cons_of_mem _ hx)
      have hfront : front (set m' 0 poc) (k + 1) = poc :: front (fun i => m' (i + 1)) k :=
        front_set_zero m' poc k
      refine ⟨hcount, Nat.le_refl _, ?_, fun x hx => ?_, fun x hx hle => ?_, fun _ _ => ?_,
        fun i hi => ?_, fun i => ?_⟩
      · unfold LapStruct.refs
        rw [hfront]
        exact List.nodup_cons.mpr ⟨fun hin => hself (hmem poc hin),
          (List.nodup_cons.mp (hold.nodup_iff.mpr hnodup)).2⟩
      · unfold LapStruct.refs at hx
        rw [hfront] at hx
        rcases List.mem_cons.mp hx with rfl | hx
        · exact .inr ⟨hput.1, rfl⟩
        · exact .inl (hmem x hx)
      · unfold LapStruct.refs
        rw [hfront]
        rcases List.mem_cons.mp (hold.mem_iff.mpr hx) with rfl | hx
        · exact absurd hput.2 (Int.not_lt.mpr hle)
        · exact List.mem_cons_of_mem _ hx
      · unfold LapStruct.refs
        rw [hfront]
        exact List.mem_cons_self ..
      · exact (set_ne (Nat.ne_of_gt (Nat.lt_of_lt_of_le (Nat.succ_pos k) hi))).trans
          (hdone.frame i hi)
      · by_cases hzero : i = 0
        · exact .inl (hzero ▸ set_same)
        · obtain ⟨j, hj⟩ := PassesDone.cell hdone i
          exact .inr ⟨j, (set_ne hzero).trans hj⟩
    · rw [if_neg hput]
      refine ⟨hcount, Nat.le_refl _, hdone.perm.nodup_iff.mpr hnodup,
        fun x hx => .inl (hdone.perm.mem_iff.mp hx), fun x hx _ => hdone.perm.mem_iff.mpr hx,
        fun href hall => ?_, fun i hi => hdone.frame i hi, fun i => .inr (PassesDone.cell hdone i)⟩
      have hpos : 0 < n := Nat.pos_of_ne_zero fun hzero => hgrow ⟨hzero ▸ hmax, href⟩
      exact absurd ⟨href, hall _ (hdone.perm.mem_iff.mp (front_mem m' hpos))⟩ hput

-- ---------------------------------------------------------------------------
-- The set of a picture
-- ---------------------------------------------------------------------------

/-- The POCs given to the picture. -/
def LapOut.refPocs (o : LapOut) : List Int :=
  o.asRefPics.map fun a => o.i4Poc + a.i4RefPicDeltaPoc

theorem refPicsWeightOffsetCalc_perm (poc : Int) (s : LapStruct) :
    ((refPicsWeightOffsetCalc poc s).map fun a => poc + a.i4RefPicDeltaPoc).Perm s.refs := by
  have hdone := deltas_done s.i4CurrRefPics fun i => s.refPocArray i - poc
  have hmap := hdone.perm.map (poc + ·)
  unfold refPicsWeightOffsetCalc LapStruct.refs
  unfold front at hmap ⊢
  simp only [List.map_map, Function.comp_def, add_sub_cancel] at hmap ⊢
  exact hmap

theorem refPicsWeightOffsetCalc_sorted (poc : Int) (s : LapStruct) :
    (refPicsWeightOffsetCalc poc s).Pairwise fun a b =>
      a.i4RefPicDeltaPoc.natAbs ≤ b.i4RefPicDeltaPoc.natAbs := by
  have hdone := deltas_done s.i4CurrRefPics fun i => s.refPocArray i - poc
  have hpair := hdone.pairwise (Nat.le_succ _)
  unfold refPicsWeightOffsetCalc
  unfold front at hpair
  rw [List.pairwise_map] at hpair ⊢
  exact hpair

end Libhevc.Encoder
