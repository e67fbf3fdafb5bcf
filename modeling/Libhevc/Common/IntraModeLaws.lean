import Libhevc.Common.IntraFilterLaws
import Mathlib.Tactic.IntervalCases

/-!
# The prediction modes

Each prediction function gives the sample of section 8.4.4.2.4, 8.4.4.2.5 or 8.4.4.2.6 from an
array that holds the reference samples, and reads nothing outside it.
-/

namespace Libhevc.IntraPred

open Cells Spec.IntraPred

variable {nt row col : Nat} {p : Samples} {b : Cells Int}

/-- The block sizes. -/
def Size (nt : Nat) : Prop := nt = 4 ∨ nt = 8 ∨ nt = 16 ∨ nt = 32

theorem Size.pos (h : Size nt) : 0 < nt := by unfold Size at h; omega

theorem Size.log2 (h : Size nt) : log2nt nt = Nat.log2 nt ∧ 2 ^ (Nat.log2 nt + 1) = 2 * nt := by
  rcases h with rfl | rfl | rfl | rfl <;> decide

theorem linear_byte (hlo : 0 ≤ w) (hhi : w ≤ 32) (ha : Byte a) (hc : Byte c) :
    linear w a c = ((32 - w) * a + w * c + 16) / 32 :=
  u8_of_byte (blend_byte (n := 32) (.inl rfl) hlo hhi ha hc)

-- ---------------------------------------------------------------------------
-- Planar and DC
-- ---------------------------------------------------------------------------

theorem ihevcIntraPredLumaPlanar_spec (h : Holds nt p b) (hnt : Size nt) (hrow : row < nt)
    (hcol : col < nt) :
    ihevcIntraPredLumaPlanar nt b row col = some (planar p nt col row) := by
  obtain ⟨hl, hlb⟩ := h.left (y := row) (i := 2 * nt - 1 - row) (by omega) (by omega) rfl
  obtain ⟨htr, htrb⟩ := h.top (x := nt) (i := 3 * nt + 1) (by omega) (by omega) (by omega)
  obtain ⟨ht, htb⟩ := h.top (x := col) (i := 2 * nt + 1 + col) (by omega) (by omega) rfl
  obtain ⟨hbl, hblb⟩ := h.left (y := nt) (i := nt - 1) (by omega) (by omega) (by omega)
  have hpow : ((2 : Int) ^ (Nat.log2 nt + 1)) = 2 * nt := by exact_mod_cast hnt.log2.2
  rw [ihevcIntraPredLumaPlanar, hl, htr, ht, hbl]
  refine congrArg some ?_
  rw [hnt.log2.1, planar, hpow]
  refine u8_of_byte ?_
  have hweight : ∀ w a : Int, 0 ≤ w → Byte a → 0 ≤ w * a ∧ w * a ≤ w * 255 := fun w a hw ha =>
    ⟨mul_nonneg hw ha.1, mul_le_mul_of_nonneg_left ha.2 hw⟩
  have h1 := hweight (nt - 1 - col) _ (by omega) hlb
  have h2 := hweight (col + 1) _ (by omega) htrb
  have h3 := hweight (nt - 1 - row) _ (by omega) htb
  have h4 := hweight (row + 1) _ (by omega) hblb
  have hsize : 0 < 2 * (nt : Int) := by have := hnt.pos; omega
  constructor
  · exact Int.ediv_nonneg (by omega) hsize.le
  · rw [← Int.lt_add_one_iff]
    refine Int.ediv_lt_of_lt_mul hsize ?_
    omega

theorem accDc_spec {lo len : Nat} {f : Nat → Int}
    (hf : ∀ k : Nat, k < len → refAt nt b ((lo : Int) + k) = some (f k)) :
    accDc nt b lo acc len = some (acc + ((List.range len).map f).sum) := by
  induction len with
  | zero => simp [accDc]
  | succ len ih =>
    rw [accDc, ih fun k hk => hf k (by omega), List.range_succ]
    simp [hf len (by omega), add_assoc]

theorem sum_range_reflect (f : Nat → Int) (n : Nat) :
    ((List.range n).map fun k => f (n - 1 - k)).sum = ((List.range n).map f).sum := by
  induction n with
  | zero => rfl
  | succ n ih =>
    rw [List.range_succ_eq_map, List.map_cons, List.map_map, List.sum_cons,
      List.range_succ_eq_map.symm, List.range_succ, List.map_append, List.sum_append, ← ih]
    simp only [Function.comp_def, List.map_cons, List.map_nil, List.sum_singleton,
      Nat.succ_eq_add_one, Nat.add_sub_cancel, Nat.sub_zero]
    rw [add_comm]
    congr 3
    funext k
    congr 1
    omega

theorem sum_byte {f : Nat → Int} {n : Nat} (hf : ∀ k < n, Byte (f k)) :
    0 ≤ ((List.range n).map f).sum ∧ ((List.range n).map f).sum ≤ 255 * n := by
  induction n with
  | zero => simp
  | succ n ih =>
    have hbefore := ih fun k hk => hf k (by omega)
    have hlast := hf n (by omega)
    unfold Byte at hlast
    rw [List.range_succ, List.map_append, List.sum_append, List.map_singleton, List.sum_singleton]
    push_cast
    omega

theorem dcVal_spec (h : Holds nt p b) (hnt : Size nt) :
    IntraPred.dcVal nt b = some (Spec.IntraPred.dcVal p nt) ∧ Byte (Spec.IntraPred.dcVal p nt) := by
  have hleft : accDc nt b (nt : Nat) 0 nt =
      some (0 + ((List.range nt).map fun k => p (-1) ((nt - 1 - k : Nat) : Int)).sum) :=
    accDc_spec fun k hk => (h.left (by omega) (by omega) (by omega)).1
  rw [sum_range_reflect (fun y => p (-1) (y : Nat)), Int.zero_add] at hleft
  have htop : ∀ acc, accDc nt b ((2 * nt + 1 : Nat) : Int) acc nt =
      some (acc + ((List.range nt).map fun x : Nat => p x (-1)).sum) :=
    fun acc => accDc_spec fun k hk => (h.top (by omega) (by omega) (by push_cast; omega)).1
  push_cast at htop
  have hpow : ((2 : Int) ^ (Nat.log2 nt + 1)) = 2 * nt := by exact_mod_cast hnt.log2.2
  have hl : ∀ k < nt, Byte (p (-1) (k : Nat)) := fun k hk =>
    (h.left (y := k) (by omega) (by omega) rfl).2
  have ht : ∀ k < nt, Byte (p (k : Nat) (-1)) := fun k hk =>
    (h.top (x := k) (by omega) (by omega) rfl).2
  have hsl := sum_byte hl
  have hst := sum_byte ht
  have hpos := hnt.pos
  constructor
  · rw [IntraPred.dcVal, hleft]
    simp only [Option.bind_eq_bind, Option.bind_some, htop]
    rw [hnt.log2.1, Spec.IntraPred.dcVal, add_comm (List.sum _)]
    rfl
  · rw [Spec.IntraPred.dcVal, hpow]
    constructor
    · exact Int.ediv_nonneg (by omega) (by omega)
    · rw [← Int.lt_add_one_iff]
      refine Int.ediv_lt_of_lt_mul (by omega) ?_
      omega

theorem ihevcIntraPredLumaDc_spec (h : Holds nt p b) (hnt : Size nt) (hrow : row < nt)
    (hcol : col < nt) : ihevcIntraPredLumaDc nt b row col = some (dc p nt col row) := by
  obtain ⟨hdc, hbyte⟩ := dcVal_spec h hnt
  obtain ⟨hl, hlb⟩ := h.left (y := row) (i := 2 * nt - 1 - row) (by omega) (by omega) rfl
  obtain ⟨ht, htb⟩ := h.top (x := col) (i := 2 * nt + 1 + col) (by omega) (by omega) rfl
  obtain ⟨hl0, hlb0⟩ := h.left (y := 0) (i := 2 * nt - 1) (by omega) (by omega) (by omega)
  obtain ⟨ht0, htb0⟩ := h.top (x := 0) (i := 2 * nt + 1) (by omega) (by omega) (by omega)
  rw [ihevcIntraPredLumaDc, hdc, dc]
  simp only [Option.bind_eq_bind, Option.bind_some, hl, ht, hl0, ht0]
  unfold Byte at *
  by_cases h32 : nt = 32
  · rw [if_pos h32, if_neg (by omega)]
    exact congrArg some (u8_of_byte hbyte)
  · have hlt : nt < 32 := by unfold Size at hnt; omega
    rw [if_neg h32, if_pos hlt]
    by_cases hrow0 : row = 0
    · by_cases hcol0 : col = 0
      · rw [if_pos ⟨hrow0, hcol0⟩, if_pos ⟨hcol0, hrow0⟩]
        exact congrArg some (u8_of_byte (by unfold Byte; omega))
      · rw [if_neg (by omega), if_pos hrow0, if_neg (by omega), if_pos hrow0]
        exact congrArg some (u8_of_byte (by unfold Byte; omega))
    · by_cases hcol0 : col = 0
      · rw [if_neg (by omega), if_neg hrow0, if_pos hcol0, if_neg (by omega), if_neg hrow0,
          if_pos hcol0]
        exact congrArg some (u8_of_byte (by unfold Byte; omega))
      · rw [if_neg (by omega), if_neg hrow0, if_neg hcol0, if_neg (by omega), if_neg hrow0,
          if_neg hcol0]
        exact congrArg some (u8_of_byte hbyte)

-- ---------------------------------------------------------------------------
-- Horizontal and vertical
-- ---------------------------------------------------------------------------

theorem interpolated_zero (hang : intraPredAngle mode = 0) (along across : Nat) :
    interpolated p mode along across = refArray p mode (along + 1) := by
  simp [interpolated, hang]

theorem boundary_eq {i j k : Int} {x y z : Int} (hx : refAt nt b i = some x ∧ Byte x)
    (hy : refAt nt b j = some y ∧ Byte y) (hz : refAt nt b k = some z ∧ Byte z) :
    boundary nt b i j k = some (clip1 (x + (y - z) / 2)) := by
  obtain ⟨hx, hxb⟩ := hx
  obtain ⟨hy, hyb⟩ := hy
  obtain ⟨hz, hzb⟩ := hz
  rw [boundary, hx, hy, hz]
  refine congrArg some ?_
  unfold Byte at *
  have hword : i16 (x + (y - z) / 2) = x + (y - z) / 2 :=
    wrapInt_of_bounds (by decide) (by omega) (by omega)
  rw [hword, ItransRecon.clipU8, Libhevc.clip3, clip1, u8]
  split_ifs <;> omega

theorem ihevcIntraPredLumaHorz_spec (h : Holds nt p b) (hnt : Size nt) (hrow : row < nt)
    (hcol : col < nt) (dis : Bool) : ihevcIntraPredLumaHorz nt b row col dis =
      some (angular p 10 nt dis col row) := by
  have hl := h.left (y := row) (i := 2 * nt - 1 - row) (by omega) (by omega) rfl
  have ht := h.top (x := col) (i := 2 * nt + 1 + col) (by omega) (by omega) rfl
  have hl0 := h.left (y := 0) (i := 2 * nt - 1) (by omega) (by omega) (by omega)
  have hc := h.left (y := -1) (i := 2 * nt) (by omega) (by omega) (by omega)
  have hplain : interpolated p 10 row col = p (-1) row := by
    rw [interpolated_zero rfl, refArray, if_neg (by decide), if_neg (by omega)]
    congr 1
    omega
  rw [ihevcIntraPredLumaHorz, angular, if_neg (show ¬18 ≤ 10 by decide), hplain]
  by_cases hoff : nt = 32 ∨ dis = true
  · rw [if_pos hoff, if_neg (by rcases hoff with h | h <;> simp [h]), hl.1]
  · have hlt : nt < 32 := by unfold Size at hnt; omega
    have hdis : dis = false := by simpa using fun hd => hoff (.inr hd)
    rw [if_neg hoff]
    by_cases hrow0 : row = 0
    · rw [if_pos hrow0, if_pos ⟨rfl, hrow0, hdis, hlt⟩, boundary_eq hl0 ht hc]
    · rw [if_neg hrow0, if_neg fun hall => hrow0 hall.2.1, hl.1]

theorem ihevcIntraPredLumaVer_spec (h : Holds nt p b) (hnt : Size nt) (hrow : row < nt)
    (hcol : col < nt) (dis : Bool) : ihevcIntraPredLumaVer nt b row col dis =
      some (angular p 26 nt dis col row) := by
  have hl := h.left (y := row) (i := 2 * nt - 1 - row) (by omega) (by omega) rfl
  have ht := h.top (x := col) (i := 2 * nt + 1 + col) (by omega) (by omega) rfl
  have ht0 := h.top (x := 0) (i := 2 * nt + 1) (by omega) (by omega) (by omega)
  have hc := h.left (y := -1) (i := 2 * nt) (by omega) (by omega) (by omega)
  have hplain : interpolated p 26 col row = p col (-1) := by
    rw [interpolated_zero rfl, refArray, if_pos (by decide), if_neg (by omega)]
    congr 1
    omega
  rw [ihevcIntraPredLumaVer, angular, if_pos (show 18 ≤ 26 by decide), hplain]
  by_cases hoff : nt = 32 ∨ dis = true
  · rw [if_pos hoff, if_neg (by rcases hoff with h | h <;> simp [h]), ht.1]
  · have hlt : nt < 32 := by unfold Size at hnt; omega
    have hdis : dis = false := by simpa using fun hd => hoff (.inr hd)
    rw [if_neg hoff]
    by_cases hcol0 : col = 0
    · rw [if_pos hcol0, if_pos ⟨rfl, hcol0, hdis, hlt⟩, boundary_eq ht0 hl hc]
    · rw [if_neg hcol0, if_neg fun hall => hcol0 hall.2.1, ht.1]

-- ---------------------------------------------------------------------------
-- Angular modes
-- ---------------------------------------------------------------------------

theorem angOf_eq (hlo : 2 ≤ mode) (hhi : mode < 35) : angOf mode = intraPredAngle mode := by
  have hall : ∀ m < 35, 2 ≤ m → angOf m = intraPredAngle m := by decide
  exact hall mode hhi hlo

/-- With the fraction 0 the filter gives its first sample. -/
theorem interpolated_linear (along across : Nat) :
    let pos := (across + 1) * intraPredAngle mode
    interpolated p mode along across =
      ((32 - pos % 32) * refArray p mode (along + pos / 32 + 1) +
        pos % 32 * refArray p mode (along + pos / 32 + 2) + 16) / 32 := by
  dsimp only [interpolated]
  split_ifs with hfract
  · rfl
  · rw [not_not] at hfract
    rw [hfract]
    omega

theorem angular_of_low (hmode : mode < 18) (h10 : mode ≠ 10) (dis : Bool) :
    angular p mode nt dis col row = interpolated p mode row col := by
  rw [angular, if_neg (by omega), if_neg fun hall => h10 hall.1]

theorem angular_of_high (hmode : 18 ≤ mode) (h26 : mode ≠ 26) (dis : Bool) :
    angular p mode nt dis col row = interpolated p mode col row := by
  rw [angular, if_pos hmode, if_neg fun hall => h26 hall.1]

/-- The main side of the modes below 18, and that of the others. -/
theorem refArray_left (hmode : mode < 18) (hx : 0 ≤ x) (hy : y = x - 1) :
    refArray p mode x = p (-1) y := by
  rw [refArray, if_neg (by omega), if_neg (by omega), hy]
  congr 1
  omega

theorem refArray_top (hmode : 18 ≤ mode) (hx : 0 ≤ x) (hy : y = x - 1) :
    refArray p mode x = p y (-1) := by
  rw [refArray, if_pos hmode, if_neg (by omega), hy]
  congr 1
  omega

theorem ihevcIntraPredLumaMode2_spec (h : Holds nt p b) (hrow : row < nt) (hcol : col < nt)
    (dis : Bool) : ihevcIntraPredLumaMode2 nt b row col = some (angular p 2 nt dis col row) := by
  have hang : intraPredAngle 2 = 32 := rfl
  rw [ihevcIntraPredLumaMode2, angular_of_low (by decide) (by decide), interpolated_linear, hang,
    refArray_left (y := row + col + 1) (by decide) (by omega) (by omega)]
  rw [(h.left (y := row + col + 1) (by omega) (by omega) (by omega)).1]
  congr 1
  have hzero : ((col : Int) + 1) * 32 % 32 = 0 := by omega
  rw [hzero]
  omega

theorem ihevcIntraPredLumaMode34_spec (h : Holds nt p b) (hrow : row < nt) (hcol : col < nt)
    (dis : Bool) :
    ihevcIntraPredLumaMode1834 nt b row col 34 = some (angular p 34 nt dis col row) := by
  have hang : intraPredAngle 34 = 32 := rfl
  rw [ihevcIntraPredLumaMode1834, angular_of_high (by decide) (by decide), interpolated_linear,
    hang, refArray_top (y := row + col + 1) (by decide) (by omega) (by omega)]
  rw [if_neg (by decide), (h.top (x := row + col + 1) (by omega) (by omega) (by omega)).1]
  congr 1
  have hzero : ((row : Int) + 1) * 32 % 32 = 0 := by omega
  rw [hzero]
  omega

theorem ihevcIntraPredLumaMode18_spec (h : Holds nt p b) (hrow : row < nt) (hcol : col < nt)
    (dis : Bool) :
    ihevcIntraPredLumaMode1834 nt b row col 18 = some (angular p 18 nt dis col row) := by
  have hang : intraPredAngle 18 = -32 := rfl
  have hidx : (col : Int) + ((row : Int) + 1) * -32 / 32 + 1 = col - row := by omega
  have hzero : ((row : Int) + 1) * -32 % 32 = 0 := by omega
  rw [ihevcIntraPredLumaMode1834, angular_of_high (by decide) (by decide), interpolated_linear,
    hang, hidx, hzero, if_pos rfl]
  by_cases hle : row ≤ col
  · rw [refArray_top (y := col - row - 1) (by decide) (by omega) (by omega),
      (h.top (x := col - row - 1) (by omega) (by omega) (by omega)).1]
    congr 1
    omega
  · have hinv : invAngle 18 = -256 := rfl
    rw [refArray, if_pos (by decide), if_pos (by omega), hinv,
      (h.left (y := row - col - 1) (by omega) (by omega) (by omega)).1,
      show -1 + (((col : Int) - row) * -256 + 128) / 256 = row - col - 1 by omega]
    congr 1
    omega

section Positive

/-- Where a positive angle leads to within the block. -/
theorem across_pos {a : Int} {k : Nat} (hk : k < nt) (hlo : 0 < a) (hhi : a ≤ 26) :
    0 ≤ ((k : Int) + 1) * a / 32 ∧ ((k : Int) + 1) * a / 32 < nt ∧
      0 ≤ ((k : Int) + 1) * a % 32 ∧ ((k : Int) + 1) * a % 32 ≤ 32 := by
  have h1 : 0 ≤ ((k : Int) + 1) * a := mul_nonneg (by omega) hlo.le
  have h2 : ((k : Int) + 1) * a ≤ (k + 1) * 26 := mul_le_mul_of_nonneg_left hhi (by omega)
  refine ⟨by omega, by omega, by omega, by omega⟩

theorem ihevcIntraPredLumaMode3To9_spec (h : Holds nt p b) (hrow : row < nt) (hcol : col < nt)
    (hlo : 3 ≤ mode) (hhi : mode ≤ 9) (dis : Bool) :
    ihevcIntraPredLumaMode3To9 nt b row col mode = some (angular p mode nt dis col row) := by
  have hang : 0 < intraPredAngle mode ∧ intraPredAngle mode ≤ 26 := by
    interval_cases mode <;> decide
  obtain ⟨hidx, hidx', hf, hf'⟩ := across_pos hcol hang.1 hang.2
  rw [ihevcIntraPredLumaMode3To9, angOf_eq (by omega) (by omega),
    angular_of_low (by omega) (by omega), interpolated_linear]
  generalize ((col : Int) + 1) * intraPredAngle mode = pos at *
  obtain ⟨ha, hab⟩ := h.left (y := row + pos / 32) (i := 2 * nt - row - pos / 32 - 1) (by omega)
    (by omega) (by omega)
  obtain ⟨hb, hbb⟩ := h.left (y := row + pos / 32 + 1) (i := 2 * nt - row - pos / 32 - 1 - 1)
    (by omega) (by omega) (by omega)
  rw [ha, hb, refArray_left (y := row + pos / 32) (by omega) (by omega) (by omega),
    refArray_left (y := row + pos / 32 + 1) (by omega) (by omega) (by omega)]
  exact congrArg some (linear_byte hf hf' hab hbb)

theorem ihevcIntraPredLumaMode27To33_spec (h : Holds nt p b) (hrow : row < nt) (hcol : col < nt)
    (hlo : 27 ≤ mode) (hhi : mode ≤ 33) (dis : Bool) :
    ihevcIntraPredLumaMode27To33 nt b row col mode = some (angular p mode nt dis col row) := by
  have hang : 0 < intraPredAngle mode ∧ intraPredAngle mode ≤ 26 := by
    interval_cases mode <;> decide
  obtain ⟨hidx, hidx', hf, hf'⟩ := across_pos hrow hang.1 hang.2
  rw [ihevcIntraPredLumaMode27To33, angOf_eq (by omega) (by omega),
    angular_of_high (by omega) (by omega), interpolated_linear]
  generalize ((row : Int) + 1) * intraPredAngle mode = pos at *
  obtain ⟨ha, hab⟩ := h.top (x := col + pos / 32) (i := 2 * nt + col + pos / 32 + 1) (by omega)
    (by omega) (by omega)
  obtain ⟨hb, hbb⟩ := h.top (x := col + pos / 32 + 1) (i := 2 * nt + col + pos / 32 + 1 + 1)
    (by omega) (by omega) (by omega)
  rw [ha, hb, refArray_top (y := col + pos / 32) (by omega) (by omega) (by omega),
    refArray_top (y := col + pos / 32 + 1) (by omega) (by omega) (by omega)]
  exact congrArg some (linear_byte hf hf' hab hbb)

end Positive

section Negative

variable {a inv : Int} {R : Int → Int} {main side : Int → Option Int}

/-- The loop is one of stores, with the running sum in closed form. -/
theorem extendRef_eq (temp : Cells Int) (k : Nat) :
    extendRef nt side inv temp k =
      (storeDown refTempSize ((nt - 2 : Nat) : Int) (fun j => side ((128 + (j + 1) * inv) / 2 ^ 8))
        temp k).map fun temp => (128 + k * inv, temp) := by
  induction k with
  | zero => simp [extendRef, storeDown]
  | succ k ih =>
    have hsum : 128 + (k : Int) * inv + inv = 128 + (k + 1) * inv := by ring
    rw [extendRef, ih, storeDown]
    cases storeDown refTempSize ((nt - 2 : Nat) : Int)
        (fun j => side ((128 + (j + 1) * inv) / 2 ^ 8)) temp k with
    | none => rfl
    | some t =>
      simp only [Option.map_some, Option.bind_eq_bind, Option.bind_some, hsum]
      cases side ((128 + (k + 1) * inv) / 2 ^ 8) with
      | none => rfl
      | some v =>
        simp only [Option.bind_some]
        cases store refTempSize t ((nt - 2 : Nat) - k : Int) v with
        | none => rfl
        | some t' => simp

/-- The lowest index of `ref_main`, which is not reached. -/
theorem refIdx_bounds (nt : Nat) (hlo : -26 ≤ a) (hhi : a < 0) :
    -(nt : Int) ≤ (nt * a) / 32 ∧ (nt * a) / 32 ≤ 0 := by
  have h1 : (nt : Int) * a ≤ 0 := mul_nonpos_of_nonneg_of_nonpos (by omega) hhi.le
  have h2 : (nt : Int) * -26 ≤ nt * a := mul_le_mul_of_nonneg_left hlo (by omega)
  omega

theorem refTemp_spec (R : Int → Int) (main side : Int → Option Int) (a inv : Int)
    (hnt : Size nt) (hlo : -26 ≤ a) (hhi : a < 0)
    (hmain : ∀ k : Nat, k ≤ nt → main k = some (R k))
    (hside : ∀ j : Nat, j < (-1 - nt * a / 32).toNat →
      side ((128 + (j + 1) * inv) / 2 ^ 8) = some (R (-1 - j))) :
    ∃ temp, refTemp nt main side a inv = some temp ∧ ∀ k : Int, nt * a / 32 < k → k ≤ nt →
      load refTempSize temp ((nt - 1 : Nat) + k) = some (R k) := by
  obtain ⟨hidx, hidx'⟩ := refIdx_bounds nt hlo hhi
  have hsize : 4 ≤ nt ∧ nt ≤ 32 := by unfold Size at hnt; omega
  have hup : storeUp refTempSize ((nt - 1 : Nat) : Int) (fun k => main k) fresh (nt + 1) = _ :=
    storeUp_eq (fun k hk => hmain k (by omega)) (by unfold refTempSize maxCuSize; omega)
  have hdown : ∀ t : Cells Int, storeDown refTempSize ((nt - 2 : Nat) : Int)
      (fun j => side ((128 + (j + 1) * inv) / 2 ^ 8)) t (-1 - nt * a / 32).toNat = _ := fun t =>
    storeDown_eq (fun j hj => hside j hj) (by unfold refTempSize maxCuSize; omega) (by omega)
  have hrun : refTemp nt main side a inv = some fun i =>
      if nt - 2 < i + (-1 - nt * a / 32).toNat ∧ i ≤ nt - 2 then some (R (-1 - (nt - 2 - i : Nat)))
      else if nt - 1 ≤ i ∧ i < nt - 1 + (nt + 1) then some (R (i - (nt - 1) : Nat))
      else fresh i := by
    rw [refTemp, hup]
    simp only [Option.bind_eq_bind, Option.bind_some, extendRef_eq, hdown, Option.map_some]
    rfl
  refine ⟨_, hrun, fun k hklo hkhi => ?_⟩
  rw [load_eq (by unfold refTempSize maxCuSize; omega)]
  by_cases hneg : k < 0
  · rw [if_pos (by omega)]
    congr 2
    omega
  · rw [if_neg (by omega), if_pos (by omega)]
    congr 2
    omega

theorem across_neg {k : Nat} (hk : k < nt) (hhi : a < 0) :
    nt * a / 32 ≤ ((k : Int) + 1) * a / 32 ∧ ((k : Int) + 1) * a / 32 ≤ -1 ∧
      0 ≤ ((k : Int) + 1) * a % 32 ∧ ((k : Int) + 1) * a % 32 ≤ 32 := by
  have h1 : (nt : Int) * a ≤ (k + 1) * a := mul_le_mul_of_nonpos_right (by omega) hhi.le
  have h2 : ((k : Int) + 1) * a < 0 := mul_neg_of_pos_of_neg (by omega) hhi
  refine ⟨by omega, by omega, by omega, by omega⟩

theorem fromRefTemp_spec {along across : Nat} {temp : Cells Int} (halong : along < nt)
    (hacross : across < nt) (hhi : a < 0)
    (htemp : ∀ k : Int, nt * a / 32 < k → k ≤ nt →
      load refTempSize temp ((nt - 1 : Nat) + k) = some (R k))
    (hbyte : ∀ k : Int, nt * a / 32 < k → k ≤ nt → Byte (R k)) :
    let pos := (across + 1) * a
    fromRefTemp nt temp a along across =
      some (((32 - pos % 32) * R (along + pos / 32 + 1) +
        pos % 32 * R (along + pos / 32 + 2) + 16) / 32) := by
  obtain ⟨hidx, hidx', hf, hf'⟩ := across_neg hacross hhi
  dsimp only [fromRefTemp]
  generalize ((across : Int) + 1) * a = pos at *
  rw [htemp (along + pos / 32 + 1) (by omega) (by omega),
    htemp (along + pos / 32 + 1 + 1) (by omega) (by omega), Int.add_assoc (_ + _) 1 1]
  exact congrArg some (linear_byte hf hf' (hbyte _ (by omega) (by omega))
    (hbyte _ (by omega) (by omega)))

/-- The samples of the other side that a negative mode takes. -/
theorem side_bounds (hnt : Size nt) (hlo : 11 ≤ mode) (hhi : mode ≤ 25) (h18 : mode ≠ 18)
    {j : Nat} (hj : j < (-1 - nt * intraPredAngle mode / 32).toNat) :
    0 ≤ (128 + (j + 1) * -invAngle mode) / 2 ^ 8 ∧
      (128 + (j + 1) * -invAngle mode) / 2 ^ 8 ≤ 2 * nt := by
  have hall : ∀ m < 26, 11 ≤ m → m ≠ 18 → ∀ n ∈ [4, 8, 16, 32],
      ∀ j < (-1 - (n : Nat) * intraPredAngle m / 32).toNat,
        0 ≤ (128 + ((j : Nat) + 1) * -invAngle m) / 2 ^ 8 ∧
          (128 + ((j : Nat) + 1) * -invAngle m) / 2 ^ 8 ≤ 2 * n := by
    decide +kernel
  exact hall mode (by omega) hlo h18 nt (by simpa [Size] using hnt) j hj

theorem negAngle (hlo : 11 ≤ mode) (hhi : mode ≤ 25) (h18 : mode ≠ 18) :
    -26 ≤ intraPredAngle mode ∧ intraPredAngle mode < 0 := by
  have hall : ∀ m < 26, 11 ≤ m → m ≠ 18 → -26 ≤ intraPredAngle m ∧ intraPredAngle m < 0 := by
    decide
  exact hall mode (by omega) hlo h18

/-- All entries of `ref` that are used are samples. -/
theorem refArray_byte (h : Holds nt p b) (hnt : Size nt) (hlo : 11 ≤ mode) (hhi : mode ≤ 25)
    (h18 : mode ≠ 18) (k : Int) (hk : nt * intraPredAngle mode / 32 < k) (hk' : k ≤ nt) :
    Byte (refArray p mode k) := by
  by_cases hneg : k < 0
  · obtain ⟨j, rfl⟩ : ∃ j : Nat, k = -1 - j := ⟨(-1 - k).toNat, by omega⟩
    obtain ⟨hs, hs'⟩ := side_bounds hnt hlo hhi h18 (j := j) (by omega)
    have hsum : (-1 - (j : Int)) * invAngle mode + 128 = 128 + (j + 1) * -invAngle mode := by ring
    rw [refArray, if_pos hneg, if_pos hneg, hsum]
    norm_num at hs hs' ⊢
    split_ifs
    · exact (h.left (by omega) (by omega) rfl).2
    · exact (h.top (by omega) (by omega) rfl).2
  · by_cases hmode : 18 ≤ mode
    · rw [refArray_top hmode (by omega) rfl]
      exact (h.top (by omega) (by omega) rfl).2
    · rw [refArray_left (by omega) (by omega) rfl]
      exact (h.left (by omega) (by omega) rfl).2

theorem ihevcIntraPredLumaMode11To17_spec (h : Holds nt p b) (hnt : Size nt) (hrow : row < nt)
    (hcol : col < nt) (hlo : 11 ≤ mode) (hhi : mode ≤ 17) (dis : Bool) :
    ihevcIntraPredLumaMode11To17 nt b row col mode = some (angular p mode nt dis col row) := by
  obtain ⟨hang, hang'⟩ := negAngle hlo (by omega) (by omega)
  have hinv : gai4IhevcInvAngTable.getD (mode - 11) 0 = -invAngle mode := by
    interval_cases mode <;> rfl
  obtain ⟨temp, htemp, hload⟩ := refTemp_spec (refArray p mode)
    (fun k => refAt nt b (2 * nt - k)) (fun s => refAt nt b (2 * nt + s))
    (intraPredAngle mode) (-invAngle mode) hnt hang hang' (fun k hk => by
      rw [refArray_left (y := k - 1) (by omega) (by omega) (by omega)]
      exact (h.left (by omega) (by omega) (by omega)).1) (fun j hj => by
      obtain ⟨hs, hs'⟩ := side_bounds hnt hlo (by omega) (by omega) hj
      have hsum : (-1 - (j : Int)) * invAngle mode + 128 = 128 + (j + 1) * -invAngle mode := by
        ring
      rw [refArray, if_neg (by omega), if_pos (by omega), hsum]
      norm_num at hs hs' ⊢
      exact (h.top (by omega) (by omega) (by omega)).1)
  rw [ihevcIntraPredLumaMode11To17, angOf_eq (by omega) (by omega), hinv, htemp,
    angular_of_low (by omega) (by omega), interpolated_linear]
  exact fromRefTemp_spec hrow hcol hang' hload
    (refArray_byte h hnt hlo (by omega) (by omega))

theorem ihevcIntraPredLumaMode19To25_spec (h : Holds nt p b) (hnt : Size nt) (hrow : row < nt)
    (hcol : col < nt) (hlo : 19 ≤ mode) (hhi : mode ≤ 25) (dis : Bool) :
    ihevcIntraPredLumaMode19To25 nt b row col mode = some (angular p mode nt dis col row) := by
  obtain ⟨hang, hang'⟩ := negAngle (by omega) hhi (by omega)
  have hinv : gai4IhevcInvAngTable.getD (mode - 12) 0 = -invAngle mode := by
    interval_cases mode <;> rfl
  obtain ⟨temp, htemp, hload⟩ := refTemp_spec (refArray p mode)
    (fun k => refAt nt b (2 * nt + k)) (fun s => refAt nt b (2 * nt - s))
    (intraPredAngle mode) (-invAngle mode) hnt hang hang' (fun k hk => by
      rw [refArray_top (y := k - 1) (by omega) (by omega) (by omega)]
      exact (h.top (by omega) (by omega) (by omega)).1) (fun j hj => by
      obtain ⟨hs, hs'⟩ := side_bounds hnt (by omega) hhi (by omega) hj
      have hsum : (-1 - (j : Int)) * invAngle mode + 128 = 128 + (j + 1) * -invAngle mode := by
        ring
      rw [refArray, if_pos (by omega), if_pos (by omega), hsum]
      norm_num at hs hs' ⊢
      exact (h.left (by omega) (by omega) (by omega)).1)
  rw [ihevcIntraPredLumaMode19To25, angOf_eq (by omega) (by omega), hinv, htemp,
    angular_of_high (by omega) (by omega), interpolated_linear]
  exact fromRefTemp_spec hcol hrow hang' hload
    (refArray_byte h hnt (by omega) hhi (by omega))

end Negative

/-- The functions that the decoder chooses from. -/
theorem intraPredLuma_spec (h : Holds nt p b) (hnt : Size nt) (hrow : row < nt) (hcol : col < nt)
    (hmode : mode < 35) (dis : Bool) :
    intraPredLuma nt b row col mode dis = some (predSample p mode nt dis col row) := by
  unfold intraPredLuma predSample
  by_cases h0 : mode = 0
  · rw [if_pos h0, if_pos h0, ihevcIntraPredLumaPlanar_spec h hnt hrow hcol]
  by_cases h1 : mode = 1
  · rw [if_neg h0, if_neg h0, if_pos h1, if_pos h1, ihevcIntraPredLumaDc_spec h hnt hrow hcol]
  rw [if_neg h0, if_neg h0, if_neg h1, if_neg h1]
  by_cases h2 : mode = 2
  · rw [if_pos h2, h2, ihevcIntraPredLumaMode2_spec h hrow hcol]
  by_cases h9 : mode ≤ 9
  · rw [if_neg h2, if_pos h9, ihevcIntraPredLumaMode3To9_spec h hrow hcol (by omega) h9]
  by_cases h10 : mode = 10
  · rw [if_neg h2, if_neg h9, if_pos h10, h10, ihevcIntraPredLumaHorz_spec h hnt hrow hcol]
  rw [if_neg h2, if_neg h9, if_neg h10]
  by_cases h17 : mode ≤ 17
  · rw [if_pos h17, ihevcIntraPredLumaMode11To17_spec h hnt hrow hcol (by omega) h17]
  by_cases h18 : mode = 18
  · rw [if_neg h17, if_pos h18, h18, ihevcIntraPredLumaMode18_spec h hrow hcol]
  by_cases h25 : mode ≤ 25
  · rw [if_neg h17, if_neg h18, if_pos h25,
      ihevcIntraPredLumaMode19To25_spec h hnt hrow hcol (by omega) h25]
  rw [if_neg h17, if_neg h18, if_neg h25]
  by_cases h26 : mode = 26
  · rw [if_pos h26, h26, ihevcIntraPredLumaVer_spec h hnt hrow hcol]
  by_cases h33 : mode ≤ 33
  · rw [if_neg h26, if_pos h33, ihevcIntraPredLumaMode27To33_spec h hrow hcol (by omega) h33]
  · rw [if_neg h26, if_neg h33, show mode = 34 by omega, ihevcIntraPredLumaMode34_spec h hrow hcol]

end Libhevc.IntraPred
