import Libhevc.Decoder.IntraNbr
import Libhevc.Lib.ZScan
import Mathlib.Data.Nat.Bitwise

/-!
# The availability map

While a CTB is decoded in z-scan order, a bit of the map says whether the 4x4
block is done, and the bits around the CTB say what is known of the CTBs there.
-/

namespace Libhevc.Decoder

-- ---------------------------------------------------------------------------
-- What is done before a block
-- ---------------------------------------------------------------------------

/-- The size of a block in units of four samples. -/
def NbrTu.minTus (tu : NbrTu) : Nat := 2 ^ tu.b3Size

theorem NbrTu.transSize_eq (tu : NbrTu) : tu.transSize = 4 * tu.minTus := by
  unfold transSize minTus
  rw [Nat.one_shiftLeft, pow_add, Nat.mul_comm]
  rfl

/-- The 4x4 block in column `x` and row `y` of the CTB lies in the transform unit. -/
def NbrTu.Covers (tu : NbrTu) (x y : Nat) : Prop :=
  tu.b4PosX ≤ x ∧ x < tu.b4PosX + tu.minTus ∧ tu.b4PosY ≤ y ∧ y < tu.b4PosY + tu.minTus

/-- A CTB of 16, 32 or 64 samples in a picture of whole 8x8 blocks. -/
structure NbrProc.Ok (p : NbrProc) : Prop where
  size : p.ctbSize = 16 ∨ p.ctbSize = 32 ∨ p.ctbSize = 64
  width : p.i2PicWidthInLumaSamples % 8 = 0
  height : p.i2PicHeightInLumaSamples % 8 = 0

theorem ctbSize_eq_pow (p : NbrProc) : p.ctbSize = 2 ^ p.i1Log2CtbSize := Nat.one_shiftLeft _

theorem NbrProc.Ok.ctb_dvd {p : NbrProc} (hp : p.Ok) (c : Nat) : 8 ∣ c <<< p.i1Log2CtbSize := by
  rw [Nat.shiftLeft_eq, ← ctbSize_eq_pow]
  refine Dvd.dvd.mul_left ?_ c
  rcases hp.size with h | h | h <;> rw [h] <;> decide

/-- What remains of the picture comes in whole 8x8 blocks. -/
theorem NbrProc.Ok.cols_mod {p : NbrProc} (hp : p.Ok) : p.colsRemaining % 8 = 0 := by
  have hmod := hp.width
  have hctb := hp.ctb_dvd p.i4CtbX
  unfold colsRemaining
  omega

theorem NbrProc.Ok.rows_mod {p : NbrProc} (hp : p.Ok) : p.rowsRemaining % 8 = 0 := by
  have hmod := hp.height
  have hctb := hp.ctb_dvd p.i4CtbY
  unfold rowsRemaining
  omega

/-- A transform unit in the CTB and in the picture, at a multiple of its size. -/
structure NbrTu.Ok (p : NbrProc) (tu : NbrTu) : Prop where
  size : tu.b3Size ≤ 4
  alignX : tu.minTus ∣ tu.b4PosX
  alignY : tu.minTus ∣ tu.b4PosY
  fitX : 4 * (tu.b4PosX + tu.minTus) ≤ min p.ctbSize p.colsRemaining
  fitY : 4 * (tu.b4PosY + tu.minTus) ≤ min p.ctbSize p.rowsRemaining

/-- The number of a 4x4 block in the z-scan of the CTB. -/
def zIndex (x y : Nat) : Nat := ZScan.index 4 x y

/-- The transform units of the CTB that are done when the one at `tu` comes: what of the picture
lies before it in the z-scan. -/
structure DoneBefore (p : NbrProc) (tus : List NbrTu) (tu : NbrTu) : Prop where
  ok : ∀ t ∈ tus, t.Ok p
  covers : ∀ x y, 4 * x < min p.ctbSize p.colsRemaining → 4 * y < min p.ctbSize p.rowsRemaining →
    ((∃ t ∈ tus, t.Covers x y) ↔ zIndex x y < zIndex tu.b4PosX tu.b4PosY)

-- ---------------------------------------------------------------------------
-- The bits of the map
-- ---------------------------------------------------------------------------

variable {p : NbrProc}

theorem nbrBit_eq (m : Nat → Nat) (row shift : Nat) :
    NbrProc.nbrBit m row shift = (m row).testBit shift := by
  unfold NbrProc.nbrBit
  rw [Nat.testBit_eq_decide_div_mod_eq, Nat.and_one_is_mod, Nat.shiftRight_eq_div_pow]
  rfl

theorem testBit_ones_shift (n k i : Nat) :
    ((1 <<< n - 1) <<< k).testBit i = decide (k ≤ i ∧ i < k + n) := by
  rw [Nat.testBit_shiftLeft, Nat.one_shiftLeft, Nat.testBit_two_pow_sub_one]
  by_cases hk : k ≤ i
  · have hiff : i - k < n ↔ i < k + n := by omega
    simp [hk, hiff]
  · simp [hk]

theorem testBit_toNat_shift (b : Bool) (k i : Nat) :
    (b.toNat <<< k).testBit i = (b && decide (i = k)) := by
  cases b with
  | false => simp
  | true =>
    rw [Bool.toNat_true, Nat.one_shiftLeft, Nat.testBit_two_pow]
    simp [eq_comm]

/-- Column `c` of a row, the one to the left of the CTB first, is bit `31 - c`. -/
theorem updateNbrAvail_testBit (tu : NbrTu) (hsize : tu.b3Size ≤ 4) (m : Nat → Nat) (hc : c ≤ 31) :
    (NbrProc.updateNbrAvail m tu row).testBit (31 - c) = true ↔
      (m row).testBit (31 - c) = true ∨ 1 ≤ c ∧ 1 ≤ row ∧ tu.Covers (c - 1) (row - 1) := by
  have hn : tu.transSize / 4 = tu.minTus := by
    rw [tu.transSize_eq]
    omega
  have hn16 : tu.minTus ≤ 16 := Nat.pow_le_pow_right (n := 2) (by decide) hsize
  unfold NbrProc.updateNbrAvail NbrTu.Covers
  dsimp only
  rw [hn]
  split
  · rename_i hrow
    rw [Nat.testBit_or, Bool.or_eq_true, Nat.testBit_shiftRight, testBit_ones_shift,
      decide_eq_true_iff]
    refine or_congr_right ⟨fun h => ⟨by omega, by omega, by omega, by omega, by omega, by omega⟩,
      fun h => by omega⟩
  · rename_i hrow
    refine ⟨Or.inl, fun h => h.resolve_right fun hcov => hrow (by omega)⟩

theorem nbrAvail_testBit (tus : List NbrTu) (htus : ∀ t ∈ tus, t.Ok p) (m : Nat → Nat)
    (hc : c ≤ 31) :
    ((tus.foldl NbrProc.updateNbrAvail m) row).testBit (31 - c) = true ↔
      (m row).testBit (31 - c) = true ∨
        1 ≤ c ∧ 1 ≤ row ∧ ∃ t ∈ tus, t.Covers (c - 1) (row - 1) := by
  induction tus generalizing m with
  | nil => simp
  | cons t tus ih =>
    rw [List.foldl_cons, ih (fun u hu => htus u (List.mem_cons_of_mem t hu)),
      updateNbrAvail_testBit t (htus t List.mem_cons_self).size m hc]
    constructor
    · rintro ((h | ⟨h1, h2, h3⟩) | ⟨h1, h2, u, hu, h3⟩)
      · exact Or.inl h
      · exact Or.inr ⟨h1, h2, t, List.mem_cons_self, h3⟩
      · exact Or.inr ⟨h1, h2, u, List.mem_cons_of_mem t hu, h3⟩
    · rintro (h | ⟨h1, h2, u, hu, h3⟩)
      · exact Or.inl (Or.inl h)
      · rcases List.mem_cons.mp hu with rfl | hmem
        · exact Or.inl (Or.inr ⟨h1, h2, h3⟩)
        · exact Or.inr ⟨h1, h2, u, hmem, h3⟩

/-- The bits around the CTB before its first transform unit. -/
theorem initNbrAvail_above (hp : p.Ok) (hc : c ≤ 1 + p.ctbSize / 4) :
    (p.initNbrAvail 0).testBit (31 - c) = true ↔
      c = 0 ∧ p.u1TopLtCtbAvail = true ∨
      c = 1 + p.ctbSize / 4 ∧ p.u1TopRtCtbAvail = true ∨
      1 ≤ c ∧ 4 * (c - 1) < min p.ctbSize p.colsRemaining ∧ p.u1TopCtbAvail = true := by
  have hsize := hp.size
  have hcols := hp.cols_mod
  have htopRt : ((p.u1TopRtCtbAvail.toNat <<< 31) >>> (1 + p.ctbSize / 4)).testBit (31 - c) = true ↔
      c = 1 + p.ctbSize / 4 ∧ p.u1TopRtCtbAvail = true := by
    rw [Nat.testBit_shiftRight, testBit_toNat_shift, Bool.and_eq_true, decide_eq_true_iff]
    exact ⟨fun h => ⟨by omega, h.1⟩, fun h => ⟨h.2, by omega⟩⟩
  have htopLt : (p.u1TopLtCtbAvail.toNat <<< 31).testBit (31 - c) = true ↔
      c = 0 ∧ p.u1TopLtCtbAvail = true := by
    rw [testBit_toNat_shift, Bool.and_eq_true, decide_eq_true_iff]
    exact ⟨fun h => ⟨by omega, h.1⟩, fun h => ⟨h.2, by omega⟩⟩
  have htop : (if p.u1TopCtbAvail then p.topAvailBits else 0).testBit (31 - c) = true ↔
      1 ≤ c ∧ 4 * (c - 1) < min p.ctbSize p.colsRemaining ∧ p.u1TopCtbAvail = true := by
    cases p.u1TopCtbAvail with
    | false => simp
    | true =>
      unfold NbrProc.topAvailBits
      dsimp only
      rw [if_pos rfl, testBit_ones_shift, decide_eq_true_iff]
      exact ⟨fun h => ⟨by omega, by omega, rfl⟩, fun h => ⟨by omega, by omega⟩⟩
  unfold NbrProc.initNbrAvail
  rw [if_pos rfl, Nat.testBit_or, Nat.testBit_or, Bool.or_eq_true, Bool.or_eq_true, htopRt, htopLt,
    htop, or_assoc]
  exact or_left_comm

theorem initNbrAvail_left (hrow : 1 ≤ row) (hc : c ≤ 31) :
    (p.initNbrAvail row).testBit (31 - c) = true ↔
      c = 0 ∧ row - 1 < min p.ctbSize p.rowsRemaining / 4 ∧ p.u1LeftCtbAvail = true := by
  unfold NbrProc.initNbrAvail
  rw [if_neg (by omega)]
  split
  · rename_i hlt
    rw [testBit_toNat_shift, Bool.and_eq_true, decide_eq_true_iff]
    exact ⟨fun h => ⟨by omega, hlt, h.1⟩, fun h => ⟨h.2.2, by omega⟩⟩
  · rename_i hge
    rw [Nat.zero_testBit]
    exact ⟨fun h => absurd h (by decide), fun h => absurd h.2.1 hge⟩

end Libhevc.Decoder

/-!
## The z-scan availability of the neighbours

What a sample around a transform unit needs to be used for its prediction, and
what the map says of each side of the unit.
-/

namespace Libhevc.Decoder

-- ---------------------------------------------------------------------------
-- The availability of a sample
-- ---------------------------------------------------------------------------

def NbrProc.InPicture (p : NbrProc) (x y : Int) : Prop :=
  0 ≤ x ∧ x < p.i2PicWidthInLumaSamples ∧ 0 ≤ y ∧ y < p.i2PicHeightInLumaSamples

/-- The CTBs of a picture in decoding order, with their tiles and slices. A tile is decoded row by
row. -/
structure CtbScan (p : NbrProc) where
  ctbAddrTs : Int → Int → Nat
  tileId : Int → Int → Nat
  sliceAddr : Int → Int → Nat
  raster : ∀ {x y x' y'}, p.InPicture (x * p.ctbSize) (y * p.ctbSize) →
    p.InPicture (x' * p.ctbSize) (y' * p.ctbSize) → tileId x y = tileId x' y' →
    y < y' ∨ y = y' ∧ x < x' → ctbAddrTs x y < ctbAddrTs x' y'

/-- A CTB in front of another one of its slice and tile. -/
def CtbScan.Before {p : NbrProc} (g : CtbScan p) (x y x' y' : Int) : Prop :=
  g.ctbAddrTs x y < g.ctbAddrTs x' y' ∧ g.sliceAddr x y = g.sliceAddr x' y' ∧
    g.tileId x y = g.tileId x' y'

namespace NbrProc

/-- A sample in the picture that comes before the transform unit, in its slice and tile. -/
def Available (p : NbrProc) (g : CtbScan p) (tu : NbrTu) (x y : Int) : Prop :=
  p.InPicture x y ∧
    (g.Before (x / p.ctbSize) (y / p.ctbSize) p.i4CtbX p.i4CtbY ∨
      x / p.ctbSize = p.i4CtbX ∧ y / p.ctbSize = p.i4CtbY ∧
        zIndex (x % p.ctbSize / 4).toNat (y % p.ctbSize / 4).toNat
          < zIndex tu.b4PosX tu.b4PosY)

/-- The flag of the 8x8 block of a sample. -/
def IntraAt (p : NbrProc) (x y : Int) : Prop := (p.nbrIntra x.toNat y.toNat).testBit 0 = true

/-- An available sample, of an intra block where the prediction is constrained. -/
def Usable (p : NbrProc) (g : CtbScan p) (tu : NbrTu) (x y : Int) : Prop :=
  p.Available g tu x y ∧ (p.i1ConstrainedIntraPredFlag = true → p.IntraAt x y)

/-- The flags of the CTBs around. -/
structure CtbFlags (p : NbrProc) (g : CtbScan p) : Prop where
  left : p.u1LeftCtbAvail = true ↔
    0 < p.i4CtbX ∧ g.Before (p.i4CtbX - 1) p.i4CtbY p.i4CtbX p.i4CtbY
  top : p.u1TopCtbAvail = true ↔
    0 < p.i4CtbY ∧ g.Before p.i4CtbX (p.i4CtbY - 1) p.i4CtbX p.i4CtbY
  topLt : p.u1TopLtCtbAvail = true ↔ 0 < p.i4CtbX ∧ 0 < p.i4CtbY ∧
    g.Before (p.i4CtbX - 1) (p.i4CtbY - 1) p.i4CtbX p.i4CtbY
  topRt : p.u1TopRtCtbAvail = true ↔ 0 < p.i4CtbY ∧ p.ctbSize < p.colsRemaining ∧
    g.Before (p.i4CtbX + 1) (p.i4CtbY - 1) p.i4CtbX p.i4CtbY

end NbrProc

variable {p : NbrProc} {g : CtbScan p} {tu : NbrTu}

theorem CtbScan.not_before_self (g : CtbScan p) (x y : Int) : ¬ g.Before x y x y :=
  fun h => Nat.lt_irrefl _ h.1

theorem NbrProc.Ok.ctbSize_pos (hp : p.Ok) : (0 : Int) < p.ctbSize := by
  rcases hp.size with h | h | h <;> rw [h] <;> decide

/-- A CTB of the picture below, or to the right, is not in front. -/
theorem CtbScan.not_before_later (hp : p.Ok) (htu : tu.Ok p) {a b : Int}
    (hpic : p.InPicture (p.i4CtbX * p.ctbSize + a) (p.i4CtbY * p.ctbSize + b))
    (ha : a / p.ctbSize = dx) (hb : b / p.ctbSize = dy) (hlater : 0 < dy ∨ dy = 0 ∧ 0 < dx) :
    ¬ g.Before (p.i4CtbX + dx) (p.i4CtbY + dy) p.i4CtbX p.i4CtbY := by
  have hpos := hp.ctbSize_pos
  obtain ⟨hx, hx', hy, hy'⟩ := hpic
  have hcur : p.InPicture (p.i4CtbX * p.ctbSize) (p.i4CtbY * p.ctbSize) := by
    have hfitX := htu.fitX
    have hfitY := htu.fitY
    have htus : 0 < tu.minTus := Nat.two_pow_pos _
    unfold NbrProc.colsRemaining at hfitX
    unfold NbrProc.rowsRemaining at hfitY
    rw [Nat.shiftLeft_eq, ← ctbSize_eq_pow] at hfitX hfitY
    unfold NbrProc.InPicture
    rw [← Int.natCast_mul, ← Int.natCast_mul]
    omega
  have hcorner : ∀ c z : Int, 0 ≤ c * p.ctbSize + z →
      0 ≤ (c + z / p.ctbSize) * p.ctbSize ∧
        (c + z / p.ctbSize) * p.ctbSize ≤ c * p.ctbSize + z := by
    intro c z hz
    have hle := Int.ediv_mul_le z hpos.ne'
    have hdiv := Int.ediv_nonneg hz hpos.le
    rw [Int.add_comm (c * _), Int.add_mul_ediv_right _ _ hpos.ne', Int.add_comm] at hdiv
    refine ⟨Int.mul_nonneg hdiv hpos.le, ?_⟩
    rw [Int.add_mul]
    omega
  have hcx := hcorner _ a hx
  have hcy := hcorner _ b hy
  rw [ha] at hcx
  rw [hb] at hcy
  rintro ⟨hts, -, htile⟩
  refine absurd (g.raster hcur ?_ htile.symm (by omega)) (Nat.not_lt.mpr hts.le)
  exact ⟨hcx.1, by omega, hcy.1, by omega⟩

/-- Availability at an offset from the CTB. -/
theorem available_offset (hp : p.Ok) (a b : Int) :
    p.Available g tu (p.i4CtbX * p.ctbSize + a) (p.i4CtbY * p.ctbSize + b) ↔
      p.InPicture (p.i4CtbX * p.ctbSize + a) (p.i4CtbY * p.ctbSize + b) ∧
      (g.Before (p.i4CtbX + a / p.ctbSize) (p.i4CtbY + b / p.ctbSize) p.i4CtbX p.i4CtbY ∨
        a / p.ctbSize = 0 ∧ b / p.ctbSize = 0 ∧
          zIndex (a % p.ctbSize / 4).toNat (b % p.ctbSize / 4).toNat
            < zIndex tu.b4PosX tu.b4PosY) := by
  have hpos := hp.ctbSize_pos
  have hdiv : ∀ c z : Int, (c * p.ctbSize + z) / p.ctbSize = c + z / p.ctbSize := by
    intro c z
    rw [Int.add_comm, Int.add_mul_ediv_right _ _ hpos.ne', Int.add_comm]
  have hmod : ∀ c z : Int, (c * p.ctbSize + z) % p.ctbSize = z % p.ctbSize := by
    intro c z
    rw [Int.add_comm, Int.add_mul_emod_self_right]
  unfold NbrProc.Available
  rw [hdiv, hdiv, hmod, hmod]
  simp only [add_eq_left]

/-- In the CTB itself the z-scan decides. -/
theorem available_inside (hp : p.Ok) {a b : Int} (ha : 0 ≤ a ∧ a < p.ctbSize)
    (hb : 0 ≤ b ∧ b < p.ctbSize) :
    p.Available g tu (p.i4CtbX * p.ctbSize + a) (p.i4CtbY * p.ctbSize + b) ↔
      p.InPicture (p.i4CtbX * p.ctbSize + a) (p.i4CtbY * p.ctbSize + b) ∧
        zIndex (a / 4).toNat (b / 4).toNat < zIndex tu.b4PosX tu.b4PosY := by
  rw [available_offset hp, Int.ediv_eq_zero_of_lt ha.1 ha.2, Int.ediv_eq_zero_of_lt hb.1 hb.2,
    Int.emod_eq_of_lt ha.1 ha.2, Int.emod_eq_of_lt hb.1 hb.2, Int.add_zero, Int.add_zero]
  refine and_congr_right fun _ => ⟨fun h => ?_, fun h => Or.inr ⟨rfl, rfl, h⟩⟩
  exact (h.resolve_left (g.not_before_self _ _)).2.2

/-- Outside of it the CTB of the sample decides. -/
theorem available_outside (hp : p.Ok) {a b : Int} (ha : a / p.ctbSize = dx)
    (hb : b / p.ctbSize = dy) (hne : dx ≠ 0 ∨ dy ≠ 0) :
    p.Available g tu (p.i4CtbX * p.ctbSize + a) (p.i4CtbY * p.ctbSize + b) ↔
      p.InPicture (p.i4CtbX * p.ctbSize + a) (p.i4CtbY * p.ctbSize + b) ∧
        g.Before (p.i4CtbX + dx) (p.i4CtbY + dy) p.i4CtbX p.i4CtbY := by
  rw [available_offset hp, ha, hb]
  refine and_congr_right fun _ => or_iff_left fun h => ?_
  rcases hne with hne | hne
  · exact hne h.1
  · exact hne h.2.1

-- ---------------------------------------------------------------------------
-- The z-scan around a transform unit
-- ---------------------------------------------------------------------------

theorem zIndex_lt_iff (htu : tu.Ok p) (hsize : tu.b3Size ≤ 4) (x y : Nat) :
    zIndex x y < zIndex tu.b4PosX tu.b4PosY ↔
      ZScan.index (4 - tu.b3Size) (x / tu.minTus) (y / tu.minTus)
        < ZScan.index (4 - tu.b3Size) (tu.b4PosX / tu.minTus) (tu.b4PosY / tu.minTus) := by
  obtain ⟨u, hu⟩ := htu.alignX
  obtain ⟨v, hv⟩ := htu.alignY
  have hpos : 0 < tu.minTus := Nat.two_pow_pos _
  have hk : 4 = 4 - tu.b3Size + tu.b3Size := by omega
  unfold zIndex
  rw [hu, hv, Nat.mul_div_cancel_left _ hpos, Nat.mul_div_cancel_left _ hpos]
  conv_lhs => rw [hk]
  exact ZScan.index_lt_aligned _ _ _ _ _ _

/-- The blocks of the size of the unit are before it as a whole or not at all. -/
theorem zIndex_congr (htu : tu.Ok p) (hx : x / tu.minTus = x' / tu.minTus)
    (hy : y / tu.minTus = y' / tu.minTus) :
    zIndex x y < zIndex tu.b4PosX tu.b4PosY ↔ zIndex x' y' < zIndex tu.b4PosX tu.b4PosY := by
  rw [zIndex_lt_iff htu htu.size, zIndex_lt_iff htu htu.size, hx, hy]

/-- What is to the left or above, beside the unit, is before it. -/
theorem zIndex_lt_of_le (htu : tu.Ok p) (hp : p.Ok) (hx : x / tu.minTus ≤ tu.b4PosX / tu.minTus)
    (hy : y / tu.minTus ≤ tu.b4PosY / tu.minTus)
    (hne : x / tu.minTus ≠ tu.b4PosX / tu.minTus ∨ y / tu.minTus ≠ tu.b4PosY / tu.minTus) :
    zIndex x y < zIndex tu.b4PosX tu.b4PosY := by
  have hpos : 0 < tu.minTus := Nat.two_pow_pos _
  have hfitX := htu.fitX
  have hfitY := htu.fitY
  have hsize := hp.size
  have hpow : 2 ^ (4 - tu.b3Size) * tu.minTus = 16 := by
    have hle := htu.size
    unfold NbrTu.minTus
    rw [← pow_add, Nat.sub_add_cancel hle]
    rfl
  rw [zIndex_lt_iff htu htu.size]
  refine ZScan.index_lt ?_ ?_ hx hy hne
  · rw [Nat.div_lt_iff_lt_mul hpos, hpow]
    omega
  · rw [Nat.div_lt_iff_lt_mul hpos, hpow]
    omega

end Libhevc.Decoder
