import Libhevc.Decoder.IntraNbrLaws
import Mathlib.Tactic.Linarith

/-!
# The sides of a transform unit

The bit that is read for a side is the availability of every sample of it in
the picture: the map is asked for one block, and the z-scan for the others.
-/

namespace Libhevc.Decoder

variable {p : NbrProc} {g : CtbScan p} {tu : NbrTu} {tus : List NbrTu}

/-- The bits of the CTB itself. -/
theorem nbrAvail_inside (hd : DoneBefore p tus tu) (hc : 1 ≤ c) (hc' : c ≤ 31) (hrow : 1 ≤ row) :
    (p.nbrAvail tus row).testBit (31 - c) = true ↔
      4 * (c - 1) < min p.ctbSize p.colsRemaining ∧
        4 * (row - 1) < min p.ctbSize p.rowsRemaining ∧
        zIndex (c - 1) (row - 1) < zIndex tu.b4PosX tu.b4PosY := by
  unfold NbrProc.nbrAvail
  rw [nbrAvail_testBit tus hd.ok _ hc', initNbrAvail_left hrow hc']
  constructor
  · rintro (⟨h, -⟩ | ⟨-, -, t, ht, hcov⟩)
    · omega
    · have hfitX := (hd.ok t ht).fitX
      have hfitY := (hd.ok t ht).fitY
      obtain ⟨hx, hx', hy, hy'⟩ := hcov
      have hcols : 4 * (c - 1) < min p.ctbSize p.colsRemaining := by omega
      have hrows : 4 * (row - 1) < min p.ctbSize p.rowsRemaining := by omega
      exact ⟨hcols, hrows, (hd.covers _ _ hcols hrows).mp ⟨t, ht, hx, hx', hy, hy'⟩⟩
  · rintro ⟨hcols, hrows, hz⟩
    exact Or.inr ⟨hc, hrow, (hd.covers _ _ hcols hrows).mpr hz⟩

/-- The bits to the left of the CTB. -/
theorem nbrAvail_left (hd : DoneBefore p tus tu) (hrow : 1 ≤ row) :
    (p.nbrAvail tus row).testBit 31 = true ↔
      row - 1 < min p.ctbSize p.rowsRemaining / 4 ∧ p.u1LeftCtbAvail = true := by
  unfold NbrProc.nbrAvail
  rw [show (31 : Nat) = 31 - 0 from rfl, nbrAvail_testBit tus hd.ok _ (by decide),
    initNbrAvail_left hrow (by decide)]
  constructor
  · rintro (⟨-, h⟩ | ⟨h, -⟩)
    · exact h
    · omega
  · exact fun h => Or.inl ⟨rfl, h⟩

/-- The bits above the CTB. -/
theorem nbrAvail_above (hd : DoneBefore p tus tu) (hp : p.Ok) (hc : c ≤ 1 + p.ctbSize / 4) :
    (p.nbrAvail tus 0).testBit (31 - c) = true ↔
      c = 0 ∧ p.u1TopLtCtbAvail = true ∨
      c = 1 + p.ctbSize / 4 ∧ p.u1TopRtCtbAvail = true ∨
      1 ≤ c ∧ 4 * (c - 1) < min p.ctbSize p.colsRemaining ∧ p.u1TopCtbAvail = true := by
  have hsize := hp.size
  unfold NbrProc.nbrAvail
  rw [nbrAvail_testBit tus hd.ok _ (by omega), initNbrAvail_above hp hc]
  refine or_iff_left fun h => ?_
  exact absurd h.2.1 (by decide)

-- ---------------------------------------------------------------------------
-- Places around the unit
-- ---------------------------------------------------------------------------

theorem NbrTu.Ok.width (htu : tu.Ok p) :
    p.i2PicWidthInLumaSamples = p.i4CtbX * p.ctbSize + p.colsRemaining := by
  have hfit := htu.fitX
  have hpos : 0 < tu.minTus := Nat.two_pow_pos _
  unfold NbrProc.colsRemaining at *
  rw [Nat.shiftLeft_eq, ← ctbSize_eq_pow] at *
  omega

theorem NbrTu.Ok.height (htu : tu.Ok p) :
    p.i2PicHeightInLumaSamples = p.i4CtbY * p.ctbSize + p.rowsRemaining := by
  have hfit := htu.fitY
  have hpos : 0 < tu.minTus := Nat.two_pow_pos _
  unfold NbrProc.rowsRemaining at *
  rw [Nat.shiftLeft_eq, ← ctbSize_eq_pow] at *
  omega

/-- A place near the CTB is in the picture. -/
theorem inPicture_iff (hp : p.Ok) (htu : tu.Ok p) {a b : Int} (ha : -1 ≤ a) (hb : -1 ≤ b) :
    p.InPicture (p.i4CtbX * p.ctbSize + a) (p.i4CtbY * p.ctbSize + b) ↔
      (0 ≤ a ∨ 0 < p.i4CtbX) ∧ a < p.colsRemaining ∧ (0 ≤ b ∨ 0 < p.i4CtbY) ∧
        b < p.rowsRemaining := by
  have hsize := hp.size
  have hedge : ∀ c : Nat, ∀ z : Int, -1 ≤ z →
      (0 ≤ (c : Int) * p.ctbSize + z ↔ 0 ≤ z ∨ 0 < c) := by
    intro c z hz
    rcases Nat.eq_zero_or_pos c with rfl | hc
    · simp
    · have hmul : p.ctbSize ≤ c * p.ctbSize := Nat.le_mul_of_pos_left _ hc
      have hcast : ((c * p.ctbSize : Nat) : Int) = (c : Int) * p.ctbSize := by push_cast; ring
      rw [← hcast]
      omega
  unfold NbrProc.InPicture
  rw [htu.width, htu.height, hedge _ _ ha, hedge _ _ hb]
  push_cast
  constructor
  · rintro ⟨h1, h2, h3, h4⟩
    exact ⟨h1, by linarith, h3, by linarith⟩
  · rintro ⟨h1, h2, h3, h4⟩
    exact ⟨h1, by linarith, h3, by linarith⟩

theorem neg_one_ediv (hp : p.Ok) : (-1 : Int) / p.ctbSize = -1 := by
  rcases hp.size with h | h | h <;> rw [h] <;> decide

theorem ediv_one (hp : p.Ok) {a : Int} (ha : p.ctbSize ≤ a) (ha' : a < 2 * p.ctbSize) :
    a / p.ctbSize = 1 := by
  have hpos := hp.ctbSize_pos
  rw [Int.ediv_eq_iff_of_pos hpos]
  constructor <;> linarith

theorem xCur_eq (p : NbrProc) (tu : NbrTu) :
    (p.xCur tu : Int) = p.i4CtbX * p.ctbSize + (4 * tu.b4PosX : Nat) := by
  unfold NbrProc.xCur
  push_cast
  ring

theorem yCur_eq (p : NbrProc) (tu : NbrTu) :
    (p.yCur tu : Int) = p.i4CtbY * p.ctbSize + (4 * tu.b4PosY : Nat) := by
  unfold NbrProc.yCur
  push_cast
  ring

-- ---------------------------------------------------------------------------
-- Multiples of the size of the unit
-- ---------------------------------------------------------------------------

theorem div_add_of_lt {n y k : Nat} (h : n ∣ y) (hk : k < n) : (y + k) / n = y / n := by
  obtain ⟨v, rfl⟩ := h
  rw [Nat.mul_add_div (by omega), Nat.div_eq_of_lt hk, Nat.add_zero,
    Nat.mul_div_cancel_left _ (by omega)]

theorem add_le_of_dvd {n a b : Nat} (ha : n ∣ a) (hb : n ∣ b) (hlt : a < b) : a + n ≤ b := by
  have hle := Nat.le_of_dvd (Nat.sub_pos_of_lt hlt) (Nat.dvd_sub hb ha)
  omega

theorem NbrTu.Ok.dvd_ctb (htu : tu.Ok p) (hp : p.Ok) : tu.minTus ∣ p.ctbSize / 4 := by
  have hfit := htu.fitX
  have hle := htu.size
  have hctb : ∃ k, p.ctbSize / 4 = 2 ^ k := by
    rcases hp.size with h | h | h <;> rw [h]
    · exact ⟨2, by decide⟩
    · exact ⟨3, by decide⟩
    · exact ⟨4, by decide⟩
  obtain ⟨k, hk⟩ := hctb
  have hn : tu.minTus ≤ p.ctbSize / 4 := by omega
  rw [hk] at hn ⊢
  exact Nat.pow_dvd_pow 2 ((Nat.pow_le_pow_iff_right (by decide)).mp hn)

-- ---------------------------------------------------------------------------
-- Left and below
-- ---------------------------------------------------------------------------

theorem available_left (hp : p.Ok) (htu : tu.Ok p) (hd : DoneBefore p tus tu)
    (hf : p.CtbFlags g) (ho : o < tu.transSize) :
    p.Available g tu ((p.xCur tu : Int) - 1) (p.yCur tu + o) ↔
      (p.nbrAvail tus (1 + tu.b4PosY)).testBit (31 - tu.b4PosX) = true := by
  have hsize := hp.size
  have hfitX := htu.fitX
  have hfitY := htu.fitY
  have hpos : 0 < tu.minTus := Nat.two_pow_pos _
  rw [tu.transSize_eq] at ho
  rw [xCur_eq, yCur_eq, Int.add_sub_assoc, Int.add_assoc]
  by_cases hx : tu.b4PosX = 0
  · have ha : ((4 * tu.b4PosX : Nat) : Int) - 1 = -1 := by omega
    rw [ha, available_outside hp (neg_one_ediv hp)
        (Int.ediv_eq_zero_of_lt (by omega) (by omega)) (Or.inl (by decide)),
      inPicture_iff hp htu (by omega) (by omega), Int.add_zero, ← sub_eq_add_neg, hx,
      Nat.sub_zero, nbrAvail_left hd (by omega), hf.left]
    constructor
    · rintro ⟨⟨h1, -, -, -⟩, hb⟩
      exact ⟨by omega, by omega, hb⟩
    · rintro ⟨-, h1, hb⟩
      exact ⟨⟨Or.inr h1, by omega, Or.inl (by omega), by omega⟩, hb⟩
  · have hxn : (tu.b4PosX - 1) / tu.minTus < tu.b4PosX / tu.minTus :=
      Nat.div_lt_div_of_lt_of_dvd htu.alignX (by omega)
    have hyn : (tu.b4PosY + o / 4) / tu.minTus = tu.b4PosY / tu.minTus :=
      div_add_of_lt htu.alignY (by omega)
    rw [available_inside hp ⟨by omega, by omega⟩ ⟨by omega, by omega⟩,
      inPicture_iff hp htu (by omega) (by omega), nbrAvail_inside hd (by omega) (by omega)
        (by omega),
      show ((((4 * tu.b4PosX : Nat) : Int) - 1) / 4).toNat = tu.b4PosX - 1 by omega,
      show ((((4 * tu.b4PosY : Nat) : Int) + o) / 4).toNat = tu.b4PosY + o / 4 by omega]
    refine iff_of_true ⟨⟨Or.inl (by omega), by omega, Or.inl (by omega), by omega⟩, ?_⟩
      ⟨by omega, by omega, ?_⟩
    · exact zIndex_lt_of_le htu hp hxn.le hyn.le (Or.inl hxn.ne)
    · rw [Nat.add_sub_cancel_left]
      exact zIndex_lt_of_le htu hp hxn.le (Nat.le_refl _) (Or.inl hxn.ne)

theorem available_botLeft (hp : p.Ok) (htu : tu.Ok p) (hd : DoneBefore p tus tu)
    (hf : p.CtbFlags g) (ho : tu.transSize ≤ o) (ho' : o < 2 * tu.transSize) :
    p.Available g tu ((p.xCur tu : Int) - 1) (p.yCur tu + o) ↔
      (p.nbrAvail tus (1 + tu.b4PosY + tu.minTus)).testBit (31 - tu.b4PosX) = true ∧
        4 * tu.b4PosY + o < p.rowsRemaining := by
  have hsize := hp.size
  have hfitX := htu.fitX
  have hfitY := htu.fitY
  have hrows := hp.rows_mod
  have hpos : 0 < tu.minTus := Nat.two_pow_pos _
  have hnext : tu.b4PosY + tu.minTus < p.ctbSize / 4 →
      tu.b4PosY + tu.minTus + tu.minTus ≤ p.ctbSize / 4 :=
    add_le_of_dvd (Nat.dvd_add_self_right.mpr htu.alignY) (htu.dvd_ctb hp)
  rw [tu.transSize_eq] at ho ho'
  rw [xCur_eq, yCur_eq, Int.add_sub_assoc, Int.add_assoc]
  rcases Nat.lt_or_ge (tu.b4PosY + tu.minTus) (p.ctbSize / 4) with hin | hout
  · have hfit := hnext hin
    by_cases hx : tu.b4PosX = 0
    · have ha : ((4 * tu.b4PosX : Nat) : Int) - 1 = -1 := by omega
      rw [ha, available_outside hp (neg_one_ediv hp)
          (Int.ediv_eq_zero_of_lt (by omega) (by omega)) (Or.inl (by decide)),
        inPicture_iff hp htu (by omega) (by omega), Int.add_zero, ← sub_eq_add_neg, hx,
        Nat.sub_zero, nbrAvail_left hd (by omega), hf.left]
      constructor
      · rintro ⟨⟨h1, -, -, h4⟩, hb⟩
        exact ⟨⟨by omega, by omega, hb⟩, by omega⟩
      · rintro ⟨⟨-, h1, hb⟩, h4⟩
        exact ⟨⟨Or.inr h1, by omega, Or.inl (by omega), by omega⟩, hb⟩
    · have hyn : (tu.b4PosY + o / 4) / tu.minTus = (tu.b4PosY + tu.minTus) / tu.minTus := by
        rw [show tu.b4PosY + o / 4 = tu.b4PosY + tu.minTus + (o / 4 - tu.minTus) by omega]
        exact div_add_of_lt (Nat.dvd_add_self_right.mpr htu.alignY) (by omega)
      rw [available_inside hp ⟨by omega, by omega⟩ ⟨by omega, by omega⟩,
        inPicture_iff hp htu (by omega) (by omega), nbrAvail_inside hd (by omega) (by omega)
          (by omega),
        show ((((4 * tu.b4PosX : Nat) : Int) - 1) / 4).toNat = tu.b4PosX - 1 by omega,
        show ((((4 * tu.b4PosY : Nat) : Int) + o) / 4).toNat = tu.b4PosY + o / 4 by omega,
        zIndex_congr htu rfl hyn, Nat.add_assoc, Nat.add_sub_cancel_left]
      constructor
      · rintro ⟨⟨-, -, -, h4⟩, hz⟩
        exact ⟨⟨by omega, by omega, hz⟩, by omega⟩
      · rintro ⟨⟨-, -, hz⟩, h4⟩
        exact ⟨⟨Or.inl (by omega), by omega, Or.inl (by omega), by omega⟩, hz⟩
  · -- the CTBs below come later in a tile
    have hb : (((4 * tu.b4PosY : Nat) : Int) + o) / p.ctbSize = 1 :=
      ediv_one hp (by omega) (by omega)
    by_cases hx : tu.b4PosX = 0
    · have ha : ((4 * tu.b4PosX : Nat) : Int) - 1 = -1 := by omega
      rw [ha, available_outside hp (neg_one_ediv hp) hb (Or.inl (by decide)), hx, Nat.sub_zero,
        nbrAvail_left hd (by omega)]
      refine iff_of_false (fun h => ?_) fun h => ?_
      · exact CtbScan.not_before_later hp htu h.1 (neg_one_ediv hp) hb (Or.inl (by decide)) h.2
      · have hlt := h.1.1
        omega
    · rw [available_outside hp (Int.ediv_eq_zero_of_lt (by omega) (by omega)) hb
          (Or.inr (by decide)), nbrAvail_inside hd (by omega) (by omega) (by omega)]
      refine iff_of_false (fun h => ?_) fun h => ?_
      · exact CtbScan.not_before_later hp htu h.1
          (Int.ediv_eq_zero_of_lt (by omega) (by omega)) hb (Or.inl (by decide)) h.2
      · have hlt := h.1.2.1
        omega

-- ---------------------------------------------------------------------------
-- Above
-- ---------------------------------------------------------------------------

theorem available_top (hp : p.Ok) (htu : tu.Ok p) (hd : DoneBefore p tus tu)
    (hf : p.CtbFlags g) (ho : o < tu.transSize) :
    p.Available g tu (p.xCur tu + o) ((p.yCur tu : Int) - 1) ↔
      (p.nbrAvail tus tu.b4PosY).testBit (31 - (1 + tu.b4PosX)) = true := by
  have hsize := hp.size
  have hfitX := htu.fitX
  have hfitY := htu.fitY
  have hpos : 0 < tu.minTus := Nat.two_pow_pos _
  rw [tu.transSize_eq] at ho
  rw [xCur_eq, yCur_eq, Int.add_sub_assoc, Int.add_assoc]
  by_cases hy : tu.b4PosY = 0
  · have hb : ((4 * tu.b4PosY : Nat) : Int) - 1 = -1 := by omega
    rw [hb, available_outside hp (Int.ediv_eq_zero_of_lt (by omega) (by omega)) (neg_one_ediv hp)
        (Or.inr (by decide)),
      inPicture_iff hp htu (by omega) (by omega), Int.add_zero, ← sub_eq_add_neg, hy,
      nbrAvail_above hd hp (by omega), hf.top]
    constructor
    · rintro ⟨⟨-, -, h3, -⟩, hbefore⟩
      exact Or.inr (Or.inr ⟨by omega, by omega, by omega, hbefore⟩)
    · rintro (⟨h, -⟩ | ⟨h, -⟩ | ⟨-, -, h3, hbefore⟩)
      · omega
      · omega
      · exact ⟨⟨Or.inl (by omega), by omega, Or.inr h3, by omega⟩, hbefore⟩
  · have hyn : (tu.b4PosY - 1) / tu.minTus < tu.b4PosY / tu.minTus :=
      Nat.div_lt_div_of_lt_of_dvd htu.alignY (by omega)
    have hxn : (tu.b4PosX + o / 4) / tu.minTus = tu.b4PosX / tu.minTus :=
      div_add_of_lt htu.alignX (by omega)
    rw [available_inside hp ⟨by omega, by omega⟩ ⟨by omega, by omega⟩,
      inPicture_iff hp htu (by omega) (by omega), nbrAvail_inside hd (by omega) (by omega)
        (by omega),
      show ((((4 * tu.b4PosY : Nat) : Int) - 1) / 4).toNat = tu.b4PosY - 1 by omega,
      show ((((4 * tu.b4PosX : Nat) : Int) + o) / 4).toNat = tu.b4PosX + o / 4 by omega]
    refine iff_of_true ⟨⟨Or.inl (by omega), by omega, Or.inl (by omega), by omega⟩, ?_⟩
      ⟨by omega, by omega, ?_⟩
    · exact zIndex_lt_of_le htu hp hxn.le hyn.le (Or.inr hyn.ne)
    · rw [Nat.add_sub_cancel_left]
      exact zIndex_lt_of_le htu hp (Nat.le_refl _) hyn.le (Or.inr hyn.ne)

theorem available_topRight (hp : p.Ok) (htu : tu.Ok p) (hd : DoneBefore p tus tu)
    (hf : p.CtbFlags g) (ho : tu.transSize ≤ o) (ho' : o < 2 * tu.transSize) :
    p.Available g tu (p.xCur tu + o) ((p.yCur tu : Int) - 1) ↔
      (p.nbrAvail tus tu.b4PosY).testBit (31 - (1 + tu.b4PosX + tu.minTus)) = true ∧
        4 * tu.b4PosX + o < p.colsRemaining := by
  have hsize := hp.size
  have hfitX := htu.fitX
  have hfitY := htu.fitY
  have hcols := hp.cols_mod
  have hpos : 0 < tu.minTus := Nat.two_pow_pos _
  have hnext : tu.b4PosX + tu.minTus < p.ctbSize / 4 →
      tu.b4PosX + tu.minTus + tu.minTus ≤ p.ctbSize / 4 :=
    add_le_of_dvd (Nat.dvd_add_self_right.mpr htu.alignX) (htu.dvd_ctb hp)
  rw [tu.transSize_eq] at ho ho'
  rw [xCur_eq, yCur_eq, Int.add_sub_assoc, Int.add_assoc]
  by_cases hy : tu.b4PosY = 0
  · have hb : ((4 * tu.b4PosY : Nat) : Int) - 1 = -1 := by omega
    rcases Nat.lt_or_ge (tu.b4PosX + tu.minTus) (p.ctbSize / 4) with hin | hout
    · have hfit := hnext hin
      rw [hb, available_outside hp (Int.ediv_eq_zero_of_lt (by omega) (by omega))
          (neg_one_ediv hp) (Or.inr (by decide)),
        inPicture_iff hp htu (by omega) (by omega), Int.add_zero, ← sub_eq_add_neg, hy,
        nbrAvail_above hd hp (by omega), hf.top]
      constructor
      · rintro ⟨⟨-, h2, h3, -⟩, hbefore⟩
        exact ⟨Or.inr (Or.inr ⟨by omega, by omega, by omega, hbefore⟩), by omega⟩
      · rintro ⟨⟨h, -⟩ | ⟨h, -⟩ | ⟨-, -, h3, hbefore⟩, h2⟩
        · omega
        · omega
        · exact ⟨⟨Or.inl (by omega), by omega, Or.inr h3, by omega⟩, hbefore⟩
    · rw [hb, available_outside hp (ediv_one hp (by omega) (by omega)) (neg_one_ediv hp)
          (Or.inr (by decide)),
        inPicture_iff hp htu (by omega) (by omega), ← sub_eq_add_neg, hy,
        nbrAvail_above hd hp (by omega), hf.topRt]
      constructor
      · rintro ⟨⟨-, h2, h3, -⟩, hbefore⟩
        exact ⟨Or.inr (Or.inl ⟨by omega, by omega, by omega, hbefore⟩), by omega⟩
      · rintro ⟨⟨h, -⟩ | ⟨-, h3, -, hbefore⟩ | ⟨-, h, -⟩, h2⟩
        · omega
        · exact ⟨⟨Or.inl (by omega), by omega, Or.inr h3, by omega⟩, hbefore⟩
        · omega
  · rcases Nat.lt_or_ge (tu.b4PosX + tu.minTus) (p.ctbSize / 4) with hin | hout
    · have hfit := hnext hin
      have hxn : (tu.b4PosX + o / 4) / tu.minTus = (tu.b4PosX + tu.minTus) / tu.minTus := by
        rw [show tu.b4PosX + o / 4 = tu.b4PosX + tu.minTus + (o / 4 - tu.minTus) by omega]
        exact div_add_of_lt (Nat.dvd_add_self_right.mpr htu.alignX) (by omega)
      rw [available_inside hp ⟨by omega, by omega⟩ ⟨by omega, by omega⟩,
        inPicture_iff hp htu (by omega) (by omega), nbrAvail_inside hd (by omega) (by omega)
          (by omega),
        show ((((4 * tu.b4PosY : Nat) : Int) - 1) / 4).toNat = tu.b4PosY - 1 by omega,
        show ((((4 * tu.b4PosX : Nat) : Int) + o) / 4).toNat = tu.b4PosX + o / 4 by omega,
        zIndex_congr htu hxn rfl, Nat.add_assoc, Nat.add_sub_cancel_left]
      constructor
      · rintro ⟨⟨-, h2, -, -⟩, hz⟩
        exact ⟨⟨by omega, by omega, hz⟩, by omega⟩
      · rintro ⟨⟨-, -, hz⟩, h2⟩
        exact ⟨⟨Or.inl (by omega), by omega, Or.inl (by omega), by omega⟩, hz⟩
    · -- the CTB to the right comes later in a tile
      rw [available_outside hp (ediv_one hp (by omega) (by omega))
          (Int.ediv_eq_zero_of_lt (by omega) (by omega)) (Or.inl (by decide)),
        nbrAvail_inside hd (by omega) (by omega) (by omega)]
      refine iff_of_false (fun h => ?_) fun h => ?_
      · exact CtbScan.not_before_later hp htu h.1 (ediv_one hp (by omega) (by omega))
          (Int.ediv_eq_zero_of_lt (by omega) (by omega)) (Or.inr (by decide)) h.2
      · have hlt := h.1.1
        omega

theorem available_topLeft (hp : p.Ok) (htu : tu.Ok p) (hd : DoneBefore p tus tu)
    (hf : p.CtbFlags g) :
    p.Available g tu ((p.xCur tu : Int) - 1) ((p.yCur tu : Int) - 1) ↔
      (p.nbrAvail tus tu.b4PosY).testBit (31 - tu.b4PosX) = true := by
  have hsize := hp.size
  have hfitX := htu.fitX
  have hfitY := htu.fitY
  have hpos : 0 < tu.minTus := Nat.two_pow_pos _
  rw [xCur_eq, yCur_eq, Int.add_sub_assoc, Int.add_sub_assoc]
  by_cases hx : tu.b4PosX = 0
  · have ha : ((4 * tu.b4PosX : Nat) : Int) - 1 = -1 := by omega
    by_cases hy : tu.b4PosY = 0
    · have hb : ((4 * tu.b4PosY : Nat) : Int) - 1 = -1 := by omega
      rw [ha, hb, available_outside hp (neg_one_ediv hp) (neg_one_ediv hp) (Or.inl (by decide)),
        inPicture_iff hp htu (by omega) (by omega), ← sub_eq_add_neg, ← sub_eq_add_neg, hx, hy,
        nbrAvail_above hd hp (by omega), hf.topLt]
      constructor
      · rintro ⟨⟨h1, -, h3, -⟩, hbefore⟩
        exact Or.inl ⟨rfl, by omega, by omega, hbefore⟩
      · rintro (⟨-, h1, h3, hbefore⟩ | ⟨h, -⟩ | ⟨h, -⟩)
        · exact ⟨⟨Or.inr h1, by omega, Or.inr h3, by omega⟩, hbefore⟩
        · omega
        · omega
    · rw [ha, available_outside hp (neg_one_ediv hp)
          (Int.ediv_eq_zero_of_lt (by omega) (by omega)) (Or.inl (by decide)),
        inPicture_iff hp htu (by omega) (by omega), Int.add_zero, ← sub_eq_add_neg, hx,
        Nat.sub_zero, nbrAvail_left hd (by omega), hf.left]
      constructor
      · rintro ⟨⟨h1, -, -, -⟩, hbefore⟩
        exact ⟨by omega, by omega, hbefore⟩
      · rintro ⟨-, h1, hbefore⟩
        exact ⟨⟨Or.inr h1, by omega, Or.inl (by omega), by omega⟩, hbefore⟩
  · have hxn : (tu.b4PosX - 1) / tu.minTus < tu.b4PosX / tu.minTus :=
      Nat.div_lt_div_of_lt_of_dvd htu.alignX (by omega)
    by_cases hy : tu.b4PosY = 0
    · have hb : ((4 * tu.b4PosY : Nat) : Int) - 1 = -1 := by omega
      rw [hb, available_outside hp (Int.ediv_eq_zero_of_lt (by omega) (by omega))
          (neg_one_ediv hp) (Or.inr (by decide)),
        inPicture_iff hp htu (by omega) (by omega), Int.add_zero, ← sub_eq_add_neg, hy,
        nbrAvail_above hd hp (by omega), hf.top]
      constructor
      · rintro ⟨⟨-, -, h3, -⟩, hbefore⟩
        exact Or.inr (Or.inr ⟨by omega, by omega, by omega, hbefore⟩)
      · rintro (⟨h, -⟩ | ⟨h, -⟩ | ⟨-, -, h3, hbefore⟩)
        · omega
        · omega
        · exact ⟨⟨Or.inl (by omega), by omega, Or.inr h3, by omega⟩, hbefore⟩
    · rw [available_inside hp ⟨by omega, by omega⟩ ⟨by omega, by omega⟩,
        inPicture_iff hp htu (by omega) (by omega), nbrAvail_inside hd (by omega) (by omega)
          (by omega),
        show ((((4 * tu.b4PosX : Nat) : Int) - 1) / 4).toNat = tu.b4PosX - 1 by omega,
        show ((((4 * tu.b4PosY : Nat) : Int) - 1) / 4).toNat = tu.b4PosY - 1 by omega]
      have hz : zIndex (tu.b4PosX - 1) (tu.b4PosY - 1) < zIndex tu.b4PosX tu.b4PosY :=
        zIndex_lt_of_le htu hp hxn.le (Nat.div_le_div_right (Nat.sub_le _ _)) (Or.inl hxn.ne)
      exact iff_of_true ⟨⟨Or.inl (by omega), by omega, Or.inl (by omega), by omega⟩, hz⟩
        ⟨by omega, by omega, hz⟩

end Libhevc.Decoder
