import Libhevc.Decoder.IntraNbrSides

/-!
# The neighbour flags of a transform unit

One flag for the sample at the corner and one for each unit of the four sides,
of 8x8 samples or of the 4x4 block. Each says whether the samples can be used.
-/

namespace Libhevc.Decoder

open NbrProc (num8Blks)

variable {p : NbrProc} {g : CtbScan p} {tu : NbrTu} {tus : List NbrTu}

-- ---------------------------------------------------------------------------
-- The flags in one word
-- ---------------------------------------------------------------------------

theorem testBit_of_lt_16 (h : x < 16) (hk : 4 ≤ k) : x.testBit k = false :=
  Nat.testBit_lt_two_pow (Nat.lt_of_lt_of_le (show x < 2 ^ 4 from h)
    (Nat.pow_le_pow_right (by decide) hk))

theorem bitReverse_lt : ∀ x < 16, gau4IhevcdBitReverse x < 16 := by decide

theorem bitReverse_testBit : ∀ x < 16, ∀ i < 4,
    (gau4IhevcdBitReverse x).testBit (3 - i) = x.testBit i := by decide

def packFlags (topLeft topRight top left botLeft : Nat) : Nat :=
  topLeft <<< 16 ||| topRight <<< 12 ||| top <<< 8 ||| gau4IhevcdBitReverse left <<< 4 |||
    gau4IhevcdBitReverse botLeft

theorem packFlags_topLeft (htr : tr < 16) (ht : t < 16) (hl : l < 16) (hb : b < 16) :
    (packFlags tl tr t l b).testBit 16 = tl.testBit 0 := by
  have hl' := bitReverse_lt l hl
  have hb' := bitReverse_lt b hb
  unfold packFlags
  simp only [Nat.testBit_or, Nat.testBit_shiftLeft]
  rw [testBit_of_lt_16 htr (by decide), testBit_of_lt_16 ht (by decide),
    testBit_of_lt_16 hl' (by decide), testBit_of_lt_16 hb' (by decide)]
  simp

theorem packFlags_topRight (ht : t < 16) (hl : l < 16) (hb : b < 16) (hi : i < 4) :
    (packFlags tl tr t l b).testBit (12 + i) = tr.testBit i := by
  have hl' := bitReverse_lt l hl
  have hb' := bitReverse_lt b hb
  unfold packFlags
  simp only [Nat.testBit_or, Nat.testBit_shiftLeft]
  rw [show decide (12 + i ≥ 16) = false by simp; omega, Nat.add_sub_cancel_left,
    testBit_of_lt_16 ht (by omega), testBit_of_lt_16 hl' (by omega),
    testBit_of_lt_16 hb' (by omega)]
  simp

theorem packFlags_top (hl : l < 16) (hb : b < 16) (hi : i < 4) :
    (packFlags tl tr t l b).testBit (8 + i) = t.testBit i := by
  have hl' := bitReverse_lt l hl
  have hb' := bitReverse_lt b hb
  unfold packFlags
  simp only [Nat.testBit_or, Nat.testBit_shiftLeft]
  rw [show decide (8 + i ≥ 16) = false by simp; omega,
    show decide (8 + i ≥ 12) = false by simp; omega, Nat.add_sub_cancel_left,
    testBit_of_lt_16 hl' (by omega), testBit_of_lt_16 hb' (by omega)]
  simp

theorem packFlags_left (hl : l < 16) (hb : b < 16) (hi : i < 4) :
    (packFlags tl tr t l b).testBit (7 - i) = l.testBit i := by
  have hb' := bitReverse_lt b hb
  unfold packFlags
  simp only [Nat.testBit_or, Nat.testBit_shiftLeft]
  rw [show decide (7 - i ≥ 16) = false by simp; omega,
    show decide (7 - i ≥ 12) = false by simp; omega,
    show decide (7 - i ≥ 8) = false by simp; omega,
    show decide (7 - i ≥ 4) = true by simp; omega, testBit_of_lt_16 hb' (by omega),
    show 7 - i - 4 = 3 - i by omega, bitReverse_testBit l hl i hi]
  simp

theorem packFlags_botLeft (hb : b < 16) (hi : i < 4) :
    (packFlags tl tr t l b).testBit (3 - i) = b.testBit i := by
  unfold packFlags
  simp only [Nat.testBit_or, Nat.testBit_shiftLeft]
  rw [show decide (3 - i ≥ 16) = false by simp; omega,
    show decide (3 - i ≥ 12) = false by simp; omega,
    show decide (3 - i ≥ 8) = false by simp; omega,
    show decide (3 - i ≥ 4) = false by simp; omega, bitReverse_testBit b hb i hi]
  simp

-- ---------------------------------------------------------------------------
-- The flags of a side
-- ---------------------------------------------------------------------------

theorem sideFlags_testBit (avail : Bool) (intra : Nat) (hi : i < 4) :
    (p.sideFlags avail intra).testBit i = true ↔
      avail = true ∧ (p.i1ConstrainedIntraPredFlag = true → intra.testBit i = true) := by
  have hones : ∀ i < 4, Nat.testBit 0xF i = true := by decide
  unfold NbrProc.sideFlags
  cases avail with
  | false => simp
  | true =>
    cases p.i1ConstrainedIntraPredFlag with
    | false => simp [hones i hi]
    | true => simp

theorem sideFlags_lt (avail : Bool) (h : intra < 16) : p.sideFlags avail intra < 16 := by
  unfold NbrProc.sideFlags
  split
  · split
    · exact h
    · decide
  · decide

/-- A loop that collects the last bits. -/
theorem collect_testBit (f : Nat → Nat) (n i : Nat) :
    ((List.range n).foldl (fun s i => s ||| (f i &&& 1) <<< i) 0).testBit i
      = (decide (i < n) && (f i).testBit 0) := by
  induction n with
  | zero => simp
  | succ n ih =>
    have hlast : f n &&& 1 = ((f n).testBit 0).toNat := by
      rw [Nat.and_one_is_mod, Nat.toNat_testBit, pow_zero, Nat.div_one]
    rw [List.range_succ, List.foldl_append, List.foldl_cons, List.foldl_nil, Nat.testBit_or, ih,
      hlast, testBit_toNat_shift]
    rcases Nat.lt_trichotomy i n with hlt | rfl | hgt
    · simp [hlt, Nat.lt_succ_of_lt hlt, hlt.ne]
    · simp
    · have hn : ¬ i < n + 1 := by omega
      have hn' : ¬ i < n := by omega
      simp [hn, hn', hgt.ne']

/-- The units of a side. -/
def NbrTu.unit (tu : NbrTu) : Nat := min tu.transSize 8

/-- A unit is an 8x8 block, but for the block of 4x4. -/
theorem unit_cases (h3 : tu.b3Size ≤ 3) :
    tu.transSize = 4 ∧ tu.unit = 4 ∧ num8Blks tu = 1 ∨
    tu.transSize = 8 ∧ tu.unit = 8 ∧ num8Blks tu = 1 ∨
    tu.transSize = 16 ∧ tu.unit = 8 ∧ num8Blks tu = 2 ∨
    tu.transSize = 32 ∧ tu.unit = 8 ∧ num8Blks tu = 4 := by
  unfold NbrTu.unit num8Blks NbrTu.transSize
  generalize tu.b3Size = k at h3
  revert k
  decide

theorem nbrColumn_testBit (x y : Nat) (hi : i < num8Blks tu) :
    (p.nbrColumn tu x y).testBit i = (p.nbrIntra x (y + 8 * i)).testBit 0 := by
  unfold NbrProc.nbrColumn
  rw [Nat.testBit_and, collect_testBit, Nat.one_shiftLeft, Nat.testBit_two_pow_sub_one]
  simp [hi]

theorem and_ones_lt (h3 : tu.b3Size ≤ 3) (x : Nat) : x &&& (1 <<< num8Blks tu - 1) < 16 := by
  refine Nat.lt_of_le_of_lt Nat.and_le_right ?_
  rcases unit_cases h3 with ⟨-, -, h⟩ | ⟨-, -, h⟩ | ⟨-, -, h⟩ | ⟨-, -, h⟩ <;> rw [h] <;> decide

/-- The blocks of a row stand side by side in a byte. -/
theorem nbrRow_testBit (h3 : tu.b3Size ≤ 3) (hx : tu.transSize ∣ x) (y : Nat)
    (hi : i < num8Blks tu) :
    (p.nbrRow tu x y).testBit i = (p.nbrIntra (x + 8 * i) y).testBit 0 := by
  have hbyte : x / 8 % 8 + i < 8 := by
    rcases unit_cases h3 with ⟨ht, -, h⟩ | ⟨ht, -, h⟩ | ⟨ht, -, h⟩ | ⟨ht, -, h⟩ <;>
      rw [h] at hi <;> rw [ht] at hx <;> omega
  have hintra : p.nbrIntra (x + 8 * i) y = p.nbrIntra x y >>> i := by
    unfold NbrProc.nbrIntra
    rw [← Nat.shiftRight_add, show (x + 8 * i) / 64 = x / 64 by omega,
      show (x + 8 * i) / 8 % 8 = x / 8 % 8 + i by omega]
  unfold NbrProc.nbrRow
  rw [Nat.testBit_and, Nat.one_shiftLeft, Nat.testBit_two_pow_sub_one, hintra,
    Nat.testBit_shiftRight]
  simp [hi]

/-- The units that are left in the picture. -/
theorem remainingBits_testBit (tu : NbrTu) (remaining i : Nat) :
    (p.remainingBits tu remaining).testBit i
      = decide (i < min p.ctbSize remaining / tu.unit) := by
  unfold NbrProc.remainingBits
  rw [Nat.one_shiftLeft, Nat.testBit_two_pow_sub_one]
  rfl

theorem intraAt_iff {x y : Int} (hx : x.toNat / 8 = x' / 8) (hy : y.toNat / 8 = y' / 8) :
    p.IntraAt x y ↔ (p.nbrIntra x' y').testBit 0 = true := by
  have hx64 : x.toNat / 64 = x' / 64 := by omega
  unfold NbrProc.IntraAt NbrProc.nbrIntra
  rw [hx, hy, hx64]

/-- The flag of the corner. -/
theorem cornerFlag_testBit (avail constrained : Bool) (intra : Nat) :
    (if avail then if constrained then intra &&& 1 else 1 else 0).testBit 0 = true ↔
      avail = true ∧ (constrained = true → intra.testBit 0 = true) := by
  cases avail with
  | false => simp
  | true =>
    cases constrained with
    | false => simp
    | true => simp

end Libhevc.Decoder

/-!
## The neighbour flags are the z-scan availability

Each flag of `ihevcd_get_intra_nbr_flag` stands for samples that can all be used
or cannot be used at all, and is set when they can.
-/

namespace Libhevc.Decoder

open NbrProc (num8Blks)

variable {p : NbrProc} {g : CtbScan p} {tu : NbrTu} {tus : List NbrTu}

/-- Each flag is that of the samples it stands for, with 8x8 units or the 4x4 block as unit. -/
structure NbrFlagsExact (p : NbrProc) (g : CtbScan p) (tu : NbrTu) (flags : Nat) : Prop where
  topLeft : flags.testBit 16 = true ↔
    p.Usable g tu ((p.xCur tu : Int) - 1) ((p.yCur tu : Int) - 1)
  topRight : ∀ i < num8Blks tu, ∀ j < tu.unit, flags.testBit (12 + i) = true ↔
    p.Usable g tu (p.xCur tu + (tu.transSize + (tu.unit * i + j) : Nat)) ((p.yCur tu : Int) - 1)
  top : ∀ i < num8Blks tu, ∀ j < tu.unit, flags.testBit (8 + i) = true ↔
    p.Usable g tu (p.xCur tu + (tu.unit * i + j : Nat)) ((p.yCur tu : Int) - 1)
  left : ∀ i < num8Blks tu, ∀ j < tu.unit, flags.testBit (7 - i) = true ↔
    p.Usable g tu ((p.xCur tu : Int) - 1) (p.yCur tu + (tu.unit * i + j : Nat))
  botLeft : ∀ i < num8Blks tu, ∀ j < tu.unit, flags.testBit (3 - i) = true ↔
    p.Usable g tu ((p.xCur tu : Int) - 1) (p.yCur tu + (tu.transSize + (tu.unit * i + j) : Nat))

theorem transSize_dvd_xCur (hp : p.Ok) (htu : tu.Ok p) : tu.transSize ∣ p.xCur tu := by
  obtain ⟨u, hu⟩ := htu.alignX
  obtain ⟨w, hw⟩ := htu.dvd_ctb hp
  have hsize := hp.size
  have hctb : p.ctbSize = tu.transSize * w := by
    rw [tu.transSize_eq, Nat.mul_assoc, ← hw]
    omega
  unfold NbrProc.xCur
  rw [hctb, hu, tu.transSize_eq]
  exact ⟨p.i4CtbX * w + u, by ring⟩

theorem transSize_dvd_yCur (hp : p.Ok) (htu : tu.Ok p) : tu.transSize ∣ p.yCur tu := by
  obtain ⟨v, hv⟩ := htu.alignY
  obtain ⟨w, hw⟩ := htu.dvd_ctb hp
  have hsize := hp.size
  have hctb : p.ctbSize = tu.transSize * w := by
    rw [tu.transSize_eq, Nat.mul_assoc, ← hw]
    omega
  unfold NbrProc.yCur
  rw [hctb, hv, tu.transSize_eq]
  exact ⟨p.i4CtbY * w + v, by ring⟩

/-- The samples of a unit are in one 8x8 block. -/
theorem unit_block (h3 : tu.b3Size ≤ 3) (hc : tu.transSize ∣ c) (hi : i < num8Blks tu)
    (hj : j < tu.unit) : (c + (tu.unit * i + j)) / 8 = (c + 8 * i) / 8 := by
  rcases unit_cases h3 with ⟨ht, hu, h⟩ | ⟨ht, hu, h⟩ | ⟨ht, hu, h⟩ | ⟨ht, hu, h⟩ <;>
    rw [h] at hi <;> rw [ht] at hc <;> rw [hu] at hj ⊢ <;> omega

theorem unit_lt (h3 : tu.b3Size ≤ 3) (hi : i < num8Blks tu) (hj : j < tu.unit) :
    tu.unit * i + j < tu.transSize ∧ i < 4 := by
  rcases unit_cases h3 with ⟨ht, hu, h⟩ | ⟨ht, hu, h⟩ | ⟨ht, hu, h⟩ | ⟨ht, hu, h⟩ <;>
    rw [h] at hi <;> rw [hu] at hj ⊢ <;> rw [ht] <;> omega

/-- A unit behind the block is in the picture when its flag is left. -/
theorem remaining_iff (h3 : tu.b3Size ≤ 3) (hp : p.Ok) (hi : i < num8Blks tu) (hj : j < tu.unit)
    (hmod : remaining % 8 = 0) (hc : tu.transSize ∣ c) (hfit : c + tu.transSize ≤ remaining)
    (hctb : c + tu.transSize ≤ p.ctbSize) :
    (p.remainingBits tu (remaining - c - tu.transSize)).testBit i = true ↔
      c + (tu.transSize + (tu.unit * i + j)) < remaining := by
  have hsize := hp.size
  rw [remainingBits_testBit, decide_eq_true_iff]
  rcases unit_cases h3 with ⟨ht, hu, h⟩ | ⟨ht, hu, h⟩ | ⟨ht, hu, h⟩ | ⟨ht, hu, h⟩ <;>
    rw [h] at hi <;> rw [ht] at hc hfit hctb ⊢ <;> rw [hu] at hj ⊢ <;> omega

theorem ihevcdGetIntraNbrFlag_exact (hp : p.Ok) (htu : tu.Ok p) (h3 : tu.b3Size ≤ 3)
    (hd : DoneBefore p tus tu) (hf : p.CtbFlags g) :
    NbrFlagsExact p g tu (p.ihevcdGetIntraNbrFlag (p.nbrAvail tus) tu) := by
  have hn : tu.transSize / 4 = tu.minTus := by
    rw [tu.transSize_eq]
    omega
  have hx := transSize_dvd_xCur hp htu
  have hy := transSize_dvd_yCur hp htu
  have hflags : p.ihevcdGetIntraNbrFlag (p.nbrAvail tus) tu = packFlags
      (if (p.nbrAvail tus tu.b4PosY).testBit (31 - tu.b4PosX) then
        if p.i1ConstrainedIntraPredFlag then p.nbrIntra (p.xCur tu - 1) (p.yCur tu - 1) &&& 1
        else 1
      else 0)
      (p.sideFlags ((p.nbrAvail tus tu.b4PosY).testBit (31 - (1 + tu.b4PosX + tu.minTus)))
          (p.nbrRow tu (p.xCur tu + tu.transSize) (p.yCur tu - 1)) &&&
        p.remainingBits tu (p.colsRemaining - tu.b4PosX * 4 - tu.transSize))
      (p.sideFlags ((p.nbrAvail tus tu.b4PosY).testBit (31 - (1 + tu.b4PosX)))
        (p.nbrRow tu (p.xCur tu) (p.yCur tu - 1)))
      (p.sideFlags ((p.nbrAvail tus (1 + tu.b4PosY)).testBit (31 - tu.b4PosX))
        (p.nbrColumn tu (p.xCur tu - 1) (p.yCur tu)))
      (p.sideFlags ((p.nbrAvail tus (1 + tu.b4PosY + tu.minTus)).testBit (31 - tu.b4PosX))
          (p.nbrColumn tu (p.xCur tu - 1) (p.yCur tu + tu.transSize)) &&&
        p.remainingBits tu (p.rowsRemaining - tu.b4PosY * 4 - tu.transSize)) := by
    unfold NbrProc.ihevcdGetIntraNbrFlag
    dsimp only
    simp only [nbrBit_eq, hn, Nat.add_sub_cancel_left]
    rfl
  rw [hflags]
  have htr : p.sideFlags ((p.nbrAvail tus tu.b4PosY).testBit (31 - (1 + tu.b4PosX + tu.minTus)))
      (p.nbrRow tu (p.xCur tu + tu.transSize) (p.yCur tu - 1)) &&&
      p.remainingBits tu (p.colsRemaining - tu.b4PosX * 4 - tu.transSize) < 16 :=
    Nat.lt_of_le_of_lt Nat.and_le_left (sideFlags_lt _ (and_ones_lt h3 _))
  have ht : p.sideFlags ((p.nbrAvail tus tu.b4PosY).testBit (31 - (1 + tu.b4PosX)))
      (p.nbrRow tu (p.xCur tu) (p.yCur tu - 1)) < 16 := sideFlags_lt _ (and_ones_lt h3 _)
  have hl : p.sideFlags ((p.nbrAvail tus (1 + tu.b4PosY)).testBit (31 - tu.b4PosX))
      (p.nbrColumn tu (p.xCur tu - 1) (p.yCur tu)) < 16 := sideFlags_lt _ (and_ones_lt h3 _)
  have hb : p.sideFlags ((p.nbrAvail tus (1 + tu.b4PosY + tu.minTus)).testBit (31 - tu.b4PosX))
      (p.nbrColumn tu (p.xCur tu - 1) (p.yCur tu + tu.transSize)) &&&
      p.remainingBits tu (p.rowsRemaining - tu.b4PosY * 4 - tu.transSize) < 16 :=
    Nat.lt_of_le_of_lt Nat.and_le_left (sideFlags_lt _ (and_ones_lt h3 _))
  have hfitX := htu.fitX
  have hfitY := htu.fitY
  rw [Nat.mul_add, ← tu.transSize_eq] at hfitX hfitY
  have hxdvd : tu.transSize ∣ tu.b4PosX * 4 := by
    rw [tu.transSize_eq, Nat.mul_comm]
    exact Nat.mul_dvd_mul_right htu.alignX 4
  have hydvd : tu.transSize ∣ tu.b4PosY * 4 := by
    rw [tu.transSize_eq, Nat.mul_comm]
    exact Nat.mul_dvd_mul_right htu.alignY 4
  constructor
  · rw [packFlags_topLeft htr ht hl hb, cornerFlag_testBit]
    unfold NbrProc.Usable
    have hin : p.IntraAt ((p.xCur tu : Int) - 1) ((p.yCur tu : Int) - 1) ↔
        (p.nbrIntra (p.xCur tu - 1) (p.yCur tu - 1)).testBit 0 = true :=
      intraAt_iff (by omega) (by omega)
    rw [available_topLeft hp htu hd hf, hin]
  · intro i hi j hj
    obtain ⟨ho, hi4⟩ := unit_lt h3 hi hj
    have hblock := unit_block h3 (Nat.dvd_add_self_right.mpr hx) hi hj
    have hin : p.IntraAt (p.xCur tu + (tu.transSize + (tu.unit * i + j) : Nat))
        ((p.yCur tu : Int) - 1) ↔
        (p.nbrIntra (p.xCur tu + tu.transSize + 8 * i) (p.yCur tu - 1)).testBit 0 = true :=
      intraAt_iff (by omega) (by omega)
    rw [packFlags_topRight ht hl hb hi4, Nat.testBit_and, Bool.and_eq_true,
      sideFlags_testBit _ _ hi4,
      remaining_iff h3 hp hi hj hp.cols_mod hxdvd (by omega) (by omega),
      nbrRow_testBit h3 (Nat.dvd_add_self_right.mpr hx) _ hi]
    unfold NbrProc.Usable
    rw [available_topRight hp htu hd hf (by omega) (by omega), hin, Nat.mul_comm tu.b4PosX 4,
      and_right_comm]
  · intro i hi j hj
    obtain ⟨ho, hi4⟩ := unit_lt h3 hi hj
    have hblock := unit_block h3 hx hi hj
    have hin : p.IntraAt (p.xCur tu + (tu.unit * i + j : Nat)) ((p.yCur tu : Int) - 1) ↔
        (p.nbrIntra (p.xCur tu + 8 * i) (p.yCur tu - 1)).testBit 0 = true :=
      intraAt_iff (by omega) (by omega)
    rw [packFlags_top hl hb hi4, sideFlags_testBit _ _ hi4, nbrRow_testBit h3 hx _ hi]
    unfold NbrProc.Usable
    rw [available_top hp htu hd hf ho, hin]
  · intro i hi j hj
    obtain ⟨ho, hi4⟩ := unit_lt h3 hi hj
    have hblock := unit_block h3 hy hi hj
    have hin : p.IntraAt ((p.xCur tu : Int) - 1) (p.yCur tu + (tu.unit * i + j : Nat)) ↔
        (p.nbrIntra (p.xCur tu - 1) (p.yCur tu + 8 * i)).testBit 0 = true :=
      intraAt_iff (by omega) (by omega)
    rw [packFlags_left hl hb hi4, sideFlags_testBit _ _ hi4, nbrColumn_testBit _ _ hi]
    unfold NbrProc.Usable
    rw [available_left hp htu hd hf ho, hin]
  · intro i hi j hj
    obtain ⟨ho, hi4⟩ := unit_lt h3 hi hj
    have hblock := unit_block h3 (Nat.dvd_add_self_right.mpr hy) hi hj
    have hin : p.IntraAt ((p.xCur tu : Int) - 1)
        (p.yCur tu + (tu.transSize + (tu.unit * i + j) : Nat)) ↔
        (p.nbrIntra (p.xCur tu - 1) (p.yCur tu + tu.transSize + 8 * i)).testBit 0 = true :=
      intraAt_iff (by omega) (by omega)
    rw [packFlags_botLeft hb hi4, Nat.testBit_and, Bool.and_eq_true, sideFlags_testBit _ _ hi4,
      remaining_iff h3 hp hi hj hp.rows_mod hydvd (by omega) (by omega),
      nbrColumn_testBit _ _ hi]
    unfold NbrProc.Usable
    rw [available_botLeft hp htu hd hf (by omega) (by omega), hin, Nat.mul_comm tu.b4PosY 4,
      and_right_comm]

end Libhevc.Decoder
