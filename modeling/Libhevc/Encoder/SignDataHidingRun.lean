import Libhevc.Common.QuantIquantLaws
import Libhevc.Encoder.SignDataHidingLaws
import Mathlib.Algebra.Order.Ring.Abs

/-!
# The groups of a block

No two groups share a level, so a group is as it was until its round. The cost
is out by `2 ^ 32` for each squared error that `WORD32` does not hold.
-/

namespace Libhevc.Encoder

open Finset (range)

-- ---------------------------------------------------------------------------
-- Where the levels are
-- ---------------------------------------------------------------------------

structure RdoqSbhCtxt.Ok (ctxt : RdoqSbhCtxt) : Prop where
  size : ctxt.i4TransSize = 4 ∨ ctxt.i4TransSize = 8 ∨ ctxt.i4TransSize = 16 ∨
    ctxt.i4TransSize = 32
  scan : ctxt.i4ScanIdx < 3

/-- A scan of `n` positions: each is met once. -/
def ScanOf (n : Nat) (t : List Nat) : Prop := t.length = n ∧ t.Nodup ∧ ∀ x ∈ t, x < n

instance (n : Nat) (t : List Nat) : Decidable (ScanOf n t) :=
  inferInstanceAs (Decidable (_ ∧ _ ∧ _))

theorem ScanOf.getD_inj {t : List Nat} (h : ScanOf n t) (hu : u < n) (hv : v < n)
    (heq : t.getD u 0 = t.getD v 0) : u = v := by
  obtain ⟨hlen, hnodup, -⟩ := h
  rw [List.getD_eq_getElem t 0 (hlen ▸ hu), List.getD_eq_getElem t 0 (hlen ▸ hv)] at heq
  exact (hnodup.getElem_inj_iff).mp heq

theorem scanTable8x8_ok : ∀ s < 3, ScanOf 64 (gU1ScanTable8x8 s) := by decide +kernel

theorem scanTable4x4_ok : ∀ s < 3, ScanOf 16 (gU1ScanTable4x4 s) := by decide +kernel

theorem scanTable2x2_ok : ∀ s < 3, ScanOf 4 (gU1ScanTable2x2 s) := by decide

namespace RdoqSbhCtxt

variable {ctxt : RdoqSbhCtxt}

theorem Ok.transTable (h : ctxt.Ok) : ScanOf ctxt.numUnits ctxt.transTable := by
  unfold numUnits RdoqSbhCtxt.transTable
  rcases h.size with hs | hs | hs | hs <;> rw [hs]
  · exact (by decide : ScanOf 1 gU1ScanTable1x1)
  · exact scanTable2x2_ok _ h.scan
  · exact scanTable4x4_ok _ h.scan
  · exact scanTable8x8_ok _ h.scan

/-- The row and the column of a unit, as the shift and the mask find them. -/
theorem Ok.exists_pow (h : ctxt.Ok) :
    ∃ k, ctxt.i4TransSize / 4 = 2 ^ k ∧ getRange ctxt.i4TransSize - 3 = k := by
  rcases h.size with hs | hs | hs | hs <;> rw [hs]
  · exact ⟨0, by decide⟩
  · exact ⟨1, by decide⟩
  · exact ⟨2, by decide⟩
  · exact ⟨3, by decide⟩

theorem Ok.csb_lt (h : ctxt.Ok) (i : Nat) : ctxt.csb i < 16 := by
  obtain ⟨hlen, -, hlt⟩ := scanTable4x4_ok _ h.scan
  unfold csb
  rcases Nat.lt_or_ge i 16 with hi | hi
  · rw [List.getD_eq_getElem _ 0 (hlen ▸ hi)]
    exact hlt _ (List.getElem_mem _)
  · rw [List.getD_eq_default _ 0 (hlen ▸ hi)]
    decide

/-- Two levels of the block at one place are one level of one group. -/
theorem Ok.pos_inj (h : ctxt.Ok) (hu : u < ctxt.numUnits) (hv : v < ctxt.numUnits)
    (hy : ctxt.yPos u i = ctxt.yPos v j) (hx : ctxt.xPos u i = ctxt.xPos v j) :
    u = v ∧ ctxt.csb i = ctxt.csb j := by
  obtain ⟨k, hn, hk⟩ := h.exists_pow
  have hi := h.csb_lt i
  have hj := h.csb_lt j
  unfold yPos blkRow at hy
  unfold xPos blkCol at hx
  rw [hk, Nat.shiftRight_eq_div_pow, Nat.shiftRight_eq_div_pow, Nat.shiftRight_eq_div_pow,
    Nat.shiftRight_eq_div_pow] at hy
  rw [hn, Nat.and_two_pow_sub_one_eq_mod, Nat.and_two_pow_sub_one_eq_mod,
    show (0x3 : Nat) = 2 ^ 2 - 1 from rfl, Nat.and_two_pow_sub_one_eq_mod,
    Nat.and_two_pow_sub_one_eq_mod] at hx
  have hrow : ctxt.unit u / 2 ^ k = ctxt.unit v / 2 ^ k := by omega
  have hcol : ctxt.unit u % 2 ^ k = ctxt.unit v % 2 ^ k := by omega
  have hunit : ctxt.unit u = ctxt.unit v := by
    rw [← Nat.div_add_mod (ctxt.unit u) (2 ^ k), hrow, hcol, Nat.div_add_mod]
  exact ⟨h.transTable.getD_inj hu hv hunit, by omega⟩

theorem Ok.csb_inj (h : ctxt.Ok) (hi : i < 16) (hj : j < 16) (heq : ctxt.csb i = ctxt.csb j) :
    i = j :=
  (scanTable4x4_ok _ h.scan).getD_inj hi hj heq

end RdoqSbhCtxt

-- ---------------------------------------------------------------------------
-- One store
-- ---------------------------------------------------------------------------

variable {ctxt : RdoqSbhCtxt} {s : SbhSt}

theorem storeAt_self (m : Nat → Nat → Int) (y x : Nat) (v : Int) : storeAt m y x v y x = v :=
  if_pos ⟨rfl, rfl⟩

theorem storeAt_of_ne (m : Nat → Nat → Int) {y x r c : Nat} (v : Int) (h : r = y → c ≠ x) :
    storeAt m y x v r c = m r c :=
  if_neg fun hrc => h hrc.1 hrc.2

/-- The other groups are as they were. -/
theorem group_storeLevel_of_ne (h : ctxt.Ok) (hu : u < ctxt.numUnits) (hv : v < ctxt.numUnits)
    (hne : v ≠ u) (b : Nat) (level : Int) :
    ctxt.group (storeLevel ctxt s u b level) v = ctxt.group s v := by
  have hoff : ∀ i, ctxt.yPos v i = ctxt.yPos u b → ctxt.xPos v i ≠ ctxt.xPos u b :=
    fun i hy hx => hne (h.pos_inj hv hu hy hx).1
  unfold RdoqSbhCtxt.group storeLevel
  congr 1
  · funext i
    exact storeAt_of_ne _ _ (hoff i)
  · funext i
    exact storeAt_of_ne _ _ (hoff i)

theorem pos_of_ne (h : ctxt.Ok) (hu : u < ctxt.numUnits) (hb : b < 16) (hi : i < 16)
    (hne : i ≠ b) : ctxt.yPos u i = ctxt.yPos u b → ctxt.xPos u i ≠ ctxt.xPos u b :=
  fun hy hx => hne (h.csb_inj hi hb (h.pos_inj hu hu hy hx).2)

/-- The group itself has the new level and its dequantised value. -/
theorem group_storeLevel_self (h : ctxt.Ok) (hu : u < ctxt.numUnits) (hb : b < 16) (level : Int)
    (hi : i < 16) :
    (ctxt.group (storeLevel ctxt s u b level) u).level i
        = Function.update (ctxt.group s u).level b level i ∧
      (ctxt.group (storeLevel ctxt s u b level) u).iquantCoeff i
        = Function.update (ctxt.group s u).iquantCoeff b
          (ctxt.iquantAt (ctxt.yPos u b) (ctxt.xPos u b) level) i := by
  by_cases hib : i = b
  · rw [hib, Function.update_self, Function.update_self]
    exact ⟨storeAt_self _ _ _ _, storeAt_self _ _ _ _⟩
  · rw [Function.update_of_ne hib, Function.update_of_ne hib]
    exact ⟨storeAt_of_ne _ _ (pos_of_ne h hu hb hi hib),
      storeAt_of_ne _ _ (pos_of_ne h hu hb hi hib)⟩

-- ---------------------------------------------------------------------------
-- The cost
-- ---------------------------------------------------------------------------

/-- The squared errors of a group. -/
def groupSsd (k : Group) : Int := ∑ i ∈ range 16, (k.trCoeff i - k.iquantCoeff i) ^ 2

/-- The squared errors of the block. -/
def blockSsd (ctxt : RdoqSbhCtxt) (s : SbhSt) : Int :=
  ∑ u ∈ range ctxt.numUnits, groupSsd (ctxt.group s u)

/-- An error whose square is not in `WORD32`. -/
def Wide (err : Int) : Prop := 46341 ≤ |err|

instance (err : Int) : Decidable (Wide err) := inferInstanceAs (Decidable (_ ≤ _))

theorem i32_sq (err : Int) (hlo : -65535 ≤ err) (hhi : err ≤ 65535) :
    i32 (err * err) = err ^ 2 - 2 ^ 32 * (if Wide err then 1 else 0) := by
  have habs : |err| ≤ 65535 := abs_le.mpr ⟨hlo, hhi⟩
  have hsq : |err| * |err| = err * err := abs_mul_abs_self err
  have hnn := abs_nonneg err
  rw [sq]
  unfold i32 wrapInt
  by_cases hwide : Wide err
  · rw [if_pos hwide]
    unfold Wide at hwide
    have hmin : 46341 * 46341 ≤ |err| * |err| := by nlinarith
    have hmax : |err| * |err| ≤ 65535 * 65535 := by nlinarith
    rw [hsq] at hmin hmax
    omega
  · rw [if_neg hwide]
    unfold Wide at hwide
    have hmax : |err| * |err| ≤ 46340 * 46340 := by nlinarith
    rw [hsq] at hmax
    have hmin := mul_self_nonneg err
    omega

theorem sum_update_eq (f g : Nat → Int) {n b : Nat} (hb : b < n) (h : ∀ i < n, i ≠ b → f i = g i) :
    ∑ i ∈ range n, f i = ∑ i ∈ range n, g i - g b + f b := by
  have hmem := Finset.mem_range.mpr hb
  have hrest : ∑ i ∈ (range n).erase b, f i = ∑ i ∈ (range n).erase b, g i := by
    refine Finset.sum_congr rfl fun i hi => ?_
    exact h i (Finset.mem_range.mp (Finset.mem_of_mem_erase hi)) (Finset.ne_of_mem_erase hi)
  rw [← Finset.add_sum_erase _ _ hmem, ← Finset.add_sum_erase _ g hmem, hrest]
  omega

/-- A store changes the squared errors of the block by those of one level. -/
theorem blockSsd_storeLevel (h : ctxt.Ok) (hu : u < ctxt.numUnits) (hb : b < 16) (level : Int) :
    blockSsd ctxt (storeLevel ctxt s u b level) = blockSsd ctxt s
      - ((ctxt.group s u).trCoeff b - (ctxt.group s u).iquantCoeff b) ^ 2
      + ((ctxt.group s u).trCoeff b
        - ctxt.iquantAt (ctxt.yPos u b) (ctxt.xPos u b) level) ^ 2 := by
  have hgroup : groupSsd (ctxt.group (storeLevel ctxt s u b level) u) = groupSsd (ctxt.group s u)
      - ((ctxt.group s u).trCoeff b - (ctxt.group s u).iquantCoeff b) ^ 2
      + ((ctxt.group s u).trCoeff b
        - ctxt.iquantAt (ctxt.yPos u b) (ctxt.xPos u b) level) ^ 2 := by
    unfold groupSsd
    have hat := (group_storeLevel_self (s := s) h hu hb level hb).2
    rw [Function.update_self] at hat
    rw [← hat]
    refine sum_update_eq
      (fun i => ((ctxt.group s u).trCoeff i
        - (ctxt.group (storeLevel ctxt s u b level) u).iquantCoeff i) ^ 2)
      (fun i => ((ctxt.group s u).trCoeff i - (ctxt.group s u).iquantCoeff i) ^ 2) hb
      fun i hi hib => ?_
    have hkeep := (group_storeLevel_self (s := s) h hu hb level hi).2
    rw [Function.update_of_ne hib] at hkeep
    exact congrArg (fun x => ((ctxt.group s u).trCoeff i - x) ^ 2) hkeep
  unfold blockSsd
  rw [sum_update_eq _ (fun v => groupSsd (ctxt.group s v)) hu fun v hv hne =>
    congrArg groupSsd (group_storeLevel_of_ne h hu hv hne b level), hgroup]
  omega

-- ---------------------------------------------------------------------------
-- One round
-- ---------------------------------------------------------------------------

/-- No group behind it in the scan is coded. -/
def RdoqSbhCtxt.lastCoded (ctxt : RdoqSbhCtxt) (u : Nat) : Bool :=
  (List.range ctxt.numUnits).all fun v => decide (v ≤ u) || !ctxt.coded v

/-- Where the group changes. -/
def Changed (ctxt : RdoqSbhCtxt) (s : SbhSt) (u b : Nat) : Prop :=
  ctxt.coded u = true ∧ (ctxt.group s u).Changes (ctxt.lastCoded u) b

/-- The squared error of the old value is not in `WORD32`. -/
def OldErrorWide (ctxt : RdoqSbhCtxt) (s : SbhSt) (u : Nat) : Prop :=
  ∃ b, Changed ctxt s u b ∧ Wide ((ctxt.group s u).trCoeff b - (ctxt.group s u).iquantCoeff b)

/-- The squared error of the new value is not in `WORD32`. -/
def NewErrorWide (ctxt : RdoqSbhCtxt) (s : SbhSt) (u : Nat) : Prop :=
  ∃ b, Changed ctxt s u b ∧ Wide ((ctxt.group s u).trCoeff b
    - ctxt.iquantAt (ctxt.yPos u b) (ctxt.xPos u b) ((ctxt.group s u).newLevel b))

/-- Every stored value is `IQUANT` of its level. -/
def Dequantised (ctxt : RdoqSbhCtxt) (s : SbhSt) : Prop :=
  ∀ y x, s.iquantCoeffs y x = ctxt.iquantAt y x (s.quantCoeffs y x)

theorem Changed.unique (h : Changed ctxt s u b) (h' : Changed ctxt s u b') : b = b' :=
  h.2.unique h'.2

theorem Dequantised.storeLevel (h : Dequantised ctxt s) (u b : Nat) (level : Int) :
    Dequantised ctxt (storeLevel ctxt s u b level) := by
  intro y x
  by_cases hat : y = ctxt.yPos u b ∧ x = ctxt.xPos u b
  · obtain ⟨rfl, rfl⟩ := hat
    unfold Encoder.storeLevel
    dsimp only
    rw [storeAt_self, storeAt_self]
  · have hne : y = ctxt.yPos u b → x ≠ ctxt.xPos u b := fun hy hx => hat ⟨hy, hx⟩
    unfold Encoder.storeLevel
    dsimp only
    rw [storeAt_of_ne _ _ hne, storeAt_of_ne _ _ hne]
    exact h y x

open Classical in
/-- What is lost of the cost in the round of a group. -/
noncomputable def lostCost (ctxt : RdoqSbhCtxt) (s : SbhSt) (u : Nat) : Int :=
  2 ^ 32 * ((if OldErrorWide ctxt s u then 1 else 0) - (if NewErrorWide ctxt s u then 1 else 0))

/-- A group that changes has the new level, and the others are as they were. -/
def HideResult (ctxt : RdoqSbhCtxt) (s s' : SbhSt) (u : Nat) : Prop :=
  ((∀ b, ¬ Changed ctxt s u b) ∧ ctxt.group s' u = ctxt.group s u ∧
    (ctxt.coded u = true → ∀ f l, ¬ (ctxt.group s u).Mismatch f l)) ∨
  ∃ b, Changed ctxt s u b ∧ ∀ i < 16, (ctxt.group s' u).level i
    = Function.update (ctxt.group s u).level b ((ctxt.group s u).newLevel b) i

/-- What a round does. -/
structure HideRound (ctxt : RdoqSbhCtxt) (s s' : SbhSt) (u : Nat) : Prop where
  others : ∀ v < ctxt.numUnits, v ≠ u → ctxt.group s' v = ctxt.group s v
  result : HideResult ctxt s s' u
  cost : s'.i8SsdCost - blockSsd ctxt s' = s.i8SsdCost - blockSsd ctxt s + lostCost ctxt s u
  dequantised : Dequantised ctxt s → Dequantised ctxt s'
  lastCg : s'.lastCg = if ctxt.coded u then 0 else s.lastCg

theorem lostCost_of_not_changed (h : ∀ b, ¬ Changed ctxt s u b) : lostCost ctxt s u = 0 := by
  unfold lostCost
  rw [if_neg fun ⟨b, hb, _⟩ => h b hb, if_neg fun ⟨b, hb, _⟩ => h b hb]
  rfl

open Classical in
theorem lostCost_of_changed (h : Changed ctxt s u b) :
    lostCost ctxt s u = 2 ^ 32 *
      ((if Wide ((ctxt.group s u).trCoeff b - (ctxt.group s u).iquantCoeff b) then 1 else 0)
        - (if Wide ((ctxt.group s u).trCoeff b - ctxt.iquantAt (ctxt.yPos u b) (ctxt.xPos u b)
            ((ctxt.group s u).newLevel b)) then 1 else 0)) := by
  unfold lostCost
  have hold : OldErrorWide ctxt s u ↔
      Wide ((ctxt.group s u).trCoeff b - (ctxt.group s u).iquantCoeff b) := by
    constructor
    · rintro ⟨b', hb', hwide⟩
      rwa [h.unique hb']
    · exact fun hwide => ⟨b, h, hwide⟩
  have hnew : NewErrorWide ctxt s u ↔ Wide ((ctxt.group s u).trCoeff b
      - ctxt.iquantAt (ctxt.yPos u b) (ctxt.xPos u b) ((ctxt.group s u).newLevel b)) := by
    constructor
    · rintro ⟨b', hb', hwide⟩
      rwa [h.unique hb']
    · exact fun hwide => ⟨b, h, hwide⟩
  congr 2
  · exact if_congr hold rfl rfl
  · exact if_congr hnew rfl rfl

theorem iquantAt_range (ctxt : RdoqSbhCtxt) (y x : Nat) (level : Int) :
    -32768 ≤ ctxt.iquantAt y x level ∧ ctxt.iquantAt y x level ≤ 32767 := by
  unfold RdoqSbhCtxt.iquantAt iquant
  exact clipS16_bounds _

/-- The store of a group that changes. -/
theorem storeLevel_round (h : ctxt.Ok) (hu : u < ctxt.numUnits) (hk : (ctxt.group s u).Ok)
    (hb : Changed ctxt s u b) :
    HideRound ctxt s
      { storeLevel ctxt s u b ((ctxt.group s u).newLevel b) with lastCg := 0 } u where
  others v hv hne := group_storeLevel_of_ne h hu hv hne b _
  result := Or.inr ⟨b, hb, fun i hi => (group_storeLevel_self h hu hb.2.lt _ hi).1⟩
  cost := by
    have hb16 := hb.2.lt
    have htr := hk.trRange b hb16
    have hiq := hk.iquantRange b hb16
    have hnew := iquantAt_range ctxt (ctxt.yPos u b) (ctxt.xPos u b)
      ((ctxt.group s u).newLevel b)
    have hssd := blockSsd_storeLevel (s := s) h hu hb16 ((ctxt.group s u).newLevel b)
    have hold := i32_sq ((ctxt.group s u).trCoeff b - (ctxt.group s u).iquantCoeff b)
      (by omega) (by omega)
    have hnewsq := i32_sq
      ((ctxt.group s u).trCoeff b - ctxt.iquantAt (ctxt.yPos u b) (ctxt.xPos u b)
        ((ctxt.group s u).newLevel b)) (by omega) (by omega)
    have hcost : (storeLevel ctxt s u b ((ctxt.group s u).newLevel b)).i8SsdCost = s.i8SsdCost
        - i32 (((ctxt.group s u).trCoeff b - (ctxt.group s u).iquantCoeff b)
          * ((ctxt.group s u).trCoeff b - (ctxt.group s u).iquantCoeff b))
        + i32 (((ctxt.group s u).trCoeff b - ctxt.iquantAt (ctxt.yPos u b) (ctxt.xPos u b)
            ((ctxt.group s u).newLevel b))
          * ((ctxt.group s u).trCoeff b - ctxt.iquantAt (ctxt.yPos u b) (ctxt.xPos u b)
            ((ctxt.group s u).newLevel b))) := rfl
    rw [hold, hnewsq] at hcost
    show (storeLevel ctxt s u b _).i8SsdCost - blockSsd ctxt (storeLevel ctxt s u b _) = _
    rw [lostCost_of_changed hb, hssd, hcost]
    ring
  dequantised hd := hd.storeLevel u b _
  lastCg := by rw [if_pos hb.1]

theorem hideGroup_round (h : ctxt.Ok) (hu : u < ctxt.numUnits) (hk : (ctxt.group s u).Ok)
    (hlast : ctxt.coded u = true →
      s.lastCg = -1 ∧ ctxt.lastCoded u = true ∨ s.lastCg = 0 ∧ ctxt.lastCoded u = false) :
    HideRound ctxt s (hideGroup ctxt s u) u := by
  unfold hideGroup
  cases hc : ctxt.coded u with
  | false =>
    have hno : ∀ b, ¬ Changed ctxt s u b := fun b hb => by
      rw [hb.1] at hc
      exact absurd hc (by decide)
    refine ⟨fun v hv hne => rfl, Or.inl ⟨hno, rfl, fun h => ?_⟩, ?_, id, ?_⟩
    · rw [hc] at h
      exact absurd h (by decide)
    · rw [lostCost_of_not_changed hno, Int.add_zero]
      rfl
    · rw [hc]
      rfl
  | true =>
    rw [if_pos rfl]
    have hdec : decide ((if s.lastCg = -1 then 1 else s.lastCg) = 1) = ctxt.lastCoded u := by
      rcases hlast hc with ⟨hcg, hl⟩ | ⟨hcg, hl⟩ <;> rw [hcg, hl] <;> decide
    have hzero : (if (if s.lastCg = -1 then 1 else s.lastCg) = 1 then 0
        else if s.lastCg = -1 then 1 else s.lastCg) = 0 := by
      rcases hlast hc with ⟨hcg, -⟩ | ⟨hcg, -⟩ <;> rw [hcg] <;> decide
    dsimp only
    rw [hzero]
    rcases (ctxt.group s u).hide_cases (if s.lastCg = -1 then 1 else s.lastCg) s.bestPos with
      ⟨b, hb, heq⟩ | ⟨hno, heq⟩
    · rw [hdec] at hb
      rw [heq]
      exact storeLevel_round h hu hk ⟨hc, hb⟩
    · rw [heq]
      have hnone : ∀ b, ¬ Changed ctxt s u b := by
        rintro b ⟨-, f, l, hm, -⟩
        exact hno f l hm
      refine ⟨fun v hv hne => rfl, Or.inl ⟨hnone, rfl, fun _ => hno⟩, ?_, id, ?_⟩
      · rw [lostCost_of_not_changed hnone, Int.add_zero]
        rfl
      · rw [hc]
        rfl

-- ---------------------------------------------------------------------------
-- The run over the groups
-- ---------------------------------------------------------------------------

theorem lostCost_congr {t : SbhSt} (h : ctxt.group s u = ctxt.group t u) :
    lostCost ctxt s u = lostCost ctxt t u := by
  unfold lostCost OldErrorWide NewErrorWide Changed
  rw [h]

theorem HideResult.congr {s s' t t' : SbhSt} (h : HideResult ctxt s s' u)
    (hs : ctxt.group s u = ctxt.group t u) (hs' : ctxt.group s' u = ctxt.group t' u) :
    HideResult ctxt t t' u := by
  unfold HideResult Changed at *
  rwa [hs, hs'] at h

/-- What holds after `n` rounds, which are of the last `n` groups. -/
structure HideRun (ctxt : RdoqSbhCtxt) (s : SbhSt) (n : Nat) (t : SbhSt) : Prop where
  todo : ∀ u, u + n < ctxt.numUnits → ctxt.group t u = ctxt.group s u
  result : ∀ u < ctxt.numUnits, ctxt.numUnits ≤ u + n → HideResult ctxt s t u
  cost : t.i8SsdCost - blockSsd ctxt t = s.i8SsdCost - blockSsd ctxt s
    + ∑ j ∈ range n, lostCost ctxt s (ctxt.numUnits - 1 - j)
  dequantised : Dequantised ctxt s → Dequantised ctxt t
  lastCg : t.lastCg = -1 ∧ (∀ u < ctxt.numUnits, ctxt.numUnits ≤ u + n → ctxt.coded u = false) ∨
    t.lastCg = 0 ∧ ∃ u < ctxt.numUnits, ctxt.numUnits ≤ u + n ∧ ctxt.coded u = true

theorem lastCoded_iff : ctxt.lastCoded u = true ↔
    ∀ v < ctxt.numUnits, u < v → ctxt.coded v = false := by
  unfold RdoqSbhCtxt.lastCoded
  rw [List.all_eq_true]
  refine forall_congr' fun v => ?_
  rw [List.mem_range, Bool.or_eq_true, decide_eq_true_iff, Bool.not_eq_true', ← not_lt,
    ← imp_iff_not_or]

theorem HideRun.step (h : ctxt.Ok) (hrun : HideRun ctxt s n t) (hn : n < ctxt.numUnits)
    (hk : ∀ u < ctxt.numUnits, (ctxt.group s u).Ok) :
    HideRun ctxt s (n + 1) (hideGroup ctxt t (ctxt.numUnits - 1 - n)) := by
  have hu : ctxt.numUnits - 1 - n < ctxt.numUnits := by omega
  have hg : ctxt.group t (ctxt.numUnits - 1 - n) = ctxt.group s (ctxt.numUnits - 1 - n) :=
    hrun.todo _ (by omega)
  have hround := hideGroup_round (s := t) h hu (by rw [hg]; exact hk _ hu) fun hc => by
    rcases hrun.lastCg with ⟨hcg, hall⟩ | ⟨hcg, v, hv, hvn, hvc⟩
    · refine Or.inl ⟨hcg, lastCoded_iff.mpr fun v hv huv => hall v hv (by omega)⟩
    · refine Or.inr ⟨hcg, Bool.eq_false_iff.mpr fun hl => ?_⟩
      have hoff := lastCoded_iff.mp hl v hv (by omega)
      rw [hvc] at hoff
      exact absurd hoff (by decide)
  generalize hideGroup ctxt t (ctxt.numUnits - 1 - n) = t' at hround
  constructor
  · intro u hun
    rw [hround.others u (by omega) (by omega)]
    exact hrun.todo u (by omega)
  · intro u hu' hun
    by_cases hlast : u = ctxt.numUnits - 1 - n
    · rw [hlast]
      exact hround.result.congr hg rfl
    · exact (hrun.result u hu' (by omega)).congr rfl (hround.others u hu' hlast).symm
  · rw [hround.cost, hrun.cost, Finset.sum_range_succ, lostCost_congr hg, Int.add_assoc]
  · exact fun hd => hround.dequantised (hrun.dequantised hd)
  · rw [hround.lastCg]
    cases hc : ctxt.coded (ctxt.numUnits - 1 - n) with
    | true => exact Or.inr ⟨rfl, _, hu, by omega, hc⟩
    | false =>
      rcases hrun.lastCg with ⟨hcg, hall⟩ | ⟨hcg, v, hv, hvn, hvc⟩
      · refine Or.inl ⟨hcg, fun u hu' hun => ?_⟩
        by_cases hlast : u = ctxt.numUnits - 1 - n
        · rwa [hlast]
        · exact hall u hu' (by omega)
      · exact Or.inr ⟨hcg, v, hv, by omega, hvc⟩

theorem ihevceSignDataHiding_run (h : ctxt.Ok)
    (hk : ∀ u < ctxt.numUnits, (ctxt.group s u).Ok) :
    HideRun ctxt s ctxt.numUnits (ihevceSignDataHiding ctxt s) := by
  have hrun : ∀ n ≤ ctxt.numUnits, HideRun ctxt s n
      ((List.range n).foldl (fun s j => hideGroup ctxt s (ctxt.numUnits - 1 - j))
        { s with lastCg := -1, bestPos := -1 }) := by
    intro n hn
    induction n with
    | zero =>
      refine ⟨fun _ _ => rfl, fun u hu hun => by omega, ?_, id, Or.inl ⟨rfl, fun u hu hun => ?_⟩⟩
      · exact (Int.add_zero _).symm
      · omega
    | succ n ih =>
      rw [List.range_succ, List.foldl_append]
      exact (ih (by omega)).step h (by omega) hk
  exact hrun ctxt.numUnits (Nat.le_refl _)

end Libhevc.Encoder
