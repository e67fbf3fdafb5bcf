import Libhevc.RoundTrip.ResidualBlock
import Libhevc.RoundTrip.ResidualLevels

/-!
# Writing a block

The scan of the coefficients makes the words of the sub-blocks, and the writer makes
the bins of the block out of them.
-/

namespace Libhevc.RoundTrip

open Reader Encoder Decoder

-- ---------------------------------------------------------------------------
-- The words of a sub-block
-- ---------------------------------------------------------------------------

/-- The positions below `n` where `f` holds, as a map. -/
def mapOf (f : Nat → Bool) : (n : Nat) → Nat
  | 0 => 0
  | n + 1 => mapOf f n ||| (f n).toNat <<< n

theorem testBit_toNat_shiftLeft (b : Bool) (n j : Nat) :
    (b.toNat <<< n).testBit j = (decide (j = n) && b) := by
  cases b with
  | false => simp
  | true =>
    rw [Bool.toNat_true, Nat.one_shiftLeft, Nat.testBit_two_pow, Bool.and_true]
    exact decide_eq_decide.mpr eq_comm

theorem testBit_mapOf (f : Nat → Bool) (n j : Nat) :
    (mapOf f n).testBit j = (decide (j < n) && f j) := by
  induction n with
  | zero =>
    rw [mapOf, Nat.zero_testBit, decide_eq_false (Nat.not_lt_zero j), Bool.false_and]
  | succ n ih =>
    rw [mapOf, Nat.testBit_or, ih, testBit_toNat_shiftLeft]
    rcases Nat.lt_trichotomy j n with hlt | rfl | hgt
    · simp [hlt, Nat.lt_succ_of_lt hlt, Nat.ne_of_lt hlt]
    · simp
    · simp [Nat.not_lt_of_gt hgt, Nat.ne_of_gt hgt, show ¬ j < n + 1 by omega]

theorem mapOf_lt (f : Nat → Bool) (n : Nat) : mapOf f n < 2 ^ n := by
  refine Nat.lt_pow_two_of_testBit _ fun j hj => ?_
  rw [testBit_mapOf, decide_eq_false (Nat.not_lt.mpr hj), Bool.false_and]

theorem mapOf_ne_zero {f : Nat → Bool} : mapOf f n ≠ 0 ↔ ∃ j < n, f j = true := by
  constructor
  · intro hne
    obtain ⟨j, hj⟩ := Nat.exists_testBit_of_ne_zero hne
    rw [testBit_mapOf, Bool.and_eq_true, decide_eq_true_eq] at hj
    exact ⟨j, hj.1, hj.2⟩
  · rintro ⟨j, hj, hf⟩ hzero
    have hbit := testBit_mapOf f n j
    rw [hzero, Nat.zero_testBit, decide_eq_true hj, hf] at hbit
    exact nomatch hbit

theorem sigBelow_mapOf_succ (f : Nat → Bool) (hn : n < k) :
    sigBelow (mapOf f k) (n + 1) =
      if f n then n :: sigBelow (mapOf f k) n else sigBelow (mapOf f k) n := by
  rw [sigBelow, testBit_mapOf, decide_eq_true hn, Bool.true_and]

section
variable (s : ScanArgs) (u : Nat)

/-- The coefficient at a position is not zero. -/
def sigAt (n : Nat) : Bool := decide (s.quantCoeff u n ≠ 0)

/-- What the loop over the positions below `n` adds. -/
structure FlagsFrom (n : Nat) (f r : CsbFlags) : Prop where
  sig : ∀ j, r.sigCoeffAbsGt0Flags.testBit j =
    if j < n then sigAt s u j else f.sigCoeffAbsGt0Flags.testBit j
  gt1 : (sigBelow (mapOf (sigAt s u) 16) n).map r.sigCoeffAbsGt1Flags.testBit =
    gt1Flags f.numGt0Flag ((sigBelow (mapOf (sigAt s u) 16) n).map (s.quantCoeff u))
  gt1Above : ∀ j, n ≤ j → r.sigCoeffAbsGt1Flags.testBit j = f.sigCoeffAbsGt1Flags.testBit j
  sign : ∀ j, r.signFlags.testBit j =
    if j < n then negative (s.quantCoeff u j) else f.signFlags.testBit j
  rem : r.absCoeffRemaining = f.absCoeffRemaining ++
    remWords f.numGt0Flag ((sigBelow (mapOf (sigAt s u) 16) n).map (s.quantCoeff u))

end

section
variable {s : ScanArgs} {u : Nat}

theorem or_one_shiftLeft (w n : Nat) (b : Bool) :
    (if b then w ||| 1 <<< n else w) = w ||| b.toNat <<< n := by
  cases b with
  | false => rw [if_neg Bool.false_ne_true, Bool.toNat_false, Nat.zero_shiftLeft, Nat.or_zero]
  | true => rw [if_pos rfl, Bool.toNat_true]

theorem testBit_or_shiftLeft (w n j : Nat) (b : Bool) (hj : j ≠ n) :
    (w ||| b.toNat <<< n).testBit j = w.testBit j := by
  rw [Nat.testBit_or, testBit_toNat_shiftLeft, decide_eq_false hj, Bool.false_and, Bool.or_false]

theorem testBit_or_shiftLeft_self (w n : Nat) (b : Bool) (hw : w.testBit n = false) :
    (w ||| b.toNat <<< n).testBit n = b := by
  rw [Nat.testBit_or, testBit_toNat_shiftLeft, hw, decide_eq_true rfl, Bool.true_and, Bool.false_or]

/-- One coefficient that is not zero. -/
theorem flagsStep_sig (h : sigAt s u n) (f : CsbFlags) :
    ScanArgs.flagsStep (s.quantCoeff u n) n f =
      { numGt0Flag := f.numGt0Flag + 1
        sigCoeffAbsGt0Flags := f.sigCoeffAbsGt0Flags ||| 1 <<< n
        sigCoeffAbsGt1Flags := f.sigCoeffAbsGt1Flags |||
          (aboveOne (s.quantCoeff u n) || decide (8 ≤ f.numGt0Flag)).toNat <<< n
        signFlags := f.signFlags ||| (negative (s.quantCoeff u n)).toNat <<< n
        absCoeffRemaining := f.absCoeffRemaining ++
          if aboveOne (s.quantCoeff u n) || decide (8 ≤ f.numGt0Flag)
            then [(s.quantCoeff u n).natAbs - 1] else [] } := by
  have hne : s.quantCoeff u n ≠ 0 := of_decide_eq_true h
  have hgt1 : decide (1 < (s.quantCoeff u n).natAbs ∨ maxGtOne ≤ f.numGt0Flag) =
      (aboveOne (s.quantCoeff u n) || decide (8 ≤ f.numGt0Flag)) := Bool.decide_or _ _
  have hneg : (if s.quantCoeff u n < 0 then f.signFlags ||| 1 <<< n else f.signFlags) =
      f.signFlags ||| (negative (s.quantCoeff u n)).toNat <<< n := by
    rw [← or_one_shiftLeft]
    unfold negative
    simp only [decide_eq_true_eq]
  unfold ScanArgs.flagsStep
  rw [if_pos hne]
  dsimp only
  rw [hgt1, hneg, or_one_shiftLeft]
  congr 1
  split
  · rfl
  · exact (List.append_nil _).symm

theorem flagsStep_zero (h : sigAt s u n = false) (f : CsbFlags) :
    ScanArgs.flagsStep (s.quantCoeff u n) n f = f :=
  if_neg (of_decide_eq_false h)

theorem flagsLoop_from (n : Nat) (hn : n ≤ 16) (f : CsbFlags)
    (hsig : ∀ j < n, f.sigCoeffAbsGt0Flags.testBit j = false)
    (hgt1 : ∀ j < n, f.sigCoeffAbsGt1Flags.testBit j = false)
    (hsign : ∀ j < n, f.signFlags.testBit j = false) :
    FlagsFrom s u n f (s.flagsLoop u n f) := by
  induction n generalizing f with
  | zero =>
    refine ⟨fun j => ?_, rfl, fun _ _ => rfl, fun j => ?_, (List.append_nil _).symm⟩
    · rw [if_neg (Nat.not_lt_zero j)]
      rfl
    · rw [if_neg (Nat.not_lt_zero j)]
      rfl
  | succ n ih =>
    rw [ScanArgs.flagsLoop]
    cases hbit : sigAt s u n with
    | false =>
      have hrest := ih (Nat.le_of_succ_le hn) f (fun j hj => hsig j (Nat.lt_succ_of_lt hj))
        (fun j hj => hgt1 j (Nat.lt_succ_of_lt hj)) (fun j hj => hsign j (Nat.lt_succ_of_lt hj))
      have hzero : s.quantCoeff u n = 0 := by
        have := of_decide_eq_false hbit
        exact Decidable.not_not.mp this
      have hbelow : sigBelow (mapOf (sigAt s u) 16) (n + 1) = sigBelow (mapOf (sigAt s u) 16) n := by
        rw [sigBelow_mapOf_succ _ hn, hbit]
        rfl
      rw [flagsStep_zero hbit]
      refine ⟨fun j => ?_, ?_, fun j hj => hrest.gt1Above j (Nat.le_of_succ_le hj), fun j => ?_, ?_⟩
      · rw [hrest.sig]
        rcases Nat.lt_trichotomy j n with hlt | rfl | hgt
        · rw [if_pos hlt, if_pos (Nat.lt_succ_of_lt hlt)]
        · rw [if_neg (Nat.lt_irrefl j), if_pos (Nat.lt_succ_self j), hbit,
            hsig j (Nat.lt_succ_self j)]
        · rw [if_neg (Nat.not_lt_of_gt hgt), if_neg (Nat.not_lt.mpr hgt)]
      · rw [hbelow]
        exact hrest.gt1
      · rw [hrest.sign]
        rcases Nat.lt_trichotomy j n with hlt | rfl | hgt
        · rw [if_pos hlt, if_pos (Nat.lt_succ_of_lt hlt)]
        · rw [if_neg (Nat.lt_irrefl j), if_pos (Nat.lt_succ_self j), hzero,
            hsign j (Nat.lt_succ_self j)]
          rfl
        · rw [if_neg (Nat.not_lt_of_gt hgt), if_neg (Nat.not_lt.mpr hgt)]
      · rw [hbelow]
        exact hrest.rem
    | true =>
      rw [flagsStep_sig hbit]
      have hrest := ih (Nat.le_of_succ_le hn)
        { numGt0Flag := f.numGt0Flag + 1
          sigCoeffAbsGt0Flags := f.sigCoeffAbsGt0Flags ||| 1 <<< n
          sigCoeffAbsGt1Flags := f.sigCoeffAbsGt1Flags |||
            (aboveOne (s.quantCoeff u n) || decide (8 ≤ f.numGt0Flag)).toNat <<< n
          signFlags := f.signFlags ||| (negative (s.quantCoeff u n)).toNat <<< n
          absCoeffRemaining := f.absCoeffRemaining ++
            if aboveOne (s.quantCoeff u n) || decide (8 ≤ f.numGt0Flag)
              then [(s.quantCoeff u n).natAbs - 1] else [] }
        (fun j hj => (testBit_or_shiftLeft _ n j true (Nat.ne_of_lt hj)).trans
          (hsig j (Nat.lt_succ_of_lt hj)))
        (fun j hj => (testBit_or_shiftLeft _ n j _ (Nat.ne_of_lt hj)).trans
          (hgt1 j (Nat.lt_succ_of_lt hj)))
        (fun j hj => (testBit_or_shiftLeft _ n j _ (Nat.ne_of_lt hj)).trans
          (hsign j (Nat.lt_succ_of_lt hj)))
      have hbelow : sigBelow (mapOf (sigAt s u) 16) (n + 1) =
          n :: sigBelow (mapOf (sigAt s u) 16) n := by
        rw [sigBelow_mapOf_succ _ hn, hbit]
        rfl
      refine ⟨fun j => ?_, ?_, fun j hj => ?_, fun j => ?_, ?_⟩
      · rw [hrest.sig]
        rcases Nat.lt_trichotomy j n with hlt | rfl | hgt
        · rw [if_pos hlt, if_pos (Nat.lt_succ_of_lt hlt)]
        · rw [if_neg (Nat.lt_irrefl j), if_pos (Nat.lt_succ_self j), hbit]
          exact testBit_or_shiftLeft_self _ j true (hsig j (Nat.lt_succ_self j))
        · rw [if_neg (Nat.not_lt_of_gt hgt), if_neg (Nat.not_lt.mpr hgt)]
          exact testBit_or_shiftLeft _ n j true (Nat.ne_of_gt hgt)
      · rw [hbelow, List.map_cons, List.map_cons, gt1Flags, hrest.gt1, hrest.gt1Above n (Nat.le_refl n)]
        congr 1
        exact testBit_or_shiftLeft_self _ n _ (hgt1 n (Nat.lt_succ_self n))
      · rw [hrest.gt1Above j (by omega)]
        exact testBit_or_shiftLeft _ n j _ (by omega)
      · rw [hrest.sign]
        rcases Nat.lt_trichotomy j n with hlt | rfl | hgt
        · rw [if_pos hlt, if_pos (Nat.lt_succ_of_lt hlt)]
        · rw [if_neg (Nat.lt_irrefl j), if_pos (Nat.lt_succ_self j)]
          exact testBit_or_shiftLeft_self _ j _ (hsign j (Nat.lt_succ_self j))
        · rw [if_neg (Nat.not_lt_of_gt hgt), if_neg (Nat.not_lt.mpr hgt)]
          exact testBit_or_shiftLeft _ n j _ (Nat.ne_of_gt hgt)
      · rw [hbelow, List.map_cons, remWords, hrest.rem, List.append_assoc]

/-- The last coded sub-block begins with its last coefficient. -/
theorem firstNonZero_flags (n : Nat) (f : CsbFlags) (h : s.firstNonZero u n = some i) :
    s.flagsLoop u i (ScanArgs.flagsStep (s.quantCoeff u i) i f) = s.flagsLoop u n f := by
  induction n with
  | zero => exact nomatch h
  | succ n ih =>
    unfold ScanArgs.firstNonZero at h
    split at h
    · obtain rfl := Option.some.inj h
      rfl
    · rename_i hzero
      rw [ih h, ScanArgs.flagsLoop, flagsStep_zero (decide_eq_false hzero)]

theorem firstNonZero_log2 (n : Nat) (hn : n ≤ 16) (h : s.firstNonZero u n = some i)
    (habove : ∀ j < 16, n ≤ j → sigAt s u j = false) : i = Nat.log2 (mapOf (sigAt s u) 16) := by
  induction n with
  | zero => exact nomatch h
  | succ n ih =>
    unfold ScanArgs.firstNonZero at h
    split at h
    · rename_i hne
      obtain rfl := Option.some.inj h
      have hbit : (mapOf (sigAt s u) 16).testBit n = true := by
        rw [testBit_mapOf, decide_eq_true (show n < 16 from hn), Bool.true_and]
        exact decide_eq_true hne
      have hlt : mapOf (sigAt s u) 16 < 2 ^ (n + 1) := by
        refine Nat.lt_pow_two_of_testBit _ fun j hj => ?_
        rw [testBit_mapOf]
        rcases Nat.lt_or_ge j 16 with hlt | hge
        · rw [habove j hlt hj, Bool.and_false]
        · rw [decide_eq_false (Nat.not_lt.mpr hge), Bool.false_and]
      have hne0 : mapOf (sigAt s u) 16 ≠ 0 := fun hzero => by
        rw [hzero, Nat.zero_testBit] at hbit
        exact nomatch hbit
      exact ((Nat.log2_eq_iff hne0).mpr ⟨Nat.ge_two_pow_of_testBit hbit, hlt⟩).symm
    · rename_i hzero
      refine ih (Nat.le_of_succ_le hn) h fun j hj hnj => ?_
      rcases Nat.eq_or_lt_of_le hnj with rfl | hlt
      · exact decide_eq_false hzero
      · exact habove j hj hlt

end

-- ---------------------------------------------------------------------------
-- The loop over the positions
-- ---------------------------------------------------------------------------

/-- The context of a position on the writing side. -/
def encSigCtxtIdx (e : ResidueArgs) (scanType i nbrCsbf base n : Nat) : Nat :=
  (e.sigCtxt scanType i nbrCsbf n base).1 + (e.sigCtxt scanType i nbrCsbf n base).2

theorem encSigCtxt_base (e : ResidueArgs) (scanType i nbrCsbf base n : Nat) (hn : 0 < n ∨ i ≠ 0) :
    (e.sigCtxt scanType i nbrCsbf n base).2 = base := by
  unfold ResidueArgs.sigCtxt
  dsimp only
  split
  · rfl
  · rw [if_pos (by omega)]

/-- What the loop over the positions below `n` has gathered. -/
structure SigLoop (map gt1 signs i : Nat) (n : Nat) (st r : ResidueArgs.SigSt) : Prop where
  gt1Bins : r.gt1Bins = shiftIn st.gt1Bins ((sigBelow map n).map gt1.testBit)
  signBins : r.signBins = shiftIn st.signBins ((sigBelow map n).map signs.testBit)
  num : r.numCoded = st.numCoded + (sigBelow map n).length
  first : r.firstScanPos = ((sigBelow map n).map Int.ofNat).getLastD st.firstScanPos
  last : r.lastScanPos = if st.lastScanPos = -1 then ((sigBelow map n).map Int.ofNat).headD (-1)
    else st.lastScanPos
  base : i ≠ 0 → r.sigCoeffBaseCtxt = st.sigCoeffBaseCtxt

section
variable (e : ResidueArgs) (scanType i nbrCsbf base map gt1 signs : Nat)

theorem sigCoeffLoop_eq : ∀ n (st : ResidueArgs.SigSt), (0 < n → st.sigCoeffBaseCtxt = base) →
    (e.sigCoeffLoop scanType i nbrCsbf map gt1 signs n st).1 =
        (sigBins (encSigCtxtIdx e scanType i nbrCsbf base) map n st.inferCoeff : List (Bin ρ)) ∧
      SigLoop map gt1 signs i n st
        (e.sigCoeffLoop scanType i nbrCsbf map gt1 signs n st : List (Bin ρ) × _).2 := by
  intro n
  induction n with
  | zero =>
    intro st _
    refine ⟨rfl, rfl, rfl, rfl, rfl, ?_, fun _ => rfl⟩
    split
    · assumption
    · rfl
  | succ n ih =>
    intro st hbase
    have hst := hbase (Nat.succ_pos n)
    have hbins : (if n ≠ 0 ∨ ¬ st.inferCoeff = true then
          [.ctxt ((e.sigCtxt scanType i nbrCsbf n st.sigCoeffBaseCtxt).1 +
            (e.sigCtxt scanType i nbrCsbf n st.sigCoeffBaseCtxt).2) (map.testBit n)]
        else [] : List (Bin ρ)) =
        if 0 < n ∨ ¬ st.inferCoeff = true then
          [.ctxt (encSigCtxtIdx e scanType i nbrCsbf base n) (map.testBit n)]
        else [] := by
      rw [hst]
      simp only [Nat.pos_iff_ne_zero]
      rfl
    have hkeep : ∀ st' : ResidueArgs.SigSt,
        st'.sigCoeffBaseCtxt = (e.sigCtxt scanType i nbrCsbf n st.sigCoeffBaseCtxt).2 →
          (0 < n → st'.sigCoeffBaseCtxt = base) ∧
            (i ≠ 0 → st'.sigCoeffBaseCtxt = st.sigCoeffBaseCtxt) := by
      intro st' heq
      rw [heq, hst]
      exact ⟨fun hn => encSigCtxt_base e _ _ _ _ _ (Or.inl hn),
        fun hi => encSigCtxt_base e _ _ _ _ _ (Or.inr hi)⟩
    unfold ResidueArgs.sigCoeffLoop
    dsimp only
    rw [hbins]
    cases hbit : map.testBit n with
    | false =>
      rw [if_neg Bool.false_ne_true, sigBins, hbit, Bool.not_false, Bool.and_true]
      obtain ⟨hstep, hi⟩ := hkeep
        { st with sigCoeffBaseCtxt := (e.sigCtxt scanType i nbrCsbf n st.sigCoeffBaseCtxt).2 } rfl
      obtain ⟨hrest, hr⟩ := ih
        { st with sigCoeffBaseCtxt := (e.sigCtxt scanType i nbrCsbf n st.sigCoeffBaseCtxt).2 } hstep
      have hbelow : sigBelow map (n + 1) = sigBelow map n := by
        rw [sigBelow, hbit]
        rfl
      refine ⟨congrArg _ hrest, ?_⟩
      refine ⟨?_, ?_, ?_, ?_, ?_, fun h0 => (hr.base h0).trans (hi h0)⟩
      · rw [hbelow]
        exact hr.gt1Bins
      · rw [hbelow]
        exact hr.signBins
      · rw [hbelow]
        exact hr.num
      · rw [hbelow]
        exact hr.first
      · rw [hbelow]
        exact hr.last
    | true =>
      rw [if_pos rfl, sigBins, hbit, Bool.not_true, Bool.and_false]
      obtain ⟨hstep, hi⟩ := hkeep
        { gt1Bins := st.gt1Bins <<< 1 ||| (gt1.testBit n).toNat
          signBins := st.signBins <<< 1 ||| (signs.testBit n).toNat
          numCoded := st.numCoded + 1
          inferCoeff := false
          firstScanPos := n
          lastScanPos := if st.lastScanPos = -1 then n else st.lastScanPos
          sigCoeffBaseCtxt := (e.sigCtxt scanType i nbrCsbf n st.sigCoeffBaseCtxt).2 } rfl
      obtain ⟨hrest, hr⟩ := ih
        { gt1Bins := st.gt1Bins <<< 1 ||| (gt1.testBit n).toNat
          signBins := st.signBins <<< 1 ||| (signs.testBit n).toNat
          numCoded := st.numCoded + 1
          inferCoeff := false
          firstScanPos := n
          lastScanPos := if st.lastScanPos = -1 then n else st.lastScanPos
          sigCoeffBaseCtxt := (e.sigCtxt scanType i nbrCsbf n st.sigCoeffBaseCtxt).2 } hstep
      have hbelow : sigBelow map (n + 1) = n :: sigBelow map n := by
        rw [sigBelow, hbit]
        rfl
      refine ⟨congrArg _ hrest, ?_⟩
      refine ⟨?_, ?_, ?_, ?_, ?_, fun h0 => (hr.base h0).trans (hi h0)⟩
      · rw [hbelow]
        exact hr.gt1Bins
      · rw [hbelow]
        exact hr.signBins
      · rw [hbelow, hr.num, List.length_cons]
        dsimp only
        omega
      · rw [hbelow, hr.first, List.map_cons, List.getLastD_cons]
        rfl
      · rw [hbelow, hr.last, List.map_cons, List.headD_cons]
        dsimp only
        by_cases hnone : st.lastScanPos = -1
        · rw [if_pos hnone, if_neg (by omega), if_pos hnone]
          rfl
        · rw [if_neg hnone, if_neg hnone, if_neg hnone]

end

theorem getLastD_positions (n : Nat) (l : List Nat) (d : Int) (d' : Nat) :
    ((n :: l).map Int.ofNat).getLastD d = ((n :: l).getLastD d' : Nat) := by
  rw [List.map_cons, List.getLastD_cons, List.getLastD_cons]
  induction l generalizing n with
  | nil => rfl
  | cons m l ih =>
    rw [List.map_cons, List.getLastD_cons, List.getLastD_cons]
    exact ih m

/-- The positions of the first and the last coefficient say the same of the hidden sign, whether
there is another one or not. -/
theorem hidden_behind (n : Nat) (l : List Nat) (hn : n < 16) :
    decide (3 < (n : Int) - (l.map Int.ofNat).getLastD 16) =
      decide (3 < (((n :: l).headD 0 : Nat) : Int) - ((n :: l).getLastD 0 : Nat)) := by
  refine decide_eq_decide.mpr ?_
  cases l with
  | nil =>
    rw [List.map_nil, List.getLastD_nil, List.headD_cons, List.getLastD_cons, List.getLastD_nil]
    omega
  | cons m l => rw [getLastD_positions m l 16 0, List.headD_cons, List.getLastD_cons,
      List.getLastD_cons, List.getLastD_cons]

theorem hidden_positions (l : List Nat) :
    decide (3 < (l.map Int.ofNat).headD (-1) - (l.map Int.ofNat).getLastD 16) =
      decide (3 < ((l.headD 0 : Nat) : Int) - (l.getLastD 0 : Nat)) := by
  refine decide_eq_decide.mpr ?_
  cases l with
  | nil => exact ⟨fun h => absurd h (by decide), fun h => absurd h (by decide)⟩
  | cons n l =>
    rw [getLastD_positions n l 16 0]
    rfl

/-- The positions of a map with the top one in front. -/
theorem sigPositions_top (hpos : 0 < m) (hlt : m < 2 ^ 16) :
    sigPositions m = Nat.log2 m :: sigBelow m (Nat.log2 m) := by
  have hmod : m % 2 ^ 16 = m := Nat.mod_eq_of_lt hlt
  obtain ⟨hbit, -, -, hbelow⟩ := sigBelow_top (m := m) (n := 16) (by omega)
  rw [hmod] at hbit hbelow
  unfold sigPositions
  rw [hbelow, sigBelow, if_pos hbit]

theorem clz_top (hpos : 0 < m) (hlt : m < 2 ^ 16) : 32 - (clz m + 1) = Nat.log2 m := by
  have hlog : Nat.log2 m < 16 := (Nat.log2_lt (Nat.ne_of_gt hpos)).mpr hlt
  unfold clz
  rw [if_neg (Nat.ne_of_gt hpos)]
  omega

section
variable (e : ResidueArgs) (scanType nbrCsbf base gt1 signs : Nat)

/-- The loop over the positions of a sub-block. -/
theorem sigLoop_of_start (i last : Nat) (hlt : m < 2 ^ 16) (hlast : i = last → 0 < m) :
    let start := ResidueArgs.sigStart i last m gt1 signs base
    let r : List (Bin ρ) × _ := e.sigCoeffLoop scanType i nbrCsbf m gt1 signs start.1 start.2
    r.1 = sigBins (encSigCtxtIdx e scanType i nbrCsbf base) m
        (if i = last then Nat.log2 m else 16) (decide (i < last ∧ 0 < i)) ∧
      r.2.gt1Bins = shiftIn 0 ((sigPositions m).map gt1.testBit) ∧
      r.2.signBins = shiftIn 0 ((sigPositions m).map signs.testBit) ∧
      r.2.numCoded = (sigPositions m).length ∧
      decide (3 < r.2.lastScanPos - r.2.firstScanPos) =
        decide (3 < (((sigPositions m).headD 0 : Nat) : Int) - ((sigPositions m).getLastD 0 : Nat)) ∧
      (i ≠ 0 → r.2.sigCoeffBaseCtxt = base) := by
  dsimp only
  by_cases hi : i = last
  · have hpos := hlast hi
    have hstart : ResidueArgs.sigStart i last m gt1 signs base =
        (Nat.log2 m, ⟨(gt1.testBit (Nat.log2 m)).toNat, (signs.testBit (Nat.log2 m)).toNat, 1,
          decide (i < last ∧ 0 < i), 16, Nat.log2 m, base⟩) := by
      unfold ResidueArgs.sigStart
      rw [if_pos hi, clz_top hpos hlt]
    obtain ⟨hbins, hr⟩ := sigCoeffLoop_eq (ρ := ρ) e scanType i nbrCsbf base m gt1 signs (Nat.log2 m)
      ⟨(gt1.testBit (Nat.log2 m)).toNat, (signs.testBit (Nat.log2 m)).toNat, 1,
        decide (i < last ∧ 0 < i), 16, Nat.log2 m, base⟩ fun _ => rfl
    have hlog : Nat.log2 m < 16 := (Nat.log2_lt (Nat.ne_of_gt hpos)).mpr hlt
    rw [hstart, if_pos hi, sigPositions_top hpos hlt]
    refine ⟨hbins, ?_, ?_, ?_, ?_, hr.base⟩
    · rw [hr.gt1Bins, List.map_cons]
      exact congrArg (shiftIn · _) (Nat.zero_or _).symm
    · rw [hr.signBins, List.map_cons]
      exact congrArg (shiftIn · _) (Nat.zero_or _).symm
    · rw [hr.num, List.length_cons, Nat.add_comm]
    · rw [hr.last, hr.first, if_neg (show ¬ ((Nat.log2 m : Nat) : Int) = -1 by omega)]
      exact hidden_behind _ _ hlog
  · have hstart : ResidueArgs.sigStart i last m gt1 signs base =
        (16, ⟨0, 0, 0, decide (i < last ∧ 0 < i), 16, -1, base⟩) := by
      unfold ResidueArgs.sigStart
      rw [if_neg hi]
    obtain ⟨hbins, hr⟩ := sigCoeffLoop_eq (ρ := ρ) e scanType i nbrCsbf base m gt1 signs 16
      ⟨0, 0, 0, decide (i < last ∧ 0 < i), 16, -1, base⟩ fun _ => rfl
    have hall : sigBelow m 16 = sigPositions m := rfl
    rw [hstart, if_neg hi]
    dsimp only
    generalize (e.sigCoeffLoop scanType i nbrCsbf m gt1 signs 16 _ : List (Bin ρ) × _) = r at hbins hr ⊢
    refine ⟨hbins, ?_, ?_, ?_, ?_, hr.base⟩
    · rw [hr.gt1Bins, hall]
    · rw [hr.signBins, hall]
    · have hnum := hr.num
      rw [hall] at hnum
      exact hnum.trans (Nat.zero_add _)
    · rw [hr.last, hr.first, if_pos rfl, hall]
      exact hidden_positions _

end

-- ---------------------------------------------------------------------------
-- The contexts
-- ---------------------------------------------------------------------------

theorem sigcoeffCtxtinc_same : ∀ s < 3, ∀ nbrCsbf < 4, ∀ n < 16,
    gu1HevceSigcoeffCtxtinc nbrCsbf (gu1HevceScan4x4 s n) =
      gau1IhevcdSigcoeffCtxtinc s nbrCsbf n := by decide

/-- The last position of a 4x4 block has no flag. -/
theorem sigcoeffCtxtincTr4_same : ∀ s < 3, ∀ n < 15,
    gu1HevceSigcoeffCtxtincTr4 (gu1HevceScan4x4 s n) = gau1IhevcdSigcoeffCtxtincTr4 s n := by decide

theorem sigBins_congr (ctxt ctxt' : Nat → Nat) (m : Nat) : ∀ n infer, (∀ j < n, ctxt j = ctxt' j) →
    (sigBins ctxt m n infer : List (Bin ρ)) = sigBins ctxt' m n infer := by
  intro n
  induction n with
  | zero => exact fun _ _ => rfl
  | succ n ih =>
    intro infer h
    rw [sigBins, sigBins, h n (Nat.lt_succ_self n), ih _ fun j hj => h j (Nat.lt_succ_of_lt hj)]

section
variable {a : ResidualArgs} {e : ResidueArgs}

theorem sigCtxt_same (h : PlainArgs a) (hs : SameResidual a e) (i base : Nat) (hnbr : nbr < 4)
    (hn : n < 16) (hn4 : a.log2TrafoSize = 2 → n < 15) :
    encSigCtxtIdx e a.scanIdx i nbr base n = sigCtxtIdx a i nbr base n := by
  have hbypass : ¬(a.i1TransformSkipContextEnabledFlag = true ∧
      (a.i4CuTransquantBypass = true ∨ false = true)) := by
    rw [h.noBypass]
    exact fun hb => hb.2.elim Bool.false_ne_true Bool.false_ne_true
  unfold encSigCtxtIdx sigCtxtIdx ResidueArgs.sigCtxt ResidualArgs.sigCtxt
  dsimp only
  rw [if_neg hbypass, hs.size, hs.luma, sigcoeffCtxtinc_same _ (scanIdx_lt a) _ hnbr _ hn]
  simp only [decide_eq_true_eq]
  split
  · rename_i h4
    rw [sigcoeffCtxtincTr4_same _ (scanIdx_lt a) _ (hn4 h4)]
  · rfl

theorem sigCoeffBaseCtxt_same (hs : SameResidual a e) :
    e.sigCoeffBaseCtxt a.scanIdx = a.sigCoeffBaseCtxt := by
  unfold ResidueArgs.sigCoeffBaseCtxt ResidualArgs.sigCoeffBaseCtxt
  rw [hs.size, hs.luma]
  simp only [decide_eq_true_eq]

theorem absGt1BaseCtxt_same (hs : SameResidual a e) : e.absGt1BaseCtxt = a.absGt1BaseCtxt := by
  unfold ResidueArgs.absGt1BaseCtxt ResidualArgs.absGt1BaseCtxt
  rw [hs.luma]
  simp only [decide_eq_true_eq]

end

-- ---------------------------------------------------------------------------
-- The sub-blocks
-- ---------------------------------------------------------------------------

/-- What the buffer holds of a sub-block: the marker with the flags, and the words behind it. -/
structure SblkWords (a : ResidualArgs) (b : Blk) (i : Nat) (marker gt1 signs : Nat) : Prop where
  cur : marker &&& 0x1 ≠ 0 ↔ ¬(b.map i = 0 ∧ csbfCoded b i = true)
  nbr : marker >>> 1 &&& 0x3 = nbrCsbf a b i
  gt1 : (sigPositions (b.map i)).map gt1.testBit = gt1Flags 0 (b.levels i)
  signs : (sigPositions (b.map i)).map signs.testBit = (b.levels i).map negative

section
variable {a : ResidualArgs} {e : ResidueArgs} {b : Blk}

theorem nbrCsbf_lt (a : ResidualArgs) (b : Blk) (i : Nat) : nbrCsbf a b i < 4 := by
  unfold nbrCsbf
  cases b.csbf (sblkRow a i + 1) (sblkCol a i) <;>
    cases b.csbf (sblkRow a i) (sblkCol a i + 1) <;> decide

theorem encodeCsb_eq (h : b.Ok a) (hs : SameResidual a e) (hi : i ≤ b.last)
    (hlevels : (b.levels i).length = (sigPositions (b.map i)).length)
    {marker gt1 signs : Nat} (hw : SblkWords a b i marker gt1 signs) (rest : List Nat)
    (gt1Ctxt : Nat) :
    ∃ st', (e.encodeCsb a.scanIdx i b.last
          { buf := marker :: ((if marker &&& 0x1 ≠ 0 then
              [b.map i, gt1, signs] ++ remWords 0 (b.levels i) else []) ++ rest)
            gt1Ctxt := gt1Ctxt
            sigCoeffBaseCtxt := a.sigCoeffBaseCtxt } : List (Bin ρ) × _) =
        (sblkBins a b i gt1Ctxt, st') ∧
      (0 < i → st' = ⟨rest, gt1Next b i gt1Ctxt, a.sigCoeffBaseCtxt⟩) := by
  have hcsbf : (if i < b.last ∧ 0 < i then
        [.ctxt (ihevcCabCodedSublkIdx + (if nbrCsbf a b i ≠ 0 then 1 else 0) +
          (if e.isLuma then 0 else 2)) (decide (marker &&& 0x1 ≠ 0))]
      else [] : List (Bin ρ)) = csbfBins a b i := by
    unfold csbfBins csbfCoded
    rw [hs.luma]
    by_cases hcoded : i < b.last ∧ 0 < i
    · have hcur : decide (marker &&& 0x1 ≠ 0) = decide (b.map i ≠ 0) :=
        decide_eq_decide.mpr (hw.cur.trans
          ⟨fun hn hzero => hn ⟨hzero, decide_eq_true hcoded⟩, fun hn hz => hn hz.1⟩)
      have hluma : (if decide (a.cIdx = 0) = true then 0 else 2) = if a.cIdx ≠ 0 then 2 else 0 := by
        by_cases hc : a.cIdx = 0
        · rw [if_pos (decide_eq_true hc), if_neg (fun hne => hne hc)]
        · rw [if_neg (by simpa using hc), if_pos hc]
      rw [if_pos hcoded, if_pos (decide_eq_true hcoded), hcur, hluma]
    · rw [if_neg hcoded, if_neg (by simpa using hcoded)]
  unfold ResidueArgs.encodeCsb sblkBins
  dsimp only
  rw [List.getD_cons_zero, List.drop_one, List.tail_cons, hw.nbr, hcsbf]
  by_cases hcur : marker &&& 0x1 ≠ 0
  · have hskip := hw.cur.mp hcur
    have hlast : i = b.last → 0 < b.map i := fun heq =>
      Nat.pos_of_ne_zero (heq ▸ h.lastMap)
    have hne : ∀ e ∈ b.levels i, e ≠ 0 := by
      intro lv hlv
      refine (h.levels i hi fun hzero => ?_).word lv hlv |>.1
      rw [hzero, sigPositions_zero] at hlevels
      rw [List.length_eq_zero_iff.mp hlevels] at hlv
      exact nomatch hlv
    obtain ⟨hbins, hgt1, hsigns, hnum, hhidden, hbase⟩ := sigLoop_of_start (ρ := ρ) e a.scanIdx
      (nbrCsbf a b i) a.sigCoeffBaseCtxt gt1 signs i b.last (h.map_lt hi) hlast
    have hctxt : (sigBins (encSigCtxtIdx e a.scanIdx i (nbrCsbf a b i) a.sigCoeffBaseCtxt) (b.map i)
          (if i = b.last then Nat.log2 (b.map i) else 16) (decide (i < b.last ∧ 0 < i)) :
            List (Bin ρ)) =
        sigBins (sigCtxtIdx a i (nbrCsbf a b i) a.sigCoeffBaseCtxt) (b.map i) (numSigPositions b i)
          (csbfCoded b i) := by
      refine sigBins_congr _ _ _ _ _ fun j hj => ?_
      have hlog : i = b.last → Nat.log2 (b.map i) < 16 := fun heq =>
        (Nat.log2_lt (Nat.ne_of_gt (hlast heq))).mpr (h.map_lt hi)
      refine sigCtxt_same h.plain hs i _ (nbrCsbf_lt a b i) ?_ fun h4 => ?_
      · split at hj
        · exact Nat.lt_trans hj (hlog (by assumption))
        · exact hj
      · -- there is only one sub-block
        have hlt := h.lt
        rw [h4] at hlt
        have heq : i = b.last := by omega
        rw [if_pos heq] at hj
        have := hlog heq
        omega
    rw [hw.gt1] at hgt1
    rw [hw.signs] at hsigns
    rw [← hlevels] at hnum
    have hbuf : (if marker &&& 0x1 ≠ 0 then [b.map i, gt1, signs] ++ remWords 0 (b.levels i) else []) ++
        rest = b.map i :: gt1 :: signs :: (remWords 0 (b.levels i) ++ rest) := by
      rw [if_pos hcur]
      rfl
    have hthree : ∀ w0 w1 w2 : Nat, ∀ ws : List Nat, (w0 :: w1 :: w2 :: ws).getD 0 0 = w0 ∧
        (w0 :: w1 :: w2 :: ws).getD 1 0 = w1 ∧ (w0 :: w1 :: w2 :: ws).getD 2 0 = w2 ∧
        (w0 :: w1 :: w2 :: ws).drop 3 = ws := fun _ _ _ _ => ⟨rfl, rfl, rfl, rfl⟩
    rw [hbuf, if_pos hcur, if_neg hskip, (hthree _ _ _ _).1, (hthree _ _ _ _).2.1,
      (hthree _ _ _ _).2.2.1, (hthree _ _ _ _).2.2.2]
    generalize (e.sigCoeffLoop a.scanIdx i (nbrCsbf a b i) (b.map i) gt1 signs
      (ResidueArgs.sigStart i b.last (b.map i) gt1 signs a.sigCoeffBaseCtxt).1
      (ResidueArgs.sigStart i b.last (b.map i) gt1 signs a.sigCoeffBaseCtxt).2 :
        List (Bin ρ) × _) = r at hbins hgt1 hsigns hnum hhidden hbase ⊢
    have hhid : (e.i1SignDataHidingFlag && decide (3 < r.2.lastScanPos - r.2.firstScanPos)) =
        signIsHidden a.i1SignDataHidingFlag (sigPositions (b.map i)) := by
      rw [hs.signHiding, hhidden]
      rfl
    rw [encodeLevels_eq e hs.noSkip i gt1Ctxt hne hgt1 hsigns hnum hhid rest, hbins, hctxt, hs.luma,
      absGt1BaseCtxt_same hs]
    have hempty : ∀ ctxt1 ctxt2 hidden, (if b.map i = 0 then []
        else levelBins ctxt1 ctxt2 hidden (b.levels i) : List (Bin ρ)) =
          levelBins ctxt1 ctxt2 hidden (b.levels i) := by
      intro ctxt1 ctxt2 hidden
      by_cases hzero : b.map i = 0
      · rw [hzero, sigPositions_zero] at hlevels
        rw [if_pos hzero, List.length_eq_zero_iff.mp hlevels]
        exact (levelBins_nil _ _ _).symm
      · rw [if_neg hzero]
    simp only [decide_eq_true_eq]
    rw [hempty]
    refine ⟨_, rfl, fun hpos => ?_⟩
    have hmap : b.map i ≠ 0 := fun hzero => by
      rcases Nat.eq_or_lt_of_le hi with heq | hlt
      · exact Nat.ne_of_gt (hlast heq) hzero
      · exact hskip ⟨hzero, decide_eq_true ⟨hlt, hpos⟩⟩
    rw [hbase (Nat.ne_of_gt hpos), gt1Next, if_neg hmap]
  · have hskip : b.map i = 0 ∧ csbfCoded b i = true := by
      by_contra hn
      exact hcur (hw.cur.mpr hn)
    rw [if_neg hcur, if_pos hskip, List.append_nil, if_neg hcur, List.nil_append]
    refine ⟨_, rfl, fun _ => ?_⟩
    rw [gt1Next, if_pos hskip.1]

end

end Libhevc.RoundTrip
