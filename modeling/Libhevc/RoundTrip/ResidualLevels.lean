import Libhevc.RoundTrip.ResidualSyntax

/-!
# Writing the levels of a sub-block

The writer has the flags of the levels in three words and the levels that are not in
them in a list behind. What it makes of them is the bins of the levels.
-/

namespace Libhevc.RoundTrip

open Encoder Decoder

-- ---------------------------------------------------------------------------
-- What the buffer holds of the levels
-- ---------------------------------------------------------------------------

/-- The flags in the second word: from the ninth level on they are all set. -/
def gt1Flags : (j : Nat) → List Int → List Bool
  | _, [] => []
  | j, e :: es => (aboveOne e || decide (8 ≤ j)) :: gt1Flags (j + 1) es

/-- The words behind the flags. -/
def remWords : (j : Nat) → List Int → List Nat
  | _, [] => []
  | j, e :: es => (if aboveOne e || decide (8 ≤ j) then [e.natAbs - 1] else []) ++
      remWords (j + 1) es

theorem remWords_coded (h : (aboveOne e || decide (8 ≤ j)) = true) (es : List Int) :
    remWords j (e :: es) = (e.natAbs - 1) :: remWords (j + 1) es := by
  rw [remWords, if_pos h, List.singleton_append]

theorem remWords_plain (h : (aboveOne e || decide (8 ≤ j)) = false) (es : List Int) :
    remWords j (e :: es) = remWords (j + 1) es := by
  rw [remWords, if_neg (Bool.eq_false_iff.mp h), List.nil_append]

theorem remWords_flag (hlt : j < 8) : (aboveOne e || decide (8 ≤ j)) = aboveOne e := by
  rw [decide_eq_false (Nat.not_le.mpr hlt), Bool.or_false]

@[simp] theorem length_gt1Flags (j : Nat) (es : List Int) : (gt1Flags j es).length = es.length := by
  induction es generalizing j with
  | nil => rfl
  | cons e es ih => rw [gt1Flags, List.length_cons, List.length_cons, ih]

theorem gt1Flags_take (es : List Int) (h : j ≤ 8) :
    (gt1Flags j es).take (8 - j) = (es.take (8 - j)).map aboveOne := by
  induction es generalizing j with
  | nil => simp [gt1Flags]
  | cons e es ih =>
    rcases Nat.lt_or_ge j 8 with hlt | hge
    · obtain ⟨k, hk⟩ : ∃ k, 8 - j = k + 1 := ⟨7 - j, by omega⟩
      have hnext := ih hlt
      rw [show 8 - (j + 1) = k by omega] at hnext
      rw [gt1Flags, hk, List.take_succ_cons, List.take_succ_cons, List.map_cons, hnext,
        decide_eq_false (by omega), Bool.or_false]
    · rw [show 8 - j = 0 by omega, List.take_zero, List.take_zero, List.map_nil]

/-- The levels above 1 that have a flag, from the one with number `j` on. -/
def numAbove (j : Nat) (es : List Int) : Nat := (es.take (8 - j)).countP aboveOne

theorem numAbove_cons (hlt : j < 8) (e : Int) (es : List Int) :
    numAbove j (e :: es) = numAbove (j + 1) es + if aboveOne e then 1 else 0 := by
  obtain ⟨k, hk⟩ : ∃ k, 8 - j = k + 1 := ⟨7 - j, by omega⟩
  unfold numAbove
  rw [hk, List.take_succ_cons, List.countP_cons, show 8 - (j + 1) = k by omega]

theorem numAbove_of_ge (hge : 8 ≤ j) (es : List Int) : numAbove j es = 0 := by
  unfold numAbove
  rw [show 8 - j = 0 by omega, List.take_zero, List.countP_nil]

theorem length_remWords (h : j ≤ 8) (es : List Int) :
    (remWords j es).length = numAbove j es + (es.length - (8 - j)) := by
  induction es generalizing j with
  | nil => simp [remWords, numAbove]
  | cons e es ih =>
    rcases Nat.lt_or_ge j 8 with hlt | hge
    · have hnext : (remWords (j + 1) es).length = numAbove (j + 1) es + (es.length - (8 - (j + 1))) :=
        ih hlt
      rw [numAbove_cons hlt, List.length_cons]
      cases habove : aboveOne e with
      | true =>
        rw [remWords_coded ((remWords_flag hlt).trans habove), List.length_cons, if_pos rfl]
        omega
      | false =>
        rw [remWords_plain ((remWords_flag hlt).trans habove), if_neg Bool.false_ne_true]
        omega
    · obtain rfl : j = 8 := by omega
      -- from the ninth level on each one has its word
      have hall : ∀ (es : List Int) (j : Nat), 8 ≤ j → (remWords j es).length = es.length := by
        intro es
        induction es with
        | nil => exact fun _ _ => rfl
        | cons e es ih =>
          intro j hj
          rw [remWords_coded (by rw [decide_eq_true hj, Bool.or_true]), List.length_cons,
            ih _ (by omega), List.length_cons]
      rw [hall _ 8 (Nat.le_refl 8), numAbove_of_ge (Nat.le_refl 8), Nat.sub_self, Nat.zero_add,
        Nat.sub_zero]

-- ---------------------------------------------------------------------------
-- The flags of the levels above 1
-- ---------------------------------------------------------------------------

section
variable (a : ResidueArgs)

theorem gt1Loop_congr (ctxtSet w w' n : Nat) (h : ∀ j < n, w.testBit j = w'.testBit j)
    (gt1Ctxt num : Nat) :
    (a.gt1Loop ctxtSet w n gt1Ctxt num : List (Bin ρ) × _) = a.gt1Loop ctxtSet w' n gt1Ctxt num := by
  induction n generalizing gt1Ctxt num with
  | zero => rfl
  | succ n ih =>
    simp only [ResidueArgs.gt1Loop]
    rw [h n (Nat.lt_succ_self n), ih fun j hj => h j (Nat.lt_succ_of_lt hj)]

theorem gt1Loop_eq (ctxtSet : Nat) (es : List Int) (gt1Ctxt num : Nat) :
    (a.gt1Loop ctxtSet (shiftIn 0 (es.map aboveOne)) es.length gt1Ctxt num : List (Bin ρ) × _) =
      (greater1Bins (ctxtSet * 4 + a.absGt1BaseCtxt) es gt1Ctxt, gt1CtxtAfter es gt1Ctxt,
        num + es.countP aboveOne) := by
  induction es generalizing gt1Ctxt num with
  | nil => rfl
  | cons e es ih =>
    have hlen : es.length = (es.map aboveOne).length := (List.length_map _).symm
    have hbit : (shiftIn 0 ((e :: es).map aboveOne)).testBit es.length = aboveOne e := by
      rw [hlen]
      exact testBit_shiftIn_cons _ _
    have hrest := gt1Loop_congr (ρ := ρ) a ctxtSet (shiftIn 0 ((e :: es).map aboveOne))
      (shiftIn 0 (es.map aboveOne)) es.length
      fun j hj => testBit_shiftIn_tail _ _ (hlen ▸ hj)
    have hafter : gt1CtxtAfter (e :: es) gt1Ctxt =
        gt1CtxtAfter es (ResidualArgs.nextGt1Ctxt gt1Ctxt (aboveOne e)) := rfl
    have hnum : (if aboveOne e then num + 1 else num) + es.countP aboveOne =
        num + (es.countP aboveOne + if aboveOne e then 1 else 0) := by
      split <;> omega
    rw [List.length_cons, ResidueArgs.gt1Loop, hbit, hrest, ih, greater1Bins, List.countP_cons,
      hafter, hnum]
    rfl

end

-- ---------------------------------------------------------------------------
-- The remaining levels
-- ---------------------------------------------------------------------------

theorem riceNext_eq (hrice : rice ≤ 4) (n : Nat) :
    (if 3 <<< rice < n ∧ rice < 4 then rice + 1 else rice) =
      if 3 <<< rice < n then min (rice + 1) 4 else rice := by
  by_cases hn : 3 <<< rice < n
  · rw [if_pos hn]
    rcases Nat.lt_or_ge rice 4 with hlt | hge
    · rw [if_pos ⟨hn, hlt⟩, Nat.min_eq_left hlt]
    · rw [if_neg (by omega)]
      omega
  · rw [if_neg hn, if_neg fun h => hn h.1]

theorem riceNext_le (hrice : rice ≤ 4) (n : Nat) :
    (if 3 <<< rice < n then min (rice + 1) 4 else rice) ≤ 4 := by
  split
  · exact Nat.min_le_right _ _
  · exact hrice

section
variable (num base1 : Nat) (rest : List Nat)

/-- The loop over the levels behind the first one above 1; at round `jj` of the loop `numAbove j es`
more levels have a flag. -/
theorem remLoop_seen (es : List Int) (hne : ∀ e ∈ es, e ≠ 0) :
    ∀ (j jj rice : Nat), rice ≤ 4 → num - base1 - jj = numAbove j es →
      (ResidueArgs.remLoop num base1 (remWords j es).length jj (remWords j es ++ rest) rice
        (if jj < num - base1 then 2 else 1) : List (Bin ρ)) = remainingBins es j true rice := by
  induction es with
  | nil => exact fun _ _ _ _ _ => rfl
  | cons e es ih =>
    intro j jj rice hrice hnum
    have hpos : e.natAbs ≠ 0 := Int.natAbs_ne_zero.mpr (hne e List.mem_cons_self)
    have hnext := ih fun e' he' => hne e' (List.mem_cons_of_mem _ he')
    -- the level is coded above the base of the round
    have hcoded : ∀ base, remainingBase j true = base → base ≤ e.natAbs →
        (if jj < num - base1 then 2 else 1) = base → num - base1 - (jj + 1) = numAbove (j + 1) es →
          (ResidueArgs.remLoop num base1 ((e.natAbs - 1) :: remWords (j + 1) es).length jj
            ((e.natAbs - 1) :: remWords (j + 1) es ++ rest) rice
            (if jj < num - base1 then 2 else 1) : List (Bin ρ)) = remainingBins (e :: es) j true rice := by
      intro base hbase hle hround hrest
      have hlevel : e.natAbs - 1 + 1 = e.natAbs := by omega
      rw [hround, List.length_cons, ResidueArgs.remLoop, remainingBins, hbase, if_pos hle,
        Bool.true_or, List.cons_append, List.getD_cons_zero, List.drop_one, List.tail_cons, hlevel, riceNext_eq hrice, hnext (j + 1) (jj + 1) _ (riceNext_le hrice _) hrest]
    rcases Nat.lt_or_ge j 8 with hlt | hge
    · have hbase : remainingBase j true = 2 := by
        unfold remainingBase
        rw [if_pos hlt, if_pos rfl]
      rw [numAbove_cons hlt] at hnum
      cases habove : aboveOne e with
      | true =>
        rw [habove, if_pos rfl] at hnum
        have hgt := of_decide_eq_true habove
        rw [remWords_coded ((remWords_flag hlt).trans habove)]
        exact hcoded 2 hbase hgt (if_pos (by omega)) (by omega)
      | false =>
        rw [habove, if_neg Bool.false_ne_true, Nat.add_zero] at hnum
        have hle := of_decide_eq_false habove
        rw [remWords_plain ((remWords_flag hlt).trans habove), remainingBins, hbase,
          if_neg (show ¬ 2 ≤ e.natAbs from hle),
          Bool.true_or]
        exact hnext (j + 1) jj rice hrice hnum
    · have hbase : remainingBase j true = 1 := by
        unfold remainingBase
        rw [if_neg (by omega)]
      rw [numAbove_of_ge hge] at hnum
      rw [remWords_coded (by rw [decide_eq_true hge, Bool.or_true])]
      refine hcoded 1 hbase (by omega) (if_neg (by omega)) ?_
      rw [numAbove_of_ge (by omega)]
      omega

/-- Without a flag that is set it does not matter whether there was one. -/
theorem remainingBins_noneAbove (es : List Int) (hne : ∀ e ∈ es, e ≠ 0) :
    ∀ j rice, numAbove j es = 0 →
      (remainingBins es j false rice : List (Bin ρ)) = remainingBins es j true rice := by
  induction es with
  | nil => exact fun _ _ _ => rfl
  | cons e es ih =>
    intro j rice hzero
    rcases Nat.lt_or_ge j 8 with hlt | hge
    · rw [numAbove_cons hlt] at hzero
      have habove : aboveOne e = false := by
        cases h : aboveOne e with
        | false => rfl
        | true =>
          rw [h, if_pos rfl] at hzero
          omega
      have hle : ¬ 2 ≤ e.natAbs := of_decide_eq_false habove
      have hskip : ∀ seen, ¬ remainingBase j seen ≤ e.natAbs := by
        intro seen
        unfold remainingBase
        rw [if_pos hlt]
        split <;> omega
      rw [habove, if_neg Bool.false_ne_true] at hzero
      rw [remainingBins, remainingBins, if_neg (hskip false), if_neg (hskip true), habove]
      exact ih (fun e' he' => hne e' (List.mem_cons_of_mem _ he')) (j + 1) rice hzero
    · exact remainingBins_seen _ j hge false true rice

/-- The first level above 1 has a flag more, and where it is 2 it is not coded again. -/
theorem remLoop_first (es : List Int) (hne : ∀ e ∈ es, e ≠ 0) :
    ∀ j, 0 < numAbove j es → num - base1 = numAbove j es →
      ∃ e w, remWords j es = (e.natAbs - 1) :: w ∧ (es.take (8 - j)).find? aboveOne = some e ∧
        1 < e.natAbs ∧
        (2 < e.natAbs →
          (ResidueArgs.remLoop num base1 (w.length + 1) 0 ((e.natAbs - 1) :: w ++ rest) 0 3 :
            List (Bin ρ)) = remainingBins es j false 0) ∧
        (¬ 2 < e.natAbs →
          (ResidueArgs.remLoop (num - 1) base1 w.length 0 (w ++ rest) 0
            (if base1 < num - 1 then 2 else 1) : List (Bin ρ)) = remainingBins es j false 0) := by
  induction es with
  | nil =>
    intro j hpos _
    rw [numAbove, List.take_nil, List.countP_nil] at hpos
    exact absurd hpos (Nat.lt_irrefl 0)
  | cons e es ih =>
    intro j hpos hnum
    have hlt : j < 8 := by
      by_contra hge
      rw [numAbove_of_ge (Nat.le_of_not_lt hge)] at hpos
      exact Nat.lt_irrefl 0 hpos
    have htail := fun e' he' => hne e' (List.mem_cons_of_mem e he')
    have htake : (e :: es).take (8 - j) = e :: es.take (8 - (j + 1)) := by
      rw [show 8 - j = 8 - (j + 1) + 1 by omega, List.take_succ_cons]
    have hbase : remainingBase j false = 3 := by
      unfold remainingBase
      rw [if_pos hlt, if_neg Bool.false_ne_true]
    rw [numAbove_cons hlt] at hpos hnum
    rw [htake]
    cases habove : aboveOne e with
    | true =>
      have hgt : 1 < e.natAbs := of_decide_eq_true habove
      rw [habove, if_pos rfl] at hnum
      refine ⟨e, remWords (j + 1) es, remWords_coded ((remWords_flag hlt).trans habove) es,
        List.find?_cons_of_pos habove, hgt, fun hthree => ?_, fun htwo => ?_⟩
      · have hlevel : e.natAbs - 1 + 1 = e.natAbs := by omega
        rw [ResidueArgs.remLoop, remainingBins, hbase,
          if_pos (show 3 ≤ e.natAbs from hthree), habove, Bool.or_true, List.cons_append, List.getD_cons_zero, List.drop_one, List.tail_cons, hlevel,
          riceNext_eq (Nat.zero_le 4), remLoop_seen num base1 rest es htail (j + 1) _ _
            (riceNext_le (Nat.zero_le 4) _) (by omega)]
      · rw [remainingBins, hbase, if_neg (show ¬ 3 ≤ e.natAbs from htwo), habove, Bool.or_true,
          ← remLoop_seen (num - 1) base1 rest es htail (j + 1) 0 0
            (Nat.zero_le 4) (by omega)]
        congr 1
        by_cases hmore : base1 < num - 1
        · rw [if_pos hmore, if_pos (by omega)]
        · rw [if_neg hmore, if_neg (by omega)]
    | false =>
      have hle : ¬ 2 ≤ e.natAbs := of_decide_eq_false habove
      rw [habove, if_neg Bool.false_ne_true, Nat.add_zero] at hpos hnum
      obtain ⟨e', w, hwords, hfind, hgt, hthree, htwo⟩ := ih htail (j + 1) hpos hnum
      have hskip : (remainingBins (e :: es) j false 0 : List (Bin ρ)) =
          remainingBins es (j + 1) false 0 := by
        rw [remainingBins, hbase, if_neg (by omega), habove]
        rfl
      refine ⟨e', w, (remWords_plain ((remWords_flag hlt).trans habove) es).trans hwords,
        ?_, hgt, fun h => (hthree h).trans hskip.symm, fun h => (htwo h).trans hskip.symm⟩
      rw [List.find?_cons_of_neg (Bool.eq_false_iff.mp habove)]
      exact hfind

end

-- ---------------------------------------------------------------------------
-- All of it
-- ---------------------------------------------------------------------------

/-- Of the flags that were shifted into the word the first eight are taken. -/
theorem gt1Bins_eq (es : List Int) :
    (if 8 < es.length then shiftIn 0 (gt1Flags 0 es) >>> (es.length - 8)
      else shiftIn 0 (gt1Flags 0 es)) = shiftIn 0 ((es.take 8).map aboveOne) := by
  have htake : (gt1Flags 0 es).take 8 = (es.take 8).map aboveOne := gt1Flags_take es (Nat.zero_le 8)
  split
  · have hdrop : ((gt1Flags 0 es).drop 8).length = es.length - 8 := by
      rw [List.length_drop, length_gt1Flags]
    have hshift := shiftIn_shiftRight ((gt1Flags 0 es).take 8) ((gt1Flags 0 es).drop 8)
    rw [List.take_append_drop, hdrop] at hshift
    rw [hshift, htake]
  · rename_i hle
    rw [← htake, List.take_of_length_le (by rw [length_gt1Flags]; omega)]

/-- The last sign is shifted out where it is hidden. -/
theorem signBins_eq (hidden : Bool) (es : List Int) :
    (bypassBins
      (if hidden then shiftIn 0 (es.map negative) >>> 1 else shiftIn 0 (es.map negative))
      (if hidden then es.length - 1 else es.length) : List (Bin ρ)) =
      (signFlags hidden es).map .bypass := by
  unfold signFlags
  cases hidden with
  | false =>
    have hbins := bypassBins_shiftIn (ρ := ρ) (es.map negative)
    rw [List.length_map] at hbins
    exact hbins
  | true =>
    rw [if_pos rfl, if_pos rfl, if_pos rfl]
    cases es using List.reverseRecOn with
    | nil => rfl
    | append_singleton es e =>
      have hbins := bypassBins_shiftIn (ρ := ρ) (es.map negative)
      have hshift := shiftIn_shiftRight (es.map negative) [negative e]
      rw [List.length_map] at hbins
      rw [List.length_singleton] at hshift
      rw [List.map_append, List.map_singleton, hshift, List.dropLast_concat, List.length_append,
        List.length_singleton, Nat.add_sub_cancel]
      exact hbins

theorem levelBins_nil (ctxt1 ctxt2 : Nat) (hidden : Bool) :
    (levelBins ctxt1 ctxt2 hidden [] : List (Bin ρ)) = [] := by
  unfold levelBins signFlags
  cases hidden <;> rfl

theorem encodeLevels_eq (a : ResidueArgs) (hskip : a.i1TransformSkipEnabledFlag = false)
    (i gt1Ctxt : Nat) {sig : ResidueArgs.SigSt} {es : List Int} {hidden : Bool} (hne : ∀ e ∈ es, e ≠ 0)
    (hgt1 : sig.gt1Bins = shiftIn 0 (gt1Flags 0 es))
    (hsign : sig.signBins = shiftIn 0 (es.map negative)) (hnum : sig.numCoded = es.length)
    (hhidden : (a.i1SignDataHidingFlag && decide (3 < sig.lastScanPos - sig.firstScanPos)) = hidden)
    (rest : List Nat) :
    (a.encodeLevels i gt1Ctxt sig (remWords 0 es ++ rest) : List (Bin ρ) × _) =
      (levelBins (ctxtSet a.isLuma i gt1Ctxt * 4 + a.absGt1BaseCtxt)
          (ihevcCabCoefabsGrtr2Flag + (if a.isLuma then ctxtSet a.isLuma i gt1Ctxt
            else ctxtSet a.isLuma i gt1Ctxt + 4)) hidden es,
        rest, gt1CtxtAfter (es.take 8) 1) := by
  have hhide : ((decide (3 < sig.lastScanPos - sig.firstScanPos) && !a.i1TransformSkipEnabledFlag) &&
      a.i1SignDataHidingFlag) = hidden := by
    rw [hskip, ← hhidden, Bool.and_comm a.i1SignDataHidingFlag]
    simp
  have hbase : (if 8 < es.length then es.length - 8 else 0) = es.length - 8 := by
    split <;> omega
  have hlen := length_remWords (Nat.zero_le 8) es
  rw [Nat.sub_zero] at hlen
  have hcount : es.length - 8 + (es.take 8).countP aboveOne = (remWords 0 es).length := by
    rw [hlen, Nat.add_comm]
    rfl
  have hset : (if i ≠ 0 ∧ a.isLuma = true then 2 else 0) + (if gt1Ctxt = 0 then 1 else 0) =
      ctxtSet a.isLuma i gt1Ctxt := rfl
  unfold ResidueArgs.encodeLevels levelBins
  dsimp only
  rw [hhide, hgt1, hsign, hnum, hset, gt1Bins_eq, hbase, ← List.length_take, gt1Loop_eq, hcount,
    signBins_eq]
  dsimp only
  have hword : shiftIn 0 ((es.take 8).map aboveOne) ≠ 0 ↔ 0 < numAbove 0 es := by
    rw [shiftIn_ne_zero, List.mem_map]
    exact List.countP_pos_iff.symm
  by_cases hnil : es.length = 0
  · obtain rfl := List.length_eq_zero_iff.mp hnil
    cases hidden <;> rfl
  · by_cases hpos : 0 < numAbove 0 es
    · obtain ⟨e, w, hwords, hfind, hgt, hthree, htwo⟩ := remLoop_first (ρ := ρ)
        (remWords 0 es).length (es.length - 8) rest es hne 0 hpos (by omega)
      have hlevel : e.natAbs - 1 + 1 = e.natAbs := by omega
      have hgreater2 : ∀ ctxt, (greater2Bins ctxt (es.take 8) : List (Bin ρ)) =
          [.ctxt ctxt (decide (2 < e.natAbs))] := by
        intro ctxt
        unfold greater2Bins
        rw [Nat.sub_zero] at hfind
        rw [hfind]
      have hnz := hword.mpr hpos
      rw [hwords, List.length_cons] at hthree htwo
      rw [List.cons_append] at hthree
      rw [hwords]
      rw [if_neg hnil, hgreater2]
      simp only [if_pos hnz, decide_eq_true hnz, List.cons_append, List.getD_cons_zero, hlevel,
        Bool.true_and]
      by_cases h3 : 2 < e.natAbs
      · simp only [if_pos h3, decide_eq_true h3, Bool.not_true, Bool.false_eq_true, if_false]
        rw [List.length_cons, hthree h3, List.drop_succ_cons, List.drop_left]
      · simp only [if_neg h3, decide_eq_false h3, Bool.not_false, if_true]
        rw [List.length_cons, List.drop_one, List.tail_cons]
        rw [Nat.add_sub_cancel] at htwo ⊢
        rw [htwo h3, List.drop_left]
    · have hzero : shiftIn 0 ((es.take 8).map aboveOne) = 0 := by
        by_contra h
        exact hpos (hword.mp h)
      have hnone : ∀ ctxt, (greater2Bins ctxt (es.take 8) : List (Bin ρ)) = [] := by
        intro ctxt
        have hall : (es.take 8).find? aboveOne = none := by
          refine List.find?_eq_none.mpr fun e he habove => hpos ?_
          exact List.countP_pos_iff.mpr ⟨e, he, habove⟩
        unfold greater2Bins
        rw [hall]
      have hnum0 : numAbove 0 es = 0 := Nat.eq_zero_of_not_pos hpos
      have hloop := remLoop_seen (ρ := ρ) (remWords 0 es).length (es.length - 8) rest es
        hne 0 0 0 (Nat.zero_le 4) (by omega)
      rw [← remainingBins_noneAbove es hne 0 0 hnum0, if_neg (by omega)] at hloop
      rw [if_neg hnil, hnone, hzero]
      simp only [ne_eq, not_true_eq_false, if_false, decide_false, Bool.false_and,
        Bool.false_eq_true, Nat.not_lt_zero, List.nil_append]
      rw [if_neg (by omega), hloop, List.drop_left]

end Libhevc.RoundTrip
