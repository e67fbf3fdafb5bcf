import Libhevc.Decoder.CoeffLevels

/-!
# The Rice parameter does not pass 17

With `persistent_rice_adaptation_enabled_flag` nothing caps the Rice parameter. The
prefix limit, which falls as it grows, keeps the levels below what would move it
on: the statistics end at 64 and the parameter at 17, where the suffix has one bin
more than a group may have.
-/

namespace Libhevc.Decoder

open Memory

/-- A prefix of at most 32 bins, a group of 1 to 16 bins, a shift by less than 32, and a number of
32 bits. -/
def LevelOp.Safe : LevelOp → Prop
  | .escape _ => True
  | .prefixBins n => n ≤ 32
  | .group numbins => 1 ≤ numbins ∧ numbins ≤ 16
  | .shift n => 0 ≤ n ∧ n < 32
  | .int v => -2 ^ 31 ≤ v ∧ v < 2 ^ 31

/-- Whatever is parsed is parsed with a Rice parameter of at most 16. -/
def SmallRice (l : List LevelOp) : Prop := ∀ r, .escape r ∈ l → r ≤ 16

/-- All is safe just where the Rice parameter does not reach 17. -/
def Exact (l : List LevelOp) : Prop := (∀ op ∈ l, op.Safe) ↔ SmallRice l

theorem Exact.append (h : Exact l) (h' : Exact l') : Exact (l ++ l') := by
  have hsmall : SmallRice (l ++ l') ↔ SmallRice l ∧ SmallRice l' := by
    constructor
    · intro hall
      exact ⟨fun r hr => hall r (List.mem_append_left _ hr),
        fun r hr => hall r (List.mem_append_right _ hr)⟩
    · rintro ⟨hl, hl'⟩ r hr
      exact (List.mem_append.mp hr).elim (hl r) (hl' r)
  exact List.forall_mem_append.trans ((and_congr h h').trans hsmall.symm)

/-- Without an escape code all must be safe. -/
theorem Exact.of_safe (h : ∀ op ∈ l, op.Safe) (hesc : ∀ r, .escape r ∉ l) : Exact l :=
  iff_of_true h fun r hr => absurd hr (hesc r)

theorem shlOps_safe (hn : n < 32) (hx : x * 2 ^ n < 2 ^ 31) : ∀ op ∈ shlOps x n, op.Safe := by
  intro op hop
  simp only [shlOps, List.mem_cons, List.not_mem_nil, or_false] at hop
  rcases hop with rfl | rfl
  · exact ⟨Int.natCast_nonneg n, by exact_mod_cast hn⟩
  · rw [Nat.shiftLeft_eq]
    exact ⟨by omega, by exact_mod_cast hx⟩

@[simp] theorem escape_shlOps : .escape r ∉ shlOps x n := by simp [shlOps]

theorem Exact.shl (hn : n < 32) (hx : x * 2 ^ n < 2 ^ 31) : Exact (shlOps x n) :=
  .of_safe (shlOps_safe hn hx) fun _ => escape_shlOps

theorem Exact.shift {n : Int} (h : 0 ≤ n) (hlt : n < 32) : Exact [.shift n] := by
  refine .of_safe (fun op hop => ?_) fun r hr => ?_
  · obtain rfl := List.mem_singleton.mp hop
    exact ⟨h, hlt⟩
  · simp at hr

theorem Exact.int {v : Int} (h : -2 ^ 31 ≤ v) (hlt : v < 2 ^ 31) : Exact [.int v] := by
  refine .of_safe (fun op hop => ?_) fun r hr => ?_
  · obtain rfl := List.mem_singleton.mp hop
    exact ⟨h, hlt⟩
  · simp at hr

-- ---------------------------------------------------------------------------
-- Bins
-- ---------------------------------------------------------------------------

theorem bypassMacroLoop_lt (u4Range u4Bits n u4Bins u4Ofst : Nat) :
    (bypassMacroLoop u4Range u4Bits n u4Bins u4Ofst).1 < (u4Bins + 1) * 2 ^ n := by
  induction n generalizing u4Bins u4Ofst with
  | zero => simp [bypassMacroLoop]
  | succ n ih =>
    have hle : u32 (u4Bins <<< 1) ≤ 2 * u4Bins := by
      rw [Nat.shiftLeft_eq, Nat.mul_comm]
      exact Nat.mod_le _ _
    have hmono (v : Nat) (hv : v ≤ 2 * u4Bins + 1) :
        (v + 1) * 2 ^ n ≤ (u4Bins + 1) * 2 ^ (n + 1) := by
      have hmul : (u4Bins + 1) * 2 ^ (n + 1) = (2 * u4Bins + 2) * 2 ^ n := by ring
      rw [hmul]
      exact Nat.mul_le_mul_right _ (by omega)
    rw [bypassMacroLoop_succ]
    split
    · exact Nat.lt_of_lt_of_le (ih _ _) (hmono _ (by omega))
    · exact Nat.lt_of_lt_of_le (ih _ _) (hmono _ (by omega))

theorem bypassBinsMacro_lt (c : CabCtxt) (s : Bitstrm) (n : Nat) :
    (cabacDecodeBypassBinsMacro c s n).1 < 2 ^ n := by
  have hlt := bypassMacroLoop_lt c.u4Range (ihevcdBitsGet s n).1 n 0 c.u4Ofst
  rwa [Nat.zero_add, Nat.one_mul] at hlt

/-- The prefix ends at its limit at the latest. -/
theorem prefixLoop_ends (riceParam fuel : Nat) (hlimit : p + riceParam < 19)
    (hfuel : 19 ≤ p + riceParam + fuel) (c : CabCtxt) (s : Bitstrm) :
    ∃ q c' s', prefixLoop riceParam fuel p c s = some (q, c', s') ∧ p < q ∧ q + riceParam ≤ 19 := by
  induction fuel generalizing p c s with
  | zero => omega
  | succ fuel ih =>
    unfold prefixLoop
    dsimp only
    split
    · exact ⟨p + 1, _, _, rfl, by omega, by omega⟩
    · rename_i hne
      split
      · exact ⟨p + 1, _, _, rfl, by omega, by omega⟩
      · obtain ⟨q, c', s', hq, hlt, hle⟩ := ih (p := p + 1) (by omega) (by omega) _ _
        exact ⟨q, c', s', hq, by omega, hle⟩

-- ---------------------------------------------------------------------------
-- `coeff_abs_level_remaining`
-- ---------------------------------------------------------------------------

/-- The levels that a Rice parameter lets through. -/
def LevelBound (r remaining : Nat) : Prop :=
  (r ≤ 15 → remaining < 2 ^ 16 + 2 ^ (r + 1)) ∧ (15 < r → remaining < (19 - r) * 2 ^ r)

/-- A code with the Rice parameter 17 has a group of 17 bins; below it all is safe. -/
theorem Exact.escape (hr : r ≤ 17) (hsafe : r ≤ 16 → ∀ op ∈ l, op.Safe)
    (hesc : ∀ r', .escape r' ∈ l → r' = r) (hmem : .escape r ∈ l)
    (hgroup : r = 17 → .group 17 ∈ l) : Exact l := by
  cases Nat.lt_or_ge r 17 with
  | inl hlt => exact iff_of_true (hsafe (by omega)) fun r' hr' => by rw [hesc r' hr']; omega
  | inr hge =>
    obtain rfl : r = 17 := by omega
    refine iff_of_false (fun hall => ?_) fun hsmall => absurd (hsmall 17 hmem) (by decide)
    exact absurd (hall _ (hgroup rfl)).2 (by decide)

/-- The code with a short prefix. -/
theorem shortPrefix_exact (hr : r ≤ 17) (hq : q ≤ 3) :
    Exact ([.escape r, .prefixBins q] ++ shlOps (q - 1) r ++ if r = 0 then [] else [.group r]) := by
  have hpow : (q - 1) * 2 ^ r ≤ 2 * 2 ^ 17 :=
    Nat.mul_le_mul (by omega) (Nat.pow_le_pow_right (by decide) hr)
  refine .escape hr (fun hr16 op hop => ?_) (fun r' hr' => ?_) (by simp) fun h17 => ?_
  · simp only [List.mem_append, List.mem_cons, List.not_mem_nil, or_false] at hop
    rcases hop with ((rfl | rfl) | hshl) | hgroup
    · trivial
    · exact (by omega : q ≤ 32)
    · exact shlOps_safe (by omega) (by omega) op hshl
    · split at hgroup
      · nomatch hgroup
      · obtain rfl := List.mem_singleton.mp hgroup
        exact ⟨by omega, hr16⟩
  · simp only [List.mem_append, List.mem_cons, List.not_mem_nil, or_false, reduceCtorEq,
      escape_shlOps, LevelOp.escape.injEq] at hr'
    rcases hr' with hr' | hr'
    · exact hr'
    · split at hr'
      · nomatch hr'
      · simp at hr'
  · subst h17
    simp

theorem shortPrefix_bound (hq : q ≤ 3) (hqr : q + r ≤ 19) (h : remaining < q * 2 ^ r) :
    LevelBound r remaining := by
  refine ⟨fun hr => ?_, fun hr => ?_⟩
  · have hpow : 2 ^ r ≤ 2 ^ 15 := Nat.pow_le_pow_right (by decide) hr
    have hmul := Nat.mul_le_mul_right (2 ^ r) hq
    rw [pow_succ]
    omega
  · exact Nat.lt_of_lt_of_le h (Nat.mul_le_mul_right _ (by omega))

/-- The code with a long prefix. -/
theorem longPrefix_exact (hq : 3 < q) (hqr : q + r ≤ 19) (hsuffix : suffix < 2 ^ (q - 1 - 3 + r)) :
    Exact ([.escape r, .prefixBins q] ++
      (shlOps 1 (q - 1 - 3) ++ shlOps ((1 <<< (q - 1 - 3)) + 3 - 1) r) ++
      if q - 1 - 3 + r = 0 then []
      else [.group (q - 1 - 3 + r),
        .int ((((1 <<< (q - 1 - 3)) + 3 - 1) <<< r + suffix : Nat) : Int)]) ∧
      ((1 <<< (q - 1 - 3)) + 3 - 1) <<< r + suffix < 2 ^ 16 + 2 ^ (r + 1) := by
  have hsum : 2 ^ (q - 1 - 3 + r) ≤ 2 ^ 15 := Nat.pow_le_pow_right (by decide) (by omega)
  have hr15 : 2 ^ r ≤ 2 ^ 15 := Nat.pow_le_pow_right (by decide) (by omega)
  have hp15 : 2 ^ (q - 1 - 3) ≤ 2 ^ 15 := Nat.pow_le_pow_right (by decide) (by omega)
  have hvalue : ((1 <<< (q - 1 - 3)) + 3 - 1) <<< r = 2 ^ (q - 1 - 3 + r) + 2 * 2 ^ r := by
    rw [Nat.shiftLeft_eq, Nat.shiftLeft_eq, Nat.one_mul, Nat.add_sub_assoc (by decide), Nat.add_mul,
      ← pow_add]
  have hbound : ((1 <<< (q - 1 - 3)) + 3 - 1) <<< r + suffix < 2 ^ 16 + 2 ^ (r + 1) := by
    rw [hvalue, pow_succ 2 r]
    omega
  refine ⟨.escape (r := r) (by omega) (fun hr16 op hop => ?_) (fun r' hr' => ?_) (by simp)
    (by omega), hbound⟩
  · simp only [List.mem_append, List.mem_cons, List.not_mem_nil, or_false] at hop
    rcases hop with ((rfl | rfl) | hshl | hshl) | hgroup
    · trivial
    · exact (by omega : q ≤ 32)
    · exact shlOps_safe (by omega) (by omega) op hshl
    · refine shlOps_safe (by omega) ?_ op hshl
      rw [← Nat.shiftLeft_eq, hvalue]
      omega
    · split at hgroup
      · nomatch hgroup
      · simp only [List.mem_cons, List.not_mem_nil, or_false] at hgroup
        rcases hgroup with rfl | rfl
        · exact ⟨by omega, by omega⟩
        · have hlt : 2 ^ (r + 1) ≤ 2 ^ 16 := Nat.pow_le_pow_right (by decide) (by omega)
          exact ⟨by omega, by exact_mod_cast hbound.trans (by omega)⟩
  · simp only [List.mem_append, List.mem_cons, List.not_mem_nil, or_false, reduceCtorEq,
      escape_shlOps, LevelOp.escape.injEq] at hr'
    rcases hr' with hr' | hr'
    · exact hr'
    · split at hr'
      · nomatch hr'
      · simp at hr'

/-- The code always ends, is safe where the Rice parameter is at most 16, and its value is bounded
by the Rice parameter. -/
theorem remaining_spec (st : LevelSt) (hr : st.riceParam ≤ 17) :
    ∃ remaining c s l, coeffAbsLevelRemaining st =
        some (remaining, { st with cabac := c, bitstrm := s, ops := st.ops ++ l }) ∧
      Exact l ∧ (∀ r, .escape r ∈ l → r = st.riceParam) ∧ LevelBound st.riceParam remaining := by
  obtain ⟨q, c, s, hunary, hq, hqr⟩ :=
    prefixLoop_ends (p := 0) st.riceParam 32 (by omega) (by omega) st.cabac st.bitstrm
  unfold coeffAbsLevelRemaining
  rw [hunary]
  dsimp only [LevelSt.note]
  split
  · rename_i hshort
    have hexact := shortPrefix_exact (q := q) hr (by omega)
    split
    · rename_i hzero
      rw [if_pos hzero, List.append_nil] at hexact
      refine ⟨_, c, s, _, by rw [List.append_assoc], hexact, by simp,
        shortPrefix_bound (by omega) hqr ?_⟩
      rw [Nat.shiftLeft_eq]
      exact Nat.mul_lt_mul_of_pos_right (by omega) (Nat.two_pow_pos _)
    · rename_i hpos
      have hsuffix := bypassBinsMacro_lt c s st.riceParam
      rw [if_neg hpos] at hexact
      refine ⟨_, _, _, _, by rw [List.append_assoc, List.append_assoc, ← List.append_assoc [_, _]],
        hexact, by simp, shortPrefix_bound (by omega) hqr ?_⟩
      rw [Nat.shiftLeft_eq, mul_or hsuffix]
      calc (q - 1) * 2 ^ st.riceParam + _ < (q - 1) * 2 ^ st.riceParam + 2 ^ st.riceParam :=
            Nat.add_lt_add_left hsuffix _
        _ = q * 2 ^ st.riceParam := by
          rw [← Nat.succ_mul, Nat.succ_eq_add_one, Nat.sub_add_cancel hq]
  · split
    · rename_i hzero
      obtain ⟨hexact, hbound⟩ :=
        longPrefix_exact (q := q) (by omega) hqr (Nat.two_pow_pos (q - 1 - 3 + st.riceParam))
      rw [if_pos hzero, List.append_nil] at hexact
      rw [Nat.add_zero] at hbound
      exact ⟨_, c, s, _, by rw [List.append_assoc], hexact, by simp, fun _ => hbound,
        fun h => by omega⟩
    · rename_i hpos
      obtain ⟨hexact, hbound⟩ := longPrefix_exact (q := q) (by omega) hqr
        (bypassBinsMacro_lt c s (q - 1 - 3 + st.riceParam))
      rw [if_neg hpos] at hexact
      exact ⟨_, _, _, _, by rw [List.append_assoc, List.append_assoc, ← List.append_assoc [_, _]],
        hexact, by simp, fun _ => hbound, fun h => by omega⟩

theorem LevelBound.lt (h : LevelBound r remaining) (hr : r ≤ 17) : remaining < 2 ^ 18 := by
  obtain ⟨hlow, hhigh⟩ := h
  cases Nat.lt_or_ge r 16 with
  | inl hlt =>
    have hpow : 2 ^ (r + 1) ≤ 2 ^ 16 := Nat.pow_le_pow_right (by decide) (by omega)
    have := hlow (by omega)
    omega
  | inr hge =>
    have hbound := hhigh (by omega)
    obtain rfl | rfl : r = 16 ∨ r = 17 := by omega
    · omega
    · omega

-- ---------------------------------------------------------------------------
-- One coefficient
-- ---------------------------------------------------------------------------

/-- What is done for a sub-block is safe up to the Rice parameter 17, which only the persistent mode
can reach. -/
structure Fine (b : Subblk) (l : List LevelOp) : Prop where
  exact : Exact l
  small : b.i1PersistentRiceAdaptationEnabledFlag = false → SmallRice l

theorem Fine.append (h : Fine b l) (h' : Fine b l') : Fine b (l ++ l') :=
  ⟨h.exact.append h'.exact, fun hflag r hr =>
    (List.mem_append.mp hr).elim (h.small hflag r) (h'.small hflag r)⟩

theorem Fine.of_safe (h : ∀ op ∈ l, op.Safe) (hesc : ∀ r, .escape r ∉ l) : Fine b l :=
  ⟨.of_safe h hesc, fun _ r hr => absurd hr (hesc r)⟩

theorem Fine.shl (hn : n < 32) (hx : x * 2 ^ n < 2 ^ 31) : Fine b (shlOps x n) :=
  .of_safe (shlOps_safe hn hx) fun _ => escape_shlOps

theorem Fine.shift {n : Int} (h : 0 ≤ n) (hlt : n < 32) : Fine b [.shift n] := by
  refine .of_safe (fun op hop => ?_) (by simp)
  obtain rfl := List.mem_singleton.mp hop
  exact ⟨h, hlt⟩

theorem Fine.int {v : Int} (h : -2 ^ 31 ≤ v) (hlt : v < 2 ^ 31) : Fine b [.int v] := by
  refine .of_safe (fun op hop => ?_) (by simp)
  obtain rfl := List.mem_singleton.mp hop
  exact ⟨h, hlt⟩

/-- The statistics do not pass 64: there the levels are too small. -/
theorem updateStats_spec (st : LevelSt) (hstat : ∀ i, st.ai4RiceStatCoeff i ≤ 64)
    (hrice : st.riceParam ≤ 17)
    (hupdate : st.i1UpdateStats = true → st.riceParam = st.ai4RiceStatCoeff b.sbType / 4)
    (hbound : LevelBound st.riceParam remaining) :
    ∃ stats l, updateStats b remaining st =
        { st with ai4RiceStatCoeff := stats, i1UpdateStats := false, ops := st.ops ++ l } ∧
      (∀ i, stats i ≤ 64) ∧ Fine b l := by
  have hset (v : Nat) (hv : v ≤ 64) (i : Nat) :
      Memory.set st.ai4RiceStatCoeff b.sbType v i ≤ 64 := by
    unfold Memory.set
    split
    · exact hv
    · exact hstat i
  have hlt := hbound.lt hrice
  have hsb := hstat b.sbType
  unfold updateStats
  cases hflag : st.i1UpdateStats with
  | false =>
    rw [if_neg (by decide)]
    exact ⟨_, [], by rw [List.append_nil, ← hflag], hstat, .of_safe (by simp) (by simp)⟩
  | true =>
    rw [if_pos rfl]
    have hpow : 2 ^ (st.ai4RiceStatCoeff b.sbType / 4) ≤ 2 ^ 16 :=
      Nat.pow_le_pow_right (by decide) (by omega)
    have hthree : Fine b (shlOps 3 (st.ai4RiceStatCoeff b.sbType / 4)) :=
      .shl (by omega) (by omega)
    have hone : Fine b (shlOps 3 (st.ai4RiceStatCoeff b.sbType / 4) ++
        (.int (2 * remaining : Nat) :: shlOps 1 (st.ai4RiceStatCoeff b.sbType / 4))) :=
      hthree.append ((Fine.int (v := (2 * remaining : Nat)) (by omega) (by omega)).append
        (.shl (by omega) (by omega)))
    dsimp only [LevelSt.note]
    split
    · rename_i hge
      refine ⟨_, _, rfl, hset _ ?_, hthree⟩
      rw [Nat.shiftLeft_eq, ← hupdate hflag] at hge
      by_contra hmax
      have h16 : st.riceParam = 16 := by
        rw [hupdate hflag]
        omega
      rw [h16] at hge
      have := (h16 ▸ hbound).2 (by decide)
      omega
    · split
      · exact ⟨_, _, by rw [List.append_assoc], hset _ (by omega), hone⟩
      · exact ⟨_, _, by rw [List.append_assoc], hstat, hone⟩

/-- No level is large enough to move the Rice parameter past 17. -/
theorem updateRice_spec (st : LevelSt) (hrice : st.riceParam ≤ 17)
    (hplain : b.i1PersistentRiceAdaptationEnabledFlag = false → st.riceParam ≤ 4)
    (hbase : baseLvl ≤ 3 ∨ ∃ remaining, baseLvl ≤ 3 + remaining ∧
      LevelBound st.riceParam remaining) :
    ∃ rice, updateRice b baseLvl st =
        { st with riceParam := rice, ops := st.ops ++ shlOps 3 st.riceParam } ∧
      rice ≤ 17 ∧ (b.i1PersistentRiceAdaptationEnabledFlag = false → rice ≤ 4) ∧
      (baseLvl ≤ 3 → rice = st.riceParam) ∧ Fine b (shlOps 3 st.riceParam) := by
  have hpow : 2 ^ st.riceParam ≤ 2 ^ 17 := Nat.pow_le_pow_right (by decide) hrice
  have hfine : Fine b (shlOps 3 st.riceParam) := .shl (by omega) (by omega)
  have hpos := Nat.two_pow_pos st.riceParam
  unfold updateRice
  dsimp only [LevelSt.note]
  rw [Nat.shiftLeft_eq]
  split
  · rename_i hlarge
    have hnot : ¬baseLvl ≤ 3 := by omega
    split
    · rename_i hflag
      refine ⟨st.riceParam + 1, rfl, ?_, fun h => ?_, fun h => absurd h hnot, hfine⟩
      · obtain ⟨remaining, hle, hbound⟩ := hbase.resolve_left hnot
        by_contra hmax
        have h17 : st.riceParam = 17 := by omega
        rw [h17] at hlarge
        have := (h17 ▸ hbound).2 (by decide)
        omega
      · rw [h] at hflag
        nomatch hflag
    · exact ⟨min (st.riceParam + 1) 4, rfl, by omega, fun _ => by omega, fun h => absurd h hnot,
        hfine⟩
  · exact ⟨st.riceParam, rfl, hrice, hplain, fun _ => rfl, hfine⟩

theorem storeLevel_spec (st : LevelSt) (n : Int) (hbase : baseLvl ≤ 2 ^ 19)
    (hsum : 0 ≤ st.sumAbsLevel) (hsum' : st.sumAbsLevel ≤ 2 ^ 24) :
    ∃ sum signs levels l, storeLevel b n baseLvl st =
        { st with
          sumAbsLevel := sum
          u4CoeffSignMap := signs
          ai2Level := levels
          numSigCoeff := st.numSigCoeff + 1
          ops := st.ops ++ l } ∧
      0 ≤ sum ∧ sum ≤ st.sumAbsLevel + baseLvl ∧ Fine b l := by
  unfold storeLevel
  dsimp only [LevelSt.note]
  generalize hlevel : (if (st.u4CoeffSignMap >>> 31) &&& 1 = 1 then -(baseLvl : Int)
    else baseLvl) = level
  have habs : -2 ^ 19 ≤ level ∧ level ≤ 2 ^ 19 := by
    rw [← hlevel]
    split <;> omega
  generalize hsumdef : (if b.signHidden = true then st.sumAbsLevel + baseLvl
    else st.sumAbsLevel) = sum
  have hsumle : 0 ≤ sum ∧ sum ≤ st.sumAbsLevel + baseLvl := by
    rw [← hsumdef]
    split <;> omega
  generalize hlast : (if b.signHidden = true ∧ n = b.firstSigScanPos ∧ sum % 2 = 1 then -level
    else level) = last
  have hlastabs : -2 ^ 19 ≤ last ∧ last ≤ 2 ^ 19 := by
    rw [← hlast]
    split <;> omega
  refine ⟨sum, _, _, _, by rw [List.append_assoc], hsumle.1, hsumle.2, ?_⟩
  exact (Fine.int (v := level) (by omega) (by omega)).append
    ((Fine.int (v := sum) (by omega) (by omega)).append
      (Fine.int (v := last) (by omega) (by omega)))

/-- What holds between two coefficients, with `fuel` of them to go at most. -/
structure LevelSt.Inv (b : Subblk) (before : List LevelOp) (fuel : Nat) (st : LevelSt) : Prop where
  stat : ∀ i, st.ai4RiceStatCoeff i ≤ 64
  rice : st.riceParam ≤ 17
  update : st.i1UpdateStats = true → st.riceParam = st.ai4RiceStatCoeff b.sbType / 4
  plain : b.i1PersistentRiceAdaptationEnabledFlag = false → st.riceParam ≤ 4
  count : st.numSigCoeff + fuel ≤ 32
  sum : 0 ≤ st.sumAbsLevel ∧ st.sumAbsLevel ≤ st.numSigCoeff * 2 ^ 19
  ops : ∃ l, st.ops = before ++ l ∧ Fine b l

section
variable {b : Subblk} {before : List LevelOp} {fuel : Nat} {st : LevelSt}

theorem LevelSt.Inv.note (h : st.Inv b before fuel) (hl : Fine b l) :
    (st.note l).Inv b before fuel := by
  obtain ⟨l', hops, hfine⟩ := h.ops
  refine ⟨h.stat, h.rice, h.update, h.plain, h.count, h.sum, l' ++ l, ?_, hfine.append hl⟩
  rw [LevelSt.note, hops, List.append_assoc]

theorem LevelSt.Inv.engine (h : st.Inv b before fuel) (c : CabCtxt) (s : Bitstrm) :
    LevelSt.Inv b before fuel { st with cabac := c, bitstrm := s } :=
  ⟨h.stat, h.rice, h.update, h.plain, h.count, h.sum, h.ops⟩

theorem LevelSt.Inv.mono (h : st.Inv b before fuel) (hle : fuel' ≤ fuel) : st.Inv b before fuel' :=
  ⟨h.stat, h.rice, h.update, h.plain, by have := h.count; omega, h.sum, h.ops⟩

/-- The Rice parameter and the level, once the level is known. -/
theorem storeRice_inv (h : st.Inv b before (fuel + 1)) (n : Int) (baseLvl : Nat)
    (hbase : baseLvl ≤ 3 ∨ ∃ remaining, baseLvl ≤ 3 + remaining ∧
      LevelBound st.riceParam remaining)
    (hupdate : baseLvl ≤ 3 ∨ st.i1UpdateStats = false) :
    (storeLevel b n baseLvl (updateRice b baseLvl st)).Inv b before fuel := by
  have hcount := h.count
  have hsum := h.sum
  have hle : baseLvl ≤ 2 ^ 19 := by
    rcases hbase with hle | ⟨remaining, hle, hbound⟩
    · omega
    · have := hbound.lt h.rice
      omega
  obtain ⟨rice, hrice, hrice17, hplain, hsame, hfine⟩ :=
    updateRice_spec (b := b) st h.rice h.plain hbase
  have hnoted := h.note hfine
  obtain ⟨sum, signs, levels, l, hstore, hsum0, hsumle, hfine'⟩ :=
    storeLevel_spec (b := b) (updateRice b baseLvl st) n hle
      (by rw [hrice]; exact hsum.1) (by rw [hrice]; dsimp only; omega)
  rw [hrice] at hstore hsumle
  obtain ⟨l', hops, hfine⟩ := hnoted.ops
  rw [LevelSt.note] at hops
  refine hrice ▸ hstore ▸ ⟨h.stat, hrice17, fun hflag => ?_, hplain, ?_, ⟨hsum0, ?_⟩, l' ++ l, ?_,
    hfine.append hfine'⟩
  · rw [hsame (hupdate.resolve_right (by rw [hflag]; decide))]
    exact h.update hflag
  · dsimp only
    omega
  · dsimp only at hsumle ⊢
    push_cast
    omega
  · dsimp only at hops ⊢
    rw [hops, List.append_assoc]

/-- One coefficient: it ends and keeps the invariant. -/
theorem levelStep_inv (h : st.Inv b before (fuel + 1)) {n : Int} (hn : 0 ≤ n) (hlt : n < 32) :
    ∃ st', levelStep b n st = some st' ∧ st'.Inv b before fuel := by
  have hbit (x : Nat) : x &&& 1 ≤ 1 := by
    rw [Nat.and_one_is_mod]
    omega
  have hg1 := hbit (b.u4CoeffAbsLevelGreater1Map >>> n.toNat)
  have hg2 := hbit (b.u4CoeffAbsLevelGreater2Map >>> n.toNat)
  have hnoted := h.note (Fine.shift hn hlt)
  unfold levelStep
  dsimp only
  generalize hbase : 1 + ((b.u4CoeffAbsLevelGreater1Map >>> n.toNat) &&& 1) +
    ((b.u4CoeffAbsLevelGreater2Map >>> n.toNat) &&& 1) = baseLvl
  have hbase3 : baseLvl ≤ 3 := by omega
  generalize (if (st.note [.shift n]).numSigCoeff < 8 then
    if n = b.firstGreater1ScanPos then 3 else 2 else 1) = limit
  split
  · obtain ⟨remaining, c, s, l, hremaining, hexact, hesc, hbound⟩ :=
      remaining_spec (st.note [.shift n]) h.rice
    have hfine : Fine b l := by
      refine ⟨hexact, fun hflag r hr => ?_⟩
      have hrice : r = st.riceParam := hesc r hr
      have := h.plain hflag
      omega
    rw [hremaining]
    dsimp only
    have hlt18 := hbound.lt h.rice
    have hparsed := ((hnoted.note hfine).engine c s).note
      (Fine.int (b := b) (v := (baseLvl + remaining : Nat)) (by omega) (by omega))
    obtain ⟨stats, l', hstats, hstat64, hfine'⟩ :=
      updateStats_spec (b := b) _ hparsed.stat hparsed.rice hparsed.update hbound
    obtain ⟨l'', hops, hfine''⟩ := (hparsed.note hfine').ops
    refine ⟨_, rfl, storeRice_inv ?_ n (baseLvl + remaining)
      (.inr ⟨remaining, by omega, ?_⟩) (.inr ?_)⟩
    · exact hstats ▸ ⟨hstat64, hparsed.rice, fun hflag => (nomatch hflag), hparsed.plain,
        hparsed.count, hparsed.sum, l'', hops, hfine''⟩
    · exact hstats ▸ hbound
    · exact hstats ▸ rfl
  · exact ⟨_, rfl, storeRice_inv hnoted n _ (.inl hbase3) (.inl hbase3)⟩

-- ---------------------------------------------------------------------------
-- All coefficients of a sub-block
-- ---------------------------------------------------------------------------

/-- The map with the bits from the one at the position of `m` on at its top. -/
def topBits (m : Nat) : Nat := m * 2 ^ (31 - Nat.log2 m)

theorem topBits_bounds (hm : 0 < m) (hlt : m < 2 ^ 32) :
    2 ^ 31 ≤ topBits m ∧ topBits m < 2 ^ 32 := by
  have hlog : Nat.log2 m < 32 := (Nat.log2_lt (by omega)).mpr hlt
  have hlo := Nat.mul_le_mul_right (2 ^ (31 - Nat.log2 m)) (Nat.log2_self_le (Nat.ne_of_gt hm))
  have hhi := Nat.mul_lt_mul_of_pos_right (Nat.lt_log2_self (n := m))
    (Nat.two_pow_pos (31 - Nat.log2 m))
  rw [← pow_add, show Nat.log2 m + (31 - Nat.log2 m) = 31 by omega] at hlo
  rw [← pow_add, show Nat.log2 m + 1 + (31 - Nat.log2 m) = 32 by omega] at hhi
  exact ⟨hlo, hhi⟩

/-- The first bit leaves the word. -/
theorem topBits_shift (hm : 0 < m) (hlt : m < 2 ^ 32) :
    u32 (topBits m <<< 1) = (m - 2 ^ Nat.log2 m) * 2 ^ (32 - Nat.log2 m) := by
  have hlog : Nat.log2 m < 32 := (Nat.log2_lt (by omega)).mpr hlt
  have hlow := Nat.log2_self_le (Nat.ne_of_gt hm)
  have hhigh := Nat.lt_log2_self (n := m)
  have hsum : 2 ^ Nat.log2 m * 2 ^ (32 - Nat.log2 m) = 2 ^ 32 := by
    rw [← pow_add]
    congr 1
    omega
  have hrest : (m - 2 ^ Nat.log2 m) * 2 ^ (32 - Nat.log2 m) < 2 ^ 32 := by
    rw [← hsum]
    refine Nat.mul_lt_mul_of_pos_right ?_ (Nat.two_pow_pos _)
    rw [pow_succ] at hhigh
    omega
  have hshift : topBits m <<< 1 =
      2 ^ 32 + (m - 2 ^ Nat.log2 m) * 2 ^ (32 - Nat.log2 m) := by
    rw [← hsum, ← Nat.add_mul, Nat.add_sub_cancel' hlow, Nat.shiftLeft_eq, topBits, Nat.mul_assoc,
      ← pow_succ]
    congr 2
    omega
  rw [hshift, u32, Nat.add_mod_left, Nat.mod_eq_of_lt hrest]

/-- Zeros are skipped up to the next bit. -/
theorem topBits_next (hm : 0 < m) (hlt : m < 2 ^ 32) (hrest : m - 2 ^ Nat.log2 m ≠ 0) :
    let m' := m - 2 ^ Nat.log2 m
    Nat.log2 m' < Nat.log2 m ∧
      clz (u32 (topBits m <<< 1)) = Nat.log2 m - 1 - Nat.log2 m' ∧
      u32 (u32 (topBits m <<< 1) <<< (Nat.log2 m - 1 - Nat.log2 m')) = topBits m' := by
  intro m'
  have hlog : Nat.log2 m < 32 := (Nat.log2_lt (by omega)).mpr hlt
  have hlow := Nat.log2_self_le (Nat.ne_of_gt hm)
  have hhigh := Nat.lt_log2_self (n := m)
  have hm' : m' < 2 ^ Nat.log2 m := by
    rw [pow_succ] at hhigh
    omega
  have hlog' : Nat.log2 m' < Nat.log2 m := (Nat.log2_lt hrest).mpr hm'
  have hlo := Nat.mul_le_mul_right (2 ^ (32 - Nat.log2 m)) (Nat.log2_self_le hrest)
  have hhi := Nat.mul_lt_mul_of_pos_right (Nat.lt_log2_self (n := m'))
    (Nat.two_pow_pos (32 - Nat.log2 m))
  rw [← pow_add] at hlo hhi
  have hclz := clz_eq (x := m' * 2 ^ (32 - Nat.log2 m)) (n := Nat.log2 m' + (32 - Nat.log2 m)) hlo
    (by rwa [Nat.add_right_comm])
  refine ⟨hlog', ?_, ?_⟩
  · rw [topBits_shift hm hlt, hclz]
    omega
  · rw [topBits_shift hm hlt, Nat.shiftLeft_eq, Nat.mul_assoc, ← pow_add,
      show 32 - Nat.log2 m + (Nat.log2 m - 1 - Nat.log2 m') = 31 - Nat.log2 m' by omega]
    exact u32_of_lt (topBits_bounds (Nat.pos_of_ne_zero hrest) (by omega)).2

theorem levelLoop_inv (h : st.Inv b before fuel) (hm : 0 < m) (hfuel : m < 2 ^ fuel)
    (hlt : m < 2 ^ 32) :
    ∃ st', levelLoop b fuel (Nat.log2 m) (topBits m) st = some st' ∧ st'.Inv b before 0 := by
  induction fuel generalizing m st with
  | zero => omega
  | succ fuel ih =>
    have hlog : Nat.log2 m < 32 := (Nat.log2_lt (by omega)).mpr hlt
    obtain ⟨htop, htop'⟩ := topBits_bounds hm hlt
    obtain ⟨st', hstep, hinv⟩ := levelStep_inv h (n := (Nat.log2 m : Int)) (by omega) (by omega)
    have hbit : (topBits m >>> 31) &&& 1 = 1 := by
      rw [Nat.and_one_is_mod, Nat.shiftRight_eq_div_pow]
      omega
    unfold levelLoop
    rw [if_pos hbit, hstep]
    dsimp only
    by_cases hrest : m - 2 ^ Nat.log2 m = 0
    · have hzero : u32 (topBits m <<< 1) = 0 := by rw [topBits_shift hm hlt, hrest, Nat.zero_mul]
      rw [hzero]
      have hnoted := hinv.note (Fine.shift (n := 31) (by decide) (by decide))
      exact ⟨_, rfl, hnoted.mono (Nat.zero_le fuel)⟩
    · obtain ⟨hlog', hclz, hnext⟩ := topBits_next hm hlt hrest
      have hlow := Nat.log2_self_le (Nat.ne_of_gt hm)
      have hpos := Nat.pos_of_ne_zero hrest
      have hlt32 : m - 2 ^ Nat.log2 m < 2 ^ 32 := lt_of_le_of_lt (Nat.sub_le _ _) hlt
      have hne : topBits (m - 2 ^ Nat.log2 m) ≠ 0 := by
        have := (topBits_bounds hpos hlt32).1
        omega
      have hfuel' : m - 2 ^ Nat.log2 m < 2 ^ fuel := by
        have hle : Nat.log2 m ≤ fuel := by
          have hlt' : Nat.log2 m < fuel + 1 := (Nat.log2_lt (by omega)).mpr hfuel
          omega
        have hpow : 2 ^ Nat.log2 m ≤ 2 ^ fuel := Nat.pow_le_pow_right (by decide) hle
        rw [pow_succ] at hfuel
        have hhigh := Nat.lt_log2_self (n := m)
        rw [pow_succ] at hhigh
        omega
      have hpos' : (Nat.log2 m : Int) - 1 - (Nat.log2 m - 1 - Nat.log2 (m - 2 ^ Nat.log2 m) : Nat) =
          Nat.log2 (m - 2 ^ Nat.log2 m) := by omega
      rw [hclz, hnext, if_neg hne, hpos']
      exact ih (hinv.note (Fine.shift (by omega) (by omega))) hpos hfuel' hlt32

end

-- ---------------------------------------------------------------------------
-- Runs
-- ---------------------------------------------------------------------------

structure ResidualSt.Inv (x : ResidualSt) : Prop where
  stat : ∀ i, x.ai4RiceStatCoeff i ≤ 64
  statSync : ∀ i, x.ai4RiceStatCoeffSync i ≤ 64
  exact : Exact x.ops

/-- A sub-block: all its loops end. -/
theorem parseLevels_inv {x : ResidualSt} (h : x.Inv) (b : Subblk) :
    ∃ x' l, parseLevels b x = some x' ∧ x'.Inv ∧ x'.ops = x.ops ++ l ∧ Fine b l := by
  have hpos := b.map_pos
  have hmap := b.map_lt
  have hlog : Nat.log2 b.u4SigCoeffMap < 16 := (Nat.log2_lt (by omega)).mpr hmap
  have hclz : clz b.u4SigCoeffMap = 31 - Nat.log2 b.u4SigCoeffMap :=
    clz_eq (Nat.log2_self_le (by omega)) Nat.lt_log2_self
  have htop : u32 (b.u4SigCoeffMap <<< (31 - Nat.log2 b.u4SigCoeffMap)) =
      topBits b.u4SigCoeffMap := by
    rw [Nat.shiftLeft_eq]
    exact u32_of_lt (topBits_bounds hpos (by omega)).2
  have hn : (31 : Int) - (31 - Nat.log2 b.u4SigCoeffMap : Nat) = Nat.log2 b.u4SigCoeffMap := by
    omega
  have hstat := h.stat b.sbType
  unfold parseLevels
  dsimp only
  rw [hclz, htop, hn]
  generalize hst : LevelSt.mk _ _ _ _ _ _ _ _ _ _ = st
  have hinv : st.Inv b x.ops 32 := by
    subst hst
    refine ⟨h.stat, ?_, fun hflag => if_pos hflag, fun hflag => ?_, by simp, by simp,
      [.shift (31 - Nat.log2 b.u4SigCoeffMap : Nat)], rfl, Fine.shift (by omega) (by omega)⟩
    · dsimp only
      split <;> omega
    · dsimp only
      rw [hflag]
      exact Nat.zero_le 4
  obtain ⟨st', hloop, hinv'⟩ := levelLoop_inv hinv hpos (by omega) (by omega)
  obtain ⟨l, hops, hfine⟩ := hinv'.ops
  have hexact : Exact st'.ops := hops ▸ h.exact.append hfine.exact
  rw [hloop]
  exact ⟨_, l, rfl, ⟨hinv'.stat, h.statSync, hexact⟩, hops, hfine⟩

theorem ResidualSt.Inv.step {x : ResidualSt} (h : x.Inv) (e : ResidualEvent) :
    ∃ x' l, x.step e = some x' ∧ x'.Inv ∧ x'.ops = x.ops ++ l ∧
      ((∀ b, e = .subblk b → b.i1PersistentRiceAdaptationEnabledFlag = false) → SmallRice l) := by
  have hnil : SmallRice [] := fun r hr => nomatch hr
  cases e with
  | init =>
    exact ⟨_, [], rfl, ⟨fun _ => Nat.zero_le 64, h.statSync, h.exact⟩, (List.append_nil _).symm,
      fun _ => hnil⟩
  | initFromSync =>
    exact ⟨_, [], rfl, ⟨h.statSync, h.statSync, h.exact⟩, (List.append_nil _).symm, fun _ => hnil⟩
  | sync =>
    exact ⟨_, [], rfl, ⟨h.stat, h.stat, h.exact⟩, (List.append_nil _).symm, fun _ => hnil⟩
  | other c s =>
    exact ⟨_, [], rfl, ⟨h.stat, h.statSync, h.exact⟩, (List.append_nil _).symm, fun _ => hnil⟩
  | subblk b =>
    obtain ⟨x', l, hparse, hinv, hops, hfine⟩ := parseLevels_inv h b
    exact ⟨x', l, hparse, hinv, hops, fun hplain => hfine.small (hplain b rfl)⟩

theorem ResidualSt.Inv.run {x : ResidualSt} (h : x.Inv) (evs : List ResidualEvent) :
    ∃ x' l, x.run evs = some x' ∧ x'.Inv ∧ x'.ops = x.ops ++ l ∧
      ((∀ b, .subblk b ∈ evs → b.i1PersistentRiceAdaptationEnabledFlag = false) → SmallRice l) := by
  induction evs generalizing x with
  | nil => exact ⟨x, [], rfl, h, (List.append_nil _).symm, fun _ r hr => nomatch hr⟩
  | cons e evs ih =>
    obtain ⟨x', l, hstep, hinv, hops, hsmall⟩ := h.step e
    obtain ⟨x'', l', hrun, hinv', hops', hsmall'⟩ := ih hinv
    refine ⟨x'', l ++ l', ?_, hinv', ?_, fun hplain r hr => ?_⟩
    · rw [ResidualSt.run, hstep]
      exact hrun
    · rw [hops', hops, List.append_assoc]
    · rcases List.mem_append.mp hr with hr | hr
      · exact hsmall (fun b hb => hplain b (hb ▸ List.mem_cons_self ..)) r hr
      · exact hsmall' (fun b hb => hplain b (List.mem_cons_of_mem _ hb)) r hr

/-- In every run all loops end, and all that is done is safe if and only if no level is parsed with
the Rice parameter 17. Without the persistent mode all is safe. -/
theorem escapeLevels_safe_iff (c : CabCtxt) (s : Bitstrm) (evs : List ResidualEvent) :
    ∃ x, (ResidualSt.start c s).run evs = some x ∧
      ((∀ op ∈ x.ops, op.Safe) ↔ ∀ r, .escape r ∈ x.ops → r ≤ 16) ∧
      ((∀ b, .subblk b ∈ evs → b.i1PersistentRiceAdaptationEnabledFlag = false) →
        ∀ op ∈ x.ops, op.Safe) := by
  have hstart : (ResidualSt.start c s).Inv :=
    ⟨fun _ => Nat.zero_le 64, fun _ => Nat.zero_le 64, .of_safe (fun _ h => nomatch h)
      fun _ h => nomatch h⟩
  obtain ⟨x, l, hrun, hinv, hops, hsmall⟩ := hstart.run evs
  exact ⟨x, hrun, hinv.exact, fun hplain => hinv.exact.mpr (hops ▸ hsmall hplain)⟩

-- ---------------------------------------------------------------------------
-- A group of 17 bins
-- ---------------------------------------------------------------------------

/-- The same state behind what was done before. -/
def LevelSt.after (o : List LevelOp) (st : LevelSt) : LevelSt := { st with ops := o ++ st.ops }

theorem LevelSt.after_note (o l : List LevelOp) (st : LevelSt) :
    (st.after o).note l = (st.note l).after o := by
  unfold LevelSt.after LevelSt.note
  rw [List.append_assoc]

theorem coeffAbsLevelRemaining_after (o : List LevelOp) (st : LevelSt) :
    coeffAbsLevelRemaining (st.after o) =
      (coeffAbsLevelRemaining st).map fun r => (r.1, r.2.after o) := by
  simp only [coeffAbsLevelRemaining, LevelSt.after, LevelSt.note, List.append_assoc]
  cases prefixLoop st.riceParam 32 0 st.cabac st.bitstrm with
  | none => rfl
  | some r =>
    dsimp only
    split
    · split <;> rfl
    · split <;> rfl

theorem updateStats_after (b : Subblk) (remaining : Nat) (o : List LevelOp) (st : LevelSt) :
    updateStats b remaining (st.after o) = (updateStats b remaining st).after o := by
  simp only [updateStats, LevelSt.after, LevelSt.note, List.append_assoc]
  split
  · split
    · rfl
    · split <;> rfl
  · rfl

theorem updateRice_after (b : Subblk) (baseLvl : Nat) (o : List LevelOp) (st : LevelSt) :
    updateRice b baseLvl (st.after o) = (updateRice b baseLvl st).after o := by
  by_cases hlt : 3 <<< st.riceParam < baseLvl
  · by_cases hflag : b.i1PersistentRiceAdaptationEnabledFlag = true
    · simp [updateRice, LevelSt.after, LevelSt.note, hlt, hflag]
    · simp [updateRice, LevelSt.after, LevelSt.note, hlt, hflag]
  · simp [updateRice, LevelSt.after, LevelSt.note, hlt]

theorem storeLevel_after (b : Subblk) (n : Int) (baseLvl : Nat) (o : List LevelOp) (st : LevelSt) :
    storeLevel b n baseLvl (st.after o) = (storeLevel b n baseLvl st).after o := by
  simp only [storeLevel, LevelSt.after, LevelSt.note, List.append_assoc]
  rfl

theorem levelStep_after (b : Subblk) (n : Int) (o : List LevelOp) (st : LevelSt) :
    levelStep b n (st.after o) = (levelStep b n st).map (LevelSt.after o) := by
  unfold levelStep
  dsimp only
  rw [LevelSt.after_note, coeffAbsLevelRemaining_after]
  have hnum : ((st.note [.shift n]).after o).numSigCoeff = (st.note [.shift n]).numSigCoeff := rfl
  rw [hnum]
  generalize 1 + ((b.u4CoeffAbsLevelGreater1Map >>> n.toNat) &&& 1) +
    ((b.u4CoeffAbsLevelGreater2Map >>> n.toNat) &&& 1) = baseLvl
  by_cases hcoded : baseLvl = (if (st.note [.shift n]).numSigCoeff < 8 then
      (if n = b.firstGreater1ScanPos then 3 else 2) else 1)
  · rw [if_pos hcoded, if_pos hcoded]
    cases coeffAbsLevelRemaining (st.note [.shift n]) with
    | none => rfl
    | some r =>
      simp only [Option.map_some, LevelSt.after_note, updateStats_after, updateRice_after,
        storeLevel_after]
  · rw [if_neg hcoded, if_neg hcoded, updateRice_after, storeLevel_after]
    rfl

theorem levelLoop_after (b : Subblk) (o : List LevelOp) : ∀ fuel n shift st,
    levelLoop b fuel n shift (st.after o) = (levelLoop b fuel n shift st).map (LevelSt.after o) := by
  intro fuel
  induction fuel with
  | zero => exact fun _ _ _ => rfl
  | succ fuel ih =>
    intro n shift st
    have hstep : (if (shift >>> 31) &&& 1 = 1 then levelStep b n (st.after o)
        else some (st.after o)) =
        (if (shift >>> 31) &&& 1 = 1 then levelStep b n st else some st).map (LevelSt.after o) := by
      split
      · exact levelStep_after b n o st
      · rfl
    rw [levelLoop, levelLoop, hstep]
    cases (if (shift >>> 31) &&& 1 = 1 then levelStep b n st else some st) with
    | none => rfl
    | some st =>
      simp only [Option.map_some, LevelSt.after_note, ih]
      split <;> rfl

/-- The levels of a sub-block do not depend on what was done before it. -/
theorem parseLevels_ops (b : Subblk) (x : ResidualSt) :
    (parseLevels b x).map ResidualSt.ops =
      (parseLevels b { x with ops := [] }).map fun x' => x.ops ++ x'.ops := by
  have hstart : ∀ o : List LevelOp, ({ cabac := x.cabac
                                       bitstrm := x.bitstrm
                                       ai4RiceStatCoeff := x.ai4RiceStatCoeff
                                       i1UpdateStats := b.i1PersistentRiceAdaptationEnabledFlag
                                       riceParam := if b.i1PersistentRiceAdaptationEnabledFlag then
                                         x.ai4RiceStatCoeff b.sbType / 4 else 0
                                       numSigCoeff := 0
                                       sumAbsLevel := 0
                                       u4CoeffSignMap := b.u4CoeffSignMap
                                       ai2Level := []
                                       ops := x.ops ++ o } : LevelSt) = LevelSt.after x.ops
      { cabac := x.cabac
        bitstrm := x.bitstrm
        ai4RiceStatCoeff := x.ai4RiceStatCoeff
        i1UpdateStats := b.i1PersistentRiceAdaptationEnabledFlag
        riceParam := if b.i1PersistentRiceAdaptationEnabledFlag then
          x.ai4RiceStatCoeff b.sbType / 4 else 0
        numSigCoeff := 0
        sumAbsLevel := 0
        u4CoeffSignMap := b.u4CoeffSignMap
        ai2Level := []
        ops := o } := fun _ => rfl
  unfold parseLevels
  dsimp only
  rw [hstart, levelLoop_after, Option.map_map, Option.map_map, Option.map_map]
  rfl

theorem ResidualSt.run_append (x : ResidualSt) (l l' : List ResidualEvent) :
    x.run (l ++ l') = (x.run l).bind fun x => x.run l' := by
  induction l generalizing x with
  | nil => rfl
  | cons e l ih =>
    rw [List.cons_append, ResidualSt.run, ResidualSt.run]
    cases x.step e with
    | none => rfl
    | some x => exact ih x

/-- A sub-block with one level, of which a part is left to parse. -/
def oneLevel : Subblk :=
  { i1PersistentRiceAdaptationEnabledFlag := true
    cIdx := 0
    transformSkipFlag := false
    i4CuTransquantBypass := false
    u4SigCoeffMap := 1
    u4CoeffAbsLevelGreater1Map := 1
    u4CoeffAbsLevelGreater2Map := 1
    firstGreater1ScanPos := 0
    firstSigScanPos := 0
    u4CoeffSignMap := 0
    signHidden := false
    map_pos := by decide
    map_lt := by decide }

/-- The same with sixteen levels. -/
def sixteenLevels : Subblk :=
  { oneLevel with
    u4SigCoeffMap := 0xffff
    u4CoeffAbsLevelGreater1Map := 0xff00
    u4CoeffAbsLevelGreater2Map := 0x8000
    firstGreater1ScanPos := 15
    map_pos := by decide
    map_lt := by decide }

/-- The decoder at the start of a stream whose bypass bins are all ones. -/
def onesEngine : CabCtxt × Bitstrm :=
  (ihevcdCabacInit (ihevcdBitsInit (fun i => if i = 0 then 254 else 255) 4096) fun _ => 0).2

/-- In a block of 37 sub-blocks whose bypass bins are ones, the ninth level of the last one is read
with a suffix of 17 bins at once. -/
theorem escapeLevels_group_of_17 :
    ¬∀ c s evs x, (ResidualSt.start c s).run evs = some x → ∀ op ∈ x.ops, op.Safe := by
  have hany : (((ResidualSt.start onesEngine.1 onesEngine.2).run
      (.init :: List.replicate 36 (.subblk oneLevel))).bind fun x =>
        parseLevels sixteenLevels { x with ops := [] }).any
        (fun x => decide (.group 17 ∈ x.ops)) = true := by decide +kernel
  intro hall
  cases hrun : (ResidualSt.start onesEngine.1 onesEngine.2).run
      (.init :: List.replicate 36 (.subblk oneLevel)) with
  | none =>
    rw [hrun] at hany
    nomatch hany
  | some x =>
    rw [hrun, Option.bind_some] at hany
    have hops := parseLevels_ops sixteenLevels x
    cases hlast : parseLevels sixteenLevels { x with ops := [] } with
    | none =>
      rw [hlast] at hany
      nomatch hany
    | some x' =>
      rw [hlast] at hany hops
      obtain ⟨x'', hparse, hops⟩ := Option.map_eq_some_iff.mp hops
      have hrun' : (ResidualSt.start onesEngine.1 onesEngine.2).run
          (.init :: List.replicate 36 (.subblk oneLevel) ++ [.subblk sixteenLevels]) = some x'' := by
        rw [ResidualSt.run_append, hrun, Option.bind_some, ResidualSt.run, ResidualSt.step, hparse]
        rfl
      have hmem : .group 17 ∈ x''.ops :=
        hops ▸ List.mem_append_right x.ops (of_decide_eq_true hany)
      exact absurd (hall _ _ _ x'' hrun' _ hmem).2 (by decide)

end Libhevc.Decoder
