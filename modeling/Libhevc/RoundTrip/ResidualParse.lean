import Libhevc.Common.IntraRefSubstLaws
import Libhevc.RoundTrip.ResidualSyntax
import Libhevc.RoundTrip.Bins

/-!
# Parsing a sub-block

The parser reads the bins of a sub-block back, in the configuration of the encoder:
without transform skip and without the range extensions.
-/

namespace Libhevc.RoundTrip

open Reader Encoder Decoder

-- ---------------------------------------------------------------------------
-- The loop over the ones of a map
-- ---------------------------------------------------------------------------

/-- The body at each position, until it says that the loop ends. -/
def visitOnes (body : Nat → σ → BinReader ρ (Bool × σ)) : List Nat → σ → BinReader ρ σ
  | [], st => pure st
  | n :: l, st => do
    let r ← body n st
    if r.1 then visitOnes body l r.2 else pure r.2

theorem log2_mod_testBit (h : m.testBit n) : Nat.log2 (m % 2 ^ (n + 1)) = n := by
  rw [mod_pow_testBit, h, Bool.toNat_true, Nat.mul_one]
  have hlt := Nat.mod_lt m (Nat.two_pow_pos n)
  refine (Nat.log2_eq_iff (by have := Nat.two_pow_pos n; omega)).mpr ⟨by omega, ?_⟩
  rw [pow_succ]
  omega

theorem mod_pow_clear (h : m.testBit n = false) : m % 2 ^ (n + 1) = m % 2 ^ n := by
  rw [mod_pow_testBit, h]
  rfl

/-- The positions begin with the top one. -/
theorem sigBelow_top (h : m % 2 ^ n ≠ 0) :
    m.testBit (Nat.log2 (m % 2 ^ n)) ∧ Nat.log2 (m % 2 ^ n) < n ∧
      m % 2 ^ n = m % 2 ^ (Nat.log2 (m % 2 ^ n) + 1) ∧
      sigBelow m n = sigBelow m (Nat.log2 (m % 2 ^ n) + 1) := by
  induction n with
  | zero =>
    rw [pow_zero, Nat.mod_one] at h
    exact absurd rfl h
  | succ n ih =>
    cases hbit : m.testBit n with
    | true =>
      rw [log2_mod_testBit hbit]
      exact ⟨hbit, Nat.lt_succ_self n, rfl, rfl⟩
    | false =>
      rw [mod_pow_clear hbit] at h ⊢
      obtain ⟨htop, hlt, hmod, hbelow⟩ := ih h
      refine ⟨htop, Nat.lt_succ_of_lt hlt, hmod, ?_⟩
      rw [sigBelow, hbit]
      exact hbelow

theorem clz_mul_pow (hx : x ≠ 0) (hlt : x < 2 ^ n) (hn : n ≤ 32) :
    clz (x * 2 ^ (32 - n)) = n - 1 - Nat.log2 x := by
  have hlog : Nat.log2 x < n := (Nat.log2_lt hx).mpr hlt
  have hlow := Nat.log2_self_le hx
  have hhigh : x < 2 ^ (Nat.log2 x + 1) := Nat.lt_log2_self
  have hpow : Nat.log2 (x * 2 ^ (32 - n)) = Nat.log2 x + (32 - n) := by
    refine (Nat.log2_eq_iff (Nat.mul_ne_zero hx (Nat.two_pow_pos _).ne')).mpr ⟨?_, ?_⟩
    · rw [pow_add]
      exact Nat.mul_le_mul_right _ hlow
    · rw [Nat.add_right_comm, pow_add]
      exact Nat.mul_lt_mul_of_pos_right hhigh (Nat.two_pow_pos _)
  unfold clz
  rw [if_neg (Nat.mul_ne_zero hx (Nat.two_pow_pos _).ne'), hpow]
  omega

theorem top_bit (hbit : m.testBit n) (hn : n < 32) :
    (m % 2 ^ (n + 1) * 2 ^ (31 - n)) >>> 31 &&& 1 = 1 ∧
      u32 ((m % 2 ^ (n + 1) * 2 ^ (31 - n)) <<< 1) = m % 2 ^ n * 2 ^ (32 - n) := by
  have hlt := Nat.mod_lt m (Nat.two_pow_pos n)
  have hsplit : m % 2 ^ (n + 1) * 2 ^ (31 - n) = m % 2 ^ n * 2 ^ (31 - n) + 2 ^ 31 := by
    rw [mod_pow_testBit, hbit, Bool.toNat_true, Nat.mul_one, Nat.add_mul, ← pow_add]
    congr 2
    omega
  have hlow : m % 2 ^ n * 2 ^ (31 - n) < 2 ^ 31 := by
    calc m % 2 ^ n * 2 ^ (31 - n) < 2 ^ n * 2 ^ (31 - n) :=
          Nat.mul_lt_mul_of_pos_right hlt (Nat.two_pow_pos _)
      _ = 2 ^ 31 := by rw [← pow_add]; congr 1; omega
  have hexp : m % 2 ^ n * 2 ^ (32 - n) = m % 2 ^ n * 2 ^ (31 - n) * 2 := by
    rw [show 32 - n = 31 - n + 1 by omega, pow_succ, Nat.mul_assoc]
  rw [hsplit, hexp]
  constructor
  · rw [Nat.shiftRight_eq_div_pow, Nat.and_one_is_mod]
    omega
  · rw [Nat.shiftLeft_eq, u32]
    omega

/-- With the top one of the map in bit 31, the loop goes through the positions. -/
theorem onesLoop_visits (body : Nat → σ → BinReader ρ (Bool × σ)) :
    ∀ n < 32, ∀ fuel, n < fuel → m.testBit n → ∀ st,
      onesLoop body fuel (n : Int) (m % 2 ^ (n + 1) * 2 ^ (31 - n)) st
        = visitOnes body (sigBelow m (n + 1)) st := by
  intro n
  induction n using Nat.strongRecOn with
  | ind n ih =>
    intro hn fuel hfuel hbit st
    obtain ⟨fuel, rfl⟩ : ∃ f, fuel = f + 1 := ⟨fuel - 1, by omega⟩
    obtain ⟨htop, hnext⟩ := top_bit hbit hn
    rw [onesLoop, if_pos htop, sigBelow, if_pos hbit, visitOnes, Int.toNat_natCast]
    refine bind_congr fun r => ?_
    dsimp only
    rw [hnext]
    cases r.1 with
    | false => rfl
    | true =>
      rw [if_pos rfl, if_pos rfl]
      by_cases hzero : m % 2 ^ n = 0
      · rw [if_pos (by rw [hzero, Nat.zero_mul, Nat.zero_shiftLeft]; rfl), sigBelow_eq_nil hzero]
        rfl
      · obtain ⟨hbit', hlt, hmod, hbelow⟩ := sigBelow_top hzero
        have hshift : u32 ((m % 2 ^ n * 2 ^ (32 - n)) <<< clz (m % 2 ^ n * 2 ^ (32 - n)))
            = m % 2 ^ n * 2 ^ (31 - Nat.log2 (m % 2 ^ n)) := by
          have hbound : m % 2 ^ n * 2 ^ (31 - Nat.log2 (m % 2 ^ n)) < 2 ^ 32 := by
            calc m % 2 ^ n * 2 ^ (31 - Nat.log2 (m % 2 ^ n))
                < 2 ^ (Nat.log2 (m % 2 ^ n) + 1) * 2 ^ (31 - Nat.log2 (m % 2 ^ n)) :=
                  Nat.mul_lt_mul_of_pos_right Nat.lt_log2_self (Nat.two_pow_pos _)
              _ = 2 ^ 32 := by rw [← pow_add]; congr 1; omega
          rw [clz_mul_pow hzero (Nat.mod_lt m (Nat.two_pow_pos n)) (by omega), Nat.shiftLeft_eq,
            Nat.mul_assoc, ← pow_add, show 32 - n + (n - 1 - Nat.log2 (m % 2 ^ n))
              = 31 - Nat.log2 (m % 2 ^ n) by omega]
          exact u32_of_lt hbound
        have hpos : (n : Int) - 1 - (clz (m % 2 ^ n * 2 ^ (32 - n)) : Nat)
            = (Nat.log2 (m % 2 ^ n) : Nat) := by
          rw [clz_mul_pow hzero (Nat.mod_lt m (Nat.two_pow_pos n)) (by omega)]
          omega
        rw [hshift, hpos, if_neg (Nat.mul_ne_zero hzero (Nat.two_pow_pos _).ne'), hbelow]
        have hrest := ih _ hlt (by omega) fuel (by omega) hbit' r.2
        rwa [← hmod] at hrest

theorem overMap_visits (body : Nat → σ → BinReader ρ (Bool × σ)) (hpos : 0 < m)
    (hlt : m < 2 ^ 16) (st : σ) :
    overMap body m st = visitOnes body (sigPositions m) st := by
  have hmod : m % 2 ^ 16 = m := Nat.mod_eq_of_lt hlt
  obtain ⟨hbit, hlog, hself, hbelow⟩ := sigBelow_top (m := m) (n := 16) (by omega)
  rw [hmod] at hbit hlog hself hbelow
  have hclz : clz m = 31 - Nat.log2 m := by
    unfold clz
    rw [if_neg (by omega)]
  have hshift : u32 (m <<< clz m) = m % 2 ^ (Nat.log2 m + 1) * 2 ^ (31 - Nat.log2 m) := by
    have hbound : m * 2 ^ (31 - Nat.log2 m) < 2 ^ 32 := by
      calc m * 2 ^ (31 - Nat.log2 m) < 2 ^ (Nat.log2 m + 1) * 2 ^ (31 - Nat.log2 m) :=
            Nat.mul_lt_mul_of_pos_right Nat.lt_log2_self (Nat.two_pow_pos _)
        _ = 2 ^ 32 := by rw [← pow_add]; congr 1; omega
    rw [← hself, hclz, Nat.shiftLeft_eq]
    exact u32_of_lt hbound
  have hstart : (31 : Int) - (clz m : Nat) = (Nat.log2 m : Nat) := by
    rw [hclz]
    omega
  unfold overMap
  dsimp only
  rw [hshift, hstart, onesLoop_visits body _ (by omega) 32 (by omega) hbit st]
  exact congrArg (visitOnes body · st) hbelow.symm

-- ---------------------------------------------------------------------------
-- The significance map
-- ---------------------------------------------------------------------------

/-- The configuration of the encoder, in which a block has no other flags. -/
structure PlainArgs (a : ResidualArgs) : Prop where
  low : 2 ≤ a.log2TrafoSize
  high : a.log2TrafoSize ≤ 5
  noBypass : a.i4CuTransquantBypass = false
  noSkip : a.i1TransformSkipEnabledFlag = false
  noPersistent : a.i1PersistentRiceAdaptationEnabledFlag = false

section
variable {a : ResidualArgs} (h : PlainArgs a)

/-- The context of a position. -/
def sigCtxtIdx (a : ResidualArgs) (i nbrCsbf base n : Nat) : Nat :=
  (a.sigCtxt false i nbrCsbf n base).1 + (a.sigCtxt false i nbrCsbf n base).2

include h

theorem sigCtxt_base (hn : 0 < n ∨ i ≠ 0) : (a.sigCtxt false i nbrCsbf n base).2 = base := by
  have hctxt : ¬ (a.i1TransformSkipContextEnabledFlag = true ∧
      (a.i4CuTransquantBypass = true ∨ false = true)) := by simp [h.noBypass]
  unfold ResidualArgs.sigCtxt
  rw [if_neg hctxt]
  split
  · rfl
  · rw [if_pos (by omega)]

omit h in
theorem or_bit_mod (x m n : Nat) :
    (x ||| (m.testBit n).toNat <<< n) ||| m % 2 ^ n = x ||| m % 2 ^ (n + 1) := by
  rw [Nat.or_assoc, mod_pow_testBit, ← Nat.shiftLeft_add_eq_or_of_lt (Nat.mod_lt _ (Nat.two_pow_pos n)),
    Nat.shiftLeft_eq, Nat.add_comm, Nat.mul_comm]

omit h in
theorem length_sigBelow_succ (m n : Nat) :
    (sigBelow m (n + 1)).length = (m.testBit n).toNat + (sigBelow m n).length := by
  rw [sigBelow]
  cases m.testBit n with
  | false => simp
  | true => simp [Nat.add_comm]

theorem sigCoeffLoop_reads (m i nbrCsbf base : Nat) : ∀ n (st : ResidualArgs.SigSt),
    (0 < n → st.sigCoeffBaseCtxt = base) → (st.inferSigCoeffFlag = true → m % 2 ^ n ≠ 0) →
      ∃ s, Reads (a.sigCoeffLoop false i nbrCsbf n st : BinReader ρ _)
          (sigBins (sigCtxtIdx a i nbrCsbf base) m n st.inferSigCoeffFlag) s ∧
        s.infer.u4SigCoeffMap = st.u4SigCoeffMap ||| m % 2 ^ n ∧
        s.infer.numCoeff = st.numCoeff + (sigBelow m n).length ∧
        (i ≠ 0 → s.infer.sigCoeffBaseCtxt = st.sigCoeffBaseCtxt) := by
  intro n
  induction n with
  | zero =>
    intro st _ hinfer
    have hflag : st.inferSigCoeffFlag = false := by
      cases hf : st.inferSigCoeffFlag with
      | false => rfl
      | true => exact absurd (by rw [pow_zero, Nat.mod_one]) (hinfer hf)
    have hsame : st.infer = st := by
      unfold ResidualArgs.SigSt.infer
      rw [hflag]
      rfl
    refine ⟨st, Reads.pure st, ?_, ?_, fun _ => ?_⟩
    · rw [hsame, pow_zero, Nat.mod_one, Nat.or_zero]
    · rw [hsame]
      rfl
    · rw [hsame]
  | succ n ih =>
    intro st hbase hinfer
    have hst := hbase (Nat.succ_pos n)
    by_cases hcoded : 0 < n ∨ ¬ st.inferSigCoeffFlag = true
    · obtain ⟨s, hreads, hmap, hnum, hkept⟩ := ih
        { u4SigCoeffMap := st.u4SigCoeffMap ||| (m.testBit n).toNat <<< n
          numCoeff := st.numCoeff + (m.testBit n).toNat
          inferSigCoeffFlag := if m.testBit n then false else st.inferSigCoeffFlag
          sigCoeffBaseCtxt := (a.sigCtxt false i nbrCsbf n st.sigCoeffBaseCtxt).2 }
        (fun hn => by rw [hst]; exact sigCtxt_base h (Or.inl hn)) (fun hf => by
          cases hbit : m.testBit n with
          | true => rw [hbit] at hf; exact absurd hf (by simp)
          | false =>
            rw [hbit] at hf
            rw [← mod_pow_clear hbit]
            exact hinfer (by simpa using hf))
      have hflag : (if m.testBit n then false else st.inferSigCoeffFlag)
          = (st.inferSigCoeffFlag && !m.testBit n) := by
        cases m.testBit n <;> simp
      refine ⟨s, ?_, ?_, ?_, fun hi => ?_⟩
      · rw [ResidualArgs.sigCoeffLoop, if_pos hcoded, sigBins, if_pos hcoded]
        rw [hflag] at hreads
        refine Reads.bind (a := m.testBit n) ?_ (by rw [hflag]; exact hreads)
        rw [← hst]
        exact decodeBin_reads _ _
      · rw [hmap]
        exact or_bit_mod _ _ _
      · rw [hnum, length_sigBelow_succ, Nat.add_assoc]
      · rw [hkept hi]
        exact (sigCtxt_base h (Or.inr hi)).trans rfl
    · have hn : n = 0 := by omega
      have hflag : st.inferSigCoeffFlag = true := by
        by_contra hf
        exact hcoded (Or.inr hf)
      subst hn
      have hbit : m % 2 ^ (0 + 1) = 1 := by
        have hne := hinfer hflag
        rw [zero_add, pow_one] at hne ⊢
        omega
      have htest : m.testBit 0 = true := by
        rw [Nat.testBit_zero]
        rw [zero_add, pow_one] at hbit
        exact decide_eq_true hbit
      have hadd : st.infer = { st with
          u4SigCoeffMap := st.u4SigCoeffMap ||| 1
          numCoeff := st.numCoeff + 1 } := by
        unfold ResidualArgs.SigSt.infer
        rw [if_pos hflag]
      refine ⟨st, ?_, ?_, ?_, fun _ => ?_⟩
      · rw [ResidualArgs.sigCoeffLoop, if_neg hcoded, sigBins, if_neg hcoded]
        exact Reads.pure st
      · rw [hadd, hbit]
      · rw [hadd, length_sigBelow_succ, htest]
        rfl
      · rw [hadd]

end

-- ---------------------------------------------------------------------------
-- The flags of the levels
-- ---------------------------------------------------------------------------

/-- The map of the levels above 1, from a list of positions with their levels. -/
def aboveMap : List (Nat × Int) → Nat → Nat
  | [], map1 => map1
  | e :: l, map1 => aboveMap l (map1 ||| (aboveOne e.2).toNat <<< e.1)

/-- The ninth coefficient ends the loop without a flag. -/
theorem visit_greater1_reads (a : ResidualArgs) (ctxtSet : Nat) (l : List (Nat × Int))
    (st : ResidualArgs.Greater1St) (hnum : st.numGreater1Flag ≤ 8) :
    Reads (visitOnes (a.greater1Body ctxtSet) (l.map Prod.fst) st : BinReader ρ _)
      (greater1Bins (ctxtSet * 4 + a.absGt1BaseCtxt)
        ((l.map Prod.snd).take (8 - st.numGreater1Flag)) st.gt1Ctxt)
      { numGreater1Flag := min 8 (st.numGreater1Flag + l.length)
        gt1Ctxt := gt1CtxtAfter ((l.map Prod.snd).take (8 - st.numGreater1Flag)) st.gt1Ctxt
        u4CoeffAbsLevelGreater1Map :=
          aboveMap (l.take (8 - st.numGreater1Flag)) st.u4CoeffAbsLevelGreater1Map } := by
  induction l generalizing st with
  | nil =>
    rw [List.map_nil, List.map_nil, List.take_nil, List.take_nil, visitOnes]
    refine Reads.pure_of_eq ?_
    rw [List.length_nil, Nat.add_zero, Nat.min_eq_right hnum]
    rfl
  | cons e l ih =>
    rw [List.map_cons, List.map_cons, visitOnes, ResidualArgs.greater1Body]
    by_cases hlt : st.numGreater1Flag < 8
    · obtain ⟨k, hk⟩ : ∃ k, 8 - st.numGreater1Flag = k + 1 := ⟨7 - st.numGreater1Flag, by omega⟩
      have hk' : 8 - (st.numGreater1Flag + 1) = k := by omega
      have hrest := ih
        { numGreater1Flag := st.numGreater1Flag + 1
          gt1Ctxt := ResidualArgs.nextGt1Ctxt st.gt1Ctxt (aboveOne e.2)
          u4CoeffAbsLevelGreater1Map :=
            st.u4CoeffAbsLevelGreater1Map ||| (aboveOne e.2).toNat <<< e.1 } hlt
      dsimp only at hrest
      rw [hk'] at hrest
      have hcount : st.numGreater1Flag + 1 + l.length = st.numGreater1Flag + (e :: l).length := by
        rw [List.length_cons]
        omega
      rw [hcount] at hrest
      rw [if_pos hlt, hk, List.take_succ_cons, List.take_succ_cons, greater1Bins, bind_assoc]
      refine (decodeBin_reads _ (aboveOne e.2)).bind (Reads.nil_bind (Reads.pure _) ?_)
      rw [if_pos rfl]
      exact hrest
    · have hzero : 8 - st.numGreater1Flag = 0 := by omega
      rw [if_neg hlt, hzero, List.take_zero, List.take_zero]
      refine Reads.nil_bind (Reads.pure _) (Reads.pure_of_eq ?_)
      have hmin : min 8 (st.numGreater1Flag + (e :: l).length) = st.numGreater1Flag := by
        rw [List.length_cons]
        omega
      rw [hmin]
      rfl

theorem aboveMap_testBit (l : List (Nat × Int)) (map1 n : Nat) :
    (aboveMap l map1).testBit n = (map1.testBit n || l.any fun e => decide (e.1 = n) && aboveOne e.2) := by
  induction l generalizing map1 with
  | nil => simp [aboveMap]
  | cons e l ih =>
    have hbit : ((aboveOne e.2).toNat <<< e.1).testBit n = (decide (e.1 = n) && aboveOne e.2) := by
      cases aboveOne e.2 with
      | false => simp
      | true =>
        rw [Bool.toNat_true, Nat.one_shiftLeft, Nat.testBit_two_pow, Bool.and_true]
    rw [aboveMap, ih, Nat.testBit_or, hbit, List.any_cons, Bool.or_assoc]

/-- The position of the first level above 1, and whether it is above 2. -/
def firstAbove (l : List (Nat × Int)) : Option (Nat × Int) := l.find? fun e => aboveOne e.2

theorem aboveMap_eq_zero (l : List (Nat × Int)) : aboveMap l 0 = 0 ↔ firstAbove l = none := by
  unfold firstAbove
  rw [List.find?_eq_none]
  constructor
  · intro h e he habove
    have hbit := aboveMap_testBit l 0 e.1
    rw [h, Nat.zero_testBit, Bool.false_or] at hbit
    have hany : (l.any fun e' => decide (e'.1 = e.1) && aboveOne e'.2) = true :=
      List.any_eq_true.mpr ⟨e, he, by simpa using habove⟩
    rw [hany] at hbit
    exact absurd hbit (by simp)
  · intro h
    refine Nat.eq_of_testBit_eq fun n => ?_
    rw [aboveMap_testBit, Nat.zero_testBit, Bool.false_or, List.any_eq_false]
    intro e he habove
    exact h e he (by simpa using (Bool.and_eq_true_iff.mp habove).2)

/-- In a list of falling positions the first level above 1 is the top one of the map. -/
theorem log2_aboveMap (hsorted : l.Pairwise fun e e' => e'.1 < e.1) (hfirst : firstAbove l = some p) :
    Nat.log2 (aboveMap l 0) = p.1 := by
  obtain ⟨habove, front, back, rfl, hfront⟩ := List.find?_eq_some_iff_append.mp hfirst
  have hbit : (aboveMap (front ++ p :: back) 0).testBit p.1 = true := by
    rw [aboveMap_testBit, Bool.or_eq_true_iff]
    refine Or.inr (List.any_eq_true.mpr ⟨p, by simp, ?_⟩)
    rw [decide_eq_true rfl, habove]
    rfl
  have hhigh : ∀ n, p.1 < n → (aboveMap (front ++ p :: back) 0).testBit n = false := by
    intro n hn
    rw [aboveMap_testBit, Nat.zero_testBit, Bool.false_or, List.any_eq_false]
    intro e he hboth
    obtain ⟨hpos, hab⟩ := Bool.and_eq_true_iff.mp hboth
    obtain rfl := of_decide_eq_true hpos
    rw [List.mem_append, List.mem_cons] at he
    rcases he with he | rfl | he
    · have hnot := hfront e he
      rw [hab] at hnot
      exact absurd hnot (by simp)
    · exact absurd hn (Nat.lt_irrefl _)
    · have hlt := (List.pairwise_cons.mp (List.pairwise_append.mp hsorted).2.1).1 e he
      omega
  have hne : aboveMap (front ++ p :: back) 0 ≠ 0 := fun hz => by
    rw [hz, Nat.zero_testBit] at hbit
    exact absurd hbit (by simp)
  refine (Nat.log2_eq_iff hne).mpr ⟨Nat.ge_two_pow_of_testBit hbit, ?_⟩
  refine Nat.lt_pow_two_of_testBit _ fun n hn => hhigh n hn

/-- The sign word, from the flags that are left. -/
def signWord (flags : List Bool) : Nat := u32 (shiftIn 0 flags <<< (32 - flags.length))

theorem signWord_nil : signWord [] = 0 := rfl

theorem signWord_cons (b : Bool) (flags : List Bool) (hlen : flags.length < 32) :
    decide ((signWord (b :: flags)) >>> 31 &&& 1 = 1) = b ∧
      u32 (signWord (b :: flags) <<< 1) = signWord flags := by
  have hlt := shiftIn_lt flags
  have hword : shiftIn 0 (b :: flags) = b.toNat * 2 ^ flags.length + shiftIn 0 flags := by
    show shiftIn (0 <<< 1 ||| b.toNat) flags = _
    rw [shiftIn_one, Nat.mul_zero, Nat.zero_add, shiftIn_eq]
  have hexp : 32 - flags.length = 31 - flags.length + 1 := by omega
  have htop : 2 ^ flags.length * 2 ^ (31 - flags.length) = 2 ^ 31 := by
    rw [← pow_add]
    congr 1
    omega
  have hlow : shiftIn 0 flags * 2 ^ (31 - flags.length) < 2 ^ 31 :=
    htop ▸ Nat.mul_lt_mul_of_pos_right hlt (Nat.two_pow_pos _)
  have hvalue : signWord (b :: flags)
      = b.toNat * 2 ^ 31 + shiftIn 0 flags * 2 ^ (31 - flags.length) := by
    unfold signWord
    rw [hword, List.length_cons, show 32 - (flags.length + 1) = 31 - flags.length by omega,
      Nat.shiftLeft_eq, Nat.add_mul, Nat.mul_assoc, htop]
    refine u32_of_lt ?_
    cases b <;> simp <;> omega
  have hnext : signWord flags = shiftIn 0 flags * 2 ^ (31 - flags.length) * 2 := by
    unfold signWord
    rw [Nat.shiftLeft_eq, hexp, pow_succ, ← Nat.mul_assoc]
    exact u32_of_lt (by omega)
  rw [hvalue, hnext]
  constructor
  · rw [Nat.shiftRight_eq_div_pow, Nat.and_one_is_mod]
    cases b with
    | false => simp; omega
    | true => simp; omega
  · rw [Nat.shiftLeft_eq, u32]
    cases b with
    | false => simp; omega
    | true => simp; omega

theorem parseSigns_reads (flags : List Bool) :
    Reads (ResidualArgs.parseSigns flags.length : BinReader ρ Nat) (flags.map .bypass)
      (signWord flags) := by
  have hreads := bypassBins_reads_lt (ρ := ρ) (shiftIn_lt flags)
  rw [bypassBins_shiftIn] at hreads
  exact hreads.bind_nil (Reads.pure _)

-- ---------------------------------------------------------------------------
-- The remaining part of a level
-- ---------------------------------------------------------------------------

theorem remainingPrefix_reads (riceParam fuel q p : Nat) (hfuel : q < fuel)
    (hlimit : p + q + 1 + riceParam ≤ 19) :
    Reads (ResidualArgs.remainingPrefix riceParam fuel p : BinReader ρ Nat)
      (List.replicate q (.bypass true) ++ [.bypass false]) (p + q + 1) := by
  induction q generalizing p fuel with
  | zero =>
    obtain ⟨fuel, rfl⟩ : ∃ f, fuel = f + 1 := ⟨fuel - 1, by omega⟩
    rw [ResidualArgs.remainingPrefix]
    refine (decodeBypassBin_reads false).bind_nil ?_
    split
    · exact Reads.pure _
    · exact Reads.pure _
  | succ q ih =>
    obtain ⟨fuel, rfl⟩ : ∃ f, fuel = f + 1 := ⟨fuel - 1, by omega⟩
    have hgo : ¬ (((p + 1 : Nat) : Int) = 19 - riceParam) := by omega
    have hrest := ih fuel (p + 1) (by omega) (by omega)
    rw [show p + 1 + q + 1 = p + (q + 1) + 1 by omega] at hrest
    rw [ResidualArgs.remainingPrefix, List.replicate_succ]
    refine (decodeBypassBin_reads true).bind ?_
    rw [if_neg hgo, if_pos rfl]
    exact hrest

/-- The suffix of a level without bins is not read. -/
theorem suffix_reads (n v w : Nat) (hv : v < 2 ^ n) :
    Reads (if n = 0 then pure w else do
        let u4Suffix ← decodeBypassBins n 0
        pure (w + u4Suffix) : BinReader ρ Nat)
      (bypassBins v n) (w + v) := by
  by_cases hn : n = 0
  · subst hn
    rw [pow_zero] at hv
    rw [if_pos rfl]
    exact Reads.pure_of_eq (by omega)
  · rw [if_neg hn]
    exact (bypassBins_reads_lt hv).bind_nil (Reads.pure _)

/-- A level of 16 bits is below the limit of the prefix. -/
theorem coeffAbsLevelRemaining_reads (hrice : riceParam ≤ 4) (hv : v < 2 ^ 15) :
    Reads (ResidualArgs.coeffAbsLevelRemaining riceParam : BinReader ρ Nat)
      (ResidueArgs.encodeAbsCoeffRem v riceParam) v := by
  unfold ResidueArgs.encodeAbsCoeffRem
  dsimp only
  split
  · rename_i hbig
    -- four ones, and the code of order `riceParam + 1`
    have hself : 2 ^ Nat.log2 (((v - 4 <<< riceParam) >>> (riceParam + 1)) + 1) ≤
        ((v - 4 <<< riceParam) >>> (riceParam + 1)) + 1 := Nat.log2_self_le (Nat.succ_ne_zero _)
    obtain ⟨hbins, hle, hlt⟩ := egk_bins (ρ := ρ) (riceParam + 1) hself Nat.lt_log2_self
    clear hself
    generalize Nat.log2 (((v - 4 <<< riceParam) >>> (riceParam + 1)) + 1) = n at hbins hle hlt
    rw [Nat.shiftLeft_eq] at hbins hle hlt hbig
    have hdouble : 2 ^ (riceParam + 1) = 2 * 2 ^ riceParam := by rw [pow_succ, Nat.mul_comm]
    have hexp : riceParam + 1 + n < 15 := by
      refine (Nat.pow_lt_pow_iff_right Nat.one_lt_two).mp (lt_of_le_of_lt hle ?_)
      omega
    have hprefix := remainingPrefix_reads (ρ := ρ) riceParam 32 (n + 4) 0
      (by omega) (by omega)
    have hones : (bypassBins 0xF 4 : List (Bin ρ)) = List.replicate 4 (.bypass true) :=
      bypassBins_ones 4
    rw [Nat.shiftLeft_eq, hbins, hones, ← List.append_assoc, ← List.append_assoc,
      ← List.replicate_add, Nat.add_comm 4 n]
    unfold ResidualArgs.coeffAbsLevelRemaining
    refine hprefix.bind ?_
    have hsuffix := suffix_reads (ρ := ρ) (riceParam + 1 + n)
      (v - 4 * 2 ^ riceParam + 2 ^ (riceParam + 1) - 2 ^ (riceParam + 1 + n))
      (((1 <<< (n + 1)) + 3 - 1) <<< riceParam) hlt
    have hvalue : ((1 <<< (n + 1)) + 3 - 1) <<< riceParam +
        (v - 4 * 2 ^ riceParam + 2 ^ (riceParam + 1) - 2 ^ (riceParam + 1 + n)) = v := by
      have hpow : 2 ^ (n + 1) * 2 ^ riceParam = 2 ^ (riceParam + 1 + n) := by
        rw [← pow_add]
        congr 1
        omega
      rw [Nat.one_shiftLeft, Nat.shiftLeft_eq, Nat.add_sub_assoc (by decide), Nat.add_mul, hpow]
      omega
    rw [hvalue] at hsuffix
    have hcount : 0 + (n + 4) + 1 - 1 - 3 = n + 1 := by omega
    dsimp only
    rw [if_neg (by omega), hcount, show n + 1 + riceParam = riceParam + 1 + n by omega]
    exact hsuffix
  · rename_i hsmall
    rw [truncRice_bins]
    have hq : v >>> riceParam < 4 := by
      rw [Nat.shiftLeft_eq] at hsmall
      rw [Nat.shiftRight_eq_div_pow]
      exact Nat.div_lt_of_lt_mul (by rw [Nat.mul_comm]; omega)
    have hlow : v % 2 ^ riceParam < 2 ^ riceParam := Nat.mod_lt _ (Nat.two_pow_pos _)
    have hsplit : (v >>> riceParam) * 2 ^ riceParam + v % 2 ^ riceParam = v := by
      rw [Nat.shiftRight_eq_div_pow]
      exact Nat.div_add_mod' v _
    have hprefix := remainingPrefix_reads (ρ := ρ) riceParam 32
      (v >>> riceParam) 0 (by omega) (by omega)
    unfold ResidualArgs.coeffAbsLevelRemaining
    refine hprefix.bind ?_
    rw [Nat.zero_add, Nat.add_sub_cancel]
    have hsuffix := suffix_reads (ρ := ρ) riceParam (v % 2 ^ riceParam)
      ((v >>> riceParam) * 2 ^ riceParam) hlow
    rw [hsplit] at hsuffix
    by_cases hthree : v >>> riceParam < 3
    · rw [if_pos hthree]
      have hor : ∀ u, u < 2 ^ riceParam →
          (v >>> riceParam) <<< riceParam ||| u = (v >>> riceParam) * 2 ^ riceParam + u :=
        fun u hu => by rw [← Nat.shiftLeft_add_eq_or_of_lt hu, Nat.shiftLeft_eq]
      by_cases hzero : riceParam = 0
      · rw [if_pos hzero] at hsuffix ⊢
        rw [Nat.shiftLeft_eq]
        exact hsuffix
      · rw [if_neg hzero]
        refine (bypassBins_reads_lt hlow).bind_nil (Reads.pure_of_eq ?_)
        rw [hor _ hlow]
        exact hsplit
    · have hq3 : v >>> riceParam = 3 := by omega
      rw [if_neg hthree]
      dsimp only
      have hbase : (1 <<< 0 + 3 - 1) <<< riceParam = 3 * 2 ^ riceParam := Nat.shiftLeft_eq _ _
      rw [hq3, Nat.sub_self, Nat.zero_add, hbase]
      rw [hq3] at hsuffix
      exact hsuffix

-- ---------------------------------------------------------------------------
-- The levels
-- ---------------------------------------------------------------------------

/-- What the flags of a sub-block say of its levels: of those with a position and a number, the
first eight may be above 1, and the first one of these above 2. -/
structure FlagsOf (f : ResidualArgs.LevelFlags) (l : List (Nat × Int)) : Prop where
  map1 : ∀ n, f.u4CoeffAbsLevelGreater1Map.testBit n =
    (l.take 8).any fun e => decide (e.1 = n) && aboveOne e.2
  map2 : ∀ n, f.u4CoeffAbsLevelGreater2Map.testBit n =
    (firstAbove (l.take 8)).any fun e => decide (e.1 = n) && decide (2 < e.2.natAbs)
  first : ∀ e, firstAbove (l.take 8) = some e → f.firstGreater1ScanPos = e.1
  noFirst : firstAbove (l.take 8) = none → f.firstGreater1ScanPos = -1

theorem shiftRight_and_one (x n : Nat) : x >>> n &&& 1 = (x.testBit n).toNat := by
  rw [Nat.shiftRight_eq_div_pow, Nat.and_one_is_mod, Nat.toNat_testBit]

section
variable {f : ResidualArgs.LevelFlags} {front back : List (Nat × Int)} {e : Nat × Int}

/-- The flags of one level. -/
theorem FlagsOf.level (hf : FlagsOf f (front ++ e :: back))
    (hnodup : ((front ++ e :: back).map Prod.fst).Nodup) (hpos : e.2 ≠ 0) :
    let seen := (front.take 8).any fun e => aboveOne e.2
    let baseLvl := 1 + ((f.u4CoeffAbsLevelGreater1Map >>> e.1) &&& 1) +
      ((f.u4CoeffAbsLevelGreater2Map >>> e.1) &&& 1)
    let threshold := if front.length < 8 then
      (if (e.1 : Int) = f.firstGreater1ScanPos then 3 else 2) else 1
    (remainingBase front.length seen ≤ e.2.natAbs → baseLvl = threshold ∧
      baseLvl = remainingBase front.length seen) ∧
    (¬ remainingBase front.length seen ≤ e.2.natAbs → baseLvl ≠ threshold ∧
      baseLvl = e.2.natAbs) := by
  have hdistinct : ∀ e' ∈ front, e'.1 ≠ e.1 := by
    intro e' he' heq
    rw [List.map_append, List.map_cons, List.nodup_append] at hnodup
    exact hnodup.2.2 e'.1 (List.mem_map_of_mem he') e.1 List.mem_cons_self heq
  have hdistinct' : ∀ e' ∈ back, e'.1 ≠ e.1 := by
    intro e' he' heq
    rw [List.map_append, List.map_cons] at hnodup
    have hcons := (List.nodup_append.mp hnodup).2.1
    exact (List.nodup_cons.mp hcons).1 (heq ▸ List.mem_map_of_mem he')
  rw [shiftRight_and_one, shiftRight_and_one, hf.map1, hf.map2]
  unfold remainingBase
  by_cases hlt : front.length < 8
  · have htake : (front ++ e :: back).take 8 = front ++ e :: back.take (7 - front.length) := by
      rw [List.take_append, List.take_of_length_le (by omega),
        show 8 - front.length = 7 - front.length + 1 by omega, List.take_succ_cons]
    have hfront : front.take 8 = front := List.take_of_length_le (by omega)
    have hbit1 : ((front ++ e :: back.take (7 - front.length)).any
        fun e' => decide (e'.1 = e.1) && aboveOne e'.2) = aboveOne e.2 := by
      rw [List.any_append, List.any_cons]
      have h1 : (front.any fun e' => decide (e'.1 = e.1) && aboveOne e'.2) = false := by
        rw [List.any_eq_false]
        intro e' he' hand
        exact hdistinct e' he' (of_decide_eq_true (Bool.and_eq_true_iff.mp hand).1)
      have h2 : ((back.take (7 - front.length)).any
          fun e' => decide (e'.1 = e.1) && aboveOne e'.2) = false := by
        rw [List.any_eq_false]
        intro e' he' hand
        exact hdistinct' e' (List.mem_of_mem_take he')
          (of_decide_eq_true (Bool.and_eq_true_iff.mp hand).1)
      rw [h1, h2, decide_eq_true rfl]
      simp
    simp only [if_pos hlt, hfront]
    rw [htake, hbit1]
    cases hseen : front.any fun e => aboveOne e.2 with
    | true =>
      -- an earlier level was the first one above 1
      obtain ⟨p, hp⟩ : ∃ p, front.find? (fun e => aboveOne e.2) = some p := by
        obtain ⟨e', he', hab⟩ := List.any_eq_true.mp hseen
        exact Option.ne_none_iff_exists'.mp fun hnone =>
          (List.find?_eq_none.mp hnone) e' he' hab
      have hfirst : firstAbove (front ++ e :: back.take (7 - front.length)) = some p := by
        unfold firstAbove
        rw [List.find?_append, hp, Option.some_or]
      have hne : p.1 ≠ e.1 := hdistinct p (List.mem_of_find?_eq_some hp)
      have hscan := hf.first p (htake ▸ hfirst)
      have hnot : ¬ ((e.1 : Int) = f.firstGreater1ScanPos) := by
        rw [hscan]
        omega
      rw [hfirst, Option.any_some, decide_eq_false hne, Bool.false_and, if_neg hnot]
      simp only [if_true, Bool.toNat_false, Nat.add_zero]
      cases hab : aboveOne e.2 with
      | true =>
        have := of_decide_eq_true hab
        exact ⟨fun _ => ⟨rfl, rfl⟩, fun h => absurd (by omega) h⟩
      | false =>
        have := of_decide_eq_false hab
        exact ⟨fun h => absurd h (by omega), fun _ => ⟨by decide, by rw [Bool.toNat_false]; omega⟩⟩
    | false =>
      have hnone : front.find? (fun e => aboveOne e.2) = none :=
        List.find?_eq_none.mpr fun e' he' => by
          have := List.any_eq_false.mp hseen e' he'
          simpa using this
      cases hab : aboveOne e.2 with
      | true =>
        have hgt := of_decide_eq_true hab
        have hfirst : firstAbove (front ++ e :: back.take (7 - front.length)) = some e := by
          unfold firstAbove
          rw [List.find?_append, hnone, Option.none_or]
          exact List.find?_cons_of_pos (p := fun e : Nat × Int => aboveOne e.2) hab
        have hscan := hf.first e (htake ▸ hfirst)
        rw [hfirst, Option.any_some, decide_eq_true rfl, Bool.true_and, if_pos hscan.symm]
        simp only [Bool.false_eq_true, if_false, Bool.toNat_true]
        by_cases hthree : 2 < e.2.natAbs
        · rw [decide_eq_true hthree]
          exact ⟨fun _ => ⟨rfl, rfl⟩, fun h => absurd (by omega) h⟩
        · rw [decide_eq_false hthree]
          exact ⟨fun h => absurd h (by omega),
            fun _ => ⟨by decide, by rw [Bool.toNat_false]; omega⟩⟩
      | false =>
        have hle := of_decide_eq_false hab
        have hnot : ¬ ((e.1 : Int) = f.firstGreater1ScanPos) := by
          cases hfirst : firstAbove (front ++ e :: back.take (7 - front.length)) with
          | none =>
            rw [hf.noFirst (htake ▸ hfirst)]
            omega
          | some p =>
            rw [hf.first p (htake ▸ hfirst)]
            have hmem : p ∈ front ++ e :: back.take (7 - front.length) :=
              List.mem_of_find?_eq_some hfirst
            have hpab : aboveOne p.2 = true :=
              List.find?_some (p := fun e : Nat × Int => aboveOne e.2) hfirst
            rw [List.mem_append, List.mem_cons] at hmem
            rcases hmem with hp | rfl | hp
            · have := hdistinct p hp
              omega
            · rw [hab] at hpab
              exact absurd hpab (by simp)
            · have := hdistinct' p (List.mem_of_mem_take hp)
              omega
        have hbit2 : ((firstAbove (front ++ e :: back.take (7 - front.length))).any
            fun e' => decide (e'.1 = e.1) && decide (2 < e'.2.natAbs)) = false := by
          cases hfirst : firstAbove (front ++ e :: back.take (7 - front.length)) with
          | none => rfl
          | some p =>
            have hp := hf.first p (htake ▸ hfirst)
            rw [Option.any_some, decide_eq_false (by rw [hp] at hnot; omega), Bool.false_and]
        rw [hbit2, if_neg hnot]
        simp only [Bool.false_eq_true, if_false, Bool.toNat_false, Nat.add_zero]
        exact ⟨fun h => absurd h (by omega), fun _ => ⟨by decide, by omega⟩⟩
  · have htake : (front ++ e :: back).take 8 = front.take 8 := by
      rw [List.take_append, show 8 - front.length = 0 by omega, List.take_zero, List.append_nil]
    have hbit1 : ((front.take 8).any fun e' => decide (e'.1 = e.1) && aboveOne e'.2) = false := by
      rw [List.any_eq_false]
      intro e' he' hand
      exact hdistinct e' (List.mem_of_mem_take he')
        (of_decide_eq_true (Bool.and_eq_true_iff.mp hand).1)
    have hbit2 : ((firstAbove (front.take 8)).any
        fun e' => decide (e'.1 = e.1) && decide (2 < e'.2.natAbs)) = false := by
      cases hfirst : firstAbove (front.take 8) with
      | none => rfl
      | some p =>
        have hmem := List.mem_of_mem_take (List.mem_of_find?_eq_some hfirst)
        rw [Option.any_some, decide_eq_false (hdistinct p hmem), Bool.false_and]
    simp only [if_neg hlt]
    rw [htake, hbit1, hbit2]
    exact ⟨fun _ => ⟨rfl, rfl⟩, fun h => absurd (by omega) h⟩

end

/-- The levels before one, as the loop over the levels has left them. -/
structure LevelInv (hidden : Bool) (front : List (Nat × Int)) (back : List Bool) (riceParam : Nat)
    (stats : Nat → Nat) (st : ResidualArgs.LevelSt) : Prop where
  stats : st.ai4RiceStatCoeff = stats
  noUpdate : st.i1UpdateStats = false
  rice : st.riceParam = riceParam
  num : st.numSigCoeff = front.length
  sum : hidden = true → st.sumAbsLevel = (front.map fun e => e.2.natAbs).sum
  signs : st.u4CoeffSignMap = signWord back
  level : st.ai2Level = front.map Prod.snd

theorem i16_of_isWord16 {x : Int} (h : IsWord16 x) : i16 x = x := by
  obtain ⟨hlo, hhi⟩ := h
  unfold i16 wrapInt
  omega

theorem level_of_sign {e : Int} : (if negative e = true then -(e.natAbs : Int) else e.natAbs) = e := by
  unfold negative
  by_cases hneg : e < 0
  · rw [if_pos (decide_eq_true hneg)]
    omega
  · rw [if_neg (by simpa using hneg)]
    omega

section
variable {a : ResidualArgs} {f : ResidualArgs.LevelFlags} {stats : Nat → Nat}

/-- The store of a level; `back` are the sign flags behind it, and the last one may be hidden. -/
theorem storeLevel_inv {st : ResidualArgs.LevelSt} {e : Nat × Int} {front back : List (Nat × Int)}
    (hinv : LevelInv (a.i1SignDataHidingFlag && f.signHidden) front
      (signFlags (a.i1SignDataHidingFlag && f.signHidden) ((e :: back).map Prod.snd))
      riceParam stats st)
    (hword : IsWord16 e.2) (hlen : (e :: back).length ≤ 16)
    (hlast : e.1 = f.firstSigScanPos ↔ back = [])
    (hparity : (a.i1SignDataHidingFlag && f.signHidden) = true →
      ParityHides ((front ++ e :: back).map Prod.snd)) :
    LevelInv (a.i1SignDataHidingFlag && f.signHidden) (front ++ [e])
      (signFlags (a.i1SignDataHidingFlag && f.signHidden) (back.map Prod.snd))
      riceParam stats (a.storeLevel f e.1 e.2.natAbs st) := by
  generalize hhid : (a.i1SignDataHidingFlag && f.signHidden) = hidden at hinv hparity ⊢
  have hsum : hidden = true → st.sumAbsLevel + e.2.natAbs =
      ((front ++ [e]).map fun e => e.2.natAbs).sum := fun hh => by
    rw [hinv.sum hh, List.map_append, List.sum_append]
    simp
  have hnum : st.numSigCoeff + 1 = (front ++ [e]).length := by
    rw [hinv.num, List.length_append, List.length_singleton]
  -- the sign flag of the level, and those behind it
  have hsigns : (hidden = true → back ≠ [] ) →
      decide (st.u4CoeffSignMap >>> 31 &&& 1 = 1) = negative e.2 ∧
        u32 (st.u4CoeffSignMap <<< 1) = signWord (signFlags hidden (back.map Prod.snd)) := by
    intro hback
    have hflags : signFlags hidden ((e :: back).map Prod.snd) =
        negative e.2 :: signFlags hidden (back.map Prod.snd) := by
      unfold signFlags
      cases hidden with
      | false => rfl
      | true =>
        obtain ⟨e', back', rfl⟩ := List.exists_cons_of_ne_nil (hback rfl)
        rfl
    have hshort : (signFlags hidden (back.map Prod.snd)).length < 32 := by
      unfold signFlags
      have : (e :: back).length = back.length + 1 := rfl
      split
      · rw [List.length_map, List.length_dropLast, List.length_map]
        omega
      · rw [List.length_map, List.length_map]
        omega
    rw [hinv.signs, hflags]
    exact signWord_cons _ _ hshort
  unfold ResidualArgs.storeLevel
  dsimp only
  rw [hhid]
  by_cases hlastHidden : hidden = true ∧ back = []
  · obtain ⟨hh, rfl⟩ := hlastHidden
    -- the sign is not coded, and follows from the sum
    have hflags : signFlags true ([e].map Prod.snd) = [] := rfl
    have hnil : signFlags true (([] : List (Nat × Int)).map Prod.snd) = [] := rfl
    have hword0 : st.u4CoeffSignMap = 0 := by rw [hinv.signs, hh, hflags, signWord_nil]
    have hodd := hparity hh
    unfold ParityHides at hodd
    rw [List.map_append, List.map_append, List.sum_append] at hodd
    have hgetLast : (front.map Prod.snd ++ [e].map Prod.snd).getLastD 0 = e.2 := by
      rw [List.map_singleton, List.getLastD_concat]
    have hsum' : (((front.map Prod.snd).map Int.natAbs).sum +
        (([e].map Prod.snd).map Int.natAbs).sum) = st.sumAbsLevel + e.2.natAbs := by
      rw [hinv.sum hh, List.map_map]
      simp [Function.comp_def]
    rw [hgetLast, hsum'] at hodd
    have hlevel : (if hidden = true ∧ e.1 = f.firstSigScanPos ∧
          (if hidden = true then st.sumAbsLevel + e.2.natAbs else st.sumAbsLevel) % 2 = 1
        then -(if st.u4CoeffSignMap >>> 31 &&& 1 = 1 then -(e.2.natAbs : Int) else e.2.natAbs)
        else if st.u4CoeffSignMap >>> 31 &&& 1 = 1 then -(e.2.natAbs : Int) else e.2.natAbs)
        = e.2 := by
      rw [hword0, if_pos hh, Nat.zero_shiftRight, Nat.zero_and,
        if_neg (show ¬ (0 : Nat) = 1 by decide)]
      by_cases hneg : e.2 < 0
      · rw [if_pos ⟨hh, hlast.mpr rfl, hodd.mpr hneg⟩]
        omega
      · rw [if_neg fun hc => hneg (hodd.mp hc.2.2)]
        omega
    refine ⟨hinv.stats, hinv.noUpdate, hinv.rice, hnum, fun _ => ?_, ?_, ?_⟩
    · dsimp only
      rw [if_pos hh]
      exact hsum hh
    · dsimp only
      rw [hword0, hh, hnil, signWord_nil, Nat.zero_shiftLeft]
      exact u32_of_lt (by decide)
    · dsimp only
      rw [hlevel, i16_of_isWord16 hword, hinv.level, List.map_append]
      rfl
  · obtain ⟨htop, hrest⟩ := hsigns fun hh hb => hlastHidden ⟨hh, hb⟩
    have hlevel : (if hidden = true ∧ e.1 = f.firstSigScanPos ∧
          (if hidden = true then st.sumAbsLevel + e.2.natAbs else st.sumAbsLevel) % 2 = 1
        then -(if st.u4CoeffSignMap >>> 31 &&& 1 = 1 then -(e.2.natAbs : Int) else e.2.natAbs)
        else if st.u4CoeffSignMap >>> 31 &&& 1 = 1 then -(e.2.natAbs : Int) else e.2.natAbs)
        = e.2 := by
      rw [if_neg fun hc => hlastHidden ⟨hc.1, hlast.mp hc.2.1⟩]
      refine Eq.trans ?_ (level_of_sign (e := e.2))
      rw [← htop]
      exact if_congr decide_eq_true_iff.symm rfl rfl
    refine ⟨hinv.stats, hinv.noUpdate, hinv.rice, hnum, fun hh => ?_, hrest, ?_⟩
    · dsimp only
      rw [if_pos hh]
      exact hsum hh
    · dsimp only
      rw [hlevel, i16_of_isWord16 hword, hinv.level, List.map_append]
      rfl

theorem LevelInv.updateRice {hidden : Bool} {st : ResidualArgs.LevelSt} (h : PlainArgs a)
    (hinv : LevelInv hidden front back riceParam stats st) (n : Nat) :
    LevelInv hidden front back (if 3 <<< riceParam < n then min (riceParam + 1) 4 else riceParam)
      stats (a.updateRice n st) := by
  unfold ResidualArgs.updateRice
  rw [hinv.rice, h.noPersistent]
  split
  · exact ⟨hinv.stats, hinv.noUpdate, rfl, hinv.num, hinv.sum, hinv.signs, hinv.level⟩
  · exact hinv

/-- The coefficients of a sub-block, by position and level. -/
structure Coeffs (f : ResidualArgs.LevelFlags) (hidden : Bool) (l : List (Nat × Int)) : Prop where
  flags : FlagsOf f l
  nodup : (l.map Prod.fst).Nodup
  word : ∀ e ∈ l, e.2 ≠ 0 ∧ IsWord16 e.2
  length : l.length ≤ 16
  last : ∀ front e back, l = front ++ e :: back → (e.1 = f.firstSigScanPos ↔ back = [])
  parity : hidden = true → ParityHides (l.map Prod.snd)

theorem visit_levels_reads (h : PlainArgs a) (back : List (Nat × Int)) :
    ∀ (front : List (Nat × Int)) (riceParam : Nat) (st : ResidualArgs.LevelSt),
      Coeffs f (a.i1SignDataHidingFlag && f.signHidden) (front ++ back) → riceParam ≤ 4 →
      LevelInv (a.i1SignDataHidingFlag && f.signHidden) front
        (signFlags (a.i1SignDataHidingFlag && f.signHidden) (back.map Prod.snd)) riceParam stats st →
      ∃ st', Reads (visitOnes (a.levelBody f) (back.map Prod.fst) st : BinReader ρ _)
          (remainingBins (back.map Prod.snd) front.length
            ((front.take 8).any fun e => aboveOne e.2) riceParam) st' ∧
        st'.ai2Level = (front ++ back).map Prod.snd ∧ st'.ai4RiceStatCoeff = stats := by
  induction back with
  | nil =>
    intro front riceParam st _ _ hinv
    refine ⟨st, Reads.pure st, ?_, hinv.stats⟩
    rw [hinv.level, List.append_nil]
  | cons e back ih =>
    intro front riceParam st hc hrice hinv
    obtain ⟨hne, hword⟩ := hc.word e (by simp)
    have hlen : (e :: back).length ≤ 16 := by
      have := hc.length
      rw [List.length_append] at this
      omega
    have hassoc : front ++ e :: back = (front ++ [e]) ++ back := by simp
    have hseen : ((front ++ [e]).take 8).any (fun e => aboveOne e.2) =
        ((front.take 8).any (fun e => aboveOne e.2) || (decide (front.length < 8) && aboveOne e.2)) := by
      rw [List.take_append, List.any_append]
      by_cases hlt : front.length < 8
      · rw [decide_eq_true hlt, Bool.true_and, List.take_of_length_le (l := [e]) (by simp; omega)]
        simp
      · rw [decide_eq_false hlt, show 8 - front.length = 0 by omega]
        simp
    obtain ⟨hcoded, hskip⟩ := hc.flags.level hc.nodup hne
    -- what is read of this level, and the level of the loop's state
    have hgo : ∀ riceParam', riceParam' ≤ 4 → ∀ st1, LevelInv (a.i1SignDataHidingFlag && f.signHidden)
          front (signFlags (a.i1SignDataHidingFlag && f.signHidden) ((e :: back).map Prod.snd))
          riceParam' stats st1 →
        ∃ st', Reads (visitOnes (a.levelBody f) (back.map Prod.fst)
            (a.storeLevel f e.1 e.2.natAbs st1) : BinReader ρ _)
          (remainingBins (back.map Prod.snd) (front.length + 1)
            ((front.take 8).any (fun e => aboveOne e.2) || aboveOne e.2) riceParam') st' ∧
          st'.ai2Level = (front ++ e :: back).map Prod.snd ∧ st'.ai4RiceStatCoeff = stats := by
      intro riceParam' hrice' st1 hinv1
      have hstored := storeLevel_inv hinv1 hword hlen (hc.last front e back rfl) hc.parity
      obtain ⟨st', hreads, hlevel, hstats⟩ :=
        ih (front ++ [e]) riceParam' _ (hassoc ▸ hc) hrice' hstored
      refine ⟨st', ?_, hassoc ▸ hlevel, hstats⟩
      rw [List.length_append, List.length_singleton, hseen] at hreads
      by_cases hlt : front.length < 8
      · rwa [decide_eq_true hlt, Bool.true_and] at hreads
      · rwa [remainingBins_seen _ _ (by omega) _
          ((front.take 8).any (fun e => aboveOne e.2) || aboveOne e.2)] at hreads
    rw [List.map_cons, List.map_cons, visitOnes, ResidualArgs.levelBody, remainingBins, hinv.num,
      hinv.rice]
    by_cases hle : remainingBase front.length ((front.take 8).any fun e => aboveOne e.2)
        ≤ e.2.natAbs
    · obtain ⟨hthreshold, hbase⟩ := hcoded hle
      have hone : 1 ≤ remainingBase front.length ((front.take 8).any fun e => aboveOne e.2) := by
        unfold remainingBase
        split
        · split <;> decide
        · decide
      have hlt : e.2.natAbs - remainingBase front.length ((front.take 8).any fun e => aboveOne e.2)
          < 2 ^ 15 := by
        obtain ⟨hlo, hhi⟩ := hword
        omega
      have hupdate : ResidualArgs.updateStats f.sbType
          (e.2.natAbs - remainingBase front.length ((front.take 8).any fun e => aboveOne e.2)) st
          = st := by
        unfold ResidualArgs.updateStats
        rw [hinv.noUpdate]
        rfl
      obtain ⟨st', hreads, hresult⟩ := hgo
        (if 3 <<< riceParam < e.2.natAbs then min (riceParam + 1) 4 else riceParam)
        (by split <;> omega) _ (hinv.updateRice h e.2.natAbs)
      refine ⟨st', ?_, hresult⟩
      rw [if_pos hthreshold, if_pos hle, bind_assoc]
      refine (coeffAbsLevelRemaining_reads hrice hlt).bind (Reads.nil_bind (Reads.pure _) ?_)
      rw [if_pos rfl, hupdate, hbase, Nat.add_sub_cancel' hle]
      exact hreads
    · obtain ⟨hthreshold, hbase⟩ := hskip hle
      have hsmall : e.2.natAbs < 3 := by
        unfold remainingBase at hle
        split at hle
        · split at hle <;> omega
        · omega
      have hsame : (if 3 <<< riceParam < e.2.natAbs then min (riceParam + 1) 4 else riceParam)
          = riceParam := by
        have hpow := Nat.two_pow_pos riceParam
        rw [Nat.shiftLeft_eq]
        exact if_neg (by omega)
      have hinv' := hinv.updateRice h e.2.natAbs
      rw [hsame] at hinv'
      obtain ⟨st', hreads, hresult⟩ := hgo riceParam hrice _ hinv'
      refine ⟨st', ?_, hresult⟩
      rw [if_neg hthreshold, if_neg hle]
      refine Reads.nil_bind (Reads.pure _) ?_
      rw [if_pos rfl, hbase]
      exact hreads

end

-- ---------------------------------------------------------------------------
-- The first and the last position
-- ---------------------------------------------------------------------------

theorem sigBelow_pairwise (m n : Nat) : (sigBelow m n).Pairwise fun i j => j < i := by
  induction n with
  | zero => exact List.Pairwise.nil
  | succ n ih =>
    rw [sigBelow]
    split
    · exact List.pairwise_cons.mpr ⟨fun j hj => (mem_sigBelow.mp hj).1, ih⟩
    · exact ih

section
variable {m : Nat} (hpos : 0 < m) (hlt : m < 2 ^ 16)
include hpos hlt

theorem sigPositions_head : (sigPositions m).headD 0 = 31 - clz m := by
  have hmod : m % 2 ^ 16 = m := Nat.mod_eq_of_lt hlt
  obtain ⟨hbit, hlog, -, hbelow⟩ := sigBelow_top (m := m) (n := 16) (by omega)
  rw [hmod] at hbit hlog hbelow
  have hclz : 31 - clz m = Nat.log2 m := by
    unfold clz
    rw [if_neg (by omega)]
    omega
  unfold sigPositions
  rw [hclz, hbelow, sigBelow, if_pos hbit]
  rfl

theorem sigPositions_ne_nil : sigPositions m ≠ [] := fun hnil => by
  have hmod : m % 2 ^ 16 = m := Nat.mod_eq_of_lt hlt
  obtain ⟨hbit, hlog, -, -⟩ := sigBelow_top (m := m) (n := 16) (by omega)
  rw [hmod] at hbit hlog
  have hmem : Nat.log2 m ∈ sigPositions m := mem_sigBelow.mpr ⟨hlog, hbit⟩
  rw [hnil] at hmem
  exact absurd hmem List.not_mem_nil

/-- The last position is the lowest one. -/
theorem sigPositions_last (hl : sigPositions m = front ++ n :: back) :
    n = IntraPred.ctz m ↔ back = [] := by
  obtain ⟨htest, hnone⟩ := IntraPred.ctz_spec (x := m) (by omega) (by omega)
  have hsorted := sigBelow_pairwise m 16
  change (sigPositions m).Pairwise _ at hsorted
  rw [hl] at hsorted
  have hbehind := (List.pairwise_append.mp hsorted).2.1
  have hmem : ∀ k ∈ front ++ n :: back, k < 16 ∧ m.testBit k = true := fun k hk =>
    mem_sigBelow.mp (show k ∈ sigPositions m from hl ▸ hk)
  constructor
  · intro hn
    refine List.eq_nil_iff_forall_not_mem.mpr fun k hk => ?_
    have hkn : k < n := (List.pairwise_cons.mp hbehind).1 k hk
    exact hnone k (hn ▸ hkn) (hmem k (by simp [hk])).2
  · rintro rfl
    have hle : IntraPred.ctz m ≤ n := by
      by_contra hgt
      exact hnone n (by omega) (hmem n (by simp)).2
    have hctz : IntraPred.ctz m ∈ front ++ [n] := by
      rw [← hl]
      have := (hmem n (by simp)).1
      exact mem_sigBelow.mpr ⟨by omega, htest⟩
    rcases List.mem_append.mp hctz with hfront | hlast
    · have := (List.pairwise_append.mp hsorted).2.2 _ hfront n (by simp)
      omega
    · exact (List.mem_singleton.mp hlast).symm

theorem sigPositions_getLast : (sigPositions m).getLastD 0 = IntraPred.ctz m := by
  obtain ⟨front, n, hl⟩ :=
    (List.eq_nil_or_concat' (sigPositions m)).resolve_left (sigPositions_ne_nil hpos hlt)
  rw [(sigPositions_last hpos hlt hl).mpr rfl |>.symm, hl, List.getLastD_concat]

end

-- ---------------------------------------------------------------------------
-- A sub-block
-- ---------------------------------------------------------------------------

/-- The levels of a map: none is zero, all have 16 bits, and the hidden sign agrees. -/
structure LevelsOf (hidden : Bool) (m : Nat) (es : List Int) : Prop where
  pos : 0 < m
  lt : m < 2 ^ 16
  length : es.length = (sigPositions m).length
  word : ∀ e ∈ es, e ≠ 0 ∧ IsWord16 e
  parity : hidden = true → ParityHides es

theorem length_sigBelow_le (m n : Nat) : (sigBelow m n).length ≤ n := by
  induction n with
  | zero => exact Nat.le_refl 0
  | succ n ih =>
    rw [sigBelow]
    split
    · exact Nat.succ_le_succ ih
    · exact Nat.le_succ_of_le ih

section
variable {a : ResidualArgs} {m : Nat} {es : List Int} {stats : Nat → Nat}

theorem LevelsOf.coeffs {hidden : Bool} (hl : LevelsOf hidden m es)
    {f : ResidualArgs.LevelFlags} (hflags : FlagsOf f ((sigPositions m).zip es))
    (hfirst : f.firstSigScanPos = IntraPred.ctz m) :
    Coeffs f hidden ((sigPositions m).zip es) where
  flags := hflags
  nodup := by
    rw [List.map_fst_zip (le_of_eq hl.length.symm)]
    exact sigBelow_nodup m 16
  word := fun e he => hl.word e.2 (List.of_mem_zip he).2
  length := by
    rw [List.length_zip, hl.length, Nat.min_self]
    exact length_sigBelow_le m 16
  last := fun front e back heq => by
    have hpositions : sigPositions m = front.map Prod.fst ++ e.1 :: back.map Prod.fst := by
      have hfst := List.map_fst_zip (le_of_eq hl.length.symm)
      rw [heq, List.map_append, List.map_cons] at hfst
      exact hfst.symm
    rw [hfirst, sigPositions_last hl.pos hl.lt hpositions, List.map_eq_nil_iff]
  parity := fun hh => by
    rw [List.map_snd_zip (le_of_eq hl.length)]
    exact hl.parity hh

theorem signFlags_length (hidden : Bool) (es : List Int) :
    (signFlags hidden es).length = if hidden then es.length - 1 else es.length := by
  unfold signFlags
  split
  · rw [List.length_map, List.length_dropLast]
  · rw [List.length_map]

theorem greater2_reads (ctxt : Nat) (l : List (Nat × Int)) :
    Reads (ResidualArgs.parseGreater2 ctxt (aboveMap l 0) : BinReader ρ Nat)
      (greater2Bins ctxt (l.map Prod.snd))
      (match firstAbove l with
        | none => 0
        | some e => (decide (2 < e.2.natAbs)).toNat <<< (31 - clz (aboveMap l 0))) := by
  have hfind : (l.map Prod.snd).find? aboveOne = (firstAbove l).map Prod.snd := by
    unfold firstAbove
    rw [List.find?_map]
    rfl
  unfold greater2Bins ResidualArgs.parseGreater2
  rw [hfind]
  cases hfirst : firstAbove l with
  | none =>
    rw [if_pos ((aboveMap_eq_zero l).mpr hfirst)]
    exact Reads.pure 0
  | some e =>
    have hne : aboveMap l 0 ≠ 0 := fun hzero => by
      rw [(aboveMap_eq_zero l).mp hzero] at hfirst
      exact nomatch hfirst
    rw [if_neg hne]
    exact (decodeBin_reads ctxt _).bind_nil (Reads.pure _)

theorem clz_aboveMap {l : List (Nat × Int)} {e : Nat × Int}
    (hsorted : l.Pairwise fun e e' => e'.1 < e.1)
    (hfirst : firstAbove l = some e) (hlt : e.1 < 32) :
    (31 : Int) - (clz (aboveMap l 0) : Nat) = e.1 := by
  have hne : aboveMap l 0 ≠ 0 := fun hzero => by
    rw [(aboveMap_eq_zero l).mp hzero] at hfirst
    exact nomatch hfirst
  unfold clz
  rw [if_neg hne, log2_aboveMap hsorted hfirst]
  omega

/-- The flags that are read are those of the levels. -/
theorem flagsOf_read (l : List (Nat × Int)) (hsorted : l.Pairwise fun e e' => e'.1 < e.1)
    (hlt : ∀ e ∈ l, e.1 < 32) (firstSig : Nat) (signHidden : Bool) (sbType : Nat) :
    FlagsOf
      { u4CoeffAbsLevelGreater1Map := aboveMap (l.take 8) 0
        u4CoeffAbsLevelGreater2Map :=
          match firstAbove (l.take 8) with
          | none => 0
          | some e => (decide (2 < e.2.natAbs)).toNat <<< (31 - clz (aboveMap (l.take 8) 0))
        firstGreater1ScanPos :=
          if aboveMap (l.take 8) 0 = 0 then -1 else 31 - clz (aboveMap (l.take 8) 0)
        firstSigScanPos := firstSig
        signHidden := signHidden
        sbType := sbType } l := by
  have hsorted8 : (l.take 8).Pairwise fun e e' => e'.1 < e.1 :=
    hsorted.sublist (List.take_sublist 8 l)
  have hpos : ∀ e, firstAbove (l.take 8) = some e →
      (31 : Int) - (clz (aboveMap (l.take 8) 0) : Nat) = e.1 ∧ aboveMap (l.take 8) 0 ≠ 0 := by
    intro e hfirst
    refine ⟨clz_aboveMap hsorted8 hfirst
      (hlt e (List.mem_of_mem_take (List.mem_of_find?_eq_some hfirst))), fun hzero => ?_⟩
    rw [(aboveMap_eq_zero _).mp hzero] at hfirst
    exact nomatch hfirst
  refine ⟨fun n => ?_, fun n => ?_, fun e hfirst => ?_, fun hfirst => ?_⟩
  · dsimp only
    rw [aboveMap_testBit, Nat.zero_testBit, Bool.false_or]
  · dsimp only
    cases hfirst : firstAbove (l.take 8) with
    | none => exact Nat.zero_testBit n
    | some e =>
      dsimp only
      have hscan : 31 - clz (aboveMap (l.take 8) 0) = e.1 := by
        have := (hpos e hfirst).1
        omega
      rw [hscan, Option.any_some]
      cases decide (2 < e.2.natAbs) with
      | false => rw [Bool.toNat_false, Nat.zero_shiftLeft, Nat.zero_testBit, Bool.and_false]
      | true => rw [Bool.toNat_true, Nat.one_shiftLeft, Nat.testBit_two_pow, Bool.and_true]
  · dsimp only
    rw [if_neg (hpos e hfirst).2]
    exact (hpos e hfirst).1
  · exact if_pos ((aboveMap_eq_zero _).mpr hfirst)

theorem overLevels_reads (h : PlainArgs a) {hidden : Bool} (hl : LevelsOf hidden m es)
    {f : ResidualArgs.LevelFlags} (hflags : FlagsOf f ((sigPositions m).zip es))
    (hfirst : f.firstSigScanPos = IntraPred.ctz m)
    (hsame : (a.i1SignDataHidingFlag && f.signHidden) = hidden) (st : ResidualArgs.LevelSt)
    (hinv : LevelInv hidden [] (signFlags hidden es) 0 stats st) :
    ∃ st', Reads (visitOnes (a.levelBody f) (sigPositions m) st : BinReader ρ _)
        (remainingBins es 0 false 0) st' ∧
      st'.ai2Level = es ∧ st'.ai4RiceStatCoeff = stats := by
  have hfst := List.map_fst_zip (le_of_eq hl.length.symm)
  have hsnd := List.map_snd_zip (le_of_eq hl.length)
  obtain ⟨st', hreads, hlevel, hstats⟩ := visit_levels_reads (ρ := ρ) h ((sigPositions m).zip es) []
    0 st (hsame ▸ hl.coeffs hflags hfirst) (Nat.zero_le 4) (by rw [hsame, hsnd]; exact hinv)
  rw [hfst, hsnd] at hreads
  rw [List.nil_append, hsnd] at hlevel
  exact ⟨st', hreads, hlevel, hstats⟩

theorem parseLevels_reads (h : PlainArgs a) (b : ResidualArgs.BlkFlags)
    (hskip : b.transformSkipFlag = false) (hrdpcm : b.explicitRdpcmFlag = false)
    (hl : LevelsOf (signIsHidden a.i1SignDataHidingFlag (sigPositions m)) m es)
    (i gt1Ctxt : Nat) (stats : Nat → Nat) :
    Reads (a.parseLevels b i m es.length gt1Ctxt stats : BinReader ρ _)
      (levelBins (ctxtSet (a.cIdx = 0) i gt1Ctxt * 4 + a.absGt1BaseCtxt)
        (ihevcCabCoefabsGrtr2Flag + (if a.cIdx = 0 then ctxtSet (a.cIdx = 0) i gt1Ctxt
          else ctxtSet (a.cIdx = 0) i gt1Ctxt + 4))
        (signIsHidden a.i1SignDataHidingFlag (sigPositions m)) es)
      (es, gt1CtxtAfter (es.take 8) 1, stats) := by
  have hfst := List.map_fst_zip (le_of_eq hl.length.symm)
  have hsnd := List.map_snd_zip (le_of_eq hl.length)
  have hctxt : (if i ≠ 0 ∧ a.cIdx = 0 then 2 else 0) + (if gt1Ctxt = 0 then 1 else 0)
      = ctxtSet (a.cIdx = 0) i gt1Ctxt := by
    unfold ctxtSet
    simp
  have hsorted : ((sigPositions m).zip es).Pairwise fun e e' => e'.1 < e.1 := by
    have hpairs := sigBelow_pairwise m 16
    change (sigPositions m).Pairwise _ at hpairs
    rw [← hfst] at hpairs
    exact List.pairwise_map.mp hpairs
  have hlt : ∀ e ∈ (sigPositions m).zip es, e.1 < 32 := fun e he => by
    have := (mem_sigBelow.mp (List.of_mem_zip he).1).1
    omega
  have hhidden : a.signHidden false false (31 - clz m) (IntraPred.ctz m) =
      decide (3 < (((sigPositions m).headD 0 : Nat) : Int) - ((sigPositions m).getLastD 0 : Nat)) := by
    unfold ResidualArgs.signHidden
    rw [if_neg (by simp [h.noBypass]), sigPositions_head hl.pos hl.lt,
      sigPositions_getLast hl.pos hl.lt]
  have hsigns : (if ¬ a.i1SignDataHidingFlag = true ∨
        ¬ a.signHidden false false (31 - clz m) (IntraPred.ctz m) = true then es.length
      else es.length - 1)
      = (signFlags (signIsHidden a.i1SignDataHidingFlag (sigPositions m)) es).length := by
    rw [signFlags_length, hhidden]
    unfold signIsHidden
    cases a.i1SignDataHidingFlag with
    | false => simp
    | true =>
      cases decide (3 < (((sigPositions m).headD 0 : Nat) : Int) -
        ((sigPositions m).getLastD 0 : Nat)) <;> simp
  have hgreater1 := visit_greater1_reads (ρ := ρ) a (ctxtSet (a.cIdx = 0) i gt1Ctxt)
    ((sigPositions m).zip es)
    { numGreater1Flag := 0, gt1Ctxt := 1, u4CoeffAbsLevelGreater1Map := 0 } (Nat.zero_le 8)
  rw [hfst, hsnd, ← overMap_visits _ hl.pos hl.lt] at hgreater1
  simp only [Nat.sub_zero] at hgreater1
  have hgreater2 := greater2_reads (ρ := ρ)
    (ihevcCabCoefabsGrtr2Flag + (if a.cIdx = 0 then ctxtSet (a.cIdx = 0) i gt1Ctxt
      else ctxtSet (a.cIdx = 0) i gt1Ctxt + 4)) (((sigPositions m).zip es).take 8)
  rw [List.map_take, hsnd] at hgreater2
  have hword := parseSigns_reads (ρ := ρ)
    (signFlags (signIsHidden a.i1SignDataHidingFlag (sigPositions m)) es)
  rw [← hsigns] at hword
  have hflags := flagsOf_read ((sigPositions m).zip es) hsorted hlt (IntraPred.ctz m)
    (a.signHidden false false (31 - clz m) (IntraPred.ctz m)) (a.sbType false)
  unfold ResidualArgs.parseLevels levelBins
  rw [hskip, hrdpcm, hctxt]
  refine hgreater1.bind (hgreater2.bind (hword.bind ?_))
  dsimp only
  rw [overMap_visits _ hl.pos hl.lt]
  have hsame : (a.i1SignDataHidingFlag &&
      a.signHidden false false (31 - clz m) (IntraPred.ctz m))
      = signIsHidden a.i1SignDataHidingFlag (sigPositions m) := by
    rw [hhidden]
    rfl
  have hlevels := overLevels_reads (ρ := ρ) h hl hflags rfl hsame
    { ai4RiceStatCoeff := stats
      i1UpdateStats := a.i1PersistentRiceAdaptationEnabledFlag
      riceParam := if a.i1PersistentRiceAdaptationEnabledFlag then stats (a.sbType false) / 4 else 0
      numSigCoeff := 0
      sumAbsLevel := 0
      u4CoeffSignMap := signWord (signFlags (signIsHidden a.i1SignDataHidingFlag (sigPositions m)) es)
      ai2Level := [] }
    ⟨rfl, h.noPersistent, if_neg (by simp [h.noPersistent]), rfl, fun _ => rfl, rfl, rfl⟩
  refine hlevels.elim fun st' hst => Reads.bind_nil hst.1 (Reads.pure_of_eq ?_)
  rw [hst.2.1, hst.2.2]

end

end Libhevc.RoundTrip
