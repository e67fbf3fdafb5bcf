import Libhevc.Encoder.SignDataHiding
import Mathlib.Algebra.BigOperators.Group.Finset.Basic
import Mathlib.Algebra.BigOperators.Intervals
import Mathlib.Tactic.Linarith

/-!
# A group hides the sign of its first level

The search ends at a level that may change: the change keeps the first level
or makes a new one with the same sign, so only the parity of the group moves.
-/

namespace Libhevc.Encoder

-- ---------------------------------------------------------------------------
-- What a group is to hold
-- ---------------------------------------------------------------------------

structure FirstNonzero (level : Nat → Int) (f : Nat) : Prop where
  lt : f < 16
  ne : level f ≠ 0
  before : ∀ i < f, level i = 0

structure LastNonzero (level : Nat → Int) (l : Nat) : Prop where
  lt : l < 16
  ne : level l ≠ 0
  behind : ∀ i < 16, l < i → level i = 0

def sumAbs (level : Nat → Int) : Nat := ∑ i ∈ Finset.range 16, (level i).natAbs

def signBit (x : Int) : Nat := if x < 0 then 1 else 0

/-- Where the first and the last level are four apart, the parity is the sign of the first. -/
def Hidden (level : Nat → Int) : Prop :=
  ∀ f l, FirstNonzero level f → LastNonzero level l → f + 4 ≤ l →
    sumAbs level % 2 = signBit (level f)

/-- One level changed by one, in 16 bits and with its sign. -/
def OneChange (old new : Nat → Int) : Prop :=
  ∃ b < 16, (∀ j < 16, j ≠ b → new j = old j) ∧
    ((new b).natAbs = (old b).natAbs + 1 ∨ (new b).natAbs + 1 = (old b).natAbs) ∧
    -32768 ≤ new b ∧ new b ≤ 32767 ∧ ¬(old b < 0 ∧ 0 < new b) ∧ ¬(0 < old b ∧ new b < 0)

structure GroupHides (old new : Nat → Int) : Prop where
  change : (∀ j < 16, new j = old j) ∨ OneChange old new
  nonempty : (∃ j < 16, old j ≠ 0) → ∃ j < 16, new j ≠ 0
  hidden : Hidden new

/-- Values of 16 bits, and levels with the signs of the transform coefficients. -/
structure Group.Ok (k : Group) : Prop where
  range : ∀ i < 16, -32768 ≤ k.level i ∧ k.level i ≤ 32767
  trRange : ∀ i < 16, -32768 ≤ k.trCoeff i ∧ k.trCoeff i ≤ 32767
  iquantRange : ∀ i < 16, -32768 ≤ k.iquantCoeff i ∧ k.iquantCoeff i ≤ 32767
  pos : ∀ i < 16, 0 < k.level i → 0 ≤ k.trCoeff i
  neg : ∀ i < 16, k.level i < 0 → k.trCoeff i < 0

-- ---------------------------------------------------------------------------
-- The two loops
-- ---------------------------------------------------------------------------

/-- What the first loop knows after `n` rounds. -/
def FirstLast.After (level : Nat → Int) (n : Nat) (s : FirstLast) : Prop :=
  s.sumAbsLevel = ∑ j ∈ Finset.range n, (level (15 - j)).natAbs ∧
  (s.lastScanPos = -1 ∧ s.firstScanPos = 16 ∧ (∀ i < 16, 15 < i + n → level i = 0) ∨
    ∃ f l : Nat, s.firstScanPos = f ∧ s.lastScanPos = l ∧ 15 < f + n ∧
      f < 16 ∧ level f ≠ 0 ∧ (∀ i < f, 15 < i + n → level i = 0) ∧ LastNonzero level l)

theorem FirstLast.After.step {level : Nat → Int} (h : FirstLast.After level n s) (hn : n < 16) :
    FirstLast.After level (n + 1) (firstLastStep level s n) := by
  obtain ⟨hsum, hpos⟩ := h
  by_cases hzero : level (15 - n) = 0
  · have hs : firstLastStep level s n = s := if_neg (not_not_intro hzero)
    rw [hs]
    have hat : ∀ i, i + n = 15 → level i = 0 := by
      intro i hi
      rwa [show i = 15 - n by omega]
    refine ⟨by rw [Finset.sum_range_succ, ← hsum, hzero]; rfl, ?_⟩
    rcases hpos with ⟨hlast, hfirst, hnone⟩ | ⟨f, l, hfirst, hlast, hf, hf', hne, hbefore, hl⟩
    · refine Or.inl ⟨hlast, hfirst, fun i hi hin => ?_⟩
      rcases Nat.lt_or_ge 15 (i + n) with hgt | hle
      · exact hnone i hi hgt
      · exact hat i (by omega)
    · refine Or.inr ⟨f, l, hfirst, hlast, by omega, hf', hne, fun i hi hin => ?_, hl⟩
      rcases Nat.lt_or_ge 15 (i + n) with hgt | hle
      · exact hbefore i hi hgt
      · exact hat i (by omega)
  · have hs : firstLastStep level s n = _ := if_pos hzero
    rw [hs]
    refine ⟨by rw [Finset.sum_range_succ, ← hsum], Or.inr ?_⟩
    rcases hpos with ⟨hlast, hfirst, hnone⟩ | ⟨f, l, hfirst, hlast, hf, hf', hne, hbefore, hl⟩
    · refine ⟨15 - n, 15 - n, rfl, if_pos hlast, by omega, by omega, hzero,
        fun i hi hin => by omega, by omega, hzero, fun i hi hgt => hnone i hi (by omega)⟩
    · refine ⟨15 - n, l, rfl, (if_neg (by omega)).trans hlast, by omega, by omega, hzero,
        fun i hi hin => by omega, hl⟩

/-- The first loop finds the first and the last level and adds them up. -/
theorem firstLast_spec (level : Nat → Int) :
    (∃ f l : Nat, FirstNonzero level f ∧ LastNonzero level l ∧
      firstLast level = ⟨l, f, sumAbs level⟩) ∨
    (∀ i < 16, level i = 0) ∧ firstLast level = ⟨-1, 16, 0⟩ := by
  have hrun : ∀ n ≤ 16, FirstLast.After level n
      ((List.range n).foldl (firstLastStep level) ⟨-1, 16, 0⟩) := by
    intro n hn
    induction n with
    | zero => exact ⟨rfl, Or.inl ⟨rfl, rfl, fun i hi h => by omega⟩⟩
    | succ n ih =>
      rw [List.range_succ, List.foldl_append]
      exact (ih (by omega)).step (by omega)
  obtain ⟨hsum, hpos⟩ := hrun 16 (Nat.le_refl _)
  rw [Finset.sum_range_reflect (fun i => (level i).natAbs) 16] at hsum
  have hfl : firstLast level = ⟨(firstLast level).lastScanPos, (firstLast level).firstScanPos,
    (firstLast level).sumAbsLevel⟩ := rfl
  rcases hpos with ⟨hlast, hfirst, hnone⟩ | ⟨f, l, hfirst, hlast, -, hf, hne, hbefore, hl⟩
  · have hzero : ∀ i < 16, level i = 0 := fun i hi => hnone i hi (by omega)
    have hsum0 : (firstLast level).sumAbsLevel = 0 := by
      refine hsum.trans (Finset.sum_eq_zero fun i hi => ?_)
      rw [hzero i (Finset.mem_range.mp hi)]
      rfl
    refine Or.inr ⟨hzero, ?_⟩
    rw [hfl, hsum0]
    exact congrArg₂ (FirstLast.mk · · 0) hlast hfirst
  · refine Or.inl ⟨f, l, ⟨hf, hne, fun i hi => hbefore i hi (by omega)⟩, hl, ?_⟩
    rw [hfl]
    unfold sumAbs
    rw [← hsum]
    exact congrArg₂ (FirstLast.mk · · _) hlast hfirst

/-- The position of least cost up to `start`, the last one where several have it. -/
structure Group.Best (k : Group) (f sign start b : Nat) : Prop where
  le : b ≤ start
  lt : k.curCost f sign b < sbhMaxInt
  least : ∀ i ≤ start, k.curCost f sign b ≤ k.curCost f sign i
  last : ∀ i ≤ start, b < i → k.curCost f sign b < k.curCost f sign i

theorem Group.Best.unique {k : Group} (h : k.Best f sign start b) (h' : k.Best f sign start b') :
    b = b' := by
  rcases Nat.lt_trichotomy b b' with hlt | heq | hgt
  · exact absurd (h.last b' h'.le hlt) (not_lt.mpr (h'.least b h.le))
  · exact heq
  · exact absurd (h'.last b h.le hgt) (not_lt.mpr (h.least b' h'.le))

/-- What the search knows after `n` rounds. -/
def SbhSearch.After (k : Group) (f sign start n : Nat) (s : SbhSearch) : Prop :=
  s.minCost = sbhMaxInt ∧ (∀ i ≤ start, start < i + n → sbhMaxInt ≤ k.curCost f sign i) ∨
    ∃ b ≤ start, start < b + n ∧ s.bestPos = (b : Nat) ∧ s.minCost = k.curCost f sign b ∧
      k.curCost f sign b < sbhMaxInt ∧ s.finalChange = k.curChange b ∧
      ∀ i ≤ start, start < i + n → k.curCost f sign b ≤ k.curCost f sign i ∧
        (b < i → k.curCost f sign b < k.curCost f sign i)

theorem SbhSearch.After.step {k : Group} (h : SbhSearch.After k f sign start n s)
    (hn : n ≤ start) :
    SbhSearch.After k f sign start (n + 1) (searchStep k f sign start s n) := by
  have hat : ∀ i ≤ start, start < i + (n + 1) → start < i + n ∨ i = start - n := by
    intro i hi hin
    omega
  unfold searchStep
  dsimp only
  split
  · rename_i hlt
    refine Or.inr ⟨start - n, Nat.sub_le _ _, by omega, rfl, rfl, ?_, rfl, fun i hi hin => ?_⟩
    · rcases h with ⟨hmax, -⟩ | ⟨b, -, -, -, hmin, hb, -⟩
      · rwa [← hmax]
      · rw [hmin] at hlt
        exact hlt.trans hb
    · rcases hat i hi hin with hold | rfl
      · have hcost : k.curCost f sign (start - n) < k.curCost f sign i := by
          rcases h with ⟨hmax, hall⟩ | ⟨b, -, -, -, hmin, -, -, hall⟩
          · rw [hmax] at hlt
            exact lt_of_lt_of_le hlt (hall i hi hold)
          · rw [hmin] at hlt
            exact lt_of_lt_of_le hlt (hall i hi hold).1
        exact ⟨hcost.le, fun _ => hcost⟩
      · exact ⟨le_refl _, fun hgt => absurd hgt (Nat.lt_irrefl _)⟩
  · rename_i hge
    rw [not_lt] at hge
    rcases h with ⟨hmax, hall⟩ | ⟨b, hb, hmet, hpos, hmin, hcost, hchange, hall⟩
    · refine Or.inl ⟨hmax, fun i hi hin => ?_⟩
      rcases hat i hi hin with hold | rfl
      · exact hall i hi hold
      · rwa [hmax] at hge
    · refine Or.inr ⟨b, hb, by omega, hpos, hmin, hcost, hchange, fun i hi hin => ?_⟩
      rcases hat i hi hin with hold | rfl
      · exact hall i hi hold
      · rw [hmin] at hge
        -- `b` was met before, and the positions are met from the last one down
        exact ⟨hge, fun hgt => absurd hgt (by omega)⟩

/-- The search ends at the position of least cost, and its `i2_quant_coeff` is the level of
position 0. -/
theorem search_spec {k : Group} (hcand : ∃ i ≤ start, k.curCost f sign i < sbhMaxInt)
    (best : Int) :
    ∃ b, k.Best f sign start b ∧ (search k f sign start best).bestPos = (b : Nat) ∧
      (search k f sign start best).finalChange = k.curChange b ∧
      (search k f sign start best).i2QuantCoeff = k.level 0 := by
  have hrun : ∀ n ≤ start + 1, SbhSearch.After k f sign start n
      ((List.range n).foldl (searchStep k f sign start) ⟨sbhMaxInt, 0, best, 0⟩) := by
    intro n hn
    induction n with
    | zero => exact Or.inl ⟨rfl, fun i hi h => by omega⟩
    | succ n ih =>
      rw [List.range_succ, List.foldl_append]
      exact (ih (by omega)).step (by omega)
  have hlevel : (search k f sign start best).i2QuantCoeff = k.level 0 := by
    unfold search
    rw [List.range_succ, List.foldl_append, List.foldl_cons, List.foldl_nil]
    unfold searchStep
    dsimp only
    rw [Nat.sub_self]
    split <;> rfl
  rcases hrun (start + 1) (Nat.le_refl _) with
    ⟨-, hall⟩ | ⟨b, hb, -, hpos, -, hcost, hchange, hall⟩
  · obtain ⟨i, hi, hlt⟩ := hcand
    exact absurd hlt (not_lt.mpr (hall i hi (by omega)))
  · refine ⟨b, ⟨hb, hcost, fun i hi => (hall i hi (by omega)).1,
      fun i hi hlt => (hall i hi (by omega)).2 hlt⟩, hpos, hchange, hlevel⟩

-- ---------------------------------------------------------------------------
-- The change of a group
-- ---------------------------------------------------------------------------

def Saturated (x : Int) : Prop := x = 32767 ∨ x = -32768

instance (x : Int) : Decidable (Saturated x) := inferInstanceAs (Decidable (_ ∨ _))

/-- A group that is to hide a sign and has the other parity. -/
structure Group.Mismatch (k : Group) (f l : Nat) : Prop where
  first : FirstNonzero k.level f
  last : LastNonzero k.level l
  far : f + 4 ≤ l
  parity : sumAbs k.level % 2 ≠ signBit (k.level f)

/-- Where the search begins: the last coded group takes no position behind its last level. -/
def searchStart (lastGroup : Bool) (l : Nat) : Nat := if lastGroup then l else 15

/-- The position of a group that changes. -/
def Group.Changes (k : Group) (lastGroup : Bool) (b : Nat) : Prop :=
  ∃ f l, k.Mismatch f l ∧ k.Best f (signBit (k.level f)) (searchStart lastGroup l) b

/-- The new level there: the test for saturation is of the level at position 0. -/
def Group.newLevel (k : Group) (b : Nat) : Int :=
  changedLevel (k.level b) (k.trCoeff b) (if Saturated (k.level 0) then -1 else k.curChange b)

theorem FirstNonzero.unique (h : FirstNonzero level f) (h' : FirstNonzero level f') : f = f' := by
  rcases Nat.lt_trichotomy f f' with hlt | heq | hgt
  · exact absurd (h'.before f hlt) h.ne
  · exact heq
  · exact absurd (h.before f' hgt) h'.ne

theorem LastNonzero.unique (h : LastNonzero level l) (h' : LastNonzero level l') : l = l' := by
  rcases Nat.lt_trichotomy l l' with hlt | heq | hgt
  · exact absurd (h.behind l' h'.lt hlt) h'.ne
  · exact heq
  · exact absurd (h'.behind l h.lt hgt) h.ne

theorem Group.Changes.unique {k : Group} (h : k.Changes lg b) (h' : k.Changes lg b') :
    b = b' := by
  obtain ⟨f, l, hm, hb⟩ := h
  obtain ⟨f', l', hm', hb'⟩ := h'
  obtain rfl := hm.first.unique hm'.first
  obtain rfl := hm.last.unique hm'.last
  exact hb.unique hb'

theorem Group.Changes.lt {k : Group} (h : k.Changes lg b) : b < 16 := by
  obtain ⟨f, l, hm, hbest⟩ := h
  have hle := hbest.le
  have hl := hm.last.lt
  unfold searchStart at hle
  split at hle <;> omega

theorem signFirstCoeff_eq (h : level f ≠ 0) : signFirstCoeff level f = signBit (level f) := by
  unfold signFirstCoeff signBit
  rcases Int.lt_or_gt_of_ne h with hneg | hpos
  · rw [if_neg (by omega), if_pos hneg]
  · rw [if_pos hpos, if_neg (by omega)]

theorem Group.curCost_nonpos (k : Group) (hne : k.level i ≠ 0) (hi : i ≠ f) :
    k.curCost f sign i ≤ 0 := by
  unfold Group.curCost
  rw [if_pos hne, if_neg (fun h => hi h.2.1), neg_one_mul, neg_mul, Int.sign_mul_self_eq_natAbs]
  omega

/-- A group changes at the best position, or has no sign to correct. -/
theorem Group.hide_cases (k : Group) (lastCg bestPos : Int) :
    (∃ b, k.Changes (decide (lastCg = 1)) b ∧
      k.hide lastCg bestPos = some (b, k.newLevel b)) ∨
    (∀ f l, ¬ k.Mismatch f l) ∧ k.hide lastCg bestPos = none := by
  unfold Group.hide
  dsimp only
  rcases firstLast_spec k.level with ⟨f, l, hf, hl, heq⟩ | ⟨hzero, heq⟩
  · rw [heq]
    dsimp only
    by_cases hfar : f + 4 ≤ l
    · rw [if_pos (by omega), Int.toNat_natCast, Int.toNat_natCast, signFirstCoeff_eq hf.ne]
      by_cases hpar : signBit (k.level f) = sumAbs k.level % 2
      · rw [if_neg (not_not_intro hpar)]
        refine Or.inr ⟨fun f' l' hm => ?_, rfl⟩
        obtain rfl := hm.first.unique hf
        exact hm.parity hpar.symm
      · rw [if_pos hpar]
        have hstart : (if lastCg = 1 then l else 15) = searchStart (decide (lastCg = 1)) l := by
          unfold searchStart
          by_cases h : lastCg = 1 <;> simp [h]
        rw [hstart]
        have hle : l ≤ searchStart (decide (lastCg = 1)) l := by
          unfold searchStart
          split
          · exact Nat.le_refl l
          · exact Nat.le_of_lt_succ hl.lt
        have hcost : k.curCost f (signBit (k.level f)) l < sbhMaxInt :=
          lt_of_le_of_lt (k.curCost_nonpos hl.ne (by omega)) (by decide)
        obtain ⟨b, hb, hpos, hchange, hlevel⟩ := search_spec ⟨l, hle, hcost⟩ bestPos
        refine Or.inl ⟨b, ⟨f, l, ⟨hf, hl, hfar, Ne.symm hpar⟩, hb⟩, ?_⟩
        rw [hpos, Int.toNat_natCast]
        unfold SbhSearch.change
        rw [hlevel, hchange]
        rfl
    · rw [if_neg (by omega)]
      refine Or.inr ⟨fun f' l' hm => ?_, rfl⟩
      obtain rfl := hm.first.unique hf
      obtain rfl := hm.last.unique hl
      exact hfar hm.far
  · rw [heq]
    refine Or.inr ⟨fun f' l' hm => ?_, rfl⟩
    exact hm.first.ne (hzero f' hm.first.lt)

-- ---------------------------------------------------------------------------
-- What the change does
-- ---------------------------------------------------------------------------

/-- The slip: a saturated level grows, as the level at position 0 is not saturated. -/
def Group.GrowsSaturated (k : Group) (b : Nat) : Prop :=
  ¬ Saturated (k.level 0) ∧ Saturated (k.level b) ∧ 0 < k.qErr b

theorem Group.curChange_cases (k : Group) (i : Nat) :
    k.curChange i = 1 ∨ k.curChange i = -1 := by
  unfold Group.curChange
  split
  · exact Or.inl rfl
  · split
    · exact Or.inl rfl
    · exact Or.inr rfl

theorem Group.newLevel_range (k : Group) (b : Nat) :
    -32768 ≤ k.newLevel b ∧ k.newLevel b ≤ 32767 := by
  unfold Group.newLevel changedLevel i16 wrapInt
  omega

theorem changedLevel_eq {level : Int} (hlo : -32768 ≤ level) (hhi : level ≤ 32767)
    (hc : c = -1 ∨ c = 1 ∧ ¬ Saturated level) (hpos : 0 < level → 0 ≤ tr)
    (hneg : level < 0 → tr < 0) :
    changedLevel level tr c = if 0 ≤ tr then level + c else level - c := by
  have hsat : ¬ Saturated level ↔ level ≠ 32767 ∧ level ≠ -32768 := not_or
  rw [hsat] at hc
  unfold changedLevel i16
  refine wrapInt_of_bounds (by decide) ?_ ?_
  · split <;> omega
  · split <;> omega

/-- The new level of a group that does not go wrong. -/
theorem Group.Ok.newLevel {k : Group} (hk : k.Ok) (hb : b < 16) (hgrow : ¬ k.GrowsSaturated b) :
    ∃ c, (c = 1 ∨ c = -1) ∧ (¬ Saturated (k.level 0) → c = k.curChange b) ∧
      k.newLevel b = if 0 ≤ k.trCoeff b then k.level b + c else k.level b - c := by
  obtain ⟨hlo, hhi⟩ := hk.range b hb
  unfold Group.newLevel
  by_cases h0 : Saturated (k.level 0)
  · rw [if_pos h0]
    exact ⟨-1, Or.inr rfl, fun h => absurd h0 h,
      changedLevel_eq hlo hhi (Or.inl rfl) (hk.pos b hb) (hk.neg b hb)⟩
  · rw [if_neg h0]
    refine ⟨k.curChange b, k.curChange_cases b, fun _ => rfl,
      changedLevel_eq hlo hhi ?_ (hk.pos b hb) (hk.neg b hb)⟩
    unfold Group.curChange
    by_cases hzero : k.level b = 0
    · rw [if_pos hzero, hzero]
      exact Or.inr ⟨rfl, by decide⟩
    · rw [if_neg hzero]
      by_cases herr : 0 < k.qErr b
      · rw [if_pos herr]
        exact Or.inr ⟨rfl, fun hsat => hgrow ⟨h0, hsat, herr⟩⟩
      · rw [if_neg herr]
        exact Or.inl rfl

theorem sumAbs_update (level : Nat → Int) (hb : b < 16) (v : Int) :
    sumAbs (Function.update level b v) + (level b).natAbs = sumAbs level + v.natAbs := by
  have hmem : b ∈ Finset.range 16 := Finset.mem_range.mpr hb
  have hrest : ∑ i ∈ (Finset.range 16).erase b, (Function.update level b v i).natAbs
      = ∑ i ∈ (Finset.range 16).erase b, (level i).natAbs := by
    refine Finset.sum_congr rfl fun i hi => ?_
    rw [Function.update_of_ne (Finset.ne_of_mem_erase hi)]
  unfold sumAbs
  rw [← Finset.add_sum_erase _ _ hmem, ← Finset.add_sum_erase _ (fun i => (level i).natAbs) hmem,
    hrest, Function.update_self]
  omega

/-- With the other parity and the same sign, the group hides it. -/
theorem hidden_of_first {new : Nat → Int} (hf : FirstNonzero new f)
    (hpar : sumAbs new % 2 = signBit (new f)) : Hidden new := by
  intro f' l hf' _ _
  obtain rfl := hf.unique hf'
  exact hpar

theorem FirstNonzero.update_behind (h : FirstNonzero level f) (hb : f < b) (v : Int) :
    FirstNonzero (Function.update level b v) f where
  lt := h.lt
  ne := by
    rw [Function.update_of_ne hb.ne]
    exact h.ne
  before i hi := by
    rw [Function.update_of_ne (hi.trans hb).ne]
    exact h.before i hi

theorem FirstNonzero.update_before (h : FirstNonzero level f) (hb : b ≤ f) (hv : v ≠ 0) :
    FirstNonzero (Function.update level b v) b where
  lt := Nat.lt_of_le_of_lt hb h.lt
  ne := by rwa [Function.update_self]
  before i hi := by
    rw [Function.update_of_ne hi.ne]
    exact h.before i (Nat.lt_of_lt_of_le hi hb)

/-- After the change the group has a first level with the sign of the old one. -/
theorem Group.Ok.first_of_changes {k : Group} (hk : k.Ok) (hm : k.Mismatch f l)
    (hbest : k.Best f (signBit (k.level f)) start b) (hb : b < 16)
    (hgrow : ¬ k.GrowsSaturated b) :
    ∃ f', FirstNonzero (Function.update k.level b (k.newLevel b)) f' ∧
      signBit (Function.update k.level b (k.newLevel b) f') = signBit (k.level f) := by
  obtain ⟨c, hc, hchange, hnew⟩ := hk.newLevel hb hgrow
  have hpos := hk.pos b hb
  have hneg := hk.neg b hb
  have hlt := hbest.lt
  unfold Group.curCost at hlt
  rcases Nat.lt_trichotomy b f with hbefore | rfl | hbehind
  · -- a new first level, where the sign of the coefficient is the hidden one
    have hzero := hm.first.before b hbefore
    have h0 : ¬ Saturated (k.level 0) := by
      rw [hm.first.before 0 (by omega)]
      decide
    have hc1 : c = 1 := by
      rw [hchange h0, Group.curChange, if_pos hzero]
    rw [hc1, hzero] at hnew
    rw [if_neg (not_not_intro hzero)] at hlt
    have hsign : signBit (k.level f) = if 0 ≤ k.trCoeff b then 0 else 1 := by
      by_contra hne
      rw [if_pos ⟨hbefore, hne⟩] at hlt
      exact absurd hlt (lt_irrefl _)
    have hv : k.newLevel b ≠ 0 := by
      rw [hnew]
      split <;> decide
    refine ⟨b, hm.first.update_before hbefore.le hv, ?_⟩
    rw [Function.update_self, hsign, hnew]
    split <;> rfl
  · -- the first level itself: it keeps its sign and is not brought to zero
    have hne := hm.first.ne
    rw [if_pos hne] at hlt
    have hone : c = -1 → ¬ Saturated (k.level 0) → (k.level b).natAbs ≠ 1 := by
      intro hc1 h0 habs
      have herr : ¬ 0 < k.qErr b := by
        intro h
        have h1 := hchange h0
        rw [Group.curChange, if_neg hne, if_pos h, hc1] at h1
        exact absurd h1 (by decide)
      rw [if_pos ⟨not_lt.mp herr, rfl, habs⟩] at hlt
      exact absurd hlt (lt_irrefl _)
    have hzero : Saturated (k.level 0) → b = 0 := by
      intro h0
      rcases Nat.eq_zero_or_pos b with h | h
      · exact h
      · rw [hm.first.before 0 h] at h0
        exact absurd h0 (by decide)
    have habs : c = -1 → (k.level b).natAbs ≠ 1 := by
      intro hc1
      by_cases h0 : Saturated (k.level 0)
      · rw [hzero h0]
        rcases h0 with h | h <;> rw [h] <;> decide
      · exact hone hc1 h0
    have hkeep : k.newLevel b ≠ 0 ∧ (k.newLevel b < 0 ↔ k.level b < 0) := by
      rw [hnew]
      split <;> omega
    refine ⟨b, hm.first.update_before (Nat.le_refl b) hkeep.1, ?_⟩
    rw [Function.update_self]
    unfold signBit
    rw [if_congr hkeep.2 rfl rfl]
  · refine ⟨f, hm.first.update_behind hbehind _, ?_⟩
    rw [Function.update_of_ne hbehind.ne]

/-- A group that changes ends as it is to, unless a saturated level grows. -/
theorem Group.Ok.hides_iff {k : Group} (hk : k.Ok) (h : k.Changes lg b) :
    GroupHides k.level (Function.update k.level b (k.newLevel b)) ↔ ¬ k.GrowsSaturated b := by
  obtain ⟨f, l, hm, hbest⟩ := h
  have hb : b < 16 := Group.Changes.lt ⟨f, l, hm, hbest⟩
  constructor
  · intro hh hgrow
    -- the level wraps to the other end of the range
    obtain ⟨h0, hsat, herr⟩ := hgrow
    have hnew : k.newLevel b = if 0 ≤ k.trCoeff b then i16 (k.level b + 1)
        else i16 (k.level b - 1) := by
      have hne : k.level b ≠ 0 := by
        rcases hsat with h | h <;> rw [h] <;> decide
      unfold Group.newLevel changedLevel Group.curChange
      rw [if_neg h0, if_neg hne, if_pos herr]
      split <;> rfl
    have hwrap : k.level b = 32767 ∧ k.newLevel b = -32768 ∨
        k.level b = -32768 ∧ k.newLevel b = 32767 := by
      rcases hsat with h | h
      · rw [h] at hnew
        exact Or.inl ⟨h, hnew.trans (if_pos (hk.pos b hb (by omega)))⟩
      · rw [h] at hnew
        exact Or.inr ⟨h, hnew.trans (if_neg (not_le.mpr (hk.neg b hb (by omega))))⟩
    rcases hh.change with hsame | ⟨b', hb', hrest, -, -, -, hflip⟩
    · have heq := hsame b hb
      rw [Function.update_self] at heq
      omega
    · obtain rfl : b = b' := by
        by_contra hne
        have heq := hrest b hb hne
        rw [Function.update_self] at heq
        omega
      rw [Function.update_self] at hflip
      omega
  · intro hgrow
    obtain ⟨c, hc, -, hnew⟩ := hk.newLevel hb hgrow
    have hpos := hk.pos b hb
    have hneg := hk.neg b hb
    have hone : (k.newLevel b).natAbs = (k.level b).natAbs + 1 ∨
        (k.newLevel b).natAbs + 1 = (k.level b).natAbs := by
      rw [hnew]
      split <;> omega
    obtain ⟨f', hf', hsign⟩ := hk.first_of_changes hm hbest hb hgrow
    refine ⟨Or.inr ⟨b, hb, fun j _ hj => Function.update_of_ne hj _ _, ?_⟩,
      fun _ => ⟨f', hf'.lt, hf'.ne⟩, hidden_of_first hf' ?_⟩
    · obtain ⟨hlo', hhi'⟩ := k.newLevel_range b
      rw [Function.update_self]
      refine ⟨hone, hlo', hhi', ?_, ?_⟩
      · rw [hnew]
        split <;> omega
      · rw [hnew]
        split <;> omega
    · have hsum := sumAbs_update k.level hb (k.newLevel b)
      have hpar := hm.parity
      rw [hsign]
      have hbit : signBit (k.level f) ≤ 1 := by
        unfold signBit
        split <;> decide
      omega

/-- A group without a sign to correct is as it is to be. -/
theorem Group.hides_same {k : Group} (h : ∀ f l, ¬ k.Mismatch f l) :
    GroupHides k.level k.level := by
  refine ⟨Or.inl fun _ _ => rfl, id, fun f l hf hl hfar => ?_⟩
  by_contra hne
  exact h f l ⟨hf, hl, hfar, hne⟩

end Libhevc.Encoder
