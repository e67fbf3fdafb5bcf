import Libhevc.Common.DeblkEdge
import Libhevc.Lib.LocalSteps
import Libhevc.Spec.Deblocking
import Mathlib.Data.Fin.VecNotation
import Mathlib.Tactic.LinearCombination

/-!
# The deblocking filters compute section 8.7.2.5

A line is filtered as the section says, and a turn of a loop touches its own
line only, so the edge is filtered as a whole. What the section does not tell
apart, the direction of the edge, the functions do not, either.
-/

namespace Libhevc.Deblk

open Spec.Deblk (EdgeLine EdgeFlags LumaEdge ChromaEdge clip1)
open ItransRecon

theorem clip3_eq (h : lo ≤ hi) : Libhevc.clip3 x lo hi = Spec.Deblk.clip3 lo hi x := by
  unfold Libhevc.clip3 Spec.Deblk.clip3
  split_ifs <;> omega

theorem clipU8_eq (x : Int) : clipU8 x = clip1 x := clip3_eq (by decide)

theorem clip3_bounds (h : lo ≤ hi) :
    lo ≤ Spec.Deblk.clip3 lo hi x ∧ Spec.Deblk.clip3 lo hi x ≤ hi := by
  unfold Spec.Deblk.clip3
  split_ifs <;> omega

theorem clip1_bounds (x : Int) : 0 ≤ clip1 x ∧ clip1 x ≤ 255 := clip3_bounds (by decide)

-- ---------------------------------------------------------------------------
-- Thresholds
-- ---------------------------------------------------------------------------

theorem betaTable_eq (h : 0 ≤ i ∧ i ≤ 51) :
    tableAt gai4IhevcBetaTable i = Spec.Deblk.betaPrime i := by
  have hall : ∀ n ≤ 51, gai4IhevcBetaTable.getD n 0 = Spec.Deblk.betaPrime n := by decide
  obtain ⟨n, rfl⟩ := Int.eq_ofNat_of_zero_le h.1
  exact hall n (by omega)

theorem tcTable_eq (i : Int) : tableAt gai4IhevcTcTable i = Spec.Deblk.tcPrime i := by
  have hruns : gai4IhevcTcTable = Spec.Deblk.tcPrimes := by decide
  rw [tableAt, hruns]
  rfl

theorem tcTable_nonneg (i : Int) : 0 ≤ tableAt gai4IhevcTcTable i := by
  have hall : ∀ t ∈ gai4IhevcTcTable, 0 ≤ t := by decide
  unfold tableAt
  rw [List.getD_eq_getElem?_getD]
  cases h : gai4IhevcTcTable[i.toNat]? with
  | none => exact le_rfl
  | some t => exact hall t (List.mem_of_getElem? h)

theorem qpTable_eq (h : 0 ≤ i ∧ i ≤ 57) : tableAt gai4IhevcQpTable i = Spec.Deblk.qpC 1 i := by
  have hall : ∀ n ≤ 57, gai4IhevcQpTable.getD n 0 = Spec.Deblk.qpC 1 n := by decide
  obtain ⟨n, rfl⟩ := Int.eq_ofNat_of_zero_le h.1
  exact hall n (by omega)

def flagsOf (filterFlagP filterFlagQ : Int) : EdgeFlags :=
  { filterP := filterFlagP ≠ 0, filterQ := filterFlagQ ≠ 0 }

/-- The edge that the arguments of a luma function describe. -/
def LumaArgs.edge (g : LumaArgs) : LumaEdge where
  bS := g.bs
  qpP := g.quantParamP
  qpQ := g.quantParamQ
  betaOffsetDiv2 := g.betaOffsetDiv2
  tcOffsetDiv2 := g.tcOffsetDiv2
  flags := flagsOf g.filterFlagP g.filterFlagQ

/-- An edge of the one component or the other. -/
def ChromaArgs.edge (g : ChromaArgs) (v : Bool) : ChromaEdge where
  chromaArrayType := g.chromaFmtIdc
  qpP := g.quantParamP
  qpQ := g.quantParamQ
  cQpPicOffset := if v then g.qpOffsetV else g.qpOffsetU
  tcOffsetDiv2 := g.tcOffsetDiv2
  flags := flagsOf g.filterFlagP g.filterFlagQ

theorem LumaArgs.betaIndx_bounds (g : LumaArgs) : 0 ≤ g.betaIndx ∧ g.betaIndx ≤ 51 := by
  rw [betaIndx, clip3_eq (by decide)]
  exact clip3_bounds (by decide)

theorem LumaArgs.tcIndx_bounds (g : LumaArgs) : 0 ≤ g.tcIndx ∧ g.tcIndx ≤ 53 := by
  rw [tcIndx, clip3_eq (by decide)]
  exact clip3_bounds (by decide)

theorem LumaArgs.beta_eq (g : LumaArgs) : g.beta = g.edge.beta := by
  have hidx : g.betaIndx = Spec.Deblk.clip3 0 51 (g.edge.qpL + 2 * g.edge.betaOffsetDiv2) := by
    rw [betaIndx, clip3_eq (by decide), LumaEdge.qpL, qpLuma, add_comm g.quantParamP]
    rfl
  rw [beta, betaTable_eq g.betaIndx_bounds, hidx]
  rfl

/-- Twice the half of the strength is twice what the strength exceeds 1 by. -/
theorem LumaArgs.tc_eq (g : LumaArgs) (hbs : g.bs = 1 ∨ g.bs = 2) : g.tc = g.edge.tc := by
  have hidx : g.tcIndx =
      Spec.Deblk.clip3 0 53 (g.edge.qpL + 2 * (g.edge.bS - 1) + 2 * g.edge.tcOffsetDiv2) := by
    have hhalf : g.bs / 2 = g.edge.bS - 1 := by
      change g.bs / 2 = g.bs - 1
      omega
    rw [tcIndx, clip3_eq (by decide), LumaEdge.qpL, qpLuma, add_comm g.quantParamP, hhalf]
    rfl
  rw [tc, tcTable_eq, hidx]
  rfl

theorem ChromaArgs.tcIndx_bounds (g : ChromaArgs) (o : Int) :
    0 ≤ g.tcIndx o ∧ g.tcIndx o ≤ 53 := by
  rw [tcIndx, clip3_eq (by decide)]
  exact clip3_bounds (by decide)

/-- The tables of the code for the formats 4:2:0 and 4:4:4. -/
theorem ChromaArgs.qpChroma_eq (g : ChromaArgs) (hfmt : g.chromaFmtIdc = 1 ∨ g.chromaFmtIdc = 3)
    (i : Int) : g.qpChroma i = Spec.Deblk.qpC g.chromaFmtIdc i := by
  rcases hfmt with hfmt | hfmt
  · rw [qpChroma, hfmt, if_neg (by decide)]
    split_ifs with hneg hbig
    · rw [Spec.Deblk.qpC, if_pos rfl, if_pos (by omega)]
    · rw [Spec.Deblk.qpC, if_pos rfl, if_neg (by omega), if_neg (by omega)]
    · exact qpTable_eq (by omega)
  · rw [qpChroma, hfmt, if_pos (by decide), Spec.Deblk.qpC, if_neg (by decide)]

def ChromaArgs.tcOf (g : ChromaArgs) (v : Bool) : Int := if v then g.tcV else g.tcU

theorem ChromaArgs.tcOf_eq (g : ChromaArgs) (hfmt : g.chromaFmtIdc = 1 ∨ g.chromaFmtIdc = 3)
    (v : Bool) : g.tcOf v = (g.edge v).tc := by
  have hidx : ∀ o, g.tcIndx o = Spec.Deblk.clip3 0 53 (Spec.Deblk.qpC g.chromaFmtIdc
      ((g.quantParamQ + g.quantParamP + 1) / 2 + o) + 2 * (2 - 1) + 2 * g.tcOffsetDiv2) := by
    intro o
    rw [tcIndx, clip3_eq (by decide), g.qpChroma_eq hfmt, qpIndx, add_comm o,
      add_comm g.quantParamP]
    rfl
  cases v with
  | false =>
    change tableAt gai4IhevcTcTable (g.tcIndx g.qpOffsetU) = _
    rw [tcTable_eq, hidx]
    rfl
  | true =>
    change tableAt gai4IhevcTcTable (g.tcIndx g.qpOffsetV) = _
    rw [tcTable_eq, hidx]
    rfl

theorem ChromaArgs.tcOf_nonneg (g : ChromaArgs) (v : Bool) : 0 ≤ g.tcOf v := by
  cases v with
  | false => exact tcTable_nonneg _
  | true => exact tcTable_nonneg _

-- ---------------------------------------------------------------------------
-- A luma line
-- ---------------------------------------------------------------------------

/-- The line that is read at the distances `-n` to `n - 1` from the edge. -/
def lineOf (n : Nat) (s : Int → Int) : EdgeLine n where
  p i := s (-1 - (i : Nat))
  q i := s (i : Nat)

/-- Samples of bit depth 8. -/
def Samples (s : Int → Int) : Prop := ∀ i, 0 ≤ s i ∧ s i ≤ 255

theorem sampleAt_samples (src : Int → UInt8) (a across : Int) :
    Samples (sampleAt src a across) := by
  intro i
  have hlt := (src (a + i * across)).toNat_lt
  unfold sampleAt
  omega

/-- The values a turn of the luma loop stores, between the samples it only reads. -/
def LumaTmp.line (tmp : LumaTmp) (s : Int → Int) : EdgeLine 4 where
  p := ![tmp.p0, tmp.p1, tmp.p2, s (-4)]
  q := ![tmp.q0, tmp.q1, tmp.q2, s 3]

theorem EdgeLine.ext_four {l l' : EdgeLine 4}
    (hp : l.p 0 = l'.p 0 ∧ l.p 1 = l'.p 1 ∧ l.p 2 = l'.p 2 ∧ l.p 3 = l'.p 3)
    (hq : l.q 0 = l'.q 0 ∧ l.q 1 = l'.q 1 ∧ l.q 2 = l'.q 2 ∧ l.q 3 = l'.q 3) : l = l' := by
  obtain ⟨hp0, hp1, hp2, hp3⟩ := hp
  obtain ⟨hq0, hq1, hq2, hq3⟩ := hq
  refine EdgeLine.ext (funext fun i => ?_) (funext fun i => ?_)
  · match i with
    | 0 => exact hp0
    | 1 => exact hp1
    | 2 => exact hp2
    | 3 => exact hp3
  · match i with
    | 0 => exact hq0
    | 1 => exact hq1
    | 2 => exact hq2
    | 3 => exact hq3

theorem clip3_around (htc : 0 ≤ tc) (x y : Int) :
    Libhevc.clip3 x (y - 2 * tc) (y + 2 * tc) = Spec.Deblk.clip3 (y - 2 * tc) (y + 2 * tc) x :=
  clip3_eq (by omega)

/-- The six values of the strong filter. -/
theorem lumaTmp_strong (htc : 0 ≤ tc) (hde : dec.de = 2) (s : Int → Int) :
    (lumaTmp tc dec s).line s =
      { p := Spec.Deblk.strongSide tc (lineOf 4 s).p (lineOf 4 s).q
        q := Spec.Deblk.strongSide tc (lineOf 4 s).q (lineOf 4 s).p } := by
  rw [lumaTmp, if_pos hde]
  simp only [clip3_around htc]
  apply EdgeLine.ext_four
  · refine ⟨?_, ?_, ?_, rfl⟩ <;>
      simp [LumaTmp.line, lineOf, Spec.Deblk.strongSide] <;> ring_nf
  · refine ⟨?_, ?_, ?_, rfl⟩ <;>
      simp [LumaTmp.line, lineOf, Spec.Deblk.strongSide]

/-- The values of the normal filter. -/
theorem lumaTmp_normal (htc : 0 ≤ tc) (hde : dec.de ≠ 2) (s : Int → Int) :
    (lumaTmp tc dec s).line s =
      Spec.Deblk.normalLine tc (decide (dec.dep = 1)) (decide (dec.deq = 1)) (lineOf 4 s) := by
  have hdiff : Spec.Deblk.normalDiff (lineOf 4 s) = 9 * (s 0 - s (-1)) - 3 * (s 1 - s (-2)) := rfl
  have hdelta : ∀ x, Libhevc.clip3 x (-tc) tc = Spec.Deblk.clip3 (-tc) tc x :=
    fun x => clip3_eq (by omega)
  have hhalf : ∀ x, Libhevc.clip3 x (-(tc / 2)) (tc / 2) =
      Spec.Deblk.clip3 (-(tc / 2)) (tc / 2) x := fun x => clip3_eq (by omega)
  rw [lumaTmp, if_neg hde, Spec.Deblk.normalLine, hdiff]
  simp only [hdelta, hhalf, clipU8_eq, mul_comm tc 10]
  by_cases hlt :
      (((9 * (s 0 - s (-1)) - 3 * (s 1 - s (-2)) + 8) / 16).natAbs : Int) < 10 * tc
  · rw [if_pos hlt, if_pos hlt]
    generalize Spec.Deblk.clip3 (-tc) tc _ = delta
    apply EdgeLine.ext_four
    · refine ⟨rfl, ?_, rfl, rfl⟩
      by_cases hdep : dec.dep = 1 <;> simp [LumaTmp.line, lineOf, Spec.Deblk.normalSide, hdep]
    · refine ⟨rfl, ?_, rfl, rfl⟩
      by_cases hdeq : dec.deq = 1 <;>
        simp [LumaTmp.line, lineOf, Spec.Deblk.normalSide, hdeq, sub_eq_add_neg]
  · rw [if_neg hlt, if_neg hlt]
    exact EdgeLine.ext_four ⟨rfl, rfl, rfl, rfl⟩ ⟨rfl, rfl, rfl, rfl⟩

/-- With `tC` at most 1 the second sample of a side is as it was. -/
theorem normalSide_of_le_one (htc : 0 ≤ tc) (hle : tc ≤ 1)
    (hnear : 0 ≤ near 1 ∧ near 1 ≤ 255) (delta : Int) (dE1 : Bool) :
    Spec.Deblk.normalSide tc delta dE1 near = Spec.Deblk.normalSide tc delta false near := by
  have hzero : tc / 2 = 0 := by omega
  have hclip : ∀ x, Spec.Deblk.clip3 (-(tc / 2)) (tc / 2) x = 0 := by
    intro x
    have hbounds := clip3_bounds (x := x) (show -(tc / 2) ≤ tc / 2 by omega)
    omega
  have hsame : clip1 (near 1) = near 1 := by
    unfold clip1 Spec.Deblk.clip3
    rw [if_neg (by omega), if_neg (by omega)]
  funext i
  match i with
  | 0 => rfl
  | 1 =>
    cases dE1 with
    | false => rfl
    | true => simpa [Spec.Deblk.normalSide, hclip] using hsame
  | 2 => rfl
  | 3 => rfl

/-- What a turn of the luma loop makes of its line. -/
def lineFilter (tc : Int) (dec : Decision) (l : EdgeLine 4) : EdgeLine 4 :=
  if dec.de = 2 then
    { p := Spec.Deblk.strongSide tc l.p l.q, q := Spec.Deblk.strongSide tc l.q l.p }
  else Spec.Deblk.normalLine tc (decide (dec.dep = 1)) (decide (dec.deq = 1)) l

theorem lumaTmp_line (htc : 0 ≤ tc) (dec : Decision) (s : Int → Int) :
    (lumaTmp tc dec s).line s = lineFilter tc dec (lineOf 4 s) := by
  unfold lineFilter
  split_ifs with hde
  · exact lumaTmp_strong htc hde s
  · exact lumaTmp_normal htc hde s

/-- The line consists of samples of bit depth 8. -/
def InDepth (l : EdgeLine n) : Prop := ∀ i, (0 ≤ l.p i ∧ l.p i ≤ 255) ∧ (0 ≤ l.q i ∧ l.q i ≤ 255)

theorem lineOf_inDepth (hs : Samples s) : InDepth (lineOf n s) := fun _ => ⟨hs _, hs _⟩

theorem normalLine_of_le_one (htc : 0 ≤ tc) (hle : tc ≤ 1) (hl : InDepth l) (dEp dEq : Bool) :
    Spec.Deblk.normalLine tc dEp dEq l = Spec.Deblk.normalLine tc false false l := by
  unfold Spec.Deblk.normalLine
  dsimp only
  split_ifs with hlt
  · rw [normalSide_of_le_one htc hle (hl 1).1 _ dEp, normalSide_of_le_one htc hle (hl 1).2 _ dEq]
  · rfl

-- ---------------------------------------------------------------------------
-- The decisions
-- ---------------------------------------------------------------------------

theorem dSam_eq_one : dSam beta tc d s = 1 ↔ Spec.Deblk.dSam beta tc (2 * d) (lineOf 4 s) := by
  have hside : ((s 3 - s 0).natAbs : Int) + ((s (-1) - s (-4)).natAbs : Int) =
      ((s (-4) - s (-1)).natAbs : Int) + ((s 0 - s 3).natAbs : Int) := by omega
  have hedge : ((s 0 - s (-1)).natAbs : Int) = ((s (-1) - s 0).natAbs : Int) := by omega
  rw [dSam, hside, hedge]
  split_ifs with hsam
  · exact iff_of_true rfl hsam
  · exact iff_of_false (by decide) hsam

/-- The decision of an edge that is filtered. -/
theorem lumaDecision_eq {block : Fin 4 → Int → Int}
    (hfil : Spec.Deblk.filtered beta fun k => lineOf 4 (block k)) :
    lumaDecision beta tc (block 0) (block 3) =
      { de := if Spec.Deblk.strong beta tc fun k => lineOf 4 (block k) then 2 else 1
        dep := if tc ≤ 1 then 0
          else if Spec.Deblk.second beta (lineOf 4 (block 0)).p (lineOf 4 (block 3)).p then 1 else 0
        deq := if tc ≤ 1 then 0
          else if Spec.Deblk.second beta (lineOf 4 (block 0)).q (lineOf 4 (block 3)).q then 1
            else 0 } := by
  have hsum : dpLine (block 0) + dqLine (block 0) + (dpLine (block 3) + dqLine (block 3)) < beta :=
    hfil
  unfold lumaDecision
  dsimp only
  rw [if_pos hsum]
  simp only [dSam_eq_one, Spec.Deblk.second, decide_eq_true_eq]
  rfl

/-- What the code does with a line of an edge is what the section says. -/
theorem lineFilter_lumaDecision (htc : 0 ≤ tc) {block : Fin 4 → Int → Int}
    (hfil : Spec.Deblk.filtered beta fun k => lineOf 4 (block k)) (hl : InDepth l) :
    lineFilter tc (lumaDecision beta tc (block 0) (block 3)) l =
      if Spec.Deblk.strong beta tc fun k => lineOf 4 (block k) then
        { p := Spec.Deblk.strongSide tc l.p l.q, q := Spec.Deblk.strongSide tc l.q l.p }
      else
        Spec.Deblk.normalLine tc
          (Spec.Deblk.second beta (lineOf 4 (block 0)).p (lineOf 4 (block 3)).p)
          (Spec.Deblk.second beta (lineOf 4 (block 0)).q (lineOf 4 (block 3)).q) l := by
  rw [lumaDecision_eq hfil, lineFilter]
  by_cases hst : Spec.Deblk.strong beta tc fun k => lineOf 4 (block k)
  · rw [if_pos hst, if_pos hst, if_pos rfl]
  · rw [if_neg hst, if_neg hst, if_neg (show (1 : Int) ≠ 2 by decide)]
    by_cases hle : tc ≤ 1
    · rw [normalLine_of_le_one htc hle hl, normalLine_of_le_one htc hle hl (Spec.Deblk.second ..)]
    · simp only [if_neg hle]
      congr 1
      · cases Spec.Deblk.second beta (lineOf 4 (block 0)).p (lineOf 4 (block 3)).p <;> rfl
      · cases Spec.Deblk.second beta (lineOf 4 (block 0)).q (lineOf 4 (block 3)).q <;> rfl

-- ---------------------------------------------------------------------------
-- The values fit a byte
-- ---------------------------------------------------------------------------

/-- The mean lies between the samples, so does what the clipping takes in its place. -/
theorem strongSide_bounds (htc : 0 ≤ tc) (hn : ∀ i, 0 ≤ near i ∧ near i ≤ 255)
    (hf : ∀ i, 0 ≤ far i ∧ far i ≤ 255) (i : Fin 4) :
    0 ≤ Spec.Deblk.strongSide tc near far i ∧ Spec.Deblk.strongSide tc near far i ≤ 255 := by
  have hclip : ∀ x y : Int, 0 ≤ x ∧ x ≤ 255 → 0 ≤ y ∧ y ≤ 255 →
      0 ≤ Spec.Deblk.clip3 (y - 2 * tc) (y + 2 * tc) x ∧
        Spec.Deblk.clip3 (y - 2 * tc) (y + 2 * tc) x ≤ 255 := by
    intro x y hx hy
    unfold Spec.Deblk.clip3
    split_ifs <;> omega
  have h0 := hn 0
  have h1 := hn 1
  have h2 := hn 2
  have h3 := hn 3
  have hf0 := hf 0
  have hf1 := hf 1
  match i with
  | 0 => exact hclip _ _ (by omega) h0
  | 1 => exact hclip _ _ (by omega) h1
  | 2 => exact hclip _ _ (by omega) h2
  | 3 => exact h3

theorem normalSide_bounds (hn : ∀ i, 0 ≤ near i ∧ near i ≤ 255) (delta : Int) (dE1 : Bool)
    (i : Fin 4) : 0 ≤ Spec.Deblk.normalSide tc delta dE1 near i ∧
      Spec.Deblk.normalSide tc delta dE1 near i ≤ 255 := by
  match i with
  | 0 => exact clip1_bounds _
  | 1 =>
    cases dE1 with
    | false => exact hn 1
    | true => exact clip1_bounds _
  | 2 => exact hn 2
  | 3 => exact hn 3

theorem normalLine_inDepth (hl : InDepth l) (dEp dEq : Bool) :
    InDepth (Spec.Deblk.normalLine tc dEp dEq l) := by
  unfold Spec.Deblk.normalLine
  dsimp only
  split_ifs with hlt
  · exact fun i => ⟨normalSide_bounds (fun i => (hl i).1) _ _ i,
      normalSide_bounds (fun i => (hl i).2) _ _ i⟩
  · exact hl

theorem lineFilter_inDepth (htc : 0 ≤ tc) (dec : Decision) (hl : InDepth l) :
    InDepth (lineFilter tc dec l) := by
  unfold lineFilter
  split_ifs with hde
  · exact fun i => ⟨strongSide_bounds htc (fun i => (hl i).1) (fun i => (hl i).2) i,
      strongSide_bounds htc (fun i => (hl i).2) (fun i => (hl i).1) i⟩
  · exact normalLine_inDepth hl _ _

-- ---------------------------------------------------------------------------
-- Stores
-- ---------------------------------------------------------------------------

theorem sampleAt_store (hacross : across ≠ 0) (hx : 0 ≤ x ∧ x ≤ 255) (j : Int) :
    sampleAt (store src a across i x) a across j =
      if j = i then x else sampleAt src a across j := by
  have haddr : a + j * across = a + i * across ↔ j = i := by
    rw [add_right_inj, mul_left_inj' hacross]
  unfold sampleAt store
  rw [Function.update_apply]
  simp only [haddr]
  split_ifs with hji
  · rw [UInt8.ofInt, UInt8.toNat_ofNat']
    omega
  · rfl

theorem store_apply_of_ne {a : Int} (h : y ≠ a + i * across) : store src a across i x y = src y :=
  Function.update_of_ne h ..

/-- The cells of a line. -/
def lineCells (n : Nat) (a across : Int) : Set Int :=
  {x | ∃ i : Int, -n ≤ i ∧ i < n ∧ x = a + i * across}

theorem lineOf_congr {src src' : Int → UInt8}
    (h : ∀ x ∈ lineCells n a across, src x = src' x) :
    lineOf n (sampleAt src a across) = lineOf n (sampleAt src' a across) := by
  have hread : ∀ i : Int, -n ≤ i → i < n → sampleAt src a across i = sampleAt src' a across i := by
    intro i hlo hhi
    unfold sampleAt
    rw [h _ ⟨i, hlo, hhi, rfl⟩]
  apply EdgeLine.ext
  · funext i
    exact hread _ (by omega) (by omega)
  · funext i
    exact hread _ (by omega) (by omega)

/-- A turn of the luma loop stores the values, except on a side that is not to be filtered. -/
theorem lumaRow_line (g : LumaArgs) (dec : Decision) (hacross : across ≠ 0) (src : Int → UInt8)
    (a : Int) :
    lineOf 4 (sampleAt (lumaRow g dec across src a) a across) =
      g.edge.flags.choose (lineOf 4 (sampleAt src a across))
        (lineFilter g.tc dec (lineOf 4 (sampleAt src a across))) := by
  have htc : 0 ≤ g.tc := tcTable_nonneg g.tcIndx
  have hdepth := lineFilter_inDepth htc dec (lineOf_inDepth (sampleAt_samples src a across))
  rw [← lumaTmp_line htc] at hdepth ⊢
  unfold lumaRow
  dsimp only
  generalize lumaTmp g.tc dec (sampleAt src a across) = tmp at *
  have hp0 : 0 ≤ tmp.p0 ∧ tmp.p0 ≤ 255 := (hdepth 0).1
  have hp1 : 0 ≤ tmp.p1 ∧ tmp.p1 ≤ 255 := (hdepth 1).1
  have hp2 : 0 ≤ tmp.p2 ∧ tmp.p2 ≤ 255 := (hdepth 2).1
  have hq0 : 0 ≤ tmp.q0 ∧ tmp.q0 ≤ 255 := (hdepth 0).2
  have hq1 : 0 ≤ tmp.q1 ∧ tmp.q1 ≤ 255 := (hdepth 1).2
  have hq2 : 0 ≤ tmp.q2 ∧ tmp.q2 ≤ 255 := (hdepth 2).2
  by_cases hp : g.filterFlagP = 0 <;> by_cases hq : g.filterFlagQ = 0
  all_goals
    simp only [hp, hq, ne_eq, not_true_eq_false, not_false_eq_true, if_true, if_false]
    apply EdgeLine.ext_four <;>
      simp [lineOf, LumaTmp.line, EdgeFlags.choose, LumaArgs.edge, flagsOf, hp, hq,
        sampleAt_store hacross hp0, sampleAt_store hacross hp1, sampleAt_store hacross hp2,
        sampleAt_store hacross hq0, sampleAt_store hacross hq1, sampleAt_store hacross hq2]

theorem lumaRow_outside (h : x ∉ lineCells 4 a across) : lumaRow g dec across src a x = src x := by
  have hne : ∀ i : Int, -4 ≤ i → i < 4 → x ≠ a + i * across :=
    fun i hlo hhi heq => h ⟨i, hlo, hhi, heq⟩
  unfold lumaRow
  simp only [apply_ite (fun m : Int → UInt8 => m x)]
  split_ifs <;>
    simp only [store_apply_of_ne (hne (-3) (by decide) (by decide)),
      store_apply_of_ne (hne (-2) (by decide) (by decide)),
      store_apply_of_ne (hne (-1) (by decide) (by decide)),
      store_apply_of_ne (hne 0 (by decide) (by decide)),
      store_apply_of_ne (hne 1 (by decide) (by decide)),
      store_apply_of_ne (hne 2 (by decide) (by decide))]

-- ---------------------------------------------------------------------------
-- The luma edge
-- ---------------------------------------------------------------------------

/-- The lines of an edge at `a`. -/
def blockAt (n : Nat) (src : Int → UInt8) (a across along : Int) (k : Fin 4) : EdgeLine n :=
  lineOf n (sampleAt src (a + (k : Nat) * along) across)

/-- No two of the lines share a cell. -/
def Apart (n lines : Nat) (across along : Int) : Prop :=
  ∀ a, (List.range lines).Pairwise fun k l : Nat =>
    Disjoint (lineCells n (a + k * along) across) (lineCells n (a + l * along) across)

theorem eq_of_mul_add_eq {k l : Nat} {i j strd : Int} (hij : i - j < strd) (hji : j - i < strd)
    (h : k * strd + i = l * strd + j) : k = l := by
  have hdvd : strd ∣ j - i := ⟨k - l, by linear_combination -h⟩
  have hzero : j - i = 0 := Int.eq_zero_of_abs_lt_dvd hdvd (abs_lt.mpr ⟨by omega, hji⟩)
  have hpos : strd ≠ 0 := by omega
  have hmul : (k : Int) * strd = l * strd := by omega
  exact Int.ofNat.inj (mul_right_cancel₀ hpos hmul)

/-- Rows do not overlap where they are no longer than the stride. -/
theorem apart_rows {n : Nat} {strd : Int} (h : 2 * n ≤ strd) (lines : Nat) :
    Apart n lines 1 strd := by
  intro a
  apply List.nodup_range.imp
  intro k l hkl
  apply Set.disjoint_left.mpr
  rintro x ⟨i, hilo, hihi, rfl⟩ ⟨j, hjlo, hjhi, heq⟩
  have hsum : k * strd + i = l * strd + j := by linear_combination heq
  exact hkl (eq_of_mul_add_eq (by omega) (by omega) hsum)

/-- Nor do columns, where there are no more of them. -/
theorem apart_columns {lines : Nat} {strd : Int} (h : lines ≤ strd) : Apart n lines strd 1 := by
  intro a
  apply List.Pairwise.imp_of_mem _ List.nodup_range
  intro k l hk hl hkl
  have hklt := List.mem_range.mp hk
  have hllt := List.mem_range.mp hl
  apply Set.disjoint_left.mpr
  rintro x ⟨i, -, -, rfl⟩ ⟨j, -, -, heq⟩
  have hdvd : strd ∣ (k : Int) - l := ⟨j - i, by linear_combination heq⟩
  have hzero : (k : Int) - l = 0 :=
    Int.eq_zero_of_abs_lt_dvd hdvd (abs_lt.mpr ⟨by omega, by omega⟩)
  omega

/-- The loop filters each line once. -/
theorem lumaRows_confined (g : LumaArgs) (dec : Decision) (hacross : across ≠ 0)
    (a along : Int) :
    Memory.Confined (fun k : Nat => lineCells 4 (a + k * along) across)
      (fun src k => lineOf 4 (sampleAt src (a + k * along) across))
      (fun src row => lumaRow g dec across src (a + row * along))
      (fun _ l => g.edge.flags.choose l (lineFilter g.tc dec l)) where
  view_congr := fun h => lineOf_congr h
  step_view := fun src _ => lumaRow_line g dec hacross src _
  step_outside := fun _ _ _ hx => lumaRow_outside hx

/-- Where `tC` is 0 the section leaves all samples alone. -/
theorem filter_of_tc_zero {e : LumaEdge} (htc : e.tc = 0) (block : Fin 4 → EdgeLine 4) :
    e.filter block = block := by
  have hclip : ∀ x y : Int, Spec.Deblk.clip3 (y - 2 * 0) (y + 2 * 0) x = y := by
    intro x y
    unfold Spec.Deblk.clip3
    split_ifs <;> omega
  have hstrong : ∀ near far : Fin 4 → Int, Spec.Deblk.strongSide 0 near far = near := by
    intro near far
    funext i
    match i with
    | 0 => exact hclip _ _
    | 1 => exact hclip _ _
    | 2 => exact hclip _ _
    | 3 => rfl
  have hnormal : ∀ dEp dEq l, Spec.Deblk.normalLine 0 dEp dEq l = l := by
    intro dEp dEq l
    unfold Spec.Deblk.normalLine
    exact if_neg (by omega)
  have hchoose : ∀ (f : EdgeFlags) (l : EdgeLine 4), f.choose l l = l := by
    intro f l
    simp [EdgeFlags.choose]
  funext k
  rw [LumaEdge.filter, htc]
  simp only [hstrong, hnormal, ite_self, hchoose]

theorem lumaDecision_of_not_filtered {block : Fin 4 → Int → Int}
    (hfil : ¬ Spec.Deblk.filtered beta fun k => lineOf 4 (block k)) :
    (lumaDecision beta tc (block 0) (block 3)).de = 0 := by
  have hsum : ¬ dpLine (block 0) + dqLine (block 0) + (dpLine (block 3) + dqLine (block 3)) <
      beta := hfil
  unfold lumaDecision
  dsimp only
  rw [if_neg hsum]

theorem lumaDecision_of_filtered {block : Fin 4 → Int → Int}
    (hfil : Spec.Deblk.filtered beta fun k => lineOf 4 (block k)) :
    (lumaDecision beta tc (block 0) (block 3)).de ≠ 0 := by
  rw [lumaDecision_eq hfil]
  dsimp only
  split_ifs <;> decide

theorem deblkLuma_block (g : LumaArgs) (hbs : g.bs = 1 ∨ g.bs = 2) (hacross : across ≠ 0)
    (hapart : Apart 4 4 across along) (src : Int → UInt8) (a : Int) :
    blockAt 4 (deblkLuma g across along src a) a across along =
      g.edge.filter (blockAt 4 src a across along) := by
  have htc : 0 ≤ g.tc := tcTable_nonneg g.tcIndx
  by_cases htc0 : g.tc = 0
  · rw [deblkLuma, if_pos htc0, filter_of_tc_zero ((g.tc_eq hbs).symm.trans htc0)]
  · let block : Fin 4 → Int → Int := fun k => sampleAt src (a + (k : Nat) * along) across
    have hblock : blockAt 4 src a across along = fun k => lineOf 4 (block k) := rfl
    have hline0 : sampleAt src a across = block 0 := by simp [block]
    have hline3 : sampleAt src (a + 3 * along) across = block 3 := rfl
    rw [deblkLuma, if_neg htc0, hline0, hline3]
    by_cases hfil : Spec.Deblk.filtered g.beta fun k => lineOf 4 (block k)
    · rw [if_pos (lumaDecision_of_filtered hfil)]
      funext k
      have hloop := (lumaRows_confined g (lumaDecision g.beta g.tc (block 0) (block 3)) hacross a
        along).foldl_view (List.range 4) src (hapart a) (List.mem_range.mpr k.isLt)
      have hdepth : InDepth (lineOf 4 (block k)) := lineOf_inDepth (sampleAt_samples src _ across)
      refine hloop.trans ?_
      rw [lineFilter_lumaDecision htc hfil hdepth, hblock, LumaEdge.filter, ← g.tc_eq hbs,
        ← g.beta_eq, if_pos hfil]
    · rw [if_neg (not_not.mpr (lumaDecision_of_not_filtered hfil)), hblock]
      funext k
      rw [LumaEdge.filter, ← g.beta_eq, if_neg hfil]

theorem deblkLuma_outside (g : LumaArgs) (hacross : across ≠ 0) (src : Int → UInt8) (a : Int)
    (hx : ∀ k < 4, x ∉ lineCells 4 (a + (k : Nat) * along) across) :
    deblkLuma g across along src a x = src x := by
  unfold deblkLuma
  dsimp only
  split_ifs
  · rfl
  · exact (lumaRows_confined g _ hacross a along).foldl_outside _ src
      fun k hk => hx k (List.mem_range.mp hk)
  · rfl

end Libhevc.Deblk
