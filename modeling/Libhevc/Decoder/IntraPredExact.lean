import Libhevc.Common.IntraModeLaws
import Libhevc.Decoder.IntraNbr

/-!
# Intra prediction is that of the standard

The word of `ihevcd_get_intra_nbr_flag` marks a sample of the block or is 0, so substitution,
filtering and prediction of a luma block give the samples of section 8.4.4.2, and the two
components of a chroma array are substituted as luma is.
-/

namespace Libhevc.IntraPred

open Cells Decoder NbrProc Spec.IntraPred

variable {nt flags unit : Nat}

-- ---------------------------------------------------------------------------
-- The flag word
-- ---------------------------------------------------------------------------

/-- A side is not marked, or one of its first `n` units is. -/
def SideOk (n s : Nat) : Prop := s ≠ 0 → ∃ j < n, s.testBit j

theorem SideOk.and_mask (x n r : Nat) : SideOk n ((x &&& (1 <<< n - 1)) &&& r) := by
  intro hne
  obtain ⟨j, hj⟩ := Nat.exists_testBit_of_ne_zero hne
  rw [Nat.testBit_and, Nat.testBit_and, Nat.one_shiftLeft, Nat.testBit_two_pow_sub_one,
    Bool.and_eq_true, Bool.and_eq_true, decide_eq_true_iff] at hj
  refine ⟨j, hj.1.2, ?_⟩
  rw [Nat.testBit_and, Nat.testBit_and, Nat.one_shiftLeft, Nat.testBit_two_pow_sub_one,
    Bool.and_eq_true, Bool.and_eq_true, decide_eq_true_iff]
  exact hj

/-- All units of a side, as far as the picture goes. -/
theorem SideOk.all (hn : 0 < n) (k : Nat) : SideOk n (0xF &&& (1 <<< k - 1)) := by
  intro hne
  refine ⟨0, hn, ?_⟩
  rw [Nat.testBit_and, Nat.one_shiftLeft, Nat.testBit_two_pow_sub_one, Bool.and_eq_true,
    decide_eq_true_iff]
  refine ⟨rfl, Nat.pos_of_ne_zero fun hk => hne ?_⟩
  simp [hk]

theorem SideOk.sideFlags (p : NbrProc) (hn : 0 < n) (avail : Bool) (x k : Nat) :
    SideOk n (p.sideFlags avail (x &&& (1 <<< n - 1)) &&& (1 <<< k - 1)) := by
  unfold NbrProc.sideFlags
  split_ifs
  · exact SideOk.and_mask x n _
  · exact SideOk.all hn k
  · intro hne
    simp at hne

theorem sideFlags_lt (p : NbrProc) (hn : n ≤ 4) (avail : Bool) (x : Nat) :
    p.sideFlags avail (x &&& (1 <<< n - 1)) < 16 := by
  unfold NbrProc.sideFlags
  split_ifs
  · refine Nat.lt_of_le_of_lt Nat.and_le_right ?_
    have hpow := Nat.pow_le_pow_right (by decide : 0 < 2) hn
    have hpos := Nat.two_pow_pos n
    rw [Nat.one_shiftLeft]
    omega
  · decide
  · decide

/-- A side of the word that is within the flag's four bits is not changed by a mask of four. -/
theorem SideOk.whole (p : NbrProc) (hn : 0 < n) (hn' : n ≤ 4) (avail : Bool) (x : Nat) :
    SideOk n (p.sideFlags avail (x &&& (1 <<< n - 1))) := by
  have hmask : p.sideFlags avail (x &&& (1 <<< n - 1)) &&& (1 <<< 4 - 1) =
      p.sideFlags avail (x &&& (1 <<< n - 1)) := by
    rw [show 1 <<< 4 - 1 = 2 ^ 4 - 1 by decide, Nat.and_two_pow_sub_one_eq_mod]
    exact Nat.mod_eq_of_lt (sideFlags_lt p hn' avail x)
  rw [← hmask]
  exact SideOk.sideFlags p hn avail x 4

theorem reverse_testBit {s j : Nat} (hs : s < 16) (hj : j < 4) :
    (gau4IhevcdBitReverse s).testBit (3 - j) = s.testBit j := by
  have hall : ∀ s < 16, ∀ j < 4, (gau4IhevcdBitReverse s).testBit (3 - j) = s.testBit j := by
    decide
  exact hall s hs j hj

/-- A word put together from its five parts. -/
def nbrWord (topLeft topRight top left botLeft : Nat) : Nat :=
  topLeft <<< 16 ||| topRight <<< 12 ||| top <<< 8 ||| gau4IhevcdBitReverse left <<< 4 |||
    gau4IhevcdBitReverse botLeft

theorem nbrWord_testBit (tl tr t l bl : Nat) {k : Nat}
    (h : (tl <<< 16).testBit k ∨ (tr <<< 12).testBit k ∨ (t <<< 8).testBit k ∨
      (gau4IhevcdBitReverse l <<< 4).testBit k ∨ (gau4IhevcdBitReverse bl).testBit k) :
    (nbrWord tl tr t l bl).testBit k = true := by
  rcases h with h | h | h | h | h <;>
    simp only [nbrWord, Nat.testBit_or, h, Bool.or_true, Bool.true_or]

theorem testBit_shift {s j : Nat} (k : Nat) (h : s.testBit j) : (s <<< k).testBit (k + j) := by
  rw [Nat.testBit_shiftLeft, Nat.add_sub_cancel_left, h]
  simp

theorem nbrWord_ok {tl tr t l bl n : Nat} (hunit : 0 < unit) (hn : n ≤ 4) (hnt : 0 < nt)
    (hsize : ∀ j < n, j * unit < nt) (htl : tl < 2) (hl : l < 16) (hbl : bl < 16)
    (h₁ : SideOk n tr) (h₂ : SideOk n t) (h₃ : SideOk n l) (h₄ : SideOk n bl) :
    FlagsOk unit nt (nbrWord tl tr t l bl) := by
  have hdiv : ∀ j, j * unit / unit = j := fun j => Nat.mul_div_cancel j hunit
  by_cases htr : tr = 0
  · by_cases ht : t = 0
    · by_cases hleft : l = 0
      · by_cases hbotl : bl = 0
        · by_cases htop : tl = 0
          · subst htr ht hleft hbotl htop
            exact .inl rfl
          · obtain rfl : tl = 1 := by omega
            refine .inr ⟨2 * nt, by omega, ?_⟩
            rw [nbrAvail, nbrFlagIdx, if_neg (by omega), if_neg (by omega), if_pos rfl]
            exact nbrWord_testBit _ _ _ _ _ (.inl (by decide))
        · obtain ⟨j, hj, hset⟩ := h₄ hbotl
          have hin := hsize j hj
          refine .inr ⟨nt - 1 - j * unit, by omega, ?_⟩
          rw [nbrAvail, nbrFlagIdx, if_pos (by omega),
            show nt - 1 - (nt - 1 - j * unit) = j * unit by omega, hdiv]
          refine nbrWord_testBit _ _ _ _ _ (.inr (.inr (.inr (.inr ?_))))
          rw [reverse_testBit hbl (by omega), hset]
      · obtain ⟨j, hj, hset⟩ := h₃ hleft
        have hin := hsize j hj
        refine .inr ⟨2 * nt - 1 - j * unit, by omega, ?_⟩
        rw [nbrAvail, nbrFlagIdx, if_neg (by omega), if_pos (by omega),
          show 2 * nt - 1 - (2 * nt - 1 - j * unit) = j * unit by omega, hdiv,
          show 7 - j = 4 + (3 - j) by omega]
        refine nbrWord_testBit _ _ _ _ _ (.inr (.inr (.inr (.inl (testBit_shift 4 ?_)))))
        rw [reverse_testBit hl (by omega), hset]
    · obtain ⟨j, hj, hset⟩ := h₂ ht
      have hin := hsize j hj
      refine .inr ⟨2 * nt + 1 + j * unit, by omega, ?_⟩
      rw [nbrAvail, nbrFlagIdx, if_neg (by omega), if_neg (by omega), if_neg (by omega),
        if_pos (by omega), show 2 * nt + 1 + j * unit - 2 * nt - 1 = j * unit by omega, hdiv]
      exact nbrWord_testBit _ _ _ _ _ (.inr (.inr (.inl (testBit_shift 8 hset))))
  · obtain ⟨j, hj, hset⟩ := h₁ htr
    have hin := hsize j hj
    refine .inr ⟨3 * nt + 1 + j * unit, by omega, ?_⟩
    rw [nbrAvail, nbrFlagIdx, if_neg (by omega), if_neg (by omega), if_neg (by omega),
      if_neg (by omega), show 3 * nt + 1 + j * unit - 3 * nt - 1 = j * unit by omega, hdiv]
    exact nbrWord_testBit _ _ _ _ _ (.inr (.inl (testBit_shift 12 hset)))

theorem ihevcdGetIntraNbrFlag_ok (p : NbrProc) (m : Nat → Nat) (tu : NbrTu) (hsize : tu.b3Size < 4)
    (hunit : unit = 4 ∨ unit = 8) (hnt : nt * 8 = tu.transSize * unit) (hmin : 4 ≤ nt) :
    FlagsOk unit nt (p.ihevcdGetIntraNbrFlag m tu) := by
  have hblks : 0 < num8Blks tu ∧ num8Blks tu ≤ 4 ∧ ∀ j < num8Blks tu, j * unit < nt := by
    have htrans : tu.transSize = 4 ∨ tu.transSize = 8 ∨ tu.transSize = 16 ∨ tu.transSize = 32 := by
      unfold NbrTu.transSize
      interval_cases tu.b3Size <;> simp
    unfold num8Blks
    rcases htrans with h | h | h | h <;> rw [h] at hnt ⊢ <;> rcases hunit with rfl | rfl <;>
      norm_num <;> omega
  obtain ⟨hn, hn', hblk⟩ := hblks
  have hand : ∀ s r : Nat, s < 16 → s &&& r < 16 := fun s r hs =>
    Nat.lt_of_le_of_lt Nat.and_le_left hs
  refine nbrWord_ok (by omega) hn' (by omega) hblk ?_ (sideFlags_lt p hn' _ _)
    (hand _ _ (sideFlags_lt p hn' _ _)) (SideOk.sideFlags p hn _ _ _)
    (SideOk.whole p hn hn' _ _) (SideOk.whole p hn hn' _ _) (SideOk.sideFlags p hn _ _ _)
  split_ifs
  · exact Nat.lt_of_le_of_lt Nat.and_le_right (by decide)
  · decide
  · decide

-- ---------------------------------------------------------------------------
-- Substitution
-- ---------------------------------------------------------------------------

/-- The neighbours by their place. -/
def Neighbours.samples (nb : Neighbours Int) : Samples := fun x y =>
  if x = -1 then if y = -1 then nb.pu1TopLeft else nb.pu1Left y.toNat else nb.pu1Top x.toNat

/-- The samples that a flag word marks, `unit` of them for each flag of a side. -/
def flagAvail (unit nt flags : Nat) (x y : Int) : Bool :=
  flags.testBit
    (if x = -1 then
      if y = -1 then 16
      else if y < nt then 7 - y.toNat / unit
      else 3 - (y.toNat - nt) / unit
    else if x < nt then 8 + x.toNat / unit
    else 12 + (x.toNat - nt) / unit)

/-- What the standard predicts from, for a flag word. -/
def substitutedSamples (nb : Neighbours Int) (unit nt flags : Nat) : Samples :=
  substitution nt (flagAvail unit nt flags) nb.samples

theorem flagAvail_scan (i : Nat) :
    flagAvail unit nt flags (scanX nt i) (scanY nt i) = nbrAvail unit nt flags i := by
  refine congrArg flags.testBit ?_
  unfold scanX scanY nbrFlagIdx
  by_cases hleft : i < 2 * nt
  · rw [if_pos hleft, if_pos hleft, if_pos rfl, if_neg (by omega)]
    by_cases hbot : i < nt
    · rw [if_neg (by omega), if_pos hbot]
      congr 2
      omega
    · rw [if_pos (by omega), if_neg hbot, if_pos hleft]
      congr 2
      omega
  · rw [if_neg hleft, if_neg hleft, if_neg (by omega : ¬i < nt), if_neg hleft]
    by_cases hcorner : i = 2 * nt
    · rw [if_pos (by omega), if_pos rfl, if_pos hcorner]
    · rw [if_neg (by omega), if_neg hcorner]
      by_cases htop : i < 3 * nt + 1
      · rw [if_pos (by omega), if_pos htop]
        congr 2
        omega
      · rw [if_neg (by omega), if_neg htop]
        congr 2
        omega

theorem samples_scan (nb : Neighbours Int) (i : Nat) :
    nb.samples (scanX nt i) (scanY nt i) = nb.scan nt i := by
  unfold Neighbours.samples scanX scanY Neighbours.scan
  by_cases hleft : i < 2 * nt
  · rw [if_pos hleft, if_pos hleft, if_pos rfl, if_neg (by omega), if_pos hleft]
    congr 1
    omega
  · rw [if_neg hleft, if_neg hleft, if_neg hleft, if_pos rfl]
    by_cases hcorner : i = 2 * nt
    · rw [if_pos (by omega), if_pos hcorner]
    · rw [if_neg (by omega), if_neg hcorner]
      congr 1
      omega

theorem atScan_substituted (nb : Neighbours Int) (i : Nat) :
    atScan (substitutedSamples nb unit nt flags) nt i = refSamples 128 nb unit nt flags i := by
  have hidx : ∀ x y : Int, scanIdx nt x y = i →
      substitutedSamples nb unit nt flags x y = refSamples 128 nb unit nt flags i := by
    intro x y h
    rw [substitutedSamples, substitution, refSamples, h]
    congr 1
    · exact funext flagAvail_scan
    · exact funext (samples_scan nb)
  unfold atScan
  split_ifs with hleft
  · refine hidx _ _ ?_
    rw [scanIdx, if_pos rfl]
    omega
  · refine hidx _ _ ?_
    unfold scanIdx
    split_ifs <;> omega

/-- Samples of 8 bits. -/
structure Neighbours.Bytes (nb : Neighbours Int) : Prop where
  left : ∀ i, Byte (nb.pu1Left i)
  topLeft : Byte nb.pu1TopLeft
  top : ∀ i, Byte (nb.pu1Top i)

theorem Neighbours.Bytes.refSamples {nb : Neighbours Int} (h : nb.Bytes) (i : Nat) :
    Byte (refSamples 128 nb unit nt flags i) := by
  have hscan : ∀ i, Byte (nb.scan nt i) := by
    intro i
    unfold Neighbours.scan
    split_ifs
    · exact h.left _
    · exact h.topLeft
    · exact h.top _
  exact substituted_of (by unfold Byte; decide) hscan i

theorem substituted_holds {nb : Neighbours Int} (h : nb.Bytes) {b : Cells Int}
    (hb : ∀ i < 4 * nt + 1, b i = some (refSamples 128 nb unit nt flags i)) :
    Holds nt (substitutedSamples nb unit nt flags) b := by
  refine ⟨fun i hi => ?_, fun i hi => ?_⟩
  · rw [hb i hi, atScan_substituted]
  · rw [atScan_substituted]
    exact h.refSamples i

/-- With all flags set nothing is substituted. -/
theorem ihevcIntraPredLumaRefSubstAllAvlble_spec (nb : Neighbours Int) (hnt : Size nt) :
    ∃ b, ihevcIntraPredLumaRefSubstAllAvlble nb nt = some b ∧
      ∀ i < 4 * nt + 1, b i = some (refSamples 128 nb 8 nt 0x1ffff i) := by
  have hpos := hnt.pos
  obtain ⟨b₁, e₁, w₁⟩ := topLeft_wrote (p := True) nb nt fresh (fun _ => rfl)
  obtain ⟨b₂, e₂, w₂⟩ := copyLeft_wrote (p := True) nb nt 0 nt b₁ (by omega) (by omega)
  obtain ⟨b₃, e₃, w₃⟩ := copyLeft_wrote (p := True) nb nt nt nt b₂ (by omega) (by omega)
  obtain ⟨b₄, e₄, w₄⟩ := copyTop_wrote (p := True) nb nt 0 nt b₃ (by omega)
  obtain ⟨b₅, e₅, w₅⟩ := copyTop_wrote (p := True) nb nt nt nt b₄ (by omega)
  refine ⟨b₅, ?_, fun i hi => ?_⟩
  · simp only [ihevcIntraPredLumaRefSubstAllAvlble, Option.bind_eq_bind]
    rw [e₁, Option.bind_some, e₂, Option.bind_some, e₃, Option.bind_some, e₄, Option.bind_some, e₅]
  · have hav : ∀ j < 4 * nt + 1, nbrAvail 8 nt 0x1ffff j = true := by
      have hset : ∀ k < 17, (0x1ffff).testBit k = true := by decide
      intro j hj
      refine hset _ ?_
      unfold Size at hnt
      unfold nbrFlagIdx
      split_ifs <;> omega
    rw [refSamples, substituted_some (f := 0) (by omega) (hav 0 (by omega)) (by simp),
      carry_of_avail (hav i hi)]
    by_cases h1 : i < nt
    · rw [w₅.frame i (by omega), w₄.frame i (by omega), w₃.cell trivial i (by omega) (by omega)]
    · by_cases h2 : i < 2 * nt
      · rw [w₅.frame i (by omega), w₄.frame i (by omega), w₃.frame i (by omega),
          w₂.cell trivial i (by omega) (by omega)]
      · by_cases h3 : i = 2 * nt
        · rw [w₅.frame i (by omega), w₄.frame i (by omega), w₃.frame i (by omega),
            w₂.frame i (by omega), w₁.cell trivial i (by omega) (by omega)]
        · by_cases h4 : i < 3 * nt + 1
          · rw [w₅.frame i (by omega), w₄.cell trivial i (by omega) (by omega)]
          · exact w₅.cell trivial i (by omega) (by omega)

-- ---------------------------------------------------------------------------
-- A block
-- ---------------------------------------------------------------------------

/-- The sample of section 8.4.4.2 for a flag word. -/
def specLuma (nb : Neighbours Int) (nt flags mode : Nat) (smoothingDisabled strong dis : Bool)
    (x y : Nat) : Int :=
  predSample (filtered smoothingDisabled strong mode nt (substitutedSamples nb 8 nt flags)) mode nt
    dis x y

theorem predictLuma_spec {nb : Neighbours Int} (hnb : nb.Bytes) (hnt : Size nt)
    (hflags : FlagsOk 8 nt flags) (hmode : mode < 35) (smoothing : Nat) (dis : Bool)
    (hrow : row < nt) (hcol : col < nt) :
    predictLuma nb nt flags mode smoothing dis row col =
      some (specLuma nb nt flags mode (decide (smoothing >>> 3 ≠ 0))
        (decide (smoothing &&& 1 = 1)) dis col row) := by
  have hsubst : ∃ b, lumaRef nb nt flags = some b ∧
      ∀ i < 4 * nt + 1, b i = some (refSamples 128 nb 8 nt flags i) := by
    by_cases hall : flags = 0x1ffff
    · rw [lumaRef, if_pos hall, hall]
      exact ihevcIntraPredLumaRefSubstAllAvlble_spec nb hnt
    · rw [lumaRef, if_neg hall]
      exact ihevcIntraPredLumaRefSubstitution_spec nb hnt hflags
  obtain ⟨b, hb, hcells⟩ := hsubst
  obtain ⟨b', hb', hholds⟩ :=
    ihevcIntraPredRefFiltering_spec (substituted_holds hnb hcells) hnt hmode smoothing
  rw [predictLuma, hb]
  simp only [Option.bind_eq_bind, Option.bind_some, hb']
  exact intraPredLuma_spec hholds hnt hrow hcol hmode dis

theorem transSize_size (tu : NbrTu) (h : tu.b3Size < 4) : Size tu.transSize := by
  unfold NbrTu.transSize Size
  interval_cases tu.b3Size <;> simp

/-- Luma is predicted as the standard does, each component of chroma is substituted as luma is,
and every word of `ihevcd_get_intra_nbr_flag` is one for which this holds. -/
theorem intraPred_exact :
    (∀ (p : NbrProc) (m : Nat → Nat) (tu : NbrTu) (nb : Neighbours Int)
        (mode smoothing row col : Nat) (dis : Bool), tu.b3Size < 4 → nb.Bytes → mode < 35 →
      row < tu.transSize → col < tu.transSize →
      predictLuma nb tu.transSize (p.ihevcdGetIntraNbrFlag m tu) mode smoothing dis row col =
        some (specLuma nb tu.transSize (p.ihevcdGetIntraNbrFlag m tu) mode
          (decide (smoothing >>> 3 ≠ 0)) (decide (smoothing &&& 1 = 1)) dis col row)) ∧
    (∀ (nb : Neighbours (Int × Int)) (fmt : ChromaFmt) (nt flags : Nat), fmt.Size nt →
      FlagsOk fmt.unit nt flags →
      ∃ b, ihevcIntraPredChromaRefSubstitution nb nt flags fmt = some b ∧
        ∀ i < 4 * nt + 1, b i = some
          (atScan (substitutedSamples (nb.map Prod.fst) fmt.unit nt flags) nt i,
            atScan (substitutedSamples (nb.map Prod.snd) fmt.unit nt flags) nt i)) ∧
    (∀ (p : NbrProc) (m : Nat → Nat) (tu : NbrTu) (fmt : ChromaFmt) (nt : Nat), tu.b3Size < 4 →
      4 ≤ nt → nt * 8 = tu.transSize * fmt.unit →
      FlagsOk fmt.unit nt (p.ihevcdGetIntraNbrFlag m tu)) := by
  refine ⟨fun p m tu nb mode smoothing row col dis htu hnb hmode hrow hcol => ?_,
    fun nb fmt nt flags hnt hflags => ?_, fun p m tu fmt nt htu hmin hnt => ?_⟩
  · have hnt := transSize_size tu htu
    have hmin : 4 ≤ tu.transSize := by unfold Size at hnt; omega
    exact predictLuma_spec hnb hnt (ihevcdGetIntraNbrFlag_ok p m tu htu (.inr rfl) rfl hmin) hmode
      smoothing dis hrow hcol
  · obtain ⟨b, hb, hcells⟩ := ihevcIntraPredChromaRefSubstitution_spec nb fmt hnt hflags
    refine ⟨b, hb, fun i hi => ?_⟩
    rw [hcells i hi, atScan_substituted, atScan_substituted]
  · have hunit : fmt.unit = 4 ∨ fmt.unit = 8 := by cases fmt <;> decide
    exact ihevcdGetIntraNbrFlag_ok p m tu htu hunit hnt hmin

def someNbrProc : NbrProc where
  i4CtbX := 0
  i4CtbY := 0
  i1Log2CtbSize := 4
  i2PicWidthInLumaSamples := 32
  i2PicHeightInLumaSamples := 32
  u1LeftCtbAvail := false
  u1TopCtbAvail := false
  u1TopLtCtbAvail := false
  u1TopRtCtbAvail := false
  i1ConstrainedIntraPredFlag := false
  pu1PicIntraFlag _ := 0

/-- The second of four blocks, behind the first one. -/
def secondTu : NbrTu := { b4PosX := 2, b4PosY := 0, b3Size := 1 }

def secondMap : Nat → Nat := someNbrProc.nbrAvail [{ b4PosX := 0, b4PosY := 0, b3Size := 1 }]

def rampNeighbours : Neighbours Int where
  pu1Left i := i % 256
  pu1TopLeft := 7
  pu1Top _ := 9

theorem rampNeighbours_bytes : rampNeighbours.Bytes := by
  refine ⟨fun i => ?_, ?_, fun i => ?_⟩
  · show 0 ≤ (i : Int) % 256 ∧ (i : Int) % 256 ≤ 255
    omega
  · show 0 ≤ (7 : Int) ∧ (7 : Int) ≤ 255
    decide
  · show 0 ≤ (9 : Int) ∧ (9 : Int) ≤ 255
    decide

theorem intraPred_exact_second :
    someNbrProc.ihevcdGetIntraNbrFlag secondMap secondTu = 0xF0 ∧
      predictLuma rampNeighbours secondTu.transSize
          (someNbrProc.ihevcdGetIntraNbrFlag secondMap secondTu) 11 1 false 3 5 =
        some (specLuma rampNeighbours secondTu.transSize
          (someNbrProc.ihevcdGetIntraNbrFlag secondMap secondTu) 11 false true false 5 3) ∧
      FlagsOk 4 4 (someNbrProc.ihevcdGetIntraNbrFlag secondMap secondTu) :=
  ⟨by decide,
    intraPred_exact.1 someNbrProc secondMap secondTu rampNeighbours 11 1 3 5 false (by decide)
      rampNeighbours_bytes (by decide) (by decide) (by decide),
    intraPred_exact.2.2 someNbrProc secondMap secondTu .yuv420 4 (by decide) (by decide)
      (by decide)⟩

end Libhevc.IntraPred
