import Libhevc.Decoder.CuCtxt
import Libhevc.Spec.CuContexts

/-!
# Contexts in a quadtree

Before each node the maps have what the blocks above it and to its left are, as
far as these are available; behind it they have what the node leaves at its lower
and its right edge.
-/

namespace Libhevc.Decoder

open Spec

/-- What the maps keep of a coding block. -/
def marks (cu : CodedCu) : Nat × Bool := (cu.ctDepth, cu.skip)

/-- Decoder and specification are at the same CTB. -/
structure SameCtu (c : CuPlace) (g : CuSetting) : Prop where
  width : g.picWidth = c.sps.i2PicWidthInLumaSamples
  height : g.picHeight = c.sps.i2PicHeightInLumaSamples
  minCbSize : g.log2MinCbSize = c.sps.i1Log2MinCodingBlockSize
  intra : g.intraSlice = c.isIslice

/-- The maps have the blocks above the line `y0`. -/
def TopEdge (c : CuPlace) (g : CuSetting) (m : CuMaps) (cus : CodedCus) (x0 y0 n : Nat) : Prop :=
  ∀ x, x0 ≤ x → x < x0 + n → x < g.picWidth →
    (g.above cus x y0).map marks = if c.topAvailable y0 then some (m.top x) else none

/-- The maps have the blocks to the left of the line `x0`. -/
def LeftEdge (c : CuPlace) (g : CuSetting) (m : CuMaps) (cus : CodedCus) (x0 y0 n : Nat) : Prop :=
  ∀ y, y0 ≤ y → y < y0 + n → y < g.picHeight →
    (g.left cus x0 y).map marks = if c.leftAvailable x0 then some (m.left y) else none

/-- The maps have the last row of a node, which ends at the line `y1`. -/
def BottomEdge (g : CuSetting) (m : CuMaps) (cus : CodedCus) (x0 y1 n : Nat) : Prop :=
  ∀ x, x0 ≤ x → x < x0 + n → x < g.picWidth →
    ∃ cu, cus x (y1 - 1) = some cu ∧ cu.ctu = g.ctu ∧ marks cu = m.top x

/-- The maps have the last column of a node, which ends at the line `x1`. -/
def RightEdge (g : CuSetting) (m : CuMaps) (cus : CodedCus) (x1 y0 n : Nat) : Prop :=
  ∀ y, y0 ≤ y → y < y0 + n → y < g.picHeight →
    ∃ cu, cus (x1 - 1) y = some cu ∧ cu.ctu = g.ctu ∧ marks cu = m.left y

/-- Only the samples, columns and rows of a block change. -/
structure Frame (g : CuSetting) (x0 y0 n : Nat) (m : CuMaps) (cus : CodedCus) (m' : CuMaps)
    (cus' : CodedCus) : Prop where
  outside : ∀ x y, ¬(x0 ≤ x ∧ x < x0 + n ∧ y0 ≤ y ∧ y < y0 + n) → cus' x y = cus x y
  inside : ∀ x y cu, cus' x y = some cu → cus x y = some cu ∨ cu.ctu = g.ctu
  top : ∀ x, ¬(x0 ≤ x ∧ x < x0 + n) → m'.top x = m.top x
  left : ∀ y, y / 64 = y0 / 64 → ¬(y0 ≤ y ∧ y < y0 + n) → m'.left y = m.left y

/-- What a node does. -/
structure NodeDone (g : CuSetting) (x0 y0 n : Nat) (m : CuMaps) (cus : CodedCus) (m' : CuMaps)
    (cus' : CodedCus) : Prop where
  frame : Frame g x0 y0 n m cus m' cus'
  bottom : y0 + n ≤ g.picHeight → BottomEdge g m' cus' x0 (y0 + n) n
  right : x0 + n ≤ g.picWidth → RightEdge g m' cus' (x0 + n) y0 n

variable {c : CuPlace} {g : CuSetting}

-- ---------------------------------------------------------------------------
-- Frames
-- ---------------------------------------------------------------------------

theorem Frame.refl (x0 y0 n : Nat) (m : CuMaps) (cus : CodedCus) :
    Frame g x0 y0 n m cus m cus :=
  ⟨fun _ _ _ => rfl, fun _ _ _ h => .inl h, fun _ _ => rfl, fun _ _ _ => rfl⟩

theorem Frame.trans (h : Frame g x0 y0 n m cus m' cus') (h' : Frame g x0 y0 n m' cus' m'' cus'') :
    Frame g x0 y0 n m cus m'' cus'' where
  outside x y hout := (h'.outside x y hout).trans (h.outside x y hout)
  inside x y cu hcu := (h'.inside x y cu hcu).elim (h.inside x y cu) .inr
  top x hout := (h'.top x hout).trans (h.top x hout)
  left y hctb hout := (h'.left y hctb hout).trans (h.left y hctb hout)

/-- A block in a larger one. -/
theorem Frame.mono (h : Frame g x y n m cus m' cus') (hx : x0 ≤ x ∧ x + n ≤ x0 + k)
    (hy : y0 ≤ y ∧ y + n ≤ y0 + k) (hctb : y / 64 = y0 / 64) :
    Frame g x0 y0 k m cus m' cus' where
  outside a b hout := h.outside a b (by omega)
  inside := h.inside
  top a hout := h.top a (by omega)
  left b hb hout := h.left b (by omega) (by omega)

section
variable {m m' : CuMaps} {cus cus' : CodedCus} (hf : Frame g x y n m cus m' cus')
include hf

/-- Columns that the block does not have keep their edges. -/
theorem TopEdge.keep (h : TopEdge c g m cus x0 y0 k) (hx : x0 + k ≤ x ∨ x + n ≤ x0) :
    TopEdge c g m' cus' x0 y0 k := by
  intro a ha ha' hw
  have habove : g.above cus' a y0 = g.above cus a y0 := by
    unfold CuSetting.above
    rw [hf.outside a (y0 - 1) (by omega)]
  rw [habove, hf.top a (by omega)]
  exact h a ha ha' hw

theorem BottomEdge.keep {g' : CuSetting} (h : BottomEdge g' m cus x0 y1 k)
    (hx : x0 + k ≤ x ∨ x + n ≤ x0) : BottomEdge g' m' cus' x0 y1 k := by
  intro a ha ha' hw
  rw [hf.outside a (y1 - 1) (by omega), hf.top a (by omega)]
  exact h a ha ha' hw

/-- Rows that the block does not have keep their edges. -/
theorem LeftEdge.keep (h : LeftEdge c g m cus x0 y0 k) (hy : y0 + k ≤ y ∨ y + n ≤ y0)
    (hctb : ∀ b, y0 ≤ b → b < y0 + k → b / 64 = y / 64) : LeftEdge c g m' cus' x0 y0 k := by
  intro b hb hb' hh
  have hleft : g.left cus' x0 b = g.left cus x0 b := by
    unfold CuSetting.left
    rw [hf.outside (x0 - 1) b (by omega)]
  rw [hleft, hf.left b (hctb b hb hb') (by omega)]
  exact h b hb hb' hh

theorem RightEdge.keep (h : RightEdge g m cus x1 y0 k) (hy : y0 + k ≤ y ∨ y + n ≤ y0)
    (hctb : ∀ b, y0 ≤ b → b < y0 + k → b / 64 = y / 64) : RightEdge g m' cus' x1 y0 k := by
  intro b hb hb' hh
  rw [hf.outside (x1 - 1) b (by omega), hf.left b (hctb b hb hb') (by omega)]
  exact h b hb hb' hh

end

-- ---------------------------------------------------------------------------
-- From one node to the next
-- ---------------------------------------------------------------------------

/-- The last row of a node is above the node below it. -/
theorem BottomEdge.topEdge (h : BottomEdge g m cus x0 y1 n) (hy : 0 < y1)
    (hread : c.topAvailable y1 = true) : TopEdge c g m cus x0 y1 n := by
  intro x hx hx' hw
  obtain ⟨cu, hcu, hctu, hmarks⟩ := h x hx hx' hw
  have hav : g.Available cu := by
    unfold CuSetting.Available
    rw [hctu]
    exact ⟨rfl, rfl⟩
  rw [CuSetting.above, if_neg hy.ne', hcu, if_pos hread, ← hmarks]
  simp [hav]

theorem RightEdge.leftEdge (h : RightEdge g m cus x1 y0 n) (hx : 0 < x1)
    (hread : c.leftAvailable x1 = true) : LeftEdge c g m cus x1 y0 n := by
  intro y hy hy' hh
  obtain ⟨cu, hcu, hctu, hmarks⟩ := h y hy hy' hh
  have hav : g.Available cu := by
    unfold CuSetting.Available
    rw [hctu]
    exact ⟨rfl, rfl⟩
  rw [CuSetting.left, if_neg hx.ne', hcu, if_pos hread, ← hmarks]
  simp [hav]

/-- At the beginning of a node the two sides count the same neighbours. -/
theorem ctxtInc_eq (htop : TopEdge c g m cus x0 y0 n) (hleft : LeftEdge c g m cus x0 y0 n)
    (hn : 0 < n) (hw : x0 < g.picWidth) (hh : y0 < g.picHeight) (cond : Nat × Bool → Bool) :
    g.ctxtInc cus x0 y0 (fun cu => cond (marks cu)) =
      (if c.topAvailable y0 = true ∧ cond (m.top x0) = true then 1 else 0) +
        (if c.leftAvailable x0 = true ∧ cond (m.left y0) = true then 1 else 0) := by
  have habove : (g.above cus x0 y0).any (fun cu => cond (marks cu)) =
      (c.topAvailable y0 && cond (m.top x0)) := by
    have h := congrArg (Option.any cond) (htop x0 (Nat.le_refl _) (by omega) hw)
    rw [Option.any_map] at h
    refine h.trans ?_
    cases c.topAvailable y0 <;> rfl
  have hleft' : (g.left cus x0 y0).any (fun cu => cond (marks cu)) =
      (c.leftAvailable x0 && cond (m.left y0)) := by
    have h := congrArg (Option.any cond) (hleft y0 (Nat.le_refl _) (by omega) hh)
    rw [Option.any_map] at h
    refine h.trans ?_
    cases c.leftAvailable x0 <;> rfl
  rw [CuSetting.ctxtInc, habove, hleft']
  simp only [Bool.and_eq_true]

-- ---------------------------------------------------------------------------
-- One coding block
-- ---------------------------------------------------------------------------

/-- A node of the quadtree of a CTB. -/
structure CuNode (c : CuPlace) (log2CbSize x0 y0 ctDepth : Nat) : Prop where
  min : 3 ≤ log2CbSize
  depth : ctDepth + log2CbSize = c.sps.i1Log2CtbSize
  alignX : 2 ^ log2CbSize ∣ x0
  alignY : 2 ^ log2CbSize ∣ y0
  ctbX : c.pos.i4CtbX * 2 ^ c.sps.i1Log2CtbSize ≤ x0
  ctbY : c.pos.i4CtbY * 2 ^ c.sps.i1Log2CtbSize ≤ y0

theorem two_pow_sizes (hmin : 3 ≤ k) (hmax : k ≤ 6) :
    2 ^ k = 8 ∨ 2 ^ k = 16 ∨ 2 ^ k = 32 ∨ 2 ^ k = 64 := by
  interval_cases k <;> decide

theorem splitInc_eq (htop : TopEdge c g m cus x0 y0 (2 ^ log2CbSize))
    (hleft : LeftEdge c g m cus x0 y0 (2 ^ log2CbSize)) (hw : x0 < g.picWidth)
    (hh : y0 < g.picHeight) (ctDepth : Nat) :
    c.splitInc m x0 y0 ctDepth = g.ctxtInc cus x0 y0 fun cu => ctDepth < cu.ctDepth := by
  have h := ctxtInc_eq htop hleft (Nat.two_pow_pos _) hw hh fun p => ctDepth < p.1
  refine Eq.trans ?_ h.symm
  unfold CuPlace.splitInc CuMaps.top CuMaps.left
  simp only [decide_eq_true_eq]

theorem skipInc_eq (htop : TopEdge c g m cus x0 y0 (2 ^ log2CbSize))
    (hleft : LeftEdge c g m cus x0 y0 (2 ^ log2CbSize)) (hw : x0 < g.picWidth)
    (hh : y0 < g.picHeight) (ctDepth : Nat) :
    c.skipInc (m.setDepth x0 y0 (2 ^ log2CbSize) ctDepth) x0 y0 =
      g.ctxtInc cus x0 y0 CodedCu.skip :=
  (ctxtInc_eq htop hleft (Nat.two_pow_pos _) hw hh Prod.snd).symm

/-- Both sides decode the same split flag. -/
theorem splitCuFlag_eq (hs : SameCtu c g) (htop : TopEdge c g m cus x0 y0 (2 ^ log2CbSize))
    (hleft : LeftEdge c g m cus x0 y0 (2 ^ log2CbSize)) (hw : x0 < g.picWidth)
    (hh : y0 < g.picHeight) (ctDepth : Nat) (f : FlagStream) :
    c.splitCuFlag x0 y0 log2CbSize ctDepth (m, f) =
      g.splitCuFlag x0 y0 log2CbSize ctDepth (cus, f) := by
  unfold CuPlace.splitCuFlag CuSetting.splitCuFlag
  rw [splitInc_eq htop hleft hw hh ctDepth, hs.width, hs.height, hs.minCbSize]

section
variable {log2CbSize x0 y0 ctDepth : Nat} (hn : CuNode c log2CbSize x0 y0 ctDepth)
include hn

theorem CuNode.aligned : Aligned (2 ^ log2CbSize) x0 ∧ Aligned (2 ^ log2CbSize) y0 ∧
    ctDepth ≤ 3 := by
  have hmax := c.sps.log2CtbSize_le
  have hdepth := hn.depth
  have hsizes := two_pow_sizes hn.min (show log2CbSize ≤ 6 by omega)
  have hmin := hn.min
  exact ⟨⟨hsizes, hn.alignX⟩, ⟨hsizes, hn.alignY⟩, by omega⟩

/-- The rows of a node lie in one stretch of 64. -/
theorem CuNode.row (hy : y0 ≤ y) (hy' : y < y0 + 2 ^ log2CbSize) : y / 64 = y0 / 64 := by
  obtain ⟨_, ⟨hsize, q, hq⟩, _⟩ := hn.aligned
  rcases hsize with h | h | h | h <;> rw [h] at hq hy' <;> omega

/-- A coding block fills its square in the maps and in the picture. -/
theorem setCu_done (m : CuMaps) (cus : CodedCus) (skip : Bool) :
    NodeDone g x0 y0 (2 ^ log2CbSize) m cus (m.setCu x0 y0 (2 ^ log2CbSize) ctDepth skip)
      (g.coded cus x0 y0 (2 ^ log2CbSize) ctDepth skip) := by
  obtain ⟨hx, hy, hd⟩ := hn.aligned
  have hpos : 0 < 2 ^ log2CbSize := Nat.two_pow_pos _
  refine ⟨⟨fun x y hout => if_neg hout, fun x y cu hcu => ?_, fun x hout => ?_,
    fun y hctb hout => ?_⟩, fun _ x hxl hxr _ => ?_, fun _ y hyl hyr _ => ?_⟩
  · unfold CuSetting.coded at hcu
    split_ifs at hcu
    · cases hcu
      exact .inr rfl
    · exact .inl hcu
  · rw [setCu_top hx hd, if_neg hout]
  · rw [setCu_left hy hd m x0 skip hctb, if_neg hout]
  · exact ⟨_, if_pos ⟨hxl, hxr, by omega, by omega⟩, rfl,
      by rw [setCu_top hx hd, if_pos ⟨hxl, hxr⟩]; rfl⟩
  · exact ⟨_, if_pos ⟨by omega, by omega, hyl, hyr⟩, rfl,
      by rw [setCu_left hy hd m x0 skip (hn.row hyl hyr), if_pos ⟨hyl, hyr⟩]; rfl⟩

/-- Both sides decode the same skip flag, and record it. -/
theorem codingUnit_eq (hs : SameCtu c g) (htop : TopEdge c g m cus x0 y0 (2 ^ log2CbSize))
    (hleft : LeftEdge c g m cus x0 y0 (2 ^ log2CbSize)) (hw : x0 < g.picWidth)
    (hh : y0 < g.picHeight) (f : FlagStream) :
    let d := c.parseCodingUnit x0 y0 log2CbSize
      (m.setDepth x0 y0 (2 ^ log2CbSize) ctDepth, f)
    let s := g.codingUnit x0 y0 log2CbSize ctDepth (cus, f)
    d.2 = s.2 ∧ NodeDone g x0 y0 (2 ^ log2CbSize) m cus d.1 s.1 := by
  have hinc := skipInc_eq htop hleft hw hh ctDepth
  unfold CuPlace.parseCodingUnit CuSetting.codingUnit
  dsimp only
  rw [hinc, hs.intra]
  cases c.isIslice
  · exact ⟨rfl, setCu_done hn m cus _⟩
  · exact ⟨rfl, setCu_done hn m cus false⟩

end

-- ---------------------------------------------------------------------------
-- Nodes
-- ---------------------------------------------------------------------------

/-- What both sides do with a node: the same flags, and what the node does to the maps. -/
structure Step (g : CuSetting) (x0 y0 n : Nat) (d : CuMaps × FlagStream)
    (s : CodedCus × FlagStream) (d' : CuMaps × FlagStream) (s' : CodedCus × FlagStream) : Prop where
  flags : d'.2 = s'.2
  done : NodeDone g x0 y0 n d.1 s.1 d'.1 s'.1

/-- A quarter that may be outside the picture. -/
structure StepIf (p : Prop) (g : CuSetting) (x0 y0 n : Nat) (d : CuMaps × FlagStream)
    (s : CodedCus × FlagStream) (d' : CuMaps × FlagStream) (s' : CodedCus × FlagStream) : Prop where
  flags : d'.2 = s'.2
  frame : Frame g x0 y0 n d.1 s.1 d'.1 s'.1
  done : p → NodeDone g x0 y0 n d.1 s.1 d'.1 s'.1

theorem StepIf.of {p : Prop} [Decidable p] (hflags : d.2 = s.2)
    (h : p → Step g x0 y0 n d s d' s') :
    StepIf p g x0 y0 n d s (if p then d' else d) (if p then s' else s) := by
  split_ifs with hp
  · exact ⟨(h hp).flags, (h hp).done.frame, fun _ => (h hp).done⟩
  · exact ⟨hflags, .refl x0 y0 n d.1 s.1, fun hp' => absurd hp' hp⟩

theorem TopEdge.part (h : TopEdge c g m cus x0 y0 n) (hx : x0 ≤ x) (hx' : x + k ≤ x0 + n) :
    TopEdge c g m cus x y0 k :=
  fun a ha ha' hw => h a (hx.trans ha) (by omega) hw

theorem LeftEdge.part (h : LeftEdge c g m cus x0 y0 n) (hy : y0 ≤ y) (hy' : y + k ≤ y0 + n) :
    LeftEdge c g m cus x0 y k :=
  fun b hb hb' hh => h b (hy.trans hb) (by omega) hh

section
variable {k x0 y0 ctDepth : Nat} (hn : CuNode c (k + 1) x0 y0 ctDepth) (hk : 3 ≤ k)
include hn hk

theorem CuNode.quarter (hx : x = x0 ∨ x = x0 + 2 ^ k) (hy : y = y0 ∨ y = y0 + 2 ^ k) :
    CuNode c k x y (ctDepth + 1) := by
  have hdvd : 2 ^ k ∣ 2 ^ (k + 1) := Nat.pow_dvd_pow 2 (Nat.le_succ k)
  have hX := hdvd.trans hn.alignX
  have hY := hdvd.trans hn.alignY
  have hdepth := hn.depth
  have hcx := hn.ctbX
  have hcy := hn.ctbY
  refine ⟨hk, by omega, ?_, ?_, by omega, by omega⟩
  · rcases hx with rfl | rfl
    · exact hX
    · exact Nat.dvd_add hX (Nat.dvd_refl _)
  · rcases hy with rfl | rfl
    · exact hY
    · exact Nat.dvd_add hY (Nat.dvd_refl _)

/-- Inside a CTB the neighbours are available. -/
theorem CuNode.inside : c.topAvailable (y0 + 2 ^ k) = true ∧
    c.leftAvailable (x0 + 2 ^ k) = true := by
  have h8 : 2 ^ 3 ≤ 2 ^ k := Nat.pow_le_pow_right (by decide) hk
  have hcx := hn.ctbX
  have hcy := hn.ctbY
  unfold CuPlace.topAvailable CuPlace.leftAvailable CuPlace.cuPosX CuPlace.cuPosY
  simp only [Nat.shiftLeft_eq, Nat.shiftRight_eq_div_pow, decide_eq_true_eq]
  exact ⟨.inl (by omega), .inl (by omega)⟩

end

/-- The four quarters, in their order. -/
theorem quarters_step {k x0 y0 ctDepth : Nat} (hn : CuNode c (k + 1) x0 y0 ctDepth)
    {d s d₁ s₁ d₂ s₂ d₃ s₃ d₄ s₄}
    (h₁ : Step g x0 y0 (2 ^ k) d s d₁ s₁)
    (h₂ : StepIf (x0 + 2 ^ k < g.picWidth) g (x0 + 2 ^ k) y0 (2 ^ k) d₁ s₁ d₂ s₂)
    (h₃ : StepIf (y0 + 2 ^ k < g.picHeight) g x0 (y0 + 2 ^ k) (2 ^ k) d₂ s₂ d₃ s₃)
    (h₄ : StepIf (x0 + 2 ^ k < g.picWidth ∧ y0 + 2 ^ k < g.picHeight) g (x0 + 2 ^ k)
      (y0 + 2 ^ k) (2 ^ k) d₃ s₃ d₄ s₄) :
    Step g x0 y0 (2 ^ (k + 1)) d s d₄ s₄ := by
  have hpos : 0 < 2 ^ k := Nat.two_pow_pos k
  have hsize : 2 ^ (k + 1) = 2 ^ k + 2 ^ k := by rw [Nat.pow_succ]; omega
  have hrow (b : Nat) (hb : y0 ≤ b) (hb' : b < y0 + (2 ^ k + 2 ^ k)) : b / 64 = y0 / 64 :=
    hn.row hb (by omega)
  have hlow := hrow (y0 + 2 ^ k) (by omega) (by omega)
  rw [hsize]
  refine ⟨h₄.flags, ?_, fun hbottom => ?_, fun hright => ?_⟩
  · refine .trans (.trans (.trans (h₁.done.frame.mono ?_ ?_ rfl) (h₂.frame.mono ?_ ?_ rfl))
      (h₃.frame.mono ?_ ?_ hlow)) (h₄.frame.mono ?_ ?_ hlow) <;> omega
  · -- the last row is that of the lower quarters
    rw [← Nat.add_assoc] at hbottom ⊢
    intro x hx hx' hw
    rcases Nat.lt_or_ge x (x0 + 2 ^ k) with hlt | hge
    · exact (((h₃.done (by omega)).bottom hbottom).keep h₄.frame (.inl (Nat.le_refl _))) x hx hlt hw
    · exact (h₄.done ⟨by omega, by omega⟩).bottom hbottom x hge (by omega) hw
  · rw [← Nat.add_assoc] at hright ⊢
    intro y hy hy' hh
    rcases Nat.lt_or_ge y (y0 + 2 ^ k) with hlt | hge
    · have hedge := (h₂.done (by omega)).right hright
      have hedge := hedge.keep h₃.frame (.inl (Nat.le_refl _))
        fun b hb hb' => (hrow b hb (by omega)).trans hlow.symm
      exact hedge.keep h₄.frame (.inl (Nat.le_refl _))
        (fun b hb hb' => (hrow b hb (by omega)).trans hlow.symm) y hy hlt hh
    · exact (h₄.done ⟨by omega, by omega⟩).right hright y hge (by omega) hh

/-- Each node decodes the same flags with the same contexts, and leaves its edges to the maps. -/
theorem quadtree_step (hs : SameCtu c g) (k : Nat) : ∀ (x0 y0 ctDepth : Nat)
    (d : CuMaps × FlagStream) (s : CodedCus × FlagStream), CuNode c k x0 y0 ctDepth →
    d.2 = s.2 → TopEdge c g d.1 s.1 x0 y0 (2 ^ k) → LeftEdge c g d.1 s.1 x0 y0 (2 ^ k) →
    x0 < g.picWidth → y0 < g.picHeight →
    Step g x0 y0 (2 ^ k) d s (c.parseCodingQuadtree k x0 y0 ctDepth d)
      (g.codingQuadtree k x0 y0 ctDepth s) := by
  induction k with
  | zero =>
    intro x0 y0 ctDepth d s hn
    exact absurd hn.min (by decide)
  | succ k ih =>
    intro x0 y0 ctDepth d s hn hflags htop hleft hw hh
    obtain ⟨m, f⟩ := d
    obtain ⟨cus, f'⟩ := s
    obtain rfl : f = f' := hflags
    have hsplit := splitCuFlag_eq hs htop hleft hw hh ctDepth f
    unfold CuPlace.parseCodingQuadtree CuSetting.codingQuadtree
    dsimp only
    rw [hsplit]
    by_cases hflag : (g.splitCuFlag x0 y0 (k + 1) ctDepth (cus, f)).1 = true
    · rw [if_pos hflag, if_pos hflag]
      -- a node that is split is larger than the smallest block
      have hk : 3 ≤ k := by
        have hmin := c.sps.log2MinCodingBlockSize_ge
        unfold CuSetting.splitCuFlag at hflag
        rw [hs.minCbSize] at hflag
        split_ifs at hflag with hc
        · omega
        · have := of_decide_eq_true hflag
          omega
      have hrow (b : Nat) (hb : y0 ≤ b) (hb' : b < y0 + (2 ^ k + 2 ^ k)) : b / 64 = y0 / 64 :=
        hn.row hb (by rw [Nat.pow_succ]; omega)
      obtain ⟨hreadTop, hreadLeft⟩ := hn.inside hk
      have hsize : 2 ^ (k + 1) = 2 ^ k + 2 ^ k := by rw [Nat.pow_succ]; omega
      have hpos : 0 < 2 ^ k := Nat.two_pow_pos k
      rw [hsize] at htop hleft
      have hquarter {x y : Nat} := hn.quarter hk (x := x) (y := y)
      -- each quarter has the edges of the node, or of the quarters before it
      have h₁ := ih x0 y0 (ctDepth + 1) (m, (g.splitCuFlag x0 y0 (k + 1) ctDepth (cus, f)).2)
        (cus, (g.splitCuFlag x0 y0 (k + 1) ctDepth (cus, f)).2) (hquarter (.inl rfl) (.inl rfl)) rfl
        (htop.part (Nat.le_refl _) (by omega)) (hleft.part (Nat.le_refl _) (by omega)) hw hh
      have h₂ := StepIf.of h₁.flags fun hx => ih (x0 + 2 ^ k) y0 (ctDepth + 1) _ _
        (hquarter (.inr rfl) (.inl rfl)) h₁.flags
        ((htop.part (by omega) (by omega)).keep h₁.done.frame (.inr (Nat.le_refl _)))
        ((h₁.done.right hx.le).leftEdge (by omega) hreadLeft) hx hh
      have h₃ := StepIf.of h₂.flags fun hy => ih x0 (y0 + 2 ^ k) (ctDepth + 1) _ _
        (hquarter (.inl rfl) (.inr rfl)) h₂.flags
        (((h₁.done.bottom hy.le).keep h₂.frame (.inl (Nat.le_refl _))).topEdge (by omega) hreadTop)
        (((hleft.part (by omega) (by omega)).keep h₁.done.frame (.inr (Nat.le_refl _))
          fun b hb hb' => hrow b (by omega) (by omega)).keep h₂.frame (.inr (Nat.le_refl _))
            fun b hb hb' => hrow b (by omega) (by omega)) hw hy
      have h₄ := StepIf.of h₃.flags fun
          (hxy : x0 + 2 ^ k < g.picWidth ∧ y0 + 2 ^ k < g.picHeight) =>
        ih (x0 + 2 ^ k) (y0 + 2 ^ k) (ctDepth + 1) _ _ (hquarter (.inr rfl) (.inr rfl)) h₃.flags
        ((((h₂.done hxy.1).bottom hxy.2.le).keep h₃.frame (.inr (Nat.le_refl _))).topEdge
          (by omega) hreadTop)
        (((h₃.done hxy.2).right hxy.1.le).leftEdge (by omega) hreadLeft) hxy.1 hxy.2
      rw [← hs.width, ← hs.height]
      obtain ⟨hflags, hdone⟩ := quarters_step hn h₁ h₂ h₃ h₄
      exact ⟨hflags, hdone⟩
    · rw [if_neg hflag, if_neg hflag]
      obtain ⟨hf, hd⟩ := codingUnit_eq hn hs htop hleft hw hh
        (g.splitCuFlag x0 y0 (k + 1) ctDepth (cus, f)).2
      exact ⟨hf, hd⟩

end Libhevc.Decoder
