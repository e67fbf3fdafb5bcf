import Libhevc.RoundTrip.CuQp

/-!
# Delta QPs of a picture

The induction is over the coding quadtree, first over the nodes in a quantization
group and then over those that hold whole groups. In the last group of a picture
that crosses both edges the encoder does not see the last block, but nothing
comes behind it.
-/

namespace Libhevc.RoundTrip

open Encoder Decoder

/-- A legal tree, whose coding units have the QP of their group. Groups are counted in the CTB. -/
def LegalQuadtree (cfg : QpConfig) (ctbX ctbY : Nat) (q : Nat → Nat → Int) :
    CodingQuadtree CuResidual → (x0 y0 log2CbSize : Nat) → Prop
  | .cu cu, x0, y0, log2CbSize => 3 ≤ log2CbSize ∧
      cu.b7Qp = q (x0 / 2 ^ i1Log2MinCuQpDeltaSize cfg) (y0 / 2 ^ i1Log2MinCuQpDeltaSize cfg)
  | .split c0 c1 c2 c3, x0, y0, log2CbSize =>
    let x1 := x0 + 2 ^ (log2CbSize - 1)
    let y1 := y0 + 2 ^ (log2CbSize - 1)
    3 < log2CbSize ∧ LegalQuadtree cfg ctbX ctbY q c0 x0 y0 (log2CbSize - 1) ∧
      (cfg.InWidth ctbX x1 → LegalQuadtree cfg ctbX ctbY q c1 x1 y0 (log2CbSize - 1)) ∧
      (cfg.InHeight ctbY y1 → LegalQuadtree cfg ctbX ctbY q c2 x0 y1 (log2CbSize - 1)) ∧
      (cfg.InWidth ctbX x1 → cfg.InHeight ctbY y1 →
        LegalQuadtree cfg ctbX ctbY q c3 x1 y1 (log2CbSize - 1))

/-- The node reaches the corner of the picture, nothing comes behind it. -/
def Corner (cfg : QpConfig) (ctbX ctbY x y : Nat) : Prop :=
  ¬ cfg.InWidth ctbX x ∧ ¬ cfg.InHeight ctbY y

/-- The blocks of a node that are in the picture have the same QP on both sides. -/
def AgreeIn (cfg : QpConfig) (ctbX ctbY x0 y0 n : Nat) (e d : Nat → Nat → Int) : Prop :=
  ∀ x y, x0 ≤ 8 * x → 8 * x < x0 + n → y0 ≤ 8 * y → 8 * y < y0 + n →
    cfg.InWidth ctbX (8 * x) → cfg.InHeight ctbY (8 * y) → AgreeAt e d x y

/-- What a node does to the QPs of the blocks. -/
structure Filled (cfg : QpConfig) (ctbX ctbY x0 y0 n : Nat) (e d e' d' : Nat → Nat → Int) :
    Prop where
  keep : ∀ x y, AgreeAt e d x y → AgreeAt e' d' x y
  agree : AgreeIn cfg ctbX ctbY x0 y0 n e' d'

variable {cfg : QpConfig}

theorem Filled.cu (hqp : QpInRange qp) (hx : 8 ∣ x0) (hy : 8 ∣ y0) (hn : 8 ∣ n) :
    Filled cfg ctbX ctbY x0 y0 n e d (fillCuQp e (x0 / 8) (y0 / 8) n qp)
      (fillCuQp d (x0 / 8) (y0 / 8) n qp) where
  keep := fun _ _ h => h.fill hqp
  agree := fun x y hx0 hx1 hy0 hy1 _ _ =>
    AgreeAt.filled hqp (by omega) (by omega) (by omega) (by omega)

/-- The four quarters of a node, those in the picture. -/
theorem Filled.split {e₀ d₀ e₁ d₁ e₂ d₂ e₃ d₃ e₄ d₄ : Nat → Nat → Int}
    (h0 : Filled cfg ctbX ctbY x0 y0 n e₀ d₀ e₁ d₁)
    (h1 : if cfg.InWidth ctbX (x0 + n) then Filled cfg ctbX ctbY (x0 + n) y0 n e₁ d₁ e₂ d₂
      else e₂ = e₁ ∧ d₂ = d₁)
    (h2 : if cfg.InHeight ctbY (y0 + n) then Filled cfg ctbX ctbY x0 (y0 + n) n e₂ d₂ e₃ d₃
      else e₃ = e₂ ∧ d₃ = d₂)
    (h3 : if cfg.InWidth ctbX (x0 + n) ∧ cfg.InHeight ctbY (y0 + n) then
        Filled cfg ctbX ctbY (x0 + n) (y0 + n) n e₃ d₃ e₄ d₄
      else e₄ = e₃ ∧ d₄ = d₃) :
    Filled cfg ctbX ctbY x0 y0 (n + n) e₀ d₀ e₄ d₄ := by
  have hk1 : ∀ x y, AgreeAt e₁ d₁ x y → AgreeAt e₂ d₂ x y := by
    split at h1
    · exact h1.keep
    · obtain ⟨rfl, rfl⟩ := h1
      exact fun _ _ h => h
  have hk2 : ∀ x y, AgreeAt e₂ d₂ x y → AgreeAt e₃ d₃ x y := by
    split at h2
    · exact h2.keep
    · obtain ⟨rfl, rfl⟩ := h2
      exact fun _ _ h => h
  have hk3 : ∀ x y, AgreeAt e₃ d₃ x y → AgreeAt e₄ d₄ x y := by
    split at h3
    · exact h3.keep
    · obtain ⟨rfl, rfl⟩ := h3
      exact fun _ _ h => h
  refine ⟨fun x y h => hk3 x y (hk2 x y (hk1 x y (h0.keep x y h))),
    fun x y hx0 hx1 hy0 hy1 hw hh => ?_⟩
  have hw' : x0 + n ≤ 8 * x → cfg.InWidth ctbX (x0 + n) := fun hx => by
    unfold CtbGrid.InWidth at hw ⊢
    omega
  have hh' : y0 + n ≤ 8 * y → cfg.InHeight ctbY (y0 + n) := fun hy => by
    unfold CtbGrid.InHeight at hh ⊢
    omega
  rcases Nat.lt_or_ge (8 * x) (x0 + n) with hx | hx <;>
    rcases Nat.lt_or_ge (8 * y) (y0 + n) with hy | hy
  · exact hk3 x y (hk2 x y (hk1 x y (h0.agree x y hx0 hx hy0 hy hw hh)))
  · rw [if_pos (hh' hy)] at h2
    exact hk3 x y (h2.agree x y hx0 hx hy (by omega) hw hh)
  · rw [if_pos (hw' hx)] at h1
    exact hk3 x y (hk2 x y (h1.agree x y hx (by omega) hy0 hy hw hh))
  · rw [if_pos ⟨hw' hx, hh' hy⟩] at h3
    exact h3.agree x y hx (by omega) hy (by omega) hw hh

-- ---------------------------------------------------------------------------
-- Nodes
-- ---------------------------------------------------------------------------

/-- What a node does to the delta flag before anything else. -/
def resetEnc (cfg : QpConfig) (ctDepth : Nat) (s : QpContext) : QpContext :=
  { s with i1EncodeQpDelta := ctDepth ≤ cfg.i1DiffCuQpDeltaDepth || s.i1EncodeQpDelta }

def resetDec (cfg : QpConfig) (log2CbSize : Nat) (s : QpCtxt) : QpCtxt :=
  { s with
    i4IsCuQpDeltaCoded := !(i1Log2MinCuQpDeltaSize cfg ≤ log2CbSize) && s.i4IsCuQpDeltaCoded }

/-- The decoder gets through the node with the deltas of the encoder. -/
def Runs (cfg : QpConfig) (ctbX ctbY : Nat) (t : CodingQuadtree CuResidual)
    (x0 y0 log2CbSize : Nat) (d : QpCtxt) (deltas : List Int) (d' : QpCtxt) : Prop :=
  ∀ rest, ihevcdParseCodingQuadtree cfg ctbX ctbY t x0 y0 log2CbSize d (deltas ++ rest) =
    some (d', rest)

/-- A quarter of a node, if it is in the picture. -/
def RunsIf (p : Prop) [Decidable p] (cfg : QpConfig) (ctbX ctbY : Nat)
    (t : CodingQuadtree CuResidual) (x0 y0 log2CbSize : Nat) (d : QpCtxt) (deltas : List Int)
    (d' : QpCtxt) : Prop :=
  ∀ rest, (if p then ihevcdParseCodingQuadtree cfg ctbX ctbY t x0 y0 log2CbSize d (deltas ++ rest)
    else some (d, deltas ++ rest)) = some (d', rest)

theorem Runs.split (hlog : 0 < log2CbSize)
    (h0 : Runs cfg ctbX ctbY c0 x0 y0 (log2CbSize - 1) (resetDec cfg log2CbSize d) l0 d1)
    (h1 : RunsIf (cfg.InWidth ctbX (x0 + 2 ^ (log2CbSize - 1))) cfg ctbX ctbY c1
      (x0 + 2 ^ (log2CbSize - 1)) y0 (log2CbSize - 1) d1 l1 d2)
    (h2 : RunsIf (cfg.InHeight ctbY (y0 + 2 ^ (log2CbSize - 1))) cfg ctbX ctbY c2 x0
      (y0 + 2 ^ (log2CbSize - 1)) (log2CbSize - 1) d2 l2 d3)
    (h3 : RunsIf (cfg.InWidth ctbX (x0 + 2 ^ (log2CbSize - 1)) ∧
        cfg.InHeight ctbY (y0 + 2 ^ (log2CbSize - 1))) cfg ctbX ctbY c3
      (x0 + 2 ^ (log2CbSize - 1)) (y0 + 2 ^ (log2CbSize - 1)) (log2CbSize - 1) d3 l3 d4) :
    Runs cfg ctbX ctbY (.split c0 c1 c2 c3) x0 y0 log2CbSize d (l0 ++ (l1 ++ (l2 ++ l3))) d4 := by
  intro rest
  have hhalf : 2 ^ log2CbSize / 2 = 2 ^ (log2CbSize - 1) := by
    obtain ⟨k, rfl⟩ := Nat.exists_eq_succ_of_ne_zero hlog.ne'
    simp [Nat.pow_succ]
  have hrun0 := h0 (l1 ++ (l2 ++ (l3 ++ rest)))
  have hrun1 := h1 (l2 ++ (l3 ++ rest))
  have hrun2 := h2 (l3 ++ rest)
  have hrun3 := h3 rest
  simp only [resetDec] at hrun0
  simp only [ihevcdParseCodingQuadtree, hhalf, List.append_assoc, hrun0, Option.bind_some, hrun1,
    hrun2, hrun3]

theorem RunsIf.of {p : Prop} [Decidable p] {r : QpContext × List Int}
    {Q : QpContext → QpCtxt → Prop}
    (hchild : p → (∀ delta ∈ r.2, DeltaLegal delta) →
      ∃ d', Runs cfg ctbX ctbY t x0 y0 log2CbSize d r.2 d' ∧ Q r.1 d')
    (hlegal : ∀ delta ∈ (if p then r else (e, [])).2, DeltaLegal delta) :
    ∃ d', RunsIf p cfg ctbX ctbY t x0 y0 log2CbSize d (if p then r else (e, [])).2 d' ∧
      if p then Q r.1 d' else d' = d := by
  by_cases hp : p
  · simp only [if_pos hp] at hlegal ⊢
    obtain ⟨d', hrun, hq⟩ := hchild hp hlegal
    exact ⟨d', fun rest => by rw [if_pos hp, hrun rest], hq⟩
  · simp only [if_neg hp]
    exact ⟨d, fun rest => by rw [if_neg hp]; rfl, rfl⟩

theorem resetEnc_below (hs : Sizes cfg) (hdepth : ctDepth + log2CbSize = cfg.i1Log2CtbSize)
    (hlog : log2CbSize < i1Log2MinCuQpDeltaSize cfg) (e : QpContext) :
    resetEnc cfg ctDepth e = e := by
  have hgroup := hs.group
  have hlt : ¬ ctDepth ≤ cfg.i1DiffCuQpDeltaDepth := by
    simp only [i1Log2MinCuQpDeltaSize] at hlog hgroup
    omega
  simp [resetEnc, hlt]

theorem resetDec_below (hlog : log2CbSize < i1Log2MinCuQpDeltaSize cfg) (d : QpCtxt) :
    resetDec cfg log2CbSize d = d := by
  simp [resetDec, Nat.not_le.mpr hlog]

/-- A CU that does not begin the group leaves what the decoder knows of it. -/
theorem startGroup_ne (hx : InGroup cfg ox x) (hy : InGroup cfg oy y) (hne : x ≠ ox ∨ y ≠ oy)
    (d : QpCtxt) : d.startGroup cfg (x / 8) (y / 8) = d := by
  have hx8 : x / 8 * 8 = x := Nat.div_mul_cancel hx.block
  have hy8 : y / 8 * 8 = y := Nat.div_mul_cancel hy.block
  simp only [QpCtxt.startGroup, hx8, hy8, hx.sub_mod, hy.sub_mod]
  refine if_neg ?_
  rintro ⟨rfl, rfl⟩
  simp at hne

theorem isLastBlkInQg_iff (ctbX ctbY n : Nat) (hs : Sizes cfg) (hx : InGroup cfg ox x0) (hy : InGroup cfg oy y0)
    (hx' : x0 < 64) (hy' : y0 < 64) :
    isLastBlkInQg cfg ctbX ctbY x0 y0 n = true ↔
      (ox + 2 ^ i1Log2MinCuQpDeltaSize cfg ≤ x0 + n ∧
        oy + 2 ^ i1Log2MinCuQpDeltaSize cfg ≤ y0 + n) ∨
      (¬ cfg.InWidth ctbX (x0 + n) ∧ oy + 2 ^ i1Log2MinCuQpDeltaSize cfg ≤ y0 + n) ∨
      (¬ cfg.InHeight ctbY (y0 + n) ∧ ox + 2 ^ i1Log2MinCuQpDeltaSize cfg ≤ x0 + n) := by
  have hox : ox / 8 * 8 = ox := Nat.div_mul_cancel (hs.dvd.trans hx.aligned)
  have hoy : oy / 8 * 8 = oy := Nat.div_mul_cancel (hs.dvd.trans hy.aligned)
  simp only [isLastBlkInQg, hx.qgPos hs hx', hy.qgPos hs hy', hox, hoy, decide_eq_true_eq]
  rfl

/-- Both sides behind a node of the group. -/
def NodeBehind (cfg : QpConfig) (ctbX ctbY : Nat) (g : Group) (x0 y0 n : Nat) (e : QpContext)
    (d : QpCtxt) (e' : QpContext) (d' : QpCtxt) : Prop :=
  ∃ done, Behind g done e' d' ∧
    (¬ Corner cfg ctbX ctbY (x0 + n) (y0 + n) → done = isLastBlkInQg cfg ctbX ctbY x0 y0 n) ∧
    Filled cfg ctbX ctbY x0 y0 n e.ai48x8CuQp d.ai18x8CuQp e'.ai48x8CuQp d'.ai18x8CuQp

theorem Filled.ofIf {p Q : Prop} [Decidable p] {r : QpContext × List Int} {d d' : QpCtxt}
    (h : if p then Q else d' = d)
    (hfill : Q → Filled cfg ctbX ctbY x0 y0 n e.ai48x8CuQp d.ai18x8CuQp r.1.ai48x8CuQp
      d'.ai18x8CuQp) :
    if p then Filled cfg ctbX ctbY x0 y0 n e.ai48x8CuQp d.ai18x8CuQp
        (if p then r else (e, [])).1.ai48x8CuQp d'.ai18x8CuQp
    else (if p then r else (e, [])).1.ai48x8CuQp = e.ai48x8CuQp ∧ d'.ai18x8CuQp = d.ai18x8CuQp := by
  by_cases hp : p
  · simp only [if_pos hp] at h ⊢
    exact hfill h
  · simp only [if_neg hp] at h ⊢
    exact ⟨trivial, by rw [h]⟩

theorem NodeBehind.filled (h : NodeBehind cfg ctbX ctbY g x0 y0 n e d e' d') :
    Filled cfg ctbX ctbY x0 y0 n e.ai48x8CuQp d.ai18x8CuQp e'.ai48x8CuQp d'.ai18x8CuQp := by
  obtain ⟨_, -, -, hfill⟩ := h
  exact hfill

/-- The node is in the group, with all of it. -/
structure NodeIn (cfg : QpConfig) (g : Group) (x0 y0 n : Nat) : Prop where
  x : InGroup cfg (8 * g.gx) x0
  y : InGroup cfg (8 * g.gy) y0
  right : x0 + n ≤ 8 * g.gx + 2 ^ i1Log2MinCuQpDeltaSize cfg
  below : y0 + n ≤ 8 * g.gy + 2 ^ i1Log2MinCuQpDeltaSize cfg
  inCtb : x0 + n ≤ 64 ∧ y0 + n ≤ 64

/-- A quarter of a node that is in the group. -/
theorem NodeIn.quarter (h : NodeIn cfg g x0 y0 (n + n)) (hn : 0 < n) (h8 : 8 ∣ n)
    (hi : i = 0 ∨ i = n) (hj : j = 0 ∨ j = n) : NodeIn cfg g (x0 + i) (y0 + j) n := by
  obtain ⟨⟨hax, hbx, hlx, hltx⟩, ⟨hay, hby, hly, hlty⟩, hright, hbelow, hx64, hy64⟩ := h
  refine ⟨⟨hax, ?_, ?_, ?_⟩, ⟨hay, ?_, ?_, ?_⟩, ?_, ?_, ?_, ?_⟩ <;> omega

theorem two_pow_pred_add (h : 0 < k) : 2 ^ k = 2 ^ (k - 1) + 2 ^ (k - 1) := by
  obtain ⟨k, rfl⟩ := Nat.exists_eq_succ_of_ne_zero h.ne'
  simp [Nat.pow_succ]
  omega

theorem cuNode_runs {g : Group} {q : Nat → Nat → Int} (hs : Sizes cfg) (hok : g.Ok cfg ctbX)
    (hq : g.q = q (8 * g.gx / 2 ^ i1Log2MinCuQpDeltaSize cfg)
      (8 * g.gy / 2 ^ i1Log2MinCuQpDeltaSize cfg))
    (hx : InGroup cfg (8 * g.gx) x0) (hy : InGroup cfg (8 * g.gy) y0) (hx' : x0 < 64)
    (hy' : y0 < 64)
    (h : Inside g false (resetEnc cfg ctDepth e)
      ((resetDec cfg log2CbSize d).startGroup cfg (x0 / 8) (y0 / 8)))
    (hzero : e.i4IsCuCbfZero = true)
    (hlegal : LegalQuadtree cfg ctbX ctbY q (.cu cu) x0 y0 log2CbSize) :
    let r := ihevceEncodeCodingQuadtree cfg ctbX ctbY (.cu cu) x0 y0 log2CbSize ctDepth e
    (∀ delta ∈ r.2, DeltaLegal delta) →
      ∃ d', Runs cfg ctbX ctbY (.cu cu) x0 y0 log2CbSize d r.2 d' ∧
        Behind g (isLastBlkInQg cfg ctbX ctbY x0 y0 (2 ^ log2CbSize)) r.1 d' ∧
        Filled cfg ctbX ctbY x0 y0 (2 ^ log2CbSize) e.ai48x8CuQp d.ai18x8CuQp r.1.ai48x8CuQp
          d'.ai18x8CuQp := by
  intro r hdeltas
  obtain ⟨hlog, hqp⟩ := hlegal
  have hdiv : ∀ {o x}, InGroup cfg o x →
      x / 2 ^ i1Log2MinCuQpDeltaSize cfg = o / 2 ^ i1Log2MinCuQpDeltaSize cfg := fun {o x} ho => by
    obtain ⟨⟨k, rfl⟩, -, hle, hlt⟩ := ho
    rw [Nat.mul_div_cancel_left _ (Nat.two_pow_pos _)]
    exact Nat.div_eq_of_lt_le (by rwa [Nat.mul_comm]) (by rwa [Nat.succ_mul, Nat.mul_comm])
  obtain ⟨d', hrun, hbehind, qp, hrange, he', hd'⟩ :=
    codingUnit_parse ctbY log2CbSize cu hs hok hx hy hx' hy' h hzero (by rw [hqp, hdiv hx, hdiv hy, hq])
      hdeltas
  refine ⟨d', hrun, hbehind, ?_⟩
  have he' : r.1.ai48x8CuQp =
    fillCuQp e.ai48x8CuQp (x0 / 8) (y0 / 8) (2 ^ log2CbSize) qp := he'
  have hd' : d'.ai18x8CuQp =
    fillCuQp d.ai18x8CuQp (x0 / 8) (y0 / 8) (2 ^ log2CbSize) qp := hd'
  rw [he', hd']
  exact Filled.cu hrange hx.block hy.block (pow_dvd_pow 2 hlog)

/-- Both sides before a CU that does not begin the group. -/
theorem Behind.ready (hs : Sizes cfg) (h : Behind g false e d)
    (hdepth : ctDepth + log2CbSize = cfg.i1Log2CtbSize)
    (hlog : log2CbSize < i1Log2MinCuQpDeltaSize cfg) (hx : InGroup cfg (8 * g.gx) x)
    (hy : InGroup cfg (8 * g.gy) y) (hne : x ≠ 8 * g.gx ∨ y ≠ 8 * g.gy) :
    Inside g false (resetEnc cfg ctDepth e)
      ((resetDec cfg log2CbSize d).startGroup cfg (x / 8) (y / 8)) := by
  rw [resetEnc_below hs hdepth hlog, resetDec_below hlog, startGroup_ne hx hy hne]
  exact h.toInside

/-- The last block of a node in a group is in its last quarter. -/
theorem isLastBlkInQg_quarters (ctbX ctbY : Nat) (hs : Sizes cfg) (hin : NodeIn cfg g x0 y0 (n + n)) (hn : 0 < n)
    (h8 : 8 ∣ n) :
    isLastBlkInQg cfg ctbX ctbY x0 y0 n = false ∧
      (cfg.InHeight ctbY (y0 + n) → isLastBlkInQg cfg ctbX ctbY (x0 + n) y0 n = false) ∧
      (cfg.InWidth ctbX (x0 + n) → isLastBlkInQg cfg ctbX ctbY x0 (y0 + n) n = false) ∧
      isLastBlkInQg cfg ctbX ctbY (x0 + n) (y0 + n) n =
        isLastBlkInQg cfg ctbX ctbY x0 y0 (n + n) ∧
      (cfg.InWidth ctbX (x0 + (n + n)) → ¬ cfg.InHeight ctbY (y0 + n) →
        isLastBlkInQg cfg ctbX ctbY (x0 + n) y0 n =
          isLastBlkInQg cfg ctbX ctbY x0 y0 (n + n)) ∧
      (cfg.InHeight ctbY (y0 + (n + n)) → ¬ cfg.InWidth ctbX (x0 + n) →
        isLastBlkInQg cfg ctbX ctbY x0 (y0 + n) n =
          isLastBlkInQg cfg ctbX ctbY x0 y0 (n + n)) := by
  have hin1 := hin.quarter hn h8 (.inr rfl) (.inl rfl)
  have hin2 := hin.quarter hn h8 (.inl rfl) (.inr rfl)
  have hin3 := hin.quarter hn h8 (.inr rfl) (.inr rfl)
  rw [Nat.add_zero] at hin1 hin2
  have hright := hin.right
  have hbelow := hin.below
  obtain ⟨hx64, hy64⟩ := hin.inCtb
  have hh : ¬ cfg.InHeight ctbY (y0 + n) → ¬ cfg.InHeight ctbY (y0 + (n + n)) := fun hh hh' =>
    hh (by unfold CtbGrid.InHeight at hh' ⊢; omega)
  have hw : ¬ cfg.InWidth ctbX (x0 + n) → ¬ cfg.InWidth ctbX (x0 + (n + n)) := fun hw hw' =>
    hw (by unfold CtbGrid.InWidth at hw' ⊢; omega)
  have hr0 : ¬ 8 * g.gx + 2 ^ i1Log2MinCuQpDeltaSize cfg ≤ x0 + n := by omega
  have hb0 : ¬ 8 * g.gy + 2 ^ i1Log2MinCuQpDeltaSize cfg ≤ y0 + n := by omega
  have h0 := isLastBlkInQg_iff ctbX ctbY n hs hin.x hin.y (by omega) (by omega)
  have h1 := isLastBlkInQg_iff ctbX ctbY n hs hin1.x hin1.y (by omega) (by omega)
  have h2 := isLastBlkInQg_iff ctbX ctbY n hs hin2.x hin2.y (by omega) (by omega)
  have h3 := isLastBlkInQg_iff ctbX ctbY n hs hin3.x hin3.y (by omega) (by omega)
  have h4 := isLastBlkInQg_iff ctbX ctbY (n + n) hs hin.x hin.y (by omega) (by omega)
  rw [Nat.add_assoc] at h1 h2 h3
  rw [Nat.add_assoc] at h3
  refine ⟨?_, fun hh' => ?_, fun hw' => ?_, ?_, fun hw' hh' => ?_, fun hh' hw' => ?_⟩
  · rw [Bool.eq_false_iff, ne_eq, h0]
    simp [hr0, hb0]
  · rw [Bool.eq_false_iff, ne_eq, h1]
    simp [hb0, hh']
  · rw [Bool.eq_false_iff, ne_eq, h2]
    simp [hr0, hw']
  · rw [Bool.eq_iff_iff, h3, h4]
  · rw [Bool.eq_iff_iff, h1, h4]
    have hh'' := hh hh'
    simp only [hb0, hw', hh', hh'', and_false, not_true_eq_false, not_false_eq_true, true_and,
      false_and, false_or]
    exact ⟨.inr, fun hr => hr.elim (·.1) id⟩
  · rw [Bool.eq_iff_iff, h2, h4]
    have hw'' := hw hw'
    simp [hr0, hw', hh', hw'']

/-- A node in a group; no delta flag is reset below it. -/
theorem smallNode_runs {g : Group} {q : Nat → Nat → Int} (hs : Sizes cfg) (hok : g.Ok cfg ctbX)
    (hq : g.q = q (8 * g.gx / 2 ^ i1Log2MinCuQpDeltaSize cfg)
      (8 * g.gy / 2 ^ i1Log2MinCuQpDeltaSize cfg)) (t : CodingQuadtree CuResidual) :
    ∀ {x0 y0 log2CbSize ctDepth e d}, NodeIn cfg g x0 y0 (2 ^ log2CbSize) →
      ctDepth + log2CbSize = cfg.i1Log2CtbSize → log2CbSize ≤ i1Log2MinCuQpDeltaSize cfg →
      Inside g false (resetEnc cfg ctDepth e)
        ((resetDec cfg log2CbSize d).startGroup cfg (x0 / 8) (y0 / 8)) →
      e.i4IsCuCbfZero = true → LegalQuadtree cfg ctbX ctbY q t x0 y0 log2CbSize →
      let r := ihevceEncodeCodingQuadtree cfg ctbX ctbY t x0 y0 log2CbSize ctDepth e
      (∀ delta ∈ r.2, DeltaLegal delta) →
        ∃ d', Runs cfg ctbX ctbY t x0 y0 log2CbSize d r.2 d' ∧
          NodeBehind cfg ctbX ctbY g x0 y0 (2 ^ log2CbSize) e d r.1 d' := by
  induction t with
  | cu cu =>
    intro x0 y0 log2CbSize ctDepth e d hin _ _ h hzero hlegal r hdeltas
    have hpos := Nat.two_pow_pos log2CbSize
    obtain ⟨hx64, hy64⟩ := hin.inCtb
    obtain ⟨d', hrun, hbehind, hfilled⟩ := cuNode_runs hs hok hq hin.x hin.y (by omega) (by omega) h
      hzero hlegal hdeltas
    exact ⟨d', hrun, _, hbehind, fun _ => rfl, hfilled⟩
  | split c0 c1 c2 c3 ih0 ih1 ih2 ih3 =>
    intro x0 y0 log2CbSize ctDepth e d hin hdepth hlog h hzero hlegal r hdeltas
    obtain ⟨hlog3, hlegal0, hlegal1, hlegal2, hlegal3⟩ := hlegal
    have hpow := two_pow_pred_add (Nat.zero_lt_of_lt hlog3)
    have h8 : 8 ∣ 2 ^ (log2CbSize - 1) := pow_dvd_pow 2 (Nat.le_sub_one_of_lt hlog3)
    have hpos := Nat.two_pow_pos (log2CbSize - 1)
    rw [hpow] at hin ⊢
    have hin0 := hin.quarter hpos h8 (.inl rfl) (.inl rfl)
    have hin1 := hin.quarter hpos h8 (.inr rfl) (.inl rfl)
    have hin2 := hin.quarter hpos h8 (.inl rfl) (.inr rfl)
    have hin3 := hin.quarter hpos h8 (.inr rfl) (.inr rfl)
    rw [Nat.add_zero] at hin0 hin1 hin2
    rw [Nat.add_zero] at hin0
    obtain ⟨hlast0, hlast1, hlast2, hlast3, hlast1', hlast2'⟩ :=
      isLastBlkInQg_quarters ctbX ctbY hs hin hpos h8
    have hdepth' : ctDepth + 1 + (log2CbSize - 1) = cfg.i1Log2CtbSize := by omega
    have hlog' : log2CbSize - 1 < i1Log2MinCuQpDeltaSize cfg := by omega
    have hxle := hin.x.le
    have hyle := hin.y.le
    let n := 2 ^ (log2CbSize - 1)
    let r0 := ihevceEncodeCodingQuadtree cfg ctbX ctbY c0 x0 y0 (log2CbSize - 1) (ctDepth + 1)
      (resetEnc cfg ctDepth e)
    let q1 := ihevceEncodeCodingQuadtree cfg ctbX ctbY c1 (x0 + n) y0 (log2CbSize - 1)
      (ctDepth + 1) r0.1
    let r1 := if cfg.InWidth ctbX (x0 + n) then q1 else (r0.1, [])
    let q2 := ihevceEncodeCodingQuadtree cfg ctbX ctbY c2 x0 (y0 + n) (log2CbSize - 1)
      (ctDepth + 1) r1.1
    let r2 := if cfg.InHeight ctbY (y0 + n) then q2 else (r1.1, [])
    let q3 := ihevceEncodeCodingQuadtree cfg ctbX ctbY c3 (x0 + n) (y0 + n) (log2CbSize - 1)
      (ctDepth + 1) r2.1
    let r3 := if cfg.InWidth ctbX (x0 + n) ∧ cfg.InHeight ctbY (y0 + n) then q3 else (r2.1, [])
    have hr : r = (r3.1, r0.2 ++ (r1.2 ++ (r2.2 ++ r3.2))) := rfl
    rw [hr] at hdeltas ⊢
    simp only [List.mem_append] at hdeltas
    -- the first quarter begins where the node does
    obtain ⟨d1, hrun0, done0, hbehind0, hdone0, hfill0⟩ := ih0
      (e := resetEnc cfg ctDepth e) (d := resetDec cfg log2CbSize d) hin0 hdepth' hlog'.le
      (by rwa [resetEnc_below hs hdepth' hlog', resetDec_below hlog']) hzero hlegal0 fun delta hd => hdeltas delta (.inl hd)
    have hmore1 : cfg.InWidth ctbX (x0 + n) ∨ cfg.InHeight ctbY (y0 + n) →
        Behind g false r0.1 d1 := fun hmore => by
      rw [hdone0 (fun hcorner => hmore.elim hcorner.1 hcorner.2), hlast0] at hbehind0
      exact hbehind0
    obtain ⟨d2, hrun1, hq1⟩ := RunsIf.of (t := c1) (d := d1) (e := r0.1)
      (p := cfg.InWidth ctbX (x0 + n)) (r := q1)
      (Q := NodeBehind cfg ctbX ctbY g (x0 + n) y0 n r0.1 d1)
      (fun hw hl => ih1 hin1 hdepth' hlog'.le
        ((hmore1 (.inl hw)).ready hs hdepth' hlog' hin1.x hin1.y (.inl (by omega)))
        (hmore1 (.inl hw)).zero (hlegal1 hw) hl)
      fun delta hd => hdeltas delta (.inr (.inl hd))
    have hmore2 : cfg.InHeight ctbY (y0 + n) → Behind g false r1.1 d2 := fun hh => by
      by_cases hw : cfg.InWidth ctbX (x0 + n)
      · rw [if_pos hw] at hq1
        obtain ⟨done1, hbehind1, hdone1, -⟩ := hq1
        rw [hdone1 (fun hcorner => hcorner.2 hh), hlast1 hh] at hbehind1
        simpa only [r1, if_pos hw] using hbehind1
      · rw [if_neg hw] at hq1
        simpa only [r1, if_neg hw, hq1] using hmore1 (.inr hh)
    obtain ⟨d3, hrun2, hq2⟩ := RunsIf.of (t := c2) (d := d2) (e := r1.1)
      (p := cfg.InHeight ctbY (y0 + n)) (r := q2)
      (Q := NodeBehind cfg ctbX ctbY g x0 (y0 + n) n r1.1 d2)
      (fun hh hl => ih2 hin2 hdepth' hlog'.le
        ((hmore2 hh).ready hs hdepth' hlog' hin2.x hin2.y (.inr (by omega)))
        (hmore2 hh).zero (hlegal2 hh) hl)
      fun delta hd => hdeltas delta (.inr (.inr (.inl hd)))
    have hmore3 : cfg.InWidth ctbX (x0 + n) ∧ cfg.InHeight ctbY (y0 + n) →
        Behind g false r2.1 d3 := by
      rintro ⟨hw, hh⟩
      rw [if_pos hh] at hq2
      obtain ⟨done2, hbehind2, hdone2, -⟩ := hq2
      rw [hdone2 (fun hcorner => hcorner.1 hw), hlast2 hw] at hbehind2
      simpa only [r2, if_pos hh] using hbehind2
    obtain ⟨d4, hrun3, hq3⟩ := RunsIf.of (t := c3) (d := d3) (e := r2.1)
      (p := cfg.InWidth ctbX (x0 + n) ∧ cfg.InHeight ctbY (y0 + n)) (r := q3)
      (Q := NodeBehind cfg ctbX ctbY g (x0 + n) (y0 + n) n r2.1 d3)
      (fun hin hl => ih3 hin3 hdepth' hlog'.le
        ((hmore3 hin).ready hs hdepth' hlog' hin3.x hin3.y (.inl (by omega)))
        (hmore3 hin).zero (hlegal3 hin.1 hin.2) hl)
      fun delta hd => hdeltas delta (.inr (.inr (.inr hd)))
    refine ⟨d4, Runs.split (Nat.zero_lt_of_lt hlog3) hrun0 hrun1 hrun2 hrun3, ?_⟩
    have hfill := Filled.split hfill0 (Filled.ofIf hq1 NodeBehind.filled)
      (Filled.ofIf hq2 NodeBehind.filled) (Filled.ofIf hq3 NodeBehind.filled)
    suffices hlast : ∃ done, Behind g done r3.1 d4 ∧
        (¬ Corner cfg ctbX ctbY (x0 + (n + n)) (y0 + (n + n)) →
          done = isLastBlkInQg cfg ctbX ctbY x0 y0 (n + n)) by
      obtain ⟨done, hbehind, hdone⟩ := hlast
      exact ⟨done, hbehind, hdone, hfill⟩
    by_cases hw : cfg.InWidth ctbX (x0 + n)
    · by_cases hh : cfg.InHeight ctbY (y0 + n)
      · rw [if_pos ⟨hw, hh⟩] at hq3
        obtain ⟨done3, hbehind3, hdone3, -⟩ := hq3
        refine ⟨done3, by simpa only [r3, if_pos (And.intro hw hh)] using hbehind3, fun hcorner => ?_⟩
        rw [Nat.add_assoc, Nat.add_assoc] at hdone3
        exact (hdone3 hcorner).trans hlast3
      · rw [if_neg (fun hin => hh hin.2)] at hq3
        rw [if_neg hh] at hq2
        rw [if_pos hw] at hq1
        obtain ⟨done1, hbehind1, hdone1, -⟩ := hq1
        rw [hq3, hq2]
        refine ⟨done1, by simpa [r3, r2, r1, hw, hh] using hbehind1, fun hcorner => ?_⟩
        have hw' : cfg.InWidth ctbX (x0 + (n + n)) := by
          by_contra hw'
          exact hcorner ⟨hw', fun hh' => hh (by unfold CtbGrid.InHeight at hh' ⊢; omega)⟩
        rw [Nat.add_assoc] at hdone1
        exact (hdone1 fun hcorner => hcorner.1 hw').trans (hlast1' hw' hh)
    · rw [if_neg (fun hin => hw hin.1)] at hq3
      rw [if_neg hw] at hq1
      by_cases hh : cfg.InHeight ctbY (y0 + n)
      · rw [if_pos hh] at hq2
        obtain ⟨done2, hbehind2, hdone2, -⟩ := hq2
        rw [hq3]
        refine ⟨done2, by simpa [r3, r2, hw, hh] using hbehind2, fun hcorner => ?_⟩
        have hh' : cfg.InHeight ctbY (y0 + (n + n)) := by
          by_contra hh'
          exact hcorner ⟨fun hw' => hw (by unfold CtbGrid.InWidth at hw' ⊢; omega), hh'⟩
        rw [Nat.add_assoc] at hdone2
        exact (hdone2 fun hcorner => hcorner.2 hh').trans (hlast2' hh' hw)
      · rw [if_neg hh] at hq2
        rw [hq3, hq2, hq1]
        refine ⟨done0, by simpa [r3, r2, r1, hw, hh] using hbehind0, fun hcorner => ?_⟩
        exact absurd ⟨fun hw' => hw (by unfold CtbGrid.InWidth at hw' ⊢; omega),
          fun hh' => hh (by unfold CtbGrid.InHeight at hh' ⊢; omega)⟩ hcorner

end Libhevc.RoundTrip
