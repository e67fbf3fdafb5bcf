import Libhevc.RoundTrip.CuQpTree

/-!
# Delta QPs of a picture

Nodes that hold whole groups, CTBs and the picture. Between groups both sides have
the same last QP; behind the corner of the picture it does not matter.
-/

namespace Libhevc.RoundTrip

open Encoder Decoder

variable {cfg : QpConfig}

-- ---------------------------------------------------------------------------
-- Between groups
-- ---------------------------------------------------------------------------

structure Between (e : QpContext) (d : QpCtxt) : Prop where
  zero : e.i4IsCuCbfZero = true
  curQp : e.i1CurQp = d.u4Qp
  range : QpInRange e.i1CurQp

/-- The blocks to the left of a node and above it, in its CTB. -/
def AgreeBefore (cfg : QpConfig) (ctbX ctbY x0 y0 n : Nat) (e d : Nat → Nat → Int) : Prop :=
  ∀ x y, 8 * x < x0 + n → 8 * y < y0 + n → 8 * x < x0 ∨ 8 * y < y0 →
    cfg.InWidth ctbX (8 * x) → cfg.InHeight ctbY (8 * y) → AgreeAt e d x y

theorem AgreeBefore.right (h : AgreeBefore cfg ctbX ctbY x0 y0 (n + n) m m')
    (hfill : Filled cfg ctbX ctbY x0 y0 n m m' m₁ m₁') :
    AgreeBefore cfg ctbX ctbY (x0 + n) y0 n m₁ m₁' := by
  intro x y hx hy hbefore hw hh
  rcases Nat.lt_or_ge (8 * y) y0 with hy0 | hy0
  · exact hfill.keep x y (h x y (by omega) (by omega) (.inr hy0) hw hh)
  · rcases Nat.lt_or_ge (8 * x) x0 with hx0 | hx0
    · exact hfill.keep x y (h x y (by omega) (by omega) (.inl hx0) hw hh)
    · exact hfill.agree x y hx0 (by omega) hy0 hy hw hh

theorem AgreeBefore.below (h : AgreeBefore cfg ctbX ctbY x0 y0 (n + n) m m')
    (hfill : Filled cfg ctbX ctbY x0 y0 n m m' m₁ m₁') :
    AgreeBefore cfg ctbX ctbY x0 (y0 + n) n m₁ m₁' := by
  intro x y hx hy hbefore hw hh
  rcases Nat.lt_or_ge (8 * x) x0 with hx0 | hx0
  · exact hfill.keep x y (h x y (by omega) (by omega) (.inl hx0) hw hh)
  · rcases Nat.lt_or_ge (8 * y) y0 with hy0 | hy0
    · exact hfill.keep x y (h x y (by omega) (by omega) (.inr hy0) hw hh)
    · exact hfill.agree x y hx0 hx hy0 (by omega) hw hh

theorem AgreeBefore.keep (h : AgreeBefore cfg ctbX ctbY x0 y0 n m m')
    (hkeep : ∀ x y, AgreeAt m m' x y → AgreeAt m₁ m₁' x y) :
    AgreeBefore cfg ctbX ctbY x0 y0 n m₁ m₁' :=
  fun x y hx hy hbefore hw hh => hkeep x y (h x y hx hy hbefore hw hh)

theorem AgreeBefore.last (h1 : AgreeBefore cfg ctbX ctbY (x0 + n) y0 n m m')
    (h2 : AgreeBefore cfg ctbX ctbY x0 (y0 + n) n m m')
    (h1' : AgreeIn cfg ctbX ctbY (x0 + n) y0 n m m')
    (h2' : AgreeIn cfg ctbX ctbY x0 (y0 + n) n m m') :
    AgreeBefore cfg ctbX ctbY (x0 + n) (y0 + n) n m m' := by
  intro x y hx hy hbefore hw hh
  rcases Nat.lt_or_ge (8 * x) (x0 + n) with hx1 | hx1
  · by_cases hold : 8 * x < x0 ∨ 8 * y < y0 + n
    · exact h2 x y hx1 hy hold hw hh
    · exact h2' x y (by omega) hx1 (by omega) hy hw hh
  · rcases Nat.lt_or_ge (8 * y) y0 with hy0 | hy0
    · exact h1 x y hx (by omega) (.inr hy0) hw hh
    · exact h1' x y hx1 hx hy0 (by omega) hw hh

theorem groupPred_range (hprev : QpInRange prev) (hleft : gx ≠ 0 → QpInRange (m (gx - 1) gy))
    (htop : gy ≠ 0 → QpInRange (m gx (gy - 1))) : QpInRange (groupPred m prev gx gy) := by
  have h1 : QpInRange (if gx = 0 then prev else m (gx - 1) gy) := by
    split
    case isTrue => exact hprev
    case isFalse hne => exact hleft hne
  have h2 : QpInRange (if gy = 0 then prev else m gx (gy - 1)) := by
    split
    case isTrue => exact hprev
    case isFalse hne => exact htop hne
  obtain ⟨hlow1, hhigh1⟩ := h1
  obtain ⟨hlow2, hhigh2⟩ := h2
  exact ⟨by simp only [groupPred]; omega, by simp only [groupPred]; omega⟩

theorem groupPred_congr (hleft : gx ≠ 0 → m (gx - 1) gy = m' (gx - 1) gy)
    (htop : gy ≠ 0 → m gx (gy - 1) = m' gx (gy - 1)) :
    groupPred m prev gx gy = groupPred m' prev gx gy := by
  simp only [groupPred]
  split <;> split <;> simp_all

-- ---------------------------------------------------------------------------
-- Nodes of whole groups
-- ---------------------------------------------------------------------------

/-- A node that begins in the picture. -/
structure NodeAt (cfg : QpConfig) (ctbX ctbY x0 y0 n : Nat) : Prop where
  dvdX : n ∣ x0
  dvdY : n ∣ y0
  inCtb : x0 + n ≤ 64 ∧ y0 + n ≤ 64
  inWidth : cfg.InWidth ctbX x0
  inHeight : cfg.InHeight ctbY y0

/-- The group that begins with a node. -/
def groupAt (cfg : QpConfig) (q : Nat → Nat → Int) (e : QpContext) (x0 y0 : Nat) : Group where
  gx := x0 / 8
  gy := y0 / 8
  prev := e.i1CurQp
  p := groupPred e.ai48x8CuQp e.i1CurQp (x0 / 8) (y0 / 8)
  q := q (x0 / 2 ^ i1Log2MinCuQpDeltaSize cfg) (y0 / 2 ^ i1Log2MinCuQpDeltaSize cfg)

/-- Both sides before a node that begins a group. -/
structure Before (cfg : QpConfig) (ctbX ctbY x0 y0 n : Nat) (e : QpContext) (d : QpCtxt) :
    Prop extends Between e d where
  cuQps : List.Forall₂ SameQp e.cuQps d.cuQps
  agree : AgreeBefore cfg ctbX ctbY x0 y0 n e.ai48x8CuQp d.ai18x8CuQp
  rowStart : ctbX = 0 → x0 = 0 → y0 = 0 → cfg.i1EntropyCodingSyncEnabledFlag = true →
    e.i1CurQp = cfg.sliceQp

/-- Both sides behind a node of whole groups. -/
structure After (cfg : QpConfig) (ctbX ctbY x0 y0 n : Nat) (e : QpContext) (d : QpCtxt)
    (e' : QpContext) (d' : QpCtxt) : Prop where
  between : ¬ Corner cfg ctbX ctbY (x0 + n) (y0 + n) → Between e' d'
  cuQps : List.Forall₂ SameQp e'.cuQps d'.cuQps
  filled : Filled cfg ctbX ctbY x0 y0 n e.ai48x8CuQp d.ai18x8CuQp e'.ai48x8CuQp d'.ai18x8CuQp

theorem NodeAt.inGroup (hs : Sizes cfg) (h : NodeAt cfg ctbX ctbY x0 y0 n)
    (hn : 2 ^ i1Log2MinCuQpDeltaSize cfg ∣ n) :
    InGroup cfg (8 * (x0 / 8)) x0 ∧ InGroup cfg (8 * (y0 / 8)) y0 := by
  have hpos := Nat.two_pow_pos (i1Log2MinCuQpDeltaSize cfg)
  have hdvdX := hn.trans h.dvdX
  have hdvdY := hn.trans h.dvdY
  have h8x := hs.dvd.trans hdvdX
  have h8y := hs.dvd.trans hdvdY
  rw [Nat.mul_div_cancel' h8x, Nat.mul_div_cancel' h8y]
  exact ⟨⟨hdvdX, h8x, le_refl _, by omega⟩, ⟨hdvdY, h8y, le_refl _, by omega⟩⟩

theorem Before.left (h : Before cfg ctbX ctbY x0 y0 n e d) (hat : NodeAt cfg ctbX ctbY x0 y0 n)
    (hn : 0 < n) (hx : x0 / 8 ≠ 0) (h8 : 8 ∣ y0) :
    AgreeAt e.ai48x8CuQp d.ai18x8CuQp (x0 / 8 - 1) (y0 / 8) := by
  have hw := hat.inWidth
  have hh := hat.inHeight
  refine h.agree _ _ (by omega) (by omega) (.inl (by omega)) ?_ ?_
  · unfold CtbGrid.InWidth at hw ⊢
    omega
  · unfold CtbGrid.InHeight at hh ⊢
    omega

theorem Before.top (h : Before cfg ctbX ctbY x0 y0 n e d) (hat : NodeAt cfg ctbX ctbY x0 y0 n)
    (hn : 0 < n) (hy : y0 / 8 ≠ 0) (h8 : 8 ∣ x0) :
    AgreeAt e.ai48x8CuQp d.ai18x8CuQp (x0 / 8) (y0 / 8 - 1) := by
  have hw := hat.inWidth
  have hh := hat.inHeight
  refine h.agree _ _ (by omega) (by omega) (.inr (by omega)) ?_ ?_
  · unfold CtbGrid.InWidth at hw ⊢
    omega
  · unfold CtbGrid.InHeight at hh ⊢
    omega

theorem groupAt_ok {q : Nat → Nat → Int} (hs : Sizes cfg) (hq : ∀ i j, QpInRange (q i j))
    (hat : NodeAt cfg ctbX ctbY x0 y0 n) (hn : 0 < n) (hgroup : 2 ^ i1Log2MinCuQpDeltaSize cfg ∣ n)
    (h : Before cfg ctbX ctbY x0 y0 n e d) : (groupAt cfg q e x0 y0).Ok cfg ctbX where
  p := groupPred_range h.range
    (fun hx => (h.left hat hn hx (hat.inGroup hs hgroup).2.block).2)
    (fun hy => (h.top hat hn hy (hat.inGroup hs hgroup).1.block).2)
  q := hq _ _
  rowStart := by
    rintro ⟨hctb, hgx, hgy, hsync⟩
    have hgx : x0 / 8 = 0 := hgx
    have hgy : y0 / 8 = 0 := hgy
    have h8x := (hat.inGroup hs hgroup).1.block
    have h8y := (hat.inGroup hs hgroup).2.block
    rw [← h.rowStart hctb (by omega) (by omega) hsync]
    simp only [groupAt, groupPred, hgx, hgy, if_true]
    omega

theorem Before.inside {q : Nat → Nat → Int} (hs : Sizes cfg) (hat : NodeAt cfg ctbX ctbY x0 y0 n)
    (hn : 0 < n) (hgroup : 2 ^ i1Log2MinCuQpDeltaSize cfg ∣ n)
    (hdepth : ctDepth + log2CbSize = cfg.i1Log2CtbSize)
    (hlog : i1Log2MinCuQpDeltaSize cfg ≤ log2CbSize) (h : Before cfg ctbX ctbY x0 y0 n e d) :
    Inside (groupAt cfg q e x0 y0) false (resetEnc cfg ctDepth e)
      ((resetDec cfg log2CbSize d).startGroup cfg (x0 / 8) (y0 / 8)) := by
  obtain ⟨hx, hy⟩ := hat.inGroup hs hgroup
  have hx8 : x0 / 8 * 8 = x0 := Nat.div_mul_cancel hx.block
  have hy8 : y0 / 8 * 8 = y0 := Nat.div_mul_cancel hy.block
  have hxmod := hx.sub_mod
  have hymod := hy.sub_mod
  rw [Nat.mul_comm, hx8] at hxmod
  rw [Nat.mul_comm, hy8] at hymod
  have hstart : (resetDec cfg log2CbSize d).startGroup cfg (x0 / 8) (y0 / 8) =
      { d with i4IsCuQpDeltaCoded := false, u4Qpg := e.i1CurQp, i4CuQpDelta := 0 } := by
    simp only [QpCtxt.startGroup, hx8, hy8, hxmod, hymod, and_self, if_true, resetDec, hlog, h.curQp]
    rfl
  have henc : (resetEnc cfg ctDepth e).i1EncodeQpDelta = true := by
    have hle : ctDepth ≤ cfg.i1DiffCuQpDeltaDepth := by
      simp only [i1Log2MinCuQpDeltaSize] at hlog
      omega
    simp [resetEnc, hle]
  rw [hstart]
  exact
    { encPred := rfl
      decPred := groupPred_congr
        (fun hx' => (h.left hat hn hx' hy.block).1.symm)
        (fun hy' => (h.top hat hn hy' hx.block).1.symm)
      qpg := rfl
      notCoded := fun _ => ⟨rfl, rfl, rfl⟩
      coded := fun hfalse => by rw [henc] at hfalse; cases hfalse
      cuQps := h.cuQps }

/-- At the end of a group the encoder goes on from the QP that the decoder has. -/
theorem Behind.between (hok : g.Ok cfg ctbX) (h : Behind g true e d) : Between e d := by
  have hcur : e.i1CurQp = g.qp e.i1EncodeQpDelta := by
    cases he : e.i1EncodeQpDelta with
    | true => exact (h.notCoded he).2.2
    | false => exact (h.coded he).2.2
  exact ⟨h.zero, hcur.trans h.u4Qp.symm, hcur ▸ hok.qp _⟩

theorem isLastBlkInQg_whole (hs : Sizes cfg) (hat : NodeAt cfg ctbX ctbY x0 y0 n)
    (hgroup : 2 ^ i1Log2MinCuQpDeltaSize cfg ∣ n) (hn : 0 < n) :
    isLastBlkInQg cfg ctbX ctbY x0 y0 n = true := by
  obtain ⟨hx, hy⟩ := hat.inGroup hs hgroup
  obtain ⟨hx64, hy64⟩ := hat.inCtb
  have hle := Nat.le_of_dvd hn hgroup
  have hxle := hx.le
  have hyle := hy.le
  exact (isLastBlkInQg_iff ctbX ctbY n hs hx hy (by omega) (by omega)).mpr
    (.inl ⟨by omega, by omega⟩)

/-- A node that is one group, or a CU that holds groups. -/
theorem groupNode_runs {q : Nat → Nat → Int} (hs : Sizes cfg) (hq : ∀ i j, QpInRange (q i j))
    (t : CodingQuadtree CuResidual) (hat : NodeAt cfg ctbX ctbY x0 y0 (2 ^ log2CbSize))
    (hdepth : ctDepth + log2CbSize = cfg.i1Log2CtbSize)
    (hlog : i1Log2MinCuQpDeltaSize cfg ≤ log2CbSize)
    (hone : log2CbSize = i1Log2MinCuQpDeltaSize cfg ∨ ∃ cu, t = .cu cu)
    (h : Before cfg ctbX ctbY x0 y0 (2 ^ log2CbSize) e d)
    (hlegal : LegalQuadtree cfg ctbX ctbY q t x0 y0 log2CbSize) :
    let r := ihevceEncodeCodingQuadtree cfg ctbX ctbY t x0 y0 log2CbSize ctDepth e
    (∀ delta ∈ r.2, DeltaLegal delta) →
      ∃ d', Runs cfg ctbX ctbY t x0 y0 log2CbSize d r.2 d' ∧
        After cfg ctbX ctbY x0 y0 (2 ^ log2CbSize) e d r.1 d' := by
  intro r hdeltas
  have hpos := Nat.two_pow_pos log2CbSize
  have hgroup : 2 ^ i1Log2MinCuQpDeltaSize cfg ∣ 2 ^ log2CbSize := pow_dvd_pow 2 hlog
  obtain ⟨hx, hy⟩ := hat.inGroup hs hgroup
  obtain ⟨hx64, hy64⟩ := hat.inCtb
  have hok := groupAt_ok hs hq hat hpos hgroup h
  have hinside := h.inside (q := q) hs hat hpos hgroup hdepth hlog
  have hgq : (groupAt cfg q e x0 y0).q =
      q (8 * (groupAt cfg q e x0 y0).gx / 2 ^ i1Log2MinCuQpDeltaSize cfg)
        (8 * (groupAt cfg q e x0 y0).gy / 2 ^ i1Log2MinCuQpDeltaSize cfg) := by
    simp only [groupAt, Nat.mul_div_cancel' hx.block, Nat.mul_div_cancel' hy.block]
  have hwhole := isLastBlkInQg_whole hs hat hgroup hpos
  obtain ⟨d', hrun, done, hbehind, hdone, hfill⟩ : ∃ d',
      Runs cfg ctbX ctbY t x0 y0 log2CbSize d r.2 d' ∧
        NodeBehind cfg ctbX ctbY (groupAt cfg q e x0 y0) x0 y0 (2 ^ log2CbSize) e d r.1 d' := by
    rcases hone with rfl | ⟨cu, rfl⟩
    · have hxle := hx.le
      have hyle := hy.le
      refine smallNode_runs hs hok hgq t ⟨hx, hy, ?_, ?_, hat.inCtb⟩ hdepth le_rfl hinside h.zero
        hlegal hdeltas
      · simp only [groupAt, Nat.mul_div_cancel' hx.block, le_refl]
      · simp only [groupAt, Nat.mul_div_cancel' hy.block, le_refl]
    · obtain ⟨d', hrun, hbehind, hfill⟩ := cuNode_runs hs hok hgq hx hy (by omega) (by omega) hinside
        h.zero hlegal hdeltas
      exact ⟨d', hrun, _, hbehind, fun _ => rfl, hfill⟩
  refine ⟨d', hrun, fun hcorner => ?_, hbehind.cuQps, hfill⟩
  rw [hdone hcorner, hwhole] at hbehind
  exact hbehind.between hok

theorem NodeAt.quarter (h : NodeAt cfg ctbX ctbY x0 y0 (n + n)) (hi : i = 0 ∨ i = n)
    (hj : j = 0 ∨ j = n) (hw : cfg.InWidth ctbX (x0 + i)) (hh : cfg.InHeight ctbY (y0 + j)) :
    NodeAt cfg ctbX ctbY (x0 + i) (y0 + j) n := by
  obtain ⟨hdx, hdy, ⟨hx64, hy64⟩, -, -⟩ := h
  have hnx : n ∣ x0 := (Dvd.intro_left 2 (Nat.two_mul n)).trans hdx
  have hny : n ∣ y0 := (Dvd.intro_left 2 (Nat.two_mul n)).trans hdy
  have hdvd : ∀ {k}, k = 0 ∨ k = n → n ∣ k := by
    rintro k (rfl | rfl)
    · exact Nat.dvd_zero n
    · exact Nat.dvd_refl k
  refine ⟨Nat.dvd_add hnx (hdvd hi), Nat.dvd_add hny (hdvd hj), ⟨?_, ?_⟩, hw, hh⟩
  · rcases hi with rfl | rfl <;> omega
  · rcases hj with rfl | rfl <;> omega

/-- A later quarter begins where no row begins. -/
theorem After.before (h : After cfg ctbX ctbY x y n e d e' d')
    (hcorner : ¬ Corner cfg ctbX ctbY (x + n) (y + n)) (hne : x0 ≠ 0 ∨ y0 ≠ 0)
    (hagree : AgreeBefore cfg ctbX ctbY x0 y0 n e'.ai48x8CuQp d'.ai18x8CuQp) :
    Before cfg ctbX ctbY x0 y0 n e' d' where
  toBetween := h.between hcorner
  cuQps := h.cuQps
  agree := hagree
  rowStart := fun _ hx hy => absurd hne (by simp [hx, hy])

theorem largeNode_runs {q : Nat → Nat → Int} (hs : Sizes cfg) (hq : ∀ i j, QpInRange (q i j))
    (t : CodingQuadtree CuResidual) :
    ∀ {x0 y0 log2CbSize ctDepth e d}, NodeAt cfg ctbX ctbY x0 y0 (2 ^ log2CbSize) →
      ctDepth + log2CbSize = cfg.i1Log2CtbSize → i1Log2MinCuQpDeltaSize cfg ≤ log2CbSize →
      Before cfg ctbX ctbY x0 y0 (2 ^ log2CbSize) e d →
      LegalQuadtree cfg ctbX ctbY q t x0 y0 log2CbSize →
      let r := ihevceEncodeCodingQuadtree cfg ctbX ctbY t x0 y0 log2CbSize ctDepth e
      (∀ delta ∈ r.2, DeltaLegal delta) →
        ∃ d', Runs cfg ctbX ctbY t x0 y0 log2CbSize d r.2 d' ∧
          After cfg ctbX ctbY x0 y0 (2 ^ log2CbSize) e d r.1 d' := by
  induction t with
  | cu cu =>
    intro x0 y0 log2CbSize ctDepth e d hat hdepth hlog h hlegal
    exact groupNode_runs hs hq (.cu cu) hat hdepth hlog (.inr ⟨cu, rfl⟩) h hlegal
  | split c0 c1 c2 c3 ih0 ih1 ih2 ih3 =>
    intro x0 y0 log2CbSize ctDepth e d hat hdepth hlog h hlegal
    rcases Nat.eq_or_lt_of_le hlog with heq | hlt
    · exact groupNode_runs hs hq (.split c0 c1 c2 c3) hat hdepth hlog (.inl heq.symm) h hlegal
    intro r hdeltas
    obtain ⟨hlog3, hlegal0, hlegal1, hlegal2, hlegal3⟩ := hlegal
    have hpos := Nat.two_pow_pos (log2CbSize - 1)
    have hdepth' : ctDepth + 1 + (log2CbSize - 1) = cfg.i1Log2CtbSize := by omega
    have hlog' : i1Log2MinCuQpDeltaSize cfg ≤ log2CbSize - 1 := by omega
    rw [two_pow_pred_add (Nat.zero_lt_of_lt hlog3)] at hat h ⊢
    let n := 2 ^ (log2CbSize - 1)
    let r0 := ihevceEncodeCodingQuadtree cfg ctbX ctbY c0 x0 y0 (log2CbSize - 1) (ctDepth + 1)
      (resetEnc cfg ctDepth e)
    let q1 := ihevceEncodeCodingQuadtree cfg ctbX ctbY c1 (x0 + n) y0 (log2CbSize - 1)
      (ctDepth + 1) r0.1
    let r1 := if cfg.InWidth ctbX (x0 + n) then q1 else (r0.1, [])
    let q2 := ihevceEncodeCodingQuadtree cfg ctbX ctbY c2 x0 (y0 + n) (log2CbSize - 1)
      (ctDepth + 1) r1.1
    let r2 := if cfg.InHeight ctbY (y0 + n) then q2 else (r1.1, [])
    let q3 := ihevceEncodeCodingQuadtree cfg ctbX ctbY c3 (x0 + n) (y0 + n) (log2CbSize - 1)
      (ctDepth + 1) r2.1
    let r3 := if cfg.InWidth ctbX (x0 + n) ∧ cfg.InHeight ctbY (y0 + n) then q3 else (r2.1, [])
    have hr : r = (r3.1, r0.2 ++ (r1.2 ++ (r2.2 ++ r3.2))) := rfl
    rw [hr] at hdeltas ⊢
    simp only [List.mem_append] at hdeltas
    have hat0 := hat.quarter (.inl rfl) (.inl rfl) hat.inWidth hat.inHeight
    obtain ⟨d1, hrun0, hafter0⟩ := ih0 (e := resetEnc cfg ctDepth e)
      (d := resetDec cfg log2CbSize d) hat0 hdepth' hlog'
      { zero := h.zero
        curQp := h.curQp
        range := h.range
        cuQps := h.cuQps
        agree := fun x y hx hy => h.agree x y (by omega) (by omega)
        rowStart := h.rowStart }
      hlegal0 fun delta hd => hdeltas delta (.inl hd)
    obtain ⟨d2, hrun1, hq1⟩ := RunsIf.of (t := c1) (d := d1) (e := r0.1)
      (p := cfg.InWidth ctbX (x0 + n)) (r := q1)
      (Q := After cfg ctbX ctbY (x0 + n) y0 n r0.1 d1)
      (fun hw hl => ih1 (hat.quarter (.inr rfl) (.inl rfl) hw hat.inHeight) hdepth' hlog'
        (hafter0.before (fun hcorner => hcorner.1 hw) (.inl (by omega))
          (h.agree.right hafter0.filled)) (hlegal1 hw) hl)
      fun delta hd => hdeltas delta (.inr (.inl hd))
    have hready2 : cfg.InHeight ctbY (y0 + n) → Before cfg ctbX ctbY x0 (y0 + n) n r1.1 d2 :=
        fun hh => by
      have hbelow := h.agree.below hafter0.filled
      by_cases hw : cfg.InWidth ctbX (x0 + n)
      · rw [if_pos hw] at hq1
        simp only [r1, if_pos hw]
        exact hq1.before (fun hcorner => hcorner.2 hh) (.inr (by omega))
          (hbelow.keep hq1.filled.keep)
      · rw [if_neg hw] at hq1
        rw [hq1]
        simp only [r1, if_neg hw]
        exact hafter0.before (fun hcorner => hcorner.2 hh) (.inr (by omega)) hbelow
    obtain ⟨d3, hrun2, hq2⟩ := RunsIf.of (t := c2) (d := d2) (e := r1.1)
      (p := cfg.InHeight ctbY (y0 + n)) (r := q2)
      (Q := After cfg ctbX ctbY x0 (y0 + n) n r1.1 d2)
      (fun hh hl => ih2 (hat.quarter (.inl rfl) (.inr rfl) hat.inWidth hh) hdepth' hlog'
        (hready2 hh) (hlegal2 hh) hl)
      fun delta hd => hdeltas delta (.inr (.inr (.inl hd)))
    have hready3 : cfg.InWidth ctbX (x0 + n) ∧ cfg.InHeight ctbY (y0 + n) →
        Before cfg ctbX ctbY (x0 + n) (y0 + n) n r2.1 d3 := by
      rintro ⟨hw, hh⟩
      have hready2 := (hready2 hh).agree
      rw [if_pos hw] at hq1
      rw [if_pos hh] at hq2
      simp only [r2, r1, if_pos hw, if_pos hh] at hq2 hready2 ⊢
      have hkeep2 := hq2.filled.keep
      refine hq2.before (fun hcorner => hcorner.1 hw) (.inr (by omega)) ?_
      refine AgreeBefore.last ?_ (hready2.keep hkeep2) ?_ hq2.filled.agree
      · exact ((h.agree.right hafter0.filled).keep hq1.filled.keep).keep hkeep2
      · exact fun x y hx hx' hy hy' hw hh => hkeep2 x y (hq1.filled.agree x y hx hx' hy hy' hw hh)
    obtain ⟨d4, hrun3, hq3⟩ := RunsIf.of (t := c3) (d := d3) (e := r2.1)
      (p := cfg.InWidth ctbX (x0 + n) ∧ cfg.InHeight ctbY (y0 + n)) (r := q3)
      (Q := After cfg ctbX ctbY (x0 + n) (y0 + n) n r2.1 d3)
      (fun hin hl => ih3 (hat.quarter (.inr rfl) (.inr rfl) hin.1 hin.2) hdepth' hlog'
        (hready3 hin) (hlegal3 hin.1 hin.2) hl)
      fun delta hd => hdeltas delta (.inr (.inr (.inr hd)))
    refine ⟨d4, Runs.split (Nat.zero_lt_of_lt hlog3) hrun0 hrun1 hrun2 hrun3, ?_⟩
    have hfill := Filled.split hafter0.filled (Filled.ofIf hq1 After.filled)
      (Filled.ofIf hq2 After.filled) (Filled.ofIf hq3 After.filled)
    suffices hlast : (¬ Corner cfg ctbX ctbY (x0 + (n + n)) (y0 + (n + n)) → Between r3.1 d4) ∧
        List.Forall₂ SameQp r3.1.cuQps d4.cuQps from ⟨hlast.1, hlast.2, hfill⟩
    by_cases hw : cfg.InWidth ctbX (x0 + n)
    · by_cases hh : cfg.InHeight ctbY (y0 + n)
      · rw [if_pos ⟨hw, hh⟩] at hq3
        simp only [r3, if_pos (And.intro hw hh)]
        refine ⟨fun hcorner => hq3.between ?_, hq3.cuQps⟩
        rwa [Nat.add_assoc, Nat.add_assoc]
      · rw [if_neg (fun hin => hh hin.2)] at hq3
        rw [if_neg hh] at hq2
        rw [if_pos hw] at hq1
        rw [hq3, hq2]
        simp only [r3, r2, r1, hw, hh, and_false, if_true, if_false]
        refine ⟨fun hcorner => hq1.between fun hcorner1 => hcorner ⟨?_, ?_⟩, hq1.cuQps⟩
        · rw [← Nat.add_assoc]
          exact hcorner1.1
        · exact fun hh' => hh (by unfold CtbGrid.InHeight at hh' ⊢; omega)
    · rw [if_neg (fun hin => hw hin.1)] at hq3
      rw [if_neg hw] at hq1
      by_cases hh : cfg.InHeight ctbY (y0 + n)
      · rw [if_pos hh] at hq2
        rw [hq3]
        simp only [r3, r2, hw, hh, false_and, if_true, if_false]
        refine ⟨fun hcorner => hq2.between fun hcorner2 => hcorner ⟨?_, ?_⟩, hq2.cuQps⟩
        · exact fun hw' => hw (by unfold CtbGrid.InWidth at hw' ⊢; omega)
        · rw [← Nat.add_assoc]
          exact hcorner2.2
      · rw [if_neg hh] at hq2
        rw [hq3, hq2, hq1]
        simp only [r3, r2, r1, hw, hh, and_false, if_false]
        refine ⟨fun hcorner => absurd ⟨?_, ?_⟩ hcorner, hafter0.cuQps⟩
        · exact fun hw' => hw (by unfold CtbGrid.InWidth at hw' ⊢; omega)
        · exact fun hh' => hh (by unfold CtbGrid.InHeight at hh' ⊢; omega)

-- ---------------------------------------------------------------------------
-- CTBs
-- ---------------------------------------------------------------------------

theorem ctb_inWidth (hk : k < cfg.i2PicWdInCtb * cfg.i2PicHtInCtb) :
    cfg.InWidth (k % cfg.i2PicWdInCtb) 0 := by
  have hwd : 0 < cfg.i2PicWdInCtb := Nat.pos_of_ne_zero fun h => by simp [h] at hk
  have hmod := Nat.mod_lt k hwd
  have hpos := Nat.two_pow_pos cfg.i1Log2CtbSize
  have hle : (k % cfg.i2PicWdInCtb + 1) * 2 ^ cfg.i1Log2CtbSize ≤
      cfg.i2PicWidthInLumaSamples + 2 ^ cfg.i1Log2CtbSize - 1 :=
    (Nat.le_div_iff_mul_le hpos).mp hmod
  rw [Nat.succ_mul] at hle
  unfold CtbGrid.InWidth
  omega

theorem ctb_inHeight (hk : k < cfg.i2PicWdInCtb * cfg.i2PicHtInCtb) :
    cfg.InHeight (k / cfg.i2PicWdInCtb) 0 := by
  have hdiv : k / cfg.i2PicWdInCtb < cfg.i2PicHtInCtb := Nat.div_lt_of_lt_mul hk
  have hpos := Nat.two_pow_pos cfg.i1Log2CtbSize
  have hle : (k / cfg.i2PicWdInCtb + 1) * 2 ^ cfg.i1Log2CtbSize ≤
      cfg.i2PicHeightInLumaSamples + 2 ^ cfg.i1Log2CtbSize - 1 :=
    (Nat.le_div_iff_mul_le hpos).mp hdiv
  rw [Nat.succ_mul] at hle
  unfold CtbGrid.InHeight
  omega

/-- Only the last CTB of the picture reaches its corner. -/
theorem ctb_not_corner (hk : k + 1 < cfg.i2PicWdInCtb * cfg.i2PicHtInCtb) :
    ¬ Corner cfg (k % cfg.i2PicWdInCtb) (k / cfg.i2PicWdInCtb) (0 + 2 ^ cfg.i1Log2CtbSize)
      (0 + 2 ^ cfg.i1Log2CtbSize) := by
  rintro ⟨hw, hh⟩
  have hpos := Nat.two_pow_pos cfg.i1Log2CtbSize
  have hwd : cfg.i2PicWdInCtb ≤ k % cfg.i2PicWdInCtb + 1 := by
    unfold CtbGrid.InWidth at hw
    refine Nat.le_of_lt_succ ((Nat.div_lt_iff_lt_mul hpos).mpr ?_)
    rw [Nat.succ_mul, Nat.succ_mul]
    omega
  have hht : cfg.i2PicHtInCtb ≤ k / cfg.i2PicWdInCtb + 1 := by
    unfold CtbGrid.InHeight at hh
    refine Nat.le_of_lt_succ ((Nat.div_lt_iff_lt_mul hpos).mpr ?_)
    rw [Nat.succ_mul, Nat.succ_mul]
    omega
  have hdiv := Nat.div_add_mod k cfg.i2PicWdInCtb
  have hmul := Nat.mul_le_mul_left cfg.i2PicWdInCtb hht
  rw [Nat.mul_succ] at hmul
  omega

/-- Both sides before a CTB; with wavefronts the decoder goes to the QP of the slice only then. -/
structure CtbReady (cfg : QpConfig) (k : Nat) (e : QpContext) (d : QpCtxt) : Prop where
  zero : e.i4IsCuCbfZero = true
  range : QpInRange e.i1CurQp
  cuQps : List.Forall₂ SameQp e.cuQps d.cuQps
  rowStart : cfg.i1EntropyCodingSyncEnabledFlag = true → k % cfg.i2PicWdInCtb = 0 →
    e.i1CurQp = cfg.sliceQp
  inRow : ¬ (cfg.i1EntropyCodingSyncEnabledFlag = true ∧ k % cfg.i2PicWdInCtb = 0) →
    e.i1CurQp = d.u4Qp

theorem CtbReady.before (h : CtbReady cfg k e d) : Before cfg (k % cfg.i2PicWdInCtb)
    (k / cfg.i2PicWdInCtb) 0 0 n e
    (if cfg.i1EntropyCodingSyncEnabledFlag = true ∧ k % cfg.i2PicWdInCtb = 0 then
      { d with u4Qp := cfg.sliceQp } else d) where
  zero := h.zero
  curQp := by
    split
    case isTrue hrow => exact h.rowStart hrow.1 hrow.2
    case isFalse hrow => exact h.inRow hrow
  range := h.range
  cuQps := by
    split
    · exact h.cuQps
    · exact h.cuQps
  agree := fun x y _ _ hbefore => by omega
  rowStart := fun hctb _ _ hsync => h.rowStart hsync hctb

variable {ctbs : Nat → Nat → CodingQuadtree CuResidual} {q : Nat → Nat → Nat → Nat → Int}

theorem ctb_runs (hs : Sizes cfg) (hslice : QpInRange cfg.sliceQp)
    (hq : ∀ ctbX ctbY i j, QpInRange (q ctbX ctbY i j))
    (hlegal : LegalQuadtree cfg (k % cfg.i2PicWdInCtb) (k / cfg.i2PicWdInCtb)
      (q (k % cfg.i2PicWdInCtb) (k / cfg.i2PicWdInCtb))
      (ctbs (k % cfg.i2PicWdInCtb) (k / cfg.i2PicWdInCtb)) 0 0 cfg.i1Log2CtbSize)
    (hk : k < cfg.i2PicWdInCtb * cfg.i2PicHtInCtb) (h : CtbReady cfg k e d)
    (hdeltas : ∀ delta ∈ (encodeCtb cfg ctbs e k).2, DeltaLegal delta) :
    ∃ d', (∀ rest, parseCtb cfg ctbs d k ((encodeCtb cfg ctbs e k).2 ++ rest) = some (d', rest)) ∧
      List.Forall₂ SameQp (encodeCtb cfg ctbs e k).1.cuQps d'.cuQps ∧
      AgreeIn cfg (k % cfg.i2PicWdInCtb) (k / cfg.i2PicWdInCtb) 0 0 (2 ^ cfg.i1Log2CtbSize)
        (encodeCtb cfg ctbs e k).1.ai48x8CuQp d'.ai18x8CuQp ∧
      (k + 1 < cfg.i2PicWdInCtb * cfg.i2PicHtInCtb →
        CtbReady cfg (k + 1) (encodeCtb cfg ctbs e k).1 d') := by
  have hsize : 2 ^ cfg.i1Log2CtbSize ≤ 64 := Nat.pow_le_pow_right (by decide) hs.ctb
  have hat : NodeAt cfg (k % cfg.i2PicWdInCtb) (k / cfg.i2PicWdInCtb) 0 0
      (2 ^ cfg.i1Log2CtbSize) :=
    ⟨Nat.dvd_zero _, Nat.dvd_zero _, ⟨by omega, by omega⟩, ctb_inWidth hk, ctb_inHeight hk⟩
  have hdeltas' : (encodeCtb cfg ctbs e k).2 = (ihevceEncodeCodingQuadtree cfg
      (k % cfg.i2PicWdInCtb) (k / cfg.i2PicWdInCtb)
      (ctbs (k % cfg.i2PicWdInCtb) (k / cfg.i2PicWdInCtb)) 0 0 cfg.i1Log2CtbSize 0 e).2 := by
    simp only [encodeCtb]
    split <;> rfl
  rw [hdeltas'] at hdeltas ⊢
  obtain ⟨d', hrun, hafter⟩ := largeNode_runs hs (hq _ _) _ hat (Nat.zero_add _)
    (Nat.sub_le _ _) h.before hlegal hdeltas
  refine ⟨d', hrun, ?_, ?_, fun hnext => ?_⟩
  · simp only [encodeCtb]
    split <;> exact hafter.cuQps
  · simp only [encodeCtb]
    split <;> exact hafter.filled.agree
  · have hbetween := hafter.between (ctb_not_corner hnext)
    by_cases hrow : (k + 1) % cfg.i2PicWdInCtb = 0 ∧
        k + 1 < cfg.i2PicWdInCtb * cfg.i2PicHtInCtb ∧ cfg.i1EntropyCodingSyncEnabledFlag = true
    · simp only [encodeCtb, if_pos hrow]
      exact ⟨hbetween.zero, hslice, hafter.cuQps, fun _ _ => rfl,
        fun hne => absurd ⟨hrow.2.2, hrow.1⟩ hne⟩
    · simp only [encodeCtb, if_neg hrow]
      exact ⟨hbetween.zero, hbetween.range, hafter.cuQps,
        fun hsync hzero => absurd ⟨hzero, hnext, hsync⟩ hrow, fun _ => hbetween.curQp⟩

theorem encodeCtbs_append (e : QpContext) (l l' : List Nat) :
    encodeCtbs cfg ctbs e (l ++ l') =
      ((encodeCtbs cfg ctbs (encodeCtbs cfg ctbs e l).1 l').1,
        (encodeCtbs cfg ctbs e l).2 ++ (encodeCtbs cfg ctbs (encodeCtbs cfg ctbs e l).1 l').2) := by
  induction l generalizing e with
  | nil => rfl
  | cons k l ih => simp [encodeCtbs, ih]

theorem parseCtbs_append (d : QpCtxt) (l l' : List Nat) (deltas : List Int) :
    parseCtbs cfg ctbs d (l ++ l') deltas =
      (parseCtbs cfg ctbs d l deltas).bind fun r => parseCtbs cfg ctbs r.1 l' r.2 := by
  induction l generalizing d deltas with
  | nil => rfl
  | cons k l ih => simp [parseCtbs, ih, Option.bind_assoc]

theorem encodeCtbs_succ (e : QpContext) (n : Nat) :
    encodeCtbs cfg ctbs e (List.range (n + 1)) =
      ((encodeCtb cfg ctbs (encodeCtbs cfg ctbs e (List.range n)).1 n).1,
        (encodeCtbs cfg ctbs e (List.range n)).2 ++
          (encodeCtb cfg ctbs (encodeCtbs cfg ctbs e (List.range n)).1 n).2) := by
  rw [List.range_succ, encodeCtbs_append]
  simp [encodeCtbs]

/-- The first `n` CTBs of the picture. -/
theorem ctbs_runs (hs : Sizes cfg) (hslice : QpInRange cfg.sliceQp)
    (hq : ∀ ctbX ctbY i j, QpInRange (q ctbX ctbY i j))
    (hlegal : ∀ k < cfg.i2PicWdInCtb * cfg.i2PicHtInCtb,
      LegalQuadtree cfg (k % cfg.i2PicWdInCtb) (k / cfg.i2PicWdInCtb)
        (q (k % cfg.i2PicWdInCtb) (k / cfg.i2PicWdInCtb))
        (ctbs (k % cfg.i2PicWdInCtb) (k / cfg.i2PicWdInCtb)) 0 0 cfg.i1Log2CtbSize)
    (hqps : List.Forall₂ SameQp e.cuQps d.cuQps) (hready : CtbReady cfg 0 e d) (n : Nat) :
    n ≤ cfg.i2PicWdInCtb * cfg.i2PicHtInCtb →
      (∀ delta ∈ (encodeCtbs cfg ctbs e (List.range n)).2, DeltaLegal delta) →
      ∃ d', (∀ rest, parseCtbs cfg ctbs d (List.range n)
          ((encodeCtbs cfg ctbs e (List.range n)).2 ++ rest) = some (d', rest)) ∧
        List.Forall₂ SameQp (encodeCtbs cfg ctbs e (List.range n)).1.cuQps d'.cuQps ∧
        (∀ k, n = k + 1 → AgreeIn cfg (k % cfg.i2PicWdInCtb) (k / cfg.i2PicWdInCtb) 0 0
          (2 ^ cfg.i1Log2CtbSize) (encodeCtbs cfg ctbs e (List.range n)).1.ai48x8CuQp
          d'.ai18x8CuQp) ∧
        (n < cfg.i2PicWdInCtb * cfg.i2PicHtInCtb →
          CtbReady cfg n (encodeCtbs cfg ctbs e (List.range n)).1 d') := by
  induction n with
  | zero =>
    exact fun _ _ => ⟨d, fun _ => rfl, hqps, fun k hk => absurd hk (Nat.succ_ne_zero k).symm,
      fun _ => hready⟩
  | succ n ih =>
    intro hn hdeltas
    rw [encodeCtbs_succ] at hdeltas ⊢
    simp only [List.mem_append] at hdeltas
    obtain ⟨d₁, hruns, -, -, hready₁⟩ := ih (by omega) fun delta hd => hdeltas delta (.inl hd)
    obtain ⟨d₂, hrun, hqps₂, hagree, hready₂⟩ := ctb_runs hs hslice hq (hlegal n (by omega))
      (by omega) (hready₁ (by omega)) fun delta hd => hdeltas delta (.inr hd)
    refine ⟨d₂, fun rest => ?_, hqps₂, fun k hk => ?_, hready₂⟩
    · rw [List.range_succ, parseCtbs_append, List.append_assoc, hruns, Option.bind_some]
      simp only [parseCtbs, hrun, Option.bind_some]
    · obtain rfl := Nat.succ.inj hk
      exact hagree

/-- The deltas that the encoder codes are read, and give every CU of the decoder its QP. -/
def QpsAgree (cfg : QpConfig) (ctbs : Nat → Nat → CodingQuadtree CuResidual) (e : QpContext)
    (d : QpCtxt) : Prop :=
  ∃ d', ihevcdParseSliceData cfg ctbs d (ihevceEncodeSliceData cfg ctbs e).2 = some (d', []) ∧
    List.Forall₂ SameQp (ihevceEncodeSliceData cfg ctbs e).1.cuQps d'.cuQps

/-- For every picture of legal coding quadtrees: the QPs are the same as long as the decoder takes
the depth of the quantization groups. -/
theorem cuQps_agree (hctb : cfg.i1Log2CtbSize ≤ 6) (hslice : QpInRange cfg.sliceQp)
    (hq : ∀ ctbX ctbY i j, QpInRange (q ctbX ctbY i j))
    (hlegal : ∀ k < cfg.i2PicWdInCtb * cfg.i2PicHtInCtb,
      LegalQuadtree cfg (k % cfg.i2PicWdInCtb) (k / cfg.i2PicWdInCtb)
        (q (k % cfg.i2PicWdInCtb) (k / cfg.i2PicWdInCtb))
        (ctbs (k % cfg.i2PicWdInCtb) (k / cfg.i2PicWdInCtb)) 0 0 cfg.i1Log2CtbSize)
    (hzero : e.i4IsCuCbfZero = true) (he : e.cuQps = []) (hd : d.cuQps = [])
    (hdeltas : ∀ delta ∈ (ihevceEncodeSliceData cfg ctbs e).2, DeltaLegal delta)
    (hmin : 3 ≤ cfg.i1Log2CtbSize) :
    QpsAgree cfg ctbs e d ↔ cfg.i1DiffCuQpDeltaDepth ≤ cfg.i1Log2CtbSize - 3 := by
  constructor
  · rintro ⟨d', hparse, -⟩
    by_contra hdepth
    simp [ihevcdParseSliceData, parseDiffCuQpDeltaDepth, Nat.lt_of_not_le hdepth] at hparse
  · intro hdepth
    have hs : Sizes cfg := ⟨hctb, by simp only [i1Log2MinCuQpDeltaSize]; omega⟩
    have hqps : List.Forall₂ SameQp e.cuQps d.cuQps := by
      rw [he, hd]
      exact .nil
    obtain ⟨d', hruns, hagree, -⟩ := ctbs_runs (e := { e with i1CurQp := cfg.sliceQp })
      (d := { d with u4Qp := cfg.sliceQp }) hs hslice hq hlegal hqps
      ⟨hzero, hslice, hqps, fun _ _ => rfl, fun _ => rfl⟩ _ (Nat.le_refl _) hdeltas
    refine ⟨d', ?_, hagree⟩
    have hrun := hruns []
    rw [List.append_nil] at hrun
    simpa only [ihevcdParseSliceData, parseDiffCuQpDeltaDepth, if_neg (Nat.not_lt.mpr hdepth),
      Option.bind_some, ihevceEncodeSliceData] using hrun

/-- A picture of one CTB, of a single coding unit with a residual. -/
def oneCuConfig (i1Log2CtbSize : Nat) : QpConfig where
  i1Log2CtbSize := i1Log2CtbSize
  i2PicWidthInLumaSamples := 2 ^ i1Log2CtbSize
  i2PicHeightInLumaSamples := 2 ^ i1Log2CtbSize
  i1DiffCuQpDeltaDepth := cuLevelQpLimit8x8
  i1EntropyCodingSyncEnabledFlag := true
  sliceQp := 32

def oneCu : CodingQuadtree CuResidual :=
  .cu { skipFlag := false, noResFlag := false, tus := [⟨true, false⟩], b7Qp := 30 }

def oneCuEnc : QpContext where
  i1CurQp := 0
  i1EncodeQpDelta := false
  i4IsCuCbfZero := true
  ai48x8CuQp := fun _ _ => 0
  cuQps := []

def oneCuDec : QpCtxt where
  u4Qp := 0
  u4Qpg := 0
  i4IsCuQpDeltaCoded := true
  i4CuQpDelta := 0
  ai18x8CuQp := fun _ _ => 0
  cuQps := []

theorem oneCu_deltas :
    (ihevceEncodeSliceData (oneCuConfig 6) (fun _ _ => oneCu) oneCuEnc).2 = [-2] := by
  decide

theorem cuQps_agree_ctb64 :
    QpsAgree (oneCuConfig 6) (fun _ _ => oneCu) oneCuEnc oneCuDec ↔ cuLevelQpLimit8x8 ≤ 6 - 3 :=
  cuQps_agree (q := fun _ _ _ _ => 30) (by decide) ⟨by decide, by decide⟩
    (fun _ _ _ _ => ⟨by decide, by decide⟩) (fun _ _ => ⟨by decide, rfl⟩) rfl rfl rfl
    (by rw [oneCu_deltas]; simp [DeltaLegal]) (by decide)

/-- The encoder always codes groups of depth 3, the decoder takes depth 1 for CTBs of 16x16. -/
theorem cuQps_ctb16 :
    ¬ QpsAgree (oneCuConfig 4) (fun _ _ => oneCu) oneCuEnc oneCuDec := by
  rintro ⟨d', hparse, -⟩
  cases hparse

end Libhevc.RoundTrip
