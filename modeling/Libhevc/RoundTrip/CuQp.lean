import Mathlib.Data.List.Forall2
import Libhevc.Decoder.CuQp
import Libhevc.Encoder.CuQp

/-!
# Delta QPs of a coding unit

Both sides stand before or behind a coding unit of a quantization group. What
they have in common is the prediction of the group, and whether its delta has
been coded.
-/

namespace Libhevc.RoundTrip

open Encoder Decoder

-- ---------------------------------------------------------------------------
-- Positions of groups
-- ---------------------------------------------------------------------------

theorem and_15_shiftLeft : ∀ k < 4, ∀ pos < 8, pos &&& (15 <<< k) = pos / 2 ^ k * 2 ^ k := by
  decide

variable {cfg : QpConfig}

/-- A position in a group that begins at `o`. -/
structure InGroup (cfg : QpConfig) (o x : Nat) : Prop where
  aligned : 2 ^ i1Log2MinCuQpDeltaSize cfg ∣ o
  block : 8 ∣ x
  le : o ≤ x
  lt : x < o + 2 ^ i1Log2MinCuQpDeltaSize cfg

/-- The CTB and the group are sizes that both sides can have. -/
structure Sizes (cfg : QpConfig) : Prop where
  ctb : cfg.i1Log2CtbSize ≤ 6
  group : 3 ≤ i1Log2MinCuQpDeltaSize cfg

theorem Sizes.dvd (h : Sizes cfg) : 8 ∣ 2 ^ i1Log2MinCuQpDeltaSize cfg :=
  pow_dvd_pow 2 h.group

theorem InGroup.sub_mod (h : InGroup cfg o x) : x - x % 2 ^ i1Log2MinCuQpDeltaSize cfg = o := by
  obtain ⟨⟨k, rfl⟩, -, hle, hlt⟩ := h
  obtain ⟨i, rfl⟩ := Nat.exists_eq_add_of_le hle
  rw [Nat.mul_add_mod, Nat.mod_eq_of_lt (by omega)]
  omega

theorem InGroup.qgPos (hs : Sizes cfg) (h : InGroup cfg o x) (hx : x < 64) :
    qgPos cfg (x / 8) = o / 8 := by
  have hlog : cfg.i1Log2CtbSize - cfg.i1DiffCuQpDeltaDepth - 3 < 4 := by
    have hctb := hs.ctb
    omega
  have hpow : 2 ^ i1Log2MinCuQpDeltaSize cfg =
      2 ^ (cfg.i1Log2CtbSize - cfg.i1DiffCuQpDeltaDepth - 3) * 8 := by
    have hgroup := hs.group
    rw [show 8 = 2 ^ 3 from rfl, ← pow_add]
    congr 1
    simp only [i1Log2MinCuQpDeltaSize] at hgroup ⊢
    omega
  have hsub := h.sub_mod
  rw [Encoder.qgPos, and_15_shiftLeft _ hlog _ (by omega), Nat.div_div_eq_div_mul,
    Nat.mul_comm 8, ← hpow]
  have hdiv := Nat.div_add_mod x (2 ^ i1Log2MinCuQpDeltaSize cfg)
  have ho : o = x / 2 ^ i1Log2MinCuQpDeltaSize cfg *
      2 ^ (cfg.i1Log2CtbSize - cfg.i1DiffCuQpDeltaDepth - 3) * 8 := by
    rw [Nat.mul_assoc, ← hpow, Nat.mul_comm]
    omega
  omega

-- ---------------------------------------------------------------------------
-- In a group
-- ---------------------------------------------------------------------------

/-- The prediction of the group at a block of 8x8. -/
def groupPred (cuQp : Nat → Nat → Int) (prev : Int) (gx gy : Nat) : Int :=
  let qpLeft := if gx = 0 then prev else cuQp (gx - 1) gy
  let qpTop := if gy = 0 then prev else cuQp gx (gy - 1)
  (qpLeft + qpTop + 1) / 2

/-- A CU of the decoder has the QP of the encoder: the one that was used, or recorded. -/
def SameQp (e : CuResidual × Int) (qp : Int) : Prop :=
  qp = if e.1.coded then e.1.b7Qp else e.2

def QpInRange (qp : Int) : Prop := 0 ≤ qp ∧ qp ≤ 51

/-- A delta that the syntax allows. -/
def DeltaLegal (delta : Int) : Prop := -26 ≤ delta ∧ delta ≤ 25

/-- A group whose QP is `q` and whose prediction is `p`, before it was `prev`. -/
structure Group where
  gx : Nat
  gy : Nat
  prev : Int
  p : Int
  q : Int

/-- Both sides in the group; the encoder has gone to the prediction when the group is `done`. -/
structure Inside (g : Group) (done : Bool) (e : QpContext) (d : QpCtxt) : Prop where
  encPred : groupPred e.ai48x8CuQp g.prev g.gx g.gy = g.p
  decPred : groupPred d.ai18x8CuQp g.prev g.gx g.gy = g.p
  qpg : d.u4Qpg = g.prev
  notCoded : e.i1EncodeQpDelta = true → d.i4IsCuQpDeltaCoded = false ∧ d.i4CuQpDelta = 0 ∧
    e.i1CurQp = if done then g.p else g.prev
  coded : e.i1EncodeQpDelta = false → d.i4IsCuQpDeltaCoded = true ∧
    d.i4CuQpDelta = g.q - g.p ∧ e.i1CurQp = g.q
  cuQps : List.Forall₂ SameQp e.cuQps d.cuQps

/-- What holds of a group in a CTB. -/
structure Group.Ok (cfg : QpConfig) (ctbX : Nat) (g : Group) : Prop where
  p : QpInRange g.p
  q : QpInRange g.q
  rowStart : ctbX = 0 ∧ g.gx = 0 ∧ g.gy = 0 ∧ cfg.i1EntropyCodingSyncEnabledFlag = true →
    g.p = cfg.sliceQp

variable {g : Group} {e : QpContext} {d : QpCtxt}

theorem encodeTu_uncoded {qp : Int} (htu : tu.coded = false) :
    encodeTu cfg ctbX gx gy qp e tu = (e, []) := by
  simp [encodeTu, htu]

theorem encodeTu_again {qp : Int} (htu : tu.coded = true) (he : e.i1EncodeQpDelta = false) :
    encodeTu cfg ctbX gx gy qp e tu = ({ e with i4IsCuCbfZero := false }, []) := by
  simp [encodeTu, htu, he]

theorem encodeTu_first (hok : g.Ok cfg ctbX) (h : Inside g false e d) (htu : tu.coded = true)
    (he : e.i1EncodeQpDelta = true) : encodeTu cfg ctbX g.gx g.gy g.q e tu =
      ({ e with i1CurQp := g.q, i1EncodeQpDelta := false, i4IsCuCbfZero := false },
        [g.q - g.p]) := by
  have hpred : (if ctbX = 0 ∧ g.gx = 0 ∧ g.gy = 0 ∧ cfg.i1EntropyCodingSyncEnabledFlag = true
      then cfg.sliceQp else e.qpPred g.gx g.gy) = g.p := by
    split
    case isTrue hrow => exact (hok.rowStart hrow).symm
    case isFalse =>
      obtain ⟨-, -, hprev⟩ := h.notCoded he
      rw [← h.encPred, QpContext.qpPred, groupPred, hprev]
      rfl
  simp only [encodeTu, htu, he, if_true, hpred]

/-- The decoder goes with a transform unit: it reads the delta if there is one. -/
theorem encodeTu_parse (hok : g.Ok cfg ctbX) (h : Inside g false e d) (tu : TuCbf)
    (hlegal : ∀ delta ∈ (encodeTu cfg ctbX g.gx g.gy g.q e tu).2, DeltaLegal delta) :
    ∃ d', (∀ rest, parseTu d tu ((encodeTu cfg ctbX g.gx g.gy g.q e tu).2 ++ rest) =
        some (d', rest)) ∧
      Inside g false (encodeTu cfg ctbX g.gx g.gy g.q e tu).1 d' ∧
      d'.ai18x8CuQp = d.ai18x8CuQp := by
  cases htu : tu.coded with
  | false =>
    rw [encodeTu_uncoded htu]
    exact ⟨d, fun _ => by simp [parseTu, htu], h, rfl⟩
  | true =>
    cases he : e.i1EncodeQpDelta with
    | true =>
      rw [encodeTu_first hok h htu he] at hlegal ⊢
      obtain ⟨hcoded, -, -⟩ := h.notCoded he
      obtain ⟨hlow, hhigh⟩ := hlegal _ (List.mem_singleton_self _)
      have hrange : ¬ (g.q - g.p < -26 ∨ 25 < g.q - g.p) := by omega
      refine ⟨{ d with i4IsCuQpDeltaCoded := true, i4CuQpDelta := g.q - g.p }, fun _ => ?_, ?_, rfl⟩
      · simp [parseTu, htu, hcoded, hrange]
      · exact { h with notCoded := nofun, coded := fun _ => ⟨rfl, rfl, rfl⟩ }
    | false =>
      rw [encodeTu_again htu he]
      obtain ⟨hcoded, -, -⟩ := h.coded he
      exact ⟨d, fun _ => by simp [parseTu, hcoded], { h with }, rfl⟩

theorem encodeTransformTree_parse (hok : g.Ok cfg ctbX) (h : Inside g false e d)
    (tus : List TuCbf)
    (hlegal : ∀ delta ∈ (encodeTransformTree cfg ctbX g.gx g.gy g.q e tus).2, DeltaLegal delta) :
    ∃ d', (∀ rest, parseTransformTree d tus
        ((encodeTransformTree cfg ctbX g.gx g.gy g.q e tus).2 ++ rest) = some (d', rest)) ∧
      Inside g false (encodeTransformTree cfg ctbX g.gx g.gy g.q e tus).1 d' ∧
      d'.ai18x8CuQp = d.ai18x8CuQp := by
  induction tus generalizing e d with
  | nil => exact ⟨d, fun _ => rfl, h, rfl⟩
  | cons tu tus ih =>
    simp only [encodeTransformTree, List.mem_append] at hlegal ⊢
    obtain ⟨d₁, hparse, h₁, hmap₁⟩ := encodeTu_parse hok h tu fun delta hd => hlegal delta (.inl hd)
    obtain ⟨d₂, hparse₂, h₂, hmap₂⟩ := ih h₁ fun delta hd => hlegal delta (.inr hd)
    refine ⟨d₂, fun rest => ?_, h₂, hmap₂.trans hmap₁⟩
    rw [parseTransformTree, List.append_assoc, hparse]
    exact hparse₂ rest

/-- What the encoder keeps over a transform tree, and what it knows of it behind. -/
theorem encodeTransformTree_frame (qp : Int) (tus : List TuCbf) (e : QpContext) :
    let e' := (encodeTransformTree cfg ctbX gx gy qp e tus).1
    e'.ai48x8CuQp = e.ai48x8CuQp ∧
      e'.i4IsCuCbfZero = (e.i4IsCuCbfZero && !tus.any TuCbf.coded) ∧
      e'.i1EncodeQpDelta = (e.i1EncodeQpDelta && !tus.any TuCbf.coded) := by
  induction tus generalizing e with
  | nil => simp [encodeTransformTree]
  | cons tu tus ih =>
    obtain ⟨hmap, hzero, hencode⟩ := ih (encodeTu cfg ctbX gx gy qp e tu).1
    refine ⟨hmap.trans ?_, hzero.trans ?_, hencode.trans ?_⟩
    all_goals cases htu : tu.coded <;> cases he : e.i1EncodeQpDelta <;> simp [encodeTu, htu, he]

-- ---------------------------------------------------------------------------
-- Coding units
-- ---------------------------------------------------------------------------

/-- The transform tree of a CU, where there is one. -/
theorem cuTus_parse (hok : g.Ok cfg ctbX) (h : Inside g false e d) (cu : CuResidual)
    (hzero : e.i4IsCuCbfZero = true) :
    let r :=
      if cu.skipFlag || cu.noResFlag then (e, [])
      else encodeTransformTree cfg ctbX g.gx g.gy g.q e cu.tus
    (∀ delta ∈ r.2, DeltaLegal delta) →
      ∃ d', (∀ rest, (if cu.skipFlag || cu.noResFlag then some (d, r.2 ++ rest)
          else parseTransformTree d cu.tus (r.2 ++ rest)) = some (d', rest)) ∧
        Inside g false r.1 d' ∧ d'.ai18x8CuQp = d.ai18x8CuQp ∧
        r.1.ai48x8CuQp = e.ai48x8CuQp ∧
        (r.1.i1EncodeQpDelta = true →
          cu.coded = false ∧ (r.1.i4IsCuCbfZero || cu.noResFlag || cu.skipFlag) = true) := by
  intro r hlegal
  cases hskip : cu.skipFlag || cu.noResFlag with
  | true =>
    have hr : r = (e, []) := by simp [r, hskip]
    rw [hr]
    exact ⟨d, fun _ => rfl, h, rfl, rfl, fun _ => ⟨by simp [CuResidual.coded, hskip], by simp [hzero]⟩⟩
  | false =>
    have hr : r = encodeTransformTree cfg ctbX g.gx g.gy g.q e cu.tus := by simp [r, hskip]
    rw [hr] at hlegal ⊢
    obtain ⟨d', hparse, hinside, hmap⟩ := encodeTransformTree_parse hok h cu.tus hlegal
    obtain ⟨hmap', hzero', hencode'⟩ := encodeTransformTree_frame g.q cu.tus e
    refine ⟨d', hparse, hinside, hmap, hmap', fun hencode => ?_⟩
    rw [hencode', Bool.and_eq_true] at hencode
    obtain ⟨-, hany⟩ := hencode
    simp only [Bool.not_eq_true'] at hany
    exact ⟨by simp [CuResidual.coded, hany], by simp [hzero', hzero, hany]⟩

/-- A block of 8x8 has the same QP on both sides. -/
def AgreeAt (e d : Nat → Nat → Int) (x y : Nat) : Prop := e x y = d x y ∧ QpInRange (e x y)

theorem groupPred_fill (hx : gx ≤ cuPosX) (hy : gy ≤ cuPosY) (m : Nat → Nat → Int) :
    groupPred (fillCuQp m cuPosX cuPosY n qp) prev gx gy = groupPred m prev gx gy := by
  have hleft : gx ≠ 0 → fillCuQp m cuPosX cuPosY n qp (gx - 1) gy = m (gx - 1) gy := fun hgx =>
    if_neg (by omega)
  have htop : gy ≠ 0 → fillCuQp m cuPosX cuPosY n qp gx (gy - 1) = m gx (gy - 1) := fun hgy =>
    if_neg (by omega)
  simp only [groupPred]
  split <;> split <;> simp_all

theorem AgreeAt.fill (h : AgreeAt m m' x y) (hqp : QpInRange qp) :
    AgreeAt (fillCuQp m cuPosX cuPosY n qp) (fillCuQp m' cuPosX cuPosY n qp) x y := by
  unfold AgreeAt fillCuQp
  split
  case isTrue => exact ⟨rfl, hqp⟩
  case isFalse => exact h

theorem AgreeAt.filled (hqp : QpInRange qp) (hx : cuPosX ≤ x) (hx' : x < cuPosX + n / 8)
    (hy : cuPosY ≤ y) (hy' : y < cuPosY + n / 8) :
    AgreeAt (fillCuQp m cuPosX cuPosY n qp) (fillCuQp m' cuPosX cuPosY n qp) x y := by
  have hin : cuPosX ≤ x ∧ x < cuPosX + n / 8 ∧ cuPosY ≤ y ∧ y < cuPosY + n / 8 := ⟨hx, hx', hy, hy'⟩
  simp only [AgreeAt, fillCuQp, if_pos hin]
  exact ⟨trivial, hqp⟩

/-- The QP that a CU of the group gets. -/
def Group.qp (g : Group) (encodeQpDelta : Bool) : Int := if encodeQpDelta then g.p else g.q

theorem Group.Ok.qp (h : g.Ok cfg ctbX) (b : Bool) : QpInRange (g.qp b) := by
  cases b with
  | true => exact h.p
  | false => exact h.q

theorem tmod_52 (h : QpInRange qp) : (qp + 52).tmod 52 = qp := by
  obtain ⟨hlow, hhigh⟩ := h
  rw [Int.tmod_eq_emod_of_nonneg (by omega)]
  omega

theorem updateQp_inside (hok : g.Ok cfg ctbX) (h : Inside g false e d)
    (hx : InGroup cfg (8 * g.gx) x0) (hy : InGroup cfg (8 * g.gy) y0) :
    d.updateQp cfg (x0 / 8) (y0 / 8) log2CbSize =
      { d with
        u4Qp := g.qp e.i1EncodeQpDelta
        ai18x8CuQp :=
          fillCuQp d.ai18x8CuQp (x0 / 8) (y0 / 8) (2 ^ log2CbSize) (g.qp e.i1EncodeQpDelta)
        cuQps := d.cuQps ++ [g.qp e.i1EncodeQpDelta] } := by
  have hpred : ((if 0 < g.gx then d.ai18x8CuQp (g.gx - 1) g.gy else d.u4Qpg) +
      (if 0 < g.gy then d.ai18x8CuQp g.gx (g.gy - 1) else d.u4Qpg) + 1) / 2 = g.p := by
    rw [← h.decPred, h.qpg, groupPred]
    simp only [Nat.pos_iff_ne_zero, ne_eq, ite_not]
  have hqp : (g.p + d.i4CuQpDelta + 52).tmod 52 = g.qp e.i1EncodeQpDelta := by
    cases he : e.i1EncodeQpDelta with
    | true =>
      obtain ⟨-, hdelta, -⟩ := h.notCoded he
      rw [hdelta, Int.add_zero]
      exact tmod_52 hok.p
    | false =>
      obtain ⟨-, hdelta, -⟩ := h.coded he
      rw [hdelta, add_sub_cancel]
      exact tmod_52 hok.q
  have hx8 : x0 / 8 * 8 = x0 := Nat.div_mul_cancel hx.block
  have hy8 : y0 / 8 * 8 = y0 := Nat.div_mul_cancel hy.block
  simp only [QpCtxt.updateQp, hx8, hy8, hx.sub_mod, hy.sub_mod,
    Nat.mul_div_cancel_left _ (by decide : 0 < 8), hpred, hqp]
  rfl

/-- Both sides behind a coding unit of the group. -/
structure Behind (g : Group) (done : Bool) (e : QpContext) (d : QpCtxt) : Prop
    extends Inside g done e d where
  zero : e.i4IsCuCbfZero = true
  u4Qp : d.u4Qp = g.qp e.i1EncodeQpDelta

theorem startGroup_cuQp (s : QpCtxt) :
    (s.startGroup cfg cuPosX cuPosY).ai18x8CuQp = s.ai18x8CuQp := by
  simp only [QpCtxt.startGroup]
  split <;> rfl

theorem codingUnit_parse (ctbY log2CbSize : Nat) (cu : CuResidual) (hs : Sizes cfg) (hok : g.Ok cfg ctbX)
    (hx : InGroup cfg (8 * g.gx) x0) (hy : InGroup cfg (8 * g.gy) y0) (hx' : x0 < 64)
    (hy' : y0 < 64) (h : Inside g false e (d.startGroup cfg (x0 / 8) (y0 / 8)))
    (hzero : e.i4IsCuCbfZero = true) (hq : cu.b7Qp = g.q) :
    let r := ihevceCabacEncodeCodingUnit cfg ctbX ctbY x0 y0 log2CbSize cu e
    (∀ delta ∈ r.2, DeltaLegal delta) →
      ∃ d', (∀ rest, parseCodingUnit cfg x0 y0 log2CbSize cu d (r.2 ++ rest) = some (d', rest)) ∧
        Behind g (isLastBlkInQg cfg ctbX ctbY x0 y0 (2 ^ log2CbSize)) r.1 d' ∧
        ∃ qp, QpInRange qp ∧
          r.1.ai48x8CuQp = fillCuQp e.ai48x8CuQp (x0 / 8) (y0 / 8) (2 ^ log2CbSize) qp ∧
          d'.ai18x8CuQp = fillCuQp d.ai18x8CuQp (x0 / 8) (y0 / 8) (2 ^ log2CbSize) qp := by
  intro r hlegal
  have hposX := hx.qgPos hs hx'
  have hposY := hy.qgPos hs hy'
  rw [Nat.mul_div_cancel_left _ (by decide)] at hposX hposY
  have hcu := cuTus_parse hok h cu hzero
  revert hlegal
  simp only [r, ihevceCabacEncodeCodingUnit, hposX, hposY, hq]
  generalize hr₁ : (if cu.skipFlag || cu.noResFlag then (e, [])
    else encodeTransformTree cfg ctbX g.gx g.gy g.q e cu.tus) = r₁ at hcu ⊢
  intro hlegal
  obtain ⟨d₁, hparse, h₁, hmap₁, hmap₁', hcoded⟩ := hcu hlegal
  have hparse' : ∀ rest, parseCodingUnit cfg x0 y0 log2CbSize cu d (r₁.2 ++ rest) =
      some (d₁.updateQp cfg (x0 / 8) (y0 / 8) log2CbSize, rest) := fun rest => by
    simp only [parseCodingUnit, hparse, Option.map_some]
  -- the QP that the encoder records is the one of the group
  have hcur : (if (r₁.1.i4IsCuCbfZero || cu.noResFlag || cu.skipFlag) && r₁.1.i1EncodeQpDelta then
      r₁.1.qpPred g.gx g.gy else g.q) = g.qp r₁.1.i1EncodeQpDelta := by
    cases he : r₁.1.i1EncodeQpDelta with
    | true =>
      obtain ⟨-, -, hprev⟩ := h₁.notCoded he
      obtain ⟨-, hpredicted⟩ := hcoded he
      rw [hpredicted]
      show r₁.1.qpPred g.gx g.gy = g.p
      rw [← h₁.encPred, QpContext.qpPred, groupPred, hprev]
      rfl
    | false => simp [Group.qp]
  have hsame : SameQp (cu, g.qp r₁.1.i1EncodeQpDelta) (g.qp r₁.1.i1EncodeQpDelta) := by
    cases he : r₁.1.i1EncodeQpDelta with
    | true =>
      obtain ⟨hcoded, -⟩ := hcoded he
      simp [SameQp, hcoded]
    | false => simp [SameQp, hq, Group.qp]
  have hle : g.gx ≤ x0 / 8 := by
    have hxle := hx.le
    omega
  have hle' : g.gy ≤ y0 / 8 := by
    have hyle := hy.le
    omega
  rw [updateQp_inside hok h₁ hx hy] at hparse'
  rw [hcur]
  refine ⟨_, hparse', ⟨⟨?_, ?_, h₁.qpg, fun he => ?_, fun he => ?_, ?_⟩, rfl, rfl⟩, _,
    hok.qp r₁.1.i1EncodeQpDelta, ?_, ?_⟩
  · exact (groupPred_fill hle hle' _).trans h₁.encPred
  · exact (groupPred_fill hle hle' _).trans h₁.decPred
  · have he : r₁.1.i1EncodeQpDelta = true := he
    obtain ⟨hflag, hdelta, hprev⟩ := h₁.notCoded he
    obtain ⟨-, hpredicted⟩ := hcoded he
    refine ⟨hflag, hdelta, ?_⟩
    simp only [hpredicted, he, hprev, Bool.true_and]
    rfl
  · have he : r₁.1.i1EncodeQpDelta = false := he
    obtain ⟨hflag, hdelta, hcurQp⟩ := h₁.coded he
    refine ⟨hflag, hdelta, ?_⟩
    simp [he, hcurQp]
  · exact List.rel_append h₁.cuQps (.cons hsame .nil)
  · rw [hmap₁']
  · rw [hmap₁, startGroup_cuQp]

end Libhevc.RoundTrip
