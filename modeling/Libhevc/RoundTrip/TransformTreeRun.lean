import Libhevc.RoundTrip.TransformTree

/-!
# Transform trees, node by node

What a node of the tree leaves on both sides, from its transform units up to the
whole coding unit.
-/

namespace Libhevc.RoundTrip

open Reader Encoder Decoder

variable {p : TreeConfig} {cfg : QpConfig} {ctbX : Nat} {cu : CuEncTus α}

-- ---------------------------------------------------------------------------
-- Delta QPs
-- ---------------------------------------------------------------------------

/-- What a delta of the coding unit is counted from. -/
def deltaPred (cfg : QpConfig) (ctbX : Nat) (cu : CuEncTus α) (s : QpContext) : Int :=
  if ctbX = 0 ∧ qgPos cfg cu.b3CuPosX = 0 ∧ qgPos cfg cu.b3CuPosY = 0 ∧
      cfg.i1EntropyCodingSyncEnabledFlag = true then cfg.sliceQp
  else s.qpPred (qgPos cfg cu.b3CuPosX) (qgPos cfg cu.b3CuPosY)

/-- Both sides have the delta still to come, or neither. -/
structure QpMatch (p : TreeConfig) (cfg : QpConfig) (ctbX : Nat) (cu : CuEncTus α) (e : QpContext)
    (d : QpCtxt) : Prop where
  coded : e.i1EncodeQpDelta = (p.i1CuQpDeltaEnabledFlag && !d.i4IsCuQpDeltaCoded)
  legal : e.i1EncodeQpDelta = true →
    ∀ tu ∈ cu.psEncTu, DeltaLegal (tu.b7Qp - deltaPred cfg ctbX cu e)

theorem cuQpDelta_reads_tu {e : QpContext} {d : QpCtxt} {tu : TuEncLoopOut α}
    (h : QpMatch p cfg ctbX cu e d) (htu : tu ∈ cu.psEncTu) (cbf : TuCbf) :
    let r := encodeTu cfg ctbX (qgPos cfg cu.b3CuPosX) (qgPos cfg cu.b3CuPosY) tu.b7Qp e cbf
    ∃ d', Reads (parseCuQpDelta p cbf d : BinReader ρ QpCtxt)
        (r.2.flatMap ihevceCabacEncodeQpDelta) d' ∧ QpMatch p cfg ctbX cu r.1 d' := by
  intro r
  have hcoded := h.coded
  cases hcbf : cbf.coded with
  | false =>
    have hr : r = (e, []) := by simp [r, encodeTu, hcbf]
    rw [hr]
    refine ⟨d, ?_, h⟩
    unfold parseCuQpDelta
    simp only [hcbf, Bool.false_and, Bool.false_eq_true, if_false]
    exact Reads.pure d
  | true =>
    cases hdelta : e.i1EncodeQpDelta with
    | false =>
      have hr : r = ({ e with i4IsCuCbfZero := false }, []) := by simp [r, encodeTu, hcbf, hdelta]
      rw [hr]
      refine ⟨d, ?_, h.coded, fun henc => absurd henc (by simp [hdelta])⟩
      unfold parseCuQpDelta
      rw [hdelta] at hcoded
      simp only [hcbf, Bool.true_and, ← hcoded, Bool.false_eq_true, if_false]
      exact Reads.pure d
    | true =>
      have hlegal := h.legal hdelta tu htu
      have hr : r = ({ e with
          i1CurQp := tu.b7Qp, i1EncodeQpDelta := false, i4IsCuCbfZero := false },
          [tu.b7Qp - deltaPred cfg ctbX cu e]) := by
        simp [r, encodeTu, hcbf, hdelta, deltaPred]
      rw [hr]
      rw [hdelta] at hcoded
      have hnot : d.i4IsCuQpDeltaCoded = false := by
        have hboth := hcoded.symm
        rw [Bool.and_eq_true, Bool.not_eq_true'] at hboth
        exact hboth.2
      have hrange : ¬ (tu.b7Qp - deltaPred cfg ctbX cu e < -26 ∨
          25 < tu.b7Qp - deltaPred cfg ctbX cu e) := by
        obtain ⟨hlow, hhigh⟩ := hlegal
        omega
      refine ⟨{ d with
        i4IsCuQpDeltaCoded := true
        i4CuQpDelta := tu.b7Qp - deltaPred cfg ctbX cu e }, ?_, ?_, fun henc => Bool.noConfusion henc⟩
      · unfold parseCuQpDelta
        simp only [hcbf, Bool.true_and, ← hcoded, if_true, List.flatMap_cons, List.flatMap_nil]
        refine (cuQpDelta_reads hlegal).bind (fun rest => ?_)
        simp [parseTu, hcbf, hnot, hrange, bind_apply]
        rfl
      · simp

-- ---------------------------------------------------------------------------
-- Transform units
-- ---------------------------------------------------------------------------

/-- The two sides before a node, or behind it. -/
structure TreeInv (p : TreeConfig) (cfg : QpConfig) (ctbX : Nat) (cu : CuEncTus α) (trDepth : Nat)
    (e : TreeContext) (d : TreeCtxt) : Prop where
  qp : QpMatch p cfg ctbX cu e.qp d.qp
  cb : ∀ i < trDepth, e.apu1CbfCb i = (d.ai1CbfCb i, false)
  cr : ∀ i < trDepth, e.apu1CbfCr i = (d.ai1CbfCr i, false)

/-- What a node of `n` units has done. -/
structure NodeDone (p : TreeConfig) (cfg : QpConfig) (ctbX : Nat) (cu : CuEncTus α)
    (trDepth n : Nat) (tus : List Tu) (e : TreeContext) (d : TreeCtxt) (e' : TreeContext)
    (d' : TreeCtxt) : Prop where
  inv : TreeInv p cfg ctbX cu trDepth e' d'
  idx : e'.i4TuIdx = e.i4TuIdx + n
  cb : ∀ i < trDepth, d'.ai1CbfCb i = d.ai1CbfCb i
  cr : ∀ i < trDepth, d'.ai1CbfCr i = d.ai1CbfCr i
  tus : d'.tus = d.tus ++ tus

theorem block_reads {block : ResidualBlock α} (hsize : block.log2TrSize = log2TrafoSize)
    (hluma : block.isLuma = decide (cIdx = 0)) :
    Reads (ihevcdParseResidualCoding log2TrafoSize cIdx) [.piece block] () := fun _ =>
  if_pos ⟨hsize, hluma⟩

theorem chroma_reads (cu : CuEncTus α) (cbf : Bool) (coeffs : TuEncLoopOut α → α) (cIdx : Nat)
    (hlog : 2 ≤ log2TrSize) (hidx : i4TuIdx < cu.psEncTu.length)
    (hfourth : blkNum = 3 → 3 ≤ i4TuIdx) (hc : cIdx ≠ 0) :
    ∃ bins, encodeChroma cu cbf coeffs log2TrSize blkNum i4TuIdx = some bins ∧
      Reads (parseBlock (cbf && decide (2 < log2TrSize ∨ blkNum = 3)) (max 2 (log2TrSize - 1)) cIdx)
        bins () := by
  unfold encodeChroma parseBlock
  by_cases h : (2 < log2TrSize ∨ blkNum = 3) ∧ cbf = true
  · obtain ⟨tu, htu⟩ : ∃ tu, chromaTu cu log2TrSize i4TuIdx = some tu := by
      unfold chromaTu
      by_cases htwo : log2TrSize = 2
      · have hblk : blkNum = 3 := h.1.resolve_left (by omega)
        rw [if_pos htwo, if_pos (hfourth hblk)]
        exact ⟨_, List.getElem?_eq_getElem (by omega)⟩
      · rw [if_neg htwo]
        exact ⟨_, List.getElem?_eq_getElem hidx⟩
    refine ⟨_, by rw [if_pos h, htu]; rfl, ?_⟩
    rw [if_pos (by rw [h.2, decide_eq_true h.1]; rfl)]
    refine block_reads ?_ (decide_eq_false hc).symm
    change (if log2TrSize = 2 then 2 else log2TrSize - 1) = max 2 (log2TrSize - 1)
    split <;> omega
  · refine ⟨[], if_neg h, ?_⟩
    rw [if_neg]
    · exact Reads.pure ()
    · rw [Bool.and_eq_true, decide_eq_true_iff]
      exact fun hboth => h ⟨hboth.2, hboth.1⟩

/-- A transform unit, with the chroma flags of its node. -/
theorem leaf_reads (blkNum : Nat) {u : TransformUnit α} {e : TreeContext} {d : TreeCtxt}
    (hinv : TreeInv p cfg ctbX cu trDepth e d)
    (hget : cu.psEncTu[e.i4TuIdx]? = some (u.tu log2TrSize x0 y0))
    (hfourth : blkNum = 3 → 3 ≤ e.i4TuIdx) (hlog : 2 ≤ log2TrSize)
    (hcb : d.ai1CbfCb trDepth = cb) (hcr : d.ai1CbfCr trDepth = cr)
    (hluma : cu.isIntra = false → trDepth = 0 → cb = false → cr = false → u.cbfLuma = true) :
    ∃ e' bins d', encodeLeaf cfg ctbX cu (u.tu log2TrSize x0 y0) (cb, false) (cr, false) log2TrSize
        trDepth blkNum e = some (e', bins) ∧
      Reads (parseLeaf p cu.toTreeCu x0 y0 log2TrSize trDepth blkNum d) bins d' ∧
      NodeDone p cfg ctbX cu trDepth 1
        [⟨x0 / 4, y0 / 4, log2TrSize - 2, u.cbfLuma, cb && decide (2 < log2TrSize ∨ blkNum = 3),
          cr && decide (2 < log2TrSize ∨ blkNum = 3)⟩] e d e' d' := by
  obtain ⟨hidx, htu⟩ := List.getElem?_eq_some_iff.mp hget
  have hmem : u.tu log2TrSize x0 y0 ∈ cu.psEncTu := htu ▸ List.getElem_mem hidx
  obtain ⟨qp, hqp, hmatch⟩ := cuQpDelta_reads_tu (ρ := ResidualBlock α) hinv.qp hmem
    ⟨u.cbfLuma, cb || cr⟩
  obtain ⟨binsCb, hencCb, hreadsCb⟩ :=
    chroma_reads cu cb TuEncLoopOut.cb 1 hlog hidx hfourth (by decide)
  obtain ⟨binsCr, hencCr, hreadsCr⟩ :=
    chroma_reads cu cr TuEncLoopOut.cr 2 hlog hidx hfourth (by decide)
  let delta := encodeTu cfg ctbX (qgPos cfg cu.b3CuPosX) (qgPos cfg cu.b3CuPosY) u.b7Qp e.qp
    ⟨u.cbfLuma, cb || cr⟩
  let bins : TreeBins α :=
    (if cu.isIntra = true ∨ trDepth ≠ 0 ∨ (cb || cr) = true then
      [.ctxt (ihevcCabCbfLumaIdx + if trDepth = 0 then 1 else 0) u.cbfLuma] else []) ++
    (delta.2.flatMap ihevceCabacEncodeQpDelta ++
      ((if u.cbfLuma then [.piece ⟨log2TrSize, true, u.luma⟩] else []) ++ (binsCb ++ binsCr)))
  refine ⟨{ e with qp := delta.1, i4TuIdx := e.i4TuIdx + 1 }, bins,
    { d with qp := qp, tus := d.tus ++ _ }, ?_, ?_, ⟨hmatch, hinv.cb, hinv.cr⟩, rfl,
    fun _ _ => rfl, fun _ _ => rfl, rfl⟩
  · have hcond : (cu.isIntra = true ∨ trDepth ≠ 0 ∨ cb = true ∨ cr = true) ↔
        (cu.isIntra = true ∨ trDepth ≠ 0 ∨ (cb || cr) = true) := by rw [Bool.or_eq_true]
    unfold encodeLeaf
    simp only [hencCb, hencCr, hcond, Option.bind_eq_bind, Option.bind_some]
    rfl
  · unfold parseLeaf
    simp only [hcb, hcr]
    refine Reads.bind (Reads.ite_pure (fun _ => decodeBin_reads _ _) fun hnot => ?_) ?_
    · simp only [not_or, Bool.not_eq_true, not_not, Bool.or_eq_false_iff] at hnot
      exact hluma hnot.1 hnot.2.1 hnot.2.2.1 hnot.2.2.2
    · refine hqp.bind (Reads.bind (a := ()) ?_ (hreadsCb.bind (hreadsCr.bind_nil (Reads.pure _))))
      exact Reads.ite_pure (fun _ => block_reads rfl rfl) fun _ => rfl

-- ---------------------------------------------------------------------------
-- Nodes
-- ---------------------------------------------------------------------------

def TransformUnit.coded (u : TransformUnit α) : Bool := u.cbfLuma || (u.cbfCb || u.cbfCr)

/-- Before a node, whose units are next in the list. -/
structure NodeReady (p : TreeConfig) (cfg : QpConfig) (ctbX : Nat) (cu : CuEncTus α)
    (t : TransformTree α) (log2TrSize x0 y0 trDepth blkNum : Nat) (rest : List (TuEncLoopOut α))
    (e : TreeContext) (d : TreeCtxt) : Prop where
  min_le : p.i1Log2MinTransformBlockSize ≤ log2TrSize
  legal : LegalTree p cu.toTreeCu t log2TrSize trDepth
  noLate : NoLateNode p cu.toTreeCu t log2TrSize trDepth
  dvdX : 4 ∣ x0
  dvdY : 4 ∣ y0
  units : cu.psEncTu.drop e.i4TuIdx = t.units log2TrSize x0 y0 ++ rest
  fourth : blkNum = 3 → 3 ≤ e.i4TuIdx
  inv : TreeInv p cfg ctbX cu trDepth e d
  -- a parent without the flag has no unit with it
  cb : trDepth ≠ 0 → 2 < log2TrSize → d.ai1CbfCb (trDepth - 1) = false →
    t.any TransformUnit.cbfCb = false
  cr : trDepth ≠ 0 → 2 < log2TrSize → d.ai1CbfCr (trDepth - 1) = false →
    t.any TransformUnit.cbfCr = false
  root : trDepth = 0 → cu.isIntra = false → t.any TransformUnit.coded = true
  small : log2TrSize = 2 → trDepth ≠ 0

theorem NodeDone.trans {tus tus' : List Tu} (h : NodeDone p cfg ctbX cu trDepth n tus e d e' d')
    (h' : NodeDone p cfg ctbX cu trDepth n' tus' e' d' e'' d'') :
    NodeDone p cfg ctbX cu trDepth (n + n') (tus ++ tus') e d e'' d'' where
  inv := h'.inv
  idx := by rw [h'.idx, h.idx, Nat.add_assoc]
  cb i hi := (h'.cb i hi).trans (h.cb i hi)
  cr i hi := (h'.cr i hi).trans (h.cr i hi)
  tus := by rw [h'.tus, h.tus, List.append_assoc]

/-- The value of a chroma flag at a node: that of its units, or its parent's. -/
def flagAt (f : TransformUnit α → Bool) (t : TransformTree α) (log2TrSize trDepth : Nat)
    (ai1Cbf : Nat → Bool) : Bool :=
  if 2 < log2TrSize then t.nodeCbf f log2TrSize else ai1Cbf (trDepth - 1)

/-- The decoder behind the chroma flags of a node. -/
def setFlags (t : TransformTree α) (log2TrSize trDepth : Nat) (d : TreeCtxt) : TreeCtxt :=
  { d with
    ai1CbfCb := setDepth d.ai1CbfCb trDepth
      (flagAt TransformUnit.cbfCb t log2TrSize trDepth d.ai1CbfCb)
    ai1CbfCr := setDepth d.ai1CbfCr trDepth
      (flagAt TransformUnit.cbfCr t log2TrSize trDepth d.ai1CbfCr) }

theorem TreeInv.parent (h : TreeInv p cfg ctbX cu (trDepth + 1) e d) :
    TreeInv p cfg ctbX cu trDepth e d :=
  ⟨h.qp, fun i hi => h.cb i (Nat.lt_succ_of_lt hi), fun i hi => h.cr i (Nat.lt_succ_of_lt hi)⟩

theorem NodeDone.parent {tus : List Tu} (h : NodeDone p cfg ctbX cu (trDepth + 1) n tus e d e' d') :
    NodeDone p cfg ctbX cu trDepth n tus e d e' d' :=
  ⟨h.inv.parent, h.idx, fun i hi => h.cb i (Nat.lt_succ_of_lt hi),
    fun i hi => h.cr i (Nat.lt_succ_of_lt hi), h.tus⟩

theorem setDepth_of_lt (f : Nat → β) (v : β) (h : i < depth) : setDepth f depth v i = f i :=
  if_neg (Nat.ne_of_lt h)

theorem setDepth_self (f : Nat → β) (depth : Nat) (v : β) : setDepth f depth v depth = v :=
  if_pos rfl

/-- The chroma flags of the node come first. -/
theorem NodeDone.behind_flags {tus : List Tu} {t : TransformTree α} {e e₁ : TreeContext}
    (h : NodeDone p cfg ctbX cu trDepth n tus e₁ (setFlags t log2TrSize trDepth d) e' d')
    (hidx : e₁.i4TuIdx = e.i4TuIdx) : NodeDone p cfg ctbX cu trDepth n tus e d e' d' where
  inv := h.inv
  idx := hidx ▸ h.idx
  cb i hi := (h.cb i hi).trans (setDepth_of_lt _ _ hi)
  cr i hi := (h.cr i hi).trans (setDepth_of_lt _ _ hi)
  tus := h.tus

/-- Both chroma flags of a node. -/
theorem cbfs_reads (hmin : 2 ≤ p.i1Log2MinTransformBlockSize) {t : TransformTree α}
    (h : NodeReady p cfg ctbX cu t log2TrSize x0 y0 trDepth blkNum rest e d) :
    ∃ e' binsCb binsCr,
      encodeCbfs (cu.psEncTu.drop e.i4TuIdx) x0 y0 log2TrSize trDepth e =
        some ((flagAt TransformUnit.cbfCb t log2TrSize trDepth d.ai1CbfCb, false),
          (flagAt TransformUnit.cbfCr t log2TrSize trDepth d.ai1CbfCr, false), e',
          binsCb ++ binsCr) ∧
      Reads (parseChromaCbf d.ai1CbfCb log2TrSize trDepth : BinReader ρ _) binsCb
        (setFlags t log2TrSize trDepth d).ai1CbfCb ∧
      Reads (parseChromaCbf d.ai1CbfCr log2TrSize trDepth : BinReader ρ _) binsCr
        (setFlags t log2TrSize trDepth d).ai1CbfCr ∧
      e'.i4TuIdx = e.i4TuIdx ∧
      TreeInv p cfg ctbX cu trDepth e' (setFlags t log2TrSize trDepth d) ∧
      (2 < log2TrSize → TreeInv p cfg ctbX cu (trDepth + 1) e' (setFlags t log2TrSize trDepth d)) := by
  have hinv := h.inv
  by_cases htwo : 2 < log2TrSize
  · obtain ⟨binsCb, hencCb, hreadsCb⟩ := chromaCbf_reads (ρ := ρ) tu_cbfCb hmin t h.min_le
      h.legal h.dvdX h.dvdY rest htwo (fun hne => hinv.cb _ (by omega)) fun hne => h.cb hne htwo
    obtain ⟨binsCr, hencCr, hreadsCr⟩ := chromaCbf_reads (ρ := ρ) tu_cbfCr hmin t h.min_le
      h.legal h.dvdX h.dvdY rest htwo (fun hne => hinv.cr _ (by omega)) fun hne => h.cr hne htwo
    have hflags (f : TransformUnit α → Bool) (ai1Cbf : Nat → Bool) :
        flagAt f t log2TrSize trDepth ai1Cbf = t.nodeCbf f log2TrSize := if_pos htwo
    simp only [setFlags, hflags]
    let e' := { e with
      apu1CbfCb := setDepth e.apu1CbfCb trDepth
        (t.nodeCbf TransformUnit.cbfCb log2TrSize, false)
      apu1CbfCr := setDepth e.apu1CbfCr trDepth
        (t.nodeCbf TransformUnit.cbfCr log2TrSize, false) }
    refine ⟨e', binsCb, binsCr, ?_, hreadsCb, hreadsCr, rfl, ⟨hinv.qp, fun i hi => ?_, fun i hi => ?_⟩,
      fun _ => ⟨hinv.qp, fun i hi => ?_, fun i hi => ?_⟩⟩
    · rw [h.units]
      simp only [encodeCbfs, if_pos htwo, hencCb, hencCr, Option.bind_eq_bind, Option.bind_some, e']
    · simp only [e', setDepth_of_lt _ _ hi]
      exact hinv.cb i hi
    · simp only [e', setDepth_of_lt _ _ hi]
      exact hinv.cr i hi
    · rcases Nat.lt_succ_iff_lt_or_eq.mp hi with hlt | rfl
      · simp only [e', setDepth_of_lt _ _ hlt]
        exact hinv.cb i hlt
      · simp only [e', setDepth_self]
    · rcases Nat.lt_succ_iff_lt_or_eq.mp hi with hlt | rfl
      · simp only [e', setDepth_of_lt _ _ hlt]
        exact hinv.cr i hlt
      · simp only [e', setDepth_self]
  · have hne : trDepth ≠ 0 := h.small (by have := h.min_le; omega)
    have hflags (f : TransformUnit α → Bool) (ai1Cbf : Nat → Bool) :
        flagAt f t log2TrSize trDepth ai1Cbf = ai1Cbf (trDepth - 1) := if_neg htwo
    have hparse (ai1Cbf : Nat → Bool) :
        Reads (parseChromaCbf ai1Cbf log2TrSize trDepth : BinReader ρ _) []
          (setDepth ai1Cbf trDepth (ai1Cbf (trDepth - 1))) := by
      unfold parseChromaCbf
      simp only [htwo, false_and, if_false, if_neg hne]
      exact Reads.nil_bind (Reads.pure _) (Reads.pure _)
    simp only [setFlags, hflags]
    refine ⟨e, [], [], ?_, hparse _, hparse _, rfl, ⟨hinv.qp, fun i hi => ?_, fun i hi => ?_⟩,
      fun hlt => absurd hlt htwo⟩
    · rw [← hinv.cb (trDepth - 1) (by omega), ← hinv.cr (trDepth - 1) (by omega)]
      simp only [encodeCbfs, if_neg htwo, List.append_nil]
    · simp only [setDepth_of_lt _ _ hi]
      exact hinv.cb i hi
    · simp only [setDepth_of_lt _ _ hi]
      exact hinv.cr i hi

theorem decodedTus_congr (t : TransformTree α) (x0 y0 : Nat) (cb cr cb' cr' : Bool) (blkIdx : Nat)
    (h : log2TrSize = 2 → cb = cb' ∧ cr = cr') (hlog : 2 ≤ log2TrSize) :
    t.decodedTus log2TrSize x0 y0 cb cr blkIdx = t.decodedTus log2TrSize x0 y0 cb' cr' blkIdx := by
  cases t with
  | unit u =>
    simp only [TransformTree.decodedTus]
    split
    case isTrue => rfl
    case isFalse hlt =>
      obtain ⟨rfl, rfl⟩ := h (by omega)
      rfl
  | split t0 t1 t2 t3 => rfl

/-- A part of a split node, behind its flags and the parts before it. -/
theorem quarter_ready {t t' : TransformTree α} {rest' : List (TuEncLoopOut α)} {e' : TreeContext}
    {d d' : TreeCtxt} {x y : Nat} (blk : Nat)
    (hlt : p.i1Log2MinTransformBlockSize < log2TrSize)
    (hlegal : LegalTree p cu.toTreeCu t' (log2TrSize - 1) (trDepth + 1))
    (hlate : NoLateNode p cu.toTreeCu t' (log2TrSize - 1) (trDepth + 1)) (hx : 4 ∣ x) (hy : 4 ∣ y)
    (hunits : cu.psEncTu.drop e'.i4TuIdx = t'.units (log2TrSize - 1) x y ++ rest')
    (hfourth : blk = 3 → 3 ≤ e'.i4TuIdx) (hinv : TreeInv p cfg ctbX cu (trDepth + 1) e' d')
    (hsub : ∀ f : TransformUnit α → Bool, t.any f = false → t'.any f = false)
    (hcb : d'.ai1CbfCb trDepth = flagAt TransformUnit.cbfCb t log2TrSize trDepth d.ai1CbfCb)
    (hcr : d'.ai1CbfCr trDepth = flagAt TransformUnit.cbfCr t log2TrSize trDepth d.ai1CbfCr) :
    NodeReady p cfg ctbX cu t' (log2TrSize - 1) x y (trDepth + 1) blk rest' e' d' where
  min_le := Nat.le_sub_one_of_lt hlt
  legal := hlegal
  noLate := hlate
  dvdX := hx
  dvdY := hy
  units := hunits
  fourth := hfourth
  inv := hinv
  cb := fun _ hlog hfalse => by
    rw [Nat.add_sub_cancel, hcb, flagAt, if_pos (by omega), TransformTree.nodeCbf,
      if_neg (by omega)] at hfalse
    exact hsub _ hfalse
  cr := fun _ hlog hfalse => by
    rw [Nat.add_sub_cancel, hcr, flagAt, if_pos (by omega), TransformTree.nodeCbf,
      if_neg (by omega)] at hfalse
    exact hsub _ hfalse
  root := fun hzero => absurd hzero (Nat.succ_ne_zero _)
  small := fun _ => Nat.succ_ne_zero _

theorem getElem_of_drop {l : List β} (h : l.drop i = a :: r) : l[i]? = some a := by
  rw [← List.head?_drop, h]
  rfl

theorem drop_add_of_append {l a b : List β} (h : l.drop i = a ++ b) :
    l.drop (i + a.length) = b := by
  rw [← List.drop_drop, h, List.drop_left]

/-- Every node: what the writer puts is what the parser reads, with the units of the node. -/
theorem tree_reads (hmin : 2 ≤ p.i1Log2MinTransformBlockSize) (t : TransformTree α) :
    ∀ {log2TrSize x0 y0 trDepth blkNum rest e d},
      NodeReady p cfg ctbX cu t log2TrSize x0 y0 trDepth blkNum rest e d →
      ∃ e' bins d', ihevceEncodeTransformTree p cfg ctbX cu log2TrSize x0 y0 trDepth blkNum e =
          some (e', bins) ∧
        Reads (ihevcdParseTransformTree p cu.toTreeCu log2TrSize x0 y0 trDepth blkNum d) bins d' ∧
        NodeDone p cfg ctbX cu trDepth (t.units log2TrSize x0 y0).length
          (t.decodedTus log2TrSize x0 y0 (d.ai1CbfCb (trDepth - 1)) (d.ai1CbfCr (trDepth - 1))
            blkNum) e d e' d' := by
  induction t with
  | unit u =>
    intro log2TrSize x0 y0 trDepth blkNum rest e d h
    have hlog := hmin.trans h.min_le
    obtain ⟨n, rfl⟩ : ∃ n, log2TrSize = n + 1 := ⟨log2TrSize - 1, by omega⟩
    obtain ⟨e₁, binsCb, binsCr, hcbfs, hreadsCb, hreadsCr, hidx, hinv, -⟩ :=
      cbfs_reads (ρ := ResidualBlock α) hmin h
    obtain ⟨binsSplit, hsplit, hreadsSplit⟩ :=
      splitFlag_reads (ρ := ResidualBlock α) hmin _ h.min_le h.legal h.noLate
    have hget : cu.psEncTu[e.i4TuIdx]? = some (u.tu (n + 1) x0 y0) := getElem_of_drop h.units
    have hflag (f : TransformUnit α → Bool) (ai1Cbf : Nat → Bool) (htwo : 2 < n + 1) :
        flagAt f (.unit u) (n + 1) trDepth ai1Cbf = f u := by
      rw [flagAt, if_pos htwo, TransformTree.nodeCbf]
      exact ite_self _
    have hluma : cu.isIntra = false → trDepth = 0 →
        flagAt TransformUnit.cbfCb (.unit u) (n + 1) trDepth d.ai1CbfCb = false →
        flagAt TransformUnit.cbfCr (.unit u) (n + 1) trDepth d.ai1CbfCr = false →
        u.cbfLuma = true := by
      intro hinter hzero hcb hcr
      have htwo : 2 < n + 1 := by
        have hne : n + 1 ≠ 2 := fun heq => h.small heq hzero
        have hle : 2 ≤ n + 1 := hlog
        omega
      have hcoded : u.coded = true := h.root hzero hinter
      rw [hflag _ _ htwo] at hcb hcr
      rwa [TransformUnit.coded, hcb, hcr, Bool.or_false, Bool.or_false] at hcoded
    obtain ⟨e', binsTu, d', hleaf, hreads, hdone⟩ := leaf_reads blkNum hinv
      (hidx ▸ hget) (hidx ▸ h.fourth) hlog (setDepth_self ..) (setDepth_self ..) hluma
    refine ⟨e', binsSplit ++ ((binsCb ++ binsCr) ++ binsTu), d', ?_, ?_, ?_⟩
    · have hsplit' : encodeSplitTrFlag p cu.toTreeCu (4 * 2 ^ (u.tu (n + 1) x0 y0).b3Size) (n + 1)
          trDepth = (false, binsSplit) := hsplit
      unfold ihevceEncodeTransformTree
      simp only [hget, hcbfs, hsplit', hleaf, Option.bind_eq_bind, Option.bind_some,
        Bool.false_eq_true, if_false]
    · unfold ihevcdParseTransformTree
      refine hreadsSplit.bind ?_
      rw [List.append_assoc]
      exact hreadsCb.bind (hreadsCr.bind hreads)
    · have hdone' := hdone.behind_flags hidx
      by_cases htwo : 2 < n + 1
      · have htus : (TransformTree.unit u).decodedTus (n + 1) x0 y0 (d.ai1CbfCb (trDepth - 1))
            (d.ai1CbfCr (trDepth - 1)) blkNum = _ := if_pos htwo
        rw [hflag _ _ htwo, hflag _ _ htwo, decide_eq_true (.inl htwo), Bool.and_true,
          Bool.and_true] at hdone'
        rw [htus]
        exact hdone'
      · have htus : (TransformTree.unit u).decodedTus (n + 1) x0 y0 (d.ai1CbfCb (trDepth - 1))
            (d.ai1CbfCr (trDepth - 1)) blkNum = _ := if_neg htwo
        simp only [flagAt, htwo, if_false, false_or] at hdone'
        rw [htus]
        exact hdone'
  | split t0 t1 t2 t3 ih0 ih1 ih2 ih3 =>
    intro log2TrSize x0 y0 trDepth blkNum rest e d h
    have hlog := hmin.trans h.min_le
    obtain ⟨n, rfl⟩ : ∃ n, log2TrSize = n + 1 := ⟨log2TrSize - 1, by omega⟩
    obtain ⟨e₁, binsCb, binsCr, hcbfs, hreadsCb, hreadsCr, hidx, -, hinv⟩ :=
      cbfs_reads (ρ := ResidualBlock α) hmin h
    obtain ⟨binsSplit, hsplit, hreadsSplit⟩ :=
      splitFlag_reads (ρ := ResidualBlock α) hmin _ h.min_le h.legal h.noLate.1
    obtain ⟨⟨l, hl⟩, -, -⟩ := units_head hmin _ h.min_le h.legal x0 y0
    have hget : cu.psEncTu[e.i4TuIdx]? = _ := getElem_of_drop (h.units.trans (congrArg (· ++ rest) hl))
    obtain ⟨hlt, -, hlegal0, hlegal1, hlegal2, hlegal3⟩ := h.legal
    obtain ⟨-, hlate0, hlate1, hlate2, hlate3⟩ := h.noLate
    have htwo : 2 < n + 1 := by
      have hlt' : p.i1Log2MinTransformBlockSize < n + 1 := hlt
      omega
    have hx1 := Nat.dvd_add h.dvdX (four_dvd_half htwo)
    have hy1 := Nat.dvd_add h.dvdY (four_dvd_half htwo)
    have hunits := h.units
    simp only [TransformTree.units, List.append_assoc] at hunits
    rw [← hidx] at hunits
    have hinv₁ := hinv htwo
    have hself (f : Nat → Bool) (v : Bool) : setDepth f trDepth v trDepth = v := if_pos rfl
    have hany (f : TransformUnit α → Bool)
        (hf : (TransformTree.split t0 t1 t2 t3).any f = false) :
        t0.any f = false ∧ t1.any f = false ∧ t2.any f = false ∧ t3.any f = false := by
      simpa only [TransformTree.any, Bool.or_eq_false_iff] using hf
    have hlen {t' : TransformTree α} (hlegal : LegalTree p cu.toTreeCu t' n (trDepth + 1))
        (x y : Nat) : 0 < (t'.units n x y).length := by
      obtain ⟨⟨l, hl⟩, -, -⟩ := units_head hmin t' (Nat.le_of_lt_succ hlt) hlegal x y
      rw [hl]
      exact Nat.succ_pos _
    -- one part after the other, each behind the units of those before it
    have hrest1 := drop_add_of_append hunits
    obtain ⟨e₂, bins0, d₂, henc0, hreads0, hdone0⟩ := ih0 (quarter_ready (t := .split t0 t1 t2 t3)
      0 hlt hlegal0 hlate0 h.dvdX h.dvdY hunits (fun heq => absurd heq (by decide)) hinv₁
      (fun f hf => (hany f hf).1) (hself _ _) (hself _ _))
    rw [← hdone0.idx] at hrest1
    have hrest2 := drop_add_of_append hrest1
    obtain ⟨e₃, bins1, d₃, henc1, hreads1, hdone1⟩ := ih1 (quarter_ready (t := .split t0 t1 t2 t3)
      1 hlt hlegal1 hlate1 hx1 h.dvdY hrest1 (fun heq => absurd heq (by decide)) hdone0.inv
      (fun f hf => (hany f hf).2.1) ((hdone0.cb trDepth (Nat.lt_succ_self _)).trans (hself _ _))
      ((hdone0.cr trDepth (Nat.lt_succ_self _)).trans (hself _ _)))
    have hdone01 := hdone0.trans hdone1
    rw [← hdone1.idx] at hrest2
    have hrest3 := drop_add_of_append hrest2
    obtain ⟨e₄, bins2, d₄, henc2, hreads2, hdone2⟩ := ih2 (quarter_ready (t := .split t0 t1 t2 t3)
      2 hlt hlegal2 hlate2 h.dvdX hy1 hrest2 (fun heq => absurd heq (by decide)) hdone01.inv
      (fun f hf => (hany f hf).2.2.1) ((hdone01.cb trDepth (Nat.lt_succ_self _)).trans (hself _ _))
      ((hdone01.cr trDepth (Nat.lt_succ_self _)).trans (hself _ _)))
    have hdone012 := hdone01.trans hdone2
    rw [← hdone2.idx] at hrest3
    have hfourth : 3 ≤ e₄.i4TuIdx := by
      have hidx4 := hdone012.idx
      have h0 := hlen hlegal0 x0 y0
      have h1 := hlen hlegal1 (x0 + 2 ^ (n + 1) / 2) y0
      have h2 := hlen hlegal2 x0 (y0 + 2 ^ (n + 1) / 2)
      simp only [Nat.add_sub_cancel] at hidx4
      omega
    obtain ⟨e₅, bins3, d₅, henc3, hreads3, hdone3⟩ := ih3 (quarter_ready (t := .split t0 t1 t2 t3)
      3 hlt hlegal3 hlate3 hx1 hy1 hrest3 (fun _ => hfourth) hdone012.inv
      (fun f hf => (hany f hf).2.2.2) ((hdone012.cb trDepth (Nat.lt_succ_self _)).trans (hself _ _))
      ((hdone012.cr trDepth (Nat.lt_succ_self _)).trans (hself _ _)))
    have hdone := ((hdone012.trans hdone3).parent).behind_flags hidx
    refine ⟨e₅, binsSplit ++ ((binsCb ++ binsCr) ++ (bins0 ++ (bins1 ++ (bins2 ++ bins3)))), d₅,
      ?_, ?_, ?_⟩
    · have hsplit' : encodeSplitTrFlag p cu.toTreeCu (4 * 2 ^ ((TransformTree.split t0 t1 t2 t3).first.tu
          ((TransformTree.split t0 t1 t2 t3).firstLog2 (n + 1)) x0 y0).b3Size) (n + 1) trDepth =
          (true, binsSplit) := hsplit
      simp only [Nat.add_sub_cancel] at henc0 henc1 henc2 henc3
      unfold ihevceEncodeTransformTree
      simp only [hget, hcbfs, hsplit', henc0, henc1, henc2, henc3, Option.bind_eq_bind,
        Option.bind_some, if_true]
    · unfold ihevcdParseTransformTree
      refine hreadsSplit.bind ?_
      rw [List.append_assoc]
      exact hreadsCb.bind (hreadsCr.bind (hreads0.bind (hreads1.bind (hreads2.bind hreads3))))
    · have hfirst (f : TransformUnit α → Bool) (ai1Cbf : Nat → Bool) (hn : n = 2) :
          flagAt f (.split t0 t1 t2 t3) (n + 1) trDepth ai1Cbf = f t0.first := by
        rw [flagAt, if_pos htwo, TransformTree.nodeCbf, if_pos (congrArg (· + 1) hn)]
        rfl
      have hcong (t' : TransformTree α) (x y blk : Nat) (d'' : TreeCtxt)
          (hcb : d''.ai1CbfCb trDepth =
            flagAt TransformUnit.cbfCb (.split t0 t1 t2 t3) (n + 1) trDepth d.ai1CbfCb)
          (hcr : d''.ai1CbfCr trDepth =
            flagAt TransformUnit.cbfCr (.split t0 t1 t2 t3) (n + 1) trDepth d.ai1CbfCr) :
          t'.decodedTus n x y (d''.ai1CbfCb trDepth) (d''.ai1CbfCr trDepth) blk =
            t'.decodedTus n x y t0.first.cbfCb t0.first.cbfCr blk :=
        decodedTus_congr t' x y _ _ _ _ blk
          (fun hn => ⟨hcb.trans (hfirst _ _ hn), hcr.trans (hfirst _ _ hn)⟩) (Nat.le_of_lt_succ htwo)
      simp only [Nat.add_sub_cancel] at hdone
      rw [hcong t0 _ _ _ _ (hself _ _) (hself _ _),
        hcong t1 _ _ _ d₂ ((hdone0.cb trDepth (Nat.lt_succ_self _)).trans (hself _ _))
          ((hdone0.cr trDepth (Nat.lt_succ_self _)).trans (hself _ _)),
        hcong t2 _ _ _ d₃ ((hdone01.cb trDepth (Nat.lt_succ_self _)).trans (hself _ _))
          ((hdone01.cr trDepth (Nat.lt_succ_self _)).trans (hself _ _)),
        hcong t3 _ _ _ d₄ ((hdone012.cb trDepth (Nat.lt_succ_self _)).trans (hself _ _))
          ((hdone012.cr trDepth (Nat.lt_succ_self _)).trans (hself _ _))] at hdone
      simp only [TransformTree.units, TransformTree.decodedTus, List.length_append,
        Nat.add_sub_cancel, ← List.append_assoc]
      exact hdone

-- ---------------------------------------------------------------------------
-- Coding units
-- ---------------------------------------------------------------------------

/-- A coding unit as it comes to the two sides. A unit that is not intra has something coded,
or there is no tree at all. -/
structure CuReady (p : TreeConfig) (cfg : QpConfig) (ctbX : Nat) (cu : CuEncTus α)
    (t : TransformTree α) (log2CbSize : Nat) (e : TreeContext) (d : TreeCtxt) : Prop where
  min_ge : 2 ≤ p.i1Log2MinTransformBlockSize
  min_lt : p.i1Log2MinTransformBlockSize < log2CbSize
  legal : LegalTree p cu.toTreeCu t log2CbSize 0
  units : cu.psEncTu = t.units log2CbSize (cu.b3CuPosX * 8) (cu.b3CuPosY * 8)
  idx : e.i4TuIdx = 0
  root : cu.isIntra = false → t.any TransformUnit.coded = true
  qp : QpMatch p cfg ctbX cu e.qp d.qp

/-- The parser takes the bins of a coding unit and has its units, unless the tree has a node for
which only the parser has a flag. -/
theorem transformTree_round_trip {t : TransformTree α} {log2CbSize : Nat} {e : TreeContext}
    {d : TreeCtxt} (h : CuReady p cfg ctbX cu t log2CbSize e d)
    (hlate : NoLateNode p cu.toTreeCu t log2CbSize 0) :
    let x0 := cu.b3CuPosX * 8
    let y0 := cu.b3CuPosY * 8
    ∃ e' bins d', ihevceEncodeTransformTree p cfg ctbX cu log2CbSize x0 y0 0 0 e =
        some (e', bins) ∧
      Reads (ihevcdParseTransformTree p cu.toTreeCu log2CbSize x0 y0 0 0 d) bins d' ∧
      e'.i4TuIdx = cu.psEncTu.length ∧
      d'.tus = d.tus ++ t.decodedTus log2CbSize x0 y0 false false 0 := by
  intro x0 y0
  have hfour (k : Nat) : 4 ∣ k * 8 := Dvd.dvd.mul_left (by decide) k
  have hlog : 2 < log2CbSize := Nat.lt_of_le_of_lt h.min_ge h.min_lt
  have hready : NodeReady p cfg ctbX cu t log2CbSize x0 y0 0 0 [] e d := {
    min_le := Nat.le_of_lt h.min_lt
    legal := h.legal
    noLate := hlate
    dvdX := hfour _
    dvdY := hfour _
    units := by rw [h.idx, List.drop_zero, List.append_nil, h.units]
    fourth := fun hzero => nomatch hzero
    inv := ⟨h.qp, fun _ hi => absurd hi (Nat.not_lt_zero _), fun _ hi =>
      absurd hi (Nat.not_lt_zero _)⟩
    cb := fun hne => absurd rfl hne
    cr := fun hne => absurd rfl hne
    root := fun _ => h.root
    small := fun htwo => absurd htwo (Nat.ne_of_gt hlog) }
  obtain ⟨e', bins, d', henc, hreads, hdone⟩ := tree_reads h.min_ge t hready
  refine ⟨e', bins, d', henc, hreads, ?_, ?_⟩
  · rw [hdone.idx, h.idx, Nat.zero_add, h.units]
  · rw [hdone.tus, decodedTus_congr t x0 y0 _ _ false false 0
      (fun htwo => absurd htwo (Nat.ne_of_gt hlog)) (Nat.le_of_lt hlog)]

/-- Transform blocks from 4x4 to 32x32, and one more level. -/
def smallTreeConfig : TreeConfig := ⟨2, 3, 1, 1, true⟩

def smallQpConfig : QpConfig where
  i1Log2CtbSize := 4
  i2PicWidthInLumaSamples := 64
  i2PicHeightInLumaSamples := 64
  i1DiffCuQpDeltaDepth := 0
  i1EntropyCodingSyncEnabledFlag := false
  sliceQp := 30

def smallUnit (cbfLuma cbfCb : Bool) : TransformUnit Unit := ⟨cbfLuma, cbfCb, false, 32, (), (), ()⟩

def smallTree : TransformTree Unit :=
  .split (.unit (smallUnit false false)) (.unit (smallUnit true true))
    (.unit (smallUnit false true)) (.unit (smallUnit true false))

/-- An intra unit of 16x16, with transform blocks of 8x8. -/
def smallCu (partMode : PartMode) : CuEncTus Unit where
  isIntra := true
  partMode := partMode
  b3CuPosX := 0
  b3CuPosY := 0
  psEncTu := smallTree.units 4 0 0

def smallContext : TreeContext :=
  ⟨⟨30, true, true, fun _ _ => 30, []⟩, 0, fun _ => (false, false), fun _ => (false, false)⟩

def smallCtxt : TreeCtxt :=
  ⟨⟨30, 30, false, 0, fun _ _ => 30, []⟩, fun _ => false, fun _ => false, []⟩

theorem small_qpMatch (partMode : PartMode) :
    QpMatch smallTreeConfig smallQpConfig 0 (smallCu partMode) smallContext.qp smallCtxt.qp where
  coded := rfl
  legal _ := by
    have hpred : deltaPred smallQpConfig 0 (smallCu partMode) smallContext.qp = 30 := by
      have hpos : qgPos smallQpConfig 0 = 0 := by decide
      have hposX : qgPos smallQpConfig (smallCu partMode).b3CuPosX = 0 := hpos
      have hposY : qgPos smallQpConfig (smallCu partMode).b3CuPosY = 0 := hpos
      simp only [deltaPred, QpContext.qpPred, hposX, hposY, if_true]
      rfl
    rw [hpred]
    change ∀ tu ∈ smallTree.units 4 0 0, -26 ≤ tu.b7Qp - 30 ∧ tu.b7Qp - 30 ≤ 25
    decide

theorem transformTree_round_trip_small :
    CuReady smallTreeConfig smallQpConfig 0 (smallCu .part2Nx2N) smallTree 4 smallContext
        smallCtxt ∧
      ∃ e' bins d', ihevceEncodeTransformTree smallTreeConfig smallQpConfig 0 (smallCu .part2Nx2N) 4
          0 0 0 0 smallContext = some (e', bins) ∧
        Reads (ihevcdParseTransformTree smallTreeConfig (smallCu .part2Nx2N).toTreeCu 4 0 0 0 0
          smallCtxt) bins d' ∧
        e'.i4TuIdx = 4 ∧ d'.tus = smallTree.decodedTus 4 0 0 false false 0 :=
  have hready : CuReady smallTreeConfig smallQpConfig 0 (smallCu .part2Nx2N) smallTree 4
      smallContext smallCtxt :=
    ⟨by decide, by decide, by decide, rfl, rfl, (fun h => nomatch h), small_qpMatch _⟩
  ⟨hready, transformTree_round_trip hready (by decide)⟩

def nxnBins : TreeBins Unit :=
  [.ctxt 36 true, .ctxt 36 false,
    .ctxt 37 false, .ctxt 34 false,
    .ctxt 37 true, .ctxt 34 true, .ctxt 9 true, .ctxt 10 true, .ctxt 10 false, .bypass false,
    .piece ⟨3, true, ()⟩, .piece ⟨2, false, ()⟩,
    .ctxt 37 true, .ctxt 34 false, .piece ⟨2, false, ()⟩,
    .ctxt 37 false, .ctxt 34 true, .piece ⟨3, true, ()⟩]

/-- The four blocks of an intra NxN unit of 16x16 are at the last level for the writer, but not
for the parser. -/
theorem transformTree_nxn_rejected :
    CuReady smallTreeConfig smallQpConfig 0 (smallCu .partNxN) smallTree 4 smallContext
        smallCtxt ∧
      (ihevceEncodeTransformTree smallTreeConfig smallQpConfig 0 (smallCu .partNxN) 4 0 0 0 0
        smallContext).map Prod.snd = some nxnBins ∧
      Rejects (ihevcdParseTransformTree smallTreeConfig (smallCu .partNxN).toTreeCu 4 0 0 0 0
        smallCtxt) nxnBins :=
  ⟨⟨by decide, by decide, by decide, rfl, rfl, (fun h => nomatch h), small_qpMatch _⟩, by decide,
    fun _ => rfl⟩

end Libhevc.RoundTrip
