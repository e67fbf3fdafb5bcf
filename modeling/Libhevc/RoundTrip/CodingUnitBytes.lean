import Libhevc.RoundTrip.CodingTree
import Libhevc.RoundTrip.SliceContexts

/-!
# Coding units in the bytes of a slice

The coding units of a picture as the loop of `ihevce_encode_slice_data` writes them, each CTB behind
its SAO syntax and before its end-of-slice flag, down to the bytes. The engine of the decoder gets
from these the bins that the parser of the coding units reads.
-/

namespace Libhevc.RoundTrip

open Reader Memory Spec Encoder Decoder Encoder.CuSyntax Decoder.CuSyntax

-- ---------------------------------------------------------------------------
-- The context that only the parser has
-- ---------------------------------------------------------------------------

/-- The contexts of the writer. -/
abbrev WriterCtxt (i : Nat) : Prop := i ≠ ihevcCabPartMode + 3

namespace InCtxts

theorem ofShared {bins : List (Bin ρ)} (h : InCtxts SharedCtxt bins) : InCtxts WriterCtxt bins :=
  h.mono fun _ hi => hi.2

theorem partMode (intra isMincu ampEnabled cuEq8 : Bool) (partMode : PartMode) :
    InCtxts WriterCtxt
      (ihevceCabacEncodePartMode intra isMincu ampEnabled cuEq8 partMode : List (Bin ρ)) := by
  unfold ihevceCabacEncodePartMode
  refine ite (ctxt (by decide) nil) (append ?_ (ite (bypass nil) nil))
  intro j b hmem
  obtain ⟨i, hi, heq⟩ := List.mem_map.mp hmem
  obtain ⟨rfl, -⟩ := Bin.ctxt.inj heq
  have hlt := List.mem_range.mp hi
  simp only [WriterCtxt]
  omega

theorem unskipped (c : CtbConfig τ) (cu : CuEncLoop τ) (cuDepth : Nat) :
    InCtxts WriterCtxt (c.encodeUnskipped cu cuDepth) :=
  (ite (ctxt (by decide) nil) nil).append ((ite (partMode _ _ _ _ _) nil).append
    ((ite (intraPu _ _ _) (interPu _ _ _ _ _)).ofShared.append (residual _ _).ofShared))

/-- A context that the flags of two neighbours choose. -/
theorem chosen {bins : List (Bin ρ)} {c c' : Prop} [Decidable c] [Decidable c']
    (hctxt : ctxtIndex ≤ 6) (hn : n ≤ 1) (hn' : n' ≤ 1) (hbins : InCtxts WriterCtxt bins) :
    InCtxts WriterCtxt
      (.ctxt (ctxtIndex + ((if c then n else 0) + if c' then n' else 0)) b :: bins) := by
  refine ctxt ?_ hbins
  simp only [WriterCtxt, ihevcCabPartMode]
  split_ifs <;> omega

theorem skipFlag (c : CtbConfig τ) (cu : CuEncLoop τ) (topAvail leftAvail : Bool) (s : CuContext) :
    InCtxts WriterCtxt
      (c.ihevceCabacEncodeSkipFlag cu topAvail leftAvail s : CuContext × List (Bin ρ)).2 :=
  chosen (by decide) (Bool.toNat_le _) (Bool.toNat_le _) nil

theorem codingUnit (c : CtbConfig τ) (cu : CuEncLoop τ) (cuDepth : Nat) (topAvail leftAvail : Bool)
    (s : CuContext) :
    InCtxts WriterCtxt (c.ihevceCabacEncodeCodingUnit cu cuDepth topAvail leftAvail s).2 := by
  have hskip : InCtxts WriterCtxt (if c.hdr.i1SliceType ≠ .islice then
      c.ihevceCabacEncodeSkipFlag cu topAvail leftAvail s
      else (s, []) : CuContext × List (Bin (TreePiece τ))).2 := by
    split
    case isTrue => exact skipFlag _ _ _ _ _
    case isFalse => exact nil
  exact hskip.append (ite (interPu _ _ _ _ _).ofShared (unskipped _ _ _))

theorem splitCuFlag (c : CtbConfig τ) (cu : CuEncLoop τ) (log2CbSize x0Frm y0Frm ctDepth : Nat)
    (s : CuContext) :
    InCtxts WriterCtxt (c.encodeSplitCuFlag cu log2CbSize x0Frm y0Frm ctDepth s).2 := by
  unfold CtbConfig.encodeSplitCuFlag
  dsimp only
  split
  case isTrue => exact chosen (by decide) (Nat.le_refl 1) (Nat.le_refl 1) nil
  case isFalse => exact nil

theorem visit {P : Nat → Prop} {f : CuContext → Option (CuContext × List (Bin ρ))}
    (hf : ∀ s r, f s = some r → InCtxts P r.2) {r r' : CuContext × List (Bin ρ)}
    (hr : InCtxts P r.2) (h : CtbConfig.visit p f r = some r') : InCtxts P r'.2 := by
  unfold CtbConfig.visit at h
  split at h
  case isTrue =>
    obtain ⟨a, ha, rfl⟩ := Option.map_eq_some_iff.mp h
    exact hr.append (hf _ _ ha)
  case isFalse =>
    obtain rfl := Option.some.inj h
    exact hr

theorem codingQuadtree (c : CtbConfig τ) (n x0Frm y0Frm ctDepth : Nat) (s : CuContext)
    (r : CuContext × List (Bin (TreePiece τ)))
    (h : c.ihevceEncodeCodingQuadtree n x0Frm y0Frm ctDepth s = some r) :
    InCtxts WriterCtxt r.2 := by
  induction n generalizing x0Frm y0Frm ctDepth s r with
  | zero =>
    obtain ⟨cu, -, hcu⟩ := Option.bind_eq_some_iff.mp h
    obtain rfl := Option.some.inj hcu
    exact codingUnit _ _ _ _ _ _
  | succ n ih =>
    obtain ⟨cu, -, h⟩ := Option.bind_eq_some_iff.mp h
    have hsplit := splitCuFlag c cu (n + 1) x0Frm y0Frm ctDepth s
    dsimp only at h
    split at h
    case isTrue =>
      obtain ⟨r₀, h₀, h⟩ := Option.bind_eq_some_iff.mp h
      obtain ⟨r₁, h₁, h⟩ := Option.bind_eq_some_iff.mp h
      obtain ⟨r₂, h₂, h⟩ := Option.bind_eq_some_iff.mp h
      have hin₀ := visit (ih _ _ _) hsplit h₀
      have hin₁ := visit (ih _ _ _) hin₀ h₁
      have hin₂ := visit (ih _ _ _) hin₁ h₂
      exact visit (ih _ _ _) hin₂ h
    case isFalse =>
      obtain rfl := Option.some.inj h
      exact hsplit.append (codingUnit _ _ _ _ _ _)

end InCtxts

-- ---------------------------------------------------------------------------
-- The slice
-- ---------------------------------------------------------------------------

/-- The symbols of a bin; a piece has its own. -/
def binSyms (piece : ρ → List CabacSym) : Bin ρ → List CabacSym
  | .ctxt ctxtIndex bin => [(.bin ctxtIndex, bin.toNat)]
  | .bypass bin => [(.bypass, bin.toNat)]
  | .piece r => piece r

/-- The symbols of the CTBs from `k` on: the SAO syntax, the coding units, and the end-of-slice flag
but for that of the last one. -/
def sliceSyms (sao : Nat → List CabacSym) (piece : ρ → List CabacSym) :
    (k : Nat) → List (List (Bin ρ)) → List CabacSym
  | _, [] => []
  | k, [bins] => sao k ++ bins.flatMap (binSyms piece)
  | k, bins :: ctbs =>
    sao k ++ (bins.flatMap (binSyms piece) ++ (.terminate, 0) :: sliceSyms sao piece (k + 1) ctbs)

/-- The coding units of the first CTBs in the loop of `ihevce_encode_slice_data`. -/
def CuPicture.encodeCtbs (p : CuPicture) (tree : Nat → CodingQuadtree (CuEncLoop τ)) :
    Nat → CuContext → Option (CuContext × List (List (Bin (TreePiece τ))))
  | 0, s => some (s, [])
  | n + 1, s => do
    let (s, ctbs) ← p.encodeCtbs tree n s
    let (s, bins) ← (p.writer tree n).encodeCtb
      (frmPos (1 <<< p.sps.i1Log2CtbSize) p.sps.i2PicWidthInLumaSamples n) s
    some (s, ctbs ++ [bins])

/-- Symbols of syntax beside the coding units: they have none of the contexts of `part_mode` that
the two sides have apart. -/
def Beside (syms : List CabacSym) : Prop := ∀ sym ∈ syms, CtxtIn {i | SharedCtxt i} sym

theorem ampCtxt_of_shared (h : SharedCtxt i) (amp : Bool) : ampCtxt amp i = i :=
  if_neg fun hi => h.1 hi.2

theorem ampCtxt_injOn (amp : Bool) : Set.InjOn (ampCtxt amp) {i | WriterCtxt i} := by
  intro i hi j hj heq
  have hne : i ≠ ihevcCabPartMode + 3 := hi
  have hne' : j ≠ ihevcCabPartMode + 3 := hj
  unfold ampCtxt at heq
  split_ifs at heq <;> omega

theorem renameSym_beside (h : Beside syms) (amp : Bool) :
    syms.map (renameSym (ampCtxt amp)) = syms := by
  refine (List.map_congr_left fun sym hmem => ?_).trans (List.map_id syms)
  have hctxt := h sym hmem
  obtain ⟨op, v⟩ := sym
  cases op with
  | bin ctxtIndex => simp only [renameSym, ampCtxt_of_shared hctxt amp, id]
  | bypass | bypassBins | terminate => rfl

section
variable {sao : Nat → List CabacSym} {piece : ρ → List CabacSym}

theorem binsSyms_rename (hpiece : ∀ r, Beside (piece r)) (amp : Bool) (bins : List (Bin ρ)) :
    (bins.map (Bin.rename (ampCtxt amp))).flatMap (binSyms piece) =
      (bins.flatMap (binSyms piece)).map (renameSym (ampCtxt amp)) := by
  induction bins with
  | nil => rfl
  | cons bin bins ih =>
    rw [List.map_cons, List.flatMap_cons, List.flatMap_cons, List.map_append, ih]
    cases bin with
    | ctxt i b => rfl
    | bypass b => rfl
    | piece r => exact congrArg (· ++ _) (renameSym_beside (hpiece r) amp).symm

/-- The contexts of a slice have their other indices bin by bin. -/
theorem sliceSyms_rename (hsao : ∀ k, Beside (sao k)) (hpiece : ∀ r, Beside (piece r)) (amp : Bool)
    (k : Nat) (ctbs : List (List (Bin ρ))) :
    sliceSyms sao piece k (ctbs.map (List.map (Bin.rename (ampCtxt amp)))) =
      (sliceSyms sao piece k ctbs).map (renameSym (ampCtxt amp)) := by
  induction ctbs generalizing k with
  | nil => rfl
  | cons bins ctbs ih =>
    cases ctbs with
    | nil =>
      simp only [List.map_cons, List.map_nil, sliceSyms, List.map_append, binsSyms_rename hpiece,
        renameSym_beside (hsao k)]
    | cons bins' ctbs =>
      have htail := ih (k + 1)
      simp only [List.map_cons] at htail
      simp only [List.map_cons, sliceSyms, List.map_append, binsSyms_rename hpiece,
        renameSym_beside (hsao k), htail, renameSym]

theorem CtxtIn.mono {indices indices' : Set Nat} (h : CtxtIn indices sym)
    (hsubset : indices ⊆ indices') : CtxtIn indices' sym := by
  obtain ⟨op, v⟩ := sym
  cases op with
  | bin ctxtIndex => exact hsubset h
  | bypass | bypassBins | terminate => trivial

theorem Beside.writer (h : Beside syms) : ∀ sym ∈ syms, CtxtIn {i | WriterCtxt i} sym :=
  fun sym hmem => (h sym hmem).mono fun _ hi => hi.2

theorem binsSyms_ctxtIn (hpiece : ∀ r, Beside (piece r)) {bins : List (Bin ρ)}
    (hbins : InCtxts WriterCtxt bins) :
    ∀ sym ∈ bins.flatMap (binSyms piece), CtxtIn {i | WriterCtxt i} sym := by
  intro sym hmem
  obtain ⟨bin, hbin, hsym⟩ := List.mem_flatMap.mp hmem
  cases bin with
  | ctxt i b =>
    obtain rfl := List.mem_singleton.mp hsym
    exact hbins i b hbin
  | bypass b =>
    obtain rfl := List.mem_singleton.mp hsym
    trivial
  | piece r => exact (hpiece r).writer sym hsym

theorem sliceSyms_ctxtIn (hsao : ∀ k, Beside (sao k)) (hpiece : ∀ r, Beside (piece r)) (k : Nat)
    {ctbs : List (List (Bin ρ))} (hctbs : ∀ bins ∈ ctbs, InCtxts WriterCtxt bins) :
    ∀ sym ∈ sliceSyms sao piece k ctbs, CtxtIn {i | WriterCtxt i} sym := by
  induction ctbs generalizing k with
  | nil => exact fun _ hmem => absurd hmem List.not_mem_nil
  | cons bins ctbs ih =>
    obtain ⟨hbins, hctbs⟩ := List.forall_mem_cons.mp hctbs
    have hfirst := binsSyms_ctxtIn hpiece hbins
    cases ctbs with
    | nil => exact List.forall_mem_append.mpr ⟨(hsao k).writer, hfirst⟩
    | cons bins' ctbs =>
      exact List.forall_mem_append.mpr ⟨(hsao k).writer, List.forall_mem_append.mpr
        ⟨hfirst, List.forall_mem_cons.mpr ⟨trivial, ih (k + 1) hctbs⟩⟩⟩

end

section
variable {p : CuPicture} {tree : Nat → CodingQuadtree (CuEncLoop τ)}

theorem encodeCtbs_inCtxts {n : Nat} {s : CuContext}
    {r : CuContext × List (List (Bin (TreePiece τ)))} (h : p.encodeCtbs tree n s = some r) :
    ∀ bins ∈ r.2, InCtxts WriterCtxt bins := by
  induction n generalizing r with
  | zero =>
    obtain rfl := Option.some.inj h
    exact fun _ hmem => absurd hmem List.not_mem_nil
  | succ n ih =>
    obtain ⟨r₀, h₀, h⟩ := Option.bind_eq_some_iff.mp h
    obtain ⟨r₁, h₁, h⟩ := Option.bind_eq_some_iff.mp h
    obtain rfl := Option.some.inj h
    refine List.forall_mem_append.mpr ⟨ih h₀, List.forall_mem_singleton.mpr ?_⟩
    exact InCtxts.codingQuadtree _ _ _ _ _ _ _ h₁

/-- The loop of the writer meets that of the parser CTB by CTB. -/
theorem encodeCtbs_reads (hlegal : p.PicLegal tree) (s : CuContext) (m : CuMaps) :
    ∃ (ctxt : Nat → CuContext) (maps : Nat → CuMaps), maps 0 = m ∧
      ∀ n ≤ p.sps.i2PicWdInCtb * p.sps.i2PicHtInCtb, ∃ ctbs,
        p.encodeCtbs tree n s = some (ctxt n, ctbs) ∧ ctbs.length = n ∧
        ∀ k < n, ∃ bins, ctbs[k]? = some bins ∧
          Reads ((p.parser (oneSlicePos p.sps.toSpsSize k)).parseCtb (maps k) :
              BinReader (TreePiece τ) (CuMaps × List (ParsedCu τ)))
            (p.bins bins) (maps (k + 1), (p.ctbBlocks tree k).map p.decoded) := by
  obtain ⟨ctxt, maps, hctxt, hmaps, hreads, -⟩ := ctbs_reads hlegal s m (Nat.le_refl _)
  refine ⟨ctxt, maps, hmaps, fun n => ?_⟩
  induction n with
  | zero => exact fun _ => ⟨[], by rw [hctxt]; rfl, rfl, fun k hk => absurd hk (Nat.not_lt_zero k)⟩
  | succ n ih =>
    intro hn
    obtain ⟨ctbs, henc, hlength, hctbs⟩ := ih (Nat.le_of_succ_le hn)
    obtain ⟨bins, hctb, hread⟩ := hreads n hn
    refine ⟨ctbs ++ [bins], ?_, by rw [List.length_append, hlength]; rfl, fun k hk => ?_⟩
    · rw [CuPicture.encodeCtbs, henc]
      exact Option.bind_eq_some_iff.mpr ⟨_, rfl, Option.bind_eq_some_iff.mpr ⟨_, hctb, rfl⟩⟩
    · obtain hlt | rfl := Nat.lt_succ_iff_lt_or_eq.mp hk
      · obtain ⟨bins', hget, hread'⟩ := hctbs k hlt
        exact ⟨bins', (List.getElem?_append_left (hlength ▸ hlt)).trans hget, hread'⟩
      · exact ⟨bins, by rw [← hlength, List.getElem?_concat_length], hread⟩

/-- From the coding units of a picture to the bytes of its slice and back: the parser gets the units
from the bins, and the engine of the decoder gets the bins from the bytes. The rows of
`gau1_ihevc_cab_ctxts` have one state for the two contexts of the third bin with AMP. -/
theorem codingUnits_readsBack {c₀ c : Encoder.CabCtxt} {bs : Encoder.Bitstrm}
    {sao : Nat → List CabacSym} {piece : TreePiece τ → List CabacSym}
    (hlegal : p.PicLegal tree) (hsao : ∀ k, Beside (sao k)) (hpiece : ∀ r, Beside (piece r))
    (henc : p.encodeCtbs tree (p.sps.i2PicWdInCtb * p.sps.i2PicHtInCtb) s = some (s', ctbs))
    (hsyms : l.flatMap ungroup = sliceSyms sao piece 0 ctbs)
    (hm : ModelsOk models) (hl : Going l) (hfits : SliceFits models c l)
    (hamp : p.i1AmpEnabledFlag = true →
      models (ihevcCabPartMode + 3) = models (ihevcCabPartMode + 2))
    (hc : ihevceCabacInit c₀ bs models .encodeBits = c)
    (hs : Sealed bs.pu1StrmBuffer.mem c.u4StrmBufOffset) (hrun : bs.i4ZeroBytesRun = 0)
    (hoff : c.u4StrmBufOffset < 2 ^ 32) (hmax : c.u4MaxStrmSize < 2 ^ 32) (m : CuMaps) :
    (∃ maps : Nat → CuMaps, maps 0 = m ∧
      ∀ k < p.sps.i2PicWdInCtb * p.sps.i2PicHtInCtb, ∃ bins, ctbs[k]? = some bins ∧
        Reads ((p.parser (oneSlicePos p.sps.toSpsSize k)).parseCtb (maps k) :
            BinReader (TreePiece τ) (CuMaps × List (ParsedCu τ)))
          (p.bins bins) (maps (k + 1), (p.ctbBlocks tree k).map p.decoded)) ∧
    ∀ l', Readable l' → l'.flatMap ungroup = sliceSyms sao piece 0 (ctbs.map p.bins) →
      SliceReadsBack l' models ((Coder.init models).codeAll l').models
        (sliceBytes (encodeSlice c l).2 c.u4StrmBufOffset) := by
  obtain ⟨ctxt, maps, hmaps, hloop⟩ := encodeCtbs_reads hlegal s m
  obtain ⟨ctbs₁, henc₁, -, hreads⟩ := hloop _ (Nat.le_refl _)
  obtain ⟨rfl, rfl⟩ := Prod.mk.inj (Option.some.inj (henc₁.symm.trans henc))
  refine ⟨⟨maps, hmaps, hreads⟩, fun l' hl' hsyms' => ?_⟩
  refine hfits.readsBack_renamed hm hl hl' (ampCtxt_injOn p.i1AmpEnabledFlag) ?_ ?_ ?_
    hc hs hrun hoff hmax
  · -- the third bin of `part_mode` with AMP begins alike on both sides
    intro i _
    unfold ampCtxt
    split
    case isTrue h =>
      rw [h.2]
      exact hamp h.1
    case isFalse => rfl
  · rw [hsyms]
    exact sliceSyms_ctxtIn hsao hpiece 0 (encodeCtbs_inCtxts henc)
  · rw [hsyms, hsyms']
    exact sliceSyms_rename hsao hpiece p.i1AmpEnabledFlag 0 _

end

/-- A picture of one CTB of 16 samples. -/
def ampCtb : CuPicture :=
  { twoCtbUnits with
    sps := { twoCtbUnits.sps with
      i2PicWidthInLumaSamples := 16
      width_pos := units_pos_16
      width_le := units_le_16 } }

/-- A narrow unit above a tall one. -/
def ampPu (i : Nat) : PuSyntax :=
  { wholePu i with
    b4PosY := i
    b4Ht := if i = 0 then 0 else 2
    b3PartMode := .part2NxnU
    b2PartIdx := i }

def ampUnit : CuEncLoop Nat :=
  { skippedUnit with
    b1SkipFlag := false
    b3PartMode := .part2NxnU
    psPu := ampPu }

theorem ampUnit_legal : ampCtb.Legal 0 0 ⟨ampUnit, 4, 0, 0⟩ where
  size := rfl
  size_ge := by decide
  posX := rfl
  posY := rfl
  skip h := Bool.noConfusion h
  parts := ⟨fun h => Bool.noConfusion h, fun _ h => absurd h (by decide), fun _ _ => by decide⟩
  places _ := rfl
  pus _ _ _ := ⟨fun _ => (by decide : 2 < max 1 5), fun h => Bool.noConfusion h⟩
  modes h := Bool.noConfusion h

theorem ampCtb_legal : ampCtb.PicLegal fun _ => .cu ampUnit := by
  intro k hk
  obtain rfl : k = 0 := Nat.lt_one_iff.mp hk
  exact ⟨ampUnit_legal, .inr ⟨by decide, by decide⟩⟩

def ampBins : List (Bin (TreePiece Nat)) :=
  [.ctxt 2 false, .ctxt 6 false, .ctxt 11 false, .ctxt 12 false, .ctxt 13 true, .ctxt 14 false,
    .bypass false, .ctxt 18 true, .ctxt 19 true, .bypass true, .bypass false, .ctxt 18 true,
    .ctxt 19 true, .bypass true, .bypass false, .ctxt 30 true, .piece ⟨4, 0⟩]

theorem ampCtb_encodeCtbs : ∃ s', ampCtb.encodeCtbs (fun _ => .cu ampUnit) 1
    ⟨0, fun _ => 0, fun _ => 0, fun _ => 0, 0⟩ = some (s', [ampBins]) := by
  have hbins : (ampCtb.encodeCtbs (fun _ => .cu ampUnit) 1
      ⟨0, fun _ => 0, fun _ => 0, fun _ => 0, 0⟩).map Prod.snd = some [ampBins] := rfl
  obtain ⟨⟨s', ctbs⟩, henc, heq⟩ := Option.map_eq_some_iff.mp hbins
  obtain rfl : ctbs = [ampBins] := heq
  exact ⟨s', henc⟩

/-- The slice of the CTB, by the context of the third bin of `part_mode`. -/
def ampSyms (ctxtIndex : Nat) : List CabacSym :=
  [(.bypass, 1), (.bin 2, 0), (.bin 6, 0), (.bin 11, 0), (.bin 12, 0), (.bin 13, 1),
    (.bin ctxtIndex, 0), (.bypass, 0), (.bin 18, 1), (.bin 19, 1), (.bypassBins 2, 2), (.bin 18, 1),
    (.bin 19, 1), (.bypassBins 2, 2), (.bin 30, 1), (.bin 42, 0)]

theorem ampSyms_readable (h : ctxtIndex < ihevcCabCtxtEnd) : Readable (ampSyms ctxtIndex) := by
  refine ⟨?_, ?_⟩
  · simpa [ampSyms, Going, SymOk, ihevcCabCtxtEnd] using h
  · simpa [ampSyms, CabacOp.Ok, ihevcCabCtxtEnd] using h

theorem ampSyms_fits : SliceFits (fun _ => 0) (startAt (fun _ => 1) 64 1) (ampSyms 14) :=
  ⟨by decide +kernel, by decide +kernel, by decide +kernel, by decide +kernel⟩

/-- A SAO bin in front. -/
def ampSao (_ : Nat) : List CabacSym := [(.bypass, 1)]

/-- A transform tree of one bin. -/
def ampTree (_ : TreePiece Nat) : List CabacSym := [(.bin 42, 0)]

theorem ampSao_beside (k : Nat) : Beside (ampSao k) := List.forall_mem_singleton.mpr trivial

theorem ampTree_beside (r : TreePiece Nat) : Beside (ampTree r) :=
  List.forall_mem_singleton.mpr ⟨by decide, by decide⟩

theorem codingUnits_readsBack_amp :
    SliceReadsBack (ampSyms 15) (fun _ => 0)
      ((Coder.init fun _ => 0).codeAll (ampSyms 15)).models
      (sliceBytes (encodeSlice (startAt (fun _ => 1) 64 1) (ampSyms 14)).2 1) := by
  obtain ⟨s', henc⟩ := ampCtb_encodeCtbs
  refine (codingUnits_readsBack (c := startAt (fun _ => 1) 64 1) ampCtb_legal ampSao_beside
    ampTree_beside henc (by decide) (fun _ _ => by decide) (ampSyms_readable (by decide)).1
    ampSyms_fits (fun _ => rfl) rfl ?_ rfl (by decide) (by decide)
    ⟨fun _ => 0, 0, fun _ => 0, 0⟩).2 (ampSyms 15) (ampSyms_readable (by decide)) (by decide)
  exact ⟨by decide, by decide, fun h => absurd h (by decide)⟩

end Libhevc.RoundTrip
