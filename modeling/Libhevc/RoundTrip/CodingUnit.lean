import Libhevc.RoundTrip.PredictionUnit
import Libhevc.RoundTrip.Sao

/-!
# Coding units round trip

A coding unit as the parser gets it from the bins of the writer. The contexts are the same on both
sides but for one of `part_mode`, whose bins have another index there.
-/

namespace Libhevc.RoundTrip

open Reader Encoder Decoder Encoder.CuSyntax Decoder.CuSyntax

-- ---------------------------------------------------------------------------
-- Contexts
-- ---------------------------------------------------------------------------

/-- The contexts of the bins are such. -/
def InCtxts (P : Nat → Prop) (bins : List (Bin ρ)) : Prop := ∀ i b, .ctxt i b ∈ bins → P i

/-- The contexts that have one index on both sides. -/
abbrev SharedCtxt (i : Nat) : Prop := i ≠ ihevcCabPartMode + 2 ∧ i ≠ ihevcCabPartMode + 3

namespace InCtxts

variable {P Q : Nat → Prop} {bins bins' : List (Bin ρ)}

theorem mono (h : InCtxts P bins) (hPQ : ∀ i, P i → Q i) : InCtxts Q bins :=
  fun i b hmem => hPQ i (h i b hmem)

theorem nil : InCtxts P ([] : List (Bin ρ)) := fun _ _ hmem => absurd hmem List.not_mem_nil

theorem ctxt (h : P i) (hbins : InCtxts P bins) : InCtxts P (.ctxt i b :: bins) := by
  intro j c hmem
  obtain heq | hmem := List.mem_cons.mp hmem
  · obtain ⟨rfl, -⟩ := Bin.ctxt.inj heq
    exact h
  · exact hbins j c hmem

theorem bypass (hbins : InCtxts P bins) : InCtxts P (.bypass b :: bins) := by
  intro j c hmem
  obtain heq | hmem := List.mem_cons.mp hmem
  · cases heq
  · exact hbins j c hmem

theorem piece (hbins : InCtxts P bins) : InCtxts P (.piece r :: bins) := by
  intro j c hmem
  obtain heq | hmem := List.mem_cons.mp hmem
  · cases heq
  · exact hbins j c hmem

theorem append (h : InCtxts P bins) (h' : InCtxts P bins') : InCtxts P (bins ++ bins') :=
  fun i b hmem => (List.mem_append.mp hmem).elim (h i b) (h' i b)

theorem ite {c : Prop} [Decidable c] (h : InCtxts P bins) (h' : InCtxts P bins') :
    InCtxts P (if c then bins else bins') := by
  split
  case isTrue => exact h
  case isFalse => exact h'

theorem flatMap {f : α → List (Bin ρ)} (h : ∀ i, InCtxts P (f i)) (is : List α) :
    InCtxts P (is.flatMap f) := by
  intro j c hmem
  obtain ⟨i, -, hi⟩ := List.mem_flatMap.mp hmem
  exact h i j c hi

/-- The parser has such bins as they are. -/
theorem kept (h : InCtxts SharedCtxt bins) (amp : Bool) :
    bins.map (Bin.rename (ampCtxt amp)) = bins := by
  refine (List.map_congr_left fun bin hmem => ?_).trans (List.map_id bins)
  cases bin with
  | ctxt i b => exact congrArg (Bin.ctxt · b) (if_neg fun hi => (h i b hmem).1 hi.2)
  | bypass b => rfl
  | piece r => rfl

theorem bypassBins (v n : Nat) : InCtxts P (bypassBins v n : List (Bin ρ)) := by
  intro j c hmem
  obtain ⟨i, -, heq⟩ := List.mem_map.mp hmem
  cases heq

theorem tunaryBypass (sym cMax : Nat) :
    InCtxts SharedCtxt (ihevceCabacEncodeTunaryBypass sym cMax : List (Bin ρ)) :=
  ite (bypassBins _ _) (bypassBins _ _)

theorem mergeIdx (idx max : Nat) :
    InCtxts SharedCtxt (ihevceCabacEncodeMergeIdx idx max : List (Bin ρ)) :=
  ite (ctxt (by decide) (ite (tunaryBypass _ _) nil)) nil

theorem interPredIdc (mode : PredMode) (cuDepth wPlusH : Nat) :
    InCtxts SharedCtxt (ihevceCabacEncodeInterPredIdc mode cuDepth wPlusH : List (Bin ρ)) := by
  have hctxt : SharedCtxt (ihevcCabInterPredIdc + cuDepth) := by
    simp only [SharedCtxt, ihevcCabInterPredIdc, ihevcCabPartMode]
    omega
  exact ite (ctxt (by decide) nil) (ctxt hctxt (ite (ctxt (by decide) nil) nil))

theorem refidx (idx refs : Nat) :
    InCtxts SharedCtxt (ihevceCabacEncodeRefidx idx refs : List (Bin ρ)) :=
  ite (ctxt (by decide) ((ite (ctxt (by decide) nil) nil).append (ite (tunaryBypass _ _) nil))) nil

theorem mvdRest (mvd : Int) : InCtxts SharedCtxt (encodeMvdRest mvd : List (Bin ρ)) :=
  (ite (bypassBins _ _) nil).append (ite (bypass nil) nil)

theorem mvd (mvd : Mv) : InCtxts SharedCtxt (ihevceCabacEncodeMvd mvd : List (Bin ρ)) :=
  ctxt (by decide) (ctxt (by decide) ((ite (ctxt (by decide) nil) nil).append
    ((ite (ctxt (by decide) nil) nil).append ((mvdRest _).append (mvdRest _)))))

theorem motion (h : CuHeader) (pu : PuSyntax) (cuDepth : Nat) :
    InCtxts SharedCtxt (encodeMotion h pu cuDepth : List (Bin ρ)) :=
  (ite (interPredIdc _ _ _) nil).append
    ((ite ((refidx _ _).append ((mvd _).append (ctxt (by decide) nil))) nil).append
      (ite ((refidx _ _).append ((ite nil (mvd _)).append (ctxt (by decide) nil))) nil))

theorem interPu (h : CuHeader) (skip : Bool) (partMode : PartMode) (psPu : Nat → PuSyntax)
    (cuDepth : Nat) :
    InCtxts SharedCtxt (ihevceCabacEncodeInterPu h skip partMode psPu cuDepth : List (Bin ρ)) :=
  ite (mergeIdx _ _) (flatMap (fun _ => ctxt (by decide) (ite (mergeIdx _ _) (motion _ _ _))) _)

theorem lumaMode (flags : IntraPrevRemFlags) :
    InCtxts SharedCtxt (encodeLumaMode flags : List (Bin ρ)) :=
  ite (bypassBins _ _) (bypassBins _ _)

theorem intraPu (partMode : PartMode) (asPrevRem : Nat → IntraPrevRemFlags) (chromaMode : Nat) :
    InCtxts SharedCtxt (ihevceCabacEncodeIntraPu partMode asPrevRem chromaMode : List (Bin ρ)) :=
  (flatMap (fun _ => ctxt (by decide) nil) _).append ((flatMap (fun _ => lumaMode _) _).append
    (ctxt (by decide) (ite (bypassBins _ _) nil)))

theorem residual (cu : CuEncLoop τ) (coded : Bool) :
    InCtxts SharedCtxt (CtbConfig.encodeResidual cu coded) :=
  (ite (ctxt (by decide) nil) nil).append (ite (piece nil) nil)

end InCtxts

-- ---------------------------------------------------------------------------
-- Partitions
-- ---------------------------------------------------------------------------

/-- The partitions that the assertions of the writer admit. -/
structure PartLegal (intra isMincb amp : Bool) (cbSize : Nat) (partMode : PartMode) : Prop where
  intraNxN : intra = true → partMode = .part2Nx2N ∨ isMincb = true ∧ partMode = .partNxN
  symmetric : intra = false → amp = false ∨ isMincb = true → partMode.idx ≤ 3
  interNxN : intra = false → isMincb = false ∨ cbSize = 8 → partMode ≠ .partNxN

theorem partModeAmp_reads (h : partMode ≠ .partNxN) :
    Reads (ihevcdParsePartModeAmp : BinReader ρ PartMode)
      ((ihevceCabacEncodePartMode false false true false partMode).map (Bin.rename (ampCtxt true)))
      partMode := by
  cases partMode with
  | partNxN => exact absurd rfl h
  | _ => exact fun rest => rfl

theorem partModeLoop_reads {isMincb cuEq8 : Bool} (hidx : partMode.idx ≤ 3)
    (hnxn : isMincb = false ∨ cuEq8 = true → partMode ≠ .partNxN) (amp : Bool)
    (hamp : amp = true → isMincb = true ∧ cuEq8 = true) :
    Reads (do
        let n ← partModeLoop (if isMincb = true ∧ cuEq8 = false then 3 else 2) ihevcCabPartMode 0
        pure (partModeOf n) : BinReader ρ PartMode)
      ((ihevceCabacEncodePartMode false isMincb amp cuEq8 partMode).map
        (Bin.rename (ampCtxt amp))) partMode := by
  cases isMincb with
  | false =>
    have hplain : amp = false := Bool.eq_false_iff.mpr fun h => Bool.noConfusion (hamp h).1
    subst hplain
    cases partMode with
    | part2Nx2N | part2NxN | partNx2N => cases cuEq8 <;> exact fun rest => rfl
    | partNxN => exact absurd rfl (hnxn (.inl rfl))
    | _ => exact absurd hidx (by decide)
  | true =>
    cases cuEq8 with
    | false =>
      have hplain : amp = false := Bool.eq_false_iff.mpr fun h => Bool.noConfusion (hamp h).2
      subst hplain
      cases partMode with
      | part2Nx2N | part2NxN | partNx2N | partNxN => exact fun rest => rfl
      | _ => exact absurd hidx (by decide)
    | true =>
      -- two bins, neither of which has the third context
      cases partMode with
      | part2Nx2N | part2NxN | partNx2N => cases amp <;> exact fun rest => rfl
      | partNxN => exact absurd rfl (hnxn (.inr rfl))
      | _ => exact absurd hidx (by decide)

/-- With AMP the smallest blocks are 8x8. -/
theorem partMode_reads (hlegal : PartLegal intra isMincb amp cbSize partMode) (hsize : 8 ≤ cbSize)
    (hamp : amp = true → isMincb = true → cbSize = 8) :
    Reads (parsePartMode intra isMincb amp cbSize : BinReader ρ PartMode)
      ((if intra = false ∨ isMincb = true then
          ihevceCabacEncodePartMode intra isMincb amp (cbSize = 8) partMode
        else []).map (Bin.rename (ampCtxt amp))) partMode := by
  unfold parsePartMode
  cases intra with
  | true =>
    cases isMincb with
    | true =>
      obtain rfl | ⟨-, rfl⟩ := hlegal.intraNxN rfl
      all_goals exact fun rest => by cases amp <;> rfl
    | false =>
      obtain rfl | ⟨hmin, -⟩ := hlegal.intraNxN rfl
      · exact Reads.pure _
      · exact Bool.noConfusion hmin
  | false =>
    simp only [Bool.false_eq_true, if_false, true_or, if_true]
    have hlarge : 8 < cbSize ↔ decide (cbSize = 8) = false := by
      rw [decide_eq_false_iff_not]
      omega
    split
    case isTrue h =>
      obtain ⟨rfl, rfl⟩ := h
      exact partModeAmp_reads (hlegal.interNxN rfl (.inl rfl))
    case isFalse h =>
      simp only [hlarge]
      refine partModeLoop_reads (hlegal.symmetric rfl ?_) ?_ amp fun ha => ?_
      · cases amp <;> cases isMincb <;> simp_all
      · exact fun hor => hlegal.interNxN rfl (hor.imp id of_decide_eq_true)
      · have hmin : isMincb = true := by cases isMincb <;> simp_all
        exact ⟨hmin, decide_eq_true (hamp ha hmin)⟩

-- ---------------------------------------------------------------------------
-- Coding units
-- ---------------------------------------------------------------------------

/-- What is fixed for a picture of one slice without tiles. -/
structure CuPicture where
  sps : SpsCu
  hdr : CuHeader
  i1AmpEnabledFlag : Bool
  log2Min_of_amp : i1AmpEnabledFlag = true → sps.i1Log2MinCodingBlockSize = 3

/-- A coding unit and its block. -/
structure CuBlock (τ : Type) where
  cu : CuEncLoop τ
  log2CbSize : Nat
  x0 : Nat
  y0 : Nat

namespace CuPicture

variable (p : CuPicture)

def inter : Bool := decide (p.hdr.i1SliceType ≠ .islice)

/-- A CTB of the writer. -/
def ctbConfig (ctbX ctbY : Nat) (psEncCu : List (CuEncLoop τ)) : CtbConfig τ where
  hdr := p.hdr
  i1AmpEnabledFlag := p.i1AmpEnabledFlag
  i1Log2MinCodingBlockSize := p.sps.i1Log2MinCodingBlockSize
  i1Log2CtbSize := p.sps.i1Log2CtbSize
  picWidth := p.sps.i2PicWidthInLumaSamples
  picHeight := p.sps.i2PicHeightInLumaSamples
  i4CtbX := ctbX
  u1LeftAvail := 0 < ctbX
  u1TopAvail := 0 < ctbY
  psEncCu := psEncCu

/-- A CTB of the parser. -/
def parser (pos : CtbPos) : CuParser where
  sps := p.sps
  pos := pos
  isIslice := decide (p.hdr.i1SliceType = .islice)
  hdr := p.hdr
  i1AmpEnabledFlag := p.i1AmpEnabledFlag

/-- The bins as the parser has their contexts. -/
def bins (l : List (Bin ρ)) : List (Bin ρ) := l.map (Bin.rename (ampCtxt p.i1AmpEnabledFlag))

def skipped (cu : CuEncLoop τ) : Bool := if p.inter then cu.b1SkipFlag else false

def intra (cu : CuEncLoop τ) : Bool := if p.inter then cu.b1PredModeFlag else true

/-- What a coding unit at a block of a CTB may be. -/
structure Legal (ctbX ctbY : Nat) (b : CuBlock τ) : Prop where
  size : b.cu.b4CuSize <<< 3 = 2 ^ b.log2CbSize
  size_ge : p.sps.i1Log2MinCodingBlockSize ≤ b.log2CbSize
  posX : b.x0 = ctbX <<< p.sps.i1Log2CtbSize + b.cu.b3CuPosX <<< 3
  posY : b.y0 = ctbY <<< p.sps.i1Log2CtbSize + b.cu.b3CuPosY <<< 3
  skip : p.skipped b.cu = true → b.cu.b3PartMode = .part2Nx2N ∧ p.intra b.cu = false ∧
    (b.cu.psPu 0).b1MergeFlag = true
  parts : PartLegal (p.intra b.cu) (decide (b.log2CbSize = p.sps.i1Log2MinCodingBlockSize))
    p.i1AmpEnabledFlag (2 ^ b.log2CbSize) b.cu.b3PartMode
  places : p.intra b.cu = false →
    (List.range (numParts b.cu.b3PartMode)).map (fun i => place (b.cu.psPu i)) =
      initPus b.cu.b3PartMode (b.cu.b3CuPosX <<< 3) (b.cu.b3CuPosY <<< 3) (2 ^ b.log2CbSize)
  pus : p.intra b.cu = false → ∀ i < numParts b.cu.b3PartMode, PuLegal p.hdr (b.cu.psPu i)
  modes : p.intra b.cu = true → IntraLegal b.cu.asPrevRem b.cu.b3ChromaIntraPredMode

def merged (cu : CuEncLoop τ) : Bool :=
  decide (cu.b3PartMode = .part2Nx2N) && (cu.psPu 0).b1MergeFlag

/-- What the stream says of a coding unit. -/
def decoded (b : CuBlock τ) : ParsedCu τ :=
  let cu := b.cu
  let units (skip : Bool) :=
    (List.range (numParts cu.b3PartMode)).map fun i => carried skip (cu.psPu i)
  { x0 := b.x0
    y0 := b.y0
    log2CbSize := b.log2CbSize
    skipFlag := p.skipped cu
    intra := p.intra cu
    partMode := cu.b3PartMode
    pus := if p.intra cu then [] else units (p.skipped cu)
    lumaModes :=
      if p.intra cu then
        (List.range (if cu.b3PartMode = .partNxN then 4 else 1)).map fun i =>
          lumaMode (cu.asPrevRem i)
      else []
    chromaMode := if p.intra cu then some cu.b3ChromaIntraPredMode else none
    tree :=
      if p.skipped cu || !p.intra cu && !merged cu && cu.b1NoResidualSyntaxFlag then none
      else some cu.tree }

end CuPicture

theorem getRange_two_pow (n : Nat) : getRange (2 ^ n) = n + 1 := by
  rw [getRange, if_neg (Nat.two_pow_pos n).ne', Nat.log2_two_pow]

theorem residual_reads {cu : CuEncLoop τ} (hsize : cu.b4CuSize <<< 3 = 2 ^ n) (coded : Bool) :
    Reads (CuParser.parseResidual coded n : BinReader (TreePiece τ) (Option τ))
      (CtbConfig.encodeResidual cu coded)
      (if coded && cu.b1NoResidualSyntaxFlag then none else some cu.tree) := by
  unfold CuParser.parseResidual CtbConfig.encodeResidual
  have htree : Reads (parseTree n : BinReader (TreePiece τ) τ)
      [.piece ⟨getRange (cu.b4CuSize <<< 3) - 1, cu.tree⟩] cu.tree := by
    intro rest
    rw [hsize, getRange_two_pow, Nat.add_sub_cancel]
    exact if_pos rfl
  cases coded with
  | false => exact (Reads.pure true).nil_bind (htree.bind_nil (Reads.pure _))
  | true =>
    refine (decodeBin_reads _ _).bind ?_
    cases cu.b1NoResidualSyntaxFlag with
    | false => exact htree.bind_nil (Reads.pure _)
    | true => exact Reads.pure none

theorem carried_mergeFlag (pu : PuSyntax) : (carried false pu).b1MergeFlag = pu.b1MergeFlag := by
  unfold carried
  cases pu.b1MergeFlag <;> rfl

section
variable {p : CuPicture} {ctbX ctbY : Nat} {b : CuBlock τ} {pos : CtbPos}

/-- The units of a coding unit that is not intra, each at its place. -/
theorem parsePus_reads (hlegal : p.Legal ctbX ctbY b) (hpos : AtRaster pos ctbX ctbY)
    (hintra : p.intra b.cu = false) {skip : Bool} {put : Nat → List (Bin ρ)} (ctDepth : Nat)
    (hput : ∀ i < numParts b.cu.b3PartMode, Reads
      (ihevcdParsePredictionUnit p.hdr skip ctDepth (place (b.cu.psPu i)) : BinReader ρ PuSyntax)
      (put i) (carried skip (b.cu.psPu i))) :
    Reads ((p.parser pos).parsePus skip b.cu.b3PartMode b.x0 b.y0 (2 ^ b.log2CbSize) ctDepth :
        BinReader ρ (List PuSyntax))
      ((List.range (numParts b.cu.b3PartMode)).flatMap put)
      ((List.range (numParts b.cu.b3PartMode)).map fun i => carried skip (b.cu.psPu i)) := by
  have hx : b.x0 - pos.i4CtbX <<< p.sps.i1Log2CtbSize = b.cu.b3CuPosX <<< 3 := by
    rw [hlegal.posX, hpos.ctbX, Nat.add_sub_cancel_left]
  have hy : b.y0 - pos.i4CtbY <<< p.sps.i1Log2CtbSize = b.cu.b3CuPosY <<< 3 := by
    rw [hlegal.posY, hpos.ctbY, Nat.add_sub_cancel_left]
  change Reads (List.mapM _ (initPus _ (b.x0 - pos.i4CtbX <<< p.sps.i1Log2CtbSize)
    (b.y0 - pos.i4CtbY <<< p.sps.i1Log2CtbSize) _)) _ _
  rw [hx, hy, ← hlegal.places hintra, List.mapM_map]
  exact Reads.mapM fun i hi => hput i (List.mem_range.mp hi)

/-- A coding unit before its prediction. -/
def begun (b : CuBlock τ) (intra : Bool) : ParsedCu τ where
  x0 := b.x0
  y0 := b.y0
  log2CbSize := b.log2CbSize
  skipFlag := false
  intra := intra
  partMode := b.cu.b3PartMode
  pus := []
  lumaModes := []
  chromaMode := none
  tree := none

/-- The tail of an intra coding unit. -/
theorem intraCu_reads (hlegal : p.Legal ctbX ctbY b) (hskip : p.skipped b.cu = false)
    (hintra : p.intra b.cu = true) :
    Reads (CuParser.parseIntraCu (begun b true) : BinReader (TreePiece τ) (ParsedCu τ))
      (ihevceCabacEncodeIntraPu b.cu.b3PartMode b.cu.asPrevRem b.cu.b3ChromaIntraPredMode ++
        CtbConfig.encodeResidual b.cu false)
      (p.decoded b) := by
  unfold CuParser.parseIntraCu
  refine (intraPu_reads (hlegal.modes hintra) _).bind
    ((residual_reads hlegal.size false).bind_nil (Reads.pure_of_eq ?_))
  simp [CuPicture.decoded, begun, hskip, hintra]
  rfl

/-- The tail of an inter coding unit. -/
theorem interCu_reads (hlegal : p.Legal ctbX ctbY b) (hpos : AtRaster pos ctbX ctbY)
    (hskip : p.skipped b.cu = false) (hflag : b.cu.b1SkipFlag = false)
    (hintra : p.intra b.cu = false) (ctDepth : Nat) :
    Reads ((p.parser pos).parseInterCu ctDepth (begun b false) :
        BinReader (TreePiece τ) (ParsedCu τ))
      (ihevceCabacEncodeInterPu p.hdr b.cu.b1SkipFlag b.cu.b3PartMode b.cu.psPu ctDepth ++
        CtbConfig.encodeResidual b.cu (!CuPicture.merged b.cu))
      (p.decoded b) := by
  unfold CuParser.parseInterCu ihevceCabacEncodeInterPu
  rw [hflag, if_neg Bool.false_ne_true]
  refine (parsePus_reads hlegal hpos hintra ctDepth fun i hi =>
    predictionUnit_reads (hlegal.pus hintra i hi) ctDepth).bind ?_
  -- where the merge flag counts there is one unit
  have hmerged : CuParser.mergedCu (begun b false).partMode
      ((List.range (numParts b.cu.b3PartMode)).map fun i => carried false (b.cu.psPu i)) =
      CuPicture.merged b.cu := by
    unfold CuParser.mergedCu CuPicture.merged begun
    by_cases hpart : b.cu.b3PartMode = .part2Nx2N
    · simp [hpart, numParts, carried_mergeFlag]
    · simp [hpart]
  rw [hmerged]
  refine (residual_reads hlegal.size _).bind_nil (Reads.pure_of_eq ?_)
  simp [CuPicture.decoded, begun, hskip, hintra]

theorem unskipped_reads (hlegal : p.Legal ctbX ctbY b) (hpos : AtRaster pos ctbX ctbY)
    (hskip : p.skipped b.cu = false) (psEncCu : List (CuEncLoop τ)) (ctDepth : Nat) :
    Reads ((p.parser pos).parseUnskipped b.x0 b.y0 b.log2CbSize ctDepth :
        BinReader (TreePiece τ) (ParsedCu τ))
      (p.bins ((p.ctbConfig ctbX ctbY psEncCu).encodeUnskipped b.cu ctDepth)) (p.decoded b) := by
  have hpow : (2 ^ b.log2CbSize = 2 ^ p.sps.i1Log2MinCodingBlockSize) =
      (b.log2CbSize = p.sps.i1Log2MinCodingBlockSize) :=
    propext (Nat.pow_right_injective (Nat.le_refl 2)).eq_iff
  have hge : 3 ≤ b.log2CbSize := p.sps.log2MinCodingBlockSize_ge.trans hlegal.size_ge
  have height : 8 ≤ 2 ^ b.log2CbSize := Nat.pow_le_pow_right two_pos hge
  unfold CuParser.parseUnskipped CtbConfig.encodeUnskipped CuPicture.bins
  simp only [CuPicture.parser, CuPicture.ctbConfig, hlegal.size, Nat.one_shiftLeft, hpow,
    List.map_append]
  change Reads _ (_ ++ (List.map _ (if p.intra b.cu = false ∨ _ then
    ihevceCabacEncodePartMode (p.intra b.cu) _ _ _ _ else _) ++ (List.map _
      (if p.intra b.cu = true then _ else _) ++ _))) _
  refine Reads.bind (a := p.intra b.cu) ?_ (Reads.bind (a := b.cu.b3PartMode)
    (partMode_reads hlegal.parts height fun hamp hmin => ?_) ?_)
  · unfold CuPicture.intra CuPicture.inter
    by_cases hislice : p.hdr.i1SliceType = .islice
    · simp only [hislice, ne_eq, not_true_eq_false, decide_true, decide_false, if_true,
        Bool.false_eq_true, if_false]
      exact Reads.pure true
    · simp only [hislice, ne_eq, not_false_eq_true, decide_true, decide_false, if_true,
        Bool.false_eq_true, if_false]
      rw [InCtxts.kept (InCtxts.ctxt (by decide) InCtxts.nil)]
      exact decodeBin_reads _ _
  · rw [of_decide_eq_true hmin, p.log2Min_of_amp hamp]
    rfl
  · change Reads _ (List.map _ _ ++ List.map _ (CtbConfig.encodeResidual b.cu
      (!p.intra b.cu && !CuPicture.merged b.cu))) _
    rw [(InCtxts.ite (InCtxts.intraPu _ _ _) (InCtxts.interPu _ _ _ _ _)).kept,
      (InCtxts.residual _ _).kept]
    cases hintra : p.intra b.cu with
    | true => exact intraCu_reads hlegal hskip hintra
    | false =>
      have hinter : p.inter = true := by
        by_contra h
        simp [CuPicture.intra, h] at hintra
      have hflag : b.cu.b1SkipFlag = false := by
        simpa [CuPicture.skipped, hinter] using hskip
      exact interCu_reads hlegal hpos hskip hflag hintra ctDepth

/-- The unit of a skipped coding unit. -/
theorem skippedPus_reads (hlegal : p.Legal ctbX ctbY b) (hpos : AtRaster pos ctbX ctbY)
    (hskip : p.skipped b.cu = true) (ctDepth : Nat) :
    Reads ((p.parser pos).parsePus true .part2Nx2N b.x0 b.y0 (2 ^ b.log2CbSize) ctDepth :
        BinReader ρ (List PuSyntax))
      (ihevceCabacEncodeMergeIdx (b.cu.psPu 0).b3MergeIdx p.hdr.i1MaxNumMergeCand)
      [carried true (b.cu.psPu 0)] := by
  obtain ⟨hpart, hintra, hmerge⟩ := hlegal.skip hskip
  have hone : numParts b.cu.b3PartMode = 1 := if_pos hpart
  have hput : ∀ i < numParts b.cu.b3PartMode, Reads
      (ihevcdParsePredictionUnit p.hdr true ctDepth (place (b.cu.psPu i)) : BinReader ρ PuSyntax)
      (ihevceCabacEncodeMergeIdx (b.cu.psPu i).b3MergeIdx p.hdr.i1MaxNumMergeCand)
      (carried true (b.cu.psPu i)) := by
    intro i hi
    obtain rfl : i = 0 := by omega
    exact skipped_reads ((hlegal.pus hintra 0 hi).mergeIdx hmerge) ctDepth
  have hreads := parsePus_reads hlegal hpos hintra ctDepth hput
  rw [hone, hpart] at hreads
  simpa using hreads

end

end Libhevc.RoundTrip
