import Libhevc.Decoder.Sao
import Libhevc.Decoder.TileGrid
import Libhevc.Encoder.Sao
import Libhevc.RoundTrip.Bins

/-!
# SAO syntax round trip

The parameters that the encoder codes for the CTBs of a picture are what the decoder
gets, in each component that the slice header has the flag of.
-/

namespace Libhevc

/-- The same type and edge class, and where they are used the same offsets and band position. -/
structure SaoComp.Same (a b : SaoComp) : Prop where
  b3TypeIdx : a.b3TypeIdx = b.b3TypeIdx
  offset : a.b3TypeIdx ≠ 0 → a.offset = b.offset
  b5BandPos : a.b3TypeIdx = 1 → a.b5BandPos = b.b5BandPos

/-- The range of the parameters of a component. -/
structure SaoComp.Legal (cMax : Nat) (sao : SaoComp) : Prop where
  type_le : sao.b3TypeIdx ≤ 5
  band_lt : sao.b5BandPos < 32
  length : sao.offset.length = 4
  offset_le : ∀ offset ∈ sao.offset, offset.natAbs ≤ cMax
  edge : 2 ≤ sao.b3TypeIdx → (∀ offset ∈ sao.offset.take 2, 0 ≤ offset) ∧
    ∀ offset ∈ sao.offset.drop 2, offset ≤ 0

theorem SaoComp.Same.refl (a : SaoComp) : a.Same a := ⟨rfl, fun _ => rfl, fun _ => rfl⟩

theorem SaoComp.Same.trans {a b c : SaoComp} (h : a.Same b) (h' : b.Same c) : a.Same c where
  b3TypeIdx := h.b3TypeIdx.trans h'.b3TypeIdx
  offset ha := (h.offset ha).trans (h'.offset (h.b3TypeIdx ▸ ha))
  b5BandPos ha := (h.b5BandPos ha).trans (h'.b5BandPos (h.b3TypeIdx ▸ ha))

end Libhevc

namespace Libhevc.RoundTrip

open Reader Encoder Decoder

/-- The type of a component without the edge class. -/
def typeClass (b3TypeIdx : Nat) : Nat := min b3TypeIdx 2

theorem typeClass_eq_zero (t : Nat) : typeClass t = 0 ↔ t = 0 := by
  unfold typeClass
  omega

theorem typeClass_eq_two (t : Nat) : typeClass t = 2 ↔ 2 ≤ t := by
  unfold typeClass
  omega

-- ---------------------------------------------------------------------------
-- One component
-- ---------------------------------------------------------------------------

theorem parseSaoType_reads (t : Nat) :
    Reads (parseSaoType : BinReader ρ Nat) (encodeSaoType t) (typeClass t) := by
  rcases t with _ | _ | t
  · exact (decodeBin_reads _ _).bind_nil (Reads.pure _)
  · exact (decodeBin_reads _ _).bind ((decodeBypassBin_reads _).bind_nil (Reads.pure _))
  · have hclass : typeClass (t + 1 + 1) = 2 := (typeClass_eq_two _).mpr (by omega)
    have hcoded : (encodeSaoType (t + 1 + 1) : List (Bin ρ)) =
        [.ctxt ihevcCabSaoType true] ++ [.bypass true] := by
      simp [encodeSaoType]
    rw [hclass, hcoded]
    exact (decodeBin_reads _ _).bind ((decodeBypassBin_reads _).bind_nil (Reads.pure _))

section
variable {sao : SaoComp} {cMax : Nat} (h : sao.Legal cMax)
include h

/-- The four offsets, by name. -/
theorem SaoComp.Legal.offsets : ∃ a b c d, sao.offset = [a, b, c, d] := by
  obtain ⟨_, _, hlen, _, _⟩ := h
  rcases hs : sao.offset with _ | ⟨a, _ | ⟨b, _ | ⟨c, _ | ⟨d, _ | ⟨e, l⟩⟩⟩⟩⟩
  case cons.cons.cons.cons.nil => exact ⟨a, b, c, d, rfl⟩
  all_goals simp [hs] at hlen

/-- The absolute values, with the signs that an edge class implies. -/
theorem parseSaoAbs_reads (t : Nat) :
    Reads (parseSaoAbs cMax t : BinReader ρ (List Int))
      (sao.offset.flatMap fun offset => ihevceCabacEncodeTunaryBypass offset.natAbs cMax)
      ((List.range 4).map fun i =>
        let offset := (sao.offset.getD i 0).natAbs
        if t = 2 ∧ 1 < i then -(offset : Int) else offset) := by
  have hput : (sao.offset.flatMap fun offset =>
      (ihevceCabacEncodeTunaryBypass offset.natAbs cMax : List (Bin ρ))) =
      (List.range 4).flatMap fun i =>
        ihevceCabacEncodeTunaryBypass (sao.offset.getD i 0).natAbs cMax := by
    obtain ⟨a, b, c, d, hs⟩ := SaoComp.Legal.offsets h
    simp [hs, List.range_succ]
  rw [hput]
  refine Reads.mapM fun i hi => ?_
  have hlt : i < sao.offset.length := by
    rw [h.length]
    exact List.mem_range.mp hi
  have hle : (sao.offset.getD i 0).natAbs ≤ cMax := by
    rw [List.getD_eq_getElem _ _ hlt]
    exact h.offset_le _ (List.getElem_mem hlt)
  exact (tunaryBypass_reads hle).bind_nil (Reads.pure _)

theorem saoAbs_edge (ht : 2 ≤ sao.b3TypeIdx) :
    ((List.range 4).map fun i =>
      let offset := (sao.offset.getD i 0).natAbs
      if 2 = 2 ∧ 1 < i then -(offset : Int) else offset) = sao.offset := by
  obtain ⟨a, b, c, d, hs⟩ := SaoComp.Legal.offsets h
  obtain ⟨hpos, hneg⟩ := h.edge ht
  rw [hs] at hpos hneg ⊢
  have ha : (a.natAbs : Int) = a := Int.natAbs_of_nonneg (hpos a (by simp))
  have hb : (b.natAbs : Int) = b := Int.natAbs_of_nonneg (hpos b (by simp))
  have hc : -(c.natAbs : Int) = c := by
    rw [Int.ofNat_natAbs_of_nonpos (hneg c (by simp)), Int.neg_neg]
  have hd : -(d.natAbs : Int) = d := by
    rw [Int.ofNat_natAbs_of_nonpos (hneg d (by simp)), Int.neg_neg]
  change [(a.natAbs : Int), b.natAbs, -c.natAbs, -d.natAbs] = [a, b, c, d]
  rw [ha, hb, hc, hd]

theorem saoAbs_band :
    ((List.range 4).map fun i =>
      let offset := (sao.offset.getD i 0).natAbs
      if 1 = 2 ∧ 1 < i then -(offset : Int) else offset) =
      sao.offset.map fun offset => (offset.natAbs : Int) := by
  obtain ⟨a, b, c, d, hs⟩ := SaoComp.Legal.offsets h
  rw [hs]
  rfl

end

theorem saoSign_reads (offset : Int) :
    Reads (if (offset.natAbs : Int) ≠ 0 then do
        let value ← decodeBypassBin
        pure (if value then -(offset.natAbs : Int) else offset.natAbs)
      else pure (offset.natAbs : Int) : BinReader ρ Int)
      (if offset ≠ 0 then [.bypass ((offset.natAbs : Int) + offset = 0)] else []) offset := by
  have hzero : (offset.natAbs : Int) ≠ 0 ↔ offset ≠ 0 := by omega
  by_cases ho : offset = 0
  · subst ho
    exact Reads.pure 0
  · rw [if_pos (hzero.mpr ho), if_pos ho]
    refine (decodeBypassBin_reads _).bind_nil ?_
    have hvalue : (if decide ((offset.natAbs : Int) + offset = 0) = true then
        -(offset.natAbs : Int) else offset.natAbs) = offset := by
      simp only [decide_eq_true_eq]
      split <;> omega
    rw [hvalue]
    exact Reads.pure offset

theorem parseSaoSigns_reads (offset : List Int) :
    Reads (parseSaoSigns (offset.map fun o => (o.natAbs : Int)) : BinReader ρ (List Int))
      (offset.flatMap fun o => if o ≠ 0 then [.bypass ((o.natAbs : Int) + o = 0)] else [])
      offset := by
  unfold parseSaoSigns
  induction offset with
  | nil => exact Reads.pure []
  | cons o offset ih =>
    rw [List.map_cons, List.mapM_cons, List.flatMap_cons]
    exact (saoSign_reads o).bind (ih.bind_nil (Reads.pure _))

/-- The band position and the edge class as they are parsed. -/
theorem parseSaoOffsets_reads {sao : SaoComp} (h : sao.Legal cMax) (cIdx : Nat)
    (ht : sao.b3TypeIdx ≠ 0) :
    Reads (parseSaoOffsets cMax cIdx (typeClass sao.b3TypeIdx) : BinReader ρ _)
      (encodeSaoOffsets cMax cIdx sao.b3TypeIdx sao)
      (sao.offset, if sao.b3TypeIdx = 1 then sao.b5BandPos else 0,
        if sao.b3TypeIdx ≠ 1 ∧ cIdx < 2 then sao.b3TypeIdx - 2 else 0) := by
  by_cases hband : sao.b3TypeIdx = 1
  · have habs := parseSaoAbs_reads (ρ := ρ) h 1
    rw [saoAbs_band h] at habs
    simp only [hband, parseSaoOffsets, encodeSaoOffsets, if_true, ne_eq, not_true, false_and,
      if_false]
    refine habs.bind ((parseSaoSigns_reads _).bind ?_)
    exact (bypassBins_reads_lt h.band_lt).bind_nil (Reads.pure _)
  · have hedge : 2 ≤ sao.b3TypeIdx := by omega
    have habs := parseSaoAbs_reads (ρ := ρ) h 2
    rw [saoAbs_edge h hedge] at habs
    rw [(typeClass_eq_two _).mpr hedge]
    simp only [hband, parseSaoOffsets, encodeSaoOffsets, ne_eq, not_false_eq_true, true_and,
      if_false, OfNat.ofNat_ne_one]
    refine habs.bind ?_
    have hle := h.type_le
    have hclass : sao.b3TypeIdx - 2 < 2 ^ 2 := by omega
    by_cases hc : cIdx < 2
    · rw [if_pos (show cIdx = 0 ∨ cIdx = 1 by omega), if_pos (show cIdx = 0 ∨ cIdx = 1 by omega),
        if_pos hc]
      exact (bypassBins_reads_lt hclass).bind_nil (Reads.pure _)
    · rw [if_neg (show ¬ (cIdx = 0 ∨ cIdx = 1) by omega),
        if_neg (show ¬ (cIdx = 0 ∨ cIdx = 1) by omega), if_neg hc]
      exact (Reads.pure 0).nil_bind (Reads.pure _)

/-- A component as it is parsed over what was there. -/
def parsedOver (sao old : SaoComp) : SaoComp :=
  if sao.b3TypeIdx = 0 then { old with b3TypeIdx := 0 }
  else
    { sao with b5BandPos := if sao.b3TypeIdx = 1 then sao.b5BandPos else 0 }

theorem parsedOver_type (sao old : SaoComp) : (parsedOver sao old).b3TypeIdx = sao.b3TypeIdx := by
  unfold parsedOver
  split
  case isTrue h => exact h.symm
  case isFalse => rfl

theorem parsedOver_same (sao old : SaoComp) : sao.Same (parsedOver sao old) where
  b3TypeIdx := (parsedOver_type sao old).symm
  offset h := by rw [parsedOver, if_neg h]
  b5BandPos h := by
    rw [parsedOver, if_neg (by omega)]
    exact (if_pos h).symm

theorem typeClass_add_class (t : Nat) (hc : cIdx < 2) :
    typeClass t + (if t ≠ 1 ∧ cIdx < 2 then t - 2 else 0) = t := by
  unfold typeClass
  split <;> omega

/-- A component with a type of its own, which may be that of another component too. -/
theorem typedComp_reads {h : SaoFlags} {sao : SaoEnc} (hc : cIdx < 2) (hflag : h.flag cIdx = true)
    (hlegal : (sao.comp cIdx).Legal (saoCMax bitDepth)) (psSao : Sao) (t t' : Nat) :
    Reads (parseSaoComp h bitDepth cIdx (psSao, t) : BinReader ρ _)
      (encodeSaoComp h (saoCMax bitDepth) sao cIdx t').2
      (fun i =>
        if i = cIdx then parsedOver (sao.comp cIdx) (psSao i)
        else if sharesType cIdx i then { psSao i with b3TypeIdx := (sao.comp cIdx).b3TypeIdx }
        else psSao i,
        typeClass (sao.comp cIdx).b3TypeIdx) := by
  have hself : sharesType cIdx cIdx = true := by simp [sharesType]
  have htype := parseSaoType_reads (ρ := ρ) (sao.comp cIdx).b3TypeIdx
  unfold parseSaoComp encodeSaoComp
  simp only [hflag, hc, if_true, true_and]
  refine htype.bind ?_
  by_cases ht : (sao.comp cIdx).b3TypeIdx = 0
  · have hclass : typeClass (sao.comp cIdx).b3TypeIdx = 0 := (typeClass_eq_zero _).mpr ht
    rw [if_neg (not_not_intro hclass), if_neg (not_not_intro ht)]
    refine Reads.pure_of_eq (Prod.ext (funext fun i => ?_) rfl)
    by_cases hi : i = cIdx
    · subst hi
      simp only [hself, ht, (typeClass_eq_zero 0).mpr rfl, parsedOver, if_true]
    · simp only [hi, ht, (typeClass_eq_zero 0).mpr rfl, if_false]
  · have hclass : typeClass (sao.comp cIdx).b3TypeIdx ≠ 0 := (typeClass_eq_zero _).not.mpr ht
    have hsum := typeClass_add_class (sao.comp cIdx).b3TypeIdx hc
    rw [if_pos hclass, if_pos ht]
    refine (parseSaoOffsets_reads hlegal cIdx ht).bind_nil ?_
    refine Reads.pure_of_eq (Prod.ext (funext fun i => ?_) rfl)
    by_cases hi : i = cIdx
    · subst hi
      simp only [hself, if_true, hsum, parsedOver, ht, if_false]
    · by_cases hshare : sharesType cIdx i = true
      · simp only [hi, hshare, if_true, if_false, hsum]
      · simp only [hi, hshare, if_false, Bool.false_eq_true]

/-- Component cr, with the type of cb. -/
theorem crComp_reads {h : SaoFlags} {sao : SaoEnc} (hflag : h.flag 2 = true)
    (hlegal : (sao.comp 2).Legal (saoCMax bitDepth)) {psSao : Sao}
    (htype : (psSao 2).b3TypeIdx = (sao.comp 2).b3TypeIdx) :
    Reads (parseSaoComp h bitDepth 2 (psSao, typeClass (sao.comp 2).b3TypeIdx) : BinReader ρ _)
      (encodeSaoComp h (saoCMax bitDepth) sao 2 (sao.comp 2).b3TypeIdx).2
      (fun i => if i = 2 then parsedOver (sao.comp 2) (psSao i) else psSao i,
        typeClass (sao.comp 2).b3TypeIdx) := by
  unfold parseSaoComp encodeSaoComp
  simp only [hflag, if_true, Nat.lt_irrefl, if_false, false_and, List.nil_append]
  refine (Reads.pure _).nil_bind ?_
  by_cases ht : (sao.comp 2).b3TypeIdx = 0
  · have hclass : typeClass (sao.comp 2).b3TypeIdx = 0 := (typeClass_eq_zero _).mpr ht
    rw [if_neg (not_not_intro hclass), if_neg (not_not_intro ht)]
    refine Reads.pure_of_eq (Prod.ext (funext fun i => ?_) rfl)
    dsimp only
    by_cases hi : i = 2
    · subst hi
      rw [if_pos rfl, parsedOver, if_pos ht, ← htype.trans ht]
    · rw [if_neg hi]
  · have hclass : typeClass (sao.comp 2).b3TypeIdx ≠ 0 := (typeClass_eq_zero _).not.mpr ht
    rw [if_pos hclass, if_pos ht]
    refine (parseSaoOffsets_reads hlegal 2 ht).bind_nil ?_
    refine Reads.pure_of_eq (Prod.ext (funext fun i => ?_) rfl)
    by_cases hi : i = 2
    · subst hi
      simp only [if_true, htype, parsedOver, ht, if_false]
    · simp only [hi, if_false]

theorem noComp_reads {h : SaoFlags} (hflag : h.flag cIdx = false) (sao : SaoEnc) (l : Sao × Nat)
    (t : Nat) : Reads (parseSaoComp h bitDepth cIdx l : BinReader ρ _)
      (encodeSaoComp h cMax sao cIdx t).2 l := by
  unfold parseSaoComp encodeSaoComp
  simp only [hflag, Bool.false_eq_true, if_false]
  exact Reads.pure l

-- ---------------------------------------------------------------------------
-- One CTB
-- ---------------------------------------------------------------------------

/-- The parameters of a CTB in the components that are coded. -/
structure SaoLegal (h : SaoFlags) (cMax : Nat) (sao : SaoEnc) : Prop where
  comp : ∀ cIdx < 3, h.flag cIdx = true → (sao.comp cIdx).Legal cMax
  chroma : h.flag 1 = true → (sao.comp 1).b3TypeIdx = (sao.comp 2).b3TypeIdx

/-- The same in each component that is coded. -/
def SameComps (h : SaoFlags) (a b : Nat → SaoComp) : Prop :=
  ∀ cIdx < 3, h.flag cIdx = true → (a cIdx).Same (b cIdx)

theorem SameComps.trans {a b c : Nat → SaoComp} (hab : SameComps h a b) (hbc : SameComps h b c) :
    SameComps h a c := fun cIdx hc hflag => (hab cIdx hc hflag).trans (hbc cIdx hc hflag)

section
variable {h : SaoFlags} {sao : SaoEnc} (hlegal : SaoLegal h (saoCMax bitDepth) sao)
include hlegal

theorem yComp_reads (psSao : Sao) (t t' : Nat) :
    ∃ l, Reads (parseSaoComp h bitDepth 0 (psSao, t) : BinReader ρ _)
      (encodeSaoComp h (saoCMax bitDepth) sao 0 t').2 l ∧
      (h.flag 0 = true → (sao.comp 0).Same (l.1 0)) := by
  cases hflag : h.flag 0 with
  | false => exact ⟨_, noComp_reads hflag sao _ t', fun h => nomatch h⟩
  | true =>
    refine ⟨_, typedComp_reads Nat.zero_lt_two hflag (hlegal.comp 0 (by decide) hflag) psSao t t',
      fun _ => ?_⟩
    exact parsedOver_same ..

theorem chromaComps_reads (l : Sao × Nat) (t : Nat) :
    ∃ psSao', Reads
      (do
        let cb ← parseSaoComp h bitDepth 1 l
        let cr ← parseSaoComp h bitDepth 2 cb
        pure cr.1 : BinReader ρ Sao)
      ((encodeSaoComp h (saoCMax bitDepth) sao 1 t).2 ++
        (encodeSaoComp h (saoCMax bitDepth) sao 2
          (encodeSaoComp (ρ := ρ) h (saoCMax bitDepth) sao 1 t).1).2) psSao' ∧
      psSao' 0 = l.1 0 ∧
      (h.flag 1 = true → (sao.comp 1).Same (psSao' 1) ∧ (sao.comp 2).Same (psSao' 2)) := by
  have hflags : h.flag 2 = h.flag 1 := by simp [SaoFlags.flag]
  cases hflag : h.flag 1 with
  | false =>
    have hflag' := hflags.trans hflag
    refine ⟨l.1, ?_, rfl, fun h => nomatch h⟩
    exact (noComp_reads hflag sao l t).bind
      ((noComp_reads hflag' sao l _).bind_nil (Reads.pure _))
  | true =>
    have hflag' := hflags.trans hflag
    have htype := hlegal.chroma hflag
    have hcoded : (encodeSaoComp (ρ := ρ) h (saoCMax bitDepth) sao 1 t).1 =
        (sao.comp 2).b3TypeIdx := by
      simp [encodeSaoComp, hflag, htype]
    have hcb := typedComp_reads (ρ := ρ) Nat.one_lt_two hflag
      (hlegal.comp 1 (by decide) hflag) l.1 l.2 t
    rw [htype] at hcb
    rw [hcoded]
    refine ⟨_, hcb.bind ((crComp_reads hflag' (hlegal.comp 2 (by decide) hflag') ?_).bind_nil
      (Reads.pure _)), rfl, fun _ => ⟨?_, ?_⟩⟩
    · rfl
    · exact parsedOver_same ..
    · exact parsedOver_same ..

/-- What comes without a merge. -/
theorem parseSaoComps_reads (hchroma : fmt ≠ chromaFmtIdcMonochrome) (psSao : Sao) :
    ∃ psSao', Reads (parseSaoComps fmt h bitDepth bitDepth psSao : BinReader ρ Sao)
      (let cMax := saoCMax bitDepth
        let y := encodeSaoComp h cMax sao 0 (sao.comp 0).b3TypeIdx
        let cb := encodeSaoComp h cMax sao 1 y.1
        let cr := encodeSaoComp h cMax sao 2 cb.1
        y.2 ++ (cb.2 ++ cr.2)) psSao' ∧
      SameComps h sao.comp psSao' := by
  obtain ⟨y, hy, hysame⟩ := yComp_reads (ρ := ρ) hlegal psSao 0 (sao.comp 0).b3TypeIdx
  obtain ⟨psSao', hc, hzero, hcsame⟩ := chromaComps_reads (ρ := ρ) hlegal y
    (encodeSaoComp (ρ := ρ) h (saoCMax bitDepth) sao 0 (sao.comp 0).b3TypeIdx).1
  refine ⟨psSao', ?_, fun cIdx hlt hflag => ?_⟩
  · unfold parseSaoComps
    simp only [hchroma, if_true, ne_eq, not_false_eq_true]
    exact hy.bind hc
  · have hflags : h.flag 2 = h.flag 1 := by simp [SaoFlags.flag]
    rcases cIdx with _ | _ | _ | cIdx
    · rw [hzero]
      exact hysame hflag
    · exact (hcsame hflag).1
    · exact (hcsame (hflags ▸ hflag)).2
    · omega

end

/-- A position of the parser in a picture of one slice without tiles. -/
structure AtRaster (pos : CtbPos) (x y : Nat) : Prop where
  ctbX : pos.i4CtbX = x
  ctbY : pos.i4CtbY = y
  tileX : pos.i4CtbTileX = x
  tileY : pos.i4CtbTileY = y
  sliceX : pos.i4CtbSliceX = x
  sliceY : pos.i4CtbSliceY = y

theorem parseSaoMergeFlag_reads {b c : Bool} (hbc : b = c) {flag : Bool}
    (hflag : flag = true → c = true) :
    Reads (parseSaoMergeFlag b : BinReader ρ Bool)
      (if c then [.ctxt ihevcCabSaoMerge flag] else []) flag := by
  subst hbc
  refine Reads.ite_pure (fun _ => decodeBin_reads _ _) fun hb => ?_
  exact Bool.eq_false_iff.mpr fun h => hb (hflag h)

/-- The parameters of a CTB that has the positions of both sides. -/
theorem parseSao_reads {h : SaoFlags} {sao : SaoEnc} {psPicSao : PicSao}
    (hlegal : SaoLegal h (saoCMax bitDepth) sao) (hchroma : fmt ≠ chromaFmtIdcMonochrome)
    (hpos : AtRaster pos x y)
    (hleft : sao.b1SaoMergeLeftFlag = true → 0 < x ∧ SameComps h sao.comp (psPicSao (x - 1) y))
    (hup : sao.b1SaoMergeUpFlag = true → 0 < y ∧ SameComps h sao.comp (psPicSao x (y - 1))) :
    ∃ psSao,
      Reads (ihevcdParseSao fmt h bitDepth bitDepth pos psPicSao : BinReader ρ PicSao)
        (ihevceCabacEncodeSao h bitDepth (0 < x) (0 < y) sao) (psPicSao.setCtb x y psSao) ∧
      SameComps h sao.comp psSao := by
  have hleftFlag : Reads (parseSaoMergeFlag (0 < x ∧ (x ≠ 0 ∨ y ≠ 0) ∧ x ≠ 0) : BinReader ρ Bool)
      (if decide (0 < x) = true then [.ctxt ihevcCabSaoMerge sao.b1SaoMergeLeftFlag] else [])
      sao.b1SaoMergeLeftFlag := by
    refine parseSaoMergeFlag_reads (decide_eq_decide.mpr (by omega)) fun hl => ?_
    exact decide_eq_true (hleft hl).1
  unfold ihevcdParseSao ihevceCabacEncodeSao
  simp only [hpos.ctbX, hpos.ctbY, hpos.tileX, hpos.tileY, hpos.sliceX, hpos.sliceY]
  cases hl : sao.b1SaoMergeLeftFlag with
  | true =>
    rw [hl] at hleftFlag
    refine ⟨psPicSao (x - 1) y, hleftFlag.bind ?_, (hleft hl).2⟩
    simp only [not_true_eq_false, and_false, false_and, if_false, if_true, List.append_nil]
    exact (Reads.pure false).nil_bind (Reads.pure _)
  | false =>
    rw [hl] at hleftFlag
    have hupFlag : Reads (parseSaoMergeFlag (0 < y ∧ ¬ false = true ∧ 0 < y ∧ 0 < y) :
        BinReader ρ Bool)
        (if decide (0 < y) = true then [.ctxt ihevcCabSaoMerge sao.b1SaoMergeUpFlag] else [])
        sao.b1SaoMergeUpFlag := by
      refine parseSaoMergeFlag_reads (decide_eq_decide.mpr (by simp)) fun hu => ?_
      exact decide_eq_true (hup hu).1
    simp only [Bool.false_eq_true, not_false_eq_true, and_true, true_and]
    cases hu : sao.b1SaoMergeUpFlag with
    | true =>
      rw [hu] at hupFlag
      refine ⟨psPicSao x (y - 1), hleftFlag.bind (hupFlag.bind ?_), (hup hu).2⟩
      exact Reads.pure _
    | false =>
      rw [hu] at hupFlag
      obtain ⟨psSao, hcomps, hsame⟩ := parseSaoComps_reads (ρ := ρ) hlegal hchroma fun i =>
        { psPicSao x y i with b3TypeIdx := 0 }
      refine ⟨psSao, hleftFlag.bind (hupFlag.bind ?_), hsame⟩
      exact hcomps.bind_nil (Reads.pure _)

-- ---------------------------------------------------------------------------
-- The positions of both sides
-- ---------------------------------------------------------------------------

/-- The next place in rows of `wd`. -/
theorem succ_mod_div (hwd : 0 < wd) (k : Nat) :
    ((k + 1) % wd, (k + 1) / wd) =
      if k % wd + 1 = wd then (0, k / wd + 1) else (k % wd + 1, k / wd) := by
  have hk := Nat.div_add_mod k wd
  have hlt := Nat.mod_lt k hwd
  split
  case isTrue hend =>
    have hnext : k + 1 = wd * (k / wd + 1) := by
      rw [Nat.mul_succ]
      omega
    rw [hnext, Nat.mul_mod_right, Nat.mul_div_cancel_left _ hwd]
  case isFalse hend =>
    have hnext : k + 1 = wd * (k / wd) + (k % wd + 1) := by omega
    have hin : k % wd + 1 < wd := by omega
    conv_lhs => rw [hnext]
    rw [Nat.mul_add_mod, Nat.mod_eq_of_lt hin, Nat.mul_add_div hwd, Nat.div_eq_of_lt hin,
      Nat.add_zero (k / wd)]

theorem untiled_tile (sps : SpsSize) (i : Nat) :
    (PpsTiles.untiled sps).psTile i =
      { u1PosX := 0, u1PosY := 0, u2Wd := sps.i2PicWdInCtb, u2Ht := sps.i2PicHtInCtb } := by
  have hle := sps.inCtb_le
  unfold PpsTiles.untiled
  rw [Nat.mod_eq_of_lt (by omega), Nat.mod_eq_of_lt (by omega)]

theorem AtRaster.update {sps : SpsSize} {pos : CtbPos}
    (h : AtRaster pos (k % sps.i2PicWdInCtb) (k / sps.i2PicWdInCtb))
    (hk : k + 1 < sps.i2PicWdInCtb * sps.i2PicHtInCtb) :
    AtRaster (pos.update (.untiled sps) sps 0 0) ((k + 1) % sps.i2PicWdInCtb)
      ((k + 1) / sps.i2PicWdInCtb) := by
  have hwd := sps.wdInCtb_pos
  have hnext := succ_mod_div hwd k
  obtain ⟨hctbX, hctbY, htileX, htileY, hsliceX, hsliceY⟩ := h
  have htile := untiled_tile sps
  have hflag : ¬ (PpsTiles.untiled sps).i1TilesEnabledFlag ≠ 0 := fun h => h rfl
  by_cases hend : k % sps.i2PicWdInCtb + 1 = sps.i2PicWdInCtb
  · rw [if_pos hend] at hnext
    obtain ⟨hmod, hdiv⟩ := Prod.mk.inj hnext
    have hrow : k / sps.i2PicWdInCtb + 1 ≠ sps.i2PicHtInCtb := by
      intro h
      have hge := Nat.div_add_mod k sps.i2PicWdInCtb
      rw [← h, Nat.mul_succ] at hk
      omega
    rw [hmod, hdiv]
    constructor <;>
      simp [CtbPos.update, CtbPos.slice, CtbPos.nextRow, htile, hflag, hctbX, hctbY, htileX,
        htileY, hsliceX, hsliceY, hend, hrow]
  · rw [if_neg hend] at hnext
    obtain ⟨hmod, hdiv⟩ := Prod.mk.inj hnext
    rw [hmod, hdiv]
    constructor <;>
      simp [CtbPos.update, CtbPos.slice, htile, hflag, hctbX, hctbY, htileX, htileY, hsliceX,
        hsliceY, hend]

theorem oneSlicePos_atRaster (sps : SpsSize) (hk : k < sps.i2PicWdInCtb * sps.i2PicHtInCtb) :
    AtRaster (oneSlicePos sps k) (k % sps.i2PicWdInCtb) (k / sps.i2PicWdInCtb) := by
  induction k with
  | zero =>
    rw [Nat.zero_mod, Nat.zero_div]
    constructor <;> rfl
  | succ k ih => exact (ih (Nat.lt_of_succ_lt hk)).update hk

theorem ctbSize_pos (sps : SpsSize) : 0 < 1 <<< sps.i1Log2CtbSize := by
  rw [Nat.one_shiftLeft]
  exact Nat.two_pow_pos _

theorem frmPos_eq (sps : SpsSize) (k : Nat) :
    frmPos (1 <<< sps.i1Log2CtbSize) sps.i2PicWidthInLumaSamples k =
      { x0Frm := k % sps.i2PicWdInCtb * (1 <<< sps.i1Log2CtbSize)
        y0Frm := k / sps.i2PicWdInCtb * (1 <<< sps.i1Log2CtbSize) } := by
  have hwd := sps.wdInCtb_pos
  induction k with
  | zero =>
    rw [Nat.zero_mod, Nat.zero_div, Nat.zero_mul]
    rfl
  | succ k ih =>
    have hnext := succ_mod_div hwd k
    have hlt := Nat.mod_lt k hwd
    -- the end of a row on both sides
    have hend : sps.i2PicWidthInLumaSamples ≤
        k % sps.i2PicWdInCtb * (1 <<< sps.i1Log2CtbSize) + (1 <<< sps.i1Log2CtbSize) ↔
        k % sps.i2PicWdInCtb + 1 = sps.i2PicWdInCtb := by
      have hle : sps.i2PicWdInCtb ≤ k % sps.i2PicWdInCtb + 1 ↔ _ :=
        Nat.div_le_iff_le_mul_add_pred (ctbSize_pos sps)
      rw [Nat.mul_succ, Nat.mul_comm] at hle
      omega
    rw [frmPos, ih, FrmPos.next]
    dsimp only
    by_cases h : k % sps.i2PicWdInCtb + 1 = sps.i2PicWdInCtb
    · rw [if_pos h] at hnext
      obtain ⟨hmod, hdiv⟩ := Prod.mk.inj hnext
      rw [if_pos (hend.mpr h), hmod, hdiv, Nat.zero_mul, Nat.succ_mul]
    · rw [if_neg h] at hnext
      obtain ⟨hmod, hdiv⟩ := Prod.mk.inj hnext
      rw [if_neg (hend.not.mpr h), hmod, hdiv, Nat.succ_mul]

theorem left_of (hwd : 0 < wd) (hx : 0 < k % wd) :
    k % wd - 1 = (k - 1) % wd ∧ k / wd = (k - 1) / wd := by
  have hk : 0 < k := Nat.pos_of_ne_zero fun h => by simp [h] at hx
  have hnext := succ_mod_div hwd (k - 1)
  rw [Nat.sub_add_cancel hk] at hnext
  split at hnext
  case isTrue =>
    have hmod := (Prod.mk.inj hnext).1
    omega
  case isFalse =>
    obtain ⟨hmod, hdiv⟩ := Prod.mk.inj hnext
    exact ⟨by omega, hdiv⟩

theorem above_of (hwd : 0 < wd) (hy : 0 < k / wd) :
    k % wd = (k - wd) % wd ∧ k / wd - 1 = (k - wd) / wd := by
  have hk : wd ≤ k := (Nat.div_pos_iff.mp hy).2
  rw [Nat.div_eq_sub_div hwd hk, Nat.add_sub_cancel]
  exact ⟨Nat.mod_eq_sub_mod hk, rfl⟩

-- ---------------------------------------------------------------------------
-- The picture
-- ---------------------------------------------------------------------------

/-- The parameters of the CTBs of a picture, in coding order. -/
structure PicLegal (sps : SpsSize) (h : SaoFlags) (bitDepth : Nat) (sao : Nat → SaoEnc) :
    Prop where
  ctb : ∀ k < sps.i2PicWdInCtb * sps.i2PicHtInCtb, SaoLegal h (saoCMax bitDepth) (sao k)
  left : ∀ k < sps.i2PicWdInCtb * sps.i2PicHtInCtb, (sao k).b1SaoMergeLeftFlag = true →
    0 < k % sps.i2PicWdInCtb ∧ SameComps h (sao k).comp (sao (k - 1)).comp
  up : ∀ k < sps.i2PicWdInCtb * sps.i2PicHtInCtb, (sao k).b1SaoMergeUpFlag = true →
    0 < k / sps.i2PicWdInCtb ∧ SameComps h (sao k).comp (sao (k - sps.i2PicWdInCtb)).comp

/-- The decoder has the parameters of the first `n` CTBs. -/
def HasCtbs (wd : Nat) (h : SaoFlags) (sao : Nat → SaoEnc) (psPicSao : PicSao) (n : Nat) : Prop :=
  ∀ k < n, SameComps h (sao k).comp (psPicSao (k % wd) (k / wd))

theorem HasCtbs.setCtb (h : HasCtbs wd flags sao psPicSao n) {psSao : Sao}
    (hsame : SameComps flags (sao n).comp psSao) :
    HasCtbs wd flags sao (psPicSao.setCtb (n % wd) (n / wd) psSao) (n + 1) := by
  intro k hk
  unfold PicSao.setCtb
  split
  case isTrue hpos =>
    have heq : k = n := by rw [← Nat.div_add_mod k wd, hpos.1, hpos.2, Nat.div_add_mod]
    exact heq ▸ hsame
  case isFalse hpos =>
    refine h k (Nat.lt_of_le_of_ne (Nat.le_of_lt_succ hk) fun heq => hpos ?_)
    rw [heq]
    exact ⟨rfl, rfl⟩

section
variable {sps : SpsSize} {h : SaoFlags} {sao : Nat → SaoEnc}
  (hlegal : PicLegal sps h bitDepth sao) (hchroma : fmt ≠ chromaFmtIdcMonochrome)
include hlegal hchroma

/-- One CTB after those before it. -/
theorem parseCtbSao_reads {psPicSao : PicSao} (hk : k < sps.i2PicWdInCtb * sps.i2PicHtInCtb)
    (hhas : HasCtbs sps.i2PicWdInCtb h sao psPicSao k) :
    ∃ psPicSao',
      Reads (parseCtbSao fmt h bitDepth bitDepth (oneSlicePos sps k) psPicSao :
          BinReader ρ PicSao)
        (encodeCtbSao h bitDepth
          (frmPos (1 <<< sps.i1Log2CtbSize) sps.i2PicWidthInLumaSamples k) (sao k))
        psPicSao' ∧
      HasCtbs sps.i2PicWdInCtb h sao psPicSao' (k + 1) := by
  have hwd := sps.wdInCtb_pos
  unfold parseCtbSao encodeCtbSao
  by_cases hflags : h.i1SliceSaoLumaFlag = true ∨ h.i1SliceSaoChromaFlag = true
  · simp only [if_pos hflags]
    obtain ⟨psSao, hreads, hsame⟩ := parseSao_reads (ρ := ρ)
      (hlegal.ctb k hk) hchroma (oneSlicePos_atRaster sps hk)
      (fun hl => by
        obtain ⟨hx, hcomps⟩ := hlegal.left k hk hl
        obtain ⟨hmod, hdiv⟩ := left_of hwd hx
        have hprev : k - 1 < k := Nat.sub_lt (Nat.pos_of_ne_zero fun h => by simp [h] at hx) one_pos
        rw [hmod, hdiv]
        exact ⟨hx, hcomps.trans (hhas _ hprev)⟩)
      (fun hu => by
        obtain ⟨hy, hcomps⟩ := hlegal.up k hk hu
        obtain ⟨hmod, hdiv⟩ := above_of hwd hy
        have hprev : k - sps.i2PicWdInCtb < k :=
          Nat.sub_lt (Nat.pos_of_ne_zero fun h => by simp [h] at hy) hwd
        refine ⟨hy, hcomps.trans ?_⟩
        rw [hmod, hdiv]
        exact hhas _ hprev)
    have hx : decide (0 < (frmPos (1 <<< sps.i1Log2CtbSize) sps.i2PicWidthInLumaSamples k).x0Frm) =
        decide (0 < k % sps.i2PicWdInCtb) := by
      rw [frmPos_eq, decide_eq_decide]
      exact Nat.mul_pos_iff_of_pos_right (ctbSize_pos sps)
    have hy : decide (0 < (frmPos (1 <<< sps.i1Log2CtbSize) sps.i2PicWidthInLumaSamples k).y0Frm) =
        decide (0 < k / sps.i2PicWdInCtb) := by
      rw [frmPos_eq, decide_eq_decide]
      exact Nat.mul_pos_iff_of_pos_right (ctbSize_pos sps)
    rw [hx, hy]
    exact ⟨_, hreads, hhas.setCtb hsame⟩
  · simp only [if_neg hflags]
    refine ⟨psPicSao, Reads.pure psPicSao, fun j _ cIdx _ hflag => ?_⟩
    -- no component is coded
    simp only [SaoFlags.flag, Bool.or_eq_true, Bool.and_eq_true] at hflag
    exact absurd (hflag.imp And.left And.left) hflags

/-- The first `n` CTBs, one after the other. -/
theorem ctbs_read (psPicSao : PicSao) (hn : n ≤ sps.i2PicWdInCtb * sps.i2PicHtInCtb) :
    ∃ run : Nat → PicSao, run 0 = psPicSao ∧
      (∀ k < n, Reads (parseCtbSao fmt h bitDepth bitDepth (oneSlicePos sps k) (run k) :
          BinReader ρ PicSao)
        (encodeCtbSao h bitDepth
          (frmPos (1 <<< sps.i1Log2CtbSize) sps.i2PicWidthInLumaSamples k) (sao k))
        (run (k + 1))) ∧
      HasCtbs sps.i2PicWdInCtb h sao (run n) n := by
  induction n with
  | zero => exact ⟨fun _ => psPicSao, rfl, fun k hk => absurd hk (Nat.not_lt_zero k),
      fun k hk => absurd hk (Nat.not_lt_zero k)⟩
  | succ n ih =>
    obtain ⟨run, hzero, hreads, hhas⟩ := ih (Nat.le_of_succ_le hn)
    obtain ⟨next, hnext, hhas'⟩ := parseCtbSao_reads (ρ := ρ) hlegal hchroma hn hhas
    refine ⟨Function.update run (n + 1) next, ?_, fun k hk => ?_, ?_⟩
    · rw [Function.update_of_ne (Nat.succ_ne_zero n).symm, hzero]
    · rw [Function.update_of_ne (Nat.ne_of_lt hk)]
      by_cases hkn : k = n
      · subst hkn
        rw [Function.update_self]
        exact hnext
      · have hlt : k < n := Nat.lt_of_le_of_ne (Nat.le_of_lt_succ hk) hkn
        rw [Function.update_of_ne (Nat.ne_of_lt (Nat.succ_lt_succ hlt))]
        exact hreads k hlt
    · rw [Function.update_self]
      exact hhas'

/-- The decoder gets the SAO parameters of each CTB, and takes just the bins of them. -/
theorem sao_round_trip (psPicSao : PicSao) :
    ∃ run : Nat → PicSao, run 0 = psPicSao ∧
      (∀ k < sps.i2PicWdInCtb * sps.i2PicHtInCtb,
        Reads (parseCtbSao fmt h bitDepth bitDepth (oneSlicePos sps k) (run k) :
            BinReader ρ PicSao)
          (encodeCtbSao h bitDepth
            (frmPos (1 <<< sps.i1Log2CtbSize) sps.i2PicWidthInLumaSamples k) (sao k))
          (run (k + 1))) ∧
      ∀ k < sps.i2PicWdInCtb * sps.i2PicHtInCtb, ∀ cIdx < 3, h.flag cIdx = true →
        ((sao k).comp cIdx).Same
          (run (sps.i2PicWdInCtb * sps.i2PicHtInCtb)
            (k % sps.i2PicWdInCtb) (k / sps.i2PicWdInCtb) cIdx) :=
  ctbs_read hlegal hchroma psPicSao (Nat.le_refl _)

end

/-- Two CTBs beside each other, twice. -/
def fourCtbs : SpsSize where
  i2PicWidthInLumaSamples := 32
  i2PicHeightInLumaSamples := 30
  i1Log2CtbSize := 4
  width_pos := by decide
  width_le := by decide
  height_pos := by decide
  height_le := by decide
  log2CtbSize_ge := by decide
  log2CtbSize_le := SpsSize.log2_le

/-- An edge class, the same on the right and below, and then a band. -/
def fourSaos (k : Nat) : SaoEnc where
  comp _ :=
    if k = 3 then { b3TypeIdx := 1, b5BandPos := 9, offset := [-3, 0, 7, -7] }
    else { b3TypeIdx := 4, b5BandPos := 0, offset := [2, 1, 0, -5] }
  b1SaoMergeLeftFlag := k = 1
  b1SaoMergeUpFlag := k = 2

theorem fourSaos_legal (h : SaoFlags) : PicLegal fourCtbs h 8 fourSaos where
  ctb k hk := by
    refine ⟨fun cIdx _ _ => ?_, fun _ => rfl⟩
    by_cases h3 : k = 3
    · simp only [fourSaos, h3, if_true]
      exact ⟨by decide, by decide, rfl, by decide, by decide⟩
    · simp only [fourSaos, h3, if_false]
      exact ⟨by decide, by decide, rfl, by decide, by decide⟩
  left k hk hl := by
    obtain rfl : k = 1 := of_decide_eq_true hl
    exact ⟨by decide, fun _ _ _ => SaoComp.Same.refl _⟩
  up k hk hu := by
    obtain rfl : k = 2 := of_decide_eq_true hu
    exact ⟨by decide, fun _ _ _ => SaoComp.Same.refl _⟩

theorem sao_round_trip_four :
    ∃ run : Nat → PicSao, (∀ k < 4,
      Reads (parseCtbSao 1 ⟨true, true⟩ 8 8 (oneSlicePos fourCtbs k) (run k) :
          BinReader Empty PicSao)
        (encodeCtbSao ⟨true, true⟩ 8 (frmPos 16 32 k) (fourSaos k)) (run (k + 1))) ∧
      ∀ k < 4, ∀ cIdx < 3, ((fourSaos k).comp cIdx).Same (run 4 (k % 2) (k / 2) cIdx) := by
  obtain ⟨run, _, hreads, hsame⟩ := sao_round_trip (ρ := Empty)
    (fourSaos_legal ⟨true, true⟩)
    (show 1 ≠ chromaFmtIdcMonochrome by decide) fun _ _ _ => ⟨0, 0, []⟩
  refine ⟨run, hreads, fun k hk cIdx hc => hsame k hk cIdx hc ?_⟩
  cases cIdx <;> rfl

end Libhevc.RoundTrip
