import Libhevc.Common.Sao
import Libhevc.Decoder.Bins
import Libhevc.Decoder.Tiles

/-!
# SAO syntax of the decoder

`ihevcd_parse_sao`, and its call in `ihevcd_parse_slice_data`.
-/

namespace Libhevc.Decoder

/-- `sao_t`: y, cb and cr by `c_idx`. -/
abbrev Sao := Nat → SaoComp

/-- `ps_pic_sao`, by the position of the CTB. -/
abbrev PicSao := Nat → Nat → Sao

/-- `sao_type_idx` -/
def parseSaoType : BinReader ρ Nat := do
  let saoTypeIdx ← decodeBin ihevcCabSaoType
  if saoTypeIdx then do
    let bin ← decodeBypassBin
    pure (1 + bin.toNat)
  else pure 0

def parseSaoAbs (cMax saoTypeIdx : Nat) : BinReader ρ (List Int) :=
  (List.range 4).mapM fun i => do
    let offset ← ihevcdCabacDecodeBypassBinsTunary cMax
    pure (if saoTypeIdx = 2 ∧ 1 < i then -(offset : Int) else offset)

def parseSaoSigns (offset : List Int) : BinReader ρ (List Int) :=
  offset.mapM fun offset =>
    if offset ≠ 0 then do
      let value ← decodeBypassBin
      pure (if value then -offset else offset)
    else pure offset

/-- What is behind a type that is not 0: the offsets, the band position, the edge class. -/
def parseSaoOffsets (cMax cIdx saoTypeIdx : Nat) : BinReader ρ (List Int × Nat × Nat) := do
  let offset ← parseSaoAbs cMax saoTypeIdx
  if saoTypeIdx = 1 then do
    let offset ← parseSaoSigns offset
    let saoBandPosition ← decodeBypassBins 5 0
    pure (offset, saoBandPosition, 0)
  else do
    let value ← if cIdx = 0 ∨ cIdx = 1 then decodeBypassBins 2 0 else pure 0
    pure (offset, 0, value)

/-- The components whose type is that of `c_idx`. -/
def sharesType (cIdx i : Nat) : Bool := i = cIdx ∨ (cIdx = 1 ∧ i = 2)

/-- One component: the parameters so far, and the type of the iteration before. -/
def parseSaoComp (h : SaoFlags) (bitDepth cIdx : Nat) (l : Sao × Nat) : BinReader ρ (Sao × Nat) :=
  if h.flag cIdx then do
    let saoTypeIdx ← if cIdx < 2 then parseSaoType else pure l.2
    let psSao : Sao := fun i =>
      if cIdx < 2 ∧ sharesType cIdx i then { l.1 i with b3TypeIdx := saoTypeIdx } else l.1 i
    if saoTypeIdx ≠ 0 then do
      let (offset, saoBandPosition, value) ← parseSaoOffsets (saoCMax bitDepth) cIdx saoTypeIdx
      let psSao : Sao := fun i =>
        if cIdx < 2 ∧ sharesType cIdx i then
          { psSao i with b3TypeIdx := (psSao i).b3TypeIdx + value }
        else psSao i
      pure (fun i =>
        if i = cIdx then { psSao i with offset, b5BandPos := saoBandPosition } else psSao i,
        saoTypeIdx)
    else pure (psSao, saoTypeIdx)
  else pure l

/-- `CHROMA_FMT_IDC_MONOCHROME` -/
def chromaFmtIdcMonochrome : Nat := 0

/-- A merge flag, which is 0 where it is not in the stream. -/
def parseSaoMergeFlag (present : Bool) : BinReader ρ Bool :=
  if present then decodeBin ihevcCabSaoMerge else pure false

/-- The loop over the components. -/
def parseSaoComps (i1ChromaFormatIdc : Nat) (h : SaoFlags) (bitDepthLuma bitDepthChroma : Nat)
    (psSao : Sao) : BinReader ρ Sao := do
  let y ← parseSaoComp h bitDepthLuma 0 (psSao, 0)
  if i1ChromaFormatIdc ≠ chromaFmtIdcMonochrome then do
    let cb ← parseSaoComp h bitDepthChroma 1 y
    let cr ← parseSaoComp h bitDepthChroma 2 cb
    pure cr.1
  else pure y.1

/-- `ps_pic_sao` with the entry of one CTB replaced. -/
def PicSao.setCtb (psPicSao : PicSao) (rx ry : Nat) (psSao : Sao) : PicSao :=
  fun x y => if x = rx ∧ y = ry then psSao else psPicSao x y

def ihevcdParseSao (i1ChromaFormatIdc : Nat) (h : SaoFlags) (bitDepthLuma bitDepthChroma : Nat)
    (pos : CtbPos) (psPicSao : PicSao) : BinReader ρ PicSao := do
  let rx := pos.i4CtbX
  let ry := pos.i4CtbY
  -- default values
  let psSao : Sao := fun i => { psPicSao rx ry i with b3TypeIdx := 0 }
  let saoMergeLeftFlag ← parseSaoMergeFlag
    (0 < rx ∧ (pos.i4CtbSliceX ≠ 0 ∨ pos.i4CtbSliceY ≠ 0) ∧ pos.i4CtbTileX ≠ 0)
  let saoMergeUpFlag ← parseSaoMergeFlag
    (0 < ry ∧ ¬ saoMergeLeftFlag ∧ 0 < pos.i4CtbSliceY ∧ 0 < pos.i4CtbTileY)
  if saoMergeLeftFlag then pure (psPicSao.setCtb rx ry (psPicSao (rx - 1) ry))
  else if saoMergeUpFlag then pure (psPicSao.setCtb rx ry (psPicSao rx (ry - 1)))
  else do
    let psSao ← parseSaoComps i1ChromaFormatIdc h bitDepthLuma bitDepthChroma psSao
    pure (psPicSao.setCtb rx ry psSao)

/-- The part of `ihevcd_parse_slice_data` for one CTB, as long as there is no error. -/
def parseCtbSao (i1ChromaFormatIdc : Nat) (h : SaoFlags) (bitDepthLuma bitDepthChroma : Nat)
    (pos : CtbPos) (psPicSao : PicSao) : BinReader ρ PicSao :=
  if h.i1SliceSaoLumaFlag ∨ h.i1SliceSaoChromaFlag then
    ihevcdParseSao i1ChromaFormatIdc h bitDepthLuma bitDepthChroma pos psPicSao
  else pure psPicSao

/-- The PPS of a picture without tiles, as `ihevcd_parse_pps` sets it. -/
def PpsTiles.untiled (sps : SpsSize) : PpsTiles where
  i1TilesEnabledFlag := 0
  i1NumTileColumns := 1
  i1NumTileRows := 1
  psTile _ :=
    { u1PosX := 0, u1PosY := 0
      u2Wd := sps.i2PicWdInCtb % 2 ^ 16, u2Ht := sps.i2PicHtInCtb % 2 ^ 16 }

/-- CTB `k` of a picture of one slice without tiles. -/
def oneSlicePos (sps : SpsSize) (k : Nat) : CtbPos :=
  ctbPos (.untiled sps) sps (fun _ => (0, 0)) k

end Libhevc.Decoder
