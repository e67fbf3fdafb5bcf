import Libhevc.Common.Motion
import Libhevc.Common.Platform
import Libhevc.Decoder.Tiles

/-!
# The state of CABAC in `ihevcd_parse_slice_data`

Context models, Rice statistics and their copies for wavefronts, from the start of
a slice segment through the loop over its CTBs. CTBs are numbered in decoding
order. What is parsed of a CTB is a parameter.
-/

namespace Libhevc.Decoder

/-- The models and statistics of `cab_ctxt_t`. -/
structure CabModels where
  au1CtxtModels : List Nat
  ai4RiceStatCoeff : List Int
  au1CtxtModelsSync : List Nat
  ai4RiceStatCoeffSync : List Int

/-- What `ihevcd_cabac_init` does to them; statistics are not touched where the pointer is `NULL`. -/
def cabacInitModels (pu1InitCtxt : List Nat) (pi4RiceStatCoeff : Option (List Int))
    (psCabac : CabModels) : CabModels :=
  { psCabac with
    au1CtxtModels := pu1InitCtxt
    ai4RiceStatCoeff := pi4RiceStatCoeff.getD psCabac.ai4RiceStatCoeff }

/-- The header of a slice segment. -/
structure SegmentHdr where
  i1DependentSliceFlag : Bool
  i2CtbX : Nat
  i2CtbY : Nat
  i1SliceType : SliceType
  i1CabacInitFlag : Bool
  i1SliceQpDelta : Int
  deriving DecidableEq, Repr

/-- A dependent segment copies the header before it, all but what it reads itself. -/
def SegmentHdr.parsed (prev hdr : SegmentHdr) : SegmentHdr :=
  if hdr.i1DependentSliceFlag then
    { prev with
      i1DependentSliceFlag := true
      i2CtbX := hdr.i2CtbX
      i2CtbY := hdr.i2CtbY }
  else hdr

/-- What the entropy decoder takes from parameter sets, and its tables. -/
structure EntropySetup where
  pps : PpsTiles
  sps : SpsSize
  i1EntropyCodingSyncEnabledFlag : Bool
  i1PersistentRiceAdaptationEnabledFlag : Bool
  i1PicInitQp : Int
  i4QpBdOffsetY : Nat
  gau1IhevcCabCtxts : Nat → Nat → List Nat

def SegmentHdr.cabacInitIdc (hdr : SegmentHdr) : Nat :=
  if hdr.i1SliceType = .islice then 0
  else if hdr.i1SliceType = .pslice then if hdr.i1CabacInitFlag then 2 else 1
  else if hdr.i1CabacInitFlag then 1 else 2

def EntropySetup.sliceQp (e : EntropySetup) (hdr : SegmentHdr) : Int :=
  clip3 (hdr.i1SliceQpDelta + e.i1PicInitQp) (-e.i4QpBdOffsetY) 51

/-- The statistics, where the SPS has them persist. -/
def EntropySetup.persistent (e : EntropySetup) (stats : List Int) : Option (List Int) :=
  if e.i1PersistentRiceAdaptationEnabledFlag then some stats else none

/-- The initialization from the tables. -/
def EntropySetup.tableInit (e : EntropySetup) (hdr : SegmentHdr) (psCabac : CabModels) : CabModels :=
  let cabacInitQp := clip3 (e.sliceQp hdr) 0 51
  cabacInitModels (e.gau1IhevcCabCtxts hdr.cabacInitIdc cabacInitQp.toNat)
    (e.persistent [0, 0, 0, 0]) psCabac

/-- `ihevcd_get_tile_pos` at the CTB, and the tile it is in. -/
def CtbPos.setTile (pps : PpsTiles) (sps : SpsSize) (p : CtbPos) : CtbPos :=
  let tilePos := ihevcdGetTilePos pps sps p.i4CtbX p.i4CtbY
  { p with i4CtbTileX := tilePos.1, i4CtbTileY := tilePos.2.1, psTile := tilePos.2.2 }

def CtbPos.atTileStart (p : CtbPos) : Bool := p.i4CtbTileX = 0 ∧ p.i4CtbTileY = 0

/-- The state of the parser between CTBs. -/
structure SliceData where
  pos : CtbPos
  hdr : SegmentHdr
  cabac : CabModels

/-- The position at the start of a slice segment. -/
def SegmentHdr.startPos (e : EntropySetup) (hdr : SegmentHdr) (p : CtbPos) : CtbPos :=
  let p := { p with i4CtbX := hdr.i2CtbX, i4CtbY := hdr.i2CtbY }.setTile e.pps e.sps
  let p :=
    if hdr.i1DependentSliceFlag = false ∨ p.atTileStart then
      { p with i4CtbSliceX := 0, i4CtbSliceY := 0 }
    else p
  -- frame level
  if p.i4CtbY = 0 ∧ p.i4CtbX = 0 then { p with i4CtbTileX := 0, i4CtbTileY := 0 } else p

/-- The start of a slice segment. -/
def SliceData.startSegment (e : EntropySetup) (s : SliceData) (hdr : SegmentHdr) : SliceData :=
  let hdr := s.hdr.parsed hdr
  let pos := hdr.startPos e s.pos
  let psCabac :=
    -- `ihevcd_cabac_reset` leaves the models as they are
    if hdr.i1DependentSliceFlag = true ∧ pos.atTileStart = false then s.cabac
    else if e.i1EntropyCodingSyncEnabledFlag = false ∨ pos.i4CtbX ≠ 0 then
      e.tableInit hdr s.cabac
    else s.cabac
  { pos, hdr, cabac := psCabac }

/-- The slice-relative row at the start of a tile, for a slice that began in a tile before it. -/
def SegmentHdr.sliceYAtTile (e : EntropySetup) (hdr : SegmentHdr) (psTile psTilePrev : Tile) : Nat :=
  let sliceY := psTile.u1PosY - hdr.i2CtbY
  if (hdr.i2CtbX + psTilePrev.u2Wd) % e.sps.i2PicWdInCtb ≠ psTile.u1PosX ∧
      hdr.i2CtbY ≤ psTile.u1PosY ∧ psTile.u1PosX < hdr.i2CtbX then
    sliceY - 1
  else sliceY

/-- The start of a tile that is not the start of a slice. -/
def SliceData.startTile (e : EntropySetup) (s : SliceData) : SliceData :=
  let tile := e.pps.psTile s.pos.psTile
  if s.pos.atTileStart = true ∧ ¬(tile.u1PosX = 0 ∧ tile.u1PosY = 0) ∧
      ¬(s.pos.i4CtbSliceX = 0 ∧ s.pos.i4CtbSliceY = 0) then
    let pos := s.pos.setTile e.pps e.sps
    let tileStartCtbIdx := tile.u1PosX + tile.u1PosY * e.sps.i2PicWdInCtb
    let sliceStartCtbIdx := s.hdr.i2CtbX + s.hdr.i2CtbY * e.sps.i2PicWdInCtb
    let pos :=
      if sliceStartCtbIdx < tileStartCtbIdx then
        { pos with
          i4CtbSliceY := s.hdr.sliceYAtTile e tile (e.pps.psTile (s.pos.psTile - 1)) }
      else pos
    { s with pos, cabac := e.tableInit s.hdr s.cabac }
  else s

/-- The start of a CTB row with wavefronts. -/
def SliceData.startRow (e : EntropySetup) (s : SliceData) : SliceData :=
  if e.i1EntropyCodingSyncEnabledFlag = true ∧ s.pos.i4CtbX = 0 then
    if (s.pos.i4CtbSliceY = 0 ∧ s.hdr.i1DependentSliceFlag = false) ∨ e.sps.i2PicWdInCtb = 1 then
      { s with cabac := e.tableInit s.hdr s.cabac }
    else
      { s with
        cabac := cabacInitModels s.cabac.au1CtxtModelsSync
          (e.persistent s.cabac.ai4RiceStatCoeffSync) s.cabac }
  else s

/-- Up to where a CTB is parsed; a slice segment may begin with it. -/
def SliceData.startCtb (e : EntropySetup) (segment : Option SegmentHdr) (s : SliceData) :
    SliceData :=
  ((segment.elim s (s.startSegment e)).startTile e).startRow e

/-- What the syntax of each CTB makes of context models, and of statistics where they persist. -/
structure CtuParser where
  ctxtModels : Nat → List Nat → Option (List Int) → List Nat
  statCoeff : Nat → List Nat → List Int → List Int

/-- The parsing of CTB `k`. -/
def CabModels.parseCtb (e : EntropySetup) (parser : CtuParser) (k : Nat) (psCabac : CabModels) :
    CabModels :=
  { psCabac with
    au1CtxtModels :=
      parser.ctxtModels k psCabac.au1CtxtModels (e.persistent psCabac.ai4RiceStatCoeff)
    ai4RiceStatCoeff :=
      if e.i1PersistentRiceAdaptationEnabledFlag then
        parser.statCoeff k psCabac.au1CtxtModels psCabac.ai4RiceStatCoeff
      else psCabac.ai4RiceStatCoeff }

/-- The copy for the row below. -/
def CabModels.backUp (psCabac : CabModels) : CabModels :=
  { psCabac with
    au1CtxtModelsSync := psCabac.au1CtxtModels
    ai4RiceStatCoeffSync := psCabac.ai4RiceStatCoeff }

/-- The rest of CTB `k`. -/
def SliceData.endCtb (e : EntropySetup) (parser : CtuParser) (k : Nat) (s : SliceData) :
    SliceData :=
  let psCabac := s.cabac.parseCtb e parser k
  let psCabac :=
    if (e.pps.i1TilesEnabledFlag ≠ 0 ∨ e.i1EntropyCodingSyncEnabledFlag = true) ∧
        s.pos.i4CtbX = 1 then
      psCabac.backUp
    else psCabac
  { s with pos := s.pos.update e.pps e.sps s.hdr.i2CtbX s.hdr.i2CtbY, cabac := psCabac }

/-- The state after `k` CTBs of a picture; `segments` are the slice segments by their first CTB. -/
def SliceData.run (e : EntropySetup) (parser : CtuParser) (segments : Nat → Option SegmentHdr)
    (s : SliceData) : Nat → SliceData
  | 0 => s
  | k + 1 => ((s.run e parser segments k).startCtb e (segments k)).endCtb e parser k

/-- The state when the parsing of CTB `k` begins. -/
def SliceData.atCtb (e : EntropySetup) (parser : CtuParser) (segments : Nat → Option SegmentHdr)
    (s : SliceData) (k : Nat) : SliceData :=
  (s.run e parser segments k).startCtb e (segments k)

end Libhevc.Decoder
