import Libhevc.Decoder.Bitstream

/-!
# Tiles and the position of the parser

The tile syntax of `ihevcd_parse_pps`, `ihevcd_get_tile_pos`, and the position
update at the end of the loop of `ihevcd_parse_slice_data`.
-/

namespace Libhevc.Decoder

open Memory

/-- The picture size of an SPS, within what `ihevcd_parse_sps` lets through. -/
structure SpsSize where
  i2PicWidthInLumaSamples : Nat
  i2PicHeightInLumaSamples : Nat
  i1Log2CtbSize : Nat
  width_pos : 0 < i2PicWidthInLumaSamples
  width_le : i2PicWidthInLumaSamples ≤ 32767
  height_pos : 0 < i2PicHeightInLumaSamples
  height_le : i2PicHeightInLumaSamples ≤ 32767
  log2CtbSize_ge : 4 ≤ i1Log2CtbSize
  log2CtbSize_le : i1Log2CtbSize ≤ 6

-- the bounds of the pictures that examples share

theorem SpsSize.pos_64 : 0 < 64 := by decide

theorem SpsSize.le_64 : 64 ≤ 32767 := by decide

theorem SpsSize.pos_128 : 0 < 128 := by decide

theorem SpsSize.le_128 : 128 ≤ 32767 := by decide

theorem SpsSize.log2_le : 4 ≤ 6 := by decide

theorem SpsSize.log2_max : 6 ≤ 6 := by decide

def SpsSize.i2PicWdInCtb (sps : SpsSize) : Nat :=
  (sps.i2PicWidthInLumaSamples + ((1 <<< sps.i1Log2CtbSize) - 1)) / (1 <<< sps.i1Log2CtbSize)

def SpsSize.i2PicHtInCtb (sps : SpsSize) : Nat :=
  (sps.i2PicHeightInLumaSamples + ((1 <<< sps.i1Log2CtbSize) - 1)) / (1 <<< sps.i1Log2CtbSize)

/-- `tile_t` -/
structure Tile where
  u1PosX : Nat
  u1PosY : Nat
  u2Wd : Nat
  u2Ht : Nat
  deriving DecidableEq, Repr

/-- The tiles of a PPS. -/
structure PpsTiles where
  i1TilesEnabledFlag : Nat
  i1NumTileColumns : Nat
  i1NumTileRows : Nat
  psTile : Nat → Tile

/-- Along a side of `size` CTBs the picture is too large for positions of eight bits. -/
def SpsSize.tooLarge (sps : SpsSize) (log2CtbSize size : Nat) : Bool :=
  sps.i1Log2CtbSize = log2CtbSize ∧
    (size ≤ sps.i2PicWidthInLumaSamples ∨ size ≤ sps.i2PicHeightInLumaSamples)

/-- The size of part `i` of `num`, of a side of `size` CTBs of which `start` are taken. -/
def tileValue (uniformSpacingFlag num size i start : Nat) (s : Bitstrm) :
    Except IhevcdErrorT (Nat × Bitstrm) :=
  if uniformSpacingFlag = 0 then
    if i < num - 1 then
      let get := ihevcdUev s
      let value := u32 (get.1 + 1)
      if u32Sub size start ≤ value then .error .invalidHeader else .ok (value, get.2)
    else .ok (u32Sub size start, s)
  else .ok ((i + 1) * size / num - i * size / num, s)

/-- The loop over the `n` last tile columns, or rows; `put` fills their tiles. -/
def tileLoop (uniformSpacingFlag num size : Nat)
    (put : Nat → Nat → Nat → (Nat → Tile) → Nat → Tile) :
    Nat → Nat → (Nat → Tile) → Bitstrm → Except IhevcdErrorT ((Nat → Tile) × Bitstrm)
  | 0, _, psTile, s => .ok (psTile, s)
  | n + 1, start, psTile, s => do
    let i := num - (n + 1)
    let (value, s) ← tileValue uniformSpacingFlag num size i start s
    let psTile := put i start value psTile
    let start := u32 (start + value)
    if size < start ∨ value = 0 then .error .invalidHeader
    else tileLoop uniformSpacingFlag num size put n start psTile s

def Tile.setColumn (start value : Nat) (tile : Tile) : Tile :=
  { tile with u1PosX := start % 2 ^ 8, u2Wd := value % 2 ^ 16 }

def Tile.setRow (start value : Nat) (tile : Tile) : Tile :=
  { tile with u1PosY := start % 2 ^ 8, u2Ht := value % 2 ^ 16 }

/-- The inner loop of the tile columns. -/
def putColumn (numCols numRows i start value : Nat) (psTile : Nat → Tile) : Nat → Tile :=
  (List.range numRows).foldl (fun psTile j =>
    set psTile (j * numCols + i) ((psTile (j * numCols + i)).setColumn start value)) psTile

/-- The inner loop of the tile rows. -/
def putRow (numCols i start value : Nat) (psTile : Nat → Tile) : Nat → Tile :=
  (List.range numCols).foldl (fun psTile j =>
    set psTile (i * numCols + j) ((psTile (i * numCols + j)).setRow start value)) psTile

def align64 (x : Nat) : Nat := (x + 63) >>> 6 <<< 6

def minTileWd : Nat := 64

def minTileHt : Nat := 64

/-- The part of `ihevcd_parse_pps` from `tiles_enabled_flag` to the flag behind the tiles. -/
def parseTiles (sps : SpsSize) (i4Wd i4Ht : Nat) (psTile : Nat → Tile) (s : Bitstrm) :
    Except IhevcdErrorT (PpsTiles × Bitstrm) := do
  let (tilesEnabledFlag, s) := ihevcdBitsGet s 1
  if tilesEnabledFlag ≠ 0 ∧
      (sps.tooLarge 4 4096 ∨ sps.tooLarge 5 8192 ∨ sps.tooLarge 6 16384) then
    .error .invalidHeader
  else
    let (_, s) := ihevcdBitsGet s 1 -- entropy_coding_sync_enabled_flag
    if tilesEnabledFlag ≠ 0 then
      let maxTileCols := (align64 i4Wd + minTileWd - 1) / minTileWd
      let maxTileRows := (align64 i4Ht + minTileHt - 1) / minTileHt
      let (value, s) := ihevcdUev s
      let i1NumTileColumns := i8 (value + 1)
      let (value, s) := ihevcdUev s
      let i1NumTileRows := i8 (value + 1)
      if i1NumTileColumns < 1 ∨ maxTileCols < i1NumTileColumns ∨
          i1NumTileRows < 1 ∨ maxTileRows < i1NumTileRows then
        .error .invalidHeader
      else
        let numCols := i1NumTileColumns.toNat
        let numRows := i1NumTileRows.toNat
        let (uniformSpacingFlag, s) := ihevcdBitsGet s 1
        let (psTile, s) ← tileLoop uniformSpacingFlag numCols sps.i2PicWdInCtb
          (putColumn numCols numRows) numCols 0 psTile s
        let (psTile, s) ← tileLoop uniformSpacingFlag numRows sps.i2PicHtInCtb
          (putRow numCols) numRows 0 psTile s
        let (_, s) := ihevcdBitsGet s 1 -- loop_filter_across_tiles_enabled_flag
        .ok ({ i1TilesEnabledFlag := tilesEnabledFlag, i1NumTileColumns := numCols,
               i1NumTileRows := numRows, psTile }, s)
    else
      let tile :=
        { u1PosX := 0, u1PosY := 0
          u2Wd := sps.i2PicWdInCtb % 2 ^ 16, u2Ht := sps.i2PicHtInCtb % 2 ^ 16 }
      .ok ({ i1TilesEnabledFlag := 0, i1NumTileColumns := 1, i1NumTileRows := 1,
             psTile := set psTile 0 tile }, s)

/-- The search of `ihevcd_get_tile_pos` along one side: the part of `num` that holds `pos`, from
part `i` on; the last part looked at if none does. -/
def findPart (num size pos : Nat) (partStart : Nat → Nat) : Nat → Nat × Nat
  | 0 => (0, num - 1)
  | n + 1 =>
    let i := num - (n + 1)
    let next := if num - 1 = i then size else partStart (i + 1)
    if partStart i ≤ pos ∧ pos < next then (i, i) else findPart num size pos partStart n

/-- `ihevcd_get_tile_pos` at a position in the picture: the CTB in its tile, and the tile. -/
def ihevcdGetTilePos (pps : PpsTiles) (sps : SpsSize) (ctbX ctbY : Nat) : Nat × Nat × Nat :=
  if pps.i1TilesEnabledFlag = 0 then (ctbX, ctbY, 0)
  else
    let cols := pps.i1NumTileColumns
    let rows := pps.i1NumTileRows
    let col := findPart cols sps.i2PicWdInCtb ctbX (fun i => (pps.psTile i).u1PosX) cols
    let row := findPart rows sps.i2PicHtInCtb ctbY (fun i => (pps.psTile (i * cols)).u1PosY) rows
    (ctbX - (pps.psTile col.2).u1PosX, ctbY - (pps.psTile (row.2 * cols)).u1PosY,
      row.1 * cols + col.1)

/-- What the loop of `ihevcd_parse_slice_data` knows of its position. -/
structure CtbPos where
  i4CtbX : Nat
  i4CtbY : Nat
  i4CtbTileX : Nat
  i4CtbTileY : Nat
  psTile : Nat
  i4CtbSliceX : Nat
  i4CtbSliceY : Nat
  i4NextCtbIndx : Nat
  endOfPic : Nat
  deriving DecidableEq, Repr

/-- The slice-relative position at the end of a CTB; the slice began at `(i2CtbX, i2CtbY)`. -/
def CtbPos.slice (pps : PpsTiles) (sps : SpsSize) (i2CtbX i2CtbY : Nat) (p : CtbPos) : CtbPos :=
  let tile := pps.psTile p.psTile
  if pps.i1TilesEnabledFlag ≠ 0 then
    let tileStartCtbIdx := tile.u1PosX + tile.u1PosY * sps.i2PicWdInCtb
    let sliceStartCtbIdx := i2CtbX + i2CtbY * sps.i2PicWdInCtb
    if sliceStartCtbIdx < tileStartCtbIdx then
      if p.i4CtbSliceX = tile.u1PosX + tile.u2Wd then
        { p with i4CtbSliceY := p.i4CtbSliceY + 1, i4CtbSliceX := tile.u1PosX }
      else p
    else if p.i4CtbSliceX = tile.u2Wd then
      { p with i4CtbSliceY := p.i4CtbSliceY + 1, i4CtbSliceX := 0 }
    else p
  else if p.i4CtbSliceX = tile.u2Wd then
    { p with i4CtbSliceY := p.i4CtbSliceY + 1, i4CtbSliceX := 0 }
  else p

/-- The position behind the row of a tile: the next row, the next tile, or the end. -/
def CtbPos.nextRow (pps : PpsTiles) (sps : SpsSize) (p : CtbPos) : CtbPos :=
  let tile := pps.psTile p.psTile
  let p :=
    { p with
      i4CtbTileX := 0
      i4CtbX := tile.u1PosX
      i4CtbTileY := p.i4CtbTileY + 1
      i4CtbY := p.i4CtbY + 1 }
  if p.i4CtbTileY = tile.u2Ht then
    let p := { p with i4CtbTileY := 0, i4CtbTileX := 0, psTile := p.psTile + 1 }
    if tile.u2Ht + tile.u1PosY = sps.i2PicHtInCtb ∧ tile.u2Wd + tile.u1PosX = sps.i2PicWdInCtb then
      { p with endOfPic := 1, i4CtbX := 0, i4CtbY := sps.i2PicHtInCtb }
    else
      let tile := pps.psTile p.psTile
      { p with
        i4CtbX := tile.u1PosX
        i4CtbY := tile.u1PosY
        i4CtbSliceX := tile.u1PosX
        i4CtbSliceY := tile.u1PosY }
  else p

/-- The position update at the end of a CTB. -/
def CtbPos.update (pps : PpsTiles) (sps : SpsSize) (i2CtbX i2CtbY : Nat) (p : CtbPos) : CtbPos :=
  let p :=
    { p with
      endOfPic := 0
      i4CtbTileX := p.i4CtbTileX + 1
      i4CtbX := p.i4CtbX + 1
      i4CtbSliceX := p.i4CtbSliceX + 1 }
  let p := p.slice pps sps i2CtbX i2CtbY
  let p := if p.i4CtbTileX = (pps.psTile p.psTile).u2Wd then p.nextRow pps sps else p
  { p with i4NextCtbIndx := p.i4CtbX + p.i4CtbY * sps.i2PicWdInCtb }

/-- CTB 0 -/
def CtbPos.first : CtbPos :=
  { i4CtbX := 0, i4CtbY := 0, i4CtbTileX := 0, i4CtbTileY := 0, psTile := 0
    i4CtbSliceX := 0, i4CtbSliceY := 0, i4NextCtbIndx := 0, endOfPic := 0 }

/-- The position after `k` CTBs; CTB `k` belongs to the slice that began at `slice k`. -/
def ctbPos (pps : PpsTiles) (sps : SpsSize) (slice : Nat → Nat × Nat) : Nat → CtbPos
  | 0 => .first
  | k + 1 => (ctbPos pps sps slice k).update pps sps (slice k).1 (slice k).2

end Libhevc.Decoder
