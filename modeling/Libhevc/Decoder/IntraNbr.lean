import Libhevc.Common.Platform

/-!
# The neighbours of an intra block

`ihevcd_get_intra_nbr_flag` of `ihevcd_iquant_itrans_recon_ctb.c` and the map it
reads, which `ihevcd_iquant_itrans_recon_ctb` sets up for a CTB and completes
with each transform unit. Row 0 of the map is above the CTB, and the first bit
of a row is to its left.
-/

namespace Libhevc.Decoder

/-- What is read of the process context and of the parameter sets. -/
structure NbrProc where
  i4CtbX : Nat
  i4CtbY : Nat
  i1Log2CtbSize : Nat
  i2PicWidthInLumaSamples : Nat
  i2PicHeightInLumaSamples : Nat
  u1LeftCtbAvail : Bool
  u1TopCtbAvail : Bool
  u1TopLtCtbAvail : Bool
  u1TopRtCtbAvail : Bool
  i1ConstrainedIntraPredFlag : Bool
  pu1PicIntraFlag : Nat → Nat

structure NbrTu where
  b4PosX : Nat
  b4PosY : Nat
  b3Size : Nat

def NbrTu.transSize (tu : NbrTu) : Nat := 1 <<< (tu.b3Size + 2)

def gau4IhevcdBitReverse (i : Nat) : Nat :=
  [0, 8, 4, 12, 2, 10, 6, 14, 1, 9, 5, 13, 3, 11, 7, 15].getD i 0

namespace NbrProc

variable (p : NbrProc)

def ctbSize : Nat := 1 <<< p.i1Log2CtbSize

def colsRemaining : Nat := p.i2PicWidthInLumaSamples - p.i4CtbX <<< p.i1Log2CtbSize

def rowsRemaining : Nat := p.i2PicHeightInLumaSamples - p.i4CtbY <<< p.i1Log2CtbSize

def topAvailBits : Nat :=
  let ctbSizeTop := min p.ctbSize p.colsRemaining
  let shift := 31 - p.ctbSize / 4 + (p.ctbSize - ctbSizeTop) / 4
  (1 <<< (ctbSizeTop / 4) - 1) <<< shift

/-- `au4_intra_nbr_avail` at the start of a CTB. -/
def initNbrAvail (row : Nat) : Nat :=
  if row = 0 then
    (p.u1TopRtCtbAvail.toNat <<< 31) >>> (1 + p.ctbSize / 4) ||| p.u1TopLtCtbAvail.toNat <<< 31 |||
      (if p.u1TopCtbAvail then p.topAvailBits else 0)
  else if row - 1 < min p.ctbSize p.rowsRemaining / 4 then p.u1LeftCtbAvail.toNat <<< 31
  else 0

/-- The bits of a transform unit are set when it is done. -/
def updateNbrAvail (m : Nat → Nat) (tu : NbrTu) (row : Nat) : Nat :=
  let transInMinTu := tu.transSize / 4
  let curTuAvailFlag := ((1 <<< transInMinTu - 1) <<< (32 - transInMinTu)) >>> (tu.b4PosX + 1)
  if 1 + tu.b4PosY ≤ row ∧ row < 1 + tu.b4PosY + transInMinTu then m row ||| curTuAvailFlag
  else m row

/-- The map when the transform units `tus` are done. -/
def nbrAvail (tus : List NbrTu) : Nat → Nat := tus.foldl updateNbrAvail p.initNbrAvail

def numbytesRow : Nat := (p.i2PicWidthInLumaSamples + 63) / 64

/-- `*pu1_nbr_intra_flag >> intra_pos` at a place of the picture. -/
def nbrIntra (x y : Nat) : Nat :=
  p.pu1PicIntraFlag (y / 8 * p.numbytesRow + x / 64) >>> (x / 8 % 8)

def num8Blks (tu : NbrTu) : Nat := if 4 < tu.transSize then tu.transSize / 8 else 1

/-- The loop over the blocks of a column. -/
def nbrColumn (tu : NbrTu) (x y : Nat) : Nat :=
  ((List.range (num8Blks tu)).foldl (fun s i => s ||| (p.nbrIntra x (y + 8 * i) &&& 1) <<< i) 0) &&&
    (1 <<< num8Blks tu - 1)

/-- The blocks of a row, which are in one byte. -/
def nbrRow (tu : NbrTu) (x y : Nat) : Nat := p.nbrIntra x y &&& (1 <<< num8Blks tu - 1)

def xCur (tu : NbrTu) : Nat := p.i4CtbX * p.ctbSize + tu.b4PosX * 4

def yCur (tu : NbrTu) : Nat := p.i4CtbY * p.ctbSize + tu.b4PosY * 4

/-- The units of the row or the column that are left behind a block of the picture. -/
def remainingBits (tu : NbrTu) (remaining : Nat) : Nat :=
  1 <<< (min p.ctbSize remaining / min tu.transSize 8) - 1

/-- The flags of one side: all of them, or those of the intra blocks. -/
def sideFlags (avail : Bool) (intra : Nat) : Nat :=
  if avail then if p.i1ConstrainedIntraPredFlag then intra else 0xF else 0

/-- A bit of the map. -/
def nbrBit (m : Nat → Nat) (row shift : Nat) : Bool := (m row >>> shift) &&& 1 == 1

def ihevcdGetIntraNbrFlag (m : Nat → Nat) (tu : NbrTu) : Nat :=
  let curX := tu.b4PosX
  let curY := tu.b4PosY
  let botLtAvail := nbrBit m (1 + curY + tu.transSize / 4) (31 - (1 + curX - 1))
  let leftAvail := nbrBit m (1 + curY) (31 - (1 + curX - 1))
  let topAvail := nbrBit m (1 + curY - 1) (31 - (1 + curX))
  let topRtAvail := nbrBit m (1 + curY - 1) (31 - (1 + curX + tu.transSize / 4))
  let topLtAvail := nbrBit m (1 + curY - 1) (31 - (1 + curX - 1))
  let xCur := p.xCur tu
  let yCur := p.yCur tu
  let botLeft := p.sideFlags botLtAvail (p.nbrColumn tu (xCur - 1) (yCur + tu.transSize))
  let left := p.sideFlags leftAvail (p.nbrColumn tu (xCur - 1) yCur)
  let top := p.sideFlags topAvail (p.nbrRow tu xCur (yCur - 1))
  let topRight := p.sideFlags topRtAvail (p.nbrRow tu (xCur + tu.transSize) (yCur - 1))
  let topLeft :=
    if topLtAvail then
      if p.i1ConstrainedIntraPredFlag then p.nbrIntra (xCur - 1) (yCur - 1) &&& 1 else 1
    else 0
  let topRight := topRight &&&
    p.remainingBits tu (p.colsRemaining - curX * 4 - 1 <<< (tu.b3Size + 2))
  let botLeft := botLeft &&&
    p.remainingBits tu (p.rowsRemaining - curY * 4 - 1 <<< (tu.b3Size + 2))
  topLeft <<< 16 ||| topRight <<< 12 ||| top <<< 8 ||| gau4IhevcdBitReverse left <<< 4 |||
    gau4IhevcdBitReverse botLeft

end NbrProc

end Libhevc.Decoder
