import Libhevc.Common.CabacTables
import Libhevc.Decoder.Bitstream

/-!
# The decoder's CABAC engine

`ihevcd_cabac.c`, and the macros of `ihevcd_cabac.h` that do the same, with
`FULLRANGE` 1: the range has up to 31 bits and is renormalised only when it
drops below 256. The engine also remembers its bit reads and left shifts, the
latest first, so that their safety can be stated.
-/

namespace Libhevc.Decoder

open Memory

/-- A bit read with its count, or a left shift with its operand and amount. -/
inductive EngineOp
  | bitsGet (cnt : Nat)
  | shl (x n : Nat)

/-- `cab_ctxt_t` of the decoder. -/
structure CabCtxt where
  u4Range : Nat
  u4Ofst : Nat
  au1CtxtModels : Nat → Nat
  ops : List EngineOp

def rangeNumbits : Nat := 31

def rangeShift : Nat := rangeNumbits - 9

def CabCtxt.note (c : CabCtxt) (ops : List EngineOp) : CabCtxt := { c with ops := ops ++ c.ops }

/-- `numbits` more bits in the offset, and the range scaled with it. -/
def renorm (c : CabCtxt) (s : Bitstrm) (numbits : Nat) : CabCtxt × Bitstrm :=
  let get := ihevcdBitsGet s numbits
  let c := c.note [.bitsGet numbits, .shl c.u4Ofst numbits, .shl c.u4Range numbits]
  ({ c with
      u4Ofst := u32 (c.u4Ofst <<< numbits) ||| get.1
      u4Range := u32 (c.u4Range <<< numbits) }, get.2)

def ihevcdCabacInit (s : Bitstrm) (pu1InitCtxt : Nat → Nat) :
    IhevcdErrorT × CabCtxt × Bitstrm :=
  let u4Range := u32 (510 <<< rangeShift)
  let get := ihevcdBitsGet s (9 + rangeShift)
  (if u4Range ≤ get.1 then .fail else .success,
    { u4Range
      u4Ofst := get.1
      au1CtxtModels := pu1InitCtxt
      ops := [.bitsGet (9 + rangeShift), .shl 510 rangeShift] }, get.2)

/-- The bin and the state before the renormalisation, given the ranges of the two symbols. -/
def narrowBin (c : CabCtxt) (ctxtIndex u4Range u4Rlps : Nat) : Nat × CabCtxt :=
  let stateMps := c.au1CtxtModels ctxtIndex
  let next (u4Bin : Nat) :=
    set c.au1CtxtModels ctxtIndex (gau1IhevcNextState ((stateMps <<< 1) ||| u4Bin))
  if u4Range ≤ c.u4Ofst then
    (1 - (stateMps &&& 1),
      { c with
        u4Ofst := u32Sub c.u4Ofst u4Range
        u4Range := u4Rlps
        au1CtxtModels := next (1 - (stateMps &&& 1)) })
  else (stateMps &&& 1, { c with u4Range := u4Range, au1CtxtModels := next (stateMps &&& 1) })

def ihevcdCabacDecodeBin (c : CabCtxt) (s : Bitstrm) (ctxtIndex : Nat) :
    Nat × CabCtxt × Bitstrm :=
  let clz := clz c.u4Range - (32 - rangeNumbits)
  let u4QntRange := (u32 (c.u4Range <<< clz) >>> (rangeShift + 6)) &&& 3
  let lps := gau1IhevcCabacRlps (c.au1CtxtModels ctxtIndex >>> 1) u4QntRange
  let u4Rlps := u32 (lps <<< (rangeShift - clz))
  let r := narrowBin (c.note [.shl c.u4Range clz, .shl lps (rangeShift - clz)]) ctxtIndex
    (u32Sub c.u4Range u4Rlps) u4Rlps
  (r.1,
    if r.2.u4Range < 256 then renorm r.2 s (Libhevc.clz r.2.u4Range - (32 - rangeNumbits))
    else (r.2, s))

/-- One bypass bin once its bit has been read. -/
def bypassBit (c : CabCtxt) (u4Bit : Nat) : Nat × CabCtxt :=
  let u4Ofst := u32 (c.u4Ofst <<< 1) ||| u4Bit
  let c := c.note [.shl c.u4Ofst 1]
  if c.u4Range ≤ u4Ofst then (1, { c with u4Ofst := u32Sub u4Ofst c.u4Range })
  else (0, { c with u4Ofst := u4Ofst })

def ihevcdCabacDecodeBypassBin (c : CabCtxt) (s : Bitstrm) : Nat × CabCtxt × Bitstrm :=
  let get := bitGet s
  let r := bypassBit (c.note [.bitsGet 1]) get.1
  (r.1, r.2, get.2)

/-- The loop of `ihevcd_cabac_decode_bypass_bins` over the bits read at once. -/
def bypassLoop (u4Bits : Nat) : Nat → Nat → CabCtxt → Nat × CabCtxt
  | 0, u4Bins, c => (u4Bins, c)
  | numbins + 1, u4Bins, c =>
    let r := bypassBit c ((u4Bits >>> numbins) &&& 1)
    bypassLoop u4Bits numbins (u32 (u4Bins <<< 1) + r.1) (r.2.note [.shl u4Bins 1])

def ihevcdCabacDecodeBypassBins (c : CabCtxt) (s : Bitstrm) (numbins : Nat) :
    Nat × CabCtxt × Bitstrm :=
  let get := ihevcdBitsGet s numbins
  let r := bypassLoop get.1 numbins 0 (c.note [.bitsGet numbins])
  (r.1, r.2, get.2)

def ihevcdCabacDecodeTerminate (c : CabCtxt) (s : Bitstrm) : Nat × CabCtxt × Bitstrm :=
  let clz := clz c.u4Range - (32 - rangeNumbits)
  let u4Range := u32Sub c.u4Range (u32 (2 <<< (rangeShift - clz)))
  let c' := { c.note [.shl 2 (rangeShift - clz)] with u4Range := u4Range }
  if u4Range ≤ c.u4Ofst then
    -- extra bits read earlier are pushed back to the bitstream
    let numbits : Int := 32 - Libhevc.clz c.u4Range - 9
    (1, c', ihevcdBitsSeek s (-numbits))
  else
    let numbits := Libhevc.clz u4Range - (32 - rangeNumbits)
    (0, if numbits = 0 then (c', s) else renorm c' s numbits)

end Libhevc.Decoder
