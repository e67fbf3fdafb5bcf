import Libhevc.Common.CabacTables
import Libhevc.Common.Platform

/-!
# Binarizations of the encoder

The functions of `ihevce_cabac.c` that make bins of a symbol.
-/

namespace Libhevc.Encoder

/-- `ihevce_cabac_encode_bypass_bins` -/
def bypassBins (u4Bins numBins : Nat) : List (Bin ρ) :=
  (List.range numBins).map fun i => .bypass (u4Bins.testBit (numBins - 1 - i))

def ihevceCabacEncodeTunary (sym cMax ctxtIndex ctxtShift ctxtIncMax : Nat) : List (Bin ρ) :=
  (List.range sym).map (fun i => .ctxt (ctxtIndex + min (i >>> ctxtShift) ctxtIncMax) true) ++
    if sym < cMax then [.ctxt (ctxtIndex + min (sym >>> ctxtShift) ctxtIncMax) false] else []

def ihevceCabacEncodeTunaryBypass (sym cMax : Nat) : List (Bin ρ) :=
  if sym < cMax then bypassBins (2 ^ (sym + 1) - 2) (sym + 1) else bypassBins (2 ^ sym - 1) sym

def ihevceCabacEncodeEgk (u4Sym k : Nat) : List (Bin ρ) :=
  let u4SymShiftkPlus1 := (u4Sym >>> k) + 1
  let unaryLength := getRange u4SymShiftkPlus1
  let u4UnaryBins := 2 ^ unaryLength - 2
  let u4Egk := (u4UnaryBins <<< (unaryLength - 1)) |||
    (u4SymShiftkPlus1 &&& (2 ^ (unaryLength - 1) - 1))
  let u4Egk := (u4Egk <<< k) ||| (u4Sym &&& (2 ^ k - 1))
  bypassBins u4Egk (2 * unaryLength - 1 + k)

/-- It does not look at `c_rice_max`. -/
def ihevceCabacEncodeTruncRice (u4Sym cRiceParam _cRiceMax : Nat) : List (Bin ρ) :=
  let unaryLength := (u4Sym >>> cRiceParam) + 1
  let u4UnaryBins := 2 ^ unaryLength - 2
  let u4Tr := (u4UnaryBins <<< cRiceParam) ||| (u4Sym &&& (2 ^ cRiceParam - 1))
  bypassBins u4Tr (unaryLength + cRiceParam)

end Libhevc.Encoder
