import Libhevc.Common.CabacTables
import Libhevc.Lib.Reader

/-!
# Binarizations of the decoder

The functions of `ihevcd_cabac.c` that take a symbol from its bins. Where a bin is
asked for, the stream must have one of the same kind and the same context.
-/

namespace Libhevc.Decoder

abbrev BinReader (ρ : Type) := Reader (Bin ρ)

def decodeBin (ctxtIndex : Nat) : BinReader ρ Bool
  | .ctxt i bin :: bins => if i = ctxtIndex then some (bin, bins) else none
  | _ => none

def decodeBypassBin : BinReader ρ Bool
  | .bypass bin :: bins => some (bin, bins)
  | _ => none

/-- `ihevcd_cabac_decode_bypass_bins`, `n` more bins below those of `u4Bins`. -/
def decodeBypassBins : (n u4Bins : Nat) → BinReader ρ Nat
  | 0, u4Bins => pure u4Bins
  | n + 1, u4Bins => do
    let bin ← decodeBypassBin
    decodeBypassBins n (2 * u4Bins + bin.toNat)

/-- The loop of both truncated unary codes, `n` bins before the maximum. -/
def tunaryLoop (decode : Nat → BinReader ρ Bool) : (n u4Sym : Nat) → BinReader ρ Nat
  | 0, u4Sym => pure u4Sym
  | n + 1, u4Sym => do
    let bin ← decode u4Sym
    if bin then tunaryLoop decode n (u4Sym + 1) else pure u4Sym

def ihevcdCabacDecodeBinsTunary (cMax ctxtIndex ctxtShift ctxtIncMax : Nat) : BinReader ρ Nat :=
  tunaryLoop (fun u4Sym => decodeBin (ctxtIndex + min (u4Sym >>> ctxtShift) ctxtIncMax)) cMax 0

def ihevcdCabacDecodeBypassBinsTunary (cMax : Nat) : BinReader ρ Nat :=
  tunaryLoop (fun _ => decodeBypassBin) cMax 0

/-- The ones, and the sum of their weights: `n` more are looked at. -/
def egkOnes : (n numones u4Sym : Nat) → BinReader ρ (Nat × Nat)
  | 0, numones, u4Sym => pure (numones, u4Sym)
  | n + 1, numones, u4Sym => do
    let bin ← decodeBypassBin
    if bin then egkOnes n (numones + 1) (u4Sym + 2 ^ numones) else pure (numones + 1, u4Sym)

def ihevcdCabacDecodeBypassBinsEgk (k : Nat) : BinReader ρ Nat := do
  let (numones, u4Sym) ← egkOnes (17 - k) k 0
  let u4Suffix ← decodeBypassBins (numones - 1) 0
  pure (u4Sym + u4Suffix)

/-- One bin at least is looked at, whatever the maximum. -/
def ihevcdCabacDecodeBypassBinsTruncRice (cRiceParam cRiceMax : Nat) : BinReader ρ Nat := do
  let cMax := cRiceMax >>> cRiceParam
  let u4Sym ← tunaryLoop (fun _ => decodeBypassBin) (max cMax 1) 0
  if cRiceParam = 0 then pure u4Sym
  else
    let u4Suffix ← decodeBypassBins cRiceParam 0
    pure ((u4Sym <<< cRiceParam) ||| u4Suffix)

end Libhevc.Decoder
