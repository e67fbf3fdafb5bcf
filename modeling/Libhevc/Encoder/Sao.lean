import Libhevc.Common.Sao
import Libhevc.Encoder.Bins

/-!
# SAO syntax of the encoder

`ihevce_cabac_encode_sao`, and its call in `ihevce_encode_slice_data`.
-/

namespace Libhevc.Encoder

/-- `sao_enc_t`; the components are y, cb and cr by `c_idx`. -/
structure SaoEnc where
  comp : Nat → SaoComp
  b1SaoMergeLeftFlag : Bool
  b1SaoMergeUpFlag : Bool

/-- `sao_type_idx` -/
def encodeSaoType (saoTypeIdx : Nat) : List (Bin ρ) :=
  let saoTypeIdxTemp := if 1 < saoTypeIdx then 2 else saoTypeIdx
  [.ctxt ihevcCabSaoType (saoTypeIdx ≠ 0)] ++
    if saoTypeIdxTemp ≠ 0 then [.bypass (saoTypeIdxTemp - 1 = 1)] else []

/-- What is behind a type that is not 0. -/
def encodeSaoOffsets (cMax cIdx saoTypeIdx : Nat) (sao : SaoComp) : List (Bin ρ) :=
  sao.offset.flatMap (fun offset => ihevceCabacEncodeTunaryBypass offset.natAbs cMax) ++
    if saoTypeIdx = 1 then
      sao.offset.flatMap (fun offset =>
          if offset ≠ 0 then [.bypass ((offset.natAbs : Int) + offset = 0)] else []) ++
        bypassBins sao.b5BandPos 5
    else if cIdx = 0 ∨ cIdx = 1 then bypassBins (sao.b3TypeIdx - 2) 2
    else []

/-- One component; the type of cr is that of cb, from the iteration before. -/
def encodeSaoComp (h : SaoFlags) (cMax : Nat) (sao : SaoEnc) (cIdx saoTypeIdx : Nat) :
    Nat × List (Bin ρ) :=
  if h.flag cIdx then
    let saoTypeIdx := if cIdx < 2 then (sao.comp cIdx).b3TypeIdx else saoTypeIdx
    (saoTypeIdx, (if cIdx < 2 then encodeSaoType saoTypeIdx else []) ++
      if saoTypeIdx ≠ 0 then encodeSaoOffsets cMax cIdx saoTypeIdx (sao.comp cIdx) else [])
  else (saoTypeIdx, [])

def ihevceCabacEncodeSao (h : SaoFlags) (bitDepth : Nat) (u1LeftAvail u1TopAvail : Bool)
    (sao : SaoEnc) : List (Bin ρ) :=
  (if u1LeftAvail then [.ctxt ihevcCabSaoMerge sao.b1SaoMergeLeftFlag] else []) ++
    ((if u1TopAvail ∧ ¬ sao.b1SaoMergeLeftFlag then
        [.ctxt ihevcCabSaoMerge sao.b1SaoMergeUpFlag]
      else []) ++
    if ¬ sao.b1SaoMergeLeftFlag ∧ ¬ sao.b1SaoMergeUpFlag then
      let cMax := saoCMax bitDepth
      let y := encodeSaoComp h cMax sao 0 (sao.comp 0).b3TypeIdx
      let cb := encodeSaoComp h cMax sao 1 y.1
      let cr := encodeSaoComp h cMax sao 2 cb.1
      y.2 ++ (cb.2 ++ cr.2)
    else [])

/-- The position of the loop of `ihevce_encode_slice_data`. -/
structure FrmPos where
  x0Frm : Nat
  y0Frm : Nat
  deriving DecidableEq, Repr

/-- The position behind a CTB. -/
def FrmPos.next (ctbSize picWidth : Nat) (p : FrmPos) : FrmPos :=
  let x0Frm := p.x0Frm + ctbSize
  if picWidth ≤ x0Frm then { x0Frm := 0, y0Frm := p.y0Frm + ctbSize } else { p with x0Frm }

/-- The position of CTB `k`, in a slice that begins with the picture. -/
def frmPos (ctbSize picWidth : Nat) : Nat → FrmPos
  | 0 => { x0Frm := 0, y0Frm := 0 }
  | k + 1 => (frmPos ctbSize picWidth k).next ctbSize picWidth

/-- The part of `ihevce_encode_slice_data` for one CTB. -/
def encodeCtbSao (h : SaoFlags) (bitDepth : Nat) (p : FrmPos) (sao : SaoEnc) : List (Bin ρ) :=
  if h.i1SliceSaoLumaFlag ∨ h.i1SliceSaoChromaFlag then
    ihevceCabacEncodeSao h bitDepth (0 < p.x0Frm) (0 < p.y0Frm) sao
  else []

end Libhevc.Encoder
