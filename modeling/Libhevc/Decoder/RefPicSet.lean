import Libhevc.Decoder.ParameterSets

/-!
# Short-term reference picture sets

`ihevcd_short_term_ref_pic_set`. The indices of its stores into the arrays of
the set are kept beside it.
-/

namespace Libhevc.Decoder

open Memory

/-- `stref_picset_t`, with the indices that were stored to. -/
structure StrefPicset where
  i1InterRefPicSetPredictionFlag : Nat
  ai2DeltaPoc : Nat → Int
  ai1Used : Nat → Nat
  ai1RefIdc : Nat → Nat
  i1NumRefIdc : Nat
  i1NumDeltaPocs : Nat
  i1NumPosPics : Nat
  i1NumNegPics : Nat
  stores : List Nat

def StrefPicset.putDeltaPoc (ps : StrefPicset) (i : Nat) (deltaPoc : Int) : StrefPicset :=
  { ps with ai2DeltaPoc := set ps.ai2DeltaPoc i deltaPoc, stores := i :: ps.stores }

def StrefPicset.putUsed (ps : StrefPicset) (i used : Nat) : StrefPicset :=
  { ps with ai1Used := set ps.ai1Used i used, stores := i :: ps.stores }

def StrefPicset.putRefIdc (ps : StrefPicset) (i refIdc : Nat) : StrefPicset :=
  { ps with ai1RefIdc := set ps.ai1RefIdc i refIdc, stores := i :: ps.stores }

-- ---------------------------------------------------------------------------
-- An explicit set
-- ---------------------------------------------------------------------------

/-- `num_negative_pics` and `num_positive_pics` -/
def explicitHeader (s : Bitstrm) : Except IhevcdErrorT (Nat × Nat × Bitstrm) := do
  let (numNegPics, s) ← uevAtMost s (maxDpbSize - 1)
  let (numPosPics, s) ← uevAtMost s (maxDpbSize - 1 - numNegPics)
  .ok (numNegPics, numPosPics, s)

/-- The loop over `n` differences from `i` on, which are subtracted or added. -/
def explicitLoop (sign : Int) :
    Nat → Nat → Int → StrefPicset → Bitstrm → Except IhevcdErrorT (StrefPicset × Bitstrm)
  | 0, _, _, ps, s => .ok (ps, s)
  | n + 1, i, prevPoc, ps, s => do
    let (value, s) ← uevAtMost s 32767
    let poc := prevPoc + sign * (value + 1)
    let (used, s) := ihevcdBitsGet s 1
    explicitLoop sign n (i + 1) poc ((ps.putDeltaPoc i (i16 poc)).putUsed i used) s

def explicitSet (ps : StrefPicset) (s : Bitstrm) :
    Except IhevcdErrorT (StrefPicset × Bitstrm) := do
  let (numNegPics, numPosPics, s) ← explicitHeader s
  let ps := { ps with
    i1NumNegPics := numNegPics
    i1NumPosPics := numPosPics
    i1NumDeltaPocs := numNegPics + numPosPics }
  let (ps, s) ← explicitLoop (-1) numNegPics 0 0 ps s
  explicitLoop 1 numPosPics numNegPics 0 ps s

-- ---------------------------------------------------------------------------
-- A set that is predicted
-- ---------------------------------------------------------------------------

/-- `r_idx` and `delta_rps` -/
def interHeader (num idx : Nat) (s : Bitstrm) : Except IhevcdErrorT (Nat × Int × Bitstrm) := do
  let (deltaIdxMinus1, s) ← readIf (if idx = num then 1 else 0) 0 (uevAtMost · (num - 1)) s
  let rIdx := clip3 (idx - (deltaIdxMinus1 + 1 : Nat)) 0 (idx - 1)
  let (deltaRpsSign, s) := ihevcdBitsGet s 1
  let (absDeltaRpsMinus1, s) ← uevAtMost s 32767
  .ok (rIdx.toNat, (1 - 2 * deltaRpsSign) * (absDeltaRpsMinus1 + 1), s)

/-- `used_by_curr_pic_flag`, and `ref_idc` as it and `use_delta_flag` give it. -/
def refIdcGet (s : Bitstrm) : Nat × Nat × Bitstrm :=
  let (used, s) := ihevcdBitsGet s 1
  if used = 0 then
    let (useDelta, s) := ihevcdBitsGet s 1
    (used, useDelta <<< 1, s)
  else (used, used, s)

/-- The delta POC of candidate `i`; the last one is `delta_rps` itself. -/
def StrefPicset.candidate (ref : StrefPicset) (deltaRps : Int) (i : Nat) : Int :=
  deltaRps + if i < ref.i1NumDeltaPocs then ref.ai2DeltaPoc i else 0

/-- The variables of the loop over the candidates. -/
structure InterLoop where
  ps : StrefPicset
  numNegPics : Nat
  numPosPics : Nat
  numPics : Nat

/-- The loop over the `n` last candidates. -/
def interLoop (ref : StrefPicset) (deltaRps : Int) :
    Nat → InterLoop → Bitstrm → InterLoop × Bitstrm
  | 0, l, s => (l, s)
  | n + 1, l, s =>
    let i := ref.i1NumDeltaPocs + 1 - (n + 1)
    let (used, refIdc, s) := refIdcGet s
    let ps := l.ps.putUsed l.numPics used
    let l :=
      if refIdc = 1 ∨ refIdc = 2 then
        let deltaPoc := ref.candidate deltaRps i
        { ps := (ps.putDeltaPoc l.numPics (i16 deltaPoc)).putRefIdc i refIdc
          numNegPics := l.numNegPics + if deltaPoc < 0 then 1 else 0
          numPosPics := l.numPosPics + if deltaPoc < 0 then 0 else 1
          numPics := l.numPics + 1 }
      else { l with ps := ps.putRefIdc i refIdc }
    interLoop ref deltaRps n l s

/-- The inner loop of the sort, from cell `k` down. -/
def StrefPicset.sink (deltaPoc : Int) (used : Nat) : Nat → StrefPicset → StrefPicset
  | 0, ps => ps
  | k + 1, ps =>
    let temp := ps.ai2DeltaPoc k
    sink deltaPoc used k
      (if deltaPoc < temp then
        (((ps.putDeltaPoc (k + 1) temp).putUsed (k + 1) (ps.ai1Used k)).putDeltaPoc k
          deltaPoc).putUsed k used
      else ps)

/-- The sort of the first `n` pictures. -/
def StrefPicset.sort : Nat → StrefPicset → StrefPicset
  | 0, ps => ps
  | n + 1, ps =>
    let ps := ps.sort n
    ps.sink (ps.ai2DeltaPoc n) (ps.ai1Used n) n

/-- The first `j` swaps that reverse the first `n` pictures. -/
def StrefPicset.flip (n : Nat) : Nat → StrefPicset → StrefPicset
  | 0, ps => ps
  | j + 1, ps =>
    let ps := ps.flip n j
    let k := n - 1 - j
    (((ps.putDeltaPoc j (ps.ai2DeltaPoc k)).putUsed j (ps.ai1Used k)).putDeltaPoc k
      (ps.ai2DeltaPoc j)).putUsed k (ps.ai1Used j)

/-- What follows the loop over the candidates. -/
def InterLoop.finish (l : InterLoop) (ref : StrefPicset) : StrefPicset :=
  let numNegPics := min l.numNegPics (maxDpbSize - 1)
  let numPosPics := min l.numPosPics (maxDpbSize - 1 - numNegPics)
  let numPics := numNegPics + numPosPics
  let ps := { l.ps with
    i1NumRefIdc := ref.i1NumDeltaPocs + 1
    i1NumDeltaPocs := numPics
    i1NumPosPics := numPosPics
    i1NumNegPics := numNegPics }
  (ps.sort numPics).flip numNegPics (numNegPics >>> 1)

def interSet (ref : StrefPicset) (deltaRps : Int) (ps : StrefPicset) (s : Bitstrm) :
    StrefPicset × Bitstrm :=
  let (l, s) := interLoop ref deltaRps (ref.i1NumDeltaPocs + 1) ⟨ps, 0, 0, 0⟩ s
  (l.finish ref, s)

-- ---------------------------------------------------------------------------
-- The function
-- ---------------------------------------------------------------------------

/-- `inter_ref_pic_set_prediction_flag` -/
def interFlag (idx : Nat) (s : Bitstrm) : Nat × Bitstrm :=
  if 0 < idx then ihevcdBitsGet s 1 else (0, s)

/-- The set `ps` is filled; its list of stores starts empty. -/
def ihevcdShortTermRefPicSet (s : Bitstrm) (base : Nat → StrefPicset) (num idx : Nat)
    (ps : StrefPicset) : Except IhevcdErrorT (StrefPicset × Bitstrm) := do
  let (flag, s) := interFlag idx s
  let ps := { ps with i1InterRefPicSetPredictionFlag := flag, stores := [] }
  if flag ≠ 0 then
    let (rIdx, deltaRps, s) ← interHeader num idx s
    .ok (interSet (base rIdx) deltaRps ps s)
  else explicitSet ps s

end Libhevc.Decoder
