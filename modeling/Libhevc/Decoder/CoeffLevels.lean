import Libhevc.Decoder.CabacBypass

/-!
# The levels of a sub-block

The loop of `ihevcd_parse_residual_coding` over the significant coefficients of a
sub-block, and the statistics of the Rice parameter, which live on from one
sub-block to the next. What the loop does that has a limit is kept in the order
in which it is done.
-/

namespace Libhevc.Decoder

open Memory

inductive LevelOp
  /-- `coeff_abs_level_remaining` is parsed with this `rice_param`. -/
  | escape (riceParam : Nat)
  | prefixBins (n : Nat)
  | group (numbins : Nat)
  | shift (n : Int)
  | int (v : Int)
  deriving DecidableEq, Repr

/-- A left shift and what it gives. -/
def shlOps (x n : Nat) : List LevelOp := [.shift n, .int ((x <<< n : Nat) : Int)]

/-- What the loop gets from the parameter sets, the coding unit and the flags of the sub-block. A
sub-block without a coefficient is passed over before it. -/
structure Subblk where
  i1PersistentRiceAdaptationEnabledFlag : Bool
  cIdx : Nat
  transformSkipFlag : Bool
  i4CuTransquantBypass : Bool
  u4SigCoeffMap : Nat
  u4CoeffAbsLevelGreater1Map : Nat
  u4CoeffAbsLevelGreater2Map : Nat
  firstGreater1ScanPos : Int
  firstSigScanPos : Int
  u4CoeffSignMap : Nat
  signHidden : Bool
  map_pos : 0 < u4SigCoeffMap
  map_lt : u4SigCoeffMap < 2 ^ 16

def Subblk.sbType (b : Subblk) : Nat :=
  2 * (if b.cIdx = 0 then 1 else 0) +
    if b.i1PersistentRiceAdaptationEnabledFlag ∧
      ¬(b.transformSkipFlag = false ∧ b.i4CuTransquantBypass = false) then 1 else 0

structure LevelSt where
  cabac : CabCtxt
  bitstrm : Bitstrm
  ai4RiceStatCoeff : Nat → Nat
  i1UpdateStats : Bool
  riceParam : Nat
  numSigCoeff : Nat
  sumAbsLevel : Int
  u4CoeffSignMap : Nat
  ai2Level : List Int
  ops : List LevelOp

def LevelSt.note (st : LevelSt) (l : List LevelOp) : LevelSt := { st with ops := st.ops ++ l }

/-- The loop over the prefix: its number of bins. It may not end within `fuel` bins. -/
def prefixLoop (riceParam : Nat) :
    (fuel u4Prefix : Nat) → CabCtxt → Bitstrm → Option (Nat × CabCtxt × Bitstrm)
  | 0, _, _, _ => none
  | fuel + 1, u4Prefix, c, s =>
    let r := cabacDecodeBypassBinMacro c s
    let u4Prefix := u4Prefix + 1
    if (u4Prefix : Int) = 19 - riceParam then some (u4Prefix, r.2)
    else if r.1 = 0 then some (u4Prefix, r.2)
    else prefixLoop riceParam fuel u4Prefix r.2.1 r.2.2

/-- `coeff_abs_level_remaining` -/
def coeffAbsLevelRemaining (st : LevelSt) : Option (Nat × LevelSt) :=
  match prefixLoop st.riceParam 32 0 st.cabac st.bitstrm with
  | none => none
  | some (u4Prefix, c, s) =>
    let st := { st.note [.escape st.riceParam, .prefixBins u4Prefix] with
      cabac := c
      bitstrm := s }
    let u4Prefix := u4Prefix - 1
    if u4Prefix < 3 then
      let st := st.note (shlOps u4Prefix st.riceParam)
      if st.riceParam = 0 then some (u4Prefix <<< st.riceParam, st)
      else
        let r := cabacDecodeBypassBinsMacro st.cabac st.bitstrm st.riceParam
        some ((u4Prefix <<< st.riceParam) ||| r.1,
          { st.note [.group st.riceParam] with
            cabac := r.2.1
            bitstrm := r.2.2 })
    else
      let u4Numbins := u4Prefix - 3 + st.riceParam
      let remaining := ((1 <<< (u4Prefix - 3)) + 3 - 1) <<< st.riceParam
      let st := st.note
        (shlOps 1 (u4Prefix - 3) ++ shlOps ((1 <<< (u4Prefix - 3)) + 3 - 1) st.riceParam)
      if u4Numbins = 0 then some (remaining, st)
      else
        let r := cabacDecodeBypassBinsMacro st.cabac st.bitstrm u4Numbins
        some (remaining + r.1,
          { st.note [.group u4Numbins, .int (remaining + r.1 : Nat)] with
            cabac := r.2.1
            bitstrm := r.2.2 })

/-- The first level of a sub-block that is parsed moves the statistics. -/
def updateStats (b : Subblk) (remaining : Nat) (st : LevelSt) : LevelSt :=
  if st.i1UpdateStats then
    let stat := st.ai4RiceStatCoeff b.sbType
    let st := { st.note (shlOps 3 (stat / 4)) with i1UpdateStats := false }
    if 3 <<< (stat / 4) ≤ remaining then
      { st with ai4RiceStatCoeff := set st.ai4RiceStatCoeff b.sbType (stat + 1) }
    else
      let st := st.note (.int (2 * remaining : Nat) :: shlOps 1 (stat / 4))
      if 2 * remaining < 1 <<< (stat / 4) ∧ 0 < stat then
        { st with ai4RiceStatCoeff := set st.ai4RiceStatCoeff b.sbType (stat - 1) }
      else st
  else st

def updateRice (b : Subblk) (baseLvl : Nat) (st : LevelSt) : LevelSt :=
  let st := st.note (shlOps 3 st.riceParam)
  if 3 <<< st.riceParam < baseLvl then
    if b.i1PersistentRiceAdaptationEnabledFlag then { st with riceParam := st.riceParam + 1 }
    else { st with riceParam := min (st.riceParam + 1) 4 }
  else st

/-- The level with its sign, the hidden one included, into `ai2_level`. -/
def storeLevel (b : Subblk) (n : Int) (baseLvl : Nat) (st : LevelSt) : LevelSt :=
  let level : Int := baseLvl
  let level := if (st.u4CoeffSignMap >>> 31) &&& 1 = 1 then -level else level
  let st := { st.note [.int level] with u4CoeffSignMap := u32 (st.u4CoeffSignMap <<< 1) }
  let sum : Int := if b.signHidden then st.sumAbsLevel + baseLvl else st.sumAbsLevel
  let level := if b.signHidden ∧ n = b.firstSigScanPos ∧ sum % 2 = 1 then -level else level
  { st.note [.int sum, .int level] with
    sumAbsLevel := sum
    ai2Level := st.ai2Level ++ [i16 level]
    numSigCoeff := st.numSigCoeff + 1 }

/-- One coefficient. -/
def levelStep (b : Subblk) (n : Int) (st : LevelSt) : Option LevelSt :=
  let baseLvl := 1 + ((b.u4CoeffAbsLevelGreater1Map >>> n.toNat) &&& 1) +
    ((b.u4CoeffAbsLevelGreater2Map >>> n.toNat) &&& 1)
  let st := st.note [.shift n]
  if baseLvl =
      (if st.numSigCoeff < 8 then (if n = b.firstGreater1ScanPos then 3 else 2) else 1) then
    match coeffAbsLevelRemaining st with
    | none => none
    | some (remaining, st) =>
      let st := updateStats b remaining (st.note [.int (baseLvl + remaining : Nat)])
      some (storeLevel b n (baseLvl + remaining) (updateRice b (baseLvl + remaining) st))
  else some (storeLevel b n baseLvl (updateRice b baseLvl st))

/-- The loop over the coefficients, `n` the position of the one on top of the shifted map. -/
def levelLoop (b : Subblk) : (fuel : Nat) → (n : Int) → (u4SigCoeffMapShift : Nat) → LevelSt →
    Option LevelSt
  | 0, _, _, _ => none
  | fuel + 1, n, u4SigCoeffMapShift, st =>
    match if (u4SigCoeffMapShift >>> 31) &&& 1 = 1 then levelStep b n st else some st with
    | none => none
    | some st =>
      let u4SigCoeffMapShift := u32 (u4SigCoeffMapShift <<< 1)
      let clz := clz u4SigCoeffMapShift
      let st := st.note [.shift clz]
      let u4SigCoeffMapShift := u32 (u4SigCoeffMapShift <<< clz)
      if u4SigCoeffMapShift = 0 then some st
      else levelLoop b fuel (n - 1 - clz) u4SigCoeffMapShift st

-- ---------------------------------------------------------------------------
-- Sub-blocks one after the other
-- ---------------------------------------------------------------------------

structure ResidualSt where
  cabac : CabCtxt
  bitstrm : Bitstrm
  ai4RiceStatCoeff : Nat → Nat
  ai4RiceStatCoeffSync : Nat → Nat
  ops : List LevelOp

/-- What changes the statistics, and all other syntax between two sub-blocks, which may leave any
state of the arithmetic decoder. -/
inductive ResidualEvent
  | init
  | initFromSync
  | sync
  | other (c : CabCtxt) (s : Bitstrm)
  | subblk (b : Subblk)

def parseLevels (b : Subblk) (x : ResidualSt) : Option ResidualSt :=
  let clz := clz b.u4SigCoeffMap
  let st : LevelSt :=
    { cabac := x.cabac
      bitstrm := x.bitstrm
      ai4RiceStatCoeff := x.ai4RiceStatCoeff
      i1UpdateStats := b.i1PersistentRiceAdaptationEnabledFlag
      riceParam :=
        if b.i1PersistentRiceAdaptationEnabledFlag then x.ai4RiceStatCoeff b.sbType / 4 else 0
      numSigCoeff := 0
      sumAbsLevel := 0
      u4CoeffSignMap := b.u4CoeffSignMap
      ai2Level := []
      ops := x.ops ++ [.shift clz] }
  (levelLoop b 32 (31 - clz) (u32 (b.u4SigCoeffMap <<< clz)) st).map fun st =>
    { x with
      cabac := st.cabac
      bitstrm := st.bitstrm
      ai4RiceStatCoeff := st.ai4RiceStatCoeff
      ops := st.ops }

def ResidualSt.step (x : ResidualSt) : ResidualEvent → Option ResidualSt
  | .init => some { x with ai4RiceStatCoeff := fun _ => 0 }
  | .initFromSync => some { x with ai4RiceStatCoeff := x.ai4RiceStatCoeffSync }
  | .sync => some { x with ai4RiceStatCoeffSync := x.ai4RiceStatCoeff }
  | .other c s => some { x with cabac := c, bitstrm := s }
  | .subblk b => parseLevels b x

def ResidualSt.run (x : ResidualSt) : List ResidualEvent → Option ResidualSt
  | [] => some x
  | e :: l =>
    match x.step e with
    | none => none
    | some x => x.run l

/-- Before the first slice. -/
def ResidualSt.start (c : CabCtxt) (s : Bitstrm) : ResidualSt :=
  { cabac := c
    bitstrm := s
    ai4RiceStatCoeff := fun _ => 0
    ai4RiceStatCoeffSync := fun _ => 0
    ops := [] }

end Libhevc.Decoder
