import Libhevc.Common.Platform

/-!
# Picture types of the sub-GOPs

The checks of the GOP periods in `ihevce_error_check.c`, what `ihevce_lap_init` makes of them,
and `ihevce_determine_next_sub_gop_state` with the loop of `ihevce_lap_process` that takes the
types one at a time.
-/

namespace Libhevc.Encoder

-- ---------------------------------------------------------------------------
-- Parameters
-- ---------------------------------------------------------------------------

/-- What the checks and the lookahead read of `ihevce_static_cfg_params_t`. -/
structure GopParams where
  i4FieldPic : Int
  i4MaxTemporalLayers : Int
  i4MaxClosedGopPeriod : Int
  i4MinClosedGopPeriod : Int
  i4MaxCraOpenGopPeriod : Int
  i4MaxIOpenGopPeriod : Int
  deriving DecidableEq, Repr

inductive GopError
  | contentTypeNotSupported
  | temporalLayersNotSupported
  | invalidGopPeriod
  deriving DecidableEq, Repr

/-- `ALIGN2`, `ALIGN4` and `ALIGN8`, for `k` from 1 to 3. -/
def alignPow (k : Nat) (x : Int) : Int := i32 (i32 (x + (2 ^ k - 1)) / 2 ^ k * 2 ^ k)

/-- The periods for sub-GOPs of `2 ^ k` pictures. -/
def GopParams.alignPeriods (p : GopParams) (k : Nat) : GopParams :=
  { p with
    i4MaxClosedGopPeriod :=
      if 1 < p.i4MaxClosedGopPeriod then i32 (alignPow k p.i4MaxClosedGopPeriod + 1)
      else alignPow k p.i4MaxClosedGopPeriod
    i4MaxCraOpenGopPeriod := alignPow k p.i4MaxCraOpenGopPeriod
    i4MaxIOpenGopPeriod := alignPow k p.i4MaxIOpenGopPeriod }

/-- A period, or the largest number if it is 0. -/
def nonZeroPeriod (x : Int) : Int := if x ≠ 0 then x else 0x7FFFFFFF

def GopParams.maxIDistance (p : GopParams) : Int :=
  max (max p.i4MaxClosedGopPeriod p.i4MaxCraOpenGopPeriod) p.i4MaxIOpenGopPeriod

/-- The smallest period that is not 0. -/
def GopParams.minIDistance (p : GopParams) : Int :=
  min (min (nonZeroPeriod p.i4MaxClosedGopPeriod) (nonZeroPeriod p.i4MaxCraOpenGopPeriod))
    (nonZeroPeriod p.i4MaxIOpenGopPeriod)

/-- The number of temporal layers that are used, with sub-GOPs shorter than the longest period. -/
def GopParams.layersUsed (p : GopParams) : Int :=
  if p.maxIDistance ≤ 2 ^ p.i4MaxTemporalLayers.toNat - 1 then 0 else p.i4MaxTemporalLayers

def GopParams.subGopSize (p : GopParams) : Int :=
  2 ^ p.layersUsed.toNat * 2 ^ p.i4FieldPic.toNat

/-- The parameters with the number of layers and the periods that are used. -/
def GopParams.aligned (p : GopParams) : GopParams :=
  let q := { p with i4MaxTemporalLayers := p.layersUsed }
  if p.subGopSize = 2 then q.alignPeriods 1
  else if p.subGopSize = 4 then q.alignPeriods 2
  else if p.subGopSize = 8 then q.alignPeriods 3
  else q

/-- The checks of the periods, which change some of them. What is checked are the periods before
the change. -/
def ihevceCheckGopPeriods (p : GopParams) : Except GopError GopParams :=
  if p.i4FieldPic ≠ 0 then .error .contentTypeNotSupported
  else if p.i4MaxTemporalLayers < 0 ∨ 3 < p.i4MaxTemporalLayers then
    .error .temporalLayersNotSupported
  else if p.i4MaxClosedGopPeriod < 0 ∨ p.i4MaxCraOpenGopPeriod < 0 ∨ p.i4MaxIOpenGopPeriod < 0 then
    .error .invalidGopPeriod
  else if p.minIDistance < p.subGopSize ∧ p.minIDistance ≠ 0 then .error .invalidGopPeriod
  else if p.i4MaxClosedGopPeriod < p.i4MinClosedGopPeriod ∨ p.i4MinClosedGopPeriod < 0 then
    .error .invalidGopPeriod
  else if p.layersUsed ≠ 0 ∧ p.maxIDistance = 1 then .error .temporalLayersNotSupported
  else if (p.i4MaxClosedGopPeriod < p.i4MaxCraOpenGopPeriod ∨
      p.i4MaxClosedGopPeriod < p.i4MaxIOpenGopPeriod) ∧ p.i4MaxClosedGopPeriod ≠ 0 then
    .error .invalidGopPeriod
  else if p.i4MaxCraOpenGopPeriod < p.i4MaxIOpenGopPeriod ∧ p.i4MaxCraOpenGopPeriod ≠ 0 then
    .error .invalidGopPeriod
  else .ok p.aligned

-- ---------------------------------------------------------------------------
-- The state
-- ---------------------------------------------------------------------------

/-- `PIC_TYPE_E` -/
inductive PicTypeE
  | na
  | i
  | p
  | b
  | idr
  | cra
  deriving DecidableEq, Repr

/-- What the sub-GOPs are chosen by. -/
structure GopCfg where
  i4SubGopSize : Int
  i4SubGopSizeIdr : Int
  i4MaxIdrPeriod : Int
  i4MaxCraPeriod : Int
  i4MaxIPeriod : Int
  i4FixedOpenGopPeriod : Int
  i4FixedIPeriod : Int
  deriving DecidableEq, Repr

/-- The pictures since the last IDR, CRA and I picture. -/
structure GopCounters where
  i4IdrCounter : Int
  i4CraCounter : Int
  i4ICounter : Int
  deriving DecidableEq, Repr

/-- The fields of `lap_struct_t` that hold the types. -/
structure LapGop where
  cfg : GopCfg
  counters : GopCounters
  ai1PicType : Int → PicTypeE
  i4NumFrmTypeDecided : Int
  i4NextStartCtr : Int

/-- `i4_gop_period`. Where all periods are 0 it is not set, and keeps what the memory holds. -/
def GopParams.gopPeriod (p : GopParams) (mem : Int) : Int :=
  if p.i4MaxClosedGopPeriod ≠ 0 then
    if p.i4MaxCraOpenGopPeriod ≠ 0 then p.i4MaxCraOpenGopPeriod
    else if p.i4MaxIOpenGopPeriod ≠ 0 then p.i4MaxIOpenGopPeriod
    else p.i4MaxClosedGopPeriod
  else if p.i4MaxIOpenGopPeriod ≠ 0 then p.i4MaxIOpenGopPeriod
  else if p.i4MaxCraOpenGopPeriod ≠ 0 then p.i4MaxCraOpenGopPeriod
  else mem

/-- `i4_max_i_period` -/
def GopParams.lapMaxIPeriod (p : GopParams) (mem : Int) : Int :=
  if p.gopPeriod mem = 0 then 0x7fffffff
  else if p.i4MaxIOpenGopPeriod = 0 then
    i32 (2 * max p.i4MaxClosedGopPeriod p.i4MaxCraOpenGopPeriod)
  else p.i4MaxIOpenGopPeriod

def GopParams.isAllIPicInSeq (p : GopParams) : Prop :=
  p.i4MaxClosedGopPeriod = 1 ∨ p.i4MaxCraOpenGopPeriod = 1 ∨ p.i4MaxIOpenGopPeriod = 1

instance (p : GopParams) : Decidable p.isAllIPicInSeq :=
  inferInstanceAs (Decidable (_ ∨ _ ∨ _))

/-- The pictures of a frame. -/
def GopParams.fields (p : GopParams) : Int :=
  if p.i4FieldPic = 1 ∧ ¬p.isAllIPicInSeq then 2 else 1

def ihevceLapInit (p : GopParams) (mem : Int) : LapGop where
  cfg := {
    i4SubGopSize := 2 ^ p.i4MaxTemporalLayers.toNat * p.fields
    i4SubGopSizeIdr :=
      (2 ^ p.i4MaxTemporalLayers.toNat + if 0 < p.i4MaxTemporalLayers then 1 else 0) * p.fields
    i4MaxIdrPeriod := p.i4MaxClosedGopPeriod
    i4MaxCraPeriod := p.i4MaxCraOpenGopPeriod
    i4MaxIPeriod := p.lapMaxIPeriod mem
    i4FixedOpenGopPeriod := 1
    i4FixedIPeriod := 1 }
  counters := ⟨0, 0, 0⟩
  ai1PicType := fun k => if k = 0 then .idr else .na
  i4NumFrmTypeDecided := 0
  i4NextStartCtr := 0

-- ---------------------------------------------------------------------------
-- The next sub-GOP
-- ---------------------------------------------------------------------------

/-- The assertions on the counters. -/
def GopCounters.Asserts (k : GopCounters) (c : GopCfg) : Prop :=
  (c.i4MaxIdrPeriod ≠ 0 → k.i4IdrCounter < c.i4MaxIdrPeriod) ∧
    (c.i4MaxCraPeriod ≠ 0 → k.i4CraCounter < c.i4MaxCraPeriod) ∧
    (c.i4MaxIPeriod ≠ 0 → k.i4ICounter < c.i4MaxIPeriod)

/-- What is chosen for a sub-GOP: the number of B frames where there is one, the types that are
written to `ai1_pic_type`, their number and the counters behind them. -/
structure GopChoice where
  i4NumBFrames : Option Int
  writes : List (Int × PicTypeE)
  i4NumFrmTypeDecided : Int
  counters : GopCounters
  deriving DecidableEq, Repr

/-- `memset(&ai1_pic_type[1], PIC_TYPE_B, n)` -/
def memsetB (n : Int) : List (Int × PicTypeE) :=
  (List.range n.toNat).map fun (j : Nat) => ((j : Int) + 1, .b)

/-- `n` is added to the counters of the pictures that do not come. -/
def GopCounters.add (k : GopCounters) (n : Int) : GopCounters :=
  ⟨i32 (k.i4IdrCounter + n), i32 (k.i4CraCounter + n), i32 (k.i4ICounter + n)⟩

/-- One picture, where all pictures are I pictures. -/
def allIntraSubGop (c : GopCfg) (k : GopCounters) : GopChoice :=
  if c.i4MaxIdrPeriod = 1 ∨ i32 (k.i4IdrCounter + c.i4SubGopSize) = c.i4MaxIdrPeriod then
    ⟨none, [(1, .idr)], 1, ⟨0, 0, 0⟩⟩
  else if c.i4MaxCraPeriod = 1 ∨ i32 (k.i4CraCounter + c.i4SubGopSize) = c.i4MaxCraPeriod then
    ⟨none, [(1, .cra)], 1, { k.add 1 with i4CraCounter := 0, i4ICounter := 0 }⟩
  else ⟨none, [(1, .i)], 1, { k.add 1 with i4ICounter := 0 }⟩

def idrSubGop (c : GopCfg) (k : GopCounters) : GopChoice :=
  if c.i4SubGopSizeIdr ≠ c.i4SubGopSize then
    let i4NumBFrames := i32 (c.i4MaxIdrPeriod - k.i4IdrCounter - 2)
    ⟨some i4NumBFrames,
      memsetB i4NumBFrames ++ [(i4NumBFrames + 1, .p), (i4NumBFrames + 2, .idr)],
      i4NumBFrames + 2, ⟨0, 0, 0⟩⟩
  else ⟨some 0, [(1, .idr)], 1, ⟨0, 0, 0⟩⟩

def craSubGop (c : GopCfg) (k : GopCounters) : GopChoice :=
  if i32 (k.i4CraCounter + c.i4SubGopSize) = c.i4MaxCraPeriod ∨ c.i4FixedOpenGopPeriod = 1 then
    let i4NumBFrames := i32 (c.i4MaxCraPeriod - k.i4CraCounter - 1)
    ⟨some i4NumBFrames, memsetB i4NumBFrames ++ [(i4NumBFrames + 1, .cra)], i4NumBFrames + 1,
      { k.add (i4NumBFrames + 1) with i4CraCounter := 0, i4ICounter := 0 }⟩
  else
    let i4NumBFrames := c.i4SubGopSize - 1
    ⟨some i4NumBFrames, (0, .cra) :: memsetB i4NumBFrames ++ [(i4NumBFrames + 1, .p)],
      i4NumBFrames + 1,
      { k.add (i4NumBFrames + 1) with
        i4CraCounter := i4NumBFrames + 1, i4ICounter := i4NumBFrames + 1 }⟩

def iSubGop (c : GopCfg) (k : GopCounters) : GopChoice :=
  if i32 (k.i4ICounter + c.i4SubGopSize) = c.i4MaxIPeriod ∨ c.i4FixedIPeriod = 1 then
    let i4NumBFrames := i32 (c.i4MaxIPeriod - k.i4ICounter - 1)
    ⟨some i4NumBFrames, memsetB i4NumBFrames ++ [(i4NumBFrames + 1, .i)], i4NumBFrames + 1,
      { k.add (i4NumBFrames + 1) with i4ICounter := 0 }⟩
  else
    let i4NumBFrames := c.i4SubGopSize - 1
    ⟨some i4NumBFrames, (0, .i) :: memsetB i4NumBFrames ++ [(i4NumBFrames + 1, .p)],
      i4NumBFrames + 1, { k.add (i4NumBFrames + 1) with i4ICounter := i4NumBFrames + 1 }⟩

def pSubGop (c : GopCfg) (k : GopCounters) : GopChoice :=
  let i4NumBFrames := c.i4SubGopSize - 1
  ⟨some i4NumBFrames, memsetB i4NumBFrames ++ [(i4NumBFrames + 1, .p)], i4NumBFrames + 1,
    k.add (i4NumBFrames + 1)⟩

def nextSubGop (c : GopCfg) (k : GopCounters) : GopChoice :=
  if c.i4MaxIdrPeriod = 1 ∨ c.i4MaxCraPeriod = 1 ∨ c.i4MaxIPeriod = 1 then allIntraSubGop c k
  else if c.i4MaxIdrPeriod ≤ i32 (k.i4IdrCounter + c.i4SubGopSizeIdr) ∧ c.i4MaxIdrPeriod ≠ 0 then
    idrSubGop c k
  else if c.i4MaxCraPeriod ≤ i32 (k.i4CraCounter + c.i4SubGopSize) ∧ c.i4MaxCraPeriod ≠ 0 then
    craSubGop c k
  else if c.i4MaxIPeriod ≤ i32 (k.i4ICounter + c.i4SubGopSize) ∧ c.i4MaxIPeriod ≠ 0 then
    iSubGop c k
  else pSubGop c k

/-- The types are written one after the other. -/
def writeTypes (a : Int → PicTypeE) (writes : List (Int × PicTypeE)) : Int → PicTypeE :=
  writes.foldl (fun a w k => if k = w.1 then w.2 else a k) a

/-- No IDR picture is forced. -/
def ihevceDetermineNextSubGopState (s : LapGop) : LapGop :=
  let sub := nextSubGop s.cfg s.counters
  { s with
    counters := sub.counters
    ai1PicType := writeTypes s.ai1PicType sub.writes
    i4NumFrmTypeDecided := sub.i4NumFrmTypeDecided }

/-- The next picture of `ihevce_lap_process`. -/
def lapPicture (s : LapGop) : PicTypeE × LapGop :=
  let s := if s.i4NumFrmTypeDecided = 0 then
      { ihevceDetermineNextSubGopState
          { s with ai1PicType := writeTypes s.ai1PicType [(0, s.ai1PicType s.i4NextStartCtr)] } with
        i4NextStartCtr := 0 }
    else s
  if s.i4NumFrmTypeDecided ≠ 0 then
    (s.ai1PicType s.i4NextStartCtr,
      { s with
        i4NumFrmTypeDecided := s.i4NumFrmTypeDecided - 1
        i4NextStartCtr := s.i4NextStartCtr + 1 })
  else (.na, s)

/-- The state before picture `n`. -/
def LapGop.atPicture (s : LapGop) : (n : Nat) → LapGop
  | 0 => s
  | n + 1 => (lapPicture (s.atPicture n)).2

/-- The type of picture `n`. -/
def LapGop.picType (s : LapGop) (n : Nat) : PicTypeE := (lapPicture (s.atPicture n)).1

end Libhevc.Encoder
