import Libhevc.Decoder.Collocated
import Libhevc.Lib.Memory

/-!
# The ring of slice headers

Parsing and processing of the CTBs of a picture, as far as slice headers and the
collocated tables of the MV bank go. CTBs are numbered in decoding order, so
those of a job stand one behind the other. Headers are stored at the slice index
modulo `MAX_SLICE_HDR_CNT`, and so are the rows of the tables.

Parsing and the threads that process take their steps in any order. The MV bank
of a picture is not given to another picture as long as it is referenced.
-/

namespace Libhevc.Decoder

open Memory

/-- The fields that a dependent slice segment copies are the lists, with counts and marks of the
active references, and `fields` for all others. `i4Ctb` is the first CTB, −1 before it is known. -/
structure RingHdr (α : Type) where
  i4Ctb : Int
  refPocs : ListX → List (Int × Nat)
  fields : α

/-- The headers say the same about the coding of their CTBs. -/
def RingHdr.SameData (h h' : RingHdr α) : Prop := h.refPocs = h'.refPocs ∧ h.fields = h'.fields

/-- The collocated tables of an MV bank, rows of reference indices, and its `pu1_pic_slice_map`. -/
structure MvTables where
  collocatedPoc : ListX → Nat → Nat → Int × Nat
  sliceMap : Nat → Nat

/-- A picture so far: the headers of all its slices, which nothing in the code keeps, and its
tables. -/
structure RingPic (α : Type) where
  slices : Nat → RingHdr α
  numSlices : Nat
  nextCtb : Nat
  mv : MvTables

/-- A process context, or a job: the next CTB, how many are left, and `i4_cur_slice_idx`. -/
structure ProcPlace where
  ctb : Nat
  ctbCnt : Nat
  sliceIdx : Nat

/-- A process context goes through its next CTBs once for each stage, each time from `start`. -/
structure ProcCtxt where
  start : ProcPlace
  cur : ProcPlace

structure RingState (α : Type) where
  pic : RingPic α
  sliceHdrBase : Nat → RingHdr α
  curSliceIdx : Nat
  curIndependentSliceIdx : Nat
  inSlice : Bool
  ctbsInSlice : Nat
  procMap : Nat → Bool
  jobs : List ProcPlace
  procs : List (Option ProcCtxt)
  finished : List (RingPic α)

inductive RingEvent (α : Type)
  | startSlice (i1DependentSliceFlag : Bool) (refPocs : ListX → List (Int × Nat)) (fields : α)
  /-- The CTB at the left of a tile makes a job of the row. -/
  | parseCtb (job : Option Nat)
  | endSlice
  | dequeue (proc : Nat)
  | process (proc : Nat)
  /-- The next stage, from the same CTB. -/
  | restore (proc : Nat)
  | advance (proc : Nat)
  | finish (proc : Nat)
  /-- The MV bank of the next picture has old tables. -/
  | endPic (collocatedPoc : ListX → Nat → Nat → Int × Nat)
  /-- Deblocking and SAO look up the header of a neighbour in the slice map. -/
  | neighbour (ctb : Nat)
  /-- A temporal vector from a CTB of a finished picture. -/
  | collocated (pic ctb : Nat) (lx : ListX) (refIdx : Nat)

/-- `ihevcd_slice_hdr_update` -/
def sliceHdrUpdate (sliceHdrBase : Nat → RingHdr α) (p : ProcPlace) : Nat :=
  if p.ctb ≠ 0 ∧ (sliceHdrBase ((p.sliceIdx + 1) % maxSliceHdrCnt)).i4Ctb = p.ctb then p.sliceIdx + 1
  else p.sliceIdx

/-- The header of a slice, and the beginning of its data. -/
def RingState.startSlice (s : RingState α) (i1DependentSliceFlag : Bool)
    (refPocs : ListX → List (Int × Nat)) (fields : α) : RingState α :=
  let slot := s.curSliceIdx % maxSliceHdrCnt
  let prev := s.sliceHdrBase ((s.curSliceIdx - 1) % maxSliceHdrCnt)
  let hdr : RingHdr α :=
    { i4Ctb := s.pic.nextCtb
      refPocs := if i1DependentSliceFlag then prev.refPocs else refPocs
      fields := if i1DependentSliceFlag then prev.fields else fields }
  let sliceHdrBase := set s.sliceHdrBase slot hdr
  { s with
    -- `ihevcd_parse_pic_init` with the first slice
    sliceHdrBase :=
      if s.curSliceIdx = 0 then
        fun i => if i = 0 then sliceHdrBase i else { sliceHdrBase i with i4Ctb := -1 }
      else sliceHdrBase
    curIndependentSliceIdx :=
      if s.curSliceIdx = 0 then 0
      else if i1DependentSliceFlag then s.curIndependentSliceIdx
      else slot
    inSlice := true
    ctbsInSlice := 0
    pic :=
      { s.pic with
        slices := set s.pic.slices s.pic.numSlices hdr
        numSlices := s.pic.numSlices + 1
        mv :=
          { s.pic.mv with
            collocatedPoc := fun lx row refIdx =>
              if row = slot then
                ((hdr.refPocs lx)[refIdx]?).getD (s.pic.mv.collocatedPoc lx row refIdx)
              else s.pic.mv.collocatedPoc lx row refIdx } } }

def RingState.parseCtb (s : RingState α) (job : Option Nat) : RingState α :=
  { s with
    ctbsInSlice := s.ctbsInSlice + 1
    jobs := s.jobs ++
      (job.map fun ctbCnt => { ctb := s.pic.nextCtb, ctbCnt, sliceIdx := s.curSliceIdx }).toList
    pic :=
      { s.pic with
        nextCtb := s.pic.nextCtb + 1
        mv :=
          { s.pic.mv with
            sliceMap := set s.pic.mv.sliceMap s.pic.nextCtb s.curIndependentSliceIdx } } }

/-- One step; `none` where there is none to take. -/
def RingState.step (numCores : Nat) (s : RingState α) : RingEvent α → Option (RingState α)
  | .startSlice i1DependentSliceFlag refPocs fields =>
    if s.inSlice = true ∨ (i1DependentSliceFlag = true ∧ s.curSliceIdx = 0) then none
    else some (s.startSlice i1DependentSliceFlag refPocs fields)
  | .parseCtb job => if s.inSlice then some (s.parseCtb job) else none
  | .endSlice =>
    if s.inSlice = true ∧ s.ctbsInSlice ≠ 0 ∧
        -- only when the index goes round, the other threads are waited for
        (numCores = 1 ∨ (s.curSliceIdx + 1) % maxSliceHdrCnt ≠ 0 ∨
          (List.range s.pic.nextCtb).all s.procMap = true) then
      some { s with inSlice := false, curSliceIdx := s.curSliceIdx + 1 }
    else none
  | .dequeue proc =>
    match s.procs[proc]?, s.jobs with
    | some none, job :: jobs =>
      some { s with jobs, procs := s.procs.set proc (some { start := job, cur := job }) }
    | _, _ => none
  | .process proc =>
    match s.procs[proc]? with
    | some (some p) =>
      if p.cur.ctbCnt ≠ 0 ∧ p.cur.ctb < s.pic.nextCtb then
        let cur : ProcPlace :=
          { ctb := p.cur.ctb + 1
            ctbCnt := p.cur.ctbCnt - 1
            sliceIdx := sliceHdrUpdate s.sliceHdrBase p.cur }
        some
          { s with
            procMap := set s.procMap p.cur.ctb true
            procs := s.procs.set proc (some { p with cur }) }
      else none
    | _ => none
  | .restore proc =>
    match s.procs[proc]? with
    | some (some p) => some { s with procs := s.procs.set proc (some { p with cur := p.start }) }
    | _ => none
  | .advance proc =>
    match s.procs[proc]? with
    | some (some p) => some { s with procs := s.procs.set proc (some { p with start := p.cur }) }
    | _ => none
  | .finish proc =>
    match s.procs[proc]? with
    | some (some p) =>
      if p.cur.ctbCnt = 0 then some { s with procs := s.procs.set proc none } else none
    | _ => none
  | .endPic collocatedPoc =>
    if s.ctbsInSlice ≠ 0 ∧ s.jobs = [] ∧ s.procs.all Option.isNone = true then
      some
        { s with
          finished := s.finished ++ [s.pic]
          curSliceIdx := 0
          inSlice := false
          ctbsInSlice := 0
          procMap := fun _ => false
          pic :=
            { s.pic with
              numSlices := 0
              nextCtb := 0
              mv := { collocatedPoc, sliceMap := fun _ => 0 } } }
    else none
  | .neighbour ctb => if ctb < s.pic.nextCtb then some s else none
  | .collocated pic ctb _ _ =>
    match s.finished[pic]? with
    | some pic => if ctb < pic.nextCtb then some s else none
    | none => none

/-- The slice contains the CTB. -/
def RingPic.Contains (pic : RingPic α) (t ctb : Nat) : Prop :=
  t < pic.numSlices ∧ (pic.slices t).i4Ctb ≤ ctb ∧
    (t + 1 < pic.numSlices → (ctb : Int) < (pic.slices (t + 1)).i4Ctb)

/-- What the step reads was written for the slice that contains the CTB. -/
def RingState.ReadsOwn (s : RingState α) : RingEvent α → Prop
  | .process proc => ∀ p, s.procs[proc]? = some (some p) → ∀ t, s.pic.Contains t p.cur.ctb →
      s.sliceHdrBase (sliceHdrUpdate s.sliceHdrBase p.cur % maxSliceHdrCnt) = s.pic.slices t
  | .neighbour ctb => ∀ t, s.pic.Contains t ctb →
      (s.sliceHdrBase (s.pic.mv.sliceMap ctb)).SameData (s.pic.slices t)
  | .collocated pic ctb lx refIdx => ∀ pic', s.finished[pic]? = some pic' →
      ∀ t, pic'.Contains t ctb → ∀ poc, ((pic'.slices t).refPocs lx)[refIdx]? = some poc →
        pic'.mv.collocatedPoc lx (pic'.mv.sliceMap ctb % maxSliceHdrCnt) refIdx = poc
  | _ => True

/-- The CTBs that contexts and jobs still have to go through begin here. -/
def RingState.Pending (s : RingState α) (p : ProcPlace) : Prop :=
  p ∈ s.jobs ∨ ∃ proc, some proc ∈ s.procs ∧ proc.start = p

/-- The step loses nothing that is still read: a slice begins when the CTBs of the slice
`MAX_SLICE_HDR_CNT` before it are done with; a header or an entry is read that no later slice with
the same place in the ring has written. -/
def RingState.Allows (s : RingState α) : RingEvent α → Prop
  | .startSlice .. => maxSliceHdrCnt ≤ s.curSliceIdx → ∀ p, s.Pending p →
      (s.pic.slices (s.curSliceIdx + 1 - maxSliceHdrCnt)).i4Ctb ≤ p.ctb
  | .neighbour ctb => ∀ t, s.pic.Contains t ctb → ∀ j, t < j → j < s.pic.numSlices →
      j % maxSliceHdrCnt ≠ s.pic.mv.sliceMap ctb
  | .collocated pic ctb lx refIdx => ∀ pic', s.finished[pic]? = some pic' →
      ∀ t, pic'.Contains t ctb → ∀ j, t < j → j < pic'.numSlices →
        j % maxSliceHdrCnt = pic'.mv.sliceMap ctb →
          ((pic'.slices j).refPocs lx)[refIdx]? = none ∨
            ((pic'.slices j).refPocs lx)[refIdx]? = ((pic'.slices t).refPocs lx)[refIdx]?
  | _ => True

/-- Before the first picture. -/
structure RingState.Start (s : RingState α) : Prop where
  numSlices : s.pic.numSlices = 0
  nextCtb : s.pic.nextCtb = 0
  curSliceIdx : s.curSliceIdx = 0
  inSlice : s.inSlice = false
  ctbsInSlice : s.ctbsInSlice = 0
  jobs : s.jobs = []
  procs : ∀ proc ∈ s.procs, proc = none
  finished : s.finished = []

/-- The runs of the decoder. -/
inductive RingRun (numCores : Nat) (start : RingState α) : RingState α → Prop
  | start : RingRun numCores start start
  | step {s s' : RingState α} (e : RingEvent α) : RingRun numCores start s →
      s.step numCores e = some s' → RingRun numCores start s'

/-- The runs whose steps lose nothing. -/
inductive KeptRun (numCores : Nat) (start : RingState α) : RingState α → Prop
  | start : KeptRun numCores start start
  | step {s s' : RingState α} (e : RingEvent α) : KeptRun numCores start s → s.Allows e →
      s.step numCores e = some s' → KeptRun numCores start s'

end Libhevc.Decoder
