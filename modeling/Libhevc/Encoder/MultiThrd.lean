import Mathlib.Data.Int.Order.Basic
import Mathlib.Logic.Function.Basic
import Mathlib.Tactic.Common

/-!
# Job queues of the encoder

The queues of `ihevce_multi_thrd_funcs.c`: jobs are taken from a queue in their order,
each one when the bytes it waits for are cleared. A job that is finished clears bytes of
jobs in other queues.
-/

namespace Libhevc.Encoder

/-- `MAX_IN_DEP` -/
def maxInDep : Nat := 80

/-- `MAX_OUT_DEP` -/
def maxOutDep : Nat := 80

/-- An offset into the job buffer: a byte of `au1_in_dep` of a job of a queue. -/
structure OutOfst where
  queue : Nat
  job : Nat
  byte : Nat
  deriving DecidableEq, Repr

/-- `job_queue_t`; `au4_out_ofsts` up to `i4_num_output_dep`. -/
structure Job where
  i4VertUnitRowNo : Nat
  i4TileColIdx : Nat
  i4NumInputDep : Nat
  au4OutOfsts : List OutOfst
  deriving DecidableEq, Repr

/-- What `au1_in_dep` is set to. -/
def Job.au1InDep (job : Job) (byte : Nat) : Nat := if byte < job.i4NumInputDep then 1 else 0

/-- The queues of a job buffer. In each, the jobs are linked in the order of the list. -/
abbrev JobQueues := Nat → List Job

/-- A place in a queue. -/
abbrev JobPlace := Nat × Nat

def JobQueues.job? (q : JobQueues) (p : JobPlace) : Option Job := (q p.1)[p.2]?

/-- The queues while workers take jobs from them. -/
structure JobGrp where
  /-- `pv_next` of each handle; the end of the list for `NULL`. -/
  pvNext : Nat → Nat
  au1InDep : JobPlace → Nat → Nat
  /-- The job of each worker. -/
  currJob : Nat → Option JobPlace
  /-- The jobs that were handed out, and those that were finished. -/
  handed : List JobPlace
  done : List JobPlace

/-- `ihevce_is_nonzero` of `au1_in_dep` -/
def JobGrp.isNonzero (s : JobGrp) (p : JobPlace) : Bool :=
  (List.range maxInDep).any fun byte => s.au1InDep p byte ≠ 0

/-- `ihevce_enc_grp_get_next_job`, `ihevce_pre_enc_grp_get_next_job`. In blocking mode the call
returns when the head of the queue does not wait. -/
def grpGetNextJob (q : JobQueues) (i4JobType : Nat) (s : JobGrp) : Option JobPlace × JobGrp :=
  let p := (i4JobType, s.pvNext i4JobType)
  if (q.job? p).isSome then
    if s.isNonzero p then (none, s)
    else
      (some p, { s with pvNext := Function.update s.pvNext i4JobType (s.pvNext i4JobType + 1) })
  else (none, s)

/-- `ihevce_enc_grp_job_set_out_dep`, `ihevce_pre_enc_grp_job_set_out_dep` -/
def grpJobSetOutDep (job : Job) (s : JobGrp) : JobGrp :=
  { s with
    au1InDep := fun p byte =>
      if (⟨p.1, p.2, byte⟩ : OutOfst) ∈ job.au4OutOfsts then 0 else s.au1InDep p byte }

/-- After the preparation. -/
def JobQueues.start (q : JobQueues) : JobGrp where
  pvNext _ := 0
  au1InDep p byte := ((q.job? p).map fun job => job.au1InDep byte).getD 0
  currJob _ := none
  handed := []
  done := []

/-- One call of one of `numThrds` workers. -/
inductive JobStep (q : JobQueues) (numThrds : Nat) : JobGrp → JobGrp → Prop
  | get (hthrd : thrd < numThrds) (hidle : s.currJob thrd = none)
      (hget : grpGetNextJob q i4JobType s = (some p, s')) :
      JobStep q numThrds s
        { s' with
          currJob := Function.update s.currJob thrd (some p)
          handed := p :: s.handed }
  | setOutDep (hthrd : thrd < numThrds) (hcurr : s.currJob thrd = some p)
      (hjob : q.job? p = some job) :
      JobStep q numThrds s
        { grpJobSetOutDep job s with
          currJob := Function.update s.currJob thrd none
          done := p :: s.done }

/-- The states after a number of calls. -/
inductive JobRun (q : JobQueues) (numThrds : Nat) : Nat → JobGrp → Prop
  | start : JobRun q numThrds 0 q.start
  | step (h : JobRun q numThrds n s) (hs : JobStep q numThrds s s') :
      JobRun q numThrds (n + 1) s'

/-- Job `p` clears a byte of job `c`. -/
def JobQueues.Clears (q : JobQueues) (p c : JobPlace) (byte : Nat) : Prop :=
  ∃ job, q.job? p = some job ∧ (⟨c.1, c.2, byte⟩ : OutOfst) ∈ job.au4OutOfsts

/-- How the jobs are linked: each byte that is set is cleared by one job, of an earlier queue. With
at most `stride` jobs a queue, offsets stay in the queue and in the bytes of a job. -/
structure JobQueues.Linked (q : JobQueues) (stride : Nat) : Prop where
  length_le : ∀ t, (q t).length ≤ stride
  inDep : ∀ p job, q.job? p = some job → job.i4NumInputDep ≤ maxInDep
  outDep : ∀ p job, q.job? p = some job → job.au4OutOfsts.length ≤ maxOutDep
  inBuffer : ∀ p c byte, q.Clears p c byte → p.1 < c.1 ∧ c.2 < stride ∧ byte < maxInDep
  cleared : ∀ c job, q.job? c = some job →
    ∀ byte, byte < job.i4NumInputDep ↔ ∃ p, q.Clears p c byte
  once : ∀ p p' c byte, q.Clears p c byte → q.Clears p' c byte → p = p'
  outs_nodup : ∀ p job, q.job? p = some job → job.au4OutOfsts.Nodup

-- ---------------------------------------------------------------------------
-- The encode group
-- ---------------------------------------------------------------------------

/-- `MAX_NUM_VERT_UNITS_FRM` -/
def maxNumVertUnitsFrm : Nat := 136

/-- `IHEVCE_MAX_NUM_BITRATES` -/
def maxNumBitrates : Nat := 1

/-- What the queues of the encode group are prepared for. -/
structure EncJobPrms where
  i4NumCtbsVert : Nat
  i4NumTileCols : Nat
  i4NumBitrates : Nat
  /-- The picture is an I or IDR picture. -/
  isIntra : Bool
  numCtbsVert_pos : 0 < i4NumCtbsVert
  numCtbsVert_le : i4NumCtbsVert ≤ maxNumVertUnitsFrm
  numTileCols_pos : 0 < i4NumTileCols
  numBitrates_pos : 0 < i4NumBitrates
  numBitrates_le : i4NumBitrates ≤ maxNumBitrates

def Job.zeroed : Job := ⟨0, 0, 0, []⟩

/-- A job for each row and tile column; each one clears the first byte of the job at the same place
of the next queue. -/
def EncJobPrms.jobs (e : EncJobPrms) (inpDep outDep next : Nat) : List Job :=
  (List.range (e.i4NumCtbsVert * e.i4NumTileCols)).map fun n =>
    { i4VertUnitRowNo := n / e.i4NumTileCols
      i4TileColIdx := n % e.i4NumTileCols
      i4NumInputDep := inpDep
      au4OutOfsts := (List.range outDep).map fun _ => ⟨next, n, 0⟩ }

/-- `ihevce_prepare_job_queue`: `ME_JOB_ENC_LYR`, and `ENC_LOOP_JOB` of each bit rate. Without
motion estimation the handle of its queue points to a job of zeros. -/
def ihevcePrepareJobQueue (e : EncJobPrms) : JobQueues
  | 0 => if e.isIntra then [.zeroed] else e.jobs 0 1 1
  | i + 1 =>
    if i < e.i4NumBitrates then
      let outDep := if i = e.i4NumBitrates - 1 then 0 else 1
      e.jobs (if e.isIntra then 0 else 1) outDep (i + 2)
    else []

-- ---------------------------------------------------------------------------
-- The pre-encode group
-- ---------------------------------------------------------------------------

/-- A job before its offsets are known: how many bytes it waits for, and the jobs of the next queue
in which it clears a byte each. -/
structure PrepJob where
  i4NumInputDep : Nat
  outDepUnits : List Nat
  deriving DecidableEq, Repr

/-- The loop over the output dependencies of a job. The jobs of the next queue count in
`i4_num_input_dep` how many bytes of them are taken. -/
def setOutOfsts (next : Nat) : List Nat → (Nat → Nat) → List OutOfst × (Nat → Nat)
  | [], i4NumInputDep => ([], i4NumInputDep)
  | jobOff :: units, i4NumInputDep =>
    let r := setOutOfsts next units
      (Function.update i4NumInputDep jobOff (i4NumInputDep jobOff + 1))
    (⟨next, jobOff, i4NumInputDep jobOff⟩ :: r.1, r.2)

/-- The loop over the jobs of a queue. -/
def prepareJobs (next : Nat) : Nat → List PrepJob → (Nat → Nat) → List Job
  | _, [], _ => []
  | numJobs, job :: jobs, i4NumInputDep =>
    let r := setOutOfsts next job.outDepUnits i4NumInputDep
    { i4VertUnitRowNo := numJobs
      i4TileColIdx := 0
      i4NumInputDep := job.i4NumInputDep
      au4OutOfsts := r.1 } :: prepareJobs next (numJobs + 1) jobs r.2

/-- The queues that are prepared, each one before the one it clears bytes of. -/
def preparePasses : List (Nat × List PrepJob) → JobQueues
  | [] => fun _ => []
  | (pass, jobs) :: passes =>
    Function.update (preparePasses passes) pass
      (prepareJobs ((passes.map Prod.fst).headD 0) 0 jobs fun _ => 0)

/-- What the queues of the pre-encode group are prepared for: the aligned size of the picture, and
whether the coarse motion estimation has its layer 0 marked as encoded. CTBs are of 64 samples. -/
structure PreEncPrms where
  i4CuAlignedPicWd : Nat
  i4CuAlignedPicHt : Nat
  u1Encode : Bool
  picWd_ge : 64 ≤ i4CuAlignedPicWd
  picHt_ge : 64 ≤ i4CuAlignedPicHt
  picHt_le : i4CuAlignedPicHt ≤ 1088

def ceil16 (x : Nat) : Nat := (x + 15) / 16 * 16

/-- The sizes of the layers of a side. -/
def lyrSize (size : Nat) : Nat → Nat
  | 0 => size
  | i + 1 => ceil16 (lyrSize size i >>> 1)

/-- `hme_derive_num_layers`, with one encode layer and `MAX_NUM_LAYERS` 4, from layer `i` on. -/
def hmeDeriveNumLayers (wd ht : Nat) : (n i : Nat) → Nat
  | 0, i => i
  | n + 1, i =>
    if lyrSize wd (i - 1) < 2 * 16 ∨ lyrSize ht (i - 1) < 2 * 16 then i
    else hmeDeriveNumLayers wd ht n (i + 1)

namespace PreEncPrms

variable (e : PreEncPrms)

def aHt (i : Nat) : Nat := lyrSize e.i4CuAlignedPicHt i

def numHmeLyrs : Nat := hmeDeriveNumLayers e.i4CuAlignedPicWd e.i4CuAlignedPicHt 3 1

def numCtbVertRows : Nat := (e.i4CuAlignedPicHt + 63) / 64

/-- `num_vert_units` of the decomposition layers: that of layer 3 in all of them. -/
def decompNumVertUnits : Nat := (e.aHt 3 + 8) / 8

/-- `hme_get_blk_size` -/
def hmeGetBlkSize (layerId nLayers : Nat) : Nat :=
  if layerId = nLayers - 1 then 4 else if layerId = 0 then 16 else 8

/-- The height of a unit; `u1_encode` is set in layer 0 at most. -/
def unitHt (i : Nat) : Nat :=
  if i = 0 ∧ e.u1Encode = true then 64 else hmeGetBlkSize i e.numHmeLyrs

/-- The units of a layer; the coarsest layer has one more. -/
def numVert (i : Nat) : Nat :=
  let numVert := (e.aHt i + e.unitHt i - 1) / e.unitHt i
  if i = e.numHmeLyrs - 1 then numVert + 1 else numVert

def hmeClip (x lo hi : Int) : Int := if x < lo then lo else if hi < x then hi else x

/-- The units of layer `i` that unit `j` of layer `i + 1` has an effect on. -/
def outDepUnits (i j : Nat) : List Nat :=
  let v1 := Int.tdiv (((j : Int) - 1) * e.unitHt (i + 1) * e.aHt i)
    (e.aHt (i + 1) * e.unitHt i) - 1
  let v2 := Int.tdiv (((j : Int) + 1) * e.unitHt (i + 1) * e.aHt i)
    (e.aHt (i + 1) * e.unitHt i) + 1
  let v1 := hmeClip v1 0 (e.numVert i - 1)
  let v2 := hmeClip v2 0 (e.numVert i - 1)
  List.range' v1.toNat (v2 - v1 + 1).toNat

/-- `au1_inp_dep` of layer `i`, counted in bytes. -/
def inpDep (i : Nat) : Nat → Nat :=
  ((List.range (e.numVert (i + 1))).flatMap (e.outDepUnits i)).foldl
    (fun dep k => Function.update dep k ((dep k + 1) % 256)) fun _ => 0

/-- `ihevce_coarse_me_get_lyr_prms_job_que`, layer `i + 1`; the coarsest layer waits for all of the
decomposition. -/
def meJobs (i : Nat) : List PrepJob :=
  (List.range (e.numVert (i + 1))).map fun j =>
    { i4NumInputDep :=
        if i + 1 = e.numHmeLyrs - 1 then e.decompNumVertUnits else e.inpDep (i + 1) j
      outDepUnits := e.outDepUnits i j }

/-- Layer 0 is not estimated here; the intra analysis of a CTB row has its input dependencies. -/
def ipeJobs : List PrepJob :=
  (List.range e.numCtbVertRows).map fun j => { i4NumInputDep := e.inpDep 0 j, outDepUnits := [] }

/-- `DECOMP_JOB_LYR0` + `pass`, of four layers. -/
def decompJobs (pass inpDepPass outDepPass : Nat) : List PrepJob :=
  let numVertUnits := e.decompNumVertUnits
  (List.range numVertUnits).map fun numJobs =>
    let isEdge : Bool := numJobs = 0 ∨ numJobs = numVertUnits - 1
    let inpDep := if pass ≠ 0 ∧ isEdge = true then inpDepPass - 1 else inpDepPass
    let outDep := if pass ≠ 2 ∧ isEdge = true then outDepPass - 1 else outDepPass
    let jobOff := if pass = 2 then 0 else if numJobs = 0 then numJobs else numJobs - 1
    { i4NumInputDep := inpDep, outDepUnits := List.range' jobOff outDep }

/-- The queues of motion estimation from layer `i` on, and the one of intra analysis. -/
def mePasses : Nat → List (Nat × List PrepJob)
  | 0 => [(8, e.ipeJobs)]
  | i + 1 => (7 - i, e.meJobs i) :: mePasses i

def passes : List (Nat × List PrepJob) :=
  (0, e.decompJobs 0 0 3) :: (1, e.decompJobs 1 3 3) ::
    (2, e.decompJobs 2 3 (e.numVert (e.numHmeLyrs - 1))) :: e.mePasses (e.numHmeLyrs - 1)

end PreEncPrms

/-- `ihevce_prepare_pre_enc_job_queue` -/
def ihevcePreparePreEncJobQueue (e : PreEncPrms) : JobQueues := preparePasses e.passes

end Libhevc.Encoder
