import Libhevc.Lib.Memory
import Libhevc.Common.Platform

/-!
# The job queue

`ihevcd_job_queue.c`. Addresses are numbers, a job is the list of its bytes,
and what a function does between its lock and its unlock is one step. A
blocking dequeue gives up the lock at `ihevcd_jobq_yield` and goes on inside its
loop when it has the lock again.
-/

namespace Libhevc.Decoder

open Memory

/-- `jobq_t`, and the memory its pointers point into. -/
structure Jobq where
  mem : Nat → Nat
  pvBufBase : Nat
  pvBufWr : Nat
  pvBufRd : Nat
  pvBufEnd : Nat
  i4Terminate : Int

def ihevcdJobqInit (mem : Nat → Nat) (pvBuf bufSize sizeofJobq mutexLockSize : Nat) :
    Option Jobq :=
  if bufSize ≤ sizeofJobq + mutexLockSize then none
  else
    let pu1Buf := pvBuf + sizeofJobq + mutexLockSize
    some
      { mem
        pvBufBase := pu1Buf
        pvBufWr := pu1Buf
        pvBufRd := pu1Buf
        pvBufEnd := pu1Buf + (bufSize - sizeofJobq - mutexLockSize)
        i4Terminate := 0 }

def ihevcdJobqReset (q : Jobq) : Jobq :=
  { q with pvBufWr := q.pvBufBase, pvBufRd := q.pvBufBase, i4Terminate := 0 }

def ihevcdJobqTerminate (q : Jobq) : Jobq := { q with i4Terminate := 1 }

def ihevcdJobqQueue (q : Jobq) (pvJob : List Nat) : IhevcdErrorT × Jobq :=
  if q.pvBufWr + pvJob.length ≤ q.pvBufEnd then
    (.success,
      { q with
        mem := copy q.mem q.pvBufWr pvJob
        pvBufWr := q.pvBufWr + pvJob.length
        i4Terminate := 0 })
  else (.fail, { q with i4Terminate := 0 })

/-- How a dequeue leaves its critical section. -/
inductive DequeueExit
  | success (pvJob : List Nat)
  | fail
  | yield
  deriving DecidableEq, Repr

/-- One round of the loop of `ihevcd_jobq_dequeue`; `none` is the branch without a `break`,
which goes round again with nothing changed. -/
def dequeueRound (q : Jobq) (jobSize : Nat) (blocking : Int) : Option (DequeueExit × Jobq) :=
  if q.pvBufRd + jobSize ≤ q.pvBufWr then
    some (.success (cells q.mem q.pvBufRd jobSize), { q with pvBufRd := q.pvBufRd + jobSize })
  else if q.i4Terminate = 1 then some (.fail, q)
  else if blocking = 1 then some (.yield, q)
  else none

/-- The loop, for a number of rounds. -/
def dequeueLoop (q : Jobq) (jobSize : Nat) (blocking : Int) :
    Nat → Option (DequeueExit × Jobq)
  | 0 => none
  | rounds + 1 =>
    match dequeueRound q jobSize blocking with
    | some exit => some exit
    | none => dequeueLoop q jobSize blocking rounds

def ihevcdJobqDequeue (q : Jobq) (jobSize : Nat) (blocking : Int) (rounds : Nat) :
    Option (DequeueExit × Jobq) :=
  if q.pvBufRd + jobSize ≤ q.pvBufEnd then dequeueLoop q jobSize blocking rounds
  else some (.fail, q)

-- ---------------------------------------------------------------------------
-- What the queue holds
-- ---------------------------------------------------------------------------

/-- The jobs `jobs`, each of `size` bytes, stand between the two pointers. -/
structure Jobq.Holding (size : Nat) (q : Jobq) (jobs : List (List Nat)) : Prop where
  sizes : ∀ job ∈ jobs, job.length = size
  write : q.pvBufWr = q.pvBufRd + jobs.flatten.length
  inside : q.pvBufWr ≤ q.pvBufEnd
  bytes : Holds q.mem q.pvBufRd jobs.flatten

/-- A queue nobody has used since it was initialised or reset. -/
structure Jobq.Fresh (q : Jobq) : Prop where
  write : q.pvBufWr = q.pvBufBase
  read : q.pvBufRd = q.pvBufBase
  inside : q.pvBufBase ≤ q.pvBufEnd
  running : q.i4Terminate = 0

theorem jobqInit_fresh (h : ihevcdJobqInit mem pvBuf bufSize sizeofJobq lockSize = some q) :
    q.Fresh := by
  unfold ihevcdJobqInit at h
  split at h
  · contradiction
  · obtain rfl := Option.some.inj h
    exact ⟨rfl, rfl, Nat.le_add_right _ _, rfl⟩

theorem jobqReset_fresh {q : Jobq} (h : q.pvBufBase ≤ q.pvBufEnd) :
    (ihevcdJobqReset q).Fresh :=
  ⟨rfl, rfl, h, rfl⟩

theorem Jobq.Fresh.holding {q : Jobq} (h : q.Fresh) : q.Holding size [] := by
  constructor
  · intro job hj
    contradiction
  · rw [h.write, h.read]
    rfl
  · rw [h.write]
    exact h.inside
  · exact Holds.nil

theorem Jobq.Holding.terminate {q : Jobq} (h : q.Holding size jobs) :
    (ihevcdJobqTerminate q).Holding size jobs :=
  ⟨h.sizes, h.write, h.inside, h.bytes⟩

theorem jobqQueue_success {q : Jobq} (h : (ihevcdJobqQueue q job).1 = .success) :
    q.pvBufWr + job.length ≤ q.pvBufEnd ∧
      (ihevcdJobqQueue q job).2 =
        { q with
          mem := copy q.mem q.pvBufWr job
          pvBufWr := q.pvBufWr + job.length
          i4Terminate := 0 } := by
  unfold ihevcdJobqQueue at h ⊢
  split at h
  case isTrue hroom =>
    rw [if_pos hroom]
    exact ⟨hroom, rfl⟩
  case isFalse => contradiction

/-- A queued job stands behind the jobs that were there. -/
theorem Jobq.Holding.queue {q : Jobq} (h : q.Holding size jobs)
    (hs : (ihevcdJobqQueue q job).1 = .success) (hsize : job.length = size) :
    (ihevcdJobqQueue q job).2.Holding size (jobs ++ [job]) := by
  obtain ⟨hroom, hq⟩ := jobqQueue_success hs
  rw [hq]
  constructor
  · intro j hj
    rcases List.mem_append.mp hj with hj | hj
    · exact h.sizes j hj
    · obtain rfl := List.mem_singleton.mp hj
      exact hsize
  · simp [h.write, Nat.add_assoc]
  · exact hroom
  · rw [List.flatten_append, List.flatten_singleton]
    change Holds (copy q.mem q.pvBufWr job) q.pvBufRd _
    rw [h.write]
    exact h.bytes.copy_append

-- ---------------------------------------------------------------------------
-- The rounds of a dequeue
-- ---------------------------------------------------------------------------

theorem dequeueLoop_exit {rounds : Nat}
    (h : dequeueRound q size blocking = some exit) :
    dequeueLoop q size blocking (rounds + 1) = some exit := by
  rw [dequeueLoop, h]

/-- A round that does not leave is followed by the same round. -/
theorem dequeueLoop_spins (h : dequeueRound q size blocking = none) (rounds : Nat) :
    dequeueLoop q size blocking rounds = none := by
  induction rounds with
  | zero => rfl
  | succ rounds ih => rw [dequeueLoop, h, ih]

theorem dequeueLoop_eq_some (h : dequeueLoop q size blocking rounds = some exit) :
    dequeueRound q size blocking = some exit := by
  cases hr : dequeueRound q size blocking with
  | none =>
    rw [dequeueLoop_spins hr] at h
    contradiction
  | some exit' =>
    cases rounds with
    | zero => contradiction
    | succ rounds =>
      rw [dequeueLoop_exit hr] at h
      exact h

/-- What a round does, by what the queue holds. -/
theorem Jobq.Holding.round_cons {q : Jobq} (h : q.Holding size (job :: jobs)) :
    dequeueRound q size blocking =
      some (.success job, { q with pvBufRd := q.pvBufRd + size }) := by
  have hlen : job.length = size := h.sizes job List.mem_cons_self
  have hle : q.pvBufRd + size ≤ q.pvBufWr := by
    rw [h.write, List.flatten_cons, List.length_append, hlen]
    omega
  have hjob : cells q.mem q.pvBufRd size = job := by
    have hb := h.bytes
    rw [List.flatten_cons, Holds.append] at hb
    rw [← hlen]
    exact hb.1.cells_eq
  rw [dequeueRound, if_pos hle, hjob]

theorem Jobq.Holding.dequeued {q : Jobq} (h : q.Holding size (job :: jobs)) :
    Jobq.Holding size { q with pvBufRd := q.pvBufRd + size } jobs := by
  have hlen : job.length = size := h.sizes job List.mem_cons_self
  have hw := h.write
  have hb := h.bytes
  rw [List.flatten_cons, List.length_append, hlen] at hw
  rw [List.flatten_cons, Holds.append, hlen] at hb
  constructor
  · intro j hj
    exact h.sizes j (List.mem_cons_of_mem _ hj)
  · simpa [Nat.add_assoc] using hw
  · exact h.inside
  · exact hb.2

theorem Jobq.Holding.round_nil {q : Jobq} (h : q.Holding size []) (hpos : 0 < size)
    (blocking : Int) :
    dequeueRound q size blocking =
      if q.i4Terminate = 1 then some (.fail, q)
      else if blocking = 1 then some (.yield, q) else none := by
  have hw : q.pvBufWr = q.pvBufRd := h.write
  rw [dequeueRound, if_neg (by omega)]

theorem Jobq.Holding.room_of_cons {q : Jobq} (h : q.Holding size (job :: jobs)) :
    q.pvBufRd + size ≤ q.pvBufEnd := by
  have hlen : job.length = size := h.sizes job List.mem_cons_self
  have hw := h.write
  have hi := h.inside
  rw [List.flatten_cons, List.length_append, hlen] at hw
  omega

end Libhevc.Decoder
