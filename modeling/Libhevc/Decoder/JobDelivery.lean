import Libhevc.Decoder.JobQueue
import Mathlib.Logic.Relation

/-!
# Job queue delivery

Any number of threads queue and dequeue jobs of one size, in any order of their
critical sections; no job is queued once the queue was terminated.
-/

namespace Libhevc.Decoder

open Memory Relation

/-- The queue, the threads that yielded inside a dequeue, and what happened so far. -/
structure World where
  q : Jobq
  waiting : Nat → Bool
  closed : Bool
  queued : List (List Nat)
  delivered : List (Nat × List Nat)

/-- The jobs that were handed out, in the order of their dequeues. -/
def World.handedOut (w : World) : List (List Nat) := w.delivered.map Prod.snd

/-- Thread `t` leaves the critical section of a dequeue. -/
def World.leave (w : World) (t : Nat) : DequeueExit × Jobq → World
  | (.success pvJob, q) =>
    { w with
      q
      waiting := set w.waiting t false
      delivered := w.delivered ++ [(t, pvJob)] }
  | (.fail, q) => { w with q, waiting := set w.waiting t false }
  | (.yield, q) => { w with q, waiting := set w.waiting t true }

/-- One critical section of one thread. -/
inductive World.Step (size : Nat) : World → World → Prop
  | queue (hopen : w.closed = false) (hsize : job.length = size)
      (hroom : (ihevcdJobqQueue w.q job).1 = .success) :
      Step size w { w with q := (ihevcdJobqQueue w.q job).2, queued := w.queued ++ [job] }
  | terminate (hopen : w.closed = false) :
      Step size w { w with q := ihevcdJobqTerminate w.q, closed := true }
  | dequeue (hidle : w.waiting t = false)
      (hexit : ihevcdJobqDequeue w.q size blocking rounds = some exit) :
      Step size w (w.leave t exit)
  | resume (hwait : w.waiting t = true)
      (hexit : dequeueLoop w.q size 1 rounds = some exit) :
      Step size w (w.leave t exit)

/-- The world of a queue nobody has used. -/
structure World.Start (w : World) : Prop where
  fresh : w.q.Fresh
  waiting : ∀ t, w.waiting t = false
  closed : w.closed = false
  queued : w.queued = []
  delivered : w.delivered = []

/-- The worlds an interleaving can lead to. -/
def World.Reachable (size : Nat) (w : World) : Prop :=
  ∃ start : World, start.Start ∧ ReflTransGen (Step size) start w

/-- What a dequeue has to answer: the next job; failure only when every queued job was handed
out, and on a blocking call only when no job will follow; a yield only to wait for more. -/
def DequeueExit.Right (size : Nat) (w : World) (blocking : Int) : DequeueExit → Prop
  | .success pvJob => ∃ rest, w.queued = w.handedOut ++ pvJob :: rest
  | .fail => w.queued = w.handedOut ∧
      (blocking = 1 → ∀ w', ReflTransGen (World.Step size) w w' → w'.queued = w.queued)
  | .yield => blocking = 1 ∧ w.queued = w.handedOut ∧ w.closed = false

/-- A critical section of a dequeue comes to its end, always with a right answer. -/
structure World.Answers (size : Nat) (w : World) (blocking : Int)
    (critical : Nat → Option (DequeueExit × Jobq)) : Prop where
  ends : ∃ rounds, (critical rounds).isSome
  right : ∀ rounds exit q, critical rounds = some (exit, q) → exit.Right size w blocking

/-- The dequeue would find the queue empty and open, and does not block. -/
def World.Starves (size : Nat) (w : World) (blocking : Int) : Prop :=
  blocking ≠ 1 ∧ w.q.pvBufWr < w.q.pvBufRd + size ∧ w.q.i4Terminate ≠ 1

-- ---------------------------------------------------------------------------
-- The invariant
-- ---------------------------------------------------------------------------

/-- The queue holds what was queued and not yet handed out. -/
structure World.Consistent (size : Nat) (w : World) (jobs : List (List Nat)) : Prop where
  holding : w.q.Holding size jobs
  queued : w.queued = w.handedOut ++ jobs
  terminate : w.q.i4Terminate = 1 ↔ w.closed = true

theorem World.Start.consistent {w : World} (h : w.Start) : w.Consistent size [] := by
  constructor
  · exact h.fresh.holding
  · simp [World.handedOut, h.queued, h.delivered]
  · simp [h.fresh.running, h.closed]

/-- A dequeue takes the next job, if there is one. -/
theorem World.Consistent.leave {w : World} (h : w.Consistent size jobs) (hpos : 0 < size)
    (hexit : dequeueRound w.q size blocking = some exit) :
    ∃ jobs', (w.leave t exit).Consistent size jobs' := by
  cases jobs with
  | cons job rest =>
    rw [h.holding.round_cons] at hexit
    obtain rfl := Option.some.inj hexit
    refine ⟨rest, h.holding.dequeued, ?_, h.terminate⟩
    simp [World.leave, World.handedOut, h.queued]
  | nil =>
    rw [h.holding.round_nil hpos] at hexit
    refine ⟨[], ?_⟩
    split at hexit
    · obtain rfl := Option.some.inj hexit
      exact ⟨h.holding, h.queued, h.terminate⟩
    · split at hexit
      · obtain rfl := Option.some.inj hexit
        exact ⟨h.holding, h.queued, h.terminate⟩
      · contradiction

theorem World.Consistent.step {w : World} (h : w.Consistent size jobs) (hpos : 0 < size)
    (hstep : World.Step size w w') : ∃ jobs', w'.Consistent size jobs' := by
  cases hstep with
  | queue hopen hsize hroom =>
    refine ⟨jobs ++ [_], h.holding.queue hroom hsize, ?_, ?_⟩
    · simp [World.handedOut, h.queued]
    · rw [(jobqQueue_success hroom).2]
      simp [hopen]
  | terminate hopen =>
    exact ⟨jobs, h.holding.terminate, h.queued, by simp [ihevcdJobqTerminate]⟩
  | @dequeue _ t blocking rounds exit hidle hexit =>
    unfold ihevcdJobqDequeue at hexit
    split at hexit
    · exact h.leave hpos (dequeueLoop_eq_some hexit)
    · obtain rfl := Option.some.inj hexit
      exact ⟨jobs, h.holding, h.queued, h.terminate⟩
  | resume hwait hexit => exact h.leave hpos (dequeueLoop_eq_some hexit)

theorem World.Reachable.consistent {w : World} (h : w.Reachable size) (hpos : 0 < size) :
    ∃ jobs, w.Consistent size jobs := by
  obtain ⟨start, hstart, hrun⟩ := h
  induction hrun with
  | refl => exact ⟨[], hstart.consistent⟩
  | tail _ hstep ih =>
    obtain ⟨jobs, hw⟩ := ih
    exact hw.step hpos hstep

-- ---------------------------------------------------------------------------
-- No job after a failure
-- ---------------------------------------------------------------------------

/-- Nothing more can be queued: the queue was terminated, or has no room for a job. -/
def World.Over (size : Nat) (w : World) : Prop :=
  w.closed = true ∨ w.q.pvBufEnd < w.q.pvBufWr + size

theorem leave_over {w : World} (hexit : dequeueRound w.q size blocking = some exit) :
    (w.leave t exit).queued = w.queued ∧ ((w.leave t exit).Over size ↔ w.Over size) := by
  unfold dequeueRound at hexit
  split at hexit
  · obtain rfl := Option.some.inj hexit
    exact ⟨rfl, Iff.rfl⟩
  · split at hexit
    · obtain rfl := Option.some.inj hexit
      exact ⟨rfl, Iff.rfl⟩
    · split at hexit
      · obtain rfl := Option.some.inj hexit
        exact ⟨rfl, Iff.rfl⟩
      · contradiction

theorem World.Over.step {w : World} (h : w.Over size) (hstep : World.Step size w w') :
    w'.queued = w.queued ∧ w'.Over size := by
  cases hstep with
  | queue hopen hsize hroom =>
    obtain ⟨hroom, _⟩ := jobqQueue_success hroom
    rcases h with h | h
    · rw [hopen] at h
      contradiction
    · omega
  | terminate hopen => exact ⟨rfl, .inl rfl⟩
  | dequeue hidle hexit =>
    unfold ihevcdJobqDequeue at hexit
    split at hexit
    · obtain ⟨hq, ho⟩ := leave_over (dequeueLoop_eq_some hexit)
      exact ⟨hq, ho.mpr h⟩
    · obtain rfl := Option.some.inj hexit
      exact ⟨rfl, h⟩
  | resume hwait hexit =>
    obtain ⟨hq, ho⟩ := leave_over (dequeueLoop_eq_some hexit)
    exact ⟨hq, ho.mpr h⟩

theorem World.Over.run {w : World} (h : w.Over size)
    (hrun : ReflTransGen (World.Step size) w w') : w'.queued = w.queued := by
  suffices w'.queued = w.queued ∧ w'.Over size from this.1
  induction hrun with
  | refl => exact ⟨rfl, h⟩
  | tail _ hstep ih =>
    obtain ⟨hq, ho⟩ := ih
    obtain ⟨hq', ho'⟩ := ho.step hstep
    exact ⟨hq'.trans hq, ho'⟩

-- ---------------------------------------------------------------------------
-- The answers of a dequeue
-- ---------------------------------------------------------------------------

theorem World.Consistent.right_success {w : World} (h : w.Consistent size (job :: rest)) :
    (DequeueExit.success job).Right size w blocking :=
  ⟨rest, h.queued⟩

theorem World.Consistent.all_handedOut {w : World} (h : w.Consistent size []) :
    w.queued = w.handedOut := by
  simpa using h.queued

theorem World.Consistent.right_fail {w : World} (h : w.Consistent size [])
    (hover : blocking = 1 → w.Over size) : DequeueExit.fail.Right size w blocking :=
  ⟨h.all_handedOut, fun hb _ hrun => (hover hb).run hrun⟩

theorem loop_answers_of_round {w : World}
    (hround : dequeueRound w.q size blocking = some (exit, q))
    (hright : exit.Right size w blocking) :
    w.Answers size blocking (dequeueLoop w.q size blocking) := by
  constructor
  · exact ⟨1, by rw [dequeueLoop_exit hround]; rfl⟩
  · intro rounds exit' q' hexit
    have he := Option.some.inj (hround.symm.trans (dequeueLoop_eq_some hexit))
    obtain ⟨rfl, rfl⟩ := Prod.mk.inj he
    exact hright

/-- The loop answers, unless it starves. -/
theorem World.Consistent.loop_answers {w : World} (h : w.Consistent size jobs)
    (hpos : 0 < size) (hfed : ¬w.Starves size blocking) :
    w.Answers size blocking (dequeueLoop w.q size blocking) := by
  cases jobs with
  | cons job rest =>
    exact loop_answers_of_round h.holding.round_cons h.right_success
  | nil =>
    have hround := h.holding.round_nil hpos blocking
    by_cases ht : w.q.i4Terminate = 1
    · rw [if_pos ht] at hround
      exact loop_answers_of_round hround (h.right_fail fun _ => .inl (h.terminate.mp ht))
    · rw [if_neg ht] at hround
      have hwr : w.q.pvBufWr = w.q.pvBufRd := h.holding.write
      have hb : blocking = 1 := by
        by_contra hb
        exact hfed ⟨hb, by omega, ht⟩
      rw [if_pos hb] at hround
      have hopen : w.closed = false := Bool.eq_false_iff.mpr fun hc => ht (h.terminate.mpr hc)
      exact loop_answers_of_round hround ⟨hb, h.all_handedOut, hopen⟩

/-- A loop that starves never comes to its end. -/
theorem World.Starves.loop {w : World} (h : w.Starves size blocking) (rounds : Nat) :
    dequeueLoop w.q size blocking rounds = none := by
  obtain ⟨hb, hw, ht⟩ := h
  apply dequeueLoop_spins
  rw [dequeueRound, if_neg (by omega), if_neg ht, if_neg hb]

theorem World.Consistent.dequeue_answers {w : World} (h : w.Consistent size jobs)
    (hpos : 0 < size) :
    w.Answers size blocking (ihevcdJobqDequeue w.q size blocking) ↔
      ¬(w.Starves size blocking ∧ w.q.pvBufRd + size ≤ w.q.pvBufEnd) := by
  by_cases hroom : w.q.pvBufRd + size ≤ w.q.pvBufEnd
  · have hloop : ihevcdJobqDequeue w.q size blocking = dequeueLoop w.q size blocking := by
      funext rounds
      exact if_pos hroom
    rw [hloop]
    constructor
    · rintro ⟨⟨rounds, hends⟩, _⟩ ⟨hs, _⟩
      rw [hs.loop] at hends
      contradiction
    · intro hfed
      exact h.loop_answers hpos fun hs => hfed ⟨hs, hroom⟩
  · -- no room for a job that could still come
    cases jobs with
    | cons job rest => exact absurd h.holding.room_of_cons hroom
    | nil =>
      have hwr : w.q.pvBufWr = w.q.pvBufRd := h.holding.write
      have hfail : DequeueExit.fail.Right size w blocking :=
        h.right_fail fun _ => .inr (by omega)
      refine iff_of_true ⟨⟨0, by rw [ihevcdJobqDequeue, if_neg hroom]; rfl⟩, ?_⟩
        (fun hs => hroom hs.2)
      intro rounds exit q hexit
      rw [ihevcdJobqDequeue, if_neg hroom] at hexit
      obtain ⟨rfl, rfl⟩ := Prod.mk.inj (Option.some.inj hexit)
      exact hfail

-- ---------------------------------------------------------------------------
-- Delivery
-- ---------------------------------------------------------------------------

/-- A thread that waits is in a blocking call, so it does not starve. -/
theorem World.Consistent.resume_answers {w : World} (h : w.Consistent size jobs)
    (hpos : 0 < size) : w.Answers size 1 (dequeueLoop w.q size 1) :=
  h.loop_answers hpos fun hs => hs.1 rfl

/-- A queue of two jobs of 12 bytes. -/
def smallQueue : World :=
  { q :=
      { mem := fun _ => 0
        pvBufBase := 0
        pvBufWr := 0
        pvBufRd := 0
        pvBufEnd := 24
        i4Terminate := 0 }
    waiting := fun _ => false
    closed := false
    queued := []
    delivered := [] }

theorem smallQueue_reachable : smallQueue.Reachable size :=
  ⟨smallQueue, ⟨⟨rfl, rfl, Nat.zero_le _, rfl⟩, fun _ => rfl, rfl, rfl, rfl⟩, .refl⟩

end Libhevc.Decoder
