import Libhevc.Encoder.MultiThrd
import Mathlib.Data.List.Perm.Subperm
import Mathlib.Data.Nat.Find

/-!
# Runs of the job queues

Under any order of calls of any number of workers. A job that was handed out is held by
one worker, or it is finished; the bytes that are still set are those of jobs that are
not finished.
-/

namespace Libhevc.Encoder

variable {q : JobQueues} {stride numThrds : Nat}

theorem JobQueues.job?_isSome (q : JobQueues) (p : JobPlace) :
    (q.job? p).isSome ↔ p.2 < (q p.1).length := by
  simp [JobQueues.job?]

/-- What a call that hands out a job has found, and what it leaves. -/
theorem grpGetNextJob_some {s : JobGrp} (h : grpGetNextJob q t s = (some p, s')) :
    p = (t, s.pvNext t) ∧ s.pvNext t < (q t).length ∧ s.isNonzero p = false ∧
      s' = { s with pvNext := Function.update s.pvNext t (s.pvNext t + 1) } := by
  unfold grpGetNextJob at h
  dsimp only at h
  split_ifs at h with hsome hzero
  · simp at h
  · simp only [Prod.mk.injEq, Option.some.injEq] at h
    obtain ⟨rfl, rfl⟩ := h
    exact ⟨rfl, (q.job?_isSome _).mp hsome, by simpa using hzero, rfl⟩
  · simp at h

theorem isNonzero_eq_false {s : JobGrp} :
    s.isNonzero p = false ↔ ∀ byte < maxInDep, s.au1InDep p byte = 0 := by
  simp [JobGrp.isNonzero]

/-- What holds between calls. -/
structure JobInv (q : JobQueues) (numThrds : Nat) (s : JobGrp) : Prop where
  pvNext_le : ∀ t, s.pvNext t ≤ (q t).length
  handed : ∀ p, p ∈ s.handed ↔ p.2 < s.pvNext p.1
  handed_nodup : s.handed.Nodup
  held : ∀ p, p ∈ s.handed ↔ p ∈ s.done ∨ ∃ thrd < numThrds, s.currJob thrd = some p
  done_nodup : s.done.Nodup
  notDone : ∀ thrd p, s.currJob thrd = some p → thrd < numThrds ∧ p ∉ s.done
  curr_inj : ∀ a b p, s.currJob a = some p → s.currJob b = some p → a = b
  inDep : ∀ c job, q.job? c = some job → ∀ byte,
    s.au1InDep c byte ≠ 0 ↔ byte < job.i4NumInputDep ∧ ∀ p ∈ s.done, ¬q.Clears p c byte

theorem JobInv.start (q : JobQueues) (numThrds : Nat) : JobInv q numThrds q.start where
  pvNext_le _ := Nat.zero_le _
  handed p := by simp [JobQueues.start]
  handed_nodup := List.nodup_nil
  held p := by simp [JobQueues.start]
  done_nodup := List.nodup_nil
  notDone thrd p h := by contradiction
  curr_inj a b p h := by contradiction
  inDep c job hjob byte := by simp [JobQueues.start, hjob, Job.au1InDep]

/-- A job is handed out. -/
theorem JobInv.get (h : JobInv q numThrds s) (hthrd : thrd < numThrds)
    (hidle : s.currJob thrd = none) (hget : grpGetNextJob q t s = (some p, s')) :
    JobInv q numThrds
      { s' with currJob := Function.update s.currJob thrd (some p), handed := p :: s.handed } := by
  obtain ⟨rfl, hlt, _, rfl⟩ := grpGetNextJob_some hget
  have hnew : (t, s.pvNext t) ∉ s.handed := by
    rw [h.handed]
    exact Nat.lt_irrefl _
  have hother (a : Nat) : s.currJob a ≠ some (t, s.pvNext t) := by
    intro ha
    exact hnew ((h.held _).mpr (.inr ⟨a, (h.notDone a _ ha).1, ha⟩))
  refine ⟨fun t' => ?_, fun p => ?_, ?_, fun p => ?_, h.done_nodup, fun a p ha => ?_,
    fun a b p ha hb => ?_, h.inDep⟩
  · by_cases ht : t' = t
    · subst ht
      simpa using Nat.succ_le_of_lt hlt
    · simpa [Function.update_of_ne ht] using h.pvNext_le t'
  · obtain ⟨t', k⟩ := p
    by_cases ht : t' = t
    · subst ht
      have hold := h.handed (t', k)
      simp only [List.mem_cons, Prod.mk.injEq, true_and, Function.update_self, hold]
      omega
    · have hold := h.handed (t', k)
      simp [hold, ht]
  · exact List.nodup_cons.mpr ⟨hnew, h.handed_nodup⟩
  · have hold := h.held p
    simp only [List.mem_cons, hold]
    constructor
    · rintro (rfl | hdone | ⟨a, ha, hcurr⟩)
      · exact .inr ⟨thrd, hthrd, by simp⟩
      · exact .inl hdone
      · refine .inr ⟨a, ha, ?_⟩
        have hne : a ≠ thrd := by
          rintro rfl
          rw [hidle] at hcurr
          contradiction
        simpa [Function.update_of_ne hne] using hcurr
    · rintro (hdone | ⟨a, ha, hcurr⟩)
      · exact .inr (.inl hdone)
      · by_cases hne : a = thrd
        · subst hne
          simp only [Function.update_self, Option.some.injEq] at hcurr
          exact .inl hcurr.symm
        · simp only [Function.update_of_ne hne] at hcurr
          exact .inr (.inr ⟨a, ha, hcurr⟩)
  · by_cases hne : a = thrd
    · subst hne
      simp only [Function.update_self, Option.some.injEq] at ha
      subst ha
      exact ⟨hthrd, fun hdone => hnew ((h.held _).mpr (.inl hdone))⟩
    · simp only [Function.update_of_ne hne] at ha
      exact h.notDone a p ha
  · by_cases ha' : a = thrd <;> by_cases hb' : b = thrd
    · rw [ha', hb']
    · subst ha'
      simp only [Function.update_self, Option.some.injEq, Function.update_of_ne hb'] at ha hb
      subst ha
      exact absurd hb (hother b)
    · subst hb'
      simp only [Function.update_self, Option.some.injEq, Function.update_of_ne ha'] at ha hb
      subst hb
      exact absurd ha (hother a)
    · simp only [Function.update_of_ne ha', Function.update_of_ne hb'] at ha hb
      exact h.curr_inj a b p ha hb

/-- A job is finished. -/
theorem JobInv.setOutDep (h : JobInv q numThrds s) (hthrd : thrd < numThrds)
    (hcurr : s.currJob thrd = some p) (hjob : q.job? p = some job) :
    JobInv q numThrds
      { grpJobSetOutDep job s with
        currJob := Function.update s.currJob thrd none
        done := p :: s.done } := by
  obtain ⟨_, hnew⟩ := h.notDone thrd p hcurr
  refine ⟨h.pvNext_le, h.handed, h.handed_nodup, fun p' => ?_,
    List.nodup_cons.mpr ⟨hnew, h.done_nodup⟩, fun a p' ha => ?_, fun a b p' ha hb => ?_,
    fun c job' hjob' byte => ?_⟩
  · refine (h.held p').trans ?_
    simp only [List.mem_cons]
    constructor
    · rintro (hdone | ⟨a, ha, hcurr'⟩)
      · exact .inl (.inr hdone)
      · by_cases hne : a = thrd
        · subst hne
          rw [hcurr, Option.some.injEq] at hcurr'
          exact .inl (.inl hcurr'.symm)
        · exact .inr ⟨a, ha, by simpa [Function.update_of_ne hne] using hcurr'⟩
    · rintro ((rfl | hdone) | ⟨a, ha, hcurr'⟩)
      · exact .inr ⟨thrd, hthrd, hcurr⟩
      · exact .inl hdone
      · by_cases hne : a = thrd
        · subst hne
          simp at hcurr'
        · exact .inr ⟨a, ha, by simpa [Function.update_of_ne hne] using hcurr'⟩
  · by_cases hne : a = thrd
    · subst hne
      simp at ha
    · simp only [Function.update_of_ne hne] at ha
      obtain ⟨hlt, hdone⟩ := h.notDone a p' ha
      refine ⟨hlt, fun hmem => ?_⟩
      rcases List.mem_cons.mp hmem with rfl | hmem
      · exact hne (h.curr_inj a thrd p' ha hcurr)
      · exact hdone hmem
  · by_cases ha' : a = thrd
    · subst ha'
      simp at ha
    · by_cases hb' : b = thrd
      · subst hb'
        simp at hb
      · simp only [Function.update_of_ne ha', Function.update_of_ne hb'] at ha hb
        exact h.curr_inj a b p' ha hb
  · have hold := h.inDep c job' hjob' byte
    have hclears : q.Clears p c byte ↔ (⟨c.1, c.2, byte⟩ : OutOfst) ∈ job.au4OutOfsts := by
      simp [JobQueues.Clears, hjob]
    change (if (⟨c.1, c.2, byte⟩ : OutOfst) ∈ job.au4OutOfsts then 0 else s.au1InDep c byte) ≠ 0 ↔ _
    simp only [List.mem_cons, forall_eq_or_imp, hclears]
    split_ifs with hmem
    · simp [hmem]
    · simp only [hmem, not_false_eq_true, true_and]
      exact hold

theorem JobRun.inv (h : JobRun q numThrds n s) : JobInv q numThrds s := by
  induction h with
  | start => exact .start q numThrds
  | step _ hs ih =>
    cases hs with
    | get hthrd hidle hget => exact ih.get hthrd hidle hget
    | setOutDep hthrd hcurr hjob => exact ih.setOutDep hthrd hcurr hjob

/-- The calls are counted by what they have done. -/
theorem JobRun.count (h : JobRun q numThrds n s) : s.handed.length + s.done.length = n := by
  induction h with
  | start => rfl
  | step _ hs ih =>
    cases hs with
    | get hthrd hidle hget =>
      obtain ⟨_, _, _, rfl⟩ := grpGetNextJob_some hget
      simp only [List.length_cons]
      omega
    | setOutDep hthrd hcurr hjob =>
      change _ + (_ :: _).length = _
      rw [List.length_cons, ← ih]
      rfl

section
variable (hq : q.Linked stride)
include hq

/-- A job that is handed out has waited for all jobs that clear a byte of it. -/
theorem JobInv.ready (h : JobInv q numThrds s) (hget : grpGetNextJob q t s = (some c, s'))
    (hclears : q.Clears p c byte) : p ∈ s.done := by
  obtain ⟨rfl, hlt, hzero, _⟩ := grpGetNextJob_some hget
  obtain ⟨job, hjob⟩ := Option.isSome_iff_exists.mp ((q.job?_isSome (t, s.pvNext t)).mpr hlt)
  have hbyte := (hq.cleared _ job hjob byte).mpr ⟨p, hclears⟩
  have hdep := hq.inDep _ job hjob
  have hdone := mt (h.inDep _ job hjob byte).mpr
    (by simp [isNonzero_eq_false.mp hzero byte (by omega)])
  simp only [hbyte, true_and, not_forall, not_not] at hdone
  obtain ⟨p', hp', hclears'⟩ := hdone
  rwa [hq.once p p' _ byte hclears hclears']

/-- While a job is not handed out, a worker holds a job, or the head of a queue does not wait. -/
theorem JobInv.progress (h : JobInv q numThrds s) (hpos : 0 < numThrds)
    (hleft : ∃ p, (q.job? p).isSome ∧ p ∉ s.handed) : ∃ s', JobStep q numThrds s s' := by
  by_cases hbusy : ∃ thrd p, s.currJob thrd = some p
  · obtain ⟨thrd, p, hcurr⟩ := hbusy
    have hthrd := (h.notDone thrd p hcurr).1
    have hmem := (h.handed p).mp ((h.held p).mpr (.inr ⟨thrd, hthrd, hcurr⟩))
    obtain ⟨job, hjob⟩ := Option.isSome_iff_exists.mp
      ((q.job?_isSome p).mpr (Nat.lt_of_lt_of_le hmem (h.pvNext_le p.1)))
    exact ⟨_, .setOutDep hthrd hcurr hjob⟩
  · -- the first queue that is not at its end
    have hidle (thrd : Nat) : s.currJob thrd = none := by
      cases hcurr : s.currJob thrd with
      | none => rfl
      | some p => exact absurd ⟨thrd, p, hcurr⟩ hbusy
    have hex : ∃ t, s.pvNext t < (q t).length := by
      obtain ⟨p, hsome, hp⟩ := hleft
      rw [h.handed] at hp
      rw [q.job?_isSome] at hsome
      exact ⟨p.1, by omega⟩
    classical
    have hlt := Nat.find_spec hex
    have hmin {t : Nat} (ht : t < Nat.find hex) : (q t).length ≤ s.pvNext t := by
      have := Nat.find_min hex ht
      omega
    generalize Nat.find hex = t at hlt hmin
    obtain ⟨job, hjob⟩ := Option.isSome_iff_exists.mp ((q.job?_isSome (t, s.pvNext t)).mpr hlt)
    have hzero : s.isNonzero (t, s.pvNext t) = false := by
      rw [isNonzero_eq_false]
      intro byte _
      by_contra hne
      obtain ⟨hbyte, hnone⟩ := (h.inDep _ job hjob byte).mp hne
      obtain ⟨p, hclears⟩ := (hq.cleared _ job hjob byte).mp hbyte
      -- its producer is of a queue that is at its end, and nobody holds it
      have hbefore := (hq.inBuffer p _ byte hclears).1
      obtain ⟨job', hjob', _⟩ := id hclears
      have hlen := (q.job?_isSome p).mp (by rw [hjob']; rfl)
      have hhanded : p ∈ s.handed := by
        rw [h.handed]
        exact Nat.lt_of_lt_of_le hlen (hmin hbefore)
      rcases (h.held p).mp hhanded with hdone | ⟨thrd, _, hcurr⟩
      · exact hnone p hdone hclears
      · rw [hidle] at hcurr
        contradiction
    have hget : grpGetNextJob q t s = (some (t, s.pvNext t),
        { s with pvNext := Function.update s.pvNext t (s.pvNext t + 1) }) := by
      simp [grpGetNextJob, hjob, hzero]
    exact ⟨_, .get hpos (hidle 0) hget⟩

end

/-- The places of all jobs of the first `numQueues` queues. -/
def JobQueues.places (q : JobQueues) (numQueues : Nat) : List JobPlace :=
  (List.range numQueues).flatMap fun t => (List.range (q t).length).map fun k => (t, k)

theorem JobInv.handed_le (h : JobInv q numThrds s) (hend : ∀ t, numQueues ≤ t → q t = []) :
    s.handed.length ≤ (q.places numQueues).length := by
  refine (List.Nodup.subperm h.handed_nodup fun p hp => ?_).length_le
  have hlt := Nat.lt_of_lt_of_le ((h.handed p).mp hp) (h.pvNext_le p.1)
  have ht : p.1 < numQueues := by
    by_contra hge
    rw [hend p.1 (by omega)] at hlt
    contradiction
  simp only [JobQueues.places, List.mem_flatMap, List.mem_map, List.mem_range]
  exact ⟨p.1, ht, p.2, hlt, rfl⟩

/-- What workers may rely on, for any number of them and any order of calls: no job is handed out
twice, and none before all jobs it waits for are finished; each byte that is set is cleared by one
job; and calls go on until all jobs are handed out, which takes a bounded number of them. -/
structure JobQueues.Delivered (q : JobQueues) (numQueues : Nat) : Prop where
  handedOnce : ∀ numThrds n s, JobRun q numThrds n s → s.handed.Nodup
  ready : ∀ numThrds n s, JobRun q numThrds n s → ∀ t c s', grpGetNextJob q t s = (some c, s') →
    ∀ p byte, q.Clears p c byte → p ∈ s.done
  clearedOnce : ∀ c job, q.job? c = some job → ∀ byte < job.i4NumInputDep,
    byte < maxInDep ∧ ∃ p, q.Clears p c byte ∧ ∀ p', q.Clears p' c byte → p' = p
  progress : ∀ numThrds n s, JobRun q numThrds n s → 0 < numThrds →
    (∃ p, (q.job? p).isSome ∧ p ∉ s.handed) → ∃ s', JobStep q numThrds s s'
  bounded : ∀ numThrds n s, JobRun q numThrds n s → n ≤ 2 * (q.places numQueues).length

theorem JobQueues.Linked.delivered (hq : q.Linked stride)
    (hend : ∀ t, numQueues ≤ t → q t = []) : q.Delivered numQueues where
  handedOnce numThrds n s h := h.inv.handed_nodup
  ready numThrds n s h t c s' hget p byte hclears := h.inv.ready hq hget hclears
  clearedOnce c job hjob byte hbyte := by
    obtain ⟨p, hclears⟩ := (hq.cleared c job hjob byte).mp hbyte
    exact ⟨(hq.inBuffer p c byte hclears).2.2, p, hclears,
      fun p' h' => hq.once p' p c byte h' hclears⟩
  progress numThrds n s h := h.inv.progress hq
  bounded numThrds n s h := by
    have hcount := h.count
    have hhanded := h.inv.handed_le hend
    have hdone : s.done.length ≤ s.handed.length :=
      (List.Nodup.subperm h.inv.done_nodup fun p hp => (h.inv.held p).mpr (.inl hp)).length_le
    omega

end Libhevc.Encoder
