import Libhevc.Encoder.MultiThrdRun
import Mathlib.Data.List.Flatten
import Mathlib.Data.List.Count

/-!
# Linking job queues

A job of the next queue hands out its bytes one after the other to the jobs that clear
them. So each of its bytes has one producer, if it waits for as many bytes as it has
handed out.
-/

namespace Libhevc.Encoder

-- ---------------------------------------------------------------------------
-- The bytes of a job
-- ---------------------------------------------------------------------------

theorem setOutOfsts_count (next : Nat) (units : List Nat) (c : Nat → Nat) (k : Nat) :
    (setOutOfsts next units c).2 k = c k + units.count k := by
  induction units generalizing c with
  | nil => rfl
  | cons u units ih =>
    refine (ih _).trans ?_
    rw [List.count_cons]
    by_cases hu : u = k
    · subst hu
      simp only [Function.update_self, beq_self_eq_true, if_true]
      omega
    · rw [Function.update_of_ne (Ne.symm hu)]
      simp [hu]

/-- Each unit gets the bytes from its count on. -/
theorem mem_setOutOfsts (next : Nat) (units : List Nat) (c : Nat → Nat) (t k b : Nat) :
    (⟨t, k, b⟩ : OutOfst) ∈ (setOutOfsts next units c).1 ↔
      t = next ∧ c k ≤ b ∧ b < c k + units.count k := by
  induction units generalizing c with
  | nil => simp [setOutOfsts]
  | cons u units ih =>
    unfold setOutOfsts
    simp only [List.mem_cons, OutOfst.mk.injEq, ih, List.count_cons]
    by_cases hu : u = k
    · subst hu
      simp only [Function.update_self, beq_self_eq_true, if_true]
      constructor
      · rintro (⟨ht, -, hb⟩ | ⟨ht, hge, hlt⟩)
        · exact ⟨ht, by omega, by omega⟩
        · exact ⟨ht, by omega, by omega⟩
      · rintro ⟨ht, hge, hlt⟩
        rcases Nat.lt_or_eq_of_le hge with hgt | heq
        · exact .inr ⟨ht, by omega, by omega⟩
        · exact .inl ⟨ht, trivial, heq.symm⟩
    · rw [Function.update_of_ne (Ne.symm hu)]
      simp [hu, Ne.symm hu]

theorem setOutOfsts_nodup (next : Nat) (units : List Nat) (c : Nat → Nat) :
    (setOutOfsts next units c).1.Nodup := by
  induction units generalizing c with
  | nil => exact List.nodup_nil
  | cons u units ih =>
    refine List.nodup_cons.mpr ⟨fun hmem => ?_, ih _⟩
    have hge := ((mem_setOutOfsts next units _ next u _).mp hmem).2.1
    rw [Function.update_self] at hge
    omega

theorem setOutOfsts_length (next : Nat) (units : List Nat) (c : Nat → Nat) :
    (setOutOfsts next units c).1.length = units.length := by
  induction units generalizing c with
  | nil => rfl
  | cons u units ih =>
    unfold setOutOfsts
    simp only [List.length_cons, ih]

-- ---------------------------------------------------------------------------
-- The jobs of a queue
-- ---------------------------------------------------------------------------

/-- How many bytes of job `k` of the next queue the first `n` jobs take. -/
def depTaken (jobs : List PrepJob) (n k : Nat) : Nat :=
  ((jobs.take n).flatMap PrepJob.outDepUnits).count k

theorem depTaken_zero (jobs : List PrepJob) (k : Nat) : depTaken jobs 0 k = 0 := rfl

theorem depTaken_cons (job : PrepJob) (jobs : List PrepJob) (n k : Nat) :
    depTaken (job :: jobs) (n + 1) k = job.outDepUnits.count k + depTaken jobs n k := by
  simp [depTaken]

theorem depTaken_succ {jobs : List PrepJob} (h : jobs[i]? = some job) (k : Nat) :
    depTaken jobs (i + 1) k = depTaken jobs i k + job.outDepUnits.count k := by
  induction jobs generalizing i with
  | nil => simp at h
  | cons job' jobs ih =>
    cases i with
    | zero =>
      simp only [List.getElem?_cons_zero, Option.some.injEq] at h
      subst h
      rw [depTaken_cons, depTaken_zero, depTaken_zero, Nat.add_comm]
    | succ i =>
      rw [depTaken_cons, depTaken_cons, ih (by simpa using h), Nat.add_assoc]

theorem depTaken_le (jobs : List PrepJob) (hij : i ≤ j) (k : Nat) :
    depTaken jobs i k ≤ depTaken jobs j k := by
  induction jobs generalizing i j with
  | nil => simp [depTaken]
  | cons job jobs ih =>
    cases i with
    | zero => exact Nat.zero_le _
    | succ i =>
      obtain ⟨j, rfl⟩ := Nat.exists_eq_succ_of_ne_zero (show j ≠ 0 by omega)
      rw [depTaken_cons, depTaken_cons]
      exact Nat.add_le_add_left (ih (Nat.le_of_succ_le_succ hij)) _

/-- Each byte that is taken is taken by one job. -/
theorem exists_depTaken {jobs : List PrepJob} (hn : n ≤ jobs.length) (hb : b < depTaken jobs n k) :
    ∃ i job, i < n ∧ jobs[i]? = some job ∧ depTaken jobs i k ≤ b ∧
      b < depTaken jobs i k + job.outDepUnits.count k := by
  induction n with
  | zero => simp [depTaken_zero] at hb
  | succ n ih =>
    have hget : jobs[n]? = some jobs[n] := List.getElem?_eq_getElem hn
    rcases Nat.lt_or_ge b (depTaken jobs n k) with hlt | hge
    · obtain ⟨i, job, hi, hrest⟩ := ih (Nat.le_of_succ_le hn) hlt
      exact ⟨i, job, Nat.lt_trans hi n.lt_succ_self, hrest⟩
    · rw [depTaken_succ hget] at hb
      exact ⟨n, _, n.lt_succ_self, hget, hge, hb⟩

theorem prepareJobs_get (next m : Nat) (jobs : List PrepJob) (c : Nat → Nat) (i : Nat) :
    (prepareJobs next m jobs c)[i]? = (jobs[i]?).map fun job =>
      { i4VertUnitRowNo := m + i
        i4TileColIdx := 0
        i4NumInputDep := job.i4NumInputDep
        au4OutOfsts :=
          (setOutOfsts next job.outDepUnits fun k => c k + depTaken jobs i k).1 } := by
  induction jobs generalizing m c i with
  | nil => simp [prepareJobs]
  | cons job jobs ih =>
    unfold prepareJobs
    cases i with
    | zero => simp [depTaken_zero]
    | succ i =>
      simp only [List.getElem?_cons_succ, ih, setOutOfsts_count, depTaken_cons, ← Nat.add_assoc,
        Nat.add_right_comm m i 1]

theorem prepareJobs_length (next m : Nat) (jobs : List PrepJob) (c : Nat → Nat) :
    (prepareJobs next m jobs c).length = jobs.length := by
  induction jobs generalizing m c with
  | nil => rfl
  | cons job jobs ih =>
    unfold prepareJobs
    simp only [List.length_cons, ih]

-- ---------------------------------------------------------------------------
-- One queue after the other
-- ---------------------------------------------------------------------------

/-- Queues from `t₀` on are linked, but for what the jobs of queue `t₀` wait for. -/
structure LinkedFrom (q : JobQueues) (stride t₀ : Nat) (dep : Nat → Nat) : Prop where
  before : ∀ t < t₀, q t = []
  first : ∀ k job, q.job? (t₀, k) = some job → job.i4NumInputDep = dep k
  length_le : ∀ t, (q t).length ≤ stride
  outDep : ∀ p job, q.job? p = some job → job.au4OutOfsts.length ≤ maxOutDep
  inBuffer : ∀ p c byte, q.Clears p c byte → p.1 < c.1 ∧ c.2 < stride ∧ byte < maxInDep
  cleared : ∀ c job, q.job? c = some job → c.1 ≠ t₀ →
    ∀ byte, byte < job.i4NumInputDep ↔ ∃ p, q.Clears p c byte
  once : ∀ p p' c byte, q.Clears p c byte → q.Clears p' c byte → p = p'
  outs_nodup : ∀ p job, q.job? p = some job → job.au4OutOfsts.Nodup

theorem LinkedFrom.none (stride t₀ : Nat) (dep : Nat → Nat) :
    LinkedFrom (fun _ => []) stride t₀ dep where
  before _ _ := rfl
  first k job h := by simp [JobQueues.job?] at h
  length_le _ := Nat.zero_le _
  outDep p job h := by simp [JobQueues.job?] at h
  inBuffer p c byte h := by simp [JobQueues.Clears, JobQueues.job?] at h
  cleared c job h := by simp [JobQueues.job?] at h
  once p p' c byte h := by simp [JobQueues.Clears, JobQueues.job?] at h
  outs_nodup p job h := by simp [JobQueues.job?] at h

variable {q : JobQueues} {stride t₀ : Nat} {dep : Nat → Nat}

theorem LinkedFrom.congr (h : LinkedFrom q stride t₀ dep)
    (hdep : ∀ k < (q t₀).length, dep k = dep' k) : LinkedFrom q stride t₀ dep' :=
  { h with
    first := fun k job hjob => (h.first k job hjob).trans
      (hdep k ((q.job?_isSome (t₀, k)).mp (by rw [hjob]; rfl))) }

theorem LinkedFrom.le_of_clears (h : LinkedFrom q stride t₀ dep) (hc : q.Clears p c byte) :
    t₀ ≤ p.1 := by
  obtain ⟨job, hjob, _⟩ := hc
  by_contra hlt
  simp [JobQueues.job?, h.before p.1 (by omega)] at hjob

theorem LinkedFrom.linked (h : LinkedFrom q stride t₀ fun _ => 0) : q.Linked stride := by
  have hcleared (c : JobPlace) (job : Job) (hjob : q.job? c = some job) (byte : Nat) :
      byte < job.i4NumInputDep ↔ ∃ p, q.Clears p c byte := by
    by_cases hc : c.1 = t₀
    · obtain ⟨t, k⟩ := c
      subst hc
      rw [h.first k job hjob]
      refine iff_of_false (Nat.not_lt_zero _) ?_
      rintro ⟨p, hp⟩
      have hge := h.le_of_clears hp
      have hlt := (h.inBuffer p _ byte hp).1
      omega
    · exact h.cleared c job hjob hc byte
  refine ⟨h.length_le, fun c job hjob => ?_, h.outDep, h.inBuffer, hcleared, h.once, h.outs_nodup⟩
  by_contra hgt
  obtain ⟨p, hp⟩ := (hcleared c job hjob maxInDep).mp (by omega)
  exact Nat.lt_irrefl _ (h.inBuffer p c _ hp).2.2

/-- One more queue in front; its jobs clear bytes of the first queue behind it. -/
theorem LinkedFrom.cons {jobs : List PrepJob}
    (h : LinkedFrom q stride t₁ (depTaken jobs jobs.length))
    (ht : t₀ < t₁) (hlen : jobs.length ≤ stride)
    (hjobs : ∀ k job, jobs[k]? = some job → job.i4NumInputDep = dep k ∧
      job.outDepUnits.length ≤ maxOutDep ∧ ∀ u ∈ job.outDepUnits, next = t₁ ∧ u < stride)
    (hbytes : ∀ k, depTaken jobs jobs.length k ≤ maxInDep) :
    LinkedFrom (Function.update q t₀ (prepareJobs next 0 jobs fun _ => 0)) stride t₀ dep := by
  have hfirst (k : Nat) : JobQueues.job?
      (Function.update q t₀ (prepareJobs next 0 jobs fun _ => 0)) (t₀, k) =
      (prepareJobs next 0 jobs fun _ => 0)[k]? := by
    simp [JobQueues.job?]
  have hrest {p : JobPlace} (hp : p.1 ≠ t₀) : JobQueues.job?
      (Function.update q t₀ (prepareJobs next 0 jobs fun _ => 0)) p = q.job? p := by
    simp [JobQueues.job?, Function.update_of_ne hp]
  -- what the jobs in front clear, and what the others do
  have hclears (k : Nat) (c : JobPlace) (byte : Nat) : JobQueues.Clears
      (Function.update q t₀ (prepareJobs next 0 jobs fun _ => 0)) (t₀, k) c byte ↔
      c.1 = t₁ ∧ c.2 < stride ∧ ∃ job, jobs[k]? = some job ∧ depTaken jobs k c.2 ≤ byte ∧
        byte < depTaken jobs k c.2 + job.outDepUnits.count c.2 := by
    unfold JobQueues.Clears
    rw [hfirst, prepareJobs_get]
    cases hget : jobs[k]? with
    | none => simp
    | some job =>
      simp only [Option.map_some, Option.some.injEq, exists_eq_left', mem_setOutOfsts,
        Nat.zero_add]
      constructor
      · rintro ⟨htc, hge, hlt⟩
        obtain ⟨hnext, hu⟩ := (hjobs k job hget).2.2 c.2
          (List.count_pos_iff.mp (by omega))
        exact ⟨htc.trans hnext, hu, hge, hlt⟩
      · rintro ⟨htc, -, hge, hlt⟩
        have hnext := ((hjobs k job hget).2.2 c.2 (List.count_pos_iff.mp (by omega))).1
        exact ⟨htc.trans hnext.symm, hge, hlt⟩
  have hothers {p : JobPlace} (hp : p.1 ≠ t₀) (c : JobPlace) (byte : Nat) : JobQueues.Clears
      (Function.update q t₀ (prepareJobs next 0 jobs fun _ => 0)) p c byte ↔
      q.Clears p c byte := by
    unfold JobQueues.Clears
    rw [hrest hp]
  have hend {k : Nat} {job : PrepJob} (hget : jobs[k]? = some job) (u : Nat) :
      depTaken jobs k u + job.outDepUnits.count u ≤ depTaken jobs jobs.length u := by
    rw [← depTaken_succ hget]
    exact depTaken_le jobs (List.getElem?_eq_some_iff.mp hget).1 u
  refine ⟨fun t hlt => ?_, fun k job hjob => ?_, fun t => ?_, fun p job hjob => ?_,
    fun p c byte hp => ?_, fun c job hjob hc byte => ?_, fun p p' c byte hp hp' => ?_,
    fun p job hjob => ?_⟩
  · rw [Function.update_of_ne (Nat.ne_of_lt hlt)]
    exact h.before t (Nat.lt_trans hlt ht)
  · rw [hfirst, prepareJobs_get] at hjob
    obtain ⟨job', hget, rfl⟩ := Option.map_eq_some_iff.mp hjob
    exact (hjobs k job' hget).1
  · by_cases heq : t = t₀
    · subst heq
      rw [Function.update_self, prepareJobs_length]
      exact hlen
    · rw [Function.update_of_ne heq]
      exact h.length_le t
  · by_cases heq : p.1 = t₀
    · obtain ⟨t, k⟩ := p
      subst heq
      rw [hfirst, prepareJobs_get] at hjob
      obtain ⟨job', hget, rfl⟩ := Option.map_eq_some_iff.mp hjob
      rw [setOutOfsts_length]
      exact (hjobs k job' hget).2.1
    · rw [hrest heq] at hjob
      exact h.outDep p job hjob
  · by_cases heq : p.1 = t₀
    · obtain ⟨t, k⟩ := p
      subst heq
      obtain ⟨hc, hstride, job, hget, _, hlt⟩ := (hclears k c byte).mp hp
      have hle := hend hget c.2
      have hmax := hbytes c.2
      exact ⟨by rw [hc]; exact ht, hstride, by omega⟩
    · exact h.inBuffer p c byte ((hothers heq c byte).mp hp)
  · rw [hrest hc] at hjob
    by_cases heq : c.1 = t₁
    · have hdep : job.i4NumInputDep = depTaken jobs jobs.length c.2 :=
        h.first c.2 job (by rw [← heq]; exact hjob)
      have hlen' : c.2 < stride := by
        have hle := h.length_le c.1
        have hlt := (q.job?_isSome c).mp (by rw [hjob]; rfl)
        omega
      rw [hdep]
      constructor
      · intro hlt
        obtain ⟨i, job', _, hget, hrange⟩ := exists_depTaken (Nat.le_refl _) hlt
        exact ⟨(t₀, i), (hclears i c byte).mpr ⟨heq, hlen', job', hget, hrange⟩⟩
      · rintro ⟨p, hp⟩
        by_cases hp₀ : p.1 = t₀
        · obtain ⟨t, k⟩ := p
          subst hp₀
          obtain ⟨_, _, job', hget, _, hlt⟩ := (hclears k c byte).mp hp
          exact Nat.lt_of_lt_of_le hlt (hend hget c.2)
        · have hp' := (hothers hp₀ c byte).mp hp
          have hge := h.le_of_clears hp'
          have hlt := (h.inBuffer p c byte hp').1
          omega
    · rw [h.cleared c job hjob heq byte]
      refine exists_congr fun p => ?_
      by_cases hp₀ : p.1 = t₀
      · obtain ⟨t, k⟩ := p
        subst hp₀
        refine iff_of_false (fun hp => ?_) fun hp => heq ((hclears k c byte).mp hp).1
        have hge := h.le_of_clears hp
        dsimp only at hge
        omega
      · exact (hothers hp₀ c byte).symm
  · by_cases heq : p.1 = t₀ <;> by_cases heq' : p'.1 = t₀
    · obtain ⟨t, k⟩ := p
      obtain ⟨t', k'⟩ := p'
      subst heq
      obtain rfl : t' = t := heq'
      obtain ⟨_, _, job, hget, hge, hlt⟩ := (hclears k c byte).mp hp
      obtain ⟨_, _, job', hget', hge', hlt'⟩ := (hclears k' c byte).mp hp'
      rcases Nat.lt_trichotomy k k' with hk | rfl | hk
      · have hle := depTaken_le jobs (Nat.succ_le_of_lt hk) c.2
        rw [Nat.succ_eq_add_one, depTaken_succ hget] at hle
        omega
      · rfl
      · have hle := depTaken_le jobs (Nat.succ_le_of_lt hk) c.2
        rw [Nat.succ_eq_add_one, depTaken_succ hget'] at hle
        omega
    · obtain ⟨t, k⟩ := p
      subst heq
      have hc := ((hclears k c byte).mp hp).1
      have hp' := (hothers heq' c byte).mp hp'
      have hge := h.le_of_clears hp'
      have hlt := (h.inBuffer p' c byte hp').1
      omega
    · obtain ⟨t, k⟩ := p'
      subst heq'
      have hc := ((hclears k c byte).mp hp').1
      have hp := (hothers heq c byte).mp hp
      have hge := h.le_of_clears hp
      have hlt := (h.inBuffer p c byte hp).1
      omega
    · exact h.once p p' c byte ((hothers heq c byte).mp hp) ((hothers heq' c byte).mp hp')
  · by_cases heq : p.1 = t₀
    · obtain ⟨t, k⟩ := p
      subst heq
      rw [hfirst, prepareJobs_get] at hjob
      obtain ⟨job', hget, rfl⟩ := Option.map_eq_some_iff.mp hjob
      exact setOutOfsts_nodup _ _ _
    · rw [hrest heq] at hjob
      exact h.outs_nodup p job hjob

end Libhevc.Encoder
