import Libhevc.Decoder.SliceRingLaws

/-!
# Live entries of the ring of slice headers

Nothing is lost in runs whose steps wait long enough. The code waits at one place
only, in multi-core mode, and never for the tables.
-/

namespace Libhevc.Decoder

open Memory

variable {s s' : RingState α} {i1DependentSliceFlag : Bool}
  {refPocs : ListX → List (Int × Nat)} {fields : α}

-- ---------------------------------------------------------------------------
-- Runs that lose nothing
-- ---------------------------------------------------------------------------

/-- The CTB of a place is in its slice, or begins the next one. -/
structure RingPic.Place (pic : RingPic α) (p : ProcPlace) : Prop where
  idx : p.sliceIdx < pic.numSlices
  le : (pic.slices p.sliceIdx).i4Ctb ≤ p.ctb
  next : p.sliceIdx + 1 < pic.numSlices → p.ctb ≤ (pic.slices (p.sliceIdx + 1)).i4Ctb
  parsed : p.ctb ≤ pic.nextCtb

/-- The headers of all CTBs from here on are still in the ring. -/
def RingPic.Kept (pic : RingPic α) (ctb : Nat) : Prop :=
  ∀ j, j + maxSliceHdrCnt = pic.numSlices → (pic.slices j).i4Ctb ≤ ctb

/-- What holds in runs that lose nothing. -/
structure RingState.Live (s : RingState α) : Prop where
  ok : s.Ok
  jobs : ∀ p ∈ s.jobs, s.pic.Place p ∧ s.pic.Kept p.ctb
  procs : ∀ proc, some proc ∈ s.procs →
    s.pic.Place proc.start ∧ s.pic.Kept proc.start.ctb ∧ s.pic.Place proc.cur ∧
      proc.start.ctb ≤ proc.cur.ctb

theorem RingState.Start.live (h : s.Start) : s.Live where
  ok := h.ok
  jobs := fun p hp => by simp [h.jobs] at hp
  procs := fun proc hproc => by cases h.procs _ hproc

theorem RingPic.Kept.mono {pic : RingPic α} (h : pic.Kept ctb) (hle : ctb ≤ ctb') :
    pic.Kept ctb' :=
  fun j hj => (h j hj).trans (Int.ofNat_le.mpr hle)

/-- The slice after the one of a place has not been written over. -/
theorem RingPic.Place.near {pic : RingPic α} {p : ProcPlace} (hok : pic.Ok) (hp : pic.Place p) (hkept : pic.Kept p.ctb) :
    pic.numSlices ≤ p.sliceIdx + 1 + maxSliceHdrCnt := by
  by_contra hfar
  have hj := hkept (pic.numSlices - maxSliceHdrCnt) (by omega)
  have hnext := hp.next (by omega)
  have hinc := hok.increasing (p.sliceIdx + 1) (pic.numSlices - maxSliceHdrCnt) (by omega)
    (by simp [maxSliceHdrCnt]; omega)
  omega

/-- The next slice begins at the CTB of the place. -/
theorem sliceHdrUpdate_next (h : s.Ok) (hp : s.pic.Place p) (hkept : s.pic.Kept p.ctb)
    (hn : p.sliceIdx + 1 < s.pic.numSlices)
    (hctb : (s.pic.slices (p.sliceIdx + 1)).i4Ctb = p.ctb) :
    sliceHdrUpdate s.sliceHdrBase p = p.sliceIdx + 1 := by
  have hinc := h.pic.increasing p.sliceIdx (p.sliceIdx + 1) (Nat.lt_succ_self _) hn
  have hnonneg := h.pic.nonneg hp.idx
  have hring := h.ring (p.sliceIdx + 1) hn (hp.near h.pic hkept)
  refine if_pos ⟨by omega, ?_⟩
  rw [hring, hctb]

/-- What stands at the next place of the ring begins elsewhere. -/
theorem sliceHdrUpdate_same (h : s.Ok) (hp : s.pic.Place p) (hkept : s.pic.Kept p.ctb)
    (hctb : p.sliceIdx + 1 < s.pic.numSlices → (s.pic.slices (p.sliceIdx + 1)).i4Ctb ≠ p.ctb) :
    sliceHdrUpdate s.sliceHdrBase p = p.sliceIdx := by
  refine if_neg ?_
  rintro ⟨hpos, hfound⟩
  have hle := hp.le
  rcases Nat.lt_or_eq_of_le (Nat.succ_le_of_lt hp.idx) with hn | hn
  · rw [h.ring (p.sliceIdx + 1) hn (hp.near h.pic hkept)] at hfound
    exact hctb hn hfound
  · rcases Nat.lt_or_ge (p.sliceIdx + 1) maxSliceHdrCnt with hlt | hge
    · -- not written since the picture began
      rw [Nat.mod_eq_of_lt hlt, h.reset (by omega) _ (by omega) hlt] at hfound
      omega
    · -- the oldest header of the ring
      obtain ⟨j, hj⟩ := Nat.exists_eq_add_of_le' hge
      have hjlt : j < p.sliceIdx := by simp only [maxSliceHdrCnt] at hj; omega
      rw [hj, Nat.add_mod_right, h.ring j (by omega) (by omega)] at hfound
      have hinc := h.pic.increasing j p.sliceIdx hjlt hp.idx
      omega

/-- The update finds the slice of the CTB, and its header is in the ring. -/
theorem sliceHdrUpdate_contains (h : s.Ok) (hp : s.pic.Place p) (hkept : s.pic.Kept p.ctb) :
    s.pic.Contains (sliceHdrUpdate s.sliceHdrBase p) p.ctb ∧
      s.pic.numSlices ≤ sliceHdrUpdate s.sliceHdrBase p + maxSliceHdrCnt := by
  by_cases hnext : p.sliceIdx + 1 < s.pic.numSlices ∧
      (s.pic.slices (p.sliceIdx + 1)).i4Ctb = p.ctb
  · obtain ⟨hn, hctb⟩ := hnext
    rw [sliceHdrUpdate_next h hp hkept hn hctb]
    refine ⟨⟨hn, hctb.le, fun hn' => ?_⟩, hp.near h.pic hkept⟩
    rw [← hctb]
    exact h.pic.increasing _ _ (Nat.lt_succ_self _) hn'
  · rw [sliceHdrUpdate_same h hp hkept fun hn hctb => hnext ⟨hn, hctb⟩]
    refine ⟨⟨hp.idx, hp.le, fun hn => ?_⟩, ?_⟩
    · have hle := hp.next hn
      have hne : (s.pic.slices (p.sliceIdx + 1)).i4Ctb ≠ p.ctb := fun hctb => hnext ⟨hn, hctb⟩
      omega
    · have hnear := hp.near h.pic hkept
      by_contra hfar
      have heq : p.sliceIdx + 1 + maxSliceHdrCnt = s.pic.numSlices := by omega
      have hn : p.sliceIdx + 1 < s.pic.numSlices := by simp [← heq, maxSliceHdrCnt]
      exact hnext ⟨hn, (hkept _ heq).antisymm (hp.next hn)⟩

/-- The place of the CTB after one that has been processed. -/
theorem RingPic.Contains.place {pic : RingPic α} (h : pic.Contains t ctb)
    (hctb : ctb < pic.nextCtb) : pic.Place { ctb := ctb + 1, ctbCnt, sliceIdx := t } where
  idx := h.1
  le := by
    have hle := h.2.1
    push_cast
    omega
  next := fun hn => by
    have hlt := h.2.2 hn
    push_cast
    omega
  parsed := hctb

theorem RingPic.Place.startSlice (hp : s.pic.Place p) :
    (s.startSlice i1DependentSliceFlag refPocs fields).pic.Place p where
  idx := Nat.lt_succ_of_lt hp.idx
  le := by
    rw [startSlice_old hp.idx]
    exact hp.le
  next := fun hn => by
    rcases Nat.lt_or_eq_of_le (Nat.le_of_lt_succ hn) with hlt | heq
    · rw [startSlice_old hlt]
      exact hp.next hlt
    · rw [heq, startSlice_new]
      exact Int.ofNat_le.mpr hp.parsed
  parsed := hp.parsed

theorem RingPic.Kept.startSlice {ctb : Nat} (h : s.Ok) (hin : s.inSlice = false)
    (hallow : maxSliceHdrCnt ≤ s.curSliceIdx →
      (s.pic.slices (s.curSliceIdx + 1 - maxSliceHdrCnt)).i4Ctb ≤ ctb) :
    (s.startSlice i1DependentSliceFlag refPocs fields).pic.Kept ctb := by
  intro j hj
  have hj : j + maxSliceHdrCnt = s.pic.numSlices + 1 := hj
  obtain ⟨hcur, -⟩ := h.closed hin
  have hlt : j < s.pic.numSlices := by simp only [maxSliceHdrCnt] at hj; omega
  rw [startSlice_old hlt]
  rcases Nat.lt_or_ge s.curSliceIdx maxSliceHdrCnt with hfew | hmany
  · obtain rfl : j = 0 := by omega
    rw [h.pic.first hlt]
    exact Int.natCast_nonneg _
  · have hj' : s.curSliceIdx + 1 - maxSliceHdrCnt = j := by omega
    rw [← hj']
    exact hallow hmany

theorem RingState.Live.startSlice (h : s.Live) (hin : s.inSlice = false)
    (hdep : i1DependentSliceFlag = true → s.curSliceIdx ≠ 0)
    (hallow : s.Allows (.startSlice i1DependentSliceFlag refPocs fields)) :
    (s.startSlice i1DependentSliceFlag refPocs fields).Live where
  ok := h.ok.startSlice hin hdep
  jobs := fun p hp => by
    obtain ⟨hplace, -⟩ := h.jobs p hp
    exact ⟨hplace.startSlice, .startSlice h.ok hin fun hmany => hallow hmany p (.inl hp)⟩
  procs := fun proc hproc => by
    obtain ⟨hstart, -, hcur, hle⟩ := h.procs proc hproc
    exact ⟨hstart.startSlice, .startSlice h.ok hin fun hmany =>
      hallow hmany proc.start (.inr ⟨proc, hproc, rfl⟩), hcur.startSlice, hle⟩

theorem RingPic.Place.parseCtb (hp : s.pic.Place p) : (s.parseCtb job).pic.Place p :=
  { hp with parsed := Nat.le_succ_of_le hp.parsed }

theorem RingState.Live.parseCtb (h : s.Live) (hin : s.inSlice = true) :
    (s.parseCtb job).Live where
  ok := h.ok.parseCtb hin
  jobs := fun p hp => by
    rcases List.mem_append.mp hp with hold | hnew
    · obtain ⟨hplace, hkept⟩ := h.jobs p hold
      exact ⟨hplace.parseCtb, hkept⟩
    · obtain ⟨hcur, hctbs⟩ := h.ok.opened hin
      obtain ⟨ctbCnt, -, rfl⟩ : ∃ ctbCnt, job = some ctbCnt ∧
          ({ ctb := s.pic.nextCtb, ctbCnt, sliceIdx := s.curSliceIdx } : ProcPlace) = p := by
        simpa using hnew
      refine ⟨⟨?_, ?_, fun hn => ?_, Nat.le_succ _⟩, fun j hj => ?_⟩
      · exact hcur.ge
      · show (s.pic.slices s.curSliceIdx).i4Ctb ≤ s.pic.nextCtb
        omega
      · have hn : s.curSliceIdx + 1 < s.pic.numSlices := hn
        omega
      · have hj : j + maxSliceHdrCnt = s.pic.numSlices := hj
        exact h.ok.pic.begun j (by simp [maxSliceHdrCnt] at hj; omega)
  procs := fun proc hproc => by
    obtain ⟨hstart, hkept, hcur, hle⟩ := h.procs proc hproc
    exact ⟨hstart.parseCtb, hkept, hcur.parseCtb, hle⟩

/-- A process context gets another place. -/
theorem RingState.Live.setProc (h : s.Live) (procMap : Nat → Bool) {jobs : List ProcPlace}
    {p : Option ProcCtxt} (hjobs : ∀ p ∈ jobs, p ∈ s.jobs)
    (hp : ∀ proc', some proc' = p → s.pic.Place proc'.start ∧ s.pic.Kept proc'.start.ctb ∧
      s.pic.Place proc'.cur ∧ proc'.start.ctb ≤ proc'.cur.ctb) :
    ({ s with procMap, jobs, procs := s.procs.set proc p } : RingState α).Live where
  ok := h.ok.threads _ _ _
  jobs := fun p' hp' => h.jobs p' (hjobs p' hp')
  procs := fun proc' hproc => by
    rcases List.mem_or_eq_of_mem_set hproc with hold | hnew
    · exact h.procs proc' hold
    · exact hp proc' hnew

theorem RingState.Live.step (h : s.Live) {e : RingEvent α} (hallow : s.Allows e)
    (hs : s.step numCores e = some s') : s'.Live := by
  cases e with
  | startSlice =>
    obtain ⟨hin, hdep, rfl⟩ := step_startSlice hs
    exact h.startSlice hin hdep hallow
  | parseCtb =>
    obtain ⟨hin, rfl⟩ := step_parseCtb hs
    exact h.parseCtb hin
  | endSlice =>
    have hok := h.ok.step hs
    obtain ⟨hin, hctbs, rfl⟩ := step_endSlice hs
    exact ⟨hok, h.jobs, h.procs⟩
  | dequeue =>
    obtain ⟨job, jobs, hjobs, rfl⟩ := step_dequeue hs
    refine h.setProc s.procMap (fun p hp => ?_) ?_
    · rw [hjobs]
      exact List.mem_cons_of_mem _ hp
    · rintro _ ⟨⟩
      obtain ⟨hplace, hkept⟩ := h.jobs job (by simp [hjobs])
      exact ⟨hplace, hkept, hplace, le_refl _⟩
  | process =>
    obtain ⟨p, hp, hctb, rfl⟩ := step_process hs
    refine h.setProc _ (fun _ hp' => hp') ?_
    rintro _ ⟨⟩
    obtain ⟨hstart, hkept, hcur, hle⟩ := h.procs p (List.mem_of_getElem? hp)
    obtain ⟨hcontains, -⟩ := sliceHdrUpdate_contains h.ok hcur (hkept.mono hle)
    exact ⟨hstart, hkept, hcontains.place hctb, Nat.le_succ_of_le hle⟩
  | restore =>
    obtain ⟨p, hp, rfl⟩ := step_restore hs
    refine h.setProc s.procMap (fun _ hp' => hp') ?_
    rintro _ ⟨⟩
    obtain ⟨hstart, hkept, hcur, hle⟩ := h.procs p (List.mem_of_getElem? hp)
    exact ⟨hstart, hkept, hstart, le_refl _⟩
  | advance =>
    obtain ⟨p, hp, rfl⟩ := step_advance hs
    refine h.setProc s.procMap (fun _ hp' => hp') ?_
    rintro _ ⟨⟩
    obtain ⟨hstart, hkept, hcur, hle⟩ := h.procs p (List.mem_of_getElem? hp)
    exact ⟨hcur, hkept.mono hle, hcur, le_refl _⟩
  | finish =>
    obtain rfl := step_finish hs
    exact h.setProc s.procMap (fun _ hp' => hp') nofun
  | endPic =>
    have hok := h.ok.step hs
    obtain ⟨hjobs, hprocs, rfl⟩ := step_endPic hs
    refine ⟨hok, fun p hp => ?_, fun proc hproc => ?_⟩
    · rw [show p ∈ s.jobs ↔ p ∈ [] by rw [hjobs]] at hp
      cases hp
    · have hnone := List.all_eq_true.mp hprocs _ hproc
      cases hnone
  | neighbour =>
    obtain ⟨-, rfl⟩ := step_neighbour hs
    exact h
  | collocated =>
    obtain ⟨-, rfl⟩ := step_collocated hs
    exact h

theorem KeptRun.live {start : RingState α} (h : KeptRun numCores start s) (hs : start.Start) :
    s.Live := by
  induction h with
  | start => exact hs.live
  | step e _ hallow hstep ih => exact ih.step hallow hstep

-- ---------------------------------------------------------------------------
-- Reads
-- ---------------------------------------------------------------------------

/-- A place of the ring that the slice map leads to has a header of the same data. -/
theorem RingState.Ok.neighbour (h : s.Ok) (hctb : ctb < s.pic.nextCtb)
    (ht : s.pic.Contains t ctb) (hkept : ∀ j, t < j → j < s.pic.numSlices →
      j % maxSliceHdrCnt ≠ s.pic.mv.sliceMap ctb) :
    (s.sliceHdrBase (s.pic.mv.sliceMap ctb)).SameData (s.pic.slices t) := by
  obtain ⟨u, hu, hmod, hsame⟩ := h.pic.map ctb hctb t ht
  have htn := ht.1
  -- the last slice with this place in the ring
  obtain ⟨j, huj, hjn, hnear, hj⟩ : ∃ j, u ≤ j ∧ j < s.pic.numSlices ∧
      s.pic.numSlices ≤ j + maxSliceHdrCnt ∧ j % maxSliceHdrCnt = u % maxSliceHdrCnt := by
    refine ⟨u + maxSliceHdrCnt * ((s.pic.numSlices - 1 - u) / maxSliceHdrCnt), ?_, ?_, ?_, ?_⟩
    · omega
    · simp only [maxSliceHdrCnt]
      omega
    · simp only [maxSliceHdrCnt]
      omega
    · exact Nat.add_mul_mod_self_left u _ _
  have hjt : j ≤ t := by
    by_contra hlt
    exact hkept j (Nat.lt_of_not_le hlt) hjn (hj.trans hmod)
  rw [← hmod, ← hj, h.ring j hjn hnear]
  exact hsame j huj hjt

/-- An entry of the tables that the slice map leads to is the one of the slice of the CTB. -/
theorem RingPic.Ok.collocated {pic : RingPic α} (h : pic.Ok) (hctb : ctb < pic.nextCtb)
    (ht : pic.Contains t ctb) (hpoc : ((pic.slices t).refPocs lx)[refIdx]? = some poc)
    (hkept : ∀ j, t < j → j < pic.numSlices → j % maxSliceHdrCnt = pic.mv.sliceMap ctb →
      ((pic.slices j).refPocs lx)[refIdx]? = none ∨
        ((pic.slices j).refPocs lx)[refIdx]? = ((pic.slices t).refPocs lx)[refIdx]?) :
    pic.mv.collocatedPoc lx (pic.mv.sliceMap ctb % maxSliceHdrCnt) refIdx = poc := by
  obtain ⟨u, hu, hmod, hsame⟩ := h.map ctb hctb t ht
  rw [← hmod, Nat.mod_mod]
  refine h.table u (Nat.lt_of_le_of_lt hu ht.1) lx refIdx poc ?_ fun j huj hjn hj => ?_
  · rw [(hsame u (le_refl _) hu).1]
    exact hpoc
  · rcases Nat.lt_or_ge t j with hlt | hle
    · rw [← hpoc]
      exact hkept j hlt hjn (hj.trans hmod)
    · rw [(hsame j huj.le hle).1]
      exact .inr hpoc

/-- One process context, and nothing decoded yet. -/
def idleRing : RingState Unit where
  pic :=
    { slices := fun _ => { i4Ctb := 0, refPocs := fun _ => [], fields := () }
      numSlices := 0
      nextCtb := 0
      mv := { collocatedPoc := fun _ _ _ => (0, 0), sliceMap := fun _ => 0 } }
  sliceHdrBase := fun _ => { i4Ctb := 0, refPocs := fun _ => [], fields := () }
  curSliceIdx := 0
  curIndependentSliceIdx := 0
  inSlice := false
  ctbsInSlice := 0
  procMap := fun _ => false
  jobs := []
  procs := [none]
  finished := []

theorem idleRing_start : idleRing.Start where
  numSlices := rfl
  nextCtb := rfl
  curSliceIdx := rfl
  inSlice := rfl
  ctbsInSlice := rfl
  jobs := rfl
  procs := fun _ h => List.mem_singleton.mp h
  finished := rfl

/-- Slices of one CTB each, with a reference picture of its own, are parsed and processed. -/
theorem idleRing_slices (n : Nat) (hn : n ≤ maxSliceHdrCnt) : ∃ s, RingRun 1 idleRing s ∧
    s.pic.numSlices = n + 1 ∧ s.pic.nextCtb = n + 1 ∧ s.inSlice = false ∧ s.ctbsInSlice ≠ 0 ∧
      s.jobs = [] ∧ s.finished = [] ∧
      (∃ p, s.procs = [some p] ∧ p.cur.ctb = n + 1 ∧ p.cur.ctbCnt = maxSliceHdrCnt - n) ∧
      ∀ j ≤ n, s.pic.slices j =
        { i4Ctb := j, refPocs := fun _ => [((j : Int), 0)], fields := () } := by
  induction n with
  | zero =>
    have hslice : RingRun 1 idleRing (idleRing.startSlice false (fun _ => [(0, 0)]) ()) :=
      .step (.startSlice false (fun _ => [(0, 0)]) ()) .start rfl
    have hctb := hslice.step (.parseCtb (some (maxSliceHdrCnt + 1))) rfl
    have hjob := hctb.step (.dequeue 0) rfl
    have hproc := hjob.step (.process 0) rfl
    have hend := hproc.step .endSlice rfl
    refine ⟨_, hend, rfl, rfl, rfl, by decide, rfl, rfl, ⟨_, rfl, rfl, rfl⟩, fun j hj => ?_⟩
    obtain rfl := Nat.le_zero.mp hj
    rfl
  | succ n ih =>
    obtain ⟨s, hrun, hnum, hnext, hin, -, hjobs, hfinished, ⟨p, hprocs, hctb, hcnt⟩, hslices⟩ :=
      ih (Nat.le_of_succ_le hn)
    have hslice : RingRun 1 idleRing (s.startSlice false (fun _ => [((n + 1 : Nat), 0)]) ()) :=
      hrun.step (.startSlice false (fun _ => [((n + 1 : Nat), 0)]) ()) (by simp [RingState.step, hin])
    have hparse := hslice.step (.parseCtb none) rfl
    have hleft : p.cur.ctbCnt ≠ 0 := by omega
    have hparsed : p.cur.ctb < s.pic.nextCtb + 1 := by omega
    have hproc := hparse.step (.process 0) (by
      simp only [RingState.step, RingState.parseCtb, RingState.startSlice, hprocs,
        List.getElem?_cons_zero]
      exact if_pos ⟨hleft, hparsed⟩)
    have hend := hproc.step .endSlice rfl
    refine ⟨_, hend, congrArg (· + 1) hnum, congrArg (· + 1) hnext, rfl, Nat.succ_ne_zero _, ?_,
      hfinished, ⟨_, rfl, ?_, ?_⟩, fun j hj => ?_⟩
    · exact (List.append_nil _).trans hjobs
    · exact congrArg (· + 1) hctb
    · show p.cur.ctbCnt - 1 = maxSliceHdrCnt - (n + 1)
      omega
    · rcases Nat.lt_or_eq_of_le hj with hlt | rfl
      · exact (startSlice_old (by omega)).trans (hslices j (Nat.le_of_lt_succ hlt))
      · rw [← hnum]
        refine set_same.trans ?_
        simp [hnum, hnext]

end Libhevc.Decoder
