import Libhevc.Decoder.SliceRing

/-!
# The ring of slice headers in all runs

A place of the ring has the last header that was written to it, and so have the
entries of the tables. Nothing is said here about who still reads them.
-/

namespace Libhevc.Decoder

open Memory

-- ---------------------------------------------------------------------------
-- The slices of a picture
-- ---------------------------------------------------------------------------

/-- A picture, its slices in decoding order and what its tables hold. The slice map leads to an
independent slice whose data the slice of the CTB has. -/
structure RingPic.Ok (pic : RingPic α) : Prop where
  first : 0 < pic.numSlices → (pic.slices 0).i4Ctb = 0
  increasing : ∀ i j, i < j → j < pic.numSlices → (pic.slices i).i4Ctb < (pic.slices j).i4Ctb
  begun : ∀ j < pic.numSlices, (pic.slices j).i4Ctb ≤ pic.nextCtb
  map : ∀ ctb < pic.nextCtb, ∀ t, pic.Contains t ctb → ∃ u ≤ t,
    u % maxSliceHdrCnt = pic.mv.sliceMap ctb ∧
      ∀ j, u ≤ j → j ≤ t → (pic.slices j).SameData (pic.slices t)
  table : ∀ u < pic.numSlices, ∀ lx refIdx poc, ((pic.slices u).refPocs lx)[refIdx]? = some poc →
    (∀ j, u < j → j < pic.numSlices → j % maxSliceHdrCnt = u % maxSliceHdrCnt →
      ((pic.slices j).refPocs lx)[refIdx]? = none ∨
        ((pic.slices j).refPocs lx)[refIdx]? = some poc) →
    pic.mv.collocatedPoc lx (u % maxSliceHdrCnt) refIdx = poc

variable {pic : RingPic α}

theorem RingPic.Ok.nonneg (h : pic.Ok) (hj : j < pic.numSlices) : 0 ≤ (pic.slices j).i4Ctb := by
  cases j with
  | zero => exact (h.first hj).ge
  | succ j =>
    have hfirst := h.first (by omega)
    have hinc := h.increasing 0 (j + 1) (by omega) hj
    omega

theorem RingPic.Ok.mono (h : pic.Ok) (hij : i ≤ j) (hj : j < pic.numSlices) :
    (pic.slices i).i4Ctb ≤ (pic.slices j).i4Ctb := by
  rcases Nat.lt_or_eq_of_le hij with hlt | rfl
  · exact (h.increasing i j hlt hj).le
  · exact le_refl _

/-- A slice that begins by a CTB is the one of that CTB or an earlier one. -/
theorem RingPic.Contains.last (h : pic.Ok) (ht : pic.Contains t ctb) (hj : j < pic.numSlices)
    (hctb : (pic.slices j).i4Ctb ≤ ctb) : j ≤ t := by
  obtain ⟨_, _, htnext⟩ := ht
  by_contra hlt
  have hle : t + 1 ≤ j := Nat.lt_of_not_le hlt
  have hnext := htnext (Nat.lt_of_le_of_lt hle hj)
  have hmono := h.mono hle hj
  omega

theorem RingPic.Contains.unique (h : pic.Ok) (ht : pic.Contains t ctb) (hu : pic.Contains u ctb) :
    t = u :=
  Nat.le_antisymm (hu.last h ht.1 ht.2.1) (ht.last h hu.1 hu.2.1)

theorem RingHdr.SameData.refl (h : RingHdr α) : h.SameData h := ⟨rfl, rfl⟩

theorem RingHdr.SameData.symm {h h' : RingHdr α} (he : h.SameData h') : h'.SameData h :=
  ⟨he.1.symm, he.2.symm⟩

theorem RingHdr.SameData.trans {h h' h'' : RingHdr α} (hl : h.SameData h') (hr : h'.SameData h'') :
    h.SameData h'' :=
  ⟨hl.1.trans hr.1, hl.2.trans hr.2⟩

-- ---------------------------------------------------------------------------
-- All runs
-- ---------------------------------------------------------------------------

section
variable {s s' : RingState α}

theorem step_startSlice (hs : s.step numCores (.startSlice i1DependentSliceFlag refPocs fields) =
    some s') : s.inSlice = false ∧ (i1DependentSliceFlag = true → s.curSliceIdx ≠ 0) ∧
      s' = s.startSlice i1DependentSliceFlag refPocs fields := by
  simp only [RingState.step] at hs
  split at hs
  · cases hs
  · simp_all

theorem step_parseCtb (hs : s.step numCores (.parseCtb job) = some s') :
    s.inSlice = true ∧ s' = s.parseCtb job := by
  simp only [RingState.step] at hs
  split at hs
  · simp_all
  · cases hs

theorem step_endSlice (hs : s.step numCores .endSlice = some s') :
    s.inSlice = true ∧ s.ctbsInSlice ≠ 0 ∧
      s' = { s with inSlice := false, curSliceIdx := s.curSliceIdx + 1 } := by
  simp only [RingState.step] at hs
  split at hs
  · simp_all
  · cases hs

theorem step_dequeue (hs : s.step numCores (.dequeue proc) = some s') :
    ∃ job jobs, s.jobs = job :: jobs ∧
      s' = { s with jobs, procs := s.procs.set proc (some { start := job, cur := job }) } := by
  simp only [RingState.step] at hs
  split at hs
  case h_1 job jobs hproc hjobs => exact ⟨job, jobs, hjobs, (Option.some.inj hs).symm⟩
  case h_2 => cases hs

theorem step_process (hs : s.step numCores (.process proc) = some s') :
    ∃ p, s.procs[proc]? = some (some p) ∧ p.cur.ctb < s.pic.nextCtb ∧
      s' =
        { s with
          procMap := set s.procMap p.cur.ctb true
          procs := s.procs.set proc (some
            { p with
              cur :=
                { ctb := p.cur.ctb + 1
                  ctbCnt := p.cur.ctbCnt - 1
                  sliceIdx := sliceHdrUpdate s.sliceHdrBase p.cur } }) } := by
  simp only [RingState.step] at hs
  split at hs
  case h_1 p hproc =>
    split at hs
    case isTrue hctb => exact ⟨p, hproc, hctb.2, (Option.some.inj hs).symm⟩
    case isFalse => cases hs
  case h_2 => cases hs

theorem step_restore (hs : s.step numCores (.restore proc) = some s') :
    ∃ p, s.procs[proc]? = some (some p) ∧
      s' = { s with procs := s.procs.set proc (some { p with cur := p.start }) } := by
  simp only [RingState.step] at hs
  split at hs
  case h_1 p hproc => exact ⟨p, hproc, (Option.some.inj hs).symm⟩
  case h_2 => cases hs

theorem step_advance (hs : s.step numCores (.advance proc) = some s') :
    ∃ p, s.procs[proc]? = some (some p) ∧
      s' = { s with procs := s.procs.set proc (some { p with start := p.cur }) } := by
  simp only [RingState.step] at hs
  split at hs
  case h_1 p hproc => exact ⟨p, hproc, (Option.some.inj hs).symm⟩
  case h_2 => cases hs

theorem step_finish (hs : s.step numCores (.finish proc) = some s') :
    s' = { s with procs := s.procs.set proc none } := by
  simp only [RingState.step] at hs
  split at hs
  · split at hs
    · exact (Option.some.inj hs).symm
    · cases hs
  · cases hs

theorem step_endPic (hs : s.step numCores (.endPic poc) = some s') :
    s.jobs = [] ∧ s.procs.all Option.isNone = true ∧
      s' =
        { s with
          finished := s.finished ++ [s.pic]
          curSliceIdx := 0
          inSlice := false
          ctbsInSlice := 0
          procMap := fun _ => false
          pic :=
            { s.pic with
              numSlices := 0
              nextCtb := 0
              mv := { collocatedPoc := poc, sliceMap := fun _ => 0 } } } := by
  simp only [RingState.step] at hs
  split at hs
  case isTrue hdone => exact ⟨hdone.2.1, hdone.2.2, (Option.some.inj hs).symm⟩
  case isFalse => cases hs

theorem step_neighbour (hs : s.step numCores (.neighbour ctb) = some s') :
    ctb < s.pic.nextCtb ∧ s' = s := by
  simp only [RingState.step] at hs
  split at hs
  case isTrue hctb => exact ⟨hctb, (Option.some.inj hs).symm⟩
  case isFalse => cases hs

theorem step_collocated (hs : s.step numCores (.collocated i ctb lx refIdx) = some s') :
    (∃ pic, s.finished[i]? = some pic ∧ ctb < pic.nextCtb) ∧ s' = s := by
  simp only [RingState.step] at hs
  split at hs
  case h_1 pic hpic =>
    split at hs
    case isTrue hctb => exact ⟨⟨pic, hpic, hctb⟩, (Option.some.inj hs).symm⟩
    case isFalse => cases hs
  case h_2 => cases hs

end

/-- What holds of every state: a place of the ring has the last header that was written to it. -/
structure RingState.Ok (s : RingState α) : Prop where
  pic : s.pic.Ok
  finished : ∀ pic ∈ s.finished, pic.Ok
  opened : s.inSlice = true → s.pic.numSlices = s.curSliceIdx + 1 ∧
    (s.pic.slices s.curSliceIdx).i4Ctb + s.ctbsInSlice = s.pic.nextCtb
  closed : s.inSlice = false → s.pic.numSlices = s.curSliceIdx ∧
    ∀ j < s.pic.numSlices, (s.pic.slices j).i4Ctb < s.pic.nextCtb
  empty : s.pic.numSlices = 0 → s.pic.nextCtb = 0
  independent : 0 < s.pic.numSlices → ∃ u < s.pic.numSlices,
    u % maxSliceHdrCnt = s.curIndependentSliceIdx ∧ ∀ j, u ≤ j → j < s.pic.numSlices →
      (s.pic.slices j).SameData (s.pic.slices (s.pic.numSlices - 1))
  ring : ∀ j < s.pic.numSlices, s.pic.numSlices ≤ j + maxSliceHdrCnt →
    s.sliceHdrBase (j % maxSliceHdrCnt) = s.pic.slices j
  reset : 0 < s.pic.numSlices → ∀ i, s.pic.numSlices ≤ i → i < maxSliceHdrCnt →
    (s.sliceHdrBase i).i4Ctb = -1

variable {s s' : RingState α}

theorem RingState.Start.ok (h : s.Start) : s.Ok where
  pic :=
    { first := fun hn => by simp [h.numSlices] at hn
      increasing := fun _ _ _ hn => by simp [h.numSlices] at hn
      begun := fun _ hn => by simp [h.numSlices] at hn
      map := fun _ hctb => by simp [h.nextCtb] at hctb
      table := fun _ hn => by simp [h.numSlices] at hn }
  finished := fun _ hpic => by simp [h.finished] at hpic
  opened := fun hin => by simp [h.inSlice] at hin
  closed := fun _ => ⟨by rw [h.numSlices, h.curSliceIdx], fun _ hn => by simp [h.numSlices] at hn⟩
  empty := fun _ => h.nextCtb
  independent := fun hn => by simp [h.numSlices] at hn
  ring := fun _ hn => by simp [h.numSlices] at hn
  reset := fun hn => by simp [h.numSlices] at hn

section
variable {i1DependentSliceFlag : Bool} {refPocs : ListX → List (Int × Nat)} {fields : α}

theorem startSlice_old (hj : j < s.pic.numSlices) :
    (s.startSlice i1DependentSliceFlag refPocs fields).pic.slices j = s.pic.slices j :=
  set_ne (by omega)

/-- The header of a slice that begins. -/
theorem startSlice_new (s : RingState α) (i1DependentSliceFlag : Bool)
    (refPocs : ListX → List (Int × Nat)) (fields : α) :
    ((s.startSlice i1DependentSliceFlag refPocs fields).pic.slices s.pic.numSlices).i4Ctb =
      s.pic.nextCtb := by
  simp [RingState.startSlice]

theorem startSlice_contains (hctb : ctb < s.pic.nextCtb)
    (ht : (s.startSlice i1DependentSliceFlag refPocs fields).pic.Contains t ctb) :
    t < s.pic.numSlices ∧ s.pic.Contains t ctb := by
  obtain ⟨htn, htle, htnext⟩ := ht
  have htn : t < s.pic.numSlices + 1 := htn
  have hlt : t < s.pic.numSlices := by
    by_contra hge
    obtain rfl : t = s.pic.numSlices := by omega
    rw [startSlice_new] at htle
    omega
  rw [startSlice_old hlt] at htle
  refine ⟨hlt, hlt, htle, fun hnext => ?_⟩
  have hnext' := htnext (Nat.lt_succ_of_lt hnext)
  rwa [startSlice_old hnext] at hnext'

/-- The data of a dependent slice segment are those of the slice before it. -/
theorem startSlice_dependent (refPocs : ListX → List (Int × Nat)) (fields : α) (h : s.Ok)
    (hin : s.inSlice = false) (hn : 0 < s.pic.numSlices) :
    ((s.startSlice true refPocs fields).pic.slices s.pic.numSlices).SameData
      (s.pic.slices (s.pic.numSlices - 1)) := by
  obtain ⟨hcur, -⟩ := h.closed hin
  have hring := h.ring (s.pic.numSlices - 1) (by omega) (by simp [maxSliceHdrCnt]; omega)
  simp [RingState.startSlice, RingHdr.SameData, ← hcur, hring]

theorem RingState.Ok.startSlice_pic (h : s.Ok) (hin : s.inSlice = false) :
    (s.startSlice i1DependentSliceFlag refPocs fields).pic.Ok := by
  obtain ⟨hcur, hbefore⟩ := h.closed hin
  have hlast : ∀ j, j < s.pic.numSlices + 1 → j < s.pic.numSlices ∨ j = s.pic.numSlices :=
    fun j hj => Nat.lt_or_eq_of_le (Nat.le_of_lt_succ hj)
  refine ⟨fun _ => ?_, fun i j hij hj => ?_, fun j hj => ?_, fun ctb hctb t ht => ?_,
    fun u hu lx refIdx poc hpoc hlater => ?_⟩
  · rcases Nat.eq_zero_or_pos s.pic.numSlices with hzero | hpos
    · have hnew := startSlice_new s i1DependentSliceFlag refPocs fields
      rw [hzero, h.empty hzero] at hnew
      exact hnew
    · rw [startSlice_old hpos]
      exact h.pic.first hpos
  · rcases hlast j hj with hj | rfl
    · rw [startSlice_old hj, startSlice_old (hij.trans hj)]
      exact h.pic.increasing i j hij hj
    · rw [startSlice_new, startSlice_old hij]
      exact hbefore i hij
  · rcases hlast j hj with hj | rfl
    · rw [startSlice_old hj]
      exact h.pic.begun j hj
    · exact (startSlice_new ..).le
  · have hctb : ctb < s.pic.nextCtb := hctb
    obtain ⟨htn, ht⟩ := startSlice_contains hctb ht
    obtain ⟨u, hu, hmod, hsame⟩ := h.pic.map ctb hctb t ht
    refine ⟨u, hu, hmod, fun j huj hjt => ?_⟩
    rw [startSlice_old htn, startSlice_old (Nat.lt_of_le_of_lt hjt htn)]
    exact hsame j huj hjt
  · have hslot : (s.startSlice i1DependentSliceFlag refPocs fields).pic.mv.collocatedPoc lx
        (u % maxSliceHdrCnt) refIdx =
      if u % maxSliceHdrCnt = s.pic.numSlices % maxSliceHdrCnt then
        ((((s.startSlice i1DependentSliceFlag refPocs fields).pic.slices s.pic.numSlices).refPocs
          lx)[refIdx]?).getD (s.pic.mv.collocatedPoc lx (u % maxSliceHdrCnt) refIdx)
      else s.pic.mv.collocatedPoc lx (u % maxSliceHdrCnt) refIdx := by
      simp [RingState.startSlice, hcur]
    rw [hslot]
    rcases hlast u hu with hu | rfl
    · rw [startSlice_old hu] at hpoc
      have hold : (∀ j, u < j → j < s.pic.numSlices → j % maxSliceHdrCnt = u % maxSliceHdrCnt →
          ((s.pic.slices j).refPocs lx)[refIdx]? = none ∨
            ((s.pic.slices j).refPocs lx)[refIdx]? = some poc) := fun j huj hj hmod => by
        have hj' := hlater j huj (Nat.lt_succ_of_lt hj) hmod
        rwa [startSlice_old hj] at hj'
      have htable := h.pic.table u hu lx refIdx poc hpoc hold
      split
      case isTrue hmod =>
        -- the new slice has written its own entries over the row
        rcases hlater s.pic.numSlices hu (Nat.lt_succ_self _) hmod.symm with hnone | hsome
        · rw [hnone]
          exact htable
        · rw [hsome]
          rfl
      case isFalse => exact htable
    · rw [if_pos rfl, hpoc]
      rfl

theorem RingState.Ok.startSlice_independent (h : s.Ok) (hin : s.inSlice = false)
    (hdep : i1DependentSliceFlag = true → s.curSliceIdx ≠ 0) :
    ∃ u ≤ s.pic.numSlices,
      u % maxSliceHdrCnt =
          (s.startSlice i1DependentSliceFlag refPocs fields).curIndependentSliceIdx ∧
        ∀ j, u ≤ j → j ≤ s.pic.numSlices →
          ((s.startSlice i1DependentSliceFlag refPocs fields).pic.slices j).SameData
            ((s.startSlice i1DependentSliceFlag refPocs fields).pic.slices s.pic.numSlices) := by
  obtain ⟨hcur, -⟩ := h.closed hin
  cases i1DependentSliceFlag with
  | false =>
    refine ⟨s.pic.numSlices, le_refl _, ?_, fun j hj hjn => ?_⟩
    · by_cases hzero : s.curSliceIdx = 0 <;> simp [RingState.startSlice, hcur, hzero]
    · obtain rfl := Nat.le_antisymm hj hjn
      exact RingHdr.SameData.refl _
  | true =>
    have hne := hdep rfl
    have hpos : 0 < s.pic.numSlices := by omega
    obtain ⟨u, hu, hmod, hsame⟩ := h.independent hpos
    refine ⟨u, hu.le, ?_, fun j huj hjn => ?_⟩
    · simp [RingState.startSlice, hne, hmod]
    · rcases Nat.lt_or_eq_of_le hjn with hlt | rfl
      · have hnew := startSlice_dependent refPocs fields h hin hpos
        rw [startSlice_old hlt]
        exact (hsame j huj hlt).trans hnew.symm
      · exact RingHdr.SameData.refl _

theorem RingState.Ok.startSlice_ring (h : s.Ok) (hin : s.inSlice = false)
    (hj : j ≤ s.pic.numSlices) (hnear : s.pic.numSlices < j + maxSliceHdrCnt) :
    (s.startSlice i1DependentSliceFlag refPocs fields).sliceHdrBase (j % maxSliceHdrCnt) =
      (s.startSlice i1DependentSliceFlag refPocs fields).pic.slices j := by
  obtain ⟨hcur, -⟩ := h.closed hin
  rcases Nat.lt_or_eq_of_le hj with hlt | rfl
  · have hne : j % maxSliceHdrCnt ≠ s.curSliceIdx % maxSliceHdrCnt := by
      simp only [maxSliceHdrCnt] at *
      omega
    have hpos : s.curSliceIdx ≠ 0 := by omega
    rw [startSlice_old hlt, ← h.ring j hlt (by omega)]
    simp [RingState.startSlice, hpos, set_ne hne]
  · by_cases hzero : s.curSliceIdx = 0 <;> simp [RingState.startSlice, hcur, hzero]

theorem RingState.Ok.startSlice_reset (h : s.Ok) (hin : s.inSlice = false)
    (hi : s.pic.numSlices < i) (hlt : i < maxSliceHdrCnt) :
    ((s.startSlice i1DependentSliceFlag refPocs fields).sliceHdrBase i).i4Ctb = -1 := by
  obtain ⟨hcur, -⟩ := h.closed hin
  by_cases hzero : s.curSliceIdx = 0
  · have hne : i ≠ 0 := by omega
    simp [RingState.startSlice, hzero, hne]
  · have hne : i ≠ s.curSliceIdx % maxSliceHdrCnt := by
      rw [Nat.mod_eq_of_lt (by omega)]
      omega
    have hreset := h.reset (by omega) i (by omega) hlt
    simpa [RingState.startSlice, hzero, set_ne hne] using hreset

theorem RingState.Ok.startSlice (h : s.Ok) (hin : s.inSlice = false)
    (hdep : i1DependentSliceFlag = true → s.curSliceIdx ≠ 0) :
    (s.startSlice i1DependentSliceFlag refPocs fields).Ok where
  pic := h.startSlice_pic hin
  finished := h.finished
  opened := fun _ => by
    obtain ⟨hcur, -⟩ := h.closed hin
    have hnew := startSlice_new s i1DependentSliceFlag refPocs fields
    rw [hcur] at hnew
    exact ⟨congrArg (· + 1) hcur, (Int.add_zero _).trans hnew⟩
  closed := fun hin' => by cases hin'
  empty := fun hn => by cases hn
  independent := fun _ => by
    obtain ⟨u, hu, hmod, hsame⟩ := h.startSlice_independent hin hdep
    exact ⟨u, Nat.lt_succ_of_le hu, hmod, fun j huj hj => hsame j huj (Nat.le_of_lt_succ hj)⟩
  ring := fun j hj hnear => h.startSlice_ring hin (Nat.le_of_lt_succ hj) hnear
  reset := fun _ i hi hlt => h.startSlice_reset hin hi hlt

end

theorem RingState.Ok.parseCtb (h : s.Ok) (hin : s.inSlice = true) : (s.parseCtb job).Ok where
  pic :=
    { first := h.pic.first
      increasing := h.pic.increasing
      begun := fun j hj => (h.pic.begun j hj).trans (by simp [RingState.parseCtb])
      map := fun ctb hctb t ht => by
        obtain ⟨hcur, hctbs⟩ := h.opened hin
        have ht : s.pic.Contains t ctb := ht
        rcases Nat.lt_or_eq_of_le (Nat.le_of_lt_succ hctb) with hlt | rfl
        · obtain ⟨u, hu, hmod, hsame⟩ := h.pic.map ctb hlt t ht
          exact ⟨u, hu, hmod.trans (set_ne (by omega)).symm, hsame⟩
        · -- the CTB after the last is in the slice that is open
          have hlast := ht.last h.pic (j := s.curSliceIdx) (by omega) (by omega)
          obtain rfl : t = s.pic.numSlices - 1 := by
            have htn := ht.1
            omega
          obtain ⟨u, hu, hmod, hsame⟩ := h.independent (by omega)
          exact ⟨u, by omega, hmod.trans set_same.symm, fun j huj hjt => hsame j huj (by omega)⟩
      table := h.pic.table }
  finished := h.finished
  opened := fun _ => by
    obtain ⟨hcur, hctbs⟩ := h.opened hin
    refine ⟨hcur, ?_⟩
    simp only [RingState.parseCtb]
    omega
  closed := fun hin' => by
    rw [show (s.parseCtb job).inSlice = s.inSlice from rfl, hin] at hin'
    cases hin'
  empty := fun hn => by
    obtain ⟨hcur, -⟩ := h.opened hin
    have hn : s.pic.numSlices = 0 := hn
    omega
  independent := h.independent
  ring := h.ring
  reset := h.reset

theorem RingState.Ok.endSlice (h : s.Ok) (hin : s.inSlice = true) (hctbs : s.ctbsInSlice ≠ 0) :
    ({ s with inSlice := false, curSliceIdx := s.curSliceIdx + 1 } : RingState α).Ok where
  pic := h.pic
  finished := h.finished
  opened := fun hin' => by cases hin'
  closed := fun _ => by
    obtain ⟨hcur, hctb⟩ := h.opened hin
    refine ⟨hcur, fun j hj => ?_⟩
    have hj : j < s.pic.numSlices := hj
    have hmono := h.pic.mono (i := j) (j := s.curSliceIdx) (by omega) (by omega)
    show (s.pic.slices j).i4Ctb < s.pic.nextCtb
    omega
  empty := h.empty
  independent := h.independent
  ring := h.ring
  reset := h.reset

theorem RingState.Ok.endPic (h : s.Ok) (poc : ListX → Nat → Nat → Int × Nat) :
    ({ s with
        finished := s.finished ++ [s.pic]
        curSliceIdx := 0
        inSlice := false
        ctbsInSlice := 0
        procMap := fun _ => false
        pic :=
          { s.pic with
            numSlices := 0
            nextCtb := 0
            mv := { collocatedPoc := poc, sliceMap := fun _ => 0 } } } : RingState α).Ok where
  pic :=
    { first := nofun
      increasing := nofun
      begun := nofun
      map := nofun
      table := nofun }
  finished := fun pic hpic => by
    rcases List.mem_append.mp hpic with hold | hnew
    · exact h.finished pic hold
    · obtain rfl := List.mem_singleton.mp hnew
      exact h.pic
  opened := nofun
  closed := fun _ => ⟨rfl, nofun⟩
  empty := fun _ => rfl
  independent := nofun
  ring := nofun
  reset := nofun

/-- The threads that process write no header and no table. -/
theorem RingState.Ok.threads (h : s.Ok) (procMap : Nat → Bool) (jobs : List ProcPlace)
    (procs : List (Option ProcCtxt)) : ({ s with procMap, jobs, procs } : RingState α).Ok :=
  { h with }

theorem RingState.Ok.step (h : s.Ok) {e : RingEvent α} (hs : s.step numCores e = some s') :
    s'.Ok := by
  cases e with
  | startSlice =>
    obtain ⟨hin, hdep, rfl⟩ := step_startSlice hs
    exact h.startSlice hin hdep
  | parseCtb =>
    obtain ⟨hin, rfl⟩ := step_parseCtb hs
    exact h.parseCtb hin
  | endSlice =>
    obtain ⟨hin, hctbs, rfl⟩ := step_endSlice hs
    exact h.endSlice hin hctbs
  | dequeue =>
    obtain ⟨job, jobs, -, rfl⟩ := step_dequeue hs
    exact h.threads _ _ _
  | process =>
    obtain ⟨p, -, -, rfl⟩ := step_process hs
    exact h.threads _ _ _
  | restore =>
    obtain ⟨p, -, rfl⟩ := step_restore hs
    exact h.threads _ _ _
  | advance =>
    obtain ⟨p, -, rfl⟩ := step_advance hs
    exact h.threads _ _ _
  | finish =>
    obtain rfl := step_finish hs
    exact h.threads _ _ _
  | endPic =>
    obtain ⟨-, -, rfl⟩ := step_endPic hs
    exact h.endPic _
  | neighbour =>
    obtain ⟨-, rfl⟩ := step_neighbour hs
    exact h
  | collocated =>
    obtain ⟨-, rfl⟩ := step_collocated hs
    exact h

theorem RingRun.ok {start : RingState α} (h : RingRun numCores start s) (hs : start.Start) :
    s.Ok := by
  induction h with
  | start => exact hs.ok
  | step e _ hstep ih => exact ih.step hstep

end Libhevc.Decoder
