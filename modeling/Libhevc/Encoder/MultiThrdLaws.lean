import Libhevc.Encoder.MultiThrdLink

/-!
# The prepared job queues

The queues of both groups are linked, for every size of picture that the encoder lets
through: so workers get each job once, in an order that its dependencies allow.
-/

namespace Libhevc.Encoder

-- ---------------------------------------------------------------------------
-- The encode group
-- ---------------------------------------------------------------------------

theorem EncJobPrms.jobs_get (e : EncJobPrms) (inpDep outDep next n : Nat) :
    (e.jobs inpDep outDep next)[n]? = if n < e.i4NumCtbsVert * e.i4NumTileCols then
      some
        { i4VertUnitRowNo := n / e.i4NumTileCols
          i4TileColIdx := n % e.i4NumTileCols
          i4NumInputDep := inpDep
          au4OutOfsts := (List.range outDep).map fun _ => ⟨next, n, 0⟩ }
      else none := by
  unfold EncJobPrms.jobs
  split_ifs with hn
  · simp [hn]
  · simpa using hn

/-- There is one bit rate. -/
theorem ihevcePrepareJobQueue_eq (e : EncJobPrms) (t : Nat) :
    ihevcePrepareJobQueue e t =
      if t = 0 then if e.isIntra then [.zeroed] else e.jobs 0 1 1
      else if t = 1 then e.jobs (if e.isIntra then 0 else 1) 0 2 else [] := by
  have hpos := e.numBitrates_pos
  have hle : e.i4NumBitrates ≤ 1 := e.numBitrates_le
  have hone : e.i4NumBitrates = 1 := by omega
  match t with
  | 0 => rfl
  | 1 => simp [ihevcePrepareJobQueue, hone]
  | i + 2 => simp [ihevcePrepareJobQueue, hone]

/-- Each job of motion estimation clears the one byte of the job at its place. -/
theorem prepareJobQueue_clears (e : EncJobPrms) (p c : JobPlace) (byte : Nat) :
    (ihevcePrepareJobQueue e).Clears p c byte ↔ e.isIntra = false ∧ p.1 = 0 ∧ c.1 = 1 ∧
      c.2 = p.2 ∧ byte = 0 ∧ p.2 < e.i4NumCtbsVert * e.i4NumTileCols := by
  obtain ⟨t, n⟩ := p
  obtain ⟨t', n'⟩ := c
  unfold JobQueues.Clears JobQueues.job?
  dsimp only
  rw [ihevcePrepareJobQueue_eq]
  cases hintra : e.isIntra with
  | true =>
    refine iff_of_false ?_ (by simp)
    rintro ⟨job, hjob, hmem⟩
    simp only [if_true] at hjob
    split_ifs at hjob with ht ht
    · obtain rfl : job = .zeroed := by
        cases n with
        | zero => simpa using hjob.symm
        | succ n => simp at hjob
      simp [Job.zeroed] at hmem
    · rw [e.jobs_get] at hjob
      split_ifs at hjob
      obtain rfl := Option.some.inj hjob
      simp at hmem
    · simp at hjob
  | false =>
    simp only [Bool.false_eq_true, if_false, true_and]
    constructor
    · rintro ⟨job, hjob, hmem⟩
      split_ifs at hjob with ht ht
      · rw [e.jobs_get] at hjob
        split_ifs at hjob with hn
        obtain rfl := Option.some.inj hjob
        simp only [List.range_one, List.map_cons, List.map_nil, List.mem_singleton,
          OutOfst.mk.injEq] at hmem
        exact ⟨ht, hmem.1, hmem.2.1, hmem.2.2, hn⟩
      · rw [e.jobs_get] at hjob
        split_ifs at hjob
        obtain rfl := Option.some.inj hjob
        simp at hmem
      · simp at hjob
    · rintro ⟨rfl, rfl, rfl, rfl, hn⟩
      exact ⟨_, by rw [if_pos rfl, e.jobs_get, if_pos hn], by simp⟩

theorem prepareJobQueue_linked (e : EncJobPrms) :
    (ihevcePrepareJobQueue e).Linked (maxNumVertUnitsFrm * e.i4NumTileCols) := by
  have hrows : e.i4NumCtbsVert * e.i4NumTileCols ≤ maxNumVertUnitsFrm * e.i4NumTileCols :=
    Nat.mul_le_mul_right _ e.numCtbsVert_le
  have hpos : 0 < maxNumVertUnitsFrm * e.i4NumTileCols :=
    Nat.mul_pos (by decide) e.numTileCols_pos
  have hlen (inpDep outDep next : Nat) :
      (e.jobs inpDep outDep next).length = e.i4NumCtbsVert * e.i4NumTileCols := by
    simp [EncJobPrms.jobs]
  -- every job, by its queue
  have hjob {p : JobPlace} {job : Job} (h : (ihevcePrepareJobQueue e).job? p = some job) :
      (job = .zeroed ∧ e.isIntra = true ∧ p.1 = 0) ∨
        (job.i4NumInputDep = 0 ∧ job.au4OutOfsts.length ≤ 1 ∧ (p.1 = 0 ∨ e.isIntra = true)) ∨
        (job.i4NumInputDep = 1 ∧ job.au4OutOfsts = [] ∧ p.1 = 1 ∧ e.isIntra = false ∧
          p.2 < e.i4NumCtbsVert * e.i4NumTileCols) := by
    obtain ⟨t, n⟩ := p
    unfold JobQueues.job? at h
    dsimp only at h ⊢
    rw [ihevcePrepareJobQueue_eq] at h
    cases hintra : e.isIntra with
    | true =>
      simp only [hintra, if_true] at h
      split_ifs at h with ht ht
      · cases n with
        | zero => exact .inl ⟨by simpa using h.symm, rfl, ht⟩
        | succ n => simp at h
      · rw [e.jobs_get] at h
        split_ifs at h
        obtain rfl := Option.some.inj h
        exact .inr (.inl ⟨rfl, by simp, .inr rfl⟩)
      · simp at h
    | false =>
      simp only [hintra, Bool.false_eq_true, if_false] at h
      split_ifs at h with ht ht
      · rw [e.jobs_get] at h
        split_ifs at h
        obtain rfl := Option.some.inj h
        exact .inr (.inl ⟨rfl, by simp, .inl ht⟩)
      · rw [e.jobs_get] at h
        split_ifs at h with hn
        obtain rfl := Option.some.inj h
        exact .inr (.inr ⟨rfl, rfl, ht, rfl, hn⟩)
      · simp at h
  refine ⟨fun t => ?_, fun p job h => ?_, fun p job h => ?_, fun p c byte h => ?_,
    fun c job h byte => ?_, fun p p' c byte h h' => ?_, fun p job h => ?_⟩
  · rw [ihevcePrepareJobQueue_eq]
    split_ifs
    · exact hpos
    · rw [hlen]
      exact hrows
    · rw [hlen]
      exact hrows
    · rw [hlen]
      exact hrows
    · exact Nat.zero_le _
  · rcases hjob h with ⟨rfl, _⟩ | ⟨hin, _⟩ | ⟨hin, _⟩
    · exact Nat.zero_le _
    · rw [hin]
      exact Nat.zero_le _
    · rw [hin]
      decide
  · rcases hjob h with ⟨rfl, _⟩ | ⟨_, hout, _⟩ | ⟨_, hout, _⟩
    · exact Nat.zero_le _
    · exact Nat.le_trans hout (by decide)
    · rw [hout]
      exact Nat.zero_le _
  · obtain ⟨_, hp, hc, hplace, hbyte, hlt⟩ := (prepareJobQueue_clears e p c byte).mp h
    rw [hp, hc, hplace, hbyte]
    exact ⟨Nat.zero_lt_one, Nat.lt_of_lt_of_le hlt hrows, by decide⟩
  · simp only [prepareJobQueue_clears]
    rcases hjob h with ⟨rfl, hintra, _⟩ | ⟨hin, _, hc⟩ | ⟨hin, _, hc, hintra, hlt⟩
    · refine iff_of_false (Nat.not_lt_zero _) ?_
      rintro ⟨p, hnot, _⟩
      rw [hintra] at hnot
      contradiction
    · rw [hin]
      refine iff_of_false (Nat.not_lt_zero _) ?_
      rintro ⟨p, hnot, _, hc', _⟩
      rcases hc with hc | hc
      · omega
      · rw [hc] at hnot
        contradiction
    · rw [hin]
      constructor
      · intro hbyte
        exact ⟨(0, c.2), hintra, rfl, hc, rfl, by omega, hlt⟩
      · rintro ⟨p, _, _, _, _, hbyte, _⟩
        omega
  · obtain ⟨_, hp, _, hplace, _⟩ := (prepareJobQueue_clears e p c byte).mp h
    obtain ⟨_, hp', _, hplace', _⟩ := (prepareJobQueue_clears e p' c byte).mp h'
    exact Prod.ext (hp.trans hp'.symm) (hplace.symm.trans hplace')
  · rcases hjob h with ⟨rfl, _⟩ | ⟨_, hout, _⟩ | ⟨_, hout, _⟩
    · exact List.nodup_nil
    · match hlist : job.au4OutOfsts with
      | [] => exact List.nodup_nil
      | [o] => exact List.pairwise_singleton _ o
      | _ :: _ :: _ =>
        rw [hlist] at hout
        simp at hout
    · rw [hout]
      exact List.nodup_nil

-- ---------------------------------------------------------------------------
-- The sizes of the layers
-- ---------------------------------------------------------------------------

namespace PreEncPrms

variable (e : PreEncPrms)

theorem numHmeLyrs_cases : e.numHmeLyrs = 3 ∨ e.numHmeLyrs = 4 := by
  have hwd := e.picWd_ge
  have hht := e.picHt_ge
  have hstart : e.numHmeLyrs = hmeDeriveNumLayers e.i4CuAlignedPicWd e.i4CuAlignedPicHt 1 3 := by
    unfold numHmeLyrs
    rw [hmeDeriveNumLayers, if_neg, hmeDeriveNumLayers, if_neg]
    · change ¬(ceil16 (e.i4CuAlignedPicWd >>> 1) < 2 * 16 ∨
        ceil16 (e.i4CuAlignedPicHt >>> 1) < 2 * 16)
      simp only [ceil16, Nat.shiftRight_eq_div_pow]
      omega
    · change ¬(e.i4CuAlignedPicWd < 2 * 16 ∨ e.i4CuAlignedPicHt < 2 * 16)
      omega
  rw [hstart, hmeDeriveNumLayers, hmeDeriveNumLayers]
  split_ifs
  · exact .inl rfl
  · exact .inr rfl

/-- The heights of the layers above the picture itself. -/
theorem aHt_bounds : (64 ≤ e.aHt 0 ∧ e.aHt 0 ≤ 1088) ∧ (32 ≤ e.aHt 1 ∧ e.aHt 1 ≤ 544) ∧
    (16 ≤ e.aHt 2 ∧ e.aHt 2 ≤ 272) ∧ (16 ≤ e.aHt 3 ∧ e.aHt 3 ≤ 144) := by
  have hge := e.picHt_ge
  have hle := e.picHt_le
  simp only [aHt, lyrSize, ceil16, Nat.shiftRight_eq_div_pow]
  omega

theorem decompNumVertUnits_bounds : 3 ≤ e.decompNumVertUnits ∧ e.decompNumVertUnits ≤ 19 := by
  obtain ⟨_, _, _, h⟩ := e.aHt_bounds
  unfold decompNumVertUnits
  omega

/-- No layer has more units than a job has dependencies. -/
theorem numVert_bounds (hi : i < e.numHmeLyrs) : 0 < e.numVert i ∧ e.numVert i ≤ 69 := by
  obtain ⟨h0, h1, h2, h3⟩ := e.aHt_bounds
  unfold numVert unitHt hmeGetBlkSize
  rcases e.numHmeLyrs_cases with hn | hn <;> rw [hn] at hi ⊢
  · obtain rfl | rfl | rfl : i = 0 ∨ i = 1 ∨ i = 2 := by omega
    all_goals cases e.u1Encode <;> simp <;> omega
  · obtain rfl | rfl | rfl | rfl : i = 0 ∨ i = 1 ∨ i = 2 ∨ i = 3 := by omega
    all_goals cases e.u1Encode <;> simp <;> omega

/-- Layer 0 has parameters for every CTB row. -/
theorem numCtbVertRows_le : e.numCtbVertRows ≤ e.numVert 0 := by
  have hne : ¬0 = e.numHmeLyrs - 1 := by
    have := e.numHmeLyrs_cases
    omega
  unfold numVert unitHt hmeGetBlkSize numCtbVertRows aHt lyrSize
  cases e.u1Encode <;> simp [hne]
  all_goals omega

-- ---------------------------------------------------------------------------
-- Units of one layer and of the next one
-- ---------------------------------------------------------------------------

theorem hmeClip_bounds (x : Int) (h : 0 ≤ hi) : 0 ≤ hmeClip x 0 hi ∧ hmeClip x 0 hi ≤ hi := by
  unfold hmeClip
  split_ifs <;> omega

theorem mem_outDepUnits (hi : i < e.numHmeLyrs) (hu : u ∈ e.outDepUnits i j) :
    u < e.numVert i := by
  have hpos := (e.numVert_bounds hi).1
  unfold outDepUnits at hu
  dsimp only at hu
  rw [List.mem_range'_1] at hu
  generalize Int.tdiv (((j : Int) - 1) * e.unitHt (i + 1) * e.aHt i)
    (e.aHt (i + 1) * e.unitHt i) - 1 = v1 at hu
  generalize Int.tdiv (((j : Int) + 1) * e.unitHt (i + 1) * e.aHt i)
    (e.aHt (i + 1) * e.unitHt i) + 1 = v2 at hu
  have h1 := hmeClip_bounds v1 (show (0 : Int) ≤ e.numVert i - 1 by omega)
  have h2 := hmeClip_bounds v2 (show (0 : Int) ≤ e.numVert i - 1 by omega)
  omega

theorem outDepUnits_nodup (i j : Nat) : (e.outDepUnits i j).Nodup := List.nodup_range' _

theorem outDepUnits_length (hi : i < e.numHmeLyrs) (j : Nat) :
    (e.outDepUnits i j).length ≤ e.numVert i := by
  have hsub : e.outDepUnits i j ⊆ List.range (e.numVert i) := fun u hu =>
    List.mem_range.mpr (e.mem_outDepUnits hi hu)
  have hle := (List.Nodup.subperm (e.outDepUnits_nodup i j) hsub).length_le
  rwa [List.length_range] at hle

end PreEncPrms

/-- Jobs that name each unit once take no more bytes of it than they are. -/
theorem count_flatMap_le {f : Nat → List Nat} (hf : ∀ j, (f j).Nodup) (l : List Nat) (k : Nat) :
    (l.flatMap f).count k ≤ l.length := by
  induction l with
  | nil => simp
  | cons j l ih =>
    rw [List.flatMap_cons, List.count_append, List.length_cons]
    have hone : (f j).count k ≤ 1 := by
      rw [List.Nodup.count (hf j)]
      split_ifs <;> omega
    omega

/-- The counting loop counts. -/
theorem foldl_count (l : List Nat) (dep : Nat → Nat) (k : Nat) (hlt : dep k + l.count k < 256) :
    l.foldl (fun dep k => Function.update dep k ((dep k + 1) % 256)) dep k = dep k + l.count k := by
  induction l generalizing dep with
  | nil => rfl
  | cons u l ih =>
    rw [List.foldl_cons, List.count_cons] at *
    by_cases hu : u = k
    · subst hu
      simp only [beq_self_eq_true, if_true] at hlt ⊢
      rw [ih, Function.update_self, Nat.mod_eq_of_lt (by omega)]
      · omega
      · rw [Function.update_self, Nat.mod_eq_of_lt (by omega)]
        omega
    · simp only [beq_iff_eq, hu, if_false, Nat.add_zero] at hlt ⊢
      rw [ih, Function.update_of_ne (Ne.symm hu)]
      rw [Function.update_of_ne (Ne.symm hu)]
      exact hlt

/-- What the jobs of a range take, step by step. -/
theorem depTaken_map_range (f : Nat → PrepJob) (g : Nat → Nat) (hzero : g 0 = 0)
    (hstep : ∀ n < d, g (n + 1) = g n + (f n).outDepUnits.count k) :
    depTaken ((List.range d).map f) d k = g d := by
  have hall (n : Nat) (hn : n ≤ d) : depTaken ((List.range d).map f) n k = g n := by
    induction n with
    | zero => rw [depTaken_zero, hzero]
    | succ n ih =>
      have hget : ((List.range d).map f)[n]? = some (f n) := by
        simp [Nat.lt_of_succ_le hn]
      rw [depTaken_succ hget, ih (Nat.le_of_succ_le hn), hstep n hn]
  exact hall d (Nat.le_refl d)

theorem count_range' (s n k : Nat) :
    (List.range' s n).count k = if s ≤ k ∧ k < s + n then 1 else 0 := by
  rw [List.Nodup.count (List.nodup_range' _)]
  simp only [List.mem_range'_1]

-- ---------------------------------------------------------------------------
-- The pre-encode group
-- ---------------------------------------------------------------------------

namespace PreEncPrms

variable (e : PreEncPrms)

theorem inpDep_eq (hi : i + 1 < e.numHmeLyrs) (k : Nat) :
    e.inpDep i k = depTaken (e.meJobs i) (e.meJobs i).length k := by
  have hle := (e.numVert_bounds hi).2
  have hcount := count_flatMap_le (e.outDepUnits_nodup i) (List.range (e.numVert (i + 1))) k
  rw [List.length_range] at hcount
  unfold inpDep
  rw [foldl_count _ _ _ (by omega), depTaken, List.take_length, meJobs, List.flatMap_map,
    Nat.zero_add]

theorem meJobs_depTaken_le (hi : i + 1 < e.numHmeLyrs) (k : Nat) :
    depTaken (e.meJobs i) (e.meJobs i).length k ≤ maxInDep := by
  have hle := (e.numVert_bounds hi).2
  have hcount := count_flatMap_le (e.outDepUnits_nodup i) (List.range (e.numVert (i + 1))) k
  rw [depTaken, List.take_length, meJobs, List.flatMap_map]
  rw [List.length_range] at hcount
  exact Nat.le_trans hcount (Nat.le_trans hle (by decide))

theorem mePasses_head (n : Nat) (hn : n ≤ 7) : ((e.mePasses n).map Prod.fst).headD 0 = 8 - n := by
  cases n with
  | zero => rfl
  | succ i =>
    change 7 - i = 8 - (i + 1)
    omega

/-- From the intra analysis up to layer `n`. -/
theorem mePasses_linked (hn : n < e.numHmeLyrs) :
    LinkedFrom (preparePasses (e.mePasses n)) maxNumVertUnitsFrm (8 - n) fun k =>
      if n = e.numHmeLyrs - 1 then e.decompNumVertUnits else e.inpDep n k := by
  have hlyrs := e.numHmeLyrs_cases
  induction n with
  | zero =>
    refine LinkedFrom.cons (LinkedFrom.none _ 9 _) (by decide) ?_ (fun k job hjob => ?_) fun k => ?_
    · have hrows := e.numCtbVertRows_le
      have hle := (e.numVert_bounds (i := 0) (by omega)).2
      simp only [ipeJobs, List.length_map, List.length_range]
      exact Nat.le_trans hrows (Nat.le_trans hle (by decide))
    · obtain ⟨j, hj, rfl⟩ := Option.map_eq_some_iff.mp (List.getElem?_map.symm.trans hjob)
      obtain ⟨hlt, rfl⟩ := List.getElem?_eq_some_iff.mp hj
      rw [if_neg (by omega), List.getElem_range]
      exact ⟨rfl, Nat.zero_le _, by simp⟩
    · have hnone := depTaken_map_range (d := e.numCtbVertRows) (k := k)
        (fun j => { i4NumInputDep := e.inpDep 0 j, outDepUnits := [] }) (fun _ => 0) rfl
        fun _ _ => rfl
      have hlen : e.ipeJobs.length = e.numCtbVertRows := by simp [ipeJobs]
      rw [hlen]
      exact Nat.le_trans (Nat.le_of_eq hnone) (Nat.zero_le _)
  | succ i ih =>
    have hrest := ih (by omega)
    have hbounds := e.numVert_bounds (i := i) (by omega)
    have hdep : (fun k => if i = e.numHmeLyrs - 1 then e.decompNumVertUnits else e.inpDep i k) =
        depTaken (e.meJobs i) (e.meJobs i).length := by
      funext k
      rw [if_neg (by omega), e.inpDep_eq hn]
    rw [hdep] at hrest
    have hqueue : 8 - (i + 1) = 7 - i := by omega
    rw [hqueue]
    refine LinkedFrom.cons hrest (by omega) ?_ (fun k job hjob => ?_) (e.meJobs_depTaken_le hn)
    · have hle := (e.numVert_bounds hn).2
      simp only [meJobs, List.length_map, List.length_range]
      exact Nat.le_trans hle (by decide)
    · obtain ⟨j, hj, rfl⟩ := Option.map_eq_some_iff.mp (List.getElem?_map.symm.trans hjob)
      obtain ⟨hlt, rfl⟩ := List.getElem?_eq_some_iff.mp hj
      rw [List.getElem_range]
      refine ⟨rfl, ?_, fun u hu => ⟨e.mePasses_head i (by omega), ?_⟩⟩
      · exact Nat.le_trans (e.outDepUnits_length (by omega) k)
          (Nat.le_trans hbounds.2 (by decide))
      · have hlt := e.mem_outDepUnits (by omega) hu
        have hmax : 69 ≤ maxNumVertUnitsFrm := by decide
        omega

-- ---------------------------------------------------------------------------
-- The decomposition
-- ---------------------------------------------------------------------------

theorem decompJobs_get {pass : Nat} (h : (e.decompJobs pass a b)[k]? = some job) :
    k < e.decompNumVertUnits ∧
    job.i4NumInputDep = (if pass ≠ 0 ∧ (k = 0 ∨ k = e.decompNumVertUnits - 1) then a - 1 else a) ∧
    job.outDepUnits = List.range' (if pass = 2 then 0 else k - 1)
      (if pass ≠ 2 ∧ (k = 0 ∨ k = e.decompNumVertUnits - 1) then b - 1 else b) := by
  obtain ⟨j, hj, rfl⟩ := Option.map_eq_some_iff.mp (List.getElem?_map.symm.trans h)
  obtain ⟨hlt, rfl⟩ := List.getElem?_eq_some_iff.mp hj
  rw [List.length_range] at hlt
  rw [List.getElem_range]
  have hoff : (if k = 0 then k else k - 1) = k - 1 := by
    split_ifs <;> omega
  simp only [hoff, decide_eq_true_eq]
  exact ⟨hlt, trivial, trivial⟩

theorem decompJobs_length (pass a b : Nat) :
    (e.decompJobs pass a b).length = e.decompNumVertUnits := by
  simp [decompJobs]

/-- Each job names a unit once at most. -/
theorem decompJobs_depTaken_le (pass a b k : Nat) :
    depTaken (e.decompJobs pass a b) (e.decompJobs pass a b).length k ≤ maxInDep := by
  have hle := e.decompNumVertUnits_bounds.2
  rw [depTaken, List.take_length, decompJobs, List.flatMap_map]
  refine Nat.le_trans (count_flatMap_le (fun j => List.nodup_range' _) _ k) ?_
  rw [List.length_range]
  exact Nat.le_trans hle (by decide)

/-- A unit of a layer has an effect on the unit at its place in the next one, and on those beside
it. -/
theorem decompJobs_depTaken {pass : Nat} (hpass : pass ≠ 2) (hk : k < e.decompNumVertUnits)
    (a : Nat) :
    depTaken (e.decompJobs pass a 3) (e.decompJobs pass a 3).length k =
      if k = 0 ∨ k = e.decompNumVertUnits - 1 then 2 else 3 := by
  have hge := e.decompNumVertUnits_bounds.1
  rw [decompJobs_length, decompJobs]
  rw [depTaken_map_range _ (fun n => min n (k + 2) - (k - 1)) (by simp) fun n hn => ?_]
  · split_ifs <;> omega
  · rw [count_range']
    simp only [hpass, if_false, ne_eq, not_false_eq_true, true_and, decide_eq_true_eq]
    split_ifs <;> omega

/-- All jobs of the last decomposition layer have an effect on all units of the coarsest layer. -/
theorem decompJobs_depTaken_last (hk : k < m) (a : Nat) :
    depTaken (e.decompJobs 2 a m) (e.decompJobs 2 a m).length k = e.decompNumVertUnits := by
  rw [decompJobs_length, decompJobs]
  rw [depTaken_map_range _ (fun n => n) rfl fun n hn => ?_]
  rw [count_range']
  simp [hk]

theorem bounds_le : 69 ≤ maxNumVertUnitsFrm ∧ 69 ≤ maxOutDep := by decide

/-- The coarsest layer waits for the last decomposition layer. -/
theorem decomp2_linked :
    LinkedFrom (preparePasses ((2, e.decompJobs 2 3 (e.numVert (e.numHmeLyrs - 1))) ::
      e.mePasses (e.numHmeLyrs - 1))) maxNumVertUnitsFrm 2
      (depTaken (e.decompJobs 1 3 3) (e.decompJobs 1 3 3).length) := by
  have hlyrs := e.numHmeLyrs_cases
  obtain ⟨hge, hle⟩ := e.decompNumVertUnits_bounds
  obtain ⟨hstride, hout⟩ := bounds_le
  have hlast := e.numVert_bounds (i := e.numHmeLyrs - 1) (by omega)
  have hme := e.mePasses_linked (n := e.numHmeLyrs - 1) (by omega)
  rw [preparePasses, e.mePasses_head _ (by omega)]
  refine LinkedFrom.cons (hme.congr fun k hk => ?_) (by omega) ?_ (fun k job hjob => ?_)
    (e.decompJobs_depTaken_le 2 3 _)
  · rw [if_pos rfl, e.decompJobs_depTaken_last]
    obtain ⟨i, hi⟩ := Nat.exists_eq_succ_of_ne_zero (show e.numHmeLyrs - 1 ≠ 0 by omega)
    have hqueue : 8 - (i + 1) = 7 - i := by omega
    rw [hi, Nat.succ_eq_add_one, hqueue, mePasses, preparePasses, Function.update_self,
      prepareJobs_length, meJobs, List.length_map, List.length_range] at hk
    rw [hi]
    exact hk
  · rw [decompJobs_length]
    omega
  · obtain ⟨hk, hin, hunits⟩ := e.decompJobs_get hjob
    rw [hin, hunits, e.decompJobs_depTaken (by decide) hk, List.length_range']
    refine ⟨by split_ifs <;> omega, by split_ifs <;> omega, fun u hu => ⟨rfl, ?_⟩⟩
    rw [List.mem_range'_1] at hu
    split_ifs at hu <;> omega

theorem decomp1_linked :
    LinkedFrom (preparePasses ((1, e.decompJobs 1 3 3) ::
      (2, e.decompJobs 2 3 (e.numVert (e.numHmeLyrs - 1))) :: e.mePasses (e.numHmeLyrs - 1)))
      maxNumVertUnitsFrm 1 (depTaken (e.decompJobs 0 0 3) (e.decompJobs 0 0 3).length) := by
  obtain ⟨hge, hle⟩ := e.decompNumVertUnits_bounds
  obtain ⟨hstride, hout⟩ := bounds_le
  rw [preparePasses]
  refine LinkedFrom.cons e.decomp2_linked (by decide) ?_ (fun k job hjob => ?_)
    (e.decompJobs_depTaken_le 1 3 3)
  · rw [decompJobs_length]
    omega
  · obtain ⟨hk, hin, hunits⟩ := e.decompJobs_get hjob
    rw [hin, hunits, e.decompJobs_depTaken (by decide) hk, List.length_range']
    refine ⟨by split_ifs <;> omega, by split_ifs <;> omega, fun u hu => ⟨rfl, ?_⟩⟩
    rw [List.mem_range'_1] at hu
    split_ifs at hu <;> omega

theorem passes_linked : LinkedFrom (preparePasses e.passes) maxNumVertUnitsFrm 0 fun _ => 0 := by
  obtain ⟨hge, hle⟩ := e.decompNumVertUnits_bounds
  obtain ⟨hstride, hout⟩ := bounds_le
  rw [passes, preparePasses]
  refine LinkedFrom.cons e.decomp1_linked (by decide) ?_ (fun k job hjob => ?_)
    (e.decompJobs_depTaken_le 0 0 3)
  · rw [decompJobs_length]
    omega
  · obtain ⟨hk, hin, hunits⟩ := e.decompJobs_get hjob
    rw [hin, hunits, List.length_range']
    refine ⟨by simp, ?_, fun u hu => ⟨rfl, ?_⟩⟩
    · split_ifs <;> omega
    · rw [List.mem_range'_1] at hu
      split_ifs at hu <;> omega

theorem mePasses_queue (n : Nat) : ∀ p ∈ e.mePasses n, p.1 < 9 := by
  induction n with
  | zero => simp [mePasses]
  | succ i ih =>
    intro p hp
    rcases List.mem_cons.mp hp with rfl | hp
    · dsimp only
      omega
    · exact ih p hp

end PreEncPrms

theorem preparePasses_of_ne (passes : List (Nat × List PrepJob)) (h : ∀ p ∈ passes, p.1 ≠ t) :
    preparePasses passes t = [] := by
  induction passes with
  | nil => rfl
  | cons p passes ih =>
    rw [preparePasses, Function.update_of_ne (h p (by simp)).symm]
    exact ih fun p' hp' => h p' (List.mem_cons_of_mem p hp')

end Libhevc.Encoder
