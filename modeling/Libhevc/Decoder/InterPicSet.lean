import Libhevc.Decoder.RefPicSetChain
import Mathlib.Data.List.Sort

/-!
# Predicted reference picture sets

The set that is predicted from another one is that of the specification, whose
four scans keep the delta POCs in order, exactly when no delta POC becomes zero.
-/

namespace Libhevc.Spec

open Decoder

/-- `used_by_curr_pic_flag` and `use_delta_flag` of `n` candidates; the second is 1 where it is
absent. -/
def refFlags : Nat → Bitstrm → List (Nat × Nat)
  | 0, _ => []
  | n + 1, s =>
    let (usedByCurrPicFlag, s) := ihevcdBitsGet s 1
    if usedByCurrPicFlag = 0 then
      let (useDeltaFlag, s) := ihevcdBitsGet s 1
      (usedByCurrPicFlag, useDeltaFlag) :: refFlags n s
    else (usedByCurrPicFlag, 1) :: refFlags n s

/-- The delta POC `dPoc` of candidate `j` and its flag, where they enter a list. -/
def rpsEntry (flags : List (Nat × Nat)) (keep : Int → Bool) (j : Nat) (dPoc : Int) :
    Option (Int × Nat) :=
  let flag := flags.getD j (0, 0)
  if keep dPoc ∧ flag.2 ≠ 0 then some (dPoc, flag.1) else none

section
variable (ref : StrefPicset) (deltaRps : Int) (flags : List (Nat × Nat))

/-- `DeltaPocS0` and `UsedByCurrPicS0`, equation 7-61. -/
def interS0 : List (Int × Nat) :=
  let entry := rpsEntry flags (· < 0)
  ((List.range ref.i1NumPosPics).reverse.filterMap fun j =>
      entry (ref.i1NumNegPics + j) (ref.ai2DeltaPoc (ref.i1NumNegPics + j) + deltaRps)) ++
    (entry ref.i1NumDeltaPocs deltaRps).toList ++
    (List.range ref.i1NumNegPics).filterMap fun j => entry j (ref.ai2DeltaPoc j + deltaRps)

/-- `DeltaPocS1` and `UsedByCurrPicS1`, equation 7-62. -/
def interS1 : List (Int × Nat) :=
  let entry := rpsEntry flags (0 < ·)
  ((List.range ref.i1NumNegPics).reverse.filterMap fun j =>
      entry j (ref.ai2DeltaPoc j + deltaRps)) ++
    (entry ref.i1NumDeltaPocs deltaRps).toList ++
    (List.range ref.i1NumPosPics).filterMap fun j =>
      entry (ref.i1NumNegPics + j) (ref.ai2DeltaPoc (ref.i1NumNegPics + j) + deltaRps)

end

end Libhevc.Spec

namespace Libhevc.Decoder

open Memory Spec

/-- The negative pictures of a set, in order. -/
def StrefPicset.negPics (ps : StrefPicset) : List (Int × Nat) :=
  (List.range ps.i1NumNegPics).map fun i => (ps.ai2DeltaPoc i, ps.ai1Used i)

/-- The pictures behind the negative ones. -/
def StrefPicset.posPics (ps : StrefPicset) : List (Int × Nat) :=
  (List.range ps.i1NumPosPics).map fun i =>
    (ps.ai2DeltaPoc (ps.i1NumNegPics + i), ps.ai1Used (ps.i1NumNegPics + i))

-- ---------------------------------------------------------------------------
-- The scans of the specification
-- ---------------------------------------------------------------------------

/-- The entry of candidate `j`. -/
def StrefPicset.entry (ref : StrefPicset) (deltaRps : Int) (flags : List (Nat × Nat))
    (keep : Int → Bool) (j : Nat) : Option (Int × Nat) :=
  rpsEntry flags keep j (ref.candidate deltaRps j)

/-- The entries of all candidates, in their order. -/
def StrefPicset.entries (ref : StrefPicset) (deltaRps : Int) (flags : List (Nat × Nat)) :
    List (Int × Nat) :=
  (List.range (ref.i1NumDeltaPocs + 1)).filterMap (ref.entry deltaRps flags fun _ => true)

section
variable {ref : StrefPicset}

theorem candidate_lt (hj : j < ref.i1NumDeltaPocs) :
    ref.ai2DeltaPoc j + deltaRps = ref.candidate deltaRps j := by
  rw [StrefPicset.candidate, if_pos hj, Int.add_comm]

theorem candidate_last : ref.candidate deltaRps ref.i1NumDeltaPocs = deltaRps := by
  rw [StrefPicset.candidate, if_neg (Nat.lt_irrefl _), Int.add_zero]

/-- The candidates in the order of equation 7-61. -/
def StrefPicset.orderS0 (ref : StrefPicset) : List Nat :=
  (List.range ref.i1NumPosPics).reverse.map (ref.i1NumNegPics + ·) ++ [ref.i1NumDeltaPocs] ++
    List.range ref.i1NumNegPics

/-- The candidates in the order of equation 7-62. -/
def StrefPicset.orderS1 (ref : StrefPicset) : List Nat :=
  (List.range ref.i1NumNegPics).reverse ++ [ref.i1NumDeltaPocs] ++
    (List.range ref.i1NumPosPics).map (ref.i1NumNegPics + ·)

theorem interS0_eq (hc : ref.Counted) :
    interS0 ref deltaRps flags = ref.orderS0.filterMap (ref.entry deltaRps flags (· < 0)) := by
  have hcount := hc.count
  unfold interS0 StrefPicset.orderS0
  dsimp only
  rw [List.filterMap_append, List.filterMap_append, List.filterMap_map]
  congr 1
  · congr 1
    · refine List.filterMap_congr fun j hj => ?_
      have hj := List.mem_range.mp (List.mem_reverse.mp hj)
      rw [Function.comp, StrefPicset.entry, candidate_lt (by omega)]
    · rw [List.filterMap_cons, StrefPicset.entry, candidate_last]
      cases rpsEntry flags (· < 0) ref.i1NumDeltaPocs deltaRps <;> rfl
  · refine List.filterMap_congr fun j hj => ?_
    have hj := List.mem_range.mp hj
    rw [StrefPicset.entry, candidate_lt (by omega)]

theorem interS1_eq (hc : ref.Counted) :
    interS1 ref deltaRps flags = ref.orderS1.filterMap (ref.entry deltaRps flags (0 < ·)) := by
  have hcount := hc.count
  unfold interS1 StrefPicset.orderS1
  dsimp only
  rw [List.filterMap_append, List.filterMap_append, List.filterMap_map]
  congr 1
  · congr 1
    · refine List.filterMap_congr fun j hj => ?_
      have hj := List.mem_range.mp (List.mem_reverse.mp hj)
      rw [StrefPicset.entry, candidate_lt (by omega)]
    · rw [List.filterMap_cons, StrefPicset.entry, candidate_last]
      cases rpsEntry flags (0 < ·) ref.i1NumDeltaPocs deltaRps <;> rfl
  · refine List.filterMap_congr fun j hj => ?_
    have hj := List.mem_range.mp hj
    rw [Function.comp, StrefPicset.entry, candidate_lt (by omega)]

theorem range_candidates (hc : ref.Counted) : List.range (ref.i1NumDeltaPocs + 1) =
    List.range ref.i1NumNegPics ++ (List.range ref.i1NumPosPics).map (ref.i1NumNegPics + ·) ++
      [ref.i1NumDeltaPocs] := by
  rw [List.range_succ, ← hc.count, List.range_add]

theorem orderS0_eq : ref.orderS0 = ref.orderS1.reverse := by
  simp [StrefPicset.orderS0, StrefPicset.orderS1, List.map_reverse]

theorem orderS1_perm (hc : ref.Counted) :
    ref.orderS1.Perm (List.range (ref.i1NumDeltaPocs + 1)) := by
  rw [range_candidates hc, StrefPicset.orderS1, List.append_assoc, List.append_assoc]
  exact (List.reverse_perm _).append List.perm_append_comm

/-- From the last negative candidate over `delta_rps` to the last positive one they increase. -/
theorem orderS1_increasing (deltaRps : Int) (hc : ref.Counted) (ho : ref.Ordered) :
    ref.orderS1.Pairwise fun i j => ref.candidate deltaRps i < ref.candidate deltaRps j := by
  have hcount := hc.count
  have hneg : ∀ i < ref.i1NumNegPics, ref.candidate deltaRps i < deltaRps := by
    intro i hi
    rw [← candidate_lt (by omega)]
    have := ho.neg i hi
    omega
  have hpos : ∀ i < ref.i1NumPosPics, deltaRps < ref.candidate deltaRps (ref.i1NumNegPics + i) := by
    intro i hi
    rw [← candidate_lt (by omega)]
    have := ho.pos (ref.i1NumNegPics + i) (Nat.le_add_right _ _) (by omega)
    omega
  unfold StrefPicset.orderS1
  rw [List.pairwise_append, List.pairwise_append, List.pairwise_reverse, List.pairwise_map]
  refine ⟨⟨?_, List.pairwise_singleton _ _, ?_⟩, ?_, ?_⟩
  · refine List.pairwise_lt_range.imp_of_mem fun {i j} _ hj hlt => ?_
    have hj := List.mem_range.mp hj
    rw [← candidate_lt (by omega), ← candidate_lt (by omega)]
    have := ho.decreasing i j hlt hj
    omega
  · intro i hi j hj
    obtain rfl := List.mem_singleton.mp hj
    rw [candidate_last]
    exact hneg i (List.mem_range.mp (List.mem_reverse.mp hi))
  · refine List.pairwise_lt_range.imp_of_mem fun {i j} _ hj hlt => ?_
    have hj := List.mem_range.mp hj
    rw [← candidate_lt (by omega), ← candidate_lt (by omega)]
    have := ho.increasing (ref.i1NumNegPics + i) (ref.i1NumNegPics + j) (by omega) (by omega)
      (by omega)
    omega
  · intro i hi j hj
    obtain ⟨k, hk, rfl⟩ := List.mem_map.mp hj
    have hk := hpos k (List.mem_range.mp hk)
    rcases List.mem_append.mp hi with hi | hi
    · exact (hneg i (List.mem_range.mp (List.mem_reverse.mp hi))).trans hk
    · obtain rfl := List.mem_singleton.mp hi
      rw [candidate_last]
      exact hk

theorem entry_eq_some : ref.entry deltaRps flags keep j = some x ↔
    (keep (ref.candidate deltaRps j) = true ∧ (flags.getD j (0, 0)).2 ≠ 0) ∧
      x = (ref.candidate deltaRps j, (flags.getD j (0, 0)).1) := by
  unfold StrefPicset.entry rpsEntry
  dsimp only
  split
  case isTrue hkeep => rw [Option.some.injEq, and_iff_right hkeep, eq_comm]
  case isFalse hdrop => simp only [reduceCtorEq, hdrop, false_and]

theorem entry_filter (j : Nat) : ref.entry deltaRps flags keep j =
    (ref.entry deltaRps flags (fun _ => true) j).filter fun x => keep x.1 := by
  unfold StrefPicset.entry rpsEntry
  generalize ref.candidate deltaRps j = dPoc
  generalize flags.getD j (0, 0) = flag
  by_cases hflag : flag.2 ≠ 0
  · simp only [hflag, ne_eq, not_false_eq_true, and_true, if_true, Option.filter]
  · simp only [hflag, and_false, if_false, Option.filter]

/-- The entries that a list keeps are some of all the entries. -/
theorem filterMap_entry (l : List Nat) : l.filterMap (ref.entry deltaRps flags keep) =
    (l.filterMap (ref.entry deltaRps flags fun _ => true)).filter fun x => keep x.1 := by
  rw [List.filter_filterMap]
  exact List.filterMap_congr fun j _ => entry_filter j

/-- The lists of the specification are sorted selections of the entries. -/
theorem interS1_perm (hc : ref.Counted) (deltaRps : Int) (flags : List (Nat × Nat)) :
    (interS1 ref deltaRps flags).Perm ((ref.entries deltaRps flags).filter (0 < ·.1)) := by
  rw [interS1_eq hc, filterMap_entry]
  exact ((orderS1_perm hc).filterMap _).filter _

theorem interS0_perm (hc : ref.Counted) (deltaRps : Int) (flags : List (Nat × Nat)) :
    (interS0 ref deltaRps flags).Perm ((ref.entries deltaRps flags).filter (·.1 < 0)) := by
  rw [interS0_eq hc, orderS0_eq, filterMap_entry]
  exact (((List.reverse_perm _).trans (orderS1_perm hc)).filterMap _).filter _

theorem interS1_increasing (hc : ref.Counted) (ho : ref.Ordered) :
    ((interS1 ref deltaRps flags).map Prod.fst).Pairwise (· < ·) := by
  rw [interS1_eq hc, List.pairwise_map]
  refine (orderS1_increasing deltaRps hc ho).filterMap _ fun i j hlt x hx y hy => ?_
  rw [(entry_eq_some.mp hx).2, (entry_eq_some.mp hy).2]
  exact hlt

theorem interS0_decreasing (hc : ref.Counted) (ho : ref.Ordered) :
    ((interS0 ref deltaRps flags).map Prod.fst).reverse.Pairwise (· < ·) := by
  rw [interS0_eq hc, orderS0_eq, List.filterMap_reverse, List.map_reverse, List.reverse_reverse,
    List.pairwise_map]
  refine (orderS1_increasing deltaRps hc ho).filterMap _ fun i j hlt x hx y hy => ?_
  rw [(entry_eq_some.mp hx).2, (entry_eq_some.mp hy).2]
  exact hlt

end

-- ---------------------------------------------------------------------------
-- The loop over the candidates
-- ---------------------------------------------------------------------------

/-- What is read for a candidate is what the syntax has, and it is taken when `use_delta_flag` is
set. -/
theorem refIdcGet_flags (hs : s.InWord) (n : Nat) :
    ∃ useDelta, refFlags (n + 1) s = ((refIdcGet s).1, useDelta) :: refFlags n (refIdcGet s).2.2 ∧
      ((refIdcGet s).2.1 = 1 ∨ (refIdcGet s).2.1 = 2 ↔ useDelta ≠ 0) ∧
      (refIdcGet s).2.2.InWord := by
  have hget : (ihevcdBitsGet s 1).2.InWord := hs.bitsGet (by decide)
  have hused := hs.bit_le
  have hdelta := hget.bit_le
  unfold refIdcGet
  dsimp only
  by_cases hzero : (ihevcdBitsGet s 1).1 = 0
  · rw [if_pos hzero]
    refine ⟨(ihevcdBitsGet (ihevcdBitsGet s 1).2 1).1, if_pos hzero, ?_, hget.bitsGet (by decide)⟩
    generalize (ihevcdBitsGet (ihevcdBitsGet s 1).2 1).1 = useDelta at *
    dsimp only
    rw [Nat.shiftLeft_eq]
    omega
  · rw [if_neg hzero]
    refine ⟨1, if_neg hzero, ?_, hget⟩
    dsimp only
    omega

section
variable {ref : StrefPicset} {flags : List (Nat × Nat)}

/-- The entries of the `n` last candidates. -/
def StrefPicset.lastEntries (ref : StrefPicset) (deltaRps : Int) (flags : List (Nat × Nat))
    (n : Nat) : List (Int × Nat) :=
  (List.range' (ref.i1NumDeltaPocs + 1 - n) n).filterMap (ref.entry deltaRps flags fun _ => true)

/-- The flags are those that are read from `s` on for the `n` last candidates. -/
def StrefPicset.ReadsFlags (ref : StrefPicset) (flags : List (Nat × Nat)) (n : Nat)
    (s : Bitstrm) : Prop :=
  ∀ k, flags.getD (ref.i1NumDeltaPocs + 1 - n + k) (0, 0) = (refFlags n s).getD k (0, 0)

/-- The first of the last candidates: it is taken exactly when it has an entry. -/
theorem StrefPicset.ReadsFlags.first (h : ref.ReadsFlags flags (n + 1) s) (hs : s.InWord)
    (hn : n ≤ ref.i1NumDeltaPocs) (deltaRps : Int) :
    ref.lastEntries deltaRps flags (n + 1) =
        (if (refIdcGet s).2.1 = 1 ∨ (refIdcGet s).2.1 = 2 then
          [(ref.candidate deltaRps (ref.i1NumDeltaPocs + 1 - (n + 1)), (refIdcGet s).1)]
        else []) ++ ref.lastEntries deltaRps flags n ∧
      ref.ReadsFlags flags n (refIdcGet s).2.2 ∧ (refIdcGet s).2.2.InWord := by
  obtain ⟨useDelta, hflags, htaken, hs'⟩ := refIdcGet_flags hs n
  have hnext : ref.i1NumDeltaPocs + 1 - (n + 1) + 1 = ref.i1NumDeltaPocs + 1 - n := by omega
  refine ⟨?_, fun k => ?_, hs'⟩
  · have hfirst := h 0
    rw [Nat.add_zero, hflags, List.getD_cons_zero] at hfirst
    unfold StrefPicset.lastEntries
    rw [List.range'_succ, List.filterMap_cons, hnext, StrefPicset.entry, rpsEntry, hfirst]
    dsimp only
    by_cases hdelta : useDelta ≠ 0
    · rw [if_pos ⟨rfl, hdelta⟩, if_pos (htaken.mpr hdelta)]
      rfl
    · rw [if_neg fun hc => hdelta hc.2, if_neg fun hc => hdelta (htaken.mp hc)]
      rfl
  · have hrest := h (k + 1)
    rwa [hflags, List.getD_cons_succ, ← Nat.add_assoc, Nat.add_right_comm, hnext] at hrest

theorem selected_eq (h : ref.ReadsFlags flags n s) (hs : s.InWord)
    (hn : n ≤ ref.i1NumDeltaPocs + 1) (deltaRps : Int) :
    selected ref deltaRps n s = (ref.lastEntries deltaRps flags n).map Prod.fst := by
  induction n generalizing s with
  | zero => rfl
  | succ n ih =>
    obtain ⟨hfirst, hrest, hs'⟩ := h.first hs (by omega) deltaRps
    rw [hfirst, List.map_append, ← ih hrest hs' (by omega), selected]
    split <;> rfl

/-- The loop stores the flags of the candidates that it takes beside their delta POCs. -/
theorem interLoop_used {l : InterLoop} (h : ref.ReadsFlags flags n s) (hs : s.InWord)
    (hn : n ≤ ref.i1NumDeltaPocs + 1) (hpics : l.numPics = used.length)
    (hused : Holds l.ps.ai1Used 0 used) (deltaRps : Int) :
    Holds (interLoop ref deltaRps n l s).1.ps.ai1Used 0
      (used ++ (ref.lastEntries deltaRps flags n).map Prod.snd) := by
  induction n generalizing l s used with
  | zero =>
    simpa [StrefPicset.lastEntries, interLoop] using hused
  | succ n ih =>
    obtain ⟨hfirst, hrest, hs'⟩ := h.first hs (by omega) deltaRps
    have hput (x : Nat) : Holds (set l.ps.ai1Used l.numPics x) 0 (used ++ [x]) := by
      rw [Holds.snoc, Nat.zero_add, ← hpics]
      refine ⟨hused.congr fun i hi => set_ne ?_, set_same⟩
      rw [← hpics] at hi
      omega
    rw [hfirst, interLoop]
    dsimp only
    by_cases htaken : (refIdcGet s).2.1 = 1 ∨ (refIdcGet s).2.1 = 2
    · rw [if_pos htaken, if_pos htaken, List.map_append, ← List.append_assoc]
      refine ih hrest hs' (by omega) ?_ (hput _)
      rw [List.length_append, hpics]
      rfl
    · rw [if_neg htaken, if_neg htaken, List.nil_append]
      exact ih hrest hs' (by omega) hpics (Holds.append.mp (hput _)).1

end

-- ---------------------------------------------------------------------------
-- The flags under the sort
-- ---------------------------------------------------------------------------

namespace StrefPicset

/-- In the first `n` cells the flag is a function of the delta POC. -/
def UsedBy (ps : StrefPicset) (u : Int → Nat) (n : Nat) : Prop :=
  ∀ i < n, ps.ai1Used i = u (ps.ai2DeltaPoc i)

section
variable {ps : StrefPicset} {u : Int → Nat} (h : ps.UsedBy u n)
include h

theorem UsedBy.put (hused : used = u deltaPoc) :
    ((ps.putDeltaPoc i deltaPoc).putUsed i used).UsedBy u n := by
  intro j hj
  simp only [putUsed, putDeltaPoc]
  by_cases hij : j = i
  · rw [hij, set_same, set_same, hused]
  · rw [set_ne hij, set_ne hij, h j hj]

theorem UsedBy.sink (hk : k ≤ n) (hused : used = u deltaPoc) :
    (ps.sink deltaPoc used k).UsedBy u n := by
  induction k generalizing ps with
  | zero => exact h
  | succ k ih =>
    rw [StrefPicset.sink]
    refine ih ?_ (Nat.le_of_succ_le hk)
    split
    · exact (h.put (h k hk)).put hused
    · exact h

theorem UsedBy.sort (hm : m ≤ n) : (ps.sort m).UsedBy u n := by
  induction m with
  | zero => exact h
  | succ m ih =>
    have hsort := ih (Nat.le_of_succ_le hm)
    exact hsort.sink (Nat.le_of_succ_le hm) (hsort m hm)

theorem UsedBy.flip (hm : m ≤ n) (hj : j ≤ m / 2) : (ps.flip m j).UsedBy u n := by
  induction j with
  | zero => exact h
  | succ j ih =>
    have hflip := ih (Nat.le_of_succ_le hj)
    exact (hflip.put (hflip _ (by omega))).put (hflip _ (by omega))

end

end StrefPicset

theorem InterLoop.finish_usedBy {l : InterLoop} (h : l.ps.UsedBy u (l.numNegPics + l.numPosPics))
    (ref : StrefPicset) : (l.finish ref).UsedBy u (l.numNegPics + l.numPosPics) := by
  unfold InterLoop.finish
  dsimp only
  refine (StrefPicset.UsedBy.sort ?_ (by omega)).flip (by omega) ?_
  · exact h
  · rw [Nat.shiftRight_eq_div_pow]

/-- Distinct delta POCs determine the flags. -/
theorem exists_used {l : List (Int × Nat)} (h : (l.map Prod.fst).Nodup) :
    ∃ u : Int → Nat, ∀ x ∈ l, x.2 = u x.1 := by
  induction l with
  | nil => exact ⟨fun _ => 0, fun x hx => absurd hx (List.not_mem_nil)⟩
  | cons x l ih =>
    rw [List.map_cons, List.nodup_cons] at h
    obtain ⟨u, hu⟩ := ih h.2
    refine ⟨Function.update u x.1 x.2, fun y hy => ?_⟩
    rcases List.mem_cons.mp hy with rfl | hy
    · rw [Function.update_self]
    · rw [Function.update_of_ne, hu y hy]
      rintro heq
      exact h.1 (heq ▸ List.mem_map_of_mem hy)

/-- The delta POCs `l` with their flags. -/
def withUsed (u : Int → Nat) (l : List Int) : List (Int × Nat) := l.map fun x => (x, u x)

theorem withUsed_fst {l : List (Int × Nat)} (h : ∀ x ∈ l, x.2 = u x.1) :
    withUsed u (l.map Prod.fst) = l := by
  unfold withUsed
  rw [List.map_map]
  refine (List.map_congr_left fun x hx => ?_).trans (List.map_id l)
  rw [Function.comp, ← h x hx, id]

theorem withUsed_inj : withUsed u l = withUsed u l' ↔ l = l' := by
  refine ⟨fun h => ?_, fun h => h ▸ rfl⟩
  have hfst := congrArg (List.map Prod.fst) h
  simpa [withUsed, List.map_map, Function.comp_def] using hfst

/-- The pictures that are read back, where the flags are a function of the delta POCs. -/
theorem pics_withUsed {ps : StrefPicset} (hcells : Holds ps.ai2DeltaPoc 0 (l ++ r))
    (hused : ps.UsedBy u (l.length + r.length)) (hneg : ps.i1NumNegPics = l.length)
    (hpos : ps.i1NumPosPics = r.length) :
    ps.negPics = withUsed u l ∧ ps.posPics = withUsed u r := by
  obtain ⟨hl, hr⟩ := Holds.append.mp hcells
  unfold StrefPicset.negPics StrefPicset.posPics withUsed
  rw [hneg, hpos]
  constructor
  · refine List.ext_getElem (by simp) fun i hi _ => ?_
    rw [List.length_map, List.length_range] at hi
    have hcell := hl i hi
    rw [Nat.zero_add] at hcell
    simp only [List.getElem_map, List.getElem_range]
    rw [hused i (by omega), hcell]
  · refine List.ext_getElem (by simp) fun i hi _ => ?_
    rw [List.length_map, List.length_range] at hi
    have hcell := hr i hi
    rw [Nat.zero_add] at hcell
    simp only [List.getElem_map, List.getElem_range]
    rw [hused (l.length + i) (by omega), hcell]

-- ---------------------------------------------------------------------------
-- The set and the specification
-- ---------------------------------------------------------------------------

theorem zero_mem_entries {ref : StrefPicset} (hd : deltaRps ≠ 0) :
    0 ∈ (ref.entries deltaRps flags).map Prod.fst ↔
      ¬∀ j < ref.i1NumDeltaPocs, (flags.getD j (0, 0)).2 ≠ 0 →
        ref.ai2DeltaPoc j + deltaRps ≠ 0 := by
  simp only [StrefPicset.entries, List.mem_map, List.mem_filterMap, entry_eq_some, List.mem_range]
  constructor
  · rintro ⟨_, ⟨j, hj, ⟨-, hflag⟩, rfl⟩, hzero⟩ hall
    rcases Nat.lt_succ_iff_lt_or_eq.mp hj with hlt | rfl
    · exact hall j hlt hflag (candidate_lt hlt ▸ hzero)
    · exact hd (candidate_last.symm.trans hzero)
  · intro hall
    simp only [not_forall, not_not] at hall
    obtain ⟨j, hj, hflag, hzero⟩ := hall
    exact ⟨_, ⟨j, Nat.lt_succ_of_lt hj, ⟨trivial, hflag⟩, rfl⟩, (candidate_lt hj).symm.trans hzero⟩

/-- Distinct delta POCs, sorted and cut behind the negative ones, are the two lists in which those
that are not zero are sorted away from zero exactly when none is zero. -/
theorem sorted_lists_iff {pocs sorted neg pos : List Int} {room : Nat}
    (hperm : sorted.Perm (pocs.take room)) (hsorted : sorted.Pairwise (· ≤ ·))
    (hneg : neg.Perm (pocs.filter (· < 0))) (hpos : pos.Perm (pocs.filter (0 < ·)))
    (hnegs : neg.reverse.Pairwise (· < ·)) (hposs : pos.Pairwise (· < ·))
    (hlen : neg.length + pos.length ≤ room) (hzero : 0 ∈ pocs → 0 ∈ pocs.take room) :
    ((sorted.take (min (pocs.countP (· < 0)) room)).reverse = neg ∧
      sorted.drop (min (pocs.countP (· < 0)) room) = pos) ↔ 0 ∉ pocs := by
  have hneg' : ∀ x ∈ neg, x < 0 := by
    intro x hx
    simpa using (List.mem_filter.mp (hneg.mem_iff.mp hx)).2
  have hpos' : ∀ x ∈ pos, 0 < x := by
    intro x hx
    simpa using (List.mem_filter.mp (hpos.mem_iff.mp hx)).2
  constructor
  · rintro ⟨hl, hr⟩ hmem
    have hmem := hperm.mem_iff.mpr (hzero hmem)
    rw [← List.take_append_drop (min (pocs.countP (· < 0)) room) sorted, List.mem_append, hr,
      ← List.mem_reverse, hl] at hmem
    rcases hmem with hmem | hmem
    · exact lt_irrefl _ (hneg' 0 hmem)
    · exact lt_irrefl _ (hpos' 0 hmem)
  · intro hmem
    have hrest : pocs.filter (fun x => !decide (x < 0)) = pocs.filter (0 < ·) := by
      refine List.filter_congr fun x hx => ?_
      have hne : x ≠ 0 := fun heq => hmem (heq ▸ hx)
      rw [← decide_not, decide_eq_decide]
      omega
    have hall : pocs.Perm (neg.reverse ++ pos) := by
      refine (List.filter_append_perm (· < 0) pocs).symm.trans ?_
      rw [hrest]
      exact ((List.reverse_perm neg).trans hneg).symm.append hpos.symm
    have hlength := hall.length_eq
    rw [List.length_append, List.length_reverse] at hlength
    have hcount : pocs.countP (· < 0) = neg.length := by
      rw [List.countP_eq_length_filter, hneg.length_eq]
    rw [List.take_of_length_le (hlength.trans_le hlen)] at hperm
    have hstrict : (neg.reverse ++ pos).Pairwise (· ≤ ·) := by
      rw [List.pairwise_append]
      refine ⟨hnegs.imp le_of_lt, hposs.imp le_of_lt, fun x hx y hy => ?_⟩
      exact ((hneg' x (List.mem_reverse.mp hx)).trans (hpos' y hy)).le
    have heq := (hperm.trans hall).eq_of_pairwise' hsorted hstrict
    rw [hcount, Nat.min_eq_left (by omega), heq, List.take_left' List.length_reverse,
      List.drop_left' List.length_reverse, List.reverse_reverse]
    exact ⟨rfl, rfl⟩

section
variable {ref ps : StrefPicset} {flags : List (Nat × Nat)}

/-- All candidates that have entries are taken. -/
theorem selected_all (hs : s.InWord) (deltaRps : Int) :
    selected ref deltaRps (ref.i1NumDeltaPocs + 1) s =
      (ref.entries deltaRps (refFlags (ref.i1NumDeltaPocs + 1) s)).map Prod.fst := by
  have hreads : ref.ReadsFlags (refFlags (ref.i1NumDeltaPocs + 1) s) (ref.i1NumDeltaPocs + 1) s :=
    fun k => by rw [Nat.sub_self, Nat.zero_add]
  rw [selected_eq hreads hs (Nat.le_refl _), StrefPicset.lastEntries, Nat.sub_self,
    ← List.range_eq_range']
  rfl

/-- Zero is not the candidate for which there is no room, which is `delta_rps`. -/
theorem zero_mem_take (hc : ref.Counted) (hd : deltaRps ≠ 0)
    (h : 0 ∈ selected ref deltaRps (ref.i1NumDeltaPocs + 1) s) :
    0 ∈ (selected ref deltaRps (ref.i1NumDeltaPocs + 1) s).take (maxDpbSize - 1) := by
  have hle := hc.le
  have hlength := selected_length ref deltaRps (ref.i1NumDeltaPocs + 1) s
  by_cases hroom : (selected ref deltaRps (ref.i1NumDeltaPocs + 1) s).length ≤ maxDpbSize - 1
  · rwa [List.take_of_length_le hroom]
  · have hall : (selected ref deltaRps (ref.i1NumDeltaPocs + 1) s).length =
        ref.i1NumDeltaPocs + 1 := by omega
    obtain ⟨pocs, hpocs⟩ := selected_last hall
    rw [hpocs, List.length_append, List.length_singleton] at hall
    rw [hpocs] at h hroom ⊢
    rw [List.length_append, List.length_singleton] at hroom
    rw [List.take_left' (by omega)]
    rcases List.mem_append.mp h with h | h
    · exact h
    · exact absurd (List.mem_singleton.mp h).symm hd

/-- What the loop leaves beside its delta POCs. -/
theorem interLoop_usedBy {l : InterLoop} (hs : s.InWord) (hpics : l.numPics = 0)
    (hu : ∀ x ∈ ref.entries deltaRps (refFlags (ref.i1NumDeltaPocs + 1) s), x.2 = u x.1)
    (hstored : Holds (interLoop ref deltaRps (ref.i1NumDeltaPocs + 1) l s).1.ps.ai2DeltaPoc 0
      ((ref.entries deltaRps (refFlags (ref.i1NumDeltaPocs + 1) s)).map Prod.fst)) :
    (interLoop ref deltaRps (ref.i1NumDeltaPocs + 1) l s).1.ps.UsedBy u
      (ref.entries deltaRps (refFlags (ref.i1NumDeltaPocs + 1) s)).length := by
  have hreads : ref.ReadsFlags (refFlags (ref.i1NumDeltaPocs + 1) s) (ref.i1NumDeltaPocs + 1) s :=
    fun k => by rw [Nat.sub_self, Nat.zero_add]
  have hused := interLoop_used hreads hs (Nat.le_refl _) (hpics.trans List.length_nil.symm)
    Holds.nil deltaRps
  rw [List.nil_append, StrefPicset.lastEntries, Nat.sub_self, ← List.range_eq_range'] at hused
  change Holds _ 0 ((ref.entries deltaRps _).map Prod.snd) at hused
  intro i hi
  have hpoc := hstored i (by rwa [List.length_map])
  have hflag := hused i (by rwa [List.length_map])
  rw [Nat.zero_add, List.getElem_map] at hpoc hflag
  rw [hpoc, hflag]
  exact hu _ (List.getElem_mem hi)

/-- The pictures of a predicted set: the candidates that are taken, sorted, with the negative ones
reversed, each with its flag. -/
theorem interSet_pics (hc : ref.Counted) (hw : ps.Within) (hs : s.InWord)
    (hflags : flags = refFlags (ref.i1NumDeltaPocs + 1) s)
    (hnodup : ((ref.entries deltaRps flags).map Prod.fst).Nodup)
    (hwide : ∀ x ∈ (ref.entries deltaRps flags).map Prod.fst, i16 x = x) :
    ∃ (u : Int → Nat) (sorted : List Int),
      (∀ x ∈ ref.entries deltaRps flags, x.2 = u x.1) ∧
      sorted.Perm (((ref.entries deltaRps flags).map Prod.fst).take (maxDpbSize - 1)) ∧
      sorted.Pairwise (· ≤ ·) ∧
      (interSet ref deltaRps ps s).1.negPics = withUsed u (sorted.take
        (min (((ref.entries deltaRps flags).map Prod.fst).countP (· < 0))
          (maxDpbSize - 1))).reverse ∧
      (interSet ref deltaRps ps s).1.posPics = withUsed u (sorted.drop
        (min (((ref.entries deltaRps flags).map Prod.fst).countP (· < 0))
          (maxDpbSize - 1))) := by
  have hlength := selected_length ref deltaRps (ref.i1NumDeltaPocs + 1) s
  have hroom := hc.le
  unfold maxDpbSize at hroom
  have htook : (InterLoop.mk ps 0 0 0).Took [] := ⟨rfl, rfl, rfl, Holds.nil, hw⟩
  have hloop := htook.loop deltaRps s hc.le (Nat.le_refl _) (by
    unfold maxDpbSize
    simp only [List.length_nil]
    omega)
  have hset : (interSet ref deltaRps ps s).1 =
      (interLoop ref deltaRps (ref.i1NumDeltaPocs + 1) ⟨ps, 0, 0, 0⟩ s).1.finish ref := rfl
  obtain ⟨u, hu⟩ := exists_used hnodup
  rw [List.nil_append, selected_all hs, ← hflags] at hloop
  rw [selected_all hs, ← hflags] at hlength
  have hpocs := (List.map_congr_left hwide).trans (List.map_id _)
  have hstored := hloop.stored
  rw [hpocs, hflags] at hstored
  have husedBy := interLoop_usedBy hs rfl (hflags ▸ hu) hstored
  rw [← hflags] at husedBy
  rw [hset]
  generalize (interLoop ref deltaRps (ref.i1NumDeltaPocs + 1) (InterLoop.mk ps 0 0 0) s).1 = l at *
  have hcount := hloop.pos
  rw [List.length_map] at hcount
  rw [← hcount] at husedBy
  have hfinish := l.finish_usedBy husedBy ref
  obtain ⟨sorted, hperm, hsorted, hneg, hsum, -, hcells, -⟩ := hloop.finish_cells (by
    unfold maxDpbSize
    omega) ref
  rw [List.map_take, hpocs] at hperm
  have hsortedLength := hperm.length_eq
  rw [List.length_take, List.length_map] at hsortedLength
  have htake : ((sorted.take (l.finish ref).i1NumNegPics).reverse).length =
      (l.finish ref).i1NumNegPics := by
    rw [List.length_reverse, List.length_take]
    omega
  have hdrop : (sorted.drop (l.finish ref).i1NumNegPics).length = (l.finish ref).i1NumPosPics := by
    rw [List.length_drop]
    omega
  obtain ⟨hnegs, hposs⟩ := pics_withUsed hcells (fun i hi => hfinish i (by omega)) htake.symm
    hdrop.symm
  rw [hneg] at hnegs hposs
  exact ⟨u, sorted, hu, hperm, hsorted, hnegs, hposs⟩

/-- The set that is predicted is that of the specification exactly when no delta POC that is used
becomes zero. -/
theorem interSet_iff (hc : ref.Counted) (ho : ref.Ordered) (hw : ps.Within) (hs : s.InWord)
    (hd : deltaRps ≠ 0) (hflags : flags = refFlags (ref.i1NumDeltaPocs + 1) s)
    (hfit : ∀ x ∈ interS0 ref deltaRps flags ++ interS1 ref deltaRps flags,
      -32768 ≤ x.1 ∧ x.1 ≤ 32767)
    (hlen : (interS0 ref deltaRps flags ++ interS1 ref deltaRps flags).length ≤ maxDpbSize - 1) :
    ((interSet ref deltaRps ps s).1.negPics = interS0 ref deltaRps flags ∧
        (interSet ref deltaRps ps s).1.posPics = interS1 ref deltaRps flags) ↔
      ∀ j < ref.i1NumDeltaPocs, (flags.getD j (0, 0)).2 ≠ 0 →
        ref.ai2DeltaPoc j + deltaRps ≠ 0 := by
  have hS0 := interS0_perm hc deltaRps flags
  have hS1 := interS1_perm hc deltaRps flags
  have hnegs := hS0.map Prod.fst
  have hposs := hS1.map Prod.fst
  have hfilter (p : Int → Bool) :
      ((ref.entries deltaRps flags).filter fun x => p x.1).map Prod.fst =
        ((ref.entries deltaRps flags).map Prod.fst).filter p := by
    rw [List.filter_map]
    rfl
  rw [hfilter (· < 0)] at hnegs
  rw [hfilter (0 < ·)] at hposs
  have hselected : selected ref deltaRps (ref.i1NumDeltaPocs + 1) s =
      (ref.entries deltaRps flags).map Prod.fst := by
    rw [hflags]
    exact selected_all hs deltaRps
  -- every delta POC that is taken fits
  have hwide : ∀ x ∈ (ref.entries deltaRps flags).map Prod.fst, i16 x = x := by
    intro x hx
    have hbound : -32768 ≤ x ∧ x ≤ 32767 := by
      rcases lt_trichotomy x 0 with hlt | rfl | hgt
      · have hx := hnegs.mem_iff.mpr (List.mem_filter.mpr ⟨hx, decide_eq_true hlt⟩)
        obtain ⟨y, hy, rfl⟩ := List.mem_map.mp hx
        exact hfit y (List.mem_append_left _ hy)
      · decide
      · have hx := hposs.mem_iff.mpr (List.mem_filter.mpr ⟨hx, decide_eq_true hgt⟩)
        obtain ⟨y, hy, rfl⟩ := List.mem_map.mp hx
        exact hfit y (List.mem_append_right _ hy)
    exact i16_of_range hbound.1 hbound.2
  have hnodup : ((selected ref deltaRps (ref.i1NumDeltaPocs + 1) s).map i16).Nodup :=
    selected_distinct ho hc (Nat.le_refl _)
  rw [hselected, (List.map_congr_left hwide).trans (List.map_id _)] at hnodup
  obtain ⟨u, sorted, hu, hperm, hsorted, hneg, hpos⟩ := interSet_pics hc hw hs hflags hnodup hwide
  have hu0 : withUsed u ((interS0 ref deltaRps flags).map Prod.fst) = interS0 ref deltaRps flags :=
    withUsed_fst fun x hx => hu x (List.mem_filter.mp (hS0.mem_iff.mp hx)).1
  have hu1 : withUsed u ((interS1 ref deltaRps flags).map Prod.fst) = interS1 ref deltaRps flags :=
    withUsed_fst fun x hx => hu x (List.mem_filter.mp (hS1.mem_iff.mp hx)).1
  rw [hneg, hpos, ← hu0, ← hu1, withUsed_inj, withUsed_inj]
  rw [List.length_append] at hlen
  have hzero := zero_mem_take (s := s) hc hd
  rw [hselected] at hzero
  exact (sorted_lists_iff hperm hsorted hnegs hposs (interS0_decreasing hc ho)
    (interS1_increasing hc ho) (by simpa using hlen) hzero).trans
    ((not_congr (zero_mem_entries hd)).trans not_not)

end

theorem readIf_cases {read : Bitstrm → Except IhevcdErrorT (α × Bitstrm)}
    (h : readIf flag dflt read s = .ok (value, s')) : read s = .ok (value, s') ∨ s = s' := by
  unfold readIf at h
  split at h
  · exact .inl h
  · exact .inr (Prod.mk.inj (Except.ok.inj h)).2

theorem interHeader_inWord (h : interHeader num idx s = .ok (rIdx, deltaRps, s')) (hs : s.InWord) :
    s'.InWord := by
  unfold interHeader at h
  obtain ⟨⟨deltaIdxMinus1, s₁⟩, hdelta, h⟩ := bind_ok h
  obtain ⟨⟨absMinus1, s₂⟩, habs, h⟩ := bind_ok h
  obtain ⟨-, he⟩ := Prod.mk.inj (Except.ok.inj h)
  obtain ⟨-, rfl⟩ := Prod.mk.inj he
  have hs₁ : s₁.InWord := by
    rcases readIf_cases hdelta with hread | rfl
    · rw [← (Prod.mk.inj (uevAtMost_eq hread)).2]
      exact hs.uev
    · exact hs
  rw [← (Prod.mk.inj (uevAtMost_eq habs)).2]
  exact (hs₁.bitsGet (by decide)).uev

/-- Every call that predicts a set from one that is well formed: if the delta POCs that the
specification keeps fit in 16 bits and in the set, both lists of the set are those of equations
7-61 and 7-62 exactly when no delta POC that is used becomes zero. -/
theorem interPicSet_iff (hok : ihevcdShortTermRefPicSet s base num idx ps = .ok (filled, s'))
    (hs : s.InWord) (hflag : (interFlag idx s).1 ≠ 0) :
    ∃ rIdx deltaRps s₁, interHeader num idx (interFlag idx s).2 = .ok (rIdx, deltaRps, s₁) ∧
      rIdx < idx ∧
      ((base rIdx).Counted → (base rIdx).Ordered →
        let flags := refFlags ((base rIdx).i1NumDeltaPocs + 1) s₁
        let S0 := interS0 (base rIdx) deltaRps flags
        let S1 := interS1 (base rIdx) deltaRps flags
        (∀ x ∈ S0 ++ S1, -32768 ≤ x.1 ∧ x.1 ≤ 32767) → (S0 ++ S1).length ≤ maxDpbSize - 1 →
          ((filled.negPics = S0 ∧ filled.posPics = S1) ↔
            ∀ j < (base rIdx).i1NumDeltaPocs, (flags.getD j (0, 0)).2 ≠ 0 →
              (base rIdx).ai2DeltaPoc j + deltaRps ≠ 0)) := by
  unfold ihevcdShortTermRefPicSet at hok
  dsimp only at hok
  rw [if_pos hflag] at hok
  obtain ⟨⟨rIdx, deltaRps, s₁⟩, hheader, hok⟩ := bind_ok hok
  have hidx : 0 < idx := by
    refine Nat.pos_of_ne_zero fun hzero => hflag ?_
    unfold interFlag
    rw [if_neg (by omega)]
  have hs' : (interFlag idx s).2.InWord := by
    unfold interFlag
    rw [if_pos hidx]
    exact hs.bitsGet (by decide)
  obtain ⟨hr, hd, -⟩ := interHeader_ok hheader hidx hs'
  refine ⟨rIdx, deltaRps, s₁, hheader, hr, fun hc ho hfit hlen => ?_⟩
  obtain rfl := (Prod.mk.inj (Except.ok.inj hok)).1
  exact interSet_iff hc ho (fun i hi => absurd hi List.not_mem_nil) (interHeader_inWord hheader hs')
    hd rfl hfit hlen

/-- The set with the delta POC -1. -/
def minusOneSet : StrefPicset :=
  { emptySet with
    ai2DeltaPoc := fun _ => -1
    ai1Used := fun _ => 1
    i1NumDeltaPocs := 1
    i1NumNegPics := 1 }

theorem minusOneSet_ok : minusOneSet.Counted ∧ minusOneSet.Ordered := by
  have hone {i : Nat} (h : i < minusOneSet.i1NumDeltaPocs) : i < 1 := h
  have hge {i : Nat} (h : minusOneSet.i1NumNegPics ≤ i) : 1 ≤ i := h
  refine ⟨⟨rfl, by decide, fun i _ => ?_⟩, fun i _ => ?_, fun i j hij hj => ?_,
    fun i hi hlt => ?_, fun i j hi hij hj => ?_⟩
  · exact (by decide : (-32768 : Int) ≤ -1 ∧ (-1 : Int) ≤ 32767)
  · exact (by decide : (-1 : Int) < 0)
  · have := hone hj
    omega
  · have := hge hi
    have := hone hlt
    omega
  · have := hge hi
    have := hone hj
    omega

/-- A prediction from it with a difference of -1 that uses both candidates. -/
def minusOneReader : Bitstrm := ihevcdBitsInit (fun i => [0xF8].getD i 0) 1

theorem interPicSet_iff_minusOne :
    ∃ filled s', ihevcdShortTermRefPicSet minusOneReader (fun _ => minusOneSet) 2 1 emptySet =
        .ok (filled, s') ∧
      filled.negPics = [(-1, 1), (-2, 1)] ∧ filled.posPics = [] := by
  refine ⟨_, _, rfl, ?_⟩
  obtain ⟨rIdx, deltaRps, s₁, hheader, -, hiff⟩ := interPicSet_iff
    (show ihevcdShortTermRefPicSet minusOneReader (fun _ => minusOneSet) 2 1 emptySet =
      .ok (_, _) from rfl) (show 0 < 32 by decide) (by decide)
  obtain ⟨rfl, he⟩ := Prod.mk.inj (Except.ok.inj hheader)
  obtain ⟨rfl, rfl⟩ := Prod.mk.inj he
  exact (hiff minusOneSet_ok.1 minusOneSet_ok.2 (by decide) (by decide)).mpr (by decide)

/-- A prediction with a difference of 1 that uses the candidate -1 only. -/
def plusOneReader : Bitstrm := ihevcdBitsInit (fun i => [0xB0].getD i 0) 1

/-- The delta POC that becomes zero is in the list of the positive ones. -/
theorem interPicSet_keeps_zero :
    minusOneSet.Counted ∧ minusOneSet.Ordered ∧
      ∃ filled s' s₁, interHeader 2 1 (interFlag 1 plusOneReader).2 = .ok (0, 1, s₁) ∧
        ihevcdShortTermRefPicSet plusOneReader (fun _ => minusOneSet) 2 1 emptySet =
          .ok (filled, s') ∧
        filled.posPics = [(0, 1)] ∧ interS0 minusOneSet 1 (refFlags 2 s₁) = [] ∧
        interS1 minusOneSet 1 (refFlags 2 s₁) = [] :=
  ⟨minusOneSet_ok.1, minusOneSet_ok.2, _, _, _, rfl, rfl, by decide, by decide, by decide⟩

end Libhevc.Decoder
