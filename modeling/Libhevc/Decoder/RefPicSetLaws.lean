import Libhevc.Lib.SortLoops
import Libhevc.Decoder.ParameterSetLaws
import Libhevc.Decoder.RefPicSet

/-!
# Short-term reference picture sets are well formed

The counts of a set that is read are always in order and its stores in bounds.
Its delta POCs are ordered exactly when the call is clear: no delta POC leaves
16 bits, none that is predicted is zero, and the candidate that does not fit is
not a negative one behind others that are positive.
-/

namespace Libhevc.Decoder

open Memory

/-- The values go away from zero in the direction of `sign`. -/
def Along (sign : Int) (l : List Int) : Prop :=
  (∀ x ∈ l, 0 < sign * x) ∧ l.Pairwise fun x y => sign * x < sign * y

namespace StrefPicset

/-- No store was out of bounds. -/
def Within (ps : StrefPicset) : Prop := ∀ i ∈ ps.stores, i < maxDpbSize

/-- The counts of a set that was read, and the range of its delta POCs. -/
structure Counted (ps : StrefPicset) : Prop where
  count : ps.i1NumNegPics + ps.i1NumPosPics = ps.i1NumDeltaPocs
  le : ps.i1NumDeltaPocs ≤ maxDpbSize - 1
  range : ∀ i < ps.i1NumDeltaPocs, -32768 ≤ ps.ai2DeltaPoc i ∧ ps.ai2DeltaPoc i ≤ 32767

/-- Negative delta POCs in decreasing order, then positive ones in increasing order. -/
structure Ordered (ps : StrefPicset) : Prop where
  neg : ∀ i < ps.i1NumNegPics, ps.ai2DeltaPoc i < 0
  decreasing : ∀ i j, i < j → j < ps.i1NumNegPics → ps.ai2DeltaPoc j < ps.ai2DeltaPoc i
  pos : ∀ i, ps.i1NumNegPics ≤ i → i < ps.i1NumDeltaPocs → 0 < ps.ai2DeltaPoc i
  increasing : ∀ i j, ps.i1NumNegPics ≤ i → i < j → j < ps.i1NumDeltaPocs →
    ps.ai2DeltaPoc i < ps.ai2DeltaPoc j

section
variable {ps ps' : StrefPicset} (h : ps.Within) (hi : i < maxDpbSize)
include h hi

theorem Within.put (hs : ps'.stores = i :: ps.stores) : ps'.Within := by
  intro j hj
  rw [hs] at hj
  rcases List.mem_cons.mp hj with rfl | hj
  · exact hi
  · exact h j hj

theorem Within.putDeltaPoc : (ps.putDeltaPoc i deltaPoc).Within := h.put hi rfl

theorem Within.putUsed : (ps.putUsed i used).Within := h.put hi rfl

theorem Within.putRefIdc : (ps.putRefIdc i refIdc).Within := h.put hi rfl

end

theorem ordered_iff {ps : StrefPicset} (h : Holds ps.ai2DeltaPoc 0 (l ++ r))
    (hl : l.length = ps.i1NumNegPics) (hr : l.length + r.length = ps.i1NumDeltaPocs) :
    ps.Ordered ↔ Along (-1) l ∧ Along 1 r := by
  obtain ⟨hneg, hpos⟩ := Holds.append.mp h
  have hcell : ∀ i (hi : i < l.length), ps.ai2DeltaPoc i = l[i] := by
    intro i hi
    simpa using hneg i hi
  have hcell' : ∀ i (hi : i < r.length), ps.ai2DeltaPoc (l.length + i) = r[i] := by
    intro i hi
    simpa using hpos i hi
  simp only [Along, Int.neg_one_mul, Int.one_mul, Int.neg_lt_neg_iff, Int.neg_pos,
    List.pairwise_iff_getElem, List.forall_mem_iff_getElem]
  constructor
  · intro ho
    refine ⟨⟨fun i hi => ?_, fun i j hi hj hij => ?_⟩, fun i hi => ?_, fun i j hi hj hij => ?_⟩
    · rw [← hcell i hi]
      exact ho.neg i (hl ▸ hi)
    · rw [← hcell i hi, ← hcell j hj]
      exact ho.decreasing i j hij (hl ▸ hj)
    · rw [← hcell' i hi]
      exact ho.pos _ (by omega) (by omega)
    · rw [← hcell' i hi, ← hcell' j hj]
      exact ho.increasing _ _ (by omega) (by omega) (by omega)
  · rintro ⟨⟨hn, hd⟩, hp, hinc⟩
    refine ⟨fun i hi => ?_, fun i j hij hj => ?_, fun i hi hi' => ?_, fun i j hi hij hj => ?_⟩
    · rw [hcell i (hl ▸ hi)]
      exact hn i _
    · rw [hcell i (by omega), hcell j (by omega)]
      exact hd i j _ _ hij
    · obtain ⟨k, rfl⟩ := Nat.exists_eq_add_of_le (hl ▸ hi : l.length ≤ i)
      rw [hcell' k (by omega)]
      exact hp k _
    · obtain ⟨k, rfl⟩ := Nat.exists_eq_add_of_le (hl ▸ hi : l.length ≤ i)
      obtain ⟨k', rfl⟩ := Nat.exists_eq_add_of_le (by omega : l.length ≤ j)
      rw [hcell' k (by omega), hcell' k' (by omega)]
      exact hinc k k' _ _ (by omega)

end StrefPicset

theorem i16_range (x : Int) : -32768 ≤ i16 x ∧ i16 x ≤ 32767 := by
  unfold i16 wrapInt
  omega

theorem i16_of_range (hlo : -32768 ≤ x) (hhi : x ≤ 32767) : i16 x = x := by
  unfold i16 wrapInt
  omega

-- ---------------------------------------------------------------------------
-- Explicit sets
-- ---------------------------------------------------------------------------

/-- The differences that the next `n` syntax elements give, and the reader behind them. -/
def explicitDeltas : Nat → Bitstrm → List Nat × Bitstrm
  | 0, s => ([], s)
  | n + 1, s =>
    let get := ihevcdUev s
    let rest := explicitDeltas n (ihevcdBitsGet get.2 1).2
    ((get.1 + 1) :: rest.1, rest.2)

/-- What is added up from `poc` on. -/
def pocsFrom (sign poc : Int) : List Nat → List Int
  | [] => []
  | delta :: deltas => (poc + sign * delta) :: pocsFrom sign (poc + sign * delta) deltas

@[simp] theorem pocsFrom_length : (pocsFrom sign poc deltas).length = deltas.length := by
  induction deltas generalizing poc with
  | nil => rfl
  | cons delta deltas ih => simp [pocsFrom, ih]

/-- The multiples of `sign` up to `bound` are those of 16 bits. -/
structure Reach (sign : Int) (bound : Nat) : Prop where
  inside : ∀ y : Nat, y ≤ bound → i16 (sign * y) = sign * y
  outside : ∀ y : Nat, bound < y → y ≤ bound + 32768 → ¬0 < sign * i16 (sign * y)
  square : sign * sign = 1

theorem reach_neg : Reach (-1) 32768 := by
  refine ⟨fun y hy => i16_of_range (by omega) (by omega), fun y hlo hhi => ?_, rfl⟩
  unfold i16 wrapInt
  omega

theorem reach_pos : Reach 1 32767 := by
  refine ⟨fun y hy => i16_of_range (by omega) (by omega), fun y hlo hhi => ?_, rfl⟩
  unfold i16 wrapInt
  omega

theorem Reach.along_iff (h : Reach sign bound) {deltas : List Nat}
    (hd : ∀ d ∈ deltas, 0 < d ∧ d ≤ 32768) {y : Nat} (hy : y ≤ bound) :
    Along sign ((pocsFrom sign (sign * y) deltas).map i16) ∧
        (∀ x ∈ (pocsFrom sign (sign * y) deltas).map i16, sign * (sign * y) < sign * x) ↔
      y + deltas.sum ≤ bound := by
  induction deltas generalizing y with
  | nil => simpa [Along, pocsFrom] using hy
  | cons d deltas ih =>
    obtain ⟨hpos, hle⟩ := hd d List.mem_cons_self
    have hnext : sign * y + sign * d = sign * (y + d : Nat) := by
      rw [Nat.cast_add, Int.mul_add]
    have hcancel : ∀ x : Int, sign * (sign * x) = x := by
      intro x
      rw [← Int.mul_assoc, h.square, Int.one_mul]
    rw [pocsFrom, hnext, List.map_cons, List.sum_cons, ← Nat.add_assoc]
    by_cases hin : y + d ≤ bound
    · rw [← ih (fun d hd' => hd d (List.mem_cons_of_mem _ hd')) hin, h.inside _ hin]
      simp only [Along, List.pairwise_cons, List.mem_cons, forall_eq_or_imp, hcancel]
      constructor
      · rintro ⟨⟨⟨_, hall⟩, hlt, hpair⟩, _⟩
        exact ⟨⟨hall, hpair⟩, hlt⟩
      · rintro ⟨⟨hall, hpair⟩, hlt⟩
        refine ⟨⟨⟨by omega, hall⟩, hlt, hpair⟩, by omega, fun x hx => ?_⟩
        have := hlt x hx
        omega
    · refine iff_of_false ?_ (by omega)
      rintro ⟨⟨hall, _⟩, _⟩
      exact h.outside _ (by omega) (by omega) (hall _ List.mem_cons_self)

theorem Reach.along_zero (h : Reach sign bound) {deltas : List Nat}
    (hd : ∀ d ∈ deltas, 0 < d ∧ d ≤ 32768) :
    Along sign ((pocsFrom sign 0 deltas).map i16) ↔ deltas.sum ≤ bound := by
  have hiff := h.along_iff hd (Nat.zero_le bound)
  rw [Nat.cast_zero, Int.mul_zero, Nat.zero_add, Int.mul_zero] at hiff
  rw [← hiff, iff_self_and]
  exact And.left

/-- The counts of two sets are the same. -/
structure StrefPicset.SameCounts (ps ps' : StrefPicset) : Prop where
  delta : ps'.i1NumDeltaPocs = ps.i1NumDeltaPocs
  pos : ps'.i1NumPosPics = ps.i1NumPosPics
  neg : ps'.i1NumNegPics = ps.i1NumNegPics

/-- What the loop over `n` differences leaves in `ps'`. -/
structure ExplicitRun (sign poc : Int) (i : Nat) (ps ps' : StrefPicset) (deltas : List Nat) :
    Prop where
  bounds : ∀ d ∈ deltas, 0 < d ∧ d ≤ 32768
  pocs : Holds ps'.ai2DeltaPoc i ((pocsFrom sign poc deltas).map i16)
  before : ∀ k < i, ps'.ai2DeltaPoc k = ps.ai2DeltaPoc k
  counts : ps.SameCounts ps'
  within : ps.Within → i + deltas.length ≤ maxDpbSize → ps'.Within

theorem explicitLoop_ok (h : explicitLoop sign n i poc ps s = .ok (ps', s')) :
    ∃ deltas, explicitDeltas n s = (deltas, s') ∧ deltas.length = n ∧
      ExplicitRun sign poc i ps ps' deltas := by
  induction n generalizing i poc ps s with
  | zero =>
    obtain ⟨rfl, rfl⟩ := Prod.mk.inj (Except.ok.inj h)
    refine ⟨[], rfl, rfl, ?_⟩
    exact
      { bounds := fun d hd => nomatch hd
        pocs := Holds.nil
        before := fun _ _ => rfl
        counts := ⟨rfl, rfl, rfl⟩
        within := fun hw _ => hw }
  | succ n ih =>
    unfold explicitLoop at h
    obtain ⟨⟨value, s₁⟩, hvalue, h⟩ := bind_ok h
    change explicitLoop sign n (i + 1) _ _ (ihevcdBitsGet s₁ 1).2 = _ at h
    obtain ⟨deltas, hdeltas, hlen, hrun⟩ := ih h
    have hle := uevAtMost_ok hvalue
    refine ⟨(value + 1) :: deltas, ?_, by rw [List.length_cons, hlen], ?_, ?_, ?_, ?_, ?_⟩
    · rw [explicitDeltas, uevAtMost_eq hvalue, hdeltas]
    · intro d hd
      rcases List.mem_cons.mp hd with rfl | hd
      · omega
      · exact hrun.bounds d hd
    · rw [pocsFrom, List.map_cons, Holds.cons]
      refine ⟨?_, hrun.pocs⟩
      rw [hrun.before i (Nat.lt_succ_self i)]
      exact set_same
    · intro k hk
      rw [hrun.before k (Nat.lt_succ_of_lt hk)]
      exact set_ne hk.ne
    · exact ⟨hrun.counts.delta, hrun.counts.pos, hrun.counts.neg⟩
    · intro hw hroom
      rw [List.length_cons] at hroom
      exact hrun.within ((hw.putDeltaPoc (by omega)).putUsed (by omega)) (by omega)

theorem explicitHeader_ok (h : explicitHeader s = .ok (numNegPics, numPosPics, s')) :
    numNegPics + numPosPics ≤ maxDpbSize - 1 := by
  unfold explicitHeader at h
  obtain ⟨⟨neg, s₁⟩, hneg, h⟩ := bind_ok h
  obtain ⟨⟨pos, s₂⟩, hpos, h⟩ := bind_ok h
  obtain ⟨rfl, he⟩ := Prod.mk.inj (Except.ok.inj h)
  obtain ⟨rfl, _⟩ := Prod.mk.inj he
  have := uevAtMost_ok hneg
  have := uevAtMost_ok hpos
  omega

/-- The differences of an explicit set stay within 16 bits. -/
def ExplicitClear (s : Bitstrm) : Prop :=
  ∀ numNegPics numPosPics s', explicitHeader s = .ok (numNegPics, numPosPics, s') →
    (explicitDeltas numNegPics s').1.sum ≤ 32768 ∧
      (explicitDeltas numPosPics (explicitDeltas numNegPics s').2).1.sum ≤ 32767

theorem explicitSet_ok (h : explicitSet ps s = .ok (ps', s')) (hw : ps.Within) :
    ps'.Counted ∧ ps'.Within ∧ (ps'.Ordered ↔ ExplicitClear s) := by
  unfold explicitSet at h
  obtain ⟨⟨numNeg, numPos, s₁⟩, hheader, h⟩ := bind_ok h
  obtain ⟨⟨ps₂, s₂⟩, hneg, h⟩ := bind_ok h
  have hle := explicitHeader_ok hheader
  obtain ⟨deltas, hdeltas, hlen, hrun⟩ := explicitLoop_ok hneg
  obtain ⟨deltas', hdeltas', hlen', hrun'⟩ := explicitLoop_ok h
  have hclear : ExplicitClear s ↔ deltas.sum ≤ 32768 ∧ deltas'.sum ≤ 32767 := by
    unfold ExplicitClear
    rw [hheader]
    constructor
    · intro hc
      have := hc _ _ _ rfl
      rwa [hdeltas, hdeltas'] at this
    · intro hsum numNeg' numPos' s'' heq
      obtain ⟨rfl, he⟩ := Prod.mk.inj (Except.ok.inj heq)
      obtain ⟨rfl, rfl⟩ := Prod.mk.inj he
      rwa [hdeltas, hdeltas']
  have hnegs : ps'.i1NumNegPics = numNeg := hrun'.counts.neg.trans hrun.counts.neg
  have hposs : ps'.i1NumPosPics = numPos := hrun'.counts.pos.trans hrun.counts.pos
  have hdelta : ps'.i1NumDeltaPocs = numNeg + numPos := hrun'.counts.delta.trans hrun.counts.delta
  have hpocs : Holds ps'.ai2DeltaPoc 0
      ((pocsFrom (-1) 0 deltas).map i16 ++ (pocsFrom 1 0 deltas').map i16) := by
    rw [Holds.append, List.length_map, pocsFrom_length, hlen, Nat.zero_add]
    refine ⟨hrun.pocs.congr fun i hi => ?_, hrun'.pocs⟩
    rw [Nat.zero_add]
    refine hrun'.before i ?_
    simpa [hlen] using hi
  unfold maxDpbSize at hle
  refine ⟨⟨by omega, by unfold maxDpbSize; omega, fun i hi => ?_⟩, ?_, ?_⟩
  · rw [← List.map_append] at hpocs
    refine hpocs.all (P := fun x => -32768 ≤ x ∧ x ≤ 32767) (fun x hx => ?_) ?_
    · obtain ⟨y, _, rfl⟩ := List.mem_map.mp hx
      exact i16_range y
    · simp
      omega
  · refine hrun'.within (hrun.within hw ?_) ?_
    · unfold maxDpbSize
      omega
    · unfold maxDpbSize
      omega
  · rw [StrefPicset.ordered_iff hpocs (by simp; omega) (by simp; omega), hclear,
      reach_neg.along_zero hrun.bounds, reach_pos.along_zero hrun'.bounds]

-- ---------------------------------------------------------------------------
-- Predicted sets
-- ---------------------------------------------------------------------------

/-- The delta POCs that the bits select among the `n` last candidates. -/
def selected (ref : StrefPicset) (deltaRps : Int) : Nat → Bitstrm → List Int
  | 0, _ => []
  | n + 1, s =>
    let get := refIdcGet s
    let rest := selected ref deltaRps n get.2.2
    if get.2.1 = 1 ∨ get.2.1 = 2 then
      ref.candidate deltaRps (ref.i1NumDeltaPocs + 1 - (n + 1)) :: rest
    else rest

/-- The loop has taken the delta POCs `pocs`. -/
structure InterLoop.Took (l : InterLoop) (pocs : List Int) : Prop where
  neg : l.numNegPics = pocs.countP (· < 0)
  pos : l.numNegPics + l.numPosPics = pocs.length
  pics : l.numPics = pocs.length
  stored : Holds l.ps.ai2DeltaPoc 0 (pocs.map i16)
  within : l.ps.Within

theorem InterLoop.Took.loop {l : InterLoop} (h : l.Took pocs) (deltaRps : Int) (s : Bitstrm)
    (href : ref.i1NumDeltaPocs ≤ maxDpbSize - 1) (hn : n ≤ ref.i1NumDeltaPocs + 1)
    (hroom : pocs.length + n ≤ maxDpbSize) :
    (interLoop ref deltaRps n l s).1.Took (pocs ++ selected ref deltaRps n s) := by
  induction n generalizing l pocs s with
  | zero =>
    rw [selected, List.append_nil]
    exact h
  | succ n ih =>
    unfold maxDpbSize at href
    have hpics := h.pics
    unfold maxDpbSize at hroom
    have hi : ref.i1NumDeltaPocs + 1 - (n + 1) < maxDpbSize := by
      unfold maxDpbSize
      omega
    have hk : l.numPics < maxDpbSize := by
      unfold maxDpbSize
      omega
    rw [interLoop, selected]
    dsimp only
    by_cases hidc : (refIdcGet s).2.1 = 1 ∨ (refIdcGet s).2.1 = 2
    · simp only [if_pos hidc]
      rw [List.append_cons]
      refine ih ⟨?_, ?_, ?_, ?_, ?_⟩ _ (by omega) ?_
      · rw [List.countP_append, List.countP_singleton, ← h.neg]
        simp
      · rw [List.length_append, List.length_singleton, ← h.pos]
        split <;> dsimp only <;> omega
      · rw [List.length_append, List.length_singleton, ← h.pics]
      · rw [List.map_append, List.map_singleton, Holds.snoc, List.length_map, ← h.pics]
        refine ⟨h.stored.congr fun i hi => set_ne ?_, ?_⟩
        · rw [List.length_map] at hi
          omega
        · rw [Nat.zero_add]
          exact set_same
      · exact ((h.within.putUsed hk).putDeltaPoc hk).putRefIdc hi
      · rw [List.length_append, List.length_singleton]
        unfold maxDpbSize
        omega
    · simp only [if_neg hidc]
      refine ih ⟨?_, ?_, ?_, ?_, ?_⟩ _ (by omega) ?_
      · exact h.neg
      · exact h.pos
      · exact h.pics
      · exact h.stored
      · exact (h.within.putUsed hk).putRefIdc hi
      · unfold maxDpbSize
        omega

namespace StrefPicset

theorem SameCounts.trans {ps ps' ps'' : StrefPicset} (h : ps.SameCounts ps')
    (h' : ps'.SameCounts ps'') : ps.SameCounts ps'' :=
  ⟨h'.delta.trans h.delta, h'.pos.trans h.pos, h'.neg.trans h.neg⟩

theorem sink_law (deltaPoc : Int) (used : Nat) (ps : StrefPicset) :
    (ps.sink deltaPoc used k).ai2DeltaPoc = Memory.sink deltaPoc k ps.ai2DeltaPoc ∧
      ps.SameCounts (ps.sink deltaPoc used k) ∧
      (ps.Within → k < maxDpbSize → (ps.sink deltaPoc used k).Within) := by
  induction k generalizing ps with
  | zero => exact ⟨rfl, ⟨rfl, rfl, rfl⟩, fun hw _ => hw⟩
  | succ k ih =>
    rw [StrefPicset.sink, Memory.sink]
    split
    case isTrue hlt =>
      obtain ⟨hpocs, hcounts, hwithin⟩ := ih ((((ps.putDeltaPoc (k + 1) (ps.ai2DeltaPoc k)).putUsed (k + 1)
        (ps.ai1Used k)).putDeltaPoc k deltaPoc).putUsed k used)
      refine ⟨hpocs, ⟨hcounts.delta, hcounts.pos, hcounts.neg⟩, fun hw hk => hwithin ?_ (by omega)⟩
      exact (((hw.putDeltaPoc hk).putUsed hk).putDeltaPoc (by omega)).putUsed (by omega)
    case isFalse hge =>
      obtain ⟨hpocs, hcounts, hwithin⟩ := ih ps
      exact ⟨hpocs, hcounts, fun hw hk => hwithin hw (by omega)⟩

theorem sort_law (ps : StrefPicset) :
    (ps.sort n).ai2DeltaPoc = insertionSort n ps.ai2DeltaPoc ∧ ps.SameCounts (ps.sort n) ∧
      (ps.Within → n ≤ maxDpbSize → (ps.sort n).Within) := by
  induction n with
  | zero => exact ⟨rfl, ⟨rfl, rfl, rfl⟩, fun hw _ => hw⟩
  | succ n ih =>
    obtain ⟨hpocs, hcounts, hwithin⟩ := ih
    obtain ⟨hpocs', hcounts', hwithin'⟩ :=
      sink_law (k := n) ((ps.sort n).ai2DeltaPoc n) ((ps.sort n).ai1Used n) (ps.sort n)
    refine ⟨?_, hcounts.trans hcounts', fun hw hn => hwithin' (hwithin hw (by omega)) hn⟩
    rw [insertionSort, ← hpocs]
    exact hpocs'

theorem flip_law (ps : StrefPicset) (hj : j ≤ n / 2) :
    (ps.flip n j).ai2DeltaPoc = reverseLoop n j ps.ai2DeltaPoc ∧ ps.SameCounts (ps.flip n j) ∧
      (ps.Within → n ≤ maxDpbSize → (ps.flip n j).Within) := by
  induction j with
  | zero => exact ⟨rfl, ⟨rfl, rfl, rfl⟩, fun hw _ => hw⟩
  | succ j ih =>
    obtain ⟨hpocs, hcounts, hwithin⟩ := ih (by omega)
    refine ⟨?_, ⟨hcounts.delta, hcounts.pos, hcounts.neg⟩, fun hw hn => ?_⟩
    · rw [reverseLoop, ← hpocs]
      rfl
    · have h := hwithin hw hn
      exact (((h.putDeltaPoc (by omega)).putUsed (by omega)).putDeltaPoc (by omega)).putUsed
        (by omega)

/-- The delta POCs of an ordered set, and zero, are distinct. -/
theorem Ordered.candidate_ne {ref : StrefPicset} (h : ref.Ordered) (hc : ref.Counted) (hij : i < j)
    (hj : j ≤ ref.i1NumDeltaPocs) :
    i16 (ref.candidate deltaRps i) ≠ i16 (ref.candidate deltaRps j) := by
  have hi : i < ref.i1NumDeltaPocs := by omega
  have hri := hc.range i hi
  have hnz : ∀ k < ref.i1NumDeltaPocs, ref.ai2DeltaPoc k ≠ 0 := by
    intro k hk
    rcases Nat.lt_or_ge k ref.i1NumNegPics with hneg | hpos
    · exact (h.neg k hneg).ne
    · exact (h.pos k hpos hk).ne'
  unfold candidate i16 wrapInt
  rw [if_pos hi]
  split
  case isTrue hj' =>
    have hrj := hc.range j hj'
    have hne : ref.ai2DeltaPoc i ≠ ref.ai2DeltaPoc j := by
      rcases Nat.lt_or_ge j ref.i1NumNegPics with hneg | hpos
      · exact (h.decreasing i j hij hneg).ne'
      · rcases Nat.lt_or_ge i ref.i1NumNegPics with hneg' | hpos'
        · exact ((h.neg i hneg').trans (h.pos j hpos hj')).ne
        · exact (h.increasing i j hpos' hij hj').ne
    omega
  case isFalse hlast =>
    have := hnz i hi
    omega

end StrefPicset

theorem selected_bound (hx : x ∈ selected ref deltaRps n s) :
    ∃ i, ref.i1NumDeltaPocs + 1 - n ≤ i ∧ i ≤ ref.i1NumDeltaPocs ∧
      x = ref.candidate deltaRps i := by
  induction n generalizing s with
  | zero => contradiction
  | succ n ih =>
    have hrest : ∀ {s}, x ∈ selected ref deltaRps n s →
        ∃ i, ref.i1NumDeltaPocs + 1 - (n + 1) ≤ i ∧ i ≤ ref.i1NumDeltaPocs ∧
          x = ref.candidate deltaRps i := by
      intro s hx
      obtain ⟨i, hi, hle, rfl⟩ := ih hx
      exact ⟨i, by omega, hle, rfl⟩
    rw [selected] at hx
    split at hx
    · rcases List.mem_cons.mp hx with rfl | hx
      · exact ⟨_, Nat.le_refl _, by omega, rfl⟩
      · exact hrest hx
    · exact hrest hx

theorem selected_length (ref : StrefPicset) (deltaRps : Int) (n : Nat) (s : Bitstrm) :
    (selected ref deltaRps n s).length ≤ n := by
  induction n generalizing s with
  | zero => exact Nat.le_refl 0
  | succ n ih =>
    rw [selected]
    split
    · exact Nat.succ_le_succ (ih _)
    · exact Nat.le_succ_of_le (ih _)

theorem selected_distinct (h : ref.Ordered) (hc : ref.Counted)
    (hn : n ≤ ref.i1NumDeltaPocs + 1) :
    ((selected ref deltaRps n s).map i16).Nodup := by
  induction n generalizing s with
  | zero => exact List.nodup_nil
  | succ n ih =>
    rw [selected]
    split
    · rw [List.map_cons, List.nodup_cons]
      refine ⟨fun hx => ?_, ih (by omega)⟩
      obtain ⟨y, hy, heq⟩ := List.mem_map.mp hx
      obtain ⟨j, hj, hle, rfl⟩ := selected_bound hy
      exact h.candidate_ne hc (by omega) hle heq.symm
    · exact ih (by omega)

/-- When every candidate is selected the last one is `delta_rps`. -/
theorem selected_last (h : (selected ref deltaRps (n + 1) s).length = n + 1) :
    ∃ pocs, selected ref deltaRps (n + 1) s = pocs ++ [deltaRps] := by
  induction n generalizing s with
  | zero =>
    rw [selected] at h ⊢
    split at h
    case isTrue hidc =>
      refine ⟨[], ?_⟩
      rw [if_pos hidc]
      simp [selected, StrefPicset.candidate]
    case isFalse => contradiction
  | succ n ih =>
    rw [selected] at h ⊢
    split at h
    case isTrue hidc =>
      obtain ⟨pocs, hpocs⟩ := ih (Nat.succ.inj h)
      rw [if_pos hidc, hpocs]
      exact ⟨_, (List.cons_append ..).symm⟩
    case isFalse =>
      have := selected_length ref deltaRps (n + 1) (refIdcGet s).2.2
      omega

theorem along_reverse {l : List Int} (h : l.Pairwise (· < ·)) :
    Along (-1) l.reverse ↔ ∀ x ∈ l, x < 0 := by
  simp only [Along, List.mem_reverse, List.pairwise_reverse, Int.neg_one_mul, Int.neg_lt_neg_iff,
    Int.neg_pos, and_iff_left h]

theorem along_one {l : List Int} (h : l.Pairwise (· < ·)) : Along 1 l ↔ ∀ x ∈ l, 0 < x := by
  simp only [Along, Int.one_mul, and_iff_left h]

/-- The cells of the finished set: the first candidates that were taken, sorted, with the negative
ones reversed. -/
theorem InterLoop.Took.finish_cells {l : InterLoop} (h : l.Took pocs)
    (hlen : pocs.length ≤ maxDpbSize) (ref : StrefPicset) :
    ∃ sorted : List Int, sorted.Perm ((pocs.take (maxDpbSize - 1)).map i16) ∧
      sorted.Pairwise (· ≤ ·) ∧
      (l.finish ref).i1NumNegPics = min (pocs.countP (· < 0)) (maxDpbSize - 1) ∧
      (l.finish ref).i1NumNegPics + (l.finish ref).i1NumPosPics = sorted.length ∧
      (l.finish ref).i1NumDeltaPocs = sorted.length ∧
      Holds (l.finish ref).ai2DeltaPoc 0
        ((sorted.take (l.finish ref).i1NumNegPics).reverse ++
          sorted.drop (l.finish ref).i1NumNegPics) ∧
      (l.finish ref).Within := by
  have hcount : l.numNegPics ≤ pocs.length := by
    rw [h.neg]
    exact List.countP_le_length
  have hpos := h.pos
  unfold InterLoop.finish
  dsimp only
  generalize hneg : min l.numNegPics (maxDpbSize - 1) = numNeg
  generalize hposs : min l.numPosPics (maxDpbSize - 1 - numNeg) = numPos
  have hn : numNeg + numPos = min pocs.length (maxDpbSize - 1) := by omega
  generalize hps : ({ l.ps with
    i1NumRefIdc := ref.i1NumDeltaPocs + 1
    i1NumDeltaPocs := numNeg + numPos
    i1NumPosPics := numPos
    i1NumNegPics := numNeg } : StrefPicset) = ps
  have hcounts : ps.i1NumDeltaPocs = numNeg + numPos ∧ ps.i1NumPosPics = numPos ∧
      ps.i1NumNegPics = numNeg := by
    rw [← hps]
    exact ⟨rfl, rfl, rfl⟩
  have hwithin : ps.Within := by
    rw [← hps]
    exact h.within
  have hstored : Holds ps.ai2DeltaPoc 0
      ((pocs.map i16).take (numNeg + numPos) ++ (pocs.map i16).drop (numNeg + numPos)) := by
    rw [List.take_append_drop, ← hps]
    exact h.stored
  obtain ⟨hsort, hsortCounts, hsortWithin⟩ := StrefPicset.sort_law (n := numNeg + numPos) ps
  obtain ⟨hflip, hflipCounts, hflipWithin⟩ :=
    StrefPicset.flip_law (n := numNeg) (j := numNeg >>> 1) (ps.sort (numNeg + numPos)) (by
      rw [Nat.shiftRight_eq_div_pow])
  have hall := hsortCounts.trans hflipCounts
  generalize (ps.sort (numNeg + numPos)).flip numNeg (numNeg >>> 1) = result at *
  obtain ⟨sorted, hperm, hsorted, hholds⟩ := insertionSort_holds hstored
  have htake : ((pocs.map i16).take (numNeg + numPos)).length = numNeg + numPos := by
    rw [List.length_take, List.length_map]
    omega
  have hlength : sorted.length = numNeg + numPos := hperm.length_eq.trans htake
  rw [htake, ← hsort, ← List.take_append_drop numNeg sorted, List.append_assoc] at hholds
  have hneglen : (sorted.take numNeg).length = numNeg := by
    rw [List.length_take]
    omega
  have hrev := reverseLoop_holds hholds
  rw [hneglen, ← Nat.pow_one 2, ← Nat.shiftRight_eq_div_pow, ← hflip, ← List.append_assoc,
    Holds.append] at hrev
  have htaken : (pocs.map i16).take (numNeg + numPos) =
      (pocs.take (maxDpbSize - 1)).map i16 := by
    rw [← List.map_take, List.take_eq_take_iff.mpr]
    omega
  rw [hall.neg, hall.pos, hall.delta, hcounts.1, hcounts.2.1, hcounts.2.2]
  refine ⟨sorted, htaken ▸ hperm, hsorted, ?_, hlength.symm, hlength.symm, hrev.1, ?_⟩
  · rw [← hneg, h.neg]
  · exact hflipWithin (hsortWithin hwithin (by omega)) (by omega)

theorem InterLoop.Took.finish_law {l : InterLoop} (h : l.Took pocs)
    (hlen : pocs.length ≤ maxDpbSize) (ref : StrefPicset) :
    (l.finish ref).Counted ∧ (l.finish ref).Within ∧
      ((pocs.map i16).Nodup → ((l.finish ref).Ordered ↔
        ((pocs.take (maxDpbSize - 1)).map i16).countP (· < 0) =
            min (pocs.countP (· < 0)) (maxDpbSize - 1) ∧
          0 ∉ (pocs.take (maxDpbSize - 1)).map i16)) := by
  obtain ⟨sorted, hperm, hsorted, hneg, hsum, hdelta, hcells, hwithin⟩ := h.finish_cells hlen ref
  have hlength := hperm.length_eq
  rw [List.length_map, List.length_take] at hlength
  have hneglen : (sorted.take (l.finish ref).i1NumNegPics).length =
      (l.finish ref).i1NumNegPics := by
    rw [List.length_take]
    omega
  refine ⟨⟨hsum.trans hdelta.symm, ?_, fun i hi => ?_⟩, hwithin, fun hnodup => ?_⟩
  · omega
  · refine hcells.all (P := fun x => -32768 ≤ x ∧ x ≤ 32767) (fun x hx => ?_) ?_
    · have hx' : x ∈ sorted := by
        rcases List.mem_append.mp hx with hx | hx
        · exact List.mem_of_mem_take (List.mem_reverse.mp hx)
        · exact List.mem_of_mem_drop hx
      obtain ⟨y, _, rfl⟩ := List.mem_map.mp (hperm.mem_iff.mp hx')
      exact i16_range y
    · rw [List.length_append, List.length_reverse, hneglen, List.length_drop]
      omega
  · have hstrict : sorted.Pairwise (· < ·) := by
      have hnodup' : sorted.Nodup := by
        rw [hperm.nodup_iff, List.map_take]
        exact hnodup.sublist (List.take_sublist ..)
      exact (hsorted.and hnodup').imp fun hxy => lt_of_le_of_ne hxy.1 hxy.2
    rw [StrefPicset.ordered_iff hcells, along_reverse (hstrict.sublist (List.take_sublist ..)),
      along_one (hstrict.sublist (List.drop_sublist ..)), sorted_split hsorted, hperm.countP_eq,
      hperm.mem_iff, hneg]
    · omega
    · rw [List.length_reverse, hneglen]
    · rw [List.length_reverse, hneglen, List.length_drop, hdelta]
      omega

/-- No predicted delta POC that is kept is zero or leaves 16 bits, and a negative one that does
not fit follows negative ones only. -/
def Predictable (deltaRps : Int) (pocs : List Int) : Prop :=
  (∀ x ∈ pocs.take (maxDpbSize - 1), x ≠ 0 ∧ -32768 ≤ x ∧ x ≤ 32767) ∧
    (pocs.length = maxDpbSize → deltaRps < 0 → ∀ x ∈ pocs, x < 0)

theorem countP_eq_iff {l : List α} {p q : α → Bool} (h : ∀ x ∈ l, q x = true → p x = true) :
    l.countP p = l.countP q ↔ ∀ x ∈ l, p x = true → q x = true := by
  induction l with
  | nil => simp
  | cons x l ih =>
    obtain ⟨hx, hl⟩ := List.forall_mem_cons.mp h
    have hle : l.countP q ≤ l.countP p := List.countP_mono_left hl
    rw [List.forall_mem_cons, ← ih hl, List.countP_cons, List.countP_cons]
    cases hq : q x with
    | true => simp [hx hq]
    | false =>
      cases p x with
      | true =>
        simp
        omega
      | false => simp

theorem countP_i16 {l : List Int} :
    (l.map i16).countP (· < 0) = l.countP (fun x => decide (i16 x < 0)) := by
  rw [List.countP_map]
  rfl

/-- As many delta POCs are negative in 16 bits as are negative, and none is zero. -/
theorem sameSigns_iff {pocs : List Int} (hd : deltaRps ≠ 0)
    (hrange : ∀ x ∈ pocs, deltaRps - 32768 ≤ x ∧ x ≤ deltaRps + 32767)
    (hle : -32768 ≤ deltaRps ∧ deltaRps ≤ 32768) :
    (pocs.map i16).countP (· < 0) = pocs.countP (· < 0) ∧ 0 ∉ pocs.map i16 ↔
      ∀ x ∈ pocs, x ≠ 0 ∧ -32768 ≤ x ∧ x ≤ 32767 := by
  have hzero : 0 ∉ pocs.map i16 ↔ ∀ x ∈ pocs, i16 x ≠ 0 := by
    simp
  have hsigns : (pocs.map i16).countP (· < 0) = pocs.countP (· < 0) ↔
      ∀ x ∈ pocs, i16 x < 0 ↔ x < 0 := by
    rw [countP_i16]
    rcases Int.lt_or_lt_of_ne hd with hneg | hpos
    · have himp : ∀ x ∈ pocs, i16 x < 0 → x < 0 := by
        intro x hx
        have := hrange x hx
        unfold i16 wrapInt
        omega
      rw [eq_comm, countP_eq_iff fun x hx => by simpa using himp x hx]
      simp only [decide_eq_true_eq]
      exact forall₂_congr fun x hx => ⟨fun h => ⟨himp x hx, h⟩, Iff.mpr⟩
    · have himp : ∀ x ∈ pocs, x < 0 → i16 x < 0 := by
        intro x hx
        have := hrange x hx
        unfold i16 wrapInt
        omega
      rw [countP_eq_iff fun x hx => by simpa using himp x hx]
      simp only [decide_eq_true_eq]
      exact forall₂_congr fun x hx => ⟨fun h => ⟨h, himp x hx⟩, Iff.mp⟩
  rw [hsigns, hzero, ← forall₂_and]
  refine forall₂_congr fun x hx => ?_
  have := hrange x hx
  unfold i16 wrapInt
  omega

theorem predictable_iff {pocs : List Int} (hd : deltaRps ≠ 0)
    (hle : -32768 ≤ deltaRps ∧ deltaRps ≤ 32768)
    (hrange : ∀ x ∈ pocs, deltaRps - 32768 ≤ x ∧ x ≤ deltaRps + 32767)
    (hlen : pocs.length ≤ maxDpbSize)
    (hlast : pocs.length = maxDpbSize → ∃ pocs', pocs = pocs' ++ [deltaRps]) :
    ((pocs.take (maxDpbSize - 1)).map i16).countP (· < 0) =
          min (pocs.countP (· < 0)) (maxDpbSize - 1) ∧
        0 ∉ (pocs.take (maxDpbSize - 1)).map i16 ↔ Predictable deltaRps pocs := by
  unfold Predictable
  have hrange' : ∀ x ∈ pocs.take (maxDpbSize - 1),
      deltaRps - 32768 ≤ x ∧ x ≤ deltaRps + 32767 :=
    fun x hx => hrange x (List.mem_of_mem_take hx)
  have hsame := sameSigns_iff hd hrange' hle
  rcases Nat.lt_or_eq_of_le hlen with hlt | hfull
  · have hall : pocs.take (maxDpbSize - 1) = pocs := List.take_of_length_le (by omega)
    have hcount : pocs.countP (· < 0) ≤ pocs.length := List.countP_le_length
    rw [hall] at hsame ⊢
    rw [Nat.min_eq_left (by omega), hsame, iff_self_and]
    intro _ heq
    omega
  · obtain ⟨kept, rfl⟩ := hlast hfull
    have hkept : kept.length = maxDpbSize - 1 := by
      rw [List.length_append, List.length_singleton] at hfull
      omega
    have htake : (kept ++ [deltaRps]).take (maxDpbSize - 1) = kept := by
      rw [← hkept]
      exact List.take_left' rfl
    have hcount : kept.countP (· < 0) ≤ kept.length := List.countP_le_length
    rw [htake] at hsame ⊢
    rw [List.countP_append, List.countP_singleton]
    rcases Int.lt_or_lt_of_ne hd with hneg | hpos
    · -- one negative delta POC more than are kept
      rw [if_pos (by simpa using hneg)]
      constructor
      · rintro ⟨hcounts, hzero⟩
        have hle' : (kept.map i16).countP (· < 0) ≤ kept.countP (· < 0) := by
          rw [countP_i16]
          refine List.countP_mono_left fun x hx => ?_
          have := hrange' x (by rw [htake]; exact hx)
          simp only [decide_eq_true_eq]
          unfold i16 wrapInt
          omega
        have hall : kept.countP (· < 0) = kept.length := by omega
        refine ⟨hsame.mp ⟨by omega, hzero⟩, fun _ _ x hx => ?_⟩
        rcases List.mem_append.mp hx with hx | hx
        · simpa using List.countP_eq_length.mp hall x hx
        · obtain rfl := List.mem_singleton.mp hx
          exact hneg
      · rintro ⟨hkeptRange, hall⟩
        obtain ⟨hcounts, hzero⟩ := hsame.mpr hkeptRange
        have hcountp : kept.countP (· < 0) = kept.length := by
          rw [List.countP_eq_length]
          intro x hx
          simpa using hall hfull hneg x (List.mem_append_left _ hx)
        exact ⟨by omega, hzero⟩
    · rw [if_neg (by simpa using hpos.le), Nat.add_zero, Nat.min_eq_left (by omega), hsame,
        iff_self_and]
      intro _ _ hneg
      omega

theorem interSet_ok {ref ps : StrefPicset} (href : ref.Counted) (hw : ps.Within)
    (hd : deltaRps ≠ 0) (hle : -32768 ≤ deltaRps ∧ deltaRps ≤ 32768) :
    (interSet ref deltaRps ps s).1.Counted ∧ (interSet ref deltaRps ps s).1.Within ∧
      (ref.Ordered → ((interSet ref deltaRps ps s).1.Ordered ↔
        Predictable deltaRps (selected ref deltaRps (ref.i1NumDeltaPocs + 1) s))) := by
  have hroom := href.le
  unfold maxDpbSize at hroom
  have hlength := selected_length ref deltaRps (ref.i1NumDeltaPocs + 1) s
  have hlen : (selected ref deltaRps (ref.i1NumDeltaPocs + 1) s).length ≤ maxDpbSize := by
    unfold maxDpbSize
    omega
  have htook : (InterLoop.mk ps 0 0 0).Took [] := ⟨rfl, rfl, rfl, Holds.nil, hw⟩
  have hloop := htook.loop deltaRps s href.le (Nat.le_refl _) (by
    unfold maxDpbSize
    simp only [List.length_nil]
    omega)
  rw [List.nil_append] at hloop
  obtain ⟨hcounted, hwithin, hiff⟩ := hloop.finish_law hlen ref
  refine ⟨hcounted, hwithin, fun ho => ?_⟩
  refine (hiff (selected_distinct ho href (Nat.le_refl _))).trans
    (predictable_iff hd hle (fun x hx => ?_) hlen fun hfull => ?_)
  · obtain ⟨i, _, hi, rfl⟩ := selected_bound hx
    unfold StrefPicset.candidate
    split
    case isTrue hlt =>
      have := href.range i hlt
      omega
    case isFalse => omega
  · refine selected_last ?_
    unfold maxDpbSize at hfull
    omega

end Libhevc.Decoder
