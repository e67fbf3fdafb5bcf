import Libhevc.Decoder.RefPicSetLaws

/-!
# Chains of reference picture sets

The sets of an SPS are read one after the other, each predicted from any before
it; the set of a slice header comes last.
-/

namespace Libhevc.Decoder

open Memory

-- ---------------------------------------------------------------------------
-- The reader
-- ---------------------------------------------------------------------------

/-- The offset into the current word is below its size. -/
def Bitstrm.InWord (s : Bitstrm) : Prop := s.u4BitOfst < 32

theorem Bitstrm.InWord.refill {s : Bitstrm} (h : s.u4BitOfst < 64) : s.refill.InWord := by
  unfold Bitstrm.refill Bitstrm.InWord
  split
  · dsimp only
    omega
  case isFalse hlt => exact Nat.lt_of_not_le hlt

theorem Bitstrm.InWord.bitsFlush {s : Bitstrm} (h : s.InWord) (hcnt : cnt ≤ 32) :
    (bitsFlush s cnt).InWord := by
  unfold Bitstrm.InWord at h
  refine .refill ?_
  dsimp only
  rw [u32_of_lt (by omega)]
  omega

theorem Bitstrm.InWord.bitsGet {s : Bitstrm} (h : s.InWord) (hcnt : cnt ≤ 32) :
    (ihevcdBitsGet s cnt).2.InWord := by
  unfold Bitstrm.InWord at h
  refine .refill ?_
  dsimp only
  rw [u32_of_lt (by omega)]
  omega

theorem clz_le (word : Nat) : clz word ≤ 31 := by
  unfold clz
  split
  · exact Nat.le_refl _
  · exact Nat.sub_le ..

theorem Bitstrm.InWord.uev {s : Bitstrm} (h : s.InWord) : (ihevcdUev s).2.InWord := by
  have hclz := clz_le (bitsNxt32 s)
  have hflush := h.bitsFlush (Nat.succ_le_succ hclz)
  unfold ihevcdUev golombGet
  dsimp only
  split
  · exact hflush
  · exact hflush.bitsGet (by omega)

/-- One bit. -/
theorem Bitstrm.InWord.bit_le {s : Bitstrm} (h : s.InWord) : (ihevcdBitsGet s 1).1 ≤ 1 := by
  unfold Bitstrm.InWord at h
  unfold ihevcdBitsGet
  dsimp only
  rw [u32_of_lt (x := s.u4BitOfst + 1) (by omega), if_neg (by omega), Nat.shiftRight_eq_div_pow]
  have := u32_lt (s.u4CurWord <<< s.u4BitOfst)
  omega

-- ---------------------------------------------------------------------------
-- One call
-- ---------------------------------------------------------------------------

theorem interHeader_ok (h : interHeader num idx s = .ok (rIdx, deltaRps, s')) (hidx : 0 < idx)
    (hs : s.InWord) : rIdx < idx ∧ deltaRps ≠ 0 ∧ -32768 ≤ deltaRps ∧ deltaRps ≤ 32768 := by
  unfold interHeader at h
  obtain ⟨⟨deltaIdxMinus1, s₁⟩, hdelta, h⟩ := bind_ok h
  obtain ⟨⟨absMinus1, s₂⟩, habs, h⟩ := bind_ok h
  obtain ⟨hr, he⟩ := Prod.mk.inj (Except.ok.inj h)
  have hdelta' : deltaRps = (1 - 2 * ((ihevcdBitsGet s₁ 1).1 : Int)) * (absMinus1 + 1) :=
    (Prod.mk.inj he).1.symm
  have hs₁ : s₁.InWord := by
    unfold readIf at hdelta
    split at hdelta
    · rw [← Prod.mk.inj (uevAtMost_eq hdelta) |>.2]
      exact hs.uev
    · obtain ⟨_, rfl⟩ := Prod.mk.inj (Except.ok.inj hdelta)
      exact hs
  have hbit := hs₁.bit_le
  have habs := uevAtMost_ok habs
  constructor
  · rw [← hr]
    unfold clip3
    split_ifs <;> omega
  · rcases Nat.le_one_iff_eq_zero_or_eq_one.mp hbit with hsign | hsign
    · rw [hdelta', hsign]
      omega
    · rw [hdelta', hsign]
      omega

/-- A call for the set `idx`, and the set it filled. -/
structure PicSetCall where
  s : Bitstrm
  base : Nat → StrefPicset
  idx : Nat
  filled : StrefPicset

/-- The delta POCs that a call computes fit: the sums of an explicit set stay within 16 bits; those
of a predicted set are `Predictable`. -/
def PicSetCall.Clear (num : Nat) (call : PicSetCall) : Prop :=
  let get := interFlag call.idx call.s
  if get.1 = 0 then ExplicitClear get.2
  else
    ∀ rIdx deltaRps s, interHeader num call.idx get.2 = .ok (rIdx, deltaRps, s) →
      Predictable deltaRps
        (selected (call.base rIdx) deltaRps ((call.base rIdx).i1NumDeltaPocs + 1) s)

theorem shortTermRefPicSet_ok {filled : StrefPicset}
    (h : ihevcdShortTermRefPicSet s base num idx ps = .ok (filled, s')) (hs : s.InWord)
    (hbase : ∀ i < idx, (base i).Counted) :
    filled.Counted ∧ filled.Within ∧ ((∀ i < idx, (base i).Ordered) →
      (filled.Ordered ↔ PicSetCall.Clear num ⟨s, base, idx, filled⟩)) := by
  unfold ihevcdShortTermRefPicSet at h
  dsimp only at h
  unfold PicSetCall.Clear
  dsimp only
  have hwithin : ({ ps with
      i1InterRefPicSetPredictionFlag := (interFlag idx s).1, stores := [] } : StrefPicset).Within :=
    fun i hi => nomatch hi
  by_cases hflag : (interFlag idx s).1 = 0
  · rw [if_neg (not_not.mpr hflag)] at h
    rw [if_pos hflag]
    obtain ⟨hcounted, hw, hiff⟩ := explicitSet_ok h hwithin
    exact ⟨hcounted, hw, fun _ => hiff⟩
  · rw [if_pos hflag] at h
    rw [if_neg hflag]
    obtain ⟨⟨rIdx, deltaRps, s₁⟩, hheader, h⟩ := bind_ok h
    have hidx : 0 < idx := by
      refine Nat.pos_of_ne_zero fun hzero => hflag ?_
      unfold interFlag
      rw [if_neg (by omega)]
    have hs₁ : (interFlag idx s).2.InWord := by
      unfold interFlag
      rw [if_pos hidx]
      exact hs.bitsGet (by decide)
    obtain ⟨hr, hd, hle⟩ := interHeader_ok hheader hidx hs₁
    obtain ⟨hcounted, hw, hiff⟩ := interSet_ok (s := s₁) (hbase rIdx hr) hwithin hd hle
    have heq : filled = (interSet (base rIdx) deltaRps _ s₁).1 :=
      (congrArg Prod.fst (Except.ok.inj h)).symm
    rw [heq]
    refine ⟨hcounted, hw, fun ho => (hiff (ho rIdx hr)).trans ?_⟩
    constructor
    · intro hp rIdx' deltaRps' s' hheader'
      obtain ⟨rfl, he⟩ := Prod.mk.inj (Except.ok.inj (hheader.symm.trans hheader'))
      obtain ⟨rfl, rfl⟩ := Prod.mk.inj he
      exact hp
    · intro hp
      exact hp rIdx deltaRps s₁ hheader

-- ---------------------------------------------------------------------------
-- Chains of calls
-- ---------------------------------------------------------------------------

/-- The calls for the sets from 0 on that have succeeded, and the sets they leave. The bits of a
call, and what its set held before, are arbitrary. -/
inductive PicSetChain (num : Nat) : List PicSetCall → (Nat → StrefPicset) → Prop
  | nil (base : Nat → StrefPicset) : PicSetChain num [] base
  | call {calls : List PicSetCall} {base : Nat → StrefPicset} {s s' : Bitstrm}
      {ps filled : StrefPicset} : PicSetChain num calls base → s.InWord →
      ihevcdShortTermRefPicSet s base num calls.length ps = .ok (filled, s') →
      PicSetChain num (calls ++ [⟨s, base, calls.length, filled⟩]) (set base calls.length filled)

/-- What holds of a chain: its sets are those that its calls filled, and these are as they were
proved for each call. -/
structure PicSetChain.Sound (num : Nat) (calls : List PicSetCall) (base : Nat → StrefPicset) :
    Prop where
  sets : ∀ i < calls.length, ∃ call ∈ calls, base i = call.filled
  counted : ∀ call ∈ calls, call.filled.Counted ∧ call.filled.Within
  ordered : (∀ call ∈ calls, call.filled.Ordered) ↔ ∀ call ∈ calls, call.Clear num

theorem PicSetChain.sound (h : PicSetChain num calls base) :
    PicSetChain.Sound num calls base := by
  induction h with
  | nil base =>
    exact
      { sets := fun i hi => nomatch hi
        counted := fun _ h => nomatch h
        ordered := iff_of_true (fun _ h => nomatch h) (fun _ h => nomatch h) }
  | @call calls base s s' ps filled _ hs hcall ih =>
    have hbase : ∀ i < calls.length, (base i).Counted := by
      intro i hi
      obtain ⟨call, hmem, heq⟩ := ih.sets i hi
      rw [heq]
      exact (ih.counted call hmem).1
    obtain ⟨hcounted, hwithin, hiff⟩ := shortTermRefPicSet_ok hcall hs hbase
    refine ⟨fun i hi => ?_, ?_, ?_⟩
    · rw [List.length_append, List.length_singleton] at hi
      rcases Nat.lt_succ_iff_lt_or_eq.mp hi with hi | rfl
      · obtain ⟨call, hmem, heq⟩ := ih.sets i hi
        refine ⟨call, List.mem_append_left _ hmem, ?_⟩
        rw [set_ne hi.ne]
        exact heq
      · exact ⟨_, List.mem_append_right _ (List.mem_singleton_self _), set_same⟩
    · rw [List.forall_mem_append, List.forall_mem_singleton]
      exact ⟨ih.counted, hcounted, hwithin⟩
    · rw [List.forall_mem_append, List.forall_mem_append, List.forall_mem_singleton,
        List.forall_mem_singleton, ← ih.ordered]
      refine and_congr_right fun hall => hiff fun i hi => ?_
      obtain ⟨call, hmem, heq⟩ := ih.sets i hi
      rw [heq]
      exact hall call hmem

/-- Every set that is read has its counts and its stores in bounds; all sets of a chain are ordered
exactly when all its calls are clear. -/
theorem ref_pic_sets_well_formed (h : PicSetChain num calls base) :
    (∀ call ∈ calls, call.filled.Counted ∧ call.filled.Within) ∧
      ((∀ call ∈ calls, call.filled.Ordered) ↔ ∀ call ∈ calls, call.Clear num) :=
  ⟨h.sound.counted, h.sound.ordered⟩

def emptySet : StrefPicset :=
  { i1InterRefPicSetPredictionFlag := 0
    ai2DeltaPoc := fun _ => 0
    ai1Used := fun _ => 0
    ai1RefIdc := fun _ => 0
    i1NumRefIdc := 0
    i1NumDeltaPocs := 0
    i1NumPosPics := 0
    i1NumNegPics := 0
    stores := [] }

/-- A set with the delta POC -1, and one predicted from it with a difference of 1. -/
def zeroDelta : List Nat := [0x5E, 0xC0]

def zeroDeltaReader : Bitstrm := ihevcdBitsInit (fun i => zeroDelta.getD i 0) zeroDelta.length

/-- The two sets, and the reader between them. -/
def zeroDeltaSets : Except IhevcdErrorT (StrefPicset × Bitstrm × StrefPicset) := do
  let (first, s) ← ihevcdShortTermRefPicSet zeroDeltaReader (fun _ => emptySet) 2 0 emptySet
  let (second, _) ← ihevcdShortTermRefPicSet s (set (fun _ => emptySet) 0 first) 2 1 emptySet
  .ok (first, s, second)

theorem zeroDelta_chain : ∃ calls base, PicSetChain 2 calls base ∧
    ∃ call ∈ calls, call.filled.i1NumNegPics = 0 ∧ call.filled.i1NumDeltaPocs = 1 ∧
      call.filled.ai2DeltaPoc 0 = 0 := by
  have hvalues : zeroDeltaSets.toOption.map (fun sets =>
      (decide (sets.2.1.u4BitOfst < 32), sets.2.2.i1NumNegPics, sets.2.2.i1NumDeltaPocs,
        sets.2.2.ai2DeltaPoc 0)) = some (true, 0, 1, 0) := by decide +kernel
  cases hsets : zeroDeltaSets with
  | error e =>
    rw [hsets] at hvalues
    contradiction
  | ok sets =>
    obtain ⟨first, s, second⟩ := sets
    rw [hsets] at hvalues
    obtain ⟨hword, hneg, hcount, hzero⟩ :
        s.u4BitOfst < 32 ∧ second.i1NumNegPics = 0 ∧ second.i1NumDeltaPocs = 1 ∧
          second.ai2DeltaPoc 0 = 0 := by
      simpa [Except.toOption] using hvalues
    unfold zeroDeltaSets at hsets
    obtain ⟨⟨first', s₁⟩, hfirst, hsets⟩ := bind_ok hsets
    obtain ⟨⟨second', s₂⟩, hsecond, hsets⟩ := bind_ok hsets
    obtain ⟨rfl, he⟩ := Prod.mk.inj (Except.ok.inj hsets)
    obtain ⟨rfl, rfl⟩ := Prod.mk.inj he
    have hstart : PicSetChain 2 [] fun _ => emptySet := .nil _
    have hchain := hstart.call (s := zeroDeltaReader) (show 0 < 32 by decide) hfirst
    exact ⟨_, _, hchain.call hword hsecond, _, List.mem_append_right _ (List.mem_singleton_self _),
      hneg, hcount, hzero⟩

theorem ref_pic_sets_well_formed_zeroDelta : ∃ calls base, PicSetChain 2 calls base ∧
    calls ≠ [] ∧ (∀ call ∈ calls, call.filled.Counted ∧ call.filled.Within) ∧
      ((∀ call ∈ calls, call.filled.Ordered) ↔ ∀ call ∈ calls, call.Clear 2) := by
  obtain ⟨calls, base, hchain, call, hcall, _⟩ := zeroDelta_chain
  exact ⟨calls, base, hchain, List.ne_nil_of_mem hcall, ref_pic_sets_well_formed hchain⟩

/-- A delta POC of zero counts as positive. -/
theorem zeroDelta_not_ordered : ∃ calls base, PicSetChain 2 calls base ∧
    ¬∀ call ∈ calls, call.filled.Ordered := by
  obtain ⟨calls, base, hchain, call, hcall, hneg, hcount, hzero⟩ := zeroDelta_chain
  refine ⟨calls, base, hchain, fun hall => ?_⟩
  have hpos := (hall call hcall).pos 0 (by omega) (by omega)
  rw [hzero] at hpos
  contradiction

end Libhevc.Decoder
