import Libhevc.Decoder.ParameterSets
import Mathlib.Data.Int.ModEq

/-!
# Long-term reference pictures

The long-term part of `ihevcd_parse_slice_header`, and the picture order counts
by which `ihevcd_ref_list` looks the pictures up. The cycles of the most
significant bits are summed up in fields of 8 bits.
-/

namespace Libhevc.Decoder

open Memory

/-- What the slice header reads of the SPS. -/
structure LtSps where
  i1LongTermRefPicsPresentFlag : Nat
  i1NumLongTermRefPicsSps : Nat
  au2LtRefPicPocLsbSps : Nat → Nat
  ai1UsedByCurrPicLtSpsFlag : Nat → Nat
  i1Log2MaxPicOrderCntLsb : Nat

/-- The long-term fields of `slice_header_t`. -/
structure LtHeader where
  i1NumLongTermSps : Nat
  i1NumLongTermPics : Nat
  ai4PocLsbLt : Nat → Nat
  ai1UsedByCurrPicLtFlag : Nat → Nat
  ai1DeltaPocMsbPresentFlag : Nat → Nat
  ai1DeltaPocMsbCycleLt : Nat → Int

/-- The syntax elements of an entry: those of the SPS or of the slice header, and
`delta_poc_msb_cycle_lt`, which is 0 where it is absent. -/
structure LtEntry where
  pocLsb : Nat
  usedByCurrPic : Nat
  deltaPocMsbPresentFlag : Nat
  deltaPocMsbCycleLt : Nat
  deriving DecidableEq, Repr

def ltIdxSps (sps : LtSps) (s : Bitstrm) : Except IhevcdErrorT (Nat × Bitstrm) :=
  if 1 < sps.i1NumLongTermRefPicsSps then
    let get := ihevcdBitsGet s (32 - clz (sps.i1NumLongTermRefPicsSps - 1))
    if sps.i1NumLongTermRefPicsSps ≤ get.1 then .error .invalidParameter else .ok get
  else .ok (0, s)

/-- What is read for entry `i`. -/
def readLtEntry (sps : LtSps) (i1NumLongTermSps i : Nat) (s : Bitstrm) :
    Except IhevcdErrorT (LtEntry × Bitstrm) := do
  let (pocLsb, usedByCurrPic, s) ←
    if i < i1NumLongTermSps then do
      let (value, s) ← ltIdxSps sps s
      .ok (sps.au2LtRefPicPocLsbSps value, sps.ai1UsedByCurrPicLtSpsFlag value, s)
    else
      let (pocLsb, s) := ihevcdBitsGet s sps.i1Log2MaxPicOrderCntLsb
      let (usedByCurrPic, s) := ihevcdBitsGet s 1
      .ok (pocLsb, usedByCurrPic, s)
  let (deltaPocMsbPresentFlag, s) := ihevcdBitsGet s 1
  let (deltaPocMsbCycleLt, s) := if deltaPocMsbPresentFlag ≠ 0 then ihevcdUev s else (0, s)
  .ok ({ pocLsb, usedByCurrPic, deltaPocMsbPresentFlag, deltaPocMsbCycleLt }, s)

/-- The fields of entry `i` are filled: the cycle is added to the one before, except at the start
of the entries of the SPS and of those of the header. -/
def LtHeader.store (h : LtHeader) (i : Nat) (e : LtEntry) : LtHeader :=
  let cycle := i8 e.deltaPocMsbCycleLt
  let cycle :=
    if i ≠ 0 ∧ i ≠ h.i1NumLongTermSps then i8 (cycle + h.ai1DeltaPocMsbCycleLt (i - 1)) else cycle
  { h with
    ai4PocLsbLt := set h.ai4PocLsbLt i e.pocLsb
    ai1UsedByCurrPicLtFlag := set h.ai1UsedByCurrPicLtFlag i e.usedByCurrPic
    ai1DeltaPocMsbPresentFlag := set h.ai1DeltaPocMsbPresentFlag i e.deltaPocMsbPresentFlag
    ai1DeltaPocMsbCycleLt := set h.ai1DeltaPocMsbCycleLt i cycle }

/-- The loop over the entries, `n` of them from entry `i` on. -/
def ltLoop (sps : LtSps) : Nat → Nat → LtHeader → Bitstrm →
    Except IhevcdErrorT (LtHeader × Bitstrm)
  | 0, _, h, s => .ok (h, s)
  | n + 1, i, h, s => do
    let (e, s) ← readLtEntry sps h.i1NumLongTermSps i s
    ltLoop sps n (i + 1) (h.store i e) s

/-- `num_long_term_sps` and `num_long_term_pics`, with their checks. -/
def ltCounts (sps : LtSps) (numNegPics numPosPics : Nat) (s : Bitstrm) :
    Except IhevcdErrorT (Nat × Nat × Bitstrm) :=
  if sps.i1LongTermRefPicsPresentFlag = 0 then .ok (0, 0, s)
  else do
    let (numLongTermSps, s) ←
      if 0 < sps.i1NumLongTermRefPicsSps then uevAtMost s sps.i1NumLongTermRefPicsSps
      else .ok (0, s)
    let (numLongTermPics, s) := ihevcdUev s
    if maxDpbSize - 1 < numLongTermPics + numLongTermSps + numNegPics + numPosPics then
      .error .invalidParameter
    else .ok (numLongTermSps, numLongTermPics, s)

/-- The long-term part of the slice header; `h` are the fields before it. -/
def ihevcdParseLongTerm (sps : LtSps) (numNegPics numPosPics : Nat) (h : LtHeader) (s : Bitstrm) :
    Except IhevcdErrorT (LtHeader × Bitstrm) := do
  let (i1NumLongTermSps, i1NumLongTermPics, s) ← ltCounts sps numNegPics numPosPics s
  ltLoop sps (i1NumLongTermSps + i1NumLongTermPics) 0 { h with i1NumLongTermSps, i1NumLongTermPics }
    s

/-- `i4_poc_lt` of `ihevcd_ref_list`, the count by which entry `i` is looked up. -/
def ihevcdRefListPocLt (h : LtHeader) (i1Log2MaxPicOrderCntLsb : Nat)
    (i4AbsPicOrderCnt i4PicOrderCntLsb : Int) (i : Nat) : Int :=
  let u4MaxPocLsb : Int := 2 ^ i1Log2MaxPicOrderCntLsb
  if h.ai1DeltaPocMsbPresentFlag i ≠ 0 then
    i32 (h.ai4PocLsbLt i + i32 (i32 (i4AbsPicOrderCnt -
      i32 (h.ai1DeltaPocMsbCycleLt i * u4MaxPocLsb)) - i4PicOrderCntLsb))
  else h.ai4PocLsbLt i

end Libhevc.Decoder

namespace Libhevc.Spec

open Decoder

/-- `DeltaPocMsbCycleLt`, from `delta_poc_msb_cycle_lt` and `num_long_term_sps`. -/
def deltaPocMsbCycleLt (cycle : Nat → Nat) (numLongTermSps : Nat) : Nat → Nat
  | 0 => cycle 0
  | i + 1 =>
    if i + 1 = numLongTermSps then cycle (i + 1)
    else cycle (i + 1) + deltaPocMsbCycleLt cycle numLongTermSps i

/-- `pocLt` of the derivation of the reference picture set. -/
def pocLt (maxPicOrderCntLsb picOrderCntVal : Int) (pocLsbLt deltaPocMsbPresentFlag : Nat)
    (deltaPocMsbCycleLt : Nat) : Int :=
  if deltaPocMsbPresentFlag ≠ 0 then
    pocLsbLt + picOrderCntVal - deltaPocMsbCycleLt * maxPicOrderCntLsb -
      picOrderCntVal % maxPicOrderCntLsb
  else pocLsbLt

/-- The syntax elements of `n` entries from entry `i` on. -/
def ltEntries (sps : LtSps) (numLongTermSps : Nat) : Nat → Nat → Bitstrm →
    Except IhevcdErrorT (List LtEntry × Bitstrm)
  | 0, _, s => .ok ([], s)
  | n + 1, i, s => do
    let (e, s) ← readLtEntry sps numLongTermSps i s
    let (es, s) ← ltEntries sps numLongTermSps n (i + 1) s
    .ok (e :: es, s)

end Libhevc.Spec

/-!
## The counts of long-term reference pictures

The running sums of the cycles are those of the specification, as signed
numbers of 8 bits.
-/

namespace Libhevc.Decoder

open Memory Spec

theorem i8_add_i8 (x y : Int) : i8 (i8 x + i8 y) = i8 (x + y) := by
  unfold i8 wrapInt
  omega

theorem i32_eq_iff : i32 x = i32 y ↔ x ≡ y [ZMOD 2 ^ 32] := by
  unfold i32 wrapInt Int.ModEq
  omega

theorem i32_modEq (x : Int) : i32 x ≡ x [ZMOD 2 ^ 32] := by
  unfold i32 wrapInt Int.ModEq
  omega

/-- The cycles of the entries `e`. -/
def ltCycles (e : Nat → LtEntry) (i : Nat) : Nat := (e i).deltaPocMsbCycleLt

/-- The fields of the first `n` entries are those of `e`, and the cycles their running sums. -/
structure LtHeader.Fills (h : LtHeader) (e : Nat → LtEntry) (n : Nat) : Prop where
  pocLsb : ∀ i < n, h.ai4PocLsbLt i = (e i).pocLsb
  used : ∀ i < n, h.ai1UsedByCurrPicLtFlag i = (e i).usedByCurrPic
  present : ∀ i < n, h.ai1DeltaPocMsbPresentFlag i = (e i).deltaPocMsbPresentFlag
  cycle : ∀ i < n, h.ai1DeltaPocMsbCycleLt i =
    i8 (deltaPocMsbCycleLt (ltCycles e) h.i1NumLongTermSps i)

theorem LtHeader.Fills.store {h : LtHeader} (hf : h.Fills e n) :
    (h.store n (e n)).Fills e (n + 1) := by
  have hset {α : Type} {m : Nat → α} {v : α} {P : Nat → α} (hold : ∀ i < n, m i = P i)
      (hnew : v = P n) : ∀ i < n + 1, set m n v i = P i := by
    intro i hi
    rcases Nat.lt_succ_iff_lt_or_eq.mp hi with hlt | rfl
    · rw [set_ne (Nat.ne_of_lt hlt), hold i hlt]
    · rw [set_same, hnew]
  refine ⟨hset hf.pocLsb rfl, hset hf.used rfl, hset hf.present rfl, hset hf.cycle ?_⟩
  have hsps : (h.store n (e n)).i1NumLongTermSps = h.i1NumLongTermSps := rfl
  rw [hsps]
  cases n with
  | zero => rfl
  | succ n =>
    rw [deltaPocMsbCycleLt]
    by_cases hstart : n + 1 = h.i1NumLongTermSps
    · rw [if_neg (fun hc => hc.2 hstart), if_pos hstart]
      rfl
    · rw [if_pos ⟨Nat.succ_ne_zero n, hstart⟩, if_neg hstart, Nat.add_sub_cancel,
        hf.cycle n (Nat.lt_succ_self n), i8_add_i8]
      rfl

/-- The fields after the entries `es`, from entry `i` on. -/
def LtHeader.storeAll : LtHeader → Nat → List LtEntry → LtHeader
  | h, _, [] => h
  | h, i, e :: es => (h.store i e).storeAll (i + 1) es

theorem LtHeader.Fills.storeAll {h : LtHeader} (hf : h.Fills e n)
    (hes : ∀ i (hi : i < es.length), e (n + i) = es[i]) :
    (h.storeAll n es).Fills e (n + es.length) ∧
      (h.storeAll n es).i1NumLongTermSps = h.i1NumLongTermSps ∧
      (h.storeAll n es).i1NumLongTermPics = h.i1NumLongTermPics := by
  induction es generalizing h n with
  | nil => exact ⟨hf, rfl, rfl⟩
  | cons x es ih =>
    have hfirst : e n = x := hes 0 (Nat.succ_pos _)
    have hrest : ∀ i (hi : i < es.length), e (n + 1 + i) = es[i] := by
      intro i hi
      have hnext := hes (i + 1) (Nat.succ_lt_succ hi)
      rwa [Nat.add_right_comm n 1 i]
    have hstep := hf.store
    rw [hfirst] at hstep
    obtain ⟨hfills, hsps, hpics⟩ := ih hstep hrest
    rw [List.length_cons, Nat.add_comm es.length 1, ← Nat.add_assoc]
    exact ⟨hfills, hsps, hpics⟩

/-- The loop stores the entries that the syntax has. -/
theorem ltLoop_ok (hok : ltLoop sps n i h s = .ok (h', s')) :
    ∃ es, es.length = n ∧ ltEntries sps h.i1NumLongTermSps n i s = .ok (es, s') ∧
      h' = h.storeAll i es := by
  induction n generalizing i h s with
  | zero =>
    simp only [ltLoop, Except.ok.injEq, Prod.mk.injEq] at hok
    obtain ⟨rfl, rfl⟩ := hok
    exact ⟨[], rfl, rfl, rfl⟩
  | succ n ih =>
    simp only [ltLoop] at hok
    cases hread : readLtEntry sps h.i1NumLongTermSps i s with
    | error err =>
      rw [hread] at hok
      contradiction
    | ok r =>
      obtain ⟨e, s₁⟩ := r
      rw [hread] at hok
      obtain ⟨es, hlen, hes, rfl⟩ := ih hok
      refine ⟨e :: es, congrArg Nat.succ hlen, ?_, rfl⟩
      have hsps : (h.store i e).i1NumLongTermSps = h.i1NumLongTermSps := rfl
      rw [hsps] at hes
      simp only [ltEntries, hread]
      exact congrArg (fun r => r >>= fun (es, s) => Except.ok (e :: es, s)) hes

theorem parseLongTerm_ok (hok : ihevcdParseLongTerm sps numNegPics numPosPics h₀ s = .ok (h, s')) :
    ∃ s₁ es, ltCounts sps numNegPics numPosPics s =
        .ok (h.i1NumLongTermSps, h.i1NumLongTermPics, s₁) ∧
      es.length = h.i1NumLongTermSps + h.i1NumLongTermPics ∧
      ltEntries sps h.i1NumLongTermSps (h.i1NumLongTermSps + h.i1NumLongTermPics) 0 s₁ =
        .ok (es, s') ∧
      ∀ e : Nat → LtEntry, (∀ i (hi : i < es.length), e i = es[i]) → h.Fills e es.length := by
  unfold ihevcdParseLongTerm at hok
  cases hcounts : ltCounts sps numNegPics numPosPics s with
  | error err =>
    rw [hcounts] at hok
    contradiction
  | ok r =>
    obtain ⟨numSps, numPics, s₁⟩ := r
    rw [hcounts] at hok
    obtain ⟨es, hlen, hes, rfl⟩ := ltLoop_ok hok
    have hnone (e : Nat → LtEntry) : LtHeader.Fills
        { h₀ with i1NumLongTermSps := numSps, i1NumLongTermPics := numPics } e 0 :=
      ⟨fun _ hi => absurd hi (Nat.not_lt_zero _), fun _ hi => absurd hi (Nat.not_lt_zero _),
        fun _ hi => absurd hi (Nat.not_lt_zero _), fun _ hi => absurd hi (Nat.not_lt_zero _)⟩
    have hall (e : Nat → LtEntry) (he : ∀ i (hi : i < es.length), e (0 + i) = es[i]) :=
      (hnone e).storeAll he
    obtain ⟨-, hsps, hpics⟩ := hall (fun i => es.getD i ⟨0, 0, 0, 0⟩) fun i hi => by
      rw [Nat.zero_add, List.getD_eq_getElem _ _ hi]
    rw [hsps, hpics]
    refine ⟨s₁, es, rfl, hlen, hes, fun e he => ?_⟩
    have hfills := (hall e fun i hi => by rw [Nat.zero_add, he i hi]).1
    rwa [Nat.zero_add] at hfills

/-- The products with `MaxPicOrderCntLsb` agree as 32-bit numbers where the cycles agree without the
bits that leave the word. -/
theorem cycle_modEq_iff (hlog : log2 ≤ 32) (x y : Int) :
    x * 2 ^ log2 ≡ y * 2 ^ log2 [ZMOD 2 ^ 32] ↔ x ≡ y [ZMOD 2 ^ (32 - log2)] := by
  have hpow : (2 : Int) ^ 32 = 2 ^ (32 - log2) * 2 ^ log2 := by
    rw [← pow_add, Nat.sub_add_cancel hlog]
  rw [hpow]
  exact ⟨Int.ModEq.mul_right_cancel' (pow_ne_zero _ two_ne_zero), fun h => h.mul_right'⟩

/-- The count by which an entry is looked up, `start` ahead of the specification's: exactly where
the cycle fits. -/
theorem refListPocLt_iff {h : LtHeader} (hlog : log2 ≤ 32) (picOrderCntVal start : Int) (d i : Nat)
    (hd : h.ai1DeltaPocMsbCycleLt i = i8 d) :
    ihevcdRefListPocLt h log2 (picOrderCntVal + start) (picOrderCntVal % 2 ^ log2) i =
        (if h.ai1DeltaPocMsbPresentFlag i ≠ 0 then
          i32 (pocLt (2 ^ log2) picOrderCntVal (h.ai4PocLsbLt i) (h.ai1DeltaPocMsbPresentFlag i) d +
            start)
        else h.ai4PocLsbLt i) ↔
      (h.ai1DeltaPocMsbPresentFlag i ≠ 0 → i8 d ≡ d [ZMOD 2 ^ (32 - log2)]) := by
  unfold ihevcdRefListPocLt pocLt
  by_cases hpresent : h.ai1DeltaPocMsbPresentFlag i ≠ 0
  · simp only [hpresent, ne_eq, not_false_eq_true, if_true, forall_const, hd]
    rw [← cycle_modEq_iff hlog, i32_eq_iff]
    generalize (2 : Int) ^ log2 = m
    -- the wraps on the way do not matter
    have hinner : i32 (i32 (picOrderCntVal + start - i32 (i8 d * m)) - picOrderCntVal % m) ≡
        picOrderCntVal + start - i8 d * m - picOrderCntVal % m [ZMOD 2 ^ 32] :=
      (i32_modEq _).trans (((i32_modEq _).trans ((i32_modEq _).sub_left _)).sub_right _)
    have hcode := hinner.add_left (h.ai4PocLsbLt i : Int)
    constructor
    · intro heq
      have hall := hcode.symm.trans heq
      unfold Int.ModEq at hall ⊢
      omega
    · intro heq
      refine hcode.trans ?_
      unfold Int.ModEq at heq ⊢
      omega
  · simp only [hpresent, if_false, false_implies]

/-- In every accepted header, the counts by which all entries are looked up are those of the
specification exactly where every sum of cycles in use agrees with its value as a signed number of
8 bits, without the bits that leave the word in the product. -/
theorem longTermPoc_iff (hlog : sps.i1Log2MaxPicOrderCntLsb ≤ 16)
    (hok : ihevcdParseLongTerm sps numNegPics numPosPics h₀ s = .ok (h, s')) :
    ∃ s₁ es, ltCounts sps numNegPics numPosPics s =
        .ok (h.i1NumLongTermSps, h.i1NumLongTermPics, s₁) ∧
      ltEntries sps h.i1NumLongTermSps (h.i1NumLongTermSps + h.i1NumLongTermPics) 0 s₁ =
        .ok (es, s') ∧
      es.length = h.i1NumLongTermSps + h.i1NumLongTermPics ∧
      ∀ e : Nat → LtEntry, (∀ i (hi : i < es.length), e i = es[i]) →
        ∀ picOrderCntVal start : Int,
          (∀ i < es.length,
            ihevcdRefListPocLt h sps.i1Log2MaxPicOrderCntLsb (picOrderCntVal + start)
                (picOrderCntVal % 2 ^ sps.i1Log2MaxPicOrderCntLsb) i =
              if (e i).deltaPocMsbPresentFlag ≠ 0 then
                i32 (pocLt (2 ^ sps.i1Log2MaxPicOrderCntLsb) picOrderCntVal (e i).pocLsb
                  (e i).deltaPocMsbPresentFlag
                  (deltaPocMsbCycleLt (ltCycles e) h.i1NumLongTermSps i) + start)
              else (e i).pocLsb) ↔
          ∀ i < es.length, (e i).deltaPocMsbPresentFlag ≠ 0 →
            i8 (deltaPocMsbCycleLt (ltCycles e) h.i1NumLongTermSps i) ≡
              deltaPocMsbCycleLt (ltCycles e) h.i1NumLongTermSps i
                [ZMOD 2 ^ (32 - sps.i1Log2MaxPicOrderCntLsb)] := by
  obtain ⟨s₁, es, hcounts, hlen, hes, hfills⟩ := parseLongTerm_ok hok
  refine ⟨s₁, es, hcounts, hes, hlen, fun e he picOrderCntVal start => ?_⟩
  have hf := hfills e he
  have hlog32 : sps.i1Log2MaxPicOrderCntLsb ≤ 32 := Nat.le_trans hlog (by decide)
  refine forall_congr' fun i => forall_congr' fun hi => ?_
  have hiff := refListPocLt_iff hlog32 picOrderCntVal start
    (deltaPocMsbCycleLt (ltCycles e) h.i1NumLongTermSps i) i (hf.cycle i hi)
  rw [hf.present i hi, hf.pocLsb i hi] at hiff
  exact hiff

/-- An SPS without candidates and with 4 bits for the least significant part of the count. -/
def ltSpsOfFour : LtSps where
  i1LongTermRefPicsPresentFlag := 1
  i1NumLongTermRefPicsSps := 0
  au2LtRefPicPocLsbSps _ := 0
  ai1UsedByCurrPicLtSpsFlag _ := 0
  i1Log2MaxPicOrderCntLsb := 4

/-- The fields before the long-term part is parsed. -/
def ltHeaderZero : LtHeader where
  i1NumLongTermSps := 0
  i1NumLongTermPics := 0
  ai4PocLsbLt _ := 0
  ai1UsedByCurrPicLtFlag _ := 0
  ai1DeltaPocMsbPresentFlag _ := 0
  ai1DeltaPocMsbCycleLt _ := 0

/-- One entry with the cycle 127. -/
theorem longTermPoc_iff_cycle127 :
    ∃ h s', ihevcdParseLongTerm ltSpsOfFour 0 0 ltHeaderZero
        (ihevcdBitsInit (fun i => [0x41, 0x80, 0x80].getD i 0) 3) = .ok (h, s') ∧
      ∀ picOrderCntVal start : Int,
        ihevcdRefListPocLt h 4 (picOrderCntVal + start) (picOrderCntVal % 2 ^ 4) 0 =
          i32 (pocLt (2 ^ 4) picOrderCntVal 0 1 127 + start) := by
  refine ⟨_, _, rfl, fun picOrderCntVal start => ?_⟩
  obtain ⟨s₁, es, hcounts, hes, -, hiff⟩ :=
    longTermPoc_iff (by decide) (show ihevcdParseLongTerm ltSpsOfFour 0 0 ltHeaderZero
      (ihevcdBitsInit (fun i => [0x41, 0x80, 0x80].getD i 0) 3) = .ok (_, _) from rfl)
  obtain rfl := (Prod.mk.inj (Prod.mk.inj (Except.ok.inj hcounts)).2).2
  obtain rfl := (Prod.mk.inj (Except.ok.inj hes)).1
  refine (hiff (fun _ => ⟨0, 1, 1, 127⟩) ?_ picOrderCntVal start).mpr ?_ 0 Nat.one_pos
  · intro i hi
    cases Nat.lt_one_iff.mp hi
    rfl
  · intro i hi _
    cases Nat.lt_one_iff.mp hi
    decide

/-- The cycle 128 is read as -128: the picture of count 6144 is looked up for that of 2048. -/
theorem longTermPoc_cycle128 :
    ∃ h s', ihevcdParseLongTerm ltSpsOfFour 0 0 ltHeaderZero
        (ihevcdBitsInit (fun i => [0x41, 0x80, 0x81].getD i 0) 3) = .ok (h, s') ∧
      h.i1NumLongTermSps + h.i1NumLongTermPics = 1 ∧ h.ai1DeltaPocMsbPresentFlag 0 = 1 ∧
      ihevcdRefListPocLt h 4 4096 0 0 = 6144 ∧
      pocLt (2 ^ 4) 4096 (h.ai4PocLsbLt 0) 1 128 = 2048 := by
  refine ⟨_, _, rfl, by decide +kernel⟩

end Libhevc.Decoder
