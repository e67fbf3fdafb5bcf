import Libhevc.Lib.PackBytes
import Libhevc.RoundTrip.Cabac

/-!
# Groups of bypass bins

A group of bypass bins goes into the low end of the interval 8 bins at a time,
so bytes leave it, and carries reach them, at other times than when each bin is
encoded alone. The plain coder that the context stands for does not differ, and
it determines the bytes of the slice.
-/

namespace Libhevc.RoundTrip

open BitString Memory Escape RangeCoder Spec Encoder

/-- The bins of a group, each a symbol. -/
def singleBins (numBins u4Bins : Nat) : List CabacSym :=
  (bitsOf numBins u4Bins).map fun bin => (.bypass, bin.toNat)

theorem singleBins_going : Going (singleBins n v) := by
  intro sym hsym
  obtain ⟨bin, -, rfl⟩ := List.mem_map.mp hsym
  refine ⟨Bool.toNat_lt bin, ?_⟩
  rintro ⟨⟩

theorem codeAll_append (k : Coder) (l l' : List CabacSym) :
    k.codeAll (l ++ l') = (k.codeAll l).codeAll l' := List.foldl_append

theorem codeAll_singleBins (k : Coder) (n v : Nat) :
    k.codeAll (singleBins n v) = k.codeBypassBins n (v % 2 ^ n) := by
  induction n generalizing k with
  | zero =>
    simp [singleBins, bitsOf, Coder.codeAll, Coder.codeBypassBins, Interval.scale, Interval.narrow,
      Nat.mod_one]
  | succ n ih =>
    have hdiv : v % 2 ^ (1 + n) / 2 ^ n = (v.testBit n).toNat := by
      rw [Nat.add_comm, pow_succ, Nat.mod_mul_right_div_self, Nat.toNat_testBit]
    have hmod : v % 2 ^ (1 + n) % 2 ^ n = v % 2 ^ n := by
      rw [Nat.add_comm, pow_succ, Nat.mod_mul_right_mod]
    have hfirst : singleBins (n + 1) v = (.bypass, (v.testBit n).toNat) :: singleBins n v := rfl
    rw [hfirst, Nat.add_comm n 1, codeBypassBins_add, hdiv, hmod]
    exact ih (k.codeBypassBins 1 (v.testBit n).toNat)

-- ---------------------------------------------------------------------------
-- The estimate and the models
-- ---------------------------------------------------------------------------

/-- What a symbol adds to the estimate of the bits. -/
def symCost (models : Nat → Nat) : CabacSym → Nat
  | (.bin ctxtIndex, v) => gau2IhevceCabacBinToBits (models ctxtIndex ^^^ v)
  | (.bypass, _) => 1 <<< cabacFracBitsQ
  | (.bypassBins numBins, _) => numBins <<< cabacFracBitsQ
  | (.terminate, v) => gau2IhevceCabacBinToBits (62 <<< 1 ||| v)

def allCost (k : Coder) : List CabacSym → Nat
  | [] => 0
  | sym :: l => symCost k.models sym + allCost (k.code sym) l

theorem allCost_append (k : Coder) (l l' : List CabacSym) :
    allCost k (l ++ l') = allCost k l + allCost (k.codeAll l) l' := by
  induction l generalizing k with
  | nil => exact (Nat.zero_add _).symm
  | cons sym l ih =>
    simp only [List.cons_append, allCost, ih, Nat.add_assoc]
    rfl

theorem allCost_singleBins (k : Coder) : allCost k (singleBins n v) = n <<< cabacFracBitsQ := by
  induction n generalizing k with
  | zero => rfl
  | succ n ih =>
    have hfirst : singleBins (n + 1) v = (.bypass, (v.testBit n).toNat) :: singleBins n v := rfl
    rw [hfirst, allCost, ih]
    simp only [symCost, Nat.shiftLeft_eq]
    ring

/-- A byte that is put changes neither. -/
theorem putReady_estimate (c : Encoder.CabCtxt) :
    c.putReady.2.u4BitsEstimatedQ12 = c.u4BitsEstimatedQ12 ∧
      c.putReady.2.au1CtxtModels = c.au1CtxtModels := by
  unfold CabCtxt.putReady ihevceCabacPutByte
  split
  · split
    · exact ⟨rfl, rfl⟩
    · split <;> exact ⟨rfl, rfl⟩
  · exact ⟨rfl, rfl⟩

theorem bypassBinsLoop_estimate (c : Encoder.CabCtxt) :
    (bypassBinsLoop v r n c).2.u4BitsEstimatedQ12 = c.u4BitsEstimatedQ12 ∧
      (bypassBinsLoop v r n c).2.au1CtxtModels = c.au1CtxtModels := by
  induction r generalizing n c with
  | zero => exact putReady_estimate _
  | succ r ih =>
    unfold bypassBinsLoop
    split
    · obtain ⟨hest, hmodels⟩ := ih (n := n - 8) (c.appendBins ((v >>> (n - 8)) &&& 0xff) 8).2
      obtain ⟨hest', hmodels'⟩ := putReady_estimate (c.append ((v >>> (n - 8)) &&& 0xff) 8)
      exact ⟨hest.trans hest', hmodels.trans hmodels'⟩
    · exact putReady_estimate _

theorem flush_estimate (c : Encoder.CabCtxt) :
    (ihevceCabacFlush c).2.u4BitsEstimatedQ12 = c.u4BitsEstimatedQ12 ∧
      (ihevceCabacFlush c).2.au1CtxtModels = c.au1CtxtModels := by
  unfold ihevceCabacFlush
  dsimp only
  split <;> exact ⟨rfl, rfl⟩

/-- The estimate and the models after a symbol depend on those before it only. -/
theorem encode_estimate (c : Encoder.CabCtxt) (k : Coder) (hmodels : c.au1CtxtModels = k.models)
    (hsym : SymOk sym) :
    (cabacEncode c sym).2.u4BitsEstimatedQ12 =
        u32 (symCost k.models sym + c.u4BitsEstimatedQ12) ∧
      (cabacEncode c sym).2.au1CtxtModels = (k.code sym).models := by
  obtain ⟨op, v⟩ := sym
  rw [← hmodels]
  cases op with
  | bin ctxt =>
    have hnext : set c.au1CtxtModels ctxt
        (gau1IhevcNextState ((c.au1CtxtModels ctxt <<< 1) ||| v)) =
          (k.code (.bin ctxt, v)).models := by
      rw [nextModel_eq hsym.2, hmodels]
      rfl
    rw [← hnext]
    simp only [cabacEncode, ihevceCabacEncodeBin, symCost]
    cases c.eCabacOpMode with
    | computeBits => exact ⟨rfl, rfl⟩
    | encodeBits =>
      obtain ⟨hest, hmodels'⟩ := putReady_estimate
        (((c.estimate (gau2IhevceCabacBinToBits (c.au1CtxtModels ctxt ^^^ v))).narrowBin v
          ctxt).updateModel v ctxt)
      refine ⟨hest.trans ?_, hmodels'.trans ?_⟩
      · unfold CabCtxt.updateModel CabCtxt.narrowBin
        dsimp only
        split <;> rfl
      · unfold CabCtxt.updateModel CabCtxt.narrowBin
        dsimp only
        split <;> rfl
  | bypass =>
    have hnext : (k.code (.bypass, v)).models = c.au1CtxtModels := hmodels.symm
    rw [hnext]
    simp only [cabacEncode, ihevceCabacEncodeBypassBin, symCost]
    cases (c.estimate (1 <<< cabacFracBitsQ)).eCabacOpMode with
    | computeBits => exact ⟨rfl, rfl⟩
    | encodeBits => exact putReady_estimate _
  | bypassBins n =>
    have hnext : (k.code (.bypassBins n, v)).models = c.au1CtxtModels := hmodels.symm
    rw [hnext]
    simp only [cabacEncode, ihevceCabacEncodeBypassBins, symCost]
    cases (c.estimate (n <<< cabacFracBitsQ)).eCabacOpMode with
    | computeBits => exact ⟨rfl, rfl⟩
    | encodeBits => exact bypassBinsLoop_estimate _
  | terminate =>
    have hnext : (k.code (.terminate, v)).models = c.au1CtxtModels := hmodels.symm
    obtain ⟨hest, hmodels'⟩ := putReady_estimate (c.part v)
    obtain ⟨hest'', hmodels''⟩ := flush_estimate (c.part v).putReady.2
    rw [hnext]
    simp only [cabacEncode, ihevceCabacEncodeTerminate, symCost]
    split
    · exact ⟨congrArg (fun e => u32 (_ + e)) (hest''.trans hest), hmodels''.trans hmodels'⟩
    · exact ⟨congrArg (fun e => u32 (_ + e)) hest, hmodels'⟩

theorem encodeAll_estimate (c : Encoder.CabCtxt) (k : Coder) (hmodels : c.au1CtxtModels = k.models)
    (hest : c.u4BitsEstimatedQ12 < 2 ^ 32) (hl : Going l) :
    (cabacEncodeAll c l).2.u4BitsEstimatedQ12 = u32 (allCost k l + c.u4BitsEstimatedQ12) ∧
      (cabacEncodeAll c l).2.au1CtxtModels = (k.codeAll l).models := by
  induction l generalizing c k with
  | nil =>
    rw [allCost, Nat.zero_add, u32_of_lt hest]
    exact ⟨rfl, hmodels⟩
  | cons sym l ih =>
    obtain ⟨hsym, -⟩ := hl sym (by simp)
    obtain ⟨hcost, hnext⟩ := encode_estimate c k hmodels hsym
    obtain ⟨hrest, hend⟩ := ih (cabacEncode c sym).2 (k.code sym) hnext (hcost ▸ u32_lt _)
      fun x hx => hl x (by simp [hx])
    refine ⟨hrest.trans ?_, hend⟩
    rw [hcost, allCost]
    unfold u32
    omega

/-- In the mode that only counts bits, the group and its bins leave the same context. -/
theorem computeBits_singleBins (c : Encoder.CabCtxt) (hmode : c.eCabacOpMode = .computeBits)
    (hn : 0 < n) : cabacEncodeAll c (singleBins n v) = cabacEncode c (.bypassBins n, v) := by
  have hsingle (c : Encoder.CabCtxt) (hmode : c.eCabacOpMode = .computeBits) (bin : Nat) :
      cabacEncode c (.bypass, bin) = (.success, c.estimate (1 <<< cabacFracBitsQ)) := by
    simp [cabacEncode, ihevceCabacEncodeBypassBin, hmode]
  have hgroup :
      cabacEncode c (.bypassBins n, v) = (.success, c.estimate (n <<< cabacFracBitsQ)) := by
    simp [cabacEncode, ihevceCabacEncodeBypassBins, hmode]
  rw [hgroup]
  clear hgroup
  induction n, hn using Nat.le_induction generalizing c with
  | base =>
    have hone : cabacEncodeAll c (singleBins 1 v) =
        ((cabacEncode c (.bypass, (v.testBit 0).toNat)).1.or .success,
          (cabacEncode c (.bypass, (v.testBit 0).toNat)).2) := rfl
    rw [hsingle c hmode] at hone
    exact hone
  | succ n hn ih =>
    have hfirst : singleBins (n + 1) v = (.bypass, (v.testBit n).toNat) :: singleBins n v := rfl
    rw [hfirst, cabacEncodeAll, hsingle c hmode, ih (c.estimate (1 <<< cabacFracBitsQ)) hmode]
    refine congrArg (fun e => (_, { c with u4BitsEstimatedQ12 := e })) ?_
    simp only [CabCtxt.estimate, Nat.shiftLeft_eq]
    unfold u32
    have hmul : (n + 1) * 2 ^ cabacFracBitsQ =
        n * 2 ^ cabacFracBitsQ + 1 * 2 ^ cabacFracBitsQ := by ring
    omega

-- ---------------------------------------------------------------------------
-- The bytes
-- ---------------------------------------------------------------------------

/-- What a slice leaves is the same: the bytes up to its end, the estimate and the models. -/
structure SamePayload (c c' : Encoder.CabCtxt) : Prop where
  off : c.u4StrmBufOffset = c'.u4StrmBufOffset
  bytes : ∀ i < c.u4StrmBufOffset, c.pu1StrmBuffer.mem i = c'.pu1StrmBuffer.mem i
  estimate : c.u4BitsEstimatedQ12 = c'.u4BitsEstimatedQ12
  models : c.au1CtxtModels = c'.au1CtxtModels

section
variable {c₀ c : Encoder.CabCtxt} {bs : Encoder.Bitstrm}

/-- Symbols that leave the plain coder in one state, at one cost, leave one slice. -/
theorem SliceFits.same (h : SliceFits models c l) (h' : SliceFits models c l')
    (hm : ModelsOk models) (hl : Going l) (hl' : Going l')
    (hcode : (Coder.init models).codeAll l = (Coder.init models).codeAll l')
    (hcost : allCost (Coder.init models) l = allCost (Coder.init models) l')
    (hc : ihevceCabacInit c₀ bs models .encodeBits = c)
    (hs : Sealed bs.pu1StrmBuffer.mem c.u4StrmBufOffset) (hrun : bs.i4ZeroBytesRun = 0)
    (hoff : c.u4StrmBufOffset < 2 ^ 32) (hmax : c.u4MaxStrmSize < 2 ^ 32) :
    SamePayload (encodeSlice c l).2 (encodeSlice c l').2 := by
  obtain ⟨payload, z, hz, hlen, hval, hbytes, hheld, hend, hmodels, hframe⟩ :=
    h.payload hm hl hc hs hrun hoff hmax
  obtain ⟨payload', z', hz', hlen', hval', hbytes', hheld', hend', hmodels', hframe'⟩ :=
    h'.payload hm hl' hc hs hrun hoff hmax
  rw [← hcode] at hlen' hval' hmodels'
  obtain rfl : z = z' := by omega
  obtain rfl : payload = payload' :=
    byteVal_inj (by omega) hbytes hbytes' (hval.trans hval'.symm)
  refine ⟨hend.trans hend'.symm, fun i hi => ?_, ?_, hmodels.trans hmodels'.symm⟩
  · rcases Nat.lt_or_ge i c.u4StrmBufOffset with hlt | hge
    · exact (hframe i hlt).trans (hframe' i hlt).symm
    · obtain ⟨j, rfl⟩ : ∃ j, i = c.u4StrmBufOffset + j := ⟨_, (Nat.add_sub_cancel' hge).symm⟩
      have hj : j < (epb.escape 0 payload).length := by omega
      exact (hheld j hj).trans (hheld' j hj).symm
  · -- the terminating bin costs the same behind both
    have hinit : c.au1CtxtModels = (Coder.init models).models := by
      subst hc
      rfl
    have hzero : c.u4BitsEstimatedQ12 = 0 := by
      subst hc
      rfl
    have hest : c.u4BitsEstimatedQ12 < 2 ^ 32 := hzero ▸ (by decide)
    obtain ⟨hcount, hend⟩ := encodeAll_estimate c _ hinit hest hl
    obtain ⟨hcount', hend'⟩ := encodeAll_estimate c _ hinit hest hl'
    have hone : SymOk (.terminate, 1) := (by decide : 1 < 2)
    have hlast := encode_estimate (cabacEncodeAll c l).2 _ hend hone
    have hlast' := encode_estimate (cabacEncodeAll c l').2 _ hend' hone
    rw [encodeSlice_eq, encodeSlice_eq]
    refine hlast.1.trans (Eq.trans ?_ hlast'.1.symm)
    rw [hcount, hcount', hcost]
    rfl

/-- A group of bypass bins in a slice. In the mode that counts bits it leaves the context that its
bins leave one by one. In a slice that fits both ways, the contexts after it stand for one coder,
and the slices end the same. -/
theorem bypassGroup_singleBins (hm : ModelsOk models) (hl₀ : Going l₀) (hl₁ : Going l₁) (hn : 0 < n)
    (hv : v < 2 ^ n) (hc : ihevceCabacInit c₀ bs models .encodeBits = c)
    (hs : Sealed bs.pu1StrmBuffer.mem c.u4StrmBufOffset) (hrun : bs.i4ZeroBytesRun = 0)
    (hoff : c.u4StrmBufOffset < 2 ^ 32) (hmax : c.u4MaxStrmSize < 2 ^ 32)
    (hgroup : SliceFits models c (l₀ ++ (.bypassBins n, v) :: l₁))
    (hsingle : SliceFits models c (l₀ ++ (singleBins n v ++ l₁))) :
    (∀ c' : Encoder.CabCtxt, c'.eCabacOpMode = .computeBits →
        cabacEncode c' (.bypassBins n, v) = cabacEncodeAll c' (singleBins n v)) ∧
      SamePayload (encodeSlice c (l₀ ++ (.bypassBins n, v) :: l₁)).2
        (encodeSlice c (l₀ ++ (singleBins n v ++ l₁))).2 ∧
      ∀ j ≤ l₁.length, ∃ k,
        Idle bs.pu1StrmBuffer.mem c.u4StrmBufOffset
            (cabacEncodeAll c (l₀ ++ (.bypassBins n, v) :: l₁.take j)).2 k ∧
          Idle bs.pu1StrmBuffer.mem c.u4StrmBufOffset
            (cabacEncodeAll c (l₀ ++ (singleBins n v ++ l₁.take j))).2 k := by
  have hgoing : Going (l₀ ++ (.bypassBins n, v) :: l₁) := by
    refine List.forall_mem_append.mpr ⟨hl₀, List.forall_mem_cons.mpr ⟨⟨hv, ?_⟩, hl₁⟩⟩
    rintro ⟨⟩
  have hgoing' : Going (l₀ ++ (singleBins n v ++ l₁)) :=
    List.forall_mem_append.mpr ⟨hl₀, List.forall_mem_append.mpr ⟨singleBins_going, hl₁⟩⟩
  have hcode (k : Coder) (l : List CabacSym) :
      k.codeAll (l₀ ++ (.bypassBins n, v) :: l) = k.codeAll (l₀ ++ (singleBins n v ++ l)) := by
    rw [codeAll_append, codeAll_append, codeAll_append, codeAll_singleBins, Nat.mod_eq_of_lt hv]
    rfl
  refine ⟨fun c' hmode => (computeBits_singleBins c' hmode hn).symm, ?_, fun j hj => ?_⟩
  · refine hgroup.same hsingle hm hgoing hgoing' (hcode _ l₁) ?_ hc hs hrun hoff hmax
    rw [allCost_append, allCost_append, allCost_append, allCost_singleBins, codeAll_singleBins,
      Nat.mod_eq_of_lt hv]
    rfl
  · have htake : l₁.take j ++ l₁.drop j = l₁ := List.take_append_drop j l₁
    have hassoc : l₀ ++ (.bypassBins n, v) :: l₁ =
        (l₀ ++ (.bypassBins n, v) :: l₁.take j) ++ l₁.drop j := by
      rw [List.append_assoc, List.cons_append, htake]
    have hassoc' : l₀ ++ (singleBins n v ++ l₁) =
        (l₀ ++ (singleBins n v ++ l₁.take j)) ++ l₁.drop j := by
      rw [List.append_assoc, List.append_assoc, htake]
    rw [hassoc] at hgroup hgoing
    rw [hassoc'] at hsingle hgoing'
    refine ⟨_, hgroup.idle hm hgoing hc hs hrun hoff hmax, ?_⟩
    rw [hcode]
    exact hsingle.idle hm hgoing' hc hs hrun hoff hmax

theorem bypassGroup_singleBins_ten :
    let c := startAt (fun _ => 1) 64 1
    SamePayload
      (encodeSlice c [(.bin 3, 1), (.bypassBins 10, 1000), (.bypass, 1), (.terminate, 0)]).2
      (encodeSlice c
        ([(.bin 3, 1)] ++ (singleBins 10 1000 ++ [(.bypass, 1), (.terminate, 0)]))).2 :=
  (bypassGroup_singleBins (c := startAt (fun _ => 1) 64 1) (n := 10) (v := 1000)
    (fun _ _ => by decide)
    (show Going [(.bin 3, 1)] by simp [Going, SymOk, ihevcCabCtxtEnd])
    (show Going [(.bypass, 1), (.terminate, 0)] by simp [Going, SymOk]) (by decide) (by decide) rfl
    ⟨by decide, by decide, fun h => nomatch h⟩ rfl (by decide) (by decide)
    ⟨by decide +kernel, by decide +kernel, by decide +kernel, by decide +kernel⟩
    ⟨by decide +kernel, by decide +kernel, by decide +kernel, by decide +kernel⟩).2.1

/-- In a buffer of 3 bytes with one byte in it, a carry of the last four bins has arrived when the
room ends, and is lost when they go in one by one. Behind the bytes 00 00 03 the first byte 3 of
the slice is written before its carry only in the second case. -/
theorem bypassGroup_not_singleBins :
    (encodeSlice (startAt (fun _ => 1) 3 1)
          [(.bypassBins 8, 84), (.bypassBins 4, 6)]).2.pu1StrmBuffer.mem 1 ≠
        (encodeSlice (startAt (fun _ => 1) 3 1)
          ((.bypassBins 8, 84) :: singleBins 4 6)).2.pu1StrmBuffer.mem 1 ∧
      (encodeSlice (startAt (fun i => if i < 3 then 0 else 3) 64 4)
          [(.bypassBins 19, 8703)]).2.u4StrmBufOffset ≠
        (encodeSlice (startAt (fun i => if i < 3 then 0 else 3) 64 4)
          (singleBins 19 8703)).2.u4StrmBufOffset :=
  ⟨by decide +kernel, by decide +kernel⟩

end

end Libhevc.RoundTrip
