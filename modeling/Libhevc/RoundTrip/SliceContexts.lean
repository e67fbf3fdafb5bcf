import Libhevc.RoundTrip.BypassGroups

/-!
# Slices with contexts at other indices

A slice also decodes with its contexts at other indices than it was coded with, where these are
apart and begin in the same states, and with its bypass bins in other groups. The interval of the
plain coder does not differ, and it determines the bytes.
-/

namespace Libhevc.RoundTrip

open Memory Escape Spec Encoder

-- ---------------------------------------------------------------------------
-- Renaming
-- ---------------------------------------------------------------------------

/-- A symbol whose context has another index. -/
def renameSym (f : Nat → Nat) : CabacSym → CabacSym
  | (.bin ctxtIndex, v) => (.bin (f ctxtIndex), v)
  | sym => sym

/-- The context of a symbol, if it has one, is in the set. -/
def CtxtIn (indices : Set Nat) : CabacSym → Prop
  | (.bin ctxtIndex, _) => ctxtIndex ∈ indices
  | _ => True

/-- The second coder has the interval of the first, and its models at the other indices. -/
structure Renamed (f : Nat → Nat) (indices : Set Nat) (k k' : Coder) : Prop where
  interval : k'.interval = k.interval
  models : ∀ i ∈ indices, k'.models (f i) = k.models i

section
variable {f : Nat → Nat} {indices : Set Nat} {k k' : Coder}

theorem Renamed.code (h : Renamed f indices k k') (hf : Set.InjOn f indices)
    (hsym : CtxtIn indices sym) : Renamed f indices (k.code sym) (k'.code (renameSym f sym)) := by
  obtain ⟨hinterval, hmodels⟩ := h
  obtain ⟨op, v⟩ := sym
  cases op with
  | bin ctxtIndex =>
    have hmodel := hmodels ctxtIndex hsym
    refine ⟨?_, fun i hi => ?_⟩
    · simp only [renameSym, Coder.code, Coder.codeBin, hmodel, hinterval]
    · simp only [renameSym, Coder.code, Coder.codeBin, hmodel]
      by_cases hsame : i = ctxtIndex
      · rw [hsame, set_same, set_same]
      · rw [set_ne fun h => hsame (hf hi hsym h), set_ne hsame]
        exact hmodels i hi
  | bypass => exact ⟨by simp only [renameSym, Coder.code, Coder.codeBypassBins, hinterval], hmodels⟩
  | bypassBins numbins =>
    exact ⟨by simp only [renameSym, Coder.code, Coder.codeBypassBins, hinterval], hmodels⟩
  | terminate =>
    exact ⟨by simp only [renameSym, Coder.code, Coder.codeTerminate, hinterval], hmodels⟩

theorem Renamed.codeAll (h : Renamed f indices k k') (hf : Set.InjOn f indices)
    (hl : ∀ sym ∈ l, CtxtIn indices sym) :
    Renamed f indices (k.codeAll l) (k'.codeAll (l.map (renameSym f))) := by
  induction l generalizing k k' with
  | nil => exact h
  | cons sym l ih =>
    obtain ⟨hsym, hl⟩ := List.forall_mem_cons.mp hl
    exact ih (h.code hf hsym) hl

end

-- ---------------------------------------------------------------------------
-- Groups
-- ---------------------------------------------------------------------------

/-- The symbol with its bypass bins one by one. -/
def ungroup : CabacSym → List CabacSym
  | (.bypassBins numbins, v) => singleBins numbins v
  | sym => [sym]

theorem code_ungroup (k : Coder) (h : SymOk sym) : k.codeAll (ungroup sym) = k.code sym := by
  obtain ⟨op, v⟩ := sym
  cases op with
  | bypassBins numbins =>
    have hv : v < 2 ^ numbins := h
    rw [ungroup, codeAll_singleBins, Nat.mod_eq_of_lt hv]
    rfl
  | bin | bypass | terminate => rfl

theorem codeAll_ungroup (k : Coder) (hl : Going l) :
    k.codeAll (l.flatMap ungroup) = k.codeAll l := by
  induction l generalizing k with
  | nil => rfl
  | cons sym l ih =>
    obtain ⟨⟨hsym, -⟩, hl⟩ := List.forall_mem_cons.mp hl
    rw [List.flatMap_cons, codeAll_append, code_ungroup k hsym]
    exact ih _ hl

-- ---------------------------------------------------------------------------
-- Bytes
-- ---------------------------------------------------------------------------

theorem codeTerminate_interval {k k' : Coder} (h : k'.interval = k.interval) (bin : Nat) :
    (k'.codeTerminate bin).interval = (k.codeTerminate bin).interval := by
  simp only [Coder.codeTerminate, h]

section
variable {c₀ c : Encoder.CabCtxt} {bs : Encoder.Bitstrm}

/-- The bytes of a slice read back as any symbols that leave its interval. -/
theorem SliceFits.readsBack (h : SliceFits models c l) (hm : ModelsOk models) (hl : Going l)
    (hl' : Readable l')
    (hsame : ((Coder.init models).codeAll l').interval = ((Coder.init models).codeAll l).interval)
    (hc : ihevceCabacInit c₀ bs models .encodeBits = c)
    (hs : Sealed bs.pu1StrmBuffer.mem c.u4StrmBufOffset) (hrun : bs.i4ZeroBytesRun = 0)
    (hoff : c.u4StrmBufOffset < 2 ^ 32) (hmax : c.u4MaxStrmSize < 2 ^ 32) :
    SliceReadsBack l' models ((Coder.init models).codeAll l').models
      (sliceBytes (encodeSlice c l).2 c.u4StrmBufOffset) := by
  obtain ⟨payload, z, hz, hlen, hval, hbytes, hheld, hend, -, -⟩ :=
    h.payload hm hl hc hs hrun hoff hmax
  have hout : sliceBytes (encodeSlice c l).2 c.u4StrmBufOffset = epb.escape 0 payload := by
    rw [sliceBytes, hend, Nat.add_sub_cancel_left]
    exact hheld.map_range_add
  rw [hout]
  rw [← hsame] at hlen
  rw [← codeTerminate_interval hsame] at hval
  exact payload_readsBack rfl hm hl' hbytes hz hlen hval unescape_escape

end

/-- A slice is coded with its contexts at `i` and decoded with them at `f i`, in any groups. -/
theorem SliceFits.readsBack_renamed {c₀ c : Encoder.CabCtxt} {bs : Encoder.Bitstrm}
    (h : SliceFits models c l) (hm : ModelsOk models) (hl : Going l) (hl' : Readable l')
    {indices : Set Nat} (hf : Set.InjOn f indices)
    (hmodels : ∀ i ∈ indices, models (f i) = models i)
    (hindices : ∀ sym ∈ l.flatMap ungroup, CtxtIn indices sym)
    (hsyms : l'.flatMap ungroup = (l.flatMap ungroup).map (renameSym f))
    (hc : ihevceCabacInit c₀ bs models .encodeBits = c)
    (hs : Sealed bs.pu1StrmBuffer.mem c.u4StrmBufOffset) (hrun : bs.i4ZeroBytesRun = 0)
    (hoff : c.u4StrmBufOffset < 2 ^ 32) (hmax : c.u4MaxStrmSize < 2 ^ 32) :
    SliceReadsBack l' models ((Coder.init models).codeAll l').models
      (sliceBytes (encodeSlice c l).2 c.u4StrmBufOffset) := by
  have hinit : Renamed f indices (Coder.init models) (Coder.init models) := ⟨rfl, hmodels⟩
  refine h.readsBack hm hl hl' ?_ hc hs hrun hoff hmax
  calc ((Coder.init models).codeAll l').interval
      = ((Coder.init models).codeAll (l'.flatMap ungroup)).interval := by
        rw [codeAll_ungroup _ hl'.1]
    _ = ((Coder.init models).codeAll (l.flatMap ungroup)).interval := by
        rw [hsyms]
        exact (hinit.codeAll hf hindices).interval
    _ = ((Coder.init models).codeAll l).interval := by rw [codeAll_ungroup _ hl]

end Libhevc.RoundTrip
