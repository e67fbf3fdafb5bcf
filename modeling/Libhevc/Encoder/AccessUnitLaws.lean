import Libhevc.Encoder.AccessUnit

/-!
# Byte accounting of an access unit

The output buffer holds the NAL units written so far, one behind the other, and
the context points behind them. Every generator and every slice keeps this; the
sizes are read off it.
-/

namespace Libhevc.Encoder

open Memory

-- ---------------------------------------------------------------------------
-- The NAL units of an access unit
-- ---------------------------------------------------------------------------

/-- A NAL unit with its start code. -/
def nal (bytes : List Nat) : List Nat := nalStartCode ++ bytes

def Slice.nal : Slice → List Nat
  | .plain header data => nalStartCode ++ header ++ data
  | .sync header _ data entryPoints _ _ => nalStartCode ++ header ++ entryPoints ++ data

def AccessUnit.prefixNals (au : AccessUnit) : List (List Nat) :=
  (if au.i1AudPresentFlag then [nal au.aud] else []) ++
    (if au.insertVpsSpsPps then [nal au.vps, nal au.sps, nal au.pps] else []) ++
    (if au.insertPrefixSei then
      (if au.i1BufPeriodParamsPresentFlag then [nal au.activeParameterSetsSei] else []) ++
        [nal au.seiMessages]
    else [])

def AccessUnit.vclNals (au : AccessUnit) : List (List Nat) :=
  (au.firstSlice :: au.slices).map Slice.nal

def AccessUnit.suffixNals (au : AccessUnit) : List (List Nat) :=
  (if au.insertHashSei then [nal au.hashSei] else []) ++
    (if au.insertEos then [nal au.eos] else [])

/-- The NAL units the flags of the access unit ask for, in the order of the stream. -/
def AccessUnit.nals (au : AccessUnit) : List (List Nat) :=
  au.prefixNals ++ au.vclNals ++ au.suffixNals

/-- The output accounts for the NAL units: they stand without gaps from the start of the buffer,
their bytes are counted, and the reported sizes are positive and add up to the count. -/
structure AuOutput.Accounts (out : AuOutput) (nals : List (List Nat)) : Prop where
  bytes : out.i4BytesGenerated = nals.flatten.length
  holds : Holds out.bitstrm.mem 0 nals.flatten
  starts : out.bitstrm.apu1NalStart = Segments.starts 0 nals
  positive : ∀ size ∈ out.ai4SizeNonVclPrefixNals ++ out.ai4SizeVclNals ++
    out.ai4SizeNonVclSuffixNals, 0 < size
  sum : (out.ai4SizeNonVclPrefixNals ++ out.ai4SizeVclNals ++ out.ai4SizeNonVclSuffixNals).sum =
    out.i4BytesGenerated

-- ---------------------------------------------------------------------------
-- One NAL unit
-- ---------------------------------------------------------------------------

/-- The NAL units `nals` were written, and the context points behind them. -/
structure AuBitstrm.Written (s : AuBitstrm) (nals : List (List Nat)) : Prop where
  starts : s.apu1NalStart = (Segments.starts 0 nals).take maxNalsInAu
  ptr : s.pu1StrmBuffer + s.u4StrmBufOffset = nals.flatten.length
  holds : Holds s.mem 0 nals.flatten

theorem AuBitstrm.Written.nil {s : AuBitstrm} (hstarts : s.apu1NalStart = [])
    (hptr : s.pu1StrmBuffer + s.u4StrmBufOffset = 0) : s.Written [] :=
  ⟨hstarts, hptr, Holds.nil⟩

theorem AuBitstrm.Written.count {s : AuBitstrm} (hw : s.Written nals) :
    s.apu1NalStart.length = min maxNalsInAu nals.length := by
  rw [hw.starts, List.length_take, Segments.starts_length]

theorem AuBitstrm.Written.congr {s t : AuBitstrm} (hw : s.Written nals)
    (hstarts : t.apu1NalStart = s.apu1NalStart)
    (hptr : t.pu1StrmBuffer + t.u4StrmBufOffset = s.pu1StrmBuffer + s.u4StrmBufOffset)
    (hmem : t.mem = s.mem) : t.Written nals :=
  ⟨hstarts.trans hw.starts, hptr.trans hw.ptr, hmem ▸ hw.holds⟩

/-- The context after `bytes` were written at its offset. -/
def AuBitstrm.putBytes (s : AuBitstrm) (bytes : List Nat) : AuBitstrm :=
  { s with
    mem := copy s.mem (s.pu1StrmBuffer + s.u4StrmBufOffset) bytes
    u4StrmBufOffset := s.u4StrmBufOffset + bytes.length }

theorem AuBitstrm.put_eq {s : AuBitstrm} (h : s.put bytes = some t) : t = s.putBytes bytes := by
  unfold AuBitstrm.put at h
  split at h
  · nomatch h
  · exact (Option.some.inj h).symm

/-- Bytes written at the offset lengthen the last NAL unit. -/
theorem AuBitstrm.Written.putBytes {s : AuBitstrm} (hw : s.Written (nals ++ [last])) :
    (s.putBytes bytes).Written (nals ++ [last ++ bytes]) := by
  have hflat : (nals ++ [last ++ bytes]).flatten = (nals ++ [last]).flatten ++ bytes := by simp
  refine ⟨?_, ?_, ?_⟩
  · refine hw.starts.trans ?_
    rw [Segments.starts_append, Segments.starts_append, Segments.starts_singleton,
      Segments.starts_singleton]
  · rw [hflat, List.length_append, ← hw.ptr]
    exact (Nat.add_assoc ..).symm
  · have hholds := hw.holds.copy_append (k := bytes)
    rw [Nat.zero_add, ← hw.ptr] at hholds
    rw [hflat]
    exact hholds

theorem AuBitstrm.Written.put {s : AuBitstrm} (hw : s.Written (nals ++ [last]))
    (h : s.put bytes = some t) : t.Written (nals ++ [last ++ bytes]) := by
  rw [AuBitstrm.put_eq h]
  exact hw.putBytes

/-- A start code begins a NAL unit. -/
theorem AuBitstrm.Written.startCode {s : AuBitstrm} (hw : s.Written nals)
    (h : ihevcePutNalStartCodePrefix s = some t) : t.Written (nals ++ [nalStartCode]) := by
  rw [AuBitstrm.put_eq h]
  have hflat : (nals ++ [nalStartCode]).flatten = nals.flatten ++ nalStartCode := by simp
  refine ⟨?_, ?_, ?_⟩
  · dsimp only [AuBitstrm.putBytes]
    rw [Segments.starts_append, Segments.starts_singleton, Segments.take_snoc, ← hw.starts,
      hw.ptr, Nat.zero_add]
  · rw [hflat, List.length_append, ← hw.ptr]
    exact (Nat.add_assoc ..).symm
  · have hholds := hw.holds.copy_append (k := nalStartCode)
    rw [Nat.zero_add, ← hw.ptr] at hholds
    rw [hflat]
    exact hholds

theorem generateNal_bind (h : generateNal s bytes = some t) :
    ∃ u, ihevcePutNalStartCodePrefix s = some u ∧ u.put bytes = some t :=
  Option.bind_eq_some_iff.mp h

theorem AuBitstrm.Written.generateNal {s : AuBitstrm} (hw : s.Written nals)
    (h : generateNal s bytes = some t) : t.Written (nals ++ [nal bytes]) := by
  obtain ⟨u, hstart, hput⟩ := generateNal_bind h
  exact (hw.startCode hstart).put hput

/-- A NAL unit moves the offset by its length and leaves the base pointer. -/
theorem generateNal_ptr (h : generateNal s bytes = some t) :
    t.pu1StrmBuffer = s.pu1StrmBuffer ∧
      t.u4StrmBufOffset = s.u4StrmBufOffset + (nal bytes).length := by
  obtain ⟨u, hstart, hput⟩ := generateNal_bind h
  rw [AuBitstrm.put_eq hput, AuBitstrm.put_eq hstart]
  refine ⟨rfl, ?_⟩
  rw [nal, List.length_append]
  exact Nat.add_assoc ..

-- ---------------------------------------------------------------------------
-- Slices
-- ---------------------------------------------------------------------------

/-- Bytes copied behind the NAL units leave them alone. -/
theorem AuBitstrm.Written.copy_behind {s : AuBitstrm} (hw : s.Written nals) (bytes : List Nat)
    (hk : s.pu1StrmBuffer + s.u4StrmBufOffset ≤ k) :
    ({ s with mem := copy s.mem k bytes } : AuBitstrm).Written nals := by
  have hptr := hw.ptr
  exact ⟨hw.starts, hw.ptr, hw.holds.copy_outside (Or.inr (by omega))⟩

/-- The slice data moved up to the end of the rewritten header. -/
theorem AuBitstrm.Written.shift {dup : AuBitstrm} (hw : dup.Written (nals ++ [last]))
    (hdata : Holds dup.mem (dup.pu1StrmBuffer + (dup.u4StrmBufOffset + gap)) data)
    (room : entryPoints.length ≤ gap) :
    cells (dup.putBytes entryPoints).mem (dup.pu1StrmBuffer + (dup.u4StrmBufOffset + gap))
        data.length = data ∧
      ((dup.putBytes entryPoints).putBytes data).Written
        (nals ++ [last ++ entryPoints ++ data]) := by
  refine ⟨Holds.cells_eq (hdata.copy_outside (Or.inl ?_)), hw.putBytes.putBytes⟩
  omega

/-- A slice leaves the base pointer, and its count of bytes leads behind its NAL unit. -/
theorem encodeSlice_spec {slice : Slice} (h : encodeSlice s slice = some (t, n))
    (hw : s.Written nals) :
    t.pu1StrmBuffer = s.pu1StrmBuffer ∧
      (t.init (t.pu1StrmBuffer + n) size).Written (nals ++ [slice.nal]) := by
  cases slice with
  | plain header data =>
    obtain ⟨u, hheader, h⟩ := Option.bind_eq_some_iff.mp h
    obtain ⟨cabac, hdata, h⟩ := Option.bind_eq_some_iff.mp h
    cases h
    have hwritten := (hw.generateNal hheader).put hdata
    rw [AuBitstrm.put_eq hdata] at hwritten ⊢
    exact ⟨(generateNal_ptr hheader).1, hwritten.congr rfl rfl rfl⟩
  | sync header placeholder data entryPoints gap room =>
    obtain ⟨dup, hheader, h⟩ := Option.bind_eq_some_iff.mp h
    obtain ⟨u, hplaceholder, h⟩ := Option.bind_eq_some_iff.mp h
    obtain ⟨cabac, hdata, h⟩ := Option.bind_eq_some_iff.mp h
    obtain ⟨dup', hpoints, h⟩ := Option.bind_eq_some_iff.mp h
    cases AuBitstrm.put_eq hplaceholder
    have hcabac := AuBitstrm.put_eq hdata
    have hmem : cabac.mem = copy (dup.putBytes placeholder).mem
        (dup.pu1StrmBuffer + (dup.u4StrmBufOffset + gap)) data := by rw [hcabac]; rfl
    have hoff : cabac.u4StrmBufOffset = dup.u4StrmBufOffset + gap + data.length := by
      rw [hcabac]; rfl
    -- The header is written before the placeholder and the data, which stand behind it
    have hdup := (hw.generateNal hheader).copy_behind placeholder (Nat.le_refl _)
    have hctx : ({ dup with mem := cabac.mem } : AuBitstrm).Written (nals ++ [nal header]) := by
      rw [hmem]
      exact hdup.copy_behind data (by simp only; omega)
    have hholds : Holds cabac.mem (dup.pu1StrmBuffer + (dup.u4StrmBufOffset + gap)) data := by
      rw [hmem]
      exact holds_copy
    obtain ⟨hcells, hwritten⟩ := AuBitstrm.Written.shift hctx hholds room
    cases AuBitstrm.put_eq hpoints
    cases h
    refine ⟨(generateNal_ptr hheader).1, hwritten.congr rfl ?_ ?_⟩
    · dsimp only [AuBitstrm.init, AuBitstrm.putBytes]
      rw [hoff]
      omega
    · dsimp only [AuBitstrm.init, AuBitstrm.putBytes] at hcells ⊢
      rw [hoff, Nat.add_sub_cancel_left, hcells]

/-- What the slice loop keeps: behind a slice the offset is zero and the bytes are counted. -/
structure SlicesWritten (st : AuBitstrm × Nat) (nals : List (List Nat)) : Prop where
  written : st.1.Written nals
  bytes : st.2 = st.1.pu1StrmBuffer

theorem SlicesWritten.step (hw : SlicesWritten st nals) (h : sliceStep size st slice = some st') :
    SlicesWritten st' (nals ++ [slice.nal]) ∧ st'.1.u4StrmBufOffset = 0 := by
  obtain ⟨⟨t, n⟩, hslice, h⟩ := Option.bind_eq_some_iff.mp h
  cases h
  obtain ⟨hbase, hwritten⟩ := encodeSlice_spec hslice hw.written
  refine ⟨⟨hwritten, ?_⟩, rfl⟩
  dsimp only [AuBitstrm.init]
  rw [hw.bytes, hbase]

theorem SlicesWritten.run {slices : List Slice} (hw : SlicesWritten st nals) (hoff : st.1.u4StrmBufOffset = 0)
    (h : slices.foldlM (sliceStep size) st = some st') :
    SlicesWritten st' (nals ++ slices.map Slice.nal) ∧ st'.1.u4StrmBufOffset = 0 := by
  induction slices generalizing st nals with
  | nil =>
    cases h
    simpa using ⟨hw, hoff⟩
  | cons slice rest ih =>
    rw [List.foldlM_cons] at h
    obtain ⟨t, hstep, hrest⟩ := Option.bind_eq_some_iff.mp h
    obtain ⟨hw', hoff'⟩ := hw.step hstep
    simpa using ih hw' hoff' hrest

-- ---------------------------------------------------------------------------
-- Around the slices
-- ---------------------------------------------------------------------------

theorem encodeAud_spec (h : encodeAud s au = some t) (hw : s.Written nals) :
    t.Written (nals ++ if au.i1AudPresentFlag then [nal au.aud] else []) ∧
      t.pu1StrmBuffer = s.pu1StrmBuffer := by
  unfold encodeAud at h
  split at h
  · rename_i haud
    exact ⟨by simpa [haud] using hw.generateNal h, (generateNal_ptr h).1⟩
  · rename_i haud
    cases h
    simpa [haud] using hw

theorem encodeParameterSets_spec (h : encodeParameterSets s au = some t) (hw : s.Written nals) :
    t.Written (nals ++ if au.insertVpsSpsPps then [nal au.vps, nal au.sps, nal au.pps] else []) ∧
      t.pu1StrmBuffer = s.pu1StrmBuffer := by
  unfold encodeParameterSets at h
  split at h
  · rename_i hinsert
    obtain ⟨u, hvps, h⟩ := Option.bind_eq_some_iff.mp h
    obtain ⟨v, hsps, hpps⟩ := Option.bind_eq_some_iff.mp h
    refine ⟨?_, (generateNal_ptr hpps).1.trans
      ((generateNal_ptr hsps).1.trans (generateNal_ptr hvps).1)⟩
    simpa [hinsert] using ((hw.generateNal hvps).generateNal hsps).generateNal hpps
  · rename_i hinsert
    cases h
    simpa [hinsert] using hw

theorem encodePrefixSei_spec (h : encodePrefixSei s au = some t) (hw : s.Written nals) :
    t.Written (nals ++
        if au.insertPrefixSei then
          (if au.i1BufPeriodParamsPresentFlag then [nal au.activeParameterSetsSei] else []) ++
            [nal au.seiMessages]
        else []) ∧
      t.pu1StrmBuffer = s.pu1StrmBuffer := by
  unfold encodePrefixSei at h
  split at h
  · rename_i hinsert
    unfold ihevceGeneratePrefixSei at h
    split at h
    · rename_i hperiod
      obtain ⟨u, hactive, hsei⟩ := Option.bind_eq_some_iff.mp h
      refine ⟨?_, (generateNal_ptr hsei).1.trans (generateNal_ptr hactive).1⟩
      simpa [hinsert, hperiod] using (hw.generateNal hactive).generateNal hsei
    · rename_i hperiod
      exact ⟨by simpa [hinsert, hperiod] using hw.generateNal h, (generateNal_ptr h).1⟩
  · rename_i hinsert
    cases h
    simpa [hinsert] using hw

/-- Behind the slices the suffix SEI is counted as far as the offset has moved. -/
theorem encodeSuffixSei_spec (h : encodeSuffixSei st au = some st')
    (hw : SlicesWritten st nals) (hoff : st.1.u4StrmBufOffset = 0) :
    st'.1.Written (nals ++ if au.insertHashSei then [nal au.hashSei] else []) ∧
      st'.2 = st'.1.pu1StrmBuffer + st'.1.u4StrmBufOffset ∧
      st'.1.u4StrmBufOffset = if au.insertHashSei then (nal au.hashSei).length else 0 := by
  unfold encodeSuffixSei at h
  unfold AccessUnit.insertHashSei
  split at h
  · rename_i hparams
    obtain ⟨u, hsei, h⟩ := Option.bind_eq_some_iff.mp h
    cases h
    split at hsei
    · rename_i hhash
      obtain ⟨hbase, hptr⟩ := generateNal_ptr hsei
      rw [hoff, Nat.zero_add] at hptr
      simpa [hparams, hhash, hbase, hptr, hw.bytes] using hw.written.generateNal hsei
    · rename_i hhash
      cases hsei
      simpa [hparams, hhash, hoff, hw.bytes] using hw.written
  · rename_i hparams
    cases h
    simpa [hparams, hoff, hw.bytes] using hw.written

/-- The end of sequence is counted with all that the offset has moved. -/
theorem encodeEos_spec (h : encodeEos st au = some st') (hw : st.1.Written nals)
    (hbytes : st.2 = st.1.pu1StrmBuffer + st.1.u4StrmBufOffset) :
    st'.1.Written (nals ++ if au.insertEos then [nal au.eos] else []) ∧
      st'.2 = st'.1.pu1StrmBuffer + st'.1.u4StrmBufOffset +
        if au.insertEos then st.1.u4StrmBufOffset else 0 := by
  unfold encodeEos at h
  split at h
  · rename_i heos
    obtain ⟨u, hnal, h⟩ := Option.bind_eq_some_iff.mp h
    cases h
    obtain ⟨hbase, hptr⟩ := generateNal_ptr hnal
    refine ⟨by simpa [heos] using hw.generateNal hnal, ?_⟩
    simp only [heos, if_true, hbase, hbytes]
    omega
  · rename_i heos
    cases h
    simpa [heos, hbytes] using hw

-- ---------------------------------------------------------------------------
-- Sizes
-- ---------------------------------------------------------------------------

/-- A table of sizes holds the lengths of the NAL units it covers. -/
theorem AuBitstrm.Written.sizes {s : AuBitstrm} (hw : s.Written nals)
    (hcount : first + num ≤ s.apu1NalStart.length)
    (hlast : 0 < num → num ≤ maxNals → first + num = nals.length) :
    populateNalSizes s first num maxNals =
      ((nals.drop first).take (min num maxNals)).map List.length := by
  rw [hw.count] at hcount
  have hlen : (nals.drop first).length = nals.length - first := List.length_drop
  refine List.ext_getElem ?_ fun ctr h h' => ?_
  · simp [populateNalSizes]
    omega
  · have hctr : ctr < min num maxNals := by simpa [populateNalSizes] using h
    simp only [populateNalSizes, List.getElem_map, List.getElem_range, List.getElem_take,
      List.getElem_drop]
    have hcovered : first + ctr < maxNalsInAu := by omega
    have hlast := hlast (by omega)
    rw [hw.starts, hw.ptr, Segments.take_getD hcovered]
    split
    · have hnext : first + ctr + 1 < maxNalsInAu := by omega
      have hinside : first + ctr + 1 < nals.length := by omega
      rw [Segments.take_getD hnext]
      exact Segments.starts_sub hinside
    · have hends : first + ctr + 1 = nals.length := by omega
      exact Segments.end_sub_starts hends

theorem nal_length_pos : 0 < (nal bytes).length := by
  rw [nal, List.length_append]
  exact Nat.add_pos_left (by decide) _

theorem Slice.nal_length_pos (slice : Slice) : 0 < slice.nal.length := by
  cases slice <;> simp [Slice.nal, nalStartCode]

theorem AccessUnit.prefixNals_length (au : AccessUnit) : au.prefixNals.length ≤ 6 := by
  unfold AccessUnit.prefixNals
  split <;> split <;> split <;> try split
  all_goals simp

theorem AccessUnit.suffixNals_length (au : AccessUnit) : au.suffixNals.length ≤ 2 := by
  unfold AccessUnit.suffixNals
  split <;> split <;> simp

/-- Every NAL unit has bytes. -/
theorem AccessUnit.nals_pos (au : AccessUnit) : ∀ l ∈ au.nals, 0 < l.length := by
  intro l hl
  simp only [AccessUnit.nals, List.mem_append] at hl
  rcases hl with (hl | hl) | hl
  · unfold AccessUnit.prefixNals at hl
    simp only [List.mem_append, List.mem_ite_nil_right, List.mem_cons, List.not_mem_nil,
      or_false] at hl
    rcases hl with (⟨_, rfl⟩ | ⟨_, rfl | rfl | rfl⟩) | ⟨_, ⟨_, rfl⟩ | rfl⟩ <;> exact nal_length_pos
  · obtain ⟨slice, -, rfl⟩ := List.mem_map.mp hl
    exact slice.nal_length_pos
  · unfold AccessUnit.suffixNals at hl
    simp only [List.mem_append, List.mem_ite_nil_right, List.mem_singleton] at hl
    rcases hl with ⟨_, rfl⟩ | ⟨_, rfl⟩ <;> exact nal_length_pos

-- ---------------------------------------------------------------------------
-- The frame
-- ---------------------------------------------------------------------------

/-- What the frame leaves: all NAL units written, and the hash SEI counted twice before an end of
sequence. The sizes are read off the contexts in front of the slices, behind them and at the end. -/
theorem ihevceEntropyEncodeFrame_spec
    (h : ihevceEntropyEncodeFrame mem au outBufSize = some out) :
    ∃ before behind : AuBitstrm,
      before.Written au.prefixNals ∧ behind.Written (au.prefixNals ++ au.vclNals) ∧
      out.bitstrm.Written au.nals ∧
      out.i4BytesGenerated = au.nals.flatten.length +
        (if au.insertHashSei && au.insertEos then (nal au.hashSei).length else 0) ∧
      (let numPrefix := before.apu1NalStart.length
       let numVcl := behind.apu1NalStart.length - numPrefix
       let numSuffix := out.bitstrm.apu1NalStart.length - (numPrefix + numVcl)
       out.ai4SizeNonVclPrefixNals =
          populateNalSizes before 0 numPrefix maxNumPrefixNalsPerAu ∧
        out.ai4SizeVclNals = populateNalSizes behind numPrefix numVcl maxNumVclNalsPerAu ∧
        out.ai4SizeNonVclSuffixNals =
          populateNalSizes out.bitstrm (numPrefix + numVcl) numSuffix maxNumSuffixNalsPerAu) := by
  obtain ⟨s₁, haud, h⟩ := Option.bind_eq_some_iff.mp h
  obtain ⟨s₂, hsets, h⟩ := Option.bind_eq_some_iff.mp h
  obtain ⟨s₃, hsei, h⟩ := Option.bind_eq_some_iff.mp h
  obtain ⟨st, hslices, h⟩ := Option.bind_eq_some_iff.mp h
  obtain ⟨st₁, hsuffix, h⟩ := Option.bind_eq_some_iff.mp h
  obtain ⟨st₂, heos, h⟩ := Option.bind_eq_some_iff.mp h
  cases h
  -- The NAL units in the order of the stream
  obtain ⟨hw₁, hbase₁⟩ := encodeAud_spec haud (AuBitstrm.Written.nil rfl rfl)
  obtain ⟨hw₂, hbase₂⟩ := encodeParameterSets_spec hsets hw₁
  obtain ⟨hw₃, hbase₃⟩ := encodePrefixSei_spec hsei hw₂
  have hbase : s₃.pu1StrmBuffer = 0 := hbase₃.trans (hbase₂.trans hbase₁)
  rw [List.foldlM_cons] at hslices
  obtain ⟨st₀, hfirst, hrest⟩ := Option.bind_eq_some_iff.mp hslices
  obtain ⟨hfirstw, hfirstoff⟩ := SlicesWritten.step ⟨hw₃, hbase.symm⟩ hfirst
  obtain ⟨hvclw, hvcloff⟩ := hfirstw.run hfirstoff hrest
  obtain ⟨hhashw, hhashbytes, hhashoff⟩ := encodeSuffixSei_spec hsuffix hvclw hvcloff
  obtain ⟨hw, hbytes⟩ := encodeEos_spec heos hhashw hhashbytes
  have hbefore : s₃.Written au.prefixNals := by simpa [AccessUnit.prefixNals] using hw₃
  have hvcl : st.1.Written (au.prefixNals ++ au.vclNals) := by
    simpa [AccessUnit.prefixNals, AccessUnit.vclNals] using hvclw.written
  have hall : st₂.1.Written au.nals := by
    simpa [AccessUnit.nals, AccessUnit.prefixNals, AccessUnit.vclNals, AccessUnit.suffixNals]
      using hw
  have hptr := hall.ptr
  refine ⟨s₃, st.1, hbefore, hvcl, hall, ?_, rfl, rfl, rfl⟩
  dsimp only
  rw [hbytes, hptr, hhashoff]
  cases au.insertHashSei <;> cases au.insertEos <;> rfl

/-- The sizes are the lengths of the NAL units, of the slices those the table has room for. -/
theorem ihevceEntropyEncodeFrame_sizes
    (h : ihevceEntropyEncodeFrame mem au outBufSize = some out)
    (hsuffix : au.prefixNals.length + au.vclNals.length < maxNalsInAu - 1 ∨
      au.suffixNals.length ≤ 1) :
    out.ai4SizeNonVclPrefixNals = au.prefixNals.map List.length ∧
      out.ai4SizeVclNals = (au.vclNals.take maxNumVclNalsPerAu).map List.length ∧
      out.ai4SizeNonVclSuffixNals = (au.suffixNals.take
        (maxNalsInAu - (au.prefixNals.length + au.vclNals.length))).map List.length := by
  obtain ⟨before, behind, hbefore, hbehind, hall, -, hprefixSizes, hvclSizes, hsuffixSizes⟩ :=
    ihevceEntropyEncodeFrame_spec h
  have hp := au.prefixNals_length
  have hq := au.suffixNals_length
  have hcount := hbefore.count
  have hcount' := hbehind.count
  have hcount'' := hall.count
  rw [List.length_append] at hcount'
  rw [AccessUnit.nals, List.length_append, List.length_append] at hcount''
  unfold maxNalsInAu at hsuffix hcount hcount' hcount''
  refine ⟨?_, ?_, ?_⟩
  · rw [hprefixSizes, hbefore.sizes (by omega) (by omega), List.drop_zero, List.take_of_length_le]
    unfold maxNumPrefixNalsPerAu
    omega
  · have hdrop : (au.prefixNals ++ au.vclNals).drop before.apu1NalStart.length = au.vclNals := by
      rw [show before.apu1NalStart.length = au.prefixNals.length by omega, List.drop_left]
    have htake : min (min (behind.apu1NalStart.length - before.apu1NalStart.length)
          maxNumVclNalsPerAu) au.vclNals.length =
        min maxNumVclNalsPerAu au.vclNals.length := by
      unfold maxNumVclNalsPerAu
      omega
    rw [hvclSizes, hbehind.sizes (by omega) ?_, hdrop, List.take_eq_take_iff.mpr htake]
    rw [List.length_append]
    unfold maxNumVclNalsPerAu
    omega
  · have hnext : before.apu1NalStart.length +
        (behind.apu1NalStart.length - before.apu1NalStart.length) =
        behind.apu1NalStart.length := by omega
    rw [hsuffixSizes, hnext, hall.sizes (by omega) ?_]
    · rcases Nat.lt_or_ge 256 (au.prefixNals.length + au.vclNals.length) with hfull | hroom
      · have hnone : out.bitstrm.apu1NalStart.length - behind.apu1NalStart.length = 0 := by omega
        have hnone' : maxNalsInAu - (au.prefixNals.length + au.vclNals.length) = 0 := by
          unfold maxNalsInAu
          omega
        rw [hnone, hnone', Nat.zero_min, List.take_zero, List.take_zero]
      · have hdrop : au.nals.drop behind.apu1NalStart.length = au.suffixNals := by
          rw [hcount', Nat.min_eq_right hroom, ← List.length_append, AccessUnit.nals,
            List.drop_left]
        have htake : min (min (out.bitstrm.apu1NalStart.length - behind.apu1NalStart.length)
              maxNumSuffixNalsPerAu) au.suffixNals.length =
            min (maxNalsInAu - (au.prefixNals.length + au.vclNals.length))
              au.suffixNals.length := by
          unfold maxNumSuffixNalsPerAu maxNalsInAu
          omega
        rw [hdrop, List.take_eq_take_iff.mpr htake]
    · rw [AccessUnit.nals, List.length_append, List.length_append]
      omega

/-- The sizes reported for an access unit are positive. -/
theorem map_length_pos {nals : List (List Nat)} (h : ∀ l ∈ nals, 0 < l.length) :
    ∀ size ∈ nals.map List.length, 0 < size := by
  intro size hsize
  obtain ⟨l, hl, rfl⟩ := List.mem_map.mp hsize
  exact h l hl

/-- The output accounts for the NAL units of the access unit exactly where no hash SEI is followed
by an end of sequence and the table of slice sizes has room for all slices. -/
theorem ihevceEntropyEncodeFrame_accounts_iff
    (h : ihevceEntropyEncodeFrame mem au outBufSize = some out) :
    out.Accounts au.nals ↔
      ¬(au.insertHashSei ∧ au.insertEos) ∧ au.slices.length + 1 ≤ maxNumVclNalsPerAu := by
  obtain ⟨-, -, -, -, hall, hbytes, -⟩ := ihevceEntropyEncodeFrame_spec h
  have hp := au.prefixNals_length
  have hq := au.suffixNals_length
  have hv : au.vclNals.length = au.slices.length + 1 := by simp [AccessUnit.vclNals]
  constructor
  · intro hacc
    have honce : ¬(au.insertHashSei ∧ au.insertEos) := by
      rintro ⟨hhash, heos⟩
      have htwice := hacc.bytes
      rw [hbytes, hhash, heos, Bool.and_self, if_pos rfl] at htwice
      have hpos : 0 < (nal au.hashSei).length := nal_length_pos
      omega
    refine ⟨honce, ?_⟩
    by_contra hmany
    have hone : au.suffixNals.length ≤ 1 := by
      unfold AccessUnit.suffixNals
      cases hhash : au.insertHashSei <;> cases heos : au.insertEos <;> simp_all
    obtain ⟨hprefixSizes, hvclSizes, hsuffixSizes⟩ :=
      ihevceEntropyEncodeFrame_sizes h (Or.inr hone)
    have hsum := hacc.sum
    rw [hacc.bytes, hprefixSizes, hvclSizes, hsuffixSizes, List.sum_append, List.sum_append,
      List.length_flatten, AccessUnit.nals, List.map_append, List.map_append, List.sum_append,
      List.sum_append] at hsum
    -- The slices that have no place in the table have bytes
    have hvcl : ((au.vclNals.take maxNumVclNalsPerAu).map List.length).sum <
        (au.vclNals.map List.length).sum := Segments.sum_take_lt
      (fun l hl => au.nals_pos l (List.mem_append_left _ (List.mem_append_right _ hl))) (by omega)
    have hsuffix : ((au.suffixNals.take
        (maxNalsInAu - (au.prefixNals.length + au.vclNals.length))).map List.length).sum ≤
        (au.suffixNals.map List.length).sum := Segments.sum_take_le
    omega
  · rintro ⟨honce, hmany⟩
    unfold maxNumVclNalsPerAu at hmany
    obtain ⟨hprefixSizes, hvclSizes, hsuffixSizes⟩ := ihevceEntropyEncodeFrame_sizes h
      (Or.inl (by unfold maxNalsInAu; omega))
    have hcounted : out.i4BytesGenerated = au.nals.flatten.length := by
      rw [hbytes, if_neg (by simpa using honce)]
      rfl
    have hsizes : out.ai4SizeNonVclPrefixNals ++ out.ai4SizeVclNals ++
        out.ai4SizeNonVclSuffixNals = au.nals.map List.length := by
      rw [hprefixSizes, hvclSizes, hsuffixSizes, List.take_of_length_le, List.take_of_length_le]
      · simp [AccessUnit.nals]
      · unfold maxNalsInAu
        omega
      · unfold maxNumVclNalsPerAu
        omega
    refine ⟨hcounted, hall.holds, ?_, ?_, ?_⟩
    · rw [hall.starts, List.take_of_length_le]
      rw [Segments.starts_length, AccessUnit.nals, List.length_append, List.length_append]
      unfold maxNalsInAu
      omega
    · rw [hsizes]
      exact map_length_pos au.nals_pos
    · rw [hsizes, hcounted, List.length_flatten]

/-- Two slices and an end of sequence in a buffer of 100 bytes, without and with a hash SEI. -/
def endOfSequence (i1DecodedPicHashSeiFlag : Nat) : AccessUnit :=
  { isISlice := false, nalType := 1, i4SpsAtCdrEnable := false, i1AudPresentFlag := true
    i1SeiParametersPresentFlag := true, i1BufPeriodParamsPresentFlag := false
    i1PicTimingParamsPresentFlag := true, i1RecoveryPointParamsPresentFlag := false
    i4SeiMasteringDispColourVolParamsPresentFlags := false, u4NumSeiPayload := 0
    i1SeiCllEnable := false, i1DecodedPicHashSeiFlag, i1EosPresentFlag := true
    i4IsEndOfIdrGop := true, aud := [0x46, 0x01, 0x50], vps := [], sps := [], pps := []
    activeParameterSetsSei := [], seiMessages := [0x4E, 0x01, 0x01, 0x01, 0x80]
    hashSei := [0x50, 0x01, 0x84, 0x05, 0x02, 0x11, 0x22, 0x33, 0x44, 0x80]
    eos := [0x48, 0x01, 0x80], firstSlice := .plain [0x02, 0x01, 0xD0] [0x12, 0x34]
    slices := [.plain [0x02, 0x01, 0x58] [0x56, 0x78, 0x9A]]
    syncAlone := by intro h; nomatch h
    restPlain := by simp [Slice.isSync] }

theorem endOfSequence_accounts :
    ∃ out, ihevceEntropyEncodeFrame (fun _ => 0) (endOfSequence 0) 100 = some out ∧
      out.Accounts (endOfSequence 0).nals := by
  obtain ⟨out, hout⟩ := Option.isSome_iff_exists.mp
    (show (ihevceEntropyEncodeFrame (fun _ => 0) (endOfSequence 0) 100).isSome by decide)
  exact ⟨out, hout, (ihevceEntropyEncodeFrame_accounts_iff hout).mpr (by decide)⟩

/-- With a hash SEI the 14 bytes of its NAL unit are counted twice. -/
theorem endOfSequence_hash_not_accounted :
    (endOfSequence 1).nals.flatten.length = 56 ∧
      (ihevceEntropyEncodeFrame (fun _ => 0) (endOfSequence 1) 100).map
        AuOutput.i4BytesGenerated = some 70 ∧
      ∀ out, ihevceEntropyEncodeFrame (fun _ => 0) (endOfSequence 1) 100 = some out →
        ¬out.Accounts (endOfSequence 1).nals := by
  have hbytes : (ihevceEntropyEncodeFrame (fun _ => 0) (endOfSequence 1) 100).map
      AuOutput.i4BytesGenerated = some 70 := by decide
  have htotal : (endOfSequence 1).nals.flatten.length = 56 := by decide
  refine ⟨htotal, hbytes, fun out hout hacc => ?_⟩
  rw [hout] at hbytes
  have hcount := Option.some.inj hbytes
  rw [hacc.bytes, htotal] at hcount
  omega

end Libhevc.Encoder
