import Libhevc.Common.Platform
import Libhevc.Spec.PicOrderCnt

/-!
# `ihevcd_calc_poc`

The decoder does not start its picture order count anew: with every coded video
sequence the most significant bits go on by two periods.
-/

namespace Libhevc.Decoder

open Spec

def nalRadlN : Nat := 6

def nalRaslR : Nat := 9

def nalRsvVclR15 : Nat := 15

def nalBlaWLp : Nat := 16

def nalBlaWDlp : Nat := 17

def nalBlaNLp : Nat := 18

def nalIdrWLp : Nat := 19

def nalIdrNLp : Nat := 20

def nalCra : Nat := 21

def nalRsvRapVcl23 : Nat := 23

/-- `nal_header_t` -/
structure NalHeader where
  i1NalUnitType : Nat
  i1NuhTemporalId : Nat

/-- What `ihevcd_calc_poc` uses of `codec_t`. -/
structure PocCodec where
  i4FirstPicDone : Bool
  i4PicPresent : Bool
  i4PrevPocMsb : Int
  i4PrevPocLsb : Int
  i4MaxPrevPocLsb : Int

/-- An IDR or BLA picture, or a CRA picture that is the first one. -/
def PocCodec.restarts (c : PocCodec) (i1NalUnitType : Nat) : Bool :=
  nalIdrNLp = i1NalUnitType ∨ nalIdrWLp = i1NalUnitType ∨ nalBlaNLp = i1NalUnitType ∨
    nalBlaWDlp = i1NalUnitType ∨ nalBlaWLp = i1NalUnitType ∨
    (nalCra = i1NalUnitType ∧ c.i4FirstPicDone = false)

def updatePrevPoc (nal : NalHeader) : Bool :=
  let isReferenceNal :=
    (nal.i1NalUnitType ≤ nalRsvVclR15 ∧ nal.i1NalUnitType % 2 ≠ 0) ∨
      (nalBlaWLp ≤ nal.i1NalUnitType ∧ nal.i1NalUnitType ≤ nalRsvRapVcl23)
  nal.i1NuhTemporalId = 0 ∧ isReferenceNal ∧
    (nal.i1NalUnitType < nalRadlN ∨ nalRaslR < nal.i1NalUnitType)

def ihevcdCalcPoc (c : PocCodec) (nal : NalHeader) (i1Log2MaxPocLsb : Nat) (i2PocLsb : Int) :
    Int × PocCodec :=
  let maxPocLsb : Int := 2 ^ i1Log2MaxPocLsb
  let c :=
    if c.i4FirstPicDone = false ∧ c.i4PicPresent = false then
      { c with i4PrevPocMsb := i32 (-2 * maxPocLsb) }
    else c
  let restarts := c.restarts nal.i1NalUnitType
  let i4PocMsb :=
    if restarts then i32 (c.i4PrevPocMsb + 2 * maxPocLsb)
    else if i2PocLsb < c.i4PrevPocLsb ∧ maxPocLsb / 2 ≤ c.i4PrevPocLsb - i2PocLsb then
      i32 (c.i4PrevPocMsb + maxPocLsb)
    else if c.i4PrevPocLsb < i2PocLsb ∧ maxPocLsb / 2 < i2PocLsb - c.i4PrevPocLsb then
      i32 (c.i4PrevPocMsb - maxPocLsb)
    else c.i4PrevPocMsb
  let c := if restarts then { c with i4PrevPocLsb := 0, i4MaxPrevPocLsb := 0 } else c
  let i4AbsPoc := i32 (i4PocMsb + i2PocLsb)
  let c := { c with i4MaxPrevPocLsb := max c.i4MaxPrevPocLsb i2PocLsb }
  let c :=
    if updatePrevPoc nal then { c with i4PrevPocLsb := i2PocLsb, i4PrevPocMsb := i4PocMsb } else c
  (i4AbsPoc, c)

/-- The first slice of a picture: its NAL unit header and `slice_pic_order_cnt_lsb`. -/
structure PicSlice where
  nal : NalHeader
  i4PicOrderCntLsb : Int

/-- `ihevcd_calc_poc` is called for one picture after the other; `ihevcd_decode` sets
`i4_first_pic_done` behind the first. -/
def calcPocs (log2MaxPocLsb : Nat) : PocCodec → List PicSlice → List Int × PocCodec
  | c, [] => ([], c)
  | c, pic :: pics =>
    let poc := ihevcdCalcPoc c pic.nal log2MaxPocLsb pic.i4PicOrderCntLsb
    let rest := calcPocs log2MaxPocLsb { poc.2 with i4FirstPicDone := true } pics
    (poc.1 :: rest.1, rest.2)

-- ---------------------------------------------------------------------------
-- Coded video sequences
-- ---------------------------------------------------------------------------

/-- The pictures from one that starts a coded video sequence to the next. -/
structure CodedSeq where
  first : PicSlice
  rest : List PicSlice

/-- As the specification sees the picture. -/
def PicSlice.picture (pic : PicSlice) : Picture :=
  { lsb := pic.i4PicOrderCntLsb
    tid0 := pic.nal.i1NuhTemporalId = 0 ∧
      ¬(nalRadlN ≤ pic.nal.i1NalUnitType ∧ pic.nal.i1NalUnitType ≤ nalRaslR) ∧
      ¬(pic.nal.i1NalUnitType < nalRsvVclR15 ∧ pic.nal.i1NalUnitType % 2 = 0) }

def CodedSeq.cvs (seq : CodedSeq) : Cvs :=
  { first := seq.first.i4PicOrderCntLsb, rest := seq.rest.map PicSlice.picture }

/-- IDR and BLA pictures start a sequence, and a CRA picture starts the first one; they are of
temporal layer 0. The others are trailing, leading or CRA pictures. -/
structure CodedSeq.Valid (isFirst : Bool) (seq : CodedSeq) : Prop where
  first : nalBlaWLp ≤ seq.first.nal.i1NalUnitType ∧ seq.first.nal.i1NalUnitType ≤ nalIdrNLp ∨
    seq.first.nal.i1NalUnitType = nalCra ∧ isFirst = true
  layer : seq.first.nal.i1NuhTemporalId = 0
  rest : ∀ pic ∈ seq.rest, pic.nal.i1NalUnitType ≤ nalRaslR ∨ pic.nal.i1NalUnitType = nalCra

/-- The calls for the pictures of each sequence. -/
def calcPocsSeqs (log2MaxPocLsb : Nat) : PocCodec → List CodedSeq → List (List Int)
  | _, [] => []
  | c, seq :: seqs =>
    let run := calcPocs log2MaxPocLsb c (seq.first :: seq.rest)
    run.1 :: calcPocsSeqs log2MaxPocLsb run.2 seqs

/-- A count and its most significant bits fit in 32 bits. -/
def Fits32 (start : Int) (count : Int × Int) : Prop :=
  (-2 ^ 31 ≤ start + count.1 ∧ start + count.1 < 2 ^ 31) ∧
    -2 ^ 31 ≤ start + (count.1 + count.2) ∧ start + (count.1 + count.2) < 2 ^ 31

theorem updatePrevPoc_eq (pic : PicSlice)
    (h : pic.nal.i1NalUnitType ≤ nalRaslR ∨ pic.nal.i1NalUnitType = nalCra) :
    updatePrevPoc pic.nal = pic.picture.tid0 := by
  unfold nalRaslR nalCra at h
  unfold updatePrevPoc PicSlice.picture nalRsvVclR15 nalBlaWLp nalRsvRapVcl23 nalRadlN nalRaslR
  rw [Bool.eq_iff_iff]
  simp only [decide_eq_true_eq]
  omega

/-- The codec is `start` ahead of the specification. -/
structure PocCodec.Ahead (start : Int) (prev : PrevTid0) (c : PocCodec) : Prop where
  done : c.i4FirstPicDone = true
  msb : c.i4PrevPocMsb = start + prev.msb
  lsb : c.i4PrevPocLsb = prev.lsb

theorem PocCodec.Ahead.calcPoc {c : PocCodec} (h : c.Ahead start prev) (pic : PicSlice)
    (htype : pic.nal.i1NalUnitType ≤ nalRaslR ∨ pic.nal.i1NalUnitType = nalCra)
    (hfits : Fits32 start (picOrderCntMsb (2 ^ log2) prev pic.i4PicOrderCntLsb,
      pic.i4PicOrderCntLsb)) :
    let poc := ihevcdCalcPoc c pic.nal log2 pic.i4PicOrderCntLsb
    let msb := picOrderCntMsb (2 ^ log2) prev pic.i4PicOrderCntLsb
    poc.1 = start + (msb + pic.i4PicOrderCntLsb) ∧
      PocCodec.Ahead start (prev.next msb pic.picture) { poc.2 with i4FirstPicDone := true } := by
  have hno : c.restarts pic.nal.i1NalUnitType = false := by
    unfold PocCodec.restarts nalIdrNLp nalIdrWLp nalBlaNLp nalBlaWDlp nalBlaWLp
    unfold nalRaslR nalCra at htype
    rw [h.done]
    simp only [decide_eq_false_iff_not]
    simp
    omega
  obtain ⟨⟨hlo, hhi⟩, hlo', hhi'⟩ := hfits
  have hmsb : (if pic.i4PicOrderCntLsb < prev.lsb ∧ (2 : Int) ^ log2 / 2 ≤
        prev.lsb - pic.i4PicOrderCntLsb then i32 (start + prev.msb + 2 ^ log2)
      else if prev.lsb < pic.i4PicOrderCntLsb ∧ (2 : Int) ^ log2 / 2 <
        pic.i4PicOrderCntLsb - prev.lsb then i32 (start + prev.msb - 2 ^ log2)
      else start + prev.msb) = start + picOrderCntMsb (2 ^ log2) prev pic.i4PicOrderCntLsb := by
    unfold picOrderCntMsb at hlo hhi ⊢
    dsimp only at hlo hhi
    split_ifs at hlo hhi ⊢
    · rw [i32_of_bounds (by omega) (by omega), Int.add_assoc]
    · rw [i32_of_bounds (by omega) (by omega), Int.add_sub_assoc]
    · rfl
  unfold ihevcdCalcPoc PrevTid0.next
  dsimp only
  rw [h.done]
  simp only [Bool.true_eq_false, Bool.false_eq_true, false_and, if_false, hno, h.msb, h.lsb,
    updatePrevPoc_eq pic htype, hmsb]
  rw [Int.add_assoc, i32_of_bounds hlo' hhi']
  refine ⟨rfl, ?_⟩
  split
  · exact ⟨rfl, rfl, rfl⟩
  · exact ⟨rfl, rfl, rfl⟩

theorem PocCodec.Ahead.calcPocs {c : PocCodec} (h : c.Ahead start prev) {pics : List PicSlice}
    (htype : ∀ pic ∈ pics, pic.nal.i1NalUnitType ≤ nalRaslR ∨ pic.nal.i1NalUnitType = nalCra)
    (hfits : ∀ count ∈ picOrderCnts (2 ^ log2) prev (pics.map PicSlice.picture),
      Fits32 start count) :
    (calcPocs log2 c pics).1 = (picOrderCnts (2 ^ log2) prev (pics.map PicSlice.picture)).map
        (fun count => start + (count.1 + count.2)) ∧
      (calcPocs log2 c pics).2.Ahead start
        (lastTid0 (2 ^ log2) prev (pics.map PicSlice.picture)) := by
  induction pics generalizing c prev with
  | nil => exact ⟨rfl, h⟩
  | cons pic pics ih =>
    obtain ⟨htype, htypes⟩ := List.forall_mem_cons.mp htype
    obtain ⟨hfit, hfits⟩ := List.forall_mem_cons.mp hfits
    obtain ⟨hpoc, hnext⟩ := h.calcPoc pic htype hfit
    obtain ⟨hpocs, hlast⟩ := ih hnext htypes hfits
    refine ⟨?_, hlast⟩
    rw [Decoder.calcPocs, List.map_cons, picOrderCnts, List.map_cons]
    exact congrArg₂ List.cons hpoc hpocs

/-- What the most significant bits of the first picture of a sequence are. -/
def PocCodec.nextStart (c : PocCodec) (log2MaxPocLsb : Nat) : Int :=
  if c.i4FirstPicDone then c.i4PrevPocMsb + 2 * 2 ^ log2MaxPocLsb else 0

theorem CodedSeq.Valid.calcPoc {seq : CodedSeq} {c : PocCodec}
    (h : seq.Valid (!c.i4FirstPicDone)) (hpresent : c.i4FirstPicDone = false → c.i4PicPresent = false)
    (hlog2 : log2 ≤ 16) (hfits : Fits32 (c.nextStart log2) (0, seq.first.i4PicOrderCntLsb)) :
    let poc := ihevcdCalcPoc c seq.first.nal log2 seq.first.i4PicOrderCntLsb
    poc.1 = c.nextStart log2 + (0 + seq.first.i4PicOrderCntLsb) ∧
      PocCodec.Ahead (c.nextStart log2) ⟨0, seq.first.i4PicOrderCntLsb⟩
        { poc.2 with i4FirstPicDone := true } := by
  have hrestarts : ∀ c' : PocCodec, c'.i4FirstPicDone = c.i4FirstPicDone →
      c'.restarts seq.first.nal.i1NalUnitType = true := by
    intro c' hc'
    have hfirst := h.first
    unfold PocCodec.restarts
    unfold nalIdrNLp nalIdrWLp nalBlaNLp nalBlaWDlp nalBlaWLp nalCra at *
    rw [hc']
    simp only [decide_eq_true_eq, Bool.not_eq_true'] at hfirst ⊢
    rcases hfirst with hrange | hcra
    · omega
    · exact .inr (.inr (.inr (.inr (.inr ⟨hcra.1.symm, hcra.2⟩))))
  have hupdate : updatePrevPoc seq.first.nal = true := by
    have hfirst := h.first
    unfold updatePrevPoc
    unfold nalRsvVclR15 nalBlaWLp nalRsvRapVcl23 nalRadlN nalRaslR nalIdrNLp nalCra at *
    simp only [decide_eq_true_eq]
    exact ⟨h.layer, by omega, by omega⟩
  have hpow : (2 : Int) ^ log2 ≤ 2 ^ 16 := by
    exact_mod_cast Nat.pow_le_pow_right (by decide) hlog2
  have hpos : (0 : Int) ≤ 2 ^ log2 := by
    exact_mod_cast Nat.zero_le (2 ^ log2)
  obtain ⟨⟨hlo, hhi⟩, hlo', hhi'⟩ := hfits
  unfold PocCodec.nextStart at *
  unfold ihevcdCalcPoc
  dsimp only
  rw [hupdate]
  cases hdone : c.i4FirstPicDone with
  | false =>
    rw [hpresent hdone]
    rw [hdone] at hlo hhi hlo' hhi'
    simp only [true_and, if_true, Bool.false_eq_true, if_false] at hlo hhi hlo' hhi' ⊢
    rw [hrestarts _ hdone.symm]
    simp only [if_true]
    have hmsb : i32 (i32 (-2 * 2 ^ log2) + 2 * 2 ^ log2) = 0 := by
      rw [i32_of_bounds (x := -2 * 2 ^ log2) (by omega) (by omega)]
      rw [i32_of_bounds (by omega) (by omega)]
      omega
    rw [hmsb, i32_of_bounds (by omega) (by omega)]
    exact ⟨(Int.zero_add _).symm, rfl, rfl, rfl⟩
  | true =>
    rw [hdone] at hlo hhi hlo' hhi'
    simp only [if_true] at hlo hhi hlo' hhi'
    simp only [Bool.true_eq_false, false_and, if_false, hrestarts c rfl, if_true]
    rw [i32_of_bounds (x := c.i4PrevPocMsb + 2 * 2 ^ log2) (by omega) (by omega),
      i32_of_bounds (by omega) (by omega)]
    exact ⟨by omega, rfl, (Int.add_zero _).symm, rfl⟩

-- ---------------------------------------------------------------------------
-- Streams
-- ---------------------------------------------------------------------------

/-- The sequences of a stream, or of what is left of it. -/
def StreamValid : Bool → List CodedSeq → Prop
  | _, [] => True
  | isFirst, seq :: seqs => seq.Valid isFirst ∧ StreamValid false seqs

/-- On the scale of `shiftedVals` every count fits in 32 bits. -/
def StreamFits (maxLsb : Int) : Int → List Cvs → Prop
  | _, [] => True
  | start, cvs :: rest =>
    (∀ count ∈ cvs.counts maxLsb, Fits32 start count) ∧
      StreamFits maxLsb (start + cvs.lastMsb maxLsb + 2 * maxLsb) rest

theorem calcPocsSeqs_eq {c : PocCodec} {seqs : List CodedSeq}
    (hvalid : StreamValid (!c.i4FirstPicDone) seqs)
    (hpresent : c.i4FirstPicDone = false → c.i4PicPresent = false) (hlog2 : log2 ≤ 16)
    (hfits : StreamFits (2 ^ log2) (c.nextStart log2) (seqs.map CodedSeq.cvs)) :
    calcPocsSeqs log2 c seqs =
      shiftedVals (2 ^ log2) (c.nextStart log2) (seqs.map CodedSeq.cvs) := by
  induction seqs generalizing c with
  | nil => rfl
  | cons seq seqs ih =>
    obtain ⟨hseq, hseqs⟩ := hvalid
    obtain ⟨hcounts, hrest⟩ := hfits
    obtain ⟨hfirst, hothers⟩ := List.forall_mem_cons.mp hcounts
    obtain ⟨hpoc, hahead⟩ := hseq.calcPoc hpresent hlog2 hfirst
    obtain ⟨hpocs, hlast⟩ := hahead.calcPocs hseq.rest hothers
    have hstart : (calcPocs log2 c (seq.first :: seq.rest)).2.nextStart log2 =
        c.nextStart log2 + seq.cvs.lastMsb (2 ^ log2) + 2 * 2 ^ log2 := by
      rw [PocCodec.nextStart, calcPocs, hlast.done, if_pos rfl, hlast.msb]
      rfl
    have hdone : (calcPocs log2 c (seq.first :: seq.rest)).2.i4FirstPicDone = true := hlast.done
    rw [calcPocsSeqs, List.map_cons, shiftedVals]
    refine congrArg₂ List.cons ?_ ?_
    · rw [calcPocs, Cvs.picOrderCntVals, Cvs.counts, List.map_cons, List.map_cons, List.map_map]
      exact congrArg₂ List.cons hpoc hpocs
    · rw [← hstart] at hrest ⊢
      refine ih ?_ ?_ hrest
      · rw [hdone]
        exact hseqs
      · rw [hdone]
        exact fun h => by contradiction

/-- The codec before the first picture. -/
structure PocCodec.Start (c : PocCodec) : Prop where
  first : c.i4FirstPicDone = false
  present : c.i4PicPresent = false

/-- In a stream whose counts fit in 32 bits, the counts of a sequence are those of the specification
and a constant; and they are above those of all sequences before exactly when, two periods above
the most significant bits at the end of a sequence, every next sequence is above it. -/
theorem poc_over_runs {c : PocCodec} (hc : c.Start) (hlog2 : log2 ≤ 16)
    (hvalid : StreamValid true seqs)
    (hfits : StreamFits (2 ^ log2) 0 (seqs.map CodedSeq.cvs)) :
    List.Forall₂
        (fun pocs cvs => ∃ ahead, pocs = (cvs.picOrderCntVals (2 ^ log2)).map (ahead + ·))
        (calcPocsSeqs log2 c seqs) (seqs.map CodedSeq.cvs) ∧
      ((calcPocsSeqs log2 c seqs).Pairwise Below ↔
        (seqs.map CodedSeq.cvs).IsChain (NextAbove (2 ^ log2))) := by
  have hstart : c.nextStart log2 = 0 := by
    rw [PocCodec.nextStart, hc.first]
    rfl
  rw [← hstart] at hfits
  rw [calcPocsSeqs_eq (by rw [hc.first]; exact hvalid) (fun _ => hc.present) hlog2 hfits]
  exact ⟨shiftedVals_shifted _ _ _, shiftedVals_ordered_iff _ _ _⟩

def initialPocCodec : PocCodec :=
  { i4FirstPicDone := false
    i4PicPresent := false
    i4PrevPocMsb := 0
    i4PrevPocLsb := 0
    i4MaxPrevPocLsb := 0 }

def idrSlice : PicSlice := ⟨⟨nalIdrWLp, 0⟩, 0⟩

/-- `NAL_TRAIL_R` in temporal layer 0. -/
def trailSlice (lsb : Int) : PicSlice := ⟨⟨1, 0⟩, lsb⟩

/-- Two sequences with periods of 16. -/
def ascendingStream : List CodedSeq :=
  [⟨idrSlice, [trailSlice 7, trailSlice 14, trailSlice 5]⟩, ⟨idrSlice, [trailSlice 4]⟩]

theorem ascendingStream_valid : StreamValid true ascendingStream := by
  refine ⟨⟨by decide, by decide, by decide⟩, ⟨by decide, by decide, by decide⟩, trivial⟩

theorem poc_over_runs_ascending :
    List.Forall₂
        (fun pocs cvs => ∃ ahead, pocs = (cvs.picOrderCntVals (2 ^ 4)).map (ahead + ·))
        (calcPocsSeqs 4 initialPocCodec ascendingStream) (ascendingStream.map CodedSeq.cvs) ∧
      ((calcPocsSeqs 4 initialPocCodec ascendingStream).Pairwise Below ↔
        (ascendingStream.map CodedSeq.cvs).IsChain (NextAbove (2 ^ 4))) := by
  refine poc_over_runs ⟨rfl, rfl⟩ (by decide) ascendingStream_valid ⟨?_, ?_, trivial⟩
  · unfold Fits32
    decide
  · unfold Fits32
    decide

/-- The count rises to 42 and is down to 6 when the next sequence starts. -/
def descendingStream : List CodedSeq :=
  [⟨idrSlice, [7, 14, 5, 12, 3, 10, 4, 14, 8, 2, 12, 6].map trailSlice⟩, ⟨idrSlice, []⟩]

/-- The next sequence starts at 32. -/
theorem descendingStream_not_ordered :
    StreamValid true descendingStream ∧
      (∀ cvs ∈ descendingStream.map CodedSeq.cvs, cvs.HalfRange (2 ^ 4)) ∧
      ¬(calcPocsSeqs 4 initialPocCodec descendingStream).Pairwise Below := by
  refine ⟨⟨⟨by decide, by decide, by decide⟩, ⟨by decide, by decide, by decide⟩, trivial⟩, ?_, ?_⟩
  · unfold Cvs.HalfRange
    decide
  · intro h
    have hpocs : calcPocsSeqs 4 initialPocCodec descendingStream =
        [[0, 7, 14, 21, 28, 35, 42, 36, 30, 24, 18, 12, 6], [32]] := by decide
    rw [hpocs] at h
    have := (List.pairwise_cons.mp h).1 [32] (by decide) 42 (by decide) 32 (by decide)
    contradiction

end Libhevc.Decoder
