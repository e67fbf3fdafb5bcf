import Libhevc.Decoder.Nal
import Libhevc.Encoder.BitstreamLaws

/-!
# Unescaping what the encoder escaped

The main loop of `ihevcd_nal_remv_emuln_bytes` takes one payload byte a round.
Before a start code it recovers every payload; at the end of the buffer the
tail case drops a last byte above 3 that follows two zeros.
-/

namespace Libhevc.RoundTrip

open Memory Escape Encoder Decoder

/-- The zero run the main loop remembers in front of `left`: an escape byte is skipped as soon
as it is seen, and the run starts again. -/
def seenRun (run : Nat) : List Nat → Nat
  | [] => run
  | b :: _ => if run = 2 ∧ b ≤ 3 then 0 else run

/-- The decoder has taken `taken` from an escaped payload and `left` remains, up to byte `e`. -/
structure Taken (src : Nat → Nat) (e : Nat) (taken left : List Nat) (s : NalRemv) : Prop where
  notFound : s.startCodeFound = false
  dstCnt : s.dstCnt = taken.length
  dst : Holds s.pu1Dst 0 taken
  zeros : s.zeroByteCnt = seenRun (zeroRun 0 (epb.escape 0 taken)) left
  held : Holds src s.srcCnt (epb.escape s.zeroByteCnt left)
  reach : s.srcCnt + (epb.escape s.zeroByteCnt left).length = e

theorem put_seenRun :
    zeroRun run (epb.put run b) = step (seenRun run (b :: l)) b := by
  by_cases h : run = 2 ∧ b ≤ 3
  · rw [put_escaped h.1 h.2, seenRun, if_pos h]
    rfl
  · rw [put_plain h, seenRun, if_neg h]
    rfl

theorem Taken.run_snoc (h : Taken src e taken (b :: l) s) :
    zeroRun 0 (epb.escape 0 (taken ++ [b])) = step s.zeroByteCnt b := by
  rw [escape_snoc, zeroRun_append, put_seenRun, ← h.zeros]

/-- The escaped form of a byte whose escape, if it has one, has been skipped. -/
theorem escape_seenRun :
    epb.escape (seenRun run (b :: l)) (b :: l) = b :: epb.escape (step (seenRun run (b :: l)) b) l := by
  have hp : epb.put (seenRun run (b :: l)) b = [b] := by
    refine put_plain ?_
    rw [seenRun]
    simp only [epb, epbZeroBytes]
    split <;> omega
  rw [Scheme.escape, hp]
  rfl

theorem escape_escaped (h : b ≤ 3) : epb.escape 2 (b :: l) = 3 :: epb.escape 0 (b :: l) := by
  have hp : epb.put 2 b = [3, b] := put_escaped rfl h
  have h0 : epb.put 0 b = [b] := put_plain (by simp [epb, epbZeroBytes])
  rw [Scheme.escape, Scheme.escape, hp, h0]
  rfl

theorem Taken.dst_snoc (h : Taken src e taken left s) (b : Nat) :
    Holds (s.copy b).pu1Dst 0 (taken ++ [b]) := by
  have := h.dst.set_snoc (v := b)
  rwa [Nat.zero_add, ← h.dstCnt] at this

theorem Taken.dstCnt_snoc (h : Taken src e taken left s) (b : Nat) :
    (s.copy b).dstCnt = (taken ++ [b]).length := by
  simp [NalRemv.copy, h.dstCnt]

/-- One round of the main loop takes one payload byte. -/
theorem Taken.round (h : Taken src e taken (b :: l) s) (hlast : b = 0 → l ≠ []) :
    Taken src e (taken ++ [b]) l (nalRemvStep src s) := by
  have hsrc := h.held
  have hcnt := h.reach
  have hrun := h.run_snoc
  have hplain : epb.escape s.zeroByteCnt (b :: l) = b :: epb.escape (step s.zeroByteCnt b) l := by
    rw [h.zeros, escape_seenRun]
  rw [hplain] at hsrc hcnt
  obtain ⟨hb, hrest⟩ := Holds.cons.mp hsrc
  rw [List.length_cons] at hcnt
  by_cases hb0 : b = 0
  · obtain ⟨c, l', rfl⟩ := List.exists_cons_of_ne_nil (hlast hb0)
    subst hb0
    rw [step_zero] at hrest hcnt hrun
    have hseen : seenRun (s.zeroByteCnt + 1) (c :: l') =
        if s.zeroByteCnt + 1 = 2 ∧ c ≤ 3 then 0 else s.zeroByteCnt + 1 := rfl
    by_cases hc : s.zeroByteCnt + 1 = 2 ∧ c ≤ 3
    · -- the next payload byte is escaped: its escape byte is skipped in this round
      rw [if_pos hc] at hseen
      rw [hc.1, escape_escaped hc.2] at hrest hcnt
      obtain ⟨h3, hrest⟩ := Holds.cons.mp hrest
      rw [List.length_cons] at hcnt
      rw [nalRemvStep_escape hb (by omega) h3]
      exact ⟨h.notFound, h.dstCnt_snoc 0, h.dst_snoc 0, by rw [hrun, hseen], hrest,
        by simp only; omega⟩
    · rw [if_neg hc] at hseen
      have hnext : 2 ≤ s.zeroByteCnt + 1 → src (s.srcCnt + 1) ≠ 1 ∧ src (s.srcCnt + 1) ≠ 3 := by
        intro h2
        have hle := zeroRun_escape_le (S := epb) (l := taken ++ [0]) (Nat.zero_le _)
        have hlim : epb.limit = 2 := rfl
        rw [← hseen, escape_seenRun] at hrest
        rw [(Holds.cons.mp hrest).1]
        omega
      rw [nalRemvStep_zero hb hnext]
      exact ⟨h.notFound, h.dstCnt_snoc 0, h.dst_snoc 0, by rw [hrun, hseen], hrest,
        by simp only [NalRemv.copy]; omega⟩
  · rw [step_pos (by omega)] at hrest hcnt hrun
    have hseen : seenRun 0 l = 0 := by
      cases l <;> rfl
    rw [nalRemvStep_nonzero hb hb0]
    exact ⟨h.notFound, h.dstCnt_snoc b, h.dst_snoc b, by rw [hrun, hseen], hrest,
      by simp only [NalRemv.copy]; omega⟩

/-- Rounds of the main loop take a payload, as long as the buffer goes on after it. -/
theorem Taken.loop (h : Taken src e taken left s) (hleft : left = l ++ m)
    (he : e < n + m.length) (hlast : left.getLast? ≠ some 0) :
    ∃ s', Taken src e (taken ++ l) m s' ∧
      ∀ rounds, nalRemvLoop src n (l.length + rounds) s = nalRemvLoop src n rounds s' := by
  subst hleft
  induction l generalizing taken s with
  | nil => exact ⟨s, by simpa using h, by simp⟩
  | cons b l ih =>
    have hround : Taken src e (taken ++ [b]) (l ++ m) (nalRemvStep src s) := by
      refine h.round fun hb (hnil : l ++ m = []) => hlast ?_
      simp only [List.cons_append, hnil, hb]
      rfl
    have hlast' : (l ++ m).getLast? ≠ some 0 := by
      intro h0
      apply hlast
      rw [List.cons_append, List.getLast?_cons, h0]
      rfl
    obtain ⟨s', hs', hloop⟩ := ih hround hlast'
    refine ⟨s', by simpa using hs', fun rounds => ?_⟩
    have hin : s.srcCnt < n - 1 := by
      have hcnt := h.reach
      have hlen := (length_escape (S := epb) s.zeroByteCnt (b :: l ++ m)).1
      simp only [List.length_append, List.length_cons] at hlen
      omega
    rw [List.length_cons, Nat.add_right_comm, nalRemvLoop, if_pos ⟨hin, h.notFound⟩, hloop]

-- ---------------------------------------------------------------------------
-- A start code ends the payload
-- ---------------------------------------------------------------------------

/-- The main loop over `z` zeros and a byte 1 gives the zeros back and stops. -/
theorem loop_startCode (hz : 2 ≤ s.zeroByteCnt + z) (hpos : 0 < z)
    (hfound : s.startCodeFound = false) (hn : s.srcCnt + z < n)
    (hsrc : Holds src s.srcCnt (List.replicate z 0 ++ [1])) (hrounds : z < r) :
    let s' := nalRemvLoop src n r s
    s'.startCodeFound = true ∧ s'.srcCnt = s.srcCnt - s.zeroByteCnt ∧
      s'.dstCnt = s.dstCnt - s.zeroByteCnt ∧ ∀ i < s.dstCnt, s'.pu1Dst i = s.pu1Dst i := by
  induction z generalizing s r with
  | zero => omega
  | succ z ih =>
    obtain ⟨rounds, rfl⟩ := Nat.exists_eq_add_of_lt (Nat.lt_of_le_of_lt (Nat.zero_le _) hrounds)
    rw [List.replicate_succ, List.cons_append] at hsrc
    obtain ⟨h0, hrest⟩ := Holds.cons.mp hsrc
    rw [Nat.zero_add, nalRemvLoop, if_pos ⟨by omega, hfound⟩]
    by_cases hz0 : z = 0
    · -- the last zero: the start code prefix byte is seen
      subst hz0
      rw [nalRemvStep_startCode h0 (by omega) (by simpa using hrest)]
      obtain ⟨rounds, rfl⟩ : ∃ k, rounds = k + 1 := ⟨rounds - 1, by omega⟩
      rw [nalRemvLoop, if_neg (by simp)]
      refine ⟨rfl, by simp only; omega, by simp only; omega, ?_⟩
      intro i hi
      exact set_ne (by omega)
    · obtain ⟨z, rfl⟩ : ∃ k, z = k + 1 := ⟨z - 1, by omega⟩
      have hnext : src (s.srcCnt + 1) = 0 := by
        rw [List.replicate_succ, List.cons_append] at hrest
        exact (Holds.cons.mp hrest).1
      rw [nalRemvStep_zero h0 fun _ => by omega]
      obtain ⟨hf, hs, hd, hkeep⟩ := ih (r := rounds)
        (s := { s.copy 0 with zeroByteCnt := s.zeroByteCnt + 1 })
        (by simp only; omega) (by omega) hfound (by simp only [NalRemv.copy]; omega) hrest
        (by omega)
      refine ⟨hf, by rw [hs]; simp only [NalRemv.copy]; omega,
        by rw [hd]; simp only [NalRemv.copy]; omega, fun i hi => ?_⟩
      rw [hkeep i (by simp only [NalRemv.copy]; omega)]
      exact set_ne (by omega)

-- ---------------------------------------------------------------------------
-- Whole runs
-- ---------------------------------------------------------------------------

/-- The run gave `payload` back from the first `nalLen` bytes. -/
structure Yields (r : NalRemv) (payload : List Nat) (nalLen : Nat) : Prop where
  dst : Holds r.pu1Dst 0 payload
  dstLen : r.dstCnt = payload.length
  nalLen : r.srcCnt = nalLen

theorem taken_init (pu1Dst : Nat → Nat) (hsrc : Holds src 0 (epb.escape 0 payload)) :
    Taken src (epb.escape 0 payload).length [] payload
      { srcCnt := 0, dstCnt := 0, zeroByteCnt := 0, startCodeFound := false, pu1Dst } := by
  have hseen : seenRun 0 payload = 0 := by
    cases payload <;> rfl
  exact ⟨rfl, rfl, by simp, hseen.symm, hsrc, by simp⟩

theorem zeroRun_escape_last (hlast : payload.getLast? ≠ some 0) :
    zeroRun 0 (epb.escape 0 payload) = 0 := by
  rcases payload.eq_nil_or_concat with rfl | ⟨l, b, rfl⟩
  · rfl
  · have hb : b ≠ 0 := by simpa using hlast
    rw [List.concat_eq_append, escape_snoc, zeroRun_append, put_seenRun (l := []),
      step_pos (by omega)]

/-- Before a start code, with any number of zeros in front, every payload is recovered. -/
theorem yields_before_startCode (hlast : payload.getLast? ≠ some 0)
    (hsrc : Holds src 0 (epb.escape 0 payload ++ List.replicate k 0 ++ [0, 0, 1]))
    (hn : (epb.escape 0 payload).length + k + 3 ≤ n) :
    Yields (ihevcdNalRemvEmulnBytes src dst n) payload (epb.escape 0 payload).length := by
  have hzeros : List.replicate k 0 ++ [0, 0, 1] = List.replicate (k + 2) 0 ++ [1] := by
    simp [List.replicate_add]
  rw [List.append_assoc, hzeros, Holds.append, Nat.zero_add] at hsrc
  obtain ⟨hesc, hstart⟩ := hsrc
  obtain ⟨s, hs, hloop⟩ := (taken_init dst hesc).loop (n := n)
    (List.append_nil payload).symm (by simp only [List.length_nil]; omega) hlast
  have hreach : s.srcCnt = (epb.escape 0 payload).length := by simpa using hs.reach
  have hzero : s.zeroByteCnt = 0 := hs.zeros.trans (zeroRun_escape_last hlast)
  have hlen := (length_escape (S := epb) 0 payload).1
  obtain ⟨rounds, rfl⟩ : ∃ k, n = payload.length + k := ⟨n - payload.length, by omega⟩
  obtain ⟨hfound, hcnt, hdst, hkeep⟩ := loop_startCode (n := payload.length + rounds)
    (r := rounds) (z := k + 2) (by omega) (by omega) hs.notFound (by omega)
    (hreach ▸ hstart) (by omega)
  rw [ihevcdNalRemvEmulnBytes, hloop, nalRemvTail, if_neg (by simp [hfound])]
  refine ⟨hs.dst.congr fun i hi => ?_, ?_, ?_⟩
  · rw [Nat.zero_add]
    exact hkeep i (by rw [hs.dstCnt]; exact hi)
  · rw [hdst, hzero, hs.dstCnt]
    rfl
  · rw [hcnt, hzero, hreach]
    rfl

/-- Alone in the buffer, the escaped payload is recovered unless two zeros and a byte above 3
end it; then the last byte is dropped. -/
theorem alone (dst : Nat → Nat) (hb : b ≠ 0) (hsrc : Holds src 0 (epb.escape 0 (l ++ [b]))) :
    let r := ihevcdNalRemvEmulnBytes src dst (epb.escape 0 (l ++ [b])).length
    if zeroRun 0 (epb.escape 0 l) = 2 ∧ 3 < b then
      Yields r l (epb.escape 0 (l ++ [b])).length
    else Yields r (l ++ [b]) (epb.escape 0 (l ++ [b])).length := by
  set n := (epb.escape 0 (l ++ [b])).length with hn
  obtain ⟨s, hs, hloop⟩ := (taken_init dst hsrc).loop (n := n)
    (l := l) (m := [b]) rfl (by simp [← hn]) (by simpa using hb)
  have hseen := hs.zeros
  have hheld := hs.held
  have hreach := hs.reach
  rw [hseen, escape_seenRun] at hheld hreach
  simp only [escape_nil, List.length_singleton, List.nil_append, Holds.singleton] at hheld hreach
  have hlen := (length_escape (S := epb) 0 (l ++ [b])).1
  rw [List.length_append, List.length_singleton, ← hn] at hlen
  obtain ⟨rounds, hrounds⟩ : ∃ k, n = l.length + (k + 1) := ⟨n - l.length - 1, by omega⟩
  have hstop : nalRemvLoop src n (rounds + 1) s = s := by
    rw [nalRemvLoop, if_neg (by omega)]
  have hl := hloop (rounds + 1)
  rw [← hrounds, hstop] at hl
  have hin : s.startCodeFound = false ∧ s.srcCnt < n := ⟨hs.notFound, by omega⟩
  rw [ihevcdNalRemvEmulnBytes, hl, nalRemvTail, if_pos hin, hheld]
  have hle := zeroRun_escape_le (S := epb) (l := l) (Nat.zero_le _)
  have hlim : epb.limit = 2 := rfl
  simp only [List.nil_append, seenRun] at hseen
  by_cases hdrop : zeroRun 0 (epb.escape 0 l) = 2 ∧ 3 < b
  · -- the tail case sees two zeros and copies nothing
    rw [if_neg (by omega)] at hseen
    rw [if_pos hdrop, if_pos (by simp only [numZerosBeforeStartCode]; omega),
      if_neg (by simp only [startCodePrefixByte]; omega),
      if_neg (by simp only [emulationPreventByte]; omega)]
    exact ⟨by simpa using hs.dst, by simpa using hs.dstCnt, hreach⟩
  · have hz : s.zeroByteCnt < 2 := by
      rw [hseen]
      split <;> omega
    rw [if_neg hdrop, if_neg (by simp only [numZerosBeforeStartCode]; omega)]
    have hcopy := hs.dst_snoc b
    have hcnt := hs.dstCnt_snoc b
    rw [List.nil_append] at hcopy hcnt
    exact ⟨hcopy, hcnt, hreach⟩

-- ---------------------------------------------------------------------------
-- Escaping and unescaping together
-- ---------------------------------------------------------------------------

/-- What `PUTBYTE_EPB` writes for a payload from a zero run of 0. -/
def escaped (payload : List Nat) : ByteSink :=
  putBytes { ptr := { mem := fun _ => 0, stores := [] }, off := 0, zeroRun := 0 } payload

/-- Unescaping gives the payload back, alone in the buffer and before a start code with any
zeros in front and any bytes after it. -/
def NalRoundTrip (payload : List Nat) : Prop :=
  let e := escaped payload
  (∀ dst, Yields (ihevcdNalRemvEmulnBytes e.ptr.mem dst e.off) payload e.off) ∧
    ∀ src dst k n,
      Holds src 0 ((List.range e.off).map e.ptr.mem ++ List.replicate k 0 ++ [0, 0, 1]) →
      e.off + k + 3 ≤ n → Yields (ihevcdNalRemvEmulnBytes src dst n) payload e.off

/-- Two zeros end the escaped bytes exactly when an even, positive number of zeros ends the
payload: every second zero of a run after the first two is escaped. -/
theorem zeroRun_escape_eq_two :
    zeroRun 0 (epb.escape 0 l) = 2 ↔ 0 < zeroRun 0 l ∧ zeroRun 0 l % 2 = 0 := by
  suffices h : zeroRun 0 (epb.escape 0 l) =
      if zeroRun 0 l = 0 then 0 else 2 - zeroRun 0 l % 2 by
    rw [h]
    split <;> omega
  induction l using List.reverseRecOn with
  | nil => rfl
  | append_singleton l b ih =>
    rw [escape_snoc, zeroRun_append, put_seenRun (l := []), zeroRun_snoc, ih, seenRun]
    by_cases hb : b = 0
    · subst hb
      simp only [step_zero]
      split_ifs <;> omega
    · simp [step_pos (Nat.pos_of_ne_zero hb)]

theorem escaped_written (hbytes : ∀ x ∈ payload, x < 256)
    (hlen : (epb.escape 0 payload).length < 2 ^ 32) :
    Written (fun _ => 0) (escaped payload) 0 payload := by
  have hinit : Written (fun _ => 0)
      { ptr := { mem := fun _ => 0, stores := [] }, off := 0, zeroRun := 0 } 0 [] :=
    ⟨by simp, rfl, rfl, by simp, by simp⟩
  exact hinit.putAll hbytes (by simpa using hlen)

/-- The round trip holds unless the last byte is above 3 and an even, positive number of zeros
stands right before it. -/
theorem nalRoundTrip_iff (hlast : b ≠ 0) (hbytes : ∀ x ∈ l ++ [b], x < 256)
    (hlen : (epb.escape 0 (l ++ [b])).length < 2 ^ 31) :
    NalRoundTrip (l ++ [b]) ↔ ¬(3 < b ∧ 0 < zeroRun 0 l ∧ zeroRun 0 l % 2 = 0) := by
  have hw := escaped_written hbytes (by omega)
  have hoff : (escaped (l ++ [b])).off = (epb.escape 0 (l ++ [b])).length := by
    rw [hw.off, Nat.zero_add]
  have halone dst := alone dst hlast hw.holds
  rw [NalRoundTrip, hoff, hw.holds.map_range, ← zeroRun_escape_eq_two]
  constructor
  · rintro ⟨hyields, -⟩ ⟨h3, hz⟩
    have hdrop := halone fun _ => 0
    rw [if_pos ⟨hz, h3⟩] at hdrop
    have hlen := (hyields fun _ => 0).dstLen.symm.trans hdrop.dstLen
    simp at hlen
  · intro h
    refine ⟨fun dst => ?_, fun src dst k n hsrc hn => ?_⟩
    · have := halone dst
      rwa [if_neg fun hd => h ⟨hd.2, hd.1⟩] at this
    · exact yields_before_startCode (by simpa using hlast) hsrc hn

theorem nalRoundTrip_iff_one : NalRoundTrip ([0, 0] ++ [1]) ↔ ¬(3 < 1 ∧ 0 < 2 ∧ 2 % 2 = 0) :=
  nalRoundTrip_iff (by decide) (by decide) (by decide)

/-- The payload 00 00 05 comes back without its last byte. -/
theorem nalRoundTrip_drops_last : ¬NalRoundTrip [0, 0, 5] := by
  rintro ⟨h, -⟩
  have hlen := (h fun _ => 0).dstLen
  revert hlen
  decide

end Libhevc.RoundTrip
