import Libhevc.Encoder.BitstreamLaws
import Libhevc.Encoder.Cabac
import Libhevc.Lib.CarryChain

/-!
# Carries into written bytes

A carry goes into the last byte written, also where an emulation prevention
byte stands before it, and the outstanding bytes follow.
-/

namespace Libhevc.Encoder

open Memory BitString Escape CarryChain

/-- The memory before the first byte: the last byte there is not zero, and the bytes do not end
in zero, zero, 3. -/
structure Sealed (m : Nat → Nat) (a : Nat) : Prop where
  pos : 0 < a
  last : m (a - 1) ≠ 0
  noEpb : m (a - 1) = 3 → 2 ≤ a ∧ (m (a - 2) ≠ 0 ∨ 3 ≤ a ∧ m (a - 3) ≠ 0)

theorem before_eq {s : ByteSink} (hi : i ≤ s.off) (hoff : s.off < 2 ^ 32) :
    s.before i = s.ptr.mem (s.off - i) := by
  rw [ByteSink.before, u32Sub_of_le hi hoff]

/-- The check finds a 3 behind an emulation prevention byte of the payload, and nothing else. -/
theorem Written.carry_check (h : Written m s a (l ++ [x])) (hs : Sealed m a)
    (hoff : a + (epb.escape 0 (l ++ [x])).length < 2 ^ 32) :
    s.CarryCheck ↔ zeroRun 0 (epb.escape 0 l) = 2 ∧ x = 3 := by
  have hpos := hs.pos
  have hlt : s.off < 2 ^ 32 := by rwa [h.off]
  have hframe := h.frame
  have hholds := h.holds
  have hso := h.off
  rw [escape_snoc] at hholds hso
  have hbefore (i : Nat) (hi : i ≤ s.off) : s.before i = s.ptr.mem (s.off - i) := before_eq hi hlt
  by_cases hesc : zeroRun 0 (epb.escape 0 l) = 2 ∧ x ≤ 3
  · obtain ⟨k, hk⟩ := zeros_of_zeroRun (Nat.le_of_eq hesc.1.symm)
    rw [put_escaped hesc.1 hesc.2, hk, List.append_assoc] at hholds hso
    have hlast : Holds s.ptr.mem (a + k.length) [0, 0, 3, x] := (Holds.append.mp hholds).2
    simp only [Holds.cons, Holds.nil, and_true] at hlast
    simp only [List.length_append, List.length_replicate, List.length_cons, List.length_nil] at hso
    obtain ⟨h4, h3, h2, h1⟩ := hlast
    rw [ByteSink.CarryCheck, hbefore 1 (by omega), hbefore 2 (by omega), hbefore 3 (by omega), hbefore 4 (by omega),
      show s.off - 1 = a + k.length + 1 + 1 + 1 by omega,
      show s.off - 2 = a + k.length + 1 + 1 by omega, show s.off - 3 = a + k.length + 1 by omega,
      show s.off - 4 = a + k.length by omega, h1, h2, h3, h4]
    simp [hesc.1]
  · rw [put_plain hesc] at hholds hso
    refine iff_of_false ?_ fun hc => hesc ⟨hc.1, by omega⟩
    rintro ⟨h1, h2, h3, h4⟩
    rw [List.length_append, List.length_singleton] at hso
    rw [hbefore 1 (by omega)] at h1
    rw [hbefore 2 (by omega)] at h2
    obtain ⟨hheld, hx⟩ := Holds.snoc.mp hholds
    rcases (epb.escape 0 l).eq_nil_or_concat with hnil | ⟨e, y, hy⟩
    · -- the byte is the first one; the others are those before the start
      rw [hnil, List.length_nil] at hso
      rw [show s.off - 2 = a - 1 by omega, hframe _ (by omega)] at h2
      obtain ⟨ha2, hne⟩ := hs.noEpb h2
      rw [hbefore 3 (by omega), show s.off - 3 = a - 2 by omega, hframe _ (by omega)] at h3
      obtain hne | ⟨ha3, hne⟩ := hne
      · exact hne h3
      · rw [hbefore 4 (by omega), show s.off - 4 = a - 3 by omega, hframe _ (by omega)] at h4
        exact hne h4
    · rw [List.concat_eq_append] at hy
      rw [hy, List.length_append, List.length_singleton] at hso
      rw [hy] at hheld
      obtain ⟨hheld, hy3⟩ := Holds.snoc.mp hheld
      rw [show s.off - 2 = a + e.length by omega, hy3] at h2
      rw [hbefore 3 (by omega)] at h3
      rcases e.eq_nil_or_concat with rfl | ⟨e, z, rfl⟩
      · rw [List.length_nil] at hso
        rw [show s.off - 3 = a - 1 by omega, hframe _ (by omega)] at h3
        exact hs.last h3
      · rw [List.concat_eq_append] at hso hheld hy
        rw [List.length_append, List.length_singleton] at hso
        obtain ⟨hheld, hz⟩ := Holds.snoc.mp hheld
        rw [show s.off - 3 = a + e.length by omega, hz] at h3
        rw [hbefore 4 (by omega)] at h4
        rcases e.eq_nil_or_concat with rfl | ⟨e, w, rfl⟩
        · rw [List.length_nil] at hso
          rw [show s.off - 4 = a - 1 by omega, hframe _ (by omega)] at h4
          exact hs.last h4
        · rw [List.concat_eq_append] at hso hheld hy
          rw [List.length_append, List.length_singleton] at hso
          rw [show s.off - 4 = a + e.length by omega, (Holds.snoc.mp hheld).2] at h4
          rw [h2, h3, h4] at hy
          rw [List.append_assoc e] at hy
          exact escape_end (S := epb) (p := e) (Nat.zero_le _) hy

/-- A store over the last byte of the escaped form. -/
theorem Written.bump_last (h : Written m s a (l ++ [x])) (hb : x + 1 < 256)
    (hk : epb.escape 0 (l ++ [x]) = k ++ [y])
    (hk' : epb.escape 0 (l ++ [x + 1]) = k' ++ [x + 1]) (hpre : k' <+: k) :
    Written m { ptr := s.ptr.store (a + k'.length) (x + 1), off := a + k'.length + 1, zeroRun := 0 }
      a (l ++ [x + 1]) := by
  obtain ⟨r, rfl⟩ := hpre
  have hholds := h.holds
  rw [hk] at hholds
  have hheld := (Holds.append.mp (Holds.append.mp hholds).1).1
  refine ⟨?_, ?_, ?_, fun i hi => ?_, fun z hz => ?_⟩
  · rw [hk']
    have hmod : (x + 1) % 256 = x + 1 := Nat.mod_eq_of_lt hb
    simp only [StrmBuffer.store, hmod]
    exact hheld.set_snoc
  · rw [hk', List.length_append, List.length_singleton]
    rfl
  · rw [hk', zeroRun_snoc, step_pos (by omega)]
  · simp only [StrmBuffer.store]
    rw [set_ne (by omega)]
    exact h.frame i hi
  · rcases List.mem_append.mp hz with hz | hz
    · exact h.bytes z (List.mem_append_left _ hz)
    · rw [List.mem_singleton.mp hz]
      exact hb

theorem addCarry_back {s : ByteSink} (h : s.CarryCheck) (hlo : 2 ≤ s.off) (hhi : s.off < 2 ^ 32) :
    s.addCarry = { ptr := s.ptr.store (s.off - 2) (s.ptr.mem (s.off - 2) + 1), off := s.off - 1,
                   zeroRun := 0 } := by
  rw [ByteSink.addCarry, if_pos h, u32Sub_of_le (by omega) hhi,
    u32Sub_of_le (by omega) (by omega), Nat.sub_sub]

theorem addCarry_stay {s : ByteSink} (h : ¬s.CarryCheck) (hlo : 1 ≤ s.off) (hhi : s.off < 2 ^ 32) :
    s.addCarry = { ptr := s.ptr.store (s.off - 1) (s.ptr.mem (s.off - 1) + 1), off := s.off,
                   zeroRun := 0 } := by
  rw [ByteSink.addCarry, if_neg h, u32Sub_of_le hlo hhi]

/-- The carry goes into the last byte of the payload. -/
theorem Written.addCarry (h : Written m s a (l ++ [x])) (hs : Sealed m a) (hx : x < 255)
    (hoff : a + (epb.escape 0 (l ++ [x])).length < 2 ^ 32) :
    Written m s.addCarry a (l ++ [x + 1]) := by
  have hcheck := h.carry_check hs hoff
  have hso := h.off
  have hholds := h.holds
  rw [← hso] at hoff
  by_cases hback : zeroRun 0 (epb.escape 0 l) = 2 ∧ x = 3
  · -- 4 needs no prevention byte
    have hput : epb.escape 0 (l ++ [x]) = epb.escape 0 l ++ [3] ++ [x] := by
      rw [escape_snoc, put_escaped hback.1 (Nat.le_of_eq hback.2), List.append_assoc]
      rfl
    have hput' : epb.escape 0 (l ++ [x + 1]) = epb.escape 0 l ++ [x + 1] := by
      rw [escape_snoc, put_plain]
      rintro ⟨-, htop⟩
      have : x + 1 ≤ 3 := htop
      omega
    have hbump := h.bump_last (by omega) hput hput' (List.prefix_append _ _)
    rw [hput] at hso hholds
    rw [List.length_append, List.length_append, List.length_singleton,
      List.length_singleton] at hso
    have hthree := (Holds.snoc.mp (Holds.snoc.mp hholds).1).2
    rw [addCarry_back (hcheck.mpr hback) (by omega) hoff,
      show s.off - 2 = a + (epb.escape 0 l).length by omega, hthree,
      show s.off - 1 = a + (epb.escape 0 l).length + 1 by omega]
    rwa [← hback.2]
  · -- the byte after the carry is written the same way
    obtain ⟨k, hput, hput'⟩ : ∃ k, epb.escape 0 (l ++ [x]) = k ++ [x] ∧
        epb.escape 0 (l ++ [x + 1]) = k ++ [x + 1] := by
      rw [escape_snoc, escape_snoc]
      by_cases hesc : zeroRun 0 (epb.escape 0 l) = 2 ∧ x ≤ 3
      · have hx3 : x + 1 ≤ 3 := by
          have : x ≠ 3 := fun hx3 => hback ⟨hesc.1, hx3⟩
          omega
        rw [put_escaped hesc.1 hesc.2, put_escaped hesc.1 hx3]
        exact ⟨epb.escape 0 l ++ [3], by rw [List.append_assoc]; rfl, by rw [List.append_assoc]; rfl⟩
      · have hesc' : ¬(zeroRun 0 (epb.escape 0 l) = epb.limit ∧ x + 1 ≤ epb.top) := by
          rintro ⟨hlim, htop⟩
          exact hesc ⟨hlim, Nat.le_of_succ_le htop⟩
        rw [put_plain hesc, put_plain hesc']
        exact ⟨_, rfl, rfl⟩
    have hbump := h.bump_last (by omega) hput hput' (List.prefix_rfl)
    rw [hput] at hso hholds
    rw [List.length_append, List.length_singleton] at hso
    rw [addCarry_stay (mt hcheck.mp hback) (by omega) hoff,
      show s.off - 1 = a + k.length by omega, (Holds.snoc.mp hholds).2,
      show s.off = a + k.length + 1 by omega]
    exact hbump

theorem length_escape_bump (l : List Nat) (x : Nat) :
    (epb.escape 0 (l ++ [x + 1])).length ≤ (epb.escape 0 (l ++ [x])).length := by
  rw [escape_snoc, escape_snoc, List.length_append, List.length_append]
  refine Nat.add_le_add_left ?_ _
  unfold Scheme.put
  split
  · rename_i hesc
    rw [if_pos ⟨hesc.1, Nat.le_of_succ_le hesc.2⟩]
    rfl
  · split <;> simp

/-- Stores that stay below `2 ^ 32 - 1`. -/
def StrmBuffer.InReach (b : StrmBuffer) : Prop := ∀ i ∈ b.stores, i + 1 < 2 ^ 32

/-- Written bytes whose end can be counted. -/
structure Reaches (m : Nat → Nat) (s : ByteSink) (a : Nat) (payload : List Nat) : Prop where
  written : Written m s a payload
  lt : a + (epb.escape 0 payload).length < 2 ^ 32

theorem Reaches.putBytes (h : Reaches m s a l) (hk : ∀ x ∈ k, x < 256)
    (hstores : (putBytes s k).ptr.InReach) : Reaches m (putBytes s k) a (l ++ k) :=
  have hlt := h.written.length_lt hk h.lt hstores
  ⟨h.written.putAll hk hlt, hlt⟩

theorem Reaches.settle {d : Digits} (h : Reaches m s a d.bytes) (hs : Sealed m a)
    (carry : Bool) (hcarry : carry = true → ¬d.Full)
    (hstores : (s.settle carry.toNat d.outstanding).ptr.InReach) :
    Reaches m (s.settle carry.toNat d.outstanding) a (d.settle carry) := by
  cases carry with
  | false =>
    refine h.putBytes (fun x hx => ?_) hstores
    rw [List.eq_of_mem_replicate hx]
    decide
  | true =>
    obtain ⟨l, x, hsnoc, hx⟩ := Digits.exists_snoc (hcarry rfl)
    obtain ⟨hw, hlt⟩ := h
    rw [hsnoc] at hw hlt
    have hx256 : x < 256 := hw.bytes x (by simp)
    have hbump : Reaches m s.addCarry a (l ++ [x + 1]) :=
      ⟨hw.addCarry hs (by omega) hlt,
        Nat.lt_of_le_of_lt (Nat.add_le_add_left (length_escape_bump l x) a) hlt⟩
    have hsettle : d.settle true = (l ++ [x + 1]) ++ List.replicate d.outstanding 0 := by
      rw [Digits.settle, if_pos rfl, hsnoc, bump_snoc]
    rw [hsettle]
    refine hbump.putBytes (fun y hy => ?_) hstores
    rw [List.eq_of_mem_replicate hy]
    decide

end Libhevc.Encoder
