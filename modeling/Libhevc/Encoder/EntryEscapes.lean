import Libhevc.Encoder.BitstreamLaws
import Libhevc.Lib.Escape

/-!
# The emulation prevention bytes of the entry points

An emulation prevention byte follows two zero bytes. No entry point is zero, so
each of them is charged with at most one, and the elements in front with two.
-/

namespace Libhevc.Encoder

open Escape BitString

/-- Two zero bytes stand in front of an emulation prevention byte. -/
theorem epb_zeros (h : epb.EscapesAt l i) (hi : i < l.length) :
    2 ≤ i ∧ l.getD (i - 1) 0 = 0 ∧ l.getD (i - 2) 0 = 0 := by
  have hrun : epb.runAt l i = 2 := h.1
  have hone := zero_of_lt_runAt (S := epb) (j := 0) hi.le (by omega)
  have htwo := zero_of_lt_runAt (S := epb) (j := 1) hi.le (by omega)
  rw [show i - 1 - 1 = i - 2 by omega] at htwo
  exact ⟨by omega, hone.2, htwo.2⟩

theorem byte_ne_zero {l : List Nat} (h : ofBytes (fun i => l.getD i 0) t = true) :
    l.getD (t / 8) 0 ≠ 0 := by
  intro hz
  unfold ofBytes at h
  dsimp only at h
  rw [hz, Nat.zero_testBit] at h
  cases h

/-- The last header elements and the entry points, as bits with the ones that are known. The
string `l` has whole words before byte `q`, `p` bits more of the saved header, a code of `2 * k + 1`
bits, `n` fields of `len` bits and less than ten bits behind them. -/
structure EntryBits (l : List Nat) (q p k n len r : Nat) : Prop where
  pending : p < 32
  code : k ≤ 4
  len_le : len ≤ 24
  last : ofBytes (fun i => l.getD i 0) (8 * q + p - r) = true
  last_le : r ≤ 16 ∧ 0 < r ∧ r ≤ 8 * q + p
  first : ofBytes (fun i => l.getD i 0) (8 * q + p + k) = true
  fields : ∀ j < n, ∃ t < len,
    ofBytes (fun i => l.getD i 0) (8 * q + p + 2 * k + 1 + j * len + t) = true
  length : 8 * l.length ≤ 8 * q + p + 2 * k + 1 + n * len + 9

variable {l : List Nat} {q p k n len r : Nat}

/-- The header in front of the fields has at most two of the emulation prevention bytes. -/
theorem EntryBits.header_escapes (h : EntryBits l q p k n len r) (hi : epb.EscapesAt l i)
    (hil : i < l.length) (hq : q ≤ i) (hh : 8 * (i - 1) < 8 * q + p + 2 * k + 1)
    (hi' : epb.EscapesAt l i') (hil' : i' < l.length) (hq' : q ≤ i')
    (hh' : 8 * (i' - 1) < 8 * q + p + 2 * k + 1) (hlt : i < i') : i ≤ q + 1 ∧ q + 2 ≤ i' := by
  have hp := h.pending
  have hk := h.code
  have hgap : i + 2 ≤ i' := EscapesAt.gap hi hi' hlt hil'
  obtain ⟨-, hz1, hz2⟩ := epb_zeros hi hil
  obtain ⟨-, hz1', hz2'⟩ := epb_zeros hi' hil'
  refine ⟨?_, by omega⟩
  by_contra hge
  -- the bytes in front of both would be zero
  have hfirst := byte_ne_zero h.first
  have hlast := byte_ne_zero h.last
  have hr := h.last_le
  have hcases : i = q + 2 ∧ i' = q + 4 ∨ i' = q + 5 := by omega
  rcases hcases with ⟨rfl, rfl⟩ | rfl
  · have hbyte : (8 * q + p - r) / 8 = q + 4 - 1 ∨ (8 * q + p - r) / 8 = q + 4 - 2 ∨
        (8 * q + p - r) / 8 = q + 2 - 1 ∨ (8 * q + p - r) / 8 = q + 2 - 2 := by omega
    rcases hbyte with he | he | he | he <;> rw [he] at hlast <;> contradiction
  · have hbyte : (8 * q + p + k) / 8 = q + 5 - 1 ∨ (8 * q + p + k) / 8 = q + 5 - 2 := by omega
    rcases hbyte with he | he <;> rw [he] at hfirst <;> contradiction

/-- Two emulation prevention bytes never belong to the same field. -/
theorem EntryBits.field_escapes (h : EntryBits l q p k n len r) (hi : epb.EscapesAt l i)
    (hil : i < l.length) (hi' : epb.EscapesAt l i') (hil' : i' < l.length) (hlt : i < i')
    (hj : j < n) (hlo : 8 * q + p + 2 * k + 1 + j * len ≤ 8 * (i - 1))
    (hhi : 8 * (i' - 1) < 8 * q + p + 2 * k + 1 + j * len + len) : False := by
  have hlen := h.len_le
  have hgap : i + 2 ≤ i' := EscapesAt.gap hi hi' hlt hil'
  obtain ⟨htwo, hz1, hz2⟩ := epb_zeros hi hil
  obtain ⟨-, hz1', hz2'⟩ := epb_zeros hi' hil'
  obtain ⟨t, ht, hone⟩ := h.fields j hj
  obtain rfl : i' = i + 2 := by omega
  have hbyte := byte_ne_zero hone
  generalize 8 * q + p + 2 * k + 1 + j * len = x at *
  have hcases : (x + t) / 8 = i - 2 ∨ (x + t) / 8 = i - 1 ∨ (x + t) / 8 = i + 2 - 2 ∨
      (x + t) / 8 = i + 2 - 1 := by omega
  rcases hcases with he | he | he | he <;> rw [he] at hbyte <;> contradiction

/-- There is at most one emulation prevention byte for each field and two more. -/
theorem EntryBits.card_escapes (h : EntryBits l q p k n len r) :
    ((Finset.Ico q l.length).filter (epb.EscapesAt l)).card ≤ n + 2 := by
  have hlength := h.length
  have hlenpos : 0 < n → 0 < len := by
    intro hn
    obtain ⟨t, ht, -⟩ := h.fields 0 hn
    omega
  set x := 8 * q + p + 2 * k + 1 with hx
  let f : Nat → Nat := fun i =>
    if 8 * (i - 1) < x then if i ≤ q + 1 then 0 else 1 else 2 + (8 * (i - 1) - x) / len
  -- the byte in front of the escaped one begins in one of the fields, or before them
  have hfield : ∀ i < l.length, ¬ 8 * (i - 1) < x → (8 * (i - 1) - x) / len < n := by
    intro i hil hge
    rcases Nat.eq_zero_or_pos n with rfl | hn
    · omega
    · rw [Nat.div_lt_iff_lt_mul (hlenpos hn)]
      omega
  rw [← Finset.card_range (n + 2)]
  refine Finset.card_le_card_of_injOn f (fun i hi => ?_) ?_
  · obtain ⟨hico, -⟩ := Finset.mem_filter.mp hi
    obtain ⟨-, hil⟩ := Finset.mem_Ico.mp hico
    rw [Finset.coe_range, Set.mem_Iio]
    simp only [f]
    split
    · split <;> omega
    · rename_i hge
      exact Nat.add_comm n 2 ▸ Nat.add_lt_add_left (hfield i hil hge) 2
  · have hne : ∀ i i', epb.EscapesAt l i → i < l.length → q ≤ i → epb.EscapesAt l i' →
        i' < l.length → q ≤ i' → i < i' → f i ≠ f i' := by
      intro i i' hi hil hq hi' hil' hq' hlt heq
      simp only [f] at heq
      by_cases hh' : 8 * (i' - 1) < x
      · have hh : 8 * (i - 1) < x := by omega
        obtain ⟨hle, hge⟩ := h.header_escapes hi hil hq hh hi' hil' hq' hh' hlt
        rw [if_pos hh, if_pos hh', if_pos hle, if_neg (by omega)] at heq
        cases heq
      · rw [if_neg hh'] at heq
        by_cases hh : 8 * (i - 1) < x
        · rw [if_pos hh] at heq
          generalize (8 * (i' - 1) - x) / len = d at heq
          split at heq <;> omega
        · rw [if_neg hh] at heq
          have hj := hfield i hil hh
          have hlen := hlenpos (Nat.zero_lt_of_lt hj)
          have hdiv : (8 * (i' - 1) - x) / len = (8 * (i - 1) - x) / len :=
            (Nat.add_left_cancel heq).symm
          have hlo := Nat.div_mul_le_self (8 * (i - 1) - x) len
          have hhi := Nat.lt_mul_div_succ (8 * (i' - 1) - x) hlen
          rw [hdiv, Nat.mul_succ, Nat.mul_comm len] at hhi
          refine h.field_escapes hi hil hi' hil' hlt hj ?_ ?_
          · rw [← hx]
            omega
          · rw [← hx]
            omega
    intro i hi i' hi' heq
    obtain ⟨hico, hesc⟩ := Finset.mem_filter.mp hi
    obtain ⟨hico', hesc'⟩ := Finset.mem_filter.mp hi'
    obtain ⟨hq, hil⟩ := Finset.mem_Ico.mp hico
    obtain ⟨hq', hil'⟩ := Finset.mem_Ico.mp hico'
    rcases Nat.lt_trichotomy i i' with hlt | rfl | hlt
    · exact absurd heq (hne i i' hesc hil hq hesc' hil' hq' hlt)
    · rfl
    · exact absurd heq.symm (hne i' i hesc' hil' hq' hesc hil hq hlt)

/-- What the rewritten header takes behind the words of the saved one. -/
theorem EntryBits.escape_le (h : EntryBits l q p k n len r) (hq : q ≤ l.length) :
    (epb.escape 0 l).length ≤ (epb.escape 0 (l.take q)).length + 4 * n + 8 := by
  have hcard := h.card_escapes
  have hlen := length_escape_take (S := epb) (l := l) (q := q) (k := l.length - q) (by omega)
  rw [Nat.add_sub_cancel' hq, List.take_length] at hlen
  have hlength := h.length
  have hp := h.pending
  have hk := h.code
  have hmul : n * len ≤ n * 24 := Nat.mul_le_mul_left n h.len_le
  omega

end Libhevc.Encoder
