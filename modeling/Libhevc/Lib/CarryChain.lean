import Libhevc.Lib.BitString

/-!
# Bytes with a carry still to come

A coder writes a number byte by byte from the top, while a later addition can
still carry into what it has written. A byte of 255 would pass the carry on, so
such bytes are only counted; any other byte absorbs the carry.
-/

namespace CarryChain

open BitString

/-- Bytes written, and a number of bytes of 255 held back. -/
structure Digits where
  bytes : List Nat
  outstanding : Nat

/-- The bytes with 1 added to the last one. -/
def bump (l : List Nat) : List Nat := l.dropLast ++ (l.getLast?.map (· + 1)).toList

theorem bump_snoc : bump (l ++ [x]) = l ++ [x + 1] := by simp [bump]

/-- All bytes, once it is known whether a carry comes. -/
def Digits.settle (d : Digits) (carry : Bool) : List Nat :=
  if carry then bump d.bytes ++ List.replicate d.outstanding 0
  else d.bytes ++ List.replicate d.outstanding 255

/-- The number the bytes write if no carry comes. -/
def Digits.value (d : Digits) : Nat := byteVal (d.settle false)

/-- The next byte, with a carry on top of it. -/
def Digits.push (d : Digits) (lead : Nat) : Digits :=
  if lead = 255 then { d with outstanding := d.outstanding + 1 }
  else { bytes := d.settle (256 ≤ lead) ++ [lead % 256], outstanding := 0 }

/-- The number of bytes, written or held back. -/
def Digits.length (d : Digits) : Nat := d.bytes.length + d.outstanding

/-- The last byte cannot take a carry: there is none, or it is 255. -/
def Digits.Full (d : Digits) : Prop := ∀ x ∈ d.bytes.getLast?, x = 255

theorem Digits.exists_snoc {d : Digits} (h : ¬d.Full) :
    ∃ l x, d.bytes = l ++ [x] ∧ x ≠ 255 := by
  obtain hnil | ⟨l, x, hsnoc⟩ := List.eq_nil_or_concat d.bytes
  · exact absurd (fun x hx => by simp [hnil] at hx) h
  · rw [List.concat_eq_append] at hsnoc
    refine ⟨l, x, hsnoc, ?_⟩
    rintro rfl
    exact h fun y hy => by simpa [hsnoc, eq_comm] using hy

theorem length_settle {d : Digits} (carry : Bool) (h : carry = true → ¬d.Full) :
    (d.settle carry).length = d.length := by
  cases carry with
  | false => simp [Digits.settle, Digits.length]
  | true =>
    obtain ⟨l, x, hsnoc, -⟩ := Digits.exists_snoc (h rfl)
    simp [Digits.settle, Digits.length, hsnoc, bump_snoc, Nat.add_comm, Nat.add_left_comm]

/-- A carry adds 1 to the number. -/
theorem byteVal_settle {d : Digits} (carry : Bool) (h : carry = true → ¬d.Full) :
    byteVal (d.settle carry) = d.value + carry.toNat := by
  cases carry with
  | false => rfl
  | true =>
    obtain ⟨l, x, hsnoc, -⟩ := Digits.exists_snoc (h rfl)
    have hff := byteVal_replicate_ff d.outstanding
    have hcarry : d.settle true = (l ++ [x + 1]) ++ List.replicate d.outstanding 0 := by
      rw [Digits.settle, if_pos rfl, hsnoc, bump_snoc]
    have hnone : d.settle false = (l ++ [x]) ++ List.replicate d.outstanding 255 := by
      rw [Digits.settle, if_neg Bool.false_ne_true, hsnoc]
    rw [Digits.value, hcarry, hnone, byteVal_append, byteVal_append (l ++ [x]), Bool.toNat_true,
      byteVal_append_singleton, byteVal_append_singleton, byteVal_replicate_zero,
      List.length_replicate, List.length_replicate, Nat.add_assoc _ _ 1, hff]
    ring

theorem byteVal_push {d : Digits} (hlead : lead < 512) (h : 256 ≤ lead → ¬d.Full) :
    (d.push lead).value = 256 * d.value + lead := by
  unfold Digits.push
  split
  · rename_i hff
    simp only [Digits.value, Digits.settle, Bool.false_eq_true, if_false, List.replicate_succ',
      ← List.append_assoc, byteVal_append_singleton, hff]
  · have hsettle := byteVal_settle (d := d) (decide (256 ≤ lead)) (by simpa using h)
    have hvalue : Digits.value { bytes := d.settle (256 ≤ lead) ++ [lead % 256], outstanding := 0 } =
        byteVal (d.settle (256 ≤ lead) ++ [lead % 256]) := by simp [Digits.value, Digits.settle]
    rw [hvalue, byteVal_append_singleton, hsettle]
    by_cases hc : 256 ≤ lead
    · rw [decide_eq_true hc, Bool.toNat_true]
      omega
    · rw [decide_eq_false hc, Bool.toNat_false]
      omega

theorem length_push {d : Digits} (h : 256 ≤ lead → ¬d.Full) :
    (d.push lead).length = d.length + 1 := by
  unfold Digits.push
  split
  · simp [Digits.length, Nat.add_assoc]
  · have := length_settle (d := d) (decide (256 ≤ lead)) (by simpa using h)
    simpa [Digits.length] using this

theorem full_push {d : Digits} (h : (d.push lead).Full) :
    (lead = 255 ∧ d.Full) ∨ lead % 256 = 255 ∧ lead ≠ 255 := by
  unfold Digits.push at h
  split at h
  · rename_i hff
    exact .inl ⟨hff, h⟩
  · rename_i hff
    exact .inr ⟨h _ (by simp), hff⟩

-- ---------------------------------------------------------------------------
-- The low end of an interval below the bytes
-- ---------------------------------------------------------------------------

/-- The interval from `low` on, `range` long, below `k` bits: a carry can come once, and only
where a byte can take it. -/
structure Fits (d : Digits) (low range k : Nat) : Prop where
  sum : low + range ≤ 2 * 2 ^ k
  full : d.Full → low + range ≤ 2 ^ k

theorem Fits.narrow (h : Fits d low range k) (hle : lo + width ≤ range) :
    Fits d (low + lo) width k := by
  obtain ⟨hsum, hfull⟩ := h
  exact ⟨by omega, fun hf => by have := hfull hf; omega⟩

theorem Fits.scale (h : Fits d low range k) :
    Fits d (low * 2 ^ n) (range * 2 ^ n) (k + n) := by
  obtain ⟨hsum, hfull⟩ := h
  refine ⟨?_, fun hf => ?_⟩
  · have := Nat.mul_le_mul_right (2 ^ n) hsum
    rw [pow_add, ← Nat.add_mul, ← Nat.mul_assoc]
    exact this
  · have := Nat.mul_le_mul_right (2 ^ n) (hfull hf)
    rw [pow_add, ← Nat.add_mul]
    exact this

theorem Fits.carry (h : Fits d low range k) (hr : 0 < range) (hlow : 2 ^ k ≤ low) : ¬d.Full := by
  intro hf
  have := h.full hf
  omega

/-- The top byte of `low`, with its carry, moves to the bytes. -/
theorem Fits.push (h : Fits d low range (k + 8)) (hr : 0 < range) (hrange : range ≤ 2 ^ k) :
    Fits (d.push (low / 2 ^ k)) (low % 2 ^ k) range k := by
  have hmod := Nat.mod_lt low (Nat.two_pow_pos k)
  refine ⟨by omega, fun hf => ?_⟩
  have hdm := Nat.div_add_mod low (2 ^ k)
  have hsum := h.sum
  have hfull := h.full
  rw [pow_add] at hsum hfull
  rcases full_push hf with ⟨hlead, hfd⟩ | ⟨hlead, hne⟩
  · have := hfull hfd
    rw [hlead] at hdm
    omega
  · -- a leading byte of 511 carries now, so nothing more can carry
    have hlt : low / 2 ^ k < 512 := by
      refine Nat.div_lt_of_lt_mul ?_
      omega
    generalize low / 2 ^ k = lead at hdm hlead hne hlt
    obtain rfl : lead = 511 := by omega
    omega

theorem Fits.lead_lt (h : Fits d low range (k + 8)) (hr : 0 < range) : low / 2 ^ k < 512 := by
  have hsum := h.sum
  rw [pow_add] at hsum
  refine Nat.div_lt_of_lt_mul ?_
  omega

theorem Fits.lead_carry (h : Fits d low range (k + 8)) (hr : 0 < range) (hlead : 256 ≤ low / 2 ^ k) :
    ¬d.Full := by
  refine h.carry hr ?_
  rw [pow_add, Nat.mul_comm]
  exact (Nat.le_div_iff_mul_le (Nat.two_pow_pos k)).mp hlead

/-- Moving the top byte of `low` to the bytes keeps the number. -/
theorem Fits.value_push (h : Fits d low range (k + 8)) (hr : 0 < range) :
    (d.push (low / 2 ^ k)).value * 2 ^ k + low % 2 ^ k = d.value * 2 ^ (k + 8) + low := by
  have hdm := Nat.div_add_mod low (2 ^ k)
  have hvalue : 256 * d.value * 2 ^ k = d.value * (2 ^ k * 2 ^ 8) := by ring
  rw [Nat.mul_comm] at hdm
  rw [byteVal_push (h.lead_lt hr) (h.lead_carry hr), pow_add, Nat.add_mul]
  omega

end CarryChain
