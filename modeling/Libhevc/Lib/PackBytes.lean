import Libhevc.Lib.BitString

/-!
# Bit strings as bytes

The bytes of a bit string, and lists of bits that stand at a place of it.
-/

namespace BitString

/-- Byte lists of one length that write one number. -/
theorem byteVal_inj (hlen : l.length = l'.length) (hl : ∀ x ∈ l, x < 256)
    (hl' : ∀ x ∈ l', x < 256) (hval : byteVal l = byteVal l') : l = l' := by
  induction l using List.reverseRecOn generalizing l' with
  | nil => exact (List.length_eq_zero_iff.mp hlen.symm).symm
  | append_singleton l x ih =>
    rcases l'.eq_nil_or_concat with rfl | ⟨m, y, rfl⟩
    · simp at hlen
    · rw [List.concat_eq_append] at *
      have hx := hl x (by simp)
      have hy := hl' y (by simp)
      rw [byteVal_append_singleton, byteVal_append_singleton] at hval
      have hxy : x = y := by omega
      have hrest : l = m :=
        ih (by simpa using hlen) (fun z hz => hl z (by simp [hz]))
          (fun z hz => hl' z (by simp [hz])) (by omega)
      rw [hxy, hrest]

/-- The first `k` bytes of a bit string. -/
def packBytes (b : Nat → Bool) (k : Nat) : List Nat := (List.range k).map fun i => field b (8 * i) 8

@[simp] theorem length_packBytes : (packBytes b k).length = k := by simp [packBytes]

theorem packBytes_succ (b : Nat → Bool) (k : Nat) :
    packBytes b (k + 1) = packBytes b k ++ [field b (8 * k) 8] := by
  simp [packBytes, List.range_succ]

theorem packBytes_add (b : Nat → Bool) (k j : Nat) :
    ∃ l, packBytes b (k + j) = packBytes b k ++ l := by
  induction j with
  | zero => exact ⟨[], (List.append_nil _).symm⟩
  | succ j ih =>
    obtain ⟨l, hl⟩ := ih
    exact ⟨l ++ [field b (8 * (k + j)) 8], by rw [← Nat.add_assoc, packBytes_succ, hl,
      List.append_assoc]⟩

theorem packBytes_take (b : Nat → Bool) (h : j ≤ k) : (packBytes b k).take j = packBytes b j := by
  unfold packBytes
  rw [← List.map_take, List.take_range, Nat.min_eq_left h]

theorem packBytes_lt (b : Nat → Bool) (k : Nat) : ∀ x ∈ packBytes b k, x < 256 := by
  intro x hx
  obtain ⟨i, -, rfl⟩ := List.mem_map.mp hx
  exact field_lt b _ 8

theorem byteVal_packBytes (b : Nat → Bool) (k : Nat) :
    byteVal (packBytes b k) = field b 0 (8 * k) := by
  induction k with
  | zero => rfl
  | succ k ih =>
    rw [packBytes_succ, byteVal_append_singleton, ih, Nat.mul_succ, field_add, Nat.zero_add]
    ring

/-- The bits of the packed bytes. -/
theorem ofBytes_packBytes (b : Nat → Bool) (h : t < 8 * k) :
    ofBytes (fun i => (packBytes b k).getD i 0) t = b t := by
  have hi : t / 8 < k := by omega
  unfold ofBytes
  dsimp only
  have hcell : (packBytes b k).getD (t / 8) 0 = field b (8 * (t / 8)) 8 := by
    rw [List.getD_eq_getElem?_getD, packBytes, List.getElem?_map, List.getElem?_range hi]
    rfl
  rw [hcell]
  have hbit : ∀ p n r, r < n → (field b p n).testBit (n - 1 - r) = b (p + r) := by
    intro p n
    induction n with
    | zero => exact fun r hr => absurd hr (Nat.not_lt_zero r)
    | succ n ih =>
      intro r hr
      rw [field_succ]
      rcases Nat.lt_succ_iff_lt_or_eq.mp hr with hlt | rfl
      · rw [show n + 1 - 1 - r = (n - 1 - r) + 1 by omega, Nat.testBit_succ,
          show (2 * field b p n + (b (p + n)).toNat) / 2 = field b p n by
            have := Bool.toNat_lt (b (p + n))
            omega]
        exact ih r hlt
      · rw [Nat.add_sub_cancel, Nat.sub_self, Nat.testBit_zero]
        cases b (p + r) <;> simp
  rw [show 7 - t % 8 = 8 - 1 - t % 8 from rfl, hbit _ _ _ (Nat.mod_lt _ (by decide)),
    Nat.div_add_mod]

/-- A list of bits as the start of a bit string. -/
def Starts (b : Nat → Bool) (p : Nat) (w : List Bool) : Prop := field b p w.length = bitVal w

theorem Starts.append : Starts b p (w ++ v) ↔ Starts b p w ∧ Starts b (p + w.length) v := by
  unfold Starts
  rw [List.length_append, bitVal_append]
  constructor
  · intro h
    have hdiv := field_div b p w.length v.length
    have hmod := field_mod b p w.length v.length
    have hlt := bitVal_lt v
    rw [h] at hdiv hmod
    rw [Nat.mul_comm, Nat.mul_add_div (Nat.two_pow_pos _), Nat.div_eq_of_lt hlt] at hdiv
    rw [Nat.mul_comm, Nat.mul_add_mod, Nat.mod_eq_of_lt hlt] at hmod
    exact ⟨hdiv.symm, hmod.symm⟩
  · rintro ⟨hw, hv⟩
    rw [field_add, hw, hv]

theorem field_congr (h : ∀ i < n, b (p + i) = b' (p + i)) : field b p n = field b' p n := by
  induction n with
  | zero => rfl
  | succ n ih =>
    rw [field_succ, field_succ, ih fun i hi => h i (Nat.lt_succ_of_lt hi), h n (Nat.lt_succ_self n)]

theorem field_false (p n : Nat) : field (fun _ => false) p n = 0 := by
  induction n with
  | zero => rfl
  | succ n ih => rw [field_succ, ih]; rfl

theorem starts_getD (w : List Bool) : Starts (fun i => w.getD i false) 0 w := by
  induction w using List.reverseRecOn with
  | nil => rfl
  | append_singleton w x ih =>
    have hcongr : Starts (fun i => (w ++ [x]).getD i false) 0 w := by
      unfold Starts at ih ⊢
      rw [← ih]
      refine field_congr fun i hi => ?_
      rw [Nat.zero_add, List.getD_append _ _ _ _ hi]
    refine Starts.append.mpr ⟨hcongr, ?_⟩
    unfold Starts
    simp [bitVal]

/-- A number that is not zero has a bit. -/
theorem exists_bit (h : field b p n ≠ 0) : ∃ t < n, b (p + t) = true := by
  induction n with
  | zero => exact absurd rfl h
  | succ n ih =>
    by_cases hz : field b p n = 0
    · refine ⟨n, Nat.lt_succ_self n, ?_⟩
      rw [field_succ, hz] at h
      cases hb : b (p + n)
      · rw [hb] at h
        exact absurd rfl h
      · rfl
    · obtain ⟨t, ht, hbit⟩ := ih hz
      exact ⟨t, Nat.lt_succ_of_lt ht, hbit⟩

end BitString
