import Libhevc.Common.Residual
import Libhevc.Decoder.UnpackCoeffsLaws
import Libhevc.Decoder.ParseResidual
import Libhevc.Encoder.Residue
import Libhevc.RoundTrip.Bins

/-!
# The bins of a sub-block

What both sides make of a sub-block, as a function of its map and of its levels in
the order of the scan. The writer gathers the flags in words, the parser takes the
words apart: here they are lists.
-/

namespace Libhevc.RoundTrip

open Reader Encoder Decoder

-- ---------------------------------------------------------------------------
-- Words as lists of flags
-- ---------------------------------------------------------------------------

/-- Flags shifted into a word one by one. -/
def shiftIn (word : Nat) (flags : List Bool) : Nat :=
  flags.foldl (fun w b => w <<< 1 ||| b.toNat) word

theorem shiftIn_one (w : Nat) (b : Bool) : w <<< 1 ||| b.toNat = 2 * w + b.toNat := by
  rw [← Nat.shiftLeft_add_eq_or_of_lt (by cases b <;> decide), Nat.shiftLeft_eq, pow_one,
    Nat.mul_comm]

theorem shiftIn_append (w : Nat) (l l' : List Bool) :
    shiftIn w (l ++ l') = shiftIn (shiftIn w l) l' := List.foldl_append

theorem shiftIn_eq (w : Nat) (l : List Bool) : shiftIn w l = w * 2 ^ l.length + shiftIn 0 l := by
  induction l generalizing w with
  | nil => simp [shiftIn]
  | cons b l ih =>
    have hw : shiftIn w (b :: l) = shiftIn (2 * w + b.toNat) l := by
      rw [← shiftIn_one]
      rfl
    have h0 : shiftIn 0 (b :: l) = shiftIn b.toNat l := by
      show shiftIn (0 <<< 1 ||| b.toNat) l = _
      rw [shiftIn_one, Nat.mul_zero, Nat.zero_add]
    rw [hw, h0, ih, ih b.toNat, List.length_cons, pow_succ]
    ring

theorem shiftIn_lt (l : List Bool) : shiftIn 0 l < 2 ^ l.length := by
  induction l using List.reverseRecOn with
  | nil => simp [shiftIn]
  | append_singleton l b ih =>
    have hb : b.toNat < 2 := by cases b <;> decide
    rw [shiftIn_append]
    show shiftIn 0 l <<< 1 ||| b.toNat < _
    rw [shiftIn_one, List.length_append, List.length_singleton, pow_succ]
    omega

/-- The first flags of a word are its top bits. -/
theorem shiftIn_shiftRight (l l' : List Bool) :
    shiftIn 0 (l ++ l') >>> l'.length = shiftIn 0 l := by
  rw [shiftIn_append, shiftIn_eq, Nat.shiftRight_eq_div_pow, Nat.mul_comm,
    Nat.mul_add_div (Nat.two_pow_pos _), Nat.div_eq_of_lt (shiftIn_lt l'), Nat.add_zero]

theorem shiftIn_ne_zero (l : List Bool) : shiftIn 0 l ≠ 0 ↔ true ∈ l := by
  induction l using List.reverseRecOn with
  | nil => simp [shiftIn]
  | append_singleton l b ih =>
    have hword : shiftIn 0 (l ++ [b]) = 2 * shiftIn 0 l + b.toNat := by
      rw [shiftIn_append]
      exact shiftIn_one _ _
    rw [hword, List.mem_append, List.mem_singleton, ← ih]
    cases b with
    | false => simp
    | true => simp

/-- The bits of a word from the top are its flags. -/
theorem bypassBins_shiftIn (l : List Bool) :
    (bypassBins (shiftIn 0 l) l.length : List (Bin ρ)) = l.map .bypass := by
  induction l using List.reverseRecOn with
  | nil => rfl
  | append_singleton l b ih =>
    have hword : shiftIn 0 (l ++ [b]) = 2 ^ 1 * shiftIn 0 l + b.toNat := by
      rw [shiftIn_append, pow_one]
      exact shiftIn_one _ _
    have hbit : b.toNat < 2 ^ 1 := by cases b <;> decide
    rw [hword, List.length_append, List.length_singleton, bypassBins_append _ _ _ _ hbit, ih,
      List.map_append]
    congr 1
    cases b <;> rfl

theorem testBit_shiftIn_cons (b : Bool) (l : List Bool) :
    (shiftIn 0 (b :: l)).testBit l.length = b := by
  have hword : shiftIn 0 (b :: l) = 2 ^ l.length * b.toNat + shiftIn 0 l := by
    show shiftIn (0 <<< 1 ||| b.toNat) l = _
    rw [shiftIn_one, Nat.mul_zero, Nat.zero_add, shiftIn_eq, Nat.mul_comm]
  rw [hword, Nat.testBit_two_pow_mul_add _ (shiftIn_lt l), if_neg (Nat.lt_irrefl _), Nat.sub_self]
  cases b <;> rfl

theorem testBit_shiftIn_tail (b : Bool) (l : List Bool) (h : j < l.length) :
    (shiftIn 0 (b :: l)).testBit j = (shiftIn 0 l).testBit j := by
  have hword : shiftIn 0 (b :: l) = 2 ^ l.length * b.toNat + shiftIn 0 l := by
    show shiftIn (0 <<< 1 ||| b.toNat) l = _
    rw [shiftIn_one, Nat.mul_zero, Nat.zero_add, shiftIn_eq, Nat.mul_comm]
  rw [hword, Nat.testBit_two_pow_mul_add _ (shiftIn_lt l), if_pos h]

-- ---------------------------------------------------------------------------
-- The bins
-- ---------------------------------------------------------------------------

/-- The significance of the positions below `n`; the last one is derived where `infer` has
stayed. -/
def sigBins (ctxt : Nat → Nat) (m : Nat) : (n : Nat) → (infer : Bool) → List (Bin ρ)
  | 0, _ => []
  | n + 1, infer =>
    (if 0 < n ∨ ¬ infer then [.ctxt (ctxt n) (m.testBit n)] else []) ++
      sigBins ctxt m n (infer && !m.testBit n)

def aboveOne (e : Int) : Bool := decide (1 < e.natAbs)

def greater1Bins (ctxt : Nat) : List Int → (gt1Ctxt : Nat) → List (Bin ρ)
  | [], _ => []
  | e :: es, gt1Ctxt =>
    .ctxt (ctxt + gt1Ctxt) (aboveOne e) ::
      greater1Bins ctxt es (ResidualArgs.nextGt1Ctxt gt1Ctxt (aboveOne e))

/-- `gt1_ctxt` behind the flags of a sub-block. -/
def gt1CtxtAfter (es : List Int) (gt1Ctxt : Nat) : Nat :=
  es.foldl (fun c e => ResidualArgs.nextGt1Ctxt c (aboveOne e)) gt1Ctxt

def greater2Bins (ctxt : Nat) (es : List Int) : List (Bin ρ) :=
  match es.find? aboveOne with
  | none => []
  | some e => [.ctxt ctxt (decide (2 < e.natAbs))]

def negative (e : Int) : Bool := decide (e < 0)

def signFlags (hidden : Bool) (es : List Int) : List Bool :=
  (if hidden then es.dropLast else es).map negative

/-- The smallest level that has a remaining part: the first of the levels above 1 has one flag more
than the others of the first eight. -/
def remainingBase (j : Nat) (seen : Bool) : Nat := if j < 8 then (if seen then 2 else 3) else 1

/-- The remaining parts of the levels from the one with number `j` on; `seen` says that one of the
first eight was above 1. -/
def remainingBins : (es : List Int) → (j : Nat) → (seen : Bool) → (riceParam : Nat) → List (Bin ρ)
  | [], _, _, _ => []
  | e :: es, j, seen, riceParam =>
    if remainingBase j seen ≤ e.natAbs then
      ResidueArgs.encodeAbsCoeffRem (e.natAbs - remainingBase j seen) riceParam ++
        remainingBins es (j + 1) (seen || aboveOne e)
          (if 3 <<< riceParam < e.natAbs then min (riceParam + 1) 4 else riceParam)
    else remainingBins es (j + 1) (seen || aboveOne e) riceParam

/-- Behind the first eight levels it does not matter whether one was above 1. -/
theorem remainingBins_seen (es : List Int) (j : Nat) (hj : 8 ≤ j) (seen seen' : Bool)
    (riceParam : Nat) :
    (remainingBins es j seen riceParam : List (Bin ρ)) = remainingBins es j seen' riceParam := by
  induction es generalizing j seen seen' riceParam with
  | nil => rfl
  | cons e es ih =>
    have hbase : ∀ s, remainingBase j s = 1 := fun s => if_neg (by omega)
    rw [remainingBins, remainingBins, hbase, hbase, ih (j + 1) (by omega) (seen || aboveOne e)
      (seen' || aboveOne e), ih (j + 1) (by omega) (seen || aboveOne e) (seen' || aboveOne e)]

/-- The set of contexts of the levels. -/
def ctxtSet (luma : Bool) (i gt1Ctxt : Nat) : Nat :=
  (if i ≠ 0 ∧ luma then 2 else 0) + (if gt1Ctxt = 0 then 1 else 0)

/-- The levels of a sub-block, with the contexts of its flags. -/
def levelBins (ctxt1 ctxt2 : Nat) (hidden : Bool) (es : List Int) : List (Bin ρ) :=
  greater1Bins ctxt1 (es.take 8) 1 ++ (greater2Bins ctxt2 (es.take 8) ++
    ((signFlags hidden es).map .bypass ++ remainingBins es 0 false 0))

/-- A sign is hidden where the first and the last position are that far apart. -/
def signIsHidden (signDataHiding : Bool) (positions : List Nat) : Bool :=
  signDataHiding && decide (3 < ((positions.headD 0 : Nat) : Int) - (positions.getLastD 0 : Nat))

/-- The sum of the levels is odd where the hidden sign is negative. -/
def ParityHides (es : List Int) : Prop :=
  (es.map Int.natAbs).sum % 2 = 1 ↔ es.getLastD 0 < 0

instance (es : List Int) : Decidable (ParityHides es) :=
  inferInstanceAs (Decidable ((es.map Int.natAbs).sum % 2 = 1 ↔ es.getLastD 0 < 0))

end Libhevc.RoundTrip
