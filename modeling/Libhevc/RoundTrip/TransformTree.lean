import Libhevc.Decoder.TransformTree
import Libhevc.Encoder.TransformTree
import Libhevc.RoundTrip.Bins
import Libhevc.RoundTrip.CuQp

/-!
# Transform tree round trip

The units that the encoder codes for a coding unit are those that the decoder gets.
Both sides are compared over the tree of which the encoder has the flat list.
-/

namespace Libhevc.RoundTrip

open Reader Encoder Decoder

-- ---------------------------------------------------------------------------
-- Delta QPs
-- ---------------------------------------------------------------------------

theorem cuQpDelta_reads (h : DeltaLegal delta) :
    Reads (decodeCuQpDelta : BinReader ρ Int) (ihevceCabacEncodeQpDelta delta) delta := by
  obtain ⟨hlow, hhigh⟩ := h
  have habs : delta.natAbs ≤ 26 := by omega
  have hsum : min delta.natAbs tuMaxQpDeltaAbs + (delta.natAbs - tuMaxQpDeltaAbs) = delta.natAbs := by
    omega
  refine (tunary_reads ihevcCabQpDeltaAbs 0 ctxtMaxQpDeltaAbs (Nat.min_le_right ..)).bind ?_
  have hlarge : tuMaxQpDeltaAbs ≤ min delta.natAbs tuMaxQpDeltaAbs ↔
      tuMaxQpDeltaAbs ≤ delta.natAbs := by omega
  simp only [hlarge]
  refine (Reads.ite_pure (a := delta.natAbs - tuMaxQpDeltaAbs) (fun _ => eg0_reads ?_)
    (fun hle => ?_)).bind ?_
  · omega
  · omega
  rw [hsum]
  refine (Reads.ite_pure (a := decide (delta < 0)) (fun _ => decodeBypassBin_reads _)
    (fun hzero => decide_eq_false ?_)).bind_nil (Reads.pure_of_eq ?_)
  · omega
  · by_cases hneg : delta < 0
    · rw [if_pos (decide_eq_true hneg)]
      omega
    · rw [if_neg (by simpa using hneg)]
      omega

-- ---------------------------------------------------------------------------
-- The tree and its list of units
-- ---------------------------------------------------------------------------

structure TransformUnit (α : Type) where
  cbfLuma : Bool
  cbfCb : Bool
  cbfCr : Bool
  b7Qp : Int
  luma : α
  cb : α
  cr : α

inductive TransformTree (α : Type)
  | unit (u : TransformUnit α)
  | split (t0 t1 t2 t3 : TransformTree α)

/-- In 4:2:0 there is no second sub-TU. -/
def TransformUnit.tu (u : TransformUnit α) (log2TrSize x0 y0 : Nat) : TuEncLoopOut α where
  b4PosX := x0 / 4
  b4PosY := y0 / 4
  b3Size := log2TrSize - 2
  b1YCbf := u.cbfLuma
  b1CbCbf := u.cbfCb
  b1CbCbfSubtu1 := false
  b1CrCbf := u.cbfCr
  b1CrCbfSubtu1 := false
  b7Qp := u.b7Qp
  luma := u.luma
  cb := u.cb
  cr := u.cr

theorem tu_cbfCb (u : TransformUnit α) (log2TrSize x0 y0 : Nat) :
    (u.tu log2TrSize x0 y0).cbfCb = (u.cbfCb, false) := rfl

theorem tu_cbfCr (u : TransformUnit α) (log2TrSize x0 y0 : Nat) :
    (u.tu log2TrSize x0 y0).cbfCr = (u.cbfCr, false) := rfl

namespace TransformTree

/-- The list that the encoder has. -/
def units : TransformTree α → (log2TrSize x0 y0 : Nat) → List (TuEncLoopOut α)
  | .unit u, log2TrSize, x0, y0 => [u.tu log2TrSize x0 y0]
  | .split t0 t1 t2 t3, log2TrSize, x0, y0 =>
    let x1 := x0 + 2 ^ log2TrSize / 2
    let y1 := y0 + 2 ^ log2TrSize / 2
    t0.units (log2TrSize - 1) x0 y0 ++ (t1.units (log2TrSize - 1) x1 y0 ++
      (t2.units (log2TrSize - 1) x0 y1 ++ t3.units (log2TrSize - 1) x1 y1))

def isSplit : TransformTree α → Bool
  | .unit _ => false
  | .split .. => true

def first : TransformTree α → TransformUnit α
  | .unit u => u
  | .split t0 _ _ _ => t0.first

def firstLog2 : TransformTree α → Nat → Nat
  | .unit _, log2TrSize => log2TrSize
  | .split t0 _ _ _, log2TrSize => t0.firstLog2 (log2TrSize - 1)

def any (f : TransformUnit α → Bool) : TransformTree α → Bool
  | .unit u => f u
  | .split t0 t1 t2 t3 => t0.any f || (t1.any f || (t2.any f || t3.any f))

/-- A chroma flag of a node; the blocks of 8x8 have one chroma block, that of the first unit. -/
def nodeCbf (f : TransformUnit α → Bool) (t : TransformTree α) (log2TrSize : Nat) : Bool :=
  if log2TrSize = 3 then f t.first else t.any f

/-- What the decoder gets; four blocks of 4x4 have the chroma flags with the last one. -/
def decodedTus : TransformTree α → (log2TrSize x0 y0 : Nat) → (cb cr : Bool) → (blkIdx : Nat) →
    List Tu
  | .unit u, log2TrSize, x0, y0, cb, cr, blkIdx =>
    if 2 < log2TrSize then
      [⟨x0 / 4, y0 / 4, log2TrSize - 2, u.cbfLuma, u.cbfCb, u.cbfCr⟩]
    else
      [⟨x0 / 4, y0 / 4, log2TrSize - 2, u.cbfLuma, cb && decide (blkIdx = 3),
        cr && decide (blkIdx = 3)⟩]
  | .split t0 t1 t2 t3, log2TrSize, x0, y0, _, _, _ =>
    let x1 := x0 + 2 ^ log2TrSize / 2
    let y1 := y0 + 2 ^ log2TrSize / 2
    let cb := t0.first.cbfCb
    let cr := t0.first.cbfCr
    t0.decodedTus (log2TrSize - 1) x0 y0 cb cr 0 ++ (t1.decodedTus (log2TrSize - 1) x1 y0 cb cr 1 ++
      (t2.decodedTus (log2TrSize - 1) x0 y1 cb cr 2 ++ t3.decodedTus (log2TrSize - 1) x1 y1 cb cr 3))

end TransformTree

section
variable (p : TreeConfig) (cu : TreeCu)

/-- `split_transform_flag` is in the stream. -/
def SplitCoded (log2TrSize trDepth : Nat) : Prop :=
  log2TrSize ≤ p.i1Log2MaxTransformBlockSize ∧ p.i1Log2MinTransformBlockSize < log2TrSize ∧
    trDepth < i4MaxTrafoDepth p cu ∧ ¬ (cu.intraNxN = true ∧ trDepth = 0)

/-- The node is split without the flag. -/
def SplitInferred (log2TrSize trDepth : Nat) : Prop :=
  p.i1Log2MaxTransformBlockSize < log2TrSize ∨ (cu.intraNxN = true ∧ trDepth = 0) ∨
    (p.i1MaxTransformHierarchyDepthInter = 0 ∧ cu.isIntra = false ∧ cu.partMode ≠ .part2Nx2N ∧
      trDepth = 0)

/-- A residual quadtree that the syntax has. -/
def LegalTree : TransformTree α → (log2TrSize trDepth : Nat) → Prop
  | .unit _, log2TrSize, trDepth => ¬ SplitInferred p cu log2TrSize trDepth
  | .split t0 t1 t2 t3, log2TrSize, trDepth =>
    p.i1Log2MinTransformBlockSize < log2TrSize ∧
      (SplitCoded p cu log2TrSize trDepth ∨ SplitInferred p cu log2TrSize trDepth) ∧
      LegalTree t0 (log2TrSize - 1) (trDepth + 1) ∧ LegalTree t1 (log2TrSize - 1) (trDepth + 1) ∧
      LegalTree t2 (log2TrSize - 1) (trDepth + 1) ∧ LegalTree t3 (log2TrSize - 1) (trDepth + 1)

/-- The writer does not count the split of an intra NxN unit among the levels. -/
def LateNode (log2TrSize trDepth : Nat) : Prop :=
  cu.intraNxN = true ∧ trDepth ≠ 0 ∧ trDepth = p.i1MaxTransformHierarchyDepthIntra ∧
    p.i1Log2MinTransformBlockSize < log2TrSize ∧ log2TrSize ≤ p.i1Log2MaxTransformBlockSize

/-- No node of the tree is one for which only the parser has a flag. -/
def NoLateNode : TransformTree α → (log2TrSize trDepth : Nat) → Prop
  | .unit _, log2TrSize, trDepth => ¬ LateNode p cu log2TrSize trDepth
  | .split t0 t1 t2 t3, log2TrSize, trDepth =>
    ¬ LateNode p cu log2TrSize trDepth ∧
      NoLateNode t0 (log2TrSize - 1) (trDepth + 1) ∧ NoLateNode t1 (log2TrSize - 1) (trDepth + 1) ∧
      NoLateNode t2 (log2TrSize - 1) (trDepth + 1) ∧ NoLateNode t3 (log2TrSize - 1) (trDepth + 1)

instance (log2TrSize trDepth : Nat) : Decidable (SplitCoded p cu log2TrSize trDepth) :=
  inferInstanceAs (Decidable (_ ∧ _))

instance (log2TrSize trDepth : Nat) : Decidable (SplitInferred p cu log2TrSize trDepth) :=
  inferInstanceAs (Decidable (_ ∨ _))

instance (log2TrSize trDepth : Nat) : Decidable (LateNode p cu log2TrSize trDepth) :=
  inferInstanceAs (Decidable (_ ∧ _))

instance decidableLegalTree : (t : TransformTree α) → (log2TrSize trDepth : Nat) →
    Decidable (LegalTree p cu t log2TrSize trDepth)
  | .unit _, _, _ => inferInstanceAs (Decidable (¬ _))
  | .split t0 t1 t2 t3, log2TrSize, trDepth =>
    have := decidableLegalTree t0 (log2TrSize - 1) (trDepth + 1)
    have := decidableLegalTree t1 (log2TrSize - 1) (trDepth + 1)
    have := decidableLegalTree t2 (log2TrSize - 1) (trDepth + 1)
    have := decidableLegalTree t3 (log2TrSize - 1) (trDepth + 1)
    inferInstanceAs (Decidable (_ ∧ (_ ∨ _) ∧ _ ∧ _ ∧ _ ∧ _))

instance decidableNoLateNode : (t : TransformTree α) → (log2TrSize trDepth : Nat) →
    Decidable (NoLateNode p cu t log2TrSize trDepth)
  | .unit _, _, _ => inferInstanceAs (Decidable (¬ _))
  | .split t0 t1 t2 t3, log2TrSize, trDepth =>
    have := decidableNoLateNode t0 (log2TrSize - 1) (trDepth + 1)
    have := decidableNoLateNode t1 (log2TrSize - 1) (trDepth + 1)
    have := decidableNoLateNode t2 (log2TrSize - 1) (trDepth + 1)
    have := decidableNoLateNode t3 (log2TrSize - 1) (trDepth + 1)
    inferInstanceAs (Decidable (¬ _ ∧ _ ∧ _ ∧ _ ∧ _))

end

variable {p : TreeConfig} {cu : TreeCu}

-- ---------------------------------------------------------------------------
-- Places
-- ---------------------------------------------------------------------------

theorem half_eq (h : 0 < log2TrSize) : 2 ^ log2TrSize / 2 = 2 ^ (log2TrSize - 1) ∧
    2 ^ log2TrSize = 2 ^ (log2TrSize - 1) + 2 ^ (log2TrSize - 1) := by
  obtain ⟨n, rfl⟩ := Nat.exists_eq_succ_of_ne_zero (Nat.ne_of_gt h)
  rw [Nat.succ_eq_add_one, Nat.add_sub_cancel, Nat.pow_succ]
  omega

theorem four_mul_pow (h : 2 ≤ n) : 4 * 2 ^ (n - 2) = 2 ^ n := by
  obtain ⟨m, rfl⟩ := Nat.exists_eq_add_of_le h
  rw [Nat.add_sub_cancel_left, Nat.pow_add]

theorem four_dvd_half (h : 2 < log2TrSize) : 4 ∣ 2 ^ log2TrSize / 2 := by
  rw [(half_eq (Nat.zero_lt_of_lt h)).1]
  exact pow_dvd_pow 2 (show 2 ≤ log2TrSize - 1 by omega)

/-- The unit ends where the node does. -/
def EndsAt (tu : TuEncLoopOut α) (x y : Nat) : Prop :=
  tu.b4PosX * 4 + 2 ^ (tu.b3Size + 2) = x ∧ tu.b4PosY * 4 + 2 ^ (tu.b3Size + 2) = y

instance (tu : TuEncLoopOut α) (x y : Nat) : Decidable (EndsAt tu x y) :=
  inferInstanceAs (Decidable (_ ∧ _))

theorem tu_ends (u : TransformUnit α) (hlog : 2 ≤ log2TrSize) (hx : 4 ∣ x0) (hy : 4 ∣ y0) :
    EndsAt (u.tu log2TrSize x0 y0) (x0 + 2 ^ log2TrSize) (y0 + 2 ^ log2TrSize) := by
  unfold EndsAt TransformUnit.tu
  simp only [Nat.sub_add_cancel hlog, Nat.div_mul_cancel hx, Nat.div_mul_cancel hy, and_self]

section
variable (hmin : 2 ≤ p.i1Log2MinTransformBlockSize)
include hmin

theorem units_within (t : TransformTree α) (hlog : p.i1Log2MinTransformBlockSize ≤ log2TrSize)
    (hlegal : LegalTree p cu t log2TrSize trDepth) (hx : 4 ∣ x0) (hy : 4 ∣ y0) :
    ∀ tu ∈ t.units log2TrSize x0 y0, tu.b4PosX * 4 + 2 ^ (tu.b3Size + 2) ≤ x0 + 2 ^ log2TrSize ∧
      tu.b4PosY * 4 + 2 ^ (tu.b3Size + 2) ≤ y0 + 2 ^ log2TrSize := by
  induction t generalizing log2TrSize trDepth x0 y0 with
  | unit u =>
    intro tu htu
    obtain rfl := List.mem_singleton.mp htu
    obtain ⟨hendX, hendY⟩ := tu_ends u (hmin.trans hlog) hx hy
    exact ⟨Nat.le_of_eq hendX, Nat.le_of_eq hendY⟩
  | split t0 t1 t2 t3 ih0 ih1 ih2 ih3 =>
    obtain ⟨hlt, -, h0, h1, h2, h3⟩ := hlegal
    obtain ⟨hhalf, hdouble⟩ := half_eq (Nat.zero_lt_of_lt hlt)
    have hpos := Nat.two_pow_pos (log2TrSize - 1)
    have hx1 := Nat.dvd_add hx (four_dvd_half (show 2 < log2TrSize by omega))
    have hy1 := Nat.dvd_add hy (four_dvd_half (show 2 < log2TrSize by omega))
    intro tu htu
    rw [hhalf] at hx1 hy1
    simp only [TransformTree.units, List.mem_append, hhalf] at htu
    rw [hdouble]
    rcases htu with htu | htu | htu | htu
    · have hend := ih0 (by omega) h0 hx hy tu htu
      omega
    · have hend := ih1 (by omega) h1 hx1 hy tu htu
      omega
    · have hend := ih2 (by omega) h2 hx hy1 tu htu
      omega
    · have hend := ih3 (by omega) h3 hx1 hy1 tu htu
      omega

/-- Only the last unit ends where the node does. -/
theorem units_last (t : TransformTree α) (hlog : p.i1Log2MinTransformBlockSize ≤ log2TrSize)
    (hlegal : LegalTree p cu t log2TrSize trDepth) (hx : 4 ∣ x0) (hy : 4 ∣ y0) :
    ∃ l tu, t.units log2TrSize x0 y0 = l ++ [tu] ∧
      EndsAt tu (x0 + 2 ^ log2TrSize) (y0 + 2 ^ log2TrSize) ∧
      ∀ tu' ∈ l, ¬ EndsAt tu' (x0 + 2 ^ log2TrSize) (y0 + 2 ^ log2TrSize) := by
  induction t generalizing log2TrSize trDepth x0 y0 with
  | unit u => exact ⟨[], _, rfl, tu_ends u (hmin.trans hlog) hx hy, by simp⟩
  | split t0 t1 t2 t3 ih0 ih1 ih2 ih3 =>
    obtain ⟨hlt, -, h0, h1, h2, h3⟩ := hlegal
    obtain ⟨hhalf, hdouble⟩ := half_eq (Nat.zero_lt_of_lt hlt)
    have hpos := Nat.two_pow_pos (log2TrSize - 1)
    have hx1 := Nat.dvd_add hx (four_dvd_half (show 2 < log2TrSize by omega))
    have hy1 := Nat.dvd_add hy (four_dvd_half (show 2 < log2TrSize by omega))
    obtain ⟨l, tu, hl, hend, hother⟩ := ih3 (by omega) h3 hx1 hy1
    rw [hhalf, Nat.add_assoc, Nat.add_assoc, ← hdouble] at hend hother
    refine ⟨t0.units (log2TrSize - 1) x0 y0 ++
      (t1.units (log2TrSize - 1) (x0 + 2 ^ log2TrSize / 2) y0 ++
        (t2.units (log2TrSize - 1) x0 (y0 + 2 ^ log2TrSize / 2) ++ l)), tu, ?_, hend, ?_⟩
    · rw [hhalf] at hl ⊢
      simp only [TransformTree.units, hhalf, hl, List.append_assoc]
    · intro tu' htu' hends
      unfold EndsAt at hends
      simp only [List.mem_append] at htu'
      rcases htu' with htu' | htu' | htu' | htu'
      · have hle := units_within hmin t0 (by omega) h0 hx hy tu' htu'
        omega
      · have hle := units_within hmin t1 (by omega) h1 hx1 hy tu' htu'
        omega
      · have hle := units_within hmin t2 (by omega) h2 hx hy1 tu' htu'
        omega
      · exact hother tu' htu' hends

theorem units_head (t : TransformTree α) (hlog : p.i1Log2MinTransformBlockSize ≤ log2TrSize)
    (hlegal : LegalTree p cu t log2TrSize trDepth) (x0 y0 : Nat) :
    (∃ l, t.units log2TrSize x0 y0 = t.first.tu (t.firstLog2 log2TrSize) x0 y0 :: l) ∧
      2 ≤ t.firstLog2 log2TrSize ∧ t.firstLog2 log2TrSize ≤ log2TrSize := by
  induction t generalizing log2TrSize trDepth with
  | unit u => exact ⟨⟨[], rfl⟩, hmin.trans hlog, le_rfl⟩
  | split t0 t1 t2 t3 ih0 ih1 ih2 ih3 =>
    obtain ⟨hlt, -, h0, -, -, -⟩ := hlegal
    obtain ⟨⟨l, hl⟩, hlow, hhigh⟩ := ih0 (by omega) h0
    exact ⟨⟨_, congrArg (· ++ _) hl⟩, hlow, hhigh.trans (Nat.sub_le _ _)⟩

/-- The size of the first unit says whether the node is split. -/
theorem first_lt_iff (t : TransformTree α) (hlog : p.i1Log2MinTransformBlockSize ≤ log2TrSize)
    (hlegal : LegalTree p cu t log2TrSize trDepth) :
    4 * 2 ^ (t.firstLog2 log2TrSize - 2) < 2 ^ log2TrSize ↔ t.isSplit = true := by
  obtain ⟨-, hlow, -⟩ := units_head hmin t hlog hlegal 0 0
  rw [four_mul_pow hlow, Nat.pow_lt_pow_iff_right Nat.one_lt_two]
  cases t with
  | unit u => simp [TransformTree.firstLog2, TransformTree.isSplit]
  | split t0 t1 t2 t3 =>
    obtain ⟨hlt, -, h0, -, -, -⟩ := hlegal
    obtain ⟨-, -, hhigh⟩ := units_head hmin t0 (show _ ≤ log2TrSize - 1 by omega) h0 0 0
    have hsmall : (TransformTree.split t0 t1 t2 t3).firstLog2 log2TrSize < log2TrSize := by
      change t0.firstLog2 (log2TrSize - 1) < log2TrSize
      omega
    exact iff_of_true hsmall rfl

end

-- ---------------------------------------------------------------------------
-- The flags of a node
-- ---------------------------------------------------------------------------

/-- Units that do not end with the node: the loop goes on until one has the flag. -/
theorem peekCbf_append {cbf : TuEncLoopOut α → Bool × Bool} (hlog : log2TrSize ≠ 3)
    (hcbf : ∀ tu ∈ l, (cbf tu).2 = false)
    (hends : ∀ tu ∈ l, ¬ EndsAt tu (x0 + 2 ^ log2TrSize) (y0 + 2 ^ log2TrSize))
    (rest : List (TuEncLoopOut α)) :
    peekCbf cbf x0 y0 log2TrSize (l ++ rest) =
      if l.any fun tu => (cbf tu).1 then some (true, false)
      else peekCbf cbf x0 y0 log2TrSize rest := by
  induction l with
  | nil => rfl
  | cons tu l ih =>
    have hsnd := hcbf tu (List.mem_cons_self ..)
    have hnot := hends tu (List.mem_cons_self ..)
    unfold EndsAt at hnot
    rw [List.cons_append, peekCbf, hsnd, Bool.or_false, List.any_cons]
    cases hfst : (cbf tu).1 with
    | true => simp [Prod.ext_iff, hfst, hsnd]
    | false =>
      simp only [Bool.false_eq_true, if_false, if_neg hlog, if_neg hnot, Bool.false_or]
      exact ih (fun tu htu => hcbf tu (List.mem_cons_of_mem _ htu))
        fun tu htu => hends tu (List.mem_cons_of_mem _ htu)

theorem units_any {cbf : TuEncLoopOut α → Bool × Bool} {f : TransformUnit α → Bool}
    (hcbf : ∀ (u : TransformUnit α) l x y, cbf (u.tu l x y) = (f u, false)) (t : TransformTree α)
    (log2TrSize x0 y0 : Nat) :
    (∀ tu ∈ t.units log2TrSize x0 y0, (cbf tu).2 = false) ∧
      (t.units log2TrSize x0 y0).any (fun tu => (cbf tu).1) = t.any f := by
  induction t generalizing log2TrSize x0 y0 with
  | unit u => simp [TransformTree.units, TransformTree.any, hcbf]
  | split t0 t1 t2 t3 ih0 ih1 ih2 ih3 =>
    refine ⟨fun tu htu => ?_, ?_⟩
    · simp only [TransformTree.units, List.mem_append] at htu
      rcases htu with htu | htu | htu | htu
      · exact (ih0 _ _ _).1 tu htu
      · exact (ih1 _ _ _).1 tu htu
      · exact (ih2 _ _ _).1 tu htu
      · exact (ih3 _ _ _).1 tu htu
    · simp only [TransformTree.units, List.any_append, TransformTree.any, (ih0 _ _ _).2,
        (ih1 _ _ _).2, (ih2 _ _ _).2, (ih3 _ _ _).2]

theorem any_first {f : TransformUnit α → Bool} {t : TransformTree α} (h : t.any f = false) :
    f t.first = false := by
  induction t with
  | unit u => exact h
  | split t0 t1 t2 t3 ih0 ih1 ih2 ih3 => exact ih0 (Bool.or_eq_false_iff.mp h).1

theorem peekCbf_units {cbf : TuEncLoopOut α → Bool × Bool} {f : TransformUnit α → Bool}
    (hcbf : ∀ (u : TransformUnit α) l x y, cbf (u.tu l x y) = (f u, false))
    (hmin : 2 ≤ p.i1Log2MinTransformBlockSize) (t : TransformTree α)
    (hlog : p.i1Log2MinTransformBlockSize ≤ log2TrSize)
    (hlegal : LegalTree p cu t log2TrSize trDepth) (hx : 4 ∣ x0) (hy : 4 ∣ y0)
    (rest : List (TuEncLoopOut α)) :
    peekCbf cbf x0 y0 log2TrSize (t.units log2TrSize x0 y0 ++ rest) =
      some (t.nodeCbf f log2TrSize, false) := by
  unfold TransformTree.nodeCbf
  by_cases hthree : log2TrSize = 3
  · obtain ⟨⟨l, hl⟩, -, -⟩ := units_head hmin t hlog hlegal x0 y0
    rw [hl, List.cons_append, peekCbf, hcbf, Bool.or_false, if_pos hthree]
    cases f t.first <;> simp [hthree]
  · obtain ⟨l, tu, hl, hend, hother⟩ := units_last hmin t hlog hlegal hx hy
    obtain ⟨hsnd, hany⟩ := units_any hcbf t log2TrSize x0 y0
    rw [hl] at hsnd hany
    have hlast := hsnd tu (by simp)
    rw [List.any_append, List.any_cons, List.any_nil, Bool.or_false] at hany
    rw [hl, List.append_assoc, peekCbf_append hthree
      (fun tu' htu' => hsnd tu' (List.mem_append_left _ htu')) hother, if_neg hthree, ← hany]
    unfold EndsAt at hend
    cases l.any fun tu => (cbf tu).1 with
    | true => rfl
    | false =>
      rw [if_neg Bool.false_ne_true, List.singleton_append, peekCbf, hlast, Bool.or_false,
        if_neg hthree, if_pos hend, Bool.false_or]
      cases hfst : (cbf tu).1 <;> simp [Prod.ext_iff, hfst, hlast]

/-- One chroma flag of a node above 4x4. -/
theorem chromaCbf_reads {cbf : TuEncLoopOut α → Bool × Bool} {f : TransformUnit α → Bool}
    (hcbf : ∀ (u : TransformUnit α) l x y, cbf (u.tu l x y) = (f u, false))
    (hmin : 2 ≤ p.i1Log2MinTransformBlockSize) (t : TransformTree α)
    (hlog : p.i1Log2MinTransformBlockSize ≤ log2TrSize)
    (hlegal : LegalTree p cu t log2TrSize trDepth) (hx : 4 ∣ x0) (hy : 4 ∣ y0)
    (rest : List (TuEncLoopOut α)) (htwo : 2 < log2TrSize) {apu1Cbf : Nat → Bool × Bool}
    {ai1Cbf : Nat → Bool}
    (hparent : trDepth ≠ 0 → apu1Cbf (trDepth - 1) = (ai1Cbf (trDepth - 1), false))
    (hnone : trDepth ≠ 0 → ai1Cbf (trDepth - 1) = false → t.any f = false) :
    ∃ bins : List (Bin ρ),
      encodeChromaCbf cbf apu1Cbf x0 y0 log2TrSize trDepth (t.units log2TrSize x0 y0 ++ rest) =
        some ((t.nodeCbf f log2TrSize, false), bins) ∧
      Reads (parseChromaCbf ai1Cbf log2TrSize trDepth) bins
        (setDepth ai1Cbf trDepth (t.nodeCbf f log2TrSize)) := by
  by_cases hcoded : trDepth = 0 ∨ ai1Cbf (trDepth - 1) = true
  · refine ⟨[.ctxt (ihevcCabCbcrIdx + trDepth) (t.nodeCbf f log2TrSize)], ?_, ?_⟩
    · have hpar : trDepth = 0 ∨ (apu1Cbf (trDepth - 1)).1 = true ∨
          (apu1Cbf (trDepth - 1)).2 = true := by
        by_cases hzero : trDepth = 0
        · exact .inl hzero
        · rw [hparent hzero]
          exact .inr (.inl (hcoded.resolve_left hzero))
      simp only [encodeChromaCbf, if_pos hpar, peekCbf_units hcbf hmin t hlog hlegal hx hy,
        Option.map_some, Bool.or_false]
    · unfold parseChromaCbf
      simp only [if_pos (And.intro htwo hcoded)]
      exact (decodeBin_reads _ _).bind_nil (Reads.pure _)
  · rw [not_or, Bool.not_eq_true] at hcoded
    obtain ⟨hzero, hfalse⟩ := hcoded
    have hany := hnone hzero hfalse
    have hnode : t.nodeCbf f log2TrSize = false := by
      unfold TransformTree.nodeCbf
      split
      · exact any_first hany
      · exact hany
    refine ⟨[], ?_, ?_⟩
    · simp [encodeChromaCbf, hparent hzero, hfalse, hzero, hnode]
    · unfold parseChromaCbf
      simp only [hzero, hfalse, hnode, false_or, Bool.false_eq_true, and_false, if_false]
      exact Reads.nil_bind (Reads.pure _) (Reads.pure _)

/-- Both sides have the flag, but for late nodes. -/
theorem splitCoded_iff (hlate : ¬ LateNode p cu log2TrSize trDepth) :
    (log2TrSize ≤ p.i1Log2MaxTransformBlockSize ∧ p.i1Log2MinTransformBlockSize < log2TrSize ∧
      trDepth < maxTrDepth p cu ∧ ¬ (cu.intraNxN = true ∧ trDepth = 0)) ↔
      SplitCoded p cu log2TrSize trDepth := by
  unfold SplitCoded maxTrDepth i4MaxTrafoDepth
  by_cases hintra : cu.isIntra = true
  · simp only [if_pos hintra]
    cases hnxn : cu.intraNxN with
    | false => rfl
    | true =>
      unfold LateNode at hlate
      rw [hnxn] at hlate
      simp only [Bool.toNat_true, true_and]
      constructor
      · rintro ⟨hmax, hmin, hdepth, hzero⟩
        exact ⟨hmax, hmin, Nat.lt_succ_of_lt hdepth, hzero⟩
      · rintro ⟨hmax, hmin, hdepth, hzero⟩
        refine ⟨hmax, hmin, ?_, hzero⟩
        have hne : trDepth ≠ p.i1MaxTransformHierarchyDepthIntra := fun heq =>
          hlate ⟨rfl, fun h0 => hzero h0, heq, hmin, hmax⟩
        omega
  · simp only [if_neg hintra]

theorem splitInferred_iff : (p.i1Log2MaxTransformBlockSize < log2TrSize ∨
      (cu.intraNxN = true ∧ trDepth = 0) ∨ (cu.isIntra = false ∧ maxTrDepth p cu = 0 ∧
        trDepth = 0 ∧ cu.partMode ≠ .part2Nx2N)) ↔ SplitInferred p cu log2TrSize trDepth := by
  unfold SplitInferred maxTrDepth
  refine or_congr_right (or_congr_right ?_)
  constructor
  · rintro ⟨hintra, hdepth, hzero, hpart⟩
    rw [hintra, if_neg Bool.false_ne_true] at hdepth
    exact ⟨hdepth, hintra, hpart, hzero⟩
  · rintro ⟨hdepth, hintra, hpart, hzero⟩
    refine ⟨hintra, ?_, hzero, hpart⟩
    rw [hintra, if_neg Bool.false_ne_true, hdepth]

theorem LegalTree.isSplit_iff {t : TransformTree α} (h : LegalTree p cu t log2TrSize trDepth)
    (hcoded : ¬ SplitCoded p cu log2TrSize trDepth) :
    SplitInferred p cu log2TrSize trDepth ↔ t.isSplit = true := by
  cases t with
  | unit u => exact iff_of_false h Bool.false_ne_true
  | split t0 t1 t2 t3 => exact iff_of_true (h.2.1.resolve_left hcoded) rfl

/-- The split flag, in the stream or derived. -/
theorem splitFlag_reads (hmin : 2 ≤ p.i1Log2MinTransformBlockSize) (t : TransformTree α)
    (hlog : p.i1Log2MinTransformBlockSize ≤ log2TrSize)
    (hlegal : LegalTree p cu t log2TrSize trDepth) (hlate : ¬ LateNode p cu log2TrSize trDepth) :
    ∃ bins : List (Bin ρ),
      encodeSplitTrFlag p cu (4 * 2 ^ (t.firstLog2 log2TrSize - 2)) log2TrSize trDepth =
        (t.isSplit, bins) ∧
      Reads (parseSplitTransformFlag p cu log2TrSize trDepth) bins t.isSplit := by
  have hcoded := splitCoded_iff hlate
  by_cases h : SplitCoded p cu log2TrSize trDepth
  · have hsize : decide (4 * 2 ^ (t.firstLog2 log2TrSize - 2) < 2 ^ log2TrSize) = t.isSplit := by
      rw [Bool.eq_iff_iff, decide_eq_true_iff]
      exact first_lt_iff hmin t hlog hlegal
    refine ⟨[.ctxt (ihevcCabSplitTfm + (5 - log2TrSize)) t.isSplit], ?_, ?_⟩
    · simp only [encodeSplitTrFlag, if_pos (hcoded.mpr h), hsize]
    · unfold SplitCoded at h
      unfold parseSplitTransformFlag
      simp only [if_pos h]
      exact decodeBin_reads _ _
  · have hvalue := hlegal.isSplit_iff h
    refine ⟨[], ?_, ?_⟩
    · simp only [encodeSplitTrFlag, if_neg (hcoded.not.mpr h), splitInferred_iff, hvalue,
        Bool.decide_eq_true]
    · unfold SplitCoded at h
      unfold parseSplitTransformFlag
      simp only [if_neg h]
      refine Reads.pure_of_eq ?_
      rw [Bool.eq_iff_iff, decide_eq_true_iff]
      exact hvalue

end Libhevc.RoundTrip
