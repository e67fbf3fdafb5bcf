import Mathlib.Data.Finset.Card
import Mathlib.Data.List.GetD
import Mathlib.Data.List.Induction
import Mathlib.Order.Interval.Finset.Nat
import Mathlib.Tactic.Common

/-!
# Zero-run escaping

An escaping scheme keeps a byte string free of `limit` zeros followed by a
small byte: when `limit` zeros have been written and the next byte is at most
`top`, the byte `esc` is written before it. The run of zeros is a state of both
directions, so escaping is stated from any run.

The bytes that get an escape are those that find the run of zeros full. Their number is what
escaping adds to the length, and they keep their distance.
-/

namespace Escape

/-- After `limit` zeros a byte that is at most `top` is escaped with `esc`. -/
structure Scheme where
  limit : Nat
  top : Nat
  esc : Nat
  limit_pos : 0 < limit
  esc_pos : 0 < esc
  esc_le : esc ≤ top

/-- The run of zeros after byte `b`. -/
def step (run b : Nat) : Nat := if b = 0 then run + 1 else 0

/-- The run of zeros after the bytes `l`. -/
def zeroRun (run : Nat) (l : List Nat) : Nat := l.foldl step run

@[simp] theorem step_zero : step run 0 = run + 1 := rfl

theorem step_pos (h : 0 < b) : step run b = 0 := by
  simp [step, Nat.ne_of_gt h]

@[simp] theorem zeroRun_nil : zeroRun run [] = run := rfl

@[simp] theorem zeroRun_cons : zeroRun run (b :: l) = zeroRun (step run b) l := rfl

theorem zeroRun_append : zeroRun run (l ++ m) = zeroRun (zeroRun run l) m :=
  List.foldl_append

theorem zeroRun_snoc : zeroRun run (l ++ [b]) = step (zeroRun run l) b := by
  simp [zeroRun_append]

theorem zeroRun_zeros : zeroRun run (List.replicate n 0) = run + n := by
  induction n generalizing run with
  | zero => rfl
  | succ n ih =>
    rw [List.replicate_succ, zeroRun_cons, ih, step_zero]
    omega

/-- A run counted from 0 is made of zeros at the end. -/
theorem zeros_of_zeroRun (h : n ≤ zeroRun 0 l) : ∃ k, l = k ++ List.replicate n 0 := by
  induction l using List.reverseRecOn generalizing n with
  | nil =>
    obtain rfl : n = 0 := by simpa using h
    exact ⟨[], rfl⟩
  | append_singleton l b ih =>
    rw [zeroRun_snoc, step] at h
    cases n with
    | zero => exact ⟨l ++ [b], by simp⟩
    | succ n =>
      by_cases hb : b = 0
      · rw [if_pos hb] at h
        obtain ⟨k, rfl⟩ := ih (n := n) (by omega)
        exact ⟨k, by rw [hb, List.replicate_succ', List.append_assoc]⟩
      · rw [if_neg hb] at h
        omega

variable (S : Scheme)

/-- What is written for byte `b`. -/
def Scheme.put (run b : Nat) : List Nat :=
  if run = S.limit ∧ b ≤ S.top then [S.esc, b] else [b]

def Scheme.escape : Nat → List Nat → List Nat
  | _, [] => []
  | run, b :: l => S.put run b ++ Scheme.escape (zeroRun run (S.put run b)) l

def Scheme.unescape : Nat → List Nat → List Nat
  | _, [] => []
  | run, b :: l =>
    if run = S.limit ∧ b = S.esc then Scheme.unescape 0 l
    else b :: Scheme.unescape (step run b) l

variable {S}

@[simp] theorem escape_nil : S.escape run [] = [] := rfl

theorem escape_append :
    S.escape run (l ++ m) = S.escape run l ++ S.escape (zeroRun run (S.escape run l)) m := by
  induction l generalizing run with
  | nil => rfl
  | cons b l ih => simp [Scheme.escape, ih, zeroRun_append]

theorem escape_snoc :
    S.escape run (l ++ [b]) = S.escape run l ++ S.put (zeroRun run (S.escape run l)) b := by
  simp [escape_append, Scheme.escape]

theorem put_escaped (hr : run = S.limit) (hb : b ≤ S.top) : S.put run b = [S.esc, b] :=
  if_pos ⟨hr, hb⟩

theorem put_plain (h : ¬(run = S.limit ∧ b ≤ S.top)) : S.put run b = [b] := if_neg h

theorem put_length_le (run b : Nat) : (S.put run b).length ≤ 2 := by
  unfold Scheme.put
  split <;> simp

theorem put_length_pos (run b : Nat) : 0 < (S.put run b).length := by
  unfold Scheme.put
  split <;> simp

/-- Escaping at most doubles a string and never shortens it. -/
theorem length_escape (run : Nat) (l : List Nat) :
    l.length ≤ (S.escape run l).length ∧ (S.escape run l).length ≤ 2 * l.length := by
  induction l generalizing run with
  | nil => simp
  | cons b l ih =>
    have hle := put_length_le (S := S) run b
    have hpos := put_length_pos (S := S) run b
    have := ih (zeroRun run (S.put run b))
    simp only [Scheme.escape, List.length_append, List.length_cons]
    omega

theorem zeroRun_put_le (hr : run ≤ S.limit) : zeroRun run (S.put run b) ≤ S.limit := by
  have hlim := S.limit_pos
  have hesc := S.esc_pos
  by_cases h : run = S.limit ∧ b ≤ S.top
  · rw [put_escaped h.1 h.2]
    rw [zeroRun_cons, step_pos hesc, zeroRun_cons, zeroRun_nil, step]
    split <;> omega
  · rw [put_plain h, zeroRun_cons, zeroRun_nil, step]
    split <;> omega

theorem zeroRun_escape_le (hr : run ≤ S.limit) : zeroRun run (S.escape run l) ≤ S.limit := by
  induction l generalizing run with
  | nil => exact hr
  | cons b l ih =>
    rw [Scheme.escape, zeroRun_append]
    exact ih (zeroRun_put_le hr)

theorem unescape_put :
    S.unescape run (S.put run b ++ m) = b :: S.unescape (zeroRun run (S.put run b)) m := by
  have hlim := S.limit_pos
  have hesc := S.esc_pos
  by_cases hb : run = S.limit ∧ b ≤ S.top
  · rw [put_escaped hb.1 hb.2]
    have h0 : ¬(0 = S.limit ∧ b = S.esc) := by omega
    simp [Scheme.unescape, hb.1, h0, step_pos hesc]
  · rw [put_plain hb]
    have hne : ¬(run = S.limit ∧ b = S.esc) := by
      rintro ⟨h1, h2⟩
      exact hb ⟨h1, h2 ▸ S.esc_le⟩
    simp [Scheme.unescape, hne]

/-- Escaping is undone exactly, whatever follows. -/
theorem unescape_escape_append :
    S.unescape run (S.escape run l ++ m) = l ++ S.unescape (zeroRun run (S.escape run l)) m := by
  induction l generalizing run with
  | nil => rfl
  | cons b l ih =>
    rw [Scheme.escape, List.append_assoc, unescape_put, ih, zeroRun_append]
    rfl

theorem unescape_escape : S.unescape run (S.escape run l) = l := by
  simpa [Scheme.unescape] using (unescape_escape_append : S.unescape run (S.escape run l ++ []) = _)

-- ---------------------------------------------------------------------------
-- What escaped strings look like
-- ---------------------------------------------------------------------------

/-- Read from run `run`, no byte after `limit` zeros is a small byte other than `esc`. -/
def Scheme.Safe (S : Scheme) : Nat → List Nat → Prop
  | _, [] => True
  | run, b :: l => (run = S.limit → b = S.esc ∨ S.top < b) ∧ Scheme.Safe S (step run b) l

theorem Scheme.Safe.append :
    S.Safe run (l ++ m) ↔ S.Safe run l ∧ S.Safe (zeroRun run l) m := by
  induction l generalizing run with
  | nil => simp [Scheme.Safe]
  | cons b l ih => simp [Scheme.Safe, ih, and_assoc]

theorem safe_put : S.Safe run (S.put run b) := by
  have hlim := S.limit_pos
  by_cases h : run = S.limit ∧ b ≤ S.top
  · rw [put_escaped h.1 h.2]
    refine ⟨fun _ => .inl rfl, fun h0 => ?_, trivial⟩
    rw [step_pos S.esc_pos] at h0
    omega
  · rw [put_plain h]
    exact ⟨fun hr => .inr (by omega), trivial⟩

theorem safe_escape : S.Safe run (S.escape run l) := by
  induction l generalizing run with
  | nil => trivial
  | cons b l ih => exact Scheme.Safe.append.mpr ⟨safe_put, ih⟩

theorem Scheme.Safe.run_le (h : S.Safe run l) (hr : run ≤ S.limit) : zeroRun run l ≤ S.limit := by
  induction l generalizing run with
  | nil => exact hr
  | cons b l ih =>
    obtain ⟨hb, hl⟩ := h
    refine ih hl ?_
    have hesc := S.esc_pos
    unfold step
    split <;> omega

/-- In an escaped string `limit` zeros are followed by `esc` or by a byte above `top`. -/
theorem escape_window (hr : run ≤ S.limit)
    (h : S.escape run l = p ++ List.replicate S.limit 0 ++ b :: s) : b = S.esc ∨ S.top < b := by
  have hsafe : S.Safe run (p ++ List.replicate S.limit 0 ++ b :: s) := h ▸ safe_escape
  obtain ⟨hp, hb, -⟩ := Scheme.Safe.append.mp hsafe
  have hle := hp.run_le hr
  rw [zeroRun_append, zeroRun_zeros] at hle hb
  exact hb (by omega)

/-- An escaped string never ends with `limit` zeros and `esc`: something follows an escape. -/
theorem escape_end (hr : run ≤ S.limit) :
    S.escape run l ≠ p ++ List.replicate S.limit 0 ++ [S.esc] := by
  intro h
  rcases l.eq_nil_or_concat with rfl | ⟨l, b, rfl⟩
  · simp at h
  have hlim := S.limit_pos
  have hesc := S.esc_pos
  rw [List.concat_eq_append, escape_snoc] at h
  set run' := zeroRun run (S.escape run l)
  by_cases hb : run' = S.limit ∧ b ≤ S.top
  · rw [put_escaped hb.1 hb.2, List.append_cons] at h
    obtain ⟨hpre, -⟩ := List.append_inj' h rfl
    have hrun := congrArg (zeroRun run) hpre
    rw [zeroRun_snoc, zeroRun_append, zeroRun_zeros, step_pos hesc] at hrun
    omega
  · rw [put_plain hb] at h
    obtain ⟨hpre, hlast⟩ := List.append_inj' h rfl
    have hrun : run' = zeroRun run p + S.limit := by
      rw [← zeroRun_zeros, ← zeroRun_append, ← hpre]
    have hle : run' ≤ S.limit := zeroRun_escape_le hr
    have hbe : b = S.esc := by simpa using hlast
    exact hb ⟨by omega, hbe ▸ S.esc_le⟩

-- ---------------------------------------------------------------------------
-- Where the escapes are
-- ---------------------------------------------------------------------------

/-- The run of zeros in front of byte `i`. -/
def Scheme.runAt (S : Scheme) (l : List Nat) (i : Nat) : Nat := zeroRun 0 (S.escape 0 (l.take i))

/-- Byte `i` is written with an escape in front. -/
def Scheme.EscapesAt (S : Scheme) (l : List Nat) (i : Nat) : Prop :=
  S.runAt l i = S.limit ∧ l.getD i 0 ≤ S.top

instance : DecidablePred (S.EscapesAt l) := fun _ => inferInstanceAs (Decidable (_ ∧ _))

theorem escape_take_succ (h : i < l.length) :
    S.escape 0 (l.take (i + 1)) =
      S.escape 0 (l.take i) ++ S.put (S.runAt l i) (l.getD i 0) := by
  rw [List.take_succ_eq_append_getElem h, escape_snoc, List.getD_eq_getElem _ _ h]
  rfl

theorem runAt_succ (h : i < l.length) :
    S.runAt l (i + 1) = step (if S.EscapesAt l i then 0 else S.runAt l i) (l.getD i 0) := by
  unfold Scheme.runAt
  rw [escape_take_succ h, zeroRun_append]
  by_cases hesc : S.EscapesAt l i
  · rw [put_escaped hesc.1 hesc.2, if_pos hesc, zeroRun_cons, step_pos S.esc_pos]
    rfl
  · rw [put_plain hesc, if_neg hesc]
    rfl

theorem length_put_runAt (l : List Nat) (i : Nat) :
    (S.put (S.runAt l i) (l.getD i 0)).length = 1 + if S.EscapesAt l i then 1 else 0 := by
  by_cases hesc : S.EscapesAt l i
  · rw [put_escaped hesc.1 hesc.2, if_pos hesc]
    rfl
  · rw [put_plain hesc, if_neg hesc]
    rfl

/-- The bytes `q` to `q + k` take their own room and one byte for each escape. -/
theorem length_escape_take (h : q + k ≤ l.length) :
    (S.escape 0 (l.take (q + k))).length =
      (S.escape 0 (l.take q)).length + k +
        ((Finset.Ico q (q + k)).filter (S.EscapesAt l)).card := by
  induction k with
  | zero => simp
  | succ k ih =>
    have hico : Finset.Ico q (q + (k + 1)) = insert (q + k) (Finset.Ico q (q + k)) := by
      rw [← Nat.add_assoc, Nat.Ico_succ_right_eq_insert_Ico (by omega)]
    rw [← Nat.add_assoc, escape_take_succ (by omega), List.length_append, ih (by omega),
      length_put_runAt, Nat.add_assoc q, hico, Finset.filter_insert]
    split
    · rw [Finset.card_insert_of_notMem (by simp)]
      omega
    · omega

/-- What the run counts is zeros. -/
theorem zero_of_lt_runAt (hi : i ≤ l.length) (h : j < S.runAt l i) :
    j < i ∧ l.getD (i - 1 - j) 0 = 0 := by
  induction i generalizing j with
  | zero =>
    rw [Scheme.runAt, List.take_zero] at h
    exact absurd h (Nat.not_lt_zero j)
  | succ i ih =>
    rw [runAt_succ (by omega), step] at h
    split at h
    · rename_i hzero
      cases j with
      | zero => exact ⟨by omega, hzero⟩
      | succ j =>
        have hj : j < S.runAt l i := by
          split at h <;> omega
        obtain ⟨hji, hz⟩ := ih (by omega) hj
        refine ⟨by omega, ?_⟩
        rw [show i + 1 - 1 - (j + 1) = i - 1 - j by omega]
        exact hz
    · omega

/-- After an escape the run begins again. -/
theorem runAt_after (h : S.EscapesAt l i) (hi : i + (t + 1) ≤ l.length) :
    S.runAt l (i + (t + 1)) ≤ t + 1 := by
  induction t with
  | zero =>
    rw [runAt_succ (by omega), if_pos h, step]
    split <;> omega
  | succ t ih =>
    have hle := ih (by omega)
    rw [← Nat.add_assoc, runAt_succ (by omega), step]
    split
    · split <;> omega
    · omega

theorem EscapesAt.gap (h : S.EscapesAt l i) (h' : S.EscapesAt l i') (hlt : i < i')
    (hi : i' < l.length) : i + S.limit ≤ i' := by
  obtain ⟨t, rfl⟩ : ∃ t, i' = i + (t + 1) := ⟨i' - i - 1, by omega⟩
  have hle := runAt_after h (t := t) (by omega)
  have hrun := h'.1
  omega

end Escape
