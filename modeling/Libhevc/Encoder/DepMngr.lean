import Libhevc.Common.Platform
import Mathlib.Logic.Function.Basic

/-!
# The row dependency manager of the encoder

`ihevce_dep_mngr.c`, the functions for row to row dependencies. Every access to the
shared memory and every operation on a semaphore is one step of the thread that makes
it; the position of a thread holds its local variables.
-/

namespace Libhevc.Encoder

/-- `dep_mngr_state_t`, and the memory its pointers point into. -/
structure DepMngr where
  numHorzUnits : Int
  numVertUnits : Nat
  numTileCols : Nat
  numThrds : Nat
  semEnable : Bool
  unitsPrcsdInRow : Nat → Int
  waitThrdId : Nat → Int

/-- The place of a row of a tile column in `pv_units_prcsd_in_row`. -/
def DepMngr.unit (d : DepMngr) (tileCol row : Nat) : Nat := tileCol * d.numVertUnits + row

def ihevceDmgrRstRowRowSync (d : DepMngr) : DepMngr :=
  { d with
    unitsPrcsdInRow := fun ctr =>
      if ctr < d.numVertUnits * d.numTileCols then 0 else d.unitsPrcsdInRow ctr
    waitThrdId := fun ctr => if ctr < d.numVertUnits then -1 else d.waitThrdId ctr }

/-- Where a thread is: outside, in `ihevce_dmgr_chk_row_row_sync` with the offset it needs,
or in `ihevce_dmgr_set_row_row_sync` with the offset it sets. -/
inductive DmgrPos
  | outside
  | chkRead (tileCol row : Nat) (need : Int)
  | chkRegister (tileCol row : Nat) (need : Int)
  | chkWait (tileCol row : Nat) (need : Int)
  | setWrite (tileCol row : Nat) (offset : Int)
  | setRead (tileCol row : Nat) (offset : Int)
  | setPost (tileCol row : Nat) (offset waitThrd : Int)
  | setClear (tileCol row : Nat) (offset : Int)
  | setEnd (tileCol row ctr : Nat)
  deriving DecidableEq, Repr

structure DmgrState where
  mngr : DepMngr
  /-- The counts of the semaphores `ppv_thrd_sem_handles`. -/
  sem : Nat → Nat
  pos : Nat → DmgrPos
  /-- The offset that the producer of a row has set last; a row begins at 0. -/
  progress : Nat → Nat → Int

def DmgrState.move (s : DmgrState) (thrd : Nat) (p : DmgrPos) : DmgrState :=
  { s with pos := Function.update s.pos thrd p }

/-- `osal_sem_post` -/
def DmgrState.post (s : DmgrState) (thrd : Nat) : DmgrState :=
  { s with sem := Function.update s.sem thrd (s.sem thrd + 1) }

def DmgrState.register (s : DmgrState) (row : Nat) (thrdId : Int) : DmgrState :=
  { s with mngr := { s.mngr with waitThrdId := Function.update s.mngr.waitThrdId row thrdId } }

def DmgrState.produce (s : DmgrState) (tileCol row : Nat) (offset : Int) : DmgrState :=
  { s with
    mngr :=
      { s.mngr with
        unitsPrcsdInRow :=
          Function.update s.mngr.unitsPrcsdInRow (s.mngr.unit tileCol row) offset }
    progress := Function.update s.progress tileCol (Function.update (s.progress tileCol) row offset) }

/-- The last test of `ihevce_dmgr_set_row_row_sync`: all threads are posted at the end of a row. -/
def DepMngr.rowEnd (d : DepMngr) (tileCol row : Nat) (offset : Int) : DmgrPos :=
  if offset = d.numHorzUnits then .setEnd tileCol row 0 else .outside

/-- The next step of a thread inside one of the two functions; `none` when it has to wait. -/
def DmgrState.step (s : DmgrState) (thrd : Nat) : Option DmgrState :=
  match s.pos thrd with
  | .outside => none
  | .chkRead tileCol row need =>
    if need ≤ s.mngr.unitsPrcsdInRow (s.mngr.unit tileCol row) then some (s.move thrd .outside)
    else if s.mngr.semEnable then some (s.move thrd (.chkRegister tileCol row need))
    else some s
  | .chkRegister tileCol row need =>
    some ((s.register row thrd).move thrd (.chkWait tileCol row need))
  | .chkWait tileCol row need =>
    if s.sem thrd = 0 then none
    else
      some ({ s with sem := Function.update s.sem thrd (s.sem thrd - 1) }.move thrd
        (.chkRead tileCol row need))
  | .setWrite tileCol row offset =>
    some ((s.produce tileCol row offset).move thrd
      (if s.mngr.semEnable then .setRead tileCol row offset else .outside))
  | .setRead tileCol row offset =>
    if s.mngr.waitThrdId row = -1 then some (s.move thrd (s.mngr.rowEnd tileCol row offset))
    else some (s.move thrd (.setPost tileCol row offset (s.mngr.waitThrdId row)))
  | .setPost tileCol row offset waitThrd =>
    some ((s.post waitThrd.toNat).move thrd (.setClear tileCol row offset))
  | .setClear tileCol row offset =>
    some ((s.register row (-1)).move thrd (s.mngr.rowEnd tileCol row offset))
  | .setEnd tileCol row ctr =>
    if ctr < s.mngr.numThrds then some ((s.post ctr).move thrd (.setEnd tileCol row (ctr + 1)))
    else some (s.move thrd .outside)

inductive DmgrCall
  | chkRowRowSync (curOffset depOffset : Int) (depRow curTileCol : Nat)
  | setRowRowSync (curOffset : Int) (curRow curTileCol : Nat)
  deriving DecidableEq, Repr

/-- The first position inside a call. -/
def DmgrCall.entry : DmgrCall → DmgrPos
  | .chkRowRowSync curOffset depOffset depRow curTileCol =>
    .chkRead curTileCol depRow (curOffset + depOffset)
  | .setRowRowSync curOffset curRow curTileCol => .setWrite curTileCol curRow curOffset

/-- What a thread may call: the assertions of the two functions, a row has one producer, and
that sets increasing offsets. -/
def DmgrState.MayCall (s : DmgrState) (producer : Nat → Nat → Nat) (thrd : Nat) :
    DmgrCall → Prop
  | .chkRowRowSync curOffset depOffset depRow curTileCol =>
    thrd < s.mngr.numThrds ∧ curTileCol < s.mngr.numTileCols ∧ depRow < s.mngr.numVertUnits ∧
      curOffset + depOffset ≤ s.mngr.numHorzUnits
  | .setRowRowSync curOffset curRow curTileCol =>
    producer curTileCol curRow = thrd ∧ curTileCol < s.mngr.numTileCols ∧
      curRow < s.mngr.numVertUnits ∧ s.progress curTileCol curRow ≤ curOffset ∧
      curOffset ≤ s.mngr.numHorzUnits

instance (s : DmgrState) (producer : Nat → Nat → Nat) (thrd : Nat) (c : DmgrCall) :
    Decidable (s.MayCall producer thrd c) := by
  cases c <;> unfold DmgrState.MayCall <;> infer_instance

/-- A manager that was reset, with all threads outside and the semaphores at any counts. -/
def DmgrState.start (d : DepMngr) (sem : Nat → Nat) : DmgrState where
  mngr := ihevceDmgrRstRowRowSync d
  sem := sem
  pos := fun _ => .outside
  progress := fun _ _ => 0

/-- The states of the runs in which the threads take their steps in any order. -/
inductive DmgrState.Reached (producer : Nat → Nat → Nat) (d : DepMngr) (sem : Nat → Nat) :
    DmgrState → Prop
  | start : Reached producer d sem (DmgrState.start d sem)
  | call : Reached producer d sem s → s.pos thrd = .outside → s.MayCall producer thrd c →
      Reached producer d sem (s.move thrd c.entry)
  | step : Reached producer d sem s → s.step thrd = some s' → Reached producer d sem s'

/-- A thread is inside `ihevce_dmgr_chk_row_row_sync`, for a row. -/
def DmgrPos.Checks (tileCol row : Nat) (need : Int) (p : DmgrPos) : Prop :=
  p = .chkRead tileCol row need ∨ p = .chkRegister tileCol row need ∨ p = .chkWait tileCol row need

/-- A thread is inside `ihevce_dmgr_set_row_row_sync`. -/
def DmgrPos.InSet : DmgrPos → Prop
  | .setWrite .. | .setRead .. | .setPost .. | .setClear .. | .setEnd .. => True
  | _ => False

/-- All producers have finished: each row has come to its end, and no thread is setting. -/
def DmgrState.Finished (s : DmgrState) : Prop :=
  (∀ tileCol row, tileCol < s.mngr.numTileCols → row < s.mngr.numVertUnits →
    s.progress tileCol row = s.mngr.numHorzUnits) ∧
  ∀ thrd, ¬ (s.pos thrd).InSet

/-- A number of steps of one thread. -/
def DmgrState.solo (s : DmgrState) (thrd : Nat) : Nat → Option DmgrState
  | 0 => some s
  | n + 1 => (s.step thrd).bind fun s' => s'.solo thrd n

end Libhevc.Encoder

/-!
## No wake-up of a row is lost

The registration of a thread can be written over or come too late. What wakes a
thread in any case is the end of its row: until the producer has come to it the
thread's post is still due, and after it the thread's semaphore holds a token, which
no other thread takes.
-/

namespace Libhevc.Encoder

@[simp] theorem move_mngr (s : DmgrState) (t : Nat) (p : DmgrPos) : (s.move t p).mngr = s.mngr := rfl
@[simp] theorem move_sem (s : DmgrState) (t : Nat) (p : DmgrPos) : (s.move t p).sem = s.sem := rfl
@[simp] theorem move_progress (s : DmgrState) (t : Nat) (p : DmgrPos) :
    (s.move t p).progress = s.progress := rfl
@[simp] theorem move_pos_self (s : DmgrState) (t : Nat) (p : DmgrPos) : (s.move t p).pos t = p :=
  Function.update_self ..

theorem move_pos_of_ne (s : DmgrState) (p : DmgrPos) (h : t' ≠ t) : (s.move t p).pos t' = s.pos t' :=
  Function.update_of_ne h ..

/-- Different rows have different counters. -/
theorem unit_inj {d : DepMngr} (hrow : row < d.numVertUnits) (hrow' : row' < d.numVertUnits)
    (h : d.unit tileCol row = d.unit tileCol' row') : tileCol = tileCol' ∧ row = row' := by
  unfold DepMngr.unit at h
  have hpos : 0 < d.numVertUnits := Nat.zero_lt_of_lt hrow
  have hdiv := congrArg (· / d.numVertUnits) h
  have hmod := congrArg (· % d.numVertUnits) h
  simp only [Nat.add_comm (_ * _), Nat.add_mul_div_right _ _ hpos, Nat.add_mul_mod_self_right,
    Nat.div_eq_of_lt, Nat.mod_eq_of_lt, hrow, hrow', Nat.zero_add] at hdiv hmod
  exact ⟨hdiv, hmod⟩

theorem unit_lt {d : DepMngr} (hcol : tileCol < d.numTileCols) (hrow : row < d.numVertUnits) :
    d.unit tileCol row < d.numVertUnits * d.numTileCols := by
  unfold DepMngr.unit
  calc tileCol * d.numVertUnits + row < tileCol * d.numVertUnits + d.numVertUnits :=
        Nat.add_lt_add_left hrow _
    _ = (tileCol + 1) * d.numVertUnits := (Nat.succ_mul ..).symm
    _ ≤ d.numTileCols * d.numVertUnits := Nat.mul_le_mul_right _ hcol
    _ = d.numVertUnits * d.numTileCols := Nat.mul_comm ..

-- ---------------------------------------------------------------------------
-- The invariant
-- ---------------------------------------------------------------------------

/-- What the local variables of thread `t` keep to. -/
def DmgrPos.Valid (d : DepMngr) (t : Nat) : DmgrPos → Prop
  | .outside => True
  | .chkRead tileCol row need =>
    (tileCol < d.numTileCols ∧ row < d.numVertUnits) ∧ t < d.numThrds ∧ need ≤ d.numHorzUnits
  | .chkRegister tileCol row need | .chkWait tileCol row need =>
    ((tileCol < d.numTileCols ∧ row < d.numVertUnits) ∧ t < d.numThrds ∧ need ≤ d.numHorzUnits) ∧
      d.semEnable = true
  | .setWrite tileCol row offset =>
    (tileCol < d.numTileCols ∧ row < d.numVertUnits) ∧ offset ≤ d.numHorzUnits
  | .setRead .. | .setPost .. | .setClear .. | .setEnd .. => True

/-- A thread that has set the end of a row and has not posted thread `t` for it yet. -/
def DmgrPos.Ends (horz : Int) (tileCol row t : Nat) : DmgrPos → Prop
  | .setRead a b offset | .setPost a b offset _ | .setClear a b offset =>
    a = tileCol ∧ b = row ∧ offset = horz
  | .setEnd a b ctr => a = tileCol ∧ b = row ∧ ctr ≤ t
  | _ => False

/-- A thread that has found its dependency not met. -/
def DmgrPos.Asleep (tileCol row : Nat) (p : DmgrPos) : Prop :=
  ∃ need, p = .chkRegister tileCol row need ∨ p = .chkWait tileCol row need

/-- The end of a row has still to post thread `t`. -/
def DmgrState.Due (s : DmgrState) (tileCol row t : Nat) : Prop :=
  s.mngr.unitsPrcsdInRow (s.mngr.unit tileCol row) < s.mngr.numHorzUnits ∨
    ∃ p, (s.pos p).Ends s.mngr.numHorzUnits tileCol row t

structure DmgrState.Inv (s : DmgrState) : Prop where
  units : tileCol < s.mngr.numTileCols → row < s.mngr.numVertUnits →
    s.mngr.unitsPrcsdInRow (s.mngr.unit tileCol row) = s.progress tileCol row
  valid (t : Nat) : (s.pos t).Valid s.mngr t
  wakes : (s.pos t).Asleep tileCol row → s.Due tileCol row t ∨ 0 < s.sem t

theorem dmgrStart_inv (d : DepMngr) (sem : Nat → Nat) : (DmgrState.start d sem).Inv where
  units := fun hcol hrow => if_pos (unit_lt hcol hrow)
  valid := fun _ => trivial
  wakes := by simp [DmgrState.start, DmgrPos.Asleep]

theorem DmgrPos.Asleep.valid {p : DmgrPos} (h : p.Asleep tileCol row) (hv : p.Valid d t) :
    t < d.numThrds ∧ tileCol < d.numTileCols ∧ row < d.numVertUnits := by
  obtain ⟨need, rfl | rfl⟩ := h
  · exact ⟨hv.1.2.1, hv.1.1⟩
  · exact ⟨hv.1.2.1, hv.1.1⟩

-- ---------------------------------------------------------------------------
-- Moves
-- ---------------------------------------------------------------------------

/-- What is due stays so in a move; a thread that leaves the end of a row behind has given
the token. -/
theorem due_move {s : DmgrState} {p : DmgrPos}
    (hends : (s.pos t).Ends s.mngr.numHorzUnits tileCol row t' →
      p.Ends s.mngr.numHorzUnits tileCol row t' ∨ 0 < s.sem t')
    (h : s.Due tileCol row t' ∨ 0 < s.sem t') :
    (s.move t p).Due tileCol row t' ∨ 0 < s.sem t' := by
  rcases h with (hlt | ⟨q, hq⟩) | hsem
  · exact .inl (.inl hlt)
  · by_cases hqt : q = t
    · subst hqt
      refine (hends hq).imp (fun hp => .inr ⟨q, ?_⟩) id
      rwa [move_pos_self]
    · refine .inl (.inr ⟨q, ?_⟩)
      rwa [move_pos_of_ne s p hqt]
  · exact .inr hsem

theorem DmgrState.Inv.move {s : DmgrState} (h : s.Inv) {p : DmgrPos} (hvalid : p.Valid s.mngr t)
    (hasleep : ∀ tileCol row, p.Asleep tileCol row → s.Due tileCol row t ∨ 0 < s.sem t)
    (hends : ∀ tileCol row t', t' < s.mngr.numThrds →
      (s.pos t).Ends s.mngr.numHorzUnits tileCol row t' →
      p.Ends s.mngr.numHorzUnits tileCol row t' ∨ 0 < s.sem t') :
    (s.move t p).Inv := by
  constructor
  case units => exact h.units
  case valid =>
    intro t'
    by_cases ht : t' = t
    · subst ht
      rwa [move_pos_self]
    · rw [move_pos_of_ne s p ht]
      exact h.valid t'
  case wakes =>
    intro t' tileCol row ha
    by_cases ht : t' = t
    · subst ht
      rw [move_pos_self] at ha
      exact due_move (hends tileCol row t' (ha.valid hvalid).1) (hasleep tileCol row ha)
    · rw [move_pos_of_ne s p ht] at ha
      exact due_move (hends tileCol row t' (ha.valid (h.valid t')).1) (h.wakes ha)

/-- A move to a place that is not in the check. -/
theorem DmgrState.Inv.moveSet {s : DmgrState} (h : s.Inv) {p : DmgrPos} (hvalid : p.Valid s.mngr t)
    (hasleep : ∀ tileCol row, ¬ p.Asleep tileCol row)
    (hends : ∀ tileCol row t', t' < s.mngr.numThrds →
      (s.pos t).Ends s.mngr.numHorzUnits tileCol row t' →
      p.Ends s.mngr.numHorzUnits tileCol row t' ∨ 0 < s.sem t') :
    (s.move t p).Inv :=
  h.move hvalid (fun a b ha => absurd ha (hasleep a b)) hends

theorem DmgrState.Inv.register {s : DmgrState} (h : s.Inv) (row : Nat) (thrdId : Int) :
    (s.register row thrdId).Inv :=
  ⟨h.units, h.valid, h.wakes⟩

theorem post_sem_le (s : DmgrState) (t t' : Nat) : s.sem t' ≤ (s.post t).sem t' := by
  unfold DmgrState.post
  by_cases ht : t' = t
  · subst ht
    simp
  · simp [Function.update_of_ne ht]

theorem post_sem_pos (s : DmgrState) (t : Nat) : 0 < (s.post t).sem t := by
  simp [DmgrState.post]

theorem DmgrState.Inv.post {s : DmgrState} (h : s.Inv) (t : Nat) : (s.post t).Inv :=
  ⟨h.units, h.valid, fun ha =>
    (h.wakes ha).imp id fun hs => Nat.lt_of_lt_of_le hs (post_sem_le s t _)⟩

-- ---------------------------------------------------------------------------
-- One step
-- ---------------------------------------------------------------------------

theorem rowEnd_asleep (d : DepMngr) : ¬ (d.rowEnd a b offset).Asleep tileCol row := by
  unfold DepMngr.rowEnd
  split <;> simp [DmgrPos.Asleep]

theorem rowEnd_valid (d : DepMngr) : (d.rowEnd a b offset).Valid d' t := by
  unfold DepMngr.rowEnd
  split <;> trivial

theorem rowEnd_ends {d : DepMngr} (h : a = tileCol ∧ b = row ∧ offset = d.numHorzUnits) :
    (d.rowEnd a b offset).Ends d.numHorzUnits tileCol row t := by
  unfold DepMngr.rowEnd
  rw [if_pos h.2.2]
  exact ⟨h.1, h.2.1, Nat.zero_le t⟩

theorem DmgrState.Inv.chkRead {s : DmgrState} (h : s.Inv)
    (hp : s.pos t = .chkRead tileCol row need)
    (hlt : s.mngr.unitsPrcsdInRow (s.mngr.unit tileCol row) < need)
    (hsem : s.mngr.semEnable = true) : (s.move t (.chkRegister tileCol row need)).Inv := by
  have hv := h.valid t
  rw [hp] at hv
  refine h.move ⟨hv, hsem⟩ ?_ (by simp [hp, DmgrPos.Ends])
  rintro a b ⟨need', he | he⟩ <;> cases he
  exact .inl (.inl (Int.lt_of_lt_of_le hlt hv.2.2))

theorem DmgrState.Inv.chkRegister {s : DmgrState} (h : s.Inv)
    (hp : s.pos t = .chkRegister tileCol row need) :
    ((s.register row t).move t (.chkWait tileCol row need)).Inv := by
  have hv := h.valid t
  rw [hp] at hv
  refine (h.register row t).move hv ?_ ?_
  · rintro a b ⟨need', he | he⟩ <;> cases he
    exact h.wakes ⟨need, .inl hp⟩
  · change ∀ a b t', t' < s.mngr.numThrds → (s.pos t).Ends s.mngr.numHorzUnits a b t' → _
    simp [hp, DmgrPos.Ends]

/-- A thread that wakes takes a token of its own semaphore only. -/
theorem DmgrState.Inv.chkWait {s : DmgrState} (h : s.Inv)
    (hp : s.pos t = .chkWait tileCol row need) (n : Nat) :
    ({ s with sem := Function.update s.sem t n }.move t (.chkRead tileCol row need)).Inv := by
  constructor
  case units => exact h.units
  case valid =>
    intro t'
    by_cases ht : t' = t
    · subst ht
      have hv := h.valid t'
      rw [hp] at hv
      rw [move_pos_self]
      exact hv.1
    · rw [move_pos_of_ne _ _ ht]
      exact h.valid t'
  case wakes =>
    intro t' a b ha
    by_cases ht : t' = t
    · subst ht
      rw [move_pos_self] at ha
      obtain ⟨need', he | he⟩ := ha <;> cases he
    · rw [move_pos_of_ne _ _ ht] at ha
      refine (h.wakes ha).imp ?_ fun hs => by simpa [Function.update_of_ne ht] using hs
      rintro (hlt | ⟨q, hq⟩)
      · exact .inl hlt
      · refine .inr ⟨q, ?_⟩
        by_cases hqt : q = t
        · subst hqt
          rw [hp] at hq
          exact hq.elim
        · rw [move_pos_of_ne _ _ hqt]
          exact hq

/-- What a producer writes is an offset before the end of the row, or its end, after which
the thread goes on to the posts. -/
theorem DmgrState.Inv.setWrite {s : DmgrState} (h : s.Inv)
    (hp : s.pos t = .setWrite tileCol row offset) :
    ((s.produce tileCol row offset).move t
      (if s.mngr.semEnable then .setRead tileCol row offset else .outside)).Inv := by
  have hv := h.valid t
  rw [hp] at hv
  obtain ⟨⟨hcol, hrow⟩, hle⟩ := hv
  constructor
  case units =>
    intro a b ha hb
    change Function.update s.mngr.unitsPrcsdInRow _ offset (s.mngr.unit a b) =
      Function.update s.progress tileCol (Function.update (s.progress tileCol) row offset) a b
    by_cases hab : a = tileCol ∧ b = row
    · obtain ⟨rfl, rfl⟩ := hab
      simp
    · have hne : s.mngr.unit a b ≠ s.mngr.unit tileCol row := fun he => hab (unit_inj hb hrow he)
      rw [Function.update_of_ne hne, h.units ha hb]
      by_cases hac : a = tileCol
      · subst hac
        rw [Function.update_self, Function.update_of_ne fun hbr => hab ⟨rfl, hbr⟩]
      · rw [Function.update_of_ne hac]
  case valid =>
    intro t'
    by_cases ht : t' = t
    · subst ht
      rw [move_pos_self]
      split <;> trivial
    · rw [move_pos_of_ne _ _ ht]
      exact h.valid t'
  case wakes =>
    intro t' a b ha
    by_cases ht : t' = t
    · subst ht
      rw [move_pos_self] at ha
      split at ha <;> obtain ⟨need, he | he⟩ := ha <;> cases he
    · rw [move_pos_of_ne _ _ ht] at ha
      obtain ⟨-, ha', hb'⟩ := ha.valid (h.valid t')
      have hsem : s.mngr.semEnable = true := by
        have hv' := h.valid t'
        obtain ⟨need, he | he⟩ := ha
        · change s.pos t' = _ at he
          rw [he] at hv'
          exact hv'.2
        · change s.pos t' = _ at he
          rw [he] at hv'
          exact hv'.2
      rw [if_pos hsem]
      by_cases hab : a = tileCol ∧ b = row
      · -- the row that the thread waits for
        obtain ⟨rfl, rfl⟩ := hab
        refine .inl ?_
        rcases Int.lt_or_eq_of_le hle with hlt | heq
        · refine .inl ?_
          change Function.update s.mngr.unitsPrcsdInRow _ offset (s.mngr.unit a b) < _
          rwa [Function.update_self]
        · refine .inr ⟨t, ?_⟩
          rw [move_pos_self]
          exact ⟨rfl, rfl, heq⟩
      · refine (h.wakes ha).imp ?_ id
        rintro (hlt | ⟨q, hq⟩)
        · refine .inl ?_
          change Function.update s.mngr.unitsPrcsdInRow _ offset (s.mngr.unit a b) < _
          rwa [Function.update_of_ne fun he => hab (unit_inj hb' hrow he)]
        · refine .inr ⟨q, ?_⟩
          by_cases hqt : q = t
          · subst hqt
            rw [hp] at hq
            exact hq.elim
          · rw [move_pos_of_ne _ _ hqt]
            exact hq

theorem DmgrState.Inv.step {s : DmgrState} (h : s.Inv) (hs : s.step t = some s') : s'.Inv := by
  unfold DmgrState.step at hs
  cases hp : s.pos t with
  | outside =>
    rw [hp] at hs
    contradiction
  | chkRead tileCol row need =>
    simp only [hp] at hs
    split_ifs at hs with hmet hsem <;> obtain rfl := Option.some.inj hs
    · exact h.moveSet trivial (by simp [DmgrPos.Asleep]) (by simp [hp, DmgrPos.Ends])
    · exact h.chkRead hp (Int.not_le.mp hmet) hsem
    · exact h
  | chkRegister tileCol row need =>
    simp only [hp] at hs
    obtain rfl := Option.some.inj hs
    exact h.chkRegister hp
  | chkWait tileCol row need =>
    simp only [hp] at hs
    split_ifs at hs
    obtain rfl := Option.some.inj hs
    exact h.chkWait hp _
  | setWrite tileCol row offset =>
    simp only [hp] at hs
    obtain rfl := Option.some.inj hs
    exact h.setWrite hp
  | setRead tileCol row offset =>
    simp only [hp] at hs
    split_ifs at hs <;> obtain rfl := Option.some.inj hs
    · refine h.moveSet (rowEnd_valid _) (fun _ _ => rowEnd_asleep _) fun a b t' _ he => .inl ?_
      rw [hp] at he
      exact rowEnd_ends he
    · refine h.moveSet trivial (by simp [DmgrPos.Asleep]) fun a b t' _ he => .inl ?_
      rwa [hp] at he
  | setPost tileCol row offset waitThrd =>
    simp only [hp] at hs
    obtain rfl := Option.some.inj hs
    refine (h.post _).moveSet trivial (by simp [DmgrPos.Asleep]) fun a b t' _ he => .inl ?_
    change (s.pos t).Ends _ a b t' at he
    rwa [hp] at he
  | setClear tileCol row offset =>
    simp only [hp] at hs
    obtain rfl := Option.some.inj hs
    refine (h.register row (-1)).moveSet (rowEnd_valid _) (fun _ _ => rowEnd_asleep _)
      fun a b t' _ he => .inl ?_
    change (s.pos t).Ends _ a b t' at he
    rw [hp] at he
    exact rowEnd_ends he
  | setEnd tileCol row ctr =>
    simp only [hp] at hs
    split_ifs at hs with hctr <;> obtain rfl := Option.some.inj hs
    · refine (h.post ctr).moveSet trivial (by simp [DmgrPos.Asleep]) fun a b t' _ he => ?_
      change (s.pos t).Ends _ a b t' at he
      rw [hp] at he
      obtain ⟨ha, hb, hle⟩ := he
      -- the post of thread `t'` is this one, or is still to come
      rcases Nat.eq_or_lt_of_le hle with rfl | hlt
      · exact .inr (post_sem_pos s ctr)
      · exact .inl ⟨ha, hb, hlt⟩
    · refine h.moveSet trivial (by simp [DmgrPos.Asleep]) fun a b t' ht' he => ?_
      rw [hp] at he
      exact absurd (Nat.lt_of_le_of_lt he.2.2 ht') hctr

theorem DmgrState.Inv.call {s : DmgrState} (h : s.Inv) (hp : s.pos t = .outside)
    (hc : s.MayCall producer t c) : (s.move t c.entry).Inv := by
  cases c with
  | chkRowRowSync curOffset depOffset depRow curTileCol =>
    obtain ⟨ht, hcol, hrow, hneed⟩ := hc
    exact h.moveSet ⟨⟨hcol, hrow⟩, ht, hneed⟩ (by simp [DmgrPos.Asleep, DmgrCall.entry])
      (by simp [hp, DmgrPos.Ends])
  | setRowRowSync curOffset curRow curTileCol =>
    obtain ⟨-, hcol, hrow, -, hoffset⟩ := hc
    exact h.moveSet ⟨⟨hcol, hrow⟩, hoffset⟩ (by simp [DmgrPos.Asleep, DmgrCall.entry])
      (by simp [hp, DmgrPos.Ends])

theorem dmgrReached_inv (h : DmgrState.Reached producer d sem s) : s.Inv := by
  induction h with
  | start => exact dmgrStart_inv d sem
  | call _ hp hc ih => exact ih.call hp hc
  | step _ hs ih => exact ih.step hs

-- ---------------------------------------------------------------------------
-- Returning from the check
-- ---------------------------------------------------------------------------

/-- A thread returns only when its dependency is met. -/
theorem DmgrState.Inv.returns {s : DmgrState} (h : s.Inv)
    (hc : (s.pos t).Checks tileCol row need) (hs : s.step t = some s')
    (hout : s'.pos t = .outside) : need ≤ s.progress tileCol row := by
  have hv := h.valid t
  unfold DmgrState.step at hs
  rcases hc with hp | hp | hp
  · rw [hp] at hv
    simp only [hp] at hs
    split_ifs at hs with hmet hsem <;> obtain rfl := Option.some.inj hs
    · rwa [h.units hv.1.1 hv.1.2] at hmet
    · rw [move_pos_self] at hout
      contradiction
    · rw [hp] at hout
      contradiction
  · simp only [hp] at hs
    obtain rfl := Option.some.inj hs
    rw [move_pos_self] at hout
    contradiction
  · simp only [hp] at hs
    split_ifs at hs
    obtain rfl := Option.some.inj hs
    rw [move_pos_self] at hout
    contradiction

theorem solo_chkRead {s : DmgrState} (hp : s.pos t = .chkRead tileCol row need)
    (hmet : need ≤ s.mngr.unitsPrcsdInRow (s.mngr.unit tileCol row)) :
    ∃ s', s.solo t 1 = some s' ∧ s'.pos t = .outside :=
  ⟨s.move t .outside, by simp [DmgrState.solo, DmgrState.step, hp, hmet], move_pos_self ..⟩

theorem solo_chkWait {s : DmgrState} (hp : s.pos t = .chkWait tileCol row need)
    (hmet : need ≤ s.mngr.unitsPrcsdInRow (s.mngr.unit tileCol row)) (hsem : 0 < s.sem t) :
    ∃ s', s.solo t 2 = some s' ∧ s'.pos t = .outside := by
  have hstep : s.step t = some ({ s with sem := Function.update s.sem t (s.sem t - 1) }.move t
      (.chkRead tileCol row need)) := by
    simp [DmgrState.step, hp, Nat.pos_iff_ne_zero.mp hsem]
  obtain ⟨s', hsolo, hout⟩ := solo_chkRead
    (s := { s with sem := Function.update s.sem t (s.sem t - 1) }.move t (.chkRead tileCol row need))
    (move_pos_self ..) hmet
  exact ⟨s', by rw [DmgrState.solo, hstep, Option.bind_some, hsolo], hout⟩

theorem solo_chkRegister {s : DmgrState} (hp : s.pos t = .chkRegister tileCol row need)
    (hmet : need ≤ s.mngr.unitsPrcsdInRow (s.mngr.unit tileCol row)) (hsem : 0 < s.sem t) :
    ∃ s', s.solo t 3 = some s' ∧ s'.pos t = .outside := by
  have hstep : s.step t = some ((s.register row t).move t (.chkWait tileCol row need)) := by
    simp [DmgrState.step, hp]
  obtain ⟨s', hsolo, hout⟩ := solo_chkWait
    (s := (s.register row t).move t (.chkWait tileCol row need)) (move_pos_self ..) hmet hsem
  exact ⟨s', by rw [DmgrState.solo, hstep, Option.bind_some, hsolo], hout⟩

/-- Nothing is due when all producers have finished. -/
theorem DmgrState.Finished.not_due {s : DmgrState} (hf : s.Finished) (h : s.Inv)
    (hcol : tileCol < s.mngr.numTileCols) (hrow : row < s.mngr.numVertUnits) :
    ¬ s.Due tileCol row t := by
  rintro (hlt | ⟨p, hp⟩)
  · rw [h.units hcol hrow, hf.1 tileCol row hcol hrow] at hlt
    exact Int.lt_irrefl _ hlt
  · have hset := hf.2 p
    cases hq : s.pos p with
    | setRead | setPost | setClear | setEnd => exact hset (by rw [hq]; trivial)
    | outside | chkRead | chkRegister | chkWait | setWrite =>
      rw [hq] at hp
      exact hp.elim

/-- A thread comes back from `ihevce_dmgr_chk_row_row_sync` only when the producer has set
the offset it needs, and comes back in any case when all producers have finished. -/
theorem no_wakeup_lost (h : DmgrState.Reached producer d sem s)
    (hc : (s.pos thrd).Checks tileCol row need) :
    (∀ s', s.step thrd = some s' → s'.pos thrd = .outside → need ≤ s.progress tileCol row) ∧
      (s.Finished → ∃ n s', s.solo thrd n = some s' ∧ s'.pos thrd = .outside) := by
  have hinv := dmgrReached_inv h
  refine ⟨fun s' hs hout => hinv.returns hc hs hout, fun hf => ?_⟩
  have hvalid : (tileCol < s.mngr.numTileCols ∧ row < s.mngr.numVertUnits) ∧
      thrd < s.mngr.numThrds ∧ need ≤ s.mngr.numHorzUnits := by
    have hv := hinv.valid thrd
    rcases hc with hp | hp | hp <;> rw [hp] at hv
    · exact hv
    · exact hv.1
    · exact hv.1
  obtain ⟨⟨hcol, hrow⟩, -, hneed⟩ := hvalid
  have hmet : need ≤ s.mngr.unitsPrcsdInRow (s.mngr.unit tileCol row) := by
    rwa [hinv.units hcol hrow, hf.1 tileCol row hcol hrow]
  have htoken : (s.pos thrd).Asleep tileCol row → 0 < s.sem thrd := fun ha =>
    (hinv.wakes ha).resolve_left (hf.not_due hinv hcol hrow)
  rcases hc with hp | hp | hp
  · exact ⟨1, solo_chkRead hp hmet⟩
  · exact ⟨3, solo_chkRegister hp hmet (htoken ⟨need, .inl hp⟩)⟩
  · exact ⟨2, solo_chkWait hp hmet (htoken ⟨need, .inr hp⟩)⟩

/-- Thread 0 registers after the producer, thread 1, has set the end of the row. -/
theorem no_wakeup_lost_late : ∃ s, DmgrState.Reached (fun _ _ => 1)
      ⟨1, 1, 1, 2, true, fun _ => 0, fun _ => 0⟩ (fun _ => 0) s ∧
    s.pos 0 = .chkRegister 0 0 1 ∧ ∃ n s', s.solo 0 n = some s' ∧ s'.pos 0 = .outside := by
  have h0 : DmgrState.Reached (fun _ _ => 1) ⟨1, 1, 1, 2, true, fun _ => 0, fun _ => 0⟩
    (fun _ => 0) (DmgrState.start _ _) := .start
  have h1 := DmgrState.Reached.call h0 rfl
    (by decide : DmgrState.MayCall _ _ 0 (.chkRowRowSync 0 1 0 0))
  have h2 := DmgrState.Reached.step h1 (rfl : DmgrState.step _ 0 = some _)
  have h3 := DmgrState.Reached.call h2 rfl
    (by decide : DmgrState.MayCall _ _ 1 (.setRowRowSync 1 0 0))
  have h4 := DmgrState.Reached.step h3 (rfl : DmgrState.step _ 1 = some _)
  have h5 := DmgrState.Reached.step h4 (rfl : DmgrState.step _ 1 = some _)
  have h6 := DmgrState.Reached.step h5 (rfl : DmgrState.step _ 1 = some _)
  have h7 := DmgrState.Reached.step h6 (rfl : DmgrState.step _ 1 = some _)
  have h8 := DmgrState.Reached.step h7 (rfl : DmgrState.step _ 1 = some _)
  refine ⟨_, h8, rfl, (no_wakeup_lost h8 (.inr (.inl rfl))).2 ⟨?_, ?_⟩⟩
  · intro tileCol row hcol hrow
    obtain rfl : tileCol = 0 := Nat.lt_one_iff.mp hcol
    obtain rfl : row = 0 := Nat.lt_one_iff.mp hrow
    rfl
  · rintro (_ | _ | thrd) <;> exact id

end Libhevc.Encoder
