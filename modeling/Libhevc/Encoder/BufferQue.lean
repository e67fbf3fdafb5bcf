import Libhevc.Common.Platform
import Mathlib.Data.Finset.Card
import Mathlib.Logic.Function.Basic

/-!
# The buffer queues of the encoder

`ihevce_buffer_que.c`. `ihevce_hle_q_func.c` makes every call between the lock and
the unlock of the queue mutex, so a call is one step. A function that returns a
pointer of `ppv_buff_ptrs` returns its index here, which is what it stores through
`pi4_id`; `none` is `NULL`.
-/

namespace Libhevc.Encoder

/-- The entries of one buffer in the arrays of `buf_que_t`. -/
structure BufSlot where
  numUsers : Int
  producedSts : Int
  encSeq : Nat
  queSeq : Nat

/-- `buf_que_t`; `numActiveBufs` is never above `numBufs` and needs no truncation. -/
structure BufQue where
  numBufs : Nat
  slots : Nat → BufSlot
  numActiveBufs : Int
  lastProd : Nat
  lastCons : Nat
  nextDispSeq : Nat
  lastDispSeq : Nat

def uint32Max : Nat := 2 ^ 32 - 1

def BufQue.setSlot (q : BufQue) (i : Nat) (s : BufSlot) : BufQue :=
  { q with slots := Function.update q.slots i s }

def ihevceBuffQueInit (numBufsInQue : Nat) : BufQue where
  numBufs := numBufsInQue
  slots := fun _ => ⟨0, 0, uint32Max, uint32Max⟩
  numActiveBufs := 0
  lastProd := 0
  lastCons := 0
  nextDispSeq := 0
  lastDispSeq := 0

/-- The first index of the loop `for(i = 0; i < num_bufs; i++)` at which `p` holds. -/
def BufQue.search (q : BufQue) (p : BufSlot → Bool) : Option Nat :=
  (List.range q.numBufs).find? fun i => p (q.slots i)

def ihevceBuffQueGetFreeBuf (q : BufQue) : Option Nat × BufQue :=
  match q.search fun s => s.numUsers == 0 && s.producedSts == 0 with
  | some i =>
    (some i,
      { q.setSlot i { q.slots i with numUsers := 1, queSeq := q.lastProd } with
        lastProd := u32 (q.lastProd + 1) })
  | none => (none, q)

def ihevceBuffQueGetNextBuf (q : BufQue) : Option Nat × BufQue :=
  match q.search fun s => q.lastCons == s.queSeq with
  | some i =>
    -- the loop stops at the first match, ready or not
    if (q.slots i).producedSts = 1 then (some i, { q with lastCons := u32 (q.lastCons + 1) })
    else (none, q)
  | none => (none, q)

def ihevceBuffQueGetNextReorderBuf (q : BufQue) : Option Nat × BufQue :=
  match q.search fun s => q.lastDispSeq == s.encSeq with
  | some i => (some i, { q with lastDispSeq := u32 (q.lastDispSeq + 1) })
  | none => (none, q)

def ihevceBuffQueSetBufProd (q : BufQue) (bufId numUsers : Nat) : Int × BufQue :=
  if bufId < q.numBufs then
    if (q.slots bufId).producedSts = 0 then
      (0,
        { q.setSlot bufId
            { q.slots bufId with
              numUsers := i32 ((q.slots bufId).numUsers + numUsers)
              producedSts := 1 } with
          numActiveBufs := q.numActiveBufs + 1 })
    else (-1, q)
  else (-1, q)

def ihevceBuffQueRelBuf (q : BufQue) (bufId : Nat) : Int × BufQue :=
  if bufId < q.numBufs then
    if 0 < (q.slots bufId).producedSts then
      let s := { q.slots bufId with numUsers := i32 ((q.slots bufId).numUsers - 1) }
      if s.numUsers = 0 then
        -- the error path comes after the count has gone down
        if q.numActiveBufs = 0 then (-1, q.setSlot bufId s)
        else
          (0,
            { q.setSlot bufId { s with producedSts := 0 } with
              numActiveBufs := q.numActiveBufs - 1 })
      else (0, q.setSlot bufId s)
    else (-1, q)
  else (-1, q)

def ihevceBuffQueSetReorderBuf (q : BufQue) (bufId : Nat) : Int × BufQue :=
  if bufId < q.numBufs then
    (0,
      { q.setSlot bufId { q.slots bufId with encSeq := q.nextDispSeq } with
        nextDispSeq := u32 (q.nextDispSeq + 1) })
  else (-1, q)

-- ---------------------------------------------------------------------------
-- The producer and the consumers
-- ---------------------------------------------------------------------------

/-- One acquisition of a buffer by the producer, and what has become of it. Its users are
the consumer that gets the buffer from `ihevce_buff_que_get_next_buf`, for whom the count
starts at one, and those that production adds. -/
structure Ticket where
  slot : Nat
  /-- The users added at production; `none` before it. -/
  users : Option Nat
  /-- `ihevce_buff_que_get_next_buf` has returned the buffer. -/
  taken : Bool
  consumerDone : Bool
  /-- The added users that have released the buffer. -/
  usersDone : Nat

/-- The releases still to come, with those of users that production has not added left out. -/
def Ticket.left (t : Ticket) : Nat :=
  (if t.consumerDone then 0 else 1) + (t.users.getD 0 - t.usersDone)

/-- Every user has released the buffer. -/
def Ticket.Released (t : Ticket) : Prop :=
  t.consumerDone = true ∧ t.users = some t.usersDone

instance (t : Ticket) : Decidable t.Released := by
  unfold Ticket.Released
  infer_instance

/-- Produced, and not released by every user. -/
def Ticket.Active (t : Ticket) : Prop := t.users.isSome ∧ ¬ t.Released

instance (t : Ticket) : Decidable t.Active := by
  unfold Ticket.Active
  infer_instance

/-- The active ones among the first `m` of the tickets `f`. -/
def activeOf (m : Nat) (f : Nat → Ticket) : Finset Nat :=
  (Finset.range m).filter fun k => (f k).Active

inductive User
  | consumer
  | added
  deriving DecidableEq, Repr

inductive QueCall
  | getFreeBuf
  | setBufProd (bufId numUsers : Nat)
  | getNextBuf
  | relBuf (bufId : Nat) (user : User)
  | setReorderBuf (bufId : Nat)
  | getNextReorderBuf
  deriving DecidableEq, Repr

/-- A queue with the history of the calls on it. -/
structure Traffic where
  que : BufQue
  /-- The number of acquisitions, and each of them. -/
  obtained : Nat
  tickets : Nat → Ticket
  /-- The last acquisition of each buffer. -/
  holder : Nat → Option Nat
  /-- What `ihevce_buff_que_get_next_buf` returned, each as the acquisition it belongs to. -/
  delivered : List (Option Nat)

/-- The acquisitions that are produced and not released by every user. -/
def Traffic.active (w : Traffic) : Finset Nat := activeOf w.obtained w.tickets

def Traffic.start (numBufs : Nat) : Traffic where
  que := ihevceBuffQueInit numBufs
  obtained := 0
  tickets := fun _ => ⟨0, none, false, false, 0⟩
  holder := fun _ => none
  delivered := []

/-- A change to the last acquisition of a buffer. -/
def Traffic.mark (w : Traffic) (bufId : Nat) (f : Ticket → Ticket) : Traffic :=
  match w.holder bufId with
  | some k => { w with tickets := Function.update w.tickets k (f (w.tickets k)) }
  | none => w

def Ticket.release (t : Ticket) : User → Ticket
  | .consumer => { t with consumerDone := true }
  | .added => { t with usersDone := t.usersDone + 1 }

/-- A call, with what it returns written into the history. -/
def Traffic.call (w : Traffic) : QueCall → Traffic
  | .getFreeBuf =>
    let (pv, q) := ihevceBuffQueGetFreeBuf w.que
    match pv with
    | some i =>
      { w with
        que := q
        obtained := w.obtained + 1
        tickets := Function.update w.tickets w.obtained ⟨i, none, false, false, 0⟩
        holder := Function.update w.holder i (some w.obtained) }
    | none => { w with que := q }
  | .setBufProd bufId numUsers =>
    let (sts, q) := ihevceBuffQueSetBufProd w.que bufId numUsers
    if sts = 0 then { w with que := q }.mark bufId fun t => { t with users := some numUsers }
    else { w with que := q }
  | .getNextBuf =>
    let (pv, q) := ihevceBuffQueGetNextBuf w.que
    match pv with
    | some i =>
      { w with que := q, delivered := w.delivered ++ [w.holder i] }.mark i
        fun t => { t with taken := true }
    | none => { w with que := q }
  | .relBuf bufId user =>
    let (sts, q) := ihevceBuffQueRelBuf w.que bufId
    if sts = 0 then { w with que := q }.mark bufId fun t => t.release user
    else { w with que := q }
  | .setReorderBuf bufId => { w with que := (ihevceBuffQueSetReorderBuf w.que bufId).2 }
  | .getNextReorderBuf => { w with que := (ihevceBuffQueGetNextReorderBuf w.que).2 }

/-- Production is of a buffer obtained and not produced yet, a release is by a user that
has not released the buffer, the consumer's after the buffer was delivered. The user count
is a `WORD32`. -/
def Traffic.Owns (w : Traffic) : QueCall → Prop
  | .setBufProd bufId numUsers =>
    numUsers < 2 ^ 31 ∧ ∃ k, w.holder bufId = some k ∧ (w.tickets k).users = none
  | .relBuf bufId .consumer =>
    ∃ k, w.holder bufId = some k ∧ (w.tickets k).taken = true ∧ (w.tickets k).consumerDone = false
  | .relBuf bufId .added =>
    ∃ k n, w.holder bufId = some k ∧ (w.tickets k).users = some n ∧ (w.tickets k).usersDone < n
  | _ => True

/-- The call reports an error. -/
def BufQue.Refuses (q : BufQue) : QueCall → Prop
  | .setBufProd bufId numUsers => (ihevceBuffQueSetBufProd q bufId numUsers).1 ≠ 0
  | .relBuf bufId _ => (ihevceBuffQueRelBuf q bufId).1 ≠ 0
  | _ => False

/-- A state of the queue after calls, from any thread, that respect ownership or fail. -/
inductive Traffic.Reached (numBufs : Nat) : Traffic → Prop
  | start : Reached numBufs (Traffic.start numBufs)
  | call : Reached numBufs w → w.Owns c ∨ w.que.Refuses c → Reached numBufs (w.call c)

end Libhevc.Encoder
