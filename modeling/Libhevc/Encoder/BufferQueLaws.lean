import Libhevc.Encoder.BufferQue

/-!
# Every buffer is delivered once and in order

The sequence number in a slot is the number of its last acquisition, its user count
the releases that acquisition still waits for, and a slot is produced exactly while
the acquisition is.
-/

namespace Libhevc.Encoder

theorem search_some {q : BufQue} (h : q.search p = some i) :
    i < q.numBufs ∧ p (q.slots i) = true := by
  unfold BufQue.search at h
  have hp := List.find?_some h
  exact ⟨List.mem_range.mp (List.mem_of_find?_eq_some h), hp⟩

theorem search_none {q : BufQue} (h : q.search p = none) (hi : i < q.numBufs) :
    p (q.slots i) = false := by
  unfold BufQue.search at h
  have := List.find?_eq_none.mp h i (List.mem_range.mpr hi)
  simpa using this

@[simp] theorem setSlot_slots (q : BufQue) (i : Nat) (s : BufSlot) :
    (q.setSlot i s).slots = Function.update q.slots i s := rfl

@[simp] theorem setSlot_numBufs (q : BufQue) (i : Nat) (s : BufSlot) :
    (q.setSlot i s).numBufs = q.numBufs := rfl

@[simp] theorem setSlot_lastProd (q : BufQue) (i : Nat) (s : BufSlot) :
    (q.setSlot i s).lastProd = q.lastProd := rfl

@[simp] theorem setSlot_lastCons (q : BufQue) (i : Nat) (s : BufSlot) :
    (q.setSlot i s).lastCons = q.lastCons := rfl

@[simp] theorem setSlot_numActiveBufs (q : BufQue) (i : Nat) (s : BufSlot) :
    (q.setSlot i s).numActiveBufs = q.numActiveBufs := rfl

-- ---------------------------------------------------------------------------
-- Tickets
-- ---------------------------------------------------------------------------

/-- A ticket whose users keep to the protocol. -/
structure Ticket.Fine (t : Ticket) : Prop where
  count : t.users.getD 0 < 2 ^ 31
  done : t.usersDone ≤ t.users.getD 0
  taken : t.consumerDone = true → t.taken = true
  produced : t.taken = true → t.users.isSome

theorem Ticket.Fine.released_iff {t : Ticket} (h : t.Fine) : t.Released ↔ t.left = 0 := by
  unfold Ticket.Released Ticket.left
  have hdone := h.done
  constructor
  · rintro ⟨hc, hu⟩
    simp [hc, hu]
  · intro h0
    have hc : t.consumerDone = true := by
      by_contra hc
      simp [hc] at h0
    obtain ⟨n, hn⟩ := Option.isSome_iff_exists.mp (h.produced (h.taken hc))
    simp only [hc, hn, Option.getD_some, ↓reduceIte] at h0 hdone
    exact ⟨hc, by rw [hn]; congr 1; omega⟩

theorem Ticket.Fine.left_le {t : Ticket} (h : t.Fine) : t.left ≤ 2 ^ 31 := by
  have := h.count
  unfold Ticket.left
  split <;> omega

/-- What the arrays say of a buffer whose last acquisition is `t`. -/
structure BufSlot.Shows (s : BufSlot) (t : Ticket) : Prop where
  users : s.numUsers = i32 t.left
  sts : s.producedSts = if t.Active then 1 else 0

theorem i32_eq_zero_iff {x : Nat} (h : x ≤ 2 ^ 31) : i32 x = 0 ↔ x = 0 := by
  unfold i32 wrapInt
  omega

theorem i32_add (x : Int) (n : Nat) : i32 (i32 x + n) = i32 (x + n) := by
  unfold i32 wrapInt
  omega

theorem i32_sub_one (x : Int) : i32 (i32 x - 1) = i32 (x - 1) := by
  unfold i32 wrapInt
  omega

-- ---------------------------------------------------------------------------
-- The invariant
-- ---------------------------------------------------------------------------

structure Traffic.Inv (w : Traffic) : Prop where
  prod : w.que.lastProd = w.obtained
  cons : w.que.lastCons = w.delivered.length
  behind : w.delivered.length ≤ w.obtained
  order : w.delivered = (List.range w.delivered.length).map some
  /-- A buffer that was never obtained matches no sequence number. -/
  unused : w.holder i = none → (w.que.slots i).queSeq = uint32Max ∧ (w.que.slots i).producedSts = 0
  held : w.holder i = some k → k < w.obtained ∧ (w.tickets k).slot = i ∧ i < w.que.numBufs
  seq : w.holder i = some k → (w.que.slots i).queSeq = k
  shows : w.holder i = some k → (w.que.slots i).Shows (w.tickets k)
  /-- An acquisition that is not released yet is the last one of its buffer. -/
  live : k < w.obtained → (w.tickets k).left ≠ 0 → w.holder (w.tickets k).slot = some k
  fine : k < w.obtained → (w.tickets k).Fine
  taken : k < w.obtained → ((w.tickets k).taken = true ↔ k < w.delivered.length)
  count : w.que.numActiveBufs = (w.active.card : Int)

theorem start_inv (numBufs : Nat) : (Traffic.start numBufs).Inv where
  prod := rfl
  cons := rfl
  behind := Nat.le_refl 0
  order := rfl
  unused := fun _ => ⟨rfl, rfl⟩
  held := nofun
  seq := nofun
  shows := nofun
  live := fun h => absurd h (Nat.not_lt_zero _)
  fine := fun h => absurd h (Nat.not_lt_zero _)
  taken := fun h => absurd h (Nat.not_lt_zero _)
  count := rfl

/-- The waiting acquisition that comes next holds its buffer. -/
theorem Traffic.Inv.next {w : Traffic} (h : w.Inv) (hk : w.delivered.length < w.obtained) :
    w.holder (w.tickets w.delivered.length).slot = some w.delivered.length := by
  refine h.live hk ?_
  have htaken := mt (h.taken hk).mp (Nat.lt_irrefl _)
  have hdone : (w.tickets w.delivered.length).consumerDone = false := by
    have := mt (h.fine hk).taken htaken
    simpa using this
  simp [Ticket.left, hdone]

/-- A free buffer has no acquisition that waits for a release. -/
theorem Traffic.Inv.free {w : Traffic} (h : w.Inv) (hk : k < w.obtained)
    (hs : (w.que.slots (w.tickets k).slot).numUsers = 0) : (w.tickets k).Released := by
  rw [(h.fine hk).released_iff]
  by_contra hl
  have hu := (h.shows (h.live hk hl)).users
  rw [hs] at hu
  exact hl ((i32_eq_zero_iff (h.fine hk).left_le).mp hu.symm)

-- ---------------------------------------------------------------------------
-- What the two calls that return a buffer return
-- ---------------------------------------------------------------------------

theorem Traffic.Inv.sts_one {w : Traffic} (h : w.Inv) (hi : w.holder i = some k) :
    (w.que.slots i).producedSts = 1 ↔ (w.tickets k).Active := by
  rw [(h.shows hi).sts]
  split <;> simp_all

/-- The slot whose sequence number is due. -/
theorem Traffic.Inv.due {w : Traffic} (h : w.Inv) (few : w.obtained < uint32Max)
    (hs : w.que.lastCons = (w.que.slots i).queSeq) : w.holder i = some w.delivered.length := by
  rw [h.cons] at hs
  have hbehind := h.behind
  cases hi : w.holder i with
  | none =>
    rw [(h.unused hi).1] at hs
    omega
  | some k => rw [hs, h.seq hi]

theorem getNextBuf_some {w : Traffic} (h : w.Inv) (few : w.obtained < uint32Max)
    (hpv : (ihevceBuffQueGetNextBuf w.que).1 = some i) :
    w.holder i = some w.delivered.length ∧
      (w.tickets w.delivered.length).users.isSome ∧
      (ihevceBuffQueGetNextBuf w.que).2 = { w.que with lastCons := w.delivered.length + 1 } := by
  unfold ihevceBuffQueGetNextBuf at hpv ⊢
  split at hpv
  case h_2 => contradiction
  case h_1 j hj =>
    obtain ⟨-, hseq⟩ := search_some hj
    have hj' := h.due few (by simpa using hseq)
    split at hpv
    case isFalse => contradiction
    case isTrue hsts =>
      obtain rfl := Option.some.inj hpv
      have hact := (h.sts_one hj').mp hsts
      refine ⟨hj', hact.1, ?_⟩
      have hlen : w.delivered.length + 1 < 2 ^ 32 := by
        have := h.behind
        simp only [uint32Max] at few
        omega
      rw [if_pos hsts, h.cons, u32_of_lt hlen]

theorem getNextBuf_none {w : Traffic} (hpv : (ihevceBuffQueGetNextBuf w.que).1 = none) :
    (ihevceBuffQueGetNextBuf w.que).2 = w.que := by
  unfold ihevceBuffQueGetNextBuf at hpv ⊢
  split at hpv
  case h_2 => rfl
  case h_1 =>
    split at hpv
    case isTrue => contradiction
    case isFalse hsts => rw [if_neg hsts]

/-- `ihevce_buff_que_get_next_buf` returns the buffer of the next acquisition as soon as it
is produced. -/
theorem getNextBuf_eq {w : Traffic} (h : w.Inv) (few : w.obtained < uint32Max) :
    (ihevceBuffQueGetNextBuf w.que).1 =
      if w.delivered.length < w.obtained ∧ (w.tickets w.delivered.length).users.isSome then
        some (w.tickets w.delivered.length).slot
      else none := by
  cases hpv : (ihevceBuffQueGetNextBuf w.que).1 with
  | some i =>
    obtain ⟨hi, hsome, -⟩ := getNextBuf_some h few hpv
    obtain ⟨hk, hslot, -⟩ := h.held hi
    rw [if_pos ⟨hk, hsome⟩, hslot]
  | none =>
    rw [if_neg]
    rintro ⟨hk, hsome⟩
    have hnext := h.next hk
    obtain ⟨-, -, hlt⟩ := h.held hnext
    have hseq := h.seq hnext
    unfold ihevceBuffQueGetNextBuf at hpv
    split at hpv
    case h_2 hn =>
      have := search_none hn hlt
      simp [h.cons, hseq] at this
    case h_1 j hj =>
      have hj' := h.due few (by simpa using (search_some hj).2)
      split at hpv
      case isTrue => contradiction
      case isFalse hsts =>
        refine hsts ((h.sts_one hj').mpr ⟨hsome, ?_⟩)
        rintro ⟨hdone, -⟩
        exact absurd ((h.taken hk).mp ((h.fine hk).taken hdone)) (Nat.lt_irrefl _)

theorem getFreeBuf_some {q : BufQue} (hpv : (ihevceBuffQueGetFreeBuf q).1 = some i) :
    i < q.numBufs ∧ (q.slots i).numUsers = 0 ∧ (q.slots i).producedSts = 0 ∧
      (ihevceBuffQueGetFreeBuf q).2 =
        { q.setSlot i { q.slots i with numUsers := 1, queSeq := q.lastProd } with
          lastProd := u32 (q.lastProd + 1) } := by
  unfold ihevceBuffQueGetFreeBuf at hpv ⊢
  split at hpv
  case h_2 => contradiction
  case h_1 j hj =>
    obtain rfl := Option.some.inj hpv
    obtain ⟨hlt, hs⟩ := search_some hj
    simp only [Bool.and_eq_true, beq_iff_eq] at hs
    exact ⟨hlt, hs.1, hs.2, rfl⟩

theorem getFreeBuf_none {q : BufQue} (hpv : (ihevceBuffQueGetFreeBuf q).1 = none) :
    (ihevceBuffQueGetFreeBuf q).2 = q := by
  unfold ihevceBuffQueGetFreeBuf at hpv ⊢
  split at hpv
  case h_1 => contradiction
  case h_2 => rfl

theorem setBufProd_done {q : BufQue} (h : (ihevceBuffQueSetBufProd q bufId n).1 = 0) :
    (q.slots bufId).producedSts = 0 ∧ (ihevceBuffQueSetBufProd q bufId n).2 =
      { q.setSlot bufId
          { q.slots bufId with
            numUsers := i32 ((q.slots bufId).numUsers + n)
            producedSts := 1 } with
        numActiveBufs := q.numActiveBufs + 1 } := by
  unfold ihevceBuffQueSetBufProd at h ⊢
  split at h
  case isFalse => contradiction
  case isTrue hlt =>
    split at h
    case isFalse => contradiction
    case isTrue hsts =>
      rw [if_pos hlt, if_pos hsts]
      exact ⟨hsts, rfl⟩

theorem setBufProd_refused {q : BufQue} (h : (ihevceBuffQueSetBufProd q bufId n).1 ≠ 0) :
    (ihevceBuffQueSetBufProd q bufId n).2 = q := by
  unfold ihevceBuffQueSetBufProd at h ⊢
  split_ifs at h ⊢ with hlt hsts
  · exact absurd rfl h
  · rfl
  · rfl

/-- Only a buffer whose acquisition is active is marked as produced. -/
theorem Traffic.Inv.produced {w : Traffic} (h : w.Inv)
    (hs : 0 < (w.que.slots i).producedSts) :
    ∃ k, w.holder i = some k ∧ k ∈ w.active := by
  cases hi : w.holder i with
  | none =>
    rw [(h.unused hi).2] at hs
    contradiction
  | some k =>
    refine ⟨k, rfl, Finset.mem_filter.mpr ⟨Finset.mem_range.mpr (h.held hi).1, ?_⟩⟩
    rw [(h.shows hi).sts] at hs
    split at hs
    case isTrue hact => exact hact
    case isFalse => contradiction

/-- The active acquisitions are of different buffers. -/
theorem Traffic.Inv.numActiveBufs_le {w : Traffic} (h : w.Inv) :
    w.que.numActiveBufs ≤ w.que.numBufs := by
  have hlive : ∀ k ∈ w.active, w.holder (w.tickets k).slot = some k := by
    intro k hk
    obtain ⟨hlt, hact⟩ := Finset.mem_filter.mp hk
    have hlt' := Finset.mem_range.mp hlt
    exact h.live hlt' (mt (h.fine hlt').released_iff.mpr hact.2)
  have hmaps : ∀ k ∈ w.active, (w.tickets k).slot ∈ Finset.range w.que.numBufs := fun k hk =>
    Finset.mem_range.mpr (h.held (hlive k hk)).2.2
  have hinj : Set.InjOn (fun k => (w.tickets k).slot) w.active := by
    intro k hk k' hk' he
    have hsame := (congrArg w.holder he).symm.trans (hlive k hk)
    exact Option.some.inj (hsame.symm.trans (hlive k' hk'))
  have hcard := Finset.card_le_card_of_injOn _ hmaps hinj
  rw [Finset.card_range] at hcard
  rw [h.count]
  exact_mod_cast hcard

theorem Traffic.Inv.numActiveBufs_ne {w : Traffic} (h : w.Inv) (hk : k ∈ w.active) :
    w.que.numActiveBufs ≠ 0 := by
  have := Finset.card_pos.mpr ⟨k, hk⟩
  rw [h.count]
  omega

/-- The error path of a release that comes after the count has gone down is never taken. -/
theorem relBuf_refused {w : Traffic} (h : w.Inv) (hr : (ihevceBuffQueRelBuf w.que bufId).1 ≠ 0) :
    (ihevceBuffQueRelBuf w.que bufId).2 = w.que := by
  unfold ihevceBuffQueRelBuf at hr ⊢
  split at hr
  case isFalse hlt => rw [if_neg hlt]
  case isTrue hlt =>
    split at hr
    case isFalse hsts => rw [if_pos hlt, if_neg hsts]
    case isTrue hsts =>
      obtain ⟨k, -, hk⟩ := h.produced hsts
      dsimp only at hr
      rw [if_neg (h.numActiveBufs_ne hk)] at hr
      split at hr <;> exact absurd rfl hr

theorem relBuf_done {w : Traffic} (h : w.Inv) (hr : (ihevceBuffQueRelBuf w.que bufId).1 = 0) :
    ∃ users : Int, users = i32 ((w.que.slots bufId).numUsers - 1) ∧
      (ihevceBuffQueRelBuf w.que bufId).2 =
        { w.que.setSlot bufId
            { w.que.slots bufId with
              numUsers := users
              producedSts := if users = 0 then 0 else (w.que.slots bufId).producedSts } with
          numActiveBufs := w.que.numActiveBufs - if users = 0 then 1 else 0 } := by
  refine ⟨_, rfl, ?_⟩
  unfold ihevceBuffQueRelBuf at hr ⊢
  split at hr
  case isFalse => contradiction
  case isTrue hlt =>
    split at hr
    case isFalse => contradiction
    case isTrue hsts =>
      obtain ⟨k, -, hk⟩ := h.produced hsts
      rw [if_pos hlt, if_pos hsts]
      dsimp only
      rw [if_neg (h.numActiveBufs_ne hk)]
      split
      · rfl
      · simp [BufQue.setSlot]

-- ---------------------------------------------------------------------------
-- A change to one acquisition
-- ---------------------------------------------------------------------------

theorem activeOf_card {f : Nat → Ticket} (hk : k < m) :
    (activeOf m f).card = ((activeOf m f).erase k).card + if (f k).Active then 1 else 0 := by
  split
  case isTrue hact =>
    have hmem : k ∈ activeOf m f := Finset.mem_filter.mpr ⟨Finset.mem_range.mpr hk, hact⟩
    exact (Finset.card_erase_add_one hmem).symm
  case isFalse hact =>
    have hmem : k ∉ activeOf m f := fun h => hact (Finset.mem_filter.mp h).2
    rw [Finset.erase_eq_of_notMem hmem, Nat.add_zero]

theorem activeOf_update (m : Nat) (f : Nat → Ticket) (k : Nat) (t : Ticket) :
    (activeOf m (Function.update f k t)).erase k = (activeOf m f).erase k := by
  ext j
  simp only [Finset.mem_erase, activeOf, Finset.mem_filter]
  refine and_congr_right fun hj => ?_
  rw [Function.update_of_ne hj]

/-- The number of active acquisitions after a change to acquisition `k`. -/
theorem activeOf_change {f : Nat → Ticket} (hk : k < m) (t : Ticket) :
    ((activeOf m (Function.update f k t)).card : Int) =
      (activeOf m f).card - (if (f k).Active then 1 else 0) + if t.Active then 1 else 0 := by
  rw [activeOf_card (f := Function.update f k t) hk, activeOf_update, activeOf_card (f := f) hk,
    Function.update_self]
  push_cast
  split <;> split <;> omega

/-- A change to the acquisition that holds a buffer, shown by the entries of the buffer. -/
theorem Traffic.Inv.change {w : Traffic} (h : w.Inv) (hi : w.holder i = some k) {t : Ticket}
    {s : BufSlot} {active : Int} (hslot : t.slot = (w.tickets k).slot)
    (htaken : t.taken = (w.tickets k).taken) (hfine : t.Fine) (hshows : s.Shows t)
    (hseq : s.queSeq = (w.que.slots i).queSeq)
    (hcount : active = w.que.numActiveBufs - (if (w.tickets k).Active then 1 else 0) +
      if t.Active then 1 else 0) :
    ({ w with
      que := { w.que.setSlot i s with numActiveBufs := active }
      tickets := Function.update w.tickets k t } : Traffic).Inv := by
  obtain ⟨hk, hsl, hlt⟩ := h.held hi
  have hother : ∀ {i' k'}, w.holder i' = some k' → i' ≠ i → k' ≠ k := by
    rintro i' k' hi' hne rfl
    exact hne ((h.held hi').2.1.symm.trans hsl)
  constructor
  case prod => exact h.prod
  case cons => exact h.cons
  case behind => exact h.behind
  case order => exact h.order
  case unused =>
    intro i' hi'
    have hne : i' ≠ i := fun he => by simp [he, hi] at hi'
    simpa [Function.update_of_ne hne] using h.unused hi'
  case held =>
    intro i' k' hi'
    obtain ⟨hk', hsl', hlt'⟩ := h.held hi'
    refine ⟨hk', ?_, hlt'⟩
    by_cases he : k' = k
    · subst he
      simpa [hslot] using hsl'
    · simpa [Function.update_of_ne he] using hsl'
  case seq =>
    intro i' k' hi'
    by_cases he : i' = i
    · subst he
      simpa [hseq] using h.seq hi'
    · simpa [Function.update_of_ne he] using h.seq hi'
  case shows =>
    intro i' k' hi'
    by_cases he : i' = i
    · subst he
      obtain rfl : k' = k := Option.some.inj (hi'.symm.trans hi)
      simpa using hshows
    · simpa [Function.update_of_ne he, Function.update_of_ne (hother hi' he)] using h.shows hi'
  case live =>
    intro k' hk' hl
    by_cases he : k' = k
    · subst he
      simp [hslot, hsl, hi]
    · simp only [Function.update_of_ne he] at hl ⊢
      exact h.live hk' hl
  case fine =>
    intro k' hk'
    by_cases he : k' = k
    · subst he
      simpa using hfine
    · simpa [Function.update_of_ne he] using h.fine hk'
  case taken =>
    intro k' hk'
    by_cases he : k' = k
    · subst he
      simpa [htaken] using h.taken hk'
    · simpa [Function.update_of_ne he] using h.taken hk'
  case count =>
    have hc := h.count
    change active = ((activeOf w.obtained (Function.update w.tickets k t)).card : Int)
    rw [activeOf_change hk, hcount, hc]
    rfl

-- ---------------------------------------------------------------------------
-- One call
-- ---------------------------------------------------------------------------

theorem Traffic.Inv.setBufProd {w : Traffic} (h : w.Inv)
    (ok : w.Owns (.setBufProd bufId n) ∨ w.que.Refuses (.setBufProd bufId n)) :
    (w.call (.setBufProd bufId n)).Inv := by
  by_cases hr : (ihevceBuffQueSetBufProd w.que bufId n).1 = 0
  case neg =>
    simpa only [Traffic.call, if_neg hr, setBufProd_refused hr] using h
  case pos =>
    obtain ⟨hn, k, hi, hu⟩ := ok.resolve_right fun hne => hne hr
    obtain ⟨hsts, hq⟩ := setBufProd_done hr
    obtain ⟨hk, -, -⟩ := h.held hi
    have hfine := h.fine hk
    have hzero : (w.tickets k).usersDone = 0 := by
      have := hfine.done
      simpa [hu] using this
    have htaken : (w.tickets k).taken = false := by
      have := mt hfine.produced
      simpa [hu] using this
    have hdone : (w.tickets k).consumerDone = false := by
      have := mt hfine.taken
      simpa [htaken] using this
    have hact : ¬ (w.tickets k).Active := by simp [Ticket.Active, hu]
    have hact' : ({ w.tickets k with users := some n } : Ticket).Active := by
      simp [Ticket.Active, Ticket.Released, hdone]
    have hcall : w.call (.setBufProd bufId n) =
        { w with
          que := (ihevceBuffQueSetBufProd w.que bufId n).2
          tickets := Function.update w.tickets k { w.tickets k with users := some n } } := by
      simp [Traffic.call, hr, Traffic.mark, hi]
    rw [hcall, hq]
    refine h.change hi rfl rfl ⟨by simpa using hn, by simp [hzero], by simp [hdone], by simp⟩
      ⟨?_, ?_⟩ rfl ?_
    · rw [(h.shows hi).users]
      simp only [i32_add]
      simp [Ticket.left, hu, hzero, hdone]
    · rw [if_pos hact']
    · rw [if_neg hact, if_pos hact']
      omega

/-- A release takes one off what the acquisition waits for. -/
theorem Ticket.release_left {t : Ticket} {user : User}
    (hc : user = .consumer → t.consumerDone = false)
    (ha : user = .added → t.usersDone < t.users.getD 0) : (t.release user).left + 1 = t.left := by
  cases user with
  | consumer => simp [Ticket.release, Ticket.left, hc rfl, Nat.add_comm]
  | added =>
    have := ha rfl
    change (if t.consumerDone then 0 else 1) + (t.users.getD 0 - (t.usersDone + 1)) + 1 =
      (if t.consumerDone then 0 else 1) + (t.users.getD 0 - t.usersDone)
    omega

theorem Ticket.Fine.release {t : Ticket} {user : User} (h : t.Fine)
    (hc : user = .consumer → t.taken = true)
    (ha : user = .added → t.usersDone < t.users.getD 0) : (t.release user).Fine := by
  cases user with
  | consumer => exact ⟨h.count, h.done, fun _ => hc rfl, h.produced⟩
  | added => exact ⟨h.count, ha rfl, h.taken, h.produced⟩

/-- What ownership says of a release, whoever makes it. -/
theorem Traffic.Inv.owns_relBuf {w : Traffic} (h : w.Inv) {user : User}
    (ok : w.Owns (.relBuf bufId user)) :
    ∃ k, w.holder bufId = some k ∧ (w.tickets k).users.isSome ∧
      (user = .consumer → (w.tickets k).taken = true ∧ (w.tickets k).consumerDone = false) ∧
      (user = .added → (w.tickets k).usersDone < (w.tickets k).users.getD 0) := by
  cases user with
  | consumer =>
    obtain ⟨k, hi, htaken, hdone⟩ := ok
    exact ⟨k, hi, (h.fine (h.held hi).1).produced htaken, fun _ => ⟨htaken, hdone⟩, nofun⟩
  | added =>
    obtain ⟨k, n, hi, hu, hlt⟩ := ok
    exact ⟨k, hi, by simp [hu], nofun, fun _ => by simpa [hu] using hlt⟩

theorem Traffic.Inv.relBuf {w : Traffic} (h : w.Inv)
    (ok : w.Owns (.relBuf bufId user) ∨ w.que.Refuses (.relBuf bufId user)) :
    (w.call (.relBuf bufId user)).Inv := by
  by_cases hr : (ihevceBuffQueRelBuf w.que bufId).1 = 0
  case neg =>
    simpa only [Traffic.call, if_neg hr, relBuf_refused h hr] using h
  case pos =>
    obtain ⟨k, hi, hu, hc, ha⟩ := h.owns_relBuf (ok.resolve_right fun hne => hne hr)
    obtain ⟨users, husers, hq⟩ := relBuf_done h hr
    obtain ⟨hk, -, -⟩ := h.held hi
    have hfine := h.fine hk
    have hfine' : ((w.tickets k).release user).Fine := hfine.release (fun e => (hc e).1) ha
    have hleft := Ticket.release_left (fun e => (hc e).2) ha
    have hact : (w.tickets k).Active := ⟨hu, fun hrel => by
      have := hfine.released_iff.mp hrel
      omega⟩
    have hzero : users = 0 ↔ ¬ ((w.tickets k).release user).Active := by
      have hu' : ((w.tickets k).release user).users.isSome := by cases user <;> exact hu
      rw [husers, (h.shows hi).users, ← hleft, i32_sub_one, Nat.cast_succ, Int.add_sub_cancel,
        i32_eq_zero_iff hfine'.left_le, ← hfine'.released_iff]
      simp [Ticket.Active, hu']
    have hcall : w.call (.relBuf bufId user) =
        { w with
          que := (ihevceBuffQueRelBuf w.que bufId).2
          tickets := Function.update w.tickets k ((w.tickets k).release user) } := by
      simp [Traffic.call, hr, Traffic.mark, hi]
    rw [hcall, hq]
    refine h.change hi (by cases user <;> rfl) (by cases user <;> rfl) hfine' ⟨?_, ?_⟩ rfl ?_
    · rw [husers, (h.shows hi).users, ← hleft, i32_sub_one, Nat.cast_succ, Int.add_sub_cancel]
    · by_cases h0 : users = 0
      · rw [if_pos h0, if_neg (hzero.mp h0)]
      · rw [if_neg h0, if_pos (not_not.mp (mt hzero.mpr h0)), (h.sts_one hi).mpr hact]
    · rw [if_pos hact]
      by_cases h0 : users = 0
      · rw [if_pos h0, if_neg (hzero.mp h0)]
        omega
      · rw [if_neg h0, if_pos (not_not.mp (mt hzero.mpr h0))]
        omega

theorem Traffic.Inv.getNextBuf {w : Traffic} (h : w.Inv) (few : w.obtained < uint32Max) :
    (w.call .getNextBuf).Inv := by
  cases hpv : (ihevceBuffQueGetNextBuf w.que).1 with
  | none => simpa only [Traffic.call, hpv, getNextBuf_none hpv] using h
  | some i =>
    obtain ⟨hi, hsome, hq⟩ := getNextBuf_some h few hpv
    obtain ⟨hk, hslot, hlt⟩ := h.held hi
    have hcall : w.call .getNextBuf =
        { w with
          que := { w.que with lastCons := w.delivered.length + 1 }
          delivered := w.delivered ++ [some w.delivered.length]
          tickets := Function.update w.tickets w.delivered.length
            { w.tickets w.delivered.length with taken := true } } := by
      simp [Traffic.call, hpv, Traffic.mark, hi, hq]
    rw [hcall]
    have hsame : ∀ k', ∀ P : Ticket → Prop,
        (P { w.tickets w.delivered.length with taken := true } ↔ P (w.tickets w.delivered.length)) →
        (P (Function.update w.tickets w.delivered.length
          { w.tickets w.delivered.length with taken := true } k') ↔ P (w.tickets k')) := by
      intro k' P hP
      by_cases he : k' = w.delivered.length
      · subst he
        simpa using hP
      · rw [Function.update_of_ne he]
    constructor
    case prod => exact h.prod
    case cons => simp
    case behind => simpa using Nat.succ_le_of_lt hk
    case order =>
      conv_lhs => rw [h.order]
      simp [List.range_succ]
    case unused => exact h.unused
    case held =>
      intro i' k' hi'
      obtain ⟨hk', hsl', hlt'⟩ := h.held hi'
      exact ⟨hk', (hsame k' (fun t => t.slot = i') Iff.rfl).mpr hsl', hlt'⟩
    case seq => exact h.seq
    case shows =>
      intro i' k' hi'
      exact (hsame k' (fun t => (w.que.slots i').Shows t) ⟨fun hs => ⟨hs.1, hs.2⟩, fun hs => ⟨hs.1, hs.2⟩⟩).mpr
        (h.shows hi')
    case live =>
      intro k' hk' hl
      exact (hsame k' (fun t => w.holder t.slot = some k') Iff.rfl).mpr
        (h.live hk' ((hsame k' (fun t => t.left ≠ 0) Iff.rfl).mp hl))
    case fine =>
      intro k' hk'
      by_cases he : k' = w.delivered.length
      · subst he
        have hf := h.fine hk'
        simpa using (⟨hf.count, hf.done, fun _ => rfl, fun _ => hsome⟩ :
          Ticket.Fine { w.tickets w.delivered.length with taken := true })
      · simpa only [Function.update_of_ne he] using h.fine hk'
    case taken =>
      intro k' hk'
      simp only [List.length_append, List.length_singleton]
      by_cases he : k' = w.delivered.length
      · subst he
        simp
      · rw [Function.update_of_ne he, h.taken hk']
        omega
    case count =>
      refine h.count.trans (congrArg (fun c : Finset Nat => (c.card : Int)) ?_)
      exact Finset.filter_congr fun k' _ => (hsame k' Ticket.Active Iff.rfl).symm

theorem Traffic.Inv.getFreeBuf {w : Traffic} (h : w.Inv) (few : w.obtained + 1 < uint32Max) :
    (w.call .getFreeBuf).Inv := by
  cases hpv : (ihevceBuffQueGetFreeBuf w.que).1 with
  | none => simpa only [Traffic.call, hpv, getFreeBuf_none hpv] using h
  | some i =>
    obtain ⟨hlt, husers, hsts, hq⟩ := getFreeBuf_some hpv
    have hcall : w.call .getFreeBuf =
        { w with
          que :=
            { w.que.setSlot i { w.que.slots i with numUsers := 1, queSeq := w.obtained } with
              lastProd := w.obtained + 1 }
          obtained := w.obtained + 1
          tickets := Function.update w.tickets w.obtained ⟨i, none, false, false, 0⟩
          holder := Function.update w.holder i (some w.obtained) } := by
      have hprod : u32 (w.obtained + 1) = w.obtained + 1 := by
        refine u32_of_lt ?_
        simp only [uint32Max] at few
        omega
      simp [Traffic.call, hpv, hq, h.prod, hprod]
    rw [hcall]
    have hne : ∀ {k}, k < w.obtained → k ≠ w.obtained := fun hk => Nat.ne_of_lt hk
    constructor
    case prod => rfl
    case cons => exact h.cons
    case behind => exact Nat.le_succ_of_le h.behind
    case order => exact h.order
    case unused =>
      intro i' hi'
      have he : i' ≠ i := fun he => by simp [he] at hi'
      simp only [Function.update_of_ne he] at hi'
      simpa [Function.update_of_ne he] using h.unused hi'
    case held =>
      intro i' k' hi'
      by_cases he : i' = i
      · subst he
        obtain rfl : w.obtained = k' := by simpa using hi'
        simpa using hlt
      · simp only [Function.update_of_ne he] at hi'
        obtain ⟨hk', hsl', hlt'⟩ := h.held hi'
        refine ⟨Nat.lt_succ_of_lt hk', ?_, hlt'⟩
        simpa only [Function.update_of_ne (hne hk')] using hsl'
    case seq =>
      intro i' k' hi'
      by_cases he : i' = i
      · subst he
        simpa using hi'
      · simp only [Function.update_of_ne he] at hi'
        simpa [Function.update_of_ne he] using h.seq hi'
    case shows =>
      intro i' k' hi'
      by_cases he : i' = i
      · subst he
        obtain rfl : w.obtained = k' := by simpa using hi'
        refine ⟨?_, ?_⟩
        · simp [Ticket.left, i32, wrapInt]
        · simp [Ticket.Active, hsts]
      · simp only [Function.update_of_ne he] at hi'
        simpa [Function.update_of_ne he, Function.update_of_ne (hne (h.held hi').1)] using h.shows hi'
    case live =>
      intro k' hk' hl
      by_cases hk : k' = w.obtained
      · subst hk
        simp
      · simp only [Function.update_of_ne hk] at hl ⊢
        have hk'' : k' < w.obtained := Nat.lt_of_le_of_ne (Nat.le_of_lt_succ hk') hk
        have hslot : (w.tickets k').slot ≠ i := by
          rintro rfl
          exact hl ((h.fine hk'').released_iff.mp (h.free hk'' husers))
        rw [Function.update_of_ne hslot]
        exact h.live hk'' hl
    case fine =>
      intro k' hk'
      by_cases hk : k' = w.obtained
      · subst hk
        simpa using (⟨by simp, Nat.le_refl 0, by simp, by simp⟩ :
          Ticket.Fine ⟨i, none, false, false, 0⟩)
      · simp only [Function.update_of_ne hk]
        exact h.fine (Nat.lt_of_le_of_ne (Nat.le_of_lt_succ hk') hk)
    case taken =>
      intro k' hk'
      by_cases hk : k' = w.obtained
      · subst hk
        simpa using h.behind
      · simp only [Function.update_of_ne hk]
        exact h.taken (Nat.lt_of_le_of_ne (Nat.le_of_lt_succ hk') hk)
    case count =>
      refine h.count.trans (congrArg (fun c : Finset Nat => (c.card : Int)) ?_)
      ext k'
      simp only [Traffic.active, activeOf, Finset.mem_filter, Finset.mem_range]
      by_cases hk : k' = w.obtained
      · subst hk
        simp [Ticket.Active]
      · rw [Function.update_of_ne hk]
        exact and_congr_left fun _ => by omega

/-- The calls for the display order leave alone what the other calls use. -/
theorem Traffic.Inv.reorder {w : Traffic} (h : w.Inv) (i e d d' : Nat) :
    ({ w with
      que :=
        { w.que.setSlot i { w.que.slots i with encSeq := e } with
          nextDispSeq := d
          lastDispSeq := d' } } : Traffic).Inv := by
  have hslot : ∀ j, (Function.update w.que.slots i { w.que.slots i with encSeq := e } j).numUsers =
      (w.que.slots j).numUsers ∧
      (Function.update w.que.slots i { w.que.slots i with encSeq := e } j).producedSts =
      (w.que.slots j).producedSts ∧
      (Function.update w.que.slots i { w.que.slots i with encSeq := e } j).queSeq =
      (w.que.slots j).queSeq := by
    intro j
    by_cases he : j = i
    · subst he
      simp
    · simp [Function.update_of_ne he]
  exact
    { prod := h.prod
      cons := h.cons
      behind := h.behind
      order := h.order
      unused := fun hi => by
        simpa [(hslot _).2.2, (hslot _).2.1] using h.unused hi
      held := h.held
      seq := fun hi => (hslot _).2.2.trans (h.seq hi)
      shows := fun hi =>
        ⟨(hslot _).1.trans (h.shows hi).users, (hslot _).2.1.trans (h.shows hi).sts⟩
      live := h.live
      fine := h.fine
      taken := h.taken
      count := h.count }

theorem mark_obtained (w : Traffic) (i : Nat) (f : Ticket → Ticket) :
    (w.mark i f).obtained = w.obtained := by
  unfold Traffic.mark
  split <;> rfl

theorem call_obtained (w : Traffic) (c : QueCall) : w.obtained ≤ (w.call c).obtained := by
  cases c with
  | getFreeBuf =>
    dsimp only [Traffic.call]
    split
    · exact Nat.le_succ _
    · exact Nat.le_refl _
  | getNextBuf =>
    dsimp only [Traffic.call]
    split
    · rw [mark_obtained]
    · exact Nat.le_refl _
  | setBufProd | relBuf =>
    dsimp only [Traffic.call]
    split
    · rw [mark_obtained]
    · exact Nat.le_refl _
  | setReorderBuf | getNextReorderBuf => exact Nat.le_refl _

theorem Traffic.Inv.call {w : Traffic} (h : w.Inv) (ok : w.Owns c ∨ w.que.Refuses c)
    (few : (w.call c).obtained < uint32Max) : (w.call c).Inv := by
  have few' : w.obtained < uint32Max := Nat.lt_of_le_of_lt (call_obtained w c) few
  cases c with
  | getFreeBuf =>
    cases hpv : (ihevceBuffQueGetFreeBuf w.que).1 with
    | none => simpa only [Traffic.call, hpv, getFreeBuf_none hpv] using h
    | some i =>
      refine h.getFreeBuf ?_
      simpa only [Traffic.call, hpv] using few
  | setBufProd bufId n => exact h.setBufProd ok
  | getNextBuf => exact h.getNextBuf few'
  | relBuf bufId user => exact h.relBuf ok
  | setReorderBuf bufId =>
    dsimp only [Traffic.call, ihevceBuffQueSetReorderBuf]
    split
    · exact h.reorder bufId _ _ w.que.lastDispSeq
    · exact h
  | getNextReorderBuf =>
    dsimp only [Traffic.call, ihevceBuffQueGetNextReorderBuf]
    split
    · simpa [BufQue.setSlot] using h.reorder 0 (w.que.slots 0).encSeq w.que.nextDispSeq _
    · exact h

theorem reached_inv (h : Traffic.Reached numBufs w) (few : w.obtained < uint32Max) : w.Inv := by
  induction h with
  | start => exact start_inv numBufs
  | @call w c hreached ok ih =>
    exact (ih (Nat.lt_of_le_of_lt (call_obtained w c) few)).call ok few

/-- `ihevce_buff_que_get_next_buf` has returned the acquisitions in order, each once and
after its production, and returns the next one as soon as that is produced; a buffer is
free only when every user of every acquisition has released it. -/
theorem buffers_in_order (h : Traffic.Reached numBufs w) (few : w.obtained < uint32Max) :
    (w.delivered = (List.range w.delivered.length).map some ∧
      ∀ k < w.delivered.length, k < w.obtained ∧ (w.tickets k).users.isSome) ∧
    (ihevceBuffQueGetNextBuf w.que).1 =
      (if w.delivered.length < w.obtained ∧ (w.tickets w.delivered.length).users.isSome then
        some (w.tickets w.delivered.length).slot
      else none) ∧
    (∀ i, (ihevceBuffQueGetFreeBuf w.que).1 = some i →
      ∀ k < w.obtained, (w.tickets k).slot = i → (w.tickets k).Released) ∧
    w.que.numActiveBufs = (w.active.card : Int) ∧
    (∀ bufId n, (ihevceBuffQueSetBufProd w.que bufId n).1 ≠ 0 →
      (ihevceBuffQueSetBufProd w.que bufId n).2 = w.que) ∧
    (∀ bufId, (ihevceBuffQueRelBuf w.que bufId).1 ≠ 0 →
      (ihevceBuffQueRelBuf w.que bufId).2 = w.que) := by
  have hinv := reached_inv h few
  refine ⟨⟨hinv.order, ?_⟩, getNextBuf_eq hinv few, ?_, hinv.count, ?_, ?_⟩
  · intro k hk
    have hlt := Nat.lt_of_lt_of_le hk hinv.behind
    exact ⟨hlt, (hinv.fine hlt).produced ((hinv.taken hlt).mpr hk)⟩
  · intro i hpv k hk hslot
    obtain ⟨-, husers, -⟩ := getFreeBuf_some hpv
    exact hinv.free hk (by rwa [hslot])
  · exact fun bufId n hr => setBufProd_refused hr
  · exact fun bufId hr => relBuf_refused hinv hr

/-- The producer obtains both buffers of a queue of two and produces the second before the
first, which is the one delivered. -/
theorem buffers_in_order_two :
    (ihevceBuffQueGetNextBuf
      (((((Traffic.start 2).call .getFreeBuf).call .getFreeBuf).call (.setBufProd 1 0)).call
        (.setBufProd 0 1)).que).1 = some 0 := by
  have hreached : Traffic.Reached 2
      (((((Traffic.start 2).call .getFreeBuf).call .getFreeBuf).call (.setBufProd 1 0)).call
        (.setBufProd 0 1)) :=
    .call (.call (.call (.call .start (.inl trivial)) (.inl trivial))
      (.inl ⟨by decide, 1, rfl, rfl⟩)) (.inl ⟨by decide, 0, rfl, rfl⟩)
  rw [(buffers_in_order hreached (by decide)).2.1]
  rfl

end Libhevc.Encoder
