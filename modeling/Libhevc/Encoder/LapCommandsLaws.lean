import Libhevc.Encoder.LapCommands

/-!
# What the command parsers leave

A well-formed buffer is a sequence of commands and the end tag. Both loops take one
command at a time, and their results are carried from the next command to this one.
-/

namespace Libhevc.Encoder

-- ---------------------------------------------------------------------------
-- Well-formed buffers
-- ---------------------------------------------------------------------------

/-- The commands that may be in a synchronous buffer. -/
inductive SyncCmd
  | flush
  | forceIdr
  deriving DecidableEq, Repr

def SyncCmd.tag : SyncCmd → Nat
  | flush => ihevceSynchApiFlushTag
  | forceIdr => ihevceSynchApiForceIdrTag

/-- From word `i` on, with `size` bytes left, stand the commands and the end tag. -/
def SyncCmds (buf : Nat → Nat) : (i : Nat) → (size : Int) → List SyncCmd → Prop
  | i, size, [] => 4 ≤ size ∧ buf i &&& ihevceCommandsTagMask = ihevceSynchApiEndTag
  | i, size, c :: cmds => 8 ≤ size ∧ buf i &&& ihevceCommandsTagMask = c.tag ∧ buf (i + 1) = 0 ∧
    SyncCmds buf (i + 2) (size - 8) cmds

/-- A bitrate command stands at word `i`, with `size` bytes left. -/
def BitrateCmd (buf : Nat → Nat) (i : Nat) (size : Int) : Prop :=
  28 ≤ size ∧ buf i = ihevceAsynchApiSetbitrateTag ∧ buf (i + 1) = sizeofDynConfigPrms

/-- From word `i` on stand the commands, with their parameters as words, and the end tag. -/
def AsyncCmds (buf : Nat → Nat) : (i : Nat) → (size : Int) → List (List Nat) → Prop
  | i, size, [] => 4 ≤ size ∧ buf i = ihevceAsynchApiEndTag
  | i, size, c :: cmds => BitrateCmd buf i size ∧ dynConfigWords buf i = c ∧
    AsyncCmds buf (i + 7) (size - 28) cmds

/-- From word `i` on stand `n` bitrate commands, whatever follows. -/
def BitrateRun (buf : Nat → Nat) : (n i : Nat) → (size : Int) → Prop
  | 0, _, _ => True
  | n + 1, i, size => BitrateCmd buf i size ∧ BitrateRun buf n (i + 7) (size - 28)

-- ---------------------------------------------------------------------------
-- The synchronous loop
-- ---------------------------------------------------------------------------

/-- What the loop from `s` leaves. -/
structure SyncResult (buf : Nat → Nat) (s : SyncParse) (r : CmdExit × SyncParse) : Prop where
  reads : ∀ i ∈ r.2.reads, i ∈ s.reads ∨ 4 * ((i : Int) + 1) ≤ 4 * s.tagParse + s.i4CmdSize
  good : ∀ cmds, SyncCmds buf s.tagParse s.i4CmdSize cmds →
    r.1 = .endFlag ∧ r.2.errors = s.errors ∧ r.2.u4NumSei = s.u4NumSei + cmds.length ∧
      r.2.i4FlushCheck = (if SyncCmd.flush ∈ cmds then 1 else s.i4FlushCheck) ∧
      r.2.i4ForceIdrCheck = if SyncCmd.forceIdr ∈ cmds then 1 else s.i4ForceIdrCheck
  bad : (∀ cmds, ¬SyncCmds buf s.tagParse s.i4CmdSize cmds) → r.1 = .size ∨ r.2.errors ≠ []

theorem SyncCmds.cons_inv (h : SyncCmds buf i size cmds)
    (htag : buf i &&& ihevceCommandsTagMask = c.tag) :
    ∃ rest, cmds = c :: rest ∧ 8 ≤ size ∧ buf (i + 1) = 0 ∧
      SyncCmds buf (i + 2) (size - 8) rest := by
  cases cmds with
  | nil =>
    obtain ⟨-, hend⟩ := h
    rw [htag] at hend
    cases c <;> cases hend
  | cons c' rest =>
    obtain ⟨hsize, htag', hzero, hrest⟩ := h
    rw [htag] at htag'
    cases c <;> cases c' <;> first | exact ⟨rest, rfl, hsize, hzero, hrest⟩ | cases htag'

/-- A command with a length that is not zero ends the loop. -/
theorem SyncResult.badLength {s : SyncParse} {c : SyncCmd} (hsize : 4 ≤ s.i4CmdSize)
    (htag : buf s.tagParse &&& ihevceCommandsTagMask = c.tag)
    (hbad : ((s.read s.tagParse).badLength buf).1 = true) :
    SyncResult buf s
      (.returned, ((s.read s.tagParse).badLength buf).2.report .synchLengthNotZero) := by
  unfold SyncParse.badLength at hbad ⊢
  refine ⟨fun i hi => ?_, fun cmds hcmds => ?_, fun _ => Or.inr (List.cons_ne_nil _ _)⟩
  · split at hi
    · rcases List.mem_cons.mp hi with rfl | hi
      · right
        omega
      · exact Or.inl hi
    · rename_i hlong
      dsimp only [SyncParse.read] at hlong
      rcases List.mem_cons.mp hi with rfl | hi
      · right
        dsimp only [SyncParse.read]
        omega
      · rcases List.mem_cons.mp hi with rfl | hi
        · right
          omega
        · exact Or.inl hi
  · obtain ⟨rest, -, hlong, hzero, -⟩ := hcmds.cons_inv htag
    have hnot : ¬(s.read s.tagParse).i4CmdSize < 8 := Int.not_lt.mpr hlong
    rw [if_neg hnot] at hbad
    simp [SyncParse.read, hzero] at hbad

/-- A command, and what the loop leaves from the next one. -/
theorem SyncResult.command {s : SyncParse} {c : SyncCmd}
    (htag : buf s.tagParse &&& ihevceCommandsTagMask = c.tag)
    (hgood : ((s.read s.tagParse).badLength buf).1 = false)
    (h : SyncResult buf { ((s.read s.tagParse).badLength buf).2 with
      i4FlushCheck := if c = SyncCmd.flush then 1 else s.i4FlushCheck
      i4ForceIdrCheck := if c = SyncCmd.forceIdr then 1 else s.i4ForceIdrCheck }.advance r) :
    SyncResult buf s r := by
  unfold SyncParse.badLength at hgood h
  by_cases hshort : (s.read s.tagParse).i4CmdSize < 8
  · rw [if_pos hshort] at hgood
    cases hgood
  rw [if_neg hshort] at hgood h
  dsimp only [SyncParse.read] at hshort hgood
  have hzero : buf (s.tagParse + 1) = 0 := by simpa using hgood
  obtain ⟨hreads, hgoods, hbads⟩ := h
  dsimp only [SyncParse.read, SyncParse.advance] at hreads hgoods hbads
  refine ⟨fun i hi => ?_, fun cmds hcmds => ?_, fun hnone => hbads fun cmds hcmds => ?_⟩
  · rcases hreads i hi with hi | hi
    · rcases List.mem_cons.mp hi with rfl | hi
      · right
        omega
      · rcases List.mem_cons.mp hi with rfl | hi
        · right
          omega
        · exact Or.inl hi
    · right
      push_cast at hi
      omega
  · obtain ⟨rest, rfl, -, -, hrest⟩ := hcmds.cons_inv htag
    obtain ⟨hexit, herr, hnum, hflush, hidr⟩ := hgoods rest hrest
    refine ⟨hexit, herr, ?_, ?_, ?_⟩
    · rw [hnum, List.length_cons]
      omega
    · rw [hflush]
      cases c <;> simp
    · rw [hidr]
      cases c <;> simp
  · exact hnone (c :: cmds) ⟨by omega, htag, hzero, hcmds⟩

/-- With enough fuel the loop from `s` leaves `r`. -/
def SyncReturns (buf : Nat → Nat) (n : Nat) (s : SyncParse) (r : CmdExit × SyncParse) : Prop :=
  ∀ fuel, n < fuel → syncLoop buf fuel s = some r

theorem SyncReturns.intro (h : ∀ fuel, n ≤ fuel → syncLoop buf (fuel + 1) s = some r) :
    SyncReturns buf n s r := by
  intro fuel hfuel
  cases fuel with
  | zero => cases hfuel
  | succ fuel => exact h fuel (Nat.le_of_lt_succ hfuel)

/-- One command of the loop: its length is wrong, or the loop goes on behind it. -/
theorem syncLoop_command {buf : Nat → Nat} {n : Nat} {s : SyncParse} {c : SyncCmd}
    (hsize : 4 ≤ s.i4CmdSize)
    (htag : buf s.tagParse &&& ihevceCommandsTagMask = c.tag)
    (hloop : ∀ fuel, syncLoop buf (fuel + 1) s =
      if ((s.read s.tagParse).badLength buf).1 = true then
        some (.returned, ((s.read s.tagParse).badLength buf).2.report .synchLengthNotZero)
      else syncLoop buf fuel { ((s.read s.tagParse).badLength buf).2 with
        i4FlushCheck := if c = SyncCmd.flush then 1 else s.i4FlushCheck
        i4ForceIdrCheck := if c = SyncCmd.forceIdr then 1 else s.i4ForceIdrCheck }.advance)
    (ih : ∀ s' : SyncParse, s'.i4CmdSize < 8 * n →
      ∃ r, SyncReturns buf n s' r ∧ SyncResult buf s' r)
    (hn : s.i4CmdSize < 8 * (n + 1 : Nat)) :
    ∃ r, SyncReturns buf (n + 1) s r ∧ SyncResult buf s r := by
  cases hbad : ((s.read s.tagParse).badLength buf).1 with
  | true =>
    refine ⟨_, SyncReturns.intro fun fuel _ => ?_, SyncResult.badLength hsize htag hbad⟩
    rw [hloop, if_pos hbad]
  | false =>
    have hnext : (((s.read s.tagParse).badLength buf).2.i4CmdSize - 8 : Int) < 8 * n := by
      unfold SyncParse.badLength SyncParse.read
      push_cast at hn
      split <;> dsimp only <;> omega
    obtain ⟨r, hr, hres⟩ := ih { ((s.read s.tagParse).badLength buf).2 with
      i4FlushCheck := if c = SyncCmd.flush then 1 else s.i4FlushCheck
      i4ForceIdrCheck := if c = SyncCmd.forceIdr then 1 else s.i4ForceIdrCheck }.advance hnext
    refine ⟨r, SyncReturns.intro fun fuel hfuel => ?_, SyncResult.command htag hbad hres⟩
    rw [hloop, if_neg (by simp [hbad])]
    exact hr fuel hfuel

@[simp] theorem SyncParse.badLength_flush (buf : Nat → Nat) (s : SyncParse) :
    (s.badLength buf).2.i4FlushCheck = s.i4FlushCheck := by
  unfold SyncParse.badLength
  split <;> rfl

@[simp] theorem SyncParse.badLength_idr (buf : Nat → Nat) (s : SyncParse) :
    (s.badLength buf).2.i4ForceIdrCheck = s.i4ForceIdrCheck := by
  unfold SyncParse.badLength
  split <;> rfl

/-- What the loop leaves where no command stands. -/
theorem SyncResult.stop {s : SyncParse} (hsize : 4 ≤ s.i4CmdSize)
    (hflush : buf s.tagParse &&& ihevceCommandsTagMask ≠ SyncCmd.flush.tag)
    (hidr : buf s.tagParse &&& ihevceCommandsTagMask ≠ SyncCmd.forceIdr.tag) :
    SyncResult buf s (if buf s.tagParse &&& ihevceCommandsTagMask = ihevceSynchApiEndTag then
      (.endFlag, { s.read s.tagParse with i4CmdSize := s.i4CmdSize - 4 })
      else (.endFlag, (s.read s.tagParse).report .synchTlvError)) := by
  refine ⟨fun i hi => ?_, fun cmds hcmds => ?_, fun hnone => ?_⟩
  · have hread : i ∈ s.tagParse :: s.reads := by
      split at hi <;> exact hi
    rcases List.mem_cons.mp hread with rfl | hread
    · right
      omega
    · exact Or.inl hread
  · cases cmds with
    | nil =>
      rw [if_pos hcmds.2]
      exact ⟨rfl, rfl, rfl, rfl, rfl⟩
    | cons c cmds =>
      cases c with
      | flush => exact absurd hcmds.2.1 hflush
      | forceIdr => exact absurd hcmds.2.1 hidr
  · right
    split
    · rename_i hend
      exact absurd ⟨hsize, hend⟩ (hnone [])
    · exact List.cons_ne_nil _ _

/-- What the loop leaves where no word is left. -/
theorem SyncResult.short {s : SyncParse} (hsize : ¬4 ≤ s.i4CmdSize) :
    SyncResult buf s (.size, s) := by
  refine ⟨fun i hi => Or.inl hi, fun cmds hcmds => ?_, fun _ => Or.inl rfl⟩
  cases cmds with
  | nil => exact absurd hcmds.1 hsize
  | cons c cmds => exact absurd (Int.le_trans (by decide) hcmds.1) hsize

/-- The loop ends, and leaves what it should. -/
theorem syncLoop_result (buf : Nat → Nat) (n : Nat) (s : SyncParse) (hn : s.i4CmdSize < 8 * n) :
    ∃ r, SyncReturns buf n s r ∧ SyncResult buf s r := by
  induction n generalizing s with
  | zero =>
    have hsize : ¬4 ≤ s.i4CmdSize := by omega
    refine ⟨(.size, s), SyncReturns.intro fun fuel _ => ?_, SyncResult.short hsize⟩
    exact if_neg hsize
  | succ n ih =>
    by_cases hsize : 4 ≤ s.i4CmdSize
    · by_cases hflush : buf s.tagParse &&& ihevceCommandsTagMask = SyncCmd.flush.tag
      · refine syncLoop_command hsize hflush (fun fuel => ?_) ih hn
        rw [syncLoop, if_pos hsize]
        dsimp only [SyncCmd.tag] at hflush ⊢
        rw [if_pos hflush]
        simp [SyncParse.read]
      by_cases hidr : buf s.tagParse &&& ihevceCommandsTagMask = SyncCmd.forceIdr.tag
      · refine syncLoop_command hsize hidr (fun fuel => ?_) ih hn
        rw [syncLoop, if_pos hsize]
        dsimp only [SyncCmd.tag] at hidr hflush ⊢
        rw [if_neg hflush, if_pos hidr]
        simp [SyncParse.read]
      refine ⟨_, SyncReturns.intro fun fuel _ => ?_, SyncResult.stop hsize hflush hidr⟩
      rw [syncLoop, if_pos hsize]
      dsimp only [SyncCmd.tag] at hidr hflush ⊢
      rw [if_neg hflush, if_neg hidr, apply_ite some]
      rfl
    · refine ⟨(.size, s), SyncReturns.intro fun fuel _ => ?_, SyncResult.short hsize⟩
      exact if_neg hsize

/-- What the function should leave of a buffer of `size` bytes. -/
structure SyncParsed (buf : Nat → Nat) (size flushCheck idrCheck : Int) (s : SyncParse) :
    Prop where
  reads : ∀ i ∈ s.reads, 4 * ((i : Int) + 1) ≤ size
  good : ∀ cmds, SyncCmds buf 0 size cmds → s.errors = [] ∧
    s.i4FlushCheck = (if SyncCmd.flush ∈ cmds then 1 else flushCheck) ∧
    s.i4ForceIdrCheck = if SyncCmd.forceIdr ∈ cmds then 1 else idrCheck
  bad : (∀ cmds, ¬SyncCmds buf 0 size cmds) → s.errors ≠ []

/-- With enough fuel the function leaves `s`. -/
def SyncTerminates (buf : Nat → Nat) (size flushCheck idrCheck : Int) (s : SyncParse) : Prop :=
  ∃ n, ∀ fuel, n < fuel → ihevceLapParseSyncCmd fuel buf size flushCheck idrCheck = some s

theorem SyncTerminates.unique (h : SyncTerminates buf size fl idr s)
    (h' : SyncTerminates buf size fl idr s') : s = s' := by
  obtain ⟨n, hn⟩ := h
  obtain ⟨n', hn'⟩ := h'
  have hs := hn (n + n' + 1) (by omega)
  rw [hn' (n + n' + 1) (by omega)] at hs
  exact (Option.some.inj hs).symm

/-- The checks behind the loop only report. -/
theorem syncFinish_frame (r : CmdExit × SyncParse) : (syncFinish r).reads = r.2.reads ∧
    (syncFinish r).i4FlushCheck = r.2.i4FlushCheck ∧
    (syncFinish r).i4ForceIdrCheck = r.2.i4ForceIdrCheck := by
  obtain ⟨exit, s⟩ := r
  by_cases hmany : maxNumberOfSeiPayload < s.u4NumSei <;> cases exit <;>
    simp [syncFinish, SyncParse.report, hmany]

/-- An error of the loop stays, and a loop that ends by the size gives one. -/
theorem syncFinish_errors (h : r.1 = .size ∨ r.2.errors ≠ []) : (syncFinish r).errors ≠ [] := by
  obtain ⟨exit, s⟩ := r
  cases exit with
  | size => exact List.cons_ne_nil _ _
  | returned => exact h.resolve_left nofun
  | endFlag =>
    have herr : s.errors ≠ [] := h.resolve_left nofun
    by_cases hmany : maxNumberOfSeiPayload < s.u4NumSei <;>
      simp [syncFinish, SyncParse.report, hmany, herr]

theorem syncFinish_endFlag (h : r.1 = .endFlag) (herr : r.2.errors = []) :
    (syncFinish r).errors = [] ↔ r.2.u4NumSei ≤ maxNumberOfSeiPayload := by
  obtain ⟨exit, s⟩ := r
  dsimp only at h herr
  subst h
  by_cases hmany : maxNumberOfSeiPayload < s.u4NumSei
  · simp [syncFinish, SyncParse.report, hmany]
  · simp [syncFinish, hmany, herr, Nat.not_lt.mp hmany]

/-- The function meets its contract on a buffer that is not more than ten commands. -/
theorem syncParsed_iff (buf : Nat → Nat) (size flushCheck idrCheck : Int) :
    (∃ s, SyncTerminates buf size flushCheck idrCheck s ∧
      SyncParsed buf size flushCheck idrCheck s) ↔
      ∀ cmds, SyncCmds buf 0 size cmds → cmds.length ≤ maxNumberOfSeiPayload := by
  obtain ⟨r, hr, hres⟩ := syncLoop_result buf (size.toNat + 1)
    ⟨0, size, flushCheck, idrCheck, 0, [], []⟩ (by dsimp only; omega)
  have hterm : SyncTerminates buf size flushCheck idrCheck (syncFinish r) := by
    refine ⟨size.toNat + 1, fun fuel hfuel => ?_⟩
    rw [ihevceLapParseSyncCmd, hr fuel hfuel]
    rfl
  obtain ⟨hreads, hgood, hbad⟩ := hres
  obtain ⟨hfreads, hfflush, hfidr⟩ := syncFinish_frame r
  constructor
  · rintro ⟨s, hs, hparsed⟩ cmds hcmds
    rw [hs.unique hterm] at hparsed
    obtain ⟨hexit, herr, hnum, -⟩ := hgood cmds hcmds
    have hfew := (syncFinish_endFlag hexit herr).mp (hparsed.good cmds hcmds).1
    rw [hnum, Nat.zero_add] at hfew
    exact hfew
  · intro hfew
    refine ⟨_, hterm, fun i hi => ?_, fun cmds hcmds => ?_, fun hnone =>
      syncFinish_errors (hbad hnone)⟩
    · rw [hfreads] at hi
      rcases hreads i hi with hi | hi
      · cases hi
      · simpa using hi
    · obtain ⟨hexit, herr, hnum, hflush, hidr⟩ := hgood cmds hcmds
      refine ⟨(syncFinish_endFlag hexit herr).mpr ?_, ?_, ?_⟩
      · rw [hnum, Nat.zero_add]
        exact hfew cmds hcmds
      · rw [hfflush, hflush]
      · rw [hfidr, hidr]

-- ---------------------------------------------------------------------------
-- The asynchronous loop
-- ---------------------------------------------------------------------------

/-- What the loop from `s` leaves. -/
structure AsyncResult (buf : Nat → Nat) (s : AsyncParse) (r : CmdExit × AsyncParse) : Prop where
  reads : ∀ i ∈ r.2.reads, i ∈ s.reads ∨ 4 * ((i : Int) + 1) ≤ 4 * s.tagParse + s.i4Length
  num : (r.2.i4NumSetBitrateCmds : Int) - r.2.dynBr.length =
    s.i4NumSetBitrateCmds - s.dynBr.length
  stored : ∀ n, s.dynBr.length + n ≤ r.2.dynBr.length ↔ BitrateRun buf n s.tagParse s.i4Length
  good : ∀ cmds, AsyncCmds buf s.tagParse s.i4Length cmds →
    r.1 = .endFlag ∧ r.2.errors = s.errors ∧ r.2.dynBr = s.dynBr ++ cmds
  bad : (∀ cmds, ¬AsyncCmds buf s.tagParse s.i4Length cmds) → r.1 = .size ∨ r.2.errors ≠ []

/-- With enough fuel the loop from `s` leaves `r`. -/
def AsyncReturns (buf : Nat → Nat) (n : Nat) (s : AsyncParse) (r : CmdExit × AsyncParse) : Prop :=
  ∀ fuel, n < fuel → asyncLoop buf fuel s = some r

theorem AsyncReturns.intro (h : ∀ fuel, n ≤ fuel → asyncLoop buf (fuel + 1) s = some r) :
    AsyncReturns buf n s r := by
  intro fuel hfuel
  cases fuel with
  | zero => cases hfuel
  | succ fuel => exact h fuel (Nat.le_of_lt_succ hfuel)

/-- A loop that stores nothing, where no bitrate command stands. -/
theorem AsyncResult.ofNone {s : AsyncParse} {r : CmdExit × AsyncParse}
    (hnone : ¬BitrateCmd buf s.tagParse s.i4Length)
    (hreads : ∀ i ∈ r.2.reads, i ∈ s.reads ∨ 4 * ((i : Int) + 1) ≤ 4 * s.tagParse + s.i4Length)
    (hnum : r.2.i4NumSetBitrateCmds = s.i4NumSetBitrateCmds) (hdyn : r.2.dynBr = s.dynBr)
    (hend : 4 ≤ s.i4Length → buf s.tagParse = ihevceAsynchApiEndTag →
      r.1 = .endFlag ∧ r.2.errors = s.errors)
    (hbad : ¬(4 ≤ s.i4Length ∧ buf s.tagParse = ihevceAsynchApiEndTag) →
      r.1 = .size ∨ r.2.errors ≠ []) : AsyncResult buf s r := by
  refine ⟨hreads, by rw [hnum, hdyn], fun n => ?_, fun cmds hcmds => ?_, fun h => hbad (h [])⟩
  · rw [hdyn]
    cases n with
    | zero => exact iff_of_true (Nat.le_refl _) trivial
    | succ n => exact iff_of_false (by omega) fun h => hnone h.1
  · cases cmds with
    | nil =>
      obtain ⟨hexit, herr⟩ := hend hcmds.1 hcmds.2
      exact ⟨hexit, herr, by rw [hdyn, List.append_nil]⟩
    | cons c cmds => exact absurd hcmds.1 hnone

/-- The length check of a bitrate command passes for a whole command. -/
theorem AsyncParse.badLength_iff {s : AsyncParse} (hsize : 4 ≤ s.i4Length)
    (htag : buf s.tagParse = ihevceAsynchApiSetbitrateTag) :
    ((s.read [s.tagParse]).badLength buf).1 = false ↔ BitrateCmd buf s.tagParse s.i4Length := by
  unfold AsyncParse.badLength BitrateCmd
  by_cases hshort : (s.read [s.tagParse]).i4Length.toNat < 8 + sizeofDynConfigPrms
  · rw [if_pos hshort]
    dsimp only [AsyncParse.read, sizeofDynConfigPrms] at hshort
    exact iff_of_false nofun fun h => by omega
  · rw [if_neg hshort]
    dsimp only [AsyncParse.read, sizeofDynConfigPrms] at hshort
    have hlong : 28 ≤ s.i4Length := by omega
    simp [AsyncParse.read, hlong, htag]

/-- What the length check reads stands in the buffer. -/
theorem AsyncParse.badLength_reads {s : AsyncParse} (hsize : 4 ≤ s.i4Length)
    (hi : i ∈ ((s.read [s.tagParse]).badLength buf).2.reads) :
    i ∈ s.reads ∨ 4 * ((i : Int) + 1) ≤ 4 * s.tagParse + s.i4Length := by
  unfold AsyncParse.badLength at hi
  split at hi
  · simp only [AsyncParse.read, List.cons_append, List.nil_append, List.mem_cons] at hi
    rcases hi with rfl | hi
    · right
      omega
    · exact Or.inl hi
  · rename_i hlong
    simp only [AsyncParse.read, sizeofDynConfigPrms] at hlong
    simp only [AsyncParse.read, List.cons_append, List.nil_append, List.mem_cons] at hi
    rcases hi with rfl | rfl | hi
    · right
      push_cast
      omega
    · right
      omega
    · exact Or.inl hi

/-- A bitrate command, and what the loop leaves from the next one. -/
theorem AsyncResult.command {s : AsyncParse} (hcmd : BitrateCmd buf s.tagParse s.i4Length)
    (h : AsyncResult buf (((s.read [s.tagParse]).badLength buf).2.advance buf) r) :
    AsyncResult buf s r := by
  have hlong : 28 ≤ s.i4Length := hcmd.1
  have hcheck : ((s.read [s.tagParse]).badLength buf).2 =
      (s.read [s.tagParse]).read [s.tagParse + 1] := by
    have hnot : ¬(s.read [s.tagParse]).i4Length.toNat < 8 + sizeofDynConfigPrms := by
      dsimp only [AsyncParse.read, sizeofDynConfigPrms]
      omega
    rw [AsyncParse.badLength, if_neg hnot]
    rfl
  rw [hcheck] at h
  obtain ⟨hreads, hnum, hstored, hgood, hbad⟩ := h
  have htag : (((s.read [s.tagParse]).read [s.tagParse + 1]).advance buf).tagParse =
      s.tagParse + 7 := rfl
  have hlen : (((s.read [s.tagParse]).read [s.tagParse + 1]).advance buf).i4Length =
      s.i4Length - 28 := rfl
  have hdyn : (((s.read [s.tagParse]).read [s.tagParse + 1]).advance buf).dynBr =
      s.dynBr ++ [dynConfigWords buf s.tagParse] := rfl
  have hcount : (((s.read [s.tagParse]).read [s.tagParse + 1]).advance buf).i4NumSetBitrateCmds =
      s.i4NumSetBitrateCmds + 1 := rfl
  rw [htag, hlen] at hgood hbad hstored hreads
  rw [hdyn] at hgood hstored hnum
  rw [hcount] at hnum
  refine ⟨fun i hi => ?_, ?_, fun n => ?_, fun cmds hcmds => ?_,
    fun hnone => hbad fun cmds hcmds => ?_⟩
  · rcases hreads i hi with hi | hi
    · simp only [AsyncParse.advance, AsyncParse.read, List.mem_append, List.mem_map,
        List.mem_range, List.mem_singleton] at hi
      rcases hi with ⟨j, hj, rfl⟩ | rfl | rfl | hi
      · right
        dsimp only [sizeofDynConfigPrms] at hj
        push_cast
        omega
      · right
        push_cast
        omega
      · right
        omega
      · exact Or.inl hi
    · right
      push_cast at hi
      omega
  · rw [List.length_append, List.length_singleton] at hnum
    push_cast at hnum
    omega
  · rw [List.length_append, List.length_singleton] at hstored
    cases n with
    | zero =>
      have hpos := (hstored 0).mpr trivial
      exact iff_of_true (by omega) trivial
    | succ n =>
      rw [Nat.add_comm n 1, ← Nat.add_assoc, hstored n, Nat.add_comm 1 n]
      exact ⟨fun hrun => ⟨hcmd, hrun⟩, fun hrun => hrun.2⟩
  · cases cmds with
    | nil =>
      have hend := hcmds.2
      rw [hcmd.2.1] at hend
      cases hend
    | cons c rest =>
      obtain ⟨-, hc, hrest⟩ := hcmds
      obtain ⟨hexit, herr, happ⟩ := hgood rest hrest
      refine ⟨hexit, herr, ?_⟩
      rw [happ, hc, List.append_assoc, List.singleton_append]
  · exact hnone (dynConfigWords buf s.tagParse :: cmds) ⟨hcmd, rfl, hcmds⟩

/-- The loop ends, and leaves what it should. -/
theorem asyncLoop_result (buf : Nat → Nat) (n : Nat) (s : AsyncParse) (hn : s.i4Length < 28 * n) :
    ∃ r, AsyncReturns buf n s r ∧ AsyncResult buf s r := by
  induction n generalizing s with
  | zero =>
    have hsize : ¬4 ≤ s.i4Length := by omega
    refine ⟨(.size, s), AsyncReturns.intro fun fuel _ => if_neg hsize, ?_⟩
    exact AsyncResult.ofNone (fun h => hsize (Int.le_trans (by decide) h.1)) (fun i hi => Or.inl hi)
      rfl rfl (fun h _ => absurd h hsize) fun _ => Or.inl rfl
  | succ n ih =>
    by_cases hsize : 4 ≤ s.i4Length
    · by_cases htag : buf s.tagParse = ihevceAsynchApiSetbitrateTag
      · have hloop : ∀ fuel, asyncLoop buf (fuel + 1) s =
            if ((s.read [s.tagParse]).badLength buf).1 = true then
              some (.returned, ((s.read [s.tagParse]).badLength buf).2.report .asynchBrNotByte)
            else asyncLoop buf fuel (((s.read [s.tagParse]).badLength buf).2.advance buf) := by
          intro fuel
          rw [asyncLoop, if_pos hsize]
          dsimp only
          rw [if_pos htag]
        cases hcheck : ((s.read [s.tagParse]).badLength buf).1 with
        | true =>
          refine ⟨_, AsyncReturns.intro fun fuel _ => by rw [hloop, if_pos hcheck], ?_⟩
          refine AsyncResult.ofNone (fun hcmd => ?_) (fun i => AsyncParse.badLength_reads hsize)
            ?_ ?_ (fun _ hend => ?_) fun _ => Or.inr (List.cons_ne_nil _ _)
          · rw [(AsyncParse.badLength_iff hsize htag).mpr hcmd] at hcheck
            cases hcheck
          · unfold AsyncParse.badLength
            split <;> rfl
          · unfold AsyncParse.badLength
            split <;> rfl
          · rw [htag] at hend
            cases hend
        | false =>
          have hcmd := (AsyncParse.badLength_iff hsize htag).mp hcheck
          have hnext : (((s.read [s.tagParse]).badLength buf).2.advance buf).i4Length < 28 * n := by
            unfold AsyncParse.badLength AsyncParse.advance AsyncParse.read sizeofDynConfigPrms
            push_cast at hn
            split <;> dsimp only <;> omega
          obtain ⟨r, hr, hres⟩ := ih _ hnext
          refine ⟨r, AsyncReturns.intro fun fuel hfuel => ?_, hres.command hcmd⟩
          rw [hloop, if_neg (by simp [hcheck])]
          exact hr fuel hfuel
      · have hloop : ∀ fuel, asyncLoop buf (fuel + 1) s =
            if buf s.tagParse = ihevceAsynchApiEndTag then
              some (.endFlag, { s.read [s.tagParse] with i4Length := s.i4Length - 4 })
            else some (.endFlag, (s.read [s.tagParse]).report .asynchTlvError) := by
          intro fuel
          rw [asyncLoop, if_pos hsize]
          dsimp only
          rw [if_neg htag]
          rfl
        have hread : ∀ i ∈ s.tagParse :: s.reads,
            i ∈ s.reads ∨ 4 * ((i : Int) + 1) ≤ 4 * s.tagParse + s.i4Length := by
          intro i hi
          rcases List.mem_cons.mp hi with rfl | hi
          · right
            omega
          · exact Or.inl hi
        by_cases hend : buf s.tagParse = ihevceAsynchApiEndTag
        · exact ⟨_, AsyncReturns.intro fun fuel _ => by rw [hloop, if_pos hend],
            AsyncResult.ofNone (fun h => htag h.2.1) hread rfl rfl (fun _ _ => ⟨rfl, rfl⟩)
              fun h => absurd ⟨hsize, hend⟩ h⟩
        · exact ⟨_, AsyncReturns.intro fun fuel _ => by rw [hloop, if_neg hend],
            AsyncResult.ofNone (fun h => htag h.2.1) hread rfl rfl (fun _ h => absurd h hend)
              fun _ => Or.inr (List.cons_ne_nil _ _)⟩
    · refine ⟨(.size, s), AsyncReturns.intro fun fuel _ => if_neg hsize, ?_⟩
      exact AsyncResult.ofNone (fun h => hsize (Int.le_trans (by decide) h.1))
        (fun i hi => Or.inl hi) rfl rfl (fun h _ => absurd h hsize) fun _ => Or.inl rfl

/-- What the function should leave of a buffer of `size` bytes. -/
structure AsyncParsed (buf : Nat → Nat) (size : Int) (s : AsyncParse) : Prop where
  reads : ∀ i ∈ s.reads, 4 * ((i : Int) + 1) ≤ size
  stored : s.dynBr.length ≤ maxNumDynBitrateCmds
  num : s.i4NumSetBitrateCmds = s.dynBr.length
  good : ∀ cmds, AsyncCmds buf 0 size cmds → s.errors = [] ∧ s.dynBr = cmds
  bad : (∀ cmds, ¬AsyncCmds buf 0 size cmds) → s.errors ≠ []

/-- With enough fuel the function leaves `s`. -/
def AsyncTerminates (buf : Nat → Nat) (size : Int) (s : AsyncParse) : Prop :=
  ∃ n, ∀ fuel, n < fuel → ihevceLapParseAsyncCmd fuel buf size = some s

theorem AsyncTerminates.unique (h : AsyncTerminates buf size s)
    (h' : AsyncTerminates buf size s') : s = s' := by
  obtain ⟨n, hn⟩ := h
  obtain ⟨n', hn'⟩ := h'
  have hs := hn (n + n' + 1) (by omega)
  rw [hn' (n + n' + 1) (by omega)] at hs
  exact (Option.some.inj hs).symm

/-- The function meets its contract on a buffer that does not start with more bitrate commands
than the array has places. -/
theorem asyncParsed_iff (buf : Nat → Nat) (size : Int) :
    (∃ s, AsyncTerminates buf size s ∧ AsyncParsed buf size s) ↔
      ¬BitrateRun buf (maxNumDynBitrateCmds + 1) 0 size := by
  obtain ⟨r, hr, hres⟩ := asyncLoop_result buf (size.toNat + 1)
    ⟨0, size, 0, [], [], []⟩ (by dsimp only; omega)
  have hterm : AsyncTerminates buf size (asyncFinish r) := by
    refine ⟨size.toNat + 1, fun fuel hfuel => ?_⟩
    rw [ihevceLapParseAsyncCmd, hr fuel hfuel]
    rfl
  obtain ⟨hreads, hnum, hstored, hgood, hbad⟩ := hres
  obtain ⟨exit, t⟩ := r
  have hframe : (asyncFinish (exit, t)).dynBr = t.dynBr ∧
      (asyncFinish (exit, t)).reads = t.reads ∧
      (asyncFinish (exit, t)).i4NumSetBitrateCmds = t.i4NumSetBitrateCmds := by
    cases exit <;> exact ⟨rfl, rfl, rfl⟩
  have hrun := hstored (maxNumDynBitrateCmds + 1)
  rw [List.length_nil, Nat.zero_add] at hrun
  rw [← hrun, Nat.not_le, Nat.lt_succ_iff]
  constructor
  · rintro ⟨s, hs, hparsed⟩
    rw [hs.unique hterm] at hparsed
    rw [← hframe.1]
    exact hparsed.stored
  · intro hfew
    refine ⟨_, hterm, fun i hi => ?_, ?_, ?_, fun cmds hcmds => ?_, fun hnone => ?_⟩
    · rw [hframe.2.1] at hi
      rcases hreads i hi with hi | hi
      · cases hi
      · simpa using hi
    · rw [hframe.1]
      exact hfew
    · rw [hframe.1, hframe.2.2]
      simp only [List.length_nil] at hnum
      omega
    · obtain ⟨hexit, herr, happ⟩ := hgood cmds hcmds
      dsimp only at hexit
      subst hexit
      exact ⟨herr, happ⟩
    · cases exit with
      | size => exact List.cons_ne_nil _ _
      | endFlag => exact (hbad hnone).resolve_left nofun
      | returned => exact (hbad hnone).resolve_left nofun

/-- The contract of the two functions. -/
def LapCommandsParsed (syncBuf asyncBuf : Nat → Nat)
    (syncSize asyncSize flushCheck idrCheck : Int) : Prop :=
  (∃ s, SyncTerminates syncBuf syncSize flushCheck idrCheck s ∧
    SyncParsed syncBuf syncSize flushCheck idrCheck s) ∧
    ∃ s, AsyncTerminates asyncBuf asyncSize s ∧ AsyncParsed asyncBuf asyncSize s

/-- The two functions meet their contract if the synchronous buffer is not a sequence of more
than ten commands and the asynchronous one does not start with two bitrate commands. -/
theorem lapCommandsParsed_iff (syncBuf asyncBuf : Nat → Nat)
    (syncSize asyncSize flushCheck idrCheck : Int) :
    LapCommandsParsed syncBuf asyncBuf syncSize asyncSize flushCheck idrCheck ↔
      (∀ cmds, SyncCmds syncBuf 0 syncSize cmds → cmds.length ≤ maxNumberOfSeiPayload) ∧
        ¬BitrateRun asyncBuf (maxNumDynBitrateCmds + 1) 0 asyncSize :=
  and_congr (syncParsed_iff syncBuf syncSize flushCheck idrCheck)
    (asyncParsed_iff asyncBuf asyncSize)

/-- Two bitrate commands and the end tag. -/
def twoBitrateCmds (i : Nat) : Nat :=
  [1, 20, 0, 0, 5000000, 5000000, 0, 1, 20, 0, 0, 9000000, 9000000, 0, 0xFFFF].getD i 0

/-- The second of two bitrate commands is stored behind the array. -/
theorem lapCommandsParsed_twoBitrateCmds : ¬∀ (syncBuf asyncBuf : Nat → Nat)
    (syncSize asyncSize flushCheck idrCheck : Int),
    LapCommandsParsed syncBuf asyncBuf syncSize asyncSize flushCheck idrCheck := by
  intro h
  refine (asyncParsed_iff twoBitrateCmds 60).mp
    (h (fun _ => 0xFFFF) twoBitrateCmds 4 60 0 0).2 ?_
  exact ⟨⟨by decide, rfl, rfl⟩, ⟨by decide, rfl, rfl⟩, trivial⟩

end Libhevc.Encoder
