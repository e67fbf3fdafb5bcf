import Mathlib.Tactic.Common

/-!
# The command buffers of the lookahead

`ihevce_lap_parse_sync_cmd` and `ihevce_lap_parse_async_cmd` of
`ihevce_lap_interface.c`. A buffer is read by words; each state keeps the words
read and the errors reported so far, the latest first.
-/

namespace Libhevc.Encoder

/-- The errors the two functions report. -/
inductive CmdError
  | synchNoEndTag
  | synchTlvError
  | synchLengthNotZero
  | synchTooManySeiMsg
  | asynchNoEndTag
  | asynchTlvError
  | asynchBrNotByte
  deriving DecidableEq, Repr

/-- How a loop over the tags ends. -/
inductive CmdExit
  | endFlag
  | size
  | returned
  deriving DecidableEq, Repr

def ihevceCommandsTagMask : Nat := 0x0000FFFF

def ihevceSynchApiEndTag : Nat := 0xFFFF

def ihevceSynchApiFlushTag : Nat := 0x21

def ihevceSynchApiForceIdrTag : Nat := 0x22

def ihevceAsynchApiEndTag : Nat := 0xFFFF

def ihevceAsynchApiSetbitrateTag : Nat := 0x01

def maxNumberOfSeiPayload : Nat := 10

/-- `IHEVCE_MAX_NUM_RESOLUTIONS * IHEVCE_MAX_NUM_BITRATES` -/
def maxNumDynBitrateCmds : Nat := 1 * 1

/-- `sizeof(ihevce_dyn_config_prms_t)` -/
def sizeofDynConfigPrms : Nat := 20

-- ---------------------------------------------------------------------------
-- Synchronous commands
-- ---------------------------------------------------------------------------

/-- The variables of the loop. -/
structure SyncParse where
  tagParse : Nat
  i4CmdSize : Int
  i4FlushCheck : Int
  i4ForceIdrCheck : Int
  u4NumSei : Nat
  errors : List CmdError
  reads : List Nat

def SyncParse.read (s : SyncParse) (i : Nat) : SyncParse := { s with reads := i :: s.reads }

def SyncParse.report (s : SyncParse) (e : CmdError) : SyncParse :=
  { s with errors := e :: s.errors }

/-- `i4_cmd_size < 8 || pi4_tag_parse[1]` -/
def SyncParse.badLength (buf : Nat → Nat) (s : SyncParse) : Bool × SyncParse :=
  if s.i4CmdSize < 8 then (true, s) else (buf (s.tagParse + 1) != 0, s.read (s.tagParse + 1))

/-- The end of the case of a command. -/
def SyncParse.advance (s : SyncParse) : SyncParse :=
  { s with tagParse := s.tagParse + 2, i4CmdSize := s.i4CmdSize - 8, u4NumSei := s.u4NumSei + 1 }

def syncLoop (buf : Nat → Nat) : (fuel : Nat) → SyncParse → Option (CmdExit × SyncParse)
  | 0, _ => none
  | fuel + 1, s =>
    if 4 ≤ s.i4CmdSize then
      let tag := buf s.tagParse &&& ihevceCommandsTagMask
      let s := s.read s.tagParse
      if tag = ihevceSynchApiFlushTag then
        let r := s.badLength buf
        if r.1 then some (.returned, r.2.report .synchLengthNotZero)
        else syncLoop buf fuel { r.2 with i4FlushCheck := 1 }.advance
      else if tag = ihevceSynchApiForceIdrTag then
        let r := s.badLength buf
        if r.1 then some (.returned, r.2.report .synchLengthNotZero)
        else syncLoop buf fuel { r.2 with i4ForceIdrCheck := 1 }.advance
      else if tag = ihevceSynchApiEndTag then
        some (.endFlag, { s with i4CmdSize := s.i4CmdSize - 4 })
      else some (.endFlag, s.report .synchTlvError)
    else some (.size, s)

/-- The checks behind the loop. -/
def syncFinish : CmdExit × SyncParse → SyncParse
  | (.returned, s) => s
  | (exit, s) =>
    let s := if maxNumberOfSeiPayload < s.u4NumSei then s.report .synchTooManySeiMsg else s
    if exit = .endFlag then s else s.report .synchNoEndTag

def ihevceLapParseSyncCmd (fuel : Nat) (buf : Nat → Nat) (i4CmdBufSize i4FlushCheck
    i4ForceIdrCheck : Int) : Option SyncParse :=
  (syncLoop buf fuel ⟨0, i4CmdBufSize, i4FlushCheck, i4ForceIdrCheck, 0, [], []⟩).map syncFinish

-- ---------------------------------------------------------------------------
-- Asynchronous commands
-- ---------------------------------------------------------------------------

/-- The variables of the loop, and the parameters stored at `ps_dyn_br` so far, as words. -/
structure AsyncParse where
  tagParse : Nat
  i4Length : Int
  i4NumSetBitrateCmds : Nat
  dynBr : List (List Nat)
  errors : List CmdError
  reads : List Nat

def AsyncParse.read (s : AsyncParse) (l : List Nat) : AsyncParse := { s with reads := l ++ s.reads }

def AsyncParse.report (s : AsyncParse) (e : CmdError) : AsyncParse :=
  { s with errors := e :: s.errors }

/-- The words behind the tag and the length. -/
def dynConfigWords (buf : Nat → Nat) (i : Nat) : List Nat :=
  (List.range (sizeofDynConfigPrms >>> 2)).map fun j => buf (i + 2 + j)

/-- The length check of a bitrate command. `i4_length` is compared as an unsigned number. -/
def AsyncParse.badLength (buf : Nat → Nat) (s : AsyncParse) : Bool × AsyncParse :=
  if s.i4Length.toNat < 8 + sizeofDynConfigPrms then (true, s)
  else (buf (s.tagParse + 1) != sizeofDynConfigPrms, s.read [s.tagParse + 1])

/-- The bitrate command is copied. -/
def AsyncParse.advance (buf : Nat → Nat) (s : AsyncParse) : AsyncParse :=
  { s.read ((List.range (sizeofDynConfigPrms >>> 2)).map fun j => s.tagParse + 2 + j) with
    dynBr := s.dynBr ++ [dynConfigWords buf s.tagParse]
    tagParse := s.tagParse + (2 + sizeofDynConfigPrms >>> 2)
    i4Length := s.i4Length - (8 + sizeofDynConfigPrms : Nat)
    i4NumSetBitrateCmds := s.i4NumSetBitrateCmds + 1 }

def asyncLoop (buf : Nat → Nat) : (fuel : Nat) → AsyncParse → Option (CmdExit × AsyncParse)
  | 0, _ => none
  | fuel + 1, s =>
    if 4 ≤ s.i4Length then
      let tag := buf s.tagParse
      let s := s.read [s.tagParse]
      if tag = ihevceAsynchApiSetbitrateTag then
        let r := s.badLength buf
        if r.1 then some (.returned, r.2.report .asynchBrNotByte)
        else asyncLoop buf fuel (r.2.advance buf)
      else if tag = ihevceAsynchApiEndTag then
        some (.endFlag, { s with i4Length := s.i4Length - 4 })
      else some (.endFlag, s.report .asynchTlvError)
    else some (.size, s)

def asyncFinish : CmdExit × AsyncParse → AsyncParse
  | (.size, s) => s.report .asynchNoEndTag
  | (_, s) => s

/-- The call of `ihevce_lap_process`, with the number of bitrate commands at 0. -/
def ihevceLapParseAsyncCmd (fuel : Nat) (buf : Nat → Nat) (i4Length : Int) : Option AsyncParse :=
  (asyncLoop buf fuel ⟨0, i4Length, 0, [], [], []⟩).map asyncFinish

end Libhevc.Encoder
