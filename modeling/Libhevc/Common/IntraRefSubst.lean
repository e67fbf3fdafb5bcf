import Libhevc.Common.Platform
import Libhevc.Lib.Cells

/-!
# Substitution of the reference samples of an intra block

`ihevc_intra_pred_luma_ref_substitution` and `ihevc_intra_pred_chroma_ref_substitution`. The
reference array holds the neighbours from the bottom-left one up and then to the right:
`2 * nt` samples to the left, the top-left one and `2 * nt` samples above. The array of chroma
is of pairs, its two components being interleaved and always accessed together.
-/

namespace Libhevc.IntraPred

open Cells

variable {α : Type}

/-- `pu1_left[i * src_strd]`, `*pu1_top_left` and `pu1_top[i]` -/
structure Neighbours (α : Type) where
  pu1Left : Nat → α
  pu1TopLeft : α
  pu1Top : Nat → α

/-- `CTZ` of a word that is not 0. -/
def ctz (x : Nat) : Nat := ((List.range 32).find? x.testBit).getD 31

def lookUpTrailingZeros (x : Nat) : Nat := if x = 0 then 8 else ctz x

def getBit (y x : Nat) : Nat := y &&& 1 <<< x

section Copy

variable (nb : Neighbours α) (nt : Nat)

/-- `for(i = lo; i < lo + len; i++) pu1_dst[two_nt - 1 - i] = pu1_left[i * src_strd];` -/
def copyLeft (lo len : Nat) (b : Cells α) : Option (Cells α) :=
  storeDown (4 * nt + 1) ((2 * nt - 1 - lo : Nat) : Int) (fun k => some (nb.pu1Left (lo + k))) b len

/-- `memcpy(&pu1_dst[two_nt + 1 + lo], pu1_top + lo, len);` -/
def copyTop (lo len : Nat) (b : Cells α) : Option (Cells α) :=
  storeUp (4 * nt + 1) ((2 * nt + 1 + lo : Nat) : Int) (fun k => some (nb.pu1Top (lo + k))) b len

/-- The copy of a side when it is available; `memset` of the same place otherwise. -/
def leftOrZero [OfNat α 0] (avail : Bool) (lo len : Nat) (b : Cells α) : Option (Cells α) :=
  if avail then copyLeft nb nt lo len b
  else fill (4 * nt + 1) b ((2 * nt - lo - len : Nat) : Int) 0 len

def topOrZero [OfNat α 0] (avail : Bool) (lo len : Nat) (b : Cells α) : Option (Cells α) :=
  if avail then copyTop nb nt lo len b
  else fill (4 * nt + 1) b ((2 * nt + 1 + lo : Nat) : Int) 0 len

def topLeftOrZero [OfNat α 0] (avail : Bool) (b : Cells α) : Option (Cells α) :=
  store (4 * nt + 1) b ((2 * nt : Nat) : Int) (if avail then nb.pu1TopLeft else 0)

end Copy

/-- The copies of chroma, which leave the place of a side that is not available as it is. -/
def leftIf (nb : Neighbours α) (nt : Nat) (avail : Bool) (lo len : Nat) (b : Cells α) :
    Option (Cells α) :=
  if avail then copyLeft nb nt lo len b else some b

def topIf (nb : Neighbours α) (nt : Nat) (avail : Bool) (lo len : Nat) (b : Cells α) :
    Option (Cells α) :=
  if avail then copyTop nb nt lo len b else some b

def topLeftIf (nb : Neighbours α) (nt : Nat) (avail : Bool) (b : Cells α) : Option (Cells α) :=
  if avail then store (4 * nt + 1) b ((2 * nt : Nat) : Int) nb.pu1TopLeft else some b

section Substitution

/-- `while(!a_nbr_flag[next]) next++;`, which must end within the array. -/
def nextAvail (aNbrFlag : List Nat) (next : Nat) : Option Nat :=
  (List.range' next (aNbrFlag.length - next)).find? fun k => aNbrFlag.getD k 0 != 0

/-- `pu1_dst[pos - 1]` over `len` samples from `pos` on. -/
def fillBefore (n pos len : Nat) (b : Cells α) : Option (Cells α) := do
  let v ← load n b ((pos : Int) - 1)
  fill n b pos v len

/-- A unit that is not available is filled. -/
def fillUnless (n pos len flag : Nat) (b : Cells α) : Option (Cells α) :=
  if flag = 0 then fillBefore n pos len b else some b

/-- The reverse part, when the bottom-left side is not available. -/
def reverseSides (nt botLeft left tpLeft top tpRight : Nat) (b : Cells α) : Option (Cells α) :=
  if botLeft = 0 then do
    let next ← nextAvail [botLeft, left, tpLeft, top, tpRight] 1
    -- Behind the top-left sample the sides start one sample later.
    let idx := if next ≤ 2 then nt * next else nt * (next - 1) + 1
    let ref ← load (4 * nt + 1) b idx
    fill (4 * nt + 1) b 0 ref idx
  else some b

/-- The substitution for blocks with one flag on each side. -/
def substSides (nt nbrFlags : Nat) (b : Cells α) : Option (Cells α) := do
  let n := 4 * nt + 1
  let tpLeft := (nbrFlags &&& 0x10000) >>> 16
  let botLeft := (nbrFlags &&& 0x8) >>> 3
  let left := (nbrFlags &&& 0x80) >>> 7
  let top := (nbrFlags &&& 0x100) >>> 8
  let tpRight := (nbrFlags &&& 0x1000) >>> 12
  let b ← reverseSides nt botLeft left tpLeft top tpRight b
  let b ← fillUnless n nt nt left b
  let b ← fillUnless n (2 * nt) 1 tpLeft b
  let b ← fillUnless n (2 * nt + 1) nt top b
  fillUnless n (3 * nt + 1) nt tpRight b

/-- The position of the first available sample, for `units` flags of `2 ^ log2` samples in each
half and one flag for the top-left sample. -/
def firstFromBl (units log2 flags : Nat) : Nat :=
  let unit := 1 <<< log2
  let mask := 1 <<< units - 1
  let nbrIdFromBl := lookUpTrailingZeros (flags &&& mask) * unit
  let nbrIdFromBl := if nbrIdFromBl = 8 * unit then units * unit else nbrIdFromBl
  if nbrIdFromBl = units * unit then
    if (flags >>> (2 * units)) &&& 0x1 = 0 then
      nbrIdFromBl + 1 + lookUpTrailingZeros ((flags >>> units) &&& mask) * unit
    else nbrIdFromBl
  else nbrIdFromBl

/-- The body of the loop: one sample for the top-left flag and a unit for the others. -/
def forwardStep (units log2 flags nbrIdFromBl : Nat) (b : Cells α) : Option (Cells α) :=
  let unit := 1 <<< log2
  let n := 2 * units * unit + 1
  if nbrIdFromBl = units * unit then
    fillUnless n nbrIdFromBl 1 (getBit flags (2 * units)) b
  else fillUnless n nbrIdFromBl unit (getBit flags (nbrIdFromBl >>> log2)) b

/-- The loop over the flags from the first available one on. -/
def forwardLoop (units log2 flags : Nat) (b : Cells α) (nbrIdFromBl : Nat) : Option (Cells α) :=
  let unit := 1 <<< log2
  if nbrIdFromBl < 2 * units * unit + 1 then do
    let b ← forwardStep units log2 flags nbrIdFromBl b
    forwardLoop units log2 flags b (nbrIdFromBl + if nbrIdFromBl = units * unit then 1 else unit)
  else some b
termination_by 2 * units * 1 <<< log2 + 1 - nbrIdFromBl
decreasing_by
  rename_i hlt
  have hunit : 0 < 1 <<< log2 := by simp [Nat.shiftLeft_eq]
  exact Nat.sub_lt_sub_left hlt (Nat.lt_add_of_pos_right (by split <;> simp [hunit]))

/-- The samples before the first available one take its value, from the last one down. -/
def reverseUnits (n nbrIdFromBl : Nat) (b : Cells α) : Option (Cells α) :=
  if nbrIdFromBl ≠ 0 then do
    let ref ← load n b nbrIdFromBl
    storeDown n ((nbrIdFromBl - 1 : Nat) : Int) (fun _ => some ref) b nbrIdFromBl
  else some b

/-- The substitution for blocks with several flags on each side. -/
def substUnits (units log2 flags : Nat) (b : Cells α) : Option (Cells α) := do
  let nbrIdFromBl := firstFromBl units log2 flags
  let b ← reverseUnits (2 * units * 1 <<< log2 + 1) nbrIdFromBl b
  forwardLoop units log2 flags b nbrIdFromBl

/-- The flags of a block with two on each side. -/
def nbrFlagsTemp (nbrFlags : Nat) : Nat :=
  ((nbrFlags &&& 0xC) >>> 2) + ((nbrFlags &&& 0xC0) >>> 4) + ((nbrFlags &&& 0x300) >>> 4) +
    ((nbrFlags &&& 0x3000) >>> 6) + ((nbrFlags &&& 0x10000) >>> 8)

end Substitution

def flagOf (nbrFlags mask : Nat) : Bool := nbrFlags &&& mask != 0

def ihevcIntraPredLumaRefSubstAllAvlble (nb : Neighbours Int) (nt : Nat) : Option (Cells Int) := do
  let b ← store (4 * nt + 1) fresh ((2 * nt : Nat) : Int) nb.pu1TopLeft
  let b ← copyLeft nb nt 0 nt b
  let b ← copyLeft nb nt nt nt b
  let b ← copyTop nb nt 0 nt b
  copyTop nb nt nt nt b

def ihevcIntraPredLumaRefSubstitution (nb : Neighbours Int) (nt nbrFlags : Nat) :
    Option (Cells Int) :=
  let avail := flagOf nbrFlags
  if nbrFlags = 0 then fill (4 * nt + 1) fresh 0 (2 ^ (8 - 1)) (4 * nt + 1)
  else if nt ≤ 8 then do
    let b ← topLeftOrZero nb nt (avail 0x10000) fresh
    let b ← leftOrZero nb nt (avail 0x80) 0 nt b
    let b ← leftOrZero nb nt (avail 0x8) nt nt b
    let b ← topOrZero nb nt (avail 0x100) 0 nt b
    let b ← topOrZero nb nt (avail 0x1000) nt nt b
    substSides nt nbrFlags b
  else if nt = 16 then do
    let b ← topLeftOrZero nb nt (avail 0x10000) fresh
    let b ← leftOrZero nb nt (avail 0xC0) 0 nt b
    let b ← leftOrZero nb nt (avail 0x8) nt 8 b
    let b ← leftOrZero nb nt (avail 0x4) (nt + 8) 8 b
    let b ← topOrZero nb nt (avail 0x300) 0 nt b
    let b ← topOrZero nb nt (avail 0x3000) nt nt b
    substUnits 4 3 (nbrFlagsTemp nbrFlags) b
  else if nt = 32 then do
    let b ← topLeftOrZero nb nt (avail 0x10000) fresh
    let b ← leftOrZero nb nt (avail 0xF0) 0 nt b
    let b ← leftOrZero nb nt (avail 0x8) nt 8 b
    let b ← leftOrZero nb nt (avail 0x4) (nt + 8) 8 b
    let b ← leftOrZero nb nt (avail 0x2) (nt + 16) 8 b
    let b ← leftOrZero nb nt (avail 0x1) (nt + 24) 8 b
    let b ← topOrZero nb nt (avail 0xF00) 0 nt b
    let b ← topOrZero nb nt (avail 0xF000) nt nt b
    substUnits 8 3 nbrFlags b
  else some fresh

inductive ChromaFmt
  | yuv420
  | yuv422
  | yuv444
  deriving DecidableEq

def copyChroma (nb : Neighbours (Int × Int)) (nt nbrFlags : Nat) :
    Option (Cells (Int × Int)) := do
  let avail := flagOf nbrFlags
  let b ← topLeftIf nb nt (avail 0x10000) fresh
  let b ← leftIf nb nt (avail 0xf0) 0 nt b
  let b ← leftIf nb nt (avail 0xf) nt nt b
  let b ← topIf nb nt (avail 0xf00) 0 nt b
  topIf nb nt (avail 0xf000) nt nt b

def ihevcIntraPredChromaRefSubstitution (nb : Neighbours (Int × Int)) (nt nbrFlags : Nat)
    (fmt : ChromaFmt) : Option (Cells (Int × Int)) :=
  if nbrFlags = 0 then
    fill (4 * nt + 1) fresh 0 (2 ^ (8 - 1), 2 ^ (8 - 1)) (4 * nt + 1)
  else do
    let b ← copyChroma nb nt nbrFlags
    let log2 := if fmt = .yuv444 then 3 else 2
    if nt = 4 ∨ nt = 8 ∧ fmt = .yuv444 then substSides nt nbrFlags b
    else if nt = 8 ∨ nt = 16 ∧ fmt = .yuv444 then substUnits 4 log2 (nbrFlagsTemp nbrFlags) b
    else if nt = 16 ∨ nt = 32 ∧ fmt = .yuv444 then substUnits 8 log2 nbrFlags b
    else some b

end Libhevc.IntraPred
