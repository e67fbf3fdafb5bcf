import Libhevc.Common.CabacTables
import Libhevc.Common.Platform
import Libhevc.Lib.Memory
import Libhevc.Lib.RangeCoder
import Libhevc.Lib.Transducer

/-!
# The 9-bit arithmetic coder

The plain decoding engine of the specification keeps a range of 9 bits and an
offset, and renormalises one bit at a time. The plain coding process narrows an
interval. A bit string in the interval of a coded sequence decodes to it.
-/

namespace Libhevc.Spec

open BitString Memory RangeCoder Transducer

/-- The decodes of a slice. -/
inductive CabacOp
  | bin (ctxtIndex : Nat)
  | bypass
  | bypassBins (numbins : Nat)
  | terminate
  deriving DecidableEq

/-- The decoding engine: registers and context models. -/
structure Engine where
  regs : Registers
  models : Nat → Nat

variable (b : Nat → Bool)

def Engine.init (p : Nat) (models : Nat → Nat) : Engine :=
  { regs := { range := 510, ofst := field b p 9, pos := p + 9 }, models }

/-- The range of the less probable symbol. -/
def lpsRange (model range : Nat) : Nat := gau1IhevcCabacRlps (model / 2) (range / 64 % 4)

def nextModel (model bin : Nat) : Nat := gau1IhevcNextState (2 * model + bin)

theorem nextModel_eq (hbin : bin < 2) :
    gau1IhevcNextState ((model <<< 1) ||| bin) = nextModel model bin := by
  rw [shiftLeft_or (k := 1) hbin, nextModel, pow_one, Nat.mul_comm]

/-- The bin and the state before the renormalisation. -/
def Engine.narrowBin (d : Engine) (ctxtIndex : Nat) : Nat × Engine :=
  let model := d.models ctxtIndex
  let lps := lpsRange model d.regs.range
  let mps := d.regs.range - lps
  if d.regs.ofst < mps then
    (model % 2,
      { regs := { d.regs with range := mps }
        models := set d.models ctxtIndex (nextModel model (model % 2)) })
  else
    (1 - model % 2,
      { regs := { d.regs with range := lps, ofst := d.regs.ofst - mps }
        models := set d.models ctxtIndex (nextModel model (1 - model % 2)) })

def Engine.renorm (d : Engine) : Engine := { d with regs := Registers.renorm b 256 8 d.regs }

def Engine.decodeBin (d : Engine) (ctxtIndex : Nat) : Nat × Engine :=
  let r := d.narrowBin ctxtIndex
  (r.1, r.2.renorm b)

def Engine.decodeBypass (d : Engine) : Nat × Engine :=
  let ofst := 2 * d.regs.ofst + (b d.regs.pos).toNat
  if d.regs.range ≤ ofst then
    (1, { d with regs := { d.regs with ofst := ofst - d.regs.range, pos := d.regs.pos + 1 } })
  else (0, { d with regs := { d.regs with ofst, pos := d.regs.pos + 1 } })

/-- `numbins` bypass bins as one number, the first bin on top. -/
def Engine.decodeBypassBins (d : Engine) : Nat → Nat × Engine
  | 0 => (0, d)
  | numbins + 1 =>
    let r := d.decodeBypassBins numbins
    let r' := r.2.decodeBypass b
    (2 * r.1 + r'.1, r'.2)

def Engine.decodeTerminate (d : Engine) : Nat × Engine :=
  if d.regs.range - 2 ≤ d.regs.ofst then
    (1, { d with regs := { d.regs with range := d.regs.range - 2 } })
  else (0, Engine.renorm b { d with regs := { d.regs with range := d.regs.range - 2 } })

def Engine.decode (d : Engine) : CabacOp → Nat × Engine
  | .bin ctxtIndex => d.decodeBin b ctxtIndex
  | .bypass => d.decodeBypass b
  | .bypassBins numbins => d.decodeBypassBins b numbins
  | .terminate => d.decodeTerminate b

/-- A terminating bin of 1 ends the slice. -/
def CabacOp.stops : CabacOp → Nat → Bool
  | .terminate, v => v == 1
  | _, _ => false

def Engine.run (d : Engine) (ops : List CabacOp) : Outcome Engine Nat :=
  Transducer.run (Engine.decode b) CabacOp.stops d ops

variable {b : Nat → Bool} {d : Engine}

theorem narrowBin_mps (h : d.regs.ofst < d.regs.range - lpsRange (d.models ctxt) d.regs.range) :
    d.narrowBin ctxt =
      (d.models ctxt % 2,
        { regs := { d.regs with range := d.regs.range - lpsRange (d.models ctxt) d.regs.range }
          models := set d.models ctxt (nextModel (d.models ctxt) (d.models ctxt % 2)) }) := if_pos h

theorem narrowBin_lps (h : d.regs.range - lpsRange (d.models ctxt) d.regs.range ≤ d.regs.ofst) :
    d.narrowBin ctxt =
      (1 - d.models ctxt % 2,
        { regs :=
            { d.regs with
              range := lpsRange (d.models ctxt) d.regs.range
              ofst := d.regs.ofst - (d.regs.range - lpsRange (d.models ctxt) d.regs.range) }
          models := set d.models ctxt (nextModel (d.models ctxt) (1 - d.models ctxt % 2)) }) :=
  if_neg (Nat.not_lt.mpr h)

theorem narrowBin_pos : (d.narrowBin ctxt).2.regs.pos = d.regs.pos := by
  unfold Engine.narrowBin
  dsimp only
  split <;> rfl

theorem decodeBypass_one (h : d.regs.range ≤ 2 * d.regs.ofst + (b d.regs.pos).toNat) :
    d.decodeBypass b =
      (1, { d with regs := { d.regs with
        ofst := 2 * d.regs.ofst + (b d.regs.pos).toNat - d.regs.range, pos := d.regs.pos + 1 } }) :=
  if_pos h

theorem decodeBypass_zero (h : 2 * d.regs.ofst + (b d.regs.pos).toNat < d.regs.range) :
    d.decodeBypass b =
      (0, { d with regs := { d.regs with
        ofst := 2 * d.regs.ofst + (b d.regs.pos).toNat, pos := d.regs.pos + 1 } }) :=
  if_neg (Nat.not_le.mpr h)

theorem decodeTerminate_one (h : d.regs.range - 2 ≤ d.regs.ofst) :
    d.decodeTerminate b = (1, { d with regs := { d.regs with range := d.regs.range - 2 } }) :=
  if_pos h

theorem decodeTerminate_zero (h : d.regs.ofst < d.regs.range - 2) :
    d.decodeTerminate b =
      (0, Engine.renorm b { d with regs := { d.regs with range := d.regs.range - 2 } }) :=
  if_neg (Nat.not_le.mpr h)

-- ---------------------------------------------------------------------------
-- Ranges
-- ---------------------------------------------------------------------------

/-- The number of bits that bring a range back to 9 bits. -/
def renormShift (range : Nat) : Nat := 8 - Nat.log2 range

theorem log2_bounds (hr : 0 < r) (h : r < 512) : Nat.log2 r ≤ 8 := by
  have := (Nat.log2_lt (k := 9) (by omega)).mpr h
  omega

theorem renormShift_bounds (hr : 0 < r) (h : r < 512) :
    256 ≤ r * 2 ^ renormShift r ∧ r * 2 ^ renormShift r < 512 := by
  have hlog := log2_bounds hr h
  have hlo := Nat.log2_self_le (Nat.ne_of_gt hr)
  have hhi := Nat.lt_log2_self (n := r)
  have h8 : 2 ^ Nat.log2 r * 2 ^ renormShift r = 256 := by
    rw [← pow_add, renormShift, Nat.add_sub_cancel' hlog]
    rfl
  have hpos : 0 < 2 ^ renormShift r := by positivity
  constructor
  · rw [← h8]
    exact Nat.mul_le_mul_right _ hlo
  · calc r * 2 ^ renormShift r < 2 ^ (Nat.log2 r + 1) * 2 ^ renormShift r :=
          Nat.mul_lt_mul_of_pos_right hhi hpos
      _ = 512 := by rw [pow_succ', Nat.mul_assoc, h8]

theorem renormShift_least (hr : 0 < r) (h : r < 512) (hj : j < renormShift r) :
    r * 2 ^ j < 256 := by
  have hhigh := (renormShift_bounds hr h).2
  have hpow : 2 ^ (j + 1) ≤ 2 ^ renormShift r := Nat.pow_le_pow_right (by decide) hj
  have := Nat.mul_le_mul_left r hpow
  rw [pow_succ, ← Nat.mul_assoc] at this
  omega

theorem renorm_regs (b : Nat → Bool) {d : Registers} (hr : 0 < d.range) (h : d.range < 512) :
    d.renorm b 256 8 = d.shiftBy b (renormShift d.range) :=
  renorm_eq d (Nat.sub_le ..) (fun _ hj => renormShift_least hr h hj) (renormShift_bounds hr h).1

/-- A range is normal when it has 9 bits. -/
def Normal (range : Nat) : Prop := 256 ≤ range ∧ range < 512

theorem renormShift_normal (hr : 0 < r) (h : r < 512) : Normal (r * 2 ^ renormShift r) :=
  renormShift_bounds hr h

/-- Context models that the state transitions never lead to the terminating state. -/
def ModelsOk (models : Nat → Nat) : Prop := ∀ i < ihevcCabCtxtEnd, models i < 126

theorem ModelsOk.set (h : ModelsOk models) (hm : m < 126) (hbin : bin < 2) :
    ModelsOk (set models ctxtIndex (nextModel m bin)) := by
  intro i hi
  unfold Memory.set
  split
  · exact nextState_lt _ (by omega)
  · exact h i hi

theorem lpsRange_bounds (hm : m < 126) (hr : Normal r) :
    6 ≤ lpsRange m r ∧ lpsRange m r + 128 ≤ r := by
  have hlow := hr.1
  have hhigh := hr.2
  have hq : r / 64 % 4 < 4 := Nat.mod_lt _ (by decide)
  obtain ⟨h6, hle⟩ := cabacRlps_bounds (m / 2) (by omega) (r / 64 % 4) hq
  refine ⟨h6, ?_⟩
  change gau1IhevcCabacRlps (m / 2) (r / 64 % 4) + 128 ≤ r
  omega

-- ---------------------------------------------------------------------------
-- The engine between two decodes
-- ---------------------------------------------------------------------------

/-- Decodes with a context in range and a group of bins that fits the reader. -/
def CabacOp.Ok : CabacOp → Prop
  | .bin ctxtIndex => ctxtIndex < ihevcCabCtxtEnd
  | .bypassBins numbins => 0 < numbins ∧ numbins < 17
  | _ => True

structure Engine.Ok (d : Engine) : Prop where
  range : Normal d.regs.range
  ofst : d.regs.ofst < d.regs.range
  models : ModelsOk d.models

/-- A state before its renormalisation. -/
structure Engine.Narrowed (d : Engine) : Prop where
  pos : 0 < d.regs.range
  lt : d.regs.range < 512
  ofst : d.regs.ofst < d.regs.range
  models : ModelsOk d.models

theorem Engine.Narrowed.renorm (h : Engine.Narrowed d) : (d.renorm b).Ok := by
  have hregs := renorm_regs b h.pos h.lt
  refine ⟨?_, ?_, h.models⟩
  · change Normal (Registers.renorm b 256 8 d.regs).range
    rw [hregs]
    exact renormShift_normal h.pos h.lt
  · change (Registers.renorm b 256 8 d.regs).ofst < (Registers.renorm b 256 8 d.regs).range
    rw [hregs]
    exact (shiftBy_ofst_lt_iff d.regs d.regs.range).mpr h.ofst

theorem Engine.Ok.narrowBin (h : Engine.Ok d) (hctxt : ctxt < ihevcCabCtxtEnd) :
    (d.narrowBin ctxt).2.Narrowed := by
  obtain ⟨⟨hlow, hhigh⟩, hofst, hmodels⟩ := h
  have hm := hmodels ctxt hctxt
  obtain ⟨h6, hle⟩ := lpsRange_bounds hm ⟨hlow, hhigh⟩
  cases Nat.lt_or_ge d.regs.ofst (d.regs.range - lpsRange (d.models ctxt) d.regs.range) with
  | inl hlt =>
    rw [narrowBin_mps hlt]
    exact ⟨by dsimp only; omega, by dsimp only; omega, hlt,
      hmodels.set hm (Nat.mod_lt _ (by decide))⟩
  | inr hge =>
    rw [narrowBin_lps hge]
    exact ⟨by dsimp only; omega, by dsimp only; omega, by dsimp only; omega,
      hmodels.set hm (by omega)⟩

theorem Engine.Ok.decodeBypass (h : Engine.Ok d) : (d.decodeBypass b).2.Ok := by
  obtain ⟨hnormal, hofst, hmodels⟩ := h
  have hbit := Bool.toNat_lt (b d.regs.pos)
  cases Nat.lt_or_ge (2 * d.regs.ofst + (b d.regs.pos).toNat) d.regs.range with
  | inl hlt =>
    rw [decodeBypass_zero hlt]
    exact ⟨hnormal, hlt, hmodels⟩
  | inr hge =>
    rw [decodeBypass_one hge]
    refine ⟨hnormal, ?_, hmodels⟩
    dsimp only
    omega

theorem Engine.Ok.decodeBypassBins (h : Engine.Ok d) : (d.decodeBypassBins b n).2.Ok := by
  induction n with
  | zero => exact h
  | succ n ih => exact ih.decodeBypass

theorem Engine.Ok.decodeTerminate (h : Engine.Ok d) (hgo : (d.decodeTerminate b).1 ≠ 1) :
    (d.decodeTerminate b).2.Ok := by
  obtain ⟨⟨hlow, hhigh⟩, hofst, hmodels⟩ := h
  cases Nat.lt_or_ge d.regs.ofst (d.regs.range - 2) with
  | inl hlt =>
    rw [decodeTerminate_zero hlt]
    exact Engine.Narrowed.renorm
      ⟨by dsimp only; omega, by dsimp only; omega, hlt, hmodels⟩
  | inr hge =>
    rw [decodeTerminate_one hge] at hgo
    contradiction

theorem Engine.Ok.decode (h : Engine.Ok d) {op : CabacOp} (hop : op.Ok)
    (hgo : op.stops (d.decode b op).1 = false) : (d.decode b op).2.Ok := by
  cases op with
  | bin ctxt => exact (h.narrowBin hop).renorm
  | bypass => exact h.decodeBypass
  | bypassBins n => exact h.decodeBypassBins
  | terminate => exact h.decodeTerminate (by simpa [CabacOp.stops, Engine.decode] using hgo)

/-- A group of bins taken from its first bin on. -/
theorem decodeBypassBins_succ' (d : Engine) (n : Nat) :
    d.decodeBypassBins b (n + 1) =
      ((d.decodeBypass b).1 * 2 ^ n + ((d.decodeBypass b).2.decodeBypassBins b n).1,
        ((d.decodeBypass b).2.decodeBypassBins b n).2) := by
  induction n with
  | zero => simp [Engine.decodeBypassBins]
  | succ n ih =>
    rw [Engine.decodeBypassBins, ih]
    simp only [Engine.decodeBypassBins]
    refine Prod.ext ?_ rfl
    dsimp only
    ring

-- ---------------------------------------------------------------------------
-- Coding
-- ---------------------------------------------------------------------------

/-- The coding process: an interval and the context models. -/
structure Coder where
  interval : Interval
  models : Nat → Nat

def Coder.init (models : Nat → Nat) : Coder :=
  { interval := { low := 0, range := 510, bits := 0 }, models }

/-- The part from `lo` on, `width` long, scaled back to a range of 9 bits. -/
def part (i : Interval) (lo width : Nat) : Interval :=
  (i.narrow lo width).scale (renormShift width)

def Coder.codeBin (c : Coder) (ctxtIndex bin : Nat) : Coder :=
  let model := c.models ctxtIndex
  let lps := lpsRange model c.interval.range
  let mps := c.interval.range - lps
  { interval := if bin = model % 2 then part c.interval 0 mps else part c.interval mps lps
    models := set c.models ctxtIndex (nextModel model bin) }

def Coder.codeBypassBins (c : Coder) (numbins bins : Nat) : Coder :=
  { c with
    interval := (c.interval.scale numbins).narrow (bins * c.interval.range) c.interval.range }

def Coder.codeTerminate (c : Coder) (bin : Nat) : Coder :=
  let range := c.interval.range - 2
  { c with interval := if bin = 1 then c.interval.narrow range 2 else part c.interval 0 range }

/-- A symbol: a decode and the value it is to give. -/
abbrev CabacSym := CabacOp × Nat

def Coder.code (c : Coder) : CabacSym → Coder
  | (.bin ctxtIndex, v) => c.codeBin ctxtIndex v
  | (.bypass, v) => c.codeBypassBins 1 v
  | (.bypassBins numbins, v) => c.codeBypassBins numbins v
  | (.terminate, v) => c.codeTerminate v

def Coder.codeAll (c : Coder) (l : List CabacSym) : Coder := l.foldl Coder.code c

/-- Symbols with a context in range and a value that fits. -/
def SymOk : CabacSym → Prop
  | (.bin ctxtIndex, v) => ctxtIndex < ihevcCabCtxtEnd ∧ v < 2
  | (.bypass, v) => v < 2
  | (.bypassBins numbins, v) => v < 2 ^ numbins
  | (.terminate, v) => v < 2

/-- A coder between two symbols. -/
structure Coder.Ok (c : Coder) : Prop where
  range : Normal c.interval.range
  models : ModelsOk c.models

theorem coder_init_ok (h : ModelsOk models) : (Coder.init models).Ok :=
  ⟨⟨by simp [Coder.init], by simp [Coder.init]⟩, h⟩

theorem part_range (hw : 0 < width) (h : width < 512) : Normal (part i lo width).range :=
  renormShift_normal hw h

/-- A symbol that does not end the slice leaves a coder between two symbols. -/
theorem Coder.Ok.code {c : Coder} (h : c.Ok) (hsym : SymOk sym) (hgo : sym ≠ (.terminate, 1)) :
    (c.code sym).Ok := by
  have hr := h.range
  obtain ⟨op, v⟩ := sym
  cases op with
  | bin ctxtIndex =>
    have hm := h.models ctxtIndex hsym.1
    obtain ⟨h6, hle⟩ := lpsRange_bounds hm hr
    refine ⟨?_, h.models.set hm hsym.2⟩
    simp only [Coder.code, Coder.codeBin]
    have := hr.2
    split
    · exact part_range (by omega) (by omega)
    · exact part_range (by omega) (by omega)
  | bypass => exact ⟨hr, h.models⟩
  | bypassBins numbins => exact ⟨hr, h.models⟩
  | terminate =>
    have hv : v ≠ 1 := by
      rintro rfl
      exact hgo rfl
    refine ⟨?_, h.models⟩
    simp only [Coder.code, Coder.codeTerminate, hv, if_false]
    have := hr.1
    have := hr.2
    exact part_range (by omega) (by omega)

-- ---------------------------------------------------------------------------
-- Decoding what was coded
-- ---------------------------------------------------------------------------

section
variable {p : Nat}

/-- The engine that follows a coder. -/
def Coder.engine (b : Nat → Bool) (p : Nat) (c : Coder) : Engine :=
  { regs := c.interval.registers b p 9, models := c.models }

theorem engine_mk (i : Interval) :
    Coder.engine b p { interval := i, models } = { regs := i.registers b p 9, models } := rfl

theorem Contains.of_part (hle : lo + width ≤ i.range) (h : (part i lo width).Contains b p 9) :
    i.Contains b p 9 := h.of_scale.of_narrow hle

/-- Taking a part and renormalising, seen in the registers. -/
theorem registers_part (hw : 0 < width) (hlt : width < 512)
    (h : (part i lo width).Contains b p 9) :
    Registers.renorm b 256 8
        { range := width, ofst := i.ofst b p 9 - lo, pos := p + (i.bits + 9) } =
      (part i lo width).registers b p 9 := by
  have hnarrow := h.of_scale
  rw [renorm_regs b hw hlt, part, registers_scale hnarrow, registers_narrow hnarrow]

theorem decodeBin_code {c : Coder} (h : c.Ok) (hctxt : ctxtIndex < ihevcCabCtxtEnd) (hv : v < 2)
    (hin : (c.codeBin ctxtIndex v).interval.Contains b p 9) :
    (c.engine b p).decodeBin b ctxtIndex = (v, (c.codeBin ctxtIndex v).engine b p) ∧
      c.interval.Contains b p 9 := by
  have hr := h.range
  have hhigh := hr.2
  obtain ⟨h6, hle⟩ := lpsRange_bounds (h.models ctxtIndex hctxt) hr
  unfold Coder.codeBin at hin ⊢
  by_cases hbin : v = c.models ctxtIndex % 2
  · simp only [hbin, if_true] at hin ⊢
    obtain ⟨-, hlt, -⟩ := ofst_narrow hin.of_scale
    have hregs := registers_part (by omega) (by omega) hin
    rw [Nat.zero_add] at hlt
    rw [Engine.decodeBin, narrowBin_mps (d := c.engine b p) hlt]
    refine ⟨?_, Contains.of_part (by omega) hin⟩
    rw [engine_mk (part _ _ _), ← hregs]
    rfl
  · have hv' : v = 1 - c.models ctxtIndex % 2 := by omega
    simp only [hbin, if_false] at hin ⊢
    obtain ⟨hge, -, -⟩ := ofst_narrow hin.of_scale
    have hregs := registers_part (by omega) (by omega) hin
    rw [Engine.decodeBin, narrowBin_lps (d := c.engine b p) hge]
    refine ⟨?_, Contains.of_part (by omega) hin⟩
    rw [engine_mk (part _ _ _), ← hregs, hv']
    rfl

theorem Contains.of_bypassBins {c : Coder} (hv : v < 2 ^ n)
    (hin : (c.codeBypassBins n v).interval.Contains b p 9) :
    (c.interval.scale n).Contains b p 9 := by
  refine hin.of_narrow ?_
  have hle := Nat.mul_le_mul_right c.interval.range hv
  rw [Nat.succ_mul, Nat.mul_comm (2 ^ n)] at hle
  exact hle

theorem decodeBypass_code {c : Coder} (hv : v < 2)
    (hin : (c.codeBypassBins 1 v).interval.Contains b p 9) :
    (c.engine b p).decodeBypass b = (v, (c.codeBypassBins 1 v).engine b p) := by
  have hscale := Contains.of_bypassBins (n := 1) hv hin
  have hofst := ofst_scale hscale.of_scale (k := 1)
  obtain ⟨hge, hlt, -⟩ := ofst_narrow hin
  have hregs := registers_narrow hin
  have hpos : p + ((c.interval.scale 1).bits + 9) = p + (c.interval.bits + 9) + 1 := by
    simp only [Interval.scale]
    omega
  rw [field_one, pow_one, Nat.mul_comm] at hofst
  rw [hofst] at hge hlt hregs
  rw [hpos] at hregs
  obtain rfl | rfl : v = 0 ∨ v = 1 := by omega
  · rw [Nat.zero_mul, Nat.zero_add] at hlt
    rw [Nat.zero_mul, Nat.sub_zero] at hregs
    rw [decodeBypass_zero (d := c.engine b p) hlt, Coder.codeBypassBins, Nat.zero_mul,
      engine_mk (Interval.narrow _ _ _), hregs]
    rfl
  · rw [Nat.one_mul] at hge hregs
    rw [decodeBypass_one (d := c.engine b p) hge, Coder.codeBypassBins, Nat.one_mul,
      engine_mk (Interval.narrow _ _ _), hregs]
    rfl

/-- A group of bins may be coded in two parts. -/
theorem codeBypassBins_add {c : Coder} :
    c.codeBypassBins (n + m) v = (c.codeBypassBins n (v / 2 ^ m)).codeBypassBins m (v % 2 ^ m) := by
  have hsplit := Nat.div_add_mod v (2 ^ m)
  simp only [Coder.codeBypassBins, Interval.scale, Interval.narrow]
  refine Coder.mk.injEq .. |>.mpr ⟨Interval.mk.injEq .. |>.mpr ⟨?_, rfl, ?_⟩, rfl⟩
  · rw [pow_add]
    nth_rewrite 1 [← hsplit]
    ring
  · exact (Nat.add_assoc ..).symm

theorem decodeBypassBins_code {c : Coder} (hv : v < 2 ^ n)
    (hin : (c.codeBypassBins n v).interval.Contains b p 9) :
    (c.engine b p).decodeBypassBins b n = (v, (c.codeBypassBins n v).engine b p) := by
  induction n generalizing v with
  | zero =>
    obtain rfl : v = 0 := by simpa using hv
    have hcode : c.codeBypassBins 0 0 = c := by simp [Coder.codeBypassBins, Interval.narrow]
    rw [hcode]
    rfl
  | succ n ih =>
    have hv2 : v / 2 < 2 ^ n := by
      rw [pow_succ] at hv
      omega
    rw [codeBypassBins_add, pow_one] at hin ⊢
    have hmod : v % 2 < 2 := Nat.mod_lt _ (by decide)
    have hprev := (Contains.of_bypassBins (n := 1) hmod hin).of_scale
    rw [Engine.decodeBypassBins, ih hv2 hprev]
    simp only [decodeBypass_code hmod hin]
    rw [Nat.div_add_mod]

theorem decodeTerminate_code_zero {c : Coder} (h : c.Ok)
    (hin : (c.codeTerminate 0).interval.Contains b p 9) :
    (c.engine b p).decodeTerminate b = (0, (c.codeTerminate 0).engine b p) ∧
      c.interval.Contains b p 9 := by
  have hlow := h.range.1
  have hhigh := h.range.2
  change (part c.interval 0 (c.interval.range - 2)).Contains b p 9 at hin
  obtain ⟨-, hlt, -⟩ := ofst_narrow hin.of_scale
  have hregs := registers_part (by omega) (by omega) hin
  rw [Nat.zero_add] at hlt
  rw [decodeTerminate_zero (d := c.engine b p) hlt]
  refine ⟨?_, Contains.of_part (by omega) hin⟩
  change _ = (0, Coder.engine b p { c with interval := part c.interval 0 (c.interval.range - 2) })
  rw [engine_mk (part _ _ _), ← hregs]
  rfl

/-- The terminating bin: the engine has taken 9 bits more than were generated. -/
theorem decodeTerminate_code_one {c : Coder} (h : c.Ok)
    (hin : (c.codeTerminate 1).interval.Contains b p 9) :
    ((c.engine b p).decodeTerminate b).1 = 1 ∧
      ((c.engine b p).decodeTerminate b).2.regs.pos = p + (c.interval.bits + 9) ∧
      ((c.engine b p).decodeTerminate b).2.models = c.models ∧ c.interval.Contains b p 9 := by
  have hlow := h.range.1
  change (c.interval.narrow (c.interval.range - 2) 2).Contains b p 9 at hin
  obtain ⟨hge, -, -⟩ := ofst_narrow hin
  rw [decodeTerminate_one (d := c.engine b p) hge]
  exact ⟨rfl, rfl, rfl, hin.of_narrow (by omega)⟩

/-- A symbol that does not end the slice is decoded from the interval of what was coded. -/
theorem decode_code {c : Coder} (h : c.Ok) (hsym : SymOk sym) (hgo : sym ≠ (.terminate, 1))
    (hin : (c.code sym).interval.Contains b p 9) :
    (c.engine b p).decode b sym.1 = (sym.2, (c.code sym).engine b p) ∧
      c.interval.Contains b p 9 := by
  obtain ⟨op, v⟩ := sym
  cases op with
  | bin ctxtIndex => exact decodeBin_code h hsym.1 hsym.2 hin
  | bypass =>
    exact ⟨decodeBypass_code hsym hin, (Contains.of_bypassBins (n := 1) hsym hin).of_scale⟩
  | bypassBins n =>
    exact ⟨decodeBypassBins_code hsym hin, (Contains.of_bypassBins hsym hin).of_scale⟩
  | terminate =>
    have hv : v ≠ 1 := by
      rintro rfl
      exact hgo rfl
    obtain rfl : v = 0 := by
      have hlt : v < 2 := hsym
      omega
    exact decodeTerminate_code_zero h hin

/-- Symbols of a slice before its terminating bin. -/
def Going (l : List CabacSym) : Prop := ∀ sym ∈ l, SymOk sym ∧ sym ≠ (.terminate, 1)

theorem stops_going (h : sym ≠ (.terminate, 1)) : CabacOp.stops sym.1 sym.2 = false := by
  obtain ⟨op, v⟩ := sym
  cases op with
  | terminate =>
    have hv : v ≠ 1 := by
      rintro rfl
      exact h rfl
    simpa [CabacOp.stops] using hv
  | _ => rfl

theorem Coder.Ok.codeAll {c : Coder} (h : c.Ok) (hl : Going l) : (c.codeAll l).Ok := by
  induction l generalizing c with
  | nil => exact h
  | cons sym l ih =>
    obtain ⟨hsym, hgo⟩ := hl sym (by simp)
    exact ih (h.code hsym hgo) fun x hx => hl x (by simp [hx])

theorem run_going {c : Coder} (h : c.Ok) (hl : Going l)
    (hin : (c.codeAll l).interval.Contains b p 9) :
    (c.engine b p).run b (l.map Prod.fst) =
        { outputs := l.map Prod.snd, state := (c.codeAll l).engine b p, stopped := false } ∧
      c.interval.Contains b p 9 := by
  induction l generalizing c with
  | nil => exact ⟨rfl, hin⟩
  | cons sym l ih =>
    obtain ⟨hsym, hgo⟩ := hl sym (by simp)
    obtain ⟨hrun, hin'⟩ := ih (h.code hsym hgo) (fun x hx => hl x (by simp [hx])) hin
    obtain ⟨hdec, hin''⟩ := decode_code h hsym hgo hin'
    have hstop : CabacOp.stops sym.1 ((c.engine b p).decode b sym.1).1 = false := by
      rw [hdec]
      exact stops_going hgo
    refine ⟨?_, hin''⟩
    rw [Engine.run] at hrun
    rw [List.map_cons, Engine.run, run_go hstop, hdec, hrun]
    rfl

/-- A slice of symbols, ended by a terminating bin, is decoded from its interval: the values
come back, the models end as the coder's, and 9 bits more than were generated are taken. -/
theorem run_codeAll {c : Coder} (h : c.Ok) (hl : Going l)
    (hin : ((c.codeAll l).codeTerminate 1).interval.Contains b p 9) :
    let r := (c.engine b p).run b (l.map Prod.fst ++ [.terminate])
    r.outputs = l.map Prod.snd ++ [1] ∧ r.stopped = true ∧
      r.state.models = (c.codeAll l).models ∧
      r.state.regs.pos = p + ((c.codeAll l).interval.bits + 9) ∧
      (c.codeAll l).interval.Contains b p 9 := by
  obtain ⟨hone, hpos, hmodels, hin'⟩ := decodeTerminate_code_one (h.codeAll hl) hin
  obtain ⟨hrun, -⟩ := run_going h hl hin'
  have hstop : CabacOp.stops .terminate
      (((c.codeAll l).engine b p).decode b .terminate).1 = true := by
    simp [CabacOp.stops, Engine.decode, hone]
  rw [Engine.run] at hrun
  have hgo : (Transducer.run (Engine.decode b) CabacOp.stops (c.engine b p)
      (l.map Prod.fst)).stopped = false := by rw [hrun]
  rw [Engine.run, run_append hgo, hrun, run_stop hstop]
  exact ⟨congrArg (fun v => l.map Prod.snd ++ [v]) hone, rfl, hmodels, hpos, hin'⟩

end

end Libhevc.Spec
