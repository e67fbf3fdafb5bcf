import Libhevc.Common.IntraRefSubst
import Mathlib.Tactic.IntervalCases

/-!
# The substitution against the standard

The flag word says which samples can be used: a unit of samples for each flag of a side, and one
flag for the top-left sample. The arrays the two functions leave are those of section 8.4.4.2.2
when the word marks one of the block's samples or is 0: the first available sample in the order
of the array is found, and each sample that is not available takes the value before it.
-/

namespace Libhevc.IntraPred

open Cells

variable {α β : Type}

section

variable {nb : Neighbours α} {nt flags : Nat} {b : Cells α}

/-- The samples in the order of the reference array. -/
def Neighbours.scan (nb : Neighbours α) (nt i : Nat) : α :=
  if i < 2 * nt then nb.pu1Left (2 * nt - 1 - i)
  else if i = 2 * nt then nb.pu1TopLeft
  else nb.pu1Top (i - 2 * nt - 1)

/-- The flag of a sample, one for `unit` samples of a side. -/
def nbrFlagIdx (unit nt i : Nat) : Nat :=
  if i < nt then 3 - (nt - 1 - i) / unit
  else if i < 2 * nt then 7 - (2 * nt - 1 - i) / unit
  else if i = 2 * nt then 16
  else if i < 3 * nt + 1 then 8 + (i - 2 * nt - 1) / unit
  else 12 + (i - 3 * nt - 1) / unit

def nbrAvail (unit nt flags i : Nat) : Bool := flags.testBit (nbrFlagIdx unit nt i)

-- ---------------------------------------------------------------------------
-- Flags
-- ---------------------------------------------------------------------------

theorem flagOf_of_testBit (h : flags.testBit k) (hm : mask.testBit k) :
    flagOf flags mask = true := by
  rw [flagOf, bne_iff_ne]
  intro hzero
  have hbit := congrArg (fun x => Nat.testBit x k) hzero
  simp [h, hm] at hbit

theorem and_shiftRight_eq (k : Nat) : (flags &&& 2 ^ k) >>> k = (flags.testBit k).toNat := by
  rw [Nat.and_two_pow, Nat.shiftRight_eq_div_pow, Nat.mul_div_cancel _ (Nat.two_pow_pos k)]

theorem getBit_eq_zero : getBit flags k = 0 ↔ ¬flags.testBit k := by
  rw [getBit, Nat.one_shiftLeft, Nat.and_two_pow]
  cases flags.testBit k <;> simp

theorem ctz_spec (h : x ≠ 0) (hlt : x < 2 ^ 32) :
    x.testBit (ctz x) ∧ ∀ j < ctz x, ¬x.testBit j := by
  obtain ⟨k, hk⟩ := Nat.exists_testBit_of_ne_zero h
  have hk32 : k < 32 := by
    by_contra hge
    have hzero := Nat.testBit_lt_two_pow (hlt.trans_le (Nat.pow_le_pow_right (by decide)
      (Nat.le_of_not_lt hge)))
    simp [hzero] at hk
  cases hfind : (List.range 32).find? x.testBit with
  | none =>
    rw [List.find?_range_eq_none] at hfind
    have hno := hfind k hk32
    simp [hk] at hno
  | some f =>
    have hctz : ctz x = f := by rw [ctz, hfind, Option.getD_some]
    rw [List.find?_range_eq_some] at hfind
    rw [hctz]
    exact ⟨hfind.1, fun j hj => by simpa using hfind.2.2 j hj⟩

/-- The lowest set bit among the `m` from `k` on. -/
theorem lookUp_spec (hbit : ∃ j < m, flags.testBit (k + j)) (hm : m ≤ 32) :
    let z := lookUpTrailingZeros ((flags >>> k) &&& (1 <<< m - 1))
    z < m ∧ flags.testBit (k + z) ∧ ∀ j < z, ¬flags.testBit (k + j) := by
  have htest : ∀ j, ((flags >>> k) &&& (1 <<< m - 1)).testBit j =
      (flags.testBit (k + j) && decide (j < m)) := by
    intro j
    rw [Nat.one_shiftLeft, Nat.testBit_and, Nat.testBit_shiftRight, Nat.testBit_two_pow_sub_one]
  obtain ⟨j, hj, hset⟩ := hbit
  have hne : (flags >>> k) &&& (1 <<< m - 1) ≠ 0 := by
    intro hzero
    have hbit := htest j
    simp [hzero, hset, hj] at hbit
  have hlt : (flags >>> k) &&& (1 <<< m - 1) < 2 ^ 32 := by
    refine Nat.and_lt_two_pow _ ?_
    rw [Nat.one_shiftLeft]
    have hpow := Nat.pow_le_pow_right (by decide : 0 < 2) hm
    have hpos := Nat.two_pow_pos m
    omega
  obtain ⟨hctz, hbelow⟩ := ctz_spec hne hlt
  simp only [lookUpTrailingZeros, if_neg hne]
  rw [htest, Bool.and_eq_true, decide_eq_true_iff] at hctz
  refine ⟨hctz.2, hctz.1, fun i hi hbad => hbelow i hi ?_⟩
  rw [htest, hbad, Bool.true_and, decide_eq_true_iff]
  omega

theorem lookUp_zero (h : ∀ j < m, ¬flags.testBit (k + j)) :
    lookUpTrailingZeros ((flags >>> k) &&& (1 <<< m - 1)) = 8 := by
  refine if_pos (Nat.eq_of_testBit_eq fun j => ?_)
  rw [Nat.one_shiftLeft, Nat.testBit_and, Nat.testBit_shiftRight, Nat.testBit_two_pow_sub_one,
    Nat.zero_testBit]
  by_cases hj : j < m
  · simp [h j hj]
  · simp [hj]

-- ---------------------------------------------------------------------------
-- The filling
-- ---------------------------------------------------------------------------

section Filling

variable {n pos len : Nat} {avail : Nat → Bool} {src : Nat → α} {first : α}

/-- A unit is kept or filled, as its flag says. -/
theorem unit_step (pos len : Nat) (h : Upto n avail src first pos b) (hpos : 0 < pos ∨ flag = true)
    (hn : pos + len ≤ n) (ha : ∀ i, pos ≤ i → i < pos + len → avail i = flag)
    (hword : word = 0 ↔ ¬flag) :
    ∃ b', fillUnless n pos len word b = some b' ∧ Upto n avail src first (pos + len) b' := by
  cases flag with
  | true => exact ⟨b, if_neg (by simpa using hword), h.keep hn ha⟩
  | false =>
    rw [fillUnless, if_pos (by simpa using hword)]
    refine h.fill (by simpa using hpos) hn fun i hlo hhi => ?_
    simp [ha i hlo hhi]

/-- One flag for each side of the array. -/
structure SideFlags (nt flags : Nat) (avail : Nat → Bool) : Prop where
  botLeft : ∀ i < nt, avail i = flags.testBit 3
  left : ∀ i, nt ≤ i → i < 2 * nt → avail i = flags.testBit 7
  tpLeft : avail (2 * nt) = flags.testBit 16
  top : ∀ i, 2 * nt < i → i < 3 * nt + 1 → avail i = flags.testBit 8
  tpRight : ∀ i, 3 * nt < i → i < 4 * nt + 1 → avail i = flags.testBit 12

/-- The reverse part, when the bottom-left side is not available. -/
theorem SideFlags.next (h : SideFlags nt flags avail) (hnt : 0 < nt) (hbl : ¬flags.testBit 3)
    (hsome : ∃ i < 4 * nt + 1, avail i) :
    ∃ next, nextAvail [(flags.testBit 3).toNat, (flags.testBit 7).toNat, (flags.testBit 16).toNat,
        (flags.testBit 8).toNat, (flags.testBit 12).toNat] 1 = some next ∧
      let idx := if next ≤ 2 then nt * next else nt * (next - 1) + 1
      nt ≤ idx ∧ idx < 4 * nt + 1 ∧ avail idx ∧ ∀ j < idx, ¬avail j := by
  have hbl' : ∀ j < nt, ¬avail j := fun j hj => by rwa [h.botLeft j hj]
  cases hl : flags.testBit 7 with
  | true =>
    refine ⟨1, rfl, ?_⟩
    simp only [Nat.one_le_ofNat, if_true, Nat.mul_one]
    exact ⟨le_refl _, by omega, by rw [h.left nt (by omega) (by omega), hl], hbl'⟩
  | false =>
    have hl' : ∀ j < 2 * nt, ¬avail j := by
      intro j hj
      by_cases hlt : j < nt
      · exact hbl' j hlt
      · simp [h.left j (by omega) hj, hl]
    cases htl : flags.testBit 16 with
    | true =>
      refine ⟨2, by simp [nextAvail, hbl, List.range'], ?_⟩
      simp only [le_refl, if_true, Nat.mul_comm nt 2]
      exact ⟨by omega, by omega, by rw [h.tpLeft, htl], hl'⟩
    | false =>
      have htl' : ∀ j < 2 * nt + 1, ¬avail j := by
        intro j hj
        by_cases hlt : j < 2 * nt
        · exact hl' j hlt
        · obtain rfl : j = 2 * nt := by omega
          simp [h.tpLeft, htl]
      cases ht : flags.testBit 8 with
      | true =>
        refine ⟨3, by simp [nextAvail, hbl, List.range'], ?_⟩
        simp only [show ¬3 ≤ 2 by decide, if_false, show 3 - 1 = 2 by decide, Nat.mul_comm nt 2]
        exact ⟨by omega, by omega, by rw [h.top _ (by omega) (by omega), ht], htl'⟩
      | false =>
        have ht' : ∀ j < 3 * nt + 1, ¬avail j := by
          intro j hj
          by_cases hlt : j < 2 * nt + 1
          · exact htl' j hlt
          · simp [h.top j (by omega) hj, ht]
        obtain ⟨i, hi, hav⟩ := hsome
        have htr : flags.testBit 12 = true := by
          rw [← h.tpRight i (by by_contra hlt; exact ht' i (by omega) hav) hi, hav]
        refine ⟨4, by simp [nextAvail, hbl, htr, List.range'], ?_⟩
        simp only [show ¬4 ≤ 2 by decide, if_false, show 4 - 1 = 3 by decide, Nat.mul_comm nt 3]
        exact ⟨by omega, by omega, by rw [h.tpRight _ (by omega) (by omega), htr], ht'⟩

theorem fill_first {f : Nat} (hf : f < n) (hav : avail f) (hbefore : ∀ j < f, ¬avail j)
    (hb : ∀ i < n, avail i → b i = some (src i)) :
    ∃ b', (do let ref ← load n b f; Cells.fill n b 0 ref f) = some b' ∧
      Upto n avail src (src f) f b' := by
  have hload : load n b (f : Int) = some (src f) := by
    rw [load_eq (by omega), Int.toNat_natCast, hb f hf hav]
  have hfill : Cells.fill n b ((0 : Nat) : Int) (src f) f = _ := fill_eq (by omega)
  refine ⟨_, (congrArg (Option.bind · _) hload).trans hfill, ?_⟩
  refine Upto.start hb hbefore ⟨fun _ i hlo hhi => if_pos ?_, fun i hi => if_neg ?_⟩
  · omega
  · omega

theorem reverseSides_spec (h : SideFlags nt flags avail) (hnt : 0 < nt)
    (hsome : ∃ i < 4 * nt + 1, avail i)
    (hb : ∀ i < 4 * nt + 1, avail i → b i = some (src i)) :
    ∃ f b', f < 4 * nt + 1 ∧ avail f ∧ (∀ j < f, ¬avail j) ∧
      reverseSides nt (flags.testBit 3).toNat (flags.testBit 7).toNat (flags.testBit 16).toNat
        (flags.testBit 8).toNat (flags.testBit 12).toNat b = some b' ∧
      Upto (4 * nt + 1) avail src (src f) nt b' := by
  by_cases hbl : flags.testBit 3
  · have havail : ∀ i < nt, avail i := fun i hi => by rw [h.botLeft i hi, hbl]
    have hzero : Upto (4 * nt + 1) avail src (src 0) 0 b := ⟨by simp, fun i _ => hb i⟩
    refine ⟨0, b, by omega, havail 0 hnt, by simp, if_neg (by simp [hbl]), ?_⟩
    have hkeep : Upto (4 * nt + 1) avail src (src 0) (0 + nt) b :=
      hzero.keep (by omega) fun i _ hi => havail i (by omega)
    rwa [Nat.zero_add] at hkeep
  · obtain ⟨next, hnext, hle, hlt, hav, hbefore⟩ := h.next hnt hbl hsome
    obtain ⟨b', hb', hupto⟩ := fill_first hlt hav hbefore hb
    refine ⟨_, b', hlt, hav, hbefore, ?_, hupto.mono hle⟩
    rw [reverseSides, if_pos (by simp [hbl]), hnext]
    exact hb'

theorem substSides_spec (dc : α) (h : SideFlags nt flags avail) (hnt : 0 < nt)
    (hsome : ∃ i < 4 * nt + 1, avail i)
    (hb : ∀ i < 4 * nt + 1, avail i → b i = some (src i)) :
    ∃ b', substSides nt flags b = some b' ∧
      ∀ i < 4 * nt + 1, b' i = some (substituted (4 * nt + 1) dc avail src i) := by
  have hbit : ∀ k, (flags.testBit k).toNat = 0 ↔ ¬flags.testBit k := by
    intro k
    cases flags.testBit k <;> simp
  obtain ⟨f, b₁, hf, hav, hbefore, hb₁, h₁⟩ := reverseSides_spec h hnt hsome hb
  obtain ⟨b₂, hb₂, h₂⟩ := unit_step nt nt h₁ (.inl hnt) (by omega)
    (fun i hlo hhi => h.left i hlo (by omega)) (hbit 7)
  rw [← Nat.two_mul] at h₂
  obtain ⟨b₃, hb₃, h₃⟩ := unit_step (2 * nt) 1 h₂ (.inl (by omega)) (by omega)
    (fun i hlo hhi => by rw [show i = 2 * nt by omega, h.tpLeft]) (hbit 16)
  obtain ⟨b₄, hb₄, h₄⟩ := unit_step (2 * nt + 1) nt h₃ (.inl (by omega)) (by omega)
    (fun i hlo hhi => h.top i (by omega) (by omega)) (hbit 8)
  rw [show 2 * nt + 1 + nt = 3 * nt + 1 by omega] at h₄
  obtain ⟨b₅, hb₅, h₅⟩ := unit_step (3 * nt + 1) nt h₄ (.inl (by omega)) (by omega)
    (fun i hlo hhi => h.tpRight i (by omega) (by omega)) (hbit 12)
  refine ⟨b₅, ?_, fun i hi => ?_⟩
  · have hand : ∀ k, (flags &&& 2 ^ k) >>> k = (flags.testBit k).toNat := and_shiftRight_eq
    have e3 : (flags &&& 0x8) >>> 3 = _ := hand 3
    have e7 : (flags &&& 0x80) >>> 7 = _ := hand 7
    have e16 : (flags &&& 0x10000) >>> 16 = _ := hand 16
    have e8 : (flags &&& 0x100) >>> 8 = _ := hand 8
    have e12 : (flags &&& 0x1000) >>> 12 = _ := hand 12
    simp only [substSides, e3, e7, e16, e8, e12, hb₁, hb₂, hb₃, hb₄, hb₅, Option.bind_eq_bind,
      Option.bind_some]
  · rw [h₅.done i (by omega), substituted_some hf hav hbefore]

/-- The flags of `2 * units` units of samples, with the one of the top-left sample last. -/
structure UnitFlags (units unit flags : Nat) (avail : Nat → Bool) : Prop where
  size : (units = 4 ∨ units = 8) ∧ (unit = 4 ∨ unit = 8)
  low : ∀ i < units * unit, avail i = flags.testBit (i / unit)
  corner : avail (units * unit) = flags.testBit (2 * units)
  high : ∀ i, units * unit < i → i < 2 * units * unit + 1 →
    avail i = flags.testBit (units + (i - units * unit - 1) / unit)

/-- Where a unit starts. -/
def UnitStart (units unit pos : Nat) : Prop :=
  pos ≤ units * unit ∧ pos % unit = 0 ∨ units * unit < pos ∧ (pos - 1) % unit = 0

variable {units unit log2 : Nat}

/-- All samples of a unit have the flag that the loop looks at. -/
theorem UnitFlags.uniform (h : UnitFlags units unit flags avail)
    (hstart : UnitStart units unit pos) (hcorner : pos ≠ units * unit)
    (hlt : pos < 2 * units * unit + 1) :
    pos + unit ≤ 2 * units * unit + 1 ∧ UnitStart units unit (pos + unit) ∧
      ∀ i, pos ≤ i → i < pos + unit → avail i = flags.testBit (pos / unit) := by
  unfold UnitStart at *
  rcases hstart with ⟨hle, hmod⟩ | ⟨hgt, hmod⟩
  · have hidx : ∀ i, pos ≤ i → i < pos + unit → i < units * unit ∧ i / unit = pos / unit := by
      rcases h.size with ⟨rfl | rfl, rfl | rfl⟩ <;> intro i hlo hhi <;> omega
    refine ⟨?_, ?_, fun i hlo hhi => ?_⟩
    · rcases h.size with ⟨rfl | rfl, rfl | rfl⟩ <;> omega
    · rcases h.size with ⟨rfl | rfl, rfl | rfl⟩ <;> omega
    · rw [h.low i (hidx i hlo hhi).1, (hidx i hlo hhi).2]
  · have hidx : ∀ i, pos ≤ i → i < pos + unit → i < 2 * units * unit + 1 ∧
        units + (i - units * unit - 1) / unit = pos / unit := by
      rcases h.size with ⟨rfl | rfl, rfl | rfl⟩ <;> intro i hlo hhi <;> omega
    refine ⟨?_, ?_, fun i hlo hhi => ?_⟩
    · rcases h.size with ⟨rfl | rfl, rfl | rfl⟩ <;> omega
    · rcases h.size with ⟨rfl | rfl, rfl | rfl⟩ <;> omega
    · rw [h.high i (by omega) (hidx i hlo hhi).1, (hidx i hlo hhi).2]

theorem UnitFlags.step (h : UnitFlags units unit flags avail) (hlog : 2 ^ log2 = unit)
    (hstart : UnitStart units unit pos) (hpos : 0 < pos ∨ avail 0 = true)
    (hlt : pos < 2 * units * unit + 1)
    (hupto : Upto (2 * units * unit + 1) avail src first pos b) :
    ∃ b', forwardStep units log2 flags pos b = some b' ∧
      Upto (2 * units * unit + 1) avail src first
        (pos + if pos = units * unit then 1 else unit) b' ∧
      UnitStart units unit (pos + if pos = units * unit then 1 else unit) := by
  simp only [forwardStep, Nat.one_shiftLeft, Nat.shiftRight_eq_div_pow, hlog]
  have hunit : 0 < units * unit ∧ 0 < unit := by
    rcases h.size with ⟨rfl | rfl, rfl | rfl⟩ <;> decide
  by_cases hcorner : pos = units * unit
  · rw [if_pos hcorner, if_pos hcorner]
    obtain ⟨b', hb', hupto'⟩ := unit_step pos 1 hupto (.inl (by omega)) (by omega)
      (fun i hlo hhi => by rw [show i = units * unit by omega, h.corner]) getBit_eq_zero
    refine ⟨b', hb', hupto', .inr ⟨by omega, ?_⟩⟩
    rw [Nat.add_sub_cancel, hcorner, Nat.mul_mod_left]
  · rw [if_neg hcorner, if_neg hcorner]
    obtain ⟨hn, hnext, hav⟩ := h.uniform hstart hcorner hlt
    have hflag : 0 < pos ∨ flags.testBit (pos / unit) = true := by
      rcases Nat.eq_zero_or_pos pos with rfl | hpos'
      · rw [← hav 0 (le_refl _) (by omega)]
        exact hpos
      · exact .inl hpos'
    obtain ⟨b', hb', hupto'⟩ := unit_step pos unit hupto hflag hn hav getBit_eq_zero
    exact ⟨b', hb', hupto', hnext⟩

theorem forwardLoop_upto (h : UnitFlags units unit flags avail) (hlog : 2 ^ log2 = unit) :
    ∀ d pos (b : Cells α), 2 * units * unit + 1 - pos = d → UnitStart units unit pos →
      (0 < pos ∨ avail 0 = true) → Upto (2 * units * unit + 1) avail src first pos b →
      ∃ b', forwardLoop units log2 flags b pos = some b' ∧
        Upto (2 * units * unit + 1) avail src first (2 * units * unit + 1) b' := by
  have hunit : 0 < unit := by rcases h.size.2 with rfl | rfl <;> decide
  intro d
  induction d using Nat.strongRecOn with
  | ind d ih =>
    intro pos b hd hstart hpos hupto
    rw [forwardLoop]
    simp only [Nat.one_shiftLeft, hlog]
    by_cases hlt : pos < 2 * units * unit + 1
    · obtain ⟨b₁, hb₁, hupto₁, hstart₁⟩ := h.step hlog hstart hpos hlt hupto
      rw [if_pos hlt, hb₁]
      have hgrow : 0 < if pos = units * unit then 1 else unit := by split <;> omega
      exact ih _ (by omega) _ b₁ rfl hstart₁ (.inl (by omega)) hupto₁
    · rw [if_neg hlt]
      exact ⟨b, rfl, hupto.mono (by omega)⟩

/-- The position the search ends with is that of the first available sample. -/
theorem UnitFlags.firstFromBl_spec (h : UnitFlags units unit flags avail)
    (hlog : 2 ^ log2 = unit) (hsome : ∃ i < 2 * units * unit + 1, avail i) :
    let f := firstFromBl units log2 flags
    f < 2 * units * unit + 1 ∧ avail f ∧ (∀ j < f, ¬avail j) ∧ UnitStart units unit f := by
  simp only [firstFromBl, Nat.one_shiftLeft, hlog]
  have hunits : units ≤ 32 ∧ units ≤ 8 ∧ 0 < unit := by
    rcases h.size with ⟨rfl | rfl, rfl | rfl⟩ <;> decide
  by_cases hlow : ∃ j < units, flags.testBit (0 + j)
  · obtain ⟨hlt, hset, hbelow⟩ := lookUp_spec hlow hunits.1
    simp only [Nat.shiftRight_zero, Nat.zero_add, Nat.one_shiftLeft] at hlt hset hbelow
    generalize lookUpTrailingZeros (flags &&& (2 ^ units - 1)) = z at hlt hset hbelow
    have hz : z * unit ≠ 8 * unit ∧ z * unit ≠ units * unit ∧ z * unit < units * unit ∧
        z * unit < 2 * units * unit + 1 ∧ z * unit / unit = z ∧ z * unit % unit = 0 ∧
        ∀ j < z * unit, j / unit < z ∧ j < units * unit := by
      rcases h.size with ⟨rfl | rfl, rfl | rfl⟩ <;> refine ⟨?_, ?_, ?_, ?_, ?_, ?_, ?_⟩ <;>
        omega
    obtain ⟨h8, hu, hlt', hn, hdiv, hmod, hbefore⟩ := hz
    rw [if_neg h8, if_neg hu]
    refine ⟨hn, by rw [h.low _ hlt', hdiv, hset], fun j hj => ?_, .inl ⟨hlt'.le, hmod⟩⟩
    rw [h.low j (hbefore j hj).2]
    exact hbelow _ (hbefore j hj).1
  · have hlow' : ∀ j < units, ¬flags.testBit (0 + j) := fun j hj hset => hlow ⟨j, hj, hset⟩
    have hzero := lookUp_zero hlow'
    rw [Nat.shiftRight_zero, Nat.one_shiftLeft] at hzero
    rw [hzero, if_pos rfl, if_pos rfl]
    have hleft : ∀ j < units * unit, ¬avail j := by
      intro j hj
      have hdiv : j / unit < units := Nat.div_lt_of_lt_mul (by rwa [Nat.mul_comm])
      rw [h.low j hj]
      simpa using hlow' _ hdiv
    have hcorner : (flags >>> (2 * units)) &&& 0x1 = 0 ↔ ¬flags.testBit (2 * units) := by
      rw [Nat.testBit, Nat.and_comm]
      simp
    by_cases htl : flags.testBit (2 * units)
    · rw [if_neg fun hz => hcorner.mp hz htl]
      refine ⟨?_, by rw [h.corner, htl], hleft, .inl ⟨le_refl _, Nat.mul_mod_left _ _⟩⟩
      rcases h.size with ⟨rfl | rfl, rfl | rfl⟩ <;> omega
    · rw [if_pos (hcorner.mpr htl)]
      have hleft' : ∀ j ≤ units * unit, ¬avail j := by
        intro j hj
        rcases Nat.lt_or_eq_of_le hj with hlt | rfl
        · exact hleft j hlt
        · rwa [h.corner]
      have hhigh : ∃ j < units, flags.testBit (units + j) := by
        obtain ⟨i, hi, hav⟩ := hsome
        have hgt : units * unit < i := by
          by_contra hle
          exact hleft' i (by omega) hav
        refine ⟨_, ?_, (h.high i hgt hi).symm.trans hav⟩
        rcases h.size with ⟨rfl | rfl, rfl | rfl⟩ <;> omega
      obtain ⟨hlt, hset, hbelow⟩ := lookUp_spec hhigh hunits.1
      rw [Nat.one_shiftLeft] at hlt hset hbelow
      generalize lookUpTrailingZeros ((flags >>> units) &&& (2 ^ units - 1)) = z
        at hlt hset hbelow
      have hz : units * unit + 1 + z * unit < 2 * units * unit + 1 ∧
          (units * unit + 1 + z * unit - units * unit - 1) / unit = z ∧
          (units * unit + 1 + z * unit - 1) % unit = 0 ∧
          ∀ j < units * unit + 1 + z * unit, j < 2 * units * unit + 1 ∧
            (units * unit < j → (j - units * unit - 1) / unit < z) := by
        rcases h.size with ⟨rfl | rfl, rfl | rfl⟩ <;> refine ⟨?_, ?_, ?_, ?_⟩ <;> omega
      obtain ⟨hn, hdiv, hmod, hbefore⟩ := hz
      refine ⟨hn, by rw [h.high _ (by omega) hn, hdiv, hset], fun j hj => ?_,
        .inr ⟨by omega, hmod⟩⟩
      by_cases hle : j ≤ units * unit
      · exact hleft' j hle
      · rw [h.high j (by omega) (hbefore j hj).1]
        exact hbelow _ ((hbefore j hj).2 (by omega))

theorem substUnits_spec (dc : α) (log2 : Nat) (h : UnitFlags units unit flags avail)
    (hlog : 2 ^ log2 = unit)
    (hsome : ∃ i < 2 * units * unit + 1, avail i)
    (hb : ∀ i < 2 * units * unit + 1, avail i → b i = some (src i)) :
    ∃ b', substUnits units log2 flags b = some b' ∧ ∀ i < 2 * units * unit + 1,
      b' i = some (substituted (2 * units * unit + 1) dc avail src i) := by
  obtain ⟨hf, hav, hbefore, hstart⟩ := h.firstFromBl_spec hlog hsome
  generalize hfirst : firstFromBl units log2 flags = f at hf hav hbefore hstart
  have hrev : ∃ b₁, reverseUnits (2 * units * unit + 1) f b = some b₁ ∧
      Upto (2 * units * unit + 1) avail src (src f) f b₁ := by
    by_cases hzero : f = 0
    · refine ⟨b, if_neg (by simpa using hzero), by simp [hzero], fun i _ => hb i⟩
    · have hload : load (2 * units * unit + 1) b (f : Int) = some (src f) := by
        rw [load_eq (by omega), Int.toNat_natCast, hb f hf hav]
      have hdown : storeDown (2 * units * unit + 1) ((f - 1 : Nat) : Int)
          (fun _ => some (src f)) b f = _ :=
        storeDown_eq (fun _ _ => rfl) (by omega) (by omega)
      rw [reverseUnits, if_pos hzero]
      refine ⟨_, (congrArg (Option.bind · _) hload).trans hdown, ?_⟩
      refine Upto.start hb hbefore ⟨fun _ i hlo hhi => if_pos ?_, fun i hi => if_neg ?_⟩
      · omega
      · omega
  obtain ⟨b₁, hb₁, hupto₁⟩ := hrev
  have hpos : 0 < f ∨ avail 0 = true := by
    rcases Nat.eq_zero_or_pos f with hzero | hpos
    · exact .inr (hzero ▸ hav)
    · exact .inl hpos
  obtain ⟨b₂, hb₂, hupto₂⟩ := forwardLoop_upto h hlog _ f b₁ rfl hstart hpos hupto₁
  refine ⟨b₂, ?_, fun i hi => ?_⟩
  · simp only [substUnits, Nat.one_shiftLeft, hlog, hfirst, hb₁, hb₂, Option.bind_eq_bind,
      Option.bind_some]
  · rw [hupto₂.done i hi, substituted_some hf hav hbefore]

end Filling

end

variable {nt flags : Nat}

-- ---------------------------------------------------------------------------
-- Copies
-- ---------------------------------------------------------------------------

section Copies

variable (nb : Neighbours α) (nt : Nat) (avail : Bool) (lo len : Nat) (b : Cells α)

theorem copyLeft_wrote {p : Prop} (h : lo + len ≤ 2 * nt) (hlo : lo < 2 * nt) :
    ∃ b', copyLeft nb nt lo len b = some b' ∧
      Wrote (2 * nt - lo - len) (2 * nt - lo) p (nb.scan nt) b b' := by
  have hwrote : ∃ b', copyLeft nb nt lo len b = some b' ∧
      Wrote (2 * nt - 1 - lo + 1 - len) (2 * nt - 1 - lo + 1) p (nb.scan nt) b b' := by
    refine storeDown_wrote (fun k hk => ?_) (by omega) (by omega)
    rw [Neighbours.scan, if_pos (by omega)]
    congr 2
    omega
  rwa [show 2 * nt - 1 - lo + 1 = 2 * nt - lo by omega] at hwrote

theorem copyTop_wrote {p : Prop} (h : lo + len ≤ 2 * nt) :
    ∃ b', copyTop nb nt lo len b = some b' ∧
      Wrote (2 * nt + 1 + lo) (2 * nt + 1 + lo + len) p (nb.scan nt) b b' := by
  refine storeUp_wrote (fun k hk => ?_) (by omega)
  rw [Neighbours.scan, if_neg (by omega), if_neg (by omega)]
  congr 2
  omega

theorem topLeft_wrote {p : Prop} {v : α} (h : p → v = nb.pu1TopLeft) :
    ∃ b', store (4 * nt + 1) b ((2 * nt : Nat) : Int) v = some b' ∧
      Wrote (2 * nt) (2 * nt + 1) p (nb.scan nt) b b' := by
  refine ⟨_, if_pos (by omega), fun hp i hlo hhi => ?_, fun i hi => if_neg (by omega)⟩
  obtain rfl : i = 2 * nt := by omega
  rw [if_pos (by omega), h hp, Neighbours.scan, if_neg (by omega), if_pos rfl]

theorem topLeftOrZero_wrote [OfNat α 0] : ∃ b', topLeftOrZero nb nt avail b = some b' ∧
    Wrote (2 * nt) (2 * nt + 1) (avail = true) (nb.scan nt) b b' :=
  topLeft_wrote nb nt b fun h => if_pos h

theorem leftOrZero_wrote [OfNat α 0] (h : lo + len ≤ 2 * nt) (hlo : lo < 2 * nt) :
    ∃ b', leftOrZero nb nt avail lo len b = some b' ∧
      Wrote (2 * nt - lo - len) (2 * nt - lo) (avail = true) (nb.scan nt) b b' := by
  cases avail with
  | true => exact copyLeft_wrote nb nt lo len b h hlo
  | false =>
    have hwrote : ∃ b', leftOrZero nb nt false lo len b = some b' ∧
        Wrote (2 * nt - lo - len) (2 * nt - lo - len + len) (false = true) (nb.scan nt) b b' :=
      fill_wrote (by decide) (by omega)
    rwa [Nat.sub_add_cancel (by omega)] at hwrote

theorem topOrZero_wrote [OfNat α 0] (h : lo + len ≤ 2 * nt) :
    ∃ b', topOrZero nb nt avail lo len b = some b' ∧
      Wrote (2 * nt + 1 + lo) (2 * nt + 1 + lo + len) (avail = true) (nb.scan nt) b b' := by
  cases avail with
  | true => exact copyTop_wrote nb nt lo len b h
  | false => exact fill_wrote (by decide) (by omega)

theorem topLeftIf_wrote : ∃ b', topLeftIf nb nt avail b = some b' ∧
    Wrote (2 * nt) (2 * nt + 1) (avail = true) (nb.scan nt) b b' := by
  cases avail with
  | true => exact topLeft_wrote nb nt b fun _ => rfl
  | false => exact ⟨b, rfl, Wrote.skip (by decide)⟩

theorem leftIf_wrote (h : lo + len ≤ 2 * nt) (hlo : lo < 2 * nt) :
    ∃ b', leftIf nb nt avail lo len b = some b' ∧
      Wrote (2 * nt - lo - len) (2 * nt - lo) (avail = true) (nb.scan nt) b b' := by
  cases avail with
  | true => exact copyLeft_wrote nb nt lo len b h hlo
  | false => exact ⟨b, rfl, Wrote.skip (by decide)⟩

theorem topIf_wrote (h : lo + len ≤ 2 * nt) :
    ∃ b', topIf nb nt avail lo len b = some b' ∧
      Wrote (2 * nt + 1 + lo) (2 * nt + 1 + lo + len) (avail = true) (nb.scan nt) b b' := by
  cases avail with
  | true => exact copyTop_wrote nb nt lo len b h
  | false => exact ⟨b, rfl, Wrote.skip (by decide)⟩

end Copies

/-- The available samples from `lo` to `hi` are in place. -/
def Copied (nb : Neighbours α) (unit nt flags lo hi : Nat) (b : Cells α) : Prop :=
  ∀ i, lo ≤ i → i < hi → nbrAvail unit nt flags i → b i = some (nb.scan nt i)

section Copied

variable {nb : Neighbours α} {unit lo lo' hi hi' mask : Nat} {b b' : Cells α}

theorem Copied.empty : Copied nb unit nt flags hi hi b := by
  intro i hlo hhi
  omega

theorem Copied.below (h : Copied nb unit nt flags lo hi b)
    (hw : Wrote lo' lo (flagOf flags mask = true) (nb.scan nt) b b')
    (hm : ∀ i < lo, lo' ≤ i → mask.testBit (nbrFlagIdx unit nt i) = true) :
    Copied nb unit nt flags lo' hi b' := by
  intro i hlo hhi hav
  by_cases hlt : i < lo
  · exact hw.cell (flagOf_of_testBit hav (hm i hlt hlo)) i hlo hlt
  · rw [hw.frame i (by omega), h i (by omega) hhi hav]

theorem Copied.above (h : Copied nb unit nt flags lo hi b)
    (hw : Wrote hi hi' (flagOf flags mask = true) (nb.scan nt) b b')
    (hm : ∀ i < hi', hi ≤ i → mask.testBit (nbrFlagIdx unit nt i) = true) :
    Copied nb unit nt flags lo hi' b' := by
  intro i hlo hhi hav
  by_cases hlt : i < hi
  · rw [hw.frame i (by omega), h i hlo hlt hav]
  · exact hw.cell (flagOf_of_testBit hav (hm i hhi (by omega))) i (by omega) hhi

end Copied

-- ---------------------------------------------------------------------------
-- The flags of the three sizes
-- ---------------------------------------------------------------------------

theorem sideFlags_of_le (h : nt ≤ unit) : SideFlags nt flags (nbrAvail unit nt flags) := by
  have hdiv : ∀ x < nt, x / unit = 0 := fun x hx => Nat.div_eq_of_lt (by omega)
  refine ⟨fun i hi => ?_, fun i hlo hhi => ?_, ?_, fun i hlo hhi => ?_, fun i hlo hhi => ?_⟩
  · rw [nbrAvail, nbrFlagIdx, if_pos hi, hdiv _ (by omega)]
  · rw [nbrAvail, nbrFlagIdx, if_neg (by omega), if_pos hhi, hdiv _ (by omega)]
  · rw [nbrAvail, nbrFlagIdx, if_neg (by omega), if_neg (by omega), if_pos rfl]
  · rw [nbrAvail, nbrFlagIdx, if_neg (by omega), if_neg (by omega), if_neg (by omega), if_pos hhi,
      hdiv _ (by omega)]
  · rw [nbrAvail, nbrFlagIdx, if_neg (by omega), if_neg (by omega), if_neg (by omega),
      if_neg (by omega), hdiv _ (by omega)]

theorem unitFlags_eight (h : unit = 4 ∨ unit = 8) :
    UnitFlags 8 unit flags (nbrAvail unit (4 * unit) flags) := by
  refine ⟨⟨.inr rfl, h⟩, fun i hi => ?_, ?_, fun i hlo hhi => ?_⟩
  · refine congrArg flags.testBit ?_
    rcases h with rfl | rfl <;> unfold nbrFlagIdx <;> split_ifs <;> omega
  · refine congrArg flags.testBit ?_
    rcases h with rfl | rfl <;> rfl
  · refine congrArg flags.testBit ?_
    rcases h with rfl | rfl <;> unfold nbrFlagIdx <;> split_ifs <;> omega

/-- The flag of `nbrFlags` that is bit `k` of `nbrFlagsTemp`. -/
def tempIdx (k : Nat) : Nat :=
  if k < 2 then k + 2 else if k < 6 then k + 4 else if k < 8 then k + 6 else 16

theorem nbrFlagsTemp_eq : nbrFlagsTemp flags =
    (flags.testBit 2).toNat + 2 * (flags.testBit 3).toNat + 4 * (flags.testBit 6).toNat +
      8 * (flags.testBit 7).toNat + 16 * (flags.testBit 8).toNat + 32 * (flags.testBit 9).toNat +
      64 * (flags.testBit 12).toNat + 128 * (flags.testBit 13).toNat +
      256 * (flags.testBit 16).toNat := by
  have hand : ∀ m, flags &&& 2 ^ m = (flags.testBit m).toNat * 2 ^ m := Nat.and_two_pow flags
  have hor : ∀ m k, flags &&& (2 ^ m ||| 2 ^ k) =
      (flags.testBit m).toNat * 2 ^ m ||| (flags.testBit k).toNat * 2 ^ k := by
    intro m k
    rw [Nat.and_or_distrib_left, hand, hand]
  have h1 : (flags &&& 0xC) >>> 2 = (flags.testBit 2).toNat + 2 * (flags.testBit 3).toNat := by
    rw [show 0xC = 2 ^ 2 ||| 2 ^ 3 by decide, hor]
    cases flags.testBit 2 <;> cases flags.testBit 3 <;> rfl
  have h2 : (flags &&& 0xC0) >>> 4 = 4 * (flags.testBit 6).toNat + 8 * (flags.testBit 7).toNat := by
    rw [show 0xC0 = 2 ^ 6 ||| 2 ^ 7 by decide, hor]
    cases flags.testBit 6 <;> cases flags.testBit 7 <;> rfl
  have h3 : (flags &&& 0x300) >>> 4 =
      16 * (flags.testBit 8).toNat + 32 * (flags.testBit 9).toNat := by
    rw [show 0x300 = 2 ^ 8 ||| 2 ^ 9 by decide, hor]
    cases flags.testBit 8 <;> cases flags.testBit 9 <;> rfl
  have h4 : (flags &&& 0x3000) >>> 6 =
      64 * (flags.testBit 12).toNat + 128 * (flags.testBit 13).toNat := by
    rw [show 0x3000 = 2 ^ 12 ||| 2 ^ 13 by decide, hor]
    cases flags.testBit 12 <;> cases flags.testBit 13 <;> rfl
  have h5 : (flags &&& 0x10000) >>> 8 = 256 * (flags.testBit 16).toNat := by
    rw [show 0x10000 = 2 ^ 16 by decide, hand]
    cases flags.testBit 16 <;> rfl
  rw [nbrFlagsTemp, h1, h2, h3, h4, h5]
  omega

theorem testBit_of_div {x : Nat} {c : Bool} (h : x / 2 ^ k % 2 = c.toNat) : x.testBit k = c := by
  rw [Nat.testBit_eq_decide_div_mod_eq, h]
  cases c <;> rfl

theorem nbrFlagsTemp_testBit (hk : k < 9) :
    (nbrFlagsTemp flags).testBit k = flags.testBit (tempIdx k) := by
  have hle : ∀ m, (flags.testBit m).toNat ≤ 1 := fun m => Bool.toNat_le _
  have h2 := hle 2
  have h3 := hle 3
  have h6 := hle 6
  have h7 := hle 7
  have h8 := hle 8
  have h9 := hle 9
  have h12 := hle 12
  have h13 := hle 13
  have h16 := hle 16
  refine testBit_of_div ?_
  rw [nbrFlagsTemp_eq]
  interval_cases k <;> simp only [tempIdx] <;> norm_num <;> omega

theorem unitFlags_four (h : unit = 4 ∨ unit = 8) :
    UnitFlags 4 unit (nbrFlagsTemp flags) (nbrAvail unit (2 * unit) flags) := by
  refine ⟨⟨.inl rfl, h⟩, fun i hi => ?_, ?_, fun i hlo hhi => ?_⟩
  · rw [nbrFlagsTemp_testBit (by rcases h with rfl | rfl <;> omega)]
    refine congrArg flags.testBit ?_
    rcases h with rfl | rfl <;> unfold nbrFlagIdx tempIdx <;> split_ifs <;> omega
  · rw [nbrFlagsTemp_testBit (by decide)]
    refine congrArg flags.testBit ?_
    rcases h with rfl | rfl <;> rfl
  · rw [nbrFlagsTemp_testBit (by rcases h with rfl | rfl <;> omega)]
    refine congrArg flags.testBit ?_
    rcases h with rfl | rfl <;> unfold nbrFlagIdx tempIdx <;> split_ifs <;> omega

-- ---------------------------------------------------------------------------
-- The two functions
-- ---------------------------------------------------------------------------

/-- The substituted samples in the order of the array, when the flags mark some of them. -/
def refSamples (dc : α) (nb : Neighbours α) (unit nt flags : Nat) : Nat → α :=
  substituted (4 * nt + 1) dc (nbrAvail unit nt flags) (nb.scan nt)

/-- The word is 0, or it marks a sample of the block's neighbours. -/
def FlagsOk (unit nt flags : Nat) : Prop :=
  flags = 0 ∨ ∃ i < 4 * nt + 1, nbrAvail unit nt flags i

theorem FlagsOk.some (h : FlagsOk unit nt flags) (hne : flags ≠ 0) :
    ∃ i < 4 * nt + 1, nbrAvail unit nt flags i := h.resolve_left hne

theorem fill_dc {dc : α} {nb : Neighbours α} {unit : Nat} (hzero : flags = 0) :
    ∃ b, fill (4 * nt + 1) fresh 0 dc (4 * nt + 1) = some b ∧
      ∀ i < 4 * nt + 1, b i = some (refSamples dc nb unit nt flags i) := by
  have hfill : fill (4 * nt + 1) (fresh : Cells α) ((0 : Nat) : Int) dc (4 * nt + 1) = _ :=
    fill_eq (by omega)
  refine ⟨_, hfill, fun i hi => ?_⟩
  rw [if_pos (by omega), refSamples, substituted_none]
  intro j _
  simp [nbrAvail, hzero]

theorem lumaSides_spec (nb : Neighbours Int) (hnt : nt = 4 ∨ nt = 8) (hflags : FlagsOk 8 nt flags)
    (hne : flags ≠ 0) :
    ∃ b, ihevcIntraPredLumaRefSubstitution nb nt flags = some b ∧
      ∀ i < 4 * nt + 1, b i = some (refSamples 128 nb 8 nt flags i) := by
  have hle : nt ≤ 8 := by omega
  obtain ⟨b₁, e₁, w₁⟩ := topLeftOrZero_wrote nb nt (flagOf flags 0x10000) fresh
  obtain ⟨b₂, e₂, w₂⟩ :=
    leftOrZero_wrote nb nt (flagOf flags 0x80) 0 nt b₁ (by omega) (by omega)
  obtain ⟨b₃, e₃, w₃⟩ :=
    leftOrZero_wrote nb nt (flagOf flags 0x8) nt nt b₂ (by omega) (by omega)
  obtain ⟨b₄, e₄, w₄⟩ := topOrZero_wrote nb nt (flagOf flags 0x100) 0 nt b₃ (by omega)
  obtain ⟨b₅, e₅, w₅⟩ := topOrZero_wrote nb nt (flagOf flags 0x1000) nt nt b₄ (by omega)
  have h₅ : Copied nb 8 nt flags 0 (4 * nt + 1) b₅ := by
    rcases hnt with rfl | rfl
    · have h₁ : Copied nb 8 4 flags 8 9 b₁ := Copied.empty.above w₁ (by decide)
      have h₂ : Copied nb 8 4 flags 4 9 b₂ := h₁.below w₂ (by decide)
      have h₃ : Copied nb 8 4 flags 0 9 b₃ := h₂.below w₃ (by decide)
      have h₄ : Copied nb 8 4 flags 0 13 b₄ := h₃.above w₄ (by decide)
      exact h₄.above w₅ (by decide)
    · have h₁ : Copied nb 8 8 flags 16 17 b₁ := Copied.empty.above w₁ (by decide)
      have h₂ : Copied nb 8 8 flags 8 17 b₂ := h₁.below w₂ (by decide)
      have h₃ : Copied nb 8 8 flags 0 17 b₃ := h₂.below w₃ (by decide)
      have h₄ : Copied nb 8 8 flags 0 25 b₄ := h₃.above w₄ (by decide)
      exact h₄.above w₅ (by decide)
  obtain ⟨b₆, e₆, h₆⟩ := substSides_spec 128 (sideFlags_of_le hle) (by omega) (hflags.some hne)
    fun i hi => h₅ i (Nat.zero_le i) hi
  refine ⟨b₆, ?_, h₆⟩
  simp [ihevcIntraPredLumaRefSubstitution, hne, hle, e₁, e₂, e₃, e₄, e₅, e₆]

theorem luma16_spec (nb : Neighbours Int) (hflags : FlagsOk 8 16 flags) (hne : flags ≠ 0) :
    ∃ b, ihevcIntraPredLumaRefSubstitution nb 16 flags = some b ∧
      ∀ i < 65, b i = some (refSamples 128 nb 8 16 flags i) := by
  obtain ⟨b₁, e₁, w₁⟩ := topLeftOrZero_wrote nb 16 (flagOf flags 0x10000) fresh
  obtain ⟨b₂, e₂, w₂⟩ :=
    leftOrZero_wrote nb 16 (flagOf flags 0xC0) 0 16 b₁ (by decide) (by decide)
  obtain ⟨b₃, e₃, w₃⟩ :=
    leftOrZero_wrote nb 16 (flagOf flags 0x8) 16 8 b₂ (by decide) (by decide)
  obtain ⟨b₄, e₄, w₄⟩ :=
    leftOrZero_wrote nb 16 (flagOf flags 0x4) 24 8 b₃ (by decide) (by decide)
  obtain ⟨b₅, e₅, w₅⟩ := topOrZero_wrote nb 16 (flagOf flags 0x300) 0 16 b₄ (by decide)
  obtain ⟨b₆, e₆, w₆⟩ := topOrZero_wrote nb 16 (flagOf flags 0x3000) 16 16 b₅ (by decide)
  have h₁ : Copied nb 8 16 flags 32 33 b₁ := Copied.empty.above w₁ (by decide)
  have h₂ : Copied nb 8 16 flags 16 33 b₂ := h₁.below w₂ (by decide)
  have h₃ : Copied nb 8 16 flags 8 33 b₃ := h₂.below w₃ (by decide)
  have h₄ : Copied nb 8 16 flags 0 33 b₄ := h₃.below w₄ (by decide)
  have h₅ : Copied nb 8 16 flags 0 49 b₅ := h₄.above w₅ (by decide)
  have h₆ : Copied nb 8 16 flags 0 65 b₆ := h₅.above w₆ (by decide)
  obtain ⟨b₇, e₇, h₇⟩ := substUnits_spec 128 3 (unitFlags_four (.inr rfl)) rfl
    (hflags.some hne) fun i hi => h₆ i (Nat.zero_le i) hi
  refine ⟨b₇, ?_, h₇⟩
  simp [ihevcIntraPredLumaRefSubstitution, hne, e₁, e₂, e₃, e₄, e₅, e₆, e₇]

theorem luma32_spec (nb : Neighbours Int) (hflags : FlagsOk 8 32 flags) (hne : flags ≠ 0) :
    ∃ b, ihevcIntraPredLumaRefSubstitution nb 32 flags = some b ∧
      ∀ i < 129, b i = some (refSamples 128 nb 8 32 flags i) := by
  obtain ⟨b₁, e₁, w₁⟩ := topLeftOrZero_wrote nb 32 (flagOf flags 0x10000) fresh
  obtain ⟨b₂, e₂, w₂⟩ :=
    leftOrZero_wrote nb 32 (flagOf flags 0xF0) 0 32 b₁ (by decide) (by decide)
  obtain ⟨b₃, e₃, w₃⟩ :=
    leftOrZero_wrote nb 32 (flagOf flags 0x8) 32 8 b₂ (by decide) (by decide)
  obtain ⟨b₄, e₄, w₄⟩ :=
    leftOrZero_wrote nb 32 (flagOf flags 0x4) 40 8 b₃ (by decide) (by decide)
  obtain ⟨b₅, e₅, w₅⟩ :=
    leftOrZero_wrote nb 32 (flagOf flags 0x2) 48 8 b₄ (by decide) (by decide)
  obtain ⟨b₆, e₆, w₆⟩ :=
    leftOrZero_wrote nb 32 (flagOf flags 0x1) 56 8 b₅ (by decide) (by decide)
  obtain ⟨b₇, e₇, w₇⟩ := topOrZero_wrote nb 32 (flagOf flags 0xF00) 0 32 b₆ (by decide)
  obtain ⟨b₈, e₈, w₈⟩ := topOrZero_wrote nb 32 (flagOf flags 0xF000) 32 32 b₇ (by decide)
  have h₁ : Copied nb 8 32 flags 64 65 b₁ := Copied.empty.above w₁ (by decide)
  have h₂ : Copied nb 8 32 flags 32 65 b₂ := h₁.below w₂ (by decide)
  have h₃ : Copied nb 8 32 flags 24 65 b₃ := h₂.below w₃ (by decide)
  have h₄ : Copied nb 8 32 flags 16 65 b₄ := h₃.below w₄ (by decide)
  have h₅ : Copied nb 8 32 flags 8 65 b₅ := h₄.below w₅ (by decide)
  have h₆ : Copied nb 8 32 flags 0 65 b₆ := h₅.below w₆ (by decide)
  have h₇ : Copied nb 8 32 flags 0 97 b₇ := h₆.above w₇ (by decide)
  have h₈ : Copied nb 8 32 flags 0 129 b₈ := h₇.above w₈ (by decide)
  obtain ⟨b₉, e₉, h₉⟩ := substUnits_spec 128 3 (unitFlags_eight (.inr rfl)) rfl
    (hflags.some hne) fun i hi => h₈ i (Nat.zero_le i) hi
  refine ⟨b₉, ?_, h₉⟩
  simp [ihevcIntraPredLumaRefSubstitution, hne, e₁, e₂, e₃, e₄, e₅, e₆, e₇, e₈, e₉]

theorem ihevcIntraPredLumaRefSubstitution_spec (nb : Neighbours Int)
    (hnt : nt = 4 ∨ nt = 8 ∨ nt = 16 ∨ nt = 32) (hflags : FlagsOk 8 nt flags) :
    ∃ b, ihevcIntraPredLumaRefSubstitution nb nt flags = some b ∧
      ∀ i < 4 * nt + 1, b i = some (refSamples 128 nb 8 nt flags i) := by
  by_cases hzero : flags = 0
  · rw [ihevcIntraPredLumaRefSubstitution, if_pos hzero]
    exact fill_dc hzero
  · rcases hnt with rfl | rfl | rfl | rfl
    · exact lumaSides_spec nb (.inl rfl) hflags hzero
    · exact lumaSides_spec nb (.inr rfl) hflags hzero
    · exact luma16_spec nb hflags hzero
    · exact luma32_spec nb hflags hzero

/-- The samples of a flag in chroma: all 8 of luma when it is not subsampled. -/
def ChromaFmt.unit (fmt : ChromaFmt) : Nat := if fmt = .yuv444 then 8 else 4

/-- The sizes of chroma blocks. -/
def ChromaFmt.Size (fmt : ChromaFmt) (nt : Nat) : Prop :=
  nt = 4 ∨ nt = 8 ∨ nt = 16 ∨ fmt = .yuv444 ∧ nt = 32

theorem ChromaFmt.Size.le (h : ChromaFmt.Size fmt nt) : nt ≤ 4 * fmt.unit := by
  rcases h with rfl | rfl | rfl | ⟨rfl, rfl⟩
  · cases fmt <;> decide
  · cases fmt <;> decide
  · cases fmt <;> decide
  · decide

/-- The four flags of a side are in its mask. -/
theorem sideMask (h : nt ≤ 4 * unit) (i : Nat) :
    (i < nt → (0xf).testBit (nbrFlagIdx unit nt i) = true) ∧
      (i < 2 * nt → nt ≤ i → (0xf0).testBit (nbrFlagIdx unit nt i) = true) ∧
      (i < 3 * nt + 1 → 2 * nt + 1 ≤ i → (0xf00).testBit (nbrFlagIdx unit nt i) = true) ∧
      (i < 4 * nt + 1 → 3 * nt + 1 ≤ i → (0xf000).testBit (nbrFlagIdx unit nt i) = true) := by
  have hdiv : ∀ x < nt, x / unit < 4 := fun x hx =>
    Nat.div_lt_of_lt_mul (by rw [Nat.mul_comm]; omega)
  have hset : ∀ d < 4, (0xf).testBit (3 - d) ∧ (0xf0).testBit (7 - d) ∧ (0xf00).testBit (8 + d) ∧
      (0xf000).testBit (12 + d) := by decide
  refine ⟨fun hi => ?_, fun hi hlo => ?_, fun hi hlo => ?_, fun hi hlo => ?_⟩
  · rw [nbrFlagIdx, if_pos hi]
    exact (hset _ (hdiv _ (by omega))).1
  · rw [nbrFlagIdx, if_neg (by omega), if_pos hi]
    exact (hset _ (hdiv _ (by omega))).2.1
  · rw [nbrFlagIdx, if_neg (by omega), if_neg (by omega), if_neg (by omega), if_pos hi]
    exact (hset _ (hdiv _ (by omega))).2.2.1
  · rw [nbrFlagIdx, if_neg (by omega), if_neg (by omega), if_neg (by omega), if_neg (by omega)]
    exact (hset _ (hdiv _ (by omega))).2.2.2

theorem copyChroma_spec (nb : Neighbours (Int × Int)) (h : nt ≤ 4 * unit) (hnt : 0 < nt) :
    ∃ b, copyChroma nb nt flags = some b ∧ Copied nb unit nt flags 0 (4 * nt + 1) b := by
  have hmask := sideMask h
  obtain ⟨b₁, e₁, w₁⟩ := topLeftIf_wrote nb nt (flagOf flags 0x10000) fresh
  obtain ⟨b₂, e₂, w₂⟩ := leftIf_wrote nb nt (flagOf flags 0xf0) 0 nt b₁ (by omega) (by omega)
  obtain ⟨b₃, e₃, w₃⟩ := leftIf_wrote nb nt (flagOf flags 0xf) nt nt b₂ (by omega) (by omega)
  obtain ⟨b₄, e₄, w₄⟩ := topIf_wrote nb nt (flagOf flags 0xf00) 0 nt b₃ (by omega)
  obtain ⟨b₅, e₅, w₅⟩ := topIf_wrote nb nt (flagOf flags 0xf000) nt nt b₄ (by omega)
  rw [Nat.sub_zero, show 2 * nt - nt = nt by omega] at w₂
  rw [show 2 * nt - nt = nt by omega, Nat.sub_self] at w₃
  rw [Nat.add_zero, show 2 * nt + 1 + nt = 3 * nt + 1 by omega] at w₄
  rw [show 2 * nt + 1 + nt = 3 * nt + 1 by omega, show 3 * nt + 1 + nt = 4 * nt + 1 by omega] at w₅
  have h₁ : Copied nb unit nt flags (2 * nt) (2 * nt + 1) b₁ := by
    refine Copied.empty.above w₁ fun i hi hlo => ?_
    rw [nbrFlagIdx, if_neg (by omega), if_neg (by omega), if_pos (by omega)]
    rfl
  have h₂ := h₁.below w₂ fun i hi => (hmask i).2.1 hi
  have h₃ := h₂.below w₃ fun i hi _ => (hmask i).1 hi
  have h₄ := h₃.above w₄ fun i hi => (hmask i).2.2.1 hi
  refine ⟨b₅, ?_, h₄.above w₅ fun i hi => (hmask i).2.2.2 hi⟩
  simp [copyChroma, e₁, e₂, e₃, e₄, e₅]

theorem ihevcIntraPredChromaRefSubstitution_pairs (nb : Neighbours (Int × Int))
    (fmt : ChromaFmt) (hnt : fmt.Size nt) (hflags : FlagsOk fmt.unit nt flags) :
    ∃ b, ihevcIntraPredChromaRefSubstitution nb nt flags fmt = some b ∧
      ∀ i < 4 * nt + 1, b i = some (refSamples (128, 128) nb fmt.unit nt flags i) := by
  by_cases hzero : flags = 0
  · rw [ihevcIntraPredChromaRefSubstitution, if_pos hzero]
    exact fill_dc hzero
  have hpos : 0 < nt := by unfold ChromaFmt.Size at hnt; omega
  have hsome := hflags.some hzero
  obtain ⟨b₁, e₁, h₁⟩ := copyChroma_spec nb hnt.le hpos
  have hin := fun i hi => h₁ i (Nat.zero_le i) hi
  rw [ihevcIntraPredChromaRefSubstitution, if_neg hzero, e₁]
  simp only [Option.bind_eq_bind, Option.bind_some]
  have hsides : nt ≤ fmt.unit → ∃ b, substSides nt flags b₁ = some b ∧
      ∀ i < 4 * nt + 1, b i = some (refSamples (128, 128) nb fmt.unit nt flags i) :=
    fun hle => substSides_spec (128, 128) (sideFlags_of_le hle) hpos hsome hin
  rcases hnt with rfl | rfl | rfl | ⟨rfl, rfl⟩
  · rw [if_pos (.inl rfl)]
    exact hsides (by cases fmt <;> decide)
  · by_cases hfmt : fmt = .yuv444
    · subst hfmt
      rw [if_pos (.inr ⟨rfl, rfl⟩)]
      exact hsides (by decide)
    · have hunit : fmt.unit = 4 := if_neg hfmt
      rw [hunit] at hsome hin ⊢
      rw [if_neg (by simp [hfmt]), if_pos (.inl rfl), if_neg hfmt]
      exact substUnits_spec (128, 128) 2 (unitFlags_four (.inl rfl)) rfl hsome hin
  · by_cases hfmt : fmt = .yuv444
    · subst hfmt
      rw [if_neg (by decide), if_pos (.inr ⟨rfl, rfl⟩), if_pos rfl]
      exact substUnits_spec (128, 128) 3 (unitFlags_four (.inr rfl)) rfl hsome hin
    · have hunit : fmt.unit = 4 := if_neg hfmt
      rw [hunit] at hsome hin ⊢
      rw [if_neg (by simp), if_neg (by simp [hfmt]), if_pos (.inl rfl), if_neg hfmt]
      exact substUnits_spec (128, 128) 2 (unitFlags_eight (.inl rfl)) rfl hsome hin
  · rw [if_neg (by decide), if_neg (by decide), if_pos (.inr ⟨rfl, rfl⟩), if_pos rfl]
    exact substUnits_spec (128, 128) 3 (unitFlags_eight (.inr rfl)) rfl hsome hin

def Neighbours.map (g : α → β) (nb : Neighbours α) : Neighbours β where
  pu1Left i := g (nb.pu1Left i)
  pu1TopLeft := g nb.pu1TopLeft
  pu1Top i := g (nb.pu1Top i)

theorem Neighbours.scan_map (g : α → β) (nb : Neighbours α) :
    (nb.map g).scan nt i = g (nb.scan nt i) := by
  simp only [Neighbours.scan, Neighbours.map, apply_ite g]

theorem refSamples_map (g : α → β) (dc : α) (nb : Neighbours α) :
    g (refSamples dc nb unit nt flags i) = refSamples (g dc) (nb.map g) unit nt flags i := by
  rw [refSamples, substituted_map g, refSamples, funext fun j => (Neighbours.scan_map g nb).symm]

/-- Each component of chroma is substituted as luma is. -/
theorem ihevcIntraPredChromaRefSubstitution_spec (nb : Neighbours (Int × Int))
    (fmt : ChromaFmt) (hnt : fmt.Size nt) (hflags : FlagsOk fmt.unit nt flags) :
    ∃ b, ihevcIntraPredChromaRefSubstitution nb nt flags fmt = some b ∧
      ∀ i < 4 * nt + 1, b i = some (refSamples 128 (nb.map Prod.fst) fmt.unit nt flags i,
        refSamples 128 (nb.map Prod.snd) fmt.unit nt flags i) := by
  obtain ⟨b, hb, hcells⟩ := ihevcIntraPredChromaRefSubstitution_pairs nb fmt hnt hflags
  refine ⟨b, hb, fun i hi => ?_⟩
  rw [hcells i hi, ← refSamples_map Prod.fst (128, 128) nb, ← refSamples_map Prod.snd (128, 128) nb]

end Libhevc.IntraPred
