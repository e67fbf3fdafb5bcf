import Libhevc.Common.DpbMgr

/-!
# The display manager

`ihevc_disp_mgr.c`: an array of slots, one for each picture buffer, in no order.
A slot is empty when its picture order count is `DEFAULT_POC`.
-/

namespace Libhevc

open Memory

def dispMgrMaxCnt : Nat := 64

def defaultPoc : Int := 0x7FFFFFFF

/-- `disp_mgr_t`; a pointer is the number of a picture. -/
structure DispMgr where
  ai4AbsPoc : Nat → Int
  apvPtr : Nat → Option Nat

def ihevcDispMgrInit : DispMgr :=
  { ai4AbsPoc := fun _ => defaultPoc, apvPtr := fun _ => none }

def ihevcDispMgrAdd (d : DispMgr) (bufId : Nat) (absPoc : Int) (ptr : Nat) : Int × DispMgr :=
  if dispMgrMaxCnt ≤ bufId then (-1, d)
  else if d.apvPtr bufId ≠ none then (-1, d)
  else
    (0, { ai4AbsPoc := set d.ai4AbsPoc bufId absPoc, apvPtr := set d.apvPtr bufId (some ptr) })

/-- The loop of `ihevc_disp_mgr_get` over the first slots: the least count and its slot. -/
def minPoc (d : DispMgr) : Nat → Int × Option Nat
  | 0 => (0x7FFFFFFF, none)
  | id + 1 =>
    let best := minPoc d id
    if d.ai4AbsPoc id ≠ defaultPoc ∧ d.ai4AbsPoc id ≤ best.1 then (d.ai4AbsPoc id, some id)
    else best

/-- The picture and its slot. -/
def ihevcDispMgrGet (d : DispMgr) : Option (Option Nat × Nat) × DispMgr :=
  match (minPoc d dispMgrMaxCnt).2 with
  | none => (none, d)
  | some id =>
    (some (d.apvPtr id, id),
      { ai4AbsPoc := set d.ai4AbsPoc id defaultPoc, apvPtr := set d.apvPtr id none })

-- ---------------------------------------------------------------------------
-- The pictures that wait
-- ---------------------------------------------------------------------------

/-- The pictures with the buffers `waiting` wait, each with its count. -/
structure DispMgr.Waits (d : DispMgr) (pocs : Nat → Int) (waiting : List Nat) : Prop where
  mem : ∀ i < dispMgrMaxCnt, i ∈ waiting ↔ d.ai4AbsPoc i ≠ defaultPoc
  bound : ∀ i ∈ waiting, i < dispMgrMaxCnt
  nodup : waiting.Nodup
  poc : ∀ i ∈ waiting, d.ai4AbsPoc i = pocs i
  lt : ∀ i ∈ waiting, pocs i < defaultPoc
  ptr : ∀ i < dispMgrMaxCnt, d.apvPtr i = if i ∈ waiting then some i else none

theorem ihevcDispMgrInit_waits : ihevcDispMgrInit.Waits pocs [] where
  mem := fun _ _ => iff_of_false (fun h => nomatch h) (fun h => h rfl)
  bound := fun _ h => nomatch h
  nodup := .nil
  poc := fun _ h => nomatch h
  lt := fun _ h => nomatch h
  ptr := fun _ _ => rfl

theorem DispMgr.Waits.add {d : DispMgr} (h : d.Waits pocs waiting) (hid : bufId < dispMgrMaxCnt)
    (hnew : bufId ∉ waiting) (hpoc : absPoc < defaultPoc) :
    (ihevcDispMgrAdd d bufId absPoc bufId).2.Waits (set pocs bufId absPoc) (bufId :: waiting) := by
  have hempty : d.apvPtr bufId = none := by
    rw [h.ptr bufId hid, if_neg hnew]
  have hold : ∀ i ∈ waiting, i ≠ bufId := by
    rintro i hi rfl
    exact hnew hi
  rw [ihevcDispMgrAdd, if_neg (Nat.not_le.mpr hid), if_neg (not_not.mpr hempty)]
  constructor
  · intro i hi
    by_cases hsame : i = bufId
    · subst hsame
      simpa using hpoc.ne
    · simp [hsame, set_ne hsame, h.mem i hi]
  · exact List.forall_mem_cons.mpr ⟨hid, h.bound⟩
  · exact List.nodup_cons.mpr ⟨hnew, h.nodup⟩
  · refine List.forall_mem_cons.mpr ⟨by simp, fun i hi => ?_⟩
    simpa [set_ne (hold i hi)] using h.poc i hi
  · refine List.forall_mem_cons.mpr ⟨by simpa using hpoc, fun i hi => ?_⟩
    simpa [set_ne (hold i hi)] using h.lt i hi
  · intro i hi
    by_cases hsame : i = bufId
    · subst hsame
      simp
    · simpa [hsame, set_ne hsame] using h.ptr i hi

/-- A count that is not stored for any buffer that waits does not matter. -/
theorem DispMgr.Waits.congr {d : DispMgr} (h : d.Waits pocs waiting)
    (hpocs : ∀ i ∈ waiting, pocs' i = pocs i) : d.Waits pocs' waiting :=
  { h with
    poc := fun i hi => (h.poc i hi).trans (hpocs i hi).symm
    lt := fun i hi => (hpocs i hi).symm ▸ h.lt i hi }

theorem minPoc_spec (d : DispMgr) (hmax : ∀ i < n, d.ai4AbsPoc i ≤ defaultPoc) :
    match minPoc d n with
    | (least, none) => least = defaultPoc ∧ ∀ i < n, d.ai4AbsPoc i = defaultPoc
    | (least, some slot) => slot < n ∧ d.ai4AbsPoc slot ≠ defaultPoc ∧
        least = d.ai4AbsPoc slot ∧ ∀ i < n, d.ai4AbsPoc i ≠ defaultPoc → least ≤ d.ai4AbsPoc i := by
  induction n with
  | zero => exact ⟨rfl, fun _ h => nomatch h⟩
  | succ n ih =>
    have ih := ih fun i hi => hmax i (Nat.lt_succ_of_lt hi)
    have hn := hmax n (Nat.lt_succ_self n)
    rw [minPoc]
    generalize minPoc d n = best at ih ⊢
    obtain ⟨least, slot⟩ := best
    dsimp only
    by_cases hless : d.ai4AbsPoc n ≠ defaultPoc ∧ d.ai4AbsPoc n ≤ least
    · rw [if_pos hless]
      refine ⟨Nat.lt_succ_self n, hless.1, rfl, fun i hi hne => ?_⟩
      rcases Nat.lt_succ_iff_lt_or_eq.mp hi with hi | rfl
      · cases slot with
        | none => exact absurd (ih.2 i hi) hne
        | some slot => exact hless.2.trans (ih.2.2.2 i hi hne)
      · exact Int.le_refl _
    · rw [if_neg hless]
      cases slot with
      | none =>
        obtain ⟨rfl, hall⟩ := ih
        refine ⟨rfl, fun i hi => ?_⟩
        rcases Nat.lt_succ_iff_lt_or_eq.mp hi with hi | rfl
        · exact hall i hi
        · exact not_not.mp fun hne => hless ⟨hne, hn⟩
      | some slot =>
        obtain ⟨hslot, hne, hleast, hall⟩ := ih
        refine ⟨Nat.lt_succ_of_lt hslot, hne, hleast, fun i hi hne' => ?_⟩
        rcases Nat.lt_succ_iff_lt_or_eq.mp hi with hi | rfl
        · exact hall i hi hne'
        · exact (Int.lt_of_not_ge fun hle => hless ⟨hne', hle⟩).le

/-- Nothing is put out when nothing waits; otherwise a picture of least count is. -/
theorem DispMgr.Waits.get {d : DispMgr} (h : d.Waits pocs waiting) :
    (ihevcDispMgrGet d = (none, d) ∧ waiting = []) ∨
      ∃ bufId ∈ waiting, (ihevcDispMgrGet d).1 = some (some bufId, bufId) ∧
        (∀ i ∈ waiting, pocs bufId ≤ pocs i) ∧
        (ihevcDispMgrGet d).2.Waits pocs (waiting.erase bufId) := by
  have hmax : ∀ i < dispMgrMaxCnt, d.ai4AbsPoc i ≤ defaultPoc := by
    intro i hi
    by_cases hw : i ∈ waiting
    · rw [h.poc i hw]
      exact (h.lt i hw).le
    · exact (not_not.mp fun hne => hw ((h.mem i hi).mpr hne)).le
  have hspec := minPoc_spec d hmax
  unfold ihevcDispMgrGet
  generalize minPoc d dispMgrMaxCnt = best at hspec ⊢
  obtain ⟨least, slot⟩ := best
  cases slot with
  | none =>
    refine .inl ⟨rfl, List.eq_nil_iff_forall_not_mem.mpr fun i hi => ?_⟩
    exact (h.mem i (h.bound i hi)).mp hi (hspec.2 i (h.bound i hi))
  | some slot =>
    obtain ⟨hslot, hne, rfl, hall⟩ := hspec
    have hw : slot ∈ waiting := (h.mem slot hslot).mpr hne
    have hmem : ∀ i, i ∈ waiting.erase slot ↔ i ≠ slot ∧ i ∈ waiting :=
      fun i => h.nodup.mem_erase_iff
    refine .inr ⟨slot, hw, ?_, fun i hi => ?_, ?_⟩
    · simp [h.ptr slot hslot, hw]
    · rw [← h.poc slot hw, ← h.poc i hi]
      exact hall i (h.bound i hi) ((h.mem i (h.bound i hi)).mp hi)
    · constructor
      · intro i hi
        rw [hmem]
        by_cases hsame : i = slot
        · subst hsame
          simp
        · simp [hsame, set_ne hsame, h.mem i hi]
      · exact fun i hi => h.bound i ((hmem i).mp hi).2
      · exact h.nodup.erase slot
      · intro i hi
        obtain ⟨hsame, hi⟩ := (hmem i).mp hi
        simpa [set_ne hsame] using h.poc i hi
      · exact fun i hi => h.lt i ((hmem i).mp hi).2
      · intro i hi
        by_cases hsame : i = slot
        · subst hsame
          simp [hmem]
        · simpa [hsame, set_ne hsame, hmem] using h.ptr i hi

end Libhevc
