import Libhevc.Encoder.SubGop
import Mathlib.Tactic.Linarith

/-!
# One sub-GOP

The pictures of a sub-GOP are B pictures and a last one, before which a P picture stands when it
is an IDR picture that ends a sub-GOP with B pictures.
-/

namespace Libhevc.Encoder

variable {c : GopCfg} {userI : Int} {k : GopCounters}

theorem i32_eq_emod (x : Int) : i32 x = (x + 2147483648) % 4294967296 - 2147483648 := rfl

-- ---------------------------------------------------------------------------
-- What is accepted
-- ---------------------------------------------------------------------------

/-- What the checks leave of the periods. `userI` is the period of I pictures before a period of 0
is replaced. -/
structure GopCfg.Accepted (c : GopCfg) (userI : Int) : Prop where
  sizes : (c.i4SubGopSize = 1 ∧ c.i4SubGopSizeIdr = 1) ∨
    (c.i4SubGopSize = 2 ∧ c.i4SubGopSizeIdr = 3) ∨
    (c.i4SubGopSize = 4 ∧ c.i4SubGopSizeIdr = 5) ∨ (c.i4SubGopSize = 8 ∧ c.i4SubGopSizeIdr = 9)
  fixedOpenGop : c.i4FixedOpenGopPeriod = 1
  fixedI : c.i4FixedIPeriod = 1
  idr : 0 ≤ c.i4MaxIdrPeriod ∧ c.i4MaxIdrPeriod < 2 ^ 30
  cra : 0 ≤ c.i4MaxCraPeriod ∧ c.i4MaxCraPeriod < 2 ^ 30
  intra : 0 ≤ c.i4MaxIPeriod ∧ c.i4MaxIPeriod < 2 ^ 31
  allIntra : c.i4MaxIdrPeriod = 1 ∨ c.i4MaxCraPeriod = 1 ∨ c.i4MaxIPeriod = 1 →
    c.i4SubGopSize = 1
  idrAligned : 1 < c.i4SubGopSize → c.i4MaxIdrPeriod ≠ 0 →
    c.i4MaxIdrPeriod % c.i4SubGopSize = 1 ∧ 1 < c.i4MaxIdrPeriod
  craAligned : c.i4MaxCraPeriod % c.i4SubGopSize = 0
  intraUser : userI ≠ 0 → c.i4MaxIPeriod = userI ∧ c.i4MaxIPeriod % c.i4SubGopSize = 0
  intraNone : userI = 0 → c.i4MaxIPeriod ≠ 0 →
    2 * c.i4MaxIdrPeriod ≤ c.i4MaxIPeriod ∧ 2 * c.i4MaxCraPeriod ≤ c.i4MaxIPeriod
  none : userI = 0 → c.i4MaxIdrPeriod = 0 → c.i4MaxCraPeriod = 0 → c.i4SubGopSize = 1

/-- The counters before a sub-GOP. -/
structure GopCounters.Inv (c : GopCfg) (userI : Int) (k : GopCounters) : Prop where
  idr : c.i4MaxIdrPeriod ≠ 0 → 0 ≤ k.i4IdrCounter ∧
    k.i4IdrCounter + c.i4SubGopSizeIdr ≤ c.i4MaxIdrPeriod ∧ k.i4IdrCounter % c.i4SubGopSize = 0
  cra : c.i4MaxCraPeriod ≠ 0 → 0 ≤ k.i4CraCounter ∧
    k.i4CraCounter + c.i4SubGopSize ≤ c.i4MaxCraPeriod ∧ k.i4CraCounter % c.i4SubGopSize = 0
  intra : userI ≠ 0 → 0 ≤ k.i4ICounter ∧
    k.i4ICounter + c.i4SubGopSize ≤ c.i4MaxIPeriod ∧ k.i4ICounter % c.i4SubGopSize = 0
  intraNone : userI = 0 → (c.i4MaxIPeriod ≠ 0 → k.i4ICounter < c.i4MaxIPeriod) ∧
    -2 ^ 31 ≤ k.i4ICounter ∧ k.i4ICounter < 2 ^ 31 ∧
    (c.i4MaxIdrPeriod ≠ 0 → k.i4ICounter ≤ k.i4IdrCounter) ∧
    (c.i4MaxCraPeriod ≠ 0 → k.i4ICounter ≤ k.i4CraCounter)

/-- The assertions hold. -/
theorem GopCounters.Inv.asserts (h : GopCounters.Inv c userI k) (hc : c.Accepted userI) :
    k.Asserts c := by
  have hsize : 0 < c.i4SubGopSize ∧ 0 < c.i4SubGopSizeIdr := by
    rcases hc.sizes with h | h | h | h <;> omega
  refine ⟨fun hidr => ?_, fun hcra => ?_, fun hintra => ?_⟩
  · have := h.idr hidr
    omega
  · have := h.cra hcra
    omega
  · by_cases huser : userI = 0
    · exact (h.intraNone huser).1 hintra
    · have := h.intra huser
      omega

-- ---------------------------------------------------------------------------
-- The counters behind a sub-GOP
-- ---------------------------------------------------------------------------

/-- A sub-GOP of `len` pictures that ends with `last`, with the counters `k` and `k'` around it.
An IDR picture may stand one picture behind the place of a CRA or an I picture. -/
structure GopStep (c : GopCfg) (userI : Int) (k k' : GopCounters) (len : Int) (last : PicTypeE) :
    Prop where
  idr : c.i4MaxIdrPeriod ≠ 0 →
    (last = .idr ∧ k.i4IdrCounter + len = c.i4MaxIdrPeriod ∧ k'.i4IdrCounter = 0) ∨
      (last ≠ .idr ∧ k.i4IdrCounter + len < c.i4MaxIdrPeriod ∧
        k'.i4IdrCounter = k.i4IdrCounter + len)
  cra : c.i4MaxCraPeriod ≠ 0 →
    (last = .idr ∧ k.i4CraCounter + len ≤
        c.i4MaxCraPeriod + (c.i4SubGopSizeIdr - c.i4SubGopSize) ∧ k'.i4CraCounter = 0) ∨
      (last = .cra ∧ k.i4CraCounter + len ≤ c.i4MaxCraPeriod ∧ k'.i4CraCounter = 0) ∨
      (last ≠ .idr ∧ last ≠ .cra ∧ k'.i4CraCounter = k.i4CraCounter + len)
  intra : userI ≠ 0 →
    (last = .idr ∧ k.i4ICounter + len ≤
        c.i4MaxIPeriod + (c.i4SubGopSizeIdr - c.i4SubGopSize) ∧ k'.i4ICounter = 0) ∨
      ((last = .cra ∨ last = .i) ∧ k.i4ICounter + len ≤ c.i4MaxIPeriod ∧ k'.i4ICounter = 0) ∨
      (last = .p ∧ k'.i4ICounter = k.i4ICounter + len)
  inv : GopCounters.Inv c userI k'

theorem GopCounters.Inv.zero (hc : c.Accepted userI) : GopCounters.Inv c userI ⟨0, 0, 0⟩ := by
  obtain ⟨hsizes, -, -, hidr, hcra, hintra, -, hidrA, hcraA, huser, hnone, -⟩ := hc
  refine ⟨fun h => ?_, fun h => ?_, fun h => ?_, fun h => ?_⟩
  · have := hidrA
    refine ⟨Int.le_refl 0, ?_, Int.zero_emod _⟩
    rcases hsizes with ⟨hs, hi⟩ | ⟨hs, hi⟩ | ⟨hs, hi⟩ | ⟨hs, hi⟩ <;> rw [hs] at hidrA <;>
      dsimp only <;> omega
  · refine ⟨Int.le_refl 0, ?_, Int.zero_emod _⟩
    rcases hsizes with ⟨hs, hi⟩ | ⟨hs, hi⟩ | ⟨hs, hi⟩ | ⟨hs, hi⟩ <;> rw [hs] at hcraA ⊢ <;>
      dsimp only <;> omega
  · obtain ⟨hu, hal⟩ := huser h
    refine ⟨Int.le_refl 0, ?_, Int.zero_emod _⟩
    rcases hsizes with ⟨hs, hi⟩ | ⟨hs, hi⟩ | ⟨hs, hi⟩ | ⟨hs, hi⟩ <;> rw [hs] at hal ⊢ <;>
      dsimp only <;> omega
  · dsimp only
    refine ⟨fun h => ?_, ?_, ?_, fun h => ?_, fun h => ?_⟩ <;> omega

/-- An IDR picture. -/
theorem GopStep.ofIdr {len : Int} (hc : c.Accepted userI) (h : GopCounters.Inv c userI k)
    (hidr : c.i4MaxIdrPeriod ≠ 0 → k.i4IdrCounter + len = c.i4MaxIdrPeriod)
    (hlen : len ≤ c.i4SubGopSizeIdr) : GopStep c userI k ⟨0, 0, 0⟩ len .idr where
  idr hne := Or.inl ⟨rfl, hidr hne, rfl⟩
  cra hne := Or.inl ⟨rfl, by have := h.cra hne; omega, rfl⟩
  intra hne := Or.inl ⟨rfl, by have := h.intra hne; omega, rfl⟩
  inv := GopCounters.Inv.zero hc

/-- The counters behind `len` pictures of which the last one is no IDR picture. -/
def GopCounters.behind (k : GopCounters) (len : Int) (last : PicTypeE) : GopCounters :=
  ⟨i32 (k.i4IdrCounter + len), if last = .cra then 0 else i32 (k.i4CraCounter + len),
    if last = .p then i32 (k.i4ICounter + len) else 0⟩

theorem GopCounters.Inv.behind_idr (hc : c.Accepted userI) (h : GopCounters.Inv c userI k)
    (hne : c.i4MaxIdrPeriod ≠ 0)
    (hidr : i32 (k.i4IdrCounter + c.i4SubGopSizeIdr) < c.i4MaxIdrPeriod) :
    i32 (k.i4IdrCounter + c.i4SubGopSize) = k.i4IdrCounter + c.i4SubGopSize ∧
      k.i4IdrCounter + c.i4SubGopSize + c.i4SubGopSizeIdr ≤ c.i4MaxIdrPeriod ∧
      (k.i4IdrCounter + c.i4SubGopSize) % c.i4SubGopSize = 0 := by
  obtain ⟨hlo, hhi, hal⟩ := h.idr hne
  have hbound := hc.idr.2
  have hidrA := hc.idrAligned
  simp only [i32_eq_emod] at hidr ⊢
  refine ⟨?_, ?_, by rw [Int.add_emod_right, hal]⟩
  · rcases hc.sizes with ⟨hs, hi⟩ | ⟨hs, hi⟩ | ⟨hs, hi⟩ | ⟨hs, hi⟩ <;> omega
  · rcases hc.sizes with ⟨hs, hi⟩ | ⟨hs, hi⟩ | ⟨hs, hi⟩ | ⟨hs, hi⟩ <;>
      rw [hs] at hal hidrA <;> omega

/-- A counter that does not reach its period with the sub-GOP leaves room for the next one. -/
theorem GopCfg.Accepted.room {x m : Int} (hc : c.Accepted userI) (hlo : 0 ≤ x)
    (hx : x % c.i4SubGopSize = 0) (hm : m % c.i4SubGopSize = 0) (hm_lt : m < 2 ^ 31)
    (hle : x + c.i4SubGopSize ≤ m) (hlt : i32 (x + c.i4SubGopSize) < m) :
    i32 (x + c.i4SubGopSize) = x + c.i4SubGopSize ∧
      x + c.i4SubGopSize + c.i4SubGopSize ≤ m ∧ (x + c.i4SubGopSize) % c.i4SubGopSize = 0 := by
  simp only [i32_eq_emod] at hlt ⊢
  refine ⟨?_, ?_, by rw [Int.add_emod_right, hx]⟩
  · rcases hc.sizes with ⟨hs, -⟩ | ⟨hs, -⟩ | ⟨hs, -⟩ | ⟨hs, -⟩ <;> omega
  · rcases hc.sizes with ⟨hs, -⟩ | ⟨hs, -⟩ | ⟨hs, -⟩ | ⟨hs, -⟩ <;> rw [hs] at hx hm <;> omega

theorem GopCounters.Inv.behind_cra (hc : c.Accepted userI) (h : GopCounters.Inv c userI k)
    (hne : c.i4MaxCraPeriod ≠ 0)
    (hcra : i32 (k.i4CraCounter + c.i4SubGopSize) < c.i4MaxCraPeriod) :
    i32 (k.i4CraCounter + c.i4SubGopSize) = k.i4CraCounter + c.i4SubGopSize ∧
      k.i4CraCounter + c.i4SubGopSize + c.i4SubGopSize ≤ c.i4MaxCraPeriod ∧
      (k.i4CraCounter + c.i4SubGopSize) % c.i4SubGopSize = 0 :=
  have hk := h.cra hne
  hc.room hk.1 hk.2.2 hc.craAligned (hc.cra.2.trans (by decide)) hk.2.1 hcra

theorem GopCounters.Inv.behind_intra (hc : c.Accepted userI) (h : GopCounters.Inv c userI k)
    (hne : userI ≠ 0) (hintra : i32 (k.i4ICounter + c.i4SubGopSize) < c.i4MaxIPeriod) :
    i32 (k.i4ICounter + c.i4SubGopSize) = k.i4ICounter + c.i4SubGopSize ∧
      k.i4ICounter + c.i4SubGopSize + c.i4SubGopSize ≤ c.i4MaxIPeriod ∧
      (k.i4ICounter + c.i4SubGopSize) % c.i4SubGopSize = 0 :=
  have hk := h.intra hne
  hc.room hk.1 hk.2.2 (hc.intraUser hne).2 hc.intra.2 hk.2.1 hintra

/-- A sub-GOP without an IDR picture. -/
theorem GopStep.ofOpen (last : PicTypeE) (hc : c.Accepted userI) (h : GopCounters.Inv c userI k)
    (hlast : last = .cra ∨ last = .i ∨ last = .p)
    (hidr : c.i4MaxIdrPeriod ≠ 0 → i32 (k.i4IdrCounter + c.i4SubGopSizeIdr) < c.i4MaxIdrPeriod)
    (hcra : c.i4MaxCraPeriod ≠ 0 → last ≠ .cra →
      i32 (k.i4CraCounter + c.i4SubGopSize) < c.i4MaxCraPeriod)
    (hintra : c.i4MaxIPeriod ≠ 0 → last = .p →
      i32 (k.i4ICounter + c.i4SubGopSize) < c.i4MaxIPeriod) :
    GopStep c userI k (k.behind c.i4SubGopSize last) c.i4SubGopSize last := by
  have hnot : last ≠ .idr := by rcases hlast with rfl | rfl | rfl <;> decide
  have hzero := GopCounters.Inv.zero hc
  have hsize : 0 < c.i4SubGopSize := by
    rcases hc.sizes with ⟨hs, -⟩ | ⟨hs, -⟩ | ⟨hs, -⟩ | ⟨hs, -⟩ <;> omega
  have hmi : userI ≠ 0 → c.i4MaxIPeriod ≠ 0 := fun hne => by
    rw [(hc.intraUser hne).1]
    exact hne
  refine ⟨fun hne => Or.inr ?_, fun hne => Or.inr ?_, fun hne => Or.inr ?_,
    ⟨fun hne => ?_, fun hne => ?_, fun hne => ?_, fun hnone => ?_⟩⟩
  · obtain ⟨heq, hle, -⟩ := h.behind_idr hc hne (hidr hne)
    refine ⟨hnot, ?_, heq⟩
    rcases hc.sizes with ⟨-, hi⟩ | ⟨-, hi⟩ | ⟨-, hi⟩ | ⟨-, hi⟩ <;> omega
  · by_cases hl : last = .cra
    · exact Or.inl ⟨hl, (h.cra hne).2.1, if_pos hl⟩
    · refine Or.inr ⟨hnot, hl, ?_⟩
      rw [GopCounters.behind, if_neg hl]
      exact (h.behind_cra hc hne (hcra hne hl)).1
  · by_cases hl : last = .p
    · refine Or.inr ⟨hl, ?_⟩
      rw [GopCounters.behind, if_pos hl]
      exact (h.behind_intra hc hne (hintra (hmi hne) hl)).1
    · refine Or.inl ⟨?_, (h.intra hne).2.1, if_neg hl⟩
      rcases hlast with hl' | hl' | hl'
      · exact Or.inl hl'
      · exact Or.inr hl'
      · exact absurd hl' hl
  · obtain ⟨heq, hle, hal⟩ := h.behind_idr hc hne (hidr hne)
    dsimp only [GopCounters.behind]
    rw [heq]
    exact ⟨Int.add_nonneg (h.idr hne).1 hsize.le, hle, hal⟩
  · by_cases hl : last = .cra
    · simp only [GopCounters.behind, if_pos hl]
      exact hzero.cra hne
    · obtain ⟨heq, hle, hal⟩ := h.behind_cra hc hne (hcra hne hl)
      simp only [GopCounters.behind, if_neg hl]
      rw [heq]
      exact ⟨Int.add_nonneg (h.cra hne).1 hsize.le, hle, hal⟩
  · by_cases hl : last = .p
    · obtain ⟨heq, hle, hal⟩ := h.behind_intra hc hne (hintra (hmi hne) hl)
      simp only [GopCounters.behind, if_pos hl]
      rw [heq]
      exact ⟨Int.add_nonneg (h.intra hne).1 hsize.le, hle, hal⟩
    · simp only [GopCounters.behind, if_neg hl]
      exact hzero.intra hne
  · obtain ⟨-, hlo, hhi, hcd, hcc⟩ := h.intraNone hnone
    have hpos := hc.intra.1
    by_cases hl : last = .p
    · have hl' : last ≠ .cra := by
        rw [hl]
        decide
      simp only [GopCounters.behind, if_pos hl, if_neg hl']
      have hrange : -2 ^ 31 ≤ i32 (k.i4ICounter + c.i4SubGopSize) ∧
          i32 (k.i4ICounter + c.i4SubGopSize) < 2 ^ 31 := by
        rw [i32_eq_emod]
        omega
      refine ⟨fun hne => hintra hne hl, hrange.1, hrange.2, fun hne => ?_, fun hne => ?_⟩
      · obtain ⟨heq, hle, -⟩ := h.behind_idr hc hne (hidr hne)
        have := hcd hne
        have := hc.idr.2
        rw [heq, i32_of_bounds (by omega)]
        · omega
        · rcases hc.sizes with ⟨-, hi⟩ | ⟨-, hi⟩ | ⟨-, hi⟩ | ⟨-, hi⟩ <;> omega
      · obtain ⟨heq, hle, -⟩ := h.behind_cra hc hne (hcra hne hl')
        have := hcc hne
        have := hc.cra.2
        rw [heq, i32_of_bounds (by omega) (by omega)]
        omega
    · simp only [GopCounters.behind, if_neg hl]
      refine ⟨fun hne => by omega, by decide, by decide, fun hne => ?_, fun hne => ?_⟩
      · obtain ⟨heq, -, -⟩ := h.behind_idr hc hne (hidr hne)
        have := (h.idr hne).1
        omega
      · by_cases hl' : last = .cra
        · rw [if_pos hl']
        · rw [if_neg hl', (h.behind_cra hc hne (hcra hne hl')).1]
          exact Int.add_nonneg (h.cra hne).1 hsize.le

-- ---------------------------------------------------------------------------
-- The types of a sub-GOP
-- ---------------------------------------------------------------------------

/-- `b` B pictures, a P picture if `pre`, and the last one. -/
def subGopTypes (b : Nat) (pre : Bool) (last : PicTypeE) : List PicTypeE :=
  List.replicate b .b ++ ((if pre then [.p] else []) ++ [last])

/-- The types as they are written from index `n` on. -/
def numbered : (n : Int) → List PicTypeE → List (Int × PicTypeE)
  | _, [] => []
  | n, t :: l => (n, t) :: numbered (n + 1) l

/-- What is chosen for a sub-GOP. -/
structure Chosen (c : GopCfg) (userI : Int) (k : GopCounters) (b : Nat) (pre : Bool)
    (last : PicTypeE) (sub : GopChoice) : Prop where
  numB : ∀ n, sub.i4NumBFrames = some n → n = b
  b_lt : (b : Int) < c.i4SubGopSize
  writes : sub.writes = numbered 1 (subGopTypes b pre last)
  num : sub.i4NumFrmTypeDecided = (subGopTypes b pre last).length
  le : ((subGopTypes b pre last).length : Int) ≤ c.i4SubGopSizeIdr
  last_cases : last = .idr ∨ last = .cra ∨ last = .i ∨ last = .p
  step : GopStep c userI k sub.counters (subGopTypes b pre last).length last

/-- One picture less than the sub-GOP has are B pictures. -/
theorem Chosen.ofOpen {last : PicTypeE} (hc : c.Accepted userI) (hb : b = c.i4SubGopSize - 1)
    (hlast : last = .cra ∨ last = .i ∨ last = .p)
    (hcounters : counters = k.behind (b + 1) last)
    (hstep : GopStep c userI k (k.behind c.i4SubGopSize last) c.i4SubGopSize last) :
    ∃ b' pre, Chosen c userI k b' pre last
      ⟨some b, memsetB b ++ [(b + 1, last)], b + 1, counters⟩ := by
  have hsize : c.i4SubGopSize = b + 1 := by omega
  rw [hsize] at hstep
  subst hcounters
  have hor : last = .idr ∨ last = .cra ∨ last = .i ∨ last = .p := Or.inr hlast
  rcases hc.sizes with ⟨hs, hi⟩ | ⟨hs, hi⟩ | ⟨hs, hi⟩ | ⟨hs, hi⟩
  · obtain rfl : b = 0 := by omega
    exact ⟨0, false, fun n hn => (Option.some.inj hn).symm, by rw [hs]; decide, rfl, rfl,
      by rw [hi]; exact Int.le_refl _, hor, hstep⟩
  · obtain rfl : b = 1 := by omega
    exact ⟨1, false, fun n hn => (Option.some.inj hn).symm, by rw [hs]; decide, rfl, rfl,
      by rw [hi]; exact (by decide : (2 : Int) ≤ 3), hor, hstep⟩
  · obtain rfl : b = 3 := by omega
    exact ⟨3, false, fun n hn => (Option.some.inj hn).symm, by rw [hs]; decide, rfl, rfl,
      by rw [hi]; exact (by decide : (4 : Int) ≤ 5), hor, hstep⟩
  · obtain rfl : b = 7 := by omega
    exact ⟨7, false, fun n hn => (Option.some.inj hn).symm, by rw [hs]; decide, rfl, rfl,
      by rw [hi]; exact (by decide : (8 : Int) ≤ 9), hor, hstep⟩

theorem idrSubGop_chosen (hc : c.Accepted userI) (h : GopCounters.Inv c userI k)
    (hne : c.i4MaxIdrPeriod ≠ 0)
    (hidr : c.i4MaxIdrPeriod ≤ i32 (k.i4IdrCounter + c.i4SubGopSizeIdr)) :
    ∃ b pre last, Chosen c userI k b pre last (idrSubGop c k) := by
  obtain ⟨hlo, hhi, -⟩ := h.idr hne
  have hbound := hc.idr.2
  have hlen : c.i4MaxIdrPeriod - k.i4IdrCounter = c.i4SubGopSizeIdr := by
    rw [i32_eq_emod] at hidr
    rcases hc.sizes with ⟨-, hi⟩ | ⟨-, hi⟩ | ⟨-, hi⟩ | ⟨-, hi⟩ <;> omega
  have hstep : GopStep c userI k ⟨0, 0, 0⟩ c.i4SubGopSizeIdr .idr :=
    GopStep.ofIdr hc h (fun _ => by omega) (Int.le_refl _)
  unfold idrSubGop
  rw [hlen]
  rcases hc.sizes with ⟨hs, hi⟩ | ⟨hs, hi⟩ | ⟨hs, hi⟩ | ⟨hs, hi⟩ <;> rw [hi] at hstep ⊢ <;> rw [hs]
  · exact ⟨0, false, .idr, fun n hn => (Option.some.inj hn).symm, by rw [hs]; decide, rfl, rfl,
      by rw [hi]; exact Int.le_refl _, Or.inl rfl, hstep⟩
  · exact ⟨1, true, .idr, fun n hn => (Option.some.inj hn).symm, by rw [hs]; decide, rfl, rfl,
      by rw [hi]; exact Int.le_refl _, Or.inl rfl, hstep⟩
  · exact ⟨3, true, .idr, fun n hn => (Option.some.inj hn).symm, by rw [hs]; decide, rfl, rfl,
      by rw [hi]; exact Int.le_refl _, Or.inl rfl, hstep⟩
  · exact ⟨7, true, .idr, fun n hn => (Option.some.inj hn).symm, by rw [hs]; decide, rfl, rfl,
      by rw [hi]; exact Int.le_refl _, Or.inl rfl, hstep⟩

theorem craSubGop_chosen (hc : c.Accepted userI) (h : GopCounters.Inv c userI k)
    (hidr : c.i4MaxIdrPeriod ≠ 0 → i32 (k.i4IdrCounter + c.i4SubGopSizeIdr) < c.i4MaxIdrPeriod)
    (hne : c.i4MaxCraPeriod ≠ 0)
    (hcra : c.i4MaxCraPeriod ≤ i32 (k.i4CraCounter + c.i4SubGopSize)) :
    ∃ b pre last, Chosen c userI k b pre last (craSubGop c k) := by
  obtain ⟨hlo, hhi, -⟩ := h.cra hne
  have hbound := hc.cra.2
  have hlen : i32 (c.i4MaxCraPeriod - k.i4CraCounter - 1) = c.i4SubGopSize - 1 := by
    rw [i32_eq_emod] at hcra ⊢
    rcases hc.sizes with ⟨hs, -⟩ | ⟨hs, -⟩ | ⟨hs, -⟩ | ⟨hs, -⟩ <;> omega
  have hstep := GopStep.ofOpen .cra hc h (Or.inl rfl) hidr (fun _ hl => absurd rfl hl)
    (fun _ hl => nomatch hl)
  obtain ⟨b, pre, hb⟩ := Chosen.ofOpen hc hlen (Or.inl rfl) rfl hstep
  refine ⟨b, pre, .cra, ?_⟩
  unfold craSubGop
  rw [if_pos (Or.inr hc.fixedOpenGop)]
  exact hb

/-- An I picture is due: without a period of I pictures, only once in the whole run. -/
theorem GopCounters.Inv.intra_due (hc : c.Accepted userI) (h : GopCounters.Inv c userI k)
    (hidr : c.i4MaxIdrPeriod ≠ 0 → i32 (k.i4IdrCounter + c.i4SubGopSizeIdr) < c.i4MaxIdrPeriod)
    (hcra : c.i4MaxCraPeriod ≠ 0 → i32 (k.i4CraCounter + c.i4SubGopSize) < c.i4MaxCraPeriod)
    (hne : c.i4MaxIPeriod ≠ 0) (hintra : c.i4MaxIPeriod ≤ i32 (k.i4ICounter + c.i4SubGopSize)) :
    c.i4MaxIPeriod - k.i4ICounter = c.i4SubGopSize := by
  have hbound := hc.intra.2
  rw [i32_eq_emod] at hintra
  by_cases huser : userI = 0
  · obtain ⟨hlt, hlo, hhi, hcd, hcc⟩ := h.intraNone huser
    have hk := hlt hne
    obtain ⟨hidr2, hcra2⟩ := hc.intraNone huser hne
    by_cases hd : c.i4MaxIdrPeriod = 0
    · by_cases hcr : c.i4MaxCraPeriod = 0
      · have hs := hc.none huser hd hcr
        omega
      · obtain ⟨heq, hle, -⟩ := h.behind_cra hc hcr (hcra hcr)
        have := hcc hcr
        have := (h.cra hcr).1
        have := hc.cra
        rcases hc.sizes with ⟨hs, -⟩ | ⟨hs, -⟩ | ⟨hs, -⟩ | ⟨hs, -⟩ <;> omega
    · obtain ⟨heq, hle, -⟩ := h.behind_idr hc hd (hidr hd)
      have := hcd hd
      have := (h.idr hd).1
      have := hc.idr
      rcases hc.sizes with ⟨hs, hi⟩ | ⟨hs, hi⟩ | ⟨hs, hi⟩ | ⟨hs, hi⟩ <;> omega
  · obtain ⟨hlo, hhi, -⟩ := h.intra huser
    rcases hc.sizes with ⟨hs, -⟩ | ⟨hs, -⟩ | ⟨hs, -⟩ | ⟨hs, -⟩ <;> omega

theorem iSubGop_chosen (hc : c.Accepted userI) (h : GopCounters.Inv c userI k)
    (hidr : c.i4MaxIdrPeriod ≠ 0 → i32 (k.i4IdrCounter + c.i4SubGopSizeIdr) < c.i4MaxIdrPeriod)
    (hcra : c.i4MaxCraPeriod ≠ 0 → i32 (k.i4CraCounter + c.i4SubGopSize) < c.i4MaxCraPeriod)
    (hne : c.i4MaxIPeriod ≠ 0) (hintra : c.i4MaxIPeriod ≤ i32 (k.i4ICounter + c.i4SubGopSize)) :
    ∃ b pre last, Chosen c userI k b pre last (iSubGop c k) := by
  have hdue := h.intra_due hc hidr hcra hne hintra
  have hlen : i32 (c.i4MaxIPeriod - k.i4ICounter - 1) = c.i4SubGopSize - 1 := by
    rw [hdue]
    rcases hc.sizes with ⟨hs, -⟩ | ⟨hs, -⟩ | ⟨hs, -⟩ | ⟨hs, -⟩ <;> rw [hs] <;> rfl
  have hstep := GopStep.ofOpen .i hc h (Or.inr (Or.inl rfl)) hidr
    (fun hne _ => hcra hne) (fun _ hl => nomatch hl)
  obtain ⟨b, pre, hb⟩ := Chosen.ofOpen hc hlen (Or.inr (Or.inl rfl)) rfl hstep
  refine ⟨b, pre, .i, ?_⟩
  unfold iSubGop
  rw [if_pos (Or.inr hc.fixedI)]
  exact hb

theorem pSubGop_chosen (hc : c.Accepted userI) (h : GopCounters.Inv c userI k)
    (hidr : c.i4MaxIdrPeriod ≠ 0 → i32 (k.i4IdrCounter + c.i4SubGopSizeIdr) < c.i4MaxIdrPeriod)
    (hcra : c.i4MaxCraPeriod ≠ 0 → i32 (k.i4CraCounter + c.i4SubGopSize) < c.i4MaxCraPeriod)
    (hintra : c.i4MaxIPeriod ≠ 0 → i32 (k.i4ICounter + c.i4SubGopSize) < c.i4MaxIPeriod) :
    ∃ b pre last, Chosen c userI k b pre last (pSubGop c k) := by
  have hstep := GopStep.ofOpen .p hc h (Or.inr (Or.inr rfl)) hidr
    (fun hne _ => hcra hne) (fun hne _ => hintra hne)
  obtain ⟨b, pre, hb⟩ := Chosen.ofOpen hc rfl (Or.inr (Or.inr rfl)) rfl hstep
  exact ⟨b, pre, .p, hb⟩

/-- A sub-GOP of one picture. -/
theorem Chosen.single {last : PicTypeE} (hc : c.Accepted userI) (hs : c.i4SubGopSize = 1)
    (hlast : last = .idr ∨ last = .cra ∨ last = .i ∨ last = .p)
    (hstep : GopStep c userI k counters 1 last) :
    Chosen c userI k 0 false last ⟨none, [(1, last)], 1, counters⟩ := by
  have hi : c.i4SubGopSizeIdr = 1 := by
    rcases hc.sizes with ⟨-, hi⟩ | ⟨hs', -⟩ | ⟨hs', -⟩ | ⟨hs', -⟩ <;> omega
  exact ⟨nofun, by rw [hs]; decide, rfl, rfl, by rw [hi]; exact Int.le_refl _, hlast, hstep⟩

theorem allIntraSubGop_chosen (hc : c.Accepted userI) (h : GopCounters.Inv c userI k)
    (hall : c.i4MaxIdrPeriod = 1 ∨ c.i4MaxCraPeriod = 1 ∨ c.i4MaxIPeriod = 1) :
    ∃ b pre last, Chosen c userI k b pre last (allIntraSubGop c k) := by
  have hs := hc.allIntra hall
  have hi : c.i4SubGopSizeIdr = 1 := by
    rcases hc.sizes with ⟨-, hi⟩ | ⟨hs', -⟩ | ⟨hs', -⟩ | ⟨hs', -⟩ <;> omega
  have hbound := hc.idr.2
  have hcbound := hc.cra.2
  unfold allIntraSubGop
  rw [hs]
  split
  · rename_i hidr
    refine ⟨0, false, .idr, Chosen.single hc hs (Or.inl rfl) (GopStep.ofIdr hc h ?_ (by omega))⟩
    intro hne
    have hk := h.idr hne
    rw [i32_eq_emod] at hidr
    omega
  · rename_i hidr
    have hopen : c.i4MaxIdrPeriod ≠ 0 →
        i32 (k.i4IdrCounter + c.i4SubGopSizeIdr) < c.i4MaxIdrPeriod := by
      intro hne
      have hk := h.idr hne
      rw [i32_eq_emod] at hidr ⊢
      omega
    split
    · have hstep := GopStep.ofOpen .cra hc h (Or.inl rfl) hopen
        (fun _ hl => absurd rfl hl) (fun _ hl => nomatch hl)
      rw [hs] at hstep
      exact ⟨0, false, .cra, Chosen.single hc hs (Or.inr (Or.inl rfl)) hstep⟩
    · rename_i hcra
      have hcraOpen : c.i4MaxCraPeriod ≠ 0 → PicTypeE.i ≠ .cra →
          i32 (k.i4CraCounter + c.i4SubGopSize) < c.i4MaxCraPeriod := by
        intro hne _
        have hk := h.cra hne
        rw [i32_eq_emod] at hcra ⊢
        omega
      have hstep := GopStep.ofOpen .i hc h (Or.inr (Or.inl rfl)) hopen hcraOpen
        (fun _ hl => nomatch hl)
      rw [hs] at hstep
      exact ⟨0, false, .i, Chosen.single hc hs (Or.inr (Or.inr (Or.inl rfl))) hstep⟩

/-- What is chosen for the next sub-GOP. -/
theorem nextSubGop_chosen (hc : c.Accepted userI) (h : GopCounters.Inv c userI k) :
    ∃ b pre last, Chosen c userI k b pre last (nextSubGop c k) := by
  unfold nextSubGop
  split
  · rename_i hall
    exact allIntraSubGop_chosen hc h hall
  split
  · rename_i hidr
    exact idrSubGop_chosen hc h hidr.2 hidr.1
  rename_i hidr
  have hidrOpen : c.i4MaxIdrPeriod ≠ 0 →
      i32 (k.i4IdrCounter + c.i4SubGopSizeIdr) < c.i4MaxIdrPeriod := fun hne =>
    Int.not_le.mp fun hle => hidr ⟨hle, hne⟩
  split
  · rename_i hcra
    exact craSubGop_chosen hc h hidrOpen hcra.2 hcra.1
  rename_i hcra
  have hcraOpen : c.i4MaxCraPeriod ≠ 0 →
      i32 (k.i4CraCounter + c.i4SubGopSize) < c.i4MaxCraPeriod := fun hne =>
    Int.not_le.mp fun hle => hcra ⟨hle, hne⟩
  split
  · rename_i hintra
    exact iSubGop_chosen hc h hidrOpen hcraOpen hintra.2 hintra.1
  rename_i hintra
  exact pSubGop_chosen hc h hidrOpen hcraOpen fun hne =>
    Int.not_le.mp fun hle => hintra ⟨hle, hne⟩

end Libhevc.Encoder
