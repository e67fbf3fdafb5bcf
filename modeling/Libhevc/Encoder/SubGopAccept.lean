import Libhevc.Encoder.SubGopStep

/-!
# The configurations that are accepted

The checks align the periods to the size of the sub-GOPs; the period of IDR pictures is one more.
-/

namespace Libhevc.Encoder

/-- What the checks say of the periods, with `layers` temporal layers. -/
structure GopParams.Checked (p : GopParams) (layers : Nat) : Prop where
  layers_le : layers ≤ 3
  idr : 0 ≤ p.i4MaxClosedGopPeriod
  cra : 0 ≤ p.i4MaxCraOpenGopPeriod
  intra : 0 ≤ p.i4MaxIOpenGopPeriod
  long : 0 < layers → 2 ^ layers - 1 < p.maxIDistance
  idr_ge : p.i4MaxClosedGopPeriod ≠ 0 → 2 ^ layers ≤ p.i4MaxClosedGopPeriod
  cra_ge : p.i4MaxCraOpenGopPeriod ≠ 0 → 2 ^ layers ≤ p.i4MaxCraOpenGopPeriod
  intra_ge : p.i4MaxIOpenGopPeriod ≠ 0 → 2 ^ layers ≤ p.i4MaxIOpenGopPeriod

theorem nonZeroPeriod_cases (x : Int) : (x ≠ 0 ∧ nonZeroPeriod x = x) ∨
    (x = 0 ∧ nonZeroPeriod x = 0x7FFFFFFF) := by
  unfold nonZeroPeriod
  split
  · exact Or.inl ⟨‹_›, rfl⟩
  · exact Or.inr ⟨not_not.mp ‹_›, rfl⟩

theorem ihevceCheckGopPeriods_ok {p q : GopParams} (h : ihevceCheckGopPeriods p = .ok q) :
    ∃ layers : Nat, p.Checked layers ∧ p.i4FieldPic = 0 ∧
      q = (if 0 < layers then { p with i4MaxTemporalLayers := layers }.alignPeriods layers
        else { p with i4MaxTemporalLayers := layers }) := by
  unfold ihevceCheckGopPeriods at h
  split at h
  · cases h
  rename_i hfield
  split at h
  · cases h
  rename_i hlayers
  split at h
  · cases h
  rename_i hneg
  split at h
  · cases h
  rename_i hmin
  split at h
  · cases h
  split at h
  · cases h
  split at h
  · cases h
  split at h
  · cases h
  have hused : 0 ≤ p.layersUsed ∧ p.layersUsed ≤ 3 := by
    unfold GopParams.layersUsed
    split <;> omega
  have hfield0 : p.i4FieldPic = 0 := not_not.mp hfield
  obtain ⟨layers, hl⟩ := Int.eq_ofNat_of_zero_le hused.1
  have hsub : p.subGopSize = 2 ^ layers := by
    rw [GopParams.subGopSize, hl, hfield0]
    simp
  rw [hsub] at hmin
  have hle3 : layers ≤ 3 := by omega
  unfold GopParams.minIDistance at hmin
  have hi := nonZeroPeriod_cases p.i4MaxClosedGopPeriod
  have hc := nonZeroPeriod_cases p.i4MaxCraOpenGopPeriod
  have hii := nonZeroPeriod_cases p.i4MaxIOpenGopPeriod
  refine ⟨layers, ⟨hle3, by omega, by omega, by omega, fun hpos => ?_, fun hne => ?_,
    fun hne => ?_, fun hne => ?_⟩, hfield0, ?_⟩
  · unfold GopParams.layersUsed at hl
    split at hl
    · omega
    · rename_i hlong
      rw [hl, Int.toNat_natCast] at hlong
      omega
  · omega
  · omega
  · omega
  · have hq := Except.ok.inj h
    rw [← hq, GopParams.aligned, hsub, hl]
    obtain rfl | rfl | rfl | rfl : layers = 0 ∨ layers = 1 ∨ layers = 2 ∨ layers = 3 := by omega
    all_goals rfl

/-- The periods are so small that neither their alignment nor twice their value overflows. -/
structure GopParams.Small (p : GopParams) : Prop where
  idr : p.i4MaxClosedGopPeriod < 2 ^ 30 - 8
  cra : p.i4MaxCraOpenGopPeriod < 2 ^ 30 - 8
  intra : p.i4MaxIOpenGopPeriod < 2 ^ 30 - 8

/-- The next multiple of the size of a sub-GOP. -/
theorem alignPow_spec (hlo : 0 ≤ x) (hhi : x < 2 ^ 30 - 8) (hk : k = 1 ∨ k = 2 ∨ k = 3) :
    x ≤ alignPow k x ∧ alignPow k x < x + 2 ^ k ∧ alignPow k x % 2 ^ k = 0 := by
  unfold alignPow
  simp only [i32_eq_emod]
  rcases hk with rfl | rfl | rfl <;> omega

/-- The period of I pictures of the lookahead, for periods that are not all 0. -/
theorem GopParams.lapMaxIPeriod_eq (p : GopParams) (mem : Int)
    (hsome : p.i4MaxIOpenGopPeriod ≠ 0 ∨ p.i4MaxClosedGopPeriod ≠ 0 ∨ p.i4MaxCraOpenGopPeriod ≠ 0) :
    p.lapMaxIPeriod mem = if p.i4MaxIOpenGopPeriod = 0 then
      i32 (2 * max p.i4MaxClosedGopPeriod p.i4MaxCraOpenGopPeriod) else p.i4MaxIOpenGopPeriod := by
  have hperiod : p.gopPeriod mem ≠ 0 := by
    unfold GopParams.gopPeriod
    split
    · split
      · assumption
      · split <;> assumption
    · split
      · assumption
      · split
        · assumption
        · rename_i h0 h1 h2
          rcases hsome with h | h | h <;> exact absurd h ‹_›
  rw [GopParams.lapMaxIPeriod, if_neg hperiod]

theorem GopParams.lapMaxIPeriod_none (p : GopParams) (mem : Int) (h0 : p.i4MaxIOpenGopPeriod = 0)
    (h1 : p.i4MaxClosedGopPeriod = 0) (h2 : p.i4MaxCraOpenGopPeriod = 0) :
    p.lapMaxIPeriod mem = 0 ∨ p.lapMaxIPeriod mem = 0x7fffffff := by
  unfold GopParams.lapMaxIPeriod
  rw [if_pos h0, h1, h2]
  split
  · exact Or.inr rfl
  · exact Or.inl rfl

/-- The period of I pictures, by cases. -/
theorem GopParams.lapMaxIPeriod_cases (p : GopParams) (mem : Int) :
    (p.i4MaxIOpenGopPeriod ≠ 0 → p.lapMaxIPeriod mem = p.i4MaxIOpenGopPeriod) ∧
      (p.i4MaxIOpenGopPeriod = 0 → p.i4MaxClosedGopPeriod ≠ 0 ∨ p.i4MaxCraOpenGopPeriod ≠ 0 →
        p.lapMaxIPeriod mem = i32 (2 * max p.i4MaxClosedGopPeriod p.i4MaxCraOpenGopPeriod)) ∧
      (p.i4MaxIOpenGopPeriod = 0 → p.i4MaxClosedGopPeriod = 0 → p.i4MaxCraOpenGopPeriod = 0 →
        p.lapMaxIPeriod mem = 0 ∨ p.lapMaxIPeriod mem = 0x7fffffff) := by
  refine ⟨fun hne => ?_, fun h0 hsome => ?_, p.lapMaxIPeriod_none mem⟩
  · rw [p.lapMaxIPeriod_eq mem (Or.inl hne), if_neg hne]
  · rw [p.lapMaxIPeriod_eq mem (Or.inr hsome), if_pos h0]

/-- The periods as the lookahead uses them, with `layers` temporal layers. -/
structure GopParams.Aligned (p : GopParams) (layers : Nat) : Prop where
  idr : 0 ≤ p.i4MaxClosedGopPeriod ∧ p.i4MaxClosedGopPeriod < 2 ^ 30
  cra : 0 ≤ p.i4MaxCraOpenGopPeriod ∧ p.i4MaxCraOpenGopPeriod < 2 ^ 30
  intra : 0 ≤ p.i4MaxIOpenGopPeriod ∧ p.i4MaxIOpenGopPeriod < 2 ^ 30
  idrAligned : 0 < layers → p.i4MaxClosedGopPeriod ≠ 0 →
    p.i4MaxClosedGopPeriod % 2 ^ layers = 1 ∧ 1 < p.i4MaxClosedGopPeriod
  craAligned : p.i4MaxCraOpenGopPeriod % 2 ^ layers = 0
  intraAligned : p.i4MaxIOpenGopPeriod % 2 ^ layers = 0
  some : 0 < layers → p.i4MaxIOpenGopPeriod ≠ 0 ∨ p.i4MaxClosedGopPeriod ≠ 0 ∨
    p.i4MaxCraOpenGopPeriod ≠ 0

theorem GopParams.Checked.aligned {p : GopParams} (h : p.Checked layers) (hsmall : p.Small) :
    GopParams.Aligned (if 0 < layers then
      { p with i4MaxTemporalLayers := layers }.alignPeriods layers
      else { p with i4MaxTemporalLayers := layers }) layers := by
  obtain ⟨hle, hidr, hcra, hintra, hlong, hidr_ge, hcra_ge, hintra_ge⟩ := h
  obtain ⟨hsidr, hscra, hsintra⟩ := hsmall
  by_cases hpos : 0 < layers
  · rw [if_pos hpos]
    have hk : layers = 1 ∨ layers = 2 ∨ layers = 3 := by omega
    obtain ⟨hd1, hd2, hd3⟩ := alignPow_spec hidr hsidr hk
    obtain ⟨hc1, hc2, hc3⟩ := alignPow_spec hcra hscra hk
    obtain ⟨hi1, hi2, hi3⟩ := alignPow_spec hintra hsintra hk
    have hlong' := hlong hpos
    unfold GopParams.maxIDistance at hlong'
    have hclosed : (if 1 < p.i4MaxClosedGopPeriod then
        i32 (alignPow layers p.i4MaxClosedGopPeriod + 1) else
        alignPow layers p.i4MaxClosedGopPeriod) =
        if p.i4MaxClosedGopPeriod = 0 then 0 else alignPow layers p.i4MaxClosedGopPeriod + 1 := by
      rw [i32_eq_emod]
      rcases hk with rfl | rfl | rfl <;> split <;> split <;> omega
    constructor
    case idr =>
      dsimp only [GopParams.alignPeriods]
      rw [hclosed]
      rcases hk with rfl | rfl | rfl <;> split <;> omega
    case cra =>
      dsimp only [GopParams.alignPeriods]
      rcases hk with rfl | rfl | rfl <;> omega
    case intra =>
      dsimp only [GopParams.alignPeriods]
      rcases hk with rfl | rfl | rfl <;> omega
    case idrAligned =>
      intro _
      dsimp only [GopParams.alignPeriods]
      rw [hclosed]
      rcases hk with rfl | rfl | rfl <;> split <;> omega
    case craAligned => exact hc3
    case intraAligned => exact hi3
    case some =>
      intro _
      dsimp only [GopParams.alignPeriods]
      rw [hclosed]
      rcases hk with rfl | rfl | rfl <;> split <;> omega
  · rw [if_neg hpos]
    obtain rfl : layers = 0 := by omega
    exact ⟨by dsimp only; omega, by dsimp only; omega, by dsimp only; omega,
      fun h => absurd h hpos, Int.emod_one _, Int.emod_one _, fun h => absurd h hpos⟩

/-- The parameters that come out of the checks give an accepted configuration. -/
theorem ihevceLapInit_accepted {p q : GopParams} (h : ihevceCheckGopPeriods p = .ok q)
    (hsmall : p.Small) (mem : Int) :
    (ihevceLapInit q mem).cfg.Accepted q.i4MaxIOpenGopPeriod := by
  obtain ⟨layers, hchk, hfield, hq⟩ := ihevceCheckGopPeriods_ok h
  have hqfield : q.fields = 1 := by
    have : q.i4FieldPic = 0 := by
      rw [hq]
      split <;> exact hfield
    rw [GopParams.fields, this]
    exact if_neg fun h => by omega
  have hqlayers : q.i4MaxTemporalLayers = layers := by
    rw [hq]
    split <;> rfl
  have hal := hchk.aligned hsmall
  rw [← hq] at hal
  have hle := hchk.layers_le
  obtain ⟨hidr, hcra, hintra, hidrA, hcraA, hintraA, hsome⟩ := hal
  obtain ⟨hm1, hm2, hm3⟩ := q.lapMaxIPeriod_cases mem
  rw [i32_eq_emod] at hm2
  have hsize : (ihevceLapInit q mem).cfg.i4SubGopSize = 2 ^ layers := by
    simp [ihevceLapInit, hqfield, hqlayers]
  have hsizeIdr : (ihevceLapInit q mem).cfg.i4SubGopSizeIdr =
      2 ^ layers + if 0 < layers then 1 else 0 := by
    simp [ihevceLapInit, hqfield, hqlayers]
  have hmi : (ihevceLapInit q mem).cfg.i4MaxIPeriod = q.lapMaxIPeriod mem := rfl
  constructor
  case sizes =>
    rw [hsize, hsizeIdr]
    obtain rfl | rfl | rfl | rfl : layers = 0 ∨ layers = 1 ∨ layers = 2 ∨ layers = 3 := by omega
    all_goals decide
  case fixedOpenGop => rfl
  case fixedI => rfl
  case idr => exact hidr
  case cra => exact hcra
  case intra =>
    rw [hmi]
    omega
  case allIntra =>
    intro hall
    rw [hsize]
    dsimp only [ihevceLapInit] at hall
    obtain rfl | rfl | rfl | rfl : layers = 0 ∨ layers = 1 ∨ layers = 2 ∨ layers = 3 := by omega
    all_goals first | rfl | omega
  case idrAligned =>
    intro hlong hne
    rw [hsize] at hlong ⊢
    refine hidrA (Nat.pos_of_ne_zero fun hzero => ?_) hne
    rw [hzero] at hlong
    exact absurd hlong (by decide)
  case craAligned =>
    rw [hsize]
    exact hcraA
  case intraUser =>
    intro hne
    rw [hsize, hmi, hm1 hne]
    exact ⟨rfl, hintraA⟩
  case intraNone =>
    intro h0 hne
    rw [hmi] at hne ⊢
    dsimp only [ihevceLapInit]
    omega
  case none =>
    intro h0 h1 h2
    rw [hsize]
    dsimp only [ihevceLapInit] at h1 h2
    obtain rfl : layers = 0 := by omega
    rfl

end Libhevc.Encoder
