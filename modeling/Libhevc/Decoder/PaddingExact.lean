import Libhevc.Decoder.Padding

/-!
# The pictures whose padding is complete

Sixteen samples of luma are eight of chroma in formats with half the width, and
then the filters of the first block of a row change none of its chroma: those of
the second block do, after the left border of the row is padded. In 4:2:0 the rows
padded are ones that were filtered with the row of blocks above.
-/

namespace Libhevc.Padding

/-- Every sample around the picture equals the nearest one of the picture. -/
def Component.Complete (k : Component) (p : Plane α) : Prop :=
  ∀ r col, -k.padHt ≤ r ∧ r < k.ht + k.padHt → -k.padWd ≤ col ∧ col < k.wd + k.padWd →
    p r col = p (max 0 (min r (k.ht - 1))) (max 0 (min col (k.wd - 1)))

/-- Order of decoding, and the places in the list. -/
def Later (order : List Ctb) (a b : Ctb) : Prop :=
  ¬ (b.x ≤ a.x ∧ b.y ≤ a.y) ∧ order.idxOf a < order.idxOf b

theorem DecodingOrder.later (h : DecodingOrder s order) : order.Pairwise (Later order) := by
  have hnodup : order.Nodup := by
    apply h.mono.imp
    rintro a b hab rfl
    exact hab ⟨le_rfl, le_rfl⟩
  have hidx : order.Pairwise fun a b => order.idxOf a < order.idxOf b := by
    apply List.pairwise_iff_getElem.mpr
    intro i j hi hj hij
    rw [hnodup.idxOf_getElem, hnodup.idxOf_getElem]
    exact hij
  exact h.mono.and hidx

def lastCtb (s : Sps) : Ctb := ⟨(s.i2PicWdInCtb - 1).toNat, (s.i2PicHtInCtb - 1).toNat⟩

theorem Component.Fits.lastCtb {k : Component} {s : Sps} (hk : k.Fits s) :
    s.i2PicWdInCtb - 1 = (lastCtb s).x ∧ s.i2PicHtInCtb - 1 = (lastCtb s).y := by
  have hwd := hk.wd_le
  have hht := hk.ht_le
  have hwdPos := hk.wd_pos
  have hhtPos := hk.ht_pos
  unfold Padding.lastCtb
  dsimp only
  constructor
  · rcases hk.ctbWd with h | h | h | h <;> rw [h] at hwd <;> omega
  · rcases hk.ctbHt with h | h | h | h <;> rw [h] at hht <;> omega

theorem DecodingOrder.lastCtb_mem {k : Component} (h : DecodingOrder s order) (hk : k.Fits s) :
    lastCtb s ∈ order := by
  have hlast := hk.lastCtb
  rw [h.mem]
  omega

/-- Nothing comes after the last block. -/
theorem DecodingOrder.not_later {k : Component} (h : DecodingOrder s order) (hk : k.Fits s)
    (hb : b ∈ order) : ¬ Later order (lastCtb s) b := by
  rintro ⟨hmono, -⟩
  have hlast := hk.lastCtb
  obtain ⟨hx, hy⟩ := (h.mem b).mp hb
  omega

-- ---------------------------------------------------------------------------
-- Rows and the blocks after which they are padded
-- ---------------------------------------------------------------------------

section

variable {s : Sps} {k : Component} {r : Int}

/-- The row of blocks after which a row of samples is padded. -/
theorem Component.Fits.row (hk : k.Fits s) (hr : 0 ≤ r ∧ r < k.ht) :
    ∃ y : Nat, (y : Int) < s.i2PicHtInCtb ∧ y * k.ctbHt - k.lag ≤ r ∧
      (r < y * k.ctbHt - k.lag + k.ctbHt ∨
        s.i2PicHtInCtb - 1 = y ∧ k.ht ≤ r + k.lag ∧ r < y * k.ctbHt + k.ctbHt) := by
  have hgt := hk.ht_gt
  have hle := hk.ht_le
  have hlag := hk.lag
  by_cases hy : (r + k.lag) / k.ctbHt ≤ s.i2PicHtInCtb - 1
  · refine ⟨((r + k.lag) / k.ctbHt).toNat, ?_⟩
    rcases hk.ctbHt with h | h | h | h <;> rw [h] at hgt hle hy ⊢ <;> omega
  · refine ⟨(s.i2PicHtInCtb - 1).toNat, ?_⟩
    rcases hk.ctbHt with h | h | h | h <;> rw [h] at hgt hle hy ⊢ <;> omega

/-- The filters of the blocks further down leave the row alone. -/
theorem Component.Fits.leaves_below (hk : k.Fits s) {b : Ctb} {y : Nat} (hy : y < b.y)
    (hr : r < y * k.ctbHt - k.lag + k.ctbHt) (col : Int) : k.Leaves b r col := by
  have hlag := hk.lag
  have hrow : r < b.y * k.ctbHt - 8 := by
    rcases hk.ctbHt with h | h | h | h <;> rw [h] at hr ⊢ <;> omega
  constructor
  · rintro ⟨-, -, -, -, hlo, -⟩
    omega
  · rintro ⟨⟨hlo, -⟩ | ⟨-, hlo, -⟩, -⟩
    · omega
    · omega

/-- The first column is reached by the second block only, and only where blocks have eight
columns. -/
theorem Component.Fits.leaves_right (hk : k.Fits s) {b : Ctb} (hx : 1 ≤ b.x)
    (h : 16 ≤ k.ctbWd ∨ 2 ≤ b.x ∨ ¬ Component.SaoSpan k.ctbHt k.ht b.y r) : k.Leaves b r 0 := by
  have hcol : (8 : Int) ≤ b.x * k.ctbWd := by
    rcases hk.ctbWd with h | h | h | h <;> rw [h] <;> omega
  constructor
  · rintro ⟨-, -, -, -, -, -, hlo, -⟩
    omega
  · rintro ⟨hrow, hspan⟩
    have hfar : (8 : Int) < b.x * k.ctbWd := by
      rcases h with h | h | h
      · rcases hk.ctbWd with hw | hw | hw | hw <;> rw [hw] at h ⊢ <;> omega
      · rcases hk.ctbWd with hw | hw | hw | hw <;> rw [hw] <;> omega
      · exact absurd hrow h
    rcases hspan with ⟨hlo, -⟩ | ⟨-, hlo, -⟩
    · omega
    · omega

end

/-- With blocks of eight rows, the rows that are filtered with a row of blocks are those above,
except at the end of the picture. -/
theorem saoSpan_eight {ny ht r : Int} {n y : Nat} (hgt : (ny - 1) * 8 < ht) (hn : (n : Int) < ny)
    (hr : r < y * 8 - 16 + 8 ∧ n ≤ y ∧ (y : Int) < ny) (h : Component.SaoSpan 8 ht n r) :
    0 < n ∧ n * 8 - 8 ≤ r ∧ r < n * 8 := by
  unfold Component.SaoSpan Component.saoSize at h
  dsimp only at h
  split_ifs at h <;> omega

-- ---------------------------------------------------------------------------
-- Completeness
-- ---------------------------------------------------------------------------

section

variable {s : Sps} {k : Component} {f : k.Filters α} {p : Plane α} {r : Int}
  {jobs : List (List Ctb)}

theorem right_ok (hk : k.Fits s) (horder : DecodingOrder s jobs.flatten)
    (hr : 0 ≤ r ∧ r < k.ht) : (rightSide s k hk.wd_pos).Ok (picture s k f jobs p) r := by
  obtain ⟨y, hy, hlo, hhi⟩ := hk.row hr
  have hlastX := hk.lastCtb.1
  have hmem : (⟨(lastCtb s).x, y⟩ : Ctb) ∈ jobs.flatten := by
    rw [horder.mem]
    exact ⟨by dsimp only; omega, hy⟩
  apply Side.ok_picture _ hk horder horder.later hr hmem
  · refine ⟨hlastX, hlo, ?_⟩
    rcases hhi with hhi | ⟨hlast, -, hhi⟩
    · dsimp only
      split_ifs <;> have hlag := hk.lag <;> omega
    · rw [if_pos hlast]
      dsimp only
      omega
  · rintro b hb ⟨hmono, -⟩
    obtain ⟨hbx, hby⟩ := (horder.mem b).mp hb
    dsimp only at hmono
    rcases hhi with hhi | ⟨hlast, -, -⟩
    · exact hk.leaves_below (by omega) hhi _
    · omega

/-- When the left border is padded in time. -/
def LeftInTime (s : Sps) (k : Component) (order : List Ctb) : Prop :=
  16 ≤ k.ctbWd ∨ s.i2PicWdInCtb = 1 ∨
    (k.isChroma = true ∧ k.ctbHt = 8 ∧ k.lag = 16 ∧ ∀ y : Nat, 2 ≤ y → (y : Int) < s.i2PicHtInCtb →
      order.idxOf ⟨1, y - 1⟩ < order.idxOf ⟨0, y⟩) ∨
    (k.isChroma = true ∧ k.ht ≤ k.lag)

theorem left_ok (hk : k.Fits s) (horder : DecodingOrder s jobs.flatten)
    (htime : LeftInTime s k jobs.flatten) (hr : 0 ≤ r ∧ r < k.ht) :
    (leftSide s k hk.wd_pos).Ok (picture s k f jobs p) r := by
  obtain ⟨y, hy, hlo, hhi⟩ := hk.row hr
  have hlast := hk.lastCtb
  by_cases hfinal : k.isChroma = true ∧ k.ht ≤ r + k.lag
  · -- padded once more after the last block
    apply Side.ok_picture _ hk horder horder.later hr (horder.lastCtb_mem hk)
    · exact .inr ⟨hlast.1, hlast.2, hfinal.1, by omega⟩
    · intro b hb hlater
      exact absurd hlater (horder.not_later hk hb)
  · have hmem : (⟨0, y⟩ : Ctb) ∈ jobs.flatten := by
      rw [horder.mem]
      exact ⟨by dsimp only; omega, hy⟩
    apply Side.ok_picture _ hk horder horder.later hr hmem
    · refine .inl ⟨rfl, hlo, ?_⟩
      have hlag := hk.lag
      rcases hhi with hhi | ⟨hlast, hbot, hhi⟩
      · dsimp only
        split_ifs <;> omega
      · have hluma : k.isChroma = false := by
          cases hc : k.isChroma with
          | false => rfl
          | true => exact absurd ⟨hc, hbot⟩ hfinal
        rw [if_pos ⟨hlast, hluma⟩]
        dsimp only
        omega
    · rintro b hb ⟨hmono, hidx⟩
      obtain ⟨hbx, hby⟩ := (horder.mem b).mp hb
      dsimp only at hmono
      by_cases hbelow : y < b.y
      · rcases hhi with hhi | ⟨hlast, -, -⟩
        · exact hk.leaves_below hbelow hhi _
        · omega
      · have hx : 1 ≤ b.x := by omega
        apply hk.leaves_right hx
        rcases htime with h | h | ⟨hc, hht, hlag, htile⟩ | ⟨hc, hht⟩
        · exact .inl h
        · omega
        · by_cases hfar : 2 ≤ b.x
          · exact .inr (.inl hfar)
          · refine .inr (.inr fun hspan => ?_)
            have hgt := hk.ht_gt
            rw [hht] at hlo hhi hspan hgt
            have hrow : r < y * 8 - 16 + 8 := by
              rcases hhi with hhi | ⟨-, hbot, -⟩
              · rwa [hlag] at hhi
              · exact absurd ⟨hc, hbot⟩ hfinal
            obtain ⟨hpos, habove⟩ := saoSpan_eight hgt hby ⟨hrow, by omega, hy⟩ hspan
            have hy2 : 2 ≤ y := by omega
            have hb : b = ⟨1, y - 1⟩ := by
              cases b
              simp only [Ctb.mk.injEq]
              dsimp only at *
              omega
            rw [hb] at hidx
            exact absurd (htile y hy2 hy) (by omega)
        · exact absurd ⟨hc, by omega⟩ hfinal

/-- The rows above and below are copied after everything else. -/
theorem picture_complete (hk : k.Fits s) (horder : DecodingOrder s jobs.flatten)
    (htime : LeftInTime s k jobs.flatten) : k.Complete (picture s k f jobs p) := by
  have hwd := hk.wd_pos
  have hht := hk.ht_pos
  have hside : ∀ r col, 0 ≤ r ∧ r < k.ht → -k.padWd ≤ col ∧ col < k.wd + k.padWd →
      picture s k f jobs p r col = picture s k f jobs p r (max 0 (min col (k.wd - 1))) := by
    intro r col hr hcol
    by_cases hleft : col < 0
    · rw [show max 0 (min col (k.wd - 1)) = 0 by omega]
      exact left_ok hk horder htime hr col ⟨hcol.1, hleft⟩
    · by_cases hright : k.wd ≤ col
      · rw [show max 0 (min col (k.wd - 1)) = k.wd - 1 by omega]
        exact right_ok hk horder hr col ⟨hright, hcol.2⟩
      · rw [show max 0 (min col (k.wd - 1)) = col by omega]
  have hrows : ∀ r col, -k.padHt ≤ r ∧ r < k.ht + k.padHt → -k.padWd ≤ col ∧ col < k.wd + k.padWd →
      picture s k f jobs p r col = picture s k f jobs p (max 0 (min r (k.ht - 1))) col := by
    intro r col hr hcol
    obtain ⟨before, after, heq, hafter, -⟩ :=
      trace_split horder.later (horder.lastCtb_mem hk)
    have hnil : after = [] := by
      apply List.eq_nil_iff_forall_not_mem.mpr
      intro e he
      have hmem : e.ctb ∈ jobs.flatten := by
        apply ctb_mem_of_mem_trace
        rw [heq]
        exact List.mem_append_right _ (List.mem_cons_of_mem _ he)
      exact horder.not_later hk hmem (hafter e he)
    have hlast := padCtb_rows (p := f.sao (lastCtb s) (before.foldl (step s k f) p)) (r := r)
      hk.lastCtb.1 hk.lastCtb.2 hht hcol
    have hpicture : picture s k f jobs p =
        padCtb s k (f.sao (lastCtb s) (before.foldl (step s k f) p)) (lastCtb s) := by
      rw [picture, heq, hnil, List.foldl_append]
      rfl
    rw [hpicture]
    by_cases habove : r < 0
    · rw [show max 0 (min r (k.ht - 1)) = 0 by omega]
      exact hlast.1 ⟨hr.1, habove⟩
    · by_cases hbelow : k.ht ≤ r
      · rw [show max 0 (min r (k.ht - 1)) = k.ht - 1 by omega]
        exact hlast.2 ⟨hbelow, hr.2⟩
      · rw [show max 0 (min r (k.ht - 1)) = r by omega]
  intro r col hr hcol
  rw [hrows r col hr hcol]
  exact hside _ col (by omega) hcol

end

-- ---------------------------------------------------------------------------
-- Stale borders
-- ---------------------------------------------------------------------------

section

variable {s : Sps} {k : Component} {c0 : Ctb} {r0 : Int}

/-- The filters that change one sample of the first column after one block. -/
def pointFilters (h : k.SaoMayChange c0 r0 0) (b : α) : k.Filters α where
  deblk _ p := p
  sao c p := if c = c0 then fun r col => if r = r0 ∧ col = 0 then b else p r col else p
  deblk_outside := fun _ _ _ _ _ => rfl
  sao_outside := by
    intro c p r col hout
    split_ifs with hc
    · subst hc
      apply if_neg
      rintro ⟨rfl, rfl⟩
      exact hout h
    · rfl

theorem padCtb_const (a : α) (c : Ctb) : padCtb s k (fun _ _ => a) c = fun _ _ => a := by
  have hleft : ∀ row col ht n, ihevcPadLeft (fun _ _ => a) row col ht n = fun _ _ => a := by
    intro row col ht n
    funext r c
    exact ite_self _
  have hright : ∀ row col ht n, ihevcPadRight (fun _ _ => a) row col ht n = fun _ _ => a := by
    intro row col ht n
    funext r c
    exact ite_self _
  have htop : ∀ row col wd n, ihevcPadTop (fun _ _ => a) row col wd n = fun _ _ => a := by
    intro row col wd n
    funext r c
    exact ite_self _
  have hbottom : ∀ row col wd n, ihevcPadBottom (fun _ _ => a) row col wd n = fun _ _ => a := by
    intro row col wd n
    funext r c
    exact ite_self _
  simp only [padCtb, hleft, hright, htop, hbottom, ite_self]

theorem step_pointFilters_of_ne (h : k.SaoMayChange c0 r0 0) (b : α) (hc : c ≠ c0)
    (p : Plane α) : step s k (pointFilters h b) p (.last c) = padCtb s k p c := by
  simp only [step, pointFilters, if_neg hc]

/-- A row that is not padded any more once its first sample has been changed. -/
theorem stale (hk : k.Fits s) (hpad : 0 < k.padWd) {jobs : List (List Ctb)}
    (horder : DecodingOrder s jobs.flatten) (hmem : c0 ∈ jobs.flatten)
    (h : k.SaoMayChange c0 r0 0) (hr : 0 ≤ r0 ∧ r0 < k.ht)
    (hpads : ∀ c, c = c0 ∨ Later jobs.flatten c0 c → ¬ LeftPads s k c r0) (a b : α) :
    picture s k (pointFilters h b) jobs (fun _ _ => a) r0 0 = b ∧
      picture s k (pointFilters h b) jobs (fun _ _ => a) r0 (-1) = a := by
  obtain ⟨before, after, heq, hafter, hbefore⟩ := trace_split horder.later hmem
  have hwd := hk.wd_pos
  have hanchor : (0 : Int) ≤ 0 ∧ 0 < k.wd := ⟨le_rfl, hwd⟩
  have hborder : -k.padWd ≤ -1 ∧ (-1 : Int) < 0 := ⟨by omega, by decide⟩
  -- nothing has changed before
  have hconst : ∀ t : List Event, (∀ e ∈ t, e ∈ before) →
      t.foldl (step s k (pointFilters h b)) (fun _ _ => a) = fun _ _ => a := by
    intro t
    induction t with
    | nil => exact fun _ => rfl
    | cons e t ih =>
      intro hsub
      have he := hsub e (List.mem_cons_self ..)
      have hstep : step s k (pointFilters h b) (fun _ _ => a) e = fun _ _ => a := by
        cases e with
        | deblk c => rfl
        | last c =>
          have hne : c ≠ c0 := by
            rintro rfl
            exact absurd (hbefore c he).2 (lt_irrefl _)
          rw [step_pointFilters_of_ne h b hne, padCtb_const]
      rw [List.foldl_cons, hstep]
      exact ih fun e' he' => hsub e' (List.mem_cons_of_mem _ he')
  -- and the two samples are kept afterwards
  have hkept : ∀ (t : List Event) (p : Plane α), (∀ e ∈ t, e ∈ after) →
      p r0 0 = b ∧ p r0 (-1) = a →
      t.foldl (step s k (pointFilters h b)) p r0 0 = b ∧
        t.foldl (step s k (pointFilters h b)) p r0 (-1) = a := by
    intro t
    induction t with
    | nil => exact fun _ _ hp => hp
    | cons e t ih =>
      intro p hsub hp
      have he := hafter e (hsub e (List.mem_cons_self ..))
      apply ih _ fun e' he' => hsub e' (List.mem_cons_of_mem _ he')
      cases e with
      | deblk c => exact hp
      | last c =>
        have hne : c ≠ c0 := by
          rintro rfl
          exact absurd he.2 (lt_irrefl _)
        rw [step_pointFilters_of_ne h b hne, padCtb_inside hr hanchor,
          (padCtb_left hr hwd hborder).2 (hpads c (.inr he))]
        exact hp
  rw [picture, heq, List.foldl_append, List.foldl_cons, hconst before fun _ he => he]
  apply hkept after _ fun _ he => he
  have hsao : (pointFilters h b).sao c0 (fun _ _ => a) = fun r col =>
      if r = r0 ∧ col = 0 then b else a := if_pos rfl
  rw [step, hsao, padCtb_inside hr hanchor, (padCtb_left hr hwd hborder).2 (hpads c0 (.inl rfl))]
  exact ⟨if_pos ⟨rfl, rfl⟩, if_neg (by omega)⟩

theorem not_complete_of_stale (hk : k.Fits s) (hpad : 0 < k.padWd) {jobs : List (List Ctb)}
    (horder : DecodingOrder s jobs.flatten) (hmem : c0 ∈ jobs.flatten)
    (h : k.SaoMayChange c0 r0 0) (hr : 0 ≤ r0 ∧ r0 < k.ht)
    (hpads : ∀ c, c = c0 ∨ Later jobs.flatten c0 c → ¬ LeftPads s k c r0) {a b : α}
    (hab : a ≠ b) : ¬ k.Complete (picture s k (pointFilters h b) jobs fun _ _ => a) := by
  intro hcomplete
  obtain ⟨hanchor, hborder⟩ := stale hk hpad horder hmem h hr hpads a b
  have hsame := hcomplete r0 (-1) ⟨by have := hk.padHt; omega, by have := hk.padHt; omega⟩
    ⟨by omega, by have := hk.wd_pos; omega⟩
  rw [show max 0 (min r0 (k.ht - 1)) = r0 by omega,
    show max 0 (min (-1) (k.wd - 1)) = 0 by have := hk.wd_pos; omega, hanchor, hborder] at hsame
  exact hab hsame

end

-- ---------------------------------------------------------------------------
-- The components
-- ---------------------------------------------------------------------------

section

variable (s : Sps)

theorem ctbSize_mem : (s.i1Log2CtbSize = 4 ∧ s.ctbSize = 16) ∨
    (s.i1Log2CtbSize = 5 ∧ s.ctbSize = 32) ∨ (s.i1Log2CtbSize = 6 ∧ s.ctbSize = 64) := by
  unfold Sps.ctbSize
  rcases s.log2_mem with h | h | h <;> simp [h]

theorem hSampFactor_mem : (s.i1ChromaFormatIdc = 3 ∧ s.hSampFactor = 1) ∨
    (s.i1ChromaFormatIdc ≠ 3 ∧ s.hSampFactor = 2) := by
  unfold Sps.hSampFactor chromaFmtIdcYuv444
  split_ifs with h <;> simp [h]

theorem vSampFactor_mem : (s.i1ChromaFormatIdc = 1 ∧ s.vSampFactor = 2) ∨
    (s.i1ChromaFormatIdc ≠ 1 ∧ s.vSampFactor = 1) := by
  unfold Sps.vSampFactor chromaFmtIdcYuv420
  split_ifs with h <;> simp [h]

theorem luma_fits : s.luma.Fits s := by
  have hw := s.width_pos
  have hh := s.height_pos
  constructor <;> dsimp only [Sps.luma, Sps.i2PicWdInCtb, Sps.i2PicHtInCtb, padSize] <;>
    rcases ctbSize_mem s with ⟨-, h⟩ | ⟨-, h⟩ | ⟨-, h⟩ <;> (try rw [h]) <;> omega

theorem chroma_fits : s.chroma.Fits s := by
  have hw := s.width_pos
  have hwm := s.width_mul
  have hh := s.height_pos
  have hhm := s.height_mul
  constructor <;> dsimp only [Sps.chroma, Sps.i2PicWdInCtb, Sps.i2PicHtInCtb, padSize] <;>
    rcases ctbSize_mem s with ⟨-, h⟩ | ⟨-, h⟩ | ⟨-, h⟩ <;>
    rcases hSampFactor_mem s with ⟨-, h'⟩ | ⟨-, h'⟩ <;>
    rcases vSampFactor_mem s with ⟨-, h''⟩ | ⟨-, h''⟩ <;> simp only [h, h', h''] <;> omega

/-- The pictures whose left border is padded in time: the chroma of a coding tree block has more
than eight columns, or there is one column of blocks, or the rows are those of 4:2:0 and the
second block of the row above comes before the row, or the picture has no more rows than are
padded in the end. -/
def Sps.PaddedInTime (order : List Ctb) : Prop :=
  s.i1ChromaFormatIdc = chromaFmtIdcMonochrome ∨ s.i1ChromaFormatIdc = chromaFmtIdcYuv444 ∨
    s.i1Log2CtbSize ≠ 4 ∨ s.i2PicWidthInLumaSamples ≤ 16 ∨
    (s.i1ChromaFormatIdc = chromaFmtIdcYuv420 ∧
      ∀ y : Nat, 2 ≤ y → (y : Int) < s.i2PicHtInCtb →
        order.idxOf ⟨1, y - 1⟩ < order.idxOf ⟨0, y⟩) ∨
    (s.i1ChromaFormatIdc = chromaFmtIdcYuv422 ∧ s.i2PicHeightInLumaSamples ≤ 8)

theorem luma_leftInTime (order : List Ctb) : LeftInTime s s.luma order := by
  have hctb := ctbSize_mem s
  have hwd : s.luma.ctbWd = s.ctbSize := rfl
  refine .inl ?_
  omega

theorem chroma_leftInTime (hfmt : s.i1ChromaFormatIdc ≠ chromaFmtIdcMonochrome)
    (h : s.PaddedInTime order) : LeftInTime s s.chroma order := by
  have hctb := ctbSize_mem s
  have hsamp := hSampFactor_mem s
  have vsamp := vSampFactor_mem s
  have hwd : s.chroma.ctbWd = s.ctbSize / s.hSampFactor := rfl
  have hht : s.chroma.ctbHt = s.ctbSize / s.vSampFactor := rfl
  have hlag : s.chroma.lag = 8 * s.vSampFactor := rfl
  have hrows : s.chroma.ht = s.i2PicHeightInLumaSamples / s.vSampFactor := rfl
  by_cases hsixteen : s.i1Log2CtbSize = 4 ∧ s.i1ChromaFormatIdc ≠ 3
  · have hsize : s.ctbSize = 16 := by omega
    rcases h with h | h | h | h | ⟨h, htile⟩ | ⟨h, hle⟩
    · exact absurd h hfmt
    · exact absurd h hsixteen.2
    · exact absurd hsixteen.1 h
    · refine .inr (.inl ?_)
      have hpos := s.width_pos
      unfold Sps.i2PicWdInCtb
      rw [hsize]
      omega
    · have hv : s.vSampFactor = 2 := by
        unfold chromaFmtIdcYuv420 at h
        omega
      rw [hv] at hht hlag
      exact .inr (.inr (.inl ⟨rfl, by omega, by omega, htile⟩))
    · have hv : s.vSampFactor = 1 := by
        unfold chromaFmtIdcYuv422 at h
        omega
      rw [hv] at hlag hrows
      exact .inr (.inr (.inr ⟨rfl, by omega⟩))
  · refine .inl ?_
    rcases hsamp with ⟨h3, hh⟩ | ⟨h3, hh⟩
    · rw [hh] at hwd
      omega
    · rw [hh] at hwd
      omega

/-- The chroma of a block of sixteen samples, in formats with half the width. -/
theorem chroma_sixteen (h3 : s.i1ChromaFormatIdc ≠ 3) (hlog2 : s.i1Log2CtbSize = 4) :
    s.chroma.ctbWd = 8 ∧ s.chroma.wd = s.i2PicWidthInLumaSamples / 2 ∧ s.chroma.padWd = 40 := by
  have hctb := ctbSize_mem s
  have hh : s.hSampFactor = 2 := if_neg h3
  have hsize : s.ctbSize = 16 := by omega
  dsimp only [Sps.chroma, padSize]
  rw [hh, hsize]
  exact ⟨by decide, rfl, by decide⟩

/-- 4:2:2: the first rows are not padded again after the second block has been filtered. -/
theorem stale_yuv422 (hfmt : s.i1ChromaFormatIdc = 2) (hlog2 : s.i1Log2CtbSize = 4)
    (hwd : 16 < s.i2PicWidthInLumaSamples) (hht : 8 < s.i2PicHeightInLumaSamples)
    {jobs : List (List Ctb)} (horder : DecodingOrder s jobs.flatten) :
    ∃ (f : s.chroma.Filters (Nat × Nat)) (p : Plane (Nat × Nat)),
      ¬ s.chroma.Complete (picture s s.chroma f jobs p) := by
  obtain ⟨hcw, hw, hpad⟩ := chroma_sixteen s (by omega) hlog2
  have hctb := ctbSize_mem s
  have hv : s.vSampFactor = 1 := if_neg (by rw [hfmt]; decide)
  have hch : s.chroma.ctbHt = 16 := by
    change s.ctbSize / s.vSampFactor = 16
    rw [hv]
    omega
  have hh : s.chroma.ht = s.i2PicHeightInLumaSamples := by
    change s.i2PicHeightInLumaSamples / s.vSampFactor = _
    rw [hv]
    omega
  have hlag : s.chroma.lag = 8 := by
    change 8 * s.vSampFactor = 8
    rw [hv]
    rfl
  have hmem : (⟨1, 0⟩ : Ctb) ∈ jobs.flatten := by
    rw [horder.mem]
    have hwm := s.width_mul
    have hwgt := (chroma_fits s).wd_le
    have hhle := (chroma_fits s).ht_le
    rw [hcw, hw] at hwgt
    rw [hch, hh] at hhle
    dsimp only
    omega
  have hsao : s.chroma.SaoMayChange ⟨1, 0⟩ 0 0 := by
    unfold Component.SaoMayChange Component.SaoSpan Component.saoSize
    rw [hcw, hch, hh]
    dsimp only
    refine ⟨.inl ⟨by decide, ?_⟩, .inr ⟨by decide, by decide, by decide⟩⟩
    split_ifs <;> omega
  refine ⟨_, _, not_complete_of_stale (chroma_fits s) (by omega) horder hmem hsao
    ⟨le_rfl, by omega⟩ ?_ (show ((0, 0) : Nat × Nat) ≠ (1, 0) by decide)⟩
  rintro c hc (⟨hx, hlo, -⟩ | ⟨-, -, -, hbot⟩)
  · rw [hch, hlag] at hlo
    rcases hc with rfl | ⟨hmono, -⟩
    · cases hx
    · dsimp only at hmono
      omega
  · omega

/-- 4:2:0: nor are the rows of a block that comes before the second block of the row above. -/
theorem stale_yuv420 (hfmt : s.i1ChromaFormatIdc = 1) (hlog2 : s.i1Log2CtbSize = 4)
    (hwd : 16 < s.i2PicWidthInLumaSamples) {y : Nat} (hy2 : 2 ≤ y)
    (hy : (y : Int) < s.i2PicHtInCtb) {jobs : List (List Ctb)}
    (horder : DecodingOrder s jobs.flatten)
    (hidx : ¬ jobs.flatten.idxOf ⟨1, y - 1⟩ < jobs.flatten.idxOf ⟨0, y⟩) :
    ∃ (f : s.chroma.Filters (Nat × Nat)) (p : Plane (Nat × Nat)),
      ¬ s.chroma.Complete (picture s s.chroma f jobs p) := by
  obtain ⟨hcw, hw, hpad⟩ := chroma_sixteen s (by omega) hlog2
  have hctb := ctbSize_mem s
  have hv : s.vSampFactor = 2 := if_pos hfmt
  have hch : s.chroma.ctbHt = 8 := by
    change s.ctbSize / s.vSampFactor = 8
    rw [hv]
    omega
  have hlag : s.chroma.lag = 16 := by
    change 8 * s.vSampFactor = 16
    rw [hv]
    rfl
  have hgt := (chroma_fits s).ht_gt
  rw [hch] at hgt
  have hmem : (⟨1, y - 1⟩ : Ctb) ∈ jobs.flatten := by
    rw [horder.mem]
    have hwm := s.width_mul
    have hwle := (chroma_fits s).wd_le
    rw [hcw, hw] at hwle
    dsimp only
    omega
  have hsao : s.chroma.SaoMayChange ⟨1, y - 1⟩ (8 * y - 16) 0 := by
    unfold Component.SaoMayChange Component.SaoSpan
    rw [hcw, hch]
    dsimp only
    exact ⟨.inr (by omega), .inr ⟨by decide, by decide, by decide⟩⟩
  refine ⟨_, _, not_complete_of_stale (chroma_fits s) (by omega) horder hmem hsao
    (by omega) ?_ (show ((0, 0) : Nat × Nat) ≠ (1, 0) by decide)⟩
  rintro c hc (⟨hx, hlo, hhi⟩ | ⟨-, hlastY, -, hbot⟩)
  · rw [hch, hlag, if_neg (by rintro ⟨-, h⟩; cases h)] at hhi
    rw [hch, hlag] at hlo
    have hcy : c = ⟨0, y⟩ := by
      cases c
      simp only [Ctb.mk.injEq]
      dsimp only at *
      omega
    rcases hc with rfl | ⟨-, hlater⟩
    · cases hx
    · rw [hcy] at hlater
      exact hidx hlater
  · omega

end

/-- A picture without tiles, a row of blocks in a call. -/
def rasterJobs (s : Sps) : List (List Ctb) :=
  (List.range s.i2PicHtInCtb.toNat).map fun y =>
    (List.range s.i2PicWdInCtb.toNat).map fun x => ⟨x, y⟩

theorem raster_order (s : Sps) : DecodingOrder s (rasterJobs s).flatten where
  mem := by
    rintro ⟨x, y⟩
    simp only [rasterJobs, List.mem_flatten, List.mem_map, List.mem_range]
    constructor
    · rintro ⟨_, ⟨y', hy, rfl⟩, hx⟩
      obtain ⟨x', hmem, heq⟩ := List.mem_map.mp hx
      have hlt := List.mem_range.mp hmem
      cases heq
      omega
    · rintro ⟨hx, hy⟩
      exact ⟨_, ⟨y, by omega, rfl⟩, List.mem_map.mpr ⟨x, List.mem_range.mpr (by omega), rfl⟩⟩
  mono := by
    apply List.pairwise_flatten.mpr
    constructor
    · intro row hrow
      obtain ⟨y, -, rfl⟩ := List.mem_map.mp hrow
      apply List.pairwise_map.mpr
      apply List.pairwise_lt_range.imp
      rintro x x' hlt ⟨hle, -⟩
      dsimp only at hle
      omega
    · apply List.pairwise_map.mpr
      apply List.pairwise_lt_range.imp
      rintro y y' hlt c hc c' hc' ⟨-, hle⟩
      obtain ⟨x, -, rfl⟩ := List.mem_map.mp hc
      obtain ⟨x', -, rfl⟩ := List.mem_map.mp hc'
      dsimp only at hle
      omega

/-- The border is complete, whatever the filters do, exactly for these pictures. -/
theorem ihevcdProcess_padding (s : Sps) (jobs : List (List Ctb))
    (horder : DecodingOrder s jobs.flatten) :
    ((∀ (f : s.luma.Filters Nat) (p : Plane Nat), s.luma.Complete (picture s s.luma f jobs p)) ∧
      (s.i1ChromaFormatIdc ≠ chromaFmtIdcMonochrome →
        ∀ (f : s.chroma.Filters (Nat × Nat)) (p : Plane (Nat × Nat)),
          s.chroma.Complete (picture s s.chroma f jobs p))) ↔
      s.PaddedInTime jobs.flatten := by
  constructor
  · rintro ⟨-, hchroma⟩
    by_contra hlate
    simp only [Sps.PaddedInTime, not_or, not_and, not_forall, not_le, not_not] at hlate
    obtain ⟨hmono, h444, hlog2, hwd, h420, h422⟩ := hlate
    have hle := s.fmt_le
    unfold chromaFmtIdcMonochrome at hmono
    unfold chromaFmtIdcYuv444 at h444
    by_cases hfmt : s.i1ChromaFormatIdc = 1
    · obtain ⟨y, hy2, hy, hidx⟩ := h420 hfmt
      obtain ⟨f, p, hnot⟩ := stale_yuv420 s hfmt hlog2 hwd hy2 hy horder hidx
      exact hnot (hchroma hmono f p)
    · have hfmt' : s.i1ChromaFormatIdc = 2 := by
        clear h420 h422
        omega
      obtain ⟨f, p, hnot⟩ := stale_yuv422 s hfmt' hlog2 hwd (h422 hfmt') horder
      exact hnot (hchroma hmono f p)
  · intro h
    refine ⟨fun f p => ?_, fun hfmt f p => ?_⟩
    · exact picture_complete (luma_fits s) horder (luma_leftInTime s _)
    · exact picture_complete (chroma_fits s) horder (chroma_leftInTime s hfmt h)

def someSps : Sps where
  i1ChromaFormatIdc := 2
  i1Log2CtbSize := 5
  i2PicWidthInLumaSamples := 72
  i2PicHeightInLumaSamples := 40
  fmt_le := by decide
  log2_mem := by decide
  width_pos := by decide
  width_mul := by decide
  height_pos := by decide
  height_mul := by decide

theorem ihevcdProcess_padding_raster :
    someSps.i1ChromaFormatIdc ≠ chromaFmtIdcMonochrome ∧
      ∀ (f : someSps.chroma.Filters (Nat × Nat)) (p : Plane (Nat × Nat)),
        someSps.chroma.Complete (picture someSps someSps.chroma f (rasterJobs someSps) p) :=
  ⟨by decide, ((ihevcdProcess_padding someSps (rasterJobs someSps) (raster_order someSps)).mpr
    (.inr (.inr (.inl (by decide))))).2 (by decide)⟩

def staleSps : Sps where
  i1ChromaFormatIdc := 2
  i1Log2CtbSize := 4
  i2PicWidthInLumaSamples := 32
  i2PicHeightInLumaSamples := 16
  fmt_le := by decide
  log2_mem := by decide
  width_pos := by decide
  width_mul := by decide
  height_pos := by decide
  height_mul := by decide

instance : Decidable (Component.SaoSpan ctb size n i) :=
  inferInstanceAs (Decidable ((_ ∧ _) ∨ (_ ∧ _ ∧ _)))

instance (k : Component) : Decidable (k.SaoMayChange c row col) :=
  inferInstanceAs (Decidable (_ ∧ _))

/-- The band offset 1 for U, in a picture whose samples are all in its band. -/
def bandOffset (k : Component) : k.Filters (Nat × Nat) where
  deblk _ p := p
  sao c p := fun row col =>
    if k.SaoMayChange c row col then ((p row col).1 + 1, (p row col).2) else p row col
  deblk_outside := fun _ _ _ _ _ => rfl
  sao_outside := fun _ _ _ _ h => if_neg h

/-- The first sample is 129 in the end, the one to its left still 128. -/
theorem padding_stale_counterexample :
    picture staleSps staleSps.chroma (bandOffset staleSps.chroma) (rasterJobs staleSps)
        (fun _ _ => (128, 128)) 0 0 = (129, 128) ∧
      picture staleSps staleSps.chroma (bandOffset staleSps.chroma) (rasterJobs staleSps)
        (fun _ _ => (128, 128)) 0 (-1) = (128, 128) := by
  decide +kernel

end Libhevc.Padding
