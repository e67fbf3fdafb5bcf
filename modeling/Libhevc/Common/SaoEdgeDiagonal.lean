import Libhevc.Common.SaoEdgeLaws

/-!
# The diagonal SAO edge offset kernels

Classes 2 and 3 compute two corners apart and write them back at the end. The
scan between may store anything there.
-/

namespace Libhevc

open Raster

variable {g : SaoArgs} {b out : SaoBufs} {n : Nat} {dr dc : Int} {r c : Nat}

-- ---------------------------------------------------------------------------
-- Corners
-- ---------------------------------------------------------------------------

theorem storeCorner_eq (src : Int → UInt8) (p : Int) (pos : Nat → UInt8) :
    storeCorner g src p pos = rowSet src p g.step pos := foldl_update

/-- Two corners written behind the scan of the rest. -/
theorem SaoArgs.Block.corners (hb : g.Block n) {G : Nat → Nat → UInt8}
    (hblk : ∀ r < g.ht, ∀ c < g.wd, ¬(r = rA ∧ cA ≤ c ∧ c < cA + g.step) →
      ¬(r = rB ∧ cB ≤ c ∧ c < cB + g.step) →
      blk (g.pu1Src + (r : Int) * g.srcStrd + c) = G r c)
    (hA : ∀ i < g.step, posA i = G rA (cA + i)) (hB : ∀ i < g.step, posB i = G rB (cB + i))
    (hcA : cA + g.step ≤ g.wd) (hcB : cB + g.step ≤ g.wd) (hr : r < g.ht) (hc : c < g.wd) :
    rowSet (rowSet blk (g.pu1Src + (rA : Int) * g.srcStrd + cA) g.step posA)
      (g.pu1Src + (rB : Int) * g.srcStrd + cB) g.step posB
      (g.pu1Src + (r : Int) * g.srcStrd + c) = G r c := by
  by_cases hinB : r = rB ∧ cB ≤ c ∧ c < cB + g.step
  · obtain ⟨rfl, hfrom, hto⟩ := hinB
    have hcell : g.pu1Src + (r : Int) * g.srcStrd + c =
        g.pu1Src + (r : Int) * g.srcStrd + cB + (c - cB : Nat) := by omega
    rw [hcell, rowSet_at (by omega), hB _ (by omega), Nat.add_sub_cancel' hfrom]
  rw [rowSet_outside (cell_apart hb.strd hc hcB hinB)]
  by_cases hinA : r = rA ∧ cA ≤ c ∧ c < cA + g.step
  · obtain ⟨rfl, hfrom, hto⟩ := hinA
    have hcell : g.pu1Src + (r : Int) * g.srcStrd + c =
        g.pu1Src + (r : Int) * g.srcStrd + cA + (c - cA : Nat) := by omega
    rw [hcell, rowSet_at (by omega), hA _ (by omega), Nat.add_sub_cancel' hfrom]
  rw [rowSet_outside (cell_apart hb.strd hc hcA hinA)]
  exact hblk r hr c hc hinA hinB

/-- The pointer behind the scan leads back to the first row and to the last one. -/
theorem corner_top (g : SaoArgs) :
    g.firstRow + (g.rows : Int) * g.srcStrd -
        (if g.pu1Avail 2 ≠ 0 then (g.rows : Int) else g.rows + 1) * g.srcStrd = g.pu1Src := by
  have hrows : (if g.pu1Avail 2 ≠ 0 then (g.rows : Int) else g.rows + 1) =
      ((g.rows + g.skipTop : Nat) : Int) := by
    rcases skipTop_cases g with ⟨hflag, hskip⟩ | ⟨hflag, hskip⟩
    · rw [if_neg (not_not_intro hflag), hskip, Nat.cast_add, Nat.cast_one]
    · rw [if_pos hflag, hskip, Nat.add_zero]
  rw [hrows, firstRow_add, Int.add_sub_cancel]

theorem SaoArgs.Block.corner_bottom (hb : g.Block n) (d : Int) :
    g.firstRow + (g.rows : Int) * g.srcStrd + (if g.pu1Avail 3 ≠ 0 then d - g.srcStrd else d) =
      g.pu1Src + ((g.ht - 1 : Nat) : Int) * g.srcStrd + d := by
  have htop := skipTop_cases g
  have hht := hb.ht
  have hrows : g.rows + g.skipTop = g.ht - g.skipBottom := by
    unfold SaoArgs.rows
    have hbottom := skipBottom_cases g
    omega
  rw [firstRow_add, hrows]
  rcases skipBottom_cases g with ⟨hflag, hskip⟩ | ⟨hflag, hskip⟩
  · rw [if_neg (not_not_intro hflag), hskip]
  · obtain ⟨h, hh⟩ : ∃ h, g.ht = h + 1 := ⟨g.ht - 1, by omega⟩
    rw [if_pos hflag, hskip, Nat.sub_zero, hh, Nat.add_sub_cancel]
    push_cast
    ring

/-- The corners are in the block. -/
theorem corners_outside (hrA : rA < g.ht) (hrB : rB < g.ht) (hcA : cA + g.step ≤ g.wd)
    (hcB : cB + g.step ≤ g.wd)
    (ha : ∀ r < g.ht, ∀ c < g.wd, a ≠ g.pu1Src + (r : Int) * g.srcStrd + c) :
    rowSet (rowSet blk (g.pu1Src + (rA : Int) * g.srcStrd + cA) g.step posA)
      (g.pu1Src + (rB : Int) * g.srcStrd + cB) g.step posB a = blk a := by
  have hapart : ∀ r < g.ht, ∀ c, c + g.step ≤ g.wd →
      a < g.pu1Src + (r : Int) * g.srcStrd + c ∨
        g.pu1Src + (r : Int) * g.srcStrd + c + g.step ≤ a := by
    intro r hr c hc
    by_contra hin
    have hcell := ha r hr (a - (g.pu1Src + (r : Int) * g.srcStrd)).toNat (by omega)
    omega
  rw [rowSet_outside (hapart rB hrB cB hcB), rowSet_outside (hapart rA hrA cA hcA)]

/-- A corner is the filtered sample where its flag is that of the one neighbour outside. -/
theorem cornerSample_filtered (hflag : g.Avail dr dc r c ↔ flag ≠ 0) (hi : c % g.step = i)
    (hx : x = g.sampleAt b r c) (hy : y = g.sampleAt b (r - dr) (c - dc * g.step))
    (hz : z = g.sampleAt b (r + dr) (c + dc * g.step)) :
    cornerSample (g.offset i) flag x y z = g.filtered b dr dc r c := by
  unfold cornerSample SaoArgs.filtered
  rw [hi, ← hx, ← hy, ← hz, addOffset_eq]
  exact if_congr hflag.symm rfl rfl

-- ---------------------------------------------------------------------------
-- Class 2
-- ---------------------------------------------------------------------------

/-- The sample a row is compared with above on the left: in the first columns it is read from the
left buffer, also in the first row. -/
def SaoArgs.upperLeft (g : SaoArgs) (b : SaoBufs) (r c : Nat) : UInt8 :=
  if c < g.step then b.left (g.step * ((r : Int) - 1) + c)
  else g.sampleAt b ((r : Int) - 1) ((c : Int) - g.step)

/-- What the scan of class 2 stores. -/
def SaoArgs.class2Value (g : SaoArgs) (b : SaoBufs) (k : Nat) : Nat → UInt8 :=
  edgeValue g b.src (g.firstRow + (k : Int) * g.srcStrd) g.mask
    (fun c => sgn (g.sampleAt b (k + g.skipTop : Nat) c) (g.upperLeft b (k + g.skipTop) c))
    (fun c => sgn (b.src (g.firstRow + (k : Int) * g.srcStrd + c))
      (b.src (g.firstRow + (k : Int) * g.srcStrd + c + g.step + g.srcStrd)))

theorem class2_rows (hb : g.Block n) (signs signsTmp : Nat → Int) :
    ((List.range g.rows).foldl (class2Row g g.firstRow (g.leftCpy b.left))
        (b.src, class2SignUp g b signs, signsTmp)).1 =
      blockSet b.src g.firstRow g.srcStrd g.wd (g.class2Value b) g.rows := by
  let I : Nat → (Nat → Int) × (Nat → Int) → Prop := fun k s => ∀ c, g.step ≤ c → c < g.wd →
    s.1 c = sgn (g.sampleAt b (k + g.skipTop : Nat) c)
      (g.sampleAt b ((k + g.skipTop : Nat) - 1) ((c : Int) - g.step))
  have hstep : ∀ k < g.rows, ∀ m' s, Ahead g (g.firstRow + (k : Int) * g.srcStrd) m' b.src →
      I k s → ∃ s', class2Row g g.firstRow (g.leftCpy b.left) (m', s) k =
        (rowSet m' (g.firstRow + k * g.srcStrd) g.wd (g.class2Value b k), s') ∧
        I (k + 1) s' := by
    intro k hk m' s hm' hI
    obtain ⟨signUp, signUpTmp⟩ := s
    have hP := firstRow_add g k
    have hwide := hb.wide
    have hstrd := hb.strd
    let U : Nat → Int := fun i =>
      if i < g.step then sgn (m' (g.firstRow + (k : Int) * g.srcStrd + i))
        (g.leftCpy b.left (g.step * ((k : Int) - 1) + i)) else signUp i
    have hU : ∀ c < g.wd, U c =
        sgn (g.sampleAt b (k + g.skipTop : Nat) c) (g.upperLeft b (k + g.skipTop) c) := by
      intro c hc
      unfold SaoArgs.upperLeft
      rcases Nat.lt_or_ge c g.step with hlt | hge
      · have hread := hm' (g.firstRow + (k : Int) * g.srcStrd + c) (by omega)
        have hleft : (g.step : Int) * ((k : Int) - 1) + c + g.step * g.skipTop =
            g.step * (((k + g.skipTop : Nat) : Int) - 1) + c := by
          push_cast
          ring
        rw [if_pos hlt, ← row_sample hP (Int.natCast_nonneg c), ← hread, ← hleft]
        exact if_pos hlt
      · rw [if_neg (Nat.not_lt.mpr hge), ← hI c hge hc]
        exact if_neg (Nat.not_lt.mpr hge)
    obtain ⟨s', hrow, hs'⟩ := class2_row (σ := signUpTmp) (u := U) hb.strd hm'
    refine ⟨(s', U), (congrArg (fun st => (st.1, st.2, U)) hrow).trans ?_, fun c hc hc' => ?_⟩
    · refine congrArg (·, s', U) (rowSet_congr fun c hc => ?_)
      unfold SaoArgs.class2Value edgeValue
      rw [hU c hc]
    · have hnext := row_sample_next (b := b) hP (Int.natCast_nonneg c)
      have hsame := row_sample (b := b) hP (show 0 ≤ (c : Int) - g.step by omega)
      rw [← Int.add_sub_assoc] at hsame
      refine (hs' c hc hc').trans ?_
      rw [hnext, hsame]
      congr 2
      all_goals omega
  have hinit : I 0 (class2SignUp g b signs, signsTmp) := by
    intro c hc hc'
    have habove := above_sample (b := b) (b.src (g.firstRow + c))
      (show 0 ≤ (c : Int) - g.step by omega) (show (c : Int) - g.step < g.wd by omega)
    have hP := firstRow_add g 0
    rw [Int.natCast_zero, Int.zero_mul, Int.add_zero] at hP
    rw [Nat.zero_add, ← row_sample (hP.trans (by rw [Nat.zero_add])) (Int.natCast_nonneg c),
      ← habove]
    have htop : ((c : Int) - g.step).toNat = c - g.step := by omega
    rw [htop, ← Int.add_sub_assoc]
    exact if_pos ⟨hc, hc'⟩
  obtain ⟨s', hfold, -⟩ := foldl_block (I := I) hstep hinit
  rw [hfold]

/-- Off the two corners on the diagonal the sides decide. -/
theorem avail_class2 (hb : g.Block n) (hr : r < g.ht) (hc : c < g.wd)
    (hA : ¬(r = 0 ∧ c < g.step)) (hB : ¬(r + 1 = g.ht ∧ g.wd ≤ c + g.step)) :
    g.Avail 1 1 r c ↔
      (r = 0 → g.pu1Avail 2 ≠ 0) ∧ (r + 1 = g.ht → g.pu1Avail 3 ≠ 0) ∧
      (c < g.step → g.pu1Avail 0 ≠ 0) ∧ (g.wd ≤ c + g.step → g.pu1Avail 1 ≠ 0) := by
  have hwide := hb.wide
  unfold SaoArgs.Avail SaoArgs.flagAt
  split_ifs <;> omega

theorem class2Value_filtered (hb : g.Block n) (hc : c < g.wd) (hr : r < g.ht)
    (hin : g.skipTop ≤ r ∧ r + g.skipBottom < g.ht)
    (hA : ¬(r = 0 ∧ c < g.step)) (hB : ¬(r + 1 = g.ht ∧ g.wd ≤ c + g.step)) :
    g.class2Value b (r - g.skipTop) c = g.filtered b 1 1 r c := by
  have hP := firstRow_add g (r - g.skipTop)
  have htop := skipTop_cases g
  have hbottom := skipBottom_cases g
  have havail := avail_class2 hb hr hc hA hB
  rw [Nat.sub_add_cancel hin.1] at hP
  unfold SaoArgs.class2Value
  refine edgeValue_filtered hP ?_ (fun h => ?_) fun _ => ?_
  · rw [hb.mask_at hc]
    refine if_congr ?_ rfl rfl
    rw [havail]
    omega
  · rw [Nat.sub_add_cancel hin.1]
    congr 1
    unfold SaoArgs.upperLeft
    split
    · rw [sampleAt_left (by omega) (by omega) (by omega), Int.one_mul]
      congr 1
      omega
    · rw [Int.one_mul]
  · have hnext := row_sample_next (b := b) hP (show 0 ≤ (c : Int) + g.step by omega)
    rw [← Int.add_assoc] at hnext
    rw [row_sample hP (Int.natCast_nonneg c), hnext, Int.one_mul]

theorem class2Pos00_filtered (hb : g.Block n) (hi : i < g.step) :
    class2Pos00 g b i = g.filtered b 1 1 0 (0 + i) := by
  have hwide := hb.wide
  have hht := hb.ht
  have hP : g.pu1Src = g.pu1Src + ((0 : Nat) : Int) * g.srcStrd := by simp
  rw [Nat.zero_add]
  refine cornerSample_filtered ?_ (Nat.mod_eq_of_lt hi) (row_sample hP (Int.natCast_nonneg i))
    ?_ ?_
  · unfold SaoArgs.Avail SaoArgs.flagAt
    split_ifs <;> omega
  · unfold SaoArgs.sampleAt
    rw [if_pos (by omega), if_pos (by omega)]
    congr 1
    omega
  · have hnext := row_sample_next (b := b) hP (show 0 ≤ (i : Int) + g.step by omega)
    rw [← Int.add_assoc] at hnext
    rw [hnext, Int.one_mul]

theorem class2PosWdHt_filtered (hb : g.Block n) (hi : i < g.step) :
    class2PosWdHt g b i = g.filtered b 1 1 (g.ht - 1) (g.wd - g.step + i) := by
  have hwide := hb.wide
  have hht := hb.ht
  have hcol : (0 : Int) ≤ (g.wd - g.step + i : Nat) := Int.natCast_nonneg _
  have haddr : g.pu1Src + g.wd - g.step + i + ((g.ht : Int) - 1) * g.srcStrd =
      g.pu1Src + ((g.ht - 1 : Nat) : Int) * g.srcStrd + (g.wd - g.step + i : Nat) := by
    rw [show ((g.ht : Int) - 1) = (g.ht - 1 : Nat) by omega]
    omega
  have hmod : (g.wd - g.step + i) % g.step = i := by
    rw [hb.wd, ← Nat.mul_sub_one, Nat.mul_add_mod, Nat.mod_eq_of_lt hi]
  unfold class2PosWdHt
  refine cornerSample_filtered ?_ hmod ?_ ?_ ?_
  · unfold SaoArgs.Avail SaoArgs.flagAt
    split_ifs <;> omega
  · rw [haddr, row_sample rfl hcol]
  · have habove := row_sample_above (g := g) (b := b) (r := g.ht - 1) rfl (by omega)
      (show 0 ≤ ((g.wd - g.step + i : Nat) : Int) - g.step by omega)
    rw [← Int.add_sub_assoc] at habove
    rw [haddr, habove, Int.one_mul]
  · have hnext := row_sample_next (g := g) (b := b) (r := g.ht - 1) rfl
      (show 0 ≤ ((g.wd - g.step + i : Nat) : Int) + g.step by omega)
    rw [← Int.add_assoc] at hnext
    rw [haddr, hnext, Int.one_mul]

theorem class2_filters (hb : g.Block n) (signs signsTmp : Nat → Int) :
    g.Filters b (edgeOffsetClass2 g b signs signsTmp) 1 1 := by
  obtain ⟨hleft, htopbuf, htopLeft⟩ := hb.buffers (b := b)
  have hwide := hb.wide
  have hht := hb.ht
  have htop := skipTop_cases g
  have hbottom := skipBottom_cases g
  have hsrc : (edgeOffsetClass2 g b signs signsTmp).src = rowSet (rowSet
      (blockSet b.src g.firstRow g.srcStrd g.wd (g.class2Value b) g.rows)
      (g.pu1Src + ((0 : Nat) : Int) * g.srcStrd + (0 : Nat)) g.step (class2Pos00 g b))
      (g.pu1Src + ((g.ht - 1 : Nat) : Int) * g.srcStrd + (g.wd - g.step : Nat)) g.step
      (class2PosWdHt g b) := by
    unfold edgeOffsetClass2
    dsimp only
    have hlast : g.pu1Src + ((g.ht - 1 : Nat) : Int) * g.srcStrd + (g.wd - g.step : Nat) =
        g.pu1Src + ((g.ht - 1 : Nat) : Int) * g.srcStrd + ((g.wd : Int) - g.step) := by omega
    rw [class2_rows hb, storeCorner_eq, storeCorner_eq, corner_top, hb.corner_bottom, hlast]
    congr 2
    omega
  refine ⟨fun r hr c hc => ?_, fun a ha => ?_, hleft, htopbuf, htopLeft⟩
  · rw [hsrc]
    refine hb.corners (fun r hr c hc hA hB => ?_) (fun i hi => ?_) (fun i hi => ?_) (by omega)
      (by omega) hr hc
    · rw [hb.rows_at hc]
      split
      · rename_i hin
        exact class2Value_filtered hb hc hr hin (by omega) (by omega)
      · rename_i hout
        have havail : ¬g.Avail 1 1 r c := fun h => by
          rw [avail_class2 hb hr hc (by omega) (by omega)] at h
          omega
        unfold SaoArgs.filtered
        rw [if_neg havail, sampleAt_src (Int.natCast_nonneg r) (Int.natCast_nonneg c)]
    · exact class2Pos00_filtered hb hi
    · exact class2PosWdHt_filtered hb hi
  · rw [hsrc, corners_outside (by omega) (by omega) (by omega) (by omega) ha, rows_outside ha]

-- ---------------------------------------------------------------------------
-- Class 3
-- ---------------------------------------------------------------------------

/-- The sample a row is compared with above on the right: behind the last columns it is read from
the picture, also in the first row. -/
def SaoArgs.upperRight (g : SaoArgs) (b : SaoBufs) (r c : Nat) : UInt8 :=
  if g.wd - g.step ≤ c then
    b.src (g.pu1Src + (r : Int) * g.srcStrd + c + g.step - g.srcStrd)
  else g.sampleAt b ((r : Int) - 1) ((c : Int) + g.step)

/-- What the scan of class 3 stores. -/
def SaoArgs.class3Value (g : SaoArgs) (b : SaoBufs) (k : Nat) : Nat → UInt8 :=
  edgeValue g b.src (g.firstRow + (k : Int) * g.srcStrd) g.mask
    (fun c => sgn (g.sampleAt b (k + g.skipTop : Nat) c) (g.upperRight b (k + g.skipTop) c))
    (fun c => sgn (b.src (g.firstRow + (k : Int) * g.srcStrd + c))
      (if c < g.step then g.leftCpy b.left (g.step * ((k : Int) + 1) + c)
        else b.src (g.firstRow + (k : Int) * g.srcStrd + c - g.step + g.srcStrd)))

theorem class3_rows (hb : g.Block n) (signs : Nat → Int) :
    ((List.range g.rows).foldl (class3Row g g.firstRow (g.leftCpy b.left))
        (b.src, class3SignUp g b signs)).1 =
      blockSet b.src g.firstRow g.srcStrd g.wd (g.class3Value b) g.rows := by
  let I : Nat → (Nat → Int) → Prop := fun k s => ∀ c, c + g.step < g.wd →
    s c = sgn (g.sampleAt b (k + g.skipTop : Nat) c)
      (g.sampleAt b ((k + g.skipTop : Nat) - 1) ((c : Int) + g.step))
  have hwide := hb.wide
  have hstrd := hb.strd
  have hstep : ∀ k < g.rows, ∀ m' s, Ahead g (g.firstRow + (k : Int) * g.srcStrd) m' b.src →
      I k s → ∃ s', class3Row g g.firstRow (g.leftCpy b.left) (m', s) k =
        (rowSet m' (g.firstRow + k * g.srcStrd) g.wd (g.class3Value b k), s') ∧
        I (k + 1) s' := by
    intro k hk m' signUp hm' hI
    have hP := firstRow_add g k
    let U : Nat → Int := fun col =>
      if g.wd - g.step ≤ col ∧ col < g.wd then
        sgn (m' (g.firstRow + (k : Int) * g.srcStrd + col))
          (m' (g.firstRow + (k : Int) * g.srcStrd + col + g.step - g.srcStrd))
      else signUp col
    have hU : ∀ c < g.wd, U c =
        sgn (g.sampleAt b (k + g.skipTop : Nat) c) (g.upperRight b (k + g.skipTop) c) := by
      intro c hc
      unfold SaoArgs.upperRight
      rcases Nat.lt_or_ge c (g.wd - g.step) with hlt | hge
      · rw [if_neg (Nat.not_le.mpr hlt), ← hI c (by omega)]
        exact if_neg (by omega)
      · have hread := hm' (g.firstRow + (k : Int) * g.srcStrd + c) (by omega)
        have hread' := hm' (g.firstRow + (k : Int) * g.srcStrd + c + g.step - g.srcStrd) (by omega)
        rw [if_pos hge, ← row_sample hP (Int.natCast_nonneg c), ← hP, ← hread, ← hread']
        exact if_pos ⟨hge, hc⟩
    obtain ⟨s', hrow, hs'⟩ := class3_row (u := U) (g.leftCpy b.left) k
      hb.strd (by omega) hm' fun c _ => rfl
    refine ⟨s', hrow.trans (congrArg (·, s') (rowSet_congr fun c hc => ?_)), fun c hc => ?_⟩
    · unfold SaoArgs.class3Value edgeValue
      rw [hU c hc]
    · have hnext := row_sample_next (b := b) hP (Int.natCast_nonneg c)
      have hsame := row_sample (b := b) hP (show 0 ≤ (c : Int) + g.step by omega)
      rw [← Int.add_assoc] at hsame
      refine (hs' c hc).trans ?_
      rw [hnext, hsame]
      congr 2
      all_goals omega
  have hinit : I 0 (class3SignUp g b signs) := by
    intro c hc
    have habove := above_sample (b := b) (b.src (g.firstRow + c))
      (show 0 ≤ (c : Int) + g.step by omega) (show (c : Int) + g.step < g.wd by omega)
    have hP := firstRow_add g 0
    rw [Int.natCast_zero, Int.zero_mul, Int.add_zero] at hP
    rw [Nat.zero_add, ← row_sample (hP.trans (by rw [Nat.zero_add])) (Int.natCast_nonneg c),
      ← habove]
    have htop : ((c : Int) + g.step).toNat = c + g.step := by omega
    rw [htop, ← Int.add_assoc]
    exact if_pos (by omega)
  obtain ⟨s', hfold, -⟩ := foldl_block (I := I) hstep hinit
  rw [hfold]

/-- Off the two corners on the diagonal the sides decide. -/
theorem avail_class3 (hb : g.Block n) (hr : r < g.ht) (hc : c < g.wd)
    (hA : ¬(r = 0 ∧ g.wd ≤ c + g.step)) (hB : ¬(r + 1 = g.ht ∧ c < g.step)) :
    g.Avail 1 (-1) r c ↔
      (r = 0 → g.pu1Avail 2 ≠ 0) ∧ (r + 1 = g.ht → g.pu1Avail 3 ≠ 0) ∧
      (c < g.step → g.pu1Avail 0 ≠ 0) ∧ (g.wd ≤ c + g.step → g.pu1Avail 1 ≠ 0) := by
  have hwide := hb.wide
  unfold SaoArgs.Avail SaoArgs.flagAt
  split_ifs <;> omega

theorem class3Value_filtered (hb : g.Block n) (hc : c < g.wd) (hr : r < g.ht)
    (hin : g.skipTop ≤ r ∧ r + g.skipBottom < g.ht)
    (hA : ¬(r = 0 ∧ g.wd ≤ c + g.step)) (hB : ¬(r + 1 = g.ht ∧ c < g.step)) :
    g.class3Value b (r - g.skipTop) c = g.filtered b 1 (-1) r c := by
  have hP := firstRow_add g (r - g.skipTop)
  have htop := skipTop_cases g
  have hbottom := skipBottom_cases g
  have hwide := hb.wide
  have havail := avail_class3 hb hr hc hA hB
  have hright : (c : Int) - -1 * g.step = c + g.step := by omega
  have hleft : (c : Int) + -1 * g.step = c - g.step := by omega
  rw [Nat.sub_add_cancel hin.1] at hP
  unfold SaoArgs.class3Value
  refine edgeValue_filtered hP ?_ (fun h => ?_) fun _ => ?_
  · rw [hb.mask_at hc]
    refine if_congr ?_ rfl rfl
    rw [havail]
    omega
  · rw [Nat.sub_add_cancel hin.1, hright]
    congr 1
    unfold SaoArgs.upperRight
    split
    · have habove := row_sample_above (g := g) (b := b) (r := r) rfl (by omega)
        (show 0 ≤ (c : Int) + g.step by omega)
      rw [← habove, Int.add_assoc (_ + _) _ _]
    · rfl
  · rw [row_sample hP (Int.natCast_nonneg c), hleft]
    congr 1
    split
    · rw [sampleAt_left (by omega) (by omega) (by omega)]
      unfold SaoArgs.leftCpy
      congr 1
      obtain ⟨k, rfl⟩ := Nat.exists_eq_add_of_le hin.1
      rw [Nat.add_sub_cancel_left]
      push_cast
      ring
    · have hnext := row_sample_next (b := b) hP (show 0 ≤ (c : Int) - g.step by omega)
      rw [← Int.add_sub_assoc] at hnext
      exact hnext

theorem class3PosWd0_filtered (hb : g.Block n) (hi : i < g.step) :
    class3PosWd0 g b i = g.filtered b 1 (-1) 0 (g.wd - g.step + i) := by
  have hwide := hb.wide
  have hht := hb.ht
  have hP : g.pu1Src = g.pu1Src + ((0 : Nat) : Int) * g.srcStrd := by simp
  have hcol : (0 : Int) ≤ (g.wd - g.step + i : Nat) := Int.natCast_nonneg _
  have haddr : g.pu1Src + g.wd - g.step + i = g.pu1Src + (g.wd - g.step + i : Nat) := by omega
  have hmod : (g.wd - g.step + i) % g.step = i := by
    rw [hb.wd, ← Nat.mul_sub_one, Nat.mul_add_mod, Nat.mod_eq_of_lt hi]
  unfold class3PosWd0
  refine cornerSample_filtered ?_ hmod ?_ ?_ ?_
  · unfold SaoArgs.Avail SaoArgs.flagAt
    split_ifs <;> omega
  · rw [haddr, row_sample hP hcol]
  · unfold SaoArgs.sampleAt
    rw [if_pos (by omega), if_neg (by omega), if_neg (by omega)]
    congr 1
    omega
  · have hnext := row_sample_next (b := b) hP
      (show 0 ≤ ((g.wd - g.step + i : Nat) : Int) - g.step by omega)
    rw [← Int.add_sub_assoc] at hnext
    rw [haddr, hnext]
    congr 1
    omega

theorem class3Pos0Ht_filtered (hb : g.Block n) (hi : i < g.step) :
    class3Pos0Ht g b i = g.filtered b 1 (-1) (g.ht - 1) (0 + i) := by
  have hwide := hb.wide
  have hht := hb.ht
  have hlast : ((g.ht : Int) - 1) = (g.ht - 1 : Nat) := by omega
  rw [Nat.zero_add]
  unfold class3Pos0Ht
  refine cornerSample_filtered ?_ (Nat.mod_eq_of_lt hi) ?_ ?_ ?_
  · unfold SaoArgs.Avail SaoArgs.flagAt
    split_ifs <;> omega
  · rw [hlast, row_sample rfl (Int.natCast_nonneg i)]
  · have habove := row_sample_above (g := g) (b := b) (r := g.ht - 1) rfl (by omega)
      (show 0 ≤ (i : Int) + g.step by omega)
    rw [← Int.add_assoc] at habove
    rw [hlast, habove]
    congr 1
    omega
  · unfold SaoArgs.sampleAt
    rw [if_neg (by omega), if_pos (by omega), if_neg (by omega)]
    congr 1
    omega

theorem class3_filters (hb : g.Block n) (signs : Nat → Int) :
    g.Filters b (edgeOffsetClass3 g b signs) 1 (-1) := by
  obtain ⟨hleft, htopbuf, htopLeft⟩ := hb.buffers (b := b)
  have hwide := hb.wide
  have hht := hb.ht
  have htop := skipTop_cases g
  have hbottom := skipBottom_cases g
  have hsrc : (edgeOffsetClass3 g b signs).src = rowSet (rowSet
      (blockSet b.src g.firstRow g.srcStrd g.wd (g.class3Value b) g.rows)
      (g.pu1Src + ((0 : Nat) : Int) * g.srcStrd + (g.wd - g.step : Nat)) g.step (class3PosWd0 g b))
      (g.pu1Src + ((g.ht - 1 : Nat) : Int) * g.srcStrd + (0 : Nat)) g.step
      (class3Pos0Ht g b) := by
    unfold edgeOffsetClass3
    dsimp only
    have hfirst : g.pu1Src + ((0 : Nat) : Int) * g.srcStrd + (g.wd - g.step : Nat) =
        g.pu1Src + g.wd - g.step := by omega
    rw [class3_rows hb, storeCorner_eq, storeCorner_eq, corner_top, ← Int.zero_sub,
      hb.corner_bottom, hfirst]
    rfl
  refine ⟨fun r hr c hc => ?_, fun a ha => ?_, hleft, htopbuf, htopLeft⟩
  · rw [hsrc]
    refine hb.corners (fun r hr c hc hA hB => ?_) (fun i hi => ?_) (fun i hi => ?_) (by omega)
      (by omega) hr hc
    · rw [hb.rows_at hc]
      split
      · rename_i hin
        exact class3Value_filtered hb hc hr hin (by omega) (by omega)
      · rename_i hout
        have havail : ¬g.Avail 1 (-1) r c := fun h => by
          rw [avail_class3 hb hr hc (by omega) (by omega)] at h
          omega
        unfold SaoArgs.filtered
        rw [if_neg havail, sampleAt_src (Int.natCast_nonneg r) (Int.natCast_nonneg c)]
    · exact class3PosWd0_filtered hb hi
    · exact class3Pos0Ht_filtered hb hi
  · rw [hsrc, corners_outside (by omega) (by omega) (by omega) (by omega) ha, rows_outside ha]

-- ---------------------------------------------------------------------------
-- The kernels
-- ---------------------------------------------------------------------------

/-- Every edge kernel filters a block of at least two samples of a component in width and two in
height as if from a copy, whatever the pixels, the neighbours, the flags and the stack hold. -/
theorem ihevcSaoEdgeOffset_filters (k : SaoBlock) (b : SaoBufs) (signs signsTmp : Nat → Int)
    (n : Nat) (hn : 2 ≤ n) (hht : 2 ≤ k.ht) (hstrd : k.wd ≤ k.srcStrd) :
    (k.wd = n → ∀ o,
      (k.luma o).Filters b (ihevcSaoEdgeOffsetClass0 k o b) 0 1 ∧
      (k.luma o).Filters b (ihevcSaoEdgeOffsetClass1 k o b) 1 0 ∧
      (k.luma o).Filters b (ihevcSaoEdgeOffsetClass2 k o signs signsTmp b) 1 1 ∧
      (k.luma o).Filters b (ihevcSaoEdgeOffsetClass3 k o signs b) 1 (-1)) ∧
    (k.wd = 2 * n → ∀ u v,
      (k.chroma u v).Filters b (ihevcSaoEdgeOffsetClass0Chroma k u v b) 0 1 ∧
      (k.chroma u v).Filters b (ihevcSaoEdgeOffsetClass1Chroma k u v b) 1 0 ∧
      (k.chroma u v).Filters b (ihevcSaoEdgeOffsetClass2Chroma k u v signs signsTmp b) 1 1 ∧
      (k.chroma u v).Filters b (ihevcSaoEdgeOffsetClass3Chroma k u v signs b) 1 (-1)) := by
  constructor
  · intro hwd o
    have hb : (k.luma o).Block n :=
      ⟨Or.inl rfl, hwd.trans (Nat.one_mul n).symm, hn, hht, hstrd⟩
    exact ⟨class0_filters hb, class1_filters hb, class2_filters hb signs signsTmp,
      class3_filters hb signs⟩
  · intro hwd u v
    have hb : (k.chroma u v).Block n := ⟨Or.inr rfl, hwd, hn, hht, hstrd⟩
    exact ⟨class0_filters hb, class1_filters hb, class2_filters hb signs signsTmp,
      class3_filters hb signs⟩

/-- A block of four columns and two rows, nothing available on the left and above. -/
def cornerBlock : SaoBlock :=
  { pu1Src := 100, srcStrd := 10, pu1SrcTopRight := fun _ => 7, pu1SrcBotLeft := fun _ => 9
    pu1Avail := fun i => if i = 1 ∨ i = 3 ∨ i = 7 then 1 else 0, wd := 4, ht := 2 }

def ramp : SaoBufs :=
  { src := fun a => if a % 3 = 0 then 200 else 100, left := fun _ => 0, top := fun _ => 0
    topLeft := fun _ => 0 }

def unitOffset : SaoOffset := { val := fun i => [0, 5, 3, -3, -5].getD i 0, val_zero := rfl }

theorem ihevcSaoEdgeOffset_filters_cornerBlock :
    (cornerBlock.luma unitOffset).Filters ramp
        (ihevcSaoEdgeOffsetClass2 cornerBlock unitOffset (fun _ => 0) (fun _ => 1) ramp) 1 1 ∧
      (cornerBlock.chroma unitOffset unitOffset).Filters ramp
        (ihevcSaoEdgeOffsetClass3Chroma cornerBlock unitOffset unitOffset (fun _ => 0) ramp)
        1 (-1) :=
  ⟨((ihevcSaoEdgeOffset_filters cornerBlock ramp (fun _ => 0) (fun _ => 1) 4 (by decide)
      (by decide) (by decide)).1 rfl unitOffset).2.2.1,
    ((ihevcSaoEdgeOffset_filters cornerBlock ramp (fun _ => 0) (fun _ => 1) 2 (by decide)
      (by decide) (by decide)).2 rfl unitOffset unitOffset).2.2.2⟩

end Libhevc
