import Libhevc.Decoder.IntraNbrFlags

/-!
# The order of the transform units of a CTB

The transform units are the leaves of a quadtree, one child after the other, and
nodes that begin outside the picture are passed over. So what is done before a
unit is what lies before it in the z-scan.
-/

namespace Libhevc.Decoder

inductive TuTree
  | tu
  | split (c0 c1 c2 c3 : TuTree)

/-- The units of a node of `2 ^ k` by `2 ^ k` 4x4 blocks in column `x` and row `y`. -/
def TuTree.tus (p : NbrProc) : TuTree → (k x y : Nat) → List NbrTu
  | .tu, k, x, y =>
    if 4 * x < p.colsRemaining ∧ 4 * y < p.rowsRemaining then [⟨x, y, k⟩] else []
  | .split _ _ _ _, 0, _, _ => []
  | .split c0 c1 c2 c3, k + 1, x, y =>
    c0.tus p k x y ++ c1.tus p k (x + 2 ^ k) y ++ c2.tus p k x (y + 2 ^ k) ++
      c3.tus p k (x + 2 ^ k) (y + 2 ^ k)

/-- A node that goes over the edge of the picture is split, and a 4x4 block is not. -/
def TuTree.Ok (p : NbrProc) : TuTree → (k x y : Nat) → Prop
  | .tu, k, x, y => 4 * x < p.colsRemaining → 4 * y < p.rowsRemaining →
    4 * (x + 2 ^ k) ≤ p.colsRemaining ∧ 4 * (y + 2 ^ k) ≤ p.rowsRemaining
  | .split _ _ _ _, 0, _, _ => False
  | .split c0 c1 c2 c3, k + 1, x, y =>
    c0.Ok p k x y ∧ c1.Ok p k (x + 2 ^ k) y ∧ c2.Ok p k x (y + 2 ^ k) ∧
      c3.Ok p k (x + 2 ^ k) (y + 2 ^ k)

-- ---------------------------------------------------------------------------
-- Lists of units in the order of the z-scan
-- ---------------------------------------------------------------------------

/-- The units cover the blocks of `A`, and before each unit the blocks before it in the z-scan. -/
structure ZOrdered (A : Nat → Nat → Prop) (l : List NbrTu) : Prop where
  inside : ∀ t ∈ l, ∀ a b, t.Covers a b → A a b
  covers : ∀ a b, A a b → ∃ t ∈ l, t.Covers a b
  order : ∀ before t behind, l = before ++ t :: behind → ∀ a b, A a b →
    ((∃ u ∈ before, u.Covers a b) ↔ zIndex a b < zIndex t.b4PosX t.b4PosY)

theorem NbrTu.covers_corner (t : NbrTu) : t.Covers t.b4PosX t.b4PosY := by
  have hpos : 0 < t.minTus := Nat.two_pow_pos _
  exact ⟨Nat.le_refl _, by omega, Nat.le_refl _, by omega⟩

theorem ZOrdered.append {A B : Nat → Nat → Prop} (hA : ZOrdered A l) (hB : ZOrdered B r)
    (hlt : ∀ a b c d, A a b → B c d → zIndex a b < zIndex c d) :
    ZOrdered (fun a b => A a b ∨ B a b) (l ++ r) := by
  refine ⟨fun t ht a b hcov => ?_, fun a b hab => ?_, fun before t behind heq a b hab => ?_⟩
  · rcases List.mem_append.mp ht with hl | hr
    · exact Or.inl (hA.inside t hl a b hcov)
    · exact Or.inr (hB.inside t hr a b hcov)
  · rcases hab with h | h
    · obtain ⟨t, ht, hcov⟩ := hA.covers a b h
      exact ⟨t, List.mem_append_left r ht, hcov⟩
    · obtain ⟨t, ht, hcov⟩ := hB.covers a b h
      exact ⟨t, List.mem_append_right l ht, hcov⟩
  · rcases List.append_eq_append_iff.mp heq with ⟨mid, hbefore, hr⟩ | ⟨mid, hl, hrest⟩
    · -- the unit is one of the second list
      have hcorner : B t.b4PosX t.b4PosY :=
        hB.inside t (by rw [hr]; simp) _ _ t.covers_corner
      have horder := hB.order mid t behind hr
      rw [hbefore]
      constructor
      · rintro ⟨u, hu, hcov⟩
        rcases List.mem_append.mp hu with hul | hum
        · exact hlt _ _ _ _ (hA.inside u hul a b hcov) hcorner
        · have hmem : u ∈ r := by
            rw [hr]
            exact List.mem_append_left _ hum
          exact (horder a b (hB.inside u hmem a b hcov)).mp ⟨u, hum, hcov⟩
      · intro hz
        rcases hab with h | h
        · obtain ⟨u, hu, hcov⟩ := hA.covers a b h
          exact ⟨u, List.mem_append_left _ hu, hcov⟩
        · obtain ⟨u, hu, hcov⟩ := (horder a b h).mpr hz
          exact ⟨u, List.mem_append_right _ hu, hcov⟩
    · cases mid with
      | nil =>
        -- the unit is the first one of the second list
        rw [List.nil_append] at hrest
        rw [List.append_nil] at hl
        have hcorner : B t.b4PosX t.b4PosY :=
          hB.inside t (by rw [← hrest]; exact List.mem_cons_self) _ _ t.covers_corner
        rw [← hl]
        constructor
        · rintro ⟨u, hu, hcov⟩
          exact hlt _ _ _ _ (hA.inside u hu a b hcov) hcorner
        · intro hz
          rcases hab with h | h
          · exact hA.covers a b h
          · obtain ⟨u, hu, -⟩ := (hB.order [] t behind hrest.symm a b h).mpr hz
            exact absurd hu List.not_mem_nil
      | cons t' mid =>
        -- the unit is one of the first list
        obtain ⟨rfl, -⟩ := List.cons.inj hrest
        have horder := hA.order before t mid hl
        have hcorner : A t.b4PosX t.b4PosY :=
          hA.inside t (by rw [hl]; simp) _ _ t.covers_corner
        constructor
        · rintro ⟨u, hu, hcov⟩
          have hmem : u ∈ l := by
            rw [hl]
            exact List.mem_append_left _ hu
          exact (horder a b (hA.inside u hmem a b hcov)).mp ⟨u, hu, hcov⟩
        · intro hz
          rcases hab with h | h
          · exact (horder a b h).mpr hz
          · exact absurd hz (Nat.not_lt.mpr (hlt _ _ _ _ hcorner h).le)

theorem ZOrdered.congr {A B : Nat → Nat → Prop} (h : ZOrdered A l) (heq : ∀ a b, A a b ↔ B a b) :
    ZOrdered B l :=
  ⟨fun t ht a b hcov => (heq a b).mp (h.inside t ht a b hcov),
    fun a b hab => h.covers a b ((heq a b).mpr hab),
    fun before t behind hl a b hab => h.order before t behind hl a b ((heq a b).mpr hab)⟩

-- ---------------------------------------------------------------------------
-- The nodes of the tree
-- ---------------------------------------------------------------------------

/-- The blocks of a node that are in the picture. -/
def NodeBlocks (p : NbrProc) (k x y a b : Nat) : Prop :=
  (x ≤ a ∧ a < x + 2 ^ k ∧ y ≤ b ∧ b < y + 2 ^ k) ∧
    4 * a < p.colsRemaining ∧ 4 * b < p.rowsRemaining

/-- The blocks of two children of a node are in the order of the children. -/
theorem zIndex_child_lt (hk : k < 4) (ha : a / 2 ^ k = 2 * X + i) (hb : b / 2 ^ k = 2 * Y + j)
    (hc : c / 2 ^ k = 2 * X + i') (hd : d / 2 ^ k = 2 * Y + j') (hi : i < 2) (hj : j < 2)
    (hi' : i' < 2) (hj' : j' < 2) (hlt : 2 * j + i < 2 * j' + i') : zIndex a b < zIndex c d := by
  obtain ⟨m, hm⟩ : ∃ m, 4 = m + 1 + k := ⟨3 - k, by omega⟩
  have hindex : ∀ a b i j, i < 2 → j < 2 → a / 2 ^ k = 2 * X + i → b / 2 ^ k = 2 * Y + j →
      zIndex a b / 4 ^ k = 4 * ZScan.index m X Y + 2 * j + i := by
    intro a b i j hi hj ha hb
    have hscan : zIndex a b = ZScan.index (m + 1 + k) a b := by
      rw [← hm]
      rfl
    rw [hscan, ZScan.index_scale, ha, hb, ZScan.index,
      show (2 * X + i) / 2 = X by omega, show (2 * Y + j) / 2 = Y by omega,
      show (2 * X + i) % 2 = i by omega, show (2 * Y + j) % 2 = j by omega]
  refine Nat.lt_of_div_lt_div (c := 4 ^ k) ?_
  rw [hindex a b i j hi hj ha hb, hindex c d i' j' hi' hj' hc hd]
  omega

theorem NodeBlocks.div (h : NodeBlocks p k (2 ^ k * u) (2 ^ k * v) a b) :
    a / 2 ^ k = u ∧ b / 2 ^ k = v := by
  obtain ⟨⟨hlo, hhi, hlo', hhi'⟩, -⟩ := h
  rw [← Nat.mul_succ] at hhi hhi'
  constructor
  · exact Nat.div_eq_of_lt_le (Nat.mul_comm _ _ ▸ hlo) (Nat.mul_comm _ _ ▸ hhi)
  · exact Nat.div_eq_of_lt_le (Nat.mul_comm _ _ ▸ hlo') (Nat.mul_comm _ _ ▸ hhi')

/-- A node of the CTB, at a multiple of its size. -/
structure NodeIn (p : NbrProc) (k x y : Nat) : Prop where
  alignX : 2 ^ k ∣ x
  alignY : 2 ^ k ∣ y
  fitX : 4 * (x + 2 ^ k) ≤ p.ctbSize
  fitY : 4 * (y + 2 ^ k) ≤ p.ctbSize

theorem NodeIn.size (h : NodeIn p k x y) (hp : p.Ok) : k ≤ 4 := by
  have hfit := h.fitX
  have hpow : 2 ^ k ≤ 2 ^ 4 := by
    rcases hp.size with hs | hs | hs <;> omega
  exact (Nat.pow_le_pow_iff_right (by decide)).mp hpow

/-- The four children of a node. -/
theorem NodeIn.child (h : NodeIn p (k + 1) x y) (hi : i < 2) (hj : j < 2) :
    NodeIn p k (x + 2 ^ k * i) (y + 2 ^ k * j) := by
  have hfitX := h.fitX
  have hfitY := h.fitY
  have hdvd : 2 ^ k ∣ 2 ^ (k + 1) := ⟨2, pow_succ 2 k⟩
  have hmulX : 2 ^ k * i ≤ 2 ^ k * 1 := Nat.mul_le_mul_left _ (by omega)
  have hmulY : 2 ^ k * j ≤ 2 ^ k * 1 := Nat.mul_le_mul_left _ (by omega)
  rw [pow_succ] at hfitX hfitY
  exact ⟨(hdvd.trans h.alignX).add ⟨i, rfl⟩, (hdvd.trans h.alignY).add ⟨j, rfl⟩, by omega,
    by omega⟩

/-- The blocks of a node are those of its children. -/
theorem nodeBlocks_split (p : NbrProc) (k x y a b : Nat) :
    ((NodeBlocks p k x y a b ∨ NodeBlocks p k (x + 2 ^ k) y a b) ∨
      NodeBlocks p k x (y + 2 ^ k) a b) ∨ NodeBlocks p k (x + 2 ^ k) (y + 2 ^ k) a b ↔
      NodeBlocks p (k + 1) x y a b := by
  unfold NodeBlocks
  rw [pow_succ]
  omega

/-- The blocks of a child are before those of the next ones. -/
theorem NodeBlocks.zIndex_lt (hin : NodeIn p (k + 1) x y) (hk : k < 4) (i j i' j' : Nat)
    (hi : i < 2 ∧ j < 2) (hi' : i' < 2 ∧ j' < 2) (hij : 2 * j + i < 2 * j' + i')
    (h : NodeBlocks p k (x + 2 ^ k * i) (y + 2 ^ k * j) a b)
    (h' : NodeBlocks p k (x + 2 ^ k * i') (y + 2 ^ k * j') c d) : zIndex a b < zIndex c d := by
  obtain ⟨X, rfl⟩ := hin.alignX
  obtain ⟨Y, rfl⟩ := hin.alignY
  have hcorner : ∀ Z n, 2 ^ (k + 1) * Z + 2 ^ k * n = 2 ^ k * (2 * Z + n) := by
    intro Z n
    rw [pow_succ, Nat.mul_assoc, ← Nat.mul_add]
  rw [hcorner, hcorner] at h h'
  exact zIndex_child_lt hk h.div.1 h.div.2 h'.div.1 h'.div.2 hi.1 hi.2 hi'.1 hi'.2 hij

theorem zOrdered_nil (h : ∀ a b, ¬ A a b) : ZOrdered A [] :=
  ⟨fun _ ht => absurd ht List.not_mem_nil, fun a b hab => absurd hab (h a b),
    fun _ _ _ _ a b hab => absurd hab (h a b)⟩

/-- A unit is one stretch of the scan, which begins at its corner. -/
theorem zOrdered_unit (hin : NodeIn p k x y) (hp : p.Ok)
    (hfit : 4 * (x + 2 ^ k) ≤ p.colsRemaining ∧ 4 * (y + 2 ^ k) ≤ p.rowsRemaining) :
    ZOrdered (NodeBlocks p k x y) [⟨x, y, k⟩] := by
  refine ⟨fun t ht a b hcov => ?_, fun a b hab => ⟨_, List.mem_singleton_self _, hab.1⟩,
    fun before t behind heq a b hab => ?_⟩
  · cases List.mem_singleton.mp ht
    obtain ⟨hlo, hhi, hlo', hhi'⟩ := hcov
    dsimp only [NbrTu.minTus] at hlo hhi hlo' hhi'
    exact ⟨⟨hlo, hhi, hlo', hhi'⟩, by omega, by omega⟩
  · cases before with
    | cons u us => cases us <;> cases heq
    | nil =>
      obtain ⟨rfl, -⟩ := List.cons.inj heq
      obtain ⟨⟨hlo, hhi, hlo', hhi'⟩, -⟩ := hab
      have hfitX := hin.fitX
      have hfitY := hin.fitY
      have hctb : p.ctbSize ≤ 64 := by
        rcases hp.size with hs | hs | hs <;> omega
      have hle : zIndex x y ≤ zIndex a b := by
        by_cases hsame : x = a ∧ y = b
        · rw [hsame.1, hsame.2]
        · exact (ZScan.index_lt (k := 4) (by omega) (by omega) hlo hlo' (by omega)).le
      constructor
      · rintro ⟨u, hu, -⟩
        exact absurd hu List.not_mem_nil
      · exact fun hz => absurd hz (Nat.not_lt.mpr hle)

/-- The leaves of a node come in the order of the z-scan. -/
theorem TuTree.zOrdered (hp : p.Ok) (t : TuTree) (hin : NodeIn p k x y) (hok : t.Ok p k x y) :
    ZOrdered (NodeBlocks p k x y) (t.tus p k x y) := by
  induction t generalizing k x y with
  | tu =>
    unfold tus
    split
    · rename_i hpic
      exact zOrdered_unit hin hp (hok hpic.1 hpic.2)
    · rename_i hpic
      refine zOrdered_nil fun a b hab => ?_
      obtain ⟨⟨hlo, -, hlo', -⟩, ha, hb⟩ := hab
      exact hpic ⟨by omega, by omega⟩
  | split c0 c1 c2 c3 ih0 ih1 ih2 ih3 =>
    cases k with
    | zero => exact hok.elim
    | succ k =>
      obtain ⟨hok0, hok1, hok2, hok3⟩ := hok
      have hk : k < 4 := hin.size hp
      have hin0 := hin.child (i := 0) (j := 0) (by decide) (by decide)
      have hin1 := hin.child (i := 1) (j := 0) (by decide) (by decide)
      have hin2 := hin.child (i := 0) (j := 1) (by decide) (by decide)
      have hin3 := hin.child (i := 1) (j := 1) (by decide) (by decide)
      simp only [Nat.mul_zero, Nat.mul_one, Nat.add_zero] at hin0 hin1 hin2 hin3
      have h0 := ih0 hin0 hok0
      have h1 := ih1 hin1 hok1
      have h2 := ih2 hin2 hok2
      have h3 := ih3 hin3 hok3
      unfold tus
      refine (((h0.append h1 ?_).append h2 ?_).append h3 ?_).congr (nodeBlocks_split p k x y)
      · intro a b c d hab hcd
        exact NodeBlocks.zIndex_lt hin hk 0 0 1 0 (by decide) (by decide) (by decide)
          (by simpa using hab) (by simpa using hcd)
      · rintro a b c d (hab | hab) hcd
        · exact NodeBlocks.zIndex_lt hin hk 0 0 0 1 (by decide) (by decide) (by decide)
            (by simpa using hab) (by simpa using hcd)
        · exact NodeBlocks.zIndex_lt hin hk 1 0 0 1 (by decide) (by decide) (by decide)
            (by simpa using hab) (by simpa using hcd)
      · rintro a b c d ((hab | hab) | hab) hcd
        · exact NodeBlocks.zIndex_lt hin hk 0 0 1 1 (by decide) (by decide) (by decide)
            (by simpa using hab) (by simpa using hcd)
        · exact NodeBlocks.zIndex_lt hin hk 1 0 1 1 (by decide) (by decide) (by decide)
            (by simpa using hab) (by simpa using hcd)
        · exact NodeBlocks.zIndex_lt hin hk 0 1 1 1 (by decide) (by decide) (by decide)
            (by simpa using hab) (by simpa using hcd)

/-- The leaves of a node are transform units of the CTB. -/
theorem TuTree.tus_ok (hp : p.Ok) (t : TuTree) (hin : NodeIn p k x y) (hok : t.Ok p k x y) :
    ∀ tu ∈ t.tus p k x y, tu.Ok p := by
  induction t generalizing k x y with
  | tu =>
    intro tu htu
    unfold tus at htu
    split at htu
    · rename_i hpic
      cases List.mem_singleton.mp htu
      have hfit := hok hpic.1 hpic.2
      exact ⟨hin.size hp, hin.alignX, hin.alignY, Nat.le_min.mpr ⟨hin.fitX, hfit.1⟩,
        Nat.le_min.mpr ⟨hin.fitY, hfit.2⟩⟩
    · cases htu
  | split c0 c1 c2 c3 ih0 ih1 ih2 ih3 =>
    cases k with
    | zero => exact hok.elim
    | succ k =>
      obtain ⟨hok0, hok1, hok2, hok3⟩ := hok
      have hin0 := hin.child (i := 0) (j := 0) (by decide) (by decide)
      have hin1 := hin.child (i := 1) (j := 0) (by decide) (by decide)
      have hin2 := hin.child (i := 0) (j := 1) (by decide) (by decide)
      have hin3 := hin.child (i := 1) (j := 1) (by decide) (by decide)
      simp only [Nat.mul_zero, Nat.mul_one, Nat.add_zero] at hin0 hin1 hin2 hin3
      intro tu htu
      unfold tus at htu
      simp only [List.mem_append] at htu
      rcases htu with ((h | h) | h) | h
      · exact ih0 hin0 hok0 tu h
      · exact ih1 hin1 hok1 tu h
      · exact ih2 hin2 hok2 tu h
      · exact ih3 hin3 hok3 tu h

-- ---------------------------------------------------------------------------
-- The units of a CTB
-- ---------------------------------------------------------------------------

/-- The units of a CTB in the order of the bitstream. -/
def NbrProc.ctbTus (p : NbrProc) (t : TuTree) : List NbrTu := t.tus p (p.i1Log2CtbSize - 2) 0 0

def NbrProc.CtbTree (p : NbrProc) (t : TuTree) : Prop := t.Ok p (p.i1Log2CtbSize - 2) 0 0

theorem four_mul_ctb {p : NbrProc} (hp : p.Ok) :
    4 * 2 ^ (p.i1Log2CtbSize - 2) = p.ctbSize := by
  have hlog : 2 ≤ p.i1Log2CtbSize := by
    by_contra hlog
    have hpow : 2 ^ p.i1Log2CtbSize ≤ 2 ^ 1 := Nat.pow_le_pow_right (by decide) (by omega)
    have hsize := hp.size
    rw [ctbSize_eq_pow] at hsize
    omega
  rw [show 4 = 2 ^ 2 by rfl, ← pow_add, Nat.add_sub_cancel' hlog, ctbSize_eq_pow]

theorem nodeIn_ctb {p : NbrProc} (hp : p.Ok) : NodeIn p (p.i1Log2CtbSize - 2) 0 0 := by
  have hfit : 4 * (0 + 2 ^ (p.i1Log2CtbSize - 2)) = p.ctbSize := by
    rw [Nat.zero_add, four_mul_ctb hp]
  exact ⟨dvd_zero _, dvd_zero _, hfit.le, hfit.le⟩

theorem ctbTus_ok {p : NbrProc} {t : TuTree} (hp : p.Ok) (ht : p.CtbTree t) :
    ∀ tu ∈ p.ctbTus t, tu.Ok p :=
  t.tus_ok hp (nodeIn_ctb hp) ht

/-- What is done before a unit of the CTB is what lies before it in the z-scan. -/
theorem doneBefore_of_ctbTus {p : NbrProc} {t : TuTree} (hp : p.Ok) (ht : p.CtbTree t)
    (hunit : p.ctbTus t = before ++ tu :: behind) : DoneBefore p before tu := by
  have hin := nodeIn_ctb hp
  have hctb := four_mul_ctb hp
  refine ⟨fun u hu => ?_, fun a b ha hb => ?_⟩
  · refine ctbTus_ok hp ht u ?_
    rw [hunit]
    exact List.mem_append_left _ hu
  · refine (t.zOrdered hp hin ht).order before tu behind hunit a b ?_
    exact ⟨by omega, by omega, by omega⟩

/-- The second CTB of a picture of 32 by 16 samples. -/
def secondCtbProc : NbrProc where
  i4CtbX := 1
  i4CtbY := 0
  i1Log2CtbSize := 4
  i2PicWidthInLumaSamples := 32
  i2PicHeightInLumaSamples := 16
  u1LeftCtbAvail := true
  u1TopCtbAvail := false
  u1TopLtCtbAvail := false
  u1TopRtCtbAvail := false
  i1ConstrainedIntraPredFlag := false
  pu1PicIntraFlag := fun _ => 0

def secondCtbScan : CtbScan secondCtbProc where
  ctbAddrTs x y := (x + 2 * y).toNat
  tileId _ _ := 0
  sliceAddr _ _ := 0
  raster := by
    rintro x y x' y' ⟨hx, hx', hy, hy'⟩ ⟨hX, hX', hY, hY'⟩ - h
    have hsize : (secondCtbProc.ctbSize : Int) = 16 := rfl
    have hwidth : (secondCtbProc.i2PicWidthInLumaSamples : Int) = 32 := rfl
    have hheight : (secondCtbProc.i2PicHeightInLumaSamples : Int) = 16 := rfl
    rw [hsize] at hx hx' hy hy' hX hX' hY hY'
    omega

end Libhevc.Decoder
