import Libhevc.Lib.Grid
import Libhevc.Decoder.Tiles

/-!
# The grids a PPS can have

What `ihevcd_parse_pps` accepts as tiles cuts the picture along both sides.
-/

namespace Libhevc.Decoder

open Memory Grid

/-- The tiles lie in a grid that covers a picture of `wd × ht` CTBs. -/
structure PpsTiles.InGrid (pps : PpsTiles) (wd ht : Nat) (X Y : Nat → Nat) : Prop where
  cols : Cuts pps.i1NumTileColumns wd X
  rows : Cuts pps.i1NumTileRows ht Y
  tile : ∀ r < pps.i1NumTileRows, ∀ c < pps.i1NumTileColumns,
    pps.psTile (r * pps.i1NumTileColumns + c) =
      { u1PosX := X c, u1PosY := Y r, u2Wd := X (c + 1) - X c, u2Ht := Y (r + 1) - Y r }
  untiled : pps.i1TilesEnabledFlag = 0 → pps.i1NumTileColumns = 1 ∧ pps.i1NumTileRows = 1

-- ---------------------------------------------------------------------------
-- The sizes along one side
-- ---------------------------------------------------------------------------

/-- An accepted part keeps within the side; the last one ends with it. -/
theorem tileValue_ok (hv : tileValue uniform num size i start s = .ok (value, s'))
    (hi : i < num) (hsize : size < 2 ^ 31) (hstart : start ≤ size)
    (huniform : uniform ≠ 0 → start = i * size / num) :
    start + value ≤ size ∧ (i + 1 = num → start + value = size) ∧
      (uniform ≠ 0 → start + value = (i + 1) * size / num) := by
  have hsub : u32Sub size start = size - start := u32Sub_of_le hstart (by omega)
  unfold tileValue at hv
  split at hv
  case isTrue hu =>
    split at hv
    · dsimp only at hv
      split at hv
      · contradiction
      · obtain ⟨rfl, _⟩ := Prod.mk.inj (Except.ok.inj hv)
        refine ⟨by omega, by omega, fun h => absurd hu h⟩
    · obtain ⟨rfl, _⟩ := Prod.mk.inj (Except.ok.inj hv)
      rw [hsub]
      refine ⟨by omega, by omega, fun h => absurd hu h⟩
  case isFalse hu =>
    obtain ⟨rfl, _⟩ := Prod.mk.inj (Except.ok.inj hv)
    have hle : i * size / num ≤ (i + 1) * size / num :=
      Nat.div_le_div_right (Nat.mul_le_mul_right _ (Nat.le_succ i))
    have hend : (i + 1) * size / num ≤ size := by
      calc (i + 1) * size / num ≤ num * size / num :=
            Nat.div_le_div_right (Nat.mul_le_mul_right _ hi)
        _ = size := Nat.mul_div_cancel_left _ (by omega)
    rw [huniform hu]
    refine ⟨by omega, ?_, by omega⟩
    rintro rfl
    rw [Nat.mul_div_cancel_left _ (by omega)] at hle hend ⊢
    omega

/-- The loop cuts the side, and fills the tiles of every part it cuts. -/
theorem tileLoop_ok (hloop : tileLoop uniform num size put n start t s = .ok (t', s'))
    (hn : n ≤ num) (hsize : size < 2 ^ 31) (hstart : start ≤ size)
    (hend : n = 0 → start = size)
    (huniform : uniform ≠ 0 → start = (num - n) * size / num) :
    ∃ cut : Nat → Nat, cut (num - n) = start ∧ cut num = size ∧
      (∀ i, num - n ≤ i → i < num → cut i < cut (i + 1)) ∧
      t' = (List.range' (num - n) n).foldl
        (fun t i => put i (cut i) (cut (i + 1) - cut i) t) t := by
  induction n generalizing start t s with
  | zero =>
    obtain ⟨rfl, _⟩ := Prod.mk.inj (Except.ok.inj hloop)
    refine ⟨fun _ => start, rfl, hend rfl, fun i hi hi' => by omega, rfl⟩
  | succ n ih =>
    cases hv : tileValue uniform num size (num - (n + 1)) start s with
    | error e => simp [tileLoop, hv, bind, Except.bind] at hloop
    | ok r =>
      obtain ⟨value, s''⟩ := r
      obtain ⟨hle, hlast, hnext⟩ := tileValue_ok hv (by omega) hsize hstart huniform
      have hi : num - (n + 1) + 1 = num - n := by omega
      simp only [tileLoop, hv, bind, Except.bind, u32_of_lt (show start + value < 2 ^ 32 by omega)]
        at hloop
      split at hloop
      · contradiction
      case isFalse hpos =>
        obtain ⟨cut, hcut, hcutEnd, hlt, ht'⟩ := ih hloop (by omega) hle (fun h => hlast (by omega))
          (fun h => by rw [← hi]; exact hnext h)
        -- the cuts of the rest, with this part in front
        refine ⟨Function.update cut (num - (n + 1)) start, Function.update_self .., ?_, ?_, ?_⟩
        · rw [Function.update_of_ne (by omega), hcutEnd]
        · intro i hge hlt'
          rw [Function.update_of_ne (show i + 1 ≠ num - (n + 1) by omega)]
          by_cases he : i = num - (n + 1)
          · subst he
            rw [Function.update_self, hi, hcut]
            omega
          · rw [Function.update_of_ne he]
            exact hlt i (by omega) hlt'
        · rw [List.range'_succ, List.foldl_cons, hi, ht', Function.update_self,
            Function.update_of_ne (show num - n ≠ num - (n + 1) by omega), hcut,
            Nat.add_sub_cancel_left]
          refine List.foldl_ext _ _ _ fun t i hmem => ?_
          have hge : num - n ≤ i := (List.mem_range'_1.mp hmem).1
          rw [Function.update_of_ne (show i ≠ num - (n + 1) by omega),
            Function.update_of_ne (show i + 1 ≠ num - (n + 1) by omega)]

/-- The whole side. -/
theorem tileLoop_cuts (hloop : tileLoop uniform num size put num 0 t s = .ok (t', s'))
    (hnum : 0 < num) (hsize : size < 2 ^ 31) :
    ∃ cut : Nat → Nat, Cuts num size cut ∧
      t' = (List.range num).foldl (fun t i => put i (cut i) (cut (i + 1) - cut i) t) t := by
  obtain ⟨cut, hfirst, hlast, hlt, ht'⟩ := tileLoop_ok hloop (Nat.le_refl num) hsize
    (Nat.zero_le _) (fun h => by omega) (fun _ => by simp)
  rw [Nat.sub_self] at hfirst hlt ht'
  refine ⟨cut, ⟨hfirst, hlast, fun i hi => hlt i (Nat.zero_le i) hi⟩, ?_⟩
  rw [List.range_eq_range']
  exact ht'

-- ---------------------------------------------------------------------------
-- The tiles that are filled
-- ---------------------------------------------------------------------------

/-- Stores of `f` at several places, read back at one of them. -/
theorem foldl_modify {α : Type} {f : α → α} (hf : ∀ x, f (f x) = f x) (idx : Nat → Nat)
    (js : List Nat) (m : Nat → α) (k : Nat) :
    (js.foldl (fun m j => set m (idx j) (f (m (idx j)))) m) k =
      if ∃ j ∈ js, idx j = k then f (m k) else m k := by
  induction js generalizing m with
  | nil => simp
  | cons j js ih =>
    rw [List.foldl_cons, ih]
    by_cases hj : idx j = k
    · subst hj
      simp [hf]
    · rw [set_ne (Ne.symm hj)]
      simp [hj]

/-- One store of many, each of which goes elsewhere but for `j`. -/
theorem foldl_put {α : Type} {put : Nat → (Nat → α) → Nat → α} {g : α → α} {j k : Nat}
    {is : List Nat} (hput : ∀ i ∈ is, ∀ t, put i t k = if i = j then g (t k) else t k)
    (hn : is.Nodup) (t : Nat → α) :
    (is.foldl (fun t i => put i t) t) k = if j ∈ is then g (t k) else t k := by
  induction is generalizing t with
  | nil => simp
  | cons i is ih =>
    obtain ⟨hi, hn⟩ := List.nodup_cons.mp hn
    rw [List.foldl_cons, ih (fun i hi => hput i (List.mem_cons_of_mem _ hi)) hn,
      hput i List.mem_cons_self]
    by_cases hij : i = j
    · subst hij
      simp [hi]
    · simp [hij, Ne.symm hij]

theorem putColumn_at (hi : i < numCols) (hc : c < numCols) (hr : r < numRows) (t : Nat → Tile) :
    putColumn numCols numRows i start value t (r * numCols + c) =
      if i = c then (t (r * numCols + c)).setColumn start value else t (r * numCols + c) := by
  unfold putColumn
  rw [foldl_modify (f := Tile.setColumn start value) (fun _ => rfl) (fun j => j * numCols + i)]
  refine if_congr ?_ rfl rfl
  constructor
  · rintro ⟨j, _, he⟩
    have hmod := congrArg (· % numCols) he
    simpa [Nat.add_mod, Nat.mod_eq_of_lt hi, Nat.mod_eq_of_lt hc] using hmod
  · rintro rfl
    exact ⟨r, List.mem_range.mpr hr, rfl⟩

theorem putRow_at (hc : c < numCols) (t : Nat → Tile) :
    putRow numCols i start value t (r * numCols + c) =
      if i = r then (t (r * numCols + c)).setRow start value else t (r * numCols + c) := by
  unfold putRow
  rw [foldl_modify (f := Tile.setRow start value) (fun _ => rfl) (fun j => i * numCols + j)]
  refine if_congr ?_ rfl rfl
  constructor
  · rintro ⟨j, hj, he⟩
    have hj := List.mem_range.mp hj
    have hdiv := congrArg (· / numCols) he
    simpa [Nat.add_comm _ j, Nat.add_comm _ c, Nat.add_mul_div_right _ _ (show 0 < numCols by omega),
      Nat.div_eq_of_lt hj, Nat.div_eq_of_lt hc] using hdiv
  · rintro rfl
    exact ⟨c, List.mem_range.mpr hc, rfl⟩

/-- The tiles after both loops. -/
theorem puts_at {X Y : Nat → Nat} (hc : c < numCols) (hr : r < numRows) (t : Nat → Tile) :
    (List.range numRows).foldl
        (fun t i => putRow numCols i (Y i) (Y (i + 1) - Y i) t)
        ((List.range numCols).foldl
          (fun t i => putColumn numCols numRows i (X i) (X (i + 1) - X i) t) t)
        (r * numCols + c) =
      { u1PosX := X c % 2 ^ 8, u1PosY := Y r % 2 ^ 8
        u2Wd := (X (c + 1) - X c) % 2 ^ 16, u2Ht := (Y (r + 1) - Y r) % 2 ^ 16 } := by
  rw [foldl_put (g := Tile.setRow (Y r) (Y (r + 1) - Y r)) (j := r) ?_ List.nodup_range,
    if_pos (List.mem_range.mpr hr),
    foldl_put (g := Tile.setColumn (X c) (X (c + 1) - X c)) (j := c) ?_ List.nodup_range,
    if_pos (List.mem_range.mpr hc)]
  · rfl
  · intro i hi t
    rw [putColumn_at (List.mem_range.mp hi) hc hr]
    by_cases h : i = c
    · rw [h]
    · rw [if_neg h, if_neg h]
  · intro i hi t
    rw [putRow_at hc]
    by_cases h : i = r
    · rw [h]
    · rw [if_neg h, if_neg h]

-- ---------------------------------------------------------------------------
-- Accepted tiles
-- ---------------------------------------------------------------------------

theorem SpsSize.log2CtbSize_cases (sps : SpsSize) :
    sps.i1Log2CtbSize = 4 ∨ sps.i1Log2CtbSize = 5 ∨ sps.i1Log2CtbSize = 6 := by
  have hge := sps.log2CtbSize_ge
  have hle := sps.log2CtbSize_le
  omega

theorem SpsSize.wdInCtb_pos (sps : SpsSize) : 0 < sps.i2PicWdInCtb := by
  have hpos := sps.width_pos
  unfold SpsSize.i2PicWdInCtb
  rcases sps.log2CtbSize_cases with h | h | h <;> simp only [h, Nat.shiftLeft_eq] <;> omega

theorem SpsSize.htInCtb_pos (sps : SpsSize) : 0 < sps.i2PicHtInCtb := by
  have hpos := sps.height_pos
  unfold SpsSize.i2PicHtInCtb
  rcases sps.log2CtbSize_cases with h | h | h <;> simp only [h, Nat.shiftLeft_eq] <;> omega

theorem SpsSize.inCtb_le (sps : SpsSize) :
    sps.i2PicWdInCtb ≤ 2048 ∧ sps.i2PicHtInCtb ≤ 2048 := by
  have hw := sps.width_le
  have hh := sps.height_le
  unfold SpsSize.i2PicWdInCtb SpsSize.i2PicHtInCtb
  rcases sps.log2CtbSize_cases with h | h | h <;> simp only [h, Nat.shiftLeft_eq] <;> omega

/-- The positions of tiles fit in eight bits. -/
theorem SpsSize.inCtb_le_of_tiles {sps : SpsSize}
    (h : ¬(sps.tooLarge 4 4096 ∨ sps.tooLarge 5 8192 ∨ sps.tooLarge 6 16384)) :
    sps.i2PicWdInCtb ≤ 256 ∧ sps.i2PicHtInCtb ≤ 256 := by
  unfold SpsSize.i2PicWdInCtb SpsSize.i2PicHtInCtb
  rcases sps.log2CtbSize_cases with hc | hc | hc <;>
    simp [SpsSize.tooLarge, hc] at h <;> simp only [hc, Nat.shiftLeft_eq] <;> omega

/-- Tiles that were cut out of the two sides. -/
theorem inGrid_of_cuts {pps : PpsTiles} {sps : SpsSize} {X Y : Nat → Nat} {t : Nat → Tile}
    (hflag : pps.i1TilesEnabledFlag ≠ 0)
    (hsize : sps.i2PicWdInCtb ≤ 256 ∧ sps.i2PicHtInCtb ≤ 256)
    (hX : Cuts pps.i1NumTileColumns sps.i2PicWdInCtb X)
    (hY : Cuts pps.i1NumTileRows sps.i2PicHtInCtb Y)
    (htile : pps.psTile = (List.range pps.i1NumTileRows).foldl
      (fun t i => putRow pps.i1NumTileColumns i (Y i) (Y (i + 1) - Y i) t)
      ((List.range pps.i1NumTileColumns).foldl
        (fun t i => putColumn pps.i1NumTileColumns pps.i1NumTileRows i (X i) (X (i + 1) - X i) t)
        t)) :
    pps.InGrid sps.i2PicWdInCtb sps.i2PicHtInCtb X Y := by
  refine ⟨hX, hY, fun r hr c hc => ?_, fun h => absurd h hflag⟩
  have hXc := hX.lt c hc
  have hYr := hY.lt r hr
  have hXle := hX.le_size (i := c + 1) hc
  have hYle := hY.le_size (i := r + 1) hr
  rw [htile, puts_at hc hr t, Nat.mod_eq_of_lt (by omega), Nat.mod_eq_of_lt (by omega),
    Nat.mod_eq_of_lt (by omega), Nat.mod_eq_of_lt (by omega)]

/-- One tile that is the picture. -/
theorem inGrid_untiled {sps : SpsSize} (psTile : Nat → Tile) :
    PpsTiles.InGrid
      { i1TilesEnabledFlag := 0
        i1NumTileColumns := 1
        i1NumTileRows := 1
        psTile := set psTile 0
          { u1PosX := 0
            u1PosY := 0
            u2Wd := sps.i2PicWdInCtb % 2 ^ 16
            u2Ht := sps.i2PicHtInCtb % 2 ^ 16 } }
      sps.i2PicWdInCtb sps.i2PicHtInCtb
      (fun i => i * sps.i2PicWdInCtb) (fun i => i * sps.i2PicHtInCtb) := by
  obtain ⟨hw, hh⟩ := sps.inCtb_le
  refine ⟨.whole sps.wdInCtb_pos, .whole sps.htInCtb_pos, fun r hr c hc => ?_,
    fun _ => ⟨rfl, rfl⟩⟩
  obtain rfl : r = 0 := Nat.lt_one_iff.mp hr
  obtain rfl : c = 0 := Nat.lt_one_iff.mp hc
  simp only [Nat.mul_one, Nat.add_zero, set_same, Nat.zero_mul, Nat.zero_add, Nat.one_mul,
    Nat.sub_zero]
  rw [Nat.mod_eq_of_lt (by omega), Nat.mod_eq_of_lt (by omega)]

/-- Tiles that `ihevcd_parse_pps` accepts: the picture as one tile, or both loops ran through. -/
theorem parseTiles_cases {sps : SpsSize}
    (h : parseTiles sps i4Wd i4Ht psTile s = .ok (pps, s')) :
    pps =
        { i1TilesEnabledFlag := 0
          i1NumTileColumns := 1
          i1NumTileRows := 1
          psTile := set psTile 0
            { u1PosX := 0
              u1PosY := 0
              u2Wd := sps.i2PicWdInCtb % 2 ^ 16
              u2Ht := sps.i2PicHtInCtb % 2 ^ 16 } } ∨
      pps.i1TilesEnabledFlag ≠ 0 ∧
        ¬(sps.tooLarge 4 4096 ∨ sps.tooLarge 5 8192 ∨ sps.tooLarge 6 16384) ∧
        0 < pps.i1NumTileColumns ∧
        pps.i1NumTileColumns ≤ (align64 i4Wd + minTileWd - 1) / minTileWd ∧
        0 < pps.i1NumTileRows ∧
        pps.i1NumTileRows ≤ (align64 i4Ht + minTileHt - 1) / minTileHt ∧
        ∃ uniform t s₁ s₂ s₃,
          tileLoop uniform pps.i1NumTileColumns sps.i2PicWdInCtb
            (putColumn pps.i1NumTileColumns pps.i1NumTileRows) pps.i1NumTileColumns 0 psTile s₁ =
              .ok (t, s₂) ∧
          tileLoop uniform pps.i1NumTileRows sps.i2PicHtInCtb
            (putRow pps.i1NumTileColumns) pps.i1NumTileRows 0 t s₂ = .ok (pps.psTile, s₃) := by
  unfold parseTiles at h
  dsimp only at h
  split at h
  · contradiction
  case isFalse hsize =>
    split at h
    case isTrue hflag =>
      split at h
      · contradiction
      case isFalse hnum =>
        simp only [bind, Except.bind] at h
        split at h
        · contradiction
        case h_2 r hcols =>
          split at h
          · contradiction
          case h_2 r' hrows =>
            obtain ⟨t, s₂⟩ := r
            obtain ⟨t', s₃⟩ := r'
            obtain ⟨rfl, _⟩ := Prod.mk.inj (Except.ok.inj h)
            refine .inr ⟨hflag, fun hlarge => hsize ⟨hflag, hlarge⟩, ?_, ?_, ?_, ?_,
              _, t, _, s₂, s₃, hcols, hrows⟩
            all_goals dsimp only; omega
    case isFalse hflag =>
      obtain ⟨rfl, _⟩ := Prod.mk.inj (Except.ok.inj h)
      exact .inl rfl

/-- What `ihevcd_parse_pps` accepts, with tiles or without, is a grid over the picture. -/
theorem parseTiles_inGrid {sps : SpsSize}
    (h : parseTiles sps i4Wd i4Ht psTile s = .ok (pps, s')) :
    ∃ X Y, pps.InGrid sps.i2PicWdInCtb sps.i2PicHtInCtb X Y := by
  have hbound := sps.inCtb_le
  rcases parseTiles_cases h with rfl | ⟨hflag, hsize, hc, _, hr, _, _, t, _, _, _, hcols, hrows⟩
  · exact ⟨_, _, inGrid_untiled psTile⟩
  · obtain ⟨X, hX, rfl⟩ := tileLoop_cuts hcols hc (by omega)
    obtain ⟨Y, hY, htile⟩ := tileLoop_cuts hrows hr (by omega)
    exact ⟨X, Y, inGrid_of_cuts hflag (SpsSize.inCtb_le_of_tiles hsize) hX hY htile⟩

end Libhevc.Decoder
