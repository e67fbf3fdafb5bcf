import Libhevc.Decoder.UnpackScaling
import Libhevc.Lib.Memory
import Mathlib.Data.List.Nodup

/-!
# What the unpacking leaves

The loop over the map of a sub-block meets the positions of its coefficients
from the last one of the scan down, and the loop over the sub-blocks ends where
the writer ended.
-/

namespace Libhevc.Decoder

open Memory (Holds)

-- ---------------------------------------------------------------------------
-- The levels of a block and their places
-- ---------------------------------------------------------------------------

/-- The bits of a map below `n`, from the top. -/
def sigBelow (m : Nat) : Nat → List Nat
  | 0 => []
  | n + 1 => if m.testBit n then n :: sigBelow m n else sigBelow m n

/-- The positions of the coefficients in the scan, the last one first. -/
def sigPositions (m : Nat) : List Nat := sigBelow m 16

/-- A level with its row and column in the block. -/
structure CoeffEntry where
  row : Nat
  col : Nat
  level : Int

namespace TuSblkCoeffData

def entry (scanIdx : Nat) (d : TuSblkCoeffData) (n : Nat) (level : Int) : CoeffEntry where
  row := 4 * d.ys + (gau1IhevcInvscan4x4At scanIdx).getD n 0 / 4
  col := 4 * d.xs + (gau1IhevcInvscan4x4At scanIdx).getD n 0 % 4
  level := level

def entries (scanIdx : Nat) (d : TuSblkCoeffData) : List CoeffEntry :=
  ((sigPositions d.u2SigCoeffMap).zip d.ai2Level).map fun e => d.entry scanIdx e.1 e.2

/-- A sub-block of a block of `size` sub-blocks, with a level of 16 bits for each coefficient. -/
structure Ok (size : Nat) (d : TuSblkCoeffData) : Prop where
  xs : d.xs < size
  ys : d.ys < size
  pos : 0 < d.u2SigCoeffMap
  lt : d.u2SigCoeffMap < 2 ^ 16
  length : d.ai2Level.length = (sigPositions d.u2SigCoeffMap).length
  level : ∀ lv ∈ d.ai2Level, IsWord16 lv

end TuSblkCoeffData

def TuCoeffData.entries (t : TuCoeffData) : List CoeffEntry :=
  t.sblks.flatMap (TuSblkCoeffData.entries t.scanIdx)

/-- What can be written: sub-blocks with a coefficient, each of them once. -/
structure TuCoeffData.Ok (log2TransSize : Nat) (t : TuCoeffData) : Prop where
  scan : t.scanIdx < 3
  sblks : ∀ d ∈ t.sblks, d.Ok (2 ^ (log2TransSize - 2))
  nodup : (t.sblks.map fun d => (d.xs, d.ys)).Nodup

-- ---------------------------------------------------------------------------
-- The loop over a map
-- ---------------------------------------------------------------------------

theorem mod_pow_testBit (m n : Nat) :
    m % 2 ^ (n + 1) = m % 2 ^ n + 2 ^ n * (m.testBit n).toNat := by
  rw [Nat.mod_pow_succ, Nat.toNat_testBit]

theorem sigBelow_eq_nil (h : m % 2 ^ n = 0) : sigBelow m n = [] := by
  induction n with
  | zero => rfl
  | succ n ih =>
    rw [mod_pow_testBit] at h
    have hbit : m.testBit n = false := by
      cases hb : m.testBit n with
      | false => rfl
      | true =>
        rw [hb] at h
        have := Nat.two_pow_pos n
        simp at h
    unfold sigBelow
    rw [hbit]
    exact ih (by omega)

theorem mem_sigBelow : i ∈ sigBelow m n ↔ i < n ∧ m.testBit i = true := by
  induction n with
  | zero => simp [sigBelow]
  | succ n ih =>
    unfold sigBelow
    split
    · rename_i hbit
      rw [List.mem_cons, ih]
      constructor
      · rintro (rfl | ⟨hi, hb⟩)
        · exact ⟨Nat.lt_succ_self i, hbit⟩
        · exact ⟨by omega, hb⟩
      · rintro ⟨hi, hb⟩
        rcases Nat.lt_succ_iff_lt_or_eq.mp hi with hlt | heq
        · exact Or.inr ⟨hlt, hb⟩
        · exact Or.inl heq
    · rename_i hbit
      rw [ih]
      refine ⟨fun ⟨hi, hb⟩ => ⟨by omega, hb⟩, fun ⟨hi, hb⟩ => ⟨?_, hb⟩⟩
      rcases Nat.lt_succ_iff_lt_or_eq.mp hi with hlt | rfl
      · exact hlt
      · exact absurd hb hbit

theorem sigBelow_nodup (m n : Nat) : (sigBelow m n).Nodup := by
  induction n with
  | zero => exact List.nodup_nil
  | succ n ih =>
    unfold sigBelow
    split
    · refine List.nodup_cons.mpr ⟨fun h => ?_, ih⟩
      exact absurd (mem_sigBelow.mp h).1 (Nat.lt_irrefl n)
    · exact ih

/-- A map of 16 bits has no more positions below 32. -/
theorem sigBelow_of_lt (h : m < 2 ^ 16) (n : Nat) : sigBelow m (16 + n) = sigPositions m := by
  induction n with
  | zero => rfl
  | succ n ih =>
    have hbit : m.testBit (16 + n) = false :=
      Nat.testBit_lt_two_pow (Nat.lt_of_lt_of_le h (Nat.pow_le_pow_right (by decide) (by omega)))
    rw [← Nat.add_assoc, sigBelow, hbit]
    exact ih

namespace UnpackArgs

variable {a : UnpackArgs} {buf : Nat → Nat}

/-- The stores of a list of positions, with the levels from number `idx`. -/
def visitAll (a : UnpackArgs) (buf : Nat → Nat) (transSkip : Bool) (scanType p x y : Nat) :
    List Nat → Nat → UnpackSt → UnpackSt
  | [], _, st => st
  | n :: l, idx, st =>
    visitAll a buf transSkip scanType p x y l (idx + 1)
      (a.store transSkip (y + (gau1IhevcInvscan4x4At scanType).getD n 0 / 4)
        (x + (gau1IhevcInvscan4x4At scanType).getD n 0 % 4) (readWord16 buf (p + 4 + 2 * idx)) st)

/-- A map whose top bit is clear is as good as the one shifted by one. -/
theorem sigLoop_shift (hm : m ≠ 0) (hlt : m < 2 ^ 31) (s : Int) (idx : Nat) (st : UnpackSt) :
    a.sigLoop buf ts sc p x y (fuel + 1) s m idx st
      = a.sigLoop buf ts sc p x y (fuel + 1) (s - 1) (2 * m) idx st := by
  have hlog : Nat.log2 m ≤ 30 := by
    have := (Nat.log2_lt hm).mpr hlt
    omega
  have hclz : clz m = clz (2 * m) + 1 := by
    unfold clz
    rw [if_neg hm, if_neg (by omega), Nat.log2_two_mul hm]
    omega
  have hshift : m <<< (clz (2 * m) + 1) = (2 * m) <<< clz (2 * m) := by
    rw [Nat.shiftLeft_eq, Nat.shiftLeft_eq, pow_succ]
    ring
  unfold sigLoop
  dsimp only
  rw [hclz, hshift, show s - ((clz (2 * m) + 1 : Nat) : Int) = s - 1 - (clz (2 * m) : Nat) by
    push_cast; ring]

theorem sigLoop_visits (hn : n ≤ 32) (hfuel : n ≤ fuel) (hm : m % 2 ^ n ≠ 0) (idx : Nat)
    (st : UnpackSt) :
    a.sigLoop buf ts sc p x y fuel ((n : Int) - 1) (m % 2 ^ n * 2 ^ (32 - n)) idx st
      = some (idx + (sigBelow m n).length,
        a.visitAll buf ts sc p x y (sigBelow m n) idx st) := by
  induction n generalizing fuel idx st with
  | zero =>
    rw [pow_zero, Nat.mod_one] at hm
    exact absurd rfl hm
  | succ n ih =>
    obtain ⟨fuel, rfl⟩ : ∃ f, fuel = f + 1 := ⟨fuel - 1, by omega⟩
    have hexp : 2 ^ (32 - n) = 2 * 2 ^ (32 - (n + 1)) := by
      rw [show 32 - n = (32 - (n + 1)) + 1 by omega, pow_succ]
      ring
    have htop : 2 ^ n * 2 ^ (32 - (n + 1)) = 2 ^ 31 := by
      rw [← pow_add]
      congr 1
      omega
    have hlow : m % 2 ^ n * 2 ^ (32 - (n + 1)) < 2 ^ 31 := by
      rw [← htop]
      exact Nat.mul_lt_mul_of_pos_right (Nat.mod_lt _ (Nat.two_pow_pos n)) (Nat.two_pow_pos _)
    cases hbit : m.testBit n with
    | false =>
      have hsucc : m % 2 ^ (n + 1) = m % 2 ^ n := by
        rw [mod_pow_testBit, hbit]
        rfl
      rw [hsucc] at hm ⊢
      have hne : m % 2 ^ n * 2 ^ (32 - (n + 1)) ≠ 0 :=
        Nat.mul_ne_zero hm (Nat.two_pow_pos _).ne'
      rw [sigLoop_shift hne hlow, show 2 * (m % 2 ^ n * 2 ^ (32 - (n + 1)))
          = m % 2 ^ n * 2 ^ (32 - n) by rw [hexp]; ring,
        show ((n + 1 : Nat) : Int) - 1 - 1 = (n : Int) - 1 by push_cast; ring,
        ih (by omega) (by omega) hm, sigBelow, hbit]
      rfl
    | true =>
      have hsucc : m % 2 ^ (n + 1) = m % 2 ^ n + 2 ^ n := by
        rw [mod_pow_testBit, hbit, Bool.toNat_true, Nat.mul_one]
      have hmap : m % 2 ^ (n + 1) * 2 ^ (32 - (n + 1))
          = m % 2 ^ n * 2 ^ (32 - (n + 1)) + 2 ^ 31 := by
        rw [hsucc, Nat.add_mul, htop]
      have hclz : clz (m % 2 ^ n * 2 ^ (32 - (n + 1)) + 2 ^ 31) = 0 :=
        clz_eq (n := 31) (by omega) (by omega)
      have hnext : u32 ((m % 2 ^ n * 2 ^ (32 - (n + 1)) + 2 ^ 31) <<< 1)
          = m % 2 ^ n * 2 ^ (32 - n) := by
        rw [hexp, Nat.shiftLeft_eq, pow_one, u32,
          show (m % 2 ^ n * 2 ^ (32 - (n + 1)) + 2 ^ 31) * 2
            = m % 2 ^ n * (2 * 2 ^ (32 - (n + 1))) + 2 ^ 32 by ring, Nat.add_mod_right]
        refine Nat.mod_eq_of_lt ?_
        rw [show m % 2 ^ n * (2 * 2 ^ (32 - (n + 1)))
          = 2 * (m % 2 ^ n * 2 ^ (32 - (n + 1))) by ring]
        omega
      have hsame : u32 (m % 2 ^ n * 2 ^ (32 - (n + 1)) + 2 ^ 31)
          = m % 2 ^ n * 2 ^ (32 - (n + 1)) + 2 ^ 31 := u32_of_lt (by omega)
      rw [hmap]
      unfold sigLoop
      dsimp only
      rw [hclz, Nat.shiftLeft_zero, hsame, hnext,
        show (((n + 1 : Nat) : Int) - 1 - (0 : Nat)) = (n : Int) by push_cast; ring,
        Int.toNat_natCast, show (0x3 : Nat) = 2 ^ 2 - 1 from rfl, Nat.and_two_pow_sub_one_eq_mod,
        Nat.shiftRight_eq_div_pow, sigBelow, hbit]
      by_cases hzero : m % 2 ^ n = 0
      · rw [if_pos (by rw [hzero, Nat.zero_mul]), sigBelow_eq_nil hzero]
        rfl
      · rw [if_neg (Nat.mul_ne_zero hzero (Nat.two_pow_pos _).ne'), ih (by omega) (by omega) hzero]
        rw [if_pos rfl, List.length_cons, Nat.add_right_comm]
        rfl

end UnpackArgs

end Libhevc.Decoder

/-!
## The unpacked block

The buffer is read to its end, and each level is found scaled in its place. The
`DC only` case reports what the general path would give, and leaves the rest of
the block as it was.
-/

namespace Libhevc.Decoder

open Memory (Holds)

-- ---------------------------------------------------------------------------
-- Reading the buffer
-- ---------------------------------------------------------------------------

variable {buf : Nat → Nat}

theorem readUword16_eq (h : Holds buf p (wordBytes x)) :
    readUword16 buf p = (x % 65536).toNat := by
  obtain ⟨h0, h1⟩ := Holds.cons.mp h
  rw [Holds.singleton] at h1
  unfold readUword16
  rw [h0, h1]
  omega

theorem readUword16_nat {x : Nat} (h : Holds buf p (wordBytes x)) (hx : x < 65536) :
    readUword16 buf p = x := by
  rw [readUword16_eq h]
  omega

theorem readWord16_eq (h : Holds buf p (wordBytes x)) (hx : IsWord16 x) :
    readWord16 buf p = x := by
  obtain ⟨hlo, hhi⟩ := hx
  unfold readWord16
  rw [readUword16_eq h]
  unfold i16 wrapInt
  omega

theorem length_flatMap_wordBytes (l : List Int) : (l.flatMap wordBytes).length = 2 * l.length := by
  induction l with
  | nil => rfl
  | cons x l ih =>
    rw [List.flatMap_cons, List.length_append, ih, List.length_cons]
    show 2 + _ = _
    omega

theorem TuSblkCoeffData.length_bytes (d : TuSblkCoeffData) :
    d.bytes.length = 4 + 2 * d.ai2Level.length := by
  unfold TuSblkCoeffData.bytes
  rw [List.length_append, length_flatMap_wordBytes]
  rfl

namespace UnpackArgs

variable {a : UnpackArgs}

/-- The stores of a list of levels. -/
def storeAll (a : UnpackArgs) (transSkip : Bool) (es : List CoeffEntry) (st : UnpackSt) :
    UnpackSt :=
  es.foldl (fun st e => a.store transSkip e.row e.col e.level st) st

/-- The levels of the buffer go to the places of their positions. -/
theorem visitAll_eq (d : TuSblkCoeffData) (l : List Nat) (lv : List Int)
    (hlen : lv.length = l.length) (hlv : ∀ v ∈ lv, IsWord16 v) (idx : Nat) (st : UnpackSt)
    (hbuf : Holds buf (p + 4 + 2 * idx) (lv.flatMap wordBytes)) :
    a.visitAll buf ts sc p (4 * d.xs) (4 * d.ys) l idx st
      = a.storeAll ts ((l.zip lv).map fun e => d.entry sc e.1 e.2) st := by
  induction l generalizing lv idx st with
  | nil =>
    rw [List.zip_nil_left]
    rfl
  | cons n l ih =>
    cases lv with
    | nil => exact absurd hlen (by simp)
    | cons v lv =>
      rw [List.flatMap_cons] at hbuf
      obtain ⟨hv, hrest⟩ := Holds.append.mp hbuf
      have hread := readWord16_eq hv (hlv v List.mem_cons_self)
      unfold visitAll
      rw [hread, ih lv (Nat.succ.inj hlen) (fun w hw => hlv w (List.mem_cons_of_mem v hw))]
      · rfl
      · exact hrest

theorem and_ff_of_pos (hx : xs < 256) : (ys <<< 8 ||| xs) &&& 0x00FF = xs := by
  rw [shiftLeft_or (k := 8) hx, show (0x00FF : Nat) = 2 ^ 8 - 1 from rfl,
    Nat.and_two_pow_sub_one_eq_mod]
  omega

theorem shift_ff00_of_pos (hx : xs < 256) (hy : ys < 256) :
    ((ys <<< 8 ||| xs) &&& 0xFF00) >>> 8 = ys := by
  rw [Nat.shiftRight_and_distrib, show 0xFF00 >>> 8 = 2 ^ 8 - 1 from rfl,
    Nat.and_two_pow_sub_one_eq_mod, shiftLeft_or (k := 8) hx, Nat.shiftRight_eq_div_pow]
  omega

/-- A sub-block is read to its end. -/
theorem sigLoop_sblk {d : TuSblkCoeffData} (hd : d.Ok size) (hsize : size ≤ 8)
    (hbuf : Holds buf p d.bytes) (st : UnpackSt) :
    a.sigLoop buf ts sc p ((readUword16 buf p &&& 0x00FF) * 4)
        (((readUword16 buf p &&& 0xFF00) >>> 8) * 4) 32 31 (readUword16 buf (p + 2)) 0 st
      = some (d.ai2Level.length, a.storeAll ts (d.entries sc) st) := by
  have hxs := hd.xs
  have hys := hd.ys
  have hlt := hd.lt
  unfold TuSblkCoeffData.bytes at hbuf
  obtain ⟨hhead, hlevels⟩ := Holds.append.mp hbuf
  obtain ⟨hpos, hmap⟩ := Holds.append.mp hhead
  have hposlt : d.u2SubblkPos < 65536 := by
    unfold TuSblkCoeffData.u2SubblkPos
    rw [shiftLeft_or (k := 8) (by omega)]
    omega
  have hread : readUword16 buf (p + 2) = d.u2SigCoeffMap := readUword16_nat hmap hlt
  rw [readUword16_nat hpos hposlt, hread, TuSblkCoeffData.u2SubblkPos,
    and_ff_of_pos (by omega), shift_ff00_of_pos (by omega) (by omega)]
  have hmod : d.u2SigCoeffMap % 2 ^ 32 = d.u2SigCoeffMap := Nat.mod_eq_of_lt (by omega)
  have hne : d.u2SigCoeffMap % 2 ^ 32 ≠ 0 := by
    have hpos := hd.pos
    omega
  have hvisit : a.sigLoop buf ts sc p (4 * d.xs) (4 * d.ys) 32 (((32 : Nat) : Int) - 1)
      (d.u2SigCoeffMap % 2 ^ 32 * 2 ^ (32 - 32)) 0 st = _ :=
    sigLoop_visits (Nat.le_refl 32) (Nat.le_refl 32) hne 0 st
  rw [hmod, Nat.sub_self, pow_zero, Nat.mul_one, sigBelow_of_lt hlt 16, ← hd.length,
    Nat.zero_add, visitAll_eq d _ d.ai2Level hd.length hd.level 0 st hlevels] at hvisit
  rw [Nat.mul_comm d.xs 4, Nat.mul_comm d.ys 4]
  exact hvisit

theorem storeAll_append (es es' : List CoeffEntry) (st : UnpackSt) :
    a.storeAll ts (es ++ es') st = a.storeAll ts es' (a.storeAll ts es st) :=
  List.foldl_append

/-- The buffer is read to its end. -/
theorem sblkLoop_eq (l : List TuSblkCoeffData) (hl : ∀ d ∈ l, d.Ok size) (hsize : size ≤ 8)
    (hbuf : Holds buf p (l.flatMap TuSblkCoeffData.bytes)) (st : UnpackSt) :
    a.sblkLoop buf ts sc l.length p st
      = some (p + (l.flatMap TuSblkCoeffData.bytes).length,
        a.storeAll ts (l.flatMap (TuSblkCoeffData.entries sc)) st) := by
  induction l generalizing p st with
  | nil => rfl
  | cons d l ih =>
    rw [List.flatMap_cons] at hbuf
    obtain ⟨hd, hrest⟩ := Holds.append.mp hbuf
    rw [d.length_bytes] at hrest
    rw [List.length_cons, sblkLoop, sigLoop_sblk (hl d List.mem_cons_self) hsize hd,
      Option.bind_some, ih (fun d' hd' => hl d' (List.mem_cons_of_mem d hd'))]
    · rw [List.flatMap_cons, List.flatMap_cons, List.length_append, d.length_bytes,
        storeAll_append]
      congr 2
      omega
    · rw [show p + 4 + 2 * d.ai2Level.length = p + (4 + 2 * d.ai2Level.length) by omega]
      exact hrest

-- ---------------------------------------------------------------------------
-- The places of the levels
-- ---------------------------------------------------------------------------

theorem storeAll_of_no_entry (es : List CoeffEntry) (st : UnpackSt)
    (h : ∀ e ∈ es, ¬(e.row = r ∧ e.col = c)) :
    (a.storeAll ts es st).pi2TuCoeff r c = st.pi2TuCoeff r c := by
  induction es generalizing st with
  | nil => rfl
  | cons e es ih =>
    rw [storeAll, List.foldl_cons]
    refine (ih _ fun e' he' => h e' (List.mem_cons_of_mem e he')).trans ?_
    exact if_neg fun hrc => h e List.mem_cons_self ⟨hrc.1.symm, hrc.2.symm⟩

theorem storeAll_of_entry (es : List CoeffEntry) (st : UnpackSt)
    (hnodup : (es.map fun e => (e.row, e.col)).Nodup) (he : e ∈ es) :
    (a.storeAll ts es st).pi2TuCoeff e.row e.col = a.iquantOut ts e.row e.col e.level := by
  induction es generalizing st with
  | nil => exact absurd he (List.not_mem_nil)
  | cons e' es ih =>
    rw [List.map_cons, List.nodup_cons] at hnodup
    rw [storeAll, List.foldl_cons]
    rcases List.mem_cons.mp he with rfl | hmem
    · refine (storeAll_of_no_entry es _ fun e' he' heq => hnodup.1 ?_).trans (if_pos ⟨rfl, rfl⟩)
      rw [← heq.1, ← heq.2]
      exact List.mem_map.mpr ⟨e', he', rfl⟩
    · exact ih _ hnodup.2 hmem

/-- The masks lose the bits of the columns and rows that have a level. -/
theorem storeAll_masks (es : List CoeffEntry) (st : UnpackSt)
    (hes : ∀ e ∈ es, e.row < 32 ∧ e.col < 32) (hn : n < 32) :
    ((a.storeAll ts es st).u4ZeroCols.testBit n
      = (st.u4ZeroCols.testBit n && es.all fun e => e.col != n)) ∧
    ((a.storeAll ts es st).u4ZeroRows.testBit n
      = (st.u4ZeroRows.testBit n && es.all fun e => e.row != n)) := by
  induction es generalizing st with
  | nil => exact ⟨(Bool.and_true _).symm, (Bool.and_true _).symm⟩
  | cons e es ih =>
    obtain ⟨hrow, hcol⟩ := hes e List.mem_cons_self
    have hbit : ∀ k < 32, (u32Not (1 <<< k)).testBit n = (k != n) := by
      intro k hk
      unfold u32Not
      rw [Nat.one_shiftLeft,
        Nat.testBit_two_pow_sub_succ (Nat.pow_lt_pow_right (by decide) hk), Nat.testBit_two_pow]
      simp [hn, bne, BEq.beq]
    rw [storeAll, List.foldl_cons]
    have hrest := ih (a.store ts e.row e.col e.level st)
      fun e' he' => hes e' (List.mem_cons_of_mem e he')
    rw [List.all_cons, List.all_cons]
    constructor
    · refine hrest.1.trans ?_
      show ((st.u4ZeroCols &&& u32Not (1 <<< e.col)).testBit n && _) = _
      rw [Nat.testBit_and, hbit _ hcol, Bool.and_assoc]
    · refine hrest.2.trans ?_
      show ((st.u4ZeroRows &&& u32Not (1 <<< e.row)).testBit n && _) = _
      rw [Nat.testBit_and, hbit _ hrow, Bool.and_assoc]

theorem storeAll_coeffType (es : List CoeffEntry) (st : UnpackSt) :
    (a.storeAll ts es st).u4CoeffType = st.u4CoeffType := by
  induction es generalizing st with
  | nil => rfl
  | cons e es ih => exact ih _

end UnpackArgs

-- ---------------------------------------------------------------------------
-- The entries of a block
-- ---------------------------------------------------------------------------

theorem invscan_ok : ∀ s < 3, (gau1IhevcInvscan4x4At s).length = 16 ∧
    (gau1IhevcInvscan4x4At s).Nodup ∧ ∀ x ∈ gau1IhevcInvscan4x4At s, x < 16 := by decide +kernel

theorem invscan_lt (hs : s < 3) (n : Nat) : (gau1IhevcInvscan4x4At s).getD n 0 < 16 := by
  obtain ⟨hlen, -, hlt⟩ := invscan_ok s hs
  rcases Nat.lt_or_ge n 16 with hn | hn
  · rw [List.getD_eq_getElem _ 0 (hlen ▸ hn)]
    exact hlt _ (List.getElem_mem _)
  · rw [List.getD_eq_default _ 0 (hlen ▸ hn)]
    decide

theorem invscan_inj (hs : s < 3) (hi : i < 16) (hj : j < 16)
    (h : (gau1IhevcInvscan4x4At s).getD i 0 = (gau1IhevcInvscan4x4At s).getD j 0) : i = j := by
  obtain ⟨hlen, hnodup, -⟩ := invscan_ok s hs
  rw [List.getD_eq_getElem _ 0 (hlen ▸ hi), List.getD_eq_getElem _ 0 (hlen ▸ hj)] at h
  exact hnodup.getElem_inj_iff.mp h

namespace TuSblkCoeffData

theorem mem_entries {d : TuSblkCoeffData} (h : e ∈ d.entries s) :
    ∃ n < 16, ∃ lv ∈ d.ai2Level, e = d.entry s n lv := by
  obtain ⟨⟨n, lv⟩, hmem, rfl⟩ := List.mem_map.mp h
  obtain ⟨hn, hlv⟩ := List.of_mem_zip hmem
  exact ⟨n, (mem_sigBelow.mp hn).1, lv, hlv, rfl⟩

theorem entries_sblk {d : TuSblkCoeffData} (hs : s < 3) (h : e ∈ d.entries s) :
    e.row / 4 = d.ys ∧ e.col / 4 = d.xs := by
  obtain ⟨n, -, lv, -, rfl⟩ := mem_entries h
  have := invscan_lt hs n
  constructor
  · show (4 * d.ys + _ / 4) / 4 = d.ys
    omega
  · show (4 * d.xs + _ % 4) / 4 = d.xs
    omega

theorem Ok.entries_nodup {d : TuSblkCoeffData} (hd : d.Ok size) (hs : s < 3) :
    ((d.entries s).map fun e => (e.row, e.col)).Nodup := by
  have hmap : ((d.entries s).map fun e => (e.row, e.col))
      = (sigPositions d.u2SigCoeffMap).map fun n =>
        (4 * d.ys + (gau1IhevcInvscan4x4At s).getD n 0 / 4,
          4 * d.xs + (gau1IhevcInvscan4x4At s).getD n 0 % 4) := by
    have hfst : ((sigPositions d.u2SigCoeffMap).zip d.ai2Level).map Prod.fst
        = sigPositions d.u2SigCoeffMap := List.map_fst_zip (le_of_eq hd.length.symm)
    rw [← hfst, List.map_map, entries, List.map_map]
    rfl
  rw [hmap]
  refine List.Nodup.map_on (fun i hi j hj heq => ?_) (sigBelow_nodup _ _)
  obtain ⟨hrow, hcol⟩ := Prod.mk.inj heq
  exact invscan_inj hs (mem_sigBelow.mp hi).1 (mem_sigBelow.mp hj).1 (by omega)

end TuSblkCoeffData

namespace TuCoeffData

variable {t : TuCoeffData}

theorem Ok.mem_entries (ht : t.Ok k) (h : e ∈ t.entries) :
    IsWord16 e.level ∧ e.row < 4 * 2 ^ (k - 2) ∧ e.col < 4 * 2 ^ (k - 2) := by
  obtain ⟨d, hd, he⟩ := List.mem_flatMap.mp h
  have hok := ht.sblks d hd
  have hpos := TuSblkCoeffData.entries_sblk ht.scan he
  have hxs := hok.xs
  have hys := hok.ys
  obtain ⟨n, -, lv, hlv, rfl⟩ := TuSblkCoeffData.mem_entries he
  exact ⟨hok.level lv hlv, by omega, by omega⟩

theorem Ok.entries_nodup (ht : t.Ok k) : (t.entries.map fun e => (e.row, e.col)).Nodup := by
  unfold entries
  rw [List.map_flatMap, List.nodup_flatMap]
  refine ⟨fun d hd => (ht.sblks d hd).entries_nodup ht.scan, ?_⟩
  have hpair := List.pairwise_map.mp ht.nodup
  refine hpair.imp fun {d d'} hne => ?_
  intro pos hpos hpos'
  obtain ⟨e, he, rfl⟩ := List.mem_map.mp hpos
  obtain ⟨e', he', heq⟩ := List.mem_map.mp hpos'
  obtain ⟨hrow, hcol⟩ := Prod.mk.inj heq
  have hd := TuSblkCoeffData.entries_sblk ht.scan he
  have hd' := TuSblkCoeffData.entries_sblk ht.scan he'
  exact hne (Prod.ext (by omega) (by omega))

end TuCoeffData

end Libhevc.Decoder
