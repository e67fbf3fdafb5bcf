import Libhevc.Decoder.UnpackCoeffsLaws

/-!
# The unpacking of what was written

From the buffer that `ihevcd_parse_residual_coding` leaves for a block the
levels come out scaled in their places. The `DC only` case reports the value
that the general path would put there.
-/

namespace Libhevc.Decoder

open Memory (Holds)

variable {a : UnpackArgs} {t : TuCoeffData} {buf : Nat → Nat}

/-- What the general path leaves. -/
structure Unpacked (a : UnpackArgs) (t : TuCoeffData) (p : Nat) (out : Nat × UnpackSt) :
    Prop where
  ptr : out.1 = p + t.bytes.length
  levels : ∀ e ∈ t.entries,
    out.2.pi2TuCoeff e.row e.col = a.value t.transformSkipFlag e.row e.col e.level
  zero : ∀ row < a.transSize, ∀ col < a.transSize,
    (∀ e ∈ t.entries, ¬(e.row = row ∧ e.col = col)) → out.2.pi2TuCoeff row col = 0
  cols : ∀ n < 32, out.2.u4ZeroCols.testBit n = true ↔ ∀ e ∈ t.entries, e.col ≠ n
  rows : ∀ n < 32, out.2.u4ZeroRows.testBit n = true ↔ ∀ e ∈ t.entries, e.row ≠ n
  coeffType : out.2.u4CoeffType = 0

/-- One sub-block, with a coefficient at the first position only, and no DST. -/
def TuCoeffData.DcOnly (t : TuCoeffData) (a : UnpackArgs) : Prop :=
  a.dst4x4 = false ∧ ∃ lv, t.sblks = [⟨0, 0, 1, [lv]⟩]

/-- What the `DC only` case reports, where the general path gives `gen`. -/
structure DcReported (a : UnpackArgs) (t : TuCoeffData) (st : UnpackSt)
    (gen out : Nat × UnpackSt) : Prop where
  ptr : out.1 = gen.1
  value : out.2.i2CoeffValue = gen.2.pi2TuCoeff 0 0
  first : out.2.pi2TuCoeff 0 0 = gen.2.pi2TuCoeff 0 0
  others : ∀ row col, ¬(row = 0 ∧ col = 0) → out.2.pi2TuCoeff row col =
    if row < a.transSize ∧ col < a.transSize ∧
      (t.transformSkipFlag = true ∨ a.transQuantBypass = true ∧ col = 0) then 0
    else st.pi2TuCoeff row col
  cols : out.2.u4ZeroCols = gen.2.u4ZeroCols
  rows : out.2.u4ZeroRows = gen.2.u4ZeroRows
  coeffType : out.2.u4CoeffType = 1

-- ---------------------------------------------------------------------------
-- The head of the buffer
-- ---------------------------------------------------------------------------

theorem TuCoeffData.holds_iff : Holds buf p t.bytes ↔ buf p = t.sblks.length ∧
    buf (p + 1) = t.scanByte ∧ Holds buf (p + 2) (t.sblks.flatMap TuSblkCoeffData.bytes) := by
  unfold TuCoeffData.bytes
  rw [Holds.append, Holds.cons, Holds.singleton, and_assoc]
  rfl

theorem TuCoeffData.Ok.scanByte_eq (ht : t.Ok k) :
    (t.scanByte &&& 1 == 1) = t.transformSkipFlag ∧ (t.scanByte &&& 0xF) >>> 1 = t.scanIdx := by
  have hscan := ht.scan
  unfold TuCoeffData.scanByte
  generalize t.scanIdx = s at hscan
  revert s
  cases t.transformSkipFlag <;> cases t.explicitRdpcmFlag <;> cases t.explicitRdpcmDir <;> decide

theorem transSize_eq (ha : a.Ok) : a.transSize = 4 * 2 ^ (a.log2TransSize - 2) := by
  have := ha.log2
  unfold UnpackArgs.transSize
  rw [Nat.one_shiftLeft, show (4 : Nat) = 2 ^ 2 from rfl, ← pow_add]
  congr 1
  omega

theorem sblk_size (ha : a.Ok) : 2 ^ (a.log2TransSize - 2) ≤ 8 := by
  have := ha.log2
  exact (Nat.pow_le_pow_right (by decide) (by omega : a.log2TransSize - 2 ≤ 3)).trans (by decide)

/-- The general path stores every level. -/
theorem general_eq (ha : a.Ok) (ht : t.Ok a.log2TransSize) (hbuf : Holds buf p t.bytes)
    (st : UnpackSt) :
    a.general buf p st = some (p + t.bytes.length,
      a.storeAll t.transformSkipFlag t.entries
        { st with
          pi2TuCoeff := a.clear st.pi2TuCoeff
          u4ZeroCols := 0xFFFFFFFF
          u4ZeroRows := 0xFFFFFFFF
          u4CoeffType := 0 }) := by
  obtain ⟨hlen, hscan, hsblks⟩ := TuCoeffData.holds_iff.mp hbuf
  unfold UnpackArgs.general
  rw [hlen, hscan, ht.scanByte_eq.1, ht.scanByte_eq.2,
    UnpackArgs.sblkLoop_eq t.sblks ht.sblks (sblk_size ha) hsblks]
  unfold TuCoeffData.bytes
  rw [List.length_append, ← Nat.add_assoc]
  rfl

theorem general_unpacked (ha : a.Ok) (ht : t.Ok a.log2TransSize) (hbuf : Holds buf p t.bytes)
    (st : UnpackSt) : ∃ gen, a.general buf p st = some gen ∧ Unpacked a t p gen := by
  have hes : ∀ e ∈ t.entries, e.row < 32 ∧ e.col < 32 := by
    intro e he
    have hsize := sblk_size ha
    obtain ⟨-, hrow, hcol⟩ := ht.mem_entries he
    exact ⟨by omega, by omega⟩
  have hones : ∀ n < 32, Nat.testBit 0xFFFFFFFF n = true := by decide
  refine ⟨_, general_eq ha ht hbuf st, rfl, fun e he => ?_, fun row hr col hc hno => ?_,
    fun n hn => ?_, fun n hn => ?_, ?_⟩
  · rw [UnpackArgs.storeAll_of_entry _ _ ht.entries_nodup he]
    exact ha.iquantOut_eq (ht.mem_entries he).1 _ _ _
  · refine (UnpackArgs.storeAll_of_no_entry _ _ hno).trans ?_
    exact if_pos ⟨hr, hc⟩
  · rw [(UnpackArgs.storeAll_masks _ _ hes hn).1, hones n hn, Bool.true_and, List.all_eq_true]
    exact forall₂_congr fun e _ => bne_iff_ne
  · rw [(UnpackArgs.storeAll_masks _ _ hes hn).2, hones n hn, Bool.true_and, List.all_eq_true]
    exact forall₂_congr fun e _ => bne_iff_ne
  · exact UnpackArgs.storeAll_coeffType _ _

-- ---------------------------------------------------------------------------
-- The `DC only` case
-- ---------------------------------------------------------------------------

theorem TuSblkCoeffData.holds_bytes {d : TuSblkCoeffData} (hd : d.Ok size) (hsize : size ≤ 8)
    (h : Holds buf p d.bytes) :
    readUword16 buf p = d.ys * 256 + d.xs ∧ readUword16 buf (p + 2) = d.u2SigCoeffMap ∧
      Holds buf (p + 4) (d.ai2Level.flatMap wordBytes) := by
  have hxs := hd.xs
  have hys := hd.ys
  unfold TuSblkCoeffData.bytes at h
  obtain ⟨hhead, hlevels⟩ := Holds.append.mp h
  obtain ⟨hpos, hmap⟩ := Holds.append.mp hhead
  have hval : d.u2SubblkPos = d.ys * 256 + d.xs := shiftLeft_or (k := 8) (by omega)
  rw [hval] at hpos
  exact ⟨readUword16_nat hpos (by omega), readUword16_nat hmap hd.lt, hlevels⟩

theorem dcTest_iff (ha : a.Ok) (ht : t.Ok a.log2TransSize) (hbuf : Holds buf p t.bytes) :
    a.dcTest buf p = true ↔ t.DcOnly a := by
  obtain ⟨hlen, hscan, hsblks⟩ := TuCoeffData.holds_iff.mp hbuf
  unfold UnpackArgs.dcTest TuCoeffData.DcOnly
  rw [Bool.and_eq_true, Bool.and_eq_true, Bool.and_eq_true, Bool.not_eq_true', beq_iff_eq,
    beq_iff_eq, beq_iff_eq, hlen]
  constructor
  · rintro ⟨⟨⟨hdst, hone⟩, hpos⟩, hmap⟩
    obtain ⟨d, hd⟩ := List.length_eq_one_iff.mp hone
    have hok := ht.sblks d (by rw [hd]; exact List.mem_singleton_self d)
    rw [hd, List.flatMap_singleton] at hsblks
    obtain ⟨hpos', hmap', -⟩ := TuSblkCoeffData.holds_bytes hok (sblk_size ha) hsblks
    have hlv := hok.length
    rw [hpos] at hpos'
    rw [hmap] at hmap'
    rw [← hmap'] at hlv
    obtain ⟨lv, hlv⟩ := List.length_eq_one_iff.mp (hlv.trans (by decide))
    refine ⟨hdst, lv, ?_⟩
    obtain ⟨xs, ys, m, l⟩ := d
    dsimp only at hpos' hmap' hlv
    rw [hd, hlv, ← hmap', show xs = 0 by omega, show ys = 0 by omega]
  · rintro ⟨hdst, lv, hd⟩
    have hok := ht.sblks ⟨0, 0, 1, [lv]⟩ (by rw [hd]; exact List.mem_singleton_self _)
    rw [hd, List.flatMap_singleton] at hsblks
    obtain ⟨hpos, hmap, -⟩ := TuSblkCoeffData.holds_bytes hok (sblk_size ha) hsblks
    dsimp only at hpos hmap
    exact ⟨⟨⟨hdst, congrArg List.length hd⟩, hpos⟩, hmap⟩

theorem dcOnly_reported (ha : a.Ok) (ht : t.Ok a.log2TransSize) (hbuf : Holds buf p t.bytes)
    (hdc : t.DcOnly a) (st : UnpackSt) (hgen : a.general buf p st = some gen) :
    DcReported a t st gen (a.dcOnly buf p st) := by
  obtain ⟨-, lv, hd⟩ := hdc
  obtain ⟨hlen, hscan, hsblks⟩ := TuCoeffData.holds_iff.mp hbuf
  have hok := ht.sblks ⟨0, 0, 1, [lv]⟩ (by rw [hd]; exact List.mem_singleton_self _)
  have hlevel : readWord16 buf (p + 6) = lv := by
    rw [hd, List.flatMap_singleton] at hsblks
    obtain ⟨-, -, hlv⟩ := TuSblkCoeffData.holds_bytes hok (sblk_size ha) hsblks
    rw [List.flatMap_singleton] at hlv
    exact readWord16_eq hlv (hok.level lv (List.mem_singleton_self lv))
  have hentries : t.entries = [⟨0, 0, lv⟩] := by
    have hfirst : ∀ s < 3, (gau1IhevcInvscan4x4At s).getD 0 0 = 0 := by decide
    unfold TuCoeffData.entries
    rw [hd, List.flatMap_singleton]
    unfold TuSblkCoeffData.entries
    dsimp only
    rw [show sigPositions 1 = [0] by decide, List.zip_cons_cons, List.zip_nil_left,
      List.map_singleton]
    unfold TuSblkCoeffData.entry
    rw [hfirst _ ht.scan]
    rfl
  have hbytes : t.bytes.length = 8 := by
    unfold TuCoeffData.bytes
    rw [hd, List.flatMap_singleton, List.length_append, TuSblkCoeffData.length_bytes]
    rfl
  rw [general_eq ha ht hbuf, hentries, hbytes] at hgen
  obtain rfl := Option.some.inj hgen
  unfold UnpackArgs.dcOnly
  rw [hlevel, hscan, ht.scanByte_eq.1]
  refine ⟨rfl, rfl, rfl, fun row col hne => ?_, rfl, rfl, rfl⟩
  dsimp only
  rw [if_neg hne]
  have hsize : 0 < a.transSize := by
    rw [transSize_eq ha]
    positivity
  cases t.transformSkipFlag with
  | true =>
    unfold UnpackArgs.clear
    split
    · rename_i hcol
      exact (if_pos ⟨hcol.2.1, hcol.2.2 ▸ hsize, Or.inl rfl⟩).symm
    · exact if_congr ⟨fun h => ⟨h.1, h.2, Or.inl rfl⟩, fun h => ⟨h.1, h.2.1⟩⟩ rfl rfl
  | false =>
    refine if_congr ⟨fun h => ⟨h.2.1, h.2.2 ▸ hsize, Or.inr ⟨h.1, h.2.2⟩⟩, ?_⟩ rfl rfl
    rintro ⟨hrow, -, hskip | ⟨hbypass, hcol⟩⟩
    · exact absurd hskip (by decide)
    · exact ⟨hbypass, hrow, hcol⟩

theorem ihevcdUnpackCoeffs_unpacks (ha : a.Ok) (ht : t.Ok a.log2TransSize)
    (hbuf : Holds buf p t.bytes) (st : UnpackSt) :
    ∃ gen, a.general buf p st = some gen ∧ Unpacked a t p gen ∧
      (¬ t.DcOnly a ∧ ihevcdUnpackCoeffs a buf p st = some gen ∨
        t.DcOnly a ∧ ∃ out, ihevcdUnpackCoeffs a buf p st = some out ∧
          DcReported a t st gen out) := by
  obtain ⟨gen, hgen, hun⟩ := general_unpacked ha ht hbuf st
  refine ⟨gen, hgen, hun, ?_⟩
  have hiff := dcTest_iff ha ht hbuf
  unfold ihevcdUnpackCoeffs
  by_cases hdc : t.DcOnly a
  · rw [if_pos (hiff.mpr hdc)]
    exact Or.inr ⟨hdc, _, rfl, dcOnly_reported ha ht hbuf hdc st hgen⟩
  · rw [if_neg fun h => hdc (hiff.mp h)]
    exact Or.inl ⟨hdc, hgen⟩

-- ---------------------------------------------------------------------------
-- Two 8x8 blocks
-- ---------------------------------------------------------------------------

def flatArgs : UnpackArgs where
  log2TransSize := 3
  pi2DequantMatrix := fun _ _ => 16
  qpRem := 2
  qpDiv := 4
  dst4x4 := false
  transQuantBypass := false
  bitDepth := 8

def diagData (sblks : List TuSblkCoeffData) : TuCoeffData where
  scanIdx := 0
  transformSkipFlag := false
  explicitRdpcmFlag := false
  explicitRdpcmDir := false
  sblks := sblks

/-- The block of the last call, with 7 in every place. -/
def usedSt : UnpackSt := ⟨fun _ _ => 7, 0, 0, 0, 0⟩

theorem flatArgs_ok : flatArgs.Ok :=
  ⟨by decide, by decide, by decide, by decide,
    fun _ _ => (by decide : (1 : Int) ≤ 16 ∧ (16 : Int) ≤ 255)⟩

def dcLevel : TuCoeffData := diagData [⟨0, 0, 1, [5]⟩]

def twoSblks : TuCoeffData := diagData [⟨1, 0, 0x8001, [3, -2]⟩, ⟨0, 0, 1, [5]⟩]

/-- A single DC level leaves the 7 of the call before in the block. -/
theorem ihevcdUnpackCoeffs_dcOnly_leaves :
    flatArgs.Ok ∧ dcLevel.Ok 3 ∧ Holds (fun i => dcLevel.bytes.getD i 0) 0 dcLevel.bytes ∧
      (∀ e ∈ dcLevel.entries, ¬(e.row = 1 ∧ e.col = 1)) ∧
      (ihevcdUnpackCoeffs flatArgs (fun i => dcLevel.bytes.getD i 0) 0 usedSt).map
        (fun out => out.2.pi2TuCoeff 1 1) = some 7 := by
  refine ⟨flatArgs_ok, ⟨by decide, fun d hd => ?_, by decide⟩, Memory.holds_getD _ _, by decide,
    by decide⟩
  obtain rfl := List.mem_singleton.mp hd
  exact ⟨by decide, by decide, by decide, by decide, by decide, by unfold IsWord16; decide⟩

theorem ihevcdUnpackCoeffs_unpacks_twoSblks :
    ∃ out, ihevcdUnpackCoeffs flatArgs (fun i => twoSblks.bytes.getD i 0) 0 usedSt = some out ∧
      Unpacked flatArgs twoSblks 0 out := by
  have hok : twoSblks.Ok flatArgs.log2TransSize := by
    refine ⟨by decide, fun d hd => ?_, by decide⟩
    rcases List.mem_cons.mp hd with rfl | hd
    · exact ⟨by decide, by decide, by decide, by decide, by decide, by unfold IsWord16; decide⟩
    · obtain rfl := List.mem_singleton.mp hd
      exact ⟨by decide, by decide, by decide, by decide, by decide, by unfold IsWord16; decide⟩
  obtain ⟨gen, -, hun, ⟨-, heq⟩ | ⟨⟨-, lv, hone⟩, -⟩⟩ :=
    ihevcdUnpackCoeffs_unpacks flatArgs_ok hok (Memory.holds_getD twoSblks.bytes 0) usedSt
  · exact ⟨gen, heq, hun⟩
  · exact absurd (show 2 = 1 from congrArg List.length hone) (by decide)

end Libhevc.Decoder
