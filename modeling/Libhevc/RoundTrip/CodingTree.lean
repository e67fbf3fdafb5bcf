import Libhevc.RoundTrip.CodingQuadtree

/-!
# The coding units of a picture

From the coding unit up: the nodes of a quadtree, a CTB, and all the CTBs of a picture of one slice
without tiles.
-/

namespace Libhevc.RoundTrip

open Reader Encoder Decoder Encoder.CuSyntax Decoder.CuSyntax

namespace CuPicture

variable (p : CuPicture)

/-- The coding units that begin in the picture, in coding order. -/
def blocks : CodingQuadtree (CuEncLoop τ) → (log2CbSize x0 y0 : Nat) → List (CuBlock τ)
  | .cu c, n, x0, y0 => [⟨c, n, x0, y0⟩]
  | .split c0 c1 c2 c3, n, x0, y0 =>
    let x1 := x0 + 2 ^ (n - 1)
    let y1 := y0 + 2 ^ (n - 1)
    blocks c0 (n - 1) x0 y0 ++
      ((if x1 < p.sps.i2PicWidthInLumaSamples then blocks c1 (n - 1) x1 y0 else []) ++
        ((if y1 < p.sps.i2PicHeightInLumaSamples then blocks c2 (n - 1) x0 y1 else []) ++
          if x1 < p.sps.i2PicWidthInLumaSamples ∧ y1 < p.sps.i2PicHeightInLumaSamples then
            blocks c3 (n - 1) x1 y1
          else []))

/-- A quadtree whose coding units are as they may be; one that is not split is of the smallest size
or inside the picture. -/
def TreeLegal (ctbX ctbY : Nat) : CodingQuadtree (CuEncLoop τ) → (log2CbSize x0 y0 : Nat) → Prop
  | .cu c, n, x0, y0 =>
    p.Legal ctbX ctbY ⟨c, n, x0, y0⟩ ∧
      (n = p.sps.i1Log2MinCodingBlockSize ∨
        x0 + 2 ^ n ≤ p.sps.i2PicWidthInLumaSamples ∧ y0 + 2 ^ n ≤ p.sps.i2PicHeightInLumaSamples)
  | .split c0 c1 c2 c3, n, x0, y0 =>
    let x1 := x0 + 2 ^ (n - 1)
    let y1 := y0 + 2 ^ (n - 1)
    p.sps.i1Log2MinCodingBlockSize < n ∧ TreeLegal ctbX ctbY c0 (n - 1) x0 y0 ∧
      (x1 < p.sps.i2PicWidthInLumaSamples → TreeLegal ctbX ctbY c1 (n - 1) x1 y0) ∧
      (y1 < p.sps.i2PicHeightInLumaSamples → TreeLegal ctbX ctbY c2 (n - 1) x0 y1) ∧
      (x1 < p.sps.i2PicWidthInLumaSamples ∧ y1 < p.sps.i2PicHeightInLumaSamples →
        TreeLegal ctbX ctbY c3 (n - 1) x1 y1)

theorem TreeLegal.log2Min_le {p : CuPicture} {t : CodingQuadtree (CuEncLoop τ)}
    (h : p.TreeLegal ctbX ctbY t n x0 y0) : p.sps.i1Log2MinCodingBlockSize ≤ n := by
  cases t with
  | cu c => exact h.1.size_ge
  | split c0 c1 c2 c3 => exact Nat.le_of_lt h.1

/-- The first coding unit of a node is not larger than the node. -/
theorem TreeLegal.head {p : CuPicture} {t : CodingQuadtree (CuEncLoop τ)}
    (h : p.TreeLegal ctbX ctbY t n x0 y0) :
    ∃ b l, p.blocks t n x0 y0 = b :: l ∧ b.cu.b4CuSize <<< 3 ≤ 2 ^ n := by
  induction t generalizing n x0 y0 with
  | cu c => exact ⟨_, _, rfl, Nat.le_of_eq h.1.size⟩
  | split c0 c1 c2 c3 ih0 =>
    obtain ⟨b, l, hblocks, hsize⟩ := ih0 h.2.1
    have hle : 2 ^ (n - 1) ≤ 2 ^ n := Nat.pow_le_pow_right two_pos (Nat.sub_le n 1)
    rw [blocks, hblocks]
    exact ⟨b, _, rfl, hsize.trans hle⟩

end CuPicture

-- ---------------------------------------------------------------------------
-- The split flag
-- ---------------------------------------------------------------------------

section
variable {p : CuPicture} {ctbX ctbY : Nat} {pos : CtbPos} {psEncCu : List (CuEncLoop τ)}

theorem depth_eq {v v' : Nat × Bool} (h : seen inter v = seen inter v') : v.1 = v'.1 :=
  (Prod.mk.inj h).1

theorem cuSplitInc_eq (hpos : AtRaster pos ctbX ctbY) (hx : OnGrid p.sps.i1Log2CtbSize ctbX n d x0)
    (hy : OnGrid p.sps.i1Log2CtbSize ctbY n d y0) (hn : 3 ≤ n)
    (htop : (p.ctbConfig ctbX ctbY psEncCu).topAvail y0 (1 <<< (n + d)) = true →
      TopSame p s m x0)
    (hleft : (p.ctbConfig ctbX ctbY psEncCu).leftAvail x0 (1 <<< (n + d)) = true →
      LeftSame p s m y0) :
    (p.parser pos).splitInc m x0 y0 d =
      (if (p.ctbConfig ctbX ctbY psEncCu).topAvail y0 (1 <<< (n + d)) = true ∧
        d < (s.top x0).1 then 1 else 0) +
      if (p.ctbConfig ctbX ctbY psEncCu).leftAvail x0 (1 <<< (n + d)) = true ∧
        d < (s.left p.sps.i1Log2CtbSize y0).1 then 1 else 0 := by
  have hpart {avail avail' : Bool} {k k' : Nat} (havail : avail = avail')
      (hsame : avail' = true → k = k') :
      (if avail = true ∧ d < k then 1 else 0) = if avail' = true ∧ d < k' then 1 else 0 := by
    subst havail
    cases avail with
    | false => rfl
    | true => rw [hsame rfl]
  exact congrArg₂ (· + ·)
    (hpart (topAvailable_eq hpos hy hn psEncCu) fun h => depth_eq (htop h))
    (hpart (leftAvailable_eq hpos hx hn psEncCu) fun h => depth_eq (hleft h))

/-- The flag of the writer, by what it has of the neighbours. -/
theorem encodeSplitCuFlag_eq (cu : CuEncLoop τ) (n x0 y0 d : Nat) (s : CuContext) :
    (p.ctbConfig ctbX ctbY psEncCu).encodeSplitCuFlag cu n x0 y0 d s =
      if x0 + 2 ^ n ≤ p.sps.i2PicWidthInLumaSamples ∧
          y0 + 2 ^ n ≤ p.sps.i2PicHeightInLumaSamples ∧ p.sps.i1Log2MinCodingBlockSize < n then
        (decide (cu.b4CuSize <<< 3 < 2 ^ n),
          [.ctxt (ihevcCabSplitCuFlag +
            ((if (p.ctbConfig ctbX ctbY psEncCu).topAvail y0 (1 <<< (n + d)) = true ∧
              d < (s.top x0).1 then 1 else 0) +
            if (p.ctbConfig ctbX ctbY psEncCu).leftAvail x0 (1 <<< (n + d)) = true ∧
              d < (s.left p.sps.i1Log2CtbSize y0).1 then 1 else 0))
            (decide (cu.b4CuSize <<< 3 < 2 ^ n))])
      else (decide (p.sps.i1Log2MinCodingBlockSize < n), []) := by
  have hrow : (y0 >>> 3) &&& 7 = y0 / 8 % 8 := by
    rw [Nat.and_two_pow_sub_one_eq_mod _ 3, Nat.shiftRight_eq_div_pow]
  have hcolumn : x0 >>> 3 = x0 / 8 := Nat.shiftRight_eq_div_pow x0 3
  unfold CtbConfig.encodeSplitCuFlag
  rw [hrow, hcolumn]
  rfl

theorem splitCuFlag_reads (cu : CuEncLoop τ) (hpos : AtRaster pos ctbX ctbY)
    (hx : OnGrid p.sps.i1Log2CtbSize ctbX n d x0) (hy : OnGrid p.sps.i1Log2CtbSize ctbY n d y0)
    (hn : 3 ≤ n)
    (htop : (p.ctbConfig ctbX ctbY psEncCu).topAvail y0 (1 <<< (n + d)) = true →
      TopSame p s m x0)
    (hleft : (p.ctbConfig ctbX ctbY psEncCu).leftAvail x0 (1 <<< (n + d)) = true →
      LeftSame p s m y0) :
    Reads ((p.parser pos).parseSplitCuFlag x0 y0 n d m : BinReader (TreePiece τ) Bool)
      (p.bins ((p.ctbConfig ctbX ctbY psEncCu).encodeSplitCuFlag cu n x0 y0 d s).2)
      ((p.ctbConfig ctbX ctbY psEncCu).encodeSplitCuFlag cu n x0 y0 d s).1 := by
  have hinc := cuSplitInc_eq hpos hx hy hn htop hleft
  have hctxt : SharedCtxt (ihevcCabSplitCuFlag + (p.parser pos).splitInc m x0 y0 d) := by
    rw [hinc]
    split_ifs <;> decide
  rw [encodeSplitCuFlag_eq, ← hinc]
  unfold CuParser.parseSplitCuFlag
  generalize (p.parser pos).splitInc m x0 y0 d = inc at hctxt ⊢
  by_cases hcoded : x0 + 2 ^ n ≤ p.sps.i2PicWidthInLumaSamples ∧
      y0 + 2 ^ n ≤ p.sps.i2PicHeightInLumaSamples ∧ p.sps.i1Log2MinCodingBlockSize < n
  · rw [if_pos hcoded]
    unfold CuPicture.bins
    rw [(InCtxts.ctxt hctxt InCtxts.nil).kept]
    exact (if_pos hcoded).symm ▸ decodeBin_reads _ _
  · rw [if_neg hcoded]
    exact (if_neg hcoded).symm ▸ Reads.pure _

-- ---------------------------------------------------------------------------
-- Steps of both sides
-- ---------------------------------------------------------------------------

/-- Where both sides had the same they have it still. -/
structure CuKeeps (p : CuPicture) (ctbY : Nat) (s : CuContext) (m : CuMaps) (s' : CuContext)
    (m' : CuMaps) : Prop where
  top : ∀ x, TopSame p s m x → TopSame p s' m' x
  left : ∀ y, y / 2 ^ p.sps.i1Log2CtbSize = ctbY → LeftSame p s m y → LeftSame p s' m' y

theorem CuKeeps.refl (s : CuContext) (m : CuMaps) : CuKeeps p ctbY s m s m :=
  ⟨fun _ h => h, fun _ _ h => h⟩

theorem CuKeeps.trans (h : CuKeeps p ctbY s m s' m') (h' : CuKeeps p ctbY s' m' s'' m'') :
    CuKeeps p ctbY s m s'' m'' :=
  ⟨fun x hx => h'.top x (h.top x hx), fun y hy hl => h'.left y hy (h.left y hy hl)⟩

/-- Both sides have the same in the columns and the rows of a node. -/
structure Covers (p : CuPicture) (n x0 y0 : Nat) (s : CuContext) (m : CuMaps) : Prop where
  top : ∀ x, x0 ≤ x → x < x0 + 2 ^ n → x < p.sps.i2PicWidthInLumaSamples → TopSame p s m x
  left : ∀ y, y0 ≤ y → y < y0 + 2 ^ n → y < p.sps.i2PicHeightInLumaSamples → LeftSame p s m y

/-- Both sides have the same of the neighbours of a node, where these are available. -/
structure Borders (p : CuPicture) (c : CtbConfig τ) (n x0 y0 : Nat) (s : CuContext) (m : CuMaps) :
    Prop where
  top : c.topAvail y0 (1 <<< p.sps.i1Log2CtbSize) = true →
    ∀ x, x0 ≤ x → x < x0 + 2 ^ n → x < p.sps.i2PicWidthInLumaSamples → TopSame p s m x
  left : c.leftAvail x0 (1 <<< p.sps.i1Log2CtbSize) = true →
    ∀ y, y0 ≤ y → y < y0 + 2 ^ n → y < p.sps.i2PicHeightInLumaSamples → LeftSame p s m y

/-- The parser gets the blocks from the bins of the writer. -/
structure Coded (p : CuPicture)
    (enc : CuContext → Option (CuContext × List (Bin (TreePiece τ))))
    (dec : CuMaps × List (ParsedCu τ) → BinReader (TreePiece τ) (CuMaps × List (ParsedCu τ)))
    (bs : List (CuBlock τ)) (s : CuContext) (m : CuMaps) (s' : CuContext) (m' : CuMaps) :
    Prop where
  reads : ∃ bins, enc s = some (s', bins) ∧
    ∀ cus, Reads (dec (m, cus)) (p.bins bins) (m', cus ++ bs.map p.decoded)
  cuIdx : s'.i4CuIdx = s.i4CuIdx + bs.length

/-- A step that is made under a condition. -/
theorem Coded.guard {c : Prop} [Decidable c]
    {enc : CuContext → Option (CuContext × List (Bin (TreePiece τ)))}
    {dec : CuMaps × List (ParsedCu τ) → BinReader (TreePiece τ) (CuMaps × List (ParsedCu τ))}
    (h : c → ∃ s' m', Coded p enc dec bs s m s' m' ∧ CuKeeps p ctbY s m s' m' ∧
      Covers p n x0 y0 s' m') :
    ∃ s' m', Coded p (fun s => if c then enc s else some (s, []))
        (fun st => if c then dec st else pure st) (if c then bs else []) s m s' m' ∧
      CuKeeps p ctbY s m s' m' ∧ (c → Covers p n x0 y0 s' m') := by
  by_cases hc : c
  · obtain ⟨s', m', hcoded, hkeeps, hcovers⟩ := h hc
    simp only [if_pos hc]
    exact ⟨s', m', hcoded, hkeeps, fun _ => hcovers⟩
  · simp only [if_neg hc]
    refine ⟨s, m, ⟨⟨[], rfl, fun cus => ?_⟩, rfl⟩, CuKeeps.refl s m, fun h => absurd h hc⟩
    rw [List.map_nil, List.append_nil]
    exact Reads.pure _

theorem visit_eq {c : Prop} [Decidable c] {f : CuContext → Option (CuContext × List (Bin ρ))}
    (h : (if c then f s else some (s, [])) = some (s', bins)) (l : List (Bin ρ)) :
    CtbConfig.visit (decide c) f (s, l) = some (s', l ++ bins) := by
  unfold CtbConfig.visit
  by_cases hc : c
  · rw [if_pos hc] at h
    rw [if_pos (decide_eq_true hc), h]
    rfl
  · rw [if_neg hc] at h
    obtain ⟨rfl, rfl⟩ := Prod.mk.inj (Option.some.inj h)
    rw [if_neg (by simpa using hc), List.append_nil]

theorem drop_next {l a rest : List α} (h : l.drop i = a ++ rest) :
    l.drop (i + a.length) = rest := by
  rw [← List.drop_drop, h, List.drop_left]

-- ---------------------------------------------------------------------------
-- Nodes
-- ---------------------------------------------------------------------------

theorem encode_leaf {c : CtbConfig τ} (hget : c.psEncCu[s.i4CuIdx]? = some cu)
    (hflag : (c.encodeSplitCuFlag cu (n + 1) x0 y0 d s).1 = false) :
    c.ihevceEncodeCodingQuadtree (n + 1) x0 y0 d s =
      some ((c.encodeCu cu (n + 1) x0 y0 d s).1,
        (c.encodeSplitCuFlag cu (n + 1) x0 y0 d s).2 ++ (c.encodeCu cu (n + 1) x0 y0 d s).2) := by
  unfold CtbConfig.ihevceEncodeCodingQuadtree
  simp only [hget, Option.bind_eq_bind, Option.bind_some]
  generalize c.encodeSplitCuFlag cu (n + 1) x0 y0 d s = r at hflag
  obtain ⟨flag, bins⟩ := r
  subst hflag
  rfl

/-- The quarters of a node, by their own steps. -/
theorem encode_split {c : CtbConfig τ} (hget : c.psEncCu[s.i4CuIdx]? = some cu)
    (hflag : (c.encodeSplitCuFlag cu (n + 1) x0 y0 d s).1 = true)
    (h0 : c.ihevceEncodeCodingQuadtree n x0 y0 (d + 1) s = some (s0, bins0))
    (h1 : (if x0 + 2 ^ n < c.picWidth then
        c.ihevceEncodeCodingQuadtree n (x0 + 2 ^ n) y0 (d + 1) s0 else some (s0, [])) =
      some (s1, bins1))
    (h2 : (if y0 + 2 ^ n < c.picHeight then
        c.ihevceEncodeCodingQuadtree n x0 (y0 + 2 ^ n) (d + 1) s1 else some (s1, [])) =
      some (s2, bins2))
    (h3 : (if x0 + 2 ^ n < c.picWidth ∧ y0 + 2 ^ n < c.picHeight then
        c.ihevceEncodeCodingQuadtree n (x0 + 2 ^ n) (y0 + 2 ^ n) (d + 1) s2
      else some (s2, [])) = some (s3, bins3)) :
    c.ihevceEncodeCodingQuadtree (n + 1) x0 y0 d s =
      some (s3, (c.encodeSplitCuFlag cu (n + 1) x0 y0 d s).2 ++
        (bins0 ++ (bins1 ++ (bins2 ++ bins3)))) := by
  unfold CtbConfig.ihevceEncodeCodingQuadtree
  simp only [hget, Option.bind_eq_bind, Option.bind_some]
  generalize c.encodeSplitCuFlag cu (n + 1) x0 y0 d s = r at hflag
  obtain ⟨flag, bins⟩ := r
  subst hflag
  have hv0 : CtbConfig.visit true (c.ihevceEncodeCodingQuadtree n x0 y0 (d + 1)) (s, bins) =
      some (s0, bins ++ bins0) := by
    unfold CtbConfig.visit
    rw [if_pos rfl, h0]
    rfl
  change ((CtbConfig.visit true _ (s, bins)).bind fun r => (CtbConfig.visit _ _ r).bind fun r =>
    (CtbConfig.visit _ _ r).bind fun r => CtbConfig.visit _ _ r) = _
  rw [hv0, Option.bind_some, visit_eq h1, Option.bind_some, visit_eq h2, Option.bind_some,
    visit_eq h3]
  simp only [List.append_assoc]

theorem cuLeaf_reads (hpos : AtRaster pos ctbX ctbY)
    (hlegal : p.TreeLegal ctbX ctbY (.cu cu) n x0 y0)
    (hx : OnGrid p.sps.i1Log2CtbSize ctbX n d x0) (hy : OnGrid p.sps.i1Log2CtbSize ctbY n d y0)
    (hwidth : x0 < p.sps.i2PicWidthInLumaSamples) (hheight : y0 < p.sps.i2PicHeightInLumaSamples)
    (hborders : Borders p (p.ctbConfig ctbX ctbY psEncCu) n x0 y0 s m)
    (hcus : psEncCu.drop s.i4CuIdx = cu :: rest) :
    ∃ s' m', Coded p ((p.ctbConfig ctbX ctbY psEncCu).ihevceEncodeCodingQuadtree n x0 y0 d)
        ((p.parser pos).ihevcdParseCodingQuadtree n x0 y0 d) [⟨cu, n, x0, y0⟩] s m s' m' ∧
      CuKeeps p ctbY s m s' m' ∧ Covers p n x0 y0 s' m' := by
  obtain ⟨hcu, hsize⟩ := hlegal
  have hn : 3 ≤ n := p.sps.log2MinCodingBlockSize_ge.trans hcu.size_ge
  have hlog := p.sps.log2CtbSize_le
  have hdepth := hx.depth
  have hd : d ≤ 3 := by omega
  have hpow := Nat.two_pow_pos n
  have htop (h : (p.ctbConfig ctbX ctbY psEncCu).topAvail y0 (1 <<< (n + d)) = true) :
      TopSame p s m x0 :=
    hborders.top (hdepth ▸ h) x0 (Nat.le_refl x0) (Nat.lt_add_of_pos_right hpow) hwidth
  have hleft (h : (p.ctbConfig ctbX ctbY psEncCu).leftAvail x0 (1 <<< (n + d)) = true) :
      LeftSame p s m y0 :=
    hborders.left (hdepth ▸ h) y0 (Nat.le_refl y0) (Nat.lt_add_of_pos_right hpow) hheight
  -- the node is not split
  have hflag : ((p.ctbConfig ctbX ctbY psEncCu).encodeSplitCuFlag cu n x0 y0 d s).1 = false := by
    rw [encodeSplitCuFlag_eq]
    split
    case isTrue => exact decide_eq_false (Nat.not_lt_of_le (Nat.le_of_eq hcu.size.symm))
    case isFalse h =>
      refine decide_eq_false fun hlt => ?_
      obtain rfl | ⟨hw, hh⟩ := hsize
      · exact absurd hlt (Nat.lt_irrefl _)
      · exact h ⟨hw, hh, hlt⟩
  have hsplit := splitCuFlag_reads cu hpos hx hy hn htop hleft
  have hunit := codingUnit_reads hcu hpos hx hy hn psEncCu htop hleft
  refine ⟨_, _, ⟨⟨((p.ctbConfig ctbX ctbY psEncCu).encodeSplitCuFlag cu n x0 y0 d s).2 ++
      ((p.ctbConfig ctbX ctbY psEncCu).encodeCu cu n x0 y0 d s).2, ?_, fun cus => ?_⟩, ?_⟩,
    ⟨fun x h => topSame_cu hcu (hx.aligned hn hlog) hd psEncCu fun _ => h,
      fun y hrow h => leftSame_cu hcu hy hn hd psEncCu hrow fun _ => h⟩,
    ⟨fun x hge hlt _ => topSame_cu hcu (hx.aligned hn hlog) hd psEncCu fun hout =>
        absurd ⟨hge, hlt⟩ hout,
      fun y hge hlt _ => leftSame_cu hcu hy hn hd psEncCu (hy.div_eq hge hlt) fun hout =>
        absurd ⟨hge, hlt⟩ hout⟩⟩
  · obtain ⟨k, rfl⟩ : ∃ k, n = k + 1 := ⟨n - 1, by omega⟩
    have hget : psEncCu[s.i4CuIdx]? = some cu := by
      rw [← List.head?_drop, hcus, List.head?_cons]
    exact encode_leaf hget hflag
  · obtain ⟨k, rfl⟩ : ∃ k, n = k + 1 := ⟨n - 1, by omega⟩
    rw [hflag] at hsplit
    unfold CuParser.ihevcdParseCodingQuadtree CuPicture.bins
    rw [List.map_append]
    exact hsplit.bind (hunit.bind_nil (Reads.pure _))
  · rw [encodeCu_state hcu]
    rfl

/-- A node of the tree, with what the steps before it have left. -/
theorem quadtree_reads (hpos : AtRaster pos ctbX ctbY) {t : CodingQuadtree (CuEncLoop τ)}
    (hlegal : p.TreeLegal ctbX ctbY t n x0 y0)
    (hx : OnGrid p.sps.i1Log2CtbSize ctbX n d x0) (hy : OnGrid p.sps.i1Log2CtbSize ctbY n d y0)
    (hwidth : x0 < p.sps.i2PicWidthInLumaSamples) (hheight : y0 < p.sps.i2PicHeightInLumaSamples)
    (hborders : Borders p (p.ctbConfig ctbX ctbY psEncCu) n x0 y0 s m)
    (hcus : psEncCu.drop s.i4CuIdx = (p.blocks t n x0 y0).map CuBlock.cu ++ rest) :
    ∃ s' m', Coded p ((p.ctbConfig ctbX ctbY psEncCu).ihevceEncodeCodingQuadtree n x0 y0 d)
        ((p.parser pos).ihevcdParseCodingQuadtree n x0 y0 d) (p.blocks t n x0 y0) s m s' m' ∧
      CuKeeps p ctbY s m s' m' ∧ Covers p n x0 y0 s' m' := by
  induction t generalizing n x0 y0 d s m rest with
  | cu cu => exact cuLeaf_reads hpos hlegal hx hy hwidth hheight hborders hcus
  | split c0 c1 c2 c3 ih0 ih1 ih2 ih3 =>
    obtain ⟨hmin, hl0, hl1, hl2, hl3⟩ := hlegal
    obtain ⟨k, rfl⟩ : ∃ k, n = k + 1 := ⟨n - 1, by omega⟩
    simp only [CuPicture.blocks, Nat.add_sub_cancel] at hl0 hl1 hl2 hl3 hcus ⊢
    have hn : 3 ≤ k + 1 := p.sps.log2MinCodingBlockSize_ge.trans (Nat.le_of_lt hmin)
    have hpow : 2 ^ (k + 1) = 2 ^ k + 2 ^ k := Nat.two_pow_succ k
    have hpos2 := Nat.two_pow_pos k
    have hdepth := hx.depth
    obtain ⟨b, l, hblocks, hsize⟩ := hl0.head
    have hget : psEncCu[s.i4CuIdx]? = some b.cu := by
      rw [← List.head?_drop, hcus, hblocks]
      rfl
    have hflag : ((p.ctbConfig ctbX ctbY psEncCu).encodeSplitCuFlag b.cu (k + 1) x0 y0 d s).1 =
        true := by
      rw [encodeSplitCuFlag_eq]
      split
      case isTrue => exact decide_eq_true (by omega)
      case isFalse => exact decide_eq_true hmin
    have hsplit := splitCuFlag_reads b.cu hpos hx hy hn
      (fun h => hborders.top (hdepth ▸ h) x0 (Nat.le_refl x0) (by omega) hwidth)
      (fun h => hborders.left (hdepth ▸ h) y0 (Nat.le_refl y0) (by omega) hheight)
    -- the quarters in order, each with the borders that the ones before it leave
    simp only [List.map_append, List.append_assoc] at hcus
    obtain ⟨s0, m0, hcoded0, hkeeps0, hcovers0⟩ := ih0 hl0 hx.low hy.low hwidth hheight
      ⟨fun h x hge hlt => hborders.top h x hge (by omega),
        fun h y hge hlt => hborders.left h y hge (by omega)⟩ hcus
    have hrow (y : Nat) (hge : y0 ≤ y) (hlt : y < y0 + 2 ^ (k + 1)) :
        y / 2 ^ p.sps.i1Log2CtbSize = ctbY := hy.div_eq hge hlt
    have hcus0 := drop_next hcus
    rw [List.length_map, ← hcoded0.cuIdx] at hcus0
    obtain ⟨s1, m1, hcoded1, hkeeps1, hcovers1⟩ := Coded.guard
      (c := x0 + 2 ^ k < p.sps.i2PicWidthInLumaSamples) (m := m0) fun hc => by
        rw [if_pos hc] at hcus0
        exact ih1 (hl1 hc) hx.high hy.low hc hheight
          ⟨fun h x hge hlt hin => hkeeps0.top x (hborders.top h x (by omega) (by omega) hin),
            fun _ y hge hlt hin => hcovers0.left y hge hlt hin⟩ hcus0
    have hcus1 := drop_next hcus0
    rw [List.length_map, ← hcoded1.cuIdx] at hcus1
    obtain ⟨s2, m2, hcoded2, hkeeps2, hcovers2⟩ := Coded.guard
      (c := y0 + 2 ^ k < p.sps.i2PicHeightInLumaSamples) (m := m1) fun hc => by
        rw [if_pos hc] at hcus1
        exact ih2 (hl2 hc) hx.low hy.high hwidth hc
          ⟨fun _ x hge hlt hin => hkeeps1.top x (hcovers0.top x hge hlt hin),
            fun h y hge hlt hin => (hkeeps0.trans hkeeps1).left y (hrow y (by omega) (by omega))
              (hborders.left h y (by omega) (by omega) hin)⟩ hcus1
    have hcus2 := drop_next hcus1
    rw [List.length_map, ← hcoded2.cuIdx] at hcus2
    obtain ⟨s3, m3, hcoded3, hkeeps3, hcovers3⟩ := Coded.guard
      (c := x0 + 2 ^ k < p.sps.i2PicWidthInLumaSamples ∧
        y0 + 2 ^ k < p.sps.i2PicHeightInLumaSamples) (m := m2) fun hc => by
        rw [if_pos hc] at hcus2
        exact ih3 (hl3 hc) hx.high hy.high hc.1 hc.2
          ⟨fun _ x hge hlt hin => hkeeps2.top x ((hcovers1 hc.1).top x hge hlt hin),
            fun _ y hge hlt hin => (hcovers2 hc.2).left y hge hlt hin⟩ hcus2
    have hkeeps := ((hkeeps0.trans hkeeps1).trans hkeeps2).trans hkeeps3
    obtain ⟨⟨bins0, henc0, hdec0⟩, hidx0⟩ := hcoded0
    obtain ⟨⟨bins1, henc1, hdec1⟩, hidx1⟩ := hcoded1
    obtain ⟨⟨bins2, henc2, hdec2⟩, hidx2⟩ := hcoded2
    obtain ⟨⟨bins3, henc3, hdec3⟩, hidx3⟩ := hcoded3
    refine ⟨s3, m3, ⟨⟨_, encode_split hget hflag henc0 henc1 henc2 henc3, fun cus => ?_⟩, ?_⟩,
      hkeeps, ⟨fun x hge hlt hin => ?_, fun y hge hlt hin => ?_⟩⟩
    · rw [hflag] at hsplit
      have hblocks : ∀ l0 l1 l2 l3 : List (CuBlock τ),
          cus ++ (l0 ++ (l1 ++ (l2 ++ l3))).map p.decoded =
            cus ++ l0.map p.decoded ++ l1.map p.decoded ++ l2.map p.decoded ++
              l3.map p.decoded := by
        intro l0 l1 l2 l3
        simp only [List.map_append, List.append_assoc]
      rw [hblocks]
      unfold CuParser.ihevcdParseCodingQuadtree CuPicture.bins
      simp only [List.map_append (f := Bin.rename _)]
      exact hsplit.bind ((hdec0 cus).bind ((hdec1 _).bind ((hdec2 _).bind (hdec3 _))))
    · simp only [List.length_append]
      omega
    · by_cases hlow : x < x0 + 2 ^ k
      · exact ((hkeeps1.trans hkeeps2).trans hkeeps3).top x (hcovers0.top x hge hlow hin)
      · have hc : x0 + 2 ^ k < p.sps.i2PicWidthInLumaSamples := by omega
        exact (hkeeps2.trans hkeeps3).top x ((hcovers1 hc).top x (by omega) (by omega) hin)
    · have hy' := hrow y hge hlt
      by_cases hlow : y < y0 + 2 ^ k
      · exact ((hkeeps1.trans hkeeps2).trans hkeeps3).left y hy' (hcovers0.left y hge hlow hin)
      · have hc : y0 + 2 ^ k < p.sps.i2PicHeightInLumaSamples := by omega
        exact hkeeps3.left y hy' ((hcovers2 hc).left y (by omega) (by omega) hin)

end

-- ---------------------------------------------------------------------------
-- The picture
-- ---------------------------------------------------------------------------

namespace CuPicture

variable (p : CuPicture)

/-- The coding units of CTB `k`. -/
def ctbBlocks (tree : Nat → CodingQuadtree (CuEncLoop τ)) (k : Nat) : List (CuBlock τ) :=
  p.blocks (tree k) p.sps.i1Log2CtbSize
    ((k % p.sps.i2PicWdInCtb) <<< p.sps.i1Log2CtbSize)
    ((k / p.sps.i2PicWdInCtb) <<< p.sps.i1Log2CtbSize)

/-- CTB `k` of the writer. -/
def writer (tree : Nat → CodingQuadtree (CuEncLoop τ)) (k : Nat) : CtbConfig τ :=
  p.ctbConfig (k % p.sps.i2PicWdInCtb) (k / p.sps.i2PicWdInCtb)
    ((p.ctbBlocks tree k).map CuBlock.cu)

/-- The quadtrees of the CTBs are as they may be. -/
def PicLegal (tree : Nat → CodingQuadtree (CuEncLoop τ)) : Prop :=
  ∀ k < p.sps.i2PicWdInCtb * p.sps.i2PicHtInCtb,
    p.TreeLegal (k % p.sps.i2PicWdInCtb) (k / p.sps.i2PicWdInCtb) (tree k) p.sps.i1Log2CtbSize
      ((k % p.sps.i2PicWdInCtb) <<< p.sps.i1Log2CtbSize)
      ((k / p.sps.i2PicWdInCtb) <<< p.sps.i1Log2CtbSize)

end CuPicture

/-- Behind `n` CTBs both sides have the same above the next one, and to its left. -/
structure AfterCtbs (p : CuPicture) (n : Nat) (s : CuContext) (m : CuMaps) : Prop where
  top : ∀ x < p.sps.i2PicWidthInLumaSamples, x / 2 ^ p.sps.i1Log2CtbSize < n → TopSame p s m x
  left : n % p.sps.i2PicWdInCtb ≠ 0 → ∀ y < p.sps.i2PicHeightInLumaSamples,
    y / 2 ^ p.sps.i1Log2CtbSize = n / p.sps.i2PicWdInCtb → LeftSame p s m y

/-- The CTBs of a row are those that begin in the picture. -/
theorem lt_inCtb_iff (hctb : 0 < ctbSize) :
    ctb < (width + (ctbSize - 1)) / ctbSize ↔ ctb * ctbSize < width := by
  rw [← Nat.succ_le_iff, Nat.le_div_iff_mul_le hctb, Nat.succ_mul]
  omega

theorem inCtb_of_div (h : x / 2 ^ log2Ctb = ctb) :
    ctb <<< log2Ctb ≤ x ∧ x < ctb <<< log2Ctb + 2 ^ log2Ctb := by
  have hdiv := Nat.div_add_mod' x (2 ^ log2Ctb)
  have hmod := Nat.mod_lt x (Nat.two_pow_pos log2Ctb)
  rw [h] at hdiv
  rw [Nat.shiftLeft_eq]
  omega

section
variable {p : CuPicture} {tree : Nat → CodingQuadtree (CuEncLoop τ)} (hlegal : p.PicLegal tree)
include hlegal

/-- One CTB behind those before it. -/
theorem ctb_reads (hk : k < p.sps.i2PicWdInCtb * p.sps.i2PicHtInCtb) (h : AfterCtbs p k s m) :
    ∃ s' m' bins,
      (p.writer tree k).encodeCtb
        (frmPos (1 <<< p.sps.i1Log2CtbSize) p.sps.i2PicWidthInLumaSamples k) s = some (s', bins) ∧
      Reads ((p.parser (oneSlicePos p.sps.toSpsSize k)).parseCtb m :
          BinReader (TreePiece τ) (CuMaps × List (ParsedCu τ)))
        (p.bins bins) (m', (p.ctbBlocks tree k).map p.decoded) ∧
      AfterCtbs p (k + 1) s' m' := by
  have hwd := p.sps.wdInCtb_pos
  have hmod := Nat.mod_lt k hwd
  have hdiv : k / p.sps.i2PicWdInCtb < p.sps.i2PicHtInCtb := Nat.div_lt_of_lt_mul hk
  have hctb := ctbSize_pos p.sps.toSpsSize
  have hpow : 1 <<< p.sps.i1Log2CtbSize = 2 ^ p.sps.i1Log2CtbSize := Nat.one_shiftLeft _
  have hpos := oneSlicePos_atRaster p.sps.toSpsSize hk
  have hx := OnGrid.root p.sps.i1Log2CtbSize (k % p.sps.i2PicWdInCtb)
  have hy := OnGrid.root p.sps.i1Log2CtbSize (k / p.sps.i2PicWdInCtb)
  have hwidth : (k % p.sps.i2PicWdInCtb) <<< p.sps.i1Log2CtbSize <
      p.sps.i2PicWidthInLumaSamples := by
    rw [Nat.shiftLeft_eq, ← hpow]
    exact (lt_inCtb_iff hctb).mp hmod
  have hheight : (k / p.sps.i2PicWdInCtb) <<< p.sps.i1Log2CtbSize <
      p.sps.i2PicHeightInLumaSamples := by
    rw [Nat.shiftLeft_eq, ← hpow]
    exact (lt_inCtb_iff hctb).mp hdiv
  -- the CTB is at its corner
  have houter (ctb : Nat) :
      ctb <<< p.sps.i1Log2CtbSize &&& (1 <<< p.sps.i1Log2CtbSize - 1) = 0 := by
    rw [hpow, Nat.and_two_pow_sub_one_eq_mod, Nat.shiftLeft_eq, Nat.mul_mod_left]
  have hborders : Borders p (p.writer tree k) p.sps.i1Log2CtbSize
      ((k % p.sps.i2PicWdInCtb) <<< p.sps.i1Log2CtbSize)
      ((k / p.sps.i2PicWdInCtb) <<< p.sps.i1Log2CtbSize) { s with i4CuIdx := 0 } m := by
    refine ⟨fun havail x hge hlt hin => h.top x hin ?_, fun havail y hge hlt hin => ?_⟩
    · unfold CtbConfig.topAvail at havail
      rw [houter, if_neg (fun hne => hne rfl)] at havail
      have hrow : 0 < k / p.sps.i2PicWdInCtb := of_decide_eq_true havail
      rw [hx.div_eq hge hlt]
      exact hmod.trans_le (Nat.div_pos_iff.mp hrow).2
    · unfold CtbConfig.leftAvail at havail
      rw [houter, if_neg (fun hne => hne rfl)] at havail
      have hcolumn : 0 < k % p.sps.i2PicWdInCtb := of_decide_eq_true havail
      exact h.left hcolumn.ne' y hin (hy.div_eq hge hlt)
  obtain ⟨s', m', ⟨⟨bins, henc, hdec⟩, -⟩, hkeeps, hcovers⟩ :=
    quadtree_reads hpos (hlegal k hk) hx hy hwidth hheight hborders (List.append_nil _).symm
  refine ⟨s', m', bins, ?_, ?_, ⟨fun x hin hlt => ?_, fun hne y hin hrow => ?_⟩⟩
  · rw [frmPos_eq, hpow, ← Nat.shiftLeft_eq, ← Nat.shiftLeft_eq]
    exact henc
  · have hreads := hdec []
    rw [List.nil_append] at hreads
    have hctbX : (p.parser (oneSlicePos p.sps.toSpsSize k)).pos.i4CtbX = k % p.sps.i2PicWdInCtb :=
      hpos.ctbX
    have hctbY : (p.parser (oneSlicePos p.sps.toSpsSize k)).pos.i4CtbY = k / p.sps.i2PicWdInCtb :=
      hpos.ctbY
    unfold CuParser.parseCtb
    rw [hctbX, hctbY]
    exact hreads
  · have hcolumn : x / 2 ^ p.sps.i1Log2CtbSize < p.sps.i2PicWdInCtb := by
      rw [← hpow]
      exact (lt_inCtb_iff hctb).mpr ((Nat.div_mul_le_self x _).trans_lt hin)
    obtain hbefore | hhere := Nat.lt_succ_iff_lt_or_eq.mp hlt
    · exact hkeeps.top x (h.top x hin hbefore)
    · rw [hhere] at hcolumn
      have hfirst : x / 2 ^ p.sps.i1Log2CtbSize = k % p.sps.i2PicWdInCtb := by
        rw [hhere, Nat.mod_eq_of_lt hcolumn]
      obtain ⟨hge, hlt⟩ := inCtb_of_div hfirst
      exact hcovers.top x hge hlt hin
  · have hnext := succ_mod_div hwd k
    split at hnext
    case isTrue => exact absurd (Prod.mk.inj hnext).1 hne
    case isFalse =>
      rw [(Prod.mk.inj hnext).2] at hrow
      obtain ⟨hge, hlt⟩ := inCtb_of_div hrow
      exact hcovers.left y hge hlt hin

/-- The first `n` CTBs, one after the other. -/
theorem ctbs_reads (s : CuContext) (m : CuMaps) (hn : n ≤ p.sps.i2PicWdInCtb * p.sps.i2PicHtInCtb) :
    ∃ (ctxt : Nat → CuContext) (maps : Nat → CuMaps), ctxt 0 = s ∧ maps 0 = m ∧
      (∀ k < n, ∃ bins,
        (p.writer tree k).encodeCtb
          (frmPos (1 <<< p.sps.i1Log2CtbSize) p.sps.i2PicWidthInLumaSamples k) (ctxt k) =
            some (ctxt (k + 1), bins) ∧
        Reads ((p.parser (oneSlicePos p.sps.toSpsSize k)).parseCtb (maps k) :
            BinReader (TreePiece τ) (CuMaps × List (ParsedCu τ)))
          (p.bins bins) (maps (k + 1), (p.ctbBlocks tree k).map p.decoded)) ∧
      AfterCtbs p n (ctxt n) (maps n) := by
  induction n with
  | zero =>
    refine ⟨fun _ => s, fun _ => m, rfl, rfl, fun k hk => absurd hk (Nat.not_lt_zero k), ⟨?_, ?_⟩⟩
    · exact fun x _ hlt => absurd hlt (Nat.not_lt_zero _)
    · exact fun hne => absurd (Nat.zero_mod _) hne
  | succ n ih =>
    obtain ⟨ctxt, maps, hctxt, hmaps, hreads, hafter⟩ := ih (Nat.le_of_succ_le hn)
    obtain ⟨s', m', bins, henc, hdec, hafter'⟩ := ctb_reads hlegal hn hafter
    have hold {α : Type} (run : Nat → α) (a : α) {k : Nat} (hk : k ≤ n) :
        Function.update run (n + 1) a k = run k :=
      Function.update_of_ne (Nat.ne_of_lt (Nat.lt_succ_of_le hk)) a run
    refine ⟨Function.update ctxt (n + 1) s', Function.update maps (n + 1) m', ?_, ?_,
      fun k hk => ?_, ?_⟩
    · rw [hold ctxt s' (Nat.zero_le n), hctxt]
    · rw [hold maps m' (Nat.zero_le n), hmaps]
    · have hle := Nat.le_of_lt_succ hk
      rw [hold ctxt s' hle, hold maps m' hle]
      obtain rfl | hlt := Nat.eq_or_lt_of_le hle
      · rw [Function.update_self, Function.update_self]
        exact ⟨bins, henc, hdec⟩
      · rw [hold ctxt s' hlt, hold maps m' hlt]
        exact hreads k hlt
    · rw [Function.update_self, Function.update_self]
      exact hafter'

/-- The parser gets the coding units of each CTB, and takes just the bins of them. -/
theorem codingUnits_round_trip (s : CuContext) (m : CuMaps) :
    ∃ (ctxt : Nat → CuContext) (maps : Nat → CuMaps), ctxt 0 = s ∧ maps 0 = m ∧
      ∀ k < p.sps.i2PicWdInCtb * p.sps.i2PicHtInCtb, ∃ bins,
        (p.writer tree k).encodeCtb
          (frmPos (1 <<< p.sps.i1Log2CtbSize) p.sps.i2PicWidthInLumaSamples k) (ctxt k) =
            some (ctxt (k + 1), bins) ∧
        Reads ((p.parser (oneSlicePos p.sps.toSpsSize k)).parseCtb (maps k) :
            BinReader (TreePiece τ) (CuMaps × List (ParsedCu τ)))
          (p.bins bins) (maps (k + 1), (p.ctbBlocks tree k).map p.decoded) := by
  obtain ⟨ctxt, maps, hctxt, hmaps, hreads, -⟩ := ctbs_reads hlegal s m (Nat.le_refl _)
  exact ⟨ctxt, maps, hctxt, hmaps, hreads⟩

end

theorem units_pos_32 : 0 < 32 := by decide

theorem units_le_32 : 32 ≤ 32767 := by decide

theorem units_pos_16 : 0 < 16 := by decide

theorem units_le_16 : 16 ≤ 32767 := by decide

theorem units_log2_ge : 4 ≤ 4 := by decide

theorem units_min_ge : 3 ≤ 3 := by decide

theorem units_min_le : 3 ≤ 4 := by decide

/-- Two CTBs of 16 samples beside each other. -/
def twoCtbUnits : CuPicture where
  sps :=
    { i2PicWidthInLumaSamples := 32
      i2PicHeightInLumaSamples := 16
      i1Log2CtbSize := 4
      width_pos := units_pos_32
      width_le := units_le_32
      height_pos := units_pos_16
      height_le := units_le_16
      log2CtbSize_ge := units_log2_ge
      log2CtbSize_le := SpsSize.log2_le
      i1Log2MinCodingBlockSize := 3
      log2MinCodingBlockSize_ge := units_min_ge
      log2MinCodingBlockSize_le := units_min_le }
  hdr :=
    { i1SliceType := .pslice
      i1MaxNumMergeCand := 5
      i1NumRefIdxL0Active := 3
      i1NumRefIdxL1Active := 0
      i1MvdL1ZeroFlag := false }
  i1AmpEnabledFlag := true
  log2Min_of_amp := fun _ => rfl

/-- One of two units beside each other in a block of 8 samples. -/
def halfPu (i : Nat) : PuSyntax where
  b4PosX := 2 + i
  b4PosY := 2
  b4Wd := 0
  b4Ht := 1
  b1IntraFlag := false
  b3PartMode := .partNx2N
  b2PartIdx := i
  b1MergeFlag := i = 1
  b3MergeIdx := 4
  b2PredMode := .predL0
  b1L0MvpIdx := true
  b1L1MvpIdx := false
  mv := { sL0Mv := { i2Mvx := -300, i2Mvy := 1 }, sL1Mv := .zero, i1L0RefIdx := 2, i1L1RefIdx := 0 }

/-- The unit of a block of 16 samples. -/
def wholePu (_ : Nat) : PuSyntax where
  b4PosX := 0
  b4PosY := 0
  b4Wd := 3
  b4Ht := 3
  b1IntraFlag := false
  b3PartMode := .part2Nx2N
  b2PartIdx := 0
  b1MergeFlag := true
  b3MergeIdx := 2
  b2PredMode := .predL0
  b1L0MvpIdx := false
  b1L1MvpIdx := false
  mv := { sL0Mv := .zero, sL1Mv := .zero, i1L0RefIdx := 0, i1L1RefIdx := 0 }

def someModes (i : Nat) : IntraPrevRemFlags where
  b1PrevIntraLumaPredFlag := i % 2 = 0
  b2MpmIdx := 2
  b5RemIntraPredMode := 17

def intraUnit (x y : Nat) (partMode : PartMode) : CuEncLoop Nat where
  b3CuPosX := x
  b3CuPosY := y
  b4CuSize := 1
  b1SkipFlag := false
  b1PredModeFlag := true
  b3PartMode := partMode
  psPu := wholePu
  asPrevRem := someModes
  b3ChromaIntraPredMode := 4
  b1NoResidualSyntaxFlag := false
  tree := 10 * x + y

def skippedUnit : CuEncLoop Nat :=
  { intraUnit 0 0 .part2Nx2N with
    b4CuSize := 2
    b1SkipFlag := true
    b1PredModeFlag := false }

def interUnit : CuEncLoop Nat :=
  { intraUnit 1 1 .partNx2N with
    b1PredModeFlag := false
    psPu := halfPu
    b1NoResidualSyntaxFlag := true }

/-- A skipped unit of 16 samples, and then three intra units of 8 and an inter unit. -/
def fiveUnits (k : Nat) : CodingQuadtree (CuEncLoop Nat) :=
  if k = 0 then .cu skippedUnit
  else
    .split (.cu (intraUnit 0 0 .partNxN)) (.cu (intraUnit 1 0 .part2Nx2N))
      (.cu (intraUnit 0 1 .partNxN)) (.cu interUnit)

theorem intraUnit_legal (hpart : partMode = .part2Nx2N ∨ partMode = .partNxN)
    (hx : x0 = 16 + x <<< 3) (hy : y0 = 0 + y <<< 3) :
    twoCtbUnits.Legal 1 0 ⟨intraUnit x y partMode, 3, x0, y0⟩ where
  size := rfl
  size_ge := Nat.le_refl 3
  posX := hx
  posY := hy
  skip h := Bool.noConfusion h
  parts := ⟨fun _ => hpart.imp id fun h => ⟨rfl, h⟩, fun h => Bool.noConfusion h,
    fun h => Bool.noConfusion h⟩
  places h := Bool.noConfusion h
  pus h := Bool.noConfusion h
  modes _ := ⟨fun _ => (by decide : 2 < 3), fun _ => (by decide : 17 < 32), Nat.le_refl 4⟩

theorem skippedUnit_legal : twoCtbUnits.Legal 0 0 ⟨skippedUnit, 4, 0, 0⟩ where
  size := rfl
  size_ge := by decide
  posX := rfl
  posY := rfl
  skip _ := ⟨rfl, rfl, rfl⟩
  parts := ⟨fun h => Bool.noConfusion h, fun _ _ => by decide, fun _ _ => by decide⟩
  places _ := rfl
  pus _ _ _ := ⟨fun _ => (by decide : 2 < max 1 5), fun h => Bool.noConfusion h⟩
  modes h := Bool.noConfusion h

theorem someMvd_legal : MvdLegal { i2Mvx := -300, i2Mvy := 1 } := ⟨by decide, by decide⟩

theorem zeroMvd_legal : MvdLegal .zero := ⟨by decide, by decide⟩

theorem interUnit_legal : twoCtbUnits.Legal 1 0 ⟨interUnit, 3, 24, 8⟩ where
  size := rfl
  size_ge := Nat.le_refl 3
  posX := rfl
  posY := rfl
  skip h := Bool.noConfusion h
  parts := ⟨fun h => Bool.noConfusion h, fun _ _ => by decide, fun _ _ => by decide⟩
  places _ := rfl
  pus _ i _ :=
    { mergeIdx := fun _ => (by decide : 4 < max 1 5)
      motion := fun _ =>
        { pslice := fun _ => rfl
          small := fun _ h => PredMode.noConfusion h
          refIdx0 := fun _ => (by decide : (0 : Int) ≤ 2 ∧ 2 < max 1 3 ∧ 2 < 16)
          refIdx1 := fun h => absurd rfl h
          mvd0 := someMvd_legal
          mvd1 := zeroMvd_legal
          zeroMvd := fun h => Bool.noConfusion h } }
  modes h := Bool.noConfusion h

theorem fiveUnits_legal : twoCtbUnits.PicLegal fiveUnits := by
  intro k hk
  have hlt : k < 2 := hk
  obtain rfl | rfl : k = 0 ∨ k = 1 := by omega
  · exact ⟨skippedUnit_legal, .inr ⟨by decide, by decide⟩⟩
  · exact ⟨by decide, ⟨intraUnit_legal (.inr rfl) rfl rfl, .inl rfl⟩,
      fun _ => ⟨intraUnit_legal (.inl rfl) rfl rfl, .inl rfl⟩,
      fun _ => ⟨intraUnit_legal (.inr rfl) rfl rfl, .inl rfl⟩,
      fun _ => ⟨interUnit_legal, .inl rfl⟩⟩

theorem codingUnits_round_trip_five :
    ∃ (ctxt : Nat → CuContext) (maps : Nat → CuMaps),
      ctxt 0 = ⟨0, fun _ => 0, fun _ => 0, fun _ => 0, 0⟩ ∧
      maps 0 = ⟨fun _ => 0, 0, fun _ => 0, 0⟩ ∧
      ∀ k < twoCtbUnits.sps.i2PicWdInCtb * twoCtbUnits.sps.i2PicHtInCtb, ∃ bins,
        (twoCtbUnits.writer fiveUnits k).encodeCtb (frmPos (1 <<< 4) 32 k) (ctxt k) =
            some (ctxt (k + 1), bins) ∧
        Reads ((twoCtbUnits.parser (oneSlicePos twoCtbUnits.sps.toSpsSize k)).parseCtb (maps k) :
            BinReader (TreePiece Nat) (CuMaps × List (ParsedCu Nat)))
          (twoCtbUnits.bins bins)
          (maps (k + 1), (twoCtbUnits.ctbBlocks fiveUnits k).map twoCtbUnits.decoded) :=
  codingUnits_round_trip fiveUnits_legal _ _

end Libhevc.RoundTrip
