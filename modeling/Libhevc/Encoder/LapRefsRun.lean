import Libhevc.Encoder.LapOrder
import Libhevc.Encoder.LapRefsLaws

/-!
# Runs of the look-ahead

The reference sets form a chain: what a picture may refer to was in the set of the
picture before it, or is that picture. A CRA picture cuts the chain for what follows it.
-/

namespace Libhevc.Encoder

open Memory

variable {p : LapStaticParams}

-- ---------------------------------------------------------------------------
-- Valid sets
-- ---------------------------------------------------------------------------

def OutputBefore (a b : LapOut) : Prop :=
  a.i4IdrGopNum < b.i4IdrGopNum ∨ a.i4IdrGopNum = b.i4IdrGopNum ∧ a.i4Poc < b.i4Poc

/-- The picture `r` is one that `o` refers to. -/
def RefersTo (o r : LapOut) : Prop := r.i4IdrGopNum = o.i4IdrGopNum ∧ r.i4Poc ∈ o.refPocs

/-- The reference set of a picture, behind the pictures `pre` in encode order. -/
structure ValidRefs (p : LapStaticParams) (pre : List LapOut) (o : LapOut) : Prop where
  nodup : o.refPocs.Nodup
  notSelf : o.i4Poc ∉ o.refPocs
  known : ∀ x ∈ o.refPocs, ∃ r ∈ pre, r.i4IdrGopNum = o.i4IdrGopNum ∧ r.i4Poc = x ∧
    r.i4IsRefPic ≠ 0
  kept : ∀ pre' l, pre = pre' ++ [l] → ∀ x ∈ o.refPocs, x = l.i4Poc ∨ x ∈ l.refPocs
  length : o.asRefPics.length = o.i4NumRefPics
  count : o.i4NumRefPics ≤ p.i4MaxReferenceFrames
  sorted : o.asRefPics.Pairwise fun a b =>
    a.i4RefPicDeltaPoc.natAbs ≤ b.i4RefPicDeltaPoc.natAbs
  -- nothing that a picture behind a CRA refers to comes before the CRA
  cra : ∀ pre₁ c pre₂, pre = pre₁ ++ c :: pre₂ → c.i4IsCraPic = true → OutputBefore c o →
    (∀ r ∈ pre₁, ¬ RefersTo o r) ∧ ∀ r ∈ pre, RefersTo o r → ¬ OutputBefore r c

theorem snoc_split {l pre post : List β} (h : l ++ [a] = pre ++ b :: post) :
    (l = pre ∧ a = b) ∨ ∃ post', post = post' ++ [a] ∧ l = pre ++ b :: post' := by
  rcases List.eq_nil_or_concat post with rfl | ⟨post', c, rfl⟩
  · obtain ⟨hl, hab⟩ := List.append_inj' h rfl
    exact .inl ⟨hl, List.singleton_inj.mp hab⟩
  · rw [List.concat_eq_append, ← List.cons_append, ← List.append_assoc] at h
    obtain ⟨hl, hac⟩ := List.append_inj' h rfl
    obtain rfl := List.singleton_inj.mp hac
    exact .inr ⟨post', List.concat_eq_append .., hl⟩

/-- The pictures so far. -/
structure HistInv (p : LapStaticParams) (r : LapRun) : Prop where
  valid : ∀ pre o post, r.outs = pre ++ o :: post → ValidRefs p pre o
  gops : ∀ o ∈ r.outs, o.i4IdrGopNum ≤ r.s.i4IdrGopNum
  gopsSorted : r.outs.Pairwise fun a b => a.i4IdrGopNum ≤ b.i4IdrGopNum
  craLast : ∀ pre c post, r.outs = pre ++ c :: post → c.i4IsCraPic = true →
    ∀ o ∈ pre, o.i4IdrGopNum = c.i4IdrGopNum → o.i4Poc < c.i4Poc

theorem HistInv.add {r : LapRun} {s : LapStruct} {o : LapOut} (h : HistInv p r)
    (hvalid : ValidRefs p r.outs o) (hgop : r.s.i4IdrGopNum ≤ o.i4IdrGopNum)
    (hs : s.i4IdrGopNum = o.i4IdrGopNum)
    (hcra : o.i4IsCraPic = true →
      ∀ o' ∈ r.outs, o'.i4IdrGopNum = o.i4IdrGopNum → o'.i4Poc < o.i4Poc) :
    HistInv p (r.add (s, o)) where
  valid pre o' post hsplit := by
    rcases snoc_split hsplit with ⟨rfl, rfl⟩ | ⟨post', -, hsplit⟩
    · exact hvalid
    · exact h.valid pre o' post' hsplit
  gops o' ho' := by
    change o'.i4IdrGopNum ≤ s.i4IdrGopNum
    rcases List.mem_append.mp ho' with hold | hnew
    · exact (h.gops o' hold).trans (hgop.trans (Int.le_of_eq hs.symm))
    · obtain rfl := List.mem_singleton.mp hnew
      exact Int.le_of_eq hs.symm
  gopsSorted := by
    refine List.pairwise_append.mpr ⟨h.gopsSorted, List.pairwise_singleton _ _, ?_⟩
    intro a ha b hb
    obtain rfl := List.mem_singleton.mp hb
    exact (h.gops a ha).trans hgop
  craLast pre c post hsplit hc := by
    rcases snoc_split hsplit with ⟨rfl, rfl⟩ | ⟨post', -, hsplit⟩
    · exact hcra hc
    · exact h.craLast pre c post' hsplit hc

-- ---------------------------------------------------------------------------
-- One picture
-- ---------------------------------------------------------------------------

/-- Between two pictures: the next has a POC above `low`, and no POC so far is above `top`. -/
structure RefInv (p : LapStaticParams) (low top : Int) (r : LapRun) : Prop extends HistInv p r where
  count : r.s.i4CurrRefPics ≤ p.i4MaxReferenceFrames
  nodup : r.s.refs.Nodup
  known : ∀ x ∈ r.s.refs, ∃ o ∈ r.outs, o.i4IdrGopNum = r.s.i4IdrGopNum ∧ o.i4Poc = x ∧
    o.i4IsRefPic ≠ 0
  kept : ∀ pre l, r.outs = pre ++ [l] → ∀ x ∈ r.s.refs, x = l.i4Poc ∨ x ∈ l.refPocs
  cells : ∀ i, r.s.refPocArray i ≤ top
  -- what is left over behind the count is out of the way
  stale : ∀ i, r.s.i4CurrRefPics ≤ i →
    r.s.refPocArray i ≤ low ∧ ∀ x ∈ r.s.refs, r.s.refPocArray i ≤ x
  pocs : ∀ o ∈ r.outs, o.i4IdrGopNum = r.s.i4IdrGopNum → o.i4Poc ≤ top
  flag : r.s.i4CraIPicFlag = true → r.s.i4CraPoc = top ∧ top ∈ r.s.refs
  -- a CRA picture is the last of the I and P pictures, or the pictures before it are gone
  cras : ∀ c ∈ r.outs, c.i4IsCraPic = true → c.i4IdrGopNum = r.s.i4IdrGopNum →
    (r.s.i4CraIPicFlag = true ∧ c.i4Poc = top) ∨ (c.i4Poc ≤ low ∧ ∀ x ∈ r.s.refs, c.i4Poc ≤ x)

/-- The state `s` from which a picture gets its set. -/
structure Given (p : LapStaticParams) (low top : Int) (r : LapRun) (s : LapStruct) (poc : Int)
    (i4IsRefPic : Nat) : Prop where
  hist : HistInv p r
  gop : r.s.i4IdrGopNum ≤ s.i4IdrGopNum
  count : s.i4CurrRefPics ≤ p.i4MaxReferenceFrames
  nodup : s.refs.Nodup
  known : ∀ x ∈ s.refs, ∃ o ∈ r.outs, o.i4IdrGopNum = s.i4IdrGopNum ∧ o.i4Poc = x ∧
    o.i4IsRefPic ≠ 0
  kept : ∀ pre l, r.outs = pre ++ [l] → ∀ x ∈ s.refs, x = l.i4Poc ∨ x ∈ l.refPocs
  low_lt : low < poc
  le_top : poc ≤ top
  notSelf : poc ∉ s.refs
  cells : ∀ i, s.refPocArray i ≤ top
  stale : ∀ i, s.i4CurrRefPics ≤ i →
    s.refPocArray i ≤ low ∧ ∀ x ∈ s.refs, s.refPocArray i ≤ x
  pocs : ∀ o ∈ r.outs, o.i4IdrGopNum = s.i4IdrGopNum → o.i4Poc ≤ top
  flag : s.i4CraIPicFlag = true →
    s.i4CraPoc = top ∧ (top ∈ s.refs ∨ poc = top ∧ i4IsRefPic ≠ 0)
  cras : ∀ c ∈ r.outs, c.i4IsCraPic = true → c.i4IdrGopNum = s.i4IdrGopNum →
    (s.i4CraIPicFlag = true ∧ c.i4Poc = top) ∨ (c.i4Poc ≤ low ∧ ∀ x ∈ s.refs, c.i4Poc ≤ x)

/-- What the look-ahead gives out for a picture in the state `s`. -/
structure OutOf (s : LapStruct) (poc : Int) (i4IsRefPic : Nat) (o : LapOut) : Prop where
  pocEq : o.i4Poc = poc
  gop : o.i4IdrGopNum = s.i4IdrGopNum
  isRef : o.i4IsRefPic = i4IsRefPic
  num : o.i4NumRefPics = s.i4CurrRefPics
  refPics : o.asRefPics = refPicsWeightOffsetCalc poc s

theorem OutOf.perm (h : OutOf s poc i4IsRefPic o) : o.refPocs.Perm s.refs := by
  unfold LapOut.refPocs
  rw [h.refPics, h.pocEq]
  exact refPicsWeightOffsetCalc_perm poc s

theorem Given.valid (h : Given p low top r s poc i4IsRefPic) (ho : OutOf s poc i4IsRefPic o) :
    ValidRefs p r.outs o where
  nodup := ho.perm.nodup_iff.mpr h.nodup
  notSelf hmem := h.notSelf (ho.pocEq ▸ ho.perm.mem_iff.mp hmem)
  known x hx := by
    rw [ho.gop]
    exact h.known x (ho.perm.mem_iff.mp hx)
  kept pre' l hpre x hx := h.kept pre' l hpre x (ho.perm.mem_iff.mp hx)
  length := by
    rw [ho.refPics, ho.num]
    simp [refPicsWeightOffsetCalc]
  count := ho.num ▸ h.count
  sorted := by
    rw [ho.refPics]
    exact refPicsWeightOffsetCalc_sorted poc s
  cra pre₁ c pre₂ hsplit hc hbefore := by
    have hmem : c ∈ r.outs := by simp [hsplit]
    have hgops := h.hist.gopsSorted
    rw [hsplit] at hgops
    have hle := (List.pairwise_append.mp hgops).2.2
    rcases hbefore with hlt | ⟨heq, hpoc⟩
    · -- the CRA is of an IDR period before
      constructor
      · rintro a ha ⟨hgop, -⟩
        have := hle a ha c (List.mem_cons_self ..)
        omega
      · rintro a - ⟨hgop, -⟩ (hbefore | ⟨hbefore, -⟩) <;> omega
    · have hrefs : ∀ x ∈ s.refs, c.i4Poc ≤ x := by
        rcases h.cras c hmem hc (heq.trans ho.gop) with ⟨-, htop⟩ | ⟨-, hall⟩
        · have := h.le_top
          have := ho.pocEq
          omega
        · exact hall
      constructor
      · rintro a ha ⟨hgop, href⟩
        have hbelow := h.hist.craLast pre₁ c pre₂ hsplit hc a ha (hgop.trans heq.symm)
        have := hrefs _ (ho.perm.mem_iff.mp href)
        omega
      · rintro a - ⟨hgop, href⟩ (hbefore | ⟨-, hbefore⟩)
        · omega
        · have := hrefs _ (ho.perm.mem_iff.mp href)
          omega

theorem Given.next (hmax : 0 < p.i4MaxReferenceFrames) (h : Given p low top r s poc i4IsRefPic)
    (ho : OutOf s poc i4IsRefPic o)
    (hcra : o.i4IsCraPic = true → s.i4CraIPicFlag = true ∧ poc = top ∧
      ∀ o' ∈ r.outs, o'.i4IdrGopNum = s.i4IdrGopNum → o'.i4Poc < poc) :
    RefInv p low top (r.add (updateRefPocArray p poc i4IsRefPic s, o)) := by
  have hupd : RefsUpdated p poc i4IsRefPic s (updateRefPocArray p poc i4IsRefPic s) :=
    updateRefPocArray_spec hmax h.count h.nodup h.notSelf fun i hi =>
      ⟨Int.lt_of_le_of_lt (h.stale i hi).1 h.low_lt, (h.stale i hi).2⟩
  have hsub (x : Int) (hx : x ∈ (updateRefPocArray p poc i4IsRefPic s).refs) :
      x ∈ s.refs ∨ i4IsRefPic ≠ 0 ∧ x = poc := hupd.sub x hx
  have hout : o ∈ (r.add (updateRefPocArray p poc i4IsRefPic s, o)).outs :=
    List.mem_append_right _ (List.mem_singleton.mpr rfl)
  refine {
    toHistInv := h.hist.add (h.valid ho) (ho.gop ▸ h.gop) ho.gop.symm
      fun hc o' ho' heq => ?_
    count := hupd.count
    nodup := hupd.nodup
    known := fun x hx => ?_
    kept := fun pre l hsplit x hx => ?_
    cells := fun i => ?_
    stale := fun i hi => ?_
    pocs := fun o' ho' heq => ?_
    flag := fun hflag => ?_
    cras := fun c hc hiscra heq => ?_ }
  · rw [ho.pocEq]
    exact (hcra hc).2.2 o' ho' (heq.trans ho.gop)
  · rcases hsub x hx with hold | ⟨href, rfl⟩
    · obtain ⟨o', ho', hknown⟩ := h.known x hold
      exact ⟨o', List.mem_append_left _ ho', hknown⟩
    · exact ⟨o, hout, ho.gop, ho.pocEq, ho.isRef ▸ href⟩
  · obtain ⟨-, hl⟩ := List.append_inj' hsplit rfl
    obtain rfl := List.singleton_inj.mp hl
    rcases hsub x hx with hold | ⟨-, rfl⟩
    · exact .inr (ho.perm.mem_iff.mpr hold)
    · exact .inl ho.pocEq.symm
  · rcases hupd.cells i with heq | ⟨j, heq⟩
    · exact (Int.le_of_eq heq).trans h.le_top
    · exact (Int.le_of_eq heq).trans (h.cells j)
  · have hstale := h.stale i (hupd.grows.trans hi)
    change (updateRefPocArray p poc i4IsRefPic s).refPocArray i ≤ low ∧
      ∀ x ∈ (updateRefPocArray p poc i4IsRefPic s).refs,
        (updateRefPocArray p poc i4IsRefPic s).refPocArray i ≤ x
    rw [hupd.behind i hi]
    refine ⟨hstale.1, fun x hx => ?_⟩
    rcases hsub x hx with hold | ⟨-, rfl⟩
    · exact hstale.2 x hold
    · exact hstale.1.trans h.low_lt.le
  · rcases List.mem_append.mp ho' with hold | hnew
    · exact h.pocs o' hold heq
    · obtain rfl := List.mem_singleton.mp hnew
      exact ho.pocEq ▸ h.le_top
  · obtain ⟨hpoc, htop⟩ := h.flag hflag
    refine ⟨hpoc, ?_⟩
    rcases htop with hmem | ⟨rfl, href⟩
    · exact hupd.keeps top hmem h.le_top
    · refine hupd.self href fun x hx => ?_
      obtain ⟨i, -, rfl⟩ := mem_front.mp hx
      refine lt_of_le_of_ne (h.cells i) fun heq => h.notSelf ?_
      rwa [heq] at hx
  · rcases List.mem_append.mp hc with hold | hnew
    · rcases h.cras c hold hiscra heq with hlast | ⟨hlow, hall⟩
      · exact .inl hlast
      · refine .inr ⟨hlow, fun x hx => ?_⟩
        rcases hsub x hx with hin | ⟨-, rfl⟩
        · exact hall x hin
        · exact hlow.trans h.low_lt.le
    · obtain rfl := List.mem_singleton.mp hnew
      obtain ⟨hflag, hpoc, -⟩ := hcra hiscra
      exact .inl ⟨hflag, ho.pocEq.trans hpoc⟩

-- ---------------------------------------------------------------------------
-- The kinds of pictures
-- ---------------------------------------------------------------------------

/-- A B picture is between the last two I or P pictures. -/
theorem RefInv.bPic (hmax : 0 < p.i4MaxReferenceFrames) (h : RefInv p low top r) (hlow : low < poc)
    (htop : poc < top)
    (hnew : ∀ o ∈ r.outs, o.i4IdrGopNum = r.s.i4IdrGopNum → o.i4Poc ≠ poc) (currLayer : Nat) :
    RefInv p low top (r.add (refBPicPopulation p currLayer poc r.s)) := by
  -- the POC of the last CRA picture is the top one, so nothing is dropped here
  have hnot : ¬ (r.s.i4CraPoc < poc ∧ r.s.refPocArray 0 < r.s.i4CraPoc ∧
      r.s.i4CraIPicFlag = true) := by
    rintro ⟨hlt, -, hflag⟩
    have heq := (h.flag hflag).1
    omega
  have hgiven (i4IsRefPic : Nat) : Given p low top r r.s poc i4IsRefPic := {
    hist := h.toHistInv
    gop := Int.le_refl _
    count := h.count
    nodup := h.nodup
    known := h.known
    kept := h.kept
    low_lt := hlow
    le_top := htop.le
    notSelf := fun hmem => by
      obtain ⟨o, ho, hgop, hpoc, -⟩ := h.known poc hmem
      exact hnew o ho hgop hpoc
    cells := h.cells
    stale := h.stale
    pocs := h.pocs
    flag := fun hflag => ⟨(h.flag hflag).1, .inl (h.flag hflag).2⟩
    cras := h.cras }
  unfold refBPicPopulation
  simp only [if_neg hnot]
  exact (hgiven _).next hmax ⟨rfl, rfl, rfl, rfl, rfl⟩ fun hc => nomatch hc

/-- The array for an I or P picture. -/
theorem startPicType_refs {s : LapStruct} (hcells : ∀ i, s.refPocArray i ≤ top)
    (hflag : s.i4CraIPicFlag = true → s.i4CraPoc = top) (htop : top < poc) (t : PicType)
    (ht : t = .i ∨ t = .p ∨ t = .cra) :
    let s' := startPicType (assignPicType t).1 (assignPicType t).2 poc (dropBeforeCra poc s)
    s'.i4IdrGopNum = s.i4IdrGopNum ∧ s'.i4CraIPicFlag = (assignPicType t).2 ∧
      (s'.i4CraIPicFlag = true → s'.i4CraPoc = poc) ∧
      if s.i4CraIPicFlag = true then
        s'.refPocArray = set s.refPocArray 0 top ∧ s'.i4CurrRefPics ≤ 1
      else s'.refPocArray = s.refPocArray ∧ s'.i4CurrRefPics = s.i4CurrRefPics := by
  by_cases hf : s.i4CraIPicFlag = true
  · have hdrop : dropBeforeCra poc s =
        { s with refPocArray := set s.refPocArray 0 top, i4CurrRefPics := 1 } := by
      unfold dropBeforeCra
      rw [hflag hf, if_pos ⟨htop, hcells 0, hf⟩]
    rw [hdrop]
    rcases ht with rfl | rfl | rfl <;> simp [assignPicType, startPicType, hf]
  · have hdrop : dropBeforeCra poc s = s := if_neg fun hall => hf hall.2.2
    rw [hdrop]
    rcases ht with rfl | rfl | rfl <;> simp [assignPicType, startPicType, hf]

/-- An I or P picture refers to what the pictures before it did, a picture behind a CRA only to
the CRA. -/
theorem startPicType_sub {s s' : LapStruct} (htop : s.i4CraIPicFlag = true → top ∈ s.refs)
    (hnodup : s.refs.Nodup)
    (h : if s.i4CraIPicFlag = true then
        s'.refPocArray = set s.refPocArray 0 top ∧ s'.i4CurrRefPics ≤ 1
      else s'.refPocArray = s.refPocArray ∧ s'.i4CurrRefPics = s.i4CurrRefPics) :
    s'.refs.Nodup ∧ ∀ x ∈ s'.refs, x ∈ s.refs ∧ (s.i4CraIPicFlag = true → x = top) := by
  obtain ⟨m, n, gop, irap, cra, flag⟩ := s'
  unfold LapStruct.refs at *
  by_cases hf : s.i4CraIPicFlag = true
  · rw [if_pos hf] at h
    obtain ⟨rfl, hn⟩ := h
    have hcase : n = 0 ∨ n = 1 := by
      simp only at hn
      omega
    rcases hcase with rfl | rfl
    · simp [front]
    · simpa [front] using htop hf
  · rw [if_neg hf] at h
    obtain ⟨rfl, rfl⟩ := h
    exact ⟨hnodup, fun x hx => ⟨hx, fun hf' => absurd hf' hf⟩⟩

/-- An I or P picture has the highest POC so far. -/
theorem RefInv.ipPic (hmax : 0 < p.i4MaxReferenceFrames) (h : RefInv p low top r) (htop : top < poc)
    (t : PicType) (ht : t = .i ∨ t = .p ∨ t = .cra) :
    RefInv p top poc
      (r.add (refPicPopulation p (assignPicType t).1 (assignPicType t).2 poc r.s)) := by
  obtain ⟨hgop, hflag, hcra, harr⟩ :=
    startPicType_refs h.cells (fun hf => (h.flag hf).1) htop t ht
  obtain ⟨hnodup, hsub⟩ := startPicType_sub (fun hf => (h.flag hf).2) h.nodup harr
  unfold refPicPopulation
  generalize startPicType (assignPicType t).1 (assignPicType t).2 poc (dropBeforeCra poc r.s) = s₁
    at *
  have hcells (i : Nat) : s₁.refPocArray i ≤ top := by
    split at harr
    · rw [harr.1]
      by_cases hi : i = 0
      · rw [hi, set_same]
      · rw [set_ne hi]
        exact h.cells i
    · rw [harr.1]
      exact h.cells i
  have hgiven : Given p top poc r (setAssocIrapPoc (assignPicType t).1 (assignPicType t).2 poc s₁)
      poc 1 := {
    hist := h.toHistInv
    gop := Int.le_of_eq hgop.symm
    count := by
      change s₁.i4CurrRefPics ≤ p.i4MaxReferenceFrames
      split at harr
      · exact harr.2.trans hmax
      · exact harr.2 ▸ h.count
    nodup := hnodup
    known := fun x hx => by
      change ∃ o ∈ r.outs, o.i4IdrGopNum = s₁.i4IdrGopNum ∧ o.i4Poc = x ∧ o.i4IsRefPic ≠ 0
      rw [hgop]
      exact h.known x (hsub x hx).1
    kept := fun pre l hsplit x hx => h.kept pre l hsplit x (hsub x hx).1
    low_lt := htop
    le_top := Int.le_refl _
    notSelf := fun hmem => by
      obtain ⟨i, -, heq⟩ := mem_front.mp (hsub poc hmem).1
      have hle := h.cells i
      omega
    cells := fun i => (hcells i).trans htop.le
    stale := fun i hi => ⟨hcells i, fun x hx => by
      by_cases hf : r.s.i4CraIPicFlag = true
      · rw [(hsub x hx).2 hf]
        exact hcells i
      · rw [if_neg hf] at harr
        change s₁.refPocArray i ≤ x
        rw [harr.1]
        exact (h.stale i (harr.2 ▸ hi)).2 x (hsub x hx).1⟩
    pocs := fun o ho heq => (h.pocs o ho (heq.trans hgop)).trans htop.le
    flag := fun hf => ⟨hcra hf, .inr ⟨rfl, Nat.one_ne_zero⟩⟩
    cras := fun c hc hiscra heq => by
      have hpoc := h.pocs c hc (heq.trans hgop)
      refine .inr ⟨hpoc, fun x hx => ?_⟩
      rcases h.cras c hc hiscra (heq.trans hgop) with ⟨hf, -⟩ | ⟨-, hall⟩
      · rw [(hsub x hx).2 hf]
        exact hpoc
      · exact hall x (hsub x hx).1 }
  refine hgiven.next hmax ⟨rfl, rfl, rfl, rfl, rfl⟩ fun hc => ⟨?_, rfl, fun o ho heq => ?_⟩
  · exact hflag.trans hc
  · exact Int.lt_of_le_of_lt (h.pocs o ho (heq.trans hgop)) htop

/-- An IDR picture starts all over. -/
theorem HistInv.idrPic (hmax : 0 < p.i4MaxReferenceFrames) (h : HistInv p r) :
    RefInv p (-1) 0
      (r.add (refPicPopulation p (assignPicType .idr).1 (assignPicType .idr).2 0 r.s)) := by
  have hgop : (dropBeforeCra 0 r.s).i4IdrGopNum = r.s.i4IdrGopNum := by
    unfold dropBeforeCra
    split <;> rfl
  unfold refPicPopulation
  simp only [assignPicType, startPicType]
  generalize dropBeforeCra 0 r.s = s₁ at hgop
  have hgiven : Given p (-1) 0 r (setAssocIrapPoc .idrFrame false 0
      { s₁ with
        i4IdrGopNum := s₁.i4IdrGopNum + 1
        i4CurrRefPics := 0
        i4CraIPicFlag := true
        i4CraPoc := 0
        refPocArray := fun _ => -1 }) 0 1 := by
    have hold (o : LapOut) (ho : o ∈ r.outs) (heq : o.i4IdrGopNum = s₁.i4IdrGopNum + 1) : False := by
      have hle := h.gops o ho
      omega
    exact {
      hist := h
      gop := by
        change r.s.i4IdrGopNum ≤ s₁.i4IdrGopNum + 1
        omega
      count := Nat.zero_le _
      nodup := List.nodup_nil
      known := fun x hx => nomatch hx
      kept := fun _ _ _ x hx => nomatch hx
      low_lt := by decide
      le_top := Int.le_refl 0
      notSelf := fun hmem => nomatch hmem
      cells := fun _ => show (-1 : Int) ≤ 0 by decide
      stale := fun _ _ => ⟨Int.le_refl _, fun x hx => nomatch hx⟩
      pocs := fun o ho heq => (hold o ho heq).elim
      flag := fun _ => ⟨rfl, .inr ⟨rfl, Nat.one_ne_zero⟩⟩
      cras := fun c hc _ heq => (hold c hc heq).elim }
  exact hgiven.next hmax ⟨rfl, rfl, rfl, rfl, rfl⟩ fun hc => nomatch hc

-- ---------------------------------------------------------------------------
-- Sub-GOPs
-- ---------------------------------------------------------------------------

theorem RefInv.setCurrPoc (h : RefInv p low top r) (poc : Int) :
    RefInv p low top { r with i4CurrPoc := poc } :=
  ⟨⟨h.valid, h.gops, h.gopsSorted, h.craLast⟩, h.count, h.nodup, h.known, h.kept, h.cells, h.stale,
    h.pocs, h.flag, h.cras⟩

/-- The B pictures of a sub-GOP, in any order. -/
theorem RefInv.bPics (hmax : 0 < p.i4MaxReferenceFrames) {bs : List (Nat × Nat)} {base : Int} :
    ∀ {r : LapRun}, RefInv p low top r → (bs.map Prod.snd).Nodup →
      (∀ e ∈ bs, low < base + e.2 ∧ base + e.2 < top ∧
        ∀ o ∈ r.outs, o.i4IdrGopNum = r.s.i4IdrGopNum → o.i4Poc ≠ base + e.2) →
      RefInv p low top (bs.foldl (LapRun.bPic p base) r) := by
  induction bs with
  | nil => exact fun h _ _ => h
  | cons e bs ih =>
    intro r h hnodup hall
    obtain ⟨hlow, htop, hnew⟩ := hall e (List.mem_cons_self ..)
    obtain ⟨he, hnodup⟩ := List.nodup_cons.mp hnodup
    have hstep : RefInv p low top (r.bPic p base e) := h.bPic hmax hlow htop hnew e.1
    have hgop : (r.bPic p base e).s.i4IdrGopNum = r.s.i4IdrGopNum := by
      change (refBPicPopulation p e.1 (base + e.2) r.s).1.i4IdrGopNum = _
      unfold refBPicPopulation
      simp only [updateRefPocArray]
      split <;> rfl
    refine ih hstep hnodup fun e' he' => ?_
    obtain ⟨hlow', htop', hnew'⟩ := hall e' (List.mem_cons_of_mem _ he')
    refine ⟨hlow', htop', fun o ho heq => ?_⟩
    rcases List.mem_append.mp ho with hold | hlast
    · exact hnew' o hold (heq.trans hgop)
    · -- the picture just coded
      obtain rfl := List.mem_singleton.mp hlast
      have hne : e.2 ≠ e'.2 := fun hsame => he (hsame ▸ List.mem_map_of_mem he')
      change base + (e.2 : Int) ≠ base + e'.2
      omega

theorem RefInv.subGop (hmax : 0 < p.i4MaxReferenceFrames) (hlayers : p.i4MaxTemporalLayers ≤ 3)
    {g : SubGop} (hg : g.Legal p.i4MaxTemporalLayers) (h : RefInv p low (r.i4CurrPoc - 1) r) :
    ∃ low', RefInv p low' ((r.subGop p g).i4CurrPoc - 1) (r.subGop p g) := by
  have hslots := hg.slotsOk hlayers
  have hpos := hg.numPics_pos
  obtain ⟨hnodup, hbelow⟩ := hslots.bPics
  let n := g.numPics p.i4MaxTemporalLayers
  let last := r.i4CurrPoc + ((n - 1 : Nat) : Int)
  have hlast : r.i4CurrPoc - 1 < last := by omega
  have hanchor := h.ipPic hmax hlast g.last hg.last
  have hgop : (refPicPopulation p (assignPicType g.last).1 (assignPicType g.last).2 last
      r.s).2.i4IdrGopNum = r.s.i4IdrGopNum := by
    obtain ⟨hgop, -⟩ :=
      startPicType_refs h.cells (fun hf => (h.flag hf).1) hlast g.last hg.last
    exact hgop
  have hbs : RefInv p _ last ((g.bPics p.i4MaxTemporalLayers).foldl
      (LapRun.bPic p r.i4CurrPoc) _) := hanchor.bPics hmax hnodup fun e he => by
    have hlt := hbelow e he
    refine ⟨by omega, by omega, fun o ho heq => ?_⟩
    rcases List.mem_append.mp ho with hold | hnew
    · have hle := h.pocs o hold (heq.trans hgop)
      omega
    · obtain rfl := List.mem_singleton.mp hnew
      change last ≠ _
      omega
  have hstep : r.subGop p g = { (g.bPics p.i4MaxTemporalLayers).foldl (LapRun.bPic p r.i4CurrPoc)
      (r.add (refPicPopulation p (assignPicType g.last).1 (assignPicType g.last).2 last r.s)) with
      i4CurrPoc := r.i4CurrPoc + n } := by
    unfold LapRun.subGop
    simp only [hslots.last]
    rfl
  refine ⟨r.i4CurrPoc - 1, ?_⟩
  have htop : (r.subGop p g).i4CurrPoc - 1 = last := by
    rw [hstep]
    change r.i4CurrPoc + (n : Int) - 1 = last
    omega
  rw [htop, hstep]
  exact hbs.setCurrPoc _

-- ---------------------------------------------------------------------------
-- Runs
-- ---------------------------------------------------------------------------

theorem RefInv.step (hmax : 0 < p.i4MaxReferenceFrames) (hlayers : p.i4MaxTemporalLayers ≤ 3)
    {step : LapStep} (hstep : step.Legal p) (h : RefInv p low (r.i4CurrPoc - 1) r) :
    ∃ low', RefInv p low' ((r.step p step).i4CurrPoc - 1) (r.step p step) := by
  cases step with
  | idr => exact ⟨-1, (h.toHistInv.idrPic hmax).setCurrPoc 1⟩
  | subGop g => exact h.subGop hmax hlayers hstep

theorem lapRun_inv (hmax : 0 < p.i4MaxReferenceFrames) (hlayers : p.i4MaxTemporalLayers ≤ 3)
    {steps : List LapStep} (hsteps : ∀ step ∈ steps, step.Legal p) :
    ∃ low, RefInv p low ((lapRun p steps).i4CurrPoc - 1) (lapRun p steps) := by
  have hstart : HistInv p ⟨.init, 0, []⟩ :=
    ⟨fun _ _ _ h => absurd h (by simp), fun _ ho => absurd ho List.not_mem_nil, .nil,
      fun _ _ _ h => absurd h (by simp)⟩
  induction steps using List.reverseRecOn with
  | nil => exact ⟨-1, (hstart.idrPic hmax).setCurrPoc 1⟩
  | append_singleton steps step ih =>
    obtain ⟨low, h⟩ := ih fun step hstep => hsteps step (List.mem_append_left _ hstep)
    unfold lapRun at h ⊢
    rw [List.foldl_append]
    exact h.step hmax hlayers (hsteps step (List.mem_append_right _ (List.mem_singleton.mpr rfl)))

/-- In every run the pictures get valid reference sets. -/
theorem lap_refs_valid (hmax : 0 < p.i4MaxReferenceFrames) (hlayers : p.i4MaxTemporalLayers ≤ 3)
    {steps : List LapStep} (hsteps : ∀ step ∈ steps, step.Legal p) :
    ∀ pre o post, (lapRun p steps).outs = pre ++ o :: post → ValidRefs p pre o := by
  obtain ⟨low, h⟩ := lapRun_inv hmax hlayers hsteps
  exact h.valid

/-- Sub-GOPs that end with a CRA and with a P picture, one cut short by an IDR picture, and one by
the end of the input. -/
def shortSteps : List LapStep :=
  [.subGop (.full .cra), .subGop (.full .p), .subGop (.cut 3), .idr, .subGop (.full .i),
    .subGop (.ended 2)]

theorem lap_refs_valid_shortSteps :
    (∀ step ∈ shortSteps, step.Legal ⟨4, 2⟩) ∧
      ∀ pre o post, (lapRun ⟨4, 2⟩ shortSteps).outs = pre ++ o :: post → ValidRefs ⟨4, 2⟩ pre o :=
  have hlegal : ∀ step ∈ shortSteps, step.Legal ⟨4, 2⟩ := by
    simp [shortSteps, LapStep.Legal, SubGop.Legal, subGopSize]
  ⟨hlegal, lap_refs_valid (by decide) (by decide) hlegal⟩

end Libhevc.Encoder
