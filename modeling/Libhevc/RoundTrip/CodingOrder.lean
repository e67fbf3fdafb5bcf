import Libhevc.Encoder.DeblkQpMap
import Libhevc.RoundTrip.CuQpTree

/-!
# Coding order in a CTB

Where a coding unit begins, the blocks to its left and above it have been covered,
and the last coding unit of a CTB reaches its last block in the picture.
-/

namespace Libhevc.RoundTrip

open Encoder Decoder

/-- A block of 8x8 that the coding unit lies on. -/
def CuInCtb.Covers (p : CuInCtb) (x y : Nat) : Prop :=
  p.x0 ≤ 8 * x ∧ 8 * x < p.x0 + 2 ^ p.log2CbSize ∧
    p.y0 ≤ 8 * y ∧ 8 * y < p.y0 + 2 ^ p.log2CbSize

instance (p : CuInCtb) (x y : Nat) : Decidable (CuInCtb.Covers p x y) :=
  inferInstanceAs (Decidable (_ ∧ _ ∧ _ ∧ _))

def Covered (l : List CuInCtb) (x y : Nat) : Prop := ∃ p ∈ l, CuInCtb.Covers p x y

/-- Each coding unit has its left and its upper block among those in `P` and those covered
before it. -/
def Ready (P : Nat → Nat → Prop) : List CuInCtb → Prop
  | [] => True
  | p :: l => (p.x0 / 8 ≠ 0 → P (p.x0 / 8 - 1) (p.y0 / 8)) ∧
      (p.y0 / 8 ≠ 0 → P (p.x0 / 8) (p.y0 / 8 - 1)) ∧
      Ready (fun x y => P x y ∨ CuInCtb.Covers p x y) l

theorem Covered.append_left (h : Covered l x y) (l' : List CuInCtb) : Covered (l ++ l') x y :=
  let ⟨p, hp, hc⟩ := h
  ⟨p, List.mem_append_left _ hp, hc⟩

theorem Covered.append_right (h : Covered l x y) (l' : List CuInCtb) : Covered (l' ++ l) x y :=
  let ⟨p, hp, hc⟩ := h
  ⟨p, List.mem_append_right _ hp, hc⟩

theorem Ready.mono {P Q : Nat → Nat → Prop} (h : Ready P l) (hPQ : ∀ x y, P x y → Q x y) :
    Ready Q l := by
  induction l generalizing P Q with
  | nil => trivial
  | cons p l ih =>
    obtain ⟨hleft, htop, hrest⟩ := h
    exact ⟨fun hx => hPQ _ _ (hleft hx), fun hy => hPQ _ _ (htop hy),
      ih hrest fun x y => Or.imp_left (hPQ x y)⟩

theorem Ready.append {P : Nat → Nat → Prop} (h : Ready P l)
    (h' : Ready (fun x y => P x y ∨ Covered l x y) l') : Ready P (l ++ l') := by
  induction l generalizing P with
  | nil => exact h'.mono fun x y hxy => hxy.resolve_right fun ⟨_, hp, _⟩ => nomatch hp
  | cons p l ih =>
    obtain ⟨hleft, htop, hrest⟩ := h
    refine ⟨hleft, htop, ih hrest (h'.mono fun x y => ?_)⟩
    rintro (hP | ⟨p', hp', hc⟩)
    · exact .inl (.inl hP)
    · rcases List.mem_cons.mp hp' with rfl | hp'
      · exact .inl (.inr hc)
      · exact .inr ⟨p', hp', hc⟩

/-- Two runs over coding units in order, with a relation that each of them keeps. -/
theorem Ready.foldl_rel {R : (Nat → Nat → Prop) → σ → τ → Prop} {f : σ → CuInCtb → σ}
    {g : τ → CuInCtb → τ} {P : Nat → Nat → Prop}
    (hmono : ∀ {P Q s t}, (∀ x y, Q x y → P x y) → R P s t → R Q s t)
    (hstep : ∀ {P s t}, ∀ p ∈ l, R P s t → (p.x0 / 8 ≠ 0 → P (p.x0 / 8 - 1) (p.y0 / 8)) →
      (p.y0 / 8 ≠ 0 → P (p.x0 / 8) (p.y0 / 8 - 1)) →
      R (fun x y => P x y ∨ CuInCtb.Covers p x y) (f s p) (g t p))
    (h : Ready P l) (hR : R P s t) :
    R (fun x y => P x y ∨ Covered l x y) (l.foldl f s) (l.foldl g t) := by
  induction l generalizing P s t with
  | nil => exact hmono (fun x y hxy => hxy.resolve_right fun ⟨_, hp, _⟩ => nomatch hp) hR
  | cons p l ih =>
    obtain ⟨hleft, htop, hrest⟩ := h
    have hp := hstep p (List.mem_cons_self ..) hR hleft htop
    refine hmono (fun x y hxy => ?_) (ih (fun p' hp' => hstep p' (List.mem_cons_of_mem _ hp'))
      hrest hp)
    rcases hxy with hP | ⟨p', hp', hc⟩
    · exact .inl (.inl hP)
    · rcases List.mem_cons.mp hp' with rfl | hp'
      · exact .inl (.inr hc)
      · exact .inr ⟨p', hp', hc⟩

-- ---------------------------------------------------------------------------
-- Nodes
-- ---------------------------------------------------------------------------

/-- The blocks of the CTB to the left of a node and above it are in `P`. -/
def BlocksBefore (g : CtbGrid) (ctbX ctbY x0 y0 n : Nat) (P : Nat → Nat → Prop) : Prop :=
  ∀ x y, 8 * x < x0 + n → 8 * y < y0 + n → 8 * x < x0 ∨ 8 * y < y0 →
    g.InWidth ctbX (8 * x) → g.InHeight ctbY (8 * y) → P x y

/-- The blocks of a node in the picture are in `P`. -/
def BlocksIn (g : CtbGrid) (ctbX ctbY x0 y0 n : Nat) (P : Nat → Nat → Prop) : Prop :=
  ∀ x y, x0 ≤ 8 * x → 8 * x < x0 + n → y0 ≤ 8 * y → 8 * y < y0 + n →
    g.InWidth ctbX (8 * x) → g.InHeight ctbY (8 * y) → P x y

variable {cfg : QpConfig}

theorem inWidth_of_le (h : cfg.InWidth ctbX x) (hle : x' ≤ x) : cfg.InWidth ctbX x' := by
  unfold CtbGrid.InWidth at h ⊢
  omega

theorem inHeight_of_le (h : cfg.InHeight ctbY y) (hle : y' ≤ y) : cfg.InHeight ctbY y' := by
  unfold CtbGrid.InHeight at h ⊢
  omega

/-- In coding order each coding unit finds its neighbours, and the node is covered. -/
theorem quadtreeCus_ready {q : Nat → Nat → Int} (t : CodingQuadtree CuResidual) :
    ∀ {x0 y0 log2CbSize} {P : Nat → Nat → Prop},
      LegalQuadtree cfg ctbX ctbY q t x0 y0 log2CbSize → 8 ∣ x0 → 8 ∣ y0 →
      cfg.InWidth ctbX x0 → cfg.InHeight ctbY y0 →
      BlocksBefore cfg.toCtbGrid ctbX ctbY x0 y0 (2 ^ log2CbSize) P →
      Ready P (quadtreeCus cfg.toCtbGrid ctbX ctbY t x0 y0 log2CbSize) ∧
        BlocksIn cfg.toCtbGrid ctbX ctbY x0 y0 (2 ^ log2CbSize)
          (Covered (quadtreeCus cfg.toCtbGrid ctbX ctbY t x0 y0 log2CbSize)) := by
  induction t with
  | cu cu =>
    intro x0 y0 log2CbSize P _ hx8 hy8 hw hh hbefore
    have hpos := Nat.two_pow_pos log2CbSize
    refine ⟨⟨fun hx => ?_, fun hy => ?_, trivial⟩, fun x y hx hx' hy hy' _ _ =>
      ⟨_, List.mem_singleton_self _, hx, hx', hy, hy'⟩⟩
    · exact hbefore _ _ (by dsimp only; omega) (by dsimp only; omega)
        (.inl (by dsimp only at hx ⊢; omega)) (inWidth_of_le hw (by dsimp only; omega))
        (inHeight_of_le hh (by dsimp only; omega))
    · exact hbefore _ _ (by dsimp only; omega) (by dsimp only; omega)
        (.inr (by dsimp only at hy ⊢; omega)) (inWidth_of_le hw (by dsimp only; omega))
        (inHeight_of_le hh (by dsimp only; omega))
  | split c0 c1 c2 c3 ih0 ih1 ih2 ih3 =>
    intro x0 y0 log2CbSize P hlegal hx8 hy8 hw hh hbefore
    obtain ⟨hlog, hlegal0, hlegal1, hlegal2, hlegal3⟩ := hlegal
    have h8 : 8 ∣ 2 ^ (log2CbSize - 1) := pow_dvd_pow 2 (show 3 ≤ log2CbSize - 1 by omega)
    rw [two_pow_pred_add (show 0 < log2CbSize by omega)] at hbefore ⊢
    let n := 2 ^ (log2CbSize - 1)
    have hn : 0 < n := Nat.two_pow_pos _
    let l0 := quadtreeCus cfg.toCtbGrid ctbX ctbY c0 x0 y0 (log2CbSize - 1)
    let l1 := if cfg.InWidth ctbX (x0 + n) then
      quadtreeCus cfg.toCtbGrid ctbX ctbY c1 (x0 + n) y0 (log2CbSize - 1) else []
    let l2 := if cfg.InHeight ctbY (y0 + n) then
      quadtreeCus cfg.toCtbGrid ctbX ctbY c2 x0 (y0 + n) (log2CbSize - 1) else []
    let l3 := if cfg.InWidth ctbX (x0 + n) ∧ cfg.InHeight ctbY (y0 + n) then
      quadtreeCus cfg.toCtbGrid ctbX ctbY c3 (x0 + n) (y0 + n) (log2CbSize - 1) else []
    change BlocksBefore cfg.toCtbGrid ctbX ctbY x0 y0 (n + n) P at hbefore
    change Ready P (l0 ++ (l1 ++ (l2 ++ l3))) ∧
      BlocksIn cfg.toCtbGrid ctbX ctbY x0 y0 (n + n) (Covered (l0 ++ (l1 ++ (l2 ++ l3))))
    obtain ⟨hr0, hc0⟩ := ih0 hlegal0 hx8 hy8 hw hh fun x y hx hy hxy =>
      hbefore x y (by omega) (by omega) hxy
    have h1 : Ready (fun x y => P x y ∨ Covered l0 x y) l1 ∧ (cfg.InWidth ctbX (x0 + n) →
        BlocksIn cfg.toCtbGrid ctbX ctbY (x0 + n) y0 n (Covered l1)) := by
      by_cases hw1 : cfg.InWidth ctbX (x0 + n)
      · simp only [l1, if_pos hw1]
        refine (ih1 (hlegal1 hw1) (Nat.dvd_add hx8 h8) hy8 hw1 hh fun x y hx hy hxy hwx hhy => ?_).imp
          id fun h _ => h
        by_cases hout : 8 * x < x0 ∨ 8 * y < y0
        · exact .inl (hbefore x y (by omega) (by omega) hout hwx hhy)
        · exact .inr (hc0 x y (by omega) (by omega) (by omega) (by omega) hwx hhy)
      · simp only [l1, if_neg hw1]
        exact ⟨trivial, fun h => absurd h hw1⟩
    obtain ⟨hr1, hc1⟩ := h1
    have h2 : Ready (fun x y => (P x y ∨ Covered l0 x y) ∨ Covered l1 x y) l2 ∧
        (cfg.InHeight ctbY (y0 + n) →
          BlocksIn cfg.toCtbGrid ctbX ctbY x0 (y0 + n) n (Covered l2)) := by
      by_cases hh1 : cfg.InHeight ctbY (y0 + n)
      · simp only [l2, if_pos hh1]
        refine (ih2 (hlegal2 hh1) hx8 (Nat.dvd_add hy8 h8) hw hh1 fun x y hx hy hxy hwx hhy => ?_).imp
          id fun h _ => h
        by_cases hout : 8 * x < x0 ∨ 8 * y < y0
        · exact .inl (.inl (hbefore x y (by omega) (by omega) hout hwx hhy))
        · exact .inl (.inr (hc0 x y (by omega) (by omega) (by omega) (by omega) hwx hhy))
      · simp only [l2, if_neg hh1]
        exact ⟨trivial, fun h => absurd h hh1⟩
    obtain ⟨hr2, hc2⟩ := h2
    have h3 : Ready (fun x y => ((P x y ∨ Covered l0 x y) ∨ Covered l1 x y) ∨ Covered l2 x y) l3 ∧
        (cfg.InWidth ctbX (x0 + n) → cfg.InHeight ctbY (y0 + n) →
          BlocksIn cfg.toCtbGrid ctbX ctbY (x0 + n) (y0 + n) n (Covered l3)) := by
      by_cases hin : cfg.InWidth ctbX (x0 + n) ∧ cfg.InHeight ctbY (y0 + n)
      · simp only [l3, if_pos hin]
        refine (ih3 (hlegal3 hin.1 hin.2) (Nat.dvd_add hx8 h8) (Nat.dvd_add hy8 h8) hin.1 hin.2
          fun x y hx hy hxy hwx hhy => ?_).imp id fun h _ _ => h
        by_cases hout : 8 * x < x0 ∨ 8 * y < y0
        · exact .inl (.inl (.inl (hbefore x y (by omega) (by omega) hout hwx hhy)))
        · rcases Nat.lt_or_ge (8 * x) (x0 + n) with hx1 | hx1
          · rcases Nat.lt_or_ge (8 * y) (y0 + n) with hy1 | hy1
            · exact .inl (.inl (.inr (hc0 x y (by omega) hx1 (by omega) hy1 hwx hhy)))
            · exact .inr (hc2 hin.2 x y (by omega) hx1 hy1 (by omega) hwx hhy)
          · exact .inl (.inr (hc1 hin.1 x y hx1 (by omega) (by omega) (by omega) hwx hhy))
      · simp only [l3, if_neg hin]
        exact ⟨trivial, fun hw1 hh1 => absurd ⟨hw1, hh1⟩ hin⟩
    obtain ⟨hr3, hc3⟩ := h3
    refine ⟨hr0.append (hr1.append (hr2.append hr3)), fun x y hx hx' hy hy' hwx hhy => ?_⟩
    rcases Nat.lt_or_ge (8 * x) (x0 + n) with hx1 | hx1 <;>
      rcases Nat.lt_or_ge (8 * y) (y0 + n) with hy1 | hy1
    · exact (hc0 x y hx hx1 hy hy1 hwx hhy).append_left _
    · exact (((hc2 (inHeight_of_le hhy hy1) x y hx hx1 hy1 (by omega) hwx
        hhy).append_left _).append_right _).append_right _
    · exact ((hc1 (inWidth_of_le hwx hx1) x y hx1 (by omega) hy hy1 hwx
        hhy).append_left _).append_right _
    · exact (((hc3 (inWidth_of_le hwx hx1) (inHeight_of_le hhy hy1) x y hx1 (by omega) hy1
        (by omega) hwx hhy).append_right _).append_right _).append_right _

/-- A coding unit of a node, with what a legal tree says of it. -/
structure PlacedIn (cfg : QpConfig) (q : Nat → Nat → Int) (x0 y0 n : Nat) (p : CuInCtb) : Prop where
  log2CbSize : 3 ≤ p.log2CbSize
  dvdX : 8 ∣ p.x0
  dvdY : 8 ∣ p.y0
  left : x0 ≤ p.x0
  right : p.x0 + 2 ^ p.log2CbSize ≤ x0 + n
  top : y0 ≤ p.y0
  bottom : p.y0 + 2 ^ p.log2CbSize ≤ y0 + n
  qp : p.cu.b7Qp =
    q (p.x0 / 2 ^ i1Log2MinCuQpDeltaSize cfg) (p.y0 / 2 ^ i1Log2MinCuQpDeltaSize cfg)

theorem PlacedIn.quarter {q : Nat → Nat → Int} (h : PlacedIn cfg q (x0 + i) (y0 + j) n p)
    (hi : i ≤ n) (hj : j ≤ n) : PlacedIn cfg q x0 y0 (n + n) p :=
  ⟨h.log2CbSize, h.dvdX, h.dvdY, (Nat.le_add_right ..).trans h.left,
    h.right.trans (by omega), (Nat.le_add_right ..).trans h.top, h.bottom.trans (by omega), h.qp⟩

theorem quadtreeCus_placed {q : Nat → Nat → Int} (t : CodingQuadtree CuResidual) :
    ∀ {x0 y0 log2CbSize}, LegalQuadtree cfg ctbX ctbY q t x0 y0 log2CbSize → 8 ∣ x0 → 8 ∣ y0 →
      ∀ p ∈ quadtreeCus cfg.toCtbGrid ctbX ctbY t x0 y0 log2CbSize,
        PlacedIn cfg q x0 y0 (2 ^ log2CbSize) p := by
  induction t with
  | cu cu =>
    intro x0 y0 log2CbSize hlegal hx8 hy8 p hp
    obtain rfl := List.mem_singleton.mp hp
    exact ⟨hlegal.1, hx8, hy8, le_rfl, le_rfl, le_rfl, le_rfl, hlegal.2⟩
  | split c0 c1 c2 c3 ih0 ih1 ih2 ih3 =>
    intro x0 y0 log2CbSize hlegal hx8 hy8 p hp
    obtain ⟨hlog, hlegal0, hlegal1, hlegal2, hlegal3⟩ := hlegal
    have h8 : 8 ∣ 2 ^ (log2CbSize - 1) := pow_dvd_pow 2 (show 3 ≤ log2CbSize - 1 by omega)
    rw [two_pow_pred_add (show 0 < log2CbSize by omega)]
    simp only [quadtreeCus, List.mem_append] at hp
    rcases hp with hp | hp | hp | hp
    · exact (ih0 hlegal0 hx8 hy8 p hp).quarter (Nat.zero_le _) (Nat.zero_le _)
    · split at hp
      case isTrue hw =>
        exact (ih1 (hlegal1 hw) (Nat.dvd_add hx8 h8) hy8 p hp).quarter le_rfl (Nat.zero_le _)
      case isFalse => cases hp
    · split at hp
      case isTrue hh =>
        exact (ih2 (hlegal2 hh) hx8 (Nat.dvd_add hy8 h8) p hp).quarter (Nat.zero_le _) le_rfl
      case isFalse => cases hp
    · split at hp
      case isTrue hin =>
        exact (ih3 (hlegal3 hin.1 hin.2) (Nat.dvd_add hx8 h8) (Nat.dvd_add hy8 h8) p hp).quarter
          le_rfl le_rfl
      case isFalse => cases hp

/-- The first coding unit begins with the node, the others do not. -/
theorem quadtreeCus_first {q : Nat → Nat → Int} (t : CodingQuadtree CuResidual) :
    ∀ {x0 y0 log2CbSize}, LegalQuadtree cfg ctbX ctbY q t x0 y0 log2CbSize → 8 ∣ x0 → 8 ∣ y0 →
      ∃ p l, quadtreeCus cfg.toCtbGrid ctbX ctbY t x0 y0 log2CbSize = p :: l ∧
        p.x0 = x0 ∧ p.y0 = y0 ∧ ∀ p' ∈ l, x0 < p'.x0 ∨ y0 < p'.y0 := by
  induction t with
  | cu cu =>
    intro x0 y0 log2CbSize _ _ _
    exact ⟨_, [], rfl, rfl, rfl, fun p hp => nomatch hp⟩
  | split c0 c1 c2 c3 ih0 ih1 ih2 ih3 =>
    intro x0 y0 log2CbSize hlegal hx8 hy8
    obtain ⟨hlog, hlegal0, hlegal1, hlegal2, hlegal3⟩ := hlegal
    have hpos := Nat.two_pow_pos (log2CbSize - 1)
    have h8 : 8 ∣ 2 ^ (log2CbSize - 1) := pow_dvd_pow 2 (show 3 ≤ log2CbSize - 1 by omega)
    obtain ⟨p, l, hl, hx, hy, hother⟩ := ih0 hlegal0 hx8 hy8
    refine ⟨p, _, by rw [quadtreeCus, hl, List.cons_append], hx, hy, fun p' hp' => ?_⟩
    simp only [List.mem_append] at hp'
    rcases hp' with hp | hp | hp | hp
    · exact hother p' hp
    · split at hp
      case isTrue hw =>
        have hleft := (quadtreeCus_placed c1 (hlegal1 hw) (Nat.dvd_add hx8 h8) hy8 p' hp).left
        exact .inl (by omega)
      case isFalse => cases hp
    · split at hp
      case isTrue hh =>
        have htop := (quadtreeCus_placed c2 (hlegal2 hh) hx8 (Nat.dvd_add hy8 h8) p' hp).top
        exact .inr (by omega)
      case isFalse => cases hp
    · split at hp
      case isTrue hin =>
        have hleft := (quadtreeCus_placed c3 (hlegal3 hin.1 hin.2) (Nat.dvd_add hx8 h8)
          (Nat.dvd_add hy8 h8) p' hp).left
        exact .inl (by omega)
      case isFalse => cases hp

/-- The last block of a node that is in the picture. -/
structure LastBlock (g : CtbGrid) (ctbX ctbY x0 y0 n x y : Nat) : Prop where
  left : x0 ≤ 8 * x
  right : 8 * x < x0 + n
  top : y0 ≤ 8 * y
  bottom : 8 * y < y0 + n
  inWidth : g.InWidth ctbX (8 * x)
  inHeight : g.InHeight ctbY (8 * y)
  lastX : 8 * x + 8 < x0 + n → ¬ g.InWidth ctbX (8 * x + 8)
  lastY : 8 * y + 8 < y0 + n → ¬ g.InHeight ctbY (8 * y + 8)

def LastCovers (l : List CuInCtb) (x y : Nat) : Prop :=
  ∃ l' p, l = l' ++ [p] ∧ CuInCtb.Covers p x y

theorem LastCovers.append (h : LastCovers l x y) (k : List CuInCtb) : LastCovers (k ++ l) x y := by
  obtain ⟨l', p, rfl, hc⟩ := h
  exact ⟨k ++ l', p, (List.append_assoc ..).symm, hc⟩

theorem quadtreeCus_last {q : Nat → Nat → Int} (t : CodingQuadtree CuResidual) :
    ∀ {x0 y0 log2CbSize}, LegalQuadtree cfg ctbX ctbY q t x0 y0 log2CbSize → 8 ∣ x0 → 8 ∣ y0 →
      LastBlock cfg.toCtbGrid ctbX ctbY x0 y0 (2 ^ log2CbSize) x y →
      LastCovers (quadtreeCus cfg.toCtbGrid ctbX ctbY t x0 y0 log2CbSize) x y := by
  induction t with
  | cu cu =>
    intro x0 y0 log2CbSize _ _ _ h
    exact ⟨[], _, rfl, h.left, h.right, h.top, h.bottom⟩
  | split c0 c1 c2 c3 ih0 ih1 ih2 ih3 =>
    intro x0 y0 log2CbSize hlegal hx8 hy8 h
    obtain ⟨hlog, hlegal0, hlegal1, hlegal2, hlegal3⟩ := hlegal
    have h8 : 8 ∣ 2 ^ (log2CbSize - 1) := pow_dvd_pow 2 (show 3 ≤ log2CbSize - 1 by omega)
    rw [two_pow_pred_add (show 0 < log2CbSize by omega)] at h
    obtain ⟨hleft, hright, htop, hbottom, hwx, hhy, hlastX, hlastY⟩ := h
    -- the half in which the block lies is the last one in the picture
    have hx1 : cfg.InWidth ctbX (x0 + 2 ^ (log2CbSize - 1)) ↔ x0 + 2 ^ (log2CbSize - 1) ≤ 8 * x := by
      refine ⟨fun hw => Nat.le_of_not_lt fun hlt => ?_, inWidth_of_le hwx⟩
      exact hlastX (by omega) (inWidth_of_le hw (by omega))
    have hy1 : cfg.InHeight ctbY (y0 + 2 ^ (log2CbSize - 1)) ↔ y0 + 2 ^ (log2CbSize - 1) ≤ 8 * y := by
      refine ⟨fun hh => Nat.le_of_not_lt fun hlt => ?_, inHeight_of_le hhy⟩
      exact hlastY (by omega) (inHeight_of_le hh (by omega))
    simp only [quadtreeCus, hx1, hy1] at hlegal1 hlegal2 hlegal3 ⊢
    by_cases hxr : x0 + 2 ^ (log2CbSize - 1) ≤ 8 * x <;>
      by_cases hyb : y0 + 2 ^ (log2CbSize - 1) ≤ 8 * y
    · rw [if_pos hxr, if_pos hyb, if_pos ⟨hxr, hyb⟩]
      refine (((ih3 (hlegal3 hxr hyb) (Nat.dvd_add hx8 h8) (Nat.dvd_add hy8 h8) ?_).append
        _).append _).append _
      exact ⟨hxr, by omega, hyb, by omega, hwx, hhy, fun hlt => hlastX (by omega),
        fun hlt => hlastY (by omega)⟩
    · rw [if_pos hxr, if_neg hyb, if_neg fun hin => hyb hin.2, List.append_nil, List.append_nil]
      refine (ih1 (hlegal1 hxr) (Nat.dvd_add hx8 h8) hy8 ?_).append _
      exact ⟨hxr, by omega, htop, by omega, hwx, hhy, fun hlt => hlastX (by omega),
        fun hlt => hlastY (by omega)⟩
    · rw [if_neg hxr, if_pos hyb, if_neg fun hin => hxr hin.1, List.append_nil, List.nil_append]
      refine (ih2 (hlegal2 hyb) hx8 (Nat.dvd_add hy8 h8) ?_).append _
      exact ⟨hleft, by omega, hyb, by omega, hwx, hhy, fun hlt => hlastX (by omega),
        fun hlt => hlastY (by omega)⟩
    · rw [if_neg hxr, if_neg hyb, if_neg fun hin => hxr hin.1, List.append_nil, List.append_nil,
        List.append_nil]
      exact ih0 hlegal0 hx8 hy8 ⟨hleft, by omega, htop, by omega, hwx, hhy,
        fun hlt => hlastX (by omega), fun hlt => hlastY (by omega)⟩

end Libhevc.RoundTrip
