import Mathlib.Data.List.Basic

/-!
# Runs of a machine with outputs

A machine takes its inputs one at a time and gives an output for each. Some
outputs stop it; the inputs after that are not taken.
-/

namespace Transducer

structure Outcome (σ ρ : Type) where
  outputs : List ρ
  state : σ
  stopped : Bool

def run (step : σ → ι → ρ × σ) (stops : ι → ρ → Bool) : σ → List ι → Outcome σ ρ
  | s, [] => { outputs := [], state := s, stopped := false }
  | s, i :: l =>
    let r := step s i
    if stops i r.1 then { outputs := [r.1], state := r.2, stopped := true }
    else
      let rest := run step stops r.2 l
      { rest with outputs := r.1 :: rest.outputs }

variable {step : σ → ι → ρ × σ} {step' : τ → ι → ρ × τ} {stops : ι → ρ → Bool}

theorem run_stop (h : stops i (step s i).1 = true) :
    run step stops s (i :: l) =
      { outputs := [(step s i).1], state := (step s i).2, stopped := true } := if_pos h

theorem run_go (h : stops i (step s i).1 = false) :
    run step stops s (i :: l) =
      { run step stops (step s i).2 l with
        outputs := (step s i).1 :: (run step stops (step s i).2 l).outputs } :=
  if_neg (by rw [h]; decide)

/-- A run that was not stopped goes on with the inputs that follow. -/
theorem run_append (h : (run step stops s l).stopped = false) :
    run step stops s (l ++ k) =
      { run step stops (run step stops s l).state k with
        outputs := (run step stops s l).outputs ++
          (run step stops (run step stops s l).state k).outputs } := by
  induction l generalizing s with
  | nil => rfl
  | cons i l ih =>
    cases hstop : stops i (step s i).1 with
    | true =>
      rw [run_stop hstop] at h
      contradiction
    | false =>
      rw [run_go hstop] at h
      rw [List.cons_append, run_go hstop, run_go hstop, ih h]
      rfl

/-- One step keeps `R`, or stops both machines in `Q`. -/
structure Simulates (step : σ → ι → ρ × σ) (step' : τ → ι → ρ × τ) (stops : ι → ρ → Bool)
    (ok : ι → Prop) (R Q : σ → τ → Prop) : Prop where
  output : ∀ {s t i}, ok i → R s t → (step s i).1 = (step' t i).1
  go : ∀ {s t i}, ok i → R s t → stops i (step s i).1 = false → R (step s i).2 (step' t i).2
  stop : ∀ {s t i}, ok i → R s t → stops i (step s i).1 = true → Q (step s i).2 (step' t i).2

theorem Simulates.run (hsim : Simulates step step' stops ok R Q) (hl : ∀ i ∈ l, ok i)
    (h : R s t) :
    (run step stops s l).outputs = (run step' stops t l).outputs ∧
      (run step stops s l).stopped = (run step' stops t l).stopped ∧
      ((run step stops s l).stopped = false →
        R (run step stops s l).state (run step' stops t l).state) ∧
      ((run step stops s l).stopped = true →
        Q (run step stops s l).state (run step' stops t l).state) := by
  induction l generalizing s t with
  | nil => exact ⟨rfl, rfl, fun _ => h, (nomatch ·)⟩
  | cons i l ih =>
    have hi := hl i (by simp)
    have hout := hsim.output hi h
    cases hstop : stops i (step s i).1 with
    | true =>
      rw [run_stop hstop, run_stop (hout ▸ hstop), hout]
      exact ⟨rfl, rfl, (nomatch ·), fun _ => hsim.stop hi h hstop⟩
    | false =>
      obtain ⟨houts, hrest⟩ := ih (fun j hj => hl j (by simp [hj])) (hsim.go hi h hstop)
      rw [run_go hstop, run_go (hout ▸ hstop), hout]
      exact ⟨congrArg (_ :: ·) houts, hrest⟩

end Transducer
