import Mathlib.Tactic.Common

/-!
# Programs that log what they do

A program of `Logged ε α` may fail, and adds events to a log. `Yields ok m v` says
that `m` ends with `v` and that every event it adds is `ok`.
-/

abbrev Logged (ε α : Type) := StateT (List ε) Option α

namespace Logged

variable {ε α β : Type}

/-- One event. -/
def emit (e : ε) : Logged ε Unit := modify (e :: ·)

def Yields (ok : ε → Prop) (m : Logged ε α) (v : α) : Prop :=
  ∀ log, ∃ es, m.run log = some (v, es ++ log) ∧ ∀ e ∈ es, ok e

theorem Yields.pure (ok : ε → Prop) (v : α) : Yields ok (pure v) v :=
  fun _ => ⟨[], rfl, nofun⟩

theorem Yields.emit {ok : ε → Prop} {e : ε} (h : ok e) : Yields ok (emit e) () :=
  fun _ => ⟨[e], rfl, fun _ he => List.mem_singleton.mp he ▸ h⟩

theorem Yields.bind {ok : ε → Prop} {m : Logged ε α} {f : α → Logged ε β} {v : α} {w : β}
    (hm : Yields ok m v) (hf : Yields ok (f v) w) : Yields ok (m >>= f) w := by
  intro log
  obtain ⟨es, hrun, hes⟩ := hm log
  obtain ⟨es', hrun', hes'⟩ := hf (es ++ log)
  refine ⟨es' ++ es, ?_, fun e he => ?_⟩
  · rw [StateT.run_bind, hrun]
    exact hrun'.trans (by rw [List.append_assoc])
  · rcases List.mem_append.mp he with he | he
    · exact hes' e he
    · exact hes e he

theorem Yields.congr {ok : ε → Prop} {m : Logged ε α} {v w : α} (h : Yields ok m v) (hv : v = w) :
    Yields ok m w := hv ▸ h

end Logged
