import Mathlib.Data.List.Induction

/-!
# Objects driven by calls

A call on an object returns a result and the next state. A run keeps the log of
its calls with their results, so a specification can be stated over the log
alone. A relation between log and state that every call extends holds after
every run.
-/

namespace Leelo.Core

variable {σ κ ρ : Type}

/-- Run a list of calls and keep each one with its result. -/
def runCalls (call : κ → σ → ρ × σ) (init : σ) (calls : List κ) : List (κ × ρ) × σ :=
  calls.foldl (fun run c => (run.1 ++ [(c, (call c run.2).1)], (call c run.2).2)) ([], init)

theorem runCalls_concat (call : κ → σ → ρ × σ) (init : σ) (calls : List κ) (c : κ) :
    runCalls call init (calls ++ [c]) =
      ((runCalls call init calls).1 ++ [(c, (call c (runCalls call init calls).2).1)],
        (call c (runCalls call init calls).2).2) := by
  rw [runCalls, List.foldl_append]
  rfl

/-- A relation of log and state that holds initially and is extended by every
call holds after every run. -/
theorem runCalls_induction {call : κ → σ → ρ × σ} {init : σ} {P : List (κ × ρ) → σ → Prop}
    (hinit : P [] init)
    (hcall : ∀ log s c, P log s → P (log ++ [(c, (call c s).1)]) (call c s).2)
    (calls : List κ) : P (runCalls call init calls).1 (runCalls call init calls).2 := by
  induction calls using List.reverseRecOn with
  | nil => exact hinit
  | append_singleton calls c ih =>
    rw [runCalls_concat]
    exact hcall _ _ c ih

end Leelo.Core
