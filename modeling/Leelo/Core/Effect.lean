import Leelo.Core.Exec

/-!
# Calls that keep their state when they fail

A call on shared state returns its result together with the state it leaves, also
when it fails, so what happened before an error stays visible. The rules below
run a sequence forwards and invert a successful one, and a relation that every part
keeps is kept by the whole.
-/

namespace Leelo.Core

/-- A fallible call on a state that survives its errors. -/
def Effect (σ ε α : Type) := σ → Except ε α × σ

namespace Effect

variable {σ ε α β : Type}

instance monadEffect : Monad (Effect σ ε) where
  pure a := fun s => (.ok a, s)
  bind x f := fun s =>
    match x s with
    | (.ok a, s) => f a s
    | (.error e, s) => (.error e, s)

/-- A result that does not touch the state. -/
def ofExcept (result : Except ε α) : Effect σ ε α := fun s => (result, s)

/-- Change the state and succeed. -/
def update (f : σ → σ) : Effect σ ε Unit := fun s => (.ok (), f s)

@[simp] theorem ofExcept_apply (result : Except ε α) (s : σ) :
    (ofExcept result : Effect σ ε α) s = (result, s) := rfl

@[simp] theorem update_apply (f : σ → σ) (s : σ) :
    (update f : Effect σ ε Unit) s = (.ok (), f s) := rfl

variable {x : Effect σ ε α} {s : σ} {f : α → Effect σ ε β} {s' : σ}

theorem exists_ok (h : (x s).1.isOk = true) :
    ∃ a s', x s = (.ok a, s') := by
  obtain ⟨a, ha⟩ := isOk_eq_true_iff.mp h
  exact ⟨a, (x s).2, Prod.ext ha rfl⟩

theorem bind_ok {a : α} (h : x s = (.ok a, s')) : (x >>= f) s = f a s' := by
  change (match x s with
    | (.ok a, s) => f a s
    | (.error e, s) => (.error e, s)) = _
  rw [h]

theorem bind_error {e : ε} (h : x s = (.error e, s')) : (x >>= f) s = (.error e, s') := by
  change (match x s with
    | (.ok a, s) => f a s
    | (.error e, s) => (.error e, s)) = _
  rw [h]

/-- Sequencing is associative. -/
theorem bind_bind {γ : Type} (x : Effect σ ε α) (f : α → Effect σ ε β) (g : β → Effect σ ε γ) :
    x >>= f >>= g = x >>= fun a => f a >>= g := by
  funext s
  cases hx : x s with
  | mk result s1 =>
    cases result with
    | error e => rw [bind_error hx, bind_error (bind_error hx)]
    | ok a =>
      rw [bind_ok hx]
      cases hf : f a s1 with
      | mk result s2 =>
        cases result with
        | error e => rw [bind_error hf, bind_error ((bind_ok hx).trans hf)]
        | ok b => rw [bind_ok hf, bind_ok ((bind_ok hx).trans hf)]

/-- Two continuations that agree on what the first call can return run alike after it. -/
theorem bind_congr_of_ok {g : α → Effect σ ε β}
    (h : ∀ s a s', x s = (.ok a, s') → f a s' = g a s') : x >>= f = x >>= g := by
  funext s
  cases hx : x s with
  | mk result s1 =>
    cases result with
    | ok a => rw [bind_ok hx, bind_ok hx, h s a s1 hx]
    | error e => rw [bind_error hx, bind_error hx]

/-- A sequence succeeds exactly when both of its parts do, one after the other. -/
theorem bind_eq_ok {b : β} :
    (x >>= f) s = (.ok b, s') ↔ ∃ a s1, x s = (.ok a, s1) ∧ f a s1 = (.ok b, s') := by
  cases hx : x s with
  | mk result s1 =>
    cases result with
    | ok a =>
      rw [bind_ok hx]
      constructor
      · exact fun h => ⟨a, s1, rfl, h⟩
      · rintro ⟨a', s1', hsame, h⟩
        cases hsame
        exact h
    | error e =>
      rw [bind_error hx]
      constructor
      · intro h
        cases h
      · rintro ⟨a', s1', hsame, h⟩
        cases hsame

/-- A computed part of a sequence succeeds and leaves the state alone. -/
theorem ofExcept_bind_eq_ok {result : Except ε α} {b : β} :
    (ofExcept result >>= f) s = (.ok b, s') ↔ ∃ a, result = .ok a ∧ f a s = (.ok b, s') := by
  rw [bind_eq_ok]
  constructor
  · rintro ⟨a, s1, h, hf⟩
    rw [ofExcept_apply, Prod.mk.injEq] at h
    obtain ⟨ha, rfl⟩ := h
    exact ⟨a, ha, hf⟩
  · rintro ⟨a, rfl, hf⟩
    exact ⟨a, s, rfl, hf⟩

end Effect

end Leelo.Core
