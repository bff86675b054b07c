import Mathlib.Logic.Basic

/-!
# Results of fallible calls

A call returns a value or an error. Calls that index into data or recurse on
data they do not own can also abort, which no caller can handle. Inversion of
sequencing is stated once so that later proofs never unfold a bind.
-/

namespace Leelo.Core

/-- Why a call produced no value: a returned error, or an abort. -/
inductive Halt (ε : Type) where
  | error (e : ε)
  | abort
  deriving DecidableEq, Repr

/-- A call that may return an error or abort. -/
abbrev Exec (ε α : Type) := Except (Halt ε) α

/-- Run a call that cannot abort inside one that can. -/
def Exec.lift {ε ε' α : Type} (f : ε → ε') : Except ε α → Exec ε' α
  | .ok a => .ok a
  | .error e => .error (.error (f e))

variable {ε' : Type}

@[simp] theorem Exec.lift_ok {ε α : Type} (f : ε → ε') (a : α) :
    Exec.lift f (.ok a : Except ε α) = .ok a := rfl

@[simp] theorem Exec.lift_error {ε α : Type} (f : ε → ε') (e : ε) :
    Exec.lift f (.error e : Except ε α) = .error (.error (f e)) := rfl

theorem lift_eq_ok {ε α : Type} {f : ε → ε'} {x : Except ε α} {a : α} :
    Exec.lift f x = .ok a ↔ x = .ok a := by
  cases x with
  | error e => simp
  | ok b => simp

/-- Lifting keeps the errors. -/
theorem lift_id_eq_error {ε α : Type} {x : Except ε α} {e : ε} :
    Exec.lift id x = .error (.error e) ↔ x = .error e := by
  cases x with
  | error e' => simp
  | ok b => simp

/-- Lifting follows sequencing. -/
theorem Exec.lift_bind {ε α β : Type} (f : ε → ε') (x : Except ε α) (k : α → Except ε β) :
    Exec.lift f (x >>= k) = Exec.lift f x >>= fun a => Exec.lift f (k a) := by
  cases x <;> rfl

/-- Translate the returned error and keep an abort. -/
def Exec.mapError {ε ε' α : Type} (f : ε → ε') : Exec ε α → Exec ε' α
  | .ok a => .ok a
  | .error (.error e) => .error (.error (f e))
  | .error .abort => .error .abort

theorem Exec.mapError_eq_ok {ε α : Type} {f : ε → ε'} {x : Exec ε α} {a : α} :
    Exec.mapError f x = .ok a ↔ x = .ok a := by
  cases x with
  | ok b => simp [Exec.mapError]
  | error halt => cases halt <;> simp [Exec.mapError]

section Except

variable {ε α β : Type}

@[simp] theorem ok_bind (a : α) (f : α → Except ε β) : (Except.ok a >>= f) = f a := rfl

@[simp] theorem error_bind (e : ε) (f : α → Except ε β) :
    (Except.error e >>= f) = .error e := rfl

variable {x : Except ε α}

/-- A sequence succeeds exactly when both of its parts do. -/
theorem bind_eq_ok {f : α → Except ε β} {b : β} :
    (x >>= f) = .ok b ↔ ∃ a, x = .ok a ∧ f a = .ok b := by
  cases x with
  | error e => simp
  | ok a => simp

/-- Translating errors keeps every success. -/
theorem mapError_eq_ok {ε' : Type} {f : ε → ε'} {a : α} :
    x.mapError f = .ok a ↔ x = .ok a := by
  constructor
  · intro h
    cases x with
    | error e => cases h
    | ok b => cases h; rfl
  · rintro rfl
    rfl

/-- Translating every error to one leaves only that one. -/
theorem eq_of_mapError_const {ε' : Type} {e e' : ε'} (h : (x.mapError fun _ => e) = .error e') :
    e' = e := by
  cases x with
  | ok a => cases h
  | error _ => exact (Except.error.inj h).symm

/-- A sequence fails exactly when its first part fails or its second part does. -/
theorem bind_eq_error {f : α → Except ε β} {e : ε} :
    (x >>= f) = .error e ↔ x = .error e ∨ ∃ a, x = .ok a ∧ f a = .error e := by
  cases x with
  | error e' => simp
  | ok a => simp

theorem isOk_eq_true_iff : x.isOk = true ↔ ∃ a, x = .ok a := by
  cases x with
  | error e => simp [Except.isOk, Except.toBool]
  | ok a => simp [Except.isOk, Except.toBool]

theorem isOk_eq_false_iff : x.isOk = false ↔ ∃ e, x = .error e := by
  cases x with
  | error e => simp [Except.isOk, Except.toBool]
  | ok a => simp [Except.isOk, Except.toBool]

/-- A guarded call succeeds exactly when its guard does not fire. -/
theorem guard_eq_ok {p : Prop} [Decidable p] {e : ε} {a : α} :
    (if p then .error e else x) = .ok a ↔ ¬ p ∧ x = .ok a := by
  split <;> simp_all

end Except

/-- An optional computation goes on after a check exactly when the check holds. -/
theorem guard_bind_eq_some {α : Type} {p : Prop} [Decidable p] {f : Unit → Option α} {a : α} :
    (guard p >>= f) = some a ↔ p ∧ f () = some a := by
  by_cases h : p
  · have hpass : (guard p : Option Unit) = some () := if_pos h
    rw [hpass]
    exact (and_iff_right h).symm
  · have hfail : (guard p : Option Unit) = none := if_neg h
    rw [hfail]
    constructor
    · intro hnone
      cases hnone
    · rintro ⟨hp, -⟩
      exact absurd hp h

end Leelo.Core
