import Leelo.Crypto.Primitives

/-!
# The release gate

The gate is bound to one context and passes through four phases in order: network,
TPM, payload, release. Evidence of another context, out of order, or without the live
authorization that the mode requires leaves it unchanged.
-/

namespace Leelo.Engine

/-- The gate: the context it is bound to and how far it has opened. -/
structure ReleaseState where
  context : Vector UInt8 48
  phase : UInt8
  requireLive : Bool
  deriving DecidableEq

namespace ReleaseState

/-- A gate that is shut. -/
def new (context : Vector UInt8 48) (requireLive : Bool) : ReleaseState := ⟨context, 0, requireLive⟩

/-- The evidence must agree with every byte of the context. -/
def matchesContext (state : ReleaseState) (context : Vector UInt8 48) : Bool :=
  (List.finRange 48).all fun i => state.context.get i == context.get i

/-- Opens the gate one phase further, in order and for its own context. -/
def advance (state : ReleaseState) (context : Vector UInt8 48) (expected : UInt8) (live : Bool) :
    Bool × ReleaseState :=
  if !state.matchesContext context || state.phase ≠ expected ||
      (expected == 1 && state.requireLive && !live) then
    (false, state)
  else (true, { state with phase := expected + 1 })

/-- The network's share is in. -/
def network (state : ReleaseState) (context : Vector UInt8 48) : Bool × ReleaseState :=
  state.advance context 0 false

/-- The module's share is in. -/
def tpm (state : ReleaseState) (context : Vector UInt8 48) (live : Bool) : Bool × ReleaseState :=
  state.advance context 1 live

/-- The payload is authenticated. -/
def payload (state : ReleaseState) (context : Vector UInt8 48) : Bool × ReleaseState :=
  state.advance context 2 false

/-- The last step also needs the deadline not to have passed. -/
def release (state : ReleaseState) (context : Vector UInt8 48) (withinDeadline : Bool) :
    Bool × ReleaseState :=
  if !withinDeadline then (false, state) else state.advance context 3 false

theorem release_within {state : ReleaseState} {context : Vector UInt8 48} {withinDeadline : Bool}
    (h : (state.release context withinDeadline).1 = true) : withinDeadline = true := by
  cases withinDeadline with
  | true => rfl
  | false => cases h

/-- The gate is bound to one context. -/
theorem matchesContext_iff {state : ReleaseState} {context : Vector UInt8 48} :
    state.matchesContext context = true ↔ state.context = context := by
  simp only [matchesContext, List.all_eq_true, List.mem_finRange, beq_iff_eq, forall_const]
  constructor
  · intro h
    apply Vector.ext
    exact fun i hi => h ⟨i, hi⟩
  · rintro rfl i
    rfl

/-- The gate advances exactly on its own context, in its own phase, and with the live
authorization where the TPM phase needs one. -/
theorem advance_eq (state : ReleaseState) (context : Vector UInt8 48) (expected : UInt8)
    (live : Bool) :
    state.advance context expected live =
      if state.context = context ∧ state.phase = expected ∧
          (expected = 1 → state.requireLive = true → live = true) then
        (true, { state with phase := expected + 1 })
      else (false, state) := by
  have hrefused : (!state.matchesContext context || decide (state.phase ≠ expected) ||
      (expected == 1 && state.requireLive && !live)) = true ↔
      ¬(state.context = context ∧ state.phase = expected ∧
        (expected = 1 → state.requireLive = true → live = true)) := by
    rw [← matchesContext_iff]
    simp only [Bool.or_eq_true, Bool.and_eq_true, Bool.not_eq_true', decide_eq_true_eq,
      beq_iff_eq, ← Bool.not_eq_true]
    tauto
  unfold advance
  by_cases h : state.context = context ∧ state.phase = expected ∧
      (expected = 1 → state.requireLive = true → live = true)
  · rw [if_pos h, if_neg (fun hcond => hrefused.mp hcond h)]
  · rw [if_neg h, if_pos (hrefused.mpr h)]

end ReleaseState

end Leelo.Engine
