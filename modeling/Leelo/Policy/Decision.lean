import Mathlib.Data.List.Basic

/-!
# Executable gate decisions and the release flags

The decision functions evaluate a postorder list of gates, record each response
once, and permit one release. They know nothing of the source tree: an edge to a
missing gate makes its threshold fail.
-/

namespace Leelo.Policy

/-- One gate of a compiled plan. -/
inductive Gate where
  | leaf (responseIndex : Nat)
  | threshold (required : Nat) (children : List Nat)
  deriving DecidableEq, Repr

/-- The gates a gate reads. -/
def Gate.children : Gate → List Nat
  | .leaf _ => []
  | .threshold _ children => children

/-- One round of the child loop: count a success or mark the edge invalid. -/
def countChild (values : List Bool) : Nat × Bool → Nat → Nat × Bool
  | (successes, valid), child =>
    if h : child < values.length then
      if values[child] then (successes + 1, valid) else (successes, valid)
    else (successes, false)

/-- Evaluate one gate from previous gate results. -/
def evaluateGate (gate : Gate) (values responses : List Bool) : Bool :=
  match gate with
  | .leaf responseIndex =>
    if h : responseIndex < responses.length then responses[responseIndex] else false
  | .threshold required children =>
    if required = 0 ∨ required > children.length then false
    else
      let (successes, valid) := children.foldl (countChild values) (0, true)
      valid && decide (successes ≥ required)

/-- The gate loop appends one result for each gate. -/
def evaluateGates (responses : List Bool) (values : List Bool) (gates : List Gate) : List Bool :=
  gates.foldl (fun values gate => values ++ [evaluateGate gate values responses]) values

/-- The value of the last gate; an empty plan is never satisfied. -/
def evaluateNetwork (gates : List Gate) (responses : List Bool) : Bool :=
  match (evaluateGates responses [] gates).getLast? with
  | none => false
  | some value => value

/-- Record a response at most once and leave the vector unchanged otherwise. -/
def recordResponse (responses : List Bool) (index : Nat) : Bool × List Bool :=
  if h : index < responses.length then
    if responses[index] then (false, responses) else (true, responses.set index true)
  else (false, responses)

/-- The observation flags that guard a release. -/
structure ReleaseState where
  envelopeAuthenticated : Bool
  tpmAuthenticated : Bool
  networkSatisfied : Bool
  liveAuthorized : Bool
  rootAuthenticated : Bool
  released : Bool
  deriving DecidableEq, Repr

/-- Every mandatory observation is present and nothing was released yet. -/
def canRelease (state : ReleaseState) (requireLive : Bool) : Bool :=
  state.envelopeAuthenticated && state.tpmAuthenticated && state.networkSatisfied &&
    (!requireLive || state.liveAuthorized) && state.rootAuthenticated && !state.released

/-- Release once; a refused attempt changes nothing. -/
def tryRelease (state : ReleaseState) (requireLive : Bool) : Bool × ReleaseState :=
  if canRelease state requireLive then (true, { state with released := true })
  else (false, state)

theorem evaluateGates_append (responses values : List Bool) (gates gates' : List Gate) :
    evaluateGates responses values (gates ++ gates') =
      evaluateGates responses (evaluateGates responses values gates) gates' := by
  rw [evaluateGates, List.foldl_append]
  rfl

/-- One gate adds one value. -/
theorem evaluateGates_singleton (responses values : List Bool) (gate : Gate) :
    evaluateGates responses values [gate] = values ++ [evaluateGate gate values responses] := rfl

/-- A fresh response is recorded exactly when its index is in range and unset. -/
theorem recordResponse_eq (responses : List Bool) (index : Nat) :
    recordResponse responses index =
      if responses[index]? = some false then (true, responses.set index true)
      else (false, responses) := by
  unfold recordResponse
  by_cases h : index < responses.length
  · rw [dif_pos h, List.getElem?_eq_getElem h]
    cases responses[index] <;> simp
  · rw [dif_neg h, List.getElem?_eq_none (Nat.le_of_not_lt h)]
    simp

end Leelo.Policy
