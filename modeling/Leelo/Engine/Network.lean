import Leelo.Core.Effect
import Leelo.Engine.Providers

/-!
# The concurrent network loop

At most four evaluations are pending. Each wait polls some of them and ends with one
completion, any of those pending, or with the deadline. A completion is recorded,
the threshold is decided again, and the next leaf in descriptor order is queued. The
environment chooses every wait, so a run of the loop is a function of its wakes.
-/

namespace Leelo.Engine

open Leelo.Core Leelo.Crypto Leelo.Envelope Leelo.Policy
open Leelo.Sss (Secret)

/-- One slot for each node of the largest policy. -/
def maxProviderObservations : Nat := maxNodes

/-- What became of a provider. -/
inductive ProviderOutcome where
  | notStarted
  | authenticated
  | failed (kind : NetworkFailure)
  | canceledQuorum
  | canceledDeadline
  | canceledOperation
  deriving DecidableEq

/-- A provider and its outcome. -/
structure ProviderObservation where
  providerId : ProviderId
  outcome : ProviderOutcome
  deriving DecidableEq

/-- What an operation shows of its providers. Stages and durations, which the engine
writes and never reads, are left out. -/
structure OperationReport where
  providers : List ProviderObservation

namespace OperationReport

/-- The report before anything starts. -/
def configure (networks : List NetworkBinding) : OperationReport where
  providers := (networks.take maxProviderObservations).map fun binding =>
    ⟨binding.providerId, .notStarted⟩

/-- Record an outcome; an index without an entry is ignored. -/
def provider (report : OperationReport) (index : Nat) (outcome : ProviderOutcome) :
    OperationReport where
  providers := report.providers.modify index fun entry => { entry with outcome }

/-- The provider's entry is still open. -/
def pending (report : OperationReport) (index : Nat) : Bool :=
  match report.providers[index]? with
  | some entry => entry.outcome == .notStarted
  | none => false

end OperationReport

/-- Mark every started entry that has no outcome yet. -/
def cancelObservations (report : OperationReport) (starts : List Nat)
    (outcome : ProviderOutcome) : OperationReport :=
  (List.range maxProviderObservations).foldl
    (fun report index =>
      if report.pending index && starts.contains index then report.provider index outcome
      else report)
    report

/-- The outside calls of an operation, in the order in which they finish. -/
inductive Call where
  | completed (nodeId : UInt8) (authenticated : Bool)
  | unseal
  deriving DecidableEq, Repr

/-- What the caller of an operation can see besides its result. -/
structure World where
  report : OperationReport
  calls : List Call

/-- How one wait ends. The pick is read modulo the number of pending evaluations, and
`polled` names the indices of those that the executor polled meanwhile. -/
inductive Wake where
  | completed (pick : Nat) (polled : List Nat)
  | expired (polled : List Nat)

/-- The share of the network threshold with what was observed on the way. -/
structure NetworkRecovery where
  share : Secret
  failures : List ProviderFailure
  available : List UInt8

/-- The state of the recovery loop. -/
structure LoopState where
  remaining : List (NetworkBinding × Nat)
  pending : List (NetworkBinding × Nat)
  /-- The indices whose evaluation was polled at least once. -/
  starts : List Nat
  recovered : List NetworkShare
  available : List UInt8
  failures : List ProviderFailure
  world : World

/-- What a completion shows in the report. -/
def outcomeOf : Except NetworkFailure Secret → ProviderOutcome
  | .ok _ => .authenticated
  | .error kind => .failed kind

/-- The share that a completion adds, if it succeeded. -/
def recoveredOf (binding : NetworkBinding) : Except NetworkFailure Secret → List NetworkShare
  | .ok share => [(binding.nodeId, share)]
  | .error _ => []

/-- The failure that a completion adds, if it failed. -/
def failuresOf (binding : NetworkBinding) : Except NetworkFailure Secret → List ProviderFailure
  | .ok _ => []
  | .error kind => [⟨binding.providerId, kind⟩]

/-- One round either goes on or returns. -/
inductive Round where
  | again (state : LoopState)
  | done (result : Exec EngineError NetworkRecovery) (world : World)

namespace LoopState

/-- The first four leaves are queued before the first wait. -/
def start (networks : List NetworkBinding) (world : World) : LoopState where
  remaining := networks.zipIdx.drop maxNetworkOperations
  pending := networks.zipIdx.take maxNetworkOperations
  starts := []
  recovered := []
  available := []
  failures := []
  world := world

/-- Notes the evaluations that were polled. -/
def poll (s : LoopState) (polled : List Nat) : LoopState :=
  { s with starts := s.starts ++ (s.pending.map Prod.snd).filter polled.contains }

/-- Closes the open entries with an outcome. -/
def cancel (s : LoopState) (outcome : ProviderOutcome) : World :=
  { s.world with report := cancelObservations s.world.report s.starts outcome }

@[simp] theorem calls_cancel (s : LoopState) (outcome : ProviderOutcome) :
    (s.cancel outcome).calls = s.world.calls := by
  simp only [cancel]

/-- The deadline fails every queued leaf that has no result. -/
def expire (s : LoopState) (networks : List NetworkBinding) : List ProviderFailure :=
  (networks.take (networks.length - s.remaining.length)).foldl
    (fun failures binding =>
      if !s.available.contains binding.nodeId &&
          !failures.any (·.providerId == binding.providerId) then
        failures ++ [⟨binding.providerId, .timeout⟩]
      else failures)
    s.failures

/-- Observe one completed evaluation. -/
def complete (s : LoopState) (networks : List NetworkBinding) (pick : Nat)
    (binding : NetworkBinding) (index : Nat) (result : Except NetworkFailure Secret) :
    LoopState where
  remaining := s.remaining
  pending := s.pending.eraseIdx pick
  starts := s.starts ++ [index]
  recovered := s.recovered ++ recoveredOf binding result
  available := s.available ++ (recoveredOf binding result).map Prod.fst
  failures := s.failures ++ failuresOf binding result
  world := ⟨
    match networks.findIdx? (·.nodeId == binding.nodeId) with
    | some index => s.world.report.provider index (outcomeOf result)
    | none => s.world.report,
    s.world.calls ++ [.completed binding.nodeId result.isOk]⟩

/-- Queue the next leaf, if one remains. -/
def topUp (s : LoopState) : LoopState :=
  match s.remaining with
  | [] => s
  | next :: remaining => { s with remaining, pending := s.pending ++ [next] }

/-- Decide the threshold after a completion. -/
def decideRound (s : LoopState) (policy : ProductionPolicy) : Round :=
  match policy.networkSatisfied s.available with
  | .error error => .done (.error (.error (policyError error))) (s.cancel .canceledOperation)
  | .ok true =>
    .done ((Exec.mapError policyError (policy.recoverNetwork s.recovered)).map
      fun share => ⟨share, s.failures, s.available⟩) (s.cancel .canceledQuorum)
  | .ok false => .again s.topUp

/-- One round of the loop, for the results that the leaves give. -/
def round (d : Descriptor) (leaf : NetworkBinding → Except NetworkFailure Secret)
    (wake : Wake) (s : LoopState) : Round :=
  match wake with
  | .expired polled =>
    let s := s.poll polled
    .done (.error (.error (.deadlineExceeded (s.expire d.networks)))) (s.cancel .canceledDeadline)
  | .completed pick polled =>
    let s := s.poll polled
    let pick := pick % s.pending.length
    match s.pending[pick]? with
    | none => .done (.error (.error (.insufficientFactors s.failures))) s.world
    | some (binding, index) =>
      (s.complete d.networks pick binding index (leaf binding)).decideRound d.policy

/-- The leaves that have no result yet. -/
def outstanding (s : LoopState) : Nat := s.pending.length + s.remaining.length

variable {s : LoopState} {d : Descriptor} {leaf : NetworkBinding → Except NetworkFailure Secret}
  {wake : Wake} {s' : LoopState}

theorem outstanding_complete {pick : Nat} (h : pick < s.pending.length)
    (networks : List NetworkBinding) (binding : NetworkBinding) (index : Nat)
    (result : Except NetworkFailure Secret) :
    (s.complete networks pick binding index result).outstanding + 1 = s.outstanding := by
  have hlength := List.length_eraseIdx_of_lt h
  simp only [complete, outstanding, hlength]
  omega

theorem topUp_nil (h : s.remaining = []) : s.topUp = s := by
  simp only [topUp, h]

theorem topUp_cons {next : NetworkBinding × Nat} {remaining : List (NetworkBinding × Nat)}
    (h : s.remaining = next :: remaining) :
    s.topUp = { s with remaining, pending := s.pending ++ [next] } := by
  simp only [topUp, h]

theorem outstanding_topUp (s : LoopState) : s.topUp.outstanding = s.outstanding := by
  cases h : s.remaining with
  | nil => rw [topUp_nil h]
  | cons next remaining =>
    rw [topUp_cons h]
    simp only [outstanding, h, List.length_append, List.length_cons, List.length_nil]
    omega

/-- A round goes on exactly when it completed a leaf and the threshold still fails. -/
theorem round_eq_again (h : s.round d leaf wake = .again s') :
    ∃ polled pick binding index, s.pending[pick]? = some (binding, index) ∧
      d.policy.networkSatisfied ((s.poll polled).complete d.networks pick binding index
        (leaf binding)).available = .ok false ∧
      s' = ((s.poll polled).complete d.networks pick binding index (leaf binding)).topUp := by
  unfold round at h
  cases wake with
  | expired polled => cases h
  | completed pick polled =>
    dsimp only at h
    split at h
    · cases h
    · rename_i binding index hpick
      unfold decideRound at h
      split at h
      · cases h
      · cases h
      · rename_i hfalse
        cases h
        exact ⟨polled, _, binding, index, hpick, hfalse, rfl⟩

/-- A round that goes on has taken one result. -/
theorem outstanding_round (h : s.round d leaf wake = .again s') :
    s'.outstanding < s.outstanding := by
  obtain ⟨polled, pick, binding, index, hpick, -, rfl⟩ := round_eq_again h
  have hlt : pick < (s.poll polled).pending.length := (List.getElem?_eq_some_iff.mp hpick).1
  have hcomplete := outstanding_complete hlt d.networks binding index (leaf binding)
  have hpoll : (s.poll polled).outstanding = s.outstanding := rfl
  rw [outstanding_topUp]
  omega

/-- The leaves that have no result yet, pending or not. -/
def unanswered (s : LoopState) : List (NetworkBinding × Nat) := s.pending ++ s.remaining

/-- Queueing a leaf changes where it waits, not what waits. -/
theorem unanswered_topUp (s : LoopState) : s.topUp.unanswered = s.unanswered := by
  cases h : s.remaining with
  | nil => rw [topUp_nil h]
  | cons next remaining =>
    rw [topUp_cons h]
    simp only [unanswered, h, List.append_assoc, List.singleton_append]

/-- A round that goes on leaves no leaf waiting that was not waiting before. -/
theorem unanswered_round (h : s.round d leaf wake = .again s') :
    s'.unanswered ⊆ s.unanswered := by
  obtain ⟨polled, pick, binding, index, -, -, rfl⟩ := round_eq_again h
  rw [unanswered_topUp]
  exact List.append_subset.mpr
    ⟨fun entry hentry =>
        List.mem_append_left _ ((List.eraseIdx_sublist s.pending pick).subset hentry),
      List.subset_append_right _ _⟩

/-- A round asks only the leaves that are pending. -/
theorem round_congr {leaf' : NetworkBinding → Except NetworkFailure Secret}
    (h : ∀ entry ∈ s.unanswered, leaf entry.1 = leaf' entry.1) (wake : Wake) :
    s.round d leaf wake = s.round d leaf' wake := by
  cases wake with
  | expired polled => rfl
  | completed pick polled =>
    unfold round
    dsimp only
    cases hpick : (s.poll polled).pending[pick % (s.poll polled).pending.length]? with
    | none => rfl
    | some entry =>
      have hmem : entry ∈ s.pending := List.mem_of_getElem? hpick
      dsimp only
      rw [h entry (List.mem_append_left _ hmem)]

end LoopState

/-- Wait until nothing is pending or a round returns. -/
def recoverLoop (d : Descriptor) (leaf : NetworkBinding → Except NetworkFailure Secret)
    (wakes : Nat → Wake) (turn : Nat) (s : LoopState) : Exec EngineError NetworkRecovery × World :=
  if s.pending = [] then (.error (.error (.insufficientFactors s.failures)), s.world)
  else
    match h : s.round d leaf (wakes turn) with
    | .done result world => (result, world)
    | .again s' => recoverLoop d leaf wakes (turn + 1) s'
termination_by s.outstanding
decreasing_by exact LoopState.outstanding_round h

/-- Recovers the network's shares, from the first bindings on. -/
def recoverNetworkObserved (d : Descriptor)
    (leaf : NetworkBinding → Except NetworkFailure Secret) (wakes : Nat → Wake) :
    Effect World (Halt EngineError) NetworkRecovery :=
  fun world => recoverLoop d leaf wakes 0 (LoopState.start d.networks world)

/-- The loop asks only the leaves of its state. -/
theorem recoverLoop_congr {d : Descriptor}
    {leaf leaf' : NetworkBinding → Except NetworkFailure Secret} (wakes : Nat → Wake) :
    ∀ (turn : Nat) (s : LoopState), (∀ entry ∈ s.unanswered, leaf entry.1 = leaf' entry.1) →
      recoverLoop d leaf wakes turn s = recoverLoop d leaf' wakes turn s := by
  intro turn s
  induction hn : s.outstanding using Nat.strongRecOn generalizing turn s with
  | ind n ih =>
    intro h
    have hround := LoopState.round_congr (d := d) h (wakes turn)
    unfold recoverLoop
    by_cases hpending : s.pending = []
    · rw [if_pos hpending, if_pos hpending]
    · rw [if_neg hpending, if_neg hpending]
      split
      · rename_i result world hdone
        rw [hround] at hdone
        split
        · rename_i hdone'
          rw [hdone] at hdone'
          cases hdone'
          rfl
        · rename_i hagain
          rw [hdone] at hagain
          cases hagain
      · rename_i s' hagain
        have hlt := LoopState.outstanding_round hagain
        have hwait := LoopState.unanswered_round hagain
        rw [hround] at hagain
        split
        · rename_i hdone
          rw [hagain] at hdone
          cases hdone
        · rename_i hagain'
          rw [hagain] at hagain'
          cases hagain'
          exact ih s'.outstanding (hn ▸ hlt) (turn + 1) s' rfl
            fun entry hentry => h entry (hwait hentry)

/-- The recovery asks only the leaves of its descriptor. -/
theorem recoverNetworkObserved_congr {d : Descriptor}
    {leaf leaf' : NetworkBinding → Except NetworkFailure Secret}
    (h : ∀ binding ∈ d.networks, leaf binding = leaf' binding) (wakes : Nat → Wake) :
    recoverNetworkObserved d leaf wakes = recoverNetworkObserved d leaf' wakes := by
  funext world
  refine recoverLoop_congr wakes 0 _ fun entry hentry => h entry.1 ?_
  rw [LoopState.unanswered, LoopState.start, List.take_append_drop] at hentry
  have hfirst := List.mem_map_of_mem (f := Prod.fst) hentry
  rwa [List.zipIdx_map_fst] at hfirst

end Leelo.Engine
