import Leelo.Engine.Completion
import Leelo.Engine.Release
import Leelo.Policy.Session

/-!
# Unlocking

One operation authenticates the envelope and its target, recovers the network share,
unseals the TPM share, reconstructs the root and opens the payload. Two gates, the
policy session and the release state, follow it step by step.
-/

namespace Leelo.Engine

open Leelo.Core Leelo.Crypto Leelo.Envelope Leelo.Policy
open Leelo.Sss (Secret Rng Share)

/-- The behaviour of everything outside the engine during one operation. -/
structure Environment (ρ : Type) where
  /-- The successive readings of the monotonic clock. -/
  clock : Nat → Nat
  /-- An executor can be created. -/
  runtime : Bool
  rng : Rng ρ
  /-- The generator state when a leaf blinds its input. -/
  entropy : NetworkBinding → ρ
  net : NetworkProvider
  wakes : Nat → Wake
  tpm : TpmProvider

/-- The credential and the providers that failed. -/
structure UnlockResult where
  credential : Secret
  diagnostics : List ProviderFailure

/-- An outside step that cannot abort. -/
def attempt {α : Type} (result : Except EngineError α) : Effect World (Halt EngineError) α :=
  Effect.ofExcept (Exec.lift id result)

/-- Checks a condition. -/
def ensure (condition : Prop) [Decidable condition] (error : EngineError) :
    Except EngineError Unit :=
  if condition then .ok () else .error error

/-- The session after a method that succeeded. -/
def sessionStep : SessionResult × PolicySession → Except EngineError PolicySession
  | (.ok (), session) => .ok session
  | (.error error, _) => .error (policyError error)

/-- The gate after a step that it accepted. -/
def gateStep : Bool × ReleaseState → Except EngineError ReleaseState
  | (true, state) => .ok state
  | (false, _) => .error .policy

/-- Accept every available leaf in order. -/
def acceptAll (session : PolicySession) : List UInt8 → Except EngineError PolicySession
  | [] => .ok session
  | id :: ids => do
    let session ← sessionStep (session.acceptNetwork id)
    acceptAll session ids

/-- The module's share, bound to a context. -/
structure TpmEvidence where
  context : Vector UInt8 48
  share : Secret
  live : Bool

/-- The credential, bound to a context. -/
structure PayloadEvidence where
  context : Vector UInt8 48
  credential : Secret

section Operation

variable (cbor : Cbor) (P : Primitives) {ρ : Type}

/-- The first wrapped leaf belongs to the TPM. An envelope without one would abort. -/
def TpmEvidence.authenticate (unsealed : UnsealedSeed) (envelope : AuthenticatedEnvelope) :
    Exec EngineError TpmEvidence := do
  let d := envelope.body.descriptor
  let live := unsealed.authorization == .freshSessionAuthorization
  Exec.lift id (ensure (¬(d.policy.mode = .attested ∧ live = false)) .unsupportedMode)
  let context := leafContext envelope.context d.policy.tpmNodeId
  let key ← Exec.lift id (derive P unsealed.seed.toList context (ascii "leelo/v1/tpm-wrap"))
  match envelope.body.leaves with
  | [] => .error .abort
  | leaf :: _ => do
    let share ← Exec.lift id ((openKey P key leaf.value context).mapError fun _ => .crypto)
    return ⟨envelope.context, share, live⟩

/-- Opens the payload under the root. -/
def PayloadEvidence.authenticate (root : Secret) (envelope : AuthenticatedEnvelope) :
    Except EngineError PayloadEvidence := do
  let key ← derive P root.toList envelope.context.toList (ascii "leelo/v1/luks-slot")
  let credential ← (openKey P key envelope.body.payload envelope.context.toList).mapError
    fun _ => .crypto
  return ⟨envelope.context, credential⟩

/-- An operation that has authenticated its envelope. -/
structure UnlockOperation where
  envelope : AuthenticatedEnvelope
  deadline : Nat
  policy : PolicySession
  release : ReleaseState

/-- Authenticate the envelope and its target before any outside call. -/
def UnlockOperation.begin (env : Environment ρ) (raw : Bytes) (signer : Vector UInt8 32)
    (volume : Vector UInt8 16) (slot : UInt8) (deadline : Nat) :
    Effect World (Halt EngineError) UnlockOperation := do
  let envelope ← attempt ((authenticate cbor P raw signer).mapError .envelope)
  let d := envelope.body.descriptor
  Effect.update fun world => { world with report := .configure d.networks }
  attempt (ensure (d.volumeUuid = volume ∧ d.slot = slot) .targetMismatch)
  attempt (ensure (env.tpm.supportsMode d.policy.mode) .unsupportedMode)
  attempt (checkDeadline (env.clock 1) deadline)
  let policy ← attempt (sessionStep (PolicySession.new d.policy).authenticateEnvelope)
  return ⟨envelope, deadline, policy, .new envelope.context (d.policy.mode == .attested)⟩

/-- The result of each network leaf in this environment. -/
def leafResult (env : Environment ρ) (envelope : AuthenticatedEnvelope) (deadline : Nat)
    (binding : NetworkBinding) : Except NetworkFailure Secret :=
  recoverLeaf P env.rng envelope binding env.net deadline (env.entropy binding)

/-- Unlocks: the network, the module, the root, the payload, the release. -/
def UnlockOperation.run (env : Environment ρ) (op : UnlockOperation) :
    Effect World (Halt EngineError) UnlockResult := do
  let envelope := op.envelope
  attempt (ensure (env.runtime = true) .runtime)
  let network ← recoverNetworkObserved envelope.body.descriptor
    (leafResult P env envelope op.deadline) env.wakes
  let policy ← attempt (acceptAll op.policy network.available)
  let release ← attempt (gateStep (op.release.network envelope.context))
  attempt (checkDeadline (env.clock 2) op.deadline)
  Effect.update fun world => { world with calls := world.calls ++ [.unseal] }
  let unsealed ← attempt (env.tpm.unsealSeed envelope)
  attempt (checkDeadline (env.clock 3) op.deadline)
  let tpm ← Effect.ofExcept (TpmEvidence.authenticate P unsealed envelope)
  let policy ← attempt
    (if tpm.live then sessionStep policy.confirmLiveAuthorization else .ok policy)
  let policy ← attempt (sessionStep policy.confirmTpm)
  let release ← attempt (gateStep (release.tpm tpm.context tpm.live))
  let tpmShare ← attempt ((Share.fromParts 1 tpm.share).mapError fun _ => .sharing)
  let networkShare ← attempt ((Share.fromParts 2 network.share).mapError fun _ => .sharing)
  let root ← attempt ((Sss.reconstruct 2 [tpmShare, networkShare]).mapError fun _ => .sharing)
  let payload ← attempt (PayloadEvidence.authenticate P root envelope)
  let policy ← attempt (sessionStep policy.authenticateRoot)
  let release ← attempt (gateStep (release.payload payload.context))
  attempt (checkDeadline (env.clock 4) op.deadline)
  let _ ← attempt (sessionStep policy.release)
  if (release.release payload.context (decide (env.clock 5 < op.deadline))).1 then
    return ⟨payload.credential, network.failures⟩
  else do
    attempt (checkDeadline (env.clock 6) op.deadline)
    attempt (.error .policy)

/-- Start the clock and run one operation. -/
def unlockObserved (env : Environment ρ) (raw : Bytes) (trustedSigner : Vector UInt8 32)
    (expectedVolume : Vector UInt8 16) (expectedSlot : UInt8) :
    Effect World (Halt EngineError) UnlockResult := do
  Effect.update fun world => { world with report := ⟨[]⟩ }
  let op ← UnlockOperation.begin cbor P env raw trustedSigner expectedVolume expectedSlot
    (env.clock 0 + operationBudget)
  op.run P env

end Operation

section Steps

variable {α β : Type}

theorem attempt_bind_eq_ok {result : Except EngineError α}
    {f : α → Effect World (Halt EngineError) β} {b : β} {w w' : World} :
    (attempt result >>= f) w = (.ok b, w') ↔ ∃ a, result = .ok a ∧ f a w = (.ok b, w') := by
  rw [attempt, Effect.ofExcept_bind_eq_ok]
  cases result with
  | error e => simp
  | ok a => simp

theorem ensure_eq_ok {condition : Prop} [Decidable condition] {error : EngineError} :
    ensure condition error = .ok () ↔ condition := by
  unfold ensure
  by_cases h : condition
  · simp [h]
  · simp [h]

theorem checkDeadline_eq_ok {now deadline : Nat} :
    checkDeadline now deadline = .ok () ↔ now < deadline := by
  unfold checkDeadline
  by_cases h : now ≥ deadline
  · simp [h]
  · simp [h, Nat.not_le.mp h]

theorem gateStep_eq_ok {step : Bool × ReleaseState} {state : ReleaseState} :
    gateStep step = .ok state ↔ step = (true, state) := by
  obtain ⟨accepted, state'⟩ := step
  cases accepted with
  | true => simp [gateStep]
  | false => simp [gateStep]

end Steps

section Inversion

variable {cbor : Cbor} {P : Primitives} {ρ : Type} {env : Environment ρ}

/-- What the module's evidence rests on. -/
theorem TpmEvidence.authenticate_eq_ok {unsealed : UnsealedSeed}
    {envelope : AuthenticatedEnvelope} {evidence : TpmEvidence}
    (h : TpmEvidence.authenticate P unsealed envelope = .ok evidence) :
    ∃ leaf rest key, envelope.body.leaves = leaf :: rest ∧
      (envelope.body.descriptor.policy.mode = .attested →
        unsealed.authorization = .freshSessionAuthorization) ∧
      deriveSecretKey P unsealed.seed.toList (leafContext envelope.context
        envelope.body.descriptor.policy.tpmNodeId) (ascii "leelo/v1/tpm-wrap") = .ok key ∧
      openKey P key leaf.value (leafContext envelope.context
        envelope.body.descriptor.policy.tpmNodeId) = .ok evidence.share ∧
      evidence.context = envelope.context := by
  unfold TpmEvidence.authenticate at h
  simp only [bind_eq_ok, lift_eq_ok] at h
  obtain ⟨⟨⟩, hmode, key, hkey, h⟩ := h
  have hmode := ensure_eq_ok.mp hmode
  cases hleaves : envelope.body.leaves with
  | nil =>
    rw [hleaves] at h
    cases h
  | cons leaf rest =>
    rw [hleaves] at h
    simp only [bind_eq_ok, lift_eq_ok, mapError_eq_ok] at h
    obtain ⟨share, hshare, h⟩ := h
    cases h
    refine ⟨leaf, rest, key, rfl, fun hattested => ?_, mapError_eq_ok.mp hkey, hshare, rfl⟩
    by_contra hauthorization
    exact hmode ⟨hattested, beq_eq_false_iff_ne.mpr hauthorization⟩

/-- What the payload's evidence rests on. -/
theorem PayloadEvidence.authenticate_eq_ok {root : Secret} {envelope : AuthenticatedEnvelope}
    {evidence : PayloadEvidence} :
    PayloadEvidence.authenticate P root envelope = .ok evidence ↔
      ∃ key, deriveSecretKey P root.toList envelope.context.toList (ascii "leelo/v1/luks-slot") =
          .ok key ∧
        openKey P key envelope.body.payload envelope.context.toList = .ok evidence.credential ∧
        evidence.context = envelope.context := by
  unfold PayloadEvidence.authenticate derive
  simp only [bind_eq_ok, mapError_eq_ok]
  constructor
  · rintro ⟨key, hkey, credential, hcredential, h⟩
    cases h
    exact ⟨key, hkey, hcredential, rfl⟩
  · rintro ⟨key, hkey, hcredential, hcontext⟩
    refine ⟨key, hkey, evidence.credential, hcredential, ?_⟩
    rw [← hcontext]
    rfl

/-- What `begin` has checked when it returns an operation. -/
theorem UnlockOperation.begin_eq_ok {raw : Bytes} {signer : Vector UInt8 32}
    {volume : Vector UInt8 16} {slot : UInt8} {deadline : Nat} {op : UnlockOperation}
    {w w' : World} (h : UnlockOperation.begin cbor P env raw signer volume slot deadline w =
      (.ok op, w')) :
    authenticate cbor P raw signer = .ok op.envelope ∧
      (op.envelope.body.descriptor.volumeUuid = volume ∧
        op.envelope.body.descriptor.slot = slot) ∧
      env.tpm.supportsMode op.envelope.body.descriptor.policy.mode = true ∧
      env.clock 1 < deadline ∧ op.deadline = deadline ∧ w'.calls = w.calls := by
  unfold UnlockOperation.begin at h
  obtain ⟨envelope, henvelope, h⟩ := attempt_bind_eq_ok.mp h
  rw [Effect.bind_ok (Effect.update_apply _ _)] at h
  obtain ⟨⟨⟩, htarget, h⟩ := attempt_bind_eq_ok.mp h
  obtain ⟨⟨⟩, hmode, h⟩ := attempt_bind_eq_ok.mp h
  obtain ⟨⟨⟩, hclock, h⟩ := attempt_bind_eq_ok.mp h
  obtain ⟨policy, -, h⟩ := attempt_bind_eq_ok.mp h
  obtain ⟨hop, rfl⟩ := Prod.mk.inj h
  obtain rfl := Except.ok.inj hop
  exact ⟨mapError_eq_ok.mp henvelope, ensure_eq_ok.mp htarget, ensure_eq_ok.mp hmode,
    checkDeadline_eq_ok.mp hclock, rfl, rfl⟩

/-- The chain of checks behind a credential that `run` returns. -/
theorem UnlockOperation.run_eq_ok {op : UnlockOperation} {result : UnlockResult} {w w' : World}
    (h : op.run P env w = (.ok result, w')) :
    ∃ network w1 unsealed tpm root payload,
      recoverNetworkObserved op.envelope.body.descriptor
        (leafResult P env op.envelope op.deadline) env.wakes w = (.ok network, w1) ∧
      env.tpm.unsealSeed op.envelope = .ok unsealed ∧
      TpmEvidence.authenticate P unsealed op.envelope = .ok tpm ∧
      Sss.reconstruct 2 [⟨1, tpm.share, by decide⟩, ⟨2, network.share, by decide⟩] = .ok root ∧
      PayloadEvidence.authenticate P root op.envelope = .ok payload ∧
      result.credential = payload.credential ∧ w'.calls = w1.calls ++ [.unseal] ∧
      ∀ reading ∈ [2, 3, 4, 5], env.clock reading < op.deadline := by
  unfold UnlockOperation.run at h
  obtain ⟨⟨⟩, -, h⟩ := attempt_bind_eq_ok.mp h
  obtain ⟨network, w1, hnetwork, h⟩ := Effect.bind_eq_ok.mp h
  obtain ⟨policy, -, h⟩ := attempt_bind_eq_ok.mp h
  obtain ⟨release, -, h⟩ := attempt_bind_eq_ok.mp h
  obtain ⟨⟨⟩, hclock2, h⟩ := attempt_bind_eq_ok.mp h
  rw [Effect.bind_ok (Effect.update_apply _ _)] at h
  obtain ⟨unsealed, hunsealed, h⟩ := attempt_bind_eq_ok.mp h
  obtain ⟨⟨⟩, hclock3, h⟩ := attempt_bind_eq_ok.mp h
  obtain ⟨tpm, htpm, h⟩ := Effect.ofExcept_bind_eq_ok.mp h
  obtain ⟨policy2, -, h⟩ := attempt_bind_eq_ok.mp h
  obtain ⟨policy3, -, h⟩ := attempt_bind_eq_ok.mp h
  obtain ⟨release2, -, h⟩ := attempt_bind_eq_ok.mp h
  obtain ⟨tpmShare, htpmShare, h⟩ := attempt_bind_eq_ok.mp h
  obtain rfl := Except.ok.inj (mapError_eq_ok.mp htpmShare)
  obtain ⟨networkShare, hnetworkShare, h⟩ := attempt_bind_eq_ok.mp h
  obtain rfl := Except.ok.inj (mapError_eq_ok.mp hnetworkShare)
  obtain ⟨root, hroot, h⟩ := attempt_bind_eq_ok.mp h
  obtain ⟨payload, hpayload, h⟩ := attempt_bind_eq_ok.mp h
  obtain ⟨policy4, -, h⟩ := attempt_bind_eq_ok.mp h
  obtain ⟨release3, -, h⟩ := attempt_bind_eq_ok.mp h
  obtain ⟨⟨⟩, hclock4, h⟩ := attempt_bind_eq_ok.mp h
  obtain ⟨policy5, -, h⟩ := attempt_bind_eq_ok.mp h
  by_cases hgate : (release3.release payload.context (decide (env.clock 5 < op.deadline))).1 = true
  · rw [if_pos hgate] at h
    obtain ⟨hresult, rfl⟩ := Prod.mk.inj h
    obtain rfl := Except.ok.inj hresult
    have hclock5 : env.clock 5 < op.deadline :=
      of_decide_eq_true (ReleaseState.release_within hgate)
    refine ⟨network, w1, unsealed, tpm, root, payload, hnetwork, hunsealed, htpm,
      mapError_eq_ok.mp hroot, hpayload, rfl, rfl, ?_⟩
    simp only [List.forall_mem_cons]
    exact ⟨checkDeadline_eq_ok.mp hclock2, checkDeadline_eq_ok.mp hclock3,
      checkDeadline_eq_ok.mp hclock4, hclock5, List.forall_mem_nil _⟩
  · rw [if_neg hgate] at h
    obtain ⟨⟨⟩, -, h⟩ := attempt_bind_eq_ok.mp h
    cases h

end Inversion

end Leelo.Engine
