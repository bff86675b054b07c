import Leelo.Envelope.Body
import Leelo.Policy.Recovery

/-!
# Providers, keys and errors of the engine

The network provider and the TPM adapter are arbitrary: an evaluation returns any
response or failure, and the TPM seals and unseals as it likes. The engine adds the
derivation of each wrap key and the translation of every error.
-/

namespace Leelo.Engine

open Leelo.Core Leelo.Crypto Leelo.Envelope Leelo.Policy
open Leelo.Sss (Secret Rng)

/-- Why a network leaf was not recovered. -/
inductive NetworkFailure where
  | configuration
  | unavailable
  | timeout
  | remoteRejected
  | invalidResponse
  | invalidProof
  | authentication
  | cryptography
  deriving DecidableEq, Repr

/-- A provider and how it failed. -/
structure ProviderFailure where
  providerId : ProviderId
  kind : NetworkFailure
  deriving DecidableEq

/-- The errors of the engine. -/
inductive EngineError where
  | envelope (error : EnvelopeError)
  | crypto
  | sharing
  | policy
  | provider (detail : String)
  | tpm (operation detail : String)
  | insufficientFactors (failures : List ProviderFailure)
  | deadlineExceeded (failures : List ProviderFailure)
  | inconsistentShares
  | targetMismatch
  | unsupportedMode
  | runtime
  deriving DecidableEq

/-- How the TPM authorized the session that unsealed a seed. -/
inductive TpmAuthorization where
  | localMeasuredBoot
  | freshSessionAuthorization
  deriving DecidableEq, Repr

/-- What the module unsealed, and under which authorisation. -/
structure UnsealedSeed where
  seed : Secret
  authorization : TpmAuthorization

/-- A network adapter: the outcome of one evaluation request. -/
structure NetworkProvider where
  evaluate : NetworkBinding → PointBytes → (deadline : Nat) → Except NetworkFailure Evaluation

/-- A TPM adapter. -/
structure TpmProvider where
  supportsMode : Mode → Bool
  sealSeed : Descriptor → Secret → Except EngineError TpmBlob
  unsealSeed : AuthenticatedEnvelope → Except EngineError UnsealedSeed

/-- Thirty seconds, in nanoseconds of the monotonic clock. -/
def operationBudget : Nat := 30 * 10 ^ 9

/-- The evaluations under way at once. -/
def maxNetworkOperations : Nat := 4

/-- Compare one reading of the clock with the deadline. -/
def checkDeadline (now deadline : Nat) : Except EngineError Unit :=
  if now ≥ deadline then .error (.deadlineExceeded []) else .ok ()

/-- The policy's error as the engine's. -/
def policyError : PolicyError → EngineError
  | .factorsNotSatisfied => .insufficientFactors []
  | .sharing .inconsistentShares => .inconsistentShares
  | _ => .policy

section Keys

variable (P : Primitives) {ρ : Type} (rng : Rng ρ)

/-- A fresh secret. -/
def freshSecret (r : ρ) : Except EngineError (Secret × ρ) :=
  (randomBytes rng 32 r).mapError fun _ => .crypto

/-- Derives a key. -/
def derive (ikm context purpose : Bytes) : Except EngineError Secret :=
  (deriveSecretKey P ikm context purpose).mapError fun _ => .crypto

/-- Blind the leaf's input, have it evaluated, and derive the wrap key from the result. -/
def networkKey (d : Descriptor) (b : NetworkBinding) (context : Vector UInt8 48)
    (net : NetworkProvider) (deadline : Nat) (r : ρ) : Except NetworkFailure (Secret × ρ) := do
  let ((state, blinded), r) ← (blind P rng (networkInput d b) r).mapError fun _ => .cryptography
  let evaluation ← net.evaluate b blinded deadline
  let pk ← (ServerPublicKey.fromBytes P b.publicKey).mapError fun _ => .configuration
  let output ← (state.finalize P evaluation pk).mapError fun _ => .invalidProof
  let key ← (deriveWrapKey P output (leafContext context b.nodeId)).mapError fun _ => .cryptography
  return (key, r)

/-- The share of one network leaf, opened under its evaluated key. -/
def recoverLeaf (envelope : AuthenticatedEnvelope) (binding : NetworkBinding)
    (net : NetworkProvider) (deadline : Nat) (r : ρ) : Except NetworkFailure Secret := do
  let (key, _) ← networkKey P rng envelope.body.descriptor binding envelope.context net deadline r
  match envelope.body.leaves.find? (·.nodeId == binding.nodeId) with
  | none => .error .configuration
  | some wrapped =>
    (openKey P key wrapped.value (leafContext envelope.context binding.nodeId)).mapError
      fun _ => .authentication

end Keys

section Inversion

variable {P : Primitives} {ρ : Type} {rng : Rng ρ}

/-- The output of a leaf: its input was blinded, and the response to it was finalized against
the pinned key. -/
def Finalized (P : Primitives) (rng : Rng ρ) (d : Descriptor) (b : NetworkBinding)
    (net : NetworkProvider) (deadline : Nat) (r r' : ρ) (output : Vector UInt8 outputBytes) :
    Prop :=
  ∃ state blinded evaluation pk,
    blind P rng (networkInput d b) r = .ok ((state, blinded), r') ∧
      net.evaluate b blinded deadline = .ok evaluation ∧ pk.bytes = b.publicKey ∧
      state.finalize P evaluation pk = .ok output

/-- The steps behind a derived leaf key. -/
structure Evaluated (P : Primitives) (rng : Rng ρ) (d : Descriptor) (b : NetworkBinding)
    (context : Vector UInt8 48) (net : NetworkProvider) (deadline : Nat) (r r' : ρ)
    (key : Secret) (output : Vector UInt8 outputBytes) : Prop where
  finalized : Finalized P rng d b net deadline r r' output
  derived : deriveWrapKey P output (leafContext context b.nodeId) = .ok key

theorem networkKey_eq_ok {d : Descriptor} {b : NetworkBinding} {context : Vector UInt8 48}
    {net : NetworkProvider} {deadline : Nat} {r r' : ρ} {key : Secret} :
    networkKey P rng d b context net deadline r = .ok (key, r') ↔
      ∃ output, Evaluated P rng d b context net deadline r r' key output := by
  unfold networkKey
  simp only [bind_eq_ok, mapError_eq_ok]
  constructor
  · rintro ⟨⟨⟨state, blinded⟩, r1⟩, hblind, evaluation, hevaluate, pk, hpk, output, houtput, key',
      hkey, h⟩
    obtain ⟨rfl, rfl⟩ := Prod.mk.inj (Except.ok.inj h)
    exact ⟨output, ⟨state, blinded, evaluation, pk, hblind, hevaluate,
      ServerPublicKey.fromBytes_eq_ok.mp hpk, houtput⟩, hkey⟩
  · rintro ⟨output, ⟨state, blinded, evaluation, pk, hblind, hevaluate, hpk, houtput⟩, hkey⟩
    exact ⟨⟨⟨state, blinded⟩, r'⟩, hblind, evaluation, hevaluate, pk,
      ServerPublicKey.fromBytes_eq_ok.mpr hpk, output, houtput, key, hkey, rfl⟩

/-- Every evaluation of a leaf, whenever it was made, derives the same key. -/
theorem networkKey_unique {prf : PointBytes → Bytes → Vector UInt8 outputBytes}
    (hprf : P.EvaluatesTo prf) {ρ' : Type} {rng' : Rng ρ'} {d : Descriptor} {b : NetworkBinding}
    {context : Vector UInt8 48} {net net' : NetworkProvider} {deadline deadline' : Nat}
    {r1 r2 : ρ} {r1' r2' : ρ'} {key key' : Secret}
    (h : networkKey P rng d b context net deadline r1 = .ok (key, r2))
    (h' : networkKey P rng' d b context net' deadline' r1' = .ok (key', r2')) : key = key' := by
  obtain ⟨output, ⟨state, blinded, evaluation, pk, hblind, -, hpk, houtput⟩, hkey⟩ :=
    networkKey_eq_ok.mp h
  obtain ⟨output', ⟨state', blinded', evaluation', pk', hblind', -, hpk', houtput'⟩, hkey'⟩ :=
    networkKey_eq_ok.mp h'
  have hsame : output = output' := by
    rw [finalize_blind hprf hblind houtput, finalize_blind hprf hblind' houtput', hpk, hpk']
  rw [hsame, hkey'] at hkey
  exact (Except.ok.inj hkey).symm

/-- The share of a leaf is opened with the leaf's key. -/
theorem recoverLeaf_eq_ok {envelope : AuthenticatedEnvelope} {binding : NetworkBinding}
    {net : NetworkProvider} {deadline : Nat} {r : ρ} {share : Secret} :
    recoverLeaf P rng envelope binding net deadline r = .ok share ↔
      ∃ key r' wrapped, networkKey P rng envelope.body.descriptor binding envelope.context net
          deadline r = .ok (key, r') ∧
        envelope.body.leaves.find? (·.nodeId == binding.nodeId) = some wrapped ∧
        openKey P key wrapped.value (leafContext envelope.context binding.nodeId) = .ok share := by
  unfold recoverLeaf
  rw [bind_eq_ok]
  cases hfind : envelope.body.leaves.find? (·.nodeId == binding.nodeId) with
  | none => simp
  | some wrapped =>
    constructor
    · rintro ⟨⟨key, r'⟩, hkey, hopen⟩
      exact ⟨key, r', wrapped, hkey, rfl, mapError_eq_ok.mp hopen⟩
    · rintro ⟨key, r', wrapped', hkey, hsame, hopen⟩
      obtain rfl := Option.some.inj hsame
      exact ⟨⟨key, r'⟩, hkey, mapError_eq_ok.mpr hopen⟩

end Inversion

end Leelo.Engine
