import Leelo.Engine.Correctness
import Leelo.Tpm.Recovery

/-!
# Unlocking on a measured boot

The engine over the TPM adapter. An enrolled credential comes back on the TPM that it was
enrolled with while the selected PCRs have the digest of the descriptor, and with other PCRs
no quorum of network leaves recovers anything.
-/

namespace Leelo.Tpm

open Leelo.Core Leelo.Crypto Leelo.Envelope Leelo.Engine

/-- The adapter of a TPM that only fails when it must. Every call has a context of its own. -/
def adapter (chip : Chip) (library : Library) (cbor : Cbor) (P : Primitives) (mismatch : TssError)
    (device : Device) : TpmProvider where
  supportsMode mode := mode = .networkBound
  sealSeed descriptor seed :=
    ((sealSeed library cbor P mismatch descriptor seed).runWith chip.perform device).1
  unsealSeed envelope :=
    ((unsealSeed library cbor P mismatch envelope).runWith chip.perform device).1

open Classical in
/-- An adapter that seals for one descriptor alone. -/
noncomputable def sealingOnly (d : Descriptor) (tpm : TpmProvider) : TpmProvider where
  supportsMode := tpm.supportsMode
  sealSeed descriptor seed :=
    if descriptor = d then tpm.sealSeed descriptor seed else .error .unsupportedMode
  unsealSeed := tpm.unsealSeed

theorem sealSeed_sealingOnly {d : Descriptor} {tpm : TpmProvider} {seed : Sss.Secret} :
    (sealingOnly d tpm).sealSeed d seed = tpm.sealSeed d seed := if_pos rfl

/-- An unlock before its deadline in which exactly the leaves in `failing` fail, whatever the
TPM does. -/
structure Online (cbor : Cbor) (P : Primitives) {ρ : Type} (d : Descriptor)
    (failing : Finset UInt8) (env : Environment ρ) : Prop where
  runtime : env.runtime = true
  inTime : ∀ reading, env.clock reading < env.clock 0 + operationBudget
  awake : ∀ turn polled, env.wakes turn ≠ .expired polled
  fails : ∀ context, contextHash cbor P d = .ok context → ∀ binding ∈ d.networks,
    (binding.nodeId ∈ failing ↔ ∃ kind, networkKey P env.rng d binding context env.net
      (env.clock 0 + operationBudget) (env.entropy binding) = .error kind)

section Measured

variable {cbor : Cbor} {P : Primitives} {ρ ρ' : Type} {enroll : EnrollEnvironment ρ}
  {env : Environment ρ'} {d : Descriptor} {context : Vector UInt8 48} {body : EnvelopeBody}
  {signer : P.SigningKey} {prepared : PreparedEnrollment} {failing : Finset UInt8}
  {prf : PointBytes → Bytes → Vector UInt8 outputBytes} {chip : Chip} {library : Library}
  {mismatch : TssError} {d₀ d₁ : Device}

/-- Enrollment seals for its own descriptor. -/
theorem prepared_sealingOnly (h : Prepared cbor P enroll d signer prepared context body) :
    Prepared cbor P { enroll with tpm := sealingOnly d enroll.tpm } d signer prepared context
      body := by
  obtain ⟨seed, root, tpmKey, tpmShare, networkShare, payloadKey, shares, tpmValue, leaves, r, r',
    hleaves, hseal, htpmKey, htpmShare, hroot, hsplit, hwrapped, hpayload⟩ := h.recoverable
  refine ⟨h.hashed, h.supported, h.descriptor, h.signed, seed, root, tpmKey, tpmShare,
    networkShare, payloadKey, shares, tpmValue, leaves, r, r', hleaves,
    sealSeed_sealingOnly.trans hseal, htpmKey, htpmShare, hroot, hsplit, ?_, hpayload⟩
  exact hwrapped.imp fun _ _ hleaf => ⟨hleaf.named, hleaf.bound, hleaf.wrapped⟩

/-- On the PCRs of the descriptor the adapter unseals what it sealed. -/
theorem adapter_unseals (h : Healthy chip library) (hmeasures : chip.Measures d₁.instant d) :
    (adapter chip library cbor P mismatch d₁).Unseals
      (sealingOnly d (adapter chip library cbor P mismatch d₀)) where
  supports _ hmode := hmode
  unseals envelope seed hseal := by
    by_cases hdescriptor : envelope.body.descriptor = d
    · subst hdescriptor
      rw [sealSeed_sealingOnly] at hseal
      have hrun := runs_of_runWith (Prod.ext hseal rfl)
      refine ⟨.localMeasuredBoot, runWith_unsealSeed h hrun hmeasures, fun hattested => ?_⟩
      rw [mode_of_bound (runs_sealSeed h.specified hrun).1] at hattested
      cases hattested
    · cases (if_neg hdescriptor).symm.trans hseal

/-- A credential is only returned after the TPM found the PCRs of the envelope. -/
theorem measures_of_unlockObserved (h : Healthy chip library)
    (htpm : env.tpm = adapter chip library cbor P mismatch d₁) {raw : Bytes}
    {key : Vector UInt8 32} {volume : Vector UInt8 16} {slot : UInt8} {result : UnlockResult}
    {w w' : World}
    (hunlock : unlockObserved cbor P env raw key volume slot w = (.ok result, w')) :
    ∃ envelope, authenticate cbor P raw key = .ok envelope ∧
      chip.Measures d₁.instant envelope.body.descriptor := by
  unfold unlockObserved at hunlock
  rw [Effect.bind_ok (Effect.update_apply _ _)] at hunlock
  obtain ⟨op, w₁, hbegin, hrun⟩ := Effect.bind_eq_ok.mp hunlock
  obtain ⟨hauthentic, -⟩ := UnlockOperation.begin_eq_ok hbegin
  obtain ⟨_, _, unsealed, _, _, _, -, hunsealed, -⟩ := UnlockOperation.run_eq_ok hrun
  rw [htpm] at hunsealed
  exact ⟨op.envelope, hauthentic, measures_of_runWith h hunsealed⟩

/-- With enough network leaves, unlocking on the TPM of the enrollment returns the enrolled
credential if the selected PCRs have the digest of the descriptor. If they do not, it returns
no credential, whatever the network does. -/
theorem unlock_measured (h : Healthy chip library) (hcbor : cbor.Rfc8949) (hsign : P.SignsOwn)
    (hdecrypt : P.DecryptsOwn) (hprf : P.EvaluatesTo prf) {w w' : World}
    (henroll : enroll.tpm = adapter chip library cbor P mismatch d₀)
    (hprepare : prepareObserved cbor P enroll d signer w = (.ok prepared, w'))
    (htpm : env.tpm = adapter chip library cbor P mismatch d₁) (world : World) :
    let result := unlockObserved cbor P env prepared.envelope (publicKey P signer) d.volumeUuid
      d.slot world
    (chip.Measures d₁.instant d → ∀ failing, Online cbor P d failing env →
      d.policy.network.satisfied (fun id => decide (id ∉ failing)) = true →
        ∃ diagnostics, result.1 = .ok ⟨prepared.credential, diagnostics⟩) ∧
    (¬chip.Measures d₁.instant d → credentialOf result.1 = none) := by
  obtain ⟨context, body, hprepared⟩ := prepareObserved_eq_ok hdecrypt hprepare
  refine ⟨fun hmeasures failing honline hsatisfied => ?_, fun hmeasures => ?_⟩
  · have hunseals : env.tpm.Unseals (sealingOnly d enroll.tpm) := by
      rw [htpm, henroll]
      exact adapter_unseals h hmeasures
    obtain ⟨diagnostics, _, hok⟩ := (prepared_sealingOnly hprepared).unlock_ok hcbor hsign hprf
      ⟨honline.runtime, honline.inTime, honline.awake, hunseals, honline.fails⟩ hsatisfied world
    exact ⟨diagnostics, congrArg Prod.fst hok⟩
  · cases hresult : unlockObserved cbor P env prepared.envelope (publicKey P signer) d.volumeUuid
      d.slot world with
    | mk result w₁ =>
      cases result with
      | error halt => rfl
      | ok result =>
        obtain ⟨envelope, hauthentic, hmeasured⟩ := measures_of_unlockObserved h htpm hresult
        rw [(hprepared.authenticate hcbor hsign).2] at hauthentic
        cases hauthentic
        rw [hprepared.descriptor] at hmeasured
        exact absurd hmeasured hmeasures

end Measured

/-- The adapter of the TPM without secrets. -/
def plainAdapter (value : UInt8) : TpmProvider :=
  adapter plainChip plainLibrary rfc8949 transparent ⟨""⟩ (booted value)

/-- The example's enrollment, with a measured module. -/
def measuredEnrollment : EnrollEnvironment Unit := { pairEnrollment with tpm := plainAdapter 5 }

/-- The example's attempt, with a module that has measured the value. -/
def measuredEnvironment (value : UInt8) : Environment Unit :=
  { pairEnvironment {4} with tpm := plainAdapter value }

theorem measuredEnrollment_succeeds : ∃ prepared w',
    prepareObserved rfc8949 transparent measuredEnrollment pairDescriptor (Vector.replicate 32 5)
      ⟨⟨[]⟩, []⟩ = (.ok prepared, w') := by
  apply Effect.exists_ok
  decide +kernel

/-- One of two leaves recovers the credential on the first boot but not on the second. -/
theorem unlock_measured_pair : ∃ prepared w' diagnostics,
    prepareObserved rfc8949 transparent measuredEnrollment pairDescriptor (Vector.replicate 32 5)
      ⟨⟨[]⟩, []⟩ = (.ok prepared, w') ∧
    (unlockObserved rfc8949 transparent (measuredEnvironment 0) prepared.envelope
      (Vector.replicate 32 5) (Vector.replicate 16 2) 1 ⟨⟨[]⟩, []⟩).1 =
        .ok ⟨prepared.credential, diagnostics⟩ ∧
    credentialOf (unlockObserved rfc8949 transparent (measuredEnvironment 1) prepared.envelope
      (Vector.replicate 32 5) (Vector.replicate 16 2) 1 ⟨⟨[]⟩, []⟩).1 = none := by
  obtain ⟨prepared, w', hprepare⟩ := measuredEnrollment_succeeds
  have honline : Online rfc8949 transparent pairDescriptor {4} (measuredEnvironment 0) :=
    ⟨pairEnvironment_attempt.runtime, pairEnvironment_attempt.inTime,
      pairEnvironment_attempt.awake, pairEnvironment_attempt.fails⟩
  have hfirst := unlock_measured plain_healthy rfc8949_spec transparent_signsOwn
    transparent_decryptsOwn transparent_evaluatesTo rfl hprepare
    (show (measuredEnvironment 0).tpm = plainAdapter 0 from rfl) ⟨⟨[]⟩, []⟩
  have hsecond := unlock_measured plain_healthy rfc8949_spec transparent_signsOwn
    transparent_decryptsOwn transparent_evaluatesTo rfl hprepare
    (show (measuredEnvironment 1).tpm = plainAdapter 1 from rfl) ⟨⟨[]⟩, []⟩
  obtain ⟨diagnostics, hok⟩ := hfirst.1 measures_booted {4} honline (by decide)
  exact ⟨prepared, w', diagnostics, hprepare, hok, hsecond.2 not_measures_booted⟩

end Leelo.Tpm
