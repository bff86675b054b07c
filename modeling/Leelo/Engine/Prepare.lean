import Leelo.Engine.Unlock

/-!
# Enrollment

Enrollment draws the credential, the root and the TPM seed, splits the root between
the TPM and the network, splits the network share over the policy tree and wraps every
share under its own key. Each network leaf is evaluated, sealed and opened again before
the envelope is signed.
-/

namespace Leelo.Engine

open Leelo.Core Leelo.Crypto Leelo.Envelope Leelo.Policy
open Leelo.Sss (Secret Rng Share)

/-- The behaviour of everything outside the engine during one enrollment. -/
structure EnrollEnvironment (ρ : Type) where
  clock : Nat → Nat
  runtime : Bool
  rng : Rng ρ
  /-- The generator state at the first draw. -/
  entropy : ρ
  net : NetworkProvider
  /-- The evaluation of this leaf runs into the deadline. -/
  expires : Nat → Bool
  tpm : TpmProvider

/-- The envelope and the credential it protects. -/
structure PreparedEnrollment where
  envelope : Bytes
  credential : Secret

/-- Record an outcome and return an error. -/
def failLeaf {α : Type} (index : Nat) (outcome : ProviderOutcome) (error : EngineError) :
    Effect World (Halt EngineError) α := do
  Effect.update fun world => { world with report := world.report.provider index outcome }
  attempt (.error error)

/-- Index into the shares of the root; out of range the source aborts. -/
def shareAt (shares : List Share) (index : Nat) : Exec EngineError Share :=
  match shares[index]? with
  | some share => .ok share
  | none => .error .abort

section Prepare

variable (cbor : Cbor) (P : Primitives) {ρ : Type} (env : EnrollEnvironment ρ)

/-- Wrap one share under its leaf's evaluated key and open it again. -/
def wrapLeaf (d : Descriptor) (context : Vector UInt8 48) (deadline index : Nat)
    (share : NetworkShare) (binding : NetworkBinding) (r : ρ) :
    Effect World (Halt EngineError) (WrappedLeaf × ρ) :=
  if env.expires index then
    failLeaf index .canceledDeadline (.deadlineExceeded [⟨binding.providerId, .timeout⟩])
  else
    match networkKey P env.rng d binding context env.net deadline r with
    | .error kind =>
      failLeaf index (.failed kind) (.insufficientFactors [⟨binding.providerId, kind⟩])
    | .ok (key, r) =>
      match sealKey P env.rng key share.2 (leafContext context share.1) r with
      | .error _ => failLeaf index (.failed .cryptography) .crypto
      | .ok (value, r) =>
        match openKey P key value (leafContext context share.1) with
        | .error _ => failLeaf index (.failed .authentication) .crypto
        | .ok checked =>
          if checked ≠ share.2 then failLeaf index (.failed .authentication) .inconsistentShares
          else do
            Effect.update fun world =>
              { world with report := world.report.provider index .authenticated }
            return (⟨share.1, value⟩, r)

/-- Wrap the shares in order, each against the binding at the same place. -/
def wrapLeaves (d : Descriptor) (context : Vector UInt8 48) (deadline : Nat) :
    (index : Nat) → List (NetworkShare × NetworkBinding) → ρ →
      Effect World (Halt EngineError) (List WrappedLeaf × ρ)
  | _, [], r => pure ([], r)
  | index, (share, binding) :: rest, r => do
    attempt (ensure (share.1 = binding.nodeId) .policy)
    let (leaf, r) ← wrapLeaf P env d context deadline index share binding r
    let (leaves, r) ← wrapLeaves d context deadline (index + 1) rest r
    pure (leaf :: leaves, r)

/-- Prepares an enrollment: the secrets, the shares, the wrapped leaves and the signature. -/
def prepareInner (d : Descriptor) (signer : P.SigningKey) :
    Effect World (Halt EngineError) PreparedEnrollment := do
  let deadline := env.clock 0 + operationBudget
  let context ← attempt ((contextHash cbor P d).mapError .envelope)
  Effect.update fun world => { world with report := .configure d.networks }
  attempt (ensure (env.tpm.supportsMode d.policy.mode) .unsupportedMode)
  attempt (ensure (env.runtime = true) .runtime)
  let (credential, r) ← attempt (freshSecret env.rng env.entropy)
  let (root, r) ← attempt (freshSecret env.rng r)
  let (rootShares, r) ← attempt ((Sss.split env.rng root 2 2 r).mapError fun _ => .sharing)
  let (tpmSeed, r) ← attempt (freshSecret env.rng r)
  let blob ← attempt (env.tpm.sealSeed d tpmSeed)
  attempt (checkDeadline (env.clock 1) deadline)
  let tpmContext := leafContext context d.policy.tpmNodeId
  let tpmKey ← attempt (derive P tpmSeed.toList tpmContext (ascii "leelo/v1/tpm-wrap"))
  let tpmShare ← Effect.ofExcept (shareAt rootShares 0)
  let (tpmValue, r) ← attempt
    ((sealKey P env.rng tpmKey tpmShare.value tpmContext r).mapError fun _ => .crypto)
  let networkShare ← Effect.ofExcept (shareAt rootShares 1)
  let (networkShares, r) ← Effect.ofExcept
    (Exec.mapError policyError (d.policy.splitNetwork env.rng networkShare.value r))
  let reconstructed ← Effect.ofExcept
    (Exec.mapError policyError (d.policy.recoverNetwork networkShares))
  attempt (ensure (reconstructed = networkShare.value) .inconsistentShares)
  let (leaves, r) ← wrapLeaves P env d context deadline 0 (networkShares.zip d.networks) r
  let payloadKey ← attempt (derive P root.toList context.toList (ascii "leelo/v1/luks-slot"))
  let (payload, _) ← attempt
    ((sealKey P env.rng payloadKey credential context.toList r).mapError fun _ => .crypto)
  let body : EnvelopeBody := ⟨d, blob, ⟨d.policy.tpmNodeId, tpmValue⟩ :: leaves, payload⟩
  let envelope ← attempt ((sign cbor P body signer).mapError .envelope)
  attempt (checkDeadline (env.clock 2) deadline)
  return ⟨envelope, credential⟩

/-- Prepares an enrollment under observation. -/
def prepareObserved (d : Descriptor) (signer : P.SigningKey) :
    Effect World (Halt EngineError) PreparedEnrollment := do
  Effect.update fun world => { world with report := ⟨[]⟩ }
  prepareInner cbor P env d signer

end Prepare

section Inversion

variable {cbor : Cbor} {P : Primitives} {ρ : Type} {env : EnrollEnvironment ρ}

variable {index : Nat} {w w' : World} {d : Descriptor} {context : Vector UInt8 48} {r r' : ρ}
  {signer : P.SigningKey}

theorem failLeaf_ne_ok {α : Type} {outcome : ProviderOutcome} {error : EngineError} {a : α} :
    failLeaf index outcome error w ≠ (.ok a, w') := by
  intro h
  unfold failLeaf at h
  rw [Effect.bind_ok (Effect.update_apply _ _)] at h
  cases h

/-- The share of a leaf was sealed under the key that the leaf evaluated to, and opened again. -/
structure LeafWrapped (P : Primitives) (env : EnrollEnvironment ρ) (d : Descriptor)
    (context : Vector UInt8 48) (deadline : Nat) (pair : NetworkShare × NetworkBinding)
    (leaf : WrappedLeaf) : Prop where
  named : leaf.nodeId = pair.1.1
  bound : pair.1.1 = pair.2.nodeId
  wrapped : ∃ r r1 r2 key,
    networkKey P env.rng d pair.2 context env.net deadline r = .ok (key, r1) ∧
    sealKey P env.rng key pair.1.2 (leafContext context pair.2.nodeId) r1 = .ok (leaf.value, r2) ∧
    openKey P key leaf.value (leafContext context pair.2.nodeId) = .ok pair.1.2

/-- A leaf that was wrapped was sealed under its own key. -/
theorem wrapLeaf_eq_ok {deadline : Nat} {share : NetworkShare} {binding : NetworkBinding}
    {leaf : WrappedLeaf} (hid : share.1 = binding.nodeId)
    (h : wrapLeaf P env d context deadline index share binding r w = (.ok (leaf, r'), w')) :
    LeafWrapped P env d context deadline (share, binding) leaf := by
  unfold wrapLeaf at h
  by_cases hexpires : env.expires index = true
  · rw [if_pos hexpires] at h
    exact absurd h failLeaf_ne_ok
  rw [if_neg hexpires] at h
  cases hkey : networkKey P env.rng d binding context env.net deadline r with
  | error kind =>
    rw [hkey] at h
    exact absurd h failLeaf_ne_ok
  | ok evaluated =>
    obtain ⟨key, r1⟩ := evaluated
    simp only [hkey] at h
    cases hseal : sealKey P env.rng key share.2 (leafContext context share.1) r1 with
    | error e =>
      rw [hseal] at h
      exact absurd h failLeaf_ne_ok
    | ok wrapped =>
      obtain ⟨value, r2⟩ := wrapped
      simp only [hseal] at h
      cases hopen : openKey P key value (leafContext context share.1) with
      | error e =>
        rw [hopen] at h
        exact absurd h failLeaf_ne_ok
      | ok checked =>
        simp only [hopen] at h
        by_cases hsame : checked ≠ share.2
        · rw [if_pos hsame] at h
          exact absurd h failLeaf_ne_ok
        rw [if_neg hsame, Effect.bind_ok (Effect.update_apply _ _)] at h
        obtain ⟨hresult, -⟩ := Prod.mk.inj h
        obtain ⟨rfl, -⟩ := Prod.mk.inj (Except.ok.inj hresult)
        refine ⟨rfl, hid, r, r1, r2, key, hkey, ?_, ?_⟩
        · rw [← hid]
          exact hseal
        · rw [← hid, ← not_not.mp hsame]
          exact hopen

/-- Every pair was wrapped, in order. -/
theorem wrapLeaves_eq_ok {deadline : Nat} {pairs : List (NetworkShare × NetworkBinding)}
    {leaves : List WrappedLeaf}
    (h : wrapLeaves P env d context deadline index pairs r w = (.ok (leaves, r'), w')) :
    List.Forall₂ (LeafWrapped P env d context deadline) pairs leaves := by
  induction pairs generalizing index leaves r r' w w' with
  | nil =>
    obtain ⟨hresult, -⟩ := Prod.mk.inj h
    obtain ⟨rfl, -⟩ := Prod.mk.inj (Except.ok.inj hresult)
    exact .nil
  | cons pair pairs ih =>
    obtain ⟨share, binding⟩ := pair
    rw [wrapLeaves] at h
    obtain ⟨⟨⟩, hid, h⟩ := attempt_bind_eq_ok.mp h
    obtain ⟨⟨leaf, r1⟩, w1, hleaf, h⟩ := Effect.bind_eq_ok.mp h
    obtain ⟨⟨rest, r2⟩, w2, hrest, h⟩ := Effect.bind_eq_ok.mp h
    obtain ⟨hresult, -⟩ := Prod.mk.inj h
    obtain ⟨rfl, -⟩ := Prod.mk.inj (Except.ok.inj hresult)
    exact .cons (wrapLeaf_eq_ok (ensure_eq_ok.mp hid) hleaf) (ih hrest)

/-- How an enrollment was sealed, whatever the primitives are. -/
structure Wrapped (cbor : Cbor) (P : Primitives) (env : EnrollEnvironment ρ) (d : Descriptor)
    (signer : P.SigningKey) (prepared : PreparedEnrollment) (context : Vector UInt8 48)
    (body : EnvelopeBody) : Prop where
  hashed : contextHash cbor P d = .ok context
  supported : env.tpm.supportsMode d.policy.mode = true
  descriptor : body.descriptor = d
  signed : sign cbor P body signer = .ok prepared.envelope
  sealed : ∃ (seed root tpmKey tpmShare networkShare payloadKey : Secret)
      (shares : List NetworkShare) (tpmValue : WrappedKey) (leaves : List WrappedLeaf)
      (r1 r2 r3 r4 r5 : ρ),
    body.leaves = ⟨d.policy.tpmNodeId, tpmValue⟩ :: leaves ∧
    env.tpm.sealSeed d seed = .ok body.tpm ∧
    deriveSecretKey P seed.toList (leafContext context d.policy.tpmNodeId)
      (ascii "leelo/v1/tpm-wrap") = .ok tpmKey ∧
    sealKey P env.rng tpmKey tpmShare (leafContext context d.policy.tpmNodeId) r1 =
      .ok (tpmValue, r2) ∧
    Sss.reconstruct 2 [⟨1, tpmShare, by decide⟩, ⟨2, networkShare, by decide⟩] = .ok root ∧
    d.policy.splitNetwork env.rng networkShare r2 = .ok (shares, r3) ∧
    List.Forall₂ (LeafWrapped P env d context (env.clock 0 + operationBudget))
      (shares.zip d.networks) leaves ∧
    deriveSecretKey P root.toList context.toList (ascii "leelo/v1/luks-slot") = .ok payloadKey ∧
    sealKey P env.rng payloadKey prepared.credential context.toList r4 = .ok (body.payload, r5)

/-- The contents of an enrollment that was prepared. -/
structure Prepared (cbor : Cbor) (P : Primitives) (env : EnrollEnvironment ρ) (d : Descriptor)
    (signer : P.SigningKey) (prepared : PreparedEnrollment) (context : Vector UInt8 48)
    (body : EnvelopeBody) : Prop where
  hashed : contextHash cbor P d = .ok context
  supported : env.tpm.supportsMode d.policy.mode = true
  descriptor : body.descriptor = d
  signed : sign cbor P body signer = .ok prepared.envelope
  recoverable : ∃ (seed root tpmKey tpmShare networkShare payloadKey : Secret)
      (shares : List NetworkShare) (tpmValue : WrappedKey) (leaves : List WrappedLeaf) (r r' : ρ),
    body.leaves = ⟨d.policy.tpmNodeId, tpmValue⟩ :: leaves ∧
    env.tpm.sealSeed d seed = .ok body.tpm ∧
    deriveSecretKey P seed.toList (leafContext context d.policy.tpmNodeId)
      (ascii "leelo/v1/tpm-wrap") = .ok tpmKey ∧
    openKey P tpmKey tpmValue (leafContext context d.policy.tpmNodeId) = .ok tpmShare ∧
    Sss.reconstruct 2 [⟨1, tpmShare, by decide⟩, ⟨2, networkShare, by decide⟩] = .ok root ∧
    d.policy.splitNetwork env.rng networkShare r = .ok (shares, r') ∧
    List.Forall₂ (LeafWrapped P env d context (env.clock 0 + operationBudget))
      (shares.zip d.networks) leaves ∧
    deriveSecretKey P root.toList context.toList (ascii "leelo/v1/luks-slot") = .ok payloadKey ∧
    openKey P payloadKey body.payload context.toList = .ok prepared.credential

/-- The shares of the root are the TPM's and the network's. -/
private theorem shareAt_split {rng : Rng ρ} {root : Secret} {rootShares : List Share}
    {tpmShare networkShare : Share} (hsplit : Sss.split rng root 2 2 r = .ok (rootShares, r'))
    (htpm : shareAt rootShares 0 = .ok tpmShare)
    (hnetwork : shareAt rootShares 1 = .ok networkShare) :
    Sss.reconstruct 2 [⟨1, tpmShare.value, by decide⟩, ⟨2, networkShare.value, by decide⟩] =
      .ok root := by
  have hreconstruct := Sss.reconstruct_split (by decide) (by decide) (by decide) hsplit
  obtain ⟨rows, rfl, -⟩ := Sss.split_eq_ok (by decide) (by decide) (by decide) hsplit
  obtain rfl := Except.ok.inj htpm
  obtain rfl := Except.ok.inj hnetwork
  exact hreconstruct

/-- An enrollment that returns has sealed every part of its envelope. -/
theorem prepareObserved_wrapped {prepared : PreparedEnrollment}
    (h : prepareObserved cbor P env d signer w = (.ok prepared, w')) :
    ∃ context body, Wrapped cbor P env d signer prepared context body := by
  unfold prepareObserved prepareInner at h
  rw [Effect.bind_ok (Effect.update_apply _ _)] at h
  obtain ⟨context, hcontext, h⟩ := attempt_bind_eq_ok.mp h
  rw [Effect.bind_ok (Effect.update_apply _ _)] at h
  obtain ⟨⟨⟩, hsupported, h⟩ := attempt_bind_eq_ok.mp h
  obtain ⟨⟨⟩, -, h⟩ := attempt_bind_eq_ok.mp h
  obtain ⟨⟨credential, r1⟩, -, h⟩ := attempt_bind_eq_ok.mp h
  obtain ⟨⟨root, r2⟩, -, h⟩ := attempt_bind_eq_ok.mp h
  obtain ⟨⟨rootShares, r3⟩, hsplit, h⟩ := attempt_bind_eq_ok.mp h
  obtain ⟨⟨seed, r4⟩, -, h⟩ := attempt_bind_eq_ok.mp h
  obtain ⟨blob, hblob, h⟩ := attempt_bind_eq_ok.mp h
  obtain ⟨⟨⟩, -, h⟩ := attempt_bind_eq_ok.mp h
  obtain ⟨tpmKey, htpmKey, h⟩ := attempt_bind_eq_ok.mp h
  obtain ⟨tpmShare, htpmShare, h⟩ := Effect.ofExcept_bind_eq_ok.mp h
  obtain ⟨⟨tpmValue, r5⟩, htpmValue, h⟩ := attempt_bind_eq_ok.mp h
  obtain ⟨networkShare, hnetworkShare, h⟩ := Effect.ofExcept_bind_eq_ok.mp h
  obtain ⟨⟨shares, r6⟩, hshares, h⟩ := Effect.ofExcept_bind_eq_ok.mp h
  obtain ⟨reconstructed, -, h⟩ := Effect.ofExcept_bind_eq_ok.mp h
  obtain ⟨⟨⟩, -, h⟩ := attempt_bind_eq_ok.mp h
  obtain ⟨⟨leaves, r7⟩, w1, hleaves, h⟩ := Effect.bind_eq_ok.mp h
  obtain ⟨payloadKey, hpayloadKey, h⟩ := attempt_bind_eq_ok.mp h
  obtain ⟨⟨payload, r8⟩, hpayload, h⟩ := attempt_bind_eq_ok.mp h
  obtain ⟨envelope, henvelope, h⟩ := attempt_bind_eq_ok.mp h
  obtain ⟨⟨⟩, -, h⟩ := attempt_bind_eq_ok.mp h
  obtain ⟨hresult, -⟩ := Prod.mk.inj h
  obtain rfl := Except.ok.inj hresult
  refine ⟨context, ⟨d, blob, ⟨d.policy.tpmNodeId, tpmValue⟩ :: leaves, payload⟩,
    mapError_eq_ok.mp hcontext, ensure_eq_ok.mp hsupported, rfl, mapError_eq_ok.mp henvelope,
    seed, root, tpmKey, tpmShare.value, networkShare.value, payloadKey, shares, tpmValue, leaves,
    r4, r5, r6, r7, r8, rfl, hblob, mapError_eq_ok.mp htpmKey, mapError_eq_ok.mp htpmValue,
    shareAt_split (mapError_eq_ok.mp hsplit) htpmShare hnetworkShare, ?_,
    wrapLeaves_eq_ok hleaves, mapError_eq_ok.mp hpayloadKey, mapError_eq_ok.mp hpayload⟩
  exact Exec.mapError_eq_ok.mp hshares

/-- What was sealed opens again if the cipher decrypts what it encrypted. -/
theorem Wrapped.prepared (hdecrypt : P.DecryptsOwn) {prepared : PreparedEnrollment}
    {body : EnvelopeBody} (h : Wrapped cbor P env d signer prepared context body) :
    Prepared cbor P env d signer prepared context body := by
  obtain ⟨seed, root, tpmKey, tpmShare, networkShare, payloadKey, shares, tpmValue, leaves, r1, r2,
    r3, r4, r5, hbody, hseed, htpmKey, htpm, hroot, hshares, hleaves, hpayloadKey, hpayload⟩ :=
    h.sealed
  exact ⟨h.hashed, h.supported, h.descriptor, h.signed, seed, root, tpmKey, tpmShare, networkShare,
    payloadKey, shares, tpmValue, leaves, r2, r3, hbody, hseed, htpmKey,
    openKey_sealKey hdecrypt htpm, hroot, hshares, hleaves, hpayloadKey,
    openKey_sealKey hdecrypt hpayload⟩

/-- An enrollment that returns can be recovered from its envelope. -/
theorem prepareObserved_eq_ok (hdecrypt : P.DecryptsOwn) {prepared : PreparedEnrollment}
    (h : prepareObserved cbor P env d signer w = (.ok prepared, w')) :
    ∃ context body, Prepared cbor P env d signer prepared context body := by
  obtain ⟨context, body, hwrapped⟩ := prepareObserved_wrapped h
  exact ⟨context, body, hwrapped.prepared hdecrypt⟩

end Inversion

end Leelo.Engine
