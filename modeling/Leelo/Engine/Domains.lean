import Leelo.Engine.Safety
import Leelo.Envelope.Separation

/-!
# Domain separation

Each call of enrollment and unlocking consults the key derivation, the cipher and the
blinding only at the labels of its own role: any other answers elsewhere leave the call
unchanged. What a run wrapped or opened was wrapped or opened under the role that it is
for. The labels are separated by role, node and descriptor.
-/

namespace Leelo.Engine

open Leelo.Core Leelo.Crypto Leelo.Envelope Leelo.Policy
open Leelo.Sss (Secret Rng)

/-- Answers to the labelled operations of a suite. -/
structure Answers (P : Primitives) where
  hkdf : (salt ikm info : Bytes) → Option Secret
  encrypt : (key : Secret) → (nonce : Vector UInt8 12) → (aad : Bytes) → (plaintext : Secret) →
    Option (Secret × Vector UInt8 16)
  decrypt : (key : Secret) → (nonce : Vector UInt8 12) → (aad : Bytes) → (body : Secret) →
    (tag : Vector UInt8 16) → Option Secret
  blind : Bytes → Vector UInt8 32 → Option (P.Client × PointBytes)

/-- The suite with its labelled operations answered otherwise. -/
def Answers.suite {P : Primitives} (answers : Answers P) : Primitives :=
  { P with
    hkdf := answers.hkdf
    encrypt := answers.encrypt
    decrypt := answers.decrypt
    blind := answers.blind }

/-- The answers are the suite's own at the label and the associated data of one role. -/
structure Answers.AgreeAt {P : Primitives} (answers : Answers P) (context : Vector UInt8 48)
    (role : Role) : Prop where
  hkdf : ∀ salt ikm : Bytes,
    answers.hkdf salt ikm (role.info context) = P.hkdf salt ikm (role.info context)
  encrypt : ∀ (key : Secret) (nonce : Vector UInt8 12) (plaintext : Secret),
    answers.encrypt key nonce (role.associatedData context) plaintext =
      P.encrypt key nonce (role.associatedData context) plaintext
  decrypt : ∀ (key : Secret) (nonce : Vector UInt8 12) (body : Secret) (tag : Vector UInt8 16),
    answers.decrypt key nonce (role.associatedData context) body tag =
      P.decrypt key nonce (role.associatedData context) body tag

/-- The answers are the suite's own for one network leaf: at its role and its input. -/
structure Answers.AgreeLeaf {P : Primitives} (answers : Answers P) (d : Descriptor)
    (context : Vector UInt8 48) (binding : NetworkBinding) : Prop where
  role : answers.AgreeAt context (.network binding.nodeId)
  blind : ∀ seed : Vector UInt8 32,
    answers.blind (networkInput d binding) seed = P.blind (networkInput d binding) seed

/-- The answers are the suite's own for the TPM, the leaves and the payload of a descriptor. -/
structure Answers.AgreeOn {P : Primitives} (answers : Answers P) (d : Descriptor)
    (context : Vector UInt8 48) : Prop where
  tpm : answers.AgreeAt context (.tpm d.policy.tpmNodeId)
  leaves : ∀ binding ∈ d.networks, answers.AgreeLeaf d context binding
  payload : answers.AgreeAt context .payload

section Envelope

variable {cbor : Cbor} {P : Primitives} (answers : Answers P)

theorem fromBytes_suite (bytes : PointBytes) :
    (ServerPublicKey.fromBytes answers.suite bytes).isOk =
      (ServerPublicKey.fromBytes P bytes).isOk := by
  have hiff (Q : Primitives) :
      (ServerPublicKey.fromBytes Q bytes).isOk = true ↔ Q.Canonical bytes := by
    rw [isOk_eq_true_iff]
    constructor
    · rintro ⟨key, hkey⟩
      exact ServerPublicKey.fromBytes_eq_ok.mp hkey ▸ key.canonical
    · exact fun hcanonical => ⟨⟨bytes, hcanonical⟩, ServerPublicKey.fromBytes_eq_ok.mpr rfl⟩
  rw [Bool.eq_iff_iff, hiff, hiff]
  rfl

theorem verify_suite (trusted : Vector UInt8 32) (message : Bytes) (signature : Vector UInt8 64) :
    verify answers.suite trusted message signature = verify P trusted message signature := by
  unfold verify
  cases hkey : P.verifyingKeyOfBytes trusted with
  | none =>
    have hkey' : answers.suite.verifyingKeyOfBytes trusted = none := hkey
    rw [hkey']
  | some key =>
    have hkey' : answers.suite.verifyingKeyOfBytes trusted = some key := hkey
    rw [hkey']
    rfl

theorem checkBindings_suite (pairs : List ((UInt8 × ProviderId) × NetworkBinding)) :
    checkBindings answers.suite pairs = checkBindings P pairs := by
  induction pairs with
  | nil => rfl
  | cons pair pairs ih =>
    obtain ⟨⟨id, providerId⟩, binding⟩ := pair
    have hkeyId : keyId answers.suite binding.publicKey = keyId P binding.publicKey := rfl
    have hkey := fromBytes_suite answers binding.publicKey
    rw [checkBindings, checkBindings, hkeyId, ih]
    cases hown : ServerPublicKey.fromBytes P binding.publicKey with
    | error e =>
      cases hother : ServerPublicKey.fromBytes answers.suite binding.publicKey with
      | error e' => rfl
      | ok key' => rw [hown, hother] at hkey; cases hkey
    | ok key =>
      cases hother : ServerPublicKey.fromBytes answers.suite binding.publicKey with
      | error e' => rw [hown, hother] at hkey; cases hkey
      | ok key' => rfl

theorem descriptorBytes_suite (d : Descriptor) :
    descriptorBytes cbor answers.suite d = descriptorBytes cbor P d := by
  unfold descriptorBytes validateDescriptor
  rw [checkBindings_suite]

theorem contextHash_suite (d : Descriptor) :
    contextHash cbor answers.suite d = contextHash cbor P d := by
  unfold contextHash
  rw [descriptorBytes_suite]
  rfl

theorem bodyBytes_suite (b : EnvelopeBody) :
    bodyBytes cbor answers.suite b = bodyBytes cbor P b := by
  unfold bodyBytes
  rw [descriptorBytes_suite]

theorem sign_suite (b : EnvelopeBody) (key : P.SigningKey) :
    sign cbor answers.suite b key = sign cbor P b key := by
  unfold sign
  rw [bodyBytes_suite]
  rfl

theorem readDescriptor_suite (raw : Bytes) :
    readDescriptor cbor answers.suite raw = readDescriptor cbor P raw := by
  unfold readDescriptor
  simp only [descriptorBytes_suite]

theorem readBody_suite (raw : Bytes) :
    readBody cbor answers.suite raw = readBody cbor P raw := by
  unfold readBody getBody
  simp only [bodyBytes_suite, readDescriptor_suite]

theorem authenticate_suite (raw : Bytes) (trustedKey : Vector UInt8 32) :
    authenticate cbor answers.suite raw trustedKey = authenticate cbor P raw trustedKey := by
  unfold authenticate
  simp only [readBody_suite, contextHash_suite, verify_suite]

end Envelope

section Labelled

variable {P : Primitives} {answers : Answers P} {d : Descriptor} {context : Vector UInt8 48}
  {ρ : Type}

theorem deriveSecretKey_suite {role : Role} (h : answers.AgreeAt context role) (ikm : Bytes) :
    deriveSecretKey answers.suite ikm (role.associatedData context) role.purpose =
      deriveSecretKey P ikm (role.associatedData context) role.purpose := by
  have hown : answers.suite.hkdf (ascii "leelo/v1/hkdf-sha384") ikm (role.info context) =
      P.hkdf (ascii "leelo/v1/hkdf-sha384") ikm (role.info context) := h.hkdf _ ikm
  unfold deriveSecretKey
  rw [keyInfo_eq, ← Role.info, hown]

theorem sealKey_suite {role : Role} (h : answers.AgreeAt context role) (rng : Rng ρ)
    (key plaintext : Secret) (r : ρ) :
    sealKey answers.suite rng key plaintext (role.associatedData context) r =
      sealKey P rng key plaintext (role.associatedData context) r := by
  have hown (nonce : Vector UInt8 12) :
      answers.suite.encrypt key nonce (role.associatedData context) plaintext =
        P.encrypt key nonce (role.associatedData context) plaintext :=
    h.encrypt key nonce plaintext
  unfold sealKey
  simp only [hown]

theorem openKey_suite {role : Role} (h : answers.AgreeAt context role) (key : Secret)
    (wrapped : WrappedKey) :
    openKey answers.suite key wrapped (role.associatedData context) =
      openKey P key wrapped (role.associatedData context) := by
  have hown : answers.suite.decrypt key wrapped.nonce (role.associatedData context) wrapped.body
      wrapped.tag = P.decrypt key wrapped.nonce (role.associatedData context) wrapped.body
      wrapped.tag := h.decrypt key wrapped.nonce wrapped.body wrapped.tag
  unfold openKey
  rw [hown]

/-- Finalizing uses no labelled operation. -/
theorem finalize_suite (client : P.Client) (input : Bytes) (response : Evaluation)
    {pin : ServerPublicKey P} {pin' : ServerPublicKey answers.suite}
    (hpin : pin'.bytes = pin.bytes) :
    BlindState.finalize answers.suite ⟨client, input⟩ response pin' =
      BlindState.finalize P ⟨client, input⟩ response pin := by
  unfold BlindState.finalize
  rw [hpin]
  cases helement : P.deserializeElement response.element with
  | none =>
    have helement' : answers.suite.deserializeElement response.element = none := helement
    rw [helement']
  | some element =>
    have helement' : answers.suite.deserializeElement response.element = some element := helement
    rw [helement']
    cases hproof : P.deserializeProof response.proof with
    | none =>
      have hproof' : answers.suite.deserializeProof response.proof = none := hproof
      simp only [hproof']
    | some proof =>
      have hproof' : answers.suite.deserializeProof response.proof = some proof := hproof
      simp only [hproof']
      cases hpoint : P.deserializeElem pin.bytes with
      | none =>
        have hpoint' : answers.suite.deserializeElem pin.bytes = none := hpoint
        simp only [hpoint']
      | some point =>
        have hpoint' : answers.suite.deserializeElem pin.bytes = some point := hpoint
        simp only [hpoint']
        rfl

/-- A blinded request has the same state under both suites. -/
theorem blind_suite {binding : NetworkBinding} (h : answers.AgreeLeaf d context binding)
    (rng : Rng ρ) (r : ρ) :
    blind answers.suite rng (networkInput d binding) r =
      (blind P rng (networkInput d binding) r).map fun request =>
        ((⟨request.1.1.inner, request.1.1.input⟩, request.1.2), request.2) := by
  have hown (seed : Vector UInt8 32) : answers.suite.blind (networkInput d binding) seed =
      P.blind (networkInput d binding) seed := h.blind seed
  unfold blind
  by_cases hinput : networkInput d binding = [] ∨
      (networkInput d binding).length > maxInputBytes
  · rw [if_pos hinput, if_pos hinput]
    rfl
  rw [if_neg hinput, if_neg hinput]
  cases randomBytes rng 32 r with
  | error e => rfl
  | ok drawn =>
    obtain ⟨seed, r1⟩ := drawn
    simp only [ok_bind]
    cases hblind : P.blind (networkInput d binding) seed with
    | none =>
      have hblind' := (hown seed).trans hblind
      simp only [hblind']
      rfl
    | some request =>
      have hblind' := (hown seed).trans hblind
      simp only [hblind']
      rfl

/-- A leaf's key depends on the suite at its own role and input only. -/
theorem networkKey_suite {binding : NetworkBinding} (h : answers.AgreeLeaf d context binding)
    (rng : Rng ρ) (net : NetworkProvider) (deadline : Nat) (r : ρ) :
    networkKey answers.suite rng d binding context net deadline r =
      networkKey P rng d binding context net deadline r := by
  have hderive (output : Vector UInt8 outputBytes) :
      deriveWrapKey answers.suite output (leafContext context binding.nodeId) =
        deriveWrapKey P output (leafContext context binding.nodeId) :=
    deriveSecretKey_suite h.role output.toList
  have hkey := fromBytes_suite answers binding.publicKey
  unfold networkKey
  rw [blind_suite h]
  cases blind P rng (networkInput d binding) r with
  | error e => rfl
  | ok request =>
    obtain ⟨⟨⟨client, input⟩, message⟩, r1⟩ := request
    simp only [Except.map, Except.mapError, ok_bind, hderive]
    cases net.evaluate binding message deadline with
    | error e => rfl
    | ok evaluation =>
      simp only [ok_bind]
      cases hown : ServerPublicKey.fromBytes P binding.publicKey with
      | error e =>
        cases hother : ServerPublicKey.fromBytes answers.suite binding.publicKey with
        | error e' => rfl
        | ok pin' => rw [hown, hother] at hkey; cases hkey
      | ok pin =>
        cases hother : ServerPublicKey.fromBytes answers.suite binding.publicKey with
        | error e' => rw [hown, hother] at hkey; cases hkey
        | ok pin' =>
          have hpin : pin'.bytes = pin.bytes :=
            (ServerPublicKey.fromBytes_eq_ok.mp hother).trans
              (ServerPublicKey.fromBytes_eq_ok.mp hown).symm
          simp only [ok_bind, finalize_suite client input evaluation hpin]

end Labelled

section Operations

variable {cbor : Cbor} {P : Primitives} {answers : Answers P} {d : Descriptor}
  {context : Vector UInt8 48} {ρ : Type}

theorem derive_tpm_suite {nodeId : UInt8} (h : answers.AgreeAt context (.tpm nodeId))
    (ikm : Bytes) :
    derive answers.suite ikm (leafContext context nodeId) (ascii "leelo/v1/tpm-wrap") =
      derive P ikm (leafContext context nodeId) (ascii "leelo/v1/tpm-wrap") :=
  congrArg _ (deriveSecretKey_suite h ikm)

theorem derive_payload_suite (h : answers.AgreeAt context .payload) (ikm : Bytes) :
    derive answers.suite ikm context.toList (ascii "leelo/v1/luks-slot") =
      derive P ikm context.toList (ascii "leelo/v1/luks-slot") :=
  congrArg _ (deriveSecretKey_suite h ikm)

/-- Wrapping a leaf's own share depends on the suite at the leaf's role and input only. -/
theorem wrapLeaf_suite {binding : NetworkBinding} (h : answers.AgreeLeaf d context binding)
    {share : NetworkShare} (hid : share.1 = binding.nodeId) (env : EnrollEnvironment ρ)
    (deadline index : Nat) (r : ρ) :
    wrapLeaf answers.suite env d context deadline index share binding r =
      wrapLeaf P env d context deadline index share binding r := by
  have hseal (key : Secret) (r : ρ) :
      sealKey answers.suite env.rng key share.2 (leafContext context binding.nodeId) r =
        sealKey P env.rng key share.2 (leafContext context binding.nodeId) r :=
    sealKey_suite h.role env.rng key share.2 r
  have hopen (key : Secret) (wrapped : WrappedKey) :
      openKey answers.suite key wrapped (leafContext context binding.nodeId) =
        openKey P key wrapped (leafContext context binding.nodeId) :=
    openKey_suite h.role key wrapped
  unfold wrapLeaf
  simp only [hid, networkKey_suite h, hseal, hopen]

theorem attempt_bind_congr {α β : Type} {result : Except EngineError α}
    {f g : α → Effect World (Halt EngineError) β} (h : ∀ a, result = .ok a → f a = g a) :
    attempt result >>= f = attempt result >>= g := by
  cases result with
  | error e => rfl
  | ok a => exact h a rfl

/-- The shares are wrapped only against bindings of the same node. -/
theorem wrapLeaves_suite (env : EnrollEnvironment ρ) (deadline index : Nat)
    {pairs : List (NetworkShare × NetworkBinding)}
    (h : ∀ pair ∈ pairs, answers.AgreeLeaf d context pair.2) (r : ρ) :
    wrapLeaves answers.suite env d context deadline index pairs r =
      wrapLeaves P env d context deadline index pairs r := by
  induction pairs generalizing index r with
  | nil => rfl
  | cons pair pairs ih =>
    obtain ⟨share, binding⟩ := pair
    obtain ⟨hleaf, hrest⟩ := List.forall_mem_cons.mp h
    unfold wrapLeaves
    refine attempt_bind_congr fun _ hensure => ?_
    rw [wrapLeaf_suite hleaf (ensure_eq_ok.mp hensure)]
    refine bind_congr ?_
    rintro ⟨leaf, r1⟩
    dsimp only
    rw [ih _ hrest]

/-- Enrollment asks only for the labels of its own descriptor. -/
theorem prepareObserved_suite (env : EnrollEnvironment ρ) (signer : P.SigningKey)
    (h : ∀ context, contextHash cbor P d = .ok context → answers.AgreeOn d context) :
    prepareObserved cbor answers.suite env d signer = prepareObserved cbor P env d signer := by
  unfold prepareObserved prepareInner
  rw [contextHash_suite]
  refine bind_congr fun _ => attempt_bind_congr fun context hcontext => ?_
  have hagree := h context (mapError_eq_ok.mp hcontext)
  refine bind_congr fun _ => bind_congr fun _ => bind_congr fun _ => bind_congr ?_
  rintro ⟨credential, r1⟩
  refine bind_congr ?_
  rintro ⟨root, r2⟩
  refine bind_congr ?_
  rintro ⟨rootShares, r3⟩
  refine bind_congr ?_
  rintro ⟨seed, r4⟩
  refine bind_congr fun blob => bind_congr fun _ => ?_
  dsimp only
  rw [derive_tpm_suite hagree.tpm]
  refine bind_congr fun tpmKey => bind_congr fun tpmShare => ?_
  have hseal : sealKey answers.suite env.rng tpmKey tpmShare.value
      (leafContext context d.policy.tpmNodeId) r4 = sealKey P env.rng tpmKey tpmShare.value
      (leafContext context d.policy.tpmNodeId) r4 :=
    sealKey_suite hagree.tpm env.rng tpmKey tpmShare.value r4
  rw [hseal]
  refine bind_congr ?_
  rintro ⟨tpmValue, r5⟩
  refine bind_congr fun networkShare => bind_congr ?_
  rintro ⟨shares, r6⟩
  refine bind_congr fun reconstructed => bind_congr fun _ => ?_
  dsimp only
  have hleaves : ∀ pair ∈ shares.zip d.networks, answers.AgreeLeaf d context pair.2 :=
    fun pair hpair => hagree.leaves pair.2 (List.of_mem_zip hpair).2
  rw [wrapLeaves_suite env _ 0 hleaves]
  refine bind_congr ?_
  rintro ⟨leaves, r7⟩
  dsimp only
  rw [derive_payload_suite hagree.payload]
  refine bind_congr fun payloadKey => ?_
  have hpayload : sealKey answers.suite env.rng payloadKey credential context.toList r7 =
      sealKey P env.rng payloadKey credential context.toList r7 :=
    sealKey_suite hagree.payload env.rng payloadKey credential r7
  rw [hpayload]
  refine bind_congr ?_
  rintro ⟨payload, r8⟩
  dsimp only
  rw [sign_suite]

theorem begin_suite (env : Environment ρ) (raw : Bytes) (signer : Vector UInt8 32)
    (volume : Vector UInt8 16) (slot : UInt8) (deadline : Nat) :
    UnlockOperation.begin cbor answers.suite env raw signer volume slot deadline =
      UnlockOperation.begin cbor P env raw signer volume slot deadline := by
  unfold UnlockOperation.begin
  rw [authenticate_suite]

section Envelope

variable {envelope : AuthenticatedEnvelope}

/-- Opening a leaf depends on the suite at the leaf's role and input only. -/
theorem recoverLeaf_suite {binding : NetworkBinding}
    (h : answers.AgreeLeaf envelope.body.descriptor envelope.context binding) (rng : Rng ρ)
    (net : NetworkProvider) (deadline : Nat) (r : ρ) :
    recoverLeaf answers.suite rng envelope binding net deadline r =
      recoverLeaf P rng envelope binding net deadline r := by
  have hopen (key : Secret) (wrapped : WrappedKey) :
      openKey answers.suite key wrapped (leafContext envelope.context binding.nodeId) =
        openKey P key wrapped (leafContext envelope.context binding.nodeId) :=
    openKey_suite h.role key wrapped
  unfold recoverLeaf
  simp only [networkKey_suite h, hopen]

/-- The TPM share depends on the suite at the TPM's role only. -/
theorem tpmEvidence_suite
    (h : answers.AgreeAt envelope.context (.tpm envelope.body.descriptor.policy.tpmNodeId))
    (unsealed : UnsealedSeed) :
    TpmEvidence.authenticate answers.suite unsealed envelope =
      TpmEvidence.authenticate P unsealed envelope := by
  have hopen (key : Secret) (wrapped : WrappedKey) :
      openKey answers.suite key wrapped
          (leafContext envelope.context envelope.body.descriptor.policy.tpmNodeId) =
        openKey P key wrapped
          (leafContext envelope.context envelope.body.descriptor.policy.tpmNodeId) :=
    openKey_suite h key wrapped
  unfold TpmEvidence.authenticate
  simp only [derive_tpm_suite h, hopen]

/-- The credential depends on the suite at the payload's role only. -/
theorem payloadEvidence_suite (h : answers.AgreeAt envelope.context .payload) (root : Secret) :
    PayloadEvidence.authenticate answers.suite root envelope =
      PayloadEvidence.authenticate P root envelope := by
  have hopen (key : Secret) : openKey answers.suite key envelope.body.payload
      envelope.context.toList = openKey P key envelope.body.payload envelope.context.toList :=
    openKey_suite h key envelope.body.payload
  unfold PayloadEvidence.authenticate
  simp only [derive_payload_suite h, hopen]

end Envelope

theorem run_suite (env : Environment ρ) {op : UnlockOperation}
    (h : answers.AgreeOn op.envelope.body.descriptor op.envelope.context) :
    op.run answers.suite env = op.run P env := by
  have hnetwork : recoverNetworkObserved op.envelope.body.descriptor
      (leafResult answers.suite env op.envelope op.deadline) env.wakes =
        recoverNetworkObserved op.envelope.body.descriptor
          (leafResult P env op.envelope op.deadline) env.wakes :=
    recoverNetworkObserved_congr (fun binding hbinding =>
      recoverLeaf_suite (h.leaves binding hbinding) env.rng env.net op.deadline
        (env.entropy binding)) env.wakes
  unfold UnlockOperation.run
  simp only [hnetwork, tpmEvidence_suite h.tpm, payloadEvidence_suite h.payload]

/-- Unlocking asks only for the labels of the envelope that it authenticated. -/
theorem unlockObserved_suite (env : Environment ρ) (raw : Bytes) (signer : Vector UInt8 32)
    (volume : Vector UInt8 16) (slot : UInt8)
    (h : ∀ envelope, authenticate cbor P raw signer = .ok envelope →
      answers.AgreeOn envelope.body.descriptor envelope.context) :
    unlockObserved cbor answers.suite env raw signer volume slot =
      unlockObserved cbor P env raw signer volume slot := by
  unfold unlockObserved
  rw [begin_suite]
  refine bind_congr fun _ => Effect.bind_congr_of_ok fun w op w' hbegin => ?_
  have hauthentic := UnlockOperation.begin_eq_ok hbegin
  rw [run_suite env (h op.envelope hauthentic.1)]

end Operations

/-- Each call asks the labelled operations only at the labels of its own role, whatever they
answer elsewhere. -/
structure CallsSeparated (cbor : Cbor) {P : Primitives} (answers : Answers P) : Prop where
  networkKey : ∀ {ρ : Type} (rng : Rng ρ) (d : Descriptor) (binding : NetworkBinding)
    (context : Vector UInt8 48) (net : NetworkProvider) (deadline : Nat) (r : ρ),
    answers.AgreeLeaf d context binding →
    networkKey answers.suite rng d binding context net deadline r =
      networkKey P rng d binding context net deadline r
  wrapLeaf : ∀ {ρ : Type} (env : EnrollEnvironment ρ) (d : Descriptor)
    (context : Vector UInt8 48) (deadline index : Nat) (share : NetworkShare)
    (binding : NetworkBinding) (r : ρ), share.1 = binding.nodeId →
    answers.AgreeLeaf d context binding →
    wrapLeaf answers.suite env d context deadline index share binding r =
      wrapLeaf P env d context deadline index share binding r
  recoverLeaf : ∀ {ρ : Type} (rng : Rng ρ) (envelope : AuthenticatedEnvelope)
    (binding : NetworkBinding) (net : NetworkProvider) (deadline : Nat) (r : ρ),
    answers.AgreeLeaf envelope.body.descriptor envelope.context binding →
    recoverLeaf answers.suite rng envelope binding net deadline r =
      recoverLeaf P rng envelope binding net deadline r
  tpmEvidence : ∀ (unsealed : UnsealedSeed) (envelope : AuthenticatedEnvelope),
    answers.AgreeAt envelope.context (.tpm envelope.body.descriptor.policy.tpmNodeId) →
    TpmEvidence.authenticate answers.suite unsealed envelope =
      TpmEvidence.authenticate P unsealed envelope
  payloadEvidence : ∀ (root : Secret) (envelope : AuthenticatedEnvelope),
    answers.AgreeAt envelope.context .payload →
    PayloadEvidence.authenticate answers.suite root envelope =
      PayloadEvidence.authenticate P root envelope
  prepare : ∀ {ρ : Type} (env : EnrollEnvironment ρ) (d : Descriptor) (signer : P.SigningKey),
    (∀ context, contextHash cbor P d = .ok context → answers.AgreeOn d context) →
    prepareObserved cbor answers.suite env d signer = prepareObserved cbor P env d signer
  unlock : ∀ {ρ : Type} (env : Environment ρ) (raw : Bytes) (signer : Vector UInt8 32)
    (volume : Vector UInt8 16) (slot : UInt8),
    (∀ envelope, authenticate cbor P raw signer = .ok envelope →
      contextHash cbor P envelope.body.descriptor = .ok envelope.context →
      answers.AgreeOn envelope.body.descriptor envelope.context) →
    unlockObserved cbor answers.suite env raw signer volume slot =
      unlockObserved cbor P env raw signer volume slot

theorem callsSeparated (cbor : Cbor) {P : Primitives} (answers : Answers P) :
    CallsSeparated cbor answers where
  networkKey rng _ _ _ net deadline r h := networkKey_suite h rng net deadline r
  wrapLeaf env _ _ deadline index _ _ r hid h := wrapLeaf_suite h hid env deadline index r
  recoverLeaf rng _ _ net deadline r h := recoverLeaf_suite h rng net deadline r
  tpmEvidence unsealed _ h := tpmEvidence_suite h unsealed
  payloadEvidence root _ h := payloadEvidence_suite h root
  prepare env _ signer h := prepareObserved_suite env signer h
  unlock env raw signer volume slot h := by
    refine unlockObserved_suite env raw signer volume slot fun envelope henvelope => ?_
    obtain ⟨body, signature, -, -, -, hcontext⟩ := authenticate_eq_ok henvelope
    exact h envelope henvelope hcontext

section Roles

variable (cbor : Cbor) (P : Primitives) {ρ : Type}

/-- An enrollment wrapped each share and the credential under the role that it is for: the
TPM share from the sealed seed, each network share from its own leaf's output, and the
credential from the root. -/
structure EnrolledUnder (env : EnrollEnvironment ρ) (d : Descriptor) (signer : P.SigningKey)
    (prepared : PreparedEnrollment) (context : Vector UInt8 48) (body : EnvelopeBody) :
    Prop where
  hashed : contextHash cbor P d = .ok context
  descriptor : body.descriptor = d
  signed : sign cbor P body signer = .ok prepared.envelope
  wrapped : ∃ (seed root tpmShare networkShare : Secret) (shares : List NetworkShare)
      (tpmValue : WrappedKey) (leaves : List WrappedLeaf) (r r' : ρ),
    body.leaves = ⟨d.policy.tpmNodeId, tpmValue⟩ :: leaves ∧
    env.tpm.sealSeed d seed = .ok body.tpm ∧
    (Role.tpm d.policy.tpmNodeId).Wraps P context seed.toList tpmShare tpmValue ∧
    Sss.reconstruct 2 [⟨1, tpmShare, by decide⟩, ⟨2, networkShare, by decide⟩] = .ok root ∧
    d.policy.splitNetwork env.rng networkShare r = .ok (shares, r') ∧
    List.Forall₂ (fun pair leaf => leaf.nodeId = pair.1.1 ∧ pair.1.1 = pair.2.nodeId ∧
      ∃ r r' output, Finalized P env.rng d pair.2 env.net (env.clock 0 + operationBudget) r r'
          output ∧
        (Role.network pair.2.nodeId).Wraps P context output.toList pair.1.2 leaf.value)
      (shares.zip d.networks) leaves ∧
    Role.payload.Wraps P context root.toList prepared.credential body.payload

/-- An unlock opened each share and the credential under the role that it is for. -/
structure UnlockedUnder (env : Environment ρ) (raw : Bytes) (signer : Vector UInt8 32)
    (result : UnlockResult) (envelope : AuthenticatedEnvelope) : Prop where
  authentic : ∃ body signature, raw = putSigned cbor body signature ∧
    verify P signer (signInput body) signature = .ok () ∧
    bodyBytes cbor P envelope.body = .ok body
  hashed : contextHash cbor P envelope.body.descriptor = .ok envelope.context
  opened : ∃ (shares : List NetworkShare) (unsealed : UnsealedSeed) (tpmLeaf : WrappedLeaf)
      (tpmShare networkShare root : Secret),
    (∀ id share, (id, share) ∈ shares → ∃ binding ∈ envelope.body.descriptor.networks,
      binding.nodeId = id ∧ ∃ r' output wrapped,
        Finalized P env.rng envelope.body.descriptor binding env.net
          (env.clock 0 + operationBudget) (env.entropy binding) r' output ∧
        envelope.body.leaves.find? (·.nodeId == id) = some wrapped ∧
        (Role.network id).Opens P envelope.context output.toList wrapped.value share) ∧
    envelope.body.descriptor.policy.recoverNetwork shares = .ok networkShare ∧
    env.tpm.unsealSeed envelope = .ok unsealed ∧
    envelope.body.leaves.head? = some tpmLeaf ∧
    (Role.tpm envelope.body.descriptor.policy.tpmNodeId).Opens P envelope.context
      unsealed.seed.toList tpmLeaf.value tpmShare ∧
    Sss.reconstruct 2 [⟨1, tpmShare, by decide⟩, ⟨2, networkShare, by decide⟩] = .ok root ∧
    Role.payload.Opens P envelope.context root.toList envelope.body.payload result.credential

variable {cbor P}

theorem LeafWrapped.under {env : EnrollEnvironment ρ} {d : Descriptor}
    {context : Vector UInt8 48} {deadline : Nat} {pair : NetworkShare × NetworkBinding}
    {leaf : WrappedLeaf} (h : LeafWrapped P env d context deadline pair leaf) :
    ∃ r r' output, Finalized P env.rng d pair.2 env.net deadline r r' output ∧
      (Role.network pair.2.nodeId).Wraps P context output.toList pair.1.2 leaf.value := by
  obtain ⟨r, r1, r2, key, hkey, hseal, -⟩ := h.wrapped
  obtain ⟨output, hevaluated⟩ := networkKey_eq_ok.mp hkey
  exact ⟨r, r1, output, hevaluated.finalized, Role.wraps_of_sealKey hevaluated.derived hseal⟩

theorem Wrapped.under {env : EnrollEnvironment ρ} {d : Descriptor} {signer : P.SigningKey}
    {prepared : PreparedEnrollment} {context : Vector UInt8 48} {body : EnvelopeBody}
    (h : Wrapped cbor P env d signer prepared context body) :
    EnrolledUnder cbor P env d signer prepared context body := by
  obtain ⟨seed, root, tpmKey, tpmShare, networkShare, payloadKey, shares, tpmValue, leaves, r1, r2,
    r3, r4, r5, hbody, hseed, htpmKey, htpm, hroot, hshares, hleaves, hpayloadKey, hpayload⟩ :=
    h.sealed
  refine ⟨h.hashed, h.descriptor, h.signed, seed, root, tpmShare, networkShare, shares, tpmValue,
    leaves, r2, r3, hbody, hseed, Role.wraps_of_sealKey htpmKey htpm, hroot, hshares, ?_,
    Role.wraps_of_sealKey hpayloadKey hpayload⟩
  exact hleaves.imp fun pair leaf hleaf => ⟨hleaf.named, hleaf.bound, hleaf.under⟩

/-- A release opens under the envelope's roles. -/
theorem Released.under {env : Environment ρ} {raw : Bytes} {signer : Vector UInt8 32}
    {volume : Vector UInt8 16} {slot : UInt8} {result : UnlockResult}
    {envelope : AuthenticatedEnvelope} {before after : List Call}
    (h : Released cbor P env raw signer volume slot result envelope before after) :
    UnlockedUnder cbor P env raw signer result envelope := by
  obtain ⟨body, signature, hraw, hverify, hbody, hcontext⟩ := h.authentic
  obtain ⟨shares, completed, unsealed, tpmLeaf, tpmKey, tpmShare, networkShare, root, payloadKey,
    hopened, -, -, -, -, hunsealed, -, hhead, hfirst, htpmKey, htpm, hnetwork, hroot, hpayloadKey,
    hpayload⟩ := h.recovered
  rw [hfirst] at htpmKey htpm
  refine ⟨⟨body, signature, hraw, hverify, hbody⟩, hcontext, shares, unsealed, tpmLeaf, tpmShare,
    networkShare, root, ?_, hnetwork, hunsealed, hhead, Role.opens_of_openKey htpmKey htpm, hroot,
    Role.opens_of_openKey hpayloadKey hpayload⟩
  intro id share hmem
  obtain ⟨binding, rfl, hleaf⟩ := hopened id share hmem
  obtain ⟨key, r', output, wrapped, hevaluated, hfind, hopen⟩ := hleaf.opened
  exact ⟨binding, hleaf.bound, rfl, r', output, wrapped, hevaluated.finalized, hfind,
    Role.opens_of_openKey hevaluated.derived hopen⟩

end Roles

/-- Every derived key and evaluation input has a domain of its own: equal labels belong to one role,
node and descriptor unless two context inputs collide, and every ciphertext was made or opened under
the key and the data of its role. -/
theorem domain_separation (cbor : Cbor) (P : Primitives) (hcbor : cbor.Rfc8949) :
    Set.InjOn (descriptorBytes cbor P) {d | d.Valid P} ∧
    (∀ descriptors : Set Descriptor, Set.InjOn P.sha384 (contextInput cbor '' descriptors) →
      ∀ d ∈ descriptors, ∀ d' ∈ descriptors, d.Valid P → d'.Valid P →
        ∃ context context', contextHash cbor P d = .ok context ∧
          contextHash cbor P d' = .ok context' ∧
          ∀ role role' : Role, role.info context = role'.info context' → role = role' ∧ d = d') ∧
    (∀ (context context' : Vector UInt8 48) (nodeId : UInt8),
      (Role.tpm nodeId).associatedData context ≠ Role.payload.associatedData context' ∧
      (Role.network nodeId).associatedData context ≠ Role.payload.associatedData context') ∧
    (∀ (d d' : Descriptor) (n n' : NetworkBinding),
      (networkInput d n = networkInput d' n' →
        d.bindingId = d'.bindingId ∧ n.nodeId = n'.nodeId ∧ n.inputSeed = n'.inputSeed) ∧
      networkInput d n ≠ probeInput) ∧
    (∀ answers : Answers P, CallsSeparated cbor answers) ∧
    (∀ (ρ : Type) (env : EnrollEnvironment ρ) (d : Descriptor) (signer : P.SigningKey)
        (prepared : PreparedEnrollment) (w w' : World),
      prepareObserved cbor P env d signer w = (.ok prepared, w') →
        ∃ context body, EnrolledUnder cbor P env d signer prepared context body) ∧
    ∀ (ρ : Type) (env : Environment ρ) (raw : Bytes) (signer : Vector UInt8 32)
        (volume : Vector UInt8 16) (slot : UInt8) (result : UnlockResult) (w w' : World),
      unlockObserved cbor P env raw signer volume slot w = (.ok result, w') →
        ∃ envelope, UnlockedUnder cbor P env raw signer result envelope := by
  refine ⟨?_, ?_, ?_, ?_, callsSeparated cbor, ?_, ?_⟩
  · intro d hd d' hd' hsame
    have hbytes : descriptorBytes cbor P d = .ok (putDescriptor cbor d) :=
      descriptorBytes_eq_ok.mpr ⟨hd, rfl⟩
    exact descriptorBytes_inj hcbor hbytes (hsame ▸ hbytes)
  · intro descriptors hfree d hd d' hd' hvalid hvalid'
    have hcontext : contextHash cbor P d = .ok _ := contextHash_eq_ok.mpr ⟨hvalid, rfl⟩
    have hcontext' : contextHash cbor P d' = .ok _ := contextHash_eq_ok.mpr ⟨hvalid', rfl⟩
    refine ⟨_, _, hcontext, hcontext', fun role role' hinfo => ?_⟩
    obtain ⟨hrole, hsame⟩ := Role.info_inj hinfo
    rw [hsame] at hcontext
    exact ⟨hrole, contextHash_injOn hcbor hfree hd hd' hcontext hcontext'⟩
  · intro context context' nodeId
    exact ⟨leafContext_ne_payload context context' nodeId,
      leafContext_ne_payload context context' nodeId⟩
  · intro d d' n n'
    exact ⟨networkInput_inj, networkInput_ne_probeInput d n⟩
  · intro ρ env d signer prepared w w' hprepare
    obtain ⟨context, body, hwrapped⟩ := prepareObserved_wrapped hprepare
    exact ⟨context, body, hwrapped.under⟩
  · intro ρ env raw signer volume slot result w w' hunlock
    obtain ⟨envelope, hreleased⟩ := released_of_unlockObserved hunlock
    exact ⟨envelope, hreleased.under⟩

/-- The pair descriptor under another binding identifier. -/
def otherDescriptor : Descriptor := { pairDescriptor with bindingId := Vector.replicate 32 3 }

theorem otherDescriptor_valid : otherDescriptor.Valid transparent :=
  ⟨by decide, pairDescriptor_valid.leaves, pairDescriptor_valid.keys,
    pairDescriptor_valid.distinct⟩

/-- Two bindings of one volume share no label, and the enrollment of the first wraps under the
roles of its own context. -/
theorem domain_separation_other :
    (∃ context context', contextHash rfc8949 transparent pairDescriptor = .ok context ∧
      contextHash rfc8949 transparent otherDescriptor = .ok context' ∧
      ∀ role role' : Role, role.info context ≠ role'.info context') ∧
    ∃ prepared context body, EnrolledUnder rfc8949 transparent pairEnrollment pairDescriptor
      (Vector.replicate 32 5) prepared context body := by
  have hseparated := domain_separation rfc8949 transparent rfc8949_spec
  have hne : transparent.sha384 (contextInput rfc8949 pairDescriptor) ≠
      transparent.sha384 (contextInput rfc8949 otherDescriptor) := by
    decide +kernel
  have hfree : Set.InjOn transparent.sha384
      (contextInput rfc8949 '' {pairDescriptor, otherDescriptor}) := by
    rw [Set.image_pair, Set.injOn_pair]
    exact fun hsame => absurd hsame hne
  constructor
  · obtain ⟨context, context', hcontext, hcontext', hinfo⟩ :=
      hseparated.2.1 _ hfree pairDescriptor (.inl rfl) otherDescriptor (.inr rfl)
        pairDescriptor_valid otherDescriptor_valid
    refine ⟨context, context', hcontext, hcontext', fun role role' hsame => hne ?_⟩
    rw [← (hinfo role role' hsame).2]
  · obtain ⟨prepared, w', hprepare⟩ := pairEnrollment_succeeds
    exact ⟨prepared, hseparated.2.2.2.2.2.1 _ _ _ _ _ _ _ hprepare⟩

end Leelo.Engine
