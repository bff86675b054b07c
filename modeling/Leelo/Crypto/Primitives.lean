import Leelo.Core.Cbor
import Leelo.Core.Exec
import Leelo.Sss.Sharing

/-!
# The fixed cryptographic suite

`Primitives` holds the library operations below the wrappers: SHA-384, HKDF,
ChaCha20-Poly1305, Ed25519 and the P-384 VOPRF. Nothing is assumed of them here; a
result that needs a primitive to be correct says so in a hypothesis. The wrappers
add the bounds, the framing and the error of each failed step.
-/

namespace Leelo.Crypto

open Leelo.Core
open Leelo.Sss (Secret Rng)

/-- The octets of a text. -/
def ascii (text : String) : Bytes := text.toByteArray.data.toList

/-- The length of a compressed point of P-384. -/
def pointBytes : Nat := 49
/-- The length of a proof. -/
def proofBytes : Nat := 96
/-- The length of the output of the function. -/
def outputBytes : Nat := 48
/-- The largest input that is blinded. -/
def maxInputBytes : Nat := 1024
/-- The largest message, context or associated data. -/
def maxContextBytes : Nat := 65536

/-- A compressed group element on the wire. -/
abbrev PointBytes := Vector UInt8 pointBytes

/-- One ciphertext of a 32-byte secret, with its tag at the end. -/
structure WrappedKey where
  nonce : Vector UInt8 12
  ciphertext : Vector UInt8 48
  deriving DecidableEq

/-- The public bytes of a VOPRF response. -/
structure Evaluation where
  element : PointBytes
  proof : Vector UInt8 proofBytes
  deriving DecidableEq

/-- Errors of the wrappers. -/
inductive CryptoError where
  | invalidInput
  | invalidEncoding
  | invalidProof
  | authentication
  | randomness
  | cryptographicOperation
  deriving DecidableEq, Repr

/-- The library operations that the wrappers call. -/
structure Primitives where
  /-- P-384 group elements, evaluated elements, DLEQ proofs and client states. -/
  Point : Type
  Element : Type
  Proof : Type
  Client : Type
  /-- Ed25519 keys. -/
  SigningKey : Type
  VerifyingKey : Type
  sha384 : Bytes → Vector UInt8 48
  /-- Extract with a salt, expand with the concatenated info. -/
  hkdf : (salt ikm info : Bytes) → Option Secret
  encrypt : (key : Secret) → (nonce : Vector UInt8 12) → (aad : Bytes) → (plaintext : Secret) →
    Option (Secret × Vector UInt8 16)
  decrypt : (key : Secret) → (nonce : Vector UInt8 12) → (aad : Bytes) → (body : Secret) →
    (tag : Vector UInt8 16) → Option Secret
  verifyingKey : SigningKey → VerifyingKey
  verifyingKeyBytes : VerifyingKey → Vector UInt8 32
  verifyingKeyOfBytes : Vector UInt8 32 → Option VerifyingKey
  sign : SigningKey → Bytes → Vector UInt8 64
  verifyStrict : VerifyingKey → Bytes → Vector UInt8 64 → Bool
  deserializeElem : PointBytes → Option Point
  serializeElem : Point → PointBytes
  /-- Blind an input with the stream that a 32-byte seed determines. -/
  blind : Bytes → Vector UInt8 32 → Option (Client × PointBytes)
  deserializeElement : PointBytes → Option Element
  deserializeProof : Vector UInt8 proofBytes → Option Proof
  finalize : Client → Bytes → Element → Proof → Point → Option (Vector UInt8 outputBytes)

variable (P : Primitives)

/-- Ask the operating system for `n` bytes. -/
def randomBytes {ρ : Type} (rng : Rng ρ) (n : Nat) (r : ρ) :
    Except CryptoError (Vector UInt8 n × ρ) :=
  match rng.tryFillBytes n r with
  | some result => .ok result
  | none => .error .randomness

/-- The first 32 bytes of the SHA-384 digest name a public key. -/
def keyId (serverKey : PointBytes) : Vector UInt8 32 :=
  Vector.ofFn fun i => (P.sha384 serverKey.toList).get (Fin.castAdd 16 i)

/-- The bytes name a point and are the encoding of that point. -/
def Primitives.Canonical (bytes : PointBytes) : Prop :=
  ∃ point, P.deserializeElem bytes = some point ∧ P.serializeElem point = bytes

/-- A public key in canonical compressed form. -/
structure ServerPublicKey where
  bytes : PointBytes
  canonical : P.Canonical bytes

/-- Reads a pinned key: the bytes decode, and to their canonical form. -/
def ServerPublicKey.fromBytes (bytes : PointBytes) : Except CryptoError (ServerPublicKey P) :=
  match h : P.deserializeElem bytes with
  | none => .error .invalidEncoding
  | some point =>
    if hsame : P.serializeElem point = bytes then .ok ⟨bytes, point, h, hsame⟩
    else .error .invalidEncoding

/-- The key that is read is the one with these bytes. -/
theorem ServerPublicKey.fromBytes_eq_ok {P : Primitives} {bytes : PointBytes}
    {key : ServerPublicKey P} :
    ServerPublicKey.fromBytes P bytes = .ok key ↔ key.bytes = bytes := by
  constructor
  · intro h
    unfold fromBytes at h
    split at h
    · cases h
    · split_ifs at h
      cases h
      rfl
  · rintro rfl
    obtain ⟨point, hpoint, hsame⟩ := key.canonical
    unfold fromBytes
    split
    case h_1 hnone => rw [hpoint] at hnone; cases hnone
    case h_2 point' hpoint' =>
      rw [hpoint] at hpoint'
      cases hpoint'
      rw [dif_pos hsame]

/-- Signs a message of bounded length. -/
def signMessage (key : P.SigningKey) (message : Bytes) :
    Except CryptoError (Vector UInt8 64) :=
  if message.length > maxContextBytes then .error .invalidInput
  else .ok (P.sign key message)

/-- The bytes of a signing key's public half. -/
def publicKey (key : P.SigningKey) : Vector UInt8 32 :=
  P.verifyingKeyBytes (P.verifyingKey key)

/-- Verifies a signature strictly, under a trusted key. -/
def verify (trusted : Vector UInt8 32) (message : Bytes) (signature : Vector UInt8 64) :
    Except CryptoError Unit :=
  if message.length > maxContextBytes then .error .invalidInput
  else
    match P.verifyingKeyOfBytes trusted with
    | none => .error .invalidEncoding
    | some key =>
      if P.verifyStrict key message signature then .ok () else .error .authentication

/-- Every signature verifies under the key that made it. -/
def Primitives.SignsOwn : Prop :=
  ∀ key message, ∃ verifying, P.verifyingKeyOfBytes (publicKey P key) = some verifying ∧
    P.verifyStrict verifying message (P.sign key message) = true

theorem verify_signMessage {P : Primitives} (h : P.SignsOwn) (key : P.SigningKey)
    {message : Bytes} (hlength : message.length ≤ maxContextBytes) :
    signMessage P key message = .ok (P.sign key message) ∧
      verify P (publicKey P key) message (P.sign key message) = .ok () := by
  obtain ⟨verifying, hverifying, hverify⟩ := h key message
  refine ⟨if_neg (Nat.not_lt.mpr hlength), ?_⟩
  rw [verify, if_neg (Nat.not_lt.mpr hlength), hverifying]
  exact if_pos hverify

/-- HKDF with prefix-free framing of the purpose and the context. -/
def deriveSecretKey (ikm context purpose : Bytes) : Except CryptoError Secret :=
  if ikm.length < 32 ∨ ikm.length > maxContextBytes ∨ context.length > maxContextBytes ∨
      purpose = [] ∨ purpose.length > 128 then
    .error .invalidInput
  else
    match P.hkdf (ascii "leelo/v1/hkdf-sha384") ikm
      (ascii "leelo/v1/key" ++ bigEndian 4 purpose.length ++ purpose ++
        bigEndian 4 context.length ++ context) with
    | some key => .ok key
    | none => .error .cryptographicOperation

/-- The key that wraps a leaf's share, derived from the function's output. -/
def deriveWrapKey (output : Vector UInt8 outputBytes) (context : Bytes) :
    Except CryptoError Secret :=
  deriveSecretKey P output.toList context (ascii "voprf-leaf-wrap")

/-- Encrypt under a fresh nonce and append the tag. -/
def sealKey {ρ : Type} (rng : Rng ρ) (key plaintext : Secret) (aad : Bytes) (r : ρ) :
    Except CryptoError (WrappedKey × ρ) :=
  if aad.length > maxContextBytes then .error .invalidInput
  else do
    let (nonce, r) ← randomBytes rng 12 r
    match P.encrypt key nonce aad plaintext with
    | some (body, tag) => .ok (⟨nonce, body ++ tag⟩, r)
    | none => .error .cryptographicOperation

/-- The encrypted secret, without the tag. -/
def WrappedKey.body (wrapped : WrappedKey) : Secret :=
  Vector.ofFn fun i => wrapped.ciphertext.get (Fin.castAdd 16 i)

/-- The authentication tag at the ciphertext's end. -/
def WrappedKey.tag (wrapped : WrappedKey) : Vector UInt8 16 :=
  Vector.ofFn fun i => wrapped.ciphertext.get (Fin.natAdd 32 i)

/-- Opens a wrapped key under its associated data. -/
def openKey (key : Secret) (wrapped : WrappedKey) (aad : Bytes) : Except CryptoError Secret :=
  if aad.length > maxContextBytes then .error .invalidInput
  else
    match P.decrypt key wrapped.nonce aad wrapped.body wrapped.tag with
    | some plaintext => .ok plaintext
    | none => .error .authentication

/-- Decryption inverts encryption under the same key, nonce and associated data. -/
def Primitives.DecryptsOwn : Prop :=
  ∀ key nonce aad plaintext body tag, P.encrypt key nonce aad plaintext = some (body, tag) →
    P.decrypt key nonce aad body tag = some plaintext

/-- The local state of one blinded request. -/
structure BlindState where
  inner : P.Client
  input : Bytes

/-- Blinds an input with fresh randomness, and keeps what finalisation needs. -/
def blind {ρ : Type} (rng : Rng ρ) (input : Bytes) (r : ρ) :
    Except CryptoError ((BlindState P × PointBytes) × ρ) :=
  if input = [] ∨ input.length > maxInputBytes then .error .invalidInput
  else do
    let (seed, r) ← randomBytes rng 32 r
    match P.blind input seed with
    | some (client, message) => .ok ((⟨client, input⟩, message), r)
    | none => .error .cryptographicOperation

/-- Verify a response against the pinned key, then unblind it. -/
def BlindState.finalize (state : BlindState P) (response : Evaluation)
    (pin : ServerPublicKey P) : Except CryptoError (Vector UInt8 outputBytes) :=
  match P.deserializeElement response.element with
  | none => .error .invalidEncoding
  | some element =>
    match P.deserializeProof response.proof with
    | none => .error .invalidEncoding
    | some proof =>
      match P.deserializeElem pin.bytes with
      | none => .error .invalidEncoding
      | some point =>
        match P.finalize state.inner state.input element proof point with
        | none => .error .invalidProof
        | some output => .ok output

variable {ρ : Type} {rng : Rng ρ} {r r' : ρ} {key plaintext : Secret} {aad : Bytes}
  {wrapped : WrappedKey}

/-- A blinded request keeps its input and the client state of some seed. -/
theorem blind_eq_ok {P : Primitives} {input : Bytes} {state : BlindState P} {message : PointBytes}
    (h : blind P rng input r = .ok ((state, message), r')) :
    state.input = input ∧ ∃ seed, P.blind input seed = some (state.inner, message) := by
  unfold blind at h
  split_ifs at h
  obtain ⟨⟨seed, r1⟩, -, h⟩ := bind_eq_ok.mp h
  dsimp only at h
  cases hblind : P.blind input seed with
  | none => rw [hblind] at h; cases h
  | some request =>
    rw [hblind] at h
    cases h
    exact ⟨rfl, seed, hblind⟩

/-- A finalized response was checked against the pinned point. -/
theorem BlindState.finalize_eq_ok {P : Primitives} {state : BlindState P} {response : Evaluation}
    {pin : ServerPublicKey P} {output : Vector UInt8 outputBytes}
    (h : state.finalize P response pin = .ok output) :
    ∃ element proof point, P.deserializeElem pin.bytes = some point ∧
      P.finalize state.inner state.input element proof point = some output := by
  unfold finalize at h
  split at h
  · cases h
  rename_i element _
  split at h
  · cases h
  rename_i proof _
  split at h
  · cases h
  rename_i point hpoint
  split at h
  · cases h
  rename_i output' houtput
  cases h
  exact ⟨element, proof, point, hpoint, houtput⟩

/-- A finalized output is a function of the server key and the input, whatever the blind
and the response were. -/
def Primitives.EvaluatesTo (prf : PointBytes → Bytes → Vector UInt8 outputBytes) : Prop :=
  ∀ input seed client message bytes point element proof output,
    P.blind input seed = some (client, message) → P.deserializeElem bytes = some point →
      P.finalize client input element proof point = some output → output = prf bytes input

theorem finalize_blind {P : Primitives} {prf : PointBytes → Bytes → Vector UInt8 outputBytes}
    (h : P.EvaluatesTo prf) {input : Bytes} {state : BlindState P} {message : PointBytes}
    {response : Evaluation} {pin : ServerPublicKey P} {output : Vector UInt8 outputBytes}
    (hblind : blind P rng input r = .ok ((state, message), r'))
    (hfinalize : state.finalize P response pin = .ok output) : output = prf pin.bytes input := by
  obtain ⟨hinput, seed, hclient⟩ := blind_eq_ok hblind
  obtain ⟨element, proof, point, hpoint, houtput⟩ := BlindState.finalize_eq_ok hfinalize
  rw [hinput] at houtput
  exact h input seed state.inner message pin.bytes point element proof output hclient hpoint houtput

private theorem WrappedKey.body_mk (nonce : Vector UInt8 12) (body : Secret)
    (tag : Vector UInt8 16) : (WrappedKey.mk nonce (body ++ tag)).body = body := by
  apply Vector.ext
  intro i hi
  have hlt : i < 32 := hi
  rw [WrappedKey.body, Vector.getElem_ofFn]
  exact Vector.getElem_append_left hlt

private theorem WrappedKey.tag_mk (nonce : Vector UInt8 12) (body : Secret)
    (tag : Vector UInt8 16) : (WrappedKey.mk nonce (body ++ tag)).tag = tag := by
  apply Vector.ext
  intro i hi
  rw [WrappedKey.tag, Vector.getElem_ofFn, Vector.getElem_append_right' body hi]
  exact getElem_congr_idx (Nat.add_comm 32 i)

/-- A sealed secret is the encryption of the plaintext under its own nonce. -/
theorem sealKey_eq_ok {P : Primitives} (h : sealKey P rng key plaintext aad r = .ok (wrapped, r')) :
    aad.length ≤ maxContextBytes ∧
      P.encrypt key wrapped.nonce aad plaintext = some (wrapped.body, wrapped.tag) := by
  unfold sealKey at h
  split_ifs at h with haad
  obtain ⟨⟨nonce, r1⟩, -, h⟩ := bind_eq_ok.mp h
  dsimp only at h
  cases hencrypt : P.encrypt key nonce aad plaintext with
  | none => rw [hencrypt] at h; cases h
  | some result =>
    obtain ⟨body, tag⟩ := result
    rw [hencrypt] at h
    obtain ⟨rfl, rfl⟩ := Prod.mk.inj (Except.ok.inj h)
    rw [WrappedKey.body_mk, WrappedKey.tag_mk]
    exact ⟨Nat.not_lt.mp haad, hencrypt⟩

/-- Opening decrypts under the nonce of the ciphertext. -/
theorem openKey_eq_ok {P : Primitives} :
    openKey P key wrapped aad = .ok plaintext ↔ aad.length ≤ maxContextBytes ∧
      P.decrypt key wrapped.nonce aad wrapped.body wrapped.tag = some plaintext := by
  unfold openKey
  by_cases haad : aad.length > maxContextBytes
  · simp [haad, Nat.not_le.mpr haad]
  · rw [if_neg haad]
    cases P.decrypt key wrapped.nonce aad wrapped.body wrapped.tag with
    | none => simp
    | some opened => simp [Nat.not_lt.mp haad]

/-- What was sealed opens under the same key and associated data. -/
theorem openKey_sealKey {P : Primitives} (h : P.DecryptsOwn)
    (hseal : sealKey P rng key plaintext aad r = .ok (wrapped, r')) :
    openKey P key wrapped aad = .ok plaintext := by
  obtain ⟨haad, hencrypt⟩ := sealKey_eq_ok hseal
  exact openKey_eq_ok.mpr ⟨haad, h _ _ _ _ _ _ hencrypt⟩

end Leelo.Crypto
