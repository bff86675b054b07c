import Leelo.Crypto.Transparent
import Leelo.Envelope.Descriptor

/-!
# The envelope body and its signature

The body holds the encoded descriptor, the sealed TPM object, one wrapped share for
the TPM and for each network leaf, and the wrapped payload. Reading inverts writing on
every body, the size limits never refuse a body whose fields are in range, and a signed
body authenticates under the signer's key.
-/

namespace Leelo.Envelope

open Leelo.Core Leelo.Policy Leelo.Crypto

/-- The sealed object and the names it was created under. -/
structure TpmBlob where
  publicArea : Bytes
  privateArea : Bytes
  name : Bytes
  parentName : Bytes
  deriving DecidableEq

/-- A leaf's wrapped share. -/
structure WrappedLeaf where
  nodeId : UInt8
  value : WrappedKey
  deriving DecidableEq

/-- The body of an envelope. -/
structure EnvelopeBody where
  descriptor : Descriptor
  tpm : TpmBlob
  leaves : List WrappedLeaf
  payload : WrappedKey

/-- A body that was verified, with the hash that every key derivation uses. -/
structure AuthenticatedEnvelope where
  body : EnvelopeBody
  context : Vector UInt8 48

section Contexts

variable (cbor : Cbor) (P : Primitives)

/-- The hash that binds everything to the descriptor. -/
def contextHash (d : Descriptor) : Except EnvelopeError (Vector UInt8 48) := do
  let encoded ← descriptorBytes cbor P d
  return P.sha384 (ascii "leelo/v1/context\x00" ++ encoded)

/-- The context of one leaf. -/
def leafContext (context : Vector UInt8 48) (nodeId : UInt8) : Bytes :=
  ascii "leelo/v1/leaf\x00" ++ context.toList ++ [nodeId]

/-- The input of the function for one binding. -/
def networkInput (d : Descriptor) (n : NetworkBinding) : Bytes :=
  ascii "leelo/v1/network-input\x00" ++ d.bindingId.toList ++ [n.nodeId] ++ n.inputSeed.toList

/-- What is signed. -/
def signInput (body : Bytes) : Bytes := ascii "leelo/v1/envelope\x00" ++ body

end Contexts

section Codec

variable (cbor : Cbor)

/-- Prints a wrapped key. -/
def putWrapped (w : WrappedKey) : Bytes :=
  cbor.putArray 2 ++ cbor.putBytes w.nonce.toList ++ cbor.putBytes w.ciphertext.toList

/-- Reads a wrapped key. -/
def getWrapped : Decoder EnvelopeError WrappedKey := do
  arr cbor 2
  let nonce ← bytes cbor 12
  let ciphertext ← bytes cbor 48
  pure ⟨nonce, ciphertext⟩

/-- Prints a leaf. -/
def putLeaf (leaf : WrappedLeaf) : Bytes :=
  cbor.putArray 2 ++ cbor.putU8 leaf.nodeId ++ putWrapped cbor leaf.value

/-- Reads a leaf. -/
def getLeaf : Decoder EnvelopeError WrappedLeaf := do
  arr cbor 2
  let nodeId ← getU8 cbor
  let value ← getWrapped cbor
  pure ⟨nodeId, value⟩

/-- The body around an encoded descriptor. -/
def putBody (desc : Bytes) (b : EnvelopeBody) : Bytes :=
  cbor.putArray 4 ++ cbor.putBytes desc ++ cbor.putArray 4 ++ cbor.putBytes b.tpm.publicArea ++
    cbor.putBytes b.tpm.privateArea ++ cbor.putBytes b.tpm.name ++
    cbor.putBytes b.tpm.parentName ++ cbor.putArray b.leaves.length ++
    b.leaves.flatMap (putLeaf cbor) ++ putWrapped cbor b.payload

/-- A signed body: the body's bytes and the signature. -/
def putSigned (body : Bytes) (signature : Vector UInt8 64) : Bytes :=
  cbor.putArray 2 ++ cbor.putBytes body ++ cbor.putBytes signature.toList

/-- Reads a body and its signature. -/
def getSigned : Decoder EnvelopeError (Bytes × Vector UInt8 64) := do
  arr cbor 2
  let body ← orError cbor.getBytes .malformed
  let signature ← bytes cbor 64
  pure (body, signature)

variable (P : Primitives)

/-- Each part of the sealed object is present and within its limit. -/
def TpmBlob.InBounds (tpm : TpmBlob) : Prop :=
  tpm.publicArea ≠ [] ∧ tpm.publicArea.length ≤ maxTpmBlob ∧
    tpm.privateArea ≠ [] ∧ tpm.privateArea.length ≤ maxTpmBlob ∧
    tpm.name ≠ [] ∧ tpm.name.length ≤ 68 ∧ tpm.parentName ≠ [] ∧ tpm.parentName.length ≤ 68

instance decidableInBounds (tpm : TpmBlob) : Decidable tpm.InBounds := by
  unfold TpmBlob.InBounds
  infer_instance

/-- The TPM leaf first, then the network leaves in the order of their bindings. -/
def Descriptor.leafIds (d : Descriptor) : List UInt8 :=
  d.policy.tpmNodeId :: d.networks.map NetworkBinding.nodeId

/-- Prints a body that is within its bounds. -/
def bodyBytes (b : EnvelopeBody) : Except EnvelopeError Bytes := do
  let desc ← descriptorBytes cbor P b.descriptor
  if ¬b.tpm.InBounds then .error .tooLarge
  else if b.leaves.map WrappedLeaf.nodeId ≠ b.descriptor.leafIds then .error .malformed
  else if (putBody cbor desc b).length > maxEnvelope - 128 then .error .tooLarge
  else .ok (putBody cbor desc b)

/-- Reads a body. -/
def getBody : Decoder EnvelopeError EnvelopeBody := do
  arr cbor 4
  let desc ← orError cbor.getBytes .malformed
  let descriptor ← fromExcept (readDescriptor cbor P desc)
  arr cbor 4
  let publicArea ← boundedBytes cbor maxTpmBlob
  let privateArea ← boundedBytes cbor maxTpmBlob
  let name ← boundedBytes cbor 68
  let parentName ← boundedBytes cbor 68
  let count ← boundedArray cbor 31
  let leaves ← readList (getLeaf cbor) count
  let payload ← getWrapped cbor
  pure ⟨descriptor, ⟨publicArea, privateArea, name, parentName⟩, leaves, payload⟩

/-- Reads a body and nothing else, in its canonical form only. -/
def readBody (raw : Bytes) : Except EnvelopeError EnvelopeBody := do
  let (body, rest) ← (getBody cbor P).run raw
  if rest ≠ [] then .error .malformed
  else
    let canonical ← bodyBytes cbor P body
    if canonical ≠ raw then .error .nonCanonical else .ok body

/-- Prints and signs an envelope. -/
def sign (b : EnvelopeBody) (key : P.SigningKey) : Except EnvelopeError Bytes := do
  let body ← bodyBytes cbor P b
  let signature ← (signMessage P key (signInput body)).mapError fun _ => .invalidSignature
  return putSigned cbor body signature

/-- The signature is checked before anything inside the body is parsed. -/
def authenticate (raw : Bytes) (trustedKey : Vector UInt8 32) :
    Except EnvelopeError AuthenticatedEnvelope :=
  if raw.length > maxEnvelope then .error .tooLarge
  else do
    let ((rawBody, signature), rest) ← (getSigned cbor).run raw
    if rest ≠ [] then .error .malformed
    else
      (verify P trustedKey (signInput rawBody) signature).mapError fun _ => .invalidSignature
      if putSigned cbor rawBody signature ≠ raw then .error .nonCanonical
      else
        let body ← readBody cbor P rawBody
        let context ← contextHash cbor P body.descriptor
        return ⟨body, context⟩

end Codec

/-- The conditions on single fields that the encoder checks before it writes. -/
structure EnvelopeBody.FieldsInRange (P : Primitives) (b : EnvelopeBody) : Prop where
  descriptor : b.descriptor.Valid P
  tpm : b.tpm.InBounds
  leaves : b.leaves.map WrappedLeaf.nodeId = b.descriptor.leafIds

section Exact

variable {cbor : Cbor} {P : Primitives}

theorem reads_getWrapped (h : cbor.Rfc8949) (w : WrappedKey) :
    Reads (getWrapped cbor) (putWrapped cbor w) w := by
  simp only [putWrapped, List.append_assoc]
  apply Reads.bind (reads_arr h (by norm_num))
  apply Reads.bind (reads_bytes h (by norm_num) w.nonce)
  exact Reads.finish (reads_bytes h (by norm_num) w.ciphertext) (Reads.pure w)

/-- A leaf is read back. -/
theorem reads_getLeaf (h : cbor.Rfc8949) (leaf : WrappedLeaf) :
    Reads (getLeaf cbor) (putLeaf cbor leaf) leaf := by
  simp only [putLeaf, List.append_assoc]
  apply Reads.bind (reads_arr h (by norm_num))
  apply Reads.bind (reads_getU8 h leaf.nodeId)
  exact Reads.finish (reads_getWrapped h leaf.value) (Reads.pure leaf)

theorem length_putWrapped (h : cbor.Rfc8949) (w : WrappedKey) :
    (putWrapped cbor w).length ≤ 87 := by
  have := h.length_array 2
  have := length_putBytes h w.nonce
  have := length_putBytes h w.ciphertext
  simp only [putWrapped, List.length_append]
  omega

theorem length_putLeaf (h : cbor.Rfc8949) (leaf : WrappedLeaf) :
    (putLeaf cbor leaf).length ≤ 98 := by
  have := h.length_array 2
  have := h.length_u8 leaf.nodeId
  have := length_putWrapped h leaf.value
  simp only [putLeaf, List.length_append]
  omega

variable {b : EnvelopeBody} {raw : Bytes}

/-- One wrapped share for the TPM and each of at most 29 network leaves. -/
theorem EnvelopeBody.FieldsInRange.length_leaves (h : b.FieldsInRange P) :
    b.leaves.length ≤ 30 := by
  have hlength := congrArg List.length h.leaves
  have hnetworks := h.descriptor.length_networks
  simp only [List.length_map, Descriptor.leafIds, List.length_cons] at hlength
  omega

/-- The largest body is far below the limit, so no combination of fields reaches it. -/
theorem length_putBody (h : cbor.Rfc8949) (hb : b.FieldsInRange P) :
    (putBody cbor (putDescriptor cbor b.descriptor) b).length ≤ maxEnvelope - 128 := by
  obtain ⟨-, hpublic, -, hprivate, -, hname, -, hparent⟩ := hb.tpm
  have hdesc := length_putDescriptor h hb.descriptor.length_networks
  have hcount := hb.length_leaves
  have hleaves := length_flatMap_le (length_putLeaf h) b.leaves
  have := h.length_array 4
  have := h.length_array b.leaves.length
  have := h.length_bytes (putDescriptor cbor b.descriptor)
  have := h.length_bytes b.tpm.publicArea
  have := h.length_bytes b.tpm.privateArea
  have := h.length_bytes b.tpm.name
  have := h.length_bytes b.tpm.parentName
  have := length_putWrapped h b.payload
  simp only [maxTpmBlob] at hpublic hprivate
  simp only [putBody, List.length_append, maxEnvelope]
  omega

/-- An encoded body has a valid descriptor and one wrapped share for each leaf. -/
theorem bodyBytes_valid (h : bodyBytes cbor P b = .ok raw) :
    b.FieldsInRange P := by
  unfold bodyBytes at h
  obtain ⟨desc, hdesc, hbody⟩ := bind_eq_ok.mp h
  split_ifs at hbody with htpm hleaves hsize
  exact ⟨(descriptorBytes_eq_ok.mp hdesc).1, htpm, not_not.mp hleaves⟩

/-- The encoder succeeds exactly on fields in range; the size limit refuses nothing. -/
theorem bodyBytes_eq_ok (h : cbor.Rfc8949) :
    bodyBytes cbor P b = .ok raw ↔
      b.FieldsInRange P ∧ raw = putBody cbor (putDescriptor cbor b.descriptor) b := by
  unfold bodyBytes
  rw [bind_eq_ok]
  constructor
  · rintro ⟨desc, hdesc, hbody⟩
    obtain ⟨hvalid, rfl⟩ := descriptorBytes_eq_ok.mp hdesc
    split_ifs at hbody with htpm hleaves hsize
    exact ⟨⟨hvalid, htpm, not_not.mp hleaves⟩, (Except.ok.inj hbody).symm⟩
  · rintro ⟨hb, rfl⟩
    refine ⟨_, descriptorBytes_eq_ok.mpr ⟨hb.descriptor, rfl⟩, ?_⟩
    have hsize := length_putBody h hb
    rw [if_neg (not_not.mpr hb.tpm), if_neg (not_not.mpr hb.leaves),
      if_neg (Nat.not_lt.mpr hsize)]

/-- A body is read back. -/
theorem reads_getBody (h : cbor.Rfc8949) (hb : b.FieldsInRange P) :
    Reads (getBody cbor P) (putBody cbor (putDescriptor cbor b.descriptor) b) b := by
  obtain ⟨hpublic, hpublic', hprivate, hprivate', hname, hname', hparent, hparent'⟩ := hb.tpm
  have hcount := hb.length_leaves
  have hlength := length_putDescriptor h hb.descriptor.length_networks
  have hdesc : descriptorBytes cbor P b.descriptor = .ok (putDescriptor cbor b.descriptor) :=
    descriptorBytes_eq_ok.mpr ⟨hb.descriptor, rfl⟩
  have hread := (readDescriptor_eq_ok h).mpr hdesc
  have hblob : maxTpmBlob < 2 ^ 64 := by norm_num [maxTpmBlob]
  simp only [putBody, List.append_assoc]
  apply Reads.bind (reads_arr h (by norm_num))
  apply Reads.bind (reads_orError (h.bytes _ (by omega)))
  apply Reads.computed hread
  apply Reads.bind (reads_arr h (by norm_num))
  apply Reads.bind (reads_boundedBytes h hblob hpublic hpublic')
  apply Reads.bind (reads_boundedBytes h hblob hprivate hprivate')
  apply Reads.bind (reads_boundedBytes h (by norm_num) hname hname')
  apply Reads.bind (reads_boundedBytes h (by norm_num) hparent hparent')
  apply Reads.bind (reads_boundedArray h (by norm_num) (Nat.le_succ_of_le hcount))
  apply Reads.bind (reads_readList fun leaf _ => reads_getLeaf h leaf)
  exact Reads.finish (reads_getWrapped h b.payload) (Reads.pure b)

/-- Reading inverts writing. -/
theorem readBody_of_bodyBytes (h : cbor.Rfc8949) (hraw : bodyBytes cbor P b = .ok raw) :
    readBody cbor P raw = .ok b := by
  obtain ⟨hb, rfl⟩ := (bodyBytes_eq_ok h).mp hraw
  have hread := (reads_getBody h hb).last
  unfold readBody
  simp only [hread, hraw, ok_bind, ne_eq, not_true_eq_false, if_false]

/-- Reading accepts only what writing produces, whatever the decoder tolerates. -/
theorem bodyBytes_of_readBody (h : readBody cbor P raw = .ok b) : bodyBytes cbor P b = .ok raw := by
  unfold readBody at h
  obtain ⟨⟨body, rest⟩, -, h⟩ := bind_eq_ok.mp h
  dsimp only at h
  split_ifs at h with hrest
  obtain ⟨canonical, hcanonical, h⟩ := bind_eq_ok.mp h
  split_ifs at h with hsame
  obtain rfl := Except.ok.inj h
  rwa [not_not.mp hsame] at hcanonical

theorem reads_getSigned (h : cbor.Rfc8949) {body : Bytes} (hbody : body.length < 2 ^ 64)
    (signature : Vector UInt8 64) :
    Reads (getSigned cbor) (putSigned cbor body signature) (body, signature) := by
  simp only [putSigned, List.append_assoc]
  apply Reads.bind (reads_arr h (by norm_num))
  apply Reads.bind (reads_orError (h.bytes body hbody))
  exact Reads.finish (reads_bytes h (by norm_num) signature) (Reads.pure _)

/-- The envelope adds at most 91 of the 128 bytes that the body leaves. -/
theorem length_putSigned (h : cbor.Rfc8949) (body : Bytes) (signature : Vector UInt8 64) :
    (putSigned cbor body signature).length ≤ body.length + 91 := by
  have := h.length_array 2
  have := h.length_bytes body
  have := length_putBytes h signature
  simp only [putSigned, List.length_append]
  omega

/-- What authentication establishes: the bytes are the canonical envelope of a canonical
body, and the signature over that body verified under the trusted key. -/
theorem authenticate_eq_ok {trustedKey : Vector UInt8 32} {envelope : AuthenticatedEnvelope}
    (h : authenticate cbor P raw trustedKey = .ok envelope) :
    ∃ body signature, raw = putSigned cbor body signature ∧
      verify P trustedKey (signInput body) signature = .ok () ∧
      bodyBytes cbor P envelope.body = .ok body ∧
      contextHash cbor P envelope.body.descriptor = .ok envelope.context := by
  unfold authenticate at h
  split_ifs at h with hlength
  obtain ⟨⟨⟨body, signature⟩, rest⟩, -, h⟩ := bind_eq_ok.mp h
  dsimp only at h
  by_cases hrest : rest ≠ []
  · rw [if_pos hrest] at h
    cases h
  rw [if_neg hrest] at h
  obtain ⟨⟨⟩, hverify, h⟩ := bind_eq_ok.mp h
  split_ifs at h with hcanonical
  obtain ⟨parsed, hparsed, h⟩ := bind_eq_ok.mp h
  obtain ⟨context, hcontext, h⟩ := bind_eq_ok.mp h
  obtain rfl := Except.ok.inj h
  refine ⟨body, signature, (not_not.mp hcanonical).symm, ?_, bodyBytes_of_readBody hparsed,
    hcontext⟩
  cases hresult : verify P trustedKey (signInput body) signature with
  | error e => rw [hresult] at hverify; cases hverify
  | ok _ => rfl

theorem Descriptor.Valid.contextHash {d : Descriptor} (h : d.Valid P) :
    ∃ context, contextHash cbor P d = .ok context := by
  unfold Envelope.contextHash
  rw [descriptorBytes_eq_ok.mpr ⟨h, rfl⟩]
  exact ⟨_, rfl⟩

/-- A signed body fits in an envelope that authenticates under the signer's key, with the
context of its descriptor. -/
theorem authenticate_sign (h : cbor.Rfc8949) (hsign : P.SignsOwn)
    (hraw : bodyBytes cbor P b = .ok raw) (key : P.SigningKey) :
    ∃ envelope context, contextHash cbor P b.descriptor = .ok context ∧
      sign cbor P b key = .ok envelope ∧ envelope.length ≤ maxEnvelope ∧
      authenticate cbor P envelope (publicKey P key) = .ok ⟨b, context⟩ := by
  obtain ⟨hb, hbody⟩ := (bodyBytes_eq_ok h).mp hraw
  have hlength := length_putBody h hb
  rw [← hbody] at hlength
  have hdomain : (ascii "leelo/v1/envelope\x00").length = 18 := by decide
  have hinput : (signInput raw).length ≤ maxContextBytes := by
    simp only [signInput, List.length_append, hdomain, maxContextBytes, maxEnvelope] at *
    omega
  obtain ⟨hsigned, hverify⟩ := verify_signMessage hsign key hinput
  have hfits := length_putSigned h raw (P.sign key (signInput raw))
  have hsmall : raw.length < 2 ^ 64 := by
    simp only [maxEnvelope] at hlength
    omega
  have hread := (reads_getSigned h hsmall (P.sign key (signInput raw))).last
  obtain ⟨context, hcontext⟩ := @Descriptor.Valid.contextHash cbor P b.descriptor hb.descriptor
  refine ⟨putSigned cbor raw (P.sign key (signInput raw)), context, hcontext, ?_, ?_, ?_⟩
  · unfold sign
    rw [hraw, ok_bind, hsigned]
    rfl
  · simp only [maxEnvelope] at hlength ⊢
    omega
  · unfold authenticate
    rw [if_neg (by simp only [maxEnvelope] at hlength ⊢; omega), hread]
    simp only [ok_bind, ne_eq, not_true_eq_false, if_false, mapError_eq_ok.mpr hverify,
      readBody_of_bodyBytes h hraw, hcontext]
    rfl

/-- The body codec is exact. Fields in range are always encoded, within the size limit.
An encoded body reads back as itself and authenticates once it is signed. Reading accepts
exactly the encodings, each for one body only. -/
theorem bodyBytes_exact (cbor : Cbor) (P : Primitives) (hcbor : cbor.Rfc8949)
    (hsign : P.SignsOwn) :
    (∀ b : EnvelopeBody, b.FieldsInRange P →
      ∃ raw, bodyBytes cbor P b = .ok raw ∧ raw.length ≤ maxEnvelope - 128) ∧
    (∀ (b : EnvelopeBody) (raw : Bytes), bodyBytes cbor P b = .ok raw →
      b.FieldsInRange P ∧ raw.length ≤ maxEnvelope - 128 ∧ readBody cbor P raw = .ok b ∧
      ∀ key, ∃ envelope context, sign cbor P b key = .ok envelope ∧
        envelope.length ≤ maxEnvelope ∧
        authenticate cbor P envelope (publicKey P key) = .ok ⟨b, context⟩) ∧
    (∀ (raw : Bytes) (b : EnvelopeBody),
      readBody cbor P raw = .ok b ↔ bodyBytes cbor P b = .ok raw) ∧
    ∀ (raw raw' : Bytes) (b : EnvelopeBody), readBody cbor P raw = .ok b →
      readBody cbor P raw' = .ok b → raw = raw' := by
  refine ⟨?_, ?_, ?_, ?_⟩
  · intro b hb
    exact ⟨_, (bodyBytes_eq_ok hcbor).mpr ⟨hb, rfl⟩, length_putBody hcbor hb⟩
  · intro b raw hraw
    obtain ⟨hb, hbody⟩ := (bodyBytes_eq_ok hcbor).mp hraw
    refine ⟨hb, ?_, readBody_of_bodyBytes hcbor hraw, fun key => ?_⟩
    · rw [hbody]
      exact length_putBody hcbor hb
    · obtain ⟨envelope, context, -, hresult⟩ := authenticate_sign hcbor hsign hraw key
      exact ⟨envelope, context, hresult⟩
  · exact fun raw b => ⟨bodyBytes_of_readBody, readBody_of_bodyBytes hcbor⟩
  · intro raw raw' b hread hread'
    have hsame := (bodyBytes_of_readBody hread).symm.trans (bodyBytes_of_readBody hread')
    exact Except.ok.inj hsame

end Exact

/-- A binding of the transparent suite, where a key is its own identifier. -/
def pairBinding (nodeId fill : UInt8) : NetworkBinding where
  nodeId := nodeId
  providerId := Vector.replicate 32 fill
  keyId := Vector.replicate 32 fill
  publicKey := Vector.replicate pointBytes fill
  inputSeed := Vector.replicate 32 (fill + 10)

/-- A descriptor for either of two leaves. -/
def pairDescriptor : Descriptor where
  bindingId := Vector.replicate 32 1
  volumeUuid := Vector.replicate 16 2
  slot := 1
  generation := 1
  policy := .ofWellFormed .networkBound 1 pairNetwork (by decide)
  networks := [pairBinding 3 7, pairBinding 4 8]
  tpmPcrMask := 128
  tpmPcrDigest := Vector.replicate 32 0

theorem pairDescriptor_valid : pairDescriptor.Valid transparent where
  fields := by decide
  leaves := rfl
  keys := by
    intro binding hbinding
    simp only [pairDescriptor, List.mem_cons, List.not_mem_nil, or_false] at hbinding
    rcases hbinding with rfl | rfl
    all_goals exact ⟨by decide, _, rfl, rfl⟩
  distinct := by decide

/-- The example's body. -/
def pairBody : EnvelopeBody where
  descriptor := pairDescriptor
  tpm := ⟨[1], [2], [3], [4]⟩
  leaves := [1, 3, 4].map fun id => ⟨id, ⟨Vector.replicate 12 id, Vector.replicate 48 id⟩⟩
  payload := ⟨Vector.replicate 12 9, Vector.replicate 48 9⟩

/-- A body with two network leaves is encoded, reads back, and authenticates. -/
theorem bodyBytes_exact_pair : ∃ raw, bodyBytes rfc8949 transparent pairBody = .ok raw ∧
    readBody rfc8949 transparent raw = .ok pairBody ∧
    ∃ envelope context, sign rfc8949 transparent pairBody (Vector.replicate 32 5) = .ok envelope ∧
      authenticate rfc8949 transparent envelope (Vector.replicate 32 5) =
        .ok ⟨pairBody, context⟩ := by
  have hexact := bodyBytes_exact rfc8949 transparent rfc8949_spec transparent_signsOwn
  have hb : pairBody.FieldsInRange transparent := ⟨pairDescriptor_valid, by decide, rfl⟩
  obtain ⟨raw, hraw, -⟩ := hexact.1 pairBody hb
  obtain ⟨-, -, hread, hsigned⟩ := hexact.2.1 pairBody raw hraw
  obtain ⟨envelope, context, hsign, -, hauthentic⟩ := hsigned (Vector.replicate 32 5)
  exact ⟨raw, hraw, hread, envelope, context, hsign, hauthentic⟩

end Leelo.Envelope
