import Leelo.Envelope.Body

/-!
# Separation of contexts

Every key is derived from a label that frames its purpose and its context by their
lengths. The context of a leaf holds the digest of the descriptor and the node, that of
the payload the digest alone. Labels are read back part by part, so equal labels have the
same purpose, node and digest, and without a collision the same descriptor.
-/

namespace Leelo.Envelope

open Leelo.Core Leelo.Crypto Leelo.Policy
open Leelo.Sss (Secret Rng)

/-- A part behind its length in four octets. -/
def framed (part : Bytes) : Bytes := bigEndian 4 part.length ++ part

theorem framed_append_inj {part part' rest rest' : Bytes} (hpart : part.length < 256 ^ 4)
    (hpart' : part'.length < 256 ^ 4) (h : framed part ++ rest = framed part' ++ rest') :
    part = part' ∧ rest = rest' := by
  unfold framed at h
  rw [List.append_assoc, List.append_assoc] at h
  obtain ⟨hwidth, hrest⟩ := List.append_inj h (by simp only [length_bigEndian])
  have hlength := congrArg ofBigEndian hwidth
  rw [ofBigEndian_bigEndian hpart, ofBigEndian_bigEndian hpart'] at hlength
  exact List.append_inj hrest hlength

/-- The label of an HKDF expansion: purpose and context behind a fixed text. -/
def keyInfo (purpose context : Bytes) : Bytes :=
  ascii "leelo/v1/key" ++ framed purpose ++ framed context

theorem keyInfo_inj {purpose purpose' context context' : Bytes}
    (hpurpose : purpose.length < 256 ^ 4) (hpurpose' : purpose'.length < 256 ^ 4)
    (hcontext : context.length < 256 ^ 4) (hcontext' : context'.length < 256 ^ 4)
    (h : keyInfo purpose context = keyInfo purpose' context') :
    purpose = purpose' ∧ context = context' := by
  unfold keyInfo at h
  rw [List.append_assoc, List.append_assoc] at h
  obtain ⟨rfl, hrest⟩ := framed_append_inj hpurpose hpurpose' (List.append_cancel_left h)
  have hframed : framed context ++ [] = framed context' ++ [] := by
    rw [List.append_nil, List.append_nil, hrest]
  exact ⟨rfl, (framed_append_inj hcontext hcontext' hframed).1⟩

/-- What a derived key is for. -/
inductive Role where
  | tpm (nodeId : UInt8)
  | network (nodeId : UInt8)
  | payload
  deriving DecidableEq

namespace Role

/-- The purpose that names the role in its label. -/
def purpose : Role → Bytes
  | .tpm _ => ascii "leelo/v1/tpm-wrap"
  | .network _ => ascii "voprf-leaf-wrap"
  | .payload => ascii "leelo/v1/luks-slot"

/-- The context of the derivation, which is also the associated data of the ciphertext. -/
def associatedData (role : Role) (context : Vector UInt8 48) : Bytes :=
  match role with
  | .tpm nodeId => leafContext context nodeId
  | .network nodeId => leafContext context nodeId
  | .payload => context.toList

/-- The label of the role's key. -/
def info (role : Role) (context : Vector UInt8 48) : Bytes :=
  keyInfo role.purpose (role.associatedData context)

/-- The role's key from its material: one HKDF under the role's label. -/
def Derives (role : Role) (P : Primitives) (context : Vector UInt8 48) (ikm : Bytes)
    (key : Secret) : Prop :=
  P.hkdf (ascii "leelo/v1/hkdf-sha384") ikm (role.info context) = some key

/-- The plaintext was encrypted under the role's key with the role's associated data. -/
def Wraps (role : Role) (P : Primitives) (context : Vector UInt8 48) (ikm : Bytes)
    (plaintext : Secret) (wrapped : WrappedKey) : Prop :=
  ∃ key, role.Derives P context ikm key ∧
    P.encrypt key wrapped.nonce (role.associatedData context) plaintext =
      some (wrapped.body, wrapped.tag)

/-- The ciphertext was decrypted under the role's key with the role's associated data. -/
def Opens (role : Role) (P : Primitives) (context : Vector UInt8 48) (ikm : Bytes)
    (wrapped : WrappedKey) (plaintext : Secret) : Prop :=
  ∃ key, role.Derives P context ikm key ∧
    P.decrypt key wrapped.nonce (role.associatedData context) wrapped.body wrapped.tag =
      some plaintext

end Role

/-- The source writes a label without parentheses. -/
theorem keyInfo_eq (purpose data : Bytes) :
    ascii "leelo/v1/key" ++ bigEndian 4 purpose.length ++ purpose ++
      bigEndian 4 data.length ++ data = keyInfo purpose data := by
  simp only [keyInfo, framed, List.append_assoc]

variable {role : Role} {context : Vector UInt8 48} {ikm : Bytes} {key : Secret}

/-- A key derived for a role's purpose and context is the role's key. -/
theorem Role.derives_of_deriveSecretKey {P : Primitives}
    (h : deriveSecretKey P ikm (role.associatedData context) role.purpose = .ok key) :
    role.Derives P context ikm key := by
  unfold deriveSecretKey at h
  split_ifs at h
  rw [keyInfo_eq] at h
  unfold Role.Derives Role.info
  split at h
  · rename_i key' hkey
    rw [hkey, Except.ok.inj h]
  · cases h

/-- What is sealed under a role's key and associated data is wrapped for the role. -/
theorem Role.wraps_of_sealKey {P : Primitives} {plaintext : Secret} {ρ : Type} {rng : Rng ρ}
    {r r' : ρ} {wrapped : WrappedKey}
    (hkey : deriveSecretKey P ikm (role.associatedData context) role.purpose = .ok key)
    (hseal : sealKey P rng key plaintext (role.associatedData context) r = .ok (wrapped, r')) :
    role.Wraps P context ikm plaintext wrapped :=
  ⟨key, derives_of_deriveSecretKey hkey, (sealKey_eq_ok hseal).2⟩

/-- What opens under a role's key and associated data was wrapped for the role. -/
theorem Role.opens_of_openKey {P : Primitives} {plaintext : Secret} {wrapped : WrappedKey}
    (hkey : deriveSecretKey P ikm (role.associatedData context) role.purpose = .ok key)
    (hopen : openKey P key wrapped (role.associatedData context) = .ok plaintext) :
    role.Opens P context ikm wrapped plaintext :=
  ⟨key, derives_of_deriveSecretKey hkey, (openKey_eq_ok.mp hopen).2⟩

theorem length_leafContext (context : Vector UInt8 48) (nodeId : UInt8) :
    (leafContext context nodeId).length = 63 := by
  rw [leafContext, List.length_append, List.length_append, Vector.length_toList]
  rfl

theorem leafContext_inj {context' : Vector UInt8 48} {nodeId nodeId' : UInt8}
    (h : leafContext context nodeId = leafContext context' nodeId') :
    context = context' ∧ nodeId = nodeId' := by
  unfold leafContext at h
  obtain ⟨hlabeled, hnode⟩ := List.append_inj' h rfl
  exact ⟨Vector.toList_inj.mp (List.append_cancel_left hlabeled), List.singleton_inj.mp hnode⟩

/-- The associated data of a leaf is never that of a payload. -/
theorem leafContext_ne_payload (context context' : Vector UInt8 48) (nodeId : UInt8) :
    leafContext context nodeId ≠ context'.toList := by
  intro h
  have hlength := congrArg List.length h
  rw [length_leafContext, Vector.length_toList] at hlength
  cases hlength

namespace Role

/-- Each purpose has a length of its own. -/
private theorem length_purpose (role : Role) :
    role.purpose.length =
      match role with
      | .tpm _ => 17
      | .network _ => 15
      | .payload => 18 := by
  cases role with
  | tpm nodeId => rfl
  | network nodeId => rfl
  | payload => rfl

private theorem length_purpose_lt (role : Role) : role.purpose.length < 256 ^ 4 := by
  rw [length_purpose]
  cases role with
  | tpm nodeId => norm_num
  | network nodeId => norm_num
  | payload => norm_num

private theorem length_associatedData_lt (role : Role) (context : Vector UInt8 48) :
    (role.associatedData context).length < 256 ^ 4 := by
  cases role with
  | tpm nodeId =>
    rw [associatedData, length_leafContext]
    decide
  | network nodeId =>
    rw [associatedData, length_leafContext]
    decide
  | payload =>
    rw [associatedData, Vector.length_toList]
    decide

/-- Equal labels have the same role, with the same node, and the same digest. -/
theorem info_inj {role role' : Role} {context context' : Vector UInt8 48}
    (h : role.info context = role'.info context') : role = role' ∧ context = context' := by
  obtain ⟨hpurpose, hdata⟩ := keyInfo_inj role.length_purpose_lt role'.length_purpose_lt
    (role.length_associatedData_lt context) (role'.length_associatedData_lt context') h
  -- The lengths of the purposes leave only the diagonal cases.
  have hlength := congrArg List.length hpurpose
  rw [length_purpose, length_purpose] at hlength
  cases role with
  | tpm nodeId =>
    cases role' with
    | tpm nodeId' =>
      obtain ⟨rfl, rfl⟩ := leafContext_inj hdata
      exact ⟨rfl, rfl⟩
    | network nodeId' => simp at hlength
    | payload => simp at hlength
  | network nodeId =>
    cases role' with
    | tpm nodeId' => simp at hlength
    | network nodeId' =>
      obtain ⟨rfl, rfl⟩ := leafContext_inj hdata
      exact ⟨rfl, rfl⟩
    | payload => simp at hlength
  | payload =>
    cases role' with
    | tpm nodeId' => simp at hlength
    | network nodeId' => simp at hlength
    | payload => exact ⟨rfl, Vector.toList_inj.mp hdata⟩

end Role

/-- The input of the independent probe. -/
def probeInput : Bytes := ascii "leelo/v1/independent-evaluation-probe\x00nonproduction"

theorem networkInput_inj {d d' : Descriptor} {n n' : NetworkBinding}
    (h : networkInput d n = networkInput d' n') :
    d.bindingId = d'.bindingId ∧ n.nodeId = n'.nodeId ∧ n.inputSeed = n'.inputSeed := by
  unfold networkInput at h
  obtain ⟨hnamed, hseed⟩ := List.append_inj' h (by rw [Vector.length_toList, Vector.length_toList])
  obtain ⟨hbound, hnode⟩ := List.append_inj' hnamed rfl
  exact ⟨Vector.toList_inj.mp (List.append_cancel_left hbound), List.singleton_inj.mp hnode,
    Vector.toList_inj.mp hseed⟩

/-- No input is the probe's. -/
theorem networkInput_ne_probeInput (d : Descriptor) (n : NetworkBinding) :
    networkInput d n ≠ probeInput := by
  intro h
  have hlength := congrArg List.length h
  rw [networkInput, List.length_append, List.length_append, List.length_append,
    Vector.length_toList, Vector.length_toList, List.length_singleton] at hlength
  exact absurd hlength (by decide)

section Descriptors

variable {cbor : Cbor} {P : Primitives}

variable {d : Descriptor}

/-- Two descriptors with one encoding are equal. -/
theorem descriptorBytes_inj (h : cbor.Rfc8949) {d' : Descriptor} {raw : Bytes}
    (hd : descriptorBytes cbor P d = .ok raw) (hd' : descriptorBytes cbor P d' = .ok raw) :
    d = d' := by
  have hread := (readDescriptor_eq_ok h).mpr hd
  rw [(readDescriptor_eq_ok h).mpr hd'] at hread
  exact (Except.ok.inj hread).symm

/-- The input of the context digest. -/
def contextInput (cbor : Cbor) (d : Descriptor) : Bytes :=
  ascii "leelo/v1/context\x00" ++ putDescriptor cbor d

theorem contextHash_eq_ok {context : Vector UInt8 48} :
    contextHash cbor P d = .ok context ↔
      d.Valid P ∧ context = P.sha384 (contextInput cbor d) := by
  unfold contextHash
  rw [bind_eq_ok]
  constructor
  · rintro ⟨raw, hraw, hcontext⟩
    obtain ⟨hvalid, rfl⟩ := descriptorBytes_eq_ok.mp hraw
    exact ⟨hvalid, (Except.ok.inj hcontext).symm⟩
  · rintro ⟨hvalid, rfl⟩
    exact ⟨putDescriptor cbor d, descriptorBytes_eq_ok.mpr ⟨hvalid, rfl⟩, rfl⟩

/-- Descriptors whose context inputs do not collide are separated by their contexts. -/
theorem contextHash_injOn (h : cbor.Rfc8949) {descriptors : Set Descriptor}
    (hfree : Set.InjOn P.sha384 (contextInput cbor '' descriptors)) {d' : Descriptor}
    (hd : d ∈ descriptors) (hd' : d' ∈ descriptors) {context : Vector UInt8 48}
    (hcontext : contextHash cbor P d = .ok context)
    (hcontext' : contextHash cbor P d' = .ok context) : d = d' := by
  obtain ⟨hvalid, rfl⟩ := contextHash_eq_ok.mp hcontext
  obtain ⟨hvalid', hsame⟩ := contextHash_eq_ok.mp hcontext'
  have hinput := hfree (Set.mem_image_of_mem _ hd) (Set.mem_image_of_mem _ hd') hsame
  have hbytes : putDescriptor cbor d' = putDescriptor cbor d :=
    (List.append_cancel_left hinput).symm
  exact descriptorBytes_inj h (descriptorBytes_eq_ok.mpr ⟨hvalid, rfl⟩)
    (descriptorBytes_eq_ok.mpr ⟨hvalid', hbytes.symm⟩)

end Descriptors

end Leelo.Envelope
