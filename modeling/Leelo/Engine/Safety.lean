import Leelo.Engine.Correctness

/-!
# Release safety

Whatever the primitives, the providers, the completion order and the clock do, a
credential comes out of an unlock only when every check of the operation passed.
-/

namespace Leelo.Engine

open Leelo.Core Leelo.Crypto Leelo.Envelope Leelo.Policy
open Leelo.Sss (Secret)

section Safety

variable (cbor : Cbor) (P : Primitives) {ρ : Type}

/-- A leaf contributes its share only after its response was finalized against the pinned
key and its wrapped share opened under the derived key. -/
structure LeafOpened (env : Environment ρ) (envelope : AuthenticatedEnvelope) (deadline : Nat)
    (binding : NetworkBinding) (share : Secret) : Prop where
  bound : binding ∈ envelope.body.descriptor.networks
  opened : ∃ key r' output wrapped,
    Evaluated P env.rng envelope.body.descriptor binding envelope.context env.net deadline
      (env.entropy binding) r' key output ∧
    envelope.body.leaves.find? (·.nodeId == binding.nodeId) = some wrapped ∧
    openKey P key wrapped.value (leafContext envelope.context binding.nodeId) = .ok share

/-- Everything that a released credential rests on. -/
structure Released (env : Environment ρ) (raw : Bytes) (signer : Vector UInt8 32)
    (volume : Vector UInt8 16) (slot : UInt8) (result : UnlockResult)
    (envelope : AuthenticatedEnvelope) (before after : List Call) : Prop where
  /-- The signature over the body verified, and the token is its canonical encoding. -/
  authentic : ∃ body signature, raw = putSigned cbor body signature ∧
    verify P signer (signInput body) signature = .ok () ∧
    bodyBytes cbor P envelope.body = .ok body ∧
    contextHash cbor P envelope.body.descriptor = .ok envelope.context
  /-- The signed target is the expected one. -/
  target : envelope.body.descriptor.volumeUuid = volume ∧ envelope.body.descriptor.slot = slot
  supported : env.tpm.supportsMode envelope.body.descriptor.policy.mode = true
  /-- The opened leaves satisfy the tree, the TPM is asked once and last, and the payload
  opens under the root that both shares determine. -/
  recovered : ∃ (shares : List NetworkShare) (completed : List Call) (unsealed : UnsealedSeed)
      (tpmLeaf : WrappedLeaf) (tpmKey tpmShare networkShare root payloadKey : Secret),
    (∀ id share, (id, share) ∈ shares → ∃ binding, binding.nodeId = id ∧
      LeafOpened P env envelope (env.clock 0 + operationBudget) binding share) ∧
    envelope.body.descriptor.policy.network.satisfied
      (fun id => decide (id ∈ shares.map Prod.fst)) = true ∧
    after = before ++ completed ++ [.unseal] ∧ .unseal ∉ completed ∧
    (∀ id, id ∈ shares.map Prod.fst ↔ .completed id true ∈ completed) ∧
    env.tpm.unsealSeed envelope = .ok unsealed ∧
    (envelope.body.descriptor.policy.mode = .attested →
      unsealed.authorization = .freshSessionAuthorization) ∧
    envelope.body.leaves.head? = some tpmLeaf ∧
    tpmLeaf.nodeId = envelope.body.descriptor.policy.tpmNodeId ∧
    deriveSecretKey P unsealed.seed.toList (leafContext envelope.context tpmLeaf.nodeId)
      (ascii "leelo/v1/tpm-wrap") = .ok tpmKey ∧
    openKey P tpmKey tpmLeaf.value (leafContext envelope.context tpmLeaf.nodeId) = .ok tpmShare ∧
    envelope.body.descriptor.policy.recoverNetwork shares = .ok networkShare ∧
    Sss.reconstruct 2 [⟨1, tpmShare, by decide⟩, ⟨2, networkShare, by decide⟩] = .ok root ∧
    deriveSecretKey P root.toList envelope.context.toList (ascii "leelo/v1/luks-slot") =
      .ok payloadKey ∧
    openKey P payloadKey envelope.body.payload envelope.context.toList = .ok result.credential
  /-- No reading of the clock had reached the deadline. -/
  inTime : ∀ reading ∈ [1, 2, 3, 4, 5], env.clock reading < env.clock 0 + operationBudget

/-- The operation's own inversions, put together along the chain of its checks. -/
theorem released_of_unlockObserved {cbor : Cbor} {P : Primitives} {env : Environment ρ}
    {raw : Bytes} {signer : Vector UInt8 32} {volume : Vector UInt8 16} {slot : UInt8}
    {result : UnlockResult} {w w' : World}
    (h : unlockObserved cbor P env raw signer volume slot w = (.ok result, w')) :
    ∃ envelope, Released cbor P env raw signer volume slot result envelope w.calls w'.calls := by
  unfold unlockObserved at h
  rw [Effect.bind_ok (Effect.update_apply _ _)] at h
  obtain ⟨op, w1, hbegin, hrun⟩ := Effect.bind_eq_ok.mp h
  obtain ⟨hauthentic, htarget, hmode, hclock1, hdeadline, hcalls⟩ :=
    UnlockOperation.begin_eq_ok hbegin
  obtain ⟨network, w2, unsealed, tpm, root, payload, hnetwork, hunsealed, htpm, hroot, hpayload,
    hcredential, hlog, hclock⟩ := UnlockOperation.run_eq_ok hrun
  obtain ⟨body, signature, hraw, hverify, hbody, hcontext⟩ := authenticate_eq_ok hauthentic
  obtain ⟨hvalid, -, hleaves⟩ := bodyBytes_valid hbody
  obtain ⟨done, rest, hperm, hcompleted, hquorum, hshare, -⟩ :=
    recoverNetworkObserved_eq_ok hvalid.nodeIds hnetwork
  obtain ⟨leaf, others, tpmKey, hleaf, hlive, htpmKey, htpmShare, -⟩ :=
    TpmEvidence.authenticate_eq_ok htpm
  obtain ⟨payloadKey, hpayloadKey, hopen, -⟩ := PayloadEvidence.authenticate_eq_ok.mp hpayload
  have hfirst : leaf.nodeId = op.envelope.body.descriptor.policy.tpmNodeId := by
    rw [hleaf] at hleaves
    exact (List.cons.inj hleaves).1
  refine ⟨op.envelope, ⟨body, signature, hraw, hverify, hbody, hcontext⟩, htarget, hmode, ?_, ?_⟩
  · refine ⟨collected (leafResult P env op.envelope op.deadline) done,
      completions (leafResult P env op.envelope op.deadline) done, unsealed, leaf, tpmKey,
      tpm.share, network.share, root, payloadKey, ?_, hquorum, ?_,
      unseal_not_mem_completions _ done, fun id => mem_collectedIds _, hunsealed, hlive,
      by rw [hleaf]; rfl, hfirst, ?_, ?_, hshare, hroot, hpayloadKey, ?_⟩
    · intro id share hmem
      obtain ⟨binding, hbinding, hid, hresult⟩ := (mem_collected _).mp hmem
      obtain ⟨key, r', wrapped, hkey, hfind, hopened⟩ := recoverLeaf_eq_ok.mp hresult
      obtain ⟨output, hevaluated⟩ := networkKey_eq_ok.mp hkey
      rw [← hdeadline]
      exact ⟨binding, hid, hperm.subset (List.mem_append_left _ hbinding),
        key, r', output, wrapped, hevaluated, hfind, hopened⟩
    · rw [hlog, hcompleted, hcalls]
    · rw [hfirst]
      exact htpmKey
    · rw [hfirst]
      exact htpmShare
    · rw [hcredential]
      exact hopen
  · intro reading hreading
    rcases List.mem_cons.mp hreading with rfl | hreading
    · exact hclock1
    · rw [← hdeadline]
      exact hclock reading hreading

/-- Whatever the providers, the primitives, the completion order and the clock do, a
returned credential rests on every check. -/
theorem unlockObserved_released (env : Environment ρ) (raw : Bytes) (signer : Vector UInt8 32)
    (volume : Vector UInt8 16) (slot : UInt8) (result : UnlockResult) (w w' : World)
    (h : unlockObserved cbor P env raw signer volume slot w = (.ok result, w')) :
    ∃ envelope, Released cbor P env raw signer volume slot result envelope w.calls w'.calls :=
  released_of_unlockObserved h

end Safety

/-- The unlock of an enrolled pair is such a release. -/
theorem unlockObserved_released_pair : ∃ raw result envelope calls,
    (unlockObserved rfc8949 transparent (pairEnvironment {4}) raw (Vector.replicate 32 5)
      (Vector.replicate 16 2) 1 ⟨⟨[]⟩, []⟩).1 = .ok result ∧
    Released rfc8949 transparent (pairEnvironment {4}) raw (Vector.replicate 32 5)
      (Vector.replicate 16 2) 1 result envelope [] calls := by
  obtain ⟨prepared, _, hprepare⟩ := pairEnrollment_succeeds
  obtain ⟨context, body, hprepared⟩ := prepareObserved_eq_ok transparent_decryptsOwn hprepare
  obtain ⟨diagnostics, w', hunlock⟩ := hprepared.unlock_ok rfc8949_spec transparent_signsOwn
    transparent_evaluatesTo pairEnvironment_attempt (by decide) ⟨⟨[]⟩, []⟩
  obtain ⟨envelope, hreleased⟩ := unlockObserved_released rfc8949 transparent (pairEnvironment {4})
    prepared.envelope _ _ _ _ _ _ hunlock
  exact ⟨prepared.envelope, _, envelope, w'.calls, congrArg Prod.fst hunlock, hreleased⟩

end Leelo.Engine
