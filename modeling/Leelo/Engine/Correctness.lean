import Leelo.Engine.Forward
import Leelo.Engine.Prepare

/-!
# Recovery of an enrolled credential

Enrollment and unlock build the same contexts, keys, coordinates and leaf order. An
unlock of an enrolled envelope collects the enrolled shares of the leaves that
evaluate, so whether it succeeds and what it returns depend on the failing leaves
alone, not on the order in which evaluations complete.
-/

namespace Leelo.Engine

open Leelo.Core Leelo.Crypto Leelo.Envelope Leelo.Policy
open Leelo.Sss (Secret Rng)

/-- One adapter unseals the seeds that another sealed, with an authorization that the
mode accepts. -/
structure TpmProvider.Unseals (unsealer sealer : TpmProvider) : Prop where
  supports : ∀ mode, sealer.supportsMode mode = true → unsealer.supportsMode mode = true
  unseals : ∀ (envelope : AuthenticatedEnvelope) (seed : Secret),
    sealer.sealSeed envelope.body.descriptor seed = .ok envelope.body.tpm →
      ∃ authorization, unsealer.unsealSeed envelope = .ok ⟨seed, authorization⟩ ∧
        (envelope.body.descriptor.policy.mode = .attested →
          authorization = .freshSessionAuthorization)

/-- An unlock before its deadline in which the evaluations of exactly the leaves in
`failing` fail. The order of completions is left to the environment. -/
structure Attempt (cbor : Cbor) (P : Primitives) {ρ : Type} (sealer : TpmProvider)
    (d : Descriptor) (failing : Finset UInt8) (env : Environment ρ) : Prop where
  runtime : env.runtime = true
  inTime : ∀ reading, env.clock reading < env.clock 0 + operationBudget
  awake : ∀ turn polled, env.wakes turn ≠ .expired polled
  tpm : env.tpm.Unseals sealer
  fails : ∀ context, contextHash cbor P d = .ok context → ∀ binding ∈ d.networks,
    (binding.nodeId ∈ failing ↔ ∃ kind, networkKey P env.rng d binding context env.net
      (env.clock 0 + operationBudget) (env.entropy binding) = .error kind)

/-- The credential that an operation returned, if any. -/
def credentialOf : Exec EngineError UnlockResult → Option Secret
  | .ok result => some result.credential
  | .error _ => none

section Leaves

variable {cbor : Cbor} {P : Primitives} {ρ ρ' : Type} {enroll : EnrollEnvironment ρ}
  {env : Environment ρ'} {d : Descriptor} {context : Vector UInt8 48} {body : EnvelopeBody}

/-- No two wrapped leaves of a valid descriptor carry one identifier. -/
theorem nodup_leafIds (h : d.Valid P) : d.leafIds.Nodup := by
  have hids := List.nodup_cons.mp d.policy.wellFormed.ids
  have hleaves : d.policy.networkLeafIds = d.policy.network.leaves.map Prod.fst := by
    rw [ProductionPolicy.networkLeafIds, d.policy.plan_eq]
  rw [Descriptor.leafIds, h.nodeIds, List.nodup_cons]
  refine ⟨fun hmem => hids.1 ?_, d.policy.leafIds_nodup⟩
  rw [hleaves] at hmem
  exact d.policy.network.leafIds_sublist.subset hmem

variable {deadline : Nat}

theorem leafResult_error {envelope : AuthenticatedEnvelope} {binding : NetworkBinding}
    {kind : NetworkFailure}
    (h : networkKey P env.rng envelope.body.descriptor binding envelope.context env.net deadline
      (env.entropy binding) = .error kind) :
    leafResult P env envelope deadline binding = .error kind := by
  unfold leafResult recoverLeaf
  rw [h]
  rfl

/-- A leaf that evaluates at unlock opens the share that was wrapped for it. -/
theorem leafResult_enrolled {prf : PointBytes → Bytes → Vector UInt8 outputBytes}
    (hprf : P.EvaluatesTo prf) {deadline' : Nat} {pair : NetworkShare × NetworkBinding}
    {leaf : WrappedLeaf} (hwrapped : LeafWrapped P enroll d context deadline pair leaf)
    (hdescriptor : body.descriptor = d) (hmem : leaf ∈ body.leaves)
    (hnodup : (body.leaves.map WrappedLeaf.nodeId).Nodup) {key : Secret} {r' : ρ'}
    (hkey : networkKey P env.rng d pair.2 context env.net deadline' (env.entropy pair.2) =
      .ok (key, r')) :
    leafResult P env ⟨body, context⟩ deadline' pair.2 = .ok pair.1.2 := by
  obtain ⟨r1, r2, r3, enrolledKey, henrolled, -, hopen⟩ := hwrapped.wrapped
  have hfind := find?_key WrappedLeaf.nodeId hnodup hmem
  rw [hwrapped.named, hwrapped.bound] at hfind
  rw [networkKey_unique hprf henrolled hkey] at hopen
  rw [← hdescriptor] at hkey
  exact recoverLeaf_eq_ok.mpr ⟨key, r', leaf, hkey, hfind, hopen⟩

/-- The leaves in `failing` fail, and every other one returns its share of an enrollment. -/
structure Honest (d : Descriptor) (failing : Finset UInt8) (shares : List NetworkShare)
    (leaf : NetworkBinding → Except NetworkFailure Secret) : Prop where
  fails : ∀ binding ∈ d.networks, binding.nodeId ∈ failing → ∃ kind, leaf binding = .error kind
  opens : ∀ binding ∈ d.networks, binding.nodeId ∉ failing →
    ∃ share, (binding.nodeId, share) ∈ shares ∧ leaf binding = .ok share

/-- An attempt's leaves give the shares that were enrolled. -/
theorem Attempt.honest {prf : PointBytes → Bytes → Vector UInt8 outputBytes}
    (hprf : P.EvaluatesTo prf) {sealer : TpmProvider} {failing : Finset UInt8}
    (h : Attempt cbor P sealer d failing env) (hcontext : contextHash cbor P d = .ok context)
    (hdescriptor : body.descriptor = d) (hnodup : (body.leaves.map WrappedLeaf.nodeId).Nodup)
    {shares : List NetworkShare} {leaves : List WrappedLeaf}
    (hlength : shares.length = d.networks.length)
    (hwrapped : List.Forall₂ (LeafWrapped P enroll d context deadline)
      (shares.zip d.networks) leaves) (hmem : ∀ leaf ∈ leaves, leaf ∈ body.leaves) :
    Honest d failing shares
      (leafResult P env ⟨body, context⟩ (env.clock 0 + operationBudget)) where
  fails binding hbinding hfailing := by
    obtain ⟨kind, hkind⟩ := (h.fails context hcontext binding hbinding).mp hfailing
    subst hdescriptor
    exact ⟨kind, leafResult_error hkind⟩
  opens binding hbinding hfailing := by
    obtain ⟨share, hpair⟩ := exists_mem_zip hlength.ge hbinding
    obtain ⟨leaf, hleaf, hopens⟩ := exists_of_forall₂ hwrapped hpair
    cases hkey : networkKey P env.rng d binding context env.net (env.clock 0 + operationBudget)
        (env.entropy binding) with
    | error kind =>
      exact absurd ((h.fails context hcontext binding hbinding).mpr ⟨kind, hkey⟩) hfailing
    | ok evaluated =>
      obtain ⟨key, r'⟩ := evaluated
      have hresult := leafResult_enrolled hprf hopens hdescriptor (hmem leaf hleaf) hnodup hkey
      refine ⟨share.2, ?_, hresult⟩
      rw [← show share.1 = binding.nodeId from hopens.bound]
      exact (List.of_mem_zip hpair).1

end Leaves

namespace Honest

variable {d : Descriptor} {failing : Finset UInt8} {shares : List NetworkShare}
  {leaf : NetworkBinding → Except NetworkFailure Secret}

variable {done : List NetworkBinding}

variable (h : Honest d failing shares leaf)

include h

theorem mem_shares (hdone : ∀ binding ∈ done, binding ∈ d.networks) {share : NetworkShare}
    (hshare : share ∈ collected leaf done) : share ∈ shares := by
  obtain ⟨binding, hbinding, hid, hleaf⟩ := (mem_collected leaf).mp hshare
  by_cases hfailing : binding.nodeId ∈ failing
  · obtain ⟨kind, hkind⟩ := h.fails binding (hdone binding hbinding) hfailing
    rw [hkind] at hleaf
    cases hleaf
  · obtain ⟨value, hvalue, hok⟩ := h.opens binding (hdone binding hbinding) hfailing
    rw [hok] at hleaf
    obtain rfl := Except.ok.inj hleaf
    rw [hid] at hvalue
    exact hvalue

/-- The collected leaves are those of the completed ones that do not fail. -/
theorem mem_collectedIds (hdone : ∀ binding ∈ done, binding ∈ d.networks) {id : UInt8} :
    id ∈ collectedIds leaf done ↔ id ∈ done.map NetworkBinding.nodeId ∧ id ∉ failing := by
  constructor
  · intro hid
    obtain ⟨⟨id, share⟩, hshare, rfl⟩ := List.mem_map.mp hid
    obtain ⟨binding, hbinding, rfl, hleaf⟩ := (mem_collected leaf).mp hshare
    refine ⟨List.mem_map_of_mem hbinding, fun hfailing => ?_⟩
    obtain ⟨kind, hkind⟩ := h.fails binding (hdone binding hbinding) hfailing
    rw [hkind] at hleaf
    cases hleaf
  · rintro ⟨hid, hfailing⟩
    obtain ⟨binding, hbinding, rfl⟩ := List.mem_map.mp hid
    obtain ⟨share, -, hleaf⟩ := h.opens binding (hdone binding hbinding) hfailing
    exact List.mem_map.mpr ⟨_, (mem_collected leaf).mpr ⟨binding, hbinding, rfl, hleaf⟩, rfl⟩

/-- The failures are those of the completed leaves that fail, each once. -/
theorem failed_providerIds (hdone : ∀ binding ∈ done, binding ∈ d.networks) :
    (failed leaf done).map ProviderFailure.providerId =
      (done.filter fun binding => decide (binding.nodeId ∈ failing)).map
        NetworkBinding.providerId := by
  induction done with
  | nil => rfl
  | cons binding done ih =>
    obtain ⟨hbinding, hdone⟩ := List.forall_mem_cons.mp hdone
    rw [failed, List.flatMap_cons, List.map_append, ← failed, ih hdone]
    by_cases hfailing : binding.nodeId ∈ failing
    · obtain ⟨kind, hkind⟩ := h.fails binding hbinding hfailing
      rw [hkind, List.filter_cons, if_pos (decide_eq_true hfailing)]
      rfl
    · obtain ⟨share, -, hok⟩ := h.opens binding hbinding hfailing
      rw [hok, List.filter_cons, if_neg (fun hmem => hfailing (of_decide_eq_true hmem))]
      rfl

theorem satisfied_of_quorum (hdone : ∀ binding ∈ done, binding ∈ d.networks)
    (hquorum : Quorum leaf d done) :
    d.policy.network.satisfied (fun id => decide (id ∉ failing)) = true := by
  refine NetworkNode.satisfied_mono (fun id hid => ?_) hquorum
  exact decide_eq_true ((h.mem_collectedIds hdone).mp (of_decide_eq_true hid)).2

/-- Once every leaf has completed, a missing quorum is the fault of the failing leaves. -/
theorem quorum_of_satisfied
    (hids : d.networks.map NetworkBinding.nodeId = d.policy.networkLeafIds)
    (hperm : done.Perm d.networks)
    (hsatisfied : d.policy.network.satisfied (fun id => decide (id ∉ failing)) = true) :
    Quorum leaf d done := by
  rw [Quorum, ← hsatisfied]
  apply NetworkNode.satisfied_congr
  intro node hnode
  have hmem : node.1 ∈ done.map NetworkBinding.nodeId := by
    rw [(hperm.map NetworkBinding.nodeId).mem_iff, hids, ProductionPolicy.networkLeafIds,
      d.policy.plan_eq]
    exact List.mem_map_of_mem hnode
  rw [decide_eq_decide, h.mem_collectedIds fun binding => hperm.mem_iff.mp]
  exact and_iff_right hmem

/-- In any order of completions the loop recovers the shared value when the leaves that
do not fail satisfy the tree. -/
theorem recovers (hids : d.networks.map NetworkBinding.nodeId = d.policy.networkLeafIds)
    {ρ : Type} {rng : Rng ρ} {networkShare : Secret} {r r' : ρ}
    (hsplit : d.policy.splitNetwork rng networkShare r = .ok (shares, r')) {wakes : Nat → Wake}
    (hawake : ∀ turn polled, wakes turn ≠ .expired polled)
    (hsatisfied : d.policy.network.satisfied (fun id => decide (id ∉ failing)) = true) (w : World) :
    ∃ network w', recoverNetworkObserved d leaf wakes w = (.ok network, w') ∧
      network.share = networkShare ∧ network.available.Subperm d.policy.networkLeafIds ∧
      d.policy.network.satisfied (fun id => decide (id ∈ network.available)) = true := by
  obtain ⟨done, rest, hperm, -, houtcome⟩ :=
    recoverLoop_outcome hids wakes 0 _ [] (@LoopState.tracks_start d leaf w)
  have hdone : ∀ binding ∈ done, binding ∈ d.networks := fun binding hbinding =>
    hperm.subset (List.mem_append_left _ hbinding)
  unfold recoverNetworkObserved
  generalize recoverLoop d leaf wakes 0 (LoopState.start d.networks w) = outcome at houtcome
  obtain ⟨result, w'⟩ := outcome
  cases houtcome with
  | expired turn polled hwake failures => exact absurd hwake (hawake turn polled)
  | exhausted hquorum hrest =>
    rw [hrest, List.append_nil] at hperm
    exact absurd (h.quorum_of_satisfied hids hperm hsatisfied) hquorum
  | quorum hquorum =>
    have hsub := collectedIds_subperm leaf hids hperm
    have hrecover := d.policy.recoverNetwork_honest hsplit hsub fun _ => h.mem_shares hdone
    rw [Quorum] at hquorum
    rw [← collectedIds, if_pos hquorum] at hrecover
    rw [hrecover]
    exact ⟨_, w', rfl, rfl, hsub, hquorum⟩

/-- Otherwise it ends with the failing leaves, each once, and has asked nothing else. -/
theorem lacks (hids : d.networks.map NetworkBinding.nodeId = d.policy.networkLeafIds)
    {wakes : Nat → Wake} (hawake : ∀ turn polled, wakes turn ≠ .expired polled)
    (hunsatisfied : d.policy.network.satisfied (fun id => decide (id ∉ failing)) = false)
    (w : World) :
    ∃ failures completed w', recoverNetworkObserved d leaf wakes w =
        (.error (.error (.insufficientFactors failures)), w') ∧
      (failures.map ProviderFailure.providerId).Perm ((d.networks.filter fun binding =>
        decide (binding.nodeId ∈ failing)).map NetworkBinding.providerId) ∧
      w'.calls = w.calls ++ completed ∧ .unseal ∉ completed := by
  obtain ⟨done, rest, hperm, hcalls, houtcome⟩ :=
    recoverLoop_outcome hids wakes 0 _ [] (@LoopState.tracks_start d leaf w)
  have hdone : ∀ binding ∈ done, binding ∈ d.networks := fun binding hbinding =>
    hperm.subset (List.mem_append_left _ hbinding)
  unfold recoverNetworkObserved
  generalize recoverLoop d leaf wakes 0 (LoopState.start d.networks w) = outcome at hcalls houtcome
  obtain ⟨result, w'⟩ := outcome
  cases houtcome with
  | expired turn polled hwake failures => exact absurd hwake (hawake turn polled)
  | quorum hquorum =>
    have hsatisfied := h.satisfied_of_quorum hdone hquorum
    rw [hunsatisfied] at hsatisfied
    cases hsatisfied
  | exhausted hquorum hrest =>
    rw [hrest, List.append_nil] at hperm
    refine ⟨failed leaf done, completions leaf done, w', rfl, ?_, hcalls,
      unseal_not_mem_completions leaf done⟩
    rw [h.failed_providerIds hdone]
    exact (hperm.filter _).map _

end Honest

section Pair

variable {cbor : Cbor} {P : Primitives} {ρ ρ' : Type} {enroll : EnrollEnvironment ρ}
  {env : Environment ρ'} {d : Descriptor} {context : Vector UInt8 48} {body : EnvelopeBody}
  {signer : P.SigningKey} {prepared : PreparedEnrollment} {failing : Finset UInt8}
  {prf : PointBytes → Bytes → Vector UInt8 outputBytes}

/-- An enrolled envelope authenticates as the body that enrollment built. -/
theorem Prepared.authenticate (hcbor : cbor.Rfc8949) (hsign : P.SignsOwn)
    (h : Prepared cbor P enroll d signer prepared context body) :
    body.FieldsInRange P ∧
      Envelope.authenticate cbor P prepared.envelope (publicKey P signer) =
        .ok ⟨body, context⟩ := by
  obtain ⟨raw, hraw, -⟩ := bind_eq_ok.mp h.signed
  obtain ⟨envelope, context', hcontext, hsigned, -, hauthentic⟩ :=
    authenticate_sign hcbor hsign hraw signer
  rw [h.descriptor, h.hashed] at hcontext
  rw [h.signed] at hsigned
  obtain rfl := Except.ok.inj hcontext
  obtain rfl := Except.ok.inj hsigned
  exact ⟨bodyBytes_valid hraw, hauthentic⟩

/-- The leaves of an attempt return enrolled shares, and with the recovered network share
the attempt holds every factor of the enrolled credential. -/
theorem Prepared.reunite (hprf : P.EvaluatesTo prf)
    (h : Prepared cbor P enroll d signer prepared context body) (hbody : body.FieldsInRange P)
    (hattempt : Attempt cbor P enroll.tpm d failing env) :
    ∃ networkShare shares r r' tpm root,
      d.policy.splitNetwork enroll.rng networkShare r = .ok (shares, r') ∧
      Honest d failing shares
        (leafResult P env ⟨body, context⟩ (env.clock 0 + operationBudget)) ∧
      ∀ network, network.share = networkShare →
        network.available.Subperm d.policy.networkLeafIds →
        d.policy.network.satisfied (fun id => decide (id ∈ network.available)) = true →
        Factors P env ⟨body, context⟩ (env.clock 0 + operationBudget) network tpm root
          prepared.credential := by
  obtain ⟨seed, root, tpmKey, tpmShare, networkShare, payloadKey, shares, tpmValue, leaves, r, r',
    hleaves, hseal, htpmKey, htpmShare, hroot, hsplit, hwrapped, hpayloadKey, hpayload⟩ :=
    h.recoverable
  have hvalid : d.Valid P := h.descriptor ▸ hbody.descriptor
  have hlength : shares.length = d.networks.length := by
    have hids := (d.policy.splitNetwork_shared hsplit).1
    rw [← hvalid.nodeIds] at hids
    simpa only [List.length_map] using congrArg List.length hids
  have hnodup : (body.leaves.map WrappedLeaf.nodeId).Nodup := by
    rw [hbody.leaves, h.descriptor]
    exact nodup_leafIds hvalid
  have hhonest := hattempt.honest hprf h.hashed h.descriptor hnodup hlength hwrapped
    fun leaf hleaf => hleaves ▸ List.mem_cons_of_mem _ hleaf
  have hdescriptor := h.descriptor
  subst hdescriptor
  obtain ⟨authorization, hunseal, hlive⟩ := hattempt.tpm.unseals ⟨body, context⟩ seed hseal
  have htpm : TpmEvidence.authenticate P ⟨seed, authorization⟩ ⟨body, context⟩ =
      .ok ⟨context, tpmShare, authorization == .freshSessionAuthorization⟩ :=
    TpmEvidence.authenticate_ok hleaves hlive htpmKey htpmShare
  refine ⟨networkShare, shares, r, r', ⟨context, tpmShare,
    authorization == .freshSessionAuthorization⟩, root, hsplit, hhonest, ?_⟩
  rintro network rfl hsub hquorum
  exact {
    runtime := hattempt.runtime
    inTime := hattempt.inTime
    distinct := body.descriptor.policy.nodup_of_subperm hsub
    known := fun id hid => hsub.subset hid
    quorum := hquorum
    unsealed := ⟨_, hunseal, htpm⟩
    context := rfl
    live := fun hattested => beq_iff_eq.mpr (hlive hattested)
    reconstructed := hroot
    payload := PayloadEvidence.authenticate_eq_ok.mpr ⟨payloadKey, hpayloadKey, hpayload, rfl⟩ }

/-- The operation that an attempt on an enrolled envelope runs. -/
theorem Prepared.unlockObserved_eq (hcbor : cbor.Rfc8949) (hsign : P.SignsOwn)
    (h : Prepared cbor P enroll d signer prepared context body)
    (hattempt : Attempt cbor P enroll.tpm d failing env) (world : World) :
    unlockObserved cbor P env prepared.envelope (publicKey P signer) d.volumeUuid d.slot world =
      (begun ⟨body, context⟩ (env.clock 0 + operationBudget)).run P env (configured d world) := by
  have hauthentic := (h.authenticate hcbor hsign).2
  have hsupported := hattempt.tpm.supports _ h.supported
  have hdescriptor := h.descriptor
  subst hdescriptor
  exact Engine.unlockObserved_eq hauthentic hsupported (hattempt.inTime 1) world

/-- An attempt whose other leaves satisfy the tree returns the enrolled credential. -/
theorem Prepared.unlock_ok (hcbor : cbor.Rfc8949) (hsign : P.SignsOwn)
    (hprf : P.EvaluatesTo prf) (h : Prepared cbor P enroll d signer prepared context body)
    (hattempt : Attempt cbor P enroll.tpm d failing env)
    (hsatisfied : d.policy.network.satisfied (fun id => decide (id ∉ failing)) = true)
    (world : World) :
    ∃ diagnostics w', unlockObserved cbor P env prepared.envelope (publicKey P signer)
      d.volumeUuid d.slot world = (.ok ⟨prepared.credential, diagnostics⟩, w') := by
  have hbody := (h.authenticate hcbor hsign).1
  have hvalid : d.Valid P := h.descriptor ▸ hbody.descriptor
  obtain ⟨networkShare, shares, r, r', tpm, root, hsplit, hhonest, hfactors⟩ :=
    h.reunite hprf hbody hattempt
  obtain ⟨network, w1, hloop, hshare, hsub, hquorum⟩ := hhonest.recovers hvalid.nodeIds hsplit
    hattempt.awake hsatisfied (configured d world)
  rw [h.unlockObserved_eq hcbor hsign hattempt world]
  have hdescriptor := h.descriptor
  subst hdescriptor
  exact ⟨_, _, run_begun hloop (hfactors network hshare hsub hquorum)⟩

/-- Any other attempt ends before the TPM is asked. -/
theorem Prepared.unlock_error (hcbor : cbor.Rfc8949) (hsign : P.SignsOwn)
    (hprf : P.EvaluatesTo prf) (h : Prepared cbor P enroll d signer prepared context body)
    (hattempt : Attempt cbor P enroll.tpm d failing env)
    (hunsatisfied : d.policy.network.satisfied (fun id => decide (id ∉ failing)) = false)
    (world : World) :
    ∃ failures completed w', unlockObserved cbor P env prepared.envelope (publicKey P signer)
        d.volumeUuid d.slot world = (.error (.error (.insufficientFactors failures)), w') ∧
      (failures.map ProviderFailure.providerId).Perm ((d.networks.filter fun binding =>
        decide (binding.nodeId ∈ failing)).map NetworkBinding.providerId) ∧
      w'.calls = world.calls ++ completed ∧ .unseal ∉ completed := by
  have hbody := (h.authenticate hcbor hsign).1
  have hvalid : d.Valid P := h.descriptor ▸ hbody.descriptor
  obtain ⟨-, shares, -, -, -, -, -, hhonest, -⟩ := h.reunite hprf hbody hattempt
  obtain ⟨failures, completed, w', hloop, hperm, hcalls⟩ := hhonest.lacks hvalid.nodeIds
    hattempt.awake hunsatisfied (configured d world)
  rw [h.unlockObserved_eq hcbor hsign hattempt world]
  have hdescriptor := h.descriptor
  subst hdescriptor
  exact ⟨failures, completed, w', run_begun_error hattempt.runtime hloop, hperm, hcalls⟩

/-- Unlocking an enrolled envelope before the deadline returns exactly the enrolled
credential when the leaves outside `failing` satisfy the tree. Otherwise it reports each
failing leaf once and never asks the TPM. Neither depends on the completion order. -/
theorem unlockObserved_prepared (hcbor : cbor.Rfc8949) (hsign : P.SignsOwn)
    (hdecrypt : P.DecryptsOwn) (hprf : P.EvaluatesTo prf) (w w' : World)
    (hprepare : prepareObserved cbor P enroll d signer w = (.ok prepared, w'))
    (hattempt : Attempt cbor P enroll.tpm d failing env) (world : World) :
    let result := unlockObserved cbor P env prepared.envelope (publicKey P signer) d.volumeUuid
      d.slot world
    (d.policy.network.satisfied (fun id => decide (id ∉ failing)) = true →
      ∃ diagnostics, result.1 = .ok ⟨prepared.credential, diagnostics⟩) ∧
    (d.policy.network.satisfied (fun id => decide (id ∉ failing)) = false →
      ∃ failures completed, result.1 = .error (.error (.insufficientFactors failures)) ∧
        (failures.map ProviderFailure.providerId).Perm ((d.networks.filter fun binding =>
          decide (binding.nodeId ∈ failing)).map NetworkBinding.providerId) ∧
        (failures.map ProviderFailure.providerId).Nodup ∧
        result.2.calls = world.calls ++ completed ∧ .unseal ∉ completed) ∧
    ∀ (other : Environment ρ') (world' : World), Attempt cbor P enroll.tpm d failing other →
      credentialOf (unlockObserved cbor P other prepared.envelope (publicKey P signer) d.volumeUuid
        d.slot world').1 = credentialOf result.1 := by
  obtain ⟨context, body, h⟩ := prepareObserved_eq_ok hdecrypt hprepare
  have hvalid : d.Valid P := h.descriptor ▸ (h.authenticate hcbor hsign).1.descriptor
  refine ⟨fun hsatisfied => ?_, fun hunsatisfied => ?_, fun other world' hother => ?_⟩
  · obtain ⟨diagnostics, _, heq⟩ := h.unlock_ok hcbor hsign hprf hattempt hsatisfied world
    rw [heq]
    exact ⟨diagnostics, rfl⟩
  · obtain ⟨failures, completed, w1, heq, hperm, hcalls⟩ :=
      h.unlock_error hcbor hsign hprf hattempt hunsatisfied world
    rw [heq]
    refine ⟨failures, completed, rfl, hperm, hperm.nodup_iff.mpr ?_, hcalls⟩
    exact (List.filter_sublist.map NetworkBinding.providerId).nodup hvalid.nodup_providerIds
  · cases hsatisfied : d.policy.network.satisfied fun id => decide (id ∉ failing) with
    | true =>
      obtain ⟨_, _, heq⟩ := h.unlock_ok hcbor hsign hprf hattempt hsatisfied world
      obtain ⟨_, _, heq'⟩ := h.unlock_ok hcbor hsign hprf hother hsatisfied world'
      rw [heq, heq']
      rfl
    | false =>
      obtain ⟨_, _, _, heq, -⟩ := h.unlock_error hcbor hsign hprf hattempt hsatisfied world
      obtain ⟨_, _, _, heq', -⟩ := h.unlock_error hcbor hsign hprf hother hsatisfied world'
      rw [heq, heq']
      rfl

end Pair

/-- Answers under the pinned key, except for the leaves in `failing`. -/
def responding (failing : Finset UInt8) : NetworkProvider where
  evaluate binding _ _ :=
    if binding.nodeId ∈ failing then .error .unavailable
    else .ok ⟨binding.publicKey, Vector.replicate proofBytes 0⟩

/-- A TPM that stores the seed in its public area. -/
def storingTpm : TpmProvider where
  supportsMode _ := true
  sealSeed _ seed := .ok ⟨seed.toList, [2], [3], [4]⟩
  unsealSeed envelope :=
    .ok ⟨firstBytes 32 envelope.body.tpm.publicArea, .freshSessionAuthorization⟩

theorem storingTpm_unseals : storingTpm.Unseals storingTpm where
  supports _ h := h
  unseals envelope seed h := by
    have hstored : envelope.body.tpm.publicArea = seed.toList := by
      rw [← Except.ok.inj h]
    refine ⟨.freshSessionAuthorization, ?_, fun _ => rfl⟩
    simp only [storingTpm, hstored, firstBytes_toList]

/-- The environment of the example's enrollment. -/
def pairEnrollment : EnrollEnvironment Unit where
  clock _ := 0
  runtime := true
  rng := ProductionPolicy.constantRng 5
  entropy := ()
  net := responding ∅
  expires _ := false
  tpm := storingTpm

/-- The leaf that was queued last completes first. -/
def pairEnvironment (failing : Finset UInt8) : Environment Unit where
  clock _ := 1
  runtime := true
  rng := ProductionPolicy.constantRng 6
  entropy _ := ()
  net := responding failing
  wakes _ := .completed 1 []
  tpm := storingTpm

theorem pairEnrollment_succeeds : ∃ prepared w',
    prepareObserved rfc8949 transparent pairEnrollment pairDescriptor (Vector.replicate 32 5)
      ⟨⟨[]⟩, []⟩ = (.ok prepared, w') := by
  apply Effect.exists_ok
  decide +kernel

theorem pairEnvironment_attempt :
    Attempt rfc8949 transparent storingTpm pairDescriptor {4} (pairEnvironment {4}) where
  runtime := rfl
  inTime _ := Nat.lt_add_of_pos_right (by decide)
  awake _ _ h := by cases h
  tpm := storingTpm_unseals
  fails context hcontext binding hbinding := by
    have hall : (contextHash rfc8949 transparent pairDescriptor).toOption.all (fun context =>
        pairDescriptor.networks.all fun binding => decide (binding.nodeId ∈ ({4} : Finset UInt8) ↔
          (networkKey transparent (ProductionPolicy.constantRng 6) pairDescriptor binding context
            (responding {4}) (1 + operationBudget) ()).isOk = false)) = true := by
      decide +kernel
    rw [hcontext] at hall
    have hfails := of_decide_eq_true (List.all_eq_true.mp hall binding hbinding)
    exact hfails.trans isOk_eq_false_iff

/-- One of two leaves recovers the enrolled credential. -/
theorem unlockObserved_prepared_pair : ∃ prepared w' diagnostics,
    prepareObserved rfc8949 transparent pairEnrollment pairDescriptor (Vector.replicate 32 5)
      ⟨⟨[]⟩, []⟩ = (.ok prepared, w') ∧
    (unlockObserved rfc8949 transparent (pairEnvironment {4}) prepared.envelope
      (Vector.replicate 32 5) (Vector.replicate 16 2) 1 ⟨⟨[]⟩, []⟩).1 =
        .ok ⟨prepared.credential, diagnostics⟩ := by
  obtain ⟨prepared, w', hprepare⟩ := pairEnrollment_succeeds
  have hunlock := unlockObserved_prepared rfc8949_spec transparent_signsOwn
    transparent_decryptsOwn transparent_evaluatesTo _ _ hprepare pairEnvironment_attempt ⟨⟨[]⟩, []⟩
  obtain ⟨diagnostics, hok⟩ := hunlock.1 (by decide)
  exact ⟨prepared, w', diagnostics, hprepare, hok⟩

end Leelo.Engine
