import Leelo.Engine.Unlock

/-!
# An operation whose factors are present runs to its end

Forward equations for the two gates and for `run`. Once the network loop has returned a
quorum and the TPM has answered in time with the authorization that the mode asks for,
no gate refuses: the operation returns the opened payload.
-/

namespace Leelo.Engine

open Leelo.Core Leelo.Crypto Leelo.Envelope Leelo.Policy
open Leelo.Sss (Secret Share)

/-- The session of an authenticated envelope that accepted the given leaves. -/
def accepting (policy : ProductionPolicy) (ids : List UInt8) : PolicySession where
  requireLive := policy.mode == .attested
  plan := policy.plan
  responses := policy.plan.marks ids
  state := ⟨true, false, policy.network.satisfied (fun id => decide (id ∈ ids)), false, false,
    false⟩

theorem authenticateEnvelope_new (policy : ProductionPolicy) :
    (PolicySession.new policy).authenticateEnvelope = (.ok (), accepting policy []) := by
  have hnone : policy.network.satisfied (fun id => decide (id ∈ ([] : List UInt8))) = false :=
    NetworkNode.satisfied_none policy.wellFormed.thresholds
  simp only [PolicySession.authenticateEnvelope, PolicySession.new, accepting, hnone,
    NetworkPlan.marks_nil]
  rfl

variable {policy : ProductionPolicy} {ids : List UInt8} {live : Bool} {β : Type} {P : Primitives}
  {envelope : AuthenticatedEnvelope} {ρ : Type} {env : Environment ρ}

theorem acceptNetwork_accepting (policy : ProductionPolicy) {id : UInt8} (hfresh : id ∉ ids)
    (hknown : id ∈ policy.networkLeafIds) :
    (accepting policy ids).acceptNetwork id = (.ok (), accepting policy (ids ++ [id])) := by
  have hrespond : (accepting policy ids).plan.respond (accepting policy ids).responses id =
      .ok (policy.plan.marks (ids ++ [id])) := by
    have hleaf : id ∈ policy.plan.leaves.map Prod.fst := hknown
    have hmarks := NetworkPlan.respond_marks policy.leafIds_nodup ids id
    rwa [if_pos hleaf, if_neg hfresh] at hmarks
  rw [PolicySession.acceptNetwork_eq id rfl, hrespond]
  simp only [PolicySession.observe, accepting, policy.evaluateNetwork_marks]

theorem acceptAll_accepting (policy : ProductionPolicy) {done : List UInt8}
    (hnodup : (done ++ ids).Nodup) (hknown : ∀ id ∈ ids, id ∈ policy.networkLeafIds) :
    acceptAll (accepting policy done) ids = .ok (accepting policy (done ++ ids)) := by
  induction ids generalizing done with
  | nil => rw [List.append_nil, acceptAll]
  | cons id ids ih =>
    have hfresh : id ∉ done := fun hmem =>
      (List.nodup_append.mp hnodup).2.2 id hmem id List.mem_cons_self rfl
    rw [List.append_cons] at hnodup ⊢
    rw [acceptAll, acceptNetwork_accepting policy hfresh (hknown id List.mem_cons_self)]
    exact ih hnodup fun other hother => hknown other (List.mem_cons_of_mem _ hother)

/-- A session with a quorum, after the given further observations. -/
def staged (policy : ProductionPolicy) (ids : List UInt8) (live tpm root : Bool) :
    PolicySession :=
  { accepting policy ids with state := ⟨true, tpm, true, live, root, false⟩ }

theorem accepting_eq_staged (h : policy.network.satisfied (fun id => decide (id ∈ ids)) = true) :
    accepting policy ids = staged policy ids false false false := by
  rw [staged, accepting, h]

theorem confirmLive_staged (policy : ProductionPolicy) (ids : List UInt8) (live : Bool) :
    (if live then sessionStep (staged policy ids false false false).confirmLiveAuthorization
      else .ok (staged policy ids false false false)) =
      .ok (staged policy ids live false false) := by
  cases live <;> rfl

theorem confirmTpm_staged (policy : ProductionPolicy) (ids : List UInt8) (live : Bool) :
    sessionStep (staged policy ids live false false).confirmTpm =
      .ok (staged policy ids live true false) := rfl

theorem canReconstruct_staged {root : Bool} (hlive : policy.mode = .attested → live = true) :
    (staged policy ids live true root).canReconstruct = true := by
  apply PolicySession.canReconstruct_iff.mpr
  exact ⟨⟨rfl, rfl, rfl, fun hrequire => hlive (beq_iff_eq.mp hrequire)⟩, rfl⟩

/-- The root is authenticated. -/
theorem authenticateRoot_staged (hlive : policy.mode = .attested → live = true) :
    sessionStep (staged policy ids live true false).authenticateRoot =
      .ok (staged policy ids live true true) := by
  have hauthenticated : (staged policy ids live true false).requireAuthenticated = .ok () := rfl
  simp only [PolicySession.authenticateRoot, hauthenticated, canReconstruct_staged hlive]
  rfl

/-- The session releases. -/
theorem release_staged (hlive : policy.mode = .attested → live = true) :
    ∃ session, sessionStep (staged policy ids live true true).release = .ok session := by
  have hauthenticated : (staged policy ids live true true).requireAuthenticated = .ok () := rfl
  have hrelease := PolicySession.canRelease_eq (staged policy ids live true true)
  rw [canReconstruct_staged hlive] at hrelease
  have hallowed : canRelease (staged policy ids live true true).state
      (staged policy ids live true true).requireLive = true := hrelease
  simp only [PolicySession.release, hauthenticated, canReconstruct_staged hlive, tryRelease,
    hallowed]
  exact ⟨_, rfl⟩

theorem attempt_bind_ok {α : Type} {result : Except EngineError α} {a : α} (h : result = .ok a)
    (f : α → Effect World (Halt EngineError) β) (w : World) :
    (attempt result >>= f) w = f a w := by
  rw [h]
  rfl

theorem ofExcept_bind_ok {α : Type} {result : Exec EngineError α} {a : α} (h : result = .ok a)
    (f : α → Effect World (Halt EngineError) β) (w : World) :
    (Effect.ofExcept result >>= f) w = f a w := by
  rw [h]
  rfl

theorem update_bind (g : World → World) (f : Unit → Effect World (Halt EngineError) β) (w : World) :
    (Effect.update g >>= f) w = f () (g w) := rfl

section Gate

variable (context : Vector UInt8 48) {requireLive : Bool}

/-- The gate accepts the evidence of its own context in its own phase. -/
private theorem advance_own {phase : UInt8} {live : Bool}
    (hlive : phase = 1 → requireLive = true → live = true) :
    (ReleaseState.mk context phase requireLive).advance context phase live =
      (true, ⟨context, phase + 1, requireLive⟩) := by
  rw [ReleaseState.advance_eq, if_pos ⟨rfl, rfl, hlive⟩]

/-- The gate's first step. -/
theorem gate_network :
    gateStep ((ReleaseState.new context requireLive).network context) =
      .ok ⟨context, 1, requireLive⟩ := by
  rw [ReleaseState.network, ReleaseState.new, advance_own context (fun h => by cases h)]
  rfl

theorem gate_tpm {live : Bool} (hlive : requireLive = true → live = true) :
    gateStep ((ReleaseState.mk context 1 requireLive).tpm context live) =
      .ok ⟨context, 2, requireLive⟩ := by
  rw [ReleaseState.tpm, advance_own context fun _ => hlive]
  rfl

/-- The gate's third step. -/
theorem gate_payload :
    gateStep ((ReleaseState.mk context 2 requireLive).payload context) =
      .ok ⟨context, 3, requireLive⟩ := by
  rw [ReleaseState.payload, advance_own context (fun h => by cases h)]
  rfl

theorem gate_release :
    ((ReleaseState.mk context 3 requireLive).release context true).1 = true := by
  rw [ReleaseState.release, if_neg (by decide), advance_own context (fun h => by cases h)]

end Gate

/-- An opened TPM leaf is evidence for the envelope's context. -/
theorem TpmEvidence.authenticate_ok {unsealed : UnsealedSeed} {leaf : WrappedLeaf}
    {rest : List WrappedLeaf} {key share : Secret} (hleaves : envelope.body.leaves = leaf :: rest)
    (hlive : envelope.body.descriptor.policy.mode = .attested →
      unsealed.authorization = .freshSessionAuthorization)
    (hkey : deriveSecretKey P unsealed.seed.toList (leafContext envelope.context
      envelope.body.descriptor.policy.tpmNodeId) (ascii "leelo/v1/tpm-wrap") = .ok key)
    (hopen : openKey P key leaf.value (leafContext envelope.context
      envelope.body.descriptor.policy.tpmNodeId) = .ok share) :
    TpmEvidence.authenticate P unsealed envelope = .ok ⟨envelope.context, share,
      unsealed.authorization == .freshSessionAuthorization⟩ := by
  have hmode : ¬(envelope.body.descriptor.policy.mode = .attested ∧
      (unsealed.authorization == .freshSessionAuthorization) = false) := by
    rintro ⟨hattested, hstale⟩
    exact beq_eq_false_iff_ne.mp hstale (hlive hattested)
  simp only [TpmEvidence.authenticate, derive, bind_eq_ok, lift_eq_ok, mapError_eq_ok, hleaves]
  exact ⟨(), ensure_eq_ok.mpr hmode, key, hkey, share, hopen, rfl⟩

/-- The factors of a successful operation, as the outside delivers them. -/
structure Factors (P : Primitives) {ρ : Type} (env : Environment ρ)
    (envelope : AuthenticatedEnvelope) (deadline : Nat) (network : NetworkRecovery)
    (tpm : TpmEvidence) (root credential : Secret) : Prop where
  runtime : env.runtime = true
  inTime : ∀ reading, env.clock reading < deadline
  distinct : network.available.Nodup
  known : ∀ id ∈ network.available, id ∈ envelope.body.descriptor.policy.networkLeafIds
  quorum : envelope.body.descriptor.policy.network.satisfied
    (fun id => decide (id ∈ network.available)) = true
  unsealed : ∃ seed, env.tpm.unsealSeed envelope = .ok seed ∧
    TpmEvidence.authenticate P seed envelope = .ok tpm
  context : tpm.context = envelope.context
  live : envelope.body.descriptor.policy.mode = .attested → tpm.live = true
  reconstructed :
    Sss.reconstruct 2 [⟨1, tpm.share, by decide⟩, ⟨2, network.share, by decide⟩] = .ok root
  payload : PayloadEvidence.authenticate P root envelope = .ok ⟨envelope.context, credential⟩

/-- The operation that `begin` builds for an authenticated envelope. -/
def begun (envelope : AuthenticatedEnvelope) (deadline : Nat) : UnlockOperation where
  envelope := envelope
  deadline := deadline
  policy := accepting envelope.body.descriptor.policy []
  release := .new envelope.context (envelope.body.descriptor.policy.mode == .attested)

/-- With every factor in place, unlocking releases the credential. -/
theorem run_begun {deadline : Nat} {network : NetworkRecovery} {tpm : TpmEvidence}
    {root credential : Secret} {w w1 : World}
    (hloop : recoverNetworkObserved envelope.body.descriptor (leafResult P env envelope deadline)
      env.wakes w = (.ok network, w1))
    (h : Factors P env envelope deadline network tpm root credential) :
    (begun envelope deadline).run P env w = (.ok ⟨credential, network.failures⟩,
      { w1 with calls := w1.calls ++ [.unseal] }) := by
  obtain ⟨seed, hseed, htpm⟩ := h.unsealed
  have htime (reading : Nat) : checkDeadline (env.clock reading) deadline = .ok () :=
    checkDeadline_eq_ok.mpr (h.inTime reading)
  have haccept : acceptAll (begun envelope deadline).policy network.available =
      .ok (staged envelope.body.descriptor.policy network.available false false false) := by
    rw [← accepting_eq_staged h.quorum]
    exact acceptAll_accepting envelope.body.descriptor.policy h.distinct h.known
  have hrequire : (envelope.body.descriptor.policy.mode == .attested) = true → tpm.live = true :=
    fun hattested => h.live (beq_iff_eq.mp hattested)
  have hwithin : decide (env.clock 5 < (begun envelope deadline).deadline) = true :=
    decide_eq_true (h.inTime 5)
  obtain ⟨session, hrelease⟩ :=
    @release_staged envelope.body.descriptor.policy network.available tpm.live h.live
  unfold UnlockOperation.run
  refine (attempt_bind_ok (ensure_eq_ok.mpr h.runtime) _ _).trans ?_
  refine (Effect.bind_ok hloop).trans ?_
  refine (attempt_bind_ok haccept _ _).trans ?_
  refine (attempt_bind_ok (gate_network envelope.context) _ _).trans ?_
  refine (attempt_bind_ok (htime 2) _ _).trans ?_
  refine (update_bind _ _ _).trans ?_
  refine (attempt_bind_ok hseed _ _).trans ?_
  refine (attempt_bind_ok (htime 3) _ _).trans ?_
  refine (ofExcept_bind_ok htpm _ _).trans ?_
  refine (attempt_bind_ok (confirmLive_staged _ _ tpm.live) _ _).trans ?_
  refine (attempt_bind_ok (confirmTpm_staged _ _ tpm.live) _ _).trans ?_
  rw [h.context]
  refine (attempt_bind_ok (gate_tpm envelope.context hrequire) _ _).trans ?_
  refine (attempt_bind_ok (mapError_eq_ok.mpr (Share.fromParts_ok (by decide) _)) _ _).trans ?_
  refine (attempt_bind_ok (mapError_eq_ok.mpr (Share.fromParts_ok (by decide) _)) _ _).trans ?_
  refine (attempt_bind_ok (mapError_eq_ok.mpr h.reconstructed) _ _).trans ?_
  refine (attempt_bind_ok h.payload _ _).trans ?_
  refine (attempt_bind_ok (authenticateRoot_staged h.live) _ _).trans ?_
  refine (attempt_bind_ok (gate_payload envelope.context) _ _).trans ?_
  refine (attempt_bind_ok (htime 4) _ _).trans ?_
  refine (attempt_bind_ok hrelease _ _).trans ?_
  rw [hwithin, if_pos (gate_release envelope.context)]
  rfl

/-- Without a network recovery the operation ends before the TPM is asked. -/
theorem run_begun_error {deadline : Nat} {halt : Halt EngineError} {w w1 : World}
    (hruntime : env.runtime = true)
    (hloop : recoverNetworkObserved envelope.body.descriptor (leafResult P env envelope deadline)
      env.wakes w = (.error halt, w1)) :
    (begun envelope deadline).run P env w = (.error halt, w1) := by
  unfold UnlockOperation.run
  refine (attempt_bind_ok (ensure_eq_ok.mpr hruntime) _ _).trans ?_
  exact Effect.bind_error hloop

/-- The state of the world when the network loop starts. -/
def configured (d : Descriptor) (w : World) : World := { w with report := .configure d.networks }

/-- An authentic envelope for the expected target starts its operation. -/
theorem unlockObserved_eq {cbor : Cbor} {raw : Bytes} {signer : Vector UInt8 32}
    (hauthentic : authenticate cbor P raw signer = .ok envelope)
    (hmode : env.tpm.supportsMode envelope.body.descriptor.policy.mode = true)
    (htime : env.clock 1 < env.clock 0 + operationBudget) (w : World) :
    unlockObserved cbor P env raw signer envelope.body.descriptor.volumeUuid
        envelope.body.descriptor.slot w =
      (begun envelope (env.clock 0 + operationBudget)).run P env
        (configured envelope.body.descriptor w) := by
  have hbegin : UnlockOperation.begin cbor P env raw signer envelope.body.descriptor.volumeUuid
      envelope.body.descriptor.slot (env.clock 0 + operationBudget) { w with report := ⟨[]⟩ } =
      (.ok (begun envelope (env.clock 0 + operationBudget)),
        configured envelope.body.descriptor w) := by
    unfold UnlockOperation.begin
    refine (attempt_bind_ok (mapError_eq_ok.mpr hauthentic) _ _).trans ?_
    refine (update_bind _ _ _).trans ?_
    refine (attempt_bind_ok (ensure_eq_ok.mpr ⟨rfl, rfl⟩) _ _).trans ?_
    refine (attempt_bind_ok (ensure_eq_ok.mpr hmode) _ _).trans ?_
    refine (attempt_bind_ok (checkDeadline_eq_ok.mpr htime) _ _).trans ?_
    rw [authenticateEnvelope_new]
    rfl
  unfold unlockObserved
  refine (update_bind _ _ _).trans ?_
  exact Effect.bind_ok hbegin

end Leelo.Engine
