import Leelo.Engine.Correctness

/-!
# The two gates agree

The policy session and the release state follow one operation independently. Here they are
part of the state, so that both remain visible when the operation fails. No call of either
is refused, except for the last one when the clock has reached the deadline.
-/

namespace Leelo.Engine

open Leelo.Core Leelo.Crypto Leelo.Envelope Leelo.Policy
open Leelo.Sss (Secret Share)

/-- The two machines that `run` owns, and how many of their calls were refused. -/
structure Gates where
  policy : PolicySession
  release : ReleaseState
  refusals : Nat

/-- The machines of an operation that has not run. -/
def UnlockOperation.gates (op : UnlockOperation) : Gates := ⟨op.policy, op.release, 0⟩

section Guarded

variable {α β : Type}

/-- A call that also sees both machines. -/
abbrev Guarded (α : Type) := Effect (World × Gates) (Halt EngineError) α

/-- A call that touches neither machine. -/
def outside (x : Effect World (Halt EngineError) α) : Guarded α := fun s =>
  ((x s.1).1, (x s.1).2, s.2)

/-- A method of the session, with its error translated. -/
def sessionCall (method : PolicySession → SessionResult × PolicySession) : Guarded Unit := fun s =>
  match method s.2.policy with
  | (.ok (), policy) => (.ok (), s.1, { s.2 with policy })
  | (.error e, policy) =>
    (.error (.error (policyError e)), s.1, { s.2 with policy, refusals := s.2.refusals + 1 })

/-- A method of the release state, with what it answered. -/
def gateCall (method : ReleaseState → Bool × ReleaseState) : Guarded Bool := fun s =>
  match method s.2.release with
  | (true, release) => (.ok true, s.1, { s.2 with release })
  | (false, release) => (.ok false, s.1, { s.2 with release, refusals := s.2.refusals + 1 })

/-- A method of the release state whose refusal ends the operation. -/
def gateRequired (method : ReleaseState → Bool × ReleaseState) : Guarded Unit := do
  if ← gateCall method then pure () else outside (attempt (.error .policy))

/-- The session learns of a live authorization only when there is one. -/
def confirmLive (live : Bool) : Guarded Unit :=
  if live then sessionCall PolicySession.confirmLiveAuthorization else pure ()

/-- Accept every available leaf in order. -/
def acceptEach : List UInt8 → Guarded Unit
  | [] => pure ()
  | id :: ids => do
    sessionCall (·.acceptNetwork id)
    acceptEach ids

end Guarded

section Operation

variable (P : Primitives) {ρ : Type}

/-- The operation with both machines kept in its state, from the evidence of the TPM on. -/
def UnlockOperation.finishGuarded (env : Environment ρ) (op : UnlockOperation)
    (network : NetworkRecovery) (tpm : TpmEvidence) : Guarded UnlockResult := do
  confirmLive tpm.live
  sessionCall PolicySession.confirmTpm
  gateRequired (·.tpm tpm.context tpm.live)
  let tpmShare ← outside (attempt ((Share.fromParts 1 tpm.share).mapError fun _ => .sharing))
  let networkShare ←
    outside (attempt ((Share.fromParts 2 network.share).mapError fun _ => .sharing))
  let root ← outside
    (attempt ((Sss.reconstruct 2 [tpmShare, networkShare]).mapError fun _ => .sharing))
  let payload ← outside (attempt (PayloadEvidence.authenticate P root op.envelope))
  sessionCall PolicySession.authenticateRoot
  gateRequired (·.payload payload.context)
  outside (attempt (checkDeadline (env.clock 4) op.deadline))
  sessionCall PolicySession.release
  if ← gateCall (·.release payload.context (decide (env.clock 5 < op.deadline))) then
    return ⟨payload.credential, network.failures⟩
  else do
    outside (attempt (checkDeadline (env.clock 6) op.deadline))
    outside (attempt (.error .policy))

/-- The operation with both machines kept in its state. -/
def UnlockOperation.runGuarded (env : Environment ρ) (op : UnlockOperation) :
    Guarded UnlockResult := do
  let envelope := op.envelope
  outside (attempt (ensure (env.runtime = true) .runtime))
  let network ← outside (recoverNetworkObserved envelope.body.descriptor
    (leafResult P env envelope op.deadline) env.wakes)
  acceptEach network.available
  gateRequired (·.network envelope.context)
  outside (attempt (checkDeadline (env.clock 2) op.deadline))
  outside (Effect.update fun world => { world with calls := world.calls ++ [.unseal] })
  let unsealed ← outside (attempt (env.tpm.unsealSeed envelope))
  outside (attempt (checkDeadline (env.clock 3) op.deadline))
  let tpm ← outside (Effect.ofExcept (TpmEvidence.authenticate P unsealed envelope))
  op.finishGuarded P env network tpm

end Operation

section Calls

variable {w : World} {gates : Gates}

theorem sessionCall_ok {method : PolicySession → SessionResult × PolicySession}
    {policy : PolicySession} (h : method gates.policy = (.ok (), policy)) :
    sessionCall method (w, gates) = (.ok (), w, { gates with policy }) := by
  simp only [sessionCall, h]

theorem sessionCall_error {method : PolicySession → SessionResult × PolicySession}
    {policy : PolicySession} {e : PolicyError} (h : method gates.policy = (.error e, policy)) :
    sessionCall method (w, gates) = (.error (.error (policyError e)), w,
      { gates with policy, refusals := gates.refusals + 1 }) := by
  simp only [sessionCall, h]

variable {method : ReleaseState → Bool × ReleaseState} {release : ReleaseState}

theorem gateCall_true (h : method gates.release = (true, release)) :
    gateCall method (w, gates) = (.ok true, w, { gates with release }) := by
  simp only [gateCall, h]

theorem gateCall_false (h : method gates.release = (false, release)) :
    gateCall method (w, gates) =
      (.ok false, w, { gates with release, refusals := gates.refusals + 1 }) := by
  simp only [gateCall, h]

theorem gateRequired_true (h : method gates.release = (true, release)) :
    gateRequired method (w, gates) = (.ok (), w, { gates with release }) := by
  rw [gateRequired, Effect.bind_ok (gateCall_true h)]
  rfl

theorem gateRequired_false (h : method gates.release = (false, release)) :
    gateRequired method (w, gates) = (.error (.error .policy), w,
      { gates with release, refusals := gates.refusals + 1 }) := by
  rw [gateRequired, Effect.bind_ok (gateCall_false h)]
  rfl

theorem outside_attempt_ok {α : Type} {result : Except EngineError α} {a : α}
    (h : result = .ok a) : outside (attempt result) (w, gates) = (.ok a, w, gates) := by
  rw [h]
  rfl

end Calls

section Forget

variable {α β : Type} {w : World} {gates : Gates}

/-- An outcome without the machines. -/
def forget (outcome : Exec EngineError α × World × Gates) : Exec EngineError α × World :=
  (outcome.1, outcome.2.1)

theorem forget_outside_bind {x : Effect World (Halt EngineError) α} {f : α → Guarded β}
    {f' : α → Effect World (Halt EngineError) β}
    (h : ∀ a w', forget (f a (w', gates)) = f' a w') :
    forget ((outside x >>= f) (w, gates)) = (x >>= f') w := by
  cases hx : x w with
  | mk result w' =>
    have hout : outside x (w, gates) = (result, w', gates) := by simp only [outside, hx]
    cases result with
    | ok a => rw [Effect.bind_ok hx, Effect.bind_ok hout, h]
    | error e => rw [Effect.bind_error hx, Effect.bind_error hout, forget]

variable {f : Unit → Guarded β} {f' : PolicySession → Effect World (Halt EngineError) β}

theorem forget_sessionCall_bind {method : PolicySession → SessionResult × PolicySession}
    (h : ∀ policy, forget (f () (w, { gates with policy })) = f' policy w) :
    forget ((sessionCall method >>= f) (w, gates)) =
      (attempt (sessionStep (method gates.policy)) >>= f') w := by
  cases hstep : method gates.policy with
  | mk result policy =>
    cases result with
    | ok value =>
      rw [Effect.bind_ok (sessionCall_ok hstep), h]
      rfl
    | error e =>
      rw [Effect.bind_error (sessionCall_error hstep)]
      rfl

theorem forget_confirmLive_bind {live : Bool}
    (h : ∀ policy, forget (f () (w, { gates with policy })) = f' policy w) :
    forget ((confirmLive live >>= f) (w, gates)) =
      (attempt (if live then sessionStep gates.policy.confirmLiveAuthorization
        else .ok gates.policy) >>= f') w := by
  cases live with
  | true => exact forget_sessionCall_bind h
  | false => exact h gates.policy

theorem forget_gateRequired_bind {method : ReleaseState → Bool × ReleaseState}
    {f' : ReleaseState → Effect World (Halt EngineError) β}
    (h : ∀ release, forget (f () (w, { gates with release })) = f' release w) :
    forget ((gateRequired method >>= f) (w, gates)) =
      (attempt (gateStep (method gates.release)) >>= f') w := by
  cases hstep : method gates.release with
  | mk accepted release =>
    cases accepted with
    | true =>
      rw [Effect.bind_ok (gateRequired_true hstep), h]
      rfl
    | false =>
      rw [Effect.bind_error (gateRequired_false hstep)]
      rfl

/-- Forgetting the gates after the shares are accepted. -/
theorem forget_acceptEach_bind (ids : List UInt8)
    (h : ∀ policy, forget (f () (w, { gates with policy })) = f' policy w) :
    forget ((acceptEach ids >>= f) (w, gates)) =
      (attempt (acceptAll gates.policy ids) >>= f') w := by
  induction ids generalizing gates with
  | nil => exact h gates.policy
  | cons id ids ih =>
    have hall : attempt (acceptAll gates.policy (id :: ids)) >>= f' =
        attempt (sessionStep (gates.policy.acceptNetwork id)) >>= fun policy =>
          attempt (acceptAll policy ids) >>= f' := by
      rw [acceptAll]
      cases sessionStep (gates.policy.acceptNetwork id) with
      | ok policy => rfl
      | error e => rfl
    rw [acceptEach, Effect.bind_bind, hall]
    exact forget_sessionCall_bind fun policy => ih h

/-- Without its machines the guarded operation is the operation. -/
theorem forget_runGuarded {P : Primitives} {ρ : Type} (env : Environment ρ) (op : UnlockOperation)
    (w : World) : forget (op.runGuarded P env (w, op.gates)) = op.run P env w := by
  unfold UnlockOperation.runGuarded UnlockOperation.finishGuarded UnlockOperation.run
  refine forget_outside_bind fun _ w => ?_
  refine forget_outside_bind fun network w => ?_
  refine forget_acceptEach_bind _ fun policy => ?_
  refine forget_gateRequired_bind fun release => ?_
  refine forget_outside_bind fun _ w => ?_
  refine forget_outside_bind fun _ w => ?_
  refine forget_outside_bind fun unsealed w => ?_
  refine forget_outside_bind fun _ w => ?_
  refine forget_outside_bind fun tpm w => ?_
  refine forget_confirmLive_bind fun policy => ?_
  refine forget_sessionCall_bind fun policy => ?_
  refine forget_gateRequired_bind fun release => ?_
  refine forget_outside_bind fun tpmShare w => ?_
  refine forget_outside_bind fun networkShare w => ?_
  refine forget_outside_bind fun root w => ?_
  refine forget_outside_bind fun payload w => ?_
  refine forget_sessionCall_bind fun policy => ?_
  refine forget_gateRequired_bind fun release => ?_
  refine forget_outside_bind fun _ w => ?_
  refine forget_sessionCall_bind fun policy => ?_
  -- Only the answer of the last gate is a condition in both.
  cases hstep : release.release payload.context (decide (env.clock 5 < op.deadline)) with
  | mk accepted release' =>
    cases accepted with
    | true =>
      rw [Effect.bind_ok (gateCall_true hstep)]
      rfl
    | false =>
      rw [Effect.bind_ok (gateCall_false hstep), if_neg Bool.false_ne_true,
        if_neg Bool.false_ne_true]
      exact forget_outside_bind fun _ w => rfl

end Forget

/-- The errors of `run`'s defensive branches. -/
def Defensive (e : EngineError) : Prop := e = .policy ∨ e = .sharing

instance decidableDefensive (e : EngineError) : Decidable (Defensive e) :=
  inferInstanceAs (Decidable (e = .policy ∨ e = .sharing))

/-- How an outcome of the guarded operation shows that the machines agree. -/
structure GatesAgree {ρ : Type} (env : Environment ρ) (op : UnlockOperation)
    (outcome : Exec EngineError UnlockResult × World × Gates) : Prop where
  /-- A defensive error is the TPM adapter's own. -/
  defensive : ∀ e, Defensive e → outcome.1 = .error (.error e) →
    env.tpm.unsealSeed op.envelope = .error e
  /-- At most the last call is refused, for the deadline. -/
  refusals : outcome.2.2.refusals = 0 ∨ outcome.2.2.refusals = 1 ∧ op.deadline ≤ env.clock 5 ∧
    outcome.1 = .error (.error (.deadlineExceeded []))
  /-- A release state that has released stands beside a released session and a credential. -/
  released : outcome.2.2.release.phase = 4 →
    outcome.2.2.policy.state.released = true ∧ ∃ result, outcome.1 = .ok result

/-- Nothing was refused and nothing is released. -/
def Gates.Pending (gates : Gates) : Prop := gates.refusals = 0 ∧ gates.release.phase ≠ 4

section Agree

variable {ρ : Type} {env : Environment ρ} {op : UnlockOperation} {α : Type} {w : World}
  {gates : Gates}

/-- The gates agree after a step outside them. -/
theorem outside_bind_agree (hpending : gates.Pending) {x : Effect World (Halt EngineError) α}
    {f : α → Guarded UnlockResult} (herror : ∀ e, (x w).1 = .error (.error e) → Defensive e →
      env.tpm.unsealSeed op.envelope = .error e)
    (hok : ∀ a w', x w = (.ok a, w') → GatesAgree env op (f a (w', gates))) :
    GatesAgree env op ((outside x >>= f) (w, gates)) := by
  cases hx : x w with
  | mk result w' =>
    have hout : outside x (w, gates) = (result, w', gates) := by simp only [outside, hx]
    cases result with
    | ok a =>
      rw [Effect.bind_ok hout]
      exact hok a w' hx
    | error halt =>
      rw [Effect.bind_error hout]
      refine ⟨fun e hdefensive he => ?_, .inl hpending.1, fun hphase => absurd hphase hpending.2⟩
      rw [hx] at herror
      obtain rfl := Except.error.inj he
      exact herror e rfl hdefensive

/-- A computed result whose errors are not defensive. -/
theorem attempt_bind_agree (hpending : gates.Pending) {result : Except EngineError α}
    {f : α → Guarded UnlockResult} (herror : ∀ e, result = .error e → ¬Defensive e)
    (hok : ∀ a, result = .ok a → GatesAgree env op (f a (w, gates))) :
    GatesAgree env op ((outside (attempt result) >>= f) (w, gates)) := by
  refine outside_bind_agree hpending (fun e he hdefensive => ?_) fun a w' h => ?_
  · cases result with
    | ok a => cases he
    | error e' =>
      obtain rfl : e' = e := Halt.error.inj (Except.error.inj he)
      exact absurd hdefensive (herror e' rfl)
  · cases result with
    | ok value =>
      cases h
      exact hok a rfl
    | error e => cases h

theorem sessionStep_eq_ok {step : SessionResult × PolicySession} {session : PolicySession} :
    sessionStep step = .ok session ↔ step = (.ok (), session) := by
  obtain ⟨result, session'⟩ := step
  cases result with
  | ok value => simp [sessionStep]
  | error e => simp [sessionStep]

theorem acceptEach_ok {ids : List UInt8} {policy : PolicySession}
    (h : acceptAll gates.policy ids = .ok policy) :
    acceptEach ids (w, gates) = (.ok (), w, { gates with policy }) := by
  induction ids generalizing gates with
  | nil =>
    cases h
    rfl
  | cons id ids ih =>
    rw [acceptAll] at h
    obtain ⟨session, hstep, hrest⟩ := bind_eq_ok.mp h
    have hcall : sessionCall (·.acceptNetwork id) (w, gates) =
        (.ok (), w, { gates with policy := session }) :=
      sessionCall_ok (sessionStep_eq_ok.mp hstep)
    rw [acceptEach, Effect.bind_ok hcall, ih hrest]

end Agree

theorem ensure_error {condition : Prop} [Decidable condition] {error e : EngineError}
    (hplain : ¬Defensive error) (h : ensure condition error = .error e) : ¬Defensive e := by
  unfold ensure at h
  by_cases hcondition : condition
  · rw [if_pos hcondition] at h
    cases h
  · rw [if_neg hcondition] at h
    obtain rfl := Except.error.inj h
    exact hplain

/-- The deadline has passed. -/
theorem checkDeadline_of_le {now deadline : Nat} (h : deadline ≤ now) :
    checkDeadline now deadline = .error (.deadlineExceeded []) := if_pos h

theorem checkDeadline_error {now deadline : Nat} {e : EngineError}
    (h : checkDeadline now deadline = .error e) : ¬Defensive e := by
  by_cases hdeadline : deadline ≤ now
  · rw [checkDeadline_of_le hdeadline] at h
    obtain rfl := Except.error.inj h
    decide
  · rw [checkDeadline_eq_ok.mpr (Nat.lt_of_not_le hdeadline)] at h
    cases h

section Errors

variable {P : Primitives} {envelope : AuthenticatedEnvelope} {e : EngineError}

theorem TpmEvidence.authenticate_error {unsealed : UnsealedSeed}
    (h : TpmEvidence.authenticate P unsealed envelope = .error (.error e)) : ¬Defensive e := by
  unfold TpmEvidence.authenticate derive at h
  rcases bind_eq_error.mp h with hmode | ⟨⟨⟩, -, h⟩
  · exact ensure_error (by decide) (lift_id_eq_error.mp hmode)
  rcases bind_eq_error.mp h with hkey | ⟨key, -, h⟩
  · rw [eq_of_mapError_const (lift_id_eq_error.mp hkey)]
    decide
  cases hleaves : envelope.body.leaves with
  | nil =>
    rw [hleaves] at h
    cases h
  | cons leaf rest =>
    rw [hleaves] at h
    rcases bind_eq_error.mp h with hopen | ⟨share, -, h⟩
    · rw [eq_of_mapError_const (lift_id_eq_error.mp hopen)]
      decide
    · cases h

theorem PayloadEvidence.authenticate_error {root : Secret}
    (h : PayloadEvidence.authenticate P root envelope = .error e) : ¬Defensive e := by
  unfold PayloadEvidence.authenticate derive at h
  rcases bind_eq_error.mp h with hkey | ⟨key, -, h⟩
  · rw [eq_of_mapError_const hkey]
    decide
  rcases bind_eq_error.mp h with hopen | ⟨credential, -, h⟩
  · rw [eq_of_mapError_const hopen]
    decide
  · cases h

/-- The network loop reports a deadline, missing factors or a disagreement of shares. -/
theorem recoverNetworkObserved_error {d : Descriptor}
    {leaf : NetworkBinding → Except NetworkFailure Secret} {wakes : Nat → Wake} {w : World}
    (hids : d.networks.map NetworkBinding.nodeId = d.policy.networkLeafIds)
    (h : (recoverNetworkObserved d leaf wakes w).1 = .error (.error e)) : ¬Defensive e := by
  obtain ⟨done, rest, hperm, -, houtcome⟩ :=
    recoverLoop_outcome hids wakes 0 _ [] (LoopState.tracks_start w)
  unfold recoverNetworkObserved at h
  rw [h] at houtcome
  generalize hresult : (Except.error (Halt.error e) : Exec EngineError NetworkRecovery) = result
    at houtcome
  cases houtcome with
  | expired turn polled hwake failures =>
    cases hresult
    rintro (h | h) <;> cases h
  | exhausted hquorum hrest =>
    cases hresult
    rintro (h | h) <;> cases h
  | quorum hquorum =>
    -- Distinct known leaves leave the tree's own recovery as the only source of errors.
    have hsub := collectedIds_subperm leaf hids hperm
    rw [d.policy.recoverNetwork_of_subperm hsub] at hresult
    rcases NetworkNode.recoverTree_cases d.policy.wellFormed.thresholds d.policy.size_le
      (findShare (collected leaf done)) with ⟨value, hvalue⟩ | herror
    · rw [hvalue] at hresult
      cases value with
      | none =>
        cases hresult
        decide
      | some secret => cases hresult
    · rw [herror] at hresult
      cases hresult
      decide

end Errors

/-- Two shares are always on one line. -/
theorem reconstruct_pair (tpm network : Secret) :
    ∃ root, Sss.reconstruct 2 [⟨1, tpm, by decide⟩, ⟨2, network, by decide⟩] = .ok root :=
  ⟨_, rfl⟩

/-- A session that releases is released. -/
theorem released_of_release {session session' : PolicySession}
    (h : session.release = (.ok (), session')) : session'.state.released = true := by
  rcases session.call_cases .release with ⟨-, -, hcall⟩ | ⟨e, -, -, hcall⟩
  · obtain ⟨-, rfl⟩ := Prod.mk.inj (h.symm.trans hcall)
    rfl
  · cases h.symm.trans hcall

/-- What `begin` builds. -/
theorem UnlockOperation.begin_begun {cbor : Cbor} {P : Primitives} {ρ : Type}
    {env : Environment ρ} {raw : Bytes} {signer : Vector UInt8 32} {volume : Vector UInt8 16}
    {slot : UInt8} {deadline : Nat} {op : UnlockOperation} {w w' : World}
    (h : UnlockOperation.begin cbor P env raw signer volume slot deadline w = (.ok op, w')) :
    ∃ envelope, op = begun envelope deadline ∧
      envelope.body.descriptor.networks.map NetworkBinding.nodeId =
        envelope.body.descriptor.policy.networkLeafIds := by
  obtain ⟨hauthentic, -⟩ := UnlockOperation.begin_eq_ok h
  obtain ⟨body, signature, hraw, hverify, hbody, hcontext⟩ := authenticate_eq_ok hauthentic
  obtain ⟨hvalid, -⟩ := bodyBytes_valid hbody
  unfold UnlockOperation.begin at h
  obtain ⟨envelope, henvelope, h⟩ := attempt_bind_eq_ok.mp h
  rw [Effect.bind_ok (Effect.update_apply _ _)] at h
  obtain ⟨⟨⟩, -, h⟩ := attempt_bind_eq_ok.mp h
  obtain ⟨⟨⟩, -, h⟩ := attempt_bind_eq_ok.mp h
  obtain ⟨⟨⟩, -, h⟩ := attempt_bind_eq_ok.mp h
  obtain ⟨policy, hpolicy, h⟩ := attempt_bind_eq_ok.mp h
  rw [authenticateEnvelope_new] at hpolicy
  obtain rfl := Except.ok.inj hpolicy
  obtain rfl := Except.ok.inj (Prod.mk.inj h).1
  exact ⟨envelope, rfl, hvalid.nodeIds⟩

/-- The session accepts every leaf of a recovery and has its quorum. -/
theorem acceptAll_available {d : Descriptor} {leaf : NetworkBinding → Except NetworkFailure Secret}
    {wakes : Nat → Wake} {w w' : World} {network : NetworkRecovery}
    (hids : d.networks.map NetworkBinding.nodeId = d.policy.networkLeafIds)
    (h : recoverNetworkObserved d leaf wakes w = (.ok network, w')) :
    acceptAll (accepting d.policy []) network.available =
      .ok (staged d.policy network.available false false false) := by
  obtain ⟨done, rest, hperm, -, hquorum, -, havailable⟩ := recoverNetworkObserved_eq_ok hids h
  have hsub := collectedIds_subperm leaf hids hperm
  rw [Quorum] at hquorum
  rw [← havailable] at hsub hquorum
  rw [← accepting_eq_staged hquorum]
  exact acceptAll_accepting d.policy (d.policy.nodup_of_subperm hsub) fun id hid => hsub.subset hid

/-- Evidence of the TPM is live where the mode asks for it. -/
theorem TpmEvidence.authenticate_live {P : Primitives} {unsealed : UnsealedSeed}
    {envelope : AuthenticatedEnvelope} {evidence : TpmEvidence}
    (h : TpmEvidence.authenticate P unsealed envelope = .ok evidence) :
    evidence.context = envelope.context ∧
      (envelope.body.descriptor.policy.mode = .attested → evidence.live = true) := by
  obtain ⟨leaf, rest, key, hleaves, hlive, hkey, hshare, hcontext⟩ :=
    TpmEvidence.authenticate_eq_ok h
  have hforward := TpmEvidence.authenticate_ok hleaves hlive hkey hshare
  refine ⟨hcontext, fun hattested => ?_⟩
  rw [Except.ok.inj (h.symm.trans hforward)]
  exact beq_iff_eq.mpr (hlive hattested)

section Run

variable {P : Primitives} {ρ : Type} {env : Environment ρ} {envelope : AuthenticatedEnvelope}
  {deadline : Nat}

/-- From the payload on, only the deadline can end the operation. -/
theorem release_agree (hclock : Monotone env.clock) {policy : PolicySession} {requireLive : Bool}
    (hreleased : policy.state.released = true) (result : UnlockResult) (w : World) :
    GatesAgree env (begun envelope deadline)
      ((gateCall (·.release envelope.context (decide (env.clock 5 < deadline))) >>= fun accepted =>
        if accepted then pure result else do
          outside (attempt (checkDeadline (env.clock 6) deadline))
          outside (attempt (.error .policy)))
        (w, ⟨policy, ⟨envelope.context, 3, requireLive⟩, 0⟩)) := by
  by_cases hwithin : env.clock 5 < deadline
  · have hstep : (ReleaseState.mk envelope.context 3 requireLive).release envelope.context
        (decide (env.clock 5 < deadline)) = (true, ⟨envelope.context, 4, requireLive⟩) := by
      rw [decide_eq_true hwithin, ReleaseState.release, if_neg (by decide),
        ReleaseState.advance_eq, if_pos ⟨rfl, rfl, fun h => by cases h⟩]
      rfl
    rw [Effect.bind_ok (gateCall_true hstep)]
    refine ⟨fun e _ he => ?_, .inl rfl, fun _ => ⟨hreleased, result, rfl⟩⟩
    cases he
  · have hstep : (ReleaseState.mk envelope.context 3 requireLive).release envelope.context
        (decide (env.clock 5 < deadline)) = (false, ⟨envelope.context, 3, requireLive⟩) := by
      rw [decide_eq_false hwithin]
      rfl
    have hpassed : deadline ≤ env.clock 5 := Nat.le_of_not_lt hwithin
    have hlater : checkDeadline (env.clock 6) deadline = .error (.deadlineExceeded []) :=
      checkDeadline_of_le (hpassed.trans (hclock (by decide)))
    rw [Effect.bind_ok (gateCall_false hstep), hlater]
    refine ⟨fun e hdefensive he => ?_, .inr ⟨rfl, hpassed, rfl⟩, fun hphase => ?_⟩
    · obtain rfl : EngineError.deadlineExceeded [] = e := Halt.error.inj (Except.error.inj he)
      exact absurd hdefensive (by decide)
    · have hthree : (3 : UInt8) = 4 := hphase
      exact absurd hthree (by decide)

/-- Before the last gate nothing is released. -/
theorem pending_phase (policy : PolicySession) {phase : UInt8} (requireLive : Bool)
    (hphase : phase ≠ 4) : Gates.Pending ⟨policy, ⟨envelope.context, phase, requireLive⟩, 0⟩ :=
  ⟨rfl, hphase⟩

theorem confirmLive_ok (policy : ProductionPolicy) (ids : List UInt8) (live : Bool)
    (release : ReleaseState) (w : World) :
    confirmLive live (w, ⟨staged policy ids false false false, release, 0⟩) =
      (.ok (), w, ⟨staged policy ids live false false, release, 0⟩) := by
  cases live with
  | true => rfl
  | false => rfl

/-- The gates agree from the module's evidence on. -/
theorem finishGuarded_agree (hclock : Monotone env.clock) {network : NetworkRecovery}
    {tpm : TpmEvidence} (hcontext : tpm.context = envelope.context)
    (hlive : envelope.body.descriptor.policy.mode = .attested → tpm.live = true) (w : World) :
    GatesAgree env (begun envelope deadline)
      ((begun envelope deadline).finishGuarded P env network tpm
        (w, ⟨staged envelope.body.descriptor.policy network.available false false false,
          ⟨envelope.context, 1, envelope.body.descriptor.policy.mode == .attested⟩, 0⟩)) := by
  have hearly (policy : PolicySession) {phase : UInt8} (hphase : phase ≠ 4) :=
    @pending_phase envelope policy phase (envelope.body.descriptor.policy.mode == .attested) hphase
  have hrequire : (envelope.body.descriptor.policy.mode == .attested) = true → tpm.live = true :=
    fun hattested => hlive (beq_iff_eq.mp hattested)
  obtain ⟨root, hroot⟩ := reconstruct_pair tpm.share network.share
  obtain ⟨session, hrelease⟩ :=
    @release_staged envelope.body.descriptor.policy network.available tpm.live hlive
  have hrelease := sessionStep_eq_ok.mp hrelease
  unfold UnlockOperation.finishGuarded
  rw [Effect.bind_ok (confirmLive_ok _ _ _ _ _), Effect.bind_ok (sessionCall_ok
      (sessionStep_eq_ok.mp (confirmTpm_staged _ _ tpm.live))), hcontext,
    Effect.bind_ok (gateRequired_true (gateStep_eq_ok.mp (gate_tpm envelope.context hrequire)))]
  rw [Effect.bind_ok (outside_attempt_ok (mapError_eq_ok.mpr (Share.fromParts_ok (by decide) _))),
    Effect.bind_ok (outside_attempt_ok (mapError_eq_ok.mpr (Share.fromParts_ok (by decide) _))),
    Effect.bind_ok (outside_attempt_ok (mapError_eq_ok.mpr hroot))]
  refine attempt_bind_agree (hearly _ (by decide))
    (fun e => PayloadEvidence.authenticate_error) fun payload hpayload => ?_
  obtain ⟨-, -, -, hpayloadContext⟩ := PayloadEvidence.authenticate_eq_ok.mp hpayload
  rw [Effect.bind_ok (sessionCall_ok (sessionStep_eq_ok.mp (authenticateRoot_staged hlive))),
    hpayloadContext,
    Effect.bind_ok (gateRequired_true (gateStep_eq_ok.mp (gate_payload envelope.context)))]
  refine attempt_bind_agree (hearly _ (by decide)) (fun e => checkDeadline_error) fun _ _ => ?_
  rw [Effect.bind_ok (sessionCall_ok hrelease)]
  exact release_agree hclock (released_of_release hrelease) _ _

/-- The machines of a started operation agree in every run of it. -/
theorem runGuarded_agree (hclock : Monotone env.clock)
    (hids : envelope.body.descriptor.networks.map NetworkBinding.nodeId =
      envelope.body.descriptor.policy.networkLeafIds) (w : World) :
    GatesAgree env (begun envelope deadline)
      ((begun envelope deadline).runGuarded P env (w, (begun envelope deadline).gates)) := by
  have hearly (policy : PolicySession) {phase : UInt8} (hphase : phase ≠ 4) :=
    @pending_phase envelope policy phase (envelope.body.descriptor.policy.mode == .attested) hphase
  unfold UnlockOperation.runGuarded
  refine attempt_bind_agree (hearly _ (by decide)) (fun e => ensure_error (by decide)) fun _ _ => ?_
  refine outside_bind_agree (hearly _ (by decide))
    (fun e he hdefensive => absurd hdefensive (recoverNetworkObserved_error hids he))
    fun network w1 hnetwork => ?_
  have haccept : acceptAll (begun envelope deadline).policy network.available = _ :=
    acceptAll_available hids hnetwork
  rw [Effect.bind_ok (acceptEach_ok haccept),
    Effect.bind_ok (gateRequired_true (gateStep_eq_ok.mp (gate_network envelope.context)))]
  refine attempt_bind_agree (hearly _ (by decide)) (fun e => checkDeadline_error) fun _ _ => ?_
  refine outside_bind_agree (hearly _ (by decide)) (fun e he => by cases he) fun _ w2 _ => ?_
  refine outside_bind_agree (hearly _ (by decide)) (fun e he _ => lift_id_eq_error.mp he)
    fun unsealed w3 hunsealed => ?_
  refine attempt_bind_agree (hearly _ (by decide)) (fun e => checkDeadline_error) fun _ _ => ?_
  refine outside_bind_agree (hearly _ (by decide))
    (fun e he hdefensive => absurd hdefensive (TpmEvidence.authenticate_error he))
    fun tpm w4 htpm => ?_
  obtain ⟨hcontext, hlive⟩ := TpmEvidence.authenticate_live (Prod.mk.inj htpm).1
  exact finishGuarded_agree hclock hcontext hlive w4

end Run

/-- Whatever the network, the TPM and a clock that never goes back do, the two machines of an
operation never disagree, and no call of theirs is refused before the deadline. The defensive errors
come from the TPM adapter alone. -/
theorem UnlockOperation.run_gates_agree {cbor : Cbor} {P : Primitives} {ρ : Type}
    (env : Environment ρ) (raw : Bytes) (signer : Vector UInt8 32) (volume : Vector UInt8 16)
    (slot : UInt8) (deadline : Nat) (op : UnlockOperation) (w w' : World)
    (hbegin : UnlockOperation.begin cbor P env raw signer volume slot deadline w = (.ok op, w'))
    (hclock : Monotone env.clock) (world : World) :
    forget (op.runGuarded P env (world, op.gates)) = op.run P env world ∧
      GatesAgree env op (op.runGuarded P env (world, op.gates)) := by
  obtain ⟨envelope, rfl, hids⟩ := UnlockOperation.begin_begun hbegin
  exact ⟨forget_runGuarded env _ world, runGuarded_agree hclock hids world⟩

/-- The machines of an enrolled pair agree. -/
theorem UnlockOperation.run_gates_agree_pair : ∃ raw op w',
    UnlockOperation.begin rfc8949 transparent (pairEnvironment {4}) raw (Vector.replicate 32 5)
      (Vector.replicate 16 2) 1 (1 + operationBudget) ⟨⟨[]⟩, []⟩ = (.ok op, w') ∧
    GatesAgree (pairEnvironment {4}) op
      (op.runGuarded transparent (pairEnvironment {4}) (w', op.gates)) := by
  obtain ⟨prepared, _, hprepare⟩ := pairEnrollment_succeeds
  obtain ⟨context, body, h⟩ := prepareObserved_eq_ok transparent_decryptsOwn hprepare
  obtain ⟨diagnostics, w', hunlock⟩ := h.unlock_ok rfc8949_spec transparent_signsOwn
    transparent_evaluatesTo pairEnvironment_attempt (by decide) ⟨⟨[]⟩, []⟩
  unfold unlockObserved at hunlock
  rw [Effect.bind_ok (Effect.update_apply _ _)] at hunlock
  obtain ⟨op, w1, hbegin, -⟩ := Effect.bind_eq_ok.mp hunlock
  exact ⟨_, op, w1, hbegin, (UnlockOperation.run_gates_agree _ _ _ _ _ _ op _ w1 hbegin
    (fun _ _ _ => le_rfl) w1).2⟩

end Leelo.Engine
