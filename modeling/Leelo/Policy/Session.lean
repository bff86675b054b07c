import Leelo.Core.Machine
import Leelo.Policy.Responses

/-!
# Policy sessions over whole runs

A session records authenticated observations and permits one release. Every
method takes the session by mutable reference, so it returns its result together
with the session it leaves behind, also when it fails. The log of a run
determines the session: each flag says that some call of the log succeeded.
-/

namespace Leelo.Policy

open Leelo.Core

/-- A decision session. -/
structure PolicySession where
  requireLive : Bool
  plan : NetworkPlan
  responses : List Bool
  state : ReleaseState

/-- The public mutating methods of a session. -/
inductive SessionCall where
  | authenticateEnvelope
  | acceptNetwork (nodeId : UInt8)
  | confirmTpm
  | confirmLiveAuthorization
  | authenticateRoot
  | release
  deriving DecidableEq

/-- What a method returns. -/
abbrev SessionResult := Except PolicyError Unit

namespace PolicySession

/-- A session before anything is authenticated. -/
def new (policy : ProductionPolicy) : PolicySession where
  requireLive := policy.mode == .attested
  plan := policy.plan
  responses := List.replicate policy.plan.leaves.length false
  state := ⟨false, false, false, false, false, false⟩

/-- The envelope is authenticated. -/
def authenticateEnvelope (session : PolicySession) : SessionResult × PolicySession :=
  if session.state.released then (.error .alreadyReleased, session)
  else (.ok (), { session with state := { session.state with envelopeAuthenticated := true } })

/-- Refuses calls before the envelope and after the release. -/
def requireAuthenticated (session : PolicySession) : SessionResult :=
  if session.state.released then .error .alreadyReleased
  else if !session.state.envelopeAuthenticated then .error .envelopeNotAuthenticated
  else .ok ()

/-- Record one authenticated network leaf and evaluate the plan again. -/
def acceptNetwork (session : PolicySession) (nodeId : UInt8) : SessionResult × PolicySession :=
  match session.requireAuthenticated with
  | .error e => (.error e, session)
  | .ok () =>
    match session.plan.leafPosition nodeId with
    | none => (.error (.unknownNetworkLeaf nodeId), session)
    | some index =>
      -- The vector is borrowed mutably, so it is written back on either outcome.
      let (accepted, responses) := recordResponse session.responses index
      let session := { session with responses }
      if !accepted then (.error (.duplicateResponse nodeId), session)
      else
        let networkSatisfied := evaluateNetwork session.plan.gates session.responses
        (.ok (), { session with state := { session.state with networkSatisfied } })

/-- The module's share is confirmed. -/
def confirmTpm (session : PolicySession) : SessionResult × PolicySession :=
  match session.requireAuthenticated with
  | .error e => (.error e, session)
  | .ok () => (.ok (), { session with state := { session.state with tpmAuthenticated := true } })

/-- A live authorisation is confirmed. -/
def confirmLiveAuthorization (session : PolicySession) : SessionResult × PolicySession :=
  match session.requireAuthenticated with
  | .error e => (.error e, session)
  | .ok () => (.ok (), { session with state := { session.state with liveAuthorized := true } })

/-- Every factor is there. -/
def canReconstruct (session : PolicySession) : Bool :=
  session.state.envelopeAuthenticated && session.state.tpmAuthenticated &&
    session.state.networkSatisfied && (!session.requireLive || session.state.liveAuthorized) &&
    !session.state.released

/-- The root is authenticated, once every factor is there. -/
def authenticateRoot (session : PolicySession) : SessionResult × PolicySession :=
  match session.requireAuthenticated with
  | .error e => (.error e, session)
  | .ok () =>
    if !session.canReconstruct then (.error .factorsNotSatisfied, session)
    else (.ok (), { session with state := { session.state with rootAuthenticated := true } })

/-- The session may release. -/
def canRelease (session : PolicySession) : Bool :=
  Policy.canRelease session.state session.requireLive

/-- Release once. -/
def release (session : PolicySession) : SessionResult × PolicySession :=
  match session.requireAuthenticated with
  | .error e => (.error e, session)
  | .ok () =>
    if !session.canReconstruct then (.error .factorsNotSatisfied, session)
    else if !session.state.rootAuthenticated then (.error .rootNotAuthenticated, session)
    else
      let (allowed, state) := tryRelease session.state session.requireLive
      let session := { session with state }
      if allowed then (.ok (), session) else (.error .alreadyReleased, session)

/-- Dispatch one method call. -/
def call : SessionCall → PolicySession → SessionResult × PolicySession
  | .authenticateEnvelope, session => session.authenticateEnvelope
  | .acceptNetwork nodeId, session => session.acceptNetwork nodeId
  | .confirmTpm, session => session.confirmTpm
  | .confirmLiveAuthorization, session => session.confirmLiveAuthorization
  | .authenticateRoot, session => session.authenticateRoot
  | .release, session => session.release

/-- The observations a release needs besides the root payload. -/
structure Factors (session : PolicySession) : Prop where
  envelope : session.state.envelopeAuthenticated = true
  tpm : session.state.tpmAuthenticated = true
  network : session.state.networkSatisfied = true
  live : session.requireLive = true → session.state.liveAuthorized = true

/-- When a method succeeds. -/
def Allowed (session : PolicySession) : SessionCall → Prop
  | .authenticateEnvelope => True
  | .acceptNetwork nodeId =>
    session.state.envelopeAuthenticated = true ∧
      ∃ responses, session.plan.respond session.responses nodeId = .ok responses
  | .confirmTpm | .confirmLiveAuthorization => session.state.envelopeAuthenticated = true
  | .authenticateRoot => session.Factors
  | .release => session.Factors ∧ session.state.rootAuthenticated = true

/-- The session after its response vector changed and the plan was evaluated again. -/
def observe (session : PolicySession) (responses : List Bool) : PolicySession :=
  { session with
    responses
    state := { session.state with
      networkSatisfied := evaluateNetwork session.plan.gates responses } }

/-- What a successful method leaves behind. -/
def effect (session : PolicySession) : SessionCall → PolicySession
  | .authenticateEnvelope =>
    { session with state := { session.state with envelopeAuthenticated := true } }
  | .acceptNetwork nodeId =>
    match session.plan.respond session.responses nodeId with
    | .error _ => session
    | .ok responses => session.observe responses
  | .confirmTpm => { session with state := { session.state with tpmAuthenticated := true } }
  | .confirmLiveAuthorization =>
    { session with state := { session.state with liveAuthorized := true } }
  | .authenticateRoot => { session with state := { session.state with rootAuthenticated := true } }
  | .release => { session with state := { session.state with released := true } }

variable {session : PolicySession}

theorem effect_acceptNetwork {nodeId : UInt8} {responses : List Bool}
    (h : session.plan.respond session.responses nodeId = .ok responses) :
    session.effect (.acceptNetwork nodeId) = session.observe responses := by
  simp only [effect, h]

theorem canReconstruct_iff :
    session.canReconstruct = true ↔ session.Factors ∧ session.state.released = false := by
  simp only [canReconstruct, Bool.and_eq_true, Bool.or_eq_true, Bool.not_eq_true']
  constructor
  · rintro ⟨⟨⟨⟨henvelope, htpm⟩, hnetwork⟩, hlive⟩, hreleased⟩
    refine ⟨⟨henvelope, htpm, hnetwork, fun hrequire => ?_⟩, hreleased⟩
    exact hlive.resolve_left (by simp [hrequire])
  · rintro ⟨⟨henvelope, htpm, hnetwork, hlive⟩, hreleased⟩
    refine ⟨⟨⟨⟨henvelope, htpm⟩, hnetwork⟩, ?_⟩, hreleased⟩
    cases hrequire : session.requireLive with
    | false => exact .inl rfl
    | true => exact .inr (hlive hrequire)

/-- Release re-checks the factors and the root. -/
theorem canRelease_eq (session : PolicySession) :
    session.canRelease = (session.canReconstruct && session.state.rootAuthenticated) := by
  simp only [canRelease, Policy.canRelease, canReconstruct, Bool.and_assoc]
  rw [Bool.and_comm session.state.rootAuthenticated]

/-- The leaf lookup and the mark of `acceptNetwork` are one round of the response loop. -/
theorem acceptNetwork_eq (nodeId : UInt8) (hauthenticated : session.requireAuthenticated = .ok ()) :
    session.acceptNetwork nodeId =
      match session.plan.respond session.responses nodeId with
      | .error e => (.error e, session)
      | .ok responses => (.ok (), session.observe responses) := by
  unfold acceptNetwork NetworkPlan.respond
  rw [hauthenticated]
  cases session.plan.leafPosition nodeId with
  | none => rfl
  | some index =>
    dsimp only
    rw [recordResponse_eq]
    by_cases hfresh : session.responses[index]? = some false
    · rw [if_pos hfresh]
      rfl
    · rw [if_neg hfresh]
      rfl

/-- A call either succeeds with its effect, or is refused and changes nothing.
After a release every refusal is the same. -/
theorem call_cases (session : PolicySession) (c : SessionCall) :
    (session.state.released = false ∧ session.Allowed c ∧
      call c session = (.ok (), session.effect c)) ∨
    (∃ e, ¬ (session.state.released = false ∧ session.Allowed c) ∧
      (session.state.released = true → e = .alreadyReleased) ∧
      call c session = (.error e, session)) := by
  cases hreleased : session.state.released with
  | true =>
    refine .inr ⟨.alreadyReleased, by simp, fun _ => rfl, ?_⟩
    cases c <;> simp [call, authenticateEnvelope, acceptNetwork, confirmTpm,
      confirmLiveAuthorization, authenticateRoot, release, requireAuthenticated, hreleased]
  | false =>
    cases henvelope : session.state.envelopeAuthenticated with
    | false =>
      have hfactors : ¬ session.Factors := fun h => absurd h.envelope (by simp [henvelope])
      have hauthenticated : session.requireAuthenticated = .error .envelopeNotAuthenticated := by
        simp [requireAuthenticated, hreleased, henvelope]
      cases c with
      | authenticateEnvelope =>
        exact .inl ⟨rfl, trivial, by simp [call, authenticateEnvelope, hreleased, effect]⟩
      | _ =>
        refine .inr ⟨.envelopeNotAuthenticated, by simp [Allowed, henvelope, hfactors],
          (fun h => by cases h), ?_⟩
        simp [call, acceptNetwork, confirmTpm, confirmLiveAuthorization, authenticateRoot,
          release, hauthenticated]
    | true =>
      have hauthenticated : session.requireAuthenticated = .ok () := by
        simp [requireAuthenticated, hreleased, henvelope]
      have hreconstruct : session.canReconstruct = true ↔ session.Factors := by
        rw [canReconstruct_iff, hreleased]
        simp
      cases c with
      | authenticateEnvelope =>
        exact .inl ⟨rfl, trivial, by simp [call, authenticateEnvelope, hreleased, effect]⟩
      | acceptNetwork nodeId =>
        simp only [call, acceptNetwork_eq nodeId hauthenticated, Allowed, effect, henvelope,
          true_and]
        cases session.plan.respond session.responses nodeId with
        | error e => exact .inr ⟨e, by simp, (fun h => by cases h), rfl⟩
        | ok responses => exact .inl ⟨⟨responses, rfl⟩, rfl⟩
      | confirmTpm =>
        exact .inl ⟨rfl, henvelope, by simp [call, confirmTpm, hauthenticated, effect]⟩
      | confirmLiveAuthorization =>
        exact .inl ⟨rfl, henvelope, by
          simp [call, confirmLiveAuthorization, hauthenticated, effect]⟩
      | authenticateRoot =>
        simp only [call, authenticateRoot, hauthenticated, Allowed, effect, ← hreconstruct]
        cases session.canReconstruct with
        | false => exact .inr ⟨_, by simp, (fun h => by cases h), rfl⟩
        | true => exact .inl ⟨trivial, rfl, rfl⟩
      | release =>
        simp only [call, release, hauthenticated, Allowed, effect]
        cases hfactors : session.canReconstruct with
        | false => exact .inr ⟨_, by simp [← hreconstruct, hfactors], (fun h => by cases h), rfl⟩
        | true =>
          cases hroot : session.state.rootAuthenticated with
          | false => exact .inr ⟨_, by simp, (fun h => by cases h), rfl⟩
          | true =>
            have hrelease := session.canRelease_eq
            rw [hfactors, hroot, canRelease] at hrelease
            refine .inl ⟨trivial, ⟨hreconstruct.mp hfactors, rfl⟩, ?_⟩
            simp [tryRelease, hrelease, hroot]

end PolicySession

/-- A log of calls with their results. -/
abbrev SessionLog := List (SessionCall × SessionResult)

namespace SessionLog

/-- The identifiers of the successful network calls, in order. -/
def accepted (log : SessionLog) : List UInt8 :=
  log.filterMap fun
    | (.acceptNetwork nodeId, .ok ()) => some nodeId
    | _ => none

/-- Some call of this kind succeeded. -/
def Succeeded (log : SessionLog) (c : SessionCall) : Prop := (c, .ok ()) ∈ log

instance (log : SessionLog) (c : SessionCall) : Decidable (log.Succeeded c) :=
  inferInstanceAs (Decidable ((c, .ok ()) ∈ log))

/-- A root was authenticated and no release was called since. -/
def AwaitsRelease (log : SessionLog) : Prop :=
  ∃ before after, log = before ++ (.authenticateRoot, .ok ()) :: after ∧
    ∀ entry ∈ after, entry.1 ≠ .release

theorem accepted_concat_error (log : SessionLog) (c : SessionCall) (e : PolicyError) :
    accepted (log ++ [(c, .error e)]) = accepted log := by
  cases c <;> simp [accepted]

theorem accepted_concat_ok (log : SessionLog) (c : SessionCall) :
    accepted (log ++ [(c, .ok ())]) =
      accepted log ++ match c with
        | .acceptNetwork nodeId => [nodeId]
        | _ => [] := by
  cases c <;> simp [accepted]

variable {log : SessionLog}

theorem succeeded_concat_error {c c' : SessionCall} {e : PolicyError} :
    Succeeded (log ++ [(c, .error e)]) c' ↔ Succeeded log c' := by
  simp [Succeeded]

theorem succeeded_concat_ok {c c' : SessionCall} :
    Succeeded (log ++ [(c, .ok ())]) c' ↔ Succeeded log c' ∨ c' = c := by
  simp [Succeeded]

/-- The release is awaited from the root on. -/
theorem awaitsRelease_concat {entry : SessionCall × SessionResult} :
    AwaitsRelease (log ++ [entry]) ↔
      entry = (.authenticateRoot, .ok ()) ∨ (entry.1 ≠ .release ∧ AwaitsRelease log) := by
  constructor
  · rintro ⟨before, after, hlog, hafter⟩
    rcases List.eq_nil_or_concat after with rfl | ⟨init, last, rfl⟩
    · exact .inl (List.append_inj_right' hlog rfl |> List.singleton_inj.mp)
    · rw [List.concat_eq_append] at hlog hafter
      rw [← List.cons_append, ← List.append_assoc] at hlog
      obtain ⟨hinit, hlast⟩ := List.append_inj' hlog rfl
      obtain rfl := List.singleton_inj.mp hlast
      refine .inr ⟨hafter _ (by simp), before, init, hinit, fun x hx => hafter x (by simp [hx])⟩
  · rintro (rfl | ⟨hentry, before, after, rfl, hafter⟩)
    · exact ⟨log, [], rfl, by simp⟩
    · refine ⟨before, after ++ [entry], by simp, ?_⟩
      simp only [List.mem_append, List.mem_singleton]
      rintro x (hx | rfl)
      · exact hafter x hx
      · exact hentry

end SessionLog

/-- The session's network part as a function of the accepted identifiers. -/
structure Observed (policy : ProductionPolicy) (accepted : List UInt8) (session : PolicySession) :
    Prop where
  plan : session.plan = policy.plan
  requireLive : session.requireLive = true ↔ policy.mode = .attested
  known : ∀ id ∈ accepted, id ∈ policy.networkLeafIds
  distinct : accepted.Nodup
  responses : session.responses = policy.plan.marks accepted
  network : session.state.networkSatisfied =
    policy.network.satisfied fun id => decide (id ∈ accepted)

/-- The log determines the session. -/
structure Tracks (policy : ProductionPolicy) (log : SessionLog) (session : PolicySession) :
    Prop where
  observed : Observed policy log.accepted session
  envelope : session.state.envelopeAuthenticated = true ↔ log.Succeeded .authenticateEnvelope
  tpm : session.state.tpmAuthenticated = true ↔ log.Succeeded .confirmTpm
  live : session.state.liveAuthorized = true ↔ log.Succeeded .confirmLiveAuthorization
  factors : session.state.rootAuthenticated = true → session.Factors
  released : log.count (.release, .ok ()) = if session.state.released then 1 else 0
  awaits : log.AwaitsRelease ↔
    session.state.rootAuthenticated = true ∧ session.state.released = false

/-- A new session tracks an empty log. -/
theorem tracks_new (policy : ProductionPolicy) : Tracks policy [] (.new policy) where
  observed :=
    { plan := rfl
      requireLive := by simp [PolicySession.new]
      known := by simp [SessionLog.accepted]
      distinct := by simp [SessionLog.accepted]
      responses := by simp [SessionLog.accepted, PolicySession.new, NetworkPlan.marks_nil]
      network := by
        simpa [SessionLog.accepted, PolicySession.new] using
          (NetworkNode.satisfied_none policy.wellFormed.thresholds).symm }
  envelope := by simp [PolicySession.new, SessionLog.Succeeded]
  tpm := by simp [PolicySession.new, SessionLog.Succeeded]
  live := by simp [PolicySession.new, SessionLog.Succeeded]
  factors := by simp [PolicySession.new]
  released := by simp [PolicySession.new]
  awaits := by simp [PolicySession.new, SessionLog.AwaitsRelease]

section Step

variable {policy : ProductionPolicy} {log : SessionLog} {session : PolicySession}

/-- A refused call extends the log and nothing else. -/
theorem Tracks.refused (h : Tracks policy log session) {c : SessionCall} {e : PolicyError}
    (hc : ¬ (session.state.released = false ∧ session.Allowed c)) :
    Tracks policy (log ++ [(c, .error e)]) session where
  observed := by rw [SessionLog.accepted_concat_error]; exact h.observed
  envelope := by rw [SessionLog.succeeded_concat_error]; exact h.envelope
  tpm := by rw [SessionLog.succeeded_concat_error]; exact h.tpm
  live := by rw [SessionLog.succeeded_concat_error]; exact h.live
  factors := h.factors
  released := by
    rw [List.count_append, h.released]
    simp
  awaits := by
    rw [SessionLog.awaitsRelease_concat, h.awaits]
    constructor
    · rintro (he | ⟨-, hawaits⟩)
      · simp at he
      · exact hawaits
    · rintro ⟨hroot, hreleased⟩
      refine .inr ⟨?_, hroot, hreleased⟩
      -- An authenticated root keeps its factors, so a release would not be refused.
      rintro rfl
      exact hc ⟨hreleased, h.factors hroot, hroot⟩

/-- An accepted leaf is known and new, and its mark joins the accepted set. -/
theorem Observed.accept (h : Observed policy log.accepted session) {nodeId : UInt8}
    {responses : List Bool}
    (hrespond : session.plan.respond session.responses nodeId = .ok responses) :
    Observed policy (log.accepted ++ [nodeId]) (session.effect (.acceptNetwork nodeId)) := by
  have hmarked := hrespond
  rw [h.plan, h.responses, NetworkPlan.respond_marks policy.leafIds_nodup] at hmarked
  split_ifs at hmarked with hknown hmem
  obtain rfl := Except.ok.inj hmarked
  rw [PolicySession.effect_acceptNetwork hrespond]
  exact
    { plan := h.plan
      requireLive := h.requireLive
      known := by
        simp only [List.mem_append, List.mem_singleton]
        rintro id (hid | rfl)
        · exact h.known id hid
        · exact hknown
      distinct := List.nodup_append.mpr ⟨h.distinct, List.nodup_singleton _, by
        rintro id hid _ hnode rfl
        exact hmem (List.mem_singleton.mp hnode ▸ hid)⟩
      responses := rfl
      network := by rw [PolicySession.observe, h.plan, policy.evaluateNetwork_marks] }

/-- A leaf once satisfied stays so when another leaf is accepted. -/
theorem Observed.accept_mono (h : Observed policy log.accepted session) {nodeId : UInt8}
    (haccept : Observed policy (log.accepted ++ [nodeId])
      (session.effect (.acceptNetwork nodeId)))
    (hnetwork : session.state.networkSatisfied = true) :
    (session.effect (.acceptNetwork nodeId)).state.networkSatisfied = true := by
  rw [haccept.network]
  rw [h.network] at hnetwork
  refine NetworkNode.satisfied_mono (fun id hid => ?_) hnetwork
  simp only [decide_eq_true_eq] at hid ⊢
  exact List.mem_append_left _ hid

/-- A successful call extends the log and has its effect. -/
theorem Tracks.allowed (h : Tracks policy log session) {c : SessionCall}
    (hreleased : session.state.released = false) (hc : session.Allowed c) :
    Tracks policy (log ++ [(c, .ok ())]) (session.effect c) := by
  have hawaits : log.AwaitsRelease ↔ session.state.rootAuthenticated = true := by
    simp [h.awaits, hreleased]
  have hcount : log.count (.release, .ok ()) = 0 := by simp [h.released, hreleased]
  have haccepted := SessionLog.accepted_concat_ok log c
  cases c with
  | acceptNetwork nodeId =>
    obtain ⟨henvelope, responses, hrespond⟩ := hc
    have haccept := h.observed.accept hrespond
    have hmono := h.observed.accept_mono haccept
    rw [PolicySession.effect_acceptNetwork hrespond] at haccept hmono ⊢
    refine ⟨haccepted ▸ haccept, ?_, ?_, ?_, ?_, ?_, ?_⟩
    · simp [PolicySession.observe, SessionLog.succeeded_concat_ok, h.envelope]
    · simp [PolicySession.observe, SessionLog.succeeded_concat_ok, h.tpm]
    · simp [PolicySession.observe, SessionLog.succeeded_concat_ok, h.live]
    · intro hroot
      obtain ⟨henvelope, htpm, hnetwork, hlive⟩ := h.factors hroot
      exact ⟨henvelope, htpm, hmono hnetwork, hlive⟩
    · simp [PolicySession.observe, List.count_append, hcount, hreleased]
    · simp [PolicySession.observe, SessionLog.awaitsRelease_concat, hawaits, hreleased]
  | authenticateEnvelope =>
    rw [List.append_nil] at haccepted
    refine ⟨haccepted ▸ { h.observed with }, ?_, ?_, ?_, ?_, ?_, ?_⟩
    · simp [PolicySession.effect, SessionLog.succeeded_concat_ok]
    · simp [PolicySession.effect, SessionLog.succeeded_concat_ok, h.tpm]
    · simp [PolicySession.effect, SessionLog.succeeded_concat_ok, h.live]
    · exact fun hroot => { h.factors hroot with envelope := rfl }
    · simp [PolicySession.effect, List.count_append, hcount, hreleased]
    · simp [PolicySession.effect, SessionLog.awaitsRelease_concat, hawaits, hreleased]
  | confirmTpm =>
    rw [List.append_nil] at haccepted
    refine ⟨haccepted ▸ { h.observed with }, ?_, ?_, ?_, ?_, ?_, ?_⟩
    · simp [PolicySession.effect, SessionLog.succeeded_concat_ok, h.envelope]
    · simp [PolicySession.effect, SessionLog.succeeded_concat_ok]
    · simp [PolicySession.effect, SessionLog.succeeded_concat_ok, h.live]
    · exact fun hroot => { h.factors hroot with tpm := rfl }
    · simp [PolicySession.effect, List.count_append, hcount, hreleased]
    · simp [PolicySession.effect, SessionLog.awaitsRelease_concat, hawaits, hreleased]
  | confirmLiveAuthorization =>
    rw [List.append_nil] at haccepted
    refine ⟨haccepted ▸ { h.observed with }, ?_, ?_, ?_, ?_, ?_, ?_⟩
    · simp [PolicySession.effect, SessionLog.succeeded_concat_ok, h.envelope]
    · simp [PolicySession.effect, SessionLog.succeeded_concat_ok, h.tpm]
    · simp [PolicySession.effect, SessionLog.succeeded_concat_ok]
    · exact fun hroot => { h.factors hroot with live := fun _ => rfl }
    · simp [PolicySession.effect, List.count_append, hcount, hreleased]
    · simp [PolicySession.effect, SessionLog.awaitsRelease_concat, hawaits, hreleased]
  | authenticateRoot =>
    rw [List.append_nil] at haccepted
    refine ⟨haccepted ▸ { h.observed with }, ?_, ?_, ?_, ?_, ?_, ?_⟩
    · simp [PolicySession.effect, SessionLog.succeeded_concat_ok, h.envelope]
    · simp [PolicySession.effect, SessionLog.succeeded_concat_ok, h.tpm]
    · simp [PolicySession.effect, SessionLog.succeeded_concat_ok, h.live]
    · exact fun _ => { hc with }
    · simp [PolicySession.effect, List.count_append, hcount, hreleased]
    · simp [PolicySession.effect, SessionLog.awaitsRelease_concat, hreleased]
  | release =>
    rw [List.append_nil] at haccepted
    refine ⟨haccepted ▸ { h.observed with }, ?_, ?_, ?_, ?_, ?_, ?_⟩
    · simp [PolicySession.effect, SessionLog.succeeded_concat_ok, h.envelope]
    · simp [PolicySession.effect, SessionLog.succeeded_concat_ok, h.tpm]
    · simp [PolicySession.effect, SessionLog.succeeded_concat_ok, h.live]
    · exact fun _ => { hc.1 with }
    · simp [PolicySession.effect, List.count_append, hcount]
    · simp [PolicySession.effect, SessionLog.awaitsRelease_concat]

/-- One call keeps the log and the session together. -/
theorem Tracks.call (h : Tracks policy log session) (c : SessionCall) :
    Tracks policy (log ++ [(c, (PolicySession.call c session).1)])
      (PolicySession.call c session).2 := by
  rcases session.call_cases c with ⟨hreleased, hc, heq⟩ | ⟨e, hc, -, heq⟩
  · rw [heq]
    exact h.allowed hreleased hc
  · rw [heq]
    exact h.refused hc

end Step

/-- The log determines the session after every run on a fresh session. -/
theorem tracks_run (policy : ProductionPolicy) (calls : List SessionCall) :
    Tracks policy (runCalls PolicySession.call (.new policy) calls).1
      (runCalls PolicySession.call (.new policy) calls).2 :=
  runCalls_induction (tracks_new policy) (fun _ _ c h => h.call c) calls

theorem Tracks.succeeded_release {policy : ProductionPolicy} {log : SessionLog}
    {session : PolicySession} (h : Tracks policy log session) :
    log.Succeeded .release ↔ session.state.released = true := by
  rw [SessionLog.Succeeded, ← List.count_pos_iff, h.released]
  split_ifs with hreleased
  · simp [hreleased]
  · simpa using hreleased

/-- After every run, over any calls in any order: the network flag is the
threshold semantics of the accepted leaves, refused calls change nothing, the
root is authenticated exactly with all factors, and a release succeeds exactly
as the first one after an authenticated root. -/
theorem PolicySession.run_exact (policy : ProductionPolicy) (calls : List SessionCall) :
    let log : SessionLog := (runCalls PolicySession.call (.new policy) calls).1
    let session := (runCalls PolicySession.call (.new policy) calls).2
    (session.state.networkSatisfied =
        policy.network.satisfied (fun id => decide (id ∈ log.accepted)) ∧
      ∀ ids : List UInt8, ids.Perm log.accepted →
        policy.networkSatisfied ids = .ok session.state.networkSatisfied) ∧
    (∀ c e, (PolicySession.call c session).1 = .error e →
      (PolicySession.call c session).2 = session) ∧
    ((PolicySession.call .authenticateRoot session).1 = .ok () ↔
      ¬ log.Succeeded .release ∧ log.Succeeded .authenticateEnvelope ∧
      log.Succeeded .confirmTpm ∧
      policy.network.satisfied (fun id => decide (id ∈ log.accepted)) = true ∧
      (policy.mode = .attested → log.Succeeded .confirmLiveAuthorization)) ∧
    ((PolicySession.call .release session).1 = .ok () ↔ log.AwaitsRelease) ∧
    log.count (.release, .ok ()) ≤ 1 ∧
    (log.Succeeded .release →
      ∀ c, (PolicySession.call c session).1 = .error .alreadyReleased) := by
  intro log session
  have h : Tracks policy log session := tracks_run policy calls
  have hok : ∀ c, (PolicySession.call c session).1 = .ok () ↔
      session.state.released = false ∧ session.Allowed c := by
    intro c
    rcases session.call_cases c with ⟨hreleased, hc, heq⟩ | ⟨e, hc, -, heq⟩
    · simp [heq, hreleased, hc]
    · simp [heq, hc]
  have hreleased : session.state.released = false ↔ ¬ log.Succeeded .release := by
    rw [h.succeeded_release, Bool.not_eq_true]
  refine ⟨⟨h.observed.network, ?_⟩, ?_, ?_, ?_, ?_, ?_⟩
  · intro ids hperm
    refine policy.networkSatisfied_eq_ok.mpr
      ⟨fun id hid => h.observed.known id (hperm.subset hid),
        hperm.nodup_iff.mpr h.observed.distinct, ?_⟩
    simp only [h.observed.network, hperm.mem_iff]
  · intro c e he
    rcases session.call_cases c with ⟨-, -, heq⟩ | ⟨_, -, -, heq⟩
    · simp [heq] at he
    · rw [heq]
  · rw [hok, hreleased, and_congr_right_iff]
    intro _
    rw [← h.envelope, ← h.tpm, ← h.live, ← h.observed.requireLive, ← h.observed.network]
    exact ⟨fun hfactors => ⟨hfactors.envelope, hfactors.tpm, hfactors.network, hfactors.live⟩,
      fun ⟨henvelope, htpm, hnetwork, hlive⟩ => ⟨henvelope, htpm, hnetwork, hlive⟩⟩
  · rw [hok, h.awaits, and_comm (a := session.state.rootAuthenticated = true),
      and_congr_right_iff]
    exact fun _ => ⟨And.right, fun hroot => ⟨h.factors hroot, hroot⟩⟩
  · rw [h.released]
    split_ifs <;> omega
  · intro hsucceeded c
    rw [h.succeeded_release] at hsucceeded
    rcases session.call_cases c with ⟨hnot, -, -⟩ | ⟨_, -, he, heq⟩
    · simp [hsucceeded] at hnot
    · rw [heq, he hsucceeded]

/-- After one leaf, the TPM and a live authorization, a released session refuses
every further call and has decided on that leaf. -/
theorem PolicySession.run_exact_pair :
    let policy := ProductionPolicy.ofWellFormed .attested 1 pairNetwork (by decide)
    let session := (runCalls PolicySession.call (.new policy)
      [.authenticateEnvelope, .acceptNetwork 4, .confirmTpm, .confirmLiveAuthorization,
        .authenticateRoot, .release]).2
    policy.networkSatisfied [4] = .ok session.state.networkSatisfied ∧
      ∀ c, (PolicySession.call c session).1 = .error .alreadyReleased := by
  have hexact := PolicySession.run_exact
    (ProductionPolicy.ofWellFormed .attested 1 pairNetwork (by decide))
    [.authenticateEnvelope, .acceptNetwork 4, .confirmTpm, .confirmLiveAuthorization,
      .authenticateRoot, .release]
  exact ⟨hexact.1.2 [4] (List.Perm.refl _), hexact.2.2.2.2.2 (by decide)⟩

end Leelo.Policy
