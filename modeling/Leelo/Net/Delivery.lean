import Leelo.Core.Advance
import Leelo.Net.Faithful

/-!
# Evaluations are delivered

The parties take turns: the client posts, the frontend hands the request on and waits, the
worker decides, the frontend replies and the client reads. Nothing is disturbed in such a run,
so every decision that the worker can make reaches the client. Together with the invariant
of all runs this says what a client can end with.
-/

namespace Leelo.Net

open Leelo.Core Leelo.Crypto Leelo.Envelope Program
open Leelo.Daemon (ServiceOp RelayOp Reply)

variable {keyId : Vector UInt8 32} {blinded : PointBytes} {id : Vector UInt8 32} {party : Party}
  {s s' : Wires}

/-- A party goes on by itself. -/
abbrev Turn {α : Type} (party : Party) (p : Process α) (s : Wires) (p' : Process α) (s' : Wires) :
    Prop :=
  Advances (responds party) p s p' s'

theorem turn_act {op : PartyOp} {answer : op.Ans} (h : responds party op s answer s') :
    Turn party (act op) s (pure answer) s' := .perform h

theorem nonempty_aside {op : ServiceOp} (hop : Aside op) : Nonempty op.Ans := by
  cases op
  case elapsed => exact ⟨(0 : UInt64)⟩
  case now => exact ⟨(0 : Nat)⟩
  all_goals first | exact ⟨()⟩ | exact hop.elim

theorem exists_aside {op : PartyOp} (hparty : party ≠ .client) (hop : ProcessAside op) :
    ∃ answer, responds party op s answer s := by
  rcases op with _ | (op | _ | _ | _ | _) | _ | _
  case relay.service =>
    obtain ⟨answer⟩ := nonempty_aside hop
    refine ⟨answer, ?_⟩
    cases party with
    | client => exact absurd rfl hparty
    | frontend => cases op <;> first | rfl | exact hop.elim
    | worker => cases op <;> first | rfl | exact hop.elim
  all_goals exact hop.elim

theorem turn_aside {α : Type} {process : Process α} (hparty : party ≠ .client)
    (h : process.All ProcessAside) (s : Wires) : ∃ a, Turn party process s (pure a) s :=
  advances_of_all h (exists_aside hparty)

section Worker

open Daemon (Outcome)

theorem turn_worker_aside {α : Type} {task : Daemon.Task α} (h : task.All Aside) (s : Wires) :
    ∃ a, Turn .worker (workerTask task) s (pure a) s :=
  turn_aside (by decide) (workerTask_aside h) s

theorem turn_send {bytes : Bytes} {rest : Daemon.Task (Option Outcome)} {outcome : Option Outcome}
    (hrest : Turn .worker (workerTask rest)
      { s with fromWorker := Wires.write s.fromWorker bytes } (pure outcome) s') :
    Turn .worker (workerTask (Daemon.send bytes rest)) s (pure outcome) s' := by
  unfold Daemon.send
  rw [workerTask_bind, workerTask_perform]
  have hwrite : Turn .worker (act (.relay (.service (.write bytes)))) s (pure (some true))
      { s with fromWorker := Wires.write s.fromWorker bytes } := by
    refine turn_act ⟨_, ⟨bytes, List.prefix_rfl, fun _ => rfl, rfl⟩, ?_⟩
    rw [decide_eq_true rfl, Bool.not_true, Bool.or_false]
  exact hwrite.bind hrest

theorem turn_close {outcome : Outcome} : Turn .worker (workerTask (Daemon.close outcome)) s
    (pure (some outcome)) { s with fromWorker := Wires.close s.fromWorker } := by
  unfold Daemon.close
  rw [workerTask_bind, workerTask_perform]
  have hshutdown : Turn .worker (act (.relay (.service .shutdown))) s (pure (some true))
      { s with fromWorker := Wires.close s.fromWorker } := turn_act rfl
  exact hshutdown.bind (.refl _ _)

/-- The worker refuses. -/
theorem turn_refuse (timer : Daemon.Timer) (outcome : Outcome) :
    Turn .worker (workerTask (Daemon.refuse timer outcome)) s (pure (some outcome))
      { s with fromWorker := Wires.write s.fromWorker [1] } := by
  unfold Daemon.refuse
  rw [workerTask_bind]
  obtain ⟨_, haside⟩ := turn_worker_aside (Timer.finish_aside timer outcome) s
  exact haside.bind (turn_send (.refl _ _))

/-- The answer of the only evaluation, and what the worker sends after it. -/
theorem turn_evaluation (id : Vector UInt8 32) (blinded : PointBytes)
    {answer : Except Daemon.CryptoError Bytes} {decision : Decision}
    (hfresh : s.fromWorker = ⟨[], false⟩)
    (h : (∃ evaluation, answer = .ok (rawBytes evaluation) ∧ decision = some evaluation) ∨
      (∃ error, answer = .error error ∧ decision = none)) :
    ∃ outcome, Turn .worker
      (workerTask (Daemon.evaluation (workerWire id).encodeResponse blinded.toList)) s
      (pure outcome) { s with
        evaluated := s.evaluated ++ [(blinded.toList, answer)]
        fromWorker := ⟨workerReply decision, true⟩ } := by
  unfold Daemon.evaluation
  obtain ⟨timer, htimer⟩ := turn_worker_aside (newTimer_aside .crypto) s
  have hevaluate : Turn .worker (act (.relay (.service (.evaluate blinded.toList)))) s
      (pure answer) { s with evaluated := s.evaluated ++ [(blinded.toList, answer)] } := by
    refine turn_act ⟨fun raw hraw => ?_, rfl⟩
    obtain ⟨evaluation, rfl, -⟩ | ⟨error, rfl, -⟩ := h
    · exact ⟨evaluation, (Except.ok.inj hraw).symm⟩
    · cases hraw
  obtain ⟨_, hfinish⟩ := turn_worker_aside
    (Timer.finish_aside timer (Daemon.evaluationOutcome answer))
    { s with evaluated := s.evaluated ++ [(blinded.toList, answer)] }
  obtain ⟨_, hreport⟩ := turn_worker_aside
    (reportEvaluation_aside (Daemon.evaluationOutcome answer))
    { s with evaluated := s.evaluated ++ [(blinded.toList, answer)] }
  obtain ⟨posted, toWorker, fromWorker, evaluated, reply, disturbed⟩ := s
  obtain rfl : fromWorker = ⟨[], false⟩ := hfresh
  refine ⟨some (Daemon.evaluationOutcome answer), ?_⟩
  rw [workerTask_bind]
  refine htimer.bind ?_
  rw [workerTask_bind, workerTask_perform]
  refine hevaluate.bind ?_
  rw [workerTask_bind]
  refine hfinish.bind ?_
  rw [workerTask_bind]
  refine hreport.bind ?_
  obtain ⟨evaluation, rfl, rfl⟩ | ⟨error, rfl, rfl⟩ := h
  · have hwhole : [0] ++ (workerWire id).encodeResponse (rawBytes evaluation) =
        workerReply (some evaluation) := by
      change 0 :: (header ++ (evaluation.element.toList ++ evaluation.proof.toList)) = _
      rw [← List.append_assoc]
      rfl
    rw [← hwhole]
    exact turn_send (turn_send turn_close)
  · exact turn_send turn_close

section Process

variable {evaluated : Evaluations} {decision : Decision} {closed : Bool}

variable (keyId blinded id) in
/-- What is left when the whole request was read. -/
def judge (timer : Daemon.Timer) : Daemon.Task (Option Outcome) :=
  if keyId.toList = (workerWire id).id then
    timer.finish .success >>= fun _ =>
      Daemon.evaluation (workerWire id).encodeResponse blinded.toList
  else Daemon.refuse timer .wrongKey

/-- The worker judges a request as its decision says. -/
theorem turn_judge (timer : Daemon.Timer) (hsettled : Settled keyId blinded id evaluated decision)
    (hfresh : s.fromWorker = ⟨[], false⟩) :
    ∃ outcome evaluated' closed, Turn .worker (workerTask (judge keyId blinded id timer)) s
      (pure outcome)
      { s with evaluated := evaluated', fromWorker := ⟨workerReply decision, closed⟩ } := by
  obtain ⟨_, hfinish⟩ := turn_worker_aside (Timer.finish_aside timer .success) s
  unfold judge
  cases hsettled with
  | evaluated evaluation hkey _ =>
    obtain ⟨outcome, hturn⟩ :=
      turn_evaluation id blinded hfresh (.inl ⟨evaluation, rfl, rfl⟩)
    rw [if_pos (by rw [← hkey]; rfl), workerTask_bind]
    exact ⟨outcome, _, true, hfinish.bind hturn⟩
  | failed error hkey _ =>
    obtain ⟨outcome, hturn⟩ := turn_evaluation id blinded hfresh (.inr ⟨error, rfl, rfl⟩)
    rw [if_pos (by rw [← hkey]; rfl), workerTask_bind]
    exact ⟨outcome, _, true, hfinish.bind hturn⟩
  | otherKey hkey =>
    have hother : ¬keyId.toList = (workerWire id).id :=
      fun h => hkey (Vector.toList_inj.mp h).symm
    have hturn : Turn .worker (workerTask (Daemon.refuse timer .wrongKey)) s _ _ :=
      turn_refuse timer .wrongKey
    rw [hfresh] at hturn
    rw [if_neg hother]
    exact ⟨_, s.evaluated, false, hturn⟩

/-- The worker serves the request it has. -/
theorem turn_workerProcess (hsettled : Settled keyId blinded id evaluated decision)
    (hrequest : s.toWorker = ⟨encodeRequest keyId blinded, true⟩)
    (hfresh : s.fromWorker = ⟨[], false⟩) :
    ∃ evaluated', Turn .worker (workerProcess id) s (pure none)
      { s with evaluated := evaluated', fromWorker := ⟨workerReply decision, true⟩ } := by
  have hread : Turn .worker (act (.relay (.service .read))) s
      (pure (some (some (encodeRequest keyId blinded)))) s := by
    refine turn_act (.inl ⟨by rw [hrequest], ?_, rfl⟩)
    rw [hrequest, List.take_of_length_le]
    rw [length_encodeRequest]
    exact Nat.le_succ requestBytes
  obtain ⟨-, hall⟩ | ⟨hdecode, -⟩ :=
    decodeRequest_cut id (List.prefix_refl (encodeRequest keyId blinded))
  · exact absurd rfl hall
  obtain ⟨timer, htimer⟩ := turn_worker_aside (newTimer_aside .validation) s
  obtain ⟨outcome, evaluated', closed, hjudge⟩ := turn_judge timer hsettled hfresh
  have hhandle : Turn .worker (workerTask (Daemon.handle (workerWire id).decodeRequest
      (workerWire id).encodeResponse (workerWire id).id)) s (pure outcome)
      { s with evaluated := evaluated', fromWorker := ⟨workerReply decision, closed⟩ } := by
    unfold Daemon.handle
    rw [workerTask_bind]
    refine htimer.bind ?_
    rw [workerTask_bind, workerTask_perform]
    refine hread.bind ?_
    dsimp only
    rw [hdecode]
    exact hjudge
  have hhangUp : Turn .worker (act .hangUp)
      { s with evaluated := evaluated', fromWorker := ⟨workerReply decision, closed⟩ } (pure ())
      { s with evaluated := evaluated', fromWorker := ⟨workerReply decision, true⟩ } :=
    turn_act rfl
  exact ⟨evaluated', hhandle.bind (hhangUp.bind (.refl _ _))⟩

end Process

end Worker

section Frontend

theorem turn_frontend_aside {α : Type} {task : Daemon.Task α} (h : task.All Aside) (s : Wires) :
    ∃ a, Turn .frontend (frontendTask task) s (pure a) s :=
  turn_aside (by decide) (frontendTask_aside h) s

theorem turn_asideThen {α : Type} {task : Daemon.Task α} {reply : Option Reply}
    (htask : task.All Aside) (s : Wires) :
    Turn .frontend (frontendTask (task >>= fun _ => pure reply)) s (pure reply) s := by
  rw [frontendTask_bind]
  obtain ⟨_, haside⟩ := turn_frontend_aside htask s
  exact haside.bind (.refl _ _)

/-- The worker has replied. -/
def Decided (decision : Decision) (s : Wires) : Prop :=
  s.fromWorker = ⟨workerReply decision, true⟩

/-- The frontend's exchange waits for the worker's decision. -/
theorem pauses_exchange {bytes : Bytes} (decision : Decision) (h : s.toWorker = ⟨[], false⟩) :
    Pauses (responds .frontend) (onRelay (Daemon.Relay.exchange bytes)) s
      { s with toWorker := ⟨bytes, true⟩ } (Decided decision)
      (some (some (Daemon.checkReply (workerReply decision)))) := by
  unfold Daemon.Relay.exchange
  have hconnect : Turn .frontend (act (.relay .connect)) s (pure (some (some (some ())))) s :=
    turn_act rfl
  have hwrite : Turn .frontend (act (.relay (.writeWorker bytes))) s
      (pure (some (some (some ())))) { s with toWorker := ⟨bytes, false⟩ } := by
    refine turn_act ⟨_, ⟨bytes, List.prefix_rfl, fun _ => rfl, rfl⟩, ?_⟩
    rw [h, decide_eq_true rfl, Bool.not_true, Bool.or_false]
    rfl
  have hshutdown : Turn .frontend (act (.relay .shutdownWorker))
      { s with toWorker := ⟨bytes, false⟩ } (pure (some (some (some ()))))
      { s with toWorker := ⟨bytes, true⟩ } := turn_act rfl
  rw [onRelay_call_bind]
  refine hconnect.thenPauses ?_
  rw [Daemon.orFail, onRelay_call_bind]
  refine hwrite.thenPauses ?_
  rw [Daemon.orFail, onRelay_call_bind]
  refine hshutdown.thenPauses ?_
  rw [Daemon.orFail, onRelay_call_bind]
  refine ⟨_, .refl _ _, fun s₁ hdecided => ?_⟩
  have hread : Turn .frontend (act (.relay (.readWorker (responseBytes + 2)))) s₁
      (pure (some (some (some (workerReply decision))))) s₁ := by
    refine turn_act ⟨rfl, ?_, .inl (by rw [hdecided])⟩
    rw [hdecided, List.take_of_length_le ((length_workerReply_le decision).trans (Nat.le_succ _))]
  exact hread.bind (.refl _ _)

/-- The relay waits for the worker's decision. -/
theorem pauses_relayReply {bytes : Bytes} (decision : Decision) (h : s.toWorker = ⟨[], false⟩) :
    Pauses (responds .frontend) (frontendTask (Daemon.relayReply bytes)) s
      { s with toWorker := ⟨bytes, true⟩ } (Decided decision) (some (replyTo decision)) := by
  unfold Daemon.relayReply
  obtain ⟨timer, htimer⟩ := turn_frontend_aside (newTimer_aside .ipc) s
  rw [frontendTask_bind]
  refine htimer.thenPauses ?_
  rw [frontendTask_bind, frontendTask_perform]
  refine (pauses_exchange decision h).bind fun s₁ _ => ?_
  cases decision with
  | none =>
    dsimp only [workerReply, Daemon.checkReply]
    rw [if_pos rfl, frontendTask_bind]
    obtain ⟨_, hreport⟩ := turn_frontend_aside (reportReply_aside .refused) s₁
    exact hreport.bind (turn_asideThen (Timer.finish_aside timer _) s₁)
  | some evaluation =>
    have hcheck : Daemon.checkReply (workerReply (some evaluation)) =
        .ok (encodeResponse evaluation) := Daemon.checkReply_eq_ok.mpr ⟨evaluation, rfl, rfl⟩
    rw [hcheck]
    exact turn_asideThen (Timer.finish_aside timer _) s₁

/-- The next reply waits for the worker's decision. -/
theorem pauses_nextReply {request : Posted} (decision : Decision)
    (hposted : s.posted = some request) (hseen : seen request = ⟨.evaluate, true⟩)
    (hbody : request.body = encodeRequest keyId blinded) (h : s.toWorker = ⟨[], false⟩) :
    Pauses (responds .frontend) (frontendTask (nextReply id)) s
      { s with toWorker := ⟨encodeRequest keyId blinded, true⟩ } (Decided decision)
      (some (replyTo decision)) := by
  have hnext : Turn .frontend (onRelay (Daemon.implement .nextRequest)) s
      (pure (some (.request ⟨.evaluate, true⟩))) s :=
    turn_act ⟨rfl, request, hposted, hseen.symm⟩
  have hread : Turn .frontend (onRelay (Daemon.implement .readBody)) s
      (pure (some (some (encodeRequest keyId blinded)))) s := by
    refine turn_act ⟨request, hposted, ?_⟩
    rw [hbody]
    exact ⟨List.prefix_rfl, .inl ⟨rfl, rfl⟩⟩
  obtain ⟨timer, htimer⟩ := turn_frontend_aside (newTimer_aside .validation) s
  obtain ⟨_, hfinish⟩ := turn_frontend_aside (Timer.finish_aside timer .success) s
  obtain ⟨-, hall⟩ | ⟨hdecode, -⟩ :=
    decodeRequest_cut id (List.prefix_refl (encodeRequest keyId blinded))
  · exact absurd rfl hall
  unfold nextReply
  rw [frontendTask_bind, frontendTask_perform]
  refine hnext.thenPauses ?_
  dsimp only [Daemon.routeReply, Daemon.evaluateReply]
  rw [frontendTask_bind]
  refine htimer.thenPauses ?_
  rw [if_pos rfl, frontendTask_bind, frontendTask_perform]
  refine hread.thenPauses ?_
  dsimp only
  rw [hdecode, Option.isSome_some, if_pos rfl, frontendTask_bind]
  exact hfinish.thenPauses (pauses_relayReply decision h)

end Frontend

section Client

variable {library : Library} {P : Primitives} {provider : HttpsNetworkProvider library}
  {binding : NetworkBinding} {endpoint : ConfiguredEndpoint library}

/-- A head as the frontend's library writes it. -/
def headOf (reply : Reply) : Head where
  status := reply.status
  contentTypes := reply.body.toList.map fun _ => some contentType
  contentEncoded := false
  contentLength := reply.body.map List.length
  certificate := none

theorem shows_headOf (reply : Reply) : Shows (headOf reply) reply := by
  refine ⟨rfl, rfl, rfl, fun length hlength => ?_⟩
  obtain ⟨body, hbody, rfl⟩ := Option.map_eq_some_iff.mp hlength
  rw [hbody, Option.getD_some]

/-- The client reads the reply. -/
theorem turn_readResponse {decision : Decision} (h : s.reply = some (replyTo decision)) :
    Turn .client (liftClient (readResponse (headOf (replyTo decision)))) s
      (pure (some (resultOf decision))) s := by
  unfold readResponse
  cases decision with
  | none =>
    rw [if_pos (show (headOf (replyTo none)).status ≠ 200 by decide)]
    exact .refl _ _
  | some evaluation =>
    have hstatus : (headOf (replyTo (some evaluation))).status = 200 := rfl
    rw [if_neg (not_not.mpr hstatus),
      if_neg (not_not.mpr (isMessage_of_shows (shows_headOf _))), liftClient_ask_bind]
    have hchunks : Turn .client (act (.client .chunks)) s
        (pure ([encodeResponse evaluation], .complete)) s := by
      refine turn_act ⟨_, h, ?_, .inl ⟨?_, rfl⟩⟩
      · rw [List.flatten_singleton]
        exact List.prefix_rfl
      · rw [List.flatten_singleton]
        rfl
    refine hchunks.bind ?_
    rw [bodyResult_complete List.flatten_singleton]
    exact .refl _ _

/-- The client waits for the reply. -/
theorem pauses_clientProcess (decision : Decision)
    (hkey : binding.keyId = Crypto.keyId P binding.publicKey)
    (hget : provider.get binding.providerId = some endpoint) :
    Pauses (responds .client) (clientProcess P provider binding blinded) s
      { s with posted := some (requestOf binding blinded endpoint) }
      (fun s₁ => s₁.reply = some (replyTo decision)) (some (resultOf decision)) := by
  have hexchange : Pauses (responds .client) (liftClient (exchange P provider binding blinded)) s
      { s with posted := some (requestOf binding blinded endpoint) }
      (fun s₁ => s₁.reply = some (replyTo decision)) (none, some (resultOf decision)) := by
    unfold exchange
    rw [if_neg (not_not.mpr hkey), hget]
    dsimp only
    rw [liftClient_ask_bind]
    have hpost : Turn .client (act (.client (.post (requestOf binding blinded endpoint)))) s
        (pure ()) { s with posted := some (requestOf binding blinded endpoint) } := turn_act rfl
    refine hpost.thenPauses ⟨_, .refl _ _, fun s₁ hreply => ?_⟩
    rw [liftClient_ask_bind]
    have hhead : Turn .client (act (.client .head)) s₁
        (pure (some (.ok (headOf (replyTo decision))))) s₁ :=
      turn_act ⟨rfl, _, hreply, shows_headOf _⟩
    refine hhead.bind ?_
    dsimp only
    rw [liftClient_bind]
    exact (turn_readResponse hreply).bind (.refl _ _)
  have hbefore : Pauses (responds .client)
      (liftClient (evaluateBefore P provider binding blinded)) s
      { s with posted := some (requestOf binding blinded endpoint) }
      (fun s₁ => s₁.reply = some (replyTo decision)) (resultOf decision) := by
    rw [evaluateBefore, liftClient_bind]
    exact hexchange.bind fun s₁ _ => .refl _ _
  exact hbefore.bind fun s₁ _ => .refl _ _

end Client

section System

variable {library : Library} {P : Primitives} {endpoints : List Endpoint}
  {provider : HttpsNetworkProvider library} {binding : NetworkBinding}
  {endpoint : ConfiguredEndpoint library}

/-- A decision is delivered, and nothing disturbs it. -/
theorem reaches_delivered {evaluated : Evaluations} {decision : Decision}
    (hadmitted : endpoint.Admitted) (hkey : binding.keyId = Crypto.keyId P binding.publicKey)
    (hget : provider.get binding.providerId = some endpoint)
    (hsettled : Settled binding.keyId blinded id evaluated decision) :
    ∃ c : Network, System.Reaches responds Eq (network P provider binding blinded id) c ∧
      c.programs .client = pure (some (resultOf decision)) ∧ c.state.disturbed = false := by
  let sent : Wires := ⟨some (requestOf binding blinded endpoint), ⟨[], false⟩, ⟨[], false⟩, [],
    none, false⟩
  let forwarded : Wires := { sent with toWorker := ⟨encodeRequest binding.keyId blinded, true⟩ }
  obtain ⟨client, hpost, hclient⟩ := pauses_clientProcess decision hkey hget
  obtain ⟨frontend, hforward, hfrontend⟩ :
      Pauses (responds .frontend) (frontendTask (nextReply id)) sent _ _ _ :=
    pauses_nextReply decision rfl (seen_requestOf hadmitted) rfl rfl
  obtain ⟨evaluated', hworker⟩ : ∃ evaluated', Turn .worker (workerProcess id) forwarded _ _ :=
    turn_workerProcess hsettled rfl rfl
  let decided : Wires :=
    { forwarded with evaluated := evaluated', fromWorker := ⟨workerReply decision, true⟩ }
  have hrespond : Turn .frontend (act (.respond (replyTo decision))) decided (pure ())
      { decided with reply := some (replyTo decision) } := turn_act rfl
  have hposted : System.Reaches responds Eq (network P provider binding blinded id) _ :=
    System.Reaches.turn (i := .client) .refl hpost
  have hforwarded := hposted.turn (i := .frontend) (hforward.inside _)
  have hdecided := hforwarded.turn (i := .worker) hworker
  have hreplied := hdecided.turn (i := .frontend)
    ((hfrontend decided rfl).bind (hrespond.bind (.refl _ _)))
  have hread := hreplied.turn (i := .client) (hclient _ rfl)
  exact ⟨_, hread, rfl, rfl⟩

/-- What the results of a client stand for. -/
theorem results_of_reaches (hnew : HttpsNetworkProvider.new library endpoints = .ok provider)
    (hkey : binding.keyId = Crypto.keyId P binding.publicKey)
    (hget : provider.get binding.providerId = some endpoint)
    {c : Network}
    (h : System.Reaches responds Eq (network P provider binding blinded id) c) :
    c.state.evaluated.length ≤ 1 ∧
    (∀ entry ∈ c.state.evaluated, entry.1 = blinded.toList ∧ id = binding.keyId) ∧
    ∀ result, c.programs .client = pure (some result) →
      (∀ evaluation, result = .ok evaluation →
        c.state.evaluated = [(blinded.toList, .ok (rawBytes evaluation))]) ∧
      (c.state.disturbed = false → ∃ decision,
        Settled binding.keyId blinded id c.state.evaluated decision ∧
          result = resultOf decision) := by
  have hadmitted := HttpsNetworkProvider.get_admitted hnew hget
  obtain ⟨hinv, hsafe⟩ := network_safe hadmitted hkey hget h
  refine ⟨hinv.once, hinv.evaluated, fun result hdone => ?_⟩
  have hclient := hsafe .client
  rw [hdone] at hclient
  obtain ⟨hmade, hquiet⟩ := hclient
  refine ⟨fun evaluation hok => ?_, fun hundisturbed => ?_⟩
  · obtain ⟨-, hmem⟩ := hmade evaluation (congrArg some hok)
    obtain ⟨entry, hentry⟩ := List.length_eq_one_iff.mp
      (le_antisymm hinv.once (List.length_pos_of_mem hmem))
    rw [hentry] at hmem ⊢
    rw [List.mem_singleton.mp hmem]
  · obtain ⟨decision, hsettled, hresult⟩ := hquiet hundisturbed
    exact ⟨decision, hsettled, Option.some.inj hresult⟩

/-- Whatever is interleaved, cut off or lost: the worker evaluates nothing but the client's
point, at most once and only under the key that the client named. A client that succeeds has
that evaluation. If nothing was disturbed the client ends with the worker's decision. -/
theorem evaluation_faithful (hnew : HttpsNetworkProvider.new library endpoints = .ok provider)
    (hkey : binding.keyId = Crypto.keyId P binding.publicKey)
    (hget : provider.get binding.providerId = some endpoint)
    {c : Network}
    (h : System.Reaches responds Eq (network P provider binding blinded id) c) :
    c.state.evaluated.length ≤ 1 ∧
    (∀ entry ∈ c.state.evaluated, entry.1 = blinded.toList ∧ id = binding.keyId) ∧
    ∀ result, c.programs .client = pure (some result) →
      (∀ evaluation, result = .ok evaluation →
        c.state.evaluated = [(blinded.toList, .ok (rawBytes evaluation))]) ∧
      (c.state.disturbed = false → ∃ decision,
        Settled binding.keyId blinded id c.state.evaluated decision ∧
          result = resultOf decision) :=
  results_of_reaches hnew hkey hget h

/-- The binding of the example. -/
private def nodeBinding : NetworkBinding :=
  ⟨0, Vector.replicate 32 7, Crypto.keyId transparent (Vector.replicate pointBytes 2),
    Vector.replicate pointBytes 2, Vector.replicate 32 3⟩

/-- The blinded point of the example. -/
private def nodePoint : PointBytes := Vector.replicate pointBytes 5

/-- The evaluation of the example. -/
private def nodeEvaluation : Evaluation :=
  ⟨Vector.replicate pointBytes 6, Vector.replicate proofBytes 0⟩

/-- The endpoint of the example. -/
private def nodeEndpoint : Endpoint := ⟨nodeBinding.providerId, "https://node", nodeCa⟩

theorem exists_nodeProvider : ∃ provider endpoint,
    HttpsNetworkProvider.new nodeLibrary [nodeEndpoint] = .ok provider ∧
      provider.get nodeBinding.providerId = some endpoint :=
  ⟨_, _, rfl, List.lookup_cons_self⟩

theorem keyId_nodeBinding :
    nodeBinding.keyId = Crypto.keyId transparent nodeBinding.publicKey := rfl

/-- A client whose node evaluates its point. -/
theorem evaluation_faithful_delivered : ∃ provider, ∃ c : Network,
    HttpsNetworkProvider.new nodeLibrary [nodeEndpoint] = .ok provider ∧
    System.Reaches responds Eq
      (network transparent provider nodeBinding nodePoint nodeBinding.keyId) c ∧
    c.programs .client = pure (some (.ok nodeEvaluation)) ∧
    c.state.evaluated = [(nodePoint.toList, .ok (rawBytes nodeEvaluation))] := by
  obtain ⟨provider, endpoint, hnew, hget⟩ := exists_nodeProvider
  obtain ⟨c, hreaches, hdone, -⟩ := reaches_delivered (HttpsNetworkProvider.get_admitted hnew hget)
    keyId_nodeBinding hget (.evaluated nodeEvaluation rfl rfl)
  have hfaithful := evaluation_faithful hnew keyId_nodeBinding hget hreaches
  exact ⟨provider, c, hnew, hreaches, hdone, (hfaithful.2.2 _ hdone).1 nodeEvaluation rfl⟩

/-- In runs that nothing disturbs the client ends with a refusal or, from the worker that holds
the key, with an evaluation; and every one of these results is reached. -/
theorem undisturbed_results (hnew : HttpsNetworkProvider.new library endpoints = .ok provider)
    (hkey : binding.keyId = Crypto.keyId P binding.publicKey)
    (hget : provider.get binding.providerId = some endpoint) (result : Except Error Evaluation) :
    (∃ c : Network, System.Reaches responds Eq (network P provider binding blinded id) c ∧
      c.programs .client = pure (some result) ∧ c.state.disturbed = false) ↔
    result = .error .remoteFailure ∨
      (id = binding.keyId ∧ ∃ evaluation, result = .ok evaluation) := by
  have hadmitted := HttpsNetworkProvider.get_admitted hnew hget
  constructor
  · rintro ⟨c, hreaches, hdone, hquiet⟩
    have hclient := (network_safe hadmitted hkey hget hreaches).2 .client
    rw [hdone] at hclient
    obtain ⟨decision, hsettled, hresult⟩ := hclient.2 hquiet
    obtain rfl := Option.some.inj hresult
    cases hsettled with
    | evaluated evaluation hid _ => exact .inr ⟨hid, evaluation, rfl⟩
    | failed _ _ _ => exact .inl rfl
    | otherKey _ => exact .inl rfl
  · rintro (rfl | ⟨hid, evaluation, rfl⟩)
    · by_cases hid : id = binding.keyId
      · exact reaches_delivered hadmitted hkey hget (.failed .other hid rfl)
      · have hsettled : Settled binding.keyId blinded id [] none := .otherKey hid
        exact reaches_delivered hadmitted hkey hget hsettled
    · exact reaches_delivered hadmitted hkey hget (.evaluated evaluation hid rfl)

/-- A node that holds another key only refuses. -/
theorem undisturbed_results_otherKey : ∃ provider,
    HttpsNetworkProvider.new nodeLibrary [nodeEndpoint] = .ok provider ∧
    ∀ result, (∃ c : Network, System.Reaches responds Eq
      (network transparent provider nodeBinding nodePoint (Vector.replicate 32 9)) c ∧
        c.programs .client = pure (some result) ∧ c.state.disturbed = false) ↔
      result = .error .remoteFailure := by
  obtain ⟨provider, endpoint, hnew, hget⟩ := exists_nodeProvider
  refine ⟨provider, hnew, fun result =>
    (undisturbed_results hnew keyId_nodeBinding hget result).trans (or_iff_left ?_)⟩
  rintro ⟨hid, -⟩
  have hfirst : (9 : UInt8) = 2 := congrArg (fun id : Vector UInt8 32 => id.get 0) hid
  cases hfirst

end System

end Leelo.Net
