import Leelo.Net.Invariant

/-!
# Evaluations are faithful

Every party keeps the invariant of the wires whatever the others do. So the client accepts
nothing but an evaluation that the worker made of the client's own point, and if nothing is
disturbed it learns what the worker decided.
-/

namespace Leelo.Net

open Leelo.Core Leelo.Crypto Leelo.Envelope Program
open Leelo.Daemon (ServiceOp RelayOp Reply)

section Client

variable (keyId : Vector UInt8 32) (blinded : PointBytes) (id : Vector UInt8 32)
  (request : Posted)

/-- The process keeps the invariant, whatever the other parties do. -/
abbrev Safe {α : Type} (party : Party) (post : α → Wires → Prop) (p : Process α) (s : Wires) :
    Prop :=
  Guarded (responds party) (rely keyId blinded id party) (guarantee keyId blinded id party)
    (Faithful keyId blinded id request) post p s

/-- The reply stands and, if nothing was disturbed, it is the decision. -/
def Answered (reply : Reply) (s : Wires) : Prop :=
  s.reply = some reply ∧ (s.disturbed = false →
    ∃ decision, Settled keyId blinded id s.evaluated decision ∧ reply = replyTo decision)

/-- What the client may conclude. -/
def Concludes (result : Option (Except Error Evaluation)) (s : Wires) : Prop :=
  (∀ evaluation, result = some (.ok evaluation) → Made keyId blinded id s.evaluated evaluation) ∧
  (s.disturbed = false → ∃ decision, Settled keyId blinded id s.evaluated decision ∧
    result = some (resultOf decision))

/-- What the chunks of a successful reply can be. -/
def Chunked (answer : List Bytes × BodyEnd) (s : Wires) : Prop :=
  ∃ evaluation, Made keyId blinded id s.evaluated evaluation ∧
    answer.1.flatten <+: encodeResponse evaluation ∧
    (s.disturbed = false → Settled keyId blinded id s.evaluated (some evaluation) ∧
      answer.2 = .complete ∧ answer.1.flatten = encodeResponse evaluation)

/-- The head of a reply that stands, or a failure. -/
def Headed (answer : Option (Except SendError Head)) (s : Wires) : Prop :=
  match answer with
  | some (.ok head) => ∃ reply, Shows head reply ∧ Answered keyId blinded id reply s ∧
    (reply.status = 200 → ∃ evaluation, Made keyId blinded id s.evaluated evaluation ∧
      reply.body = some (encodeResponse evaluation))
  | _ => s.disturbed = true

variable {keyId blinded id request} {s s' : Wires} {head : Head} {reply : Reply}

/-- An answer stays. -/
theorem Answered.stable (h : Answered keyId blinded id reply s)
    (hstands : Stands keyId blinded id s s') : Answered keyId blinded id reply s' := by
  refine ⟨hstands.reply reply h.1, fun hquiet => ?_⟩
  obtain ⟨decision, hsettled, hreply⟩ := h.2 (hstands.disturbed hquiet)
  exact ⟨decision, hstands.settled decision hsettled, hreply⟩

variable {result : Option (Except Error Evaluation)}

/-- A conclusion stays. -/
theorem Concludes.stable (h : Concludes keyId blinded id result s)
    (hstands : Stands keyId blinded id s s') :
    Concludes keyId blinded id result s' := by
  refine ⟨fun evaluation hok => hstands.made evaluation (h.1 evaluation hok), fun hquiet => ?_⟩
  obtain ⟨decision, hsettled, hresult⟩ := h.2 (hstands.disturbed hquiet)
  exact ⟨decision, hstands.settled decision hsettled, hresult⟩

theorem concludes_error {error : Error}
    (h : s.disturbed = false → ∃ decision, Settled keyId blinded id s.evaluated decision ∧
      resultOf decision = .error error) : Concludes keyId blinded id (some (.error error)) s := by
  refine ⟨fun evaluation hok => ?_, fun hquiet => ?_⟩
  · cases hok
  · obtain ⟨decision, hsettled, hresult⟩ := h hquiet
    exact ⟨decision, hsettled, by rw [hresult]⟩

/-- Nothing follows from a run that was disturbed, if it does not succeed. -/
theorem concludes_of_disturbed (hdisturbed : s.disturbed = true)
    (hresult : ∀ evaluation, result ≠ some (.ok evaluation)) :
    Concludes keyId blinded id result s := by
  refine ⟨fun evaluation hok => absurd hok (hresult evaluation), fun hquiet => ?_⟩
  rw [hdisturbed] at hquiet
  cases hquiet

/-- The deadline is a timeout. -/
theorem Concludes.getD (h : Concludes keyId blinded id result s) :
    Concludes keyId blinded id (some (result.getD (.error .timeout))) s := by
  cases result with
  | some result => exact h
  | none =>
    refine concludes_error fun hquiet => ?_
    obtain ⟨decision, -, hresult⟩ := h.2 hquiet
    cases hresult

/-- The head of an evaluation announces a message. -/
theorem isMessage_of_shows {evaluation : Evaluation}
    (h : Shows head (replyTo (some evaluation))) : head.isMessage = true := by
  obtain ⟨-, hencoded, htypes, hlength⟩ := h
  have htypes' : head.contentTypes = [some contentType] := htypes
  refine decide_eq_true ⟨?_, ?_, ?_, ?_⟩
  · rw [htypes']
    rfl
  · rw [htypes']
    rfl
  · rw [hencoded]
    exact Bool.false_ne_true
  · cases hhead : head.contentLength with
    | none => rfl
    | some length =>
      rw [hlength length hhead]
      exact decide_eq_true (length_encodeResponse evaluation)

/-- A client's program as a process. -/
def liftClient {α : Type} (exchange : Exchange α) : Process α :=
  exchange.expand fun op => act (.client op)

theorem liftClient_ask_bind {α : Type} (op : ClientOp) (f : op.Ans → Exchange α) :
    liftClient (ask op >>= f) = act (.client op) >>= fun answer => liftClient (f answer) := by
  rw [liftClient, expand_bind]
  exact congrArg (· >>= _) (expand_perform op)

theorem guarantee_disturb (party : Party) (s : Wires) :
    guarantee keyId blinded id party s s.disturb :=
  fun other _ => rely_of_frame other rfl rfl rfl rfl fun hquiet => by cases hquiet

theorem guarantee_refl (party : Party) (s : Wires) : guarantee keyId blinded id party s s :=
  fun other _ => rely_refl other s

/-- The client receives a part of the reply's body. -/
theorem guarded_chunks {evaluation : Evaluation} (hanswered : Answered keyId blinded id reply s)
    (hmade : Made keyId blinded id s.evaluated evaluation)
    (hbody : reply.body = some (encodeResponse evaluation)) :
    Safe keyId blinded id request .client (Chunked keyId blinded id) (act (.client .chunks)) s := by
  refine guarded_perform fun s₁ hstands hinv answer s₂ hresponds => ?_
  have hmade' := Stands.made hstands evaluation hmade
  have hanswered' := hanswered.stable hstands
  obtain ⟨chunks, ending⟩ := answer
  obtain ⟨other, hother, hresponds⟩ := hresponds
  obtain rfl : other = reply := Option.some.inj (hother.symm.trans hanswered'.1)
  rw [hbody, Option.getD_some] at hresponds
  -- A part of the body comes with a disturbance, all of it may come without.
  have hcut : chunks.flatten <+: encodeResponse evaluation → s₂ = s₁.disturb →
      Faithful keyId blinded id request s₂ ∧ guarantee keyId blinded id .client s₁ s₂ ∧
        Chunked keyId blinded id (chunks, ending) s₂ := by
    rintro hcut rfl
    refine ⟨hinv.disturb, guarantee_disturb .client s₁, evaluation, hmade', hcut, fun hquiet => ?_⟩
    cases hquiet
  cases ending with
  | failed error => exact hcut hresponds.1 hresponds.2
  | deadline => exact hcut hresponds.1 hresponds.2
  | complete =>
    obtain ⟨hpart, ⟨hall, rfl⟩ | hdisturbed⟩ := hresponds
    · refine ⟨hinv, guarantee_refl .client s₂, evaluation, hmade', hpart, fun hquiet => ?_⟩
      obtain ⟨decision, hsettled, hreply⟩ := hanswered'.2 hquiet
      rw [hreply] at hbody
      cases decision with
      | none => cases hbody
      | some other =>
        obtain rfl := encodeResponse_injective (Option.some.inj hbody)
        exact ⟨hsettled, rfl, hall⟩
    · exact hcut hpart hdisturbed

theorem concludes_chunks {answer : List Bytes × BodyEnd} (h : Chunked keyId blinded id answer s) :
    Concludes keyId blinded id (bodyResult answer.1 answer.2) s := by
  obtain ⟨evaluation, hmade, hcut, hquiet⟩ := h
  obtain ⟨chunks, ending⟩ := answer
  refine ⟨fun decoded hok => ?_, fun hundisturbed => ?_⟩
  · rw [decodeResponse_prefixed hcut (bodyResult_eq_ok hok)]
    exact hmade
  · obtain ⟨hsettled, hending, hall⟩ := hquiet hundisturbed
    refine ⟨some evaluation, hsettled, ?_⟩
    cases hending
    exact bodyResult_complete hall

/-- The client reads a reply safely. -/
theorem safe_readResponse (hshows : Shows head reply)
    (hanswered : Answered keyId blinded id reply s)
    (hmade : reply.status = 200 → ∃ evaluation, Made keyId blinded id s.evaluated evaluation ∧
      reply.body = some (encodeResponse evaluation)) :
    Safe keyId blinded id request .client (Concludes keyId blinded id)
      (liftClient (readResponse head)) s := by
  unfold readResponse
  by_cases hstatus : head.status = 200
  · rw [if_neg (not_not.mpr hstatus)]
    obtain ⟨evaluation, hmade, hbody⟩ := hmade (hshows.1.symm.trans hstatus)
    by_cases hmessage : head.isMessage = true
    · rw [if_neg (not_not.mpr hmessage), liftClient_ask_bind]
      refine Guarded.bind (guarded_chunks hanswered hmade hbody) ?_
      intro answer s₁ hchunked
      exact concludes_chunks hchunked
    · rw [if_pos hmessage]
      refine concludes_error fun hquiet => ?_
      obtain ⟨decision, hsettled, rfl⟩ := hanswered.2 hquiet
      cases decision with
      | none => exact absurd (hshows.1.symm.trans hstatus) (by decide)
      | some evaluation => exact absurd (isMessage_of_shows hshows) hmessage
  · rw [if_pos hstatus]
    refine concludes_error fun hquiet => ?_
    obtain ⟨decision, hsettled, rfl⟩ := hanswered.2 hquiet
    cases decision with
    | none => exact ⟨none, hsettled, rfl⟩
    | some evaluation => exact absurd hshows.1 hstatus

theorem liftClient_bind {α β : Type} (p : Exchange α) (f : α → Exchange β) :
    liftClient (p >>= f) = liftClient p >>= fun a => liftClient (f a) := expand_bind p f

theorem guarded_post : Safe keyId blinded id request .client (fun _ _ => True)
    (act (.client (.post request))) s := by
  refine guarded_perform fun s₁ hstands hinv answer s₂ hresponds => ?_
  obtain rfl : s₂ = { s₁ with posted := some request } := hresponds
  exact ⟨hinv.post, fun other _ => rely_of_frame other rfl rfl rfl rfl fun hquiet => hquiet,
    trivial⟩

theorem guarded_head : Safe keyId blinded id request .client
    (Headed keyId blinded id) (act (.client .head)) s := by
  refine guarded_perform fun s₁ hstands hinv answer s₂ hresponds => ?_
  rcases answer with _ | error | head
  · obtain rfl : s₂ = s₁.disturb := hresponds
    exact ⟨hinv.disturb, guarantee_disturb .client s₁, rfl⟩
  · obtain rfl : s₂ = s₁.disturb := hresponds
    exact ⟨hinv.disturb, guarantee_disturb .client s₁, rfl⟩
  · obtain ⟨rfl, reply, hreply, hshows⟩ := hresponds
    exact ⟨hinv, guarantee_refl .client s₂, reply, hshows,
      ⟨hreply, fun hquiet => hinv.replied hquiet reply hreply⟩, hinv.reply reply hreply⟩

section Process

variable {library : Library} {P : Primitives} {provider : HttpsNetworkProvider library}
  {binding : NetworkBinding} {endpoint : ConfiguredEndpoint library}

/-- The client is safe. -/
theorem safe_clientProcess (hkey : binding.keyId = Crypto.keyId P binding.publicKey)
    (hget : provider.get binding.providerId = some endpoint) :
    Safe binding.keyId blinded id (requestOf binding blinded endpoint) .client
      (fun result => Concludes binding.keyId blinded id result)
      (clientProcess P provider binding blinded) s := by
  have hexchange : Safe binding.keyId blinded id (requestOf binding blinded endpoint) .client
      (fun result s => Concludes binding.keyId blinded id result.2 s)
      (liftClient (exchange P provider binding blinded)) s := by
    unfold exchange
    rw [if_neg (not_not.mpr hkey), hget]
    dsimp only
    rw [liftClient_ask_bind]
    refine Guarded.bind guarded_post fun _ s₁ _ => ?_
    rw [liftClient_ask_bind]
    refine Guarded.bind guarded_head fun answer s₂ hheaded => ?_
    rcases answer with _ | error | head
    · exact concludes_of_disturbed hheaded fun _ hok => by cases hok
    · exact concludes_of_disturbed hheaded fun _ hok => by cases hok
    · obtain ⟨reply, hshows, hanswered, hmade⟩ := hheaded
      dsimp only
      rw [liftClient_bind]
      exact Guarded.bind (safe_readResponse hshows hanswered hmade) fun _ _ h => h
  have hbefore : Safe binding.keyId blinded id (requestOf binding blinded endpoint) .client
      (fun result s => Concludes binding.keyId blinded id (some result) s)
      (liftClient (evaluateBefore P provider binding blinded)) s := by
    rw [evaluateBefore, liftClient_bind]
    exact Guarded.bind hexchange fun _ _ h => h.getD
  exact Guarded.bind hbefore fun _ _ h => h

end Process

end Client

/-- Operations that only count, time and report. -/
def Aside : ServiceOp → Prop
  | .now _ | .elapsed _ | .addCompletion _ _ | .addDuration _ _ | .addDurationSum _ _
  | .event _ => True
  | _ => False

section Asides

open Daemon

/-- A new timer is aside. -/
theorem newTimer_aside (stage : Stage) : (newTimer stage).All Aside :=
  All.bind (All.perform trivial) fun _ => trivial

theorem Timer.record_aside (timer : Timer) (outcome : Outcome) : (timer.record outcome).All Aside :=
  All.bind (All.perform trivial) fun _ => All.bind (All.perform trivial) fun _ =>
    All.bind (All.perform trivial) fun _ => All.perform trivial

theorem Timer.drop_aside (timer : Timer) : timer.drop.All Aside := by
  unfold Daemon.Timer.drop
  split_ifs
  · trivial
  · exact Timer.record_aside timer .cancelled

theorem Timer.finish_aside (timer : Timer) (outcome : Outcome) : (timer.finish outcome).All Aside :=
  All.bind (Timer.record_aside timer outcome) fun _ => Timer.drop_aside _

theorem reportEvaluation_aside (outcome : Outcome) : (reportEvaluation outcome).All Aside := by
  unfold reportEvaluation
  split_ifs
  · exact All.perform trivial
  · exact All.perform trivial
  · trivial

theorem reportReply_aside (reason : Outcome) : (reportReply reason).All Aside := by
  unfold reportReply
  split_ifs
  · exact All.perform trivial
  · trivial

end Asides

/-- A party's operation touches nothing between the parties. -/
def ProcessAside : PartyOp → Prop
  | .relay (.service op) => Aside op
  | _ => False

theorem responds_aside {party : Party} {op : PartyOp} {s s' : Wires} {answer : op.Ans}
    (hop : ProcessAside op) (h : responds party op s answer s') : s' = s := by
  rcases op with _ | (op | _ | _ | _ | _) | _ | _
  case relay.service =>
    cases party with
    | client => exact h.elim
    | frontend => cases op <;> first | exact h | exact hop.elim
    | worker => cases op <;> first | exact h | exact hop.elim
  all_goals exact hop.elim

/-- What is aside is safe. -/
theorem safe_aside {keyId : Vector UInt8 32} {blinded : PointBytes} {id : Vector UInt8 32}
    {request : Posted} {party : Party} {α : Type} {process : Process α} {s : Wires}
    (hprocess : process.All ProcessAside) {holds : Wires → Prop}
    (hstable : ∀ {s s'}, rely keyId blinded id party s s' → holds s → holds s') (h : holds s) :
    Safe keyId blinded id request party (fun _ s => holds s) process s :=
  guarded_of_all hprocess responds_aside (guarantee_refl party) hstable h

/-- All of the request is decoded, and nothing less. -/
theorem decodeRequest_cut {keyId : Vector UInt8 32} {blinded : PointBytes} {bytes : Bytes}
    (id : Vector UInt8 32) (hcut : bytes <+: encodeRequest keyId blinded) :
    ((workerWire id).decodeRequest bytes = none ∧ bytes ≠ encodeRequest keyId blinded) ∨
    ((workerWire id).decodeRequest bytes = some ⟨keyId.toList, blinded.toList⟩ ∧
      bytes = encodeRequest keyId blinded) := by
  change ((decodeRequest bytes).map _ = none ∧ _) ∨ ((decodeRequest bytes).map _ = _ ∧ _)
  cases hdecode : decodeRequest bytes with
  | none =>
    refine .inl ⟨rfl, fun hall => ?_⟩
    have hsome : decodeRequest bytes = some ⟨keyId, blinded⟩ := decodeRequest_eq_some.mpr hall
    rw [hdecode] at hsome
    cases hsome
  | some decoded =>
    obtain rfl := decodeRequest_prefixed hcut hdecode
    exact .inr ⟨rfl, decodeRequest_eq_some.mp hdecode⟩

section Worker

variable {keyId : Vector UInt8 32} {blinded : PointBytes} {id : Vector UInt8 32}
  {request : Posted} {s s' : Wires} {evaluated : Evaluations} {sent : Bytes} {quiet : Prop}

/-- A worker's task as a process. -/
def workerTask {α : Type} (task : Daemon.Task α) : Process α :=
  onRelay (task.expand fun op => Daemon.relayCall (.service op))

theorem workerTask_bind {α β : Type} (p : Daemon.Task α) (f : α → Daemon.Task β) :
    workerTask (p >>= f) = workerTask p >>= fun a => workerTask (f a) := by
  rw [workerTask, expand_bind]
  exact expand_bind _ _

theorem workerTask_perform (op : ServiceOp) :
    workerTask (Daemon.perform op) = act (.relay (.service op)) := by
  rw [workerTask, Daemon.perform, expand_perform]
  exact expand_perform _

/-- Only the worker evaluates and writes replies, so it knows what it did. What it has seen
of the others holds unless something was disturbed. -/
structure Working (sent : Bytes) (evaluated : Evaluations) (quiet : Prop) (s : Wires) : Prop where
  fromWorker : s.fromWorker = ⟨sent, false⟩
  evaluated : s.evaluated = evaluated
  quiet : s.disturbed = false → quiet

theorem Working.stable (hrely : rely keyId blinded id .worker s s')
    (h : Working sent evaluated quiet s) : Working sent evaluated quiet s' :=
  ⟨hrely.2.1.trans h.fromWorker, hrely.1.trans h.evaluated, fun hq => h.quiet (hrely.2.2 hq)⟩

variable (keyId blinded id) in
/-- The reply is that of the decision. -/
def Worked (s : Wires) : Prop :=
  s.disturbed = false → ∃ decision, Settled keyId blinded id s.evaluated decision ∧
    s.fromWorker.sent = workerReply decision

theorem Worked.stable (hrely : rely keyId blinded id .worker s s')
    (h : Worked keyId blinded id s) : Worked keyId blinded id s' := by
  intro hquiet
  obtain ⟨decision, hsettled, hsent⟩ := h (hrely.2.2 hquiet)
  rw [hrely.1, hrely.2.1]
  exact ⟨decision, hsettled, hsent⟩

theorem worked_of_disturbed (h : s.disturbed = true) : Worked keyId blinded id s := by
  intro hquiet
  rw [h] at hquiet
  cases hquiet

theorem workerTask_aside {α : Type} {task : Daemon.Task α} (h : task.All Aside) :
    (workerTask task).All ProcessAside := by
  have hrelay : (task.expand fun op => Daemon.relayCall (.service op)).All fun op =>
      ProcessAside (.relay op) := h.expand fun _ hop => All.perform hop
  exact hrelay.expand fun _ hop => All.perform hop

/-- What the worker changes alone. -/
theorem guarantee_worker (hevaluated : s'.evaluated = s.evaluated)
    (htoWorker : s'.toWorker = s.toWorker) (hreply : s'.reply = s.reply)
    (hdisturbed : s'.disturbed = false → s.disturbed = false) :
    guarantee keyId blinded id .worker s s' := by
  have hstands : Stands keyId blinded id s s' :=
    stands_of_same hevaluated (fun reply h => hreply.trans h) hdisturbed
  intro other hother
  cases other with
  | client => exact hstands
  | frontend => exact ⟨hstands, htoWorker, hreply⟩
  | worker => exact absurd rfl hother

/-- A reply begins with what was sent. -/
def Begins (keyId : Vector UInt8 32) (blinded : PointBytes) (id : Vector UInt8 32)
    (evaluated : Evaluations) (sent : Bytes) : Prop :=
  sent <+: [1] ∨ ∃ evaluation, Made keyId blinded id evaluated evaluation ∧
    sent <+: workerReply (some evaluation)

theorem Begins.of_prefixed {part : Bytes} (h : Begins keyId blinded id evaluated sent)
    (hpart : part <+: sent) : Begins keyId blinded id evaluated part := by
  obtain h | ⟨evaluation, hmade, h⟩ := h
  · exact .inl (hpart.trans h)
  · exact .inr ⟨evaluation, hmade, hpart.trans h⟩

/-- The worker sends a part of its reply safely. -/
theorem safe_send {bytes : Bytes} {rest : Daemon.Task (Option Daemon.Outcome)}
    (hworking : Working sent evaluated quiet s)
    (hbegins : Begins keyId blinded id evaluated (sent ++ bytes))
    (hrest : ∀ s, Working (sent ++ bytes) evaluated quiet s →
      Safe keyId blinded id request .worker (fun _ => Worked keyId blinded id)
        (workerTask rest) s) :
    Safe keyId blinded id request .worker (fun _ => Worked keyId blinded id)
      (workerTask (Daemon.send bytes rest)) s := by
  have hwrite : Safe keyId blinded id request .worker
      (fun answer s => if answer = some true then Working (sent ++ bytes) evaluated quiet s
        else s.disturbed = true) (act (.relay (.service (.write bytes)))) s := by
    refine guarded_perform fun s₁ hrely hinv answer s₂ hresponds => ?_
    have hworking' := hworking.stable hrely
    obtain ⟨stream, ⟨part, hpart, hwhole, rfl⟩, rfl⟩ := hresponds
    have hpart' : Begins keyId blinded id s₁.evaluated (s₁.fromWorker.sent ++ part) := by
      rw [hworking'.evaluated, hworking'.fromWorker]
      exact hbegins.of_prefixed ((List.prefix_append_right_inj sent).mpr hpart)
    refine ⟨hinv.writeReply (by rw [hworking'.fromWorker]) hpart',
      guarantee_worker rfl rfl rfl fun hquiet => (Bool.or_eq_false_iff.mp hquiet).1, ?_⟩
    split_ifs with hanswer
    · refine ⟨?_, hworking'.evaluated, fun hquiet =>
        hworking'.quiet (Bool.or_eq_false_iff.mp hquiet).1⟩
      rw [hwhole (decide_eq_true hanswer), hworking'.fromWorker]
      rfl
    · change (s₁.disturbed || !decide (answer = some true)) = true
      rw [decide_eq_false hanswer, Bool.not_false, Bool.or_true]
  unfold Daemon.send
  rw [workerTask_bind, workerTask_perform]
  refine Guarded.bind hwrite fun answer s₁ hanswer => ?_
  rcases answer with _ | _ | _
  · exact worked_of_disturbed hanswer
  · exact worked_of_disturbed hanswer
  · exact hrest s₁ hanswer

/-- The worker closes its stream safely. -/
theorem safe_close {outcome : Daemon.Outcome} (hworking : Working sent evaluated quiet s)
    (hsettled : quiet → ∃ decision, Settled keyId blinded id evaluated decision ∧
      sent = workerReply decision) :
    Safe keyId blinded id request .worker (fun _ => Worked keyId blinded id)
      (workerTask (Daemon.close outcome)) s := by
  have hshutdown : Safe keyId blinded id request .worker (fun _ => Worked keyId blinded id)
      (act (.relay (.service .shutdown))) s := by
    refine guarded_perform fun s₁ hrely hinv answer s₂ hresponds => ?_
    have hworking' := hworking.stable hrely
    have hworked : Worked keyId blinded id s₁ := by
      intro hquiet
      rw [hworking'.evaluated, hworking'.fromWorker]
      exact hsettled (hworking'.quiet hquiet)
    obtain rfl : s₂ = if answer = some true then
      { s₁ with fromWorker := Wires.close s₁.fromWorker } else s₁.disturb := hresponds
    split_ifs
    · exact ⟨hinv.closeReply hworked, guarantee_worker rfl rfl rfl fun hquiet => hquiet, hworked⟩
    · exact ⟨hinv.disturb, guarantee_disturb .worker s₁, worked_of_disturbed rfl⟩
  unfold Daemon.close
  rw [workerTask_bind, workerTask_perform]
  refine Guarded.bind hshutdown fun answer s₁ hworked => ?_
  rcases answer with _ | _ | _ <;> exact hworked

/-- The only evaluation, of the client's point. -/
theorem safe_evaluate (hkey : id = keyId) (hworking : Working [] [] quiet s) :
    Safe keyId blinded id request .worker
      (fun answer s => Working [] [(blinded.toList, answer)] quiet s ∧
        ∀ raw, answer = .ok raw → ∃ evaluation, raw = rawBytes evaluation)
      (act (.relay (.service (.evaluate blinded.toList)))) s := by
  refine guarded_perform fun s₁ hrely hinv answer s₂ hresponds => ?_
  have hworking' := hworking.stable hrely
  obtain ⟨hraw, rfl⟩ := hresponds
  have hevaluated : s₁.evaluated = [] := hworking'.evaluated
  rw [hevaluated, List.nil_append]
  have hstands : Stands keyId blinded id s₁
      { s₁ with evaluated := [(blinded.toList, answer)] } := by
    refine ⟨fun reply h => h, fun evaluation hmade => ?_, fun decision hsettled => ?_, fun h => h⟩
    · rw [hevaluated] at hmade
      cases hmade.2
    · rw [hevaluated] at hsettled
      cases not_settled hkey hsettled
  refine ⟨hinv.evaluate hevaluated hkey answer, fun other hother => ?_,
    ⟨hworking'.fromWorker, rfl, hworking'.quiet⟩, hraw⟩
  cases other with
  | client => exact hstands
  | frontend => exact ⟨hstands, rfl, rfl⟩
  | worker => exact absurd rfl hother

/-- The worker evaluates safely. -/
theorem safe_evaluation (hkey : id = keyId) (hworking : Working [] [] quiet s) :
    Safe keyId blinded id request .worker (fun _ => Worked keyId blinded id)
      (workerTask (Daemon.evaluation (workerWire id).encodeResponse blinded.toList)) s := by
  unfold Daemon.evaluation
  rw [workerTask_bind]
  refine Guarded.bind (safe_aside (workerTask_aside (newTimer_aside .crypto)) Working.stable
    hworking) fun timer s₁ hworking => ?_
  rw [workerTask_bind, workerTask_perform]
  refine Guarded.bind (safe_evaluate hkey hworking) fun answer s₂ hanswer => ?_
  obtain ⟨hworking, hraw⟩ := hanswer
  rw [workerTask_bind]
  refine Guarded.bind (safe_aside (workerTask_aside (Timer.finish_aside timer _)) Working.stable
    hworking) fun _ s₃ hworking => ?_
  rw [workerTask_bind]
  refine Guarded.bind (safe_aside (workerTask_aside (reportEvaluation_aside _)) Working.stable
    hworking) fun _ s₄ hworking => ?_
  cases answer with
  | error error =>
    refine safe_send hworking (.inl List.prefix_rfl) fun s₅ hworking =>
      safe_close hworking fun _ => ?_
    exact ⟨none, .failed error hkey rfl, rfl⟩
  | ok raw =>
    obtain ⟨evaluation, rfl⟩ := hraw raw rfl
    have hmade : Made keyId blinded id [(blinded.toList, .ok (rawBytes evaluation))] evaluation :=
      ⟨hkey, List.mem_singleton_self _⟩
    have hwhole : [] ++ [0] ++ (workerWire id).encodeResponse (rawBytes evaluation) =
        workerReply (some evaluation) := by
      change 0 :: (header ++ (evaluation.element.toList ++ evaluation.proof.toList)) = _
      rw [← List.append_assoc]
      rfl
    refine safe_send hworking (.inr ⟨evaluation, hmade, ?_⟩) fun s₅ hworking =>
      safe_send hworking (.inr ⟨evaluation, hmade, ?_⟩) fun s₆ hworking =>
        safe_close hworking fun _ => ?_
    · rw [← hwhole]
      exact List.prefix_append _ _
    · rw [hwhole]
    · exact ⟨some evaluation, .evaluated evaluation hkey rfl, hwhole⟩

theorem safe_refuse {timer : Daemon.Timer} {outcome : Daemon.Outcome}
    (hworking : Working [] evaluated quiet s)
    (hquiet : quiet → Settled keyId blinded id evaluated none) :
    Safe keyId blinded id request .worker (fun _ => Worked keyId blinded id)
      (workerTask (Daemon.refuse timer outcome)) s := by
  unfold Daemon.refuse
  rw [workerTask_bind]
  refine Guarded.bind (safe_aside (workerTask_aside (Timer.finish_aside timer outcome))
    Working.stable hworking) fun _ s₁ hworking => ?_
  refine safe_send hworking (.inl List.prefix_rfl) fun s₂ hworking hundisturbed => ?_
  rw [hworking.evaluated, hworking.fromWorker]
  exact ⟨none, hquiet (hworking.quiet hundisturbed), rfl⟩

variable (keyId blinded) in
/-- A part of the client's request, and all of it if nothing was disturbed. -/
def Heard (answer : Option (Option Bytes)) (s : Wires) : Prop :=
  match answer with
  | some (some bytes) => bytes <+: encodeRequest keyId blinded ∧
    Working [] [] (bytes = encodeRequest keyId blinded) s
  | _ => s.disturbed = true

/-- The worker reads a part of the request. -/
theorem safe_read (hworking : Working [] [] True s) :
    Safe keyId blinded id request .worker (Heard keyId blinded)
      (act (.relay (.service .read))) s := by
  refine guarded_perform fun s₁ hrely hinv answer s₂ hresponds => ?_
  have hworking' := hworking.stable hrely
  rcases answer with _ | _ | bytes
  · obtain rfl : s₂ = s₁.disturb := hresponds
    exact ⟨hinv.disturb, guarantee_disturb .worker s₁, rfl⟩
  · obtain rfl : s₂ = s₁.disturb := hresponds
    exact ⟨hinv.disturb, guarantee_disturb .worker s₁, rfl⟩
  · obtain ⟨hclosed, rfl, rfl⟩ | ⟨hcut, rfl⟩ := hresponds
    · refine ⟨hinv, guarantee_refl .worker s₂, (List.take_prefix _ _).trans hinv.toWorker,
        hworking'.fromWorker, hworking'.evaluated, fun hquiet => ?_⟩
      rw [hinv.requested hquiet hclosed, List.take_of_length_le]
      rw [length_encodeRequest]
      exact Nat.le_succ requestBytes
    · refine ⟨hinv.disturb, guarantee_disturb .worker s₁, hcut.trans hinv.toWorker,
        hworking'.fromWorker, hworking'.evaluated, fun hquiet => ?_⟩
      cases hquiet

/-- The worker handles a request safely. -/
theorem safe_handle (hworking : Working [] [] True s) :
    Safe keyId blinded id request .worker (fun _ => Worked keyId blinded id)
      (workerTask (Daemon.handle (workerWire id).decodeRequest (workerWire id).encodeResponse
        (workerWire id).id)) s := by
  unfold Daemon.handle
  rw [workerTask_bind]
  refine Guarded.bind (safe_aside (workerTask_aside (newTimer_aside .validation)) Working.stable
    hworking) fun timer s₁ hworking => ?_
  rw [workerTask_bind, workerTask_perform]
  refine Guarded.bind (safe_read hworking) fun answer s₂ hheard => ?_
  rcases answer with _ | _ | bytes
  · dsimp only
    rw [workerTask_bind]
    exact Guarded.bind (safe_aside (workerTask_aside (Timer.drop_aside timer)) Worked.stable
      (worked_of_disturbed hheard)) fun _ _ h => h
  · dsimp only
    rw [workerTask_bind]
    exact Guarded.bind (safe_aside (workerTask_aside (Timer.drop_aside timer)) Worked.stable
      (worked_of_disturbed hheard)) fun _ _ h => h
  · obtain ⟨hcut, hworking⟩ := hheard
    dsimp only
    obtain ⟨hdecode, hall⟩ | ⟨hdecode, hall⟩ := decodeRequest_cut id hcut
    · rw [hdecode]
      exact safe_refuse hworking fun h => absurd h hall
    · rw [hdecode]
      dsimp only
      by_cases hkey : keyId.toList = (workerWire id).id
      · rw [if_pos hkey, workerTask_bind]
        refine Guarded.bind (safe_aside (workerTask_aside (Timer.finish_aside timer _))
          Working.stable hworking) fun _ s₃ hworking => ?_
        exact safe_evaluation (Vector.toList_inj.mp hkey).symm hworking
      · rw [if_neg hkey]
        exact safe_refuse hworking fun _ => .otherKey fun h => hkey (by rw [← h]; rfl)

/-- The worker is safe. -/
theorem safe_workerProcess (hworking : Working [] [] True s) :
    Safe keyId blinded id request .worker (fun _ _ => True) (workerProcess id) s := by
  refine Guarded.bind (safe_handle hworking) fun _ s₁ hworked => ?_
  refine Guarded.bind (guarded_perform fun s₂ hrely hinv _ s₃ hresponds => ?_) fun _ _ h => h
  obtain rfl : s₃ = { s₂ with fromWorker := Wires.close s₂.fromWorker } := hresponds
  exact ⟨hinv.closeReply (hworked.stable hrely),
    guarantee_worker rfl rfl rfl fun hquiet => hquiet, trivial⟩

end Worker

section Frontend

variable {keyId : Vector UInt8 32} {blinded : PointBytes} {id : Vector UInt8 32}
  {request : Posted} {s s' : Wires} {sent : Bytes}

/-- A frontend's task as a process. -/
def frontendTask {α : Type} (task : Daemon.Task α) : Process α :=
  onRelay (task.expand Daemon.implement)

variable {α : Type}

theorem frontendTask_bind {β : Type} (p : Daemon.Task α) (f : α → Daemon.Task β) :
    frontendTask (p >>= f) = frontendTask p >>= fun a => frontendTask (f a) := by
  rw [frontendTask, expand_bind]
  exact expand_bind _ _

theorem frontendTask_perform (op : ServiceOp) :
    frontendTask (Daemon.perform op) = onRelay (Daemon.implement op) := by
  rw [frontendTask, Daemon.perform, expand_perform]

theorem onRelay_call_bind (op : RelayOp) (f : op.Ans → Daemon.Relay α) :
    onRelay (Daemon.relayCall op >>= f) = act (.relay op) >>= fun answer => onRelay (f answer) := by
  rw [onRelay, expand_bind]
  exact congrArg (· >>= _) (expand_perform op)

theorem frontendTask_aside {task : Daemon.Task α} (h : task.All Aside) :
    (frontendTask task).All ProcessAside := by
  have hrelay : (task.expand Daemon.implement).All fun op => ProcessAside (.relay op) := by
    refine h.expand fun op hop => ?_
    cases op <;> first | exact All.perform hop | exact hop.elim
  exact hrelay.expand fun _ hop => All.perform hop

/-- Only the frontend writes to the worker and replies. -/
structure Fronting (sent : Bytes) (s : Wires) : Prop where
  toWorker : s.toWorker = ⟨sent, false⟩
  unanswered : s.reply = none

theorem Fronting.stable (hrely : rely keyId blinded id .frontend s s') (h : Fronting sent s) :
    Fronting sent s' :=
  ⟨hrely.2.1.trans h.toWorker, hrely.2.2.trans h.unanswered⟩

/-- What the frontend changes alone. -/
theorem guarantee_frontend (hevaluated : s'.evaluated = s.evaluated)
    (hfromWorker : s'.fromWorker = s.fromWorker)
    (hreply : ∀ reply, s.reply = some reply → s'.reply = some reply)
    (hdisturbed : s'.disturbed = false → s.disturbed = false) :
    guarantee keyId blinded id .frontend s s' := by
  intro other hother
  cases other with
  | client => exact stands_of_same hevaluated hreply hdisturbed
  | frontend => exact absurd rfl hother
  | worker => exact ⟨hevaluated, hfromWorker, hdisturbed⟩

variable (keyId blinded id)

/-- What the exchange with the worker gives after its decision. -/
def exchangedOf : Decision → Daemon.Exchanged → Prop
  | none, answer => ∃ reason, answer = some (some (.error reason))
  | some evaluation, answer => answer = some (some (.ok (encodeResponse evaluation)))

/-- What the frontend knows after its exchange with the worker. -/
structure Told (answer : Daemon.Exchanged) (s : Wires) : Prop where
  unanswered : s.reply = none
  made : ∀ response, answer = some (some (.ok response)) →
    ∃ evaluation, Made keyId blinded id s.evaluated evaluation ∧
      response = encodeResponse evaluation
  settled : s.disturbed = false → ∃ decision, Settled keyId blinded id s.evaluated decision ∧
    exchangedOf decision answer

/-- What the frontend is about to reply. -/
structure Replies (answer : Option Reply) (s : Wires) : Prop where
  unanswered : s.reply = none
  made : ∀ reply, answer = some reply → reply.status = 200 →
    ∃ evaluation, Made keyId blinded id s.evaluated evaluation ∧
      reply.body = some (encodeResponse evaluation)
  settled : s.disturbed = false → ∃ decision, Settled keyId blinded id s.evaluated decision ∧
    answer = some (replyTo decision)

variable {keyId blinded id} {answer : Daemon.Exchanged} {reply : Option Reply}

theorem Told.stable (hrely : rely keyId blinded id .frontend s s')
    (h : Told keyId blinded id answer s) : Told keyId blinded id answer s' := by
  refine ⟨hrely.2.2.trans h.unanswered, fun response hok => ?_, fun hquiet => ?_⟩
  · obtain ⟨evaluation, hmade, hresponse⟩ := h.made response hok
    exact ⟨evaluation, hrely.1.made evaluation hmade, hresponse⟩
  · obtain ⟨decision, hsettled, hanswer⟩ := h.settled (hrely.1.disturbed hquiet)
    exact ⟨decision, hrely.1.settled decision hsettled, hanswer⟩

theorem Replies.stable (hrely : rely keyId blinded id .frontend s s')
    (h : Replies keyId blinded id reply s) : Replies keyId blinded id reply s' := by
  refine ⟨hrely.2.2.trans h.unanswered, fun other hother hstatus => ?_, fun hquiet => ?_⟩
  · obtain ⟨evaluation, hmade, hbody⟩ := h.made other hother hstatus
    exact ⟨evaluation, hrely.1.made evaluation hmade, hbody⟩
  · obtain ⟨decision, hsettled, hanswer⟩ := h.settled (hrely.1.disturbed hquiet)
    exact ⟨decision, hrely.1.settled decision hsettled, hanswer⟩

theorem told_of_disturbed (hunanswered : s.reply = none) (hdisturbed : s.disturbed = true)
    (hanswer : ∀ response, answer ≠ some (some (.ok response))) :
    Told keyId blinded id answer s := by
  refine ⟨hunanswered, fun response hok => absurd hok (hanswer response), fun hquiet => ?_⟩
  rw [hdisturbed] at hquiet
  cases hquiet

theorem replies_of_disturbed (hunanswered : s.reply = none) (hdisturbed : s.disturbed = true)
    (hreply : ∀ other, reply = some other → other.status ≠ 200) :
    Replies keyId blinded id reply s := by
  refine ⟨hunanswered, fun other hother h => absurd h (hreply other hother), fun hquiet => ?_⟩
  rw [hdisturbed] at hquiet
  cases hquiet

/-- An operation of the exchange fails with a disturbance, or the exchange goes on. -/
theorem safe_orFail {failure : Daemon.Outcome} {answer : Daemon.Waited α}
    {next : α → Daemon.Relay Daemon.Exchanged}
    (hfail : (∀ a, answer ≠ some (some (some a))) → s.reply = none ∧ s.disturbed = true)
    (hnext : ∀ a, answer = some (some (some a)) →
      Safe keyId blinded id request .frontend (Told keyId blinded id) (onRelay (next a)) s) :
    Safe keyId blinded id request .frontend (Told keyId blinded id)
      (onRelay (Daemon.orFail failure answer next)) s := by
  rcases answer with _ | _ | _ | a
  case some.some.some => exact hnext a rfl
  all_goals
    obtain ⟨hunanswered, hdisturbed⟩ := hfail fun _ h => by cases h
    exact told_of_disturbed hunanswered hdisturbed fun _ h => by cases h

theorem safe_connect (hfronting : Fronting sent s) :
    Safe keyId blinded id request .frontend
      (fun answer s => Fronting sent s ∧
        ((∀ a, answer ≠ some (some (some a))) → s.disturbed = true))
      (act (.relay .connect)) s := by
  refine guarded_perform fun s₁ hrely hinv answer s₂ hresponds => ?_
  have hfronting' := hfronting.stable hrely
  obtain rfl : s₂ = if answer = some (some (some ())) then s₁ else s₁.disturb := hresponds
  split_ifs with hanswer
  · exact ⟨hinv, guarantee_refl .frontend s₁, hfronting', fun h => absurd hanswer (h ())⟩
  · exact ⟨hinv.disturb, guarantee_disturb .frontend s₁, ⟨hfronting'.1, hfronting'.2⟩,
      fun _ => rfl⟩

/-- The frontend writes the request safely. -/
theorem safe_writeWorker (hfronting : Fronting [] s) :
    Safe keyId blinded id request .frontend
      (fun answer s => s.reply = none ∧ if answer = some (some (some ())) then
        Fronting (encodeRequest keyId blinded) s else s.disturbed = true)
      (act (.relay (.writeWorker (encodeRequest keyId blinded)))) s := by
  refine guarded_perform fun s₁ hrely hinv answer s₂ hresponds => ?_
  have hfronting' := hfronting.stable hrely
  obtain ⟨stream, ⟨part, hpart, hwhole, rfl⟩, rfl⟩ := hresponds
  refine ⟨hinv.writeWorker (by rw [hfronting'.toWorker]) (by rwa [hfronting'.toWorker]),
    guarantee_frontend rfl rfl (fun _ h => h) fun hquiet => (Bool.or_eq_false_iff.mp hquiet).1,
    hfronting'.unanswered, ?_⟩
  split_ifs with hanswer
  · refine ⟨?_, hfronting'.unanswered⟩
    rw [hwhole (decide_eq_true hanswer), hfronting'.toWorker]
    rfl
  · change (s₁.disturbed || !decide (answer = some (some (some ())))) = true
    rw [decide_eq_false hanswer, Bool.not_false, Bool.or_true]

theorem safe_shutdownWorker (hfronting : Fronting (encodeRequest keyId blinded) s) :
    Safe keyId blinded id request .frontend
      (fun answer s => s.reply = none ∧
        ((∀ a, answer ≠ some (some (some a))) → s.disturbed = true))
      (act (.relay .shutdownWorker)) s := by
  refine guarded_perform fun s₁ hrely hinv answer s₂ hresponds => ?_
  have hfronting' := hfronting.stable hrely
  obtain rfl : s₂ = if answer = some (some (some ())) then
    { s₁ with toWorker := Wires.close s₁.toWorker } else s₁.disturb := hresponds
  split_ifs with hanswer
  · exact ⟨hinv.closeWorker fun _ => by rw [hfronting'.toWorker],
      guarantee_frontend rfl rfl (fun _ h => h) fun hquiet => hquiet, hfronting'.unanswered,
      fun h => absurd hanswer (h ())⟩
  · exact ⟨hinv.disturb, guarantee_disturb .frontend s₁, hfronting'.unanswered, fun _ => rfl⟩

theorem length_workerReply_le (decision : Decision) :
    (workerReply decision).length ≤ responseBytes + 1 := by
  cases decision with
  | none => decide
  | some evaluation => exact (congrArg (· + 1) (length_encodeResponse evaluation)).le

/-- The reader asks for more than any reply has. -/
theorem Faithful.length_fromWorker (h : Faithful keyId blinded id request s) :
    s.fromWorker.sent.length ≤ responseBytes + 1 := by
  obtain hsent | ⟨evaluation, -, hsent⟩ := h.fromWorker
  · exact hsent.length_le.trans (length_workerReply_le none)
  · exact hsent.length_le.trans (length_workerReply_le (some evaluation))

/-- A reply that the frontend accepts is that of an evaluation of the client's point. -/
theorem Faithful.made_of_checkReply (h : Faithful keyId blinded id request s) {body : Bytes}
    (hcheck : Daemon.checkReply s.fromWorker.sent = .ok body) :
    ∃ evaluation, Made keyId blinded id s.evaluated evaluation ∧
      body = encodeResponse evaluation := by
  obtain ⟨accepted, hsent, hbody⟩ := Daemon.checkReply_eq_ok.mp hcheck
  obtain hrefusal | ⟨evaluation, hmade, hreply⟩ := h.fromWorker
  · rw [hsent] at hrefusal
    cases (List.cons_prefix_cons.mp hrefusal).1
  · rw [hsent] at hreply
    have hcut := (List.cons_prefix_cons.mp hreply).2
    rw [decodeResponse_prefixed hcut (decodeResponse_eq_some.mpr rfl)] at hbody
    exact ⟨evaluation, hmade, hbody⟩

theorem exchangedOf_workerReply (decision : Decision) :
    exchangedOf decision (some (some (Daemon.checkReply (workerReply decision)))) := by
  cases decision with
  | none => exact ⟨.refused, rfl⟩
  | some evaluation =>
    exact congrArg (some ∘ some) (Daemon.checkReply_eq_ok.mpr ⟨evaluation, rfl, rfl⟩)

/-- The frontend reads the worker's reply safely. -/
theorem safe_readWorker (hunanswered : s.reply = none) :
    Safe keyId blinded id request .frontend
      (fun answer s => (s.reply = none ∧
          ((∀ a, answer ≠ some (some (some a))) → s.disturbed = true)) ∧
        ∀ bytes, answer = some (some (some bytes)) →
          Told keyId blinded id (some (some (Daemon.checkReply bytes))) s)
      (act (.relay (.readWorker (responseBytes + 2)))) s := by
  refine guarded_perform fun s₁ hrely hinv answer s₂ hresponds => ?_
  have hunanswered' : s₁.reply = none := hrely.2.2.trans hunanswered
  rcases answer with _ | _ | _ | bytes
  case some.some.some =>
    obtain ⟨rfl, rfl, hend⟩ := hresponds
    have hlength := hinv.length_fromWorker
    have hclosed : s₂.fromWorker.closed = true := hend.resolve_right (by omega)
    refine ⟨hinv, guarantee_refl .frontend s₂, ⟨hunanswered', fun h => absurd rfl (h _)⟩, ?_⟩
    rintro _ ⟨⟩
    rw [List.take_of_length_le (by omega)]
    refine ⟨hunanswered', fun response hok => ?_, fun hquiet => ?_⟩
    · exact hinv.made_of_checkReply (Option.some.inj (Option.some.inj hok))
    · obtain ⟨decision, hsettled, hsent⟩ := hinv.decided hquiet hclosed
      rw [hsent]
      exact ⟨decision, hsettled, exchangedOf_workerReply decision⟩
  all_goals
    obtain rfl : s₂ = s₁.disturb := hresponds
    exact ⟨hinv.disturb, guarantee_disturb .frontend s₁, ⟨hunanswered', fun _ => rfl⟩,
      fun _ h => by cases h⟩

/-- The frontend's exchange is safe. -/
theorem safe_exchange (hfronting : Fronting [] s) :
    Safe keyId blinded id request .frontend (Told keyId blinded id)
      (onRelay (Daemon.Relay.exchange (encodeRequest keyId blinded))) s := by
  unfold Daemon.Relay.exchange
  rw [onRelay_call_bind]
  refine Guarded.bind (safe_connect hfronting) fun answer s₁ hanswer => ?_
  obtain ⟨hfronting, hfail⟩ := hanswer
  refine safe_orFail (fun h => ⟨hfronting.unanswered, hfail h⟩) fun _ _ => ?_
  rw [onRelay_call_bind]
  refine Guarded.bind (safe_writeWorker hfronting) fun answer s₂ hanswer => ?_
  obtain ⟨hunanswered, hanswer⟩ := hanswer
  refine safe_orFail (fun h => ⟨hunanswered, ?_⟩) fun _ hok => ?_
  · rwa [if_neg (h ())] at hanswer
  rw [if_pos hok] at hanswer
  rw [onRelay_call_bind]
  refine Guarded.bind (safe_shutdownWorker hanswer) fun answer s₃ hanswer => ?_
  refine safe_orFail (fun h => ⟨hanswer.1, hanswer.2 h⟩) fun _ _ => ?_
  rw [onRelay_call_bind]
  refine Guarded.bind (safe_readWorker hanswer.1) fun answer s₄ hanswer => ?_
  exact safe_orFail (fun h => ⟨hanswer.1.1, hanswer.1.2 h⟩) fun bytes hok => hanswer.2 bytes hok

/-- The future was dropped, or the reply is no success. -/
theorem safe_asideThen {task : Daemon.Task α} {reply : Option Reply} (htask : task.All Aside)
    (h : Replies keyId blinded id reply s) :
    Safe keyId blinded id request .frontend (Replies keyId blinded id)
      (frontendTask (task >>= fun _ => pure reply)) s := by
  rw [frontendTask_bind]
  exact Guarded.bind (safe_aside (frontendTask_aside htask) Replies.stable h) fun _ _ h => h

/-- The reply to an exchange. -/
def replyOfExchange : Daemon.Exchanged → Option Reply
  | none => none
  | some (some (.ok response)) => some ⟨200, some response⟩
  | some _ => some (.ofStatus 503)

/-- The reply says what the frontend knows. -/
theorem Told.replies (h : Told keyId blinded id answer s) :
    Replies keyId blinded id (replyOfExchange answer) s := by
  refine ⟨h.unanswered, fun reply hreply hstatus => ?_, fun hquiet => ?_⟩
  · rcases answer with _ | _ | reason | response
    · cases hreply
    · cases hreply
      cases hstatus
    · cases hreply
      cases hstatus
    · cases hreply
      obtain ⟨evaluation, hmade, hresponse⟩ := h.made response rfl
      exact ⟨evaluation, hmade, congrArg some hresponse⟩
  · obtain ⟨decision, hsettled, hanswer⟩ := h.settled hquiet
    cases decision with
    | none =>
      obtain ⟨reason, rfl⟩ := hanswer
      exact ⟨none, hsettled, rfl⟩
    | some evaluation =>
      cases hanswer
      exact ⟨some evaluation, hsettled, rfl⟩

/-- The relay is safe. -/
theorem safe_relayReply (hfronting : Fronting [] s) :
    Safe keyId blinded id request .frontend (Replies keyId blinded id)
      (frontendTask (Daemon.relayReply (encodeRequest keyId blinded))) s := by
  unfold Daemon.relayReply
  rw [frontendTask_bind]
  refine Guarded.bind (safe_aside (frontendTask_aside (newTimer_aside .ipc)) Fronting.stable
    hfronting) fun timer s₁ hfronting => ?_
  rw [frontendTask_bind, frontendTask_perform]
  refine Guarded.bind (safe_exchange hfronting) fun answer s₂ htold => ?_
  rcases answer with _ | _ | reason | response
  · exact safe_asideThen (Timer.drop_aside timer) htold.replies
  · exact safe_asideThen (Timer.finish_aside timer _) htold.replies
  · dsimp only
    rw [frontendTask_bind]
    exact Guarded.bind (safe_aside (frontendTask_aside (reportReply_aside reason)) Told.stable
      htold) fun _ _ htold => safe_asideThen (Timer.finish_aside timer _) htold.replies
  · exact safe_asideThen (Timer.finish_aside timer _) htold.replies

/-- The body that the frontend reads. -/
def Got (keyId : Vector UInt8 32) (blinded : PointBytes) (answer : Option (Option Bytes))
    (s : Wires) : Prop :=
  Fronting [] s ∧
    match answer with
    | some (some bytes) => bytes <+: encodeRequest keyId blinded ∧
      (s.disturbed = false → bytes = encodeRequest keyId blinded)
    | _ => s.disturbed = true

/-- The frontend reads the request's body safely. -/
theorem safe_readBody (hbody : request.body = encodeRequest keyId blinded)
    (hfronting : Fronting [] s) :
    Safe keyId blinded id request .frontend (Got keyId blinded)
      (onRelay (Daemon.implement .readBody)) s := by
  refine guarded_perform fun s₁ hrely hinv answer s₂ hresponds => ?_
  have hfronting' := hfronting.stable hrely
  have hdisturb : Fronting [] s₁.disturb := ⟨hfronting'.toWorker, hfronting'.unanswered⟩
  rcases answer with _ | _ | bytes
  · obtain rfl : s₂ = s₁.disturb := hresponds
    exact ⟨hinv.disturb, guarantee_disturb .frontend s₁, hdisturb, rfl⟩
  · obtain rfl : s₂ = s₁.disturb := hresponds
    exact ⟨hinv.disturb, guarantee_disturb .frontend s₁, hdisturb, rfl⟩
  · obtain ⟨posted, hposted, hcut, hall⟩ := hresponds
    obtain rfl := hinv.posted posted hposted
    rw [hbody] at hcut hall
    obtain ⟨hall, rfl⟩ | rfl := hall
    · exact ⟨hinv, guarantee_refl .frontend s₂, hfronting', hcut, fun _ => hall⟩
    · refine ⟨hinv.disturb, guarantee_disturb .frontend s₁, hdisturb, hcut, fun hquiet => ?_⟩
      cases hquiet

/-- The frontend evaluates a request safely. -/
theorem safe_evaluateReply (hbody : request.body = encodeRequest keyId blinded)
    (hfronting : Fronting [] s) :
    Safe keyId blinded id request .frontend (Replies keyId blinded id)
      (frontendTask (Daemon.evaluateReply (workerWire id).decodeRequest ⟨.evaluate, true⟩)) s := by
  unfold Daemon.evaluateReply
  rw [frontendTask_bind]
  refine Guarded.bind (safe_aside (frontendTask_aside (newTimer_aside .validation)) Fronting.stable
    hfronting) fun timer s₁ hfronting => ?_
  rw [if_pos rfl, frontendTask_bind, frontendTask_perform]
  refine Guarded.bind (safe_readBody hbody hfronting) fun answer s₂ hgot => ?_
  obtain ⟨hfronting, hgot⟩ := hgot
  rcases answer with _ | _ | bytes
  · refine safe_asideThen (Timer.drop_aside timer)
      (replies_of_disturbed hfronting.unanswered hgot ?_)
    rintro _ ⟨⟩
  · refine safe_asideThen (Timer.finish_aside timer _)
      (replies_of_disturbed hfronting.unanswered hgot ?_)
    rintro _ ⟨⟩
    decide
  · obtain ⟨hcut, hquiet⟩ := hgot
    dsimp only
    obtain ⟨hdecode, hall⟩ | ⟨hdecode, rfl⟩ := decodeRequest_cut id hcut
    · rw [hdecode, Option.isSome_none, if_neg Bool.false_ne_true]
      refine safe_asideThen (Timer.finish_aside timer _)
        (replies_of_disturbed hfronting.unanswered ?_ ?_)
      · exact Bool.of_not_eq_false fun h => hall (hquiet h)
      · rintro _ ⟨⟩
        decide
    · rw [hdecode, Option.isSome_some, if_pos rfl, frontendTask_bind]
      exact Guarded.bind (safe_aside (frontendTask_aside (Timer.finish_aside timer _))
        Fronting.stable hfronting) fun _ _ hfronting => safe_relayReply hfronting

/-- The frontend's next reply is safe. -/
theorem safe_nextReply (hseen : seen request = ⟨.evaluate, true⟩)
    (hbody : request.body = encodeRequest keyId blinded) (hfronting : Fronting [] s) :
    Safe keyId blinded id request .frontend (Replies keyId blinded id)
      (frontendTask (nextReply id)) s := by
  have hnext : Safe keyId blinded id request .frontend
      (fun answer s => Fronting [] s ∧ (answer = some (.request ⟨.evaluate, true⟩) ∨
        (∀ other, answer ≠ some (.request other)) ∧ s.disturbed = true))
      (onRelay (Daemon.implement .nextRequest)) s := by
    refine guarded_perform fun s₁ hrely hinv answer s₂ hresponds => ?_
    have hfronting' := hfronting.stable hrely
    rcases answer with _ | other | reason
    case some.request =>
      obtain ⟨rfl, posted, hposted, rfl⟩ := hresponds
      obtain rfl := hinv.posted posted hposted
      exact ⟨hinv, guarantee_refl .frontend s₂, hfronting', .inl (by rw [hseen])⟩
    all_goals
      obtain rfl : s₂ = s₁.disturb := hresponds
      refine ⟨hinv.disturb, guarantee_disturb .frontend s₁,
        ⟨hfronting'.toWorker, hfronting'.unanswered⟩, .inr ⟨fun _ h => ?_, rfl⟩⟩
      cases h
  unfold nextReply
  rw [frontendTask_bind, frontendTask_perform]
  refine Guarded.bind hnext fun answer s₁ hanswer => ?_
  obtain ⟨hfronting, rfl | ⟨hother, hdisturbed⟩⟩ := hanswer
  · exact safe_evaluateReply hbody hfronting
  · have hnone : Replies keyId blinded id none s₁ :=
      replies_of_disturbed hfronting.unanswered hdisturbed fun _ h => by cases h
    rcases answer with _ | other | reason
    · exact hnone
    · exact absurd rfl (hother other)
    · exact hnone

/-- The frontend is safe. -/
theorem safe_frontendProcess (hseen : seen request = ⟨.evaluate, true⟩)
    (hbody : request.body = encodeRequest keyId blinded) (hfronting : Fronting [] s) :
    Safe keyId blinded id request .frontend (fun _ _ => True) (frontendProcess id) s := by
  refine Guarded.bind (safe_nextReply hseen hbody hfronting) fun answer s₁ hreplies => ?_
  cases answer with
  | none => trivial
  | some reply =>
    refine Guarded.bind (guarded_perform fun s₂ hrely hinv _ s₃ hresponds => ?_) fun _ _ h => h
    have hreplies' := hreplies.stable hrely
    obtain rfl : s₃ = { s₂ with reply := some reply } := hresponds
    refine ⟨hinv.respond (hreplies'.made reply rfl) fun hquiet => ?_, ?_, trivial⟩
    · obtain ⟨decision, hsettled, hreply⟩ := hreplies'.settled hquiet
      exact ⟨decision, hsettled, Option.some.inj hreply⟩
    · refine guarantee_frontend rfl rfl (fun other hother => ?_) fun hquiet => hquiet
      rw [hreplies'.unanswered] at hother
      cases hother

end Frontend

section System

variable {library : Library} {P : Primitives} {endpoints : List Endpoint}
  {provider : HttpsNetworkProvider library} {binding : NetworkBinding} {blinded : PointBytes}
  {id : Vector UInt8 32} {endpoint : ConfiguredEndpoint library} {c : Network}

/-- What a party has at the end. -/
def Ends (keyId : Vector UInt8 32) (blinded : PointBytes) (id : Vector UInt8 32) :
    Party → Option (Except Error Evaluation) → Wires → Prop
  | .client, result, s => Concludes keyId blinded id result s
  | _, _, _ => True

/-- The end of a party stays. -/
theorem Ends.stable {keyId : Vector UInt8 32} {party : Party}
    {result : Option (Except Error Evaluation)} {s s' : Wires}
    (hrely : rely keyId blinded id party s s') (h : Ends keyId blinded id party result s) :
    Ends keyId blinded id party result s' := by
  cases party with
  | client => exact Concludes.stable h hrely
  | frontend => trivial
  | worker => trivial

theorem seen_requestOf (hadmitted : endpoint.Admitted) :
    seen (requestOf binding blinded endpoint) = ⟨.evaluate, true⟩ := by
  have hheaders : endpoint.url.path = evaluatePath ∧ endpoint.url.query = none ∧
      [contentType] = [contentType] ∧ ¬false = true :=
    ⟨hadmitted.path, hadmitted.query, rfl, Bool.false_ne_true⟩
  unfold seen requestOf
  rw [if_pos hadmitted.path, decide_eq_true hheaders]

/-- Every state that is reached is faithful, and every party safe in it. -/
theorem network_safe (hadmitted : endpoint.Admitted)
    (hkey : binding.keyId = Crypto.keyId P binding.publicKey)
    (hget : provider.get binding.providerId = some endpoint)
    (h : System.Reaches responds Eq (network P provider binding blinded id) c) :
    Faithful binding.keyId blinded id (requestOf binding blinded endpoint) c.state ∧
    ∀ party, Safe binding.keyId blinded id (requestOf binding blinded endpoint) party
      (Ends binding.keyId blinded id party) (c.programs party) c.state := by
  refine System.Reaches.guarded rely_trans (fun hne hguarantee => hguarantee _ hne) Ends.stable
    ?_ ?_ ?_ rely_refl h
  · rintro s s' hinv rfl
    exact ⟨hinv, fun party => rely_refl party s⟩
  · refine ⟨?_, List.nil_prefix, Nat.zero_le 1, List.forall_mem_nil _, .inl List.nil_prefix,
      ?_, ?_, ?_, ?_⟩
    · rintro _ ⟨⟩
    · rintro _ ⟨⟩
    · rintro - ⟨⟩
    · rintro - ⟨⟩
    · rintro - _ ⟨⟩
  · intro party
    cases party with
    | client => exact safe_clientProcess hkey hget
    | frontend => exact safe_frontendProcess (seen_requestOf hadmitted) rfl ⟨rfl, rfl⟩
    | worker => exact safe_workerProcess ⟨rfl, rfl, fun _ => trivial⟩

end System

end Leelo.Net
