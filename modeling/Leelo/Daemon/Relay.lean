import Leelo.Core.RelyGuarantee
import Leelo.Daemon.Service
import Leelo.Net.Wire

/-!
# The relay between frontend and worker

The frontend hands a request to the worker over one connection and checks the reply before
it answers the client. The replies are those of the service programs with their bodies, and
the exchange with the worker is a program of its own.
-/

namespace Leelo.Daemon

open Leelo.Core Leelo.Crypto

/-- The operations of the frontend's exchange with the worker. -/
inductive RelayOp where
  | service (op : ServiceOp)
  | connect
  | writeWorker (bytes : Bytes)
  | shutdownWorker
  | readWorker (limit : Nat)

/-- Awaited operations of an exchange: `none` if the connection was dropped, `some none` if the
deadline of the exchange passed, and otherwise what the operation gives. -/
abbrev Waited (α : Type) := Option (Option (Option α))

/-- The answer to each operation; a deadline covers those that wait. -/
abbrev RelayOp.Ans : RelayOp → Type
  | .service op => op.Ans
  | .connect => Waited Unit
  | .writeWorker _ => Waited Unit
  | .shutdownWorker => Waited Unit
  | .readWorker _ => Waited Bytes

/-- A program over the exchange. -/
abbrev Relay := Program RelayOp RelayOp.Ans

/-- A single operation of the exchange. -/
def relayCall (op : RelayOp) : Relay op.Ans := Program.perform op

/-- What the whole exchange gives. -/
abbrev Exchanged := Option (Option (Except Outcome Bytes))

/-- Go on after an awaited operation that may fail with one outcome. -/
def orFail {α : Type} (failure : Outcome) (answer : Waited α) (next : α → Relay Exchanged) :
    Relay Exchanged :=
  match answer with
  | none => return none
  | some none => return some none
  | some (some none) => return some (some (.error failure))
  | some (some (some a)) => next a

/-- A refusal, nothing, or a whole response after a zero. -/
def checkReply (response : Bytes) : Except Outcome Bytes :=
  if response = [1] then .error .refused
  else if response = [] then .error .eof
  else if response.length ≠ Net.responseBytes + 1 ∨ response.head? ≠ some 0 ∨
      (Net.decodeResponse (response.drop 1)).isNone then .error .frame
  else .ok (response.drop 1)

/-- A reply is accepted exactly where it is an evaluation after a zero byte. -/
theorem checkReply_eq_ok {response body : Bytes} : checkReply response = .ok body ↔
    ∃ evaluation, response = 0 :: Net.encodeResponse evaluation ∧
      body = Net.encodeResponse evaluation := by
  constructor
  · intro h
    unfold checkReply at h
    split_ifs at h with hrefused hempty hframe
    obtain ⟨-, hhead, hdecode⟩ : _ ∧ response.head? = some 0 ∧ _ := by
      simpa only [not_or, not_not] using hframe
    obtain ⟨evaluation, hdecode⟩ :=
      Option.ne_none_iff_exists'.mp fun hnone => hdecode (Option.isNone_iff_eq_none.mpr hnone)
    obtain ⟨rest, rfl⟩ := List.head?_eq_some_iff.mp hhead
    have hrest : rest = Net.encodeResponse evaluation := Net.decodeResponse_eq_some.mp hdecode
    cases h
    exact ⟨evaluation, by rw [hrest], hrest⟩
  · rintro ⟨evaluation, rfl, rfl⟩
    have hlength : (0 :: Net.encodeResponse evaluation).length = Net.responseBytes + 1 :=
      congrArg (· + 1) (Net.length_encodeResponse evaluation)
    have hdecode : Net.decodeResponse (Net.encodeResponse evaluation) = some evaluation :=
      Net.decodeResponse_eq_some.mpr rfl
    have hrefused : (0 :: Net.encodeResponse evaluation) ≠ [1] := by
      intro h
      cases (List.cons.inj h).1
    unfold checkReply
    rw [if_neg hrefused, if_neg (List.cons_ne_nil _ _), if_neg]
    · rfl
    · rintro (h | h | h)
      · exact h hlength
      · exact h rfl
      · rw [List.drop_succ_cons, List.drop_zero, hdecode] at h
        cases h

/-- One exchange: connect, write, close the writing half, read the reply. -/
def Relay.exchange (request : Bytes) : Relay Exchanged := do
  orFail .connect (← relayCall .connect) fun _ => do
  orFail .write (← relayCall (.writeWorker request)) fun _ => do
  orFail .write (← relayCall .shutdownWorker) fun _ => do
  orFail .read (← relayCall (.readWorker (Net.responseBytes + 2))) fun response =>
  return some (some (checkReply response))

/-- Each operation of the service as it is, and the exchange by its program. -/
def implement : (op : ServiceOp) → Relay op.Ans
  | .exchange request => Relay.exchange request
  | op => relayCall (.service op)

/-- A status and, of a success, the message. -/
structure Reply where
  status : Nat
  body : Option Bytes

/-- A reply without a body. -/
def Reply.ofStatus (status : Nat) : Reply := ⟨status, none⟩

section Replies

variable (decodeRequest : Bytes → Option Request)

/-- Relays a request to the worker, with the reply's body. -/
def relayReply (bytes : Bytes) : Task (Option Reply) := do
  let timer ← newTimer .ipc
  match ← perform (.exchange bytes) with
  | none =>
    timer.drop
    return none
  | some (some (.ok response)) =>
    timer.finish .success
    return some ⟨200, some response⟩
  | some (some (.error reason)) =>
    reportReply reason
    timer.finish reason
    return some (.ofStatus 503)
  | some none =>
    timer.finish .timeout
    return some (.ofStatus 503)

/-- Validates a request and relays it, with the reply's body. -/
def evaluateReply (request : HttpRequest) : Task (Option Reply) := do
  let timer ← newTimer .validation
  if request.validHeaders then
    match ← perform .readBody with
    | none =>
      timer.drop
      return none
    | some none =>
      timer.finish .body
      return some (.ofStatus 400)
    | some (some bytes) =>
      if (decodeRequest bytes).isSome then
        timer.finish .success
        relayReply bytes
      else
        timer.finish .frame
        return some (.ofStatus 400)
  else
    timer.finish .headers
    return some (.ofStatus 400)

/-- Routes a request, with the reply's body. -/
def routeReply (request : HttpRequest) : Task (Option Reply) :=
  match request.route with
  | .notFound => return some (.ofStatus 404)
  | .methodNotAllowed => return some (.ofStatus 405)
  | .evaluate => evaluateReply decodeRequest request

/-- Forgetting the body commutes with what comes before. -/
private theorem bind_status {α : Type} {p : Task α} {f : α → Task (Option Reply)}
    {g : α → Task (Option Nat)}
    (h : ∀ a, g a = (f a >>= fun reply => pure (reply.map Reply.status))) :
    (p >>= g) = ((p >>= f) >>= fun reply => pure (reply.map Reply.status)) := by
  rw [Program.bind_assoc, funext h]

theorem relay_eq (bytes : Bytes) :
    relay bytes = relayReply bytes >>= fun reply => pure (reply.map Reply.status) := by
  refine bind_status fun timer => bind_status fun answer => ?_
  rcases answer with _ | _ | reason | response
  · exact bind_status fun _ => rfl
  · exact bind_status fun _ => rfl
  · exact bind_status fun _ => bind_status fun _ => rfl
  · exact bind_status fun _ => rfl

theorem evaluateRequest_eq (request : HttpRequest) : evaluateRequest decodeRequest request =
    evaluateReply decodeRequest request >>= fun reply => pure (reply.map Reply.status) := by
  refine bind_status fun timer => ?_
  cases request.validHeaders with
  | false => exact bind_status fun _ => rfl
  | true =>
    refine bind_status fun answer => ?_
    rcases answer with _ | _ | bytes
    · exact bind_status fun _ => rfl
    · exact bind_status fun _ => rfl
    · dsimp only
      split_ifs
      · exact bind_status fun _ => relay_eq bytes
      · exact bind_status fun _ => rfl

theorem route_eq (request : HttpRequest) : route decodeRequest request =
    routeReply decodeRequest request >>= fun reply => pure (reply.map Reply.status) := by
  unfold route routeReply
  cases request.route with
  | notFound => rfl
  | methodNotAllowed => rfl
  | evaluate => exact evaluateRequest_eq decodeRequest request

end Replies

end Leelo.Daemon
