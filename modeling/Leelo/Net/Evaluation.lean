import Leelo.Daemon.Relay
import Leelo.Net.Client

/-!
# One evaluation across three processes

The client, the frontend and the worker run interleaved over byte streams. A stream carries
what its writer wrote, an operation that fails may have written a part, a reader may be cut
off at any byte, and every await may end at a deadline. The client only accepts the
evaluation that the worker made of the client's own point.
-/

namespace Leelo.Net

open Leelo.Core Leelo.Crypto Leelo.Envelope
open Leelo.Daemon (ServiceOp RelayOp Reply HttpRequest)

/-- The parties of an evaluation. -/
inductive Party where
  | client
  | frontend
  | worker
  deriving DecidableEq

/-- A stream from its writer, and whether the writer has closed it. -/
structure Stream where
  sent : Bytes
  closed : Bool

/-- The request and the reply between client and frontend, the streams between frontend and
worker, the evaluations, and whether any operation failed or was cut off. -/
structure Wires where
  posted : Option Posted
  toWorker : Stream
  fromWorker : Stream
  evaluated : List (Bytes × Except Daemon.CryptoError Bytes)
  reply : Option Reply
  disturbed : Bool

/-- The operations of the parties. -/
inductive PartyOp where
  | client (op : ClientOp)
  | relay (op : RelayOp)
  | respond (reply : Reply)
  | hangUp

/-- The answer to each operation. -/
abbrev PartyOp.Ans : PartyOp → Type
  | .client op => op.Ans
  | .relay op => op.Ans
  | .respond _ => Unit
  | .hangUp => Unit

/-- The program of a party. -/
abbrev Process := Program PartyOp PartyOp.Ans

/-- A single operation. -/
def act (op : PartyOp) : Process op.Ans := Program.perform op

/-- The public bytes of an evaluation without the header. -/
def rawBytes (evaluation : Evaluation) : Bytes :=
  evaluation.element.toList ++ evaluation.proof.toList

/-- The codec as the worker uses it. -/
def workerWire (id : Vector UInt8 32) : Daemon.Wire where
  decodeRequest bytes := (decodeRequest bytes).map fun request =>
    ⟨request.keyId.toList, request.point.toList⟩
  encodeResponse raw := header ++ raw
  id := id.toList

/-- What the router and the handler look at. -/
def seen (request : Posted) : HttpRequest where
  route := if request.url.path = evaluatePath then .evaluate else .notFound
  validHeaders := request.url.path = evaluatePath ∧ request.url.query = none ∧
    request.contentTypes = [contentType] ∧ ¬request.contentEncoded

/-- The head of a reply. -/
def Shows (head : Head) (reply : Reply) : Prop :=
  head.status = reply.status ∧ head.contentEncoded = false ∧
    head.contentTypes = reply.body.toList.map (fun _ => some contentType) ∧
    ∀ length, head.contentLength = some length → length = (reply.body.getD []).length

namespace Wires

variable (s : Wires)

/-- Something went wrong on the way. -/
def disturb : Wires := { s with disturbed := true }

/-- More bytes on a stream. -/
def write (stream : Stream) (bytes : Bytes) : Stream := { stream with sent := stream.sent ++ bytes }

/-- A stream closed by its sender. -/
def close (stream : Stream) : Stream := { stream with closed := true }

end Wires

/-- All of the bytes were written, or the operation failed after a part of them. -/
def Writes (whole : Bool) (bytes : Bytes) (stream stream' : Stream) : Prop :=
  ∃ part, part <+: bytes ∧ (whole = true → part = bytes) ∧ stream' = Wires.write stream part

/-- A reader has everything, or was cut off. -/
def Receives (bytes all : Bytes) (s s' : Wires) : Prop :=
  bytes <+: all ∧ ((bytes = all ∧ s' = s) ∨ s' = s.disturb)

/-- What the client's operations may answer. -/
def clientResponds : (op : ClientOp) → Wires → op.Ans → Wires → Prop
  | .post request, s, _, s' => s' = { s with posted := some request }
  | .head, s, answer, s' =>
    match answer with
    | some (.ok head) => s' = s ∧ ∃ reply, s.reply = some reply ∧ Shows head reply
    | _ => s' = s.disturb
  | .chunks, s, answer, s' => ∃ reply, s.reply = some reply ∧
    match answer.2 with
    | .complete => Receives answer.1.flatten (reply.body.getD []) s s'
    | _ => answer.1.flatten <+: reply.body.getD [] ∧ s' = s.disturb
  | _, s, _, s' => s' = s

/-- What the frontend's operations may answer. -/
def frontendResponds : (op : RelayOp) → Wires → op.Ans → Wires → Prop
  | .service .nextRequest, s, answer, s' =>
    match answer with
    | some (.request request) =>
      s' = s ∧ ∃ posted, s.posted = some posted ∧ request = seen posted
    | _ => s' = s.disturb
  | .service .readBody, s, answer, s' =>
    match answer with
    | some (some bytes) => ∃ posted, s.posted = some posted ∧ Receives bytes posted.body s s'
    | _ => s' = s.disturb
  | .service _, s, _, s' => s' = s
  | .connect, s, answer, s' => s' = if answer = some (some (some ())) then s else s.disturb
  | .writeWorker bytes, s, answer, s' => ∃ stream,
    Writes (answer = some (some (some ()))) bytes s.toWorker stream ∧
      s' = { s with
        toWorker := stream
        disturbed := s.disturbed || !decide (answer = some (some (some ()))) }
  | .shutdownWorker, s, answer, s' =>
    s' = if answer = some (some (some ())) then { s with toWorker := Wires.close s.toWorker }
      else s.disturb
  | .readWorker limit, s, answer, s' =>
    match answer with
    | some (some (some bytes)) => s' = s ∧ bytes = s.fromWorker.sent.take limit ∧
      (s.fromWorker.closed ∨ limit ≤ s.fromWorker.sent.length)
    | _ => s' = s.disturb

/-- What the worker's operations may answer. -/
def workerResponds : (op : ServiceOp) → Wires → op.Ans → Wires → Prop
  | .read, s, answer, s' =>
    match answer with
    | some (some bytes) =>
      (s.toWorker.closed ∧ bytes = s.toWorker.sent.take (requestBytes + 1) ∧ s' = s) ∨
        (bytes <+: s.toWorker.sent ∧ s' = s.disturb)
    | _ => s' = s.disturb
  | .evaluate point, s, answer, s' =>
    (∀ raw, answer = .ok raw → ∃ evaluation, raw = rawBytes evaluation) ∧
      s' = { s with evaluated := s.evaluated ++ [(point, answer)] }
  | .write bytes, s, answer, s' => ∃ stream,
    Writes (answer = some true) bytes s.fromWorker stream ∧
      s' = { s with
        fromWorker := stream
        disturbed := s.disturbed || !decide (answer = some true) }
  | .shutdown, s, answer, s' =>
    s' = if answer = some true then { s with fromWorker := Wires.close s.fromWorker }
      else s.disturb
  | _, s, _, s' => s' = s

/-- What each party's operations may answer. -/
def responds : Party → Program.Behaviour PartyOp PartyOp.Ans Wires
  | .client, .client op, s, answer, s' => clientResponds op s answer s'
  | .frontend, .relay op, s, answer, s' => frontendResponds op s answer s'
  | .frontend, .respond reply, s, _, s' => s' = { s with reply := some reply }
  | .worker, .relay (.service op), s, answer, s' => workerResponds op s answer s'
  | .worker, .hangUp, s, _, s' => s' = { s with fromWorker := Wires.close s.fromWorker }
  | _, _, _, _, _ => False

section Processes

variable {library : Library} (P : Primitives) (provider : HttpsNetworkProvider library)
  (binding : NetworkBinding) (blinded : PointBytes) (id : Vector UInt8 32)

/-- The client. -/
def clientProcess : Process (Option (Except Error Evaluation)) := do
  let result ← (evaluateBefore P provider binding blinded).expand fun op =>
    act (.client op)
  return some result

/-- The reply of the router to the next request. -/
def nextReply : Daemon.Task (Option Reply) := do
  match ← Daemon.perform .nextRequest with
  | some (.request request) => Daemon.routeReply (workerWire id).decodeRequest request
  | _ => return none

/-- A relay's program as a process. -/
def onRelay {α : Type} (task : Daemon.Relay α) : Process α :=
  task.expand fun op => act (.relay op)

/-- The frontend, for one request. -/
def frontendProcess : Process (Option (Except Error Evaluation)) := do
  match ← onRelay ((nextReply id).expand Daemon.implement) with
  | none => return none
  | some reply =>
    act (.respond reply)
    return none

/-- The worker, for one request. -/
def workerProcess : Process (Option (Except Error Evaluation)) := do
  let wire := workerWire id
  let _ ← onRelay ((Daemon.handle wire.decodeRequest wire.encodeResponse wire.id).expand fun op =>
    Daemon.relayCall (.service op))
  act .hangUp
  return none

/-- The three parties and what is between them. -/
abbrev Network := System Party PartyOp PartyOp.Ans (Option (Except Error Evaluation)) Wires

/-- Nothing has been sent yet. -/
def network : Network where
  programs
    | .client => clientProcess P provider binding blinded
    | .frontend => frontendProcess id
    | .worker => workerProcess id
  state := ⟨none, ⟨[], false⟩, ⟨[], false⟩, [], none, false⟩

end Processes

end Leelo.Net
