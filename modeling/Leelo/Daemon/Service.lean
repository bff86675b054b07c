import Leelo.Core.Cbor
import Leelo.Daemon.Limiter
import Leelo.Daemon.Metrics

/-!
# Connections of the daemon

What the worker and the TLS frontend do with a connection, from its acceptance to the end of
its task, as programs over the counters, the permits and the environment. The answer of an
awaited operation says whether a deadline dropped the future that waits. A dropped future
drops its timers, and a timer that is dropped before it is finished records a cancellation.
-/

namespace Leelo.Daemon

open Leelo.Core

/-- What the credentials of a peer say. -/
inductive PeerCred where
  | allowed
  | other
  | failed
  deriving DecidableEq

/-- The classes of errors of an evaluation. -/
inductive CryptoError where
  | invalidEncoding
  | randomness
  | other
  deriving DecidableEq

/-- The decoded request. -/
structure Request where
  keyId : Bytes
  point : Bytes

/-- How a handshake ends. -/
inductive TlsResult where
  | success
  | failed
  | timeout
  deriving DecidableEq

/-- How the HTTP library ends a connection. -/
inductive ConnectionEnd where
  | success
  | timeout
  | parse
  | incompleteMessage
  | other
  deriving DecidableEq

/-- Where a request goes. -/
inductive Route where
  | notFound
  | methodNotAllowed
  | evaluate
  deriving DecidableEq

/-- A request as the router sees it, and whether its path, query and headers are those of an
evaluation. -/
structure HttpRequest where
  route : Route
  validHeaders : Bool

/-- Connections are not kept alive, so there is one request at most. -/
inductive HttpEvent where
  | request (request : HttpRequest)
  | closed (reason : ConnectionEnd)

/-- The operations of a service's tasks: metrics, permits, sockets, clock. -/
inductive ServiceOp where
  | listen
  | acceptError (error : AcceptClass)
  | storeRetrying (value : UInt64)
  | sleep
  | accepted
  | peerCred
  | tryAcquire
  | admission (result : Admission)
  | enter
  | resume
  | event (notice : Notice)
  | now (stage : Stage)
  | elapsed (start : Nat)
  | addCompletion (stage : Stage) (outcome : Outcome)
  | addDuration (stage : Stage) (bucket : Fin 13)
  | addDurationSum (stage : Stage) (nanoseconds : UInt64)
  | leave
  | release
  | read
  | evaluate (point : Bytes)
  | write (bytes : Bytes)
  | shutdown
  | acceptTls
  | nextRequest
  | readBody
  | exchange (request : Bytes)
  | httpStatus (status : Nat)
  | closeConnection
  | tryAcquireScraper
  | writeSnapshot
  | snapshotOutcome (outcome : SnapshotOutcome)
  | releaseScraper

/-- In the answer of an awaited operation, `none` is the deadline. -/
abbrev ServiceOp.Ans : ServiceOp → Type
  | .peerCred => PeerCred
  | .tryAcquire => Bool
  | .now _ => Nat
  | .elapsed _ => UInt64
  | .read => Option (Option Bytes)
  | .evaluate _ => Except CryptoError Bytes
  | .write _ => Option Bool
  | .shutdown => Option Bool
  | .acceptTls => Option TlsResult
  | .nextRequest => Option HttpEvent
  | .readBody => Option (Option Bytes)
  /- The worker has a deadline of its own, inside that of the connection. -/
  | .exchange _ => Option (Option (Except Outcome Bytes))
  | .closeConnection => Option ConnectionEnd
  | .tryAcquireScraper => Bool
  | .writeSnapshot => Except Outcome Unit
  | _ => Unit

/-- The program of one task. -/
abbrev Task := Program ServiceOp ServiceOp.Ans

/-- A single operation. -/
def perform (op : ServiceOp) : Task op.Ans := Program.perform op

/-- A timer of one stage; what it did not finish it reports when dropped. -/
structure Timer where
  stage : Stage
  start : Nat
  finished : Bool

/-- Starts a timer. -/
def newTimer (stage : Stage) : Task Timer := do
  let start ← perform (.now stage)
  return ⟨stage, start, false⟩

/-- Counts a stage's end and its duration. -/
def observe (stage : Stage) (outcome : Outcome) (nanoseconds : UInt64) : Task Unit := do
  perform (.addCompletion stage outcome)
  perform (.addDuration stage (bucketOf nanoseconds))
  perform (.addDurationSum stage nanoseconds)

namespace Timer

variable (timer : Timer)

/-- Reports the time since the start. -/
def record (outcome : Outcome) : Task Unit := do
  let nanoseconds ← perform (.elapsed timer.start)
  observe timer.stage outcome nanoseconds

/-- A timer that is dropped unfinished reports a cancellation. -/
def drop : Task Unit := if timer.finished then pure () else timer.record .cancelled

/-- The timer is consumed, so it is dropped at the end. -/
def finish (outcome : Outcome) : Task Unit := do
  timer.record outcome
  { timer with finished := true }.drop

end Timer

section Worker

variable (decodeRequest : Bytes → Option Request) (encodeResponse : Bytes → Bytes) (id : Bytes)

/-- Write, and go on with the rest if nothing fails. -/
def send (bytes : Bytes) (rest : Task (Option Outcome)) : Task (Option Outcome) := do
  match ← perform (.write bytes) with
  | none => return none
  | some false => return some .write
  | some true => rest

/-- Shuts the stream down after a reply. -/
def close (outcome : Outcome) : Task (Option Outcome) := do
  match ← perform .shutdown with
  | none => return none
  | some false => return some .write
  | some true => return some outcome

/-- Refuses a request the worker cannot take. -/
def refuse (validation : Timer) (outcome : Outcome) : Task (Option Outcome) := do
  validation.finish outcome
  send [1] (return some outcome)

/-- The outcome of an evaluation. -/
def evaluationOutcome : Except CryptoError Bytes → Outcome
  | .ok _ => .success
  | .error .invalidEncoding => .invalidPoint
  | .error .randomness => .randomness
  | .error .other => .crypto

/-- The failures of an evaluation that are worth an event. -/
def reportEvaluation (outcome : Outcome) : Task Unit :=
  if outcome = .randomness then
    perform (.event ⟨"evaluation_failed", "crypto", "failure", "randomness"⟩)
  else if outcome = .crypto then
    perform (.event ⟨"evaluation_failed", "crypto", "failure", "cryptographic_operation"⟩)
  else return

/-- Evaluates a point and replies. -/
def evaluation (point : Bytes) : Task (Option Outcome) := do
  let timer ← newTimer .crypto
  let result ← perform (.evaluate point)
  timer.finish (evaluationOutcome result)
  reportEvaluation (evaluationOutcome result)
  match result with
  | .ok response => send [0] (send (encodeResponse response) (close (evaluationOutcome result)))
  | .error _ => send [1] (close (evaluationOutcome result))

/-- The outcome, or none if the deadline dropped the future. -/
def handle : Task (Option Outcome) := do
  let validation ← newTimer .validation
  match ← perform .read with
  | none =>
    validation.drop
    return none
  | some none =>
    validation.drop
    return some .read
  | some (some bytes) =>
    match decodeRequest bytes with
    | none => refuse validation .frame
    | some request =>
      if request.keyId = id then
        validation.finish .success
        evaluation encodeResponse request.point
      else refuse validation .wrongKey

end Worker

section Frontend

variable (decodeRequest : Bytes → Option Request)

/-- The outcome of a connection. -/
def connectionOutcome : ConnectionEnd → Outcome
  | .success => .success
  | .timeout => .timeout
  | .parse => .protocol
  | .incompleteMessage => .eof
  | .other => .io

/-- The outcome that a status stands for. -/
def statusOutcome (status : Nat) : Outcome :=
  if status = 200 then .success
  else if status = 400 then .protocol
  else if status = 404 then .notFound
  else if status = 405 then .method
  else if status = 503 then .unavailable
  else .other

/-- The malformed replies that are worth an event. -/
def reportReply (reason : Outcome) : Task Unit :=
  if reason = .frame ∨ reason = .eof then
    perform (.event ⟨"worker_reply_invalid", "ipc", "failure", "invalid_reply"⟩)
  else return

/-- Relays a request to the worker and gives the status. -/
def relay (bytes : Bytes) : Task (Option Nat) := do
  let timer ← newTimer .ipc
  match ← perform (.exchange bytes) with
  | none =>
    timer.drop
    return none
  | some (some (.ok _)) =>
    timer.finish .success
    return some 200
  | some (some (.error reason)) =>
    reportReply reason
    timer.finish reason
    return some 503
  | some none =>
    timer.finish .timeout
    return some 503

/-- The status of the response, or none if the future was dropped. -/
def evaluateRequest (request : HttpRequest) : Task (Option Nat) := do
  let timer ← newTimer .validation
  if request.validHeaders then
    match ← perform .readBody with
    | none =>
      timer.drop
      return none
    | some none =>
      timer.finish .body
      return some 400
    | some (some bytes) =>
      if (decodeRequest bytes).isSome then
        timer.finish .success
        relay bytes
      else
        timer.finish .frame
        return some 400
  else
    timer.finish .headers
    return some 400

/-- Routes a request. -/
def route (request : HttpRequest) : Task (Option Nat) :=
  match request.route with
  | .notFound => return some 404
  | .methodNotAllowed => return some 405
  | .evaluate => evaluateRequest decodeRequest request

/-- Serves a request under its timer and counts its status. -/
def observeHttp (request : HttpRequest) : Task Unit := do
  let timer ← newTimer .http
  match ← route decodeRequest request with
  | none => timer.drop
  | some status =>
    perform (.httpStatus status)
    timer.finish (statusOutcome status)

/-- Waits for the connection to close. -/
def closeHttp : Task (Option Outcome) := do
  let reason ← perform .closeConnection
  return reason.map connectionOutcome

/-- Serves the one request of a connection. -/
def serveHttp : Task (Option Outcome) := do
  match ← perform .nextRequest with
  | none => return none
  | some (.closed reason) => return some (connectionOutcome reason)
  | some (.request request) =>
    observeHttp decodeRequest request
    closeHttp

/-- The frontend's connection: the handshake, then the request. -/
def connection : Task (Option Outcome) := do
  let tlsTimer ← newTimer .tls
  match ← perform .acceptTls with
  | none =>
    tlsTimer.drop
    return none
  | some .success =>
    tlsTimer.finish .success
    serveHttp decodeRequest
  | some .failed =>
    tlsTimer.finish .protocol
    return some .protocol
  | some .timeout =>
    tlsTimer.finish .timeout
    return some .timeout

end Frontend

/-- More temporary errors while the listener retries. -/
def retryAccept : List AcceptClass → Task Unit
  | [] => return
  | error :: failures => do
    perform (.acceptError error)
    perform .sleep
    retryAccept failures

/-- Accept a connection after some temporary errors. The retry is timed from the first one. -/
def acceptObserved : List AcceptClass → Task Unit
  | [] => perform .accepted
  | error :: failures => do
    perform (.acceptError error)
    perform (.event ⟨"listener_impaired", "listener", "failure", "temporary_accept"⟩)
    perform (.storeRetrying 1)
    let timer ← newTimer .listenerRetry
    perform .sleep
    retryAccept failures
    perform .accepted
    timer.finish .success
    perform (.storeRetrying 0)
    perform (.event ⟨"listener_recovered", "listener", "success", "none"⟩)

/-- The listener counts a connection that it turns away and goes on. -/
def turnAway (result : Admission) (notice : Notice) : Task Unit := do
  perform (.admission result)
  perform (.event notice)
  perform .resume

/-- The task holds the permit and the guard to its end, and drops the guard first. The
listener goes on when it has spawned the task. -/
def spawned (stage : Stage) (body : Task (Option Outcome)) : Task Unit := do
  perform .resume
  let timer ← newTimer stage
  let outcome ← body
  timer.finish (outcome.getD .timeout)
  perform .leave
  perform .release

/-- Admits a connection where a permit is free. -/
def admitOr (notice : Notice) (stage : Stage) (body : Task (Option Outcome)) : Task Unit := do
  if ← perform .tryAcquire then
    perform (.admission .admitted)
    perform .enter
    spawned stage body
  else turnAway .capacity notice

/-- The functions of the wire format, and the identifier of the worker's key. -/
structure Wire where
  decodeRequest : Bytes → Option Request
  encodeResponse : Bytes → Bytes
  id : Bytes

/-- One turn of the worker's accept loop. -/
def workerConnection (wire : Wire) (failures : List AcceptClass) : Task Unit := do
  perform .listen
  acceptObserved failures
  match ← perform .peerCred with
  | .other => turnAway .peer ⟨"worker_peer_denied", "admission", "failure", "peer_uid"⟩
  | .failed =>
    turnAway .peerCheck ⟨"worker_peer_denied", "admission", "failure", "peer_credentials"⟩
  | .allowed =>
    admitOr ⟨"capacity_rejected", "admission", "failure", "capacity"⟩ .worker
      (handle wire.decodeRequest wire.encodeResponse wire.id)

/-- One turn of the frontend's accept loop. -/
def frontendConnection (wire : Wire) (failures : List AcceptClass) : Task Unit := do
  perform .listen
  acceptObserved failures
  admitOr ⟨"capacity_rejected", "connection", "failure", "capacity"⟩ .connection
    (connection wire.decodeRequest)

/-- Counts how writing a snapshot ended. -/
def reportSnapshot (timer : Timer) : Except Outcome Unit → Task Unit
  | .ok _ => do
    perform (.snapshotOutcome .served)
    timer.finish .success
  | .error .timeout => do
    perform (.snapshotOutcome .timeout)
    timer.finish .timeout
  | .error _ => do
    perform (.snapshotOutcome .write)
    timer.finish .write

/-- Writes a snapshot under its timer. -/
def sendSnapshot : Task Unit := do
  let timer ← newTimer .snapshot
  let result ← perform .writeSnapshot
  reportSnapshot timer result
  perform .releaseScraper

/-- A connection on the socket for snapshots, which has permits of its own. -/
def scrape : Task Unit := do
  match ← perform .peerCred with
  | .other => perform (.snapshotOutcome .peer)
  | .failed => perform (.snapshotOutcome .peerCheck)
  | .allowed =>
    if ← perform .tryAcquireScraper then sendSnapshot
    else perform (.snapshotOutcome .capacity)

/-- The stage that spans a connection. -/
def mainStage : Role → Stage
  | .worker => .worker
  | .frontend => .connection

/-- The published limits, which are the numbers of permits. -/
def capacity : Role → UInt64
  | .worker => 8
  | .frontend => 64

/-- The scrapes served at once. -/
def maxScrapers : Nat := 2

/-- A connection with the temporary errors before it, or a scrape. -/
inductive Client where
  | connection (failures : List AcceptClass)
  | scrape

/-- The task of a client. -/
def Client.program (role : Role) (wire : Wire) : Client → Task Unit
  | .connection failures =>
    match role with
    | .worker => workerConnection wire failures
    | .frontend => frontendConnection wire failures
  | .scrape => Daemon.scrape

/-- What the accounts are about. -/
inductive Effect where
  | accepted
  | acquired
  | admission (result : Admission)
  | entered
  | created (stage : Stage)
  | completed (stage : Stage) (outcome : Outcome)
  | observed (stage : Stage) (bucket : Fin 13)
  | left
  | released
  deriving DecidableEq

/-- The effects of an operation that the accounting looks at. -/
def effects : (op : ServiceOp) → op.Ans → List Effect
  | .accepted, _ => [.accepted]
  | .tryAcquire, acquired => if acquired then [.acquired] else []
  | .admission result, _ => [.admission result]
  | .enter, _ => [.entered]
  | .now stage, _ => [.created stage]
  | .addCompletion stage outcome, _ => [.completed stage outcome]
  | .addDuration stage bucket, _ => [.observed stage bucket]
  | .leave, _ => [.left]
  | .release, _ => [.released]
  | _, _ => []

/-- The counters, the permits that are left, whether the listener is at a connection, and
the effects so far. -/
structure Server (ι : Type) where
  metrics : Metrics
  permits : Nat
  scrapers : Nat
  listening : Bool
  log : List (ι × Effect)

/-- The counters after an access. -/
def Metrics.perform (m : Metrics) : ServiceOp → Metrics
  | .acceptError error => m.acceptError error
  | .storeRetrying value => m.storeRetrying value
  | .admission result => m.admission result
  | .enter => m.enter
  | .addCompletion stage outcome => m.addCompletion stage outcome
  | .addDuration stage bucket => m.addDuration stage bucket
  | .addDurationSum stage nanoseconds => m.addDurationSum stage nanoseconds
  | .leave => m.leave
  | .httpStatus status => m.httpStatus status
  | .snapshotOutcome outcome => m.snapshotOutcome outcome
  | _ => m

variable {ι : Type}

namespace Server

/-- The listener waits for nothing but its own turn, and a permit is given while one is left.
All else is up to the environment. -/
def Enabled (s : Server ι) : (op : ServiceOp) → op.Ans → Prop
  | .listen, _ => s.listening = false
  | .tryAcquire, acquired => acquired = decide (0 < s.permits)
  | .tryAcquireScraper, acquired => acquired = decide (0 < s.scrapers)
  | _, _ => True

/-- The permits after an operation. -/
def permitsAfter (s : Server ι) : (op : ServiceOp) → op.Ans → Nat
  | .tryAcquire, acquired => if acquired then s.permits - 1 else s.permits
  | .release, _ => s.permits + 1
  | _, _ => s.permits

/-- The scrape permits after an operation. -/
def scrapersAfter (s : Server ι) : (op : ServiceOp) → op.Ans → Nat
  | .tryAcquireScraper, acquired => if acquired then s.scrapers - 1 else s.scrapers
  | .releaseScraper, _ => s.scrapers + 1
  | _, _ => s.scrapers

/-- Whether the service listens after an operation. -/
def listeningAfter (s : Server ι) : ServiceOp → Bool
  | .listen => true
  | .resume => false
  | _ => s.listening

/-- The server after one operation of a task. -/
def after (s : Server ι) (i : ι) (op : ServiceOp) (answer : op.Ans) : Server ι where
  metrics := s.metrics.perform op
  permits := s.permitsAfter op answer
  scrapers := s.scrapersAfter op answer
  listening := s.listeningAfter op
  log := s.log ++ (effects op answer).map fun effect => (i, effect)

end Server

/-- The behaviour of the server. -/
def serves (i : ι) : Program.Behaviour ServiceOp ServiceOp.Ans (Server ι) :=
  fun op s answer s' => s.Enabled op answer ∧ s' = s.after i op answer

/-- Nothing else changes the counters. -/
def undisturbed (s s' : Server ι) : Prop := s' = s

/-- A server with its tasks. -/
abbrev Serving (ι : Type) := System ι ServiceOp ServiceOp.Ans Unit (Server ι)

/-- A daemon that has accepted nothing yet. -/
def serve (role : Role) (wire : Wire) (clients : ι → Client) : Serving ι where
  programs i := (clients i).program role wire
  state := ⟨Metrics.new role (capacity role), (capacity role).toNat, maxScrapers, false, []⟩

end Leelo.Daemon
