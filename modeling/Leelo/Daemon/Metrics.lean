import Mathlib.Logic.Function.Basic
import Leelo.Core.Bounded
import Leelo.Core.Lists

/-!
# Metrics of the daemon

Counters of fixed cardinality, one for each label of the vocabulary. Counters of events
stop at their largest value; the number of connections in flight goes up and down.
-/

namespace Leelo.Daemon

open Leelo.Core

/-- The process a daemon runs as. -/
inductive Role where
  | frontend
  | worker
  deriving DecidableEq

/-- The word for a role. -/
def Role.name : Role → String
  | .frontend => "frontend"
  | .worker => "worker"

/-- What becomes of an accepted connection. -/
inductive Admission where
  | admitted
  | capacity
  | peer
  | peerCheck
  deriving DecidableEq

/-- Every label of an admission. -/
def Admission.all : List Admission := [.admitted, .capacity, .peer, .peerCheck]

/-- No label of an admission is missing. -/
theorem Admission.mem_all (label : Admission) : label ∈ Admission.all := by
  cases label <;> decide

/-- The word for an admission. -/
def Admission.name : Admission → String
  | .admitted => "admitted"
  | .capacity => "capacity_rejected"
  | .peer => "peer_rejected"
  | .peerCheck => "peer_check_error"

/-- Admissions have different words. -/
theorem Admission.name_injective : Function.Injective Admission.name :=
  injective_of_nodup_map mem_all (by decide)

/-- The stages that are timed. -/
inductive Stage where
  | connection
  | tls
  | http
  | validation
  | ipc
  | worker
  | crypto
  | listenerRetry
  | snapshot
  deriving DecidableEq

/-- Every stage. -/
def Stage.all : List Stage :=
  [.connection, .tls, .http, .validation, .ipc, .worker, .crypto, .listenerRetry, .snapshot]

/-- No stage is missing. -/
theorem Stage.mem_all (label : Stage) : label ∈ Stage.all := by
  cases label <;> decide

/-- The word for a stage. -/
def Stage.name : Stage → String
  | .connection => "connection"
  | .tls => "tls"
  | .http => "http"
  | .validation => "validation"
  | .ipc => "ipc"
  | .worker => "worker"
  | .crypto => "crypto"
  | .listenerRetry => "listener_retry"
  | .snapshot => "snapshot"

/-- Stages have different words. -/
theorem Stage.name_injective : Function.Injective Stage.name :=
  injective_of_nodup_map mem_all (by decide)

/-- How a timed stage ends. -/
inductive Outcome where
  | success
  | cancelled
  | timeout
  | protocol
  | headers
  | body
  | frame
  | wrongKey
  | invalidPoint
  | randomness
  | crypto
  | connect
  | write
  | read
  | refused
  | eof
  | io
  | notFound
  | method
  | unavailable
  | other
  deriving DecidableEq

/-- Every outcome. -/
def Outcome.all : List Outcome :=
  [.success, .cancelled, .timeout, .protocol, .headers, .body, .frame, .wrongKey, .invalidPoint,
   .randomness, .crypto, .connect, .write, .read, .refused, .eof, .io, .notFound, .method,
   .unavailable, .other]

/-- No outcome is missing. -/
theorem Outcome.mem_all (label : Outcome) : label ∈ Outcome.all := by
  cases label <;> decide

/-- The word for an outcome. -/
def Outcome.name : Outcome → String
  | .success => "success"
  | .cancelled => "cancelled"
  | .timeout => "timeout"
  | .protocol => "protocol_error"
  | .headers => "invalid_headers"
  | .body => "invalid_body"
  | .frame => "invalid_frame"
  | .wrongKey => "wrong_key"
  | .invalidPoint => "invalid_point"
  | .randomness => "randomness_failure"
  | .crypto => "crypto_failure"
  | .connect => "connect_error"
  | .write => "write_error"
  | .read => "read_error"
  | .refused => "refused"
  | .eof => "unexpected_eof"
  | .io => "io_error"
  | .notFound => "not_found"
  | .method => "method_not_allowed"
  | .unavailable => "unavailable"
  | .other => "other_error"

/-- Outcomes have different words. -/
theorem Outcome.name_injective : Function.Injective Outcome.name :=
  injective_of_nodup_map mem_all (by decide)

/-- The classes of errors of `accept`. -/
inductive AcceptClass where
  | interrupted
  | resource
  | network
  | other
  deriving DecidableEq

/-- Every class of accept errors. -/
def AcceptClass.all : List AcceptClass := [.interrupted, .resource, .network, .other]

/-- No class is missing. -/
theorem AcceptClass.mem_all (label : AcceptClass) : label ∈ AcceptClass.all := by
  cases label <;> decide

/-- The word for a class. -/
def AcceptClass.name : AcceptClass → String
  | .interrupted => "interrupted"
  | .resource => "resource"
  | .network => "network"
  | .other => "other"

/-- Classes have different words. -/
theorem AcceptClass.name_injective : Function.Injective AcceptClass.name :=
  injective_of_nodup_map mem_all (by decide)

/-- What becomes of one scrape. -/
inductive SnapshotOutcome where
  | served
  | peer
  | peerCheck
  | capacity
  | write
  | timeout
  | listener
  deriving DecidableEq

/-- Every outcome of a scrape. -/
def SnapshotOutcome.all : List SnapshotOutcome :=
  [.served, .peer, .peerCheck, .capacity, .write, .timeout, .listener]

/-- No outcome of a scrape is missing. -/
theorem SnapshotOutcome.mem_all (label : SnapshotOutcome) : label ∈ SnapshotOutcome.all := by
  cases label <;> decide

/-- The word for a scrape's outcome. -/
def SnapshotOutcome.name : SnapshotOutcome → String
  | .served => "served"
  | .peer => "peer_rejected"
  | .peerCheck => "peer_check_error"
  | .capacity => "capacity_rejected"
  | .write => "write_error"
  | .timeout => "timeout"
  | .listener => "listener_error"

/-- Outcomes of scrapes have different words. -/
theorem SnapshotOutcome.name_injective : Function.Injective SnapshotOutcome.name :=
  injective_of_nodup_map mem_all (by decide)

/-- The upper bounds of the histogram's buckets, in nanoseconds. -/
def bucketsNs : List Nat :=
  [1000000, 5000000, 10000000, 25000000, 50000000, 100000000, 250000000, 500000000, 1000000000,
   2000000000, 5000000000, 10000000000]

/-- The same bounds in seconds, as they are printed. -/
def bucketLabels : List String :=
  ["0.001", "0.005", "0.01", "0.025", "0.05", "0.1", "0.25", "0.5", "1", "2", "5", "10"]

/-- The status codes counted, and the rest as zero. -/
def statusCodes : List Nat := [200, 400, 404, 405, 503, 0]

/-- The counters, one for each label; the last duration counter is for longer ones. -/
structure Metrics where
  role : Role
  limit : UInt64
  /-- Events that the emitter could not send. -/
  dropped : UInt64
  suppressedEvents : UInt64
  admissions : Admission → UInt64
  inflight : UInt64
  completions : Stage → Outcome → UInt64
  durations : Stage → Fin 13 → UInt64
  durationSum : Stage → UInt64
  statuses : Fin 6 → UInt64
  acceptErrors : AcceptClass → UInt64
  retrying : UInt64
  snapshots : SnapshotOutcome → UInt64

/-- Every counter starts at zero. -/
def Metrics.new (role : Role) (limit : UInt64) : Metrics where
  role := role
  limit := limit
  dropped := 0
  suppressedEvents := 0
  admissions _ := 0
  inflight := 0
  completions _ _ := 0
  durations _ _ := 0
  durationSum _ := 0
  statuses _ := 0
  acceptErrors _ := 0
  retrying := 0
  snapshots _ := 0

/-- The sum, or the largest number if it is larger. -/
def add (counter amount : UInt64) : UInt64 :=
  UInt64.ofNat (saturatingAdd counter.toNat amount.toNat)

/-- The counters saturate. -/
theorem toNat_add (counter amount : UInt64) :
    (add counter amount).toNat = saturatingAdd counter.toNat amount.toNat := by
  have hle : saturatingAdd counter.toNat amount.toNat ≤ maxU64 := Nat.min_le_right _ _
  rw [add, UInt64.toNat_ofNat']
  exact Nat.mod_eq_of_lt (Nat.lt_succ_of_le hle)

/-- The first bucket whose bound the duration keeps, or the last one. -/
def bucketOf (nanoseconds : UInt64) : Fin 13 :=
  ⟨bucketsNs.findIdx fun bound => nanoseconds.toNat ≤ bound,
    Nat.lt_succ_of_le List.findIdx_le_length⟩

/-- The counter of a status; the last one counts all that are not listed. -/
def statusIndex (status : Nat) : Fin 6 :=
  ⟨min (statusCodes.findIdx fun code => code = status) 5, by omega⟩

/-- Count one more under a label. -/
def bump {α : Type} [DecidableEq α] (counters : α → UInt64) (label : α) : α → UInt64 :=
  Function.update counters label (add (counters label) 1)

namespace Metrics

variable (m : Metrics)

/-- Counts an admission. -/
def admission (result : Admission) : Metrics := { m with admissions := bump m.admissions result }

/-- Counts a connection in flight. -/
def enter : Metrics := { m with inflight := add m.inflight 1 }

/-- The guard of a connection in flight is dropped. The subtraction wraps around. -/
def leave : Metrics := { m with inflight := m.inflight - 1 }

/-- Counts the end of a stage. -/
def addCompletion (stage : Stage) (outcome : Outcome) : Metrics :=
  let counters := bump (m.completions stage) outcome
  { m with completions := Function.update m.completions stage counters }

/-- Counts a duration in its bucket. -/
def addDuration (stage : Stage) (bucket : Fin 13) : Metrics :=
  let counters := bump (m.durations stage) bucket
  { m with durations := Function.update m.durations stage counters }

/-- Adds to the time spent in a stage. -/
def addDurationSum (stage : Stage) (nanoseconds : UInt64) : Metrics :=
  let sum := add (m.durationSum stage) nanoseconds
  { m with durationSum := Function.update m.durationSum stage sum }

/-- Counts a status code. -/
def httpStatus (status : Nat) : Metrics :=
  { m with statuses := bump m.statuses (statusIndex status) }

/-- Counts an error of `accept`. -/
def acceptError (error : AcceptClass) : Metrics :=
  { m with acceptErrors := bump m.acceptErrors error }

/-- Sets the gauge of a listener that retries. -/
def storeRetrying (value : UInt64) : Metrics := { m with retrying := value }

/-- Counts a scrape. -/
def snapshotOutcome (outcome : SnapshotOutcome) : Metrics :=
  { m with snapshots := bump m.snapshots outcome }

end Metrics

end Leelo.Daemon
