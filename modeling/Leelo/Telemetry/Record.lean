import Leelo.Core.Binary64
import Leelo.Core.Text

/-!
# Telemetry records

A record carries classifications, counters and times only. It is valid if its labels are
short words of fixed vocabularies and its duration is finite and at most a week.
-/

namespace Leelo.Telemetry

open Leelo.Core (F64)

/-- The largest datagram that is sent or read. -/
def maxEventBytes : Nat := 4096
/-- The version every record names. -/
def schemaVersion : UInt8 := 1

/-- One telemetry record, with the fields the wire format has. -/
structure Record where
  schemaVersion : UInt8
  component : String
  event : String
  operation : String
  stage : String
  outcome : String
  reason : String
  durationSeconds : F64
  mode : String
  providerIndex : Option UInt8
  storageState : String
  awaitingBootTest : Bool
  degraded : Bool
  nativeCode : Option Int64
  softwareVersion : String
  attemptId : Option (Vector UInt8 16)
  bootId : Option (Vector UInt8 16)
  sequence : UInt64
  unixTimeMs : Option UInt64
  droppedBefore : UInt64
  deriving DecidableEq

/-- The components that may report. -/
def components : List String :=
  ["client", "frontend", "worker", "leelod"]

/-- The events a record may name. -/
def events : List String :=
  ["operation_started", "operation_completed", "provider_completed", "phase_started",
   "phase_completed", "enrollment_state", "key_creation", "service_start", "service_ready",
   "service_stop", "service_failed", "telemetry_failed", "worker_peer_denied",
   "capacity_rejected", "evaluation_failed", "listener_recovered", "listener_impaired",
   "listener_failed", "snapshot_listener_failed", "worker_reply_invalid"]

/-- The operations a record may name. -/
def operations : List String :=
  ["enroll", "resume", "check", "activate", "keygen", "inspect", "pcr_digest", "serve"]

/-- The release modes a record may name. -/
def modes : List String :=
  ["none", "unknown", "network_bound", "attested"]

/-- The states of the volume a record may name. -/
def storageStates : List String :=
  ["not_applicable", "not_mutated", "pending_reconciliation", "committed", "unknown"]

/-- The stages of an operation a record may name. -/
def stages : List String :=
  ["preflight", "preflight_durable", "prepare", "recover", "recovery_test", "activate", "check",
   "validate", "tpm_seal", "network", "tpm_unseal", "authenticate_payload", "prepare_payload",
   "share_generation", "pending_bundle", "pending_bundle_durable", "prepared_and_recovery_tested",
   "storage_commit", "storage_committed", "storage_attach", "final_journal",
   "final_journal_durable", "key_file", "key_load", "startup", "service", "socket_directory",
   "listener", "snapshot", "readiness", "admission", "crypto", "connection", "ipc", "tls_config"]

/-- The outcomes a record may name. -/
def outcomes : List String :=
  ["started", "success", "failure", "observed", "not_started", "authenticated", "failed",
   "canceled_quorum", "canceled_deadline", "canceled_operation"]

/-- The failure reasons a record may name, and `none`. -/
def reasons : List String :=
  ["none", "envelope", "cryptography", "sharing", "policy", "tpm", "insufficient_factors",
   "deadline", "inconsistent_shares", "target_mismatch", "unsupported_mode", "runtime",
   "configuration", "unavailable", "timeout", "remote_rejected", "invalid_response",
   "invalid_proof", "authentication", "io", "cryptsetup", "partial_enrollment", "writer_busy",
   "metadata_changed", "occupied_slot", "metadata_capacity", "invalid_token", "wrong_volume",
   "storage", "configuration_or_operation", "peer_uid", "peer_credentials", "capacity",
   "randomness", "cryptographic_operation", "temporary_accept", "fatal_accept", "invalid_reply",
   "invalid_key_file", "invalid_directory", "bind_failed", "permissions_failed", "setup_failed",
   "notify_failed", "invalid_configuration", "key_creation_failed", "service_failed",
   "accept_error", "listener_error"]

/-- Every text field of the record is a word of its list. -/
def vocabulary (record : Record) : Bool :=
  components.contains record.component && events.contains record.event &&
    operations.contains record.operation && modes.contains record.mode &&
    storageStates.contains record.storageState && stages.contains record.stage &&
    outcomes.contains record.outcome && reasons.contains record.reason

/-- A label is short, not empty, and made of lower-case letters, digits and underscores. -/
def validLabel (value : String) : Bool :=
  value ≠ "" && value.utf8ByteSize ≤ 48 &&
    value.toList.all fun c => c.isLower || c.isDigit || c = '_'

/-- A version is short and made of letters, digits, dots, dashes and underscores. -/
def validVersion (value : String) : Bool :=
  value.utf8ByteSize ≤ 48 &&
    value.toList.all fun c => c.isAlphanum || c = '.' || c = '-' || c = '_'

/-- The text fields that must be labels. -/
def Record.labels (record : Record) : List String :=
  [record.component, record.event, record.operation, record.stage, record.outcome, record.reason,
   record.mode, record.storageState]

/-- A duration is finite and between zero and one week. -/
def validDuration (duration : F64) : Bool :=
  duration.isFinite && (F64.finite 0).le duration && duration.le (.finite 604800)

/-- A provider index, where there is one, lies between 1 and 31. -/
def validProvider (index : Option UInt8) : Bool := index.all fun index => 1 ≤ index && index ≤ 31

/-- The check that both the emitter and the collector make. -/
def Record.valid (record : Record) : Bool :=
  record.schemaVersion == Telemetry.schemaVersion && validVersion record.softwareVersion &&
    record.labels.all validLabel && validDuration record.durationSeconds &&
    validProvider record.providerIndex && vocabulary record

end Leelo.Telemetry
