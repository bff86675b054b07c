import Leelo.Core.Text
import Leelo.Luks.Token

/-!
# What a command reports about itself

An operation carries the stage it is in and what is known about the storage, and hands
events to the emitter. An event holds classifications only. The storage state of the last
event is what a command reports at its end.
-/

namespace Leelo.Cli

open Leelo.Core (Bytes)
open Leelo.Luks (IoError)

/-- What the command knows about the volume. -/
inductive StorageState where
  | notApplicable
  | notMutated
  | pendingReconciliation
  | committed
  | unknown
  deriving DecidableEq, Repr

/-- The word for a state of the volume. -/
def StorageState.name : StorageState → String
  | .notApplicable => "not_applicable"
  | .notMutated => "not_mutated"
  | .pendingReconciliation => "pending_reconciliation"
  | .committed => "committed"
  | .unknown => "unknown"

/-- Errors of a command. The last one stands for the errors of steps that touch neither
the journal nor the storage, by their classification. -/
inductive CliError where
  | io (error : IoError)
  | luks (error : Luks.Error)
  | enrollment (message : Bytes) (source : CliError)
  | other (reason : String)
  deriving DecidableEq, Repr

/-- The reason a storage error is reported as, with its native code. -/
def classifyLuks : Luks.Error → String × Option Int
  | .cryptsetup _ code => ("cryptsetup", some code)
  | .partialEnrollment .. => ("partial_enrollment", none)
  | .writerBusy => ("writer_busy", none)
  | .metadataChanged => ("metadata_changed", none)
  | .occupiedSlot => ("occupied_slot", none)
  | .noTokenSpace | .metadataSpace .. => ("metadata_capacity", none)
  | .invalidToken => ("invalid_token", none)
  | .wrongVolume => ("wrong_volume", none)
  | _ => ("storage", none)

/-- The reason an error is reported as, with its native code. -/
def classify : CliError → String × Option Int
  | .io _ => ("io", none)
  | .luks error => classifyLuks error
  | .enrollment _ source => classify source
  | .other reason => (reason, none)

/-- What the command hands to the emitter. -/
structure Event where
  event : String
  operation : String
  stage : String
  outcome : String
  reason : String
  storageState : String
  awaitingBootTest : Bool
  nativeCode : Option Int
  deriving DecidableEq, Repr

/-- The command under observation. -/
structure Operation where
  operation : String
  stage : String
  storage : StorageState
  awaitingBootTest : Bool
  /-- What the emitter was given, in order. -/
  emitted : List Event
  deriving DecidableEq, Repr

namespace Operation

/-- What a command knows about the volume at first. -/
def initialStorage (operation : String) : StorageState :=
  if operation = "enroll" then .notMutated
  else if operation = "resume" then .unknown
  else .notApplicable

/-- An event about the operation as it stands. -/
def eventOf (self : Operation) (event stage outcome reason : String) : Event where
  event := event
  operation := self.operation
  stage := stage
  outcome := outcome
  reason := reason
  storageState := self.storage.name
  awaitingBootTest := self.awaitingBootTest
  nativeCode := none

/-- Hands an event to the emitter. -/
def hand (self : Operation) (event : Event) : Operation :=
  { self with emitted := self.emitted ++ [event] }

/-- Emits an event about the operation as it stands. -/
def emit (self : Operation) (event stage outcome reason : String) : Operation :=
  self.hand (self.eventOf event stage outcome reason)

/-- Starts the observation. -/
def new (operation : String) : Operation :=
  emit
    { operation := operation, stage := "preflight", storage := initialStorage operation,
      awaitingBootTest := false, emitted := [] }
    "operation_started" "preflight" "started" "none"

/-- Ends a stage and begins the next. -/
def setStage (self : Operation) (stage : String) : Operation :=
  emit { self.emit "phase_completed" self.stage "success" "none" with stage := stage }
    "phase_started" stage "started" "none"

/-- Reports a state that was reached. -/
def milestone (self : Operation) (stage : String) : Operation :=
  self.emit "enrollment_state" stage "observed" "none"

/-- Changes what is known about the volume. -/
def setStorage (self : Operation) (storage : StorageState) : Operation := { self with storage }

/-- The volume is changed for good; a test of the boot is awaited. -/
def committed (self : Operation) : Operation :=
  milestone { self with storage := .committed, awaitingBootTest := true } "storage_committed"

/-- The reason and the native code of a result. -/
def resultClass {α : Type} : Except CliError α → String × Option Int
  | .ok _ => ("none", none)
  | .error error => classify error

/-- The word for a result. -/
def resultName {α : Type} : Except CliError α → String
  | .ok _ => "success"
  | .error _ => "failure"

/-- The event of the operation's end. -/
def completionEvent {α : Type} (self : Operation) (result : Except CliError α) : Event :=
  { self.eventOf "operation_completed" self.stage (resultName result) (resultClass result).1 with
    nativeCode := (resultClass result).2 }

/-- Ends the observation. -/
def finish {α : Type} (self : Operation) (result : Except CliError α) : Operation :=
  (self.emit "phase_completed" self.stage (self.completionEvent result).outcome
    (self.completionEvent result).reason).hand (self.completionEvent result)

/-- The storage state of the event that ends the operation. -/
def reported (self : Operation) : Option String :=
  self.emitted.getLast?.map (·.storageState)

/-- The outcome of the event that ends the operation. -/
def concluded (self : Operation) : Option String := self.emitted.getLast?.map (·.outcome)

/-- A stage keeps what is known about the volume. -/
@[simp] theorem storage_setStage (self : Operation) (stage : String) :
    (self.setStage stage).storage = self.storage := rfl

@[simp] theorem storage_setStorage (self : Operation) (storage : StorageState) :
    (self.setStorage storage).storage = storage := rfl

@[simp] theorem storage_committed (self : Operation) : self.committed.storage = .committed := rfl

/-- The last event reports the volume as it is known. -/
theorem reported_finish {α : Type} (self : Operation) (result : Except CliError α) :
    (self.finish result).reported = some self.storage.name := by
  simp only [reported, finish, hand, List.getLast?_concat, Option.map_some]
  rfl

/-- The last event reports the result. -/
theorem concluded_finish {α : Type} (self : Operation) (result : Except CliError α) :
    (self.finish result).concluded = some (resultName result) := by
  simp only [concluded, finish, hand, List.getLast?_concat, Option.map_some]
  rfl

end Operation

end Leelo.Cli
