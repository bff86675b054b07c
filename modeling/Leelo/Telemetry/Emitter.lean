import Leelo.Core.Interleaving
import Leelo.Telemetry.Encoding

/-!
# Emitters

An emitter numbers its records, sends each one as one datagram and counts those that it
could not send. The program of an emission performs its atomic operations one at a time, so
several threads may share an emitter. A load of the counter may return an earlier value of it.
-/

namespace Leelo.Telemetry

open Leelo.Core

/-- A duration as the standard library stores it. -/
structure Duration where
  seconds : UInt64
  nanos : Fin 1000000000
  deriving DecidableEq

/-- The duration in seconds, rounded to a double. -/
def Duration.asSecsF64 (duration : Duration) : F64 :=
  (F64.ofRat duration.seconds.toNat).add (F64.ofRat (duration.nanos.val / 1000000000))

/-- What a caller hands to the emitter. -/
structure Event where
  component : String
  event : String
  operation : String
  stage : String
  outcome : String
  reason : String
  duration : Duration
  mode : String
  providerIndex : Option UInt8
  storageState : String
  awaitingBootTest : Bool
  degraded : Bool
  nativeCode : Option Int64

/-- The text fields of an event that must be labels. -/
def Event.labels (event : Event) : List String :=
  [event.component, event.event, event.operation, event.stage, event.outcome, event.reason,
   event.mode, event.storageState]

/-- What an emitter keeps besides its two counters. -/
structure Emitter where
  path : Option Bytes
  socket : Bool
  attemptId : Option (Vector UInt8 16)
  bootId : Option (Vector UInt8 16)

/-- What became of one event. -/
inductive EmitStatus where
  | sent
  | disabled
  | dropped
  deriving DecidableEq, Repr

/-- The version of the package. -/
def softwareVersion : String := "0.1.0"

/-- The record of an event, under the emitter's attempt and the values it read. -/
def Emitter.record (emitter : Emitter) (event : Event) (sequence : UInt64)
    (unixTimeMs : Option UInt64) (dropped : UInt64) : Record where
  schemaVersion := schemaVersion
  component := event.component
  event := event.event
  operation := event.operation
  stage := event.stage
  outcome := event.outcome
  reason := event.reason
  durationSeconds := event.duration.asSecsF64
  mode := event.mode
  providerIndex := event.providerIndex
  storageState := event.storageState
  awaitingBootTest := event.awaitingBootTest
  degraded := event.degraded
  nativeCode := event.nativeCode
  softwareVersion := softwareVersion
  attemptId := emitter.attemptId
  bootId := emitter.bootId
  sequence := sequence
  unixTimeMs := unixTimeMs
  droppedBefore := dropped

/-- The shared operations of an emitter: its counters, the clock and the socket. -/
inductive EmitOp where
  | fetchSequence
  | now
  | loadDropped
  | send (record : Record)
  | countDrop

/-- The answer to each operation. -/
abbrev EmitOp.Ans : EmitOp → Type
  | .fetchSequence => UInt64
  | .now => Option UInt64
  | .loadDropped => UInt64
  | .send _ => Bool
  | .countDrop => Unit

/-- An event that is not sent is counted. -/
def dropEvent : Program EmitOp EmitOp.Ans EmitStatus := .call .countDrop fun _ => .done .dropped

/-- Sends one event: disabled without a path, dropped when it is invalid or does not go out. -/
def Emitter.emit (emitter : Emitter) (printDouble : F64 → Bytes) (event : Event) :
    Program EmitOp EmitOp.Ans EmitStatus :=
  if emitter.path.isNone then .done .disabled
  else if emitter.attemptId.isNone then dropEvent
  else if !event.labels.all validLabel then dropEvent
  else
    .call .fetchSequence fun sequence => .call .now fun unixTimeMs =>
      .call .loadDropped fun dropped =>
      let record := emitter.record event sequence unixTimeMs dropped
      if !record.valid || maxEventBytes < (record.encode printDouble).length then dropEvent
      else if emitter.socket then
        .call (.send record) fun ok => if ok then .done .sent else dropEvent
      else dropEvent

/-- A thread that emits events and may look at what became of them. -/
inductive Client where
  | stop
  | emit (event : Event) (next : EmitStatus → Client)

/-- The program of a client: its events, one after another. -/
def Client.run (emitter : Emitter) (printDouble : F64 → Bytes) :
    Client → Program EmitOp EmitOp.Ans Unit
  | .stop => .done ()
  | .emit event next =>
    (emitter.emit printDouble event).bind fun status => (next status).run emitter printDouble

/-- A program that sends a record only under the number that it fetched last, with the count
that it loaded last, and at most once. -/
def Emits (attemptId : Option (Vector UInt8 16)) {α : Type} :
    Program EmitOp EmitOp.Ans α → (loaded : UInt64) → (pending : Option UInt64) → Prop
  | .done _, _, _ => True
  | .call .fetchSequence next, loaded, _ =>
    ∀ sequence, Emits attemptId (next sequence) loaded (some sequence)
  | .call .now next, loaded, pending => ∀ time, Emits attemptId (next time) loaded pending
  | .call .loadDropped next, _, pending => ∀ dropped, Emits attemptId (next dropped) dropped pending
  | .call (.send record) next, loaded, pending =>
    record.attemptId = attemptId ∧ attemptId.isSome = true ∧ record.droppedBefore = loaded ∧
      pending = some record.sequence ∧ ∀ ok, Emits attemptId (next ok) loaded none
  | .call .countDrop next, loaded, pending => ∀ answer, Emits attemptId (next answer) loaded pending

variable {emitter : Emitter} {printDouble : F64 → Bytes} {α : Type}

/-- A drop reports a count and sends nothing. -/
private theorem emits_dropEvent {attemptId : Option (Vector UInt8 16)} {loaded : UInt64}
    {pending : Option UInt64} {f : EmitStatus → Program EmitOp EmitOp.Ans α}
    (hf : ∀ status loaded pending, Emits attemptId (f status) loaded pending) :
    Emits attemptId (dropEvent.bind f) loaded pending :=
  fun _ => hf _ _ _

/-- One call of `emit` behaves as the protocol says, whatever follows it. -/
theorem emits_emit (event : Event) {loaded : UInt64} {pending : Option UInt64}
    {f : EmitStatus → Program EmitOp EmitOp.Ans α}
    (hf : ∀ status loaded pending, Emits emitter.attemptId (f status) loaded pending) :
    Emits emitter.attemptId ((emitter.emit printDouble event).bind f) loaded pending := by
  unfold Emitter.emit
  by_cases hpath : emitter.path.isNone = true
  · rw [if_pos hpath]
    exact hf _ _ _
  rw [if_neg hpath]
  by_cases hid : emitter.attemptId.isNone = true
  · rw [if_pos hid]
    exact emits_dropEvent hf
  rw [if_neg hid]
  by_cases hlabels : (!event.labels.all validLabel) = true
  · rw [if_pos hlabels]
    exact emits_dropEvent hf
  rw [if_neg hlabels]
  intro sequence unixTimeMs dropped
  dsimp only
  split_ifs
  · exact emits_dropEvent hf
  · refine ⟨rfl, ?_, rfl, rfl, fun ok => ?_⟩
    · rwa [Option.isNone_iff_eq_none, ← ne_eq, Option.ne_none_iff_isSome] at hid
    · cases ok with
      | true => exact hf _ _ _
      | false => exact emits_dropEvent hf
  · exact emits_dropEvent hf

theorem emits_run (client : Client) (loaded : UInt64) (pending : Option UInt64) :
    Emits emitter.attemptId (client.run emitter printDouble) loaded pending := by
  induction client generalizing loaded pending with
  | stop => trivial
  | emit event next ih => exact emits_emit event fun status => ih status

end Leelo.Telemetry
