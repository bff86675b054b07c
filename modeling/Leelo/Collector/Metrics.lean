import Leelo.Core.Bounded
import Leelo.Telemetry.Record
import Mathlib.Data.Finset.Basic
import Mathlib.Data.List.AList

/-!
# Metrics of the collector

The collector counts events that it has not seen before. It remembers the last events and
the last attempts in two windows and refuses a second terminal event of an attempt that it
remembers. Counters and histograms share one limit on the number of series.
-/

namespace Leelo.Collector

open Leelo.Core
open Leelo.Telemetry (Record)

/-- The largest number of series. -/
def maxSeries : Nat := 512
/-- The size of the windows. -/
def maxReplay : Nat := 65536

/-- The doubles nearest to 0.005, 0.025, 0.1, 0.5, 1, 2, 5, 15 and 30. -/
def buckets : Vector ℚ 9 :=
  #v[5764607523034235 / 1152921504606846976, 3602879701896397 / 144115188075855872,
    3602879701896397 / 36028797018963968, 1 / 2, 1, 2, 5, 15, 30]

/-- An event's key: the user, the attempt and the sequence number. -/
abbrev EventId := UInt32 × Vector UInt8 16 × UInt64
/-- An attempt's key: the user and the attempt. -/
abbrev AttemptId := UInt32 × Vector UInt8 16

/-- What is known about an attempt. -/
structure Attempt where
  reportedDrops : Nat
  terminal : Bool
  deriving DecidableEq, Repr

/-- An attempt that has reported nothing. -/
def Attempt.new : Attempt := ⟨0, false⟩

/-- A record with the credentials of its sender and the time of arrival. -/
structure Received where
  sourceUid : UInt32
  sourcePid : UInt32
  receivedAtMs : UInt64
  record : Record
  deriving DecidableEq

/-- A cumulative histogram. -/
structure Histogram where
  buckets : Vector Nat 9
  count : Nat
  sum : F64
  deriving DecidableEq, Repr

/-- A histogram without observations. -/
def Histogram.new : Histogram := ⟨Vector.replicate 9 0, 0, .finite 0⟩

/-- Every bucket whose limit the duration keeps counts it. -/
def Histogram.observe (h : Histogram) (duration : F64) : Histogram where
  count := saturatingAdd h.count 1
  sum := (h.sum.add duration).min F64.max
  buckets := Vector.zipWith (fun bucket limit =>
    if duration.le (.finite limit) then saturatingAdd bucket 1 else bucket)
      h.buckets Collector.buckets

/-- The collector's state. -/
structure Metrics where
  seen : Finset EventId
  order : List EventId
  counters : AList fun _ : String => Nat
  histograms : AList fun _ : String => Histogram
  attempts : AttemptId → Option Attempt
  attemptOrder : List AttemptId
  reportedDrops : Nat
  replayEvictions : Nat
  accepted : Nat
  rejected : Nat
  duplicates : Nat
  overflow : Nat
  writeFailures : Nat
  lastReceivedMs : Nat

namespace Metrics

/-- The state of a collector that has received nothing. -/
def new : Metrics where
  seen := ∅
  order := []
  counters := ∅
  histograms := ∅
  attempts _ := none
  attemptOrder := []
  reportedDrops := 0
  replayEvictions := 0
  accepted := 0
  rejected := 0
  duplicates := 0
  overflow := 0
  writeFailures := 0
  lastReceivedMs := 0

/-- The number of series. -/
def series (m : Metrics) : Nat := m.counters.keys.length + m.histograms.keys.length

/-- Counts under a key, or the overflow where there are too many series. -/
def increment (m : Metrics) (key : String) : Metrics :=
  if m.series ≥ maxSeries ∧ key ∉ m.counters then
    { m with overflow := saturatingAdd m.overflow 1 }
  else
    let counter := (m.counters.lookup key).getD 0
    { m with counters := m.counters.insert key (saturatingAdd counter 1) }

/-- Observes a duration under a key, or counts the overflow. -/
def observe (m : Metrics) (key : String) (duration : F64) : Metrics :=
  if m.series ≥ maxSeries ∧ key ∉ m.histograms then
    { m with overflow := saturatingAdd m.overflow 1 }
  else
    let histogram := (m.histograms.lookup key).getD .new
    { m with histograms := m.histograms.insert key (histogram.observe duration) }

/-- Remember an event and forget the oldest one if there are too many. -/
def recordSeen (m : Metrics) (key : EventId) : Metrics :=
  let order := m.order ++ [key]
  if order.length > maxReplay then
    match order with
    | old :: rest =>
      { m with
        seen := (insert key m.seen).erase old
        order := rest
        replayEvictions := saturatingAdd m.replayEvictions 1 }
    | [] => m
  else { m with seen := insert key m.seen, order }

/-- Make room for one more attempt. -/
def evictAttempt (m : Metrics) : Metrics :=
  if m.attemptOrder.length = maxReplay then
    match m.attemptOrder with
    | old :: rest =>
      { m with
        attempts := Function.update m.attempts old none
        attemptOrder := rest
        replayEvictions := saturatingAdd m.replayEvictions 1 }
    | [] => m
  else m

/-- Remember an attempt that is not in the window. -/
def admitAttempt (m : Metrics) (id : AttemptId) : Metrics :=
  if (m.attempts id).isSome then m
  else { m.evictAttempt with attemptOrder := m.evictAttempt.attemptOrder ++ [id] }

/-- Add the drops that the attempt has not reported before. -/
def updateAttempt (m : Metrics) (id : AttemptId) (droppedBefore : Nat) (terminal : Bool) :
    Metrics :=
  let attempt := (m.attempts id).getD .new
  { m with
    reportedDrops :=
      saturatingAdd m.reportedDrops (droppedBefore - attempt.reportedDrops)
    attempts := Function.update m.attempts id
      (some ⟨max attempt.reportedDrops droppedBefore, attempt.terminal || terminal⟩) }

/-- The operations that are counted. -/
def countedOperations : List String :=
  ["enroll", "resume", "resume_enrollment", "check", "activate", "keygen", "inspect", "pcr_digest"]

/-- A label and its value, after another label or first. -/
def label (before name value : String) : String := before ++ name ++ "=\"" ++ value ++ "\""

/-- The series of an operation's ends. -/
def operationsKey (r : Record) : String :=
  label "leelo_client_operations_total\x7b" "operation" r.operation ++
    label "," "mode" r.mode ++ label "," "outcome" r.outcome ++ "\x7d"

/-- The series of an operation's durations. -/
def operationDurationKey (r : Record) : String :=
  label "leelo_client_operation_duration_seconds\x7b" "operation" r.operation

/-- The series of an operation's failures. -/
def failuresKey (r : Record) : String :=
  label "leelo_client_failures_total\x7b" "operation" r.operation ++
    label "," "stage" r.stage ++ label "," "reason" r.reason ++ "\x7d"

/-- The series of a phase's durations. -/
def phaseDurationKey (r : Record) : String :=
  label "leelo_client_phase_duration_seconds\x7b" "operation" r.operation ++
    label "," "stage" r.stage

/-- A series of one provider and phase. -/
def providerKey (name : String) (index : UInt8) (r : Record) : String :=
  label (name ++ "\x7b") "provider" (toString index.toNat) ++ label "," "phase" r.stage

/-- The series of a provider's attempts. -/
def attemptsKey (index : UInt8) (r : Record) : String :=
  providerKey "leelo_provider_attempts_total" index r ++ label "," "outcome" r.outcome ++ "\x7d"

/-- The series of a provider's failures. -/
def providerFailuresKey (index : UInt8) (r : Record) : String :=
  providerKey "leelo_provider_failures_total" index r ++ label "," "reason" r.reason ++ "\x7d"

/-- The series of a provider's durations. -/
def providerDurationKey (index : UInt8) (r : Record) : String :=
  providerKey "leelo_provider_duration_seconds" index r

/-- Counts where the condition holds. -/
def incrementIf (m : Metrics) (condition : Prop) [Decidable condition] (key : String) : Metrics :=
  if condition then m.increment key else m

/-- Counts the end of an operation. -/
def countOperation (m : Metrics) (r : Record) : Metrics :=
  (((m.increment (operationsKey r)).observe (operationDurationKey r) r.durationSeconds).incrementIf
    (r.outcome = "failure") (failuresKey r)).incrementIf
      (r.degraded = true ∧ r.outcome = "success" ∧ r.operation ∈ ["check", "activate"])
      "leelo_unlock_degraded_total"

/-- Counts the end of a provider's phase. -/
def countProvider (m : Metrics) (r : Record) : Metrics :=
  match r.providerIndex with
  | some index =>
    ((m.increment (attemptsKey index r)).incrementIf (r.outcome = "failed")
      (providerFailuresKey index r)).observe (providerDurationKey index r) r.durationSeconds
  | none => m

/-- The series of an event that was accepted. -/
def count (m : Metrics) (r : Record) : Metrics :=
  if r.component ≠ "client" ∨ r.operation ∉ countedOperations then m
  else if r.event = "operation_completed" then m.countOperation r
  else if r.event = "phase_completed" then m.observe (phaseDurationKey r) r.durationSeconds
  else if r.event = "provider_completed" ∧ r.outcome ≠ "not_started" then m.countProvider r
  else m

end Metrics

/-- The attempt of an event, under its sender. -/
def Received.attempt (received : Received) (id : Vector UInt8 16) : AttemptId :=
  (received.sourceUid, id)

/-- The key of an event, under its sender. -/
def Received.key (received : Received) (id : Vector UInt8 16) : EventId :=
  (received.sourceUid, id, received.record.sequence)

/-- The event ends an operation of a client. -/
def Received.terminal (received : Received) : Bool :=
  received.record.component == "client" && received.record.event == "operation_completed"

namespace Metrics

/-- Both windows and the attempt after an event that was accepted. -/
def remember (m : Metrics) (received : Received) (id : Vector UInt8 16) : Metrics :=
  ((m.recordSeen (received.key id)).admitAttempt (received.attempt id)).updateAttempt
    (received.attempt id) received.record.droppedBefore.toNat received.terminal

/-- Counts an accepted event and its time. -/
def stamp (m : Metrics) (received : Received) : Metrics :=
  { m with
    accepted := saturatingAdd m.accepted 1
    lastReceivedMs := max m.lastReceivedMs received.receivedAtMs.toNat }

/-- Counts a rejected event. -/
def reject (m : Metrics) : Metrics := { m with rejected := saturatingAdd m.rejected 1 }

/-- Counts a duplicate. -/
def duplicate (m : Metrics) : Metrics := { m with duplicates := saturatingAdd m.duplicates 1 }

/-- One call of the collector. -/
def accept (m : Metrics) (received : Received) : Metrics × Bool :=
  if received.record.valid = false then (m.reject, false)
  else
    match received.record.attemptId with
    | none => (m.reject, false)
    | some id =>
      if received.key id ∈ m.seen then
        (m.duplicate, false)
      else if received.terminal = true ∧
          (m.attempts (received.attempt id)).any (·.terminal) = true then (m.reject, false)
      else (((m.remember received id).stamp received).count received.record, true)

variable {m m' : Metrics} {received : Received}

/-- The event is valid and new, and it does not end an attempt twice. -/
structure Takes (m : Metrics) (received : Received) (id : Vector UInt8 16) : Prop where
  valid : received.record.valid = true
  attemptId : received.record.attemptId = some id
  fresh : received.key id ∉ m.seen
  pending : received.terminal = true →
    (m.attempts (received.attempt id)).any (·.terminal) = false

theorem accept_of_takes {id : Vector UInt8 16} (h : m.Takes received id) :
    m.accept received =
      (((m.remember received id).stamp received).count received.record, true) := by
  have hvalid : ¬ received.record.valid = false := by
    rw [h.valid]
    exact Bool.noConfusion
  have hpending : ¬ (received.terminal = true ∧
      (m.attempts (received.attempt id)).any (·.terminal) = true) := fun hterminal => by
    rw [h.pending hterminal.1] at hterminal
    exact Bool.noConfusion hterminal.2
  rw [accept, if_neg hvalid, h.attemptId]
  dsimp only
  rw [if_neg h.fresh, if_neg hpending]

/-- A call rejects, finds a duplicate, or takes the event. -/
theorem accept_cases (m : Metrics) (received : Received) :
    m.accept received = (m.reject, false) ∨ m.accept received = (m.duplicate, false) ∨
      ∃ id, m.Takes received id := by
  unfold accept
  by_cases hvalid : received.record.valid = false
  · exact .inl (if_pos hvalid)
  · rw [if_neg hvalid]
    cases hid : received.record.attemptId with
    | none => exact .inl rfl
    | some id =>
      dsimp only
      by_cases hseen : received.key id ∈ m.seen
      · exact .inr (.inl (if_pos hseen))
      · rw [if_neg hseen]
        by_cases hterminal : received.terminal = true ∧
            (m.attempts (received.attempt id)).any (·.terminal) = true
        · exact .inl (if_pos hterminal)
        · refine .inr (.inr ⟨id, Bool.eq_true_of_not_eq_false hvalid, hid, hseen, fun h => ?_⟩)
          exact Bool.eq_false_iff.mpr fun hany => hterminal ⟨h, hany⟩

/-- A relation that both updates of the series keep is kept by an event. -/
theorem count_rel {R : Metrics → Metrics → Prop}
    (hincrement : ∀ m m' key, R m m' → R (m.increment key) (m'.increment key))
    (hobserve : ∀ m m' key duration, R m m' → R (m.observe key duration) (m'.observe key duration))
    (h : R m m') (r : Record) : R (m.count r) (m'.count r) := by
  have hif : ∀ (condition : Prop) [Decidable condition] (key : String) (m m' : Metrics), R m m' →
      R (m.incrementIf condition key) (m'.incrementIf condition key) := by
    intro condition _ key m m' h
    unfold incrementIf
    split_ifs
    · exact hincrement _ _ _ h
    · exact h
  unfold count
  split_ifs
  · exact h
  · exact hif _ _ _ _ (hif _ _ _ _ (hobserve _ _ _ _ (hincrement _ _ _ h)))
  · exact hobserve _ _ _ _ h
  · unfold countProvider
    cases r.providerIndex with
    | none => exact h
    | some index => exact hobserve _ _ _ _ (hif _ _ _ _ (hincrement _ _ _ h))
  · exact h

theorem count_induction {P : Metrics → Prop} (hincrement : ∀ m key, P m → P (m.increment key))
    (hobserve : ∀ m key duration, P m → P (m.observe key duration)) (h : P m) (r : Record) :
    P (m.count r) :=
  @count_rel m m (fun m _ => P m) (fun m _ => hincrement m) (fun m _ => hobserve m) h r

/-- Only the series differ. -/
def SeriesOnly (m m' : Metrics) : Prop :=
  ∃ counters histograms overflow, m' = { m with counters, histograms, overflow }

theorem increment_seriesOnly (m : Metrics) (key : String) : m.SeriesOnly (m.increment key) := by
  unfold increment
  split_ifs
  · exact ⟨_, _, _, rfl⟩
  · exact ⟨_, _, _, rfl⟩

theorem observe_seriesOnly (m : Metrics) (key : String) (duration : F64) :
    m.SeriesOnly (m.observe key duration) := by
  unfold observe
  split_ifs
  · exact ⟨_, _, _, rfl⟩
  · exact ⟨_, _, _, rfl⟩

theorem SeriesOnly.trans {m'' : Metrics} (h : m.SeriesOnly m') (h' : m'.SeriesOnly m'') :
    m.SeriesOnly m'' := by
  obtain ⟨_, _, _, rfl⟩ := h
  obtain ⟨_, _, _, rfl⟩ := h'
  exact ⟨_, _, _, rfl⟩

theorem count_seriesOnly (m : Metrics) (r : Record) : m.SeriesOnly (m.count r) :=
  count_induction (P := m.SeriesOnly) (fun _ _ h => h.trans (increment_seriesOnly _ _))
    (fun _ _ _ h => h.trans (observe_seriesOnly _ _ _)) ⟨_, _, _, rfl⟩ r

/-- The number of evictions after one more push. -/
def evicted {α : Type} (evictions : Nat) : Option α → Nat
  | none => evictions
  | some _ => saturatingAdd evictions 1

/-- The key is pushed on the window of events. -/
theorem recordSeen_push (h : m.order.length ≤ maxReplay) (key : EventId) :
    ∃ order dropped, Window.Push maxReplay key m.order order dropped ∧
      m.recordSeen key =
        { m with
          seen := dropped.elim (insert key m.seen) (insert key m.seen).erase
          order
          replayEvictions := evicted m.replayEvictions dropped } := by
  unfold recordSeen
  by_cases hroom : m.order.length < maxReplay
  · refine ⟨_, none, .room hroom, ?_⟩
    dsimp only
    rw [if_neg (by rw [List.length_append, List.length_singleton]; omega)]
    rfl
  · have hfull : m.order.length = maxReplay := by omega
    dsimp only
    rw [if_pos (by rw [List.length_append, List.length_singleton]; omega)]
    cases horder : m.order with
    | nil =>
      rw [horder] at hfull
      exact absurd hfull (by decide)
    | cons old rest =>
      rw [horder] at hfull
      exact ⟨_, some old, .full hfull, rfl⟩

/-- A new attempt is pushed on the window of attempts. -/
theorem admitAttempt_push {id : AttemptId} (h : m.attemptOrder.length ≤ maxReplay)
    (hnew : m.attempts id = none) :
    ∃ attemptOrder dropped, Window.Push maxReplay id m.attemptOrder attemptOrder dropped ∧
      m.admitAttempt id =
        { m with
          attempts := dropped.elim m.attempts fun old => Function.update m.attempts old none
          attemptOrder
          replayEvictions := evicted m.replayEvictions dropped } := by
  unfold admitAttempt evictAttempt
  rw [hnew, if_neg (by simp)]
  by_cases hfull : m.attemptOrder.length = maxReplay
  · rw [if_pos hfull]
    cases horder : m.attemptOrder with
    | nil =>
      rw [horder] at hfull
      exact absurd hfull (by decide)
    | cons old rest =>
      rw [horder] at hfull
      exact ⟨_, some old, .full hfull, rfl⟩
  · rw [if_neg hfull]
    exact ⟨_, none, .room (by omega), rfl⟩

theorem admitAttempt_of_isSome {id : AttemptId} (h : (m.attempts id).isSome = true) :
    m.admitAttempt id = m :=
  if_pos h

end Metrics

end Leelo.Collector
