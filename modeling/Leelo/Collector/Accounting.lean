import Leelo.Collector.Deduplication
import Mathlib.Algebra.BigOperators.Group.Finset.Basic
import Mathlib.Data.Finset.Lattice.Fold
import Mathlib.Order.Lattice.Nat

/-!
# Reported drops

Without an eviction and below the largest counter the drops that the collector reports are
the sum, over the attempts of the accepted events, of the largest count that an event of the
attempt carries.
-/

namespace Leelo.Collector

open Leelo.Core Leelo.Core.Window

/-- The attempts that the events belong to. -/
def attemptsOf (events : List Received) : Finset AttemptId :=
  (events.filterMap Received.attemptId).toFinset

/-- The largest count of drops among the events of an attempt. -/
def largestDrop (events : List Received) (attempt : AttemptId) : Nat :=
  (events.toFinset.filter fun received => received.attemptId = some attempt).sup fun received =>
    received.record.droppedBefore.toNat

/-- The sum of the largest loss each attempt reported. -/
def reportedLoss (events : List Received) : Nat :=
  ∑ attempt ∈ attemptsOf events, largestDrop events attempt

variable {events : List Received} {received : Received} {attempt : AttemptId}

theorem mem_attemptsOf :
    attempt ∈ attemptsOf events ↔ ∃ received ∈ events, received.attemptId = some attempt := by
  rw [attemptsOf, List.mem_toFinset, List.mem_filterMap]

theorem largestDrop_le {bound : Nat} (h : ∀ received ∈ events, received.attemptId = some attempt →
    received.record.droppedBefore.toNat ≤ bound) : largestDrop events attempt ≤ bound := by
  refine Finset.sup_le fun received hmem => ?_
  rw [Finset.mem_filter, List.mem_toFinset] at hmem
  exact h received hmem.1 hmem.2

theorem largestDrop_eq_zero (h : attempt ∉ attemptsOf events) :
    largestDrop events attempt = 0 := by
  refine Nat.le_zero.mp (largestDrop_le fun received hmem hid => ?_)
  exact absurd (mem_attemptsOf.mpr ⟨received, hmem, hid⟩) h

theorem attemptsOf_concat (h : received.attemptId = some attempt) :
    attemptsOf (events ++ [received]) = insert attempt (attemptsOf events) := by
  rw [attemptsOf, List.filterMap_append, List.filterMap_cons_some h, List.filterMap_nil,
    List.toFinset_append, Finset.union_comm, List.toFinset_cons]
  rfl

theorem largestDrop_concat_self (h : received.attemptId = some attempt) :
    largestDrop (events ++ [received]) attempt =
      max (largestDrop events attempt) received.record.droppedBefore.toNat := by
  unfold largestDrop
  rw [List.toFinset_append, Finset.filter_union, Finset.sup_union, List.toFinset_cons,
    List.toFinset_nil, Finset.filter_insert, if_pos h]
  simp

theorem largestDrop_concat_other (h : received.attemptId ≠ some attempt) :
    largestDrop (events ++ [received]) attempt = largestDrop events attempt := by
  unfold largestDrop
  rw [List.toFinset_append, Finset.filter_union, Finset.sup_union, List.toFinset_cons,
    List.toFinset_nil, Finset.filter_insert, if_neg h]
  simp

/-- One more event adds the part of its count that its attempt has not reported. -/
theorem reportedLoss_concat (h : received.attemptId = some attempt) :
    reportedLoss (events ++ [received]) = reportedLoss events +
      (received.record.droppedBefore.toNat - largestDrop events attempt) := by
  have hbefore : reportedLoss events =
      ∑ other ∈ insert attempt (attemptsOf events), largestDrop events other := by
    by_cases hmem : attempt ∈ attemptsOf events
    · rw [Finset.insert_eq_of_mem hmem, reportedLoss]
    · rw [Finset.sum_insert hmem, largestDrop_eq_zero hmem, Nat.zero_add, reportedLoss]
  have hself := Finset.mem_insert_self attempt (attemptsOf events)
  have hothers : ∑ other ∈ (insert attempt (attemptsOf events)).erase attempt,
        largestDrop (events ++ [received]) other =
      ∑ other ∈ (insert attempt (attemptsOf events)).erase attempt, largestDrop events other := by
    refine Finset.sum_congr rfl fun other hother => largestDrop_concat_other ?_
    rw [h, ne_eq, Option.some.injEq]
    exact (Finset.ne_of_mem_erase hother).symm
  rw [hbefore, reportedLoss, attemptsOf_concat h, ← Finset.add_sum_erase _ _ hself,
    ← Finset.add_sum_erase _ _ hself, hothers, largestDrop_concat_self h]
  omega

/-- The reported loss does not depend on the order of the events. -/
theorem reportedLoss_perm {events' : List Received} (h : events.Perm events') :
    reportedLoss events = reportedLoss events' := by
  have hattempts : attemptsOf events = attemptsOf events' :=
    List.toFinset_eq_of_perm _ _ (h.filterMap _)
  have hevents : events.toFinset = events'.toFinset := List.toFinset_eq_of_perm _ _ h
  unfold reportedLoss largestDrop
  rw [hattempts, hevents]

namespace Metrics

variable {m : Metrics}

/-- The attempts that the window remembers carry what their events have reported. -/
structure Accounts (m : Metrics) (events : List Received) : Prop where
  attempts : ∀ attempt, (m.attempts attempt).isSome = true ↔ attempt ∈ attemptsOf events
  drops : ∀ attempt, ((m.attempts attempt).getD .new).reportedDrops = largestDrop events attempt
  reported : m.reportedDrops = reportedLoss events

private theorem eq_none_of_evicted {α : Type} {evictions : Nat} {dropped : Option α}
    (h : evicted evictions dropped = 0) : dropped = none := by
  cases dropped with
  | none => rfl
  | some old => exact absurd h (evicted_ne_zero evictions old)

/-- One accepted event. -/
theorem Accounts.accept (h : m.Accounts events) (hwindows : m.Windows)
    (haccepted : (m.accept received).2 = true)
    (hevictions : (m.accept received).1.replayEvictions = 0)
    (hreported : (m.accept received).1.reportedDrops < maxU64) :
    (m.accept received).1.Accounts (events ++ [received]) := by
  obtain hrefused | hrefused | ⟨id, htakes⟩ := accept_cases m received
  · rw [hrefused] at haccepted
    exact Bool.noConfusion haccepted
  · rw [hrefused] at haccepted
    exact Bool.noConfusion haccepted
  · obtain ⟨_, _, _, oldAttempt, _, _, _, -, -, haccept⟩ := accept_taken hwindows htakes
    have hid : received.attemptId = some (received.attempt id) := by
      rw [Received.attemptId, htakes.attemptId]
      rfl
    rw [haccept] at hevictions hreported ⊢
    obtain rfl : oldAttempt = none := eq_none_of_evicted hevictions
    refine ⟨fun other => ?_, fun other => ?_, ?_⟩
    · rw [attemptsOf_concat hid, Finset.mem_insert, ← h.attempts other]
      by_cases hother : other = received.attempt id
      · simp [hother]
      · simp [hother, forget]
    · by_cases hother : other = received.attempt id
      · rw [hother, largestDrop_concat_self hid, ← h.drops]
        simp [Attempt.extend]
      · have hdifferent : received.attemptId ≠ some other := by
          rw [hid, ne_eq, Option.some.injEq]
          exact fun heq => hother heq.symm
        rw [largestDrop_concat_other hdifferent, ← h.drops]
        simp [hother, forget]
    · rw [reportedLoss_concat hid, ← h.reported, ← h.drops]
      exact saturatingAdd_of_lt hreported

theorem taken_append (m : Metrics) (calls rest : List Received) :
    m.taken (calls ++ rest) = m.taken calls ++ (m.acceptAll calls).taken rest := by
  induction calls generalizing m with
  | nil => rfl
  | cons received calls ih =>
    rw [List.cons_append, taken, taken, ih]
    split_ifs
    · rfl
    · rfl

/-- The reported drops never decrease. -/
theorem reportedDrops_accept (hwindows : m.Windows) (h : m.reportedDrops ≤ maxU64)
    (received : Received) :
    m.reportedDrops ≤ (m.accept received).1.reportedDrops ∧
      (m.accept received).1.reportedDrops ≤ maxU64 := by
  obtain hrefused | hrefused | ⟨id, htakes⟩ := accept_cases m received
  · rw [hrefused]
    exact ⟨le_rfl, h⟩
  · rw [hrefused]
    exact ⟨le_rfl, h⟩
  · obtain ⟨_, _, _, _, _, _, _, -, -, haccept⟩ := accept_taken hwindows htakes
    rw [haccept]
    exact ⟨le_saturatingAdd h, Nat.min_le_right _ _⟩

theorem reportedDrops_acceptAll (hwindows : m.Windows) (h : m.reportedDrops ≤ maxU64)
    (calls : List Received) :
    m.reportedDrops ≤ (m.acceptAll calls).reportedDrops ∧
      (m.acceptAll calls).reportedDrops ≤ maxU64 := by
  induction calls generalizing m with
  | nil => exact ⟨le_rfl, h⟩
  | cons received rest ih =>
    obtain ⟨hle, hbound⟩ := reportedDrops_accept hwindows h received
    obtain ⟨hrest, hbound'⟩ := ih (windows_accept hwindows received) hbound
    exact ⟨hle.trans hrest, hbound'⟩

/-- Without evictions the metrics account for the events taken. -/
theorem accounts_acceptAll {calls : List Received}
    (hevictions : (new.acceptAll calls).replayEvictions = 0)
    (hreported : (new.acceptAll calls).reportedDrops < maxU64) :
    (new.acceptAll calls).Accounts (new.taken calls) := by
  induction calls using List.reverseRecOn with
  | nil =>
    refine ⟨fun attempt => ?_, fun attempt => rfl, rfl⟩
    exact iff_of_false Bool.noConfusion (Finset.notMem_empty attempt)
  | append_singleton calls received ih =>
    have hwindows := windows_acceptAll windows_new calls
    have hbound := (reportedDrops_acceptAll windows_new (Nat.zero_le _) calls).2
    rw [acceptAll_append] at hevictions hreported ⊢
    rw [taken_append]
    have hbefore := ih (evictions_accept hwindows hevictions)
      ((reportedDrops_accept hwindows hbound received).1.trans_lt hreported)
    by_cases haccepted : ((new.acceptAll calls).accept received).2 = true
    · rw [taken, if_pos haccepted, taken]
      exact hbefore.accept hwindows haccepted hevictions hreported
    · rw [taken, if_neg haccepted, taken, List.append_nil]
      obtain hrefused | hrefused | ⟨id, htakes⟩ := accept_cases (new.acceptAll calls) received
      · change ((new.acceptAll calls).accept received).1.Accounts _
        rw [hrefused]
        exact ⟨hbefore.attempts, hbefore.drops, hbefore.reported⟩
      · change ((new.acceptAll calls).accept received).1.Accounts _
        rw [hrefused]
        exact ⟨hbefore.attempts, hbefore.drops, hbefore.reported⟩
      · rw [accept_of_takes htakes] at haccepted
        exact absurd rfl haccepted

end Metrics

end Leelo.Collector
