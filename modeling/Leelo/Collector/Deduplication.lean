import Leelo.Collector.Metrics

/-!
# Deduplication in the collector

Both windows stay in step with what they remember over any sequence of calls. Each one
holds the last entries of its own history, so an event or a terminal event of an attempt is
accepted again only after the window has moved on.
-/

namespace Leelo.Collector

open Leelo.Core Leelo.Core.Window
open Leelo.Telemetry (Record)

/-- The key under which an event is known. -/
def Received.eventId (received : Received) : Option EventId :=
  received.record.attemptId.map received.key

/-- The attempt an event belongs to. -/
def Received.attemptId (received : Received) : Option AttemptId :=
  received.record.attemptId.map received.attempt

/-- The attempt after one more event. -/
def Attempt.extend (attempt : Attempt) (received : Received) : Attempt :=
  ⟨max attempt.reportedDrops received.record.droppedBefore.toNat,
    attempt.terminal || received.terminal⟩

namespace Metrics

variable {m : Metrics} {received : Received} {id : Vector UInt8 16} {calls : List Received}

/-- The metrics after a list of calls. -/
def acceptAll (m : Metrics) (calls : List Received) : Metrics :=
  calls.foldl (fun m received => (m.accept received).1) m

/-- The events that a sequence of calls accepts. -/
def taken (m : Metrics) : List Received → List Received
  | [] => []
  | received :: rest =>
    if (m.accept received).2 = true then received :: taken (m.accept received).1 rest
    else taken (m.accept received).1 rest

/-- The attempt that a call admits into the window of attempts. -/
def admission (m : Metrics) (received : Received) : Option AttemptId :=
  if (m.accept received).2 = true then
    received.attemptId.filter fun attempt => (m.attempts attempt).isNone
  else none

/-- The attempts admitted by a list of calls. -/
def admissions (m : Metrics) : List Received → List AttemptId
  | [] => []
  | received :: rest => (m.admission received).toList ++ admissions (m.accept received).1 rest

/-- Each window lists what it remembers. -/
structure Windows (m : Metrics) : Prop where
  events : Tracks maxReplay m.order (· ∈ m.seen)
  attempts : Tracks maxReplay m.attemptOrder fun attempt => (m.attempts attempt).isSome = true

/-- The window of attempts after an event of an attempt that is in it or that enters it. -/
def Admits (m : Metrics) (attempt : AttemptId) (attemptOrder : List AttemptId)
    (dropped : Option AttemptId) : Prop :=
  (m.attempts attempt).isSome = true ∧ attemptOrder = m.attemptOrder ∧ dropped = none ∨
    m.attempts attempt = none ∧ Push maxReplay attempt m.attemptOrder attemptOrder dropped

/-- The table without the attempt that was dropped. -/
def forget (attempts : AttemptId → Option Attempt) (dropped : Option AttemptId) :
    AttemptId → Option Attempt :=
  dropped.elim attempts fun old => Function.update attempts old none

variable {attempt : AttemptId}

private theorem forget_of_none {attempts : AttemptId → Option Attempt}
    (h : attempts attempt = none) (dropped : Option AttemptId) :
    forget attempts dropped attempt = none := by
  cases dropped with
  | none => exact h
  | some old =>
    by_cases hold : attempt = old
    · rw [hold]
      exact Function.update_self _ _ _
    · exact (Function.update_of_ne hold _ _).trans h

/-- Admitting an attempt and then updating it. -/
theorem admitAttempt_updateAttempt (h : m.attemptOrder.length ≤ maxReplay) (attempt : AttemptId)
    (droppedBefore : Nat) (terminal : Bool) :
    ∃ attemptOrder dropped, m.Admits attempt attemptOrder dropped ∧
      (m.admitAttempt attempt).updateAttempt attempt droppedBefore terminal =
        { m with
          attempts := Function.update (forget m.attempts dropped) attempt
            (some ⟨max ((m.attempts attempt).getD .new).reportedDrops droppedBefore,
              ((m.attempts attempt).getD .new).terminal || terminal⟩)
          attemptOrder
          reportedDrops := saturatingAdd m.reportedDrops
            (droppedBefore - ((m.attempts attempt).getD .new).reportedDrops)
          replayEvictions := evicted m.replayEvictions dropped } := by
  cases hattempt : m.attempts attempt with
  | some known =>
    have hisSome : (m.attempts attempt).isSome = true := by
      rw [hattempt]
      rfl
    refine ⟨m.attemptOrder, none, .inl ⟨hisSome, rfl, rfl⟩, ?_⟩
    rw [admitAttempt_of_isSome hisSome, updateAttempt, hattempt]
    rfl
  | none =>
    obtain ⟨attemptOrder, dropped, hpush, heq⟩ := admitAttempt_push h hattempt
    refine ⟨attemptOrder, dropped, .inr ⟨hattempt, hpush⟩, ?_⟩
    have hforget := forget_of_none hattempt dropped
    unfold forget at hforget ⊢
    rw [heq, updateAttempt]
    dsimp only
    rw [hforget]

/-- What remembering an event does to both windows. -/
theorem remember_eq (hm : m.Windows) (received : Received) (id : Vector UInt8 16) :
    ∃ order oldEvent attemptOrder oldAttempt,
      Push maxReplay (received.key id) m.order order oldEvent ∧
      m.Admits (received.attempt id) attemptOrder oldAttempt ∧
      m.remember received id =
        { m with
          seen := oldEvent.elim (insert (received.key id) m.seen)
            (insert (received.key id) m.seen).erase
          order
          attempts := Function.update (forget m.attempts oldAttempt) (received.attempt id)
            (some (((m.attempts (received.attempt id)).getD .new).extend received))
          attemptOrder
          reportedDrops := saturatingAdd m.reportedDrops (received.record.droppedBefore.toNat -
            ((m.attempts (received.attempt id)).getD .new).reportedDrops)
          replayEvictions := evicted (evicted m.replayEvictions oldEvent) oldAttempt } := by
  obtain ⟨order, oldEvent, hpush, hrecord⟩ := recordSeen_push hm.events.length_le
    (received.key id)
  have hlength : (m.recordSeen (received.key id)).attemptOrder.length ≤ maxReplay := by
    rw [hrecord]
    exact hm.attempts.length_le
  obtain ⟨attemptOrder, oldAttempt, hadmits, hupdate⟩ := admitAttempt_updateAttempt hlength
    (received.attempt id) received.record.droppedBefore.toNat received.terminal
  rw [hrecord] at hadmits
  refine ⟨order, oldEvent, attemptOrder, oldAttempt, hpush, hadmits, ?_⟩
  rw [remember, hupdate, hrecord]
  rfl

/-- Everything that a call does with an event that it takes, the series apart. -/
theorem accept_taken (hm : m.Windows) (h : m.Takes received id) :
    ∃ order oldEvent attemptOrder oldAttempt counters histograms overflow,
      Push maxReplay (received.key id) m.order order oldEvent ∧
      m.Admits (received.attempt id) attemptOrder oldAttempt ∧
      m.accept received =
        ({ m with
          seen := oldEvent.elim (insert (received.key id) m.seen)
            (insert (received.key id) m.seen).erase
          order
          attempts := Function.update (forget m.attempts oldAttempt) (received.attempt id)
            (some (((m.attempts (received.attempt id)).getD .new).extend received))
          attemptOrder
          reportedDrops := saturatingAdd m.reportedDrops (received.record.droppedBefore.toNat -
            ((m.attempts (received.attempt id)).getD .new).reportedDrops)
          replayEvictions := evicted (evicted m.replayEvictions oldEvent) oldAttempt
          accepted := saturatingAdd m.accepted 1
          lastReceivedMs := max m.lastReceivedMs received.receivedAtMs.toNat
          counters
          histograms
          overflow }, true) := by
  obtain ⟨order, oldEvent, attemptOrder, oldAttempt, hpush, hadmits, hremember⟩ :=
    remember_eq hm received id
  obtain ⟨counters, histograms, overflow, hcount⟩ := count_seriesOnly
    ((m.remember received id).stamp received) received.record
  refine ⟨order, oldEvent, attemptOrder, oldAttempt, counters, histograms, overflow, hpush,
    hadmits, ?_⟩
  rw [accept_of_takes h, hcount, hremember]
  rfl

/-- The window of attempts tracks the table. -/
theorem Admits.tracks (h : m.Windows) {attemptOrder : List AttemptId} {dropped : Option AttemptId}
    (hadmits : m.Admits attempt attemptOrder dropped) (state : Attempt) :
    Tracks maxReplay attemptOrder fun other =>
      (Function.update (forget m.attempts dropped) attempt (some state) other).isSome = true := by
  obtain ⟨hisSome, rfl, rfl⟩ | ⟨hnone, hpush⟩ := hadmits
  · refine h.attempts.congr fun other => ?_
    by_cases hother : other = attempt
    · rw [hother, Function.update_self]
      exact iff_of_true hisSome rfl
    · rw [Function.update_of_ne hother]
      rfl
  · have hfresh : ¬ (m.attempts attempt).isSome = true := by
      rw [hnone]
      exact Bool.noConfusion
    refine (h.attempts.push hpush hfresh).congr fun other => ?_
    by_cases hother : other = attempt
    · rw [hother, Function.update_self]
      exact iff_of_true (.inl rfl) rfl
    · rw [Function.update_of_ne hother, or_iff_right hother]
      cases dropped with
      | none => simp [forget]
      | some old =>
        by_cases hold : other = old
        · simp [forget, hold]
        · simp [forget, Function.update_of_ne hold, Ne.symm hold]

/-- A call keeps both windows. -/
theorem windows_accept (h : m.Windows) (received : Received) : (m.accept received).1.Windows := by
  obtain hrefused | hrefused | ⟨id, htakes⟩ := accept_cases m received
  · rw [hrefused]
    exact ⟨h.events, h.attempts⟩
  · rw [hrefused]
    exact ⟨h.events, h.attempts⟩
  · obtain ⟨_, oldEvent, _, _, _, _, _, hpush, hadmits, haccept⟩ := accept_taken h htakes
    rw [haccept]
    refine ⟨(h.events.push hpush htakes.fresh).congr fun other => ?_, hadmits.tracks h _⟩
    cases oldEvent with
    | none => simp
    | some old =>
      have hold : received.key id ≠ old := fun heq =>
        htakes.fresh (heq ▸ (h.events.mem_iff old).mp hpush.mem_dropped)
      by_cases hother : other = received.key id
      · simp [hother, hold]
      · simp [hother, and_comm, eq_comm]

/-- Both windows start empty. -/
theorem windows_new : new.Windows :=
  ⟨⟨.nil, Nat.zero_le _, fun _ => by simp [new]⟩, ⟨.nil, Nat.zero_le _, fun _ => by simp [new]⟩⟩

theorem windows_acceptAll (h : m.Windows) (calls : List Received) :
    (m.acceptAll calls).Windows := by
  induction calls generalizing m with
  | nil => exact h
  | cons received rest ih => exact ih (windows_accept h received)

/-- The keys of the events that a sequence of calls accepts. -/
def keys (m : Metrics) (calls : List Received) : List EventId :=
  (m.taken calls).filterMap Received.eventId

theorem keys_cons (m : Metrics) (received : Received) (rest : List Received) :
    m.keys (received :: rest) =
      (if (m.accept received).2 = true then received.eventId.toList else []) ++
        (m.accept received).1.keys rest := by
  unfold keys
  rw [taken]
  split_ifs
  · cases hid : received.eventId with
    | none => rw [List.filterMap_cons_none hid]; rfl
    | some key => rw [List.filterMap_cons_some hid]; rfl
  · rfl

theorem order_accept (h : m.Windows) {history : List EventId}
    (horder : m.order = recent maxReplay history) (received : Received) :
    (m.accept received).1.order = recent maxReplay (history ++
      if (m.accept received).2 = true then received.eventId.toList else []) := by
  obtain hrefused | hrefused | ⟨id, htakes⟩ := accept_cases m received
  · rw [hrefused, if_neg Bool.noConfusion, List.append_nil]
    exact horder
  · rw [hrefused, if_neg Bool.noConfusion, List.append_nil]
    exact horder
  · obtain ⟨_, _, _, _, _, _, _, hpush, -, haccept⟩ := accept_taken h htakes
    rw [haccept, if_pos rfl, Received.eventId, htakes.attemptId]
    rw [horder] at hpush
    exact hpush.recent

theorem order_acceptAll (h : m.Windows) {history : List EventId}
    (horder : m.order = recent maxReplay history) (calls : List Received) :
    (m.acceptAll calls).order = recent maxReplay (history ++ m.keys calls) := by
  induction calls generalizing m history with
  | nil =>
    rw [keys, taken, List.filterMap_nil, List.append_nil]
    exact horder
  | cons received rest ih =>
    rw [keys_cons, ← List.append_assoc]
    exact ih (windows_accept h received) (order_accept h horder received)

theorem order_eq_recent (calls : List Received) :
    (new.acceptAll calls).order = recent maxReplay (new.keys calls) := by
  have hnew : new.order = recent maxReplay [] := rfl
  exact order_acceptAll windows_new hnew calls

/-- The window holds the recent attempts after a call. -/
theorem attemptOrder_accept (h : m.Windows) {history : List AttemptId}
    (horder : m.attemptOrder = recent maxReplay history) (received : Received) :
    (m.accept received).1.attemptOrder =
      recent maxReplay (history ++ (m.admission received).toList) := by
  unfold admission
  obtain hrefused | hrefused | ⟨id, htakes⟩ := accept_cases m received
  · rw [hrefused, if_neg Bool.noConfusion, Option.toList_none, List.append_nil]
    exact horder
  · rw [hrefused, if_neg Bool.noConfusion, Option.toList_none, List.append_nil]
    exact horder
  · obtain ⟨_, _, _, _, _, _, _, -, hadmits, haccept⟩ := accept_taken h htakes
    rw [haccept, if_pos rfl, Received.attemptId, htakes.attemptId, Option.map_some]
    obtain ⟨hisSome, rfl, -⟩ | ⟨hnone, hpush⟩ := hadmits
    · rw [Option.filter_some_neg (by simpa using hisSome), Option.toList_none, List.append_nil]
      exact horder
    · rw [Option.filter_some_pos (by simpa using hnone)]
      rw [horder] at hpush
      exact hpush.recent

theorem attemptOrder_acceptAll (h : m.Windows) {history : List AttemptId}
    (horder : m.attemptOrder = recent maxReplay history) (calls : List Received) :
    (m.acceptAll calls).attemptOrder = recent maxReplay (history ++ m.admissions calls) := by
  induction calls generalizing m history with
  | nil =>
    rw [admissions, List.append_nil]
    exact horder
  | cons received rest ih =>
    rw [admissions, ← List.append_assoc]
    exact ih (windows_accept h received) (attemptOrder_accept h horder received)

theorem attemptOrder_eq_recent (calls : List Received) :
    (new.acceptAll calls).attemptOrder = recent maxReplay (new.admissions calls) := by
  have hnew : new.attemptOrder = recent maxReplay [] := rfl
  exact attemptOrder_acceptAll windows_new hnew calls

/-- The window remembers a terminal event of the attempt. -/
def Ended (m : Metrics) (attempt : AttemptId) : Prop :=
  ∃ known, m.attempts attempt = some known ∧ known.terminal = true

/-- An eviction is counted. -/
theorem evicted_ne_zero {α : Type} (evictions : Nat) (old : α) :
    evicted evictions (some old) ≠ 0 := by
  rw [evicted, saturatingAdd]
  exact Nat.ne_of_gt (Nat.lt_min.mpr ⟨Nat.succ_pos _, by decide⟩)

/-- A terminal event is forgotten only with its attempt. -/
theorem Ended.accept (hended : m.Ended attempt) (h : m.Windows) (received : Received) :
    (m.accept received).1.Ended attempt ∨
      attempt ∉ (m.accept received).1.attemptOrder ∧
        (m.accept received).1.replayEvictions ≠ 0 := by
  obtain hrefused | hrefused | ⟨id, htakes⟩ := accept_cases m received
  · rw [hrefused]
    exact .inl hended
  · rw [hrefused]
    exact .inl hended
  · have hwindows := windows_accept h received
    obtain ⟨_, _, _, dropped, _, _, _, -, -, haccept⟩ := accept_taken h htakes
    obtain ⟨known, hknown, hterminal⟩ := hended
    rw [haccept] at hwindows ⊢
    by_cases hself : attempt = received.attempt id
    · refine .inl ⟨known.extend received, ?_, ?_⟩
      · rw [hself] at hknown ⊢
        dsimp only
        rw [Function.update_self, hknown, Option.getD_some]
      · rw [Attempt.extend, hterminal, Bool.true_or]
    · by_cases hdropped : dropped = some attempt
      · refine .inr ⟨fun hmem => ?_, ?_⟩
        · have hkept := (hwindows.attempts.mem_iff attempt).mp hmem
          dsimp only at hkept
          rw [Function.update_of_ne hself, hdropped, forget, Option.elim_some,
            Function.update_self] at hkept
          exact Bool.noConfusion hkept
        · rw [hdropped]
          exact evicted_ne_zero _ attempt
      · refine .inl ⟨known, ?_, hterminal⟩
        dsimp only
        rw [Function.update_of_ne hself]
        cases dropped with
        | none => exact hknown
        | some old =>
          have hold : attempt ≠ old := fun heq => hdropped (heq ▸ rfl)
          exact (Function.update_of_ne hold _ _).trans hknown

/-- A terminal event that is accepted is the first that the window knows of. -/
theorem ended_of_taken (h : m.Windows) (haccept : (m.accept received).2 = true)
    (hterminal : received.terminal = true) (hid : received.attemptId = some attempt) :
    ¬ m.Ended attempt ∧ (m.accept received).1.Ended attempt := by
  obtain hrefused | hrefused | ⟨id, htakes⟩ := accept_cases m received
  · rw [hrefused] at haccept
    exact Bool.noConfusion haccept
  · rw [hrefused] at haccept
    exact Bool.noConfusion haccept
  · obtain ⟨_, _, _, dropped, _, _, _, -, -, heq⟩ := accept_taken h htakes
    rw [Received.attemptId, htakes.attemptId, Option.map_some, Option.some.injEq] at hid
    have hpending := htakes.pending hterminal
    rw [hid] at heq hpending
    refine ⟨fun hended => ?_, ?_⟩
    · rw [(Option.any_eq_true _ _).mpr hended] at hpending
      exact Bool.noConfusion hpending
    · rw [heq]
      refine ⟨_, Function.update_self _ _ _, ?_⟩
      rw [Attempt.extend, hterminal, Bool.or_true]

theorem evictions_accept (h : m.Windows)
    (hzero : (m.accept received).1.replayEvictions = 0) : m.replayEvictions = 0 := by
  obtain hrefused | hrefused | ⟨id, htakes⟩ := accept_cases m received
  · rw [hrefused] at hzero
    exact hzero
  · rw [hrefused] at hzero
    exact hzero
  · obtain ⟨_, oldEvent, _, oldAttempt, _, _, _, -, -, haccept⟩ := accept_taken h htakes
    rw [haccept] at hzero
    cases oldAttempt with
    | some old => exact absurd hzero (evicted_ne_zero _ old)
    | none =>
      cases oldEvent with
      | some old => exact absurd hzero (evicted_ne_zero _ old)
      | none => exact hzero

theorem evictions_acceptAll (h : m.Windows)
    (hzero : (m.acceptAll calls).replayEvictions = 0) : m.replayEvictions = 0 := by
  induction calls generalizing m with
  | nil => exact hzero
  | cons received rest ih => exact evictions_accept h (ih (windows_accept h received) hzero)

/-- The attempts that a sequence of calls ends. -/
def endings (m : Metrics) (calls : List Received) : List AttemptId :=
  ((m.taken calls).filter (·.terminal)).filterMap Received.attemptId

theorem endings_cons (m : Metrics) (received : Received) (rest : List Received) :
    m.endings (received :: rest) =
      (if (m.accept received).2 = true ∧ received.terminal = true then received.attemptId.toList
        else []) ++ (m.accept received).1.endings rest := by
  unfold endings
  rw [taken]
  by_cases haccept : (m.accept received).2 = true
  · rw [if_pos haccept]
    by_cases hterminal : received.terminal = true
    · rw [if_pos ⟨haccept, hterminal⟩, List.filter_cons_of_pos hterminal]
      cases hid : received.attemptId with
      | none => rw [List.filterMap_cons_none hid]; rfl
      | some attempt => rw [List.filterMap_cons_some hid]; rfl
    · rw [if_neg fun h => hterminal h.2, List.filter_cons_of_neg hterminal]
      rfl
  · rw [if_neg haccept, if_neg fun h => haccept h.1]
    rfl

/-- Without an eviction no attempt ends twice. -/
theorem nodup_endings (h : m.Windows) (hzero : (m.acceptAll calls).replayEvictions = 0) :
    (m.endings calls).Nodup ∧ ∀ attempt ∈ m.endings calls, ¬ m.Ended attempt := by
  induction calls generalizing m with
  | nil => exact ⟨.nil, fun _ hmem => by cases hmem⟩
  | cons received rest ih =>
    have hwindows := windows_accept h received
    obtain ⟨hnodup, hopen⟩ := ih hwindows hzero
    have hkeep : ∀ attempt ∈ (m.accept received).1.endings rest, ¬ m.Ended attempt := by
      intro attempt hmem hended
      obtain hended | ⟨-, hevicted⟩ := hended.accept h received
      · exact hopen attempt hmem hended
      · exact hevicted (evictions_acceptAll hwindows hzero)
    rw [endings_cons]
    split_ifs with hends
    · cases hid : received.attemptId with
      | none => exact ⟨hnodup, hkeep⟩
      | some attempt =>
        obtain ⟨hnew, hended⟩ := ended_of_taken h hends.1 hends.2 hid
        refine ⟨List.nodup_cons.mpr ⟨fun hmem => hopen attempt hmem hended, hnodup⟩, ?_⟩
        rintro other (_ | ⟨_, hmem⟩)
        · exact hnew
        · exact hkeep other hmem
    · exact ⟨hnodup, hkeep⟩

/-- A terminal event is remembered until enough other attempts have been admitted after its
own one. -/
theorem ended_acceptAll {earlier later : List AttemptId} (h : m.Windows)
    (horder : m.attemptOrder = recent maxReplay (earlier ++ attempt :: later))
    (hended : m.Ended attempt ∨ maxReplay ≤ (later.filter (· ≠ attempt)).length)
    (calls : List Received) :
    (m.acceptAll calls).Ended attempt ∨
      maxReplay ≤ ((later ++ m.admissions calls).filter (· ≠ attempt)).length := by
  induction calls generalizing m later with
  | nil =>
    rw [admissions, List.append_nil]
    exact hended
  | cons received rest ih =>
    have hnext := attemptOrder_accept h horder received
    rw [List.append_assoc, List.cons_append] at hnext
    rw [admissions, ← List.append_assoc]
    refine ih (windows_accept h received) hnext ?_
    obtain hended | hfar := hended
    · obtain hended | ⟨hgone, -⟩ := hended.accept h received
      · exact .inl hended
      · rw [hnext] at hgone
        exact .inr (capacity_le_of_notMem hgone)
    · rw [List.filter_append, List.length_append]
      exact .inr (Nat.le_add_right_of_le hfar)

/-- The buckets are cumulative. -/
structure Cumulative (histogram : Histogram) : Prop where
  nondecreasing : ∀ i j, i ≤ j → histogram.buckets.get i ≤ histogram.buckets.get j
  le_count : ∀ i, histogram.buckets.get i ≤ histogram.count
  count_le : histogram.count ≤ maxU64

theorem cumulative_new : Cumulative .new where
  nondecreasing := by decide
  le_count := by decide
  count_le := Nat.zero_le _

private theorem buckets_mono : ∀ i j, i ≤ j → buckets.get i ≤ buckets.get j := by
  decide +kernel

private theorem get_observe (histogram : Histogram) (duration : F64) (i : Fin 9) :
    (histogram.observe duration).buckets.get i =
      if duration.le (.finite (buckets.get i)) then saturatingAdd (histogram.buckets.get i) 1
      else histogram.buckets.get i :=
  Vector.getElem_zipWith i.isLt

/-- An observation keeps a histogram cumulative. -/
theorem Cumulative.observe {histogram : Histogram} (h : Cumulative histogram) (duration : F64) :
    Cumulative (histogram.observe duration) where
  nondecreasing i j hij := by
    have hbuckets := h.nondecreasing i j hij
    have hbound := (h.le_count j).trans h.count_le
    rw [get_observe, get_observe]
    split_ifs with hi hj hj
    · exact saturatingAdd_mono hbuckets le_rfl
    · exact absurd (F64.le_finite hi (buckets_mono i j hij)) hj
    · unfold saturatingAdd
      omega
    · exact hbuckets
  le_count i := by
    have hcount := h.le_count i
    have hbound := h.count_le
    rw [get_observe]
    change _ ≤ saturatingAdd histogram.count 1
    split_ifs
    · exact saturatingAdd_mono hcount le_rfl
    · unfold saturatingAdd
      omega
  count_le := Nat.min_le_right _ _

/-- The series keep their limit and every histogram is cumulative. -/
structure Series (m : Metrics) : Prop where
  length_le : m.counters.keys.length + m.histograms.keys.length ≤ maxSeries
  cumulative : ∀ key histogram, m.histograms.lookup key = some histogram → Cumulative histogram

private theorem length_keys_insert {β : Type} (table : AList fun _ : String => β) (key : String)
    (value : β) :
    (table.insert key value).keys.length = table.keys.length ∨
      key ∉ table ∧ (table.insert key value).keys.length = table.keys.length + 1 := by
  rw [AList.keys_insert, List.length_cons]
  by_cases hmem : key ∈ table
  · have hpositive := List.length_pos_of_mem (AList.mem_keys.mp hmem)
    rw [List.length_erase_of_mem (AList.mem_keys.mp hmem)]
    exact .inl (by omega)
  · rw [List.erase_of_not_mem fun hkey => hmem (AList.mem_keys.mpr hkey)]
    exact .inr ⟨hmem, rfl⟩

theorem Series.increment (h : m.Series) (key : String) : (m.increment key).Series := by
  have hlength := h.length_le
  unfold Metrics.increment
  split_ifs with hfull
  · exact ⟨hlength, h.cumulative⟩
  · refine ⟨?_, h.cumulative⟩
    dsimp only
    obtain hkept | ⟨hnew, hgrown⟩ := length_keys_insert m.counters key
      (saturatingAdd ((m.counters.lookup key).getD 0) 1)
    · rwa [hkept]
    · have hroom : ¬ maxSeries ≤ m.series := fun hfull' => hfull ⟨hfull', hnew⟩
      rw [hgrown]
      unfold series at hroom
      omega

/-- Observing keeps the bound on the series. -/
theorem Series.observe (h : m.Series) (key : String) (duration : F64) :
    (m.observe key duration).Series := by
  have hlength := h.length_le
  unfold Metrics.observe
  split_ifs with hfull
  · exact ⟨hlength, h.cumulative⟩
  · refine ⟨?_, fun other histogram hlookup => ?_⟩
    · dsimp only
      obtain hkept | ⟨hnew, hgrown⟩ := length_keys_insert m.histograms key
        (((m.histograms.lookup key).getD .new).observe duration)
      · rwa [hkept]
      · have hroom : ¬ maxSeries ≤ m.series := fun hfull' => hfull ⟨hfull', hnew⟩
        rw [hgrown]
        unfold series at hroom
        omega
    · by_cases hother : other = key
      · have hbefore : Cumulative ((m.histograms.lookup key).getD .new) := by
          cases hfound : m.histograms.lookup key with
          | none => exact cumulative_new
          | some found => exact h.cumulative key found hfound
        rw [hother, AList.lookup_insert, Option.some.injEq] at hlookup
        exact hlookup ▸ hbefore.observe duration
      · rw [AList.lookup_insert_ne hother] at hlookup
        exact h.cumulative other histogram hlookup

theorem series_accept (h : m.Series) (hwindows : m.Windows) (received : Received) :
    (m.accept received).1.Series := by
  obtain hrefused | hrefused | ⟨id, htakes⟩ := accept_cases m received
  · rw [hrefused]
    exact ⟨h.length_le, h.cumulative⟩
  · rw [hrefused]
    exact ⟨h.length_le, h.cumulative⟩
  · obtain ⟨_, _, _, _, -, -, hremember⟩ := remember_eq hwindows received id
    rw [accept_of_takes htakes, hremember]
    refine count_induction (fun _ key h => h.increment key)
      (fun _ key duration h => h.observe key duration) ?_ received.record
    exact ⟨h.length_le, h.cumulative⟩

theorem series_acceptAll (h : m.Series) (hwindows : m.Windows) (calls : List Received) :
    (m.acceptAll calls).Series := by
  induction calls generalizing m with
  | nil => exact h
  | cons received rest ih =>
    exact ih (series_accept h hwindows received) (windows_accept hwindows received)

theorem series_new : new.Series :=
  ⟨Nat.zero_le _, fun key _ hlookup => by
    rw [new, AList.lookup_empty] at hlookup
    cases hlookup⟩

/-- No counter of calls has reached its largest value. -/
structure Unsaturated (m : Metrics) : Prop where
  accepted : m.accepted < maxU64
  rejected : m.rejected < maxU64
  duplicates : m.duplicates < maxU64

/-- The calls that were counted in one way or another. -/
def handled (m : Metrics) : Nat := m.accepted + m.rejected + m.duplicates

/-- A call is counted exactly once. -/
theorem handled_accept (hwindows : m.Windows) (h : (m.accept received).1.Unsaturated) :
    m.Unsaturated ∧ (m.accept received).1.handled = m.handled + 1 := by
  obtain ⟨haccepted, hrejected, hduplicates⟩ := h
  obtain hrefused | hrefused | ⟨id, htakes⟩ := accept_cases m received
  · rw [hrefused] at haccepted hrejected hduplicates ⊢
    have heq := saturatingAdd_of_lt hrejected
    have hbefore := Nat.lt_of_succ_lt (heq.symm.trans_lt hrejected)
    refine ⟨⟨haccepted, hbefore, hduplicates⟩, ?_⟩
    unfold handled reject
    dsimp only
    omega
  · rw [hrefused] at haccepted hrejected hduplicates ⊢
    have heq := saturatingAdd_of_lt hduplicates
    have hbefore := Nat.lt_of_succ_lt (heq.symm.trans_lt hduplicates)
    refine ⟨⟨haccepted, hrejected, hbefore⟩, ?_⟩
    unfold handled duplicate
    dsimp only
    omega
  · obtain ⟨_, _, _, _, _, _, _, -, -, haccept⟩ := accept_taken hwindows htakes
    rw [haccept] at haccepted hrejected hduplicates ⊢
    have heq := saturatingAdd_of_lt haccepted
    have hbefore := Nat.lt_of_succ_lt (heq.symm.trans_lt haccepted)
    refine ⟨⟨hbefore, hrejected, hduplicates⟩, ?_⟩
    unfold handled
    dsimp only
    omega

theorem handled_acceptAll (hwindows : m.Windows) (h : (m.acceptAll calls).Unsaturated) :
    m.Unsaturated ∧ (m.acceptAll calls).handled = m.handled + calls.length := by
  induction calls generalizing m with
  | nil => exact ⟨h, rfl⟩
  | cons received rest ih =>
    obtain ⟨hnext, hrest⟩ := ih (windows_accept hwindows received) h
    obtain ⟨hbefore, hone⟩ := handled_accept hwindows hnext
    refine ⟨hbefore, hrest.trans ?_⟩
    rw [hone, List.length_cons]
    omega

theorem acceptAll_append (m : Metrics) (calls rest : List Received) :
    m.acceptAll (calls ++ rest) = (m.acceptAll calls).acceptAll rest :=
  List.foldl_append

theorem keys_append (m : Metrics) (calls rest : List Received) :
    m.keys (calls ++ rest) = m.keys calls ++ (m.acceptAll calls).keys rest := by
  induction calls generalizing m with
  | nil => rfl
  | cons received calls ih =>
    rw [List.cons_append, keys_cons, keys_cons, ih, List.append_assoc]
    rfl

/-- An accepted event is in no window. -/
theorem key_notMem_order (h : m.Windows) (haccept : (m.accept received).2 = true) :
    ∃ key, received.eventId = some key ∧ key ∉ m.order := by
  obtain hrefused | hrefused | ⟨id, htakes⟩ := accept_cases m received
  · rw [hrefused] at haccept
    exact Bool.noConfusion haccept
  · rw [hrefused] at haccept
    exact Bool.noConfusion haccept
  · refine ⟨received.key id, ?_, fun hmem => htakes.fresh ((h.events.mem_iff _).mp hmem)⟩
    rw [Received.eventId, htakes.attemptId]
    rfl

/-- The events accepted between two acceptances of one key. -/
theorem others_between {first second : Received} {before between : List Received}
    (hfirst : ((new.acceptAll before).accept first).2 = true)
    (hsecond : ((new.acceptAll (before ++ first :: between)).accept second).2 = true)
    (hkey : first.eventId = second.eventId) :
    maxReplay ≤ ((new.acceptAll (before ++ [first])).taken between).countP
      (·.eventId ≠ first.eventId) := by
  obtain ⟨key, hid, hgone⟩ := key_notMem_order (windows_acceptAll windows_new _) hsecond
  rw [order_eq_recent, keys_append, keys_cons, if_pos hfirst, hkey, hid, Option.toList_some,
    List.singleton_append] at hgone
  have hfar := capacity_le_of_notMem hgone
  rw [← List.countP_eq_length_filter, keys, List.countP_filterMap] at hfar
  rw [acceptAll_append, hkey, hid]
  refine hfar.trans (List.countP_mono_left fun received _ hother => ?_)
  cases hreceived : received.eventId with
  | none => simp
  | some other => simpa [hreceived] using hother

/-- The admissions between two terminal events of one attempt, counted from the admission
under which the first one was accepted. -/
theorem admissions_between {first second : Received} {before between : List Received}
    (hfirst : ((new.acceptAll before).accept first).2 = true)
    (hsecond : ((new.acceptAll (before ++ first :: between)).accept second).2 = true)
    (hfirstId : first.attemptId = some attempt) (hsecondId : second.attemptId = some attempt)
    (hfirstEnds : first.terminal = true) (hsecondEnds : second.terminal = true) :
    ∃ earlier later, new.admissions (before ++ [first]) = earlier ++ attempt :: later ∧
      attempt ∉ later ∧
      maxReplay ≤ ((later ++ (new.acceptAll (before ++ [first])).admissions between).filter
        (· ≠ attempt)).length := by
  have hwindows := windows_acceptAll windows_new (before ++ [first])
  have hrun : new.acceptAll (before ++ first :: between) =
      (new.acceptAll (before ++ [first])).acceptAll between := by
    rw [← acceptAll_append, List.append_assoc, List.singleton_append]
  have hended : (new.acceptAll (before ++ [first])).Ended attempt := by
    rw [acceptAll_append]
    exact (ended_of_taken (windows_acceptAll windows_new before) hfirst hfirstEnds hfirstId).2
  -- the attempt is in the window, which ends the list of admissions
  have hmem : attempt ∈ (new.acceptAll (before ++ [first])).attemptOrder := by
    obtain ⟨known, hknown, -⟩ := hended
    rw [hwindows.attempts.mem_iff, hknown]
    rfl
  obtain ⟨older, later, horder⟩ := List.mem_iff_append.mp hmem
  have hlater : attempt ∉ later := by
    have hnodup := hwindows.attempts.nodup
    rw [horder] at hnodup
    exact (List.nodup_cons.mp (hnodup.sublist (List.sublist_append_right _ _))).1
  obtain ⟨forgotten, hhistory⟩ := exists_append_recent maxReplay
    (new.admissions (before ++ [first]))
  rw [← attemptOrder_eq_recent, horder, ← List.append_assoc] at hhistory
  refine ⟨forgotten ++ older, later, hhistory, hlater, ?_⟩
  have hrecent := attemptOrder_eq_recent (before ++ [first])
  rw [hhistory] at hrecent
  obtain hstill | hfar := ended_acceptAll hwindows hrecent (.inl hended) between
  · -- the second terminal event would have been refused
    refine absurd hstill (ended_of_taken (windows_acceptAll hwindows between) ?_ hsecondEnds
      hsecondId).1
    rw [← hrun]
    exact hsecond
  · exact hfar

/-- Over any sequence of calls the windows and the series are sound and every call is counted
once. An event is accepted again only after the window has moved past it, and an attempt ends
again only after the window has moved past its admission. -/
theorem accept_deduplicates :
    (∀ calls, (new.acceptAll calls).Windows ∧ (new.acceptAll calls).Series ∧
      ((new.acceptAll calls).Unsaturated →
        (new.acceptAll calls).accepted + (new.acceptAll calls).rejected +
          (new.acceptAll calls).duplicates = calls.length) ∧
      ((new.acceptAll calls).replayEvictions = 0 → (new.endings calls).Nodup)) ∧
    ∀ before first between second, ((new.acceptAll before).accept first).2 = true →
      ((new.acceptAll (before ++ first :: between)).accept second).2 = true →
      (first.eventId = second.eventId →
        maxReplay ≤ ((new.acceptAll (before ++ [first])).taken between).countP
          (·.eventId ≠ first.eventId)) ∧
      ∀ attempt, first.attemptId = some attempt → second.attemptId = some attempt →
        first.terminal = true → second.terminal = true →
        ∃ earlier later, new.admissions (before ++ [first]) = earlier ++ attempt :: later ∧
          attempt ∉ later ∧
          maxReplay ≤ ((later ++ (new.acceptAll (before ++ [first])).admissions between).filter
            (· ≠ attempt)).length := by
  refine ⟨fun calls => ⟨windows_acceptAll windows_new calls,
    series_acceptAll series_new windows_new calls, fun hunsaturated => ?_,
    fun hzero => (nodup_endings windows_new hzero).1⟩, ?_⟩
  · have hhandled := (handled_acceptAll windows_new hunsaturated).2
    rwa [show new.handled = 0 from rfl, Nat.zero_add] at hhandled
  · intro before first between second hfirst hsecond
    exact ⟨others_between hfirst hsecond, fun attempt hfirstId hsecondId hfirstEnds hsecondEnds =>
      admissions_between hfirst hsecond hfirstId hsecondId hfirstEnds hsecondEnds⟩

/-- A client reports that an unlock check succeeded. -/
def checkCompleted (sequence droppedBefore : UInt64) : Received where
  sourceUid := 1000
  sourcePid := 7
  receivedAtMs := 1
  record :=
    { schemaVersion := 1, component := "client", event := "operation_completed",
      operation := "check", stage := "check", outcome := "success", reason := "none",
      durationSeconds := .finite 2, mode := "network_bound", providerIndex := none,
      storageState := "not_applicable", awaitingBootTest := false, degraded := true,
      nativeCode := none, softwareVersion := "1.0.0", attemptId := some (Vector.replicate 16 7),
      bootId := none, sequence, unixTimeMs := none, droppedBefore }

/-- The event, its duplicate and a second terminal event of the attempt. -/
theorem accept_deduplicates_check :
    (new.acceptAll [checkCompleted 1 0, checkCompleted 1 0, checkCompleted 2 3]).accepted = 1 ∧
    (new.acceptAll [checkCompleted 1 0, checkCompleted 1 0, checkCompleted 2 3]).accepted +
      (new.acceptAll [checkCompleted 1 0, checkCompleted 1 0, checkCompleted 2 3]).rejected +
        (new.acceptAll [checkCompleted 1 0, checkCompleted 1 0, checkCompleted 2 3]).duplicates =
          3 :=
  ⟨by decide +kernel, (accept_deduplicates.1
    [checkCompleted 1 0, checkCompleted 1 0, checkCompleted 2 3]).2.2.1
      ⟨by decide +kernel, by decide +kernel, by decide +kernel⟩⟩

end Metrics

end Leelo.Collector
