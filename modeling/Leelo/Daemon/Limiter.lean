import Mathlib.Data.List.Nodup
import Leelo.Core.Bounded
import Leelo.Core.Interleaving

/-!
# The flood limiter of the daemon

Diagnostics of all calls share one window number. A call computes its window, loads the
shared one, and emits if it can exchange the loaded number for its own. The comparison is
an inequality: a call that loads a later window than its own puts the number back, and
the later window is emitted once more.
-/

namespace Leelo.Daemon

open Leelo.Core

/-- The texts of a diagnostic. -/
structure Notice where
  name : String
  stage : String
  outcome : String
  reason : String

/-- The shared accesses of a call. -/
inductive LimiterOp where
  | elapsed
  | load
  | compareExchange (previous window : Nat)
  | addSuppressed
  | lifecycle (notice : Notice)

/-- The answer to each operation. -/
abbrev LimiterOp.Ans : LimiterOp → Type
  /- Seconds of the monotonic clock since the start. -/
  | .elapsed => Nat
  | .load => Nat
  | .compareExchange .. => Bool
  | .addSuppressed => Unit
  | .lifecycle _ => Unit

/-- The five-second window of a time, counted from one. -/
def windowOf (seconds : Nat) : Nat := seconds / 5 + 1

/-- The program of one call. -/
abbrev LimiterCall := Program LimiterOp LimiterOp.Ans Unit

/-- Counts a suppressed event. -/
def suppress : LimiterCall := .call .addSuppressed .done

/-- Claims the window, and reports the event where that succeeds. -/
def exchange (notice : Notice) (window previous : Nat) : LimiterCall :=
  if previous = window then suppress
  else .call (.compareExchange previous window) fun exchanged =>
    if exchanged then .call (.lifecycle notice) .done else suppress

/-- One call of the limiter. -/
def event (notice : Notice) : LimiterCall :=
  .call .elapsed fun seconds => .call .load fun previous =>
    exchange notice (windowOf seconds) previous

/-- What a call did. -/
inductive Report where
  | exchanged (window : Nat)
  | emitted (window : Nat)
  | suppressed
  deriving DecidableEq

/-- The clock and the two counters, with the window and the reports of every call. -/
structure Limiter (ι : Type) where
  now : Nat
  eventWindow : Nat
  suppressedEvents : Nat
  windows : ι → Option Nat
  log : List (ι × Report)

variable {ι : Type} [DecidableEq ι]

/-- Notes what a call did. -/
def Limiter.report (s : Limiter ι) (i : ι) (report : Report) : Limiter ι :=
  { s with log := s.log ++ [(i, report)] }

/-- Each access is atomic. -/
def respond (i : ι) : (op : LimiterOp) → Limiter ι → op.Ans × Limiter ι
  | .elapsed, s =>
    (s.now, { s with windows := Function.update s.windows i (some (windowOf s.now)) })
  | .load, s => (s.eventWindow, s)
  | .compareExchange previous window, s =>
    if s.eventWindow = previous then
      (true, { s with eventWindow := window }.report i (.exchanged window))
    else (false, s)
  | .addSuppressed, s =>
    ((), { s with suppressedEvents := saturatingAdd s.suppressedEvents 1 }.report i .suppressed)
  | .lifecycle _, s => ((), s.report i (.emitted ((s.windows i).getD 0)))

/-- The monotonic clock goes on. -/
def ticks (s s' : Limiter ι) : Prop := ∃ now, s.now ≤ now ∧ s' = { s with now }

/-- The behaviour of the shared limiter. -/
def responds (i : ι) : Program.Behaviour LimiterOp LimiterOp.Ans (Limiter ι) :=
  fun op s answer s' => (answer, s') = respond i op s

/-- The limiter with its calls. -/
abbrev Calls (ι : Type) := System ι LimiterOp LimiterOp.Ans Unit (Limiter ι)

/-- Calls that have not begun, on new metrics. -/
def start (notices : ι → Notice) (now : Nat) : Calls ι where
  programs i := event (notices i)
  state := ⟨now, 0, 0, fun _ => none, []⟩

/-- The window numbers of the emitted events. -/
def emittedWindows (log : List (ι × Report)) : List Nat :=
  log.filterMap fun entry =>
    match entry.2 with
    | .emitted window => some window
    | _ => none

/-- How the calls ended, as a call's own reports. -/
def endings (log : List (ι × Report)) (i : ι) : List Report :=
  (log.filter fun entry => entry.1 = i).map Prod.snd |>.filter fun report =>
    match report with
    | .exchanged _ => false
    | _ => true

/-- A call loads no later window than it computed. -/
def Timely (i : ι) (op : LimiterOp) (s : Limiter ι) : Prop :=
  op = .load → ∀ window, s.windows i = some window → s.eventWindow ≤ window

/-- The place of a call in its program, with what is known of the shared state there. With
`timely` set, no call has loaded a later window. -/
inductive Place (timely : Prop) (notice : Notice) (i : ι) (s : Limiter ι) : LimiterCall → Prop where
  | begun (hnone : endings s.log i = []) :
      Place timely notice i s (.call .elapsed fun seconds => .call .load fun previous =>
        exchange notice (windowOf seconds) previous)
  | computed (window : Nat) (hwindow : s.windows i = some window)
      (hnone : endings s.log i = []) :
      Place timely notice i s (.call .load fun previous => exchange notice window previous)
  | loaded (window previous : Nat) (hwindow : s.windows i = some window)
      (hne : previous ≠ window) (hle : timely → previous ≤ window)
      (hnone : endings s.log i = []) :
      Place timely notice i s (.call (.compareExchange previous window) fun exchanged =>
        if exchanged then .call (.lifecycle notice) .done else suppress)
  | exchanged (window : Nat) (hwindow : s.windows i = some window)
      (hlog : (i, .exchanged window) ∈ s.log) (hnone : endings s.log i = []) :
      Place timely notice i s (.call (.lifecycle notice) .done)
  | suppressing (hnone : endings s.log i = []) :
      Place timely notice i s (.call .addSuppressed .done)
  | ended (report : Report) (h : endings s.log i = [report]) : Place timely notice i s (.done ())

/-- The window number and the emitted events agree with the exchanges that were made. -/
structure Accounted (timely : Prop) (s : Limiter ι) : Prop where
  suppressed : s.suppressedEvents =
    min (s.log.countP fun entry => entry.2 = .suppressed) maxU64
  emitted : ∀ i window, (i, .emitted window) ∈ s.log → (i, .exchanged window) ∈ s.log
  exchanged : timely → ∀ i window, (i, .exchanged window) ∈ s.log → window ≤ s.eventWindow
  unique : timely → ∀ i j window, (i, .exchanged window) ∈ s.log →
    (j, .exchanged window) ∈ s.log → i = j
  nodup : timely → (emittedWindows s.log).Nodup

/-- The step of a call, under the condition if it is assumed. -/
def behaves (timely : Prop) (i : ι) : Program.Behaviour LimiterOp LimiterOp.Ans (Limiter ι) :=
  fun op s answer s' => responds i op s answer s' ∧ (timely → Timely i op s)

section Steps

variable {timely : Prop} {notice : Notice} {i j : ι} {s s' : Limiter ι} {p : LimiterCall}

theorem endings_append (log added : List (ι × Report)) (i : ι) :
    endings (log ++ added) i = endings log i ++ endings added i := by
  simp only [endings, List.filter_append, List.map_append]

theorem endings_of_ne {added : List (ι × Report)} (h : ∀ entry ∈ added, entry.1 ≠ j) :
    endings added j = [] := by
  have hnone : (added.filter fun entry => entry.1 = j) = [] :=
    List.filter_eq_nil_iff.mpr fun entry hentry hsame => h entry hentry (of_decide_eq_true hsame)
  rw [endings, hnone]
  rfl

/-- A call adds its own reports and changes its own window only. -/
theorem respond_frame (i : ι) (op : LimiterOp) (s : Limiter ι) :
    (∃ added, (respond i op s).2.log = s.log ++ added ∧ ∀ entry ∈ added, entry.1 = i) ∧
      ∀ j ≠ i, (respond i op s).2.windows j = s.windows j := by
  cases op with
  | elapsed =>
    exact ⟨⟨[], (List.append_nil _).symm, by simp⟩, fun j hj => Function.update_of_ne hj _ _⟩
  | load => exact ⟨⟨[], (List.append_nil _).symm, by simp⟩, fun _ _ => rfl⟩
  | compareExchange previous window =>
    by_cases h : s.eventWindow = previous
    · simp only [respond, if_pos h]
      exact ⟨⟨[_], rfl, by simp⟩, fun _ _ => rfl⟩
    · simp only [respond, if_neg h]
      exact ⟨⟨[], (List.append_nil _).symm, by simp⟩, fun _ _ => trivial⟩
  | addSuppressed => exact ⟨⟨[_], rfl, by simp⟩, fun _ _ => rfl⟩
  | lifecycle _ => exact ⟨⟨[_], rfl, by simp⟩, fun _ _ => rfl⟩

/-- A place is kept while the call's window and endings stay and no report is lost. -/
theorem Place.mono (h : Place timely notice i s p) (hwindows : s'.windows i = s.windows i)
    (hendings : endings s'.log i = endings s.log i) (hlog : ∀ entry ∈ s.log, entry ∈ s'.log) :
    Place timely notice i s' p := by
  cases h with
  | begun hnone => exact .begun (hendings.trans hnone)
  | computed window hwindow hnone =>
    exact .computed window (hwindows.trans hwindow) (hendings.trans hnone)
  | loaded window previous hwindow hne hle hnone =>
    exact .loaded window previous (hwindows.trans hwindow) hne hle (hendings.trans hnone)
  | exchanged window hwindow hmem hnone =>
    exact .exchanged window (hwindows.trans hwindow) (hlog _ hmem) (hendings.trans hnone)
  | suppressing hnone => exact .suppressing (hendings.trans hnone)
  | ended report hone => exact .ended report (hendings.trans hone)

/-- A call's step leaves the places of the others. -/
theorem Place.others (h : Place timely notice j s p) (hji : j ≠ i) {op : LimiterOp}
    {answer : op.Ans} (hstep : responds i op s answer s') : Place timely notice j s' p := by
  obtain ⟨⟨added, hlog, hown⟩, hwindows⟩ := respond_frame i op s
  rw [← show s' = (respond i op s).2 from congrArg Prod.snd hstep] at hlog hwindows
  refine h.mono (hwindows j hji) ?_ fun entry hentry => ?_
  · have hothers : endings added j = [] :=
      endings_of_ne fun entry hentry hsame => hji (hsame.symm.trans (hown entry hentry))
    rw [hlog, endings_append, hothers, List.append_nil]
  · rw [hlog]
    exact List.mem_append_left _ hentry

omit [DecidableEq ι] in
theorem countP_suppressed (log : List (ι × Report)) (i : ι) (report : Report) :
    (log ++ [(i, report)]).countP (fun entry => entry.2 = .suppressed) =
      log.countP (fun entry => entry.2 = .suppressed) + if report = .suppressed then 1 else 0 := by
  rw [List.countP_append, List.countP_singleton]
  simp

omit [DecidableEq ι] in
theorem mem_log {log : List (ι × Report)} {report report' : Report}
    (h : (j, report') ∈ log ++ [(i, report)]) :
    (j, report') ∈ log ∨ j = i ∧ report' = report := by
  rcases List.mem_append.mp h with h | h
  · exact .inl h
  · cases List.mem_singleton.mp h
    exact .inr ⟨rfl, rfl⟩

omit [DecidableEq ι] in
/-- An exchange for a later window keeps the account. -/
theorem Accounted.exchange (h : Accounted timely s) {window : Nat}
    (hlater : timely → s.eventWindow < window) :
    Accounted timely ({ s with eventWindow := window }.report i (.exchanged window)) where
  suppressed := by
    simp only [Limiter.report, countP_suppressed, reduceCtorEq, if_false, Nat.add_zero]
    exact h.suppressed
  emitted j w hemitted := by
    obtain hold | ⟨-, hnew⟩ := mem_log hemitted
    · exact List.mem_append_left _ (h.emitted j w hold)
    · cases hnew
  exchanged htimely j w hexchanged := by
    obtain hold | ⟨-, hnew⟩ := mem_log hexchanged
    · exact Nat.le_of_lt (Nat.lt_of_le_of_lt (h.exchanged htimely j w hold) (hlater htimely))
    · cases hnew
      exact Nat.le_refl _
  unique htimely j k w hj hk := by
    -- no earlier exchange was for a window that late
    have hfresh : ∀ j, (j, Report.exchanged window) ∉ s.log := fun j hold =>
      absurd (hlater htimely) (Nat.not_lt.mpr (h.exchanged htimely j window hold))
    obtain hold | ⟨rfl, hnew⟩ := mem_log hj
    · obtain hold' | ⟨-, hnew'⟩ := mem_log hk
      · exact h.unique htimely j k w hold hold'
      · cases hnew'
        exact absurd hold (hfresh j)
    · obtain hold' | ⟨rfl, -⟩ := mem_log hk
      · cases hnew
        exact absurd hold' (hfresh k)
      · rfl
  nodup htimely := by
    simp only [Limiter.report, emittedWindows, List.filterMap_append, List.filterMap_cons,
      List.filterMap_nil, List.append_nil]
    exact h.nodup htimely

omit [DecidableEq ι] in
/-- Counting a suppression keeps the accounts. -/
theorem Accounted.suppress (h : Accounted timely s) :
    Accounted timely
      ({ s with suppressedEvents := saturatingAdd s.suppressedEvents 1 }.report i .suppressed) where
  suppressed := by
    have hcount := h.suppressed
    simp only [Limiter.report, countP_suppressed, saturatingAdd, if_true]
    omega
  emitted j w hemitted := by
    obtain hold | ⟨-, hnew⟩ := mem_log hemitted
    · exact List.mem_append_left _ (h.emitted j w hold)
    · cases hnew
  exchanged htimely j w hexchanged := by
    obtain hold | ⟨-, hnew⟩ := mem_log hexchanged
    · exact h.exchanged htimely j w hold
    · cases hnew
  unique htimely j k w hj hk := by
    obtain hj | ⟨-, hj⟩ := mem_log hj
    · obtain hk | ⟨-, hk⟩ := mem_log hk
      · exact h.unique htimely j k w hj hk
      · cases hk
    · cases hj
  nodup htimely := by
    simp only [Limiter.report, emittedWindows, List.filterMap_append, List.filterMap_cons,
      List.filterMap_nil, List.append_nil]
    exact h.nodup htimely

omit [DecidableEq ι] in
theorem mem_emittedWindows {log : List (ι × Report)} {window : Nat} :
    window ∈ emittedWindows log ↔ ∃ i, (i, .emitted window) ∈ log := by
  rw [emittedWindows, List.mem_filterMap]
  constructor
  · rintro ⟨⟨i, report⟩, hentry, hwindow⟩
    cases report with
    | emitted other =>
      cases hwindow
      exact ⟨i, hentry⟩
    | exchanged _ => cases hwindow
    | suppressed => cases hwindow
  · rintro ⟨i, hentry⟩
    exact ⟨_, hentry, rfl⟩

theorem notMem_of_endings (h : endings s.log i = []) (window : Nat) :
    (i, Report.emitted window) ∉ s.log := by
  intro hentry
  have hmem : Report.emitted window ∈ endings s.log i :=
    List.mem_filter.mpr ⟨List.mem_map.mpr
      ⟨_, List.mem_filter.mpr ⟨hentry, decide_eq_true rfl⟩, rfl⟩, rfl⟩
  rw [h] at hmem
  cases hmem

/-- The call that made the exchange emits its window for the first time. -/
theorem Accounted.emit (h : Accounted timely s) {window : Nat}
    (hlog : (i, .exchanged window) ∈ s.log) (hnone : endings s.log i = []) :
    Accounted timely (s.report i (.emitted window)) where
  suppressed := by
    simp only [Limiter.report, countP_suppressed, reduceCtorEq, if_false, Nat.add_zero]
    exact h.suppressed
  emitted j w hemitted := by
    obtain hold | ⟨rfl, hnew⟩ := mem_log hemitted
    · exact List.mem_append_left _ (h.emitted j w hold)
    · cases hnew
      exact List.mem_append_left _ hlog
  exchanged htimely j w hexchanged := by
    obtain hold | ⟨-, hnew⟩ := mem_log hexchanged
    · exact h.exchanged htimely j w hold
    · cases hnew
  unique htimely j k w hj hk := by
    obtain hj | ⟨-, hj⟩ := mem_log hj
    · obtain hk | ⟨-, hk⟩ := mem_log hk
      · exact h.unique htimely j k w hj hk
      · cases hk
    · cases hj
  nodup htimely := by
    have hfresh : window ∉ emittedWindows s.log := by
      intro hmem
      obtain ⟨j, hj⟩ := mem_emittedWindows.mp hmem
      obtain rfl := h.unique htimely i j window hlog (h.emitted j window hj)
      exact notMem_of_endings hnone window hj
    have hlast : emittedWindows (s.log ++ [(i, .emitted window)]) =
        emittedWindows s.log ++ [window] := by
      simp only [emittedWindows, List.filterMap_append, List.filterMap_cons, List.filterMap_nil]
    rw [Limiter.report, hlast]
    exact List.nodup_append_comm.mp (List.nodup_cons.mpr ⟨hfresh, h.nodup htimely⟩)

theorem place_exchange {window previous : Nat} (hwindow : s.windows i = some window)
    (hle : timely → previous ≤ window) (hnone : endings s.log i = []) :
    Place timely notice i s (exchange notice window previous) := by
  unfold exchange
  split_ifs with hsame
  · exact .suppressing hnone
  · exact .loaded window previous hwindow hsame hle hnone

/-- The first ending of a call. -/
theorem endings_last {log : List (ι × Report)} (hnone : endings log i = []) (report : Report) :
    endings (log ++ [(i, report)]) i = endings [(i, report)] i := by
  rw [endings_append, hnone, List.nil_append]

/-- One step of a call. -/
theorem Place.step {op : LimiterOp} {next : op.Ans → LimiterCall} {answer : op.Ans}
    (hinv : Accounted timely s) (h : Place timely notice i s (.call op next))
    (hstep : behaves timely i op s answer s') :
    (Accounted timely s' ∧ (timely → s.eventWindow ≤ s'.eventWindow)) ∧
      Place timely notice i s' (next answer) := by
  obtain ⟨hresponds, htimely⟩ := hstep
  cases h with
  | begun hnone =>
    cases hresponds
    refine ⟨⟨⟨hinv.suppressed, hinv.emitted, hinv.exchanged, hinv.unique, hinv.nodup⟩,
      fun _ => Nat.le_refl _⟩, ?_⟩
    exact .computed _ (Function.update_self ..) hnone
  | computed window hwindow hnone =>
    cases hresponds
    exact ⟨⟨hinv, fun _ => Nat.le_refl _⟩,
      place_exchange hwindow (fun h => htimely h rfl window hwindow) hnone⟩
  | loaded window previous hwindow hne hle hnone =>
    by_cases hsame : s.eventWindow = previous
    · simp only [responds, respond, if_pos hsame] at hresponds
      cases hresponds
      have hlater : timely → s.eventWindow < window := fun h =>
        Nat.lt_of_le_of_ne (hsame ▸ hle h) (hsame ▸ hne)
      refine ⟨⟨hinv.exchange hlater, fun h => Nat.le_of_lt (hlater h)⟩, ?_⟩
      refine .exchanged window hwindow (List.mem_append_right _ List.mem_cons_self) ?_
      exact (endings_last hnone _).trans (by simp [endings])
    · simp only [responds, respond, if_neg hsame] at hresponds
      cases hresponds
      exact ⟨⟨hinv, fun _ => Nat.le_refl _⟩, .suppressing hnone⟩
  | exchanged window hwindow hlog hnone =>
    simp only [responds, respond, hwindow, Option.getD_some] at hresponds
    cases hresponds
    refine ⟨⟨hinv.emit hlog hnone, fun _ => Nat.le_refl _⟩, .ended (.emitted window) ?_⟩
    exact (endings_last hnone _).trans (by simp [endings])
  | suppressing hnone =>
    cases hresponds
    refine ⟨⟨hinv.suppress, fun _ => Nat.le_refl _⟩, .ended .suppressed ?_⟩
    exact (endings_last hnone _).trans (by simp [endings])

end Steps

section Runs

variable {timely : Prop} {notices : ι → Notice} {now : Nat} {c c' : Calls ι}

/-- What holds of a system in which every call is at its place. -/
def Ordered (timely : Prop) (notices : ι → Notice) (c : Calls ι) : Prop :=
  Accounted timely c.state ∧ ∀ i, Place timely (notices i) i c.state (c.programs i)

/-- Calls start in order. -/
theorem ordered_start (notices : ι → Notice) (now : Nat) :
    Ordered timely notices (start notices now) := by
  refine ⟨⟨rfl, ?_, ?_, ?_, fun _ => List.nodup_nil⟩, fun i => .begun rfl⟩
  · exact fun _ _ h => absurd h List.not_mem_nil
  · exact fun _ _ _ h => absurd h List.not_mem_nil
  · exact fun _ _ _ _ h => absurd h List.not_mem_nil

/-- A run keeps the order, and the window number of a timely run does not decrease. -/
theorem Ordered.reaches (h : Ordered timely notices c)
    (hreach : System.Reaches (behaves timely) ticks c c') :
    Ordered timely notices c' ∧ (timely → c.state.eventWindow ≤ c'.state.eventWindow) := by
  obtain ⟨⟨hinv, hle⟩, hplaces⟩ := System.Reaches.invariant
    (fun s => Accounted timely s ∧ (timely → c.state.eventWindow ≤ s.eventWindow))
    (fun i s p => Place timely (notices i) i s p)
    (fun hinv hplace hstep => by
      obtain ⟨⟨hinv', hle⟩, hplace'⟩ := hplace.step hinv.1 hstep
      exact ⟨⟨hinv', fun h => Nat.le_trans (hinv.2 h) (hle h)⟩, hplace'⟩)
    (fun hji _ hstep hplace => hplace.others hji hstep.1)
    (fun hinv htick => by
      obtain ⟨now, -, rfl⟩ := htick
      obtain ⟨hinv, hle⟩ := hinv
      exact ⟨⟨⟨hinv.suppressed, hinv.emitted, hinv.exchanged, hinv.unique, hinv.nodup⟩, hle⟩,
        fun i p hplace => hplace.mono rfl rfl fun _ hentry => hentry⟩)
    ⟨h.1, fun _ => Nat.le_refl _⟩ h.2 hreach
  exact ⟨⟨hinv, hplaces⟩, hle⟩

/-- A call that has ended has emitted its event or counted it as suppressed. -/
theorem Place.of_done {notice : Notice} {i : ι} {s : Limiter ι}
    (h : Place timely notice i s (.done ())) :
    (∃ window, endings s.log i = [.emitted window]) ∨ endings s.log i = [.suppressed] := by
  obtain ⟨report, hone⟩ : ∃ report, endings s.log i = [report] := by
    cases h with
    | ended report hone => exact ⟨report, hone⟩
  have hmem : report ∈ endings s.log i := by
    rw [hone]
    exact List.mem_cons_self
  have hending := (List.mem_filter.mp hmem).2
  cases report with
  | exchanged window => cases hending
  | emitted window => exact .inl ⟨window, hone⟩
  | suppressed => exact .inr hone

end Runs

/-- Every call that ends has either emitted its event or counted it as suppressed, however the
calls interleave. While no call loads a later window than it computed, no window is emitted
twice and the window number does not decrease. -/
theorem event_limited (notices : ι → Notice) (now : Nat) (c : Calls ι) :
    (System.Reaches responds ticks (start notices now) c →
      c.state.suppressedEvents =
        min (c.state.log.countP fun entry => entry.2 = .suppressed) maxU64 ∧
      ∀ i, c.programs i = .done () →
        (∃ window, endings c.state.log i = [.emitted window]) ∨
          endings c.state.log i = [.suppressed]) ∧
    (System.Reaches (fun i op s answer s' => responds i op s answer s' ∧ Timely i op s) ticks
        (start notices now) c →
      (emittedWindows c.state.log).Nodup ∧
      ∀ c', System.Reaches (fun i op s answer s' => responds i op s answer s' ∧ Timely i op s)
        ticks c c' → c.state.eventWindow ≤ c'.state.eventWindow) := by
  constructor
  · intro hreach
    have hany : System.Reaches (behaves False) ticks (start notices now) c :=
      System.Reaches.mono (fun h => ⟨h, False.elim⟩) hreach
    obtain ⟨⟨hinv, hplaces⟩, -⟩ := (ordered_start notices now).reaches hany
    refine ⟨hinv.suppressed, fun i hdone => ?_⟩
    have hplace := hplaces i
    rw [hdone] at hplace
    exact hplace.of_done
  · intro hreach
    have htimely : ∀ {c c' : Calls ι}, System.Reaches
        (fun i op s answer s' => responds i op s answer s' ∧ Timely i op s) ticks c c' →
        System.Reaches (behaves True) ticks c c' :=
      System.Reaches.mono fun h => ⟨h.1, fun _ => h.2⟩
    obtain ⟨hordered, -⟩ := (ordered_start notices now).reaches (htimely hreach)
    exact ⟨hordered.1.nodup trivial, fun c' h => (hordered.reaches (htimely h)).2 trivial⟩

/-- A call of the first window is overtaken by one of the second, loads its window and puts the
number back. The next call of the second window then emits once more. -/
theorem event_limited_overtaken : ∃ before after later : Calls (Fin 3),
    System.Reaches responds ticks (start (fun _ => ⟨"", "", "", ""⟩) 0) before ∧
    System.Reaches responds ticks before after ∧ System.Reaches responds ticks after later ∧
    before.state.eventWindow = 2 ∧ after.state.eventWindow = 1 ∧
    emittedWindows later.state.log = [2, 1, 2] := by
  have hresponds : ∀ (i : Fin 3) op s, responds i op s (respond i op s).1 (respond i op s).2 :=
    fun _ _ _ => rfl
  -- the first call computes its window in the first five seconds
  let computed : Calls (Fin 3) :=
    [0].foldl (System.turn respond) (start (fun _ => ⟨"", "", "", ""⟩) 0)
  let ticked : Calls (Fin 3) := ⟨computed.programs, { computed.state with now := 5 }⟩
  let before := [1, 1, 1, 1].foldl (System.turn respond) ticked
  let after := [0, 0, 0].foldl (System.turn respond) before
  refine ⟨before, after, [2, 2, 2, 2].foldl (System.turn respond) after, ?_, ?_, ?_, ?_⟩
  · have htick : System.Step responds ticks computed ticked := .outside ⟨5, Nat.zero_le _, rfl⟩
    exact ((System.reaches_turns hresponds [0] _).tail htick).trans
      (System.reaches_turns hresponds _ _)
  · exact System.reaches_turns hresponds _ _
  · exact System.reaches_turns hresponds _ _
  · decide +kernel

end Leelo.Daemon
