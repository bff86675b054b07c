import Leelo.Collector.Events

/-!
# Restart of the collector

After any history a start finds the complete lines of the events that were written, cuts off
a torn line, and reaches metrics that agree with those after the last of these events in
everything that the logs determine.
-/

namespace Leelo.Collector

open Leelo.Core Leelo.Core.Json Leelo.Telemetry

/-- The part of the metrics that the logs determine. -/
structure Replayed where
  seen : Finset EventId
  order : List EventId
  attempts : AttemptId → Option Attempt
  attemptOrder : List AttemptId
  counters : AList fun _ : String => Nat
  histograms : AList fun _ : String => Histogram
  accepted : Nat
  reportedDrops : Nat

namespace Metrics

variable {m m' : Metrics} {received : Received}

/-- The part of the state that a replay restores. -/
def replayed (m : Metrics) : Replayed :=
  ⟨m.seen, m.order, m.attempts, m.attemptOrder, m.counters, m.histograms, m.accepted,
    m.reportedDrops⟩

section Replays

variable (h : m.replayed = m'.replayed)

include h

/-- Equal metrics up to what the logs do not determine. -/
theorem eq_of_replayed :
    ∃ replayEvictions rejected duplicates overflow writeFailures lastReceivedMs, m' =
      { m with
        replayEvictions, rejected, duplicates, overflow, writeFailures, lastReceivedMs } := by
  obtain ⟨_, _, _, _, _, _, _, _, _, _, _, _, _, _⟩ := m
  obtain ⟨_, _, _, _, _, _, _, _, _, _, _, _, _, _⟩ := m'
  simp only [replayed, Replayed.mk.injEq] at h
  obtain ⟨rfl, rfl, rfl, rfl, rfl, rfl, rfl, rfl⟩ := h
  exact ⟨_, _, _, _, _, _, rfl⟩

theorem replayed_increment (key : String) :
    (m.increment key).replayed = (m'.increment key).replayed := by
  obtain ⟨_, _, _, _, _, _, rfl⟩ := eq_of_replayed h
  unfold increment series
  dsimp only
  split_ifs
  · rfl
  · rfl

theorem replayed_observe (key : String) (duration : F64) :
    (m.observe key duration).replayed = (m'.observe key duration).replayed := by
  obtain ⟨_, _, _, _, _, _, rfl⟩ := eq_of_replayed h
  unfold observe series
  dsimp only
  split_ifs
  · rfl
  · rfl

theorem replayed_recordSeen (key : EventId) :
    (m.recordSeen key).replayed = (m'.recordSeen key).replayed := by
  obtain ⟨_, _, _, _, _, _, rfl⟩ := eq_of_replayed h
  unfold recordSeen
  dsimp only
  split_ifs
  · split
    · rfl
    · rfl
  · rfl

theorem replayed_admitAttempt (attempt : AttemptId) :
    (m.admitAttempt attempt).replayed = (m'.admitAttempt attempt).replayed := by
  obtain ⟨_, _, _, _, _, _, rfl⟩ := eq_of_replayed h
  unfold admitAttempt evictAttempt
  dsimp only
  split_ifs
  · rfl
  · split
    · rfl
    · rfl
  · rfl

theorem replayed_remember (received : Received) (id : Vector UInt8 16) :
    (m.remember received id).replayed = (m'.remember received id).replayed := by
  have hadmit := replayed_admitAttempt (replayed_recordSeen h (received.key id))
    (received.attempt id)
  obtain ⟨_, _, _, _, _, _, heq⟩ := eq_of_replayed hadmit
  unfold remember
  rw [heq]
  rfl

theorem replayed_count (r : Record) :
    (m.count r).replayed = (m'.count r).replayed :=
  count_rel (R := fun m m' => m.replayed = m'.replayed)
    (fun _ _ key h => replayed_increment h key)
    (fun _ _ key duration h => replayed_observe h key duration) h r

/-- The result of a call and what the logs determine after it depend only on what they
determine before it. -/
theorem accept_congr (received : Received) :
    (m.accept received).2 = (m'.accept received).2 ∧
      (m.accept received).1.replayed = (m'.accept received).1.replayed := by
  have hseen : m.seen = m'.seen := congrArg Replayed.seen h
  have hattempts : m.attempts = m'.attempts := congrArg Replayed.attempts h
  unfold accept
  rw [← hseen, ← hattempts]
  split_ifs
  · exact ⟨rfl, h⟩
  · cases received.record.attemptId with
    | none => exact ⟨rfl, h⟩
    | some id =>
      dsimp only
      split_ifs
      · exact ⟨rfl, h⟩
      · exact ⟨rfl, h⟩
      · refine ⟨rfl, replayed_count ?_ received.record⟩
        obtain ⟨_, _, _, _, _, _, heq⟩ := eq_of_replayed (replayed_remember h received id)
        rw [heq]
        rfl

end Replays

/-- A refused event changes nothing that the logs determine. -/
theorem replayed_of_refused (h : (m.accept received).2 = false) :
    (m.accept received).1.replayed = m.replayed := by
  obtain hrefused | hrefused | ⟨id, htakes⟩ := accept_cases m received
  · rw [hrefused]
    rfl
  · rw [hrefused]
    rfl
  · rw [accept_of_takes htakes] at h
    exact Bool.noConfusion h

/-- Every event of the list is accepted in its turn. -/
def AcceptsAll (m : Metrics) : List Received → Prop
  | [] => True
  | received :: rest => (m.accept received).2 = true ∧ AcceptsAll (m.accept received).1 rest

theorem acceptsAll_append {calls rest : List Received} :
    m.AcceptsAll (calls ++ rest) ↔ m.AcceptsAll calls ∧ (m.acceptAll calls).AcceptsAll rest := by
  induction calls generalizing m with
  | nil => exact ⟨fun h => ⟨trivial, h⟩, And.right⟩
  | cons received calls ih =>
    rw [List.cons_append, AcceptsAll, AcceptsAll, ih, and_assoc]
    rfl

theorem acceptAll_congr (h : m.replayed = m'.replayed) (calls : List Received) :
    (m.acceptAll calls).replayed = (m'.acceptAll calls).replayed ∧
      (m.AcceptsAll calls → m'.AcceptsAll calls) := by
  induction calls generalizing m m' with
  | nil => exact ⟨h, id⟩
  | cons received rest ih =>
    obtain ⟨hresult, hnext⟩ := accept_congr h received
    obtain ⟨hrest, haccepts⟩ := ih hnext
    exact ⟨hrest, fun hall => ⟨hresult.symm.trans hall.1, haccepts hall.2⟩⟩

theorem refusals_of_accepted (hwindows : m.Windows) (h : (m.accept received).2 = true) :
    (m.accept received).1.rejected = m.rejected ∧
      (m.accept received).1.duplicates = m.duplicates ∧ received.record.valid = true := by
  obtain hrefused | hrefused | ⟨id, htakes⟩ := accept_cases m received
  · rw [hrefused] at h
    exact Bool.noConfusion h
  · rw [hrefused] at h
    exact Bool.noConfusion h
  · obtain ⟨_, _, _, _, _, _, _, -, -, haccept⟩ := accept_taken hwindows htakes
    rw [haccept]
    exact ⟨rfl, rfl, htakes.valid⟩

/-- Accepted events refuse nothing. -/
theorem refusals_of_acceptsAll {calls : List Received} (hwindows : m.Windows)
    (h : m.AcceptsAll calls) :
    (m.acceptAll calls).rejected = m.rejected ∧
      (m.acceptAll calls).duplicates = m.duplicates := by
  induction calls generalizing m with
  | nil => exact ⟨rfl, rfl⟩
  | cons received rest ih =>
    obtain ⟨hrejected, hduplicates, -⟩ := refusals_of_accepted hwindows h.1
    obtain ⟨hrest, hrest'⟩ := ih (windows_accept hwindows received) h.2
    exact ⟨hrest.trans hrejected, hrest'.trans hduplicates⟩

end Metrics

private theorem fits_encode {codec : Codec} {received : Received}
    (hcodec : codec.Handles received) (hvalid : received.record.valid = true) :
    Fits lineLimit (received.encode codec) := by
  have hword : ∀ value : UInt32, Fits 10 (decimal value.toNat) := fun value =>
    fits_decimal (by decide) (value.toNat_lt.trans (by decide))
  have hfits : Fits (objectBound [("source_uid", 10), ("source_pid", 10), ("received_at_ms", 20),
      ("record", objectBound recordBounds)]) (received.encode codec) := fits_object <|
    .cons ⟨rfl, hword _⟩ <| .cons ⟨rfl, hword _⟩ <| .cons ⟨rfl, fits_word _⟩ <|
      .cons ⟨rfl, Record.fits_encode hvalid hcodec.double⟩ .nil
  exact hfits.mono (by decide +kernel)

private theorem encode_ne_nil (codec : Codec) (received : Received) :
    received.encode codec ≠ [] :=
  List.cons_ne_nil _ _

/-- The events of a list as a log. -/
def logOf (codec : Codec) (events : List Received) : Bytes :=
  unlines (events.map (·.encode codec))

/-- The library handles the events, and they are valid. -/
def Loggable (codec : Codec) (events : List Received) : Prop :=
  ∀ received ∈ events, codec.Handles received ∧ received.record.valid = true

theorem logOf_concat (codec : Codec) (events : List Received) (received : Received) :
    logOf codec (events ++ [received]) = logOf codec events ++ Live.line codec received := by
  simp [logOf, unlines, Live.line]

private theorem complete_line (codec : Codec) (content : Bytes) (received : Received) :
    complete (content ++ Live.line codec received) = content ++ Live.line codec received := by
  unfold complete Live.line
  rw [← List.append_assoc, List.rdropWhile_concat_neg _ _ _ (by simp)]

/-- The complete part of a torn log. -/
theorem complete_logOf (codec : Codec) (events : List Received) {part : Bytes}
    (h : newline ∉ part) : complete (logOf codec events ++ part) = logOf codec events := by
  induction part using List.reverseRecOn with
  | nil =>
    rw [List.append_nil]
    cases events using List.reverseRecOn with
    | nil => rfl
    | append_singleton events received =>
      rw [logOf_concat]
      exact complete_line codec _ received
  | append_singleton part byte ih =>
    have hbyte : byte ≠ newline := fun heq =>
      h (List.mem_append_right _ (List.mem_singleton.mpr heq.symm))
    rw [← List.append_assoc, complete, List.rdropWhile_concat_pos _ _ _ (by simpa using hbyte)]
    exact ih fun hmem => h (List.mem_append_left _ hmem)

/-- A log is torn where it ends with a part of a line. -/
theorem torn_logOf (codec : Codec) (events : List Received) {part : Bytes} (h : newline ∉ part) :
    torn (logOf codec events ++ part) = true ↔ part ≠ [] := by
  unfold torn
  cases part using List.reverseRecOn with
  | nil =>
    rw [List.append_nil]
    cases events using List.reverseRecOn with
    | nil => simp [logOf, unlines]
    | append_singleton events received =>
      rw [logOf_concat, Live.line, ← List.append_assoc, List.getLast?_concat]
      simp
  | append_singleton part byte =>
    have hbyte : byte ≠ newline := fun heq =>
      h (List.mem_append_right _ (List.mem_singleton.mpr heq.symm))
    rw [← List.append_assoc, List.getLast?_concat]
    simp [hbyte]

variable {events : List Received}

theorem eventLines_logOf {codec : Codec} (h : Loggable codec events) :
    eventLines (logOf codec events) = events.map (·.encode codec) := by
  have hlines : ∀ line ∈ events.map (·.encode codec), newline ∉ line ∧ line ≠ [] := by
    intro line hline
    obtain ⟨received, hmem, rfl⟩ := List.mem_map.mp hline
    exact ⟨(fits_encode (h received hmem).1 (h received hmem).2).newline_notMem,
      encode_ne_nil codec received⟩
  unfold eventLines logOf
  rw [splitOn_unlines fun line hline => (hlines line hline).1, List.filter_append]
  rw [List.filter_eq_self.mpr fun line hline => decide_eq_true (hlines line hline).2]
  exact List.append_nil _

theorem foldl_replayLine {codec : Codec} (h : Loggable codec events) (m : Metrics) :
    (events.map (·.encode codec)).foldl (replayLine codec) m = m.acceptAll events := by
  induction events generalizing m with
  | nil => rfl
  | cons received rest ih =>
    obtain ⟨⟨hcodec, hvalid⟩, hrest⟩ := List.forall_mem_cons.mp h
    have hline : replayLine codec m (received.encode codec) = (m.accept received).1 := by
      have hlength := (fits_encode hcodec hvalid).length_le
      rw [replayLine, if_neg (Nat.not_lt.mpr hlength), hcodec.decode_encode]
    rw [List.map_cons, List.foldl_cons, hline]
    exact ih hrest _

theorem logOf_eq_nil {codec : Codec} (h : logOf codec events = []) :
    events = [] := by
  cases events with
  | nil => rfl
  | cons received rest =>
    rw [logOf, List.map_cons, unlines_cons] at h
    exact absurd h (by simp)

/-- A log of written events, with or without a torn line, is replayed as these events. -/
theorem replay_logOf {codec : Codec} {content : Option Bytes} {part : Bytes}
    (h : Loggable codec events) (hpart : newline ∉ part)
    (hcontent : content.getD [] = logOf codec events ++ part)
    (hlength : (content.getD []).length ≤ logLimit) (m : Metrics) :
    replay codec content m = .ok ((if part = [] then m else m.reject).acceptAll events) := by
  cases content with
  | none =>
    obtain ⟨hevents, rfl⟩ := List.append_eq_nil_iff.mp hcontent.symm
    rw [logOf_eq_nil hevents]
    rfl
  | some bytes =>
    rw [Option.getD_some] at hcontent hlength
    have hopen : ¬ bytes.length > openLimit := by
      unfold openLimit
      omega
    rw [replay]
    dsimp only
    rw [if_neg hopen, hcontent, complete_logOf codec events hpart, eventLines_logOf h,
      foldl_replayLine h]
    by_cases htorn : part = []
    · rw [if_pos htorn, if_neg fun h => (torn_logOf codec events hpart).mp h htorn]
    · rw [if_neg htorn, if_pos ((torn_logOf codec events hpart).mpr htorn)]

/-- The files hold the lines of some events, and the current one a torn line as well. -/
structure Stores (codec : Codec) (disk : Disk) (older newer : List Received) (part : Bytes) :
    Prop where
  previous : disk.previous.getD [] = logOf codec older
  current : disk.current.getD [] = logOf codec newer ++ part
  newline_notMem : newline ∉ part
  previous_le : (logOf codec older).length ≤ logLimit
  current_le : (logOf codec newer ++ part).length ≤ logLimit

variable {codec : Codec} {disk disk' mid : Disk} {older newer : List Received} {part : Bytes}

theorem Stores.openLog (h : Stores codec disk older newer part)
    (hop : DiskOp.openLog.Applies disk disk') :
    Stores codec disk' older newer part := by
  cases hop with
  | openLog => exact ⟨h.previous, h.current, h.newline_notMem, h.previous_le, h.current_le⟩

/-- Truncation removes the torn part. -/
theorem Stores.truncateCurrent (h : Stores codec disk older newer part)
    (hop : (DiskOp.truncateCurrent (logOf codec newer).length).Applies disk disk') :
    Stores codec disk' older newer [] := by
  have hcurrent := h.current
  have hlength := h.current_le
  rw [List.length_append] at hlength
  cases hop with
  | truncateCurrent =>
    refine ⟨h.previous, ?_, List.not_mem_nil, h.previous_le, ?_⟩
    · cases hfile : disk.current with
      | none =>
        rw [hfile] at hcurrent
        rw [(List.append_eq_nil_iff.mp hcurrent.symm).1]
        rfl
      | some bytes =>
        rw [hfile, Option.getD_some] at hcurrent
        rw [Option.map_some, Option.getD_some, hcurrent, List.take_left, List.append_nil]
    · rw [List.append_nil]
      omega

/-- A part of a line after complete lines. -/
theorem Stores.append_part (h : Stores codec disk older newer []) {received : Received}
    (hfits : Fits lineLimit (received.encode codec))
    (hpart : part <+: Live.line codec received) (hne : part ≠ Live.line codec received)
    (hroom : (logOf codec newer).length + (Live.line codec received).length ≤ logLimit)
    (hop : (DiskOp.append part).Applies disk disk') : Stores codec disk' older newer part := by
  have hnotMem : newline ∉ part := by
    rcases List.prefix_concat_iff.mp hpart with heq | hpart
    · exact absurd heq hne
    · exact fun hmem => hfits.newline_notMem (hpart.subset hmem)
  have hcurrent := h.current
  cases hop with
  | append bytes current previous =>
    refine ⟨h.previous, ?_, hnotMem, h.previous_le, ?_⟩
    · rw [List.append_nil] at hcurrent
      rw [Option.getD_some] at hcurrent ⊢
      rw [hcurrent]
    · have := hpart.length_le
      rw [List.length_append]
      omega

/-- A whole line after complete lines. -/
theorem Stores.append_line (h : Stores codec disk older newer []) {received : Received}
    (hroom : (logOf codec newer).length + (Live.line codec received).length ≤ logLimit)
    (hop : (DiskOp.append (Live.line codec received)).Applies disk disk') :
    Stores codec disk' older (newer ++ [received]) [] := by
  have hcurrent := h.current
  cases hop with
  | append bytes current previous =>
    refine ⟨h.previous, ?_, List.not_mem_nil, h.previous_le, ?_⟩
    · rw [List.append_nil] at hcurrent ⊢
      rw [Option.getD_some] at hcurrent ⊢
      rw [hcurrent, logOf_concat]
    · rw [List.append_nil, logOf_concat, List.length_append]
      exact hroom

/-- The first rotation. -/
theorem Stores.rename (h : Stores codec disk older newer [])
    (hop : DiskOp.rename.Applies disk disk') : older = [] ∧ Stores codec disk' newer [] [] := by
  have hprevious := h.previous
  have hcurrent := h.current
  have hlength := h.current_le
  cases hop with
  | rename current =>
    rw [List.append_nil] at hcurrent hlength
    exact ⟨logOf_eq_nil hprevious.symm, hcurrent, rfl, List.not_mem_nil, hlength, Nat.zero_le _⟩

private theorem repair_logOf {content : Option Bytes}
    (h : content.getD [] = logOf codec events ++ part) (hpart : newline ∉ part) :
    repair content = if part = [] then none else some (logOf codec events).length := by
  cases content with
  | none =>
    obtain ⟨-, rfl⟩ := List.append_eq_nil_iff.mp h.symm
    rfl
  | some bytes =>
    rw [Option.getD_some] at h
    rw [repair, Option.bind_some, h, complete_logOf codec events hpart]
    by_cases htorn : part = []
    · rw [if_pos htorn, if_neg fun h => (torn_logOf codec events hpart).mp h htorn]
    · rw [if_neg htorn, if_pos ((torn_logOf codec events hpart).mpr htorn)]

/-- The operations of a start: a torn line is cut off before the log is opened. -/
def startOps (codec : Codec) (newer : List Received) (part : Bytes) : List DiskOp :=
  (if part = [] then [] else [.truncateCurrent (logOf codec newer).length]) ++ [.openLog]

/-- The metrics after a start. -/
def startMetrics (older newer : List Received) (part : Bytes) : Metrics :=
  (if part = [] then Metrics.new.acceptAll older
    else (Metrics.new.acceptAll older).reject).acceptAll newer

/-- A restart replays both files and repairs the torn one. -/
theorem restart_eq (h : Stores codec disk older newer part)
    (hlog : Loggable codec (older ++ newer)) :
    restart codec disk =
      .ok (⟨startMetrics older newer part, (logOf codec newer).length⟩,
        startOps codec newer part) := by
  obtain ⟨holder, hnewer⟩ := List.forall_mem_append.mp hlog
  have hprevious : disk.previous.getD [] = logOf codec older ++ [] := by
    rw [List.append_nil, h.previous]
  have hpreviousLength : (disk.previous.getD []).length ≤ logLimit := by
    rw [h.previous]
    exact h.previous_le
  have hcurrentLength : (disk.current.getD []).length ≤ logLimit := by
    rw [h.current]
    exact h.current_le
  unfold restart
  rw [replay_logOf holder List.not_mem_nil hprevious hpreviousLength, if_pos rfl,
    repair_logOf hprevious List.not_mem_nil, if_pos rfl, repair_logOf h.current h.newline_notMem,
    h.current, complete_logOf codec newer h.newline_notMem]
  change (do
    let m ← replay codec disk.current (Metrics.new.acceptAll older)
    pure _ : Except String (Live × List DiskOp)) = _
  rw [replay_logOf hnewer h.newline_notMem h.current hcurrentLength]
  unfold startMetrics startOps
  by_cases htorn : part = []
  · rw [if_pos htorn, if_pos htorn, if_pos htorn]
    rfl
  · rw [if_neg htorn, if_neg htorn, if_neg htorn]
    rfl

theorem startOps_performs (codec : Codec) (newer : List Received) (part : Bytes) (disk : Disk) :
    ∃ disk', Performs (startOps codec newer part) disk disk' := by
  unfold startOps
  split_ifs
  · exact ⟨_, .cons (.openLog disk) (.nil _)⟩
  · exact ⟨_, .cons (.truncateCurrent _ disk) (.cons (.openLog _) (.nil _))⟩

/-- A start keeps the events. -/
theorem Stores.start (h : Stores codec disk older newer part)
    (hops : Performs (startOps codec newer part) disk disk') :
    Stores codec disk' older newer [] := by
  unfold startOps at hops
  split_ifs at hops with htorn
  · subst htorn
    cases hops with
    | cons hop hops =>
      cases hops
      exact h.openLog hop
  · cases hops with
    | cons hop hops =>
      cases hops with
      | cons hop' hops =>
        cases hops
        exact (h.truncateCurrent hop).openLog hop'

theorem Stores.startCut (h : Stores codec disk older newer part)
    (hops : Stops (startOps codec newer part) disk disk') :
    ∃ part', Stores codec disk' older newer part' := by
  unfold startOps at hops
  split_ifs at hops with htorn
  · cases hops with
    | before => exact ⟨part, h⟩
    | after _ hops => cases hops
  · cases hops with
    | before => exact ⟨part, h⟩
    | after hop hops =>
      cases hops with
      | before => exact ⟨[], h.truncateCurrent hop⟩
      | after _ hops => cases hops

theorem performs_append {ops ops' : List DiskOp} (h : Performs (ops ++ ops') disk disk') :
    ∃ mid, Performs ops disk mid ∧ Performs ops' mid disk' := by
  induction ops generalizing disk with
  | nil => exact ⟨disk, .nil disk, h⟩
  | cons op ops ih =>
    cases h with
    | cons hop hops =>
      obtain ⟨mid, hfirst, hsecond⟩ := ih hops
      exact ⟨mid, .cons hop hfirst, hsecond⟩

theorem stops_append {ops ops' : List DiskOp} (h : Stops (ops ++ ops') disk disk') :
    Stops ops disk disk' ∨ ∃ mid, Performs ops disk mid ∧ Stops ops' mid disk' := by
  induction ops generalizing disk with
  | nil => exact .inr ⟨disk, .nil disk, h⟩
  | cons op ops ih =>
    cases h with
    | before => exact .inl (.before op ops _)
    | during hpart hne hop => exact .inl (.during hpart hne hop ops)
    | after hop hops =>
      rcases ih hops with hcut | ⟨mid, hfirst, hsecond⟩
      · exact .inl (.after hop hcut)
      · exact .inr ⟨mid, .cons hop hfirst, hsecond⟩

variable {live : Live} {received : Received}

/-- The line fits after the rotation, if there is one. -/
theorem Stores.rotation (h : Stores codec disk older newer [])
    (hsize : live.logSize = (logOf codec newer).length)
    (hfits : Fits lineLimit (received.encode codec))
    (hops : Performs (live.rotation codec received) disk disk') :
    ∃ older' newer', older' ++ newer' = older ++ newer ∧ Stores codec disk' older' newer' [] ∧
      live.sizeBefore codec received = (logOf codec newer').length ∧
      (logOf codec newer').length + (Live.line codec received).length ≤ logLimit := by
  unfold Live.rotation at hops
  unfold Live.sizeBefore
  by_cases hrotates : live.rotates codec received = true
  · rw [if_pos hrotates] at hops ⊢
    cases hops with
    | cons hrename hops =>
      cases hops with
      | cons hopen hops =>
        cases hops
        obtain ⟨rfl, hstores⟩ := h.rename hrename
        refine ⟨newer, [], List.append_nil _, hstores.openLog hopen, rfl, ?_⟩
        have hlength := hfits.length_le
        have hlimit : lineLimit + 1 ≤ logLimit := by decide
        rw [Live.line, List.length_append, List.length_singleton]
        change 0 + _ ≤ _
        omega
  · rw [if_neg hrotates] at hops ⊢
    cases hops
    refine ⟨older, newer, rfl, h, hsize, ?_⟩
    unfold Live.rotates at hrotates
    rw [decide_eq_true_iff, hsize] at hrotates
    omega

theorem Stores.rotationCut (h : Stores codec disk older newer [])
    (hops : Stops (live.rotation codec received) disk disk') :
    ∃ older' newer', older' ++ newer' = older ++ newer ∧ Stores codec disk' older' newer' [] := by
  unfold Live.rotation at hops
  split_ifs at hops
  · cases hops with
    | before => exact ⟨older, newer, rfl, h⟩
    | after hrename hops =>
      obtain ⟨rfl, hstores⟩ := h.rename hrename
      cases hops with
      | before => exact ⟨newer, [], List.append_nil _, hstores⟩
      | after _ hops => cases hops
  · cases hops

theorem handle_of_accepted (haccepted : (live.metrics.accept received).2 = true) :
    live.handle codec received =
      (⟨(live.metrics.accept received).1,
        live.sizeBefore codec received + (Live.line codec received).length⟩,
        live.rotation codec received ++ [.append (Live.line codec received)]) :=
  if_pos haccepted

theorem handle_of_refused (hrefused : (live.metrics.accept received).2 = false) :
    live.handle codec received = ({ live with metrics := (live.metrics.accept received).1 }, []) :=
  have hnot : ¬ (live.metrics.accept received).2 = true := by
    rw [hrefused]
    exact Bool.noConfusion
  if_neg hnot

/-- An appended event is stored. -/
theorem Stores.written (h : Stores codec disk older newer [])
    (hsize : live.logSize = (logOf codec newer).length)
    (hfits : Fits lineLimit (received.encode codec))
    (haccepted : (live.metrics.accept received).2 = true)
    (hops : Performs (live.handle codec received).2 disk disk') :
    ∃ older' newer', older' ++ newer' = older ++ newer ∧
      Stores codec disk' older' (newer' ++ [received]) [] ∧
      (live.handle codec received).1.logSize = (logOf codec (newer' ++ [received])).length := by
  rw [handle_of_accepted haccepted] at hops ⊢
  obtain ⟨mid, hrotation, hops⟩ := performs_append hops
  obtain ⟨older', newer', heq, hstores, hbefore, hroom⟩ := h.rotation hsize hfits hrotation
  cases hops with
  | cons hop hops =>
    cases hops
    refine ⟨older', newer', heq, hstores.append_line hroom hop, ?_⟩
    rw [logOf_concat, List.length_append]
    exact congrArg (· + _) hbefore

/-- An append that is cut off loses at most the event itself. -/
theorem Stores.eventCut (h : Stores codec disk older newer [])
    (hsize : live.logSize = (logOf codec newer).length)
    (hfits : (live.metrics.accept received).2 = true → Fits lineLimit (received.encode codec))
    (hops : Stops (live.handle codec received).2 disk disk') :
    ∃ older' newer' part, older' ++ newer' = older ++ newer ∧
      Stores codec disk' older' newer' part := by
  cases haccepted : (live.metrics.accept received).2 with
  | false =>
    rw [handle_of_refused haccepted] at hops
    cases hops
  | true =>
    rw [handle_of_accepted haccepted] at hops
    rcases stops_append hops with hcut | ⟨mid, hrotation, hcut⟩
    · obtain ⟨older', newer', heq, hstores⟩ := h.rotationCut hcut
      exact ⟨older', newer', [], heq, hstores⟩
    · obtain ⟨older', newer', heq, hstores, -, hroom⟩ :=
        h.rotation hsize (hfits haccepted) hrotation
      cases hcut with
      | before => exact ⟨older', newer', [], heq, hstores⟩
      | during hpart hne hop =>
        exact ⟨older', newer', _, heq, hstores.append_part (hfits haccepted) hpart hne hroom hop⟩
      | after _ hops => cases hops

/-- An append that fails is taken back. -/
theorem Stores.failed (h : Stores codec disk older newer [])
    (hsize : live.logSize = (logOf codec newer).length)
    (hfits : Fits lineLimit (received.encode codec))
    (hrotation : Performs (live.rotation codec received) disk mid)
    (hpart : part <+: Live.line codec received) (hne : part ≠ Live.line codec received)
    {cut : Disk} (happend : (DiskOp.append part).Applies mid cut)
    (hback : Performs (live.fail codec received).2 cut disk') :
    ∃ older' newer', older' ++ newer' = older ++ newer ∧ Stores codec disk' older' newer' [] := by
  obtain ⟨older', newer', heq, hstores, hbefore, hroom⟩ := h.rotation hsize hfits hrotation
  have hcut := hstores.append_part hfits hpart hne hroom happend
  cases hback with
  | cons hop hops =>
    cases hops
    rw [hbefore] at hop
    exact ⟨older', newer', heq, hcut.truncateCurrent hop⟩

/-- The written events are in the files and determine what the logs determine of the metrics.
While the collector runs there is no torn line. -/
structure Recoverable (codec : Codec) (disk : Disk) (process : Option Live)
    (written : List Received) (last : Metrics) : Prop where
  loggable : Loggable codec written
  accepted : Metrics.new.AcceptsAll written
  replayed : (Metrics.new.acceptAll written).replayed = last.replayed
  stores : ∃ older newer part, older ++ newer = written ∧ Stores codec disk older newer part ∧
    ∀ live, process = some live → part = [] ∧ live.logSize = (logOf codec newer).length ∧
      live.metrics.replayed = last.replayed

variable {process : Option Live} {written : List Received} {last : Metrics}

theorem startMetrics_replayed (older newer : List Received) (part : Bytes) :
    (startMetrics older newer part).replayed =
      (Metrics.new.acceptAll (older ++ newer)).replayed := by
  rw [startMetrics, Metrics.acceptAll_append]
  split_ifs
  · rfl
  · have hreject : (Metrics.new.acceptAll older).reject.replayed =
        (Metrics.new.acceptAll older).replayed := rfl
    exact (Metrics.acceptAll_congr hreject newer).1

/-- Nothing that a process without files does matters. -/
theorem Recoverable.stop (h : Recoverable codec disk process written last)
    (hstores : ∃ older newer part, older ++ newer = written ∧ Stores codec disk' older newer part) :
    Recoverable codec disk' none written last := by
  obtain ⟨older, newer, part, heq, hstores⟩ := hstores
  exact ⟨h.loggable, h.accepted, h.replayed, older, newer, part, heq, hstores,
    fun _ hsome => by cases hsome⟩

theorem Recoverable.running (h : Recoverable codec disk (some live) written last) :
    ∃ older newer, older ++ newer = written ∧ Stores codec disk older newer [] ∧
      live.logSize = (logOf codec newer).length ∧ live.metrics.replayed = last.replayed := by
  obtain ⟨older, newer, part, heq, hstores, hlive⟩ := h.stores
  obtain ⟨rfl, hsize, hreplayed⟩ := hlive live rfl
  exact ⟨older, newer, heq, hstores, hsize, hreplayed⟩

/-- The metrics change only where the logs do not determine them. -/
theorem Recoverable.idle (h : Recoverable codec disk (some live) written last) {m : Metrics}
    (hm : m.replayed = live.metrics.replayed) :
    Recoverable codec disk (some { live with metrics := m }) written last := by
  obtain ⟨older, newer, heq, hstores, hsize, hreplayed⟩ := h.running
  refine ⟨h.loggable, h.accepted, h.replayed, older, newer, [], heq, hstores, ?_⟩
  rintro _ ⟨⟩
  exact ⟨rfl, hsize, hm.trans hreplayed⟩

/-- The written events stay accepted with one more. -/
theorem Recoverable.accepted_concat (h : Recoverable codec disk (some live) written last)
    (haccepted : (live.metrics.accept received).2 = true) :
    Metrics.new.AcceptsAll (written ++ [received]) ∧
      (Metrics.new.acceptAll (written ++ [received])).replayed =
        (live.metrics.accept received).1.replayed ∧ received.record.valid = true := by
  obtain ⟨-, -, -, -, -, hreplayed⟩ := h.running
  have hsame := h.replayed.trans hreplayed.symm
  obtain ⟨hresult, hnext⟩ := Metrics.accept_congr hsame received
  have htaken := hresult.trans haccepted
  have hwindows := Metrics.windows_acceptAll Metrics.windows_new written
  refine ⟨Metrics.acceptsAll_append.mpr ⟨h.accepted, htaken, trivial⟩, ?_,
    (Metrics.refusals_of_accepted hwindows htaken).2.2⟩
  rw [Metrics.acceptAll_append]
  exact hnext

/-- Every history is recoverable. -/
theorem recoverable_of_history (h : History codec disk process written last) :
    Recoverable codec disk process written last := by
  induction h with
  | fresh =>
    exact ⟨fun _ hmem => absurd hmem List.not_mem_nil, trivial, rfl, [], [], [], rfl,
      ⟨rfl, rfl, List.not_mem_nil, Nat.zero_le _, Nat.zero_le _⟩, fun _ hsome => by cases hsome⟩
  | start _ hrestart hops ih =>
    obtain ⟨older, newer, part, rfl, hstores, -⟩ := ih.stores
    rw [restart_eq hstores ih.loggable] at hrestart
    cases hrestart
    refine ⟨ih.loggable, ih.accepted, ih.replayed, older, newer, [], rfl, hstores.start hops, ?_⟩
    rintro _ ⟨⟩
    exact ⟨rfl, rfl, (startMetrics_replayed older newer part).trans ih.replayed⟩
  | startCut _ hrestart hops ih =>
    obtain ⟨older, newer, part, rfl, hstores, -⟩ := ih.stores
    rw [restart_eq hstores ih.loggable] at hrestart
    cases hrestart
    obtain ⟨part', hcut⟩ := hstores.startCut hops
    exact ih.stop ⟨older, newer, part', rfl, hcut⟩
  | malformed _ ih => exact ih.idle rfl
  | exportFailed _ ih => exact ih.idle rfl
  | refused _ received hrefused ih =>
    rw [handle_of_refused hrefused]
    exact ih.idle (Metrics.replayed_of_refused hrefused)
  | written _ haccepted hcodec hops ih =>
    obtain ⟨haccepts, hreplayed, hvalid⟩ := ih.accepted_concat haccepted
    obtain ⟨older, newer, rfl, hstores, hsize, -⟩ := ih.running
    obtain ⟨older', newer', heq, hstores', hsize'⟩ :=
      hstores.written hsize (fits_encode hcodec hvalid) haccepted hops
    rw [handle_of_accepted haccepted] at hsize' ⊢
    refine ⟨?_, haccepts, hreplayed, older', newer' ++ [_], [], ?_, hstores', ?_⟩
    · exact List.forall_mem_append.mpr ⟨ih.loggable, List.forall_mem_singleton.mpr ⟨hcodec, hvalid⟩⟩
    · rw [← List.append_assoc, heq]
    · rintro _ ⟨⟩
      exact ⟨rfl, hsize', rfl⟩
  | eventCut _ hcodec hops ih =>
    obtain ⟨older, newer, rfl, hstores, hsize, -⟩ := ih.running
    obtain ⟨older', newer', part, heq, hcut⟩ := hstores.eventCut hsize
      (fun haccepted => fits_encode hcodec (ih.accepted_concat haccepted).2.2) hops
    exact ih.stop ⟨older', newer', part, heq, hcut⟩
  | failed _ haccepted hcodec hrotation hpart hne happend hback ih =>
    obtain ⟨older, newer, rfl, hstores, hsize, -⟩ := ih.running
    obtain ⟨older', newer', heq, hstores'⟩ := hstores.failed hsize
      (fits_encode hcodec (ih.accepted_concat haccepted).2.2) hrotation hpart hne happend hback
    exact ih.stop ⟨older', newer', [], heq, hstores'⟩
  | kill _ ih =>
    obtain ⟨older, newer, part, heq, hstores, -⟩ := ih.stores
    exact ih.stop ⟨older, newer, part, heq, hstores⟩

/-- A replay refuses nothing but the torn part. -/
private theorem startMetrics_refusals (older newer : List Received) (part : Bytes)
    (h : Metrics.new.AcceptsAll (older ++ newer)) :
    (startMetrics older newer part).duplicates = 0 ∧
      (startMetrics older newer part).rejected = if part = [] then 0 else 1 := by
  obtain ⟨holder, hnewer⟩ := Metrics.acceptsAll_append.mp h
  have hwindows := Metrics.windows_acceptAll Metrics.windows_new older
  obtain ⟨hrejected, hduplicates⟩ := Metrics.refusals_of_acceptsAll Metrics.windows_new holder
  rw [startMetrics]
  split_ifs
  · obtain ⟨hrejected', hduplicates'⟩ := Metrics.refusals_of_acceptsAll hwindows hnewer
    exact ⟨hduplicates'.trans hduplicates, hrejected'.trans hrejected⟩
  · have hsame : (Metrics.new.acceptAll older).replayed =
        (Metrics.new.acceptAll older).reject.replayed := rfl
    have hnewer' := (Metrics.acceptAll_congr hsame newer).2 hnewer
    have hwindows' : (Metrics.new.acceptAll older).reject.Windows :=
      ⟨hwindows.events, hwindows.attempts⟩
    obtain ⟨hrejected', hduplicates'⟩ := Metrics.refusals_of_acceptsAll hwindows' hnewer'
    refine ⟨hduplicates'.trans hduplicates, hrejected'.trans ?_⟩
    rw [Metrics.reject, hrejected]
    rfl

/-- A start after any history reads exactly the lines of the written events, accepts all of
them again and reaches what the metrics were after the last of them. -/
theorem restart_equivalent (h : History codec disk process written last) :
    (disk.previous.getD []).length ≤ logLimit ∧ (disk.current.getD []).length ≤ logLimit ∧
    eventLines (complete (disk.previous.getD [])) ++ eventLines (complete (disk.current.getD [])) =
      written.map (·.encode codec) ∧
    Metrics.new.AcceptsAll written ∧
    ∃ live ops disk', restart codec disk = .ok (live, ops) ∧ Performs ops disk disk' ∧
      live.metrics.replayed = last.replayed ∧ live.metrics.duplicates = 0 ∧
      live.metrics.rejected = (if torn (disk.current.getD []) then 1 else 0) ∧
      disk'.previous.getD [] ++ disk'.current.getD [] = unlines (written.map (·.encode codec)) := by
  have hrecoverable := recoverable_of_history h
  obtain ⟨older, newer, part, rfl, hstores, -⟩ := hrecoverable.stores
  obtain ⟨holder, hnewer⟩ := List.forall_mem_append.mp hrecoverable.loggable
  obtain ⟨disk', hops⟩ := startOps_performs codec newer part disk
  have hstores' := hstores.start hops
  obtain ⟨hduplicates, hrejected⟩ := startMetrics_refusals older newer part hrecoverable.accepted
  have hprevious : complete (logOf codec older) = logOf codec older := by
    have hcomplete : complete (logOf codec older ++ []) = logOf codec older :=
      complete_logOf codec older List.not_mem_nil
    rwa [List.append_nil] at hcomplete
  refine ⟨?_, ?_, ?_, hrecoverable.accepted, _, _, disk',
    restart_eq hstores hrecoverable.loggable, hops, ?_, hduplicates, ?_, ?_⟩
  · rw [hstores.previous]
    exact hstores.previous_le
  · rw [hstores.current]
    exact hstores.current_le
  · rw [hstores.previous, hstores.current, complete_logOf codec newer hstores.newline_notMem,
      hprevious, eventLines_logOf holder, eventLines_logOf hnewer, List.map_append]
  · exact (startMetrics_replayed older newer part).trans hrecoverable.replayed
  · rw [hrejected, hstores.current]
    by_cases htorn : part = []
    · rw [if_pos htorn, if_neg fun h => (torn_logOf codec newer hstores.newline_notMem).mp h htorn]
    · rw [if_neg htorn, if_pos ((torn_logOf codec newer hstores.newline_notMem).mpr htorn)]
  · rw [hstores'.previous, hstores'.current, List.append_nil, logOf, logOf, unlines, unlines,
      unlines, List.map_append, List.map_append, List.flatten_append]

/-- A phase of the same attempt, before its end. -/
def phaseCompleted : Received :=
  { Metrics.checkCompleted 0 0 with
    record := { (Metrics.checkCompleted 0 0).record with event := "phase_completed" } }

/-- A library that knows two events. -/
def pairCodec : Codec where
  printDouble _ := utf8 "2.0"
  decode bytes :=
    [phaseCompleted, Metrics.checkCompleted 1 0].find? fun received =>
      received.encode ⟨fun _ => utf8 "2.0", fun _ => none⟩ = bytes

private theorem pairCodec_handles :
    pairCodec.Handles phaseCompleted ∧ pairCodec.Handles (Metrics.checkCompleted 1 0) := by
  have hdouble : Fits 24 (utf8 "2.0") := ⟨by decide, by decide⟩
  exact ⟨⟨hdouble, by decide +kernel⟩, ⟨hdouble, by decide +kernel⟩⟩

/-- The collector dies while it appends its second event. -/
theorem restart_equivalent_pair :
    ∃ live ops disk',
      restart pairCodec ⟨none, some (Live.line pairCodec phaseCompleted ++ [123])⟩ =
        .ok (live, ops) ∧
      Performs ops ⟨none, some (Live.line pairCodec phaseCompleted ++ [123])⟩ disk' ∧
      live.metrics.accepted = 1 ∧ live.metrics.rejected = 1 := by
  have hstart : History pairCodec ⟨none, some []⟩ (some ⟨.new, 0⟩) [] .new :=
    .start .fresh rfl (.cons (.openLog _) (.nil _))
  have haccepted : (Metrics.new.accept phaseCompleted).2 = true := by decide +kernel
  have hops : Performs (Live.handle ⟨.new, 0⟩ pairCodec phaseCompleted).2 ⟨none, some []⟩
      ⟨none, some (Live.line pairCodec phaseCompleted)⟩ := by
    have hkeep : Live.rotates ⟨.new, 0⟩ pairCodec phaseCompleted = false := by decide +kernel
    have haccepted' : ((⟨.new, 0⟩ : Live).metrics.accept phaseCompleted).2 = true := haccepted
    rw [handle_of_accepted haccepted', Live.rotation, hkeep]
    exact .cons (.append _ [] none) (.nil _)
  have hwritten := hstart.written haccepted pairCodec_handles.1 hops
  have hcut : Stops ((Live.handle ⟨.new, 0⟩ pairCodec phaseCompleted).1.handle pairCodec
      (Metrics.checkCompleted 1 0)).2 ⟨none, some (Live.line pairCodec phaseCompleted)⟩
      ⟨none, some (Live.line pairCodec phaseCompleted ++ [123])⟩ := by
    have haccepted' : ((Live.handle ⟨.new, 0⟩ pairCodec phaseCompleted).1.metrics.accept
        (Metrics.checkCompleted 1 0)).2 = true := by decide +kernel
    have hkeep : (Live.handle ⟨.new, 0⟩ pairCodec phaseCompleted).1.rotates pairCodec
        (Metrics.checkCompleted 1 0) = false := by decide +kernel
    rw [handle_of_accepted haccepted', Live.rotation, hkeep]
    exact .during ⟨_, rfl⟩ (by decide +kernel) (.append [123] _ none) []
  obtain ⟨-, -, -, -, live, ops, disk', hrestart, hperforms, hreplayed, -, hrejected, -⟩ :=
    restart_equivalent (hwritten.eventCut pairCodec_handles.2 hcut)
  refine ⟨live, ops, disk', hrestart, hperforms, ?_, hrejected.trans (by decide +kernel)⟩
  have hcount : (Live.handle ⟨.new, 0⟩ pairCodec phaseCompleted).1.metrics.accepted = 1 := by
    decide +kernel
  exact (congrArg Replayed.accepted hreplayed).trans hcount

end Leelo.Collector
