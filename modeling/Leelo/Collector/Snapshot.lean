import Leelo.Daemon.Snapshot

/-!
# Reading a snapshot of the daemon

The collector keeps its own copy of the names, labels and values of the series. It accepts
a snapshot if each line is a number under a key of that vocabulary with the expected role
and no key occurs twice. The vocabulary is that of the daemon, and each series has one key.
-/

namespace Leelo.Collector.Snapshot

open Leelo.Core
open Leelo.Daemon (AcceptClass Admission Metrics Outcome Role Series Shows SnapshotOutcome Stage
  printLabels)
open Json (utf8)

/-- The largest snapshot that is read. -/
def snapshotLimit : Nat := 65536

/-- The role a snapshot is asked of. -/
inductive SnapshotRole where
  | frontend
  | worker
  deriving DecidableEq

/-- The word for a role. -/
def SnapshotRole.asStr : SnapshotRole → String
  | .frontend => "frontend"
  | .worker => "worker"

/-- The stages the collector knows. -/
def stages : List String :=
  ["connection", "tls", "http", "validation", "ipc", "worker", "crypto", "listener_retry",
   "snapshot"]

/-- The outcomes the collector knows. -/
def outcomes : List String :=
  ["success", "cancelled", "timeout", "protocol_error", "invalid_headers", "invalid_body",
   "invalid_frame", "wrong_key", "invalid_point", "randomness_failure", "crypto_failure",
   "connect_error", "write_error", "read_error", "refused", "unexpected_eof", "io_error",
   "not_found", "method_not_allowed", "unavailable", "other_error"]

/-- Names of series, and the labels after the role with their values. -/
structure Arm where
  names : List String
  labels : List (String × List String)

/-- The arms of the match. No name is in two of them. -/
def arms : List Arm :=
  [⟨["leelo_telemetry_dropped_total", "leelo_telemetry_suppressed_total"],
    [("signal", ["events"])]⟩,
   ⟨["leelo_connections_total"],
    [("admission", ["admitted", "capacity_rejected", "peer_rejected", "peer_check_error"])]⟩,
   ⟨["leelo_inflight", "leelo_concurrency_limit", "leelo_listener_retrying"], []⟩,
   ⟨["leelo_server_stage_completions_total"], [("stage", stages), ("outcome", outcomes)]⟩,
   ⟨["leelo_server_stage_duration_seconds_bucket"],
    [("stage", stages), ("le", ["0.001", "0.005", "0.01", "0.025", "0.05", "0.1", "0.25", "0.5",
      "1", "2", "5", "10", "+Inf"])]⟩,
   ⟨["leelo_server_stage_duration_seconds_count", "leelo_server_stage_duration_seconds_sum"],
    [("stage", stages)]⟩,
   ⟨["leelo_http_responses_total"], [("status", ["200", "400", "404", "405", "503", "0"])]⟩,
   ⟨["leelo_accept_errors_total"], [("class", ["interrupted", "resource", "network", "other"])]⟩,
   ⟨["leelo_snapshot_connections_total"],
    [("outcome", ["served", "peer_rejected", "peer_check_error", "capacity_rejected",
      "write_error", "timeout", "listener_error"])]⟩]

/-- The labels are those of an arm, in its order. -/
def labelsMatch : List (String × List String) → List Label → Bool
  | [], [] => true
  | [], _ :: _ => false
  | _ :: _, [] => false
  | expected :: rest, label :: labels =>
    label.1 == utf8 expected.1 && (expected.2.map utf8).contains label.2 && labelsMatch rest labels

/-- The arm accepts the name with these labels. -/
def Arm.accepts (arm : Arm) (name : Bytes) (labels : List Label) : Bool :=
  (arm.names.map utf8).contains name && labelsMatch arm.labels labels

/-- The role the first label names. -/
def roleOf : List Label → Option String
  | [] => none
  | label :: _ =>
    if label = (utf8 "role", utf8 "frontend") then some "frontend"
    else if label = (utf8 "role", utf8 "worker") then some "worker"
    else none

/-- The value is a finite double that is not negative. -/
def validValue (value : Bytes) : Bool :=
  (F64.parse value).any fun number => number.isFinite && (F64.finite 0).le number

/-- The role of a line that is a sample. -/
def sampleRole (line : Bytes) : Option String :=
  (rsplitOnce 32 line).bind fun parts =>
    if 512 < parts.1.length || !validValue parts.2 then none
    else (readSeries parts.1).bind fun key => (roleOf key.2).bind fun role =>
      if arms.any fun arm => arm.accepts key.1 key.2.tail then some role else none

/-- The part of a line before its last space. -/
def keyOf (line : Bytes) : Option Bytes := (rsplitOnce 32 line).map Prod.fst

/-- Why a snapshot is refused. -/
inductive Refusal where
  | io
  | unexpectedOwner
  | deadline
  | exceedsBound
  | invalidUtf8
  | invalidSnapshot
  deriving DecidableEq

/-- What a turn of the reading loop meets: the deadline, bytes (none at the end of the
stream), no bytes yet and then a wait, a signal, or an error. -/
inductive Turn where
  | expired
  | chunk (bytes : Bytes)
  | wouldBlock (ready : Bool)
  | interrupted
  | failed

/-- Read until the end of the stream. There is no result while turns are missing. -/
def readSnapshot (bytes : Bytes) : List Turn → Option (Except Refusal Bytes)
  | [] => none
  | .expired :: _ => some (.error .deadline)
  | .chunk chunk :: turns =>
    if chunk = [] then some (.ok bytes)
    else if snapshotLimit < bytes.length + chunk.length then some (.error .exceedsBound)
    else readSnapshot (bytes ++ chunk) turns
  | .wouldBlock ready :: turns => if ready then readSnapshot bytes turns else some (.error .io)
  | .interrupted :: turns => readSnapshot bytes turns
  | .failed :: _ => some (.error .io)

/-- The socket of the daemon: whether it can be reached, its owner, and its stream. -/
structure Socket where
  connects : Bool
  owner : UInt32
  turns : List Turn

/-- The lines of a text that ends with a line break, without carriage returns at their ends. -/
def textLines (text : Bytes) : List Bytes :=
  (linesOf text).map fun line => (stripLast 13 line).getD line

/-- Every line is a sample of the role, under a key that was not seen before. -/
def checkLines (role : String) (seen : List (Option Bytes)) : List Bytes → Bool
  | [] => true
  | line :: lines =>
    sampleRole line == some role && !seen.contains (keyOf line) &&
      checkLines role (keyOf line :: seen) lines

/-- Checks a whole snapshot. -/
def validate (role : String) (bytes : Bytes) : Except Refusal Unit :=
  if !isUtf8 bytes then .error .invalidUtf8
  else if bytes = [] ∨ bytes.getLast? ≠ some newline then .error .invalidSnapshot
  else if checkLines role [] (textLines bytes) then .ok ()
  else .error .invalidSnapshot

/-- The line that the collector appends, with the time of the snapshot. -/
def timestamp (display : F64 → Bytes) (role : String) (unixTimeMs : Nat) : Bytes :=
  series (utf8 "leelo_daemon_snapshot_timestamp_seconds") [(utf8 "role", utf8 role)] ++
    32 :: (display ((F64.ofRat unixTimeMs).div (.finite 1000)) ++ [newline])

/-- The bytes to be written; `display` prints the shortest text of a double. -/
def snapshot (display : F64 → Bytes) (socket : Socket) (serverUid : UInt32)
    (expectedRole : SnapshotRole) (unixTimeMs : Nat) : Option (Except Refusal Bytes) :=
  if !socket.connects then some (.error .io)
  else if socket.owner ≠ serverUid then some (.error .unexpectedOwner)
  else (readSnapshot [] socket.turns).map fun read => read.bind fun bytes =>
    (validate expectedRole.asStr bytes).map fun _ =>
      bytes ++ timestamp display expectedRole.asStr unixTimeMs

/-- A label of an arm with one of its values. -/
def Fits (expected : String × List String) (label : String × String) : Prop :=
  label.1 = expected.1 ∧ label.2 ∈ expected.2

/-- The arm has the name and the labels. -/
def Arm.Covers (arm : Arm) (name : String) (labels : List (String × String)) : Prop :=
  name ∈ arm.names ∧ List.Forall₂ Fits arm.labels labels

variable {labels : List Label} {text : String}

/-- Labels match where each is one of those expected. -/
theorem labelsMatch_iff {expected : List (String × List String)} :
    labelsMatch expected labels = true ↔
      ∃ texts, List.Forall₂ Fits expected texts ∧ labels = printLabels texts := by
  induction expected generalizing labels with
  | nil =>
    cases labels with
    | nil => exact ⟨fun _ => ⟨[], .nil, rfl⟩, fun _ => rfl⟩
    | cons label labels =>
      refine ⟨fun h => (Bool.false_ne_true h).elim, ?_⟩
      rintro ⟨texts, htexts, hlabels⟩
      cases htexts
      cases hlabels
  | cons first rest ih =>
    cases labels with
    | nil =>
      refine ⟨fun h => (Bool.false_ne_true h).elim, ?_⟩
      rintro ⟨texts, htexts, hlabels⟩
      cases htexts
      cases hlabels
    | cons label labels =>
      simp only [labelsMatch, Bool.and_eq_true, beq_iff_eq, List.contains_iff_mem, List.mem_map, ih]
      constructor
      · rintro ⟨⟨hname, value, hvalue, hlabel⟩, texts, htexts, rfl⟩
        refine ⟨(first.1, value) :: texts, .cons ⟨rfl, hvalue⟩ htexts, ?_⟩
        exact congrArg (· :: printLabels texts) (Prod.ext hname hlabel.symm)
      · rintro ⟨texts, htexts, hlabels⟩
        cases htexts with
        | @cons _ text _ texts hfits htexts =>
          obtain ⟨rfl, rfl⟩ := List.cons.inj hlabels
          exact ⟨⟨congrArg utf8 hfits.1, text.2, hfits.2, rfl⟩, texts, htexts, rfl⟩

theorem Arm.accepts_iff {arm : Arm} {name : Bytes} :
    arm.accepts name labels = true ↔
      ∃ text texts, arm.Covers text texts ∧ name = utf8 text ∧ labels = printLabels texts := by
  simp only [Arm.accepts, Arm.Covers, Bool.and_eq_true, List.contains_iff_mem, List.mem_map,
    labelsMatch_iff]
  constructor
  · rintro ⟨⟨text, htext, rfl⟩, texts, htexts, rfl⟩
    exact ⟨text, texts, ⟨htext, htexts⟩, rfl, rfl⟩
  · rintro ⟨text, texts, ⟨htext, htexts⟩, rfl, rfl⟩
    exact ⟨⟨text, htext, rfl⟩, texts, htexts, rfl⟩

private theorem fits_cons {expected : String × List String} {rest : List (String × List String)}
    {labels : List (String × String)} (h : List.Forall₂ Fits (expected :: rest) labels) :
    ∃ value ∈ expected.2, ∃ labels', List.Forall₂ Fits rest labels' ∧
      labels = (expected.1, value) :: labels' := by
  cases h with
  | @cons _ label _ labels' hfits hrest =>
    exact ⟨label.2, hfits.2, labels', hrest, by rw [← hfits.1]⟩

/-- The only label expected. -/
private theorem fits_one {expected : String × List String} {labels : List (String × String)}
    (h : List.Forall₂ Fits [expected] labels) :
    ∃ value ∈ expected.2, labels = [(expected.1, value)] := by
  obtain ⟨value, hvalue, labels', hrest, rfl⟩ := fits_cons h
  cases hrest
  exact ⟨value, hvalue, rfl⟩

private theorem exists_name {α : Type} (all : List α) (name : α → String) {values : List String}
    (hvalues : values = all.map name) {value : String} (h : value ∈ values) :
    ∃ label, name label = value := by
  obtain ⟨label, -, hlabel⟩ := List.mem_map.mp (hvalues ▸ h)
  exact ⟨label, hlabel⟩

/-- The arms have no names and labels but those of series. -/
theorem exists_series_of_covers {arm : Arm} (harm : arm ∈ arms) {name : String}
    {labels : List (String × String)} (h : arm.Covers name labels) :
    ∃ s : Series, s.name = name ∧ s.labels = labels := by
  obtain ⟨hname, hlabels⟩ := h
  simp only [arms, List.mem_cons, List.not_mem_nil, or_false] at harm
  rcases harm with rfl | rfl | rfl | rfl | rfl | rfl | rfl | rfl | rfl
  · obtain ⟨value, hvalue, rfl⟩ := fits_one hlabels
    cases List.mem_singleton.mp hvalue
    rcases List.mem_pair.mp hname with rfl | rfl
    · exact ⟨.dropped, rfl, rfl⟩
    · exact ⟨.suppressed, rfl, rfl⟩
  · obtain ⟨value, hvalue, rfl⟩ := fits_one hlabels
    obtain ⟨admission, rfl⟩ := exists_name Admission.all Admission.name rfl hvalue
    cases List.mem_singleton.mp hname
    exact ⟨.connections admission, rfl, rfl⟩
  · cases hlabels
    simp only [List.mem_cons, List.not_mem_nil, or_false] at hname
    rcases hname with rfl | rfl | rfl
    · exact ⟨.inflight, rfl, rfl⟩
    · exact ⟨.limit, rfl, rfl⟩
    · exact ⟨.retrying, rfl, rfl⟩
  · obtain ⟨value, hvalue, labels', hrest, rfl⟩ := fits_cons hlabels
    obtain ⟨value', hvalue', rfl⟩ := fits_one hrest
    obtain ⟨stage, rfl⟩ := exists_name Stage.all Stage.name rfl hvalue
    obtain ⟨outcome, rfl⟩ := exists_name Outcome.all Outcome.name rfl hvalue'
    cases List.mem_singleton.mp hname
    exact ⟨.completions stage outcome, rfl, rfl⟩
  · obtain ⟨value, hvalue, labels', hrest, rfl⟩ := fits_cons hlabels
    obtain ⟨value', hvalue', rfl⟩ := fits_one hrest
    obtain ⟨stage, rfl⟩ := exists_name Stage.all Stage.name rfl hvalue
    obtain ⟨index, rfl⟩ := exists_name (List.finRange 13) Series.bound rfl hvalue'
    cases List.mem_singleton.mp hname
    exact ⟨.bucket stage index, rfl, rfl⟩
  · obtain ⟨value, hvalue, rfl⟩ := fits_one hlabels
    obtain ⟨stage, rfl⟩ := exists_name Stage.all Stage.name rfl hvalue
    rcases List.mem_pair.mp hname with rfl | rfl
    · exact ⟨.count stage, rfl, rfl⟩
    · exact ⟨.sum stage, rfl, rfl⟩
  · obtain ⟨value, hvalue, rfl⟩ := fits_one hlabels
    obtain ⟨index, rfl⟩ := exists_name (List.finRange 6) Series.status rfl hvalue
    cases List.mem_singleton.mp hname
    exact ⟨.responses index, rfl, rfl⟩
  · obtain ⟨value, hvalue, rfl⟩ := fits_one hlabels
    obtain ⟨error, rfl⟩ := exists_name AcceptClass.all AcceptClass.name rfl hvalue
    cases List.mem_singleton.mp hname
    exact ⟨.acceptErrors error, rfl, rfl⟩
  · obtain ⟨value, hvalue, rfl⟩ := fits_one hlabels
    obtain ⟨outcome, rfl⟩ := exists_name SnapshotOutcome.all SnapshotOutcome.name rfl hvalue
    cases List.mem_singleton.mp hname
    exact ⟨.snapshots outcome, rfl, rfl⟩

private theorem fits_name {α : Type} {all : List α} (name : α → String) {label : α}
    (hlabel : label ∈ all) {values : List String} (hvalues : values = all.map name) :
    Fits (text, values) (text, name label) := by
  subst hvalues
  exact ⟨rfl, List.mem_map_of_mem hlabel⟩

/-- Every series is in an arm. -/
theorem covers_series (s : Series) : ∃ arm ∈ arms, arm.Covers s.name s.labels := by
  have hstage : ∀ stage : Stage, Fits ("stage", stages) ("stage", stage.name) :=
    fun stage => fits_name Stage.name stage.mem_all rfl
  have harm : ∀ index : Fin 9, arms.get index ∈ arms := List.get_mem arms
  cases s with
  | dropped => exact ⟨_, harm 0, .head _, .cons ⟨rfl, .head _⟩ .nil⟩
  | suppressed => exact ⟨_, harm 0, .tail _ (.head _), .cons ⟨rfl, .head _⟩ .nil⟩
  | connections admission =>
    exact ⟨_, harm 1, .head _, .cons (fits_name Admission.name admission.mem_all rfl) .nil⟩
  | inflight => exact ⟨_, harm 2, .head _, .nil⟩
  | limit => exact ⟨_, harm 2, .tail _ (.head _), .nil⟩
  | retrying => exact ⟨_, harm 2, .tail _ (.tail _ (.head _)), .nil⟩
  | completions stage outcome =>
    have houtcome : Fits ("outcome", outcomes) ("outcome", outcome.name) :=
      fits_name Outcome.name outcome.mem_all rfl
    exact ⟨_, harm 3, .head _, .cons (hstage stage) (.cons houtcome .nil)⟩
  | bucket stage index =>
    exact ⟨_, harm 4, .head _, .cons (hstage stage)
      (.cons (fits_name Series.bound (List.mem_finRange index) rfl) .nil)⟩
  | count stage => exact ⟨_, harm 5, .head _, .cons (hstage stage) .nil⟩
  | sum stage => exact ⟨_, harm 5, .tail _ (.head _), .cons (hstage stage) .nil⟩
  | responses index =>
    exact ⟨_, harm 6, .head _, .cons (fits_name Series.status (List.mem_finRange index) rfl) .nil⟩
  | acceptErrors error =>
    exact ⟨_, harm 7, .head _, .cons (fits_name AcceptClass.name error.mem_all rfl) .nil⟩
  | snapshots outcome =>
    exact ⟨_, harm 8, .head _, .cons (fits_name SnapshotOutcome.name outcome.mem_all rfl) .nil⟩

/-- The arms accept the names and labels of the series and no others. -/
theorem any_accepts_iff {name : Bytes} :
    (arms.any fun arm => arm.accepts name labels) = true ↔
      ∃ s : Series, name = utf8 s.name ∧ labels = printLabels s.labels := by
  simp only [List.any_eq_true, Arm.accepts_iff]
  constructor
  · rintro ⟨arm, harm, text, texts, hcovers, rfl, rfl⟩
    obtain ⟨s, rfl, rfl⟩ := exists_series_of_covers harm hcovers
    exact ⟨s, rfl, rfl⟩
  · rintro ⟨s, rfl, rfl⟩
    obtain ⟨arm, harm, hcovers⟩ := covers_series s
    exact ⟨arm, harm, s.name, s.labels, hcovers, rfl, rfl⟩

variable {line : Bytes} {role : Role} {s : Series}

theorem roleOf_printLabels (role : Role) (labels : List (String × String)) :
    roleOf (printLabels (("role", role.name) :: labels)) = some role.name := by
  simp only [printLabels, List.map_cons, roleOf]
  cases role with
  | frontend => rw [Role.name, if_pos rfl]
  | worker => rw [Role.name, if_neg (by decide), if_pos rfl]

theorem rsplitOnce_of_shows (h : Shows role line s) :
    ∃ value, rsplitOnce 32 line = some (s.key role, value) ∧ validValue value = true := by
  obtain ⟨value, rfl, hvalue⟩ := h
  have hspace : 32 ∉ value := fun hmem => Bool.false_ne_true (hvalue.words 32 hmem)
  obtain ⟨number, hparse, hnumber⟩ := hvalue.parses
  refine ⟨value, rsplitOnce_eq_some_iff.mpr ⟨rfl, hspace⟩, ?_⟩
  simp [validValue, hparse, F64.isFinite, F64.le, hnumber]

theorem keyOf_of_shows (h : Shows role line s) : keyOf line = some (s.key role) := by
  obtain ⟨value, hsplit, -⟩ := rsplitOnce_of_shows h
  rw [keyOf, hsplit, Option.map_some]

theorem sampleRole_of_shows (h : Shows role line s) : sampleRole line = some role.name := by
  obtain ⟨value, hsplit, hvalid⟩ := rsplitOnce_of_shows h
  have hshort : ¬512 < (s.key role).length := by
    have hlength := s.length_key_le role
    omega
  have haccepts : (arms.any fun arm => arm.accepts (utf8 s.name) (printLabels s.labels)) = true :=
    any_accepts_iff.mpr ⟨s, rfl, rfl⟩
  have hrole : roleOf (s.printed role) = some role.name := roleOf_printLabels role s.labels
  rw [sampleRole, hsplit, Option.bind_some, if_neg (by simp [hshort, hvalid]),
    s.readSeries_key role, Option.bind_some, hrole, Option.bind_some]
  exact if_pos haccepts

/-- An accepted line has the key of a series of its role. -/
theorem exists_key_of_sampleRole (h : sampleRole line = some text) :
    ∃ (role : Role) (s : Series), role.name = text ∧ keyOf line = some (s.key role) := by
  simp only [sampleRole, Option.bind_eq_some_iff, Option.ite_none_left_eq_some,
    Option.ite_none_right_eq_some] at h
  obtain ⟨parts, hsplit, -, key, hread, found, hrole, haccepts, hfound⟩ := h
  cases hfound
  obtain ⟨s, hname, hlabels⟩ := any_accepts_iff.mp haccepts
  have hkey : parts.1 = series key.1 key.2 := eq_series_of_readSeries hread
  have hlabel : ∃ role : Role, role.name = text ∧
      key.2 = printLabels (("role", role.name) :: s.labels) := by
    cases hlist : key.2 with
    | nil =>
      rw [hlist] at hrole
      cases hrole
    | cons label labels =>
      rw [hlist] at hrole hlabels
      rw [roleOf] at hrole
      split_ifs at hrole with hfrontend hworker
      · cases hrole
        exact ⟨.frontend, rfl, congrArg₂ List.cons hfrontend hlabels⟩
      · cases hrole
        exact ⟨.worker, rfl, congrArg₂ List.cons hworker hlabels⟩
  obtain ⟨role, hrole, hlist⟩ := hlabel
  refine ⟨role, s, hrole, ?_⟩
  rw [keyOf, hsplit, Option.map_some, hkey, hname, hlist]
  rfl

/-- The turns bring the bytes and then the end of the stream. -/
inductive Delivers : Bytes → List Turn → Prop where
  | closed (turns : List Turn) : Delivers [] (.chunk [] :: turns)
  | chunk {chunk bytes : Bytes} {turns : List Turn} (hchunk : chunk ≠ [])
      (hrest : Delivers bytes turns) : Delivers (chunk ++ bytes) (.chunk chunk :: turns)
  | ready {bytes : Bytes} {turns : List Turn} (hrest : Delivers bytes turns) :
      Delivers bytes (.wouldBlock true :: turns)
  | interrupted {bytes : Bytes} {turns : List Turn} (hrest : Delivers bytes turns) :
      Delivers bytes (.interrupted :: turns)

/-- Bytes within the bound are read, however they are cut. -/
theorem readSnapshot_of_delivers {bytes data : Bytes} {turns : List Turn}
    (h : Delivers data turns) (hlength : bytes.length + data.length ≤ snapshotLimit) :
    readSnapshot bytes turns = some (.ok (bytes ++ data)) := by
  induction h generalizing bytes with
  | closed turns => rw [readSnapshot, if_pos rfl, List.append_nil]
  | @chunk chunk rest turns hchunk hrest ih =>
    rw [List.length_append] at hlength
    rw [readSnapshot, if_neg hchunk, if_neg (by omega), ih, List.append_assoc]
    rw [List.length_append]
    omega
  | ready hrest ih => rw [readSnapshot, if_pos rfl, ih hlength]
  | interrupted hrest ih => rw [readSnapshot, ih hlength]

theorem checkLines_of_nodup {lines : List Bytes} {seen : List (Option Bytes)}
    (hroles : ∀ line ∈ lines, sampleRole line = some text) (hnodup : (lines.map keyOf).Nodup)
    (hseen : ∀ line ∈ lines, keyOf line ∉ seen) : checkLines text seen lines = true := by
  induction lines generalizing seen with
  | nil => rfl
  | cons line lines ih =>
    obtain ⟨hrole, hroles⟩ := List.forall_mem_cons.mp hroles
    obtain ⟨hfresh, hnodup⟩ := List.nodup_cons.mp hnodup
    obtain ⟨hnew, hseen⟩ := List.forall_mem_cons.mp hseen
    have hrest : checkLines text (keyOf line :: seen) lines = true := by
      refine ih hroles hnodup fun other hother hmem => ?_
      rcases List.mem_cons.mp hmem with hsame | hmem
      · exact hfresh (hsame ▸ List.mem_map_of_mem hother)
      · exact hseen other hother hmem
    simp [checkLines, hrole, hnew, hrest]

variable (m : Metrics)

/-- Every line of a snapshot shows a series, and every series has a line. -/
theorem exists_shows {line : Bytes} (h : line ∈ m.lines) : ∃ s, Shows m.role line s := by
  obtain ⟨s, -, hshows⟩ := exists_of_forall₂ m.shows_lines h
  exact ⟨s, hshows⟩

theorem map_keyOf_lines : m.lines.map keyOf = Series.all.map fun s => some (s.key m.role) := by
  have hkeys : List.Forall₂ Eq (m.lines.map keyOf)
      (Series.all.map fun s => some (s.key m.role)) := by
    rw [List.forall₂_map_left_iff, List.forall₂_map_right_iff]
    exact m.shows_lines.imp fun _ _ hshows => keyOf_of_shows hshows
  rwa [List.forall₂_eq_eq_eq] at hkeys

theorem nodup_keyOf_lines : (m.lines.map keyOf).Nodup := by
  rw [map_keyOf_lines]
  exact Series.nodup_all.map fun s s' h => Series.key_injective (Option.some.inj h)

theorem lines_ne_nil : m.lines ≠ [] := List.cons_ne_nil _ _

/-- The lines of a snapshot are read back. -/
theorem textLines_snapshot : textLines m.snapshot = m.lines := by
  have hplain : ∀ line ∈ m.lines, newline ∉ line ∧ 13 ∉ line := by
    intro line hline
    obtain ⟨s, hshows⟩ := exists_shows m hline
    have hvisible : ∀ byte ∈ line, byte ≠ newline ∧ byte ≠ 13 := by
      intro byte hbyte
      rcases hshows.mem hbyte with rfl | hbyte
      · decide
      · constructor <;> rintro rfl <;> exact Bool.false_ne_true hbyte
    exact ⟨fun h => (hvisible _ h).1 rfl, fun h => (hvisible _ h).2 rfl⟩
  rw [textLines, Metrics.snapshot,
    linesOf_unlines (lines_ne_nil m) fun line hline => (hplain line hline).1]
  conv_rhs => rw [← List.map_id m.lines]
  refine List.map_congr_left fun line hline => ?_
  have hstrip : stripLast 13 line = none := by
    rw [Option.eq_none_iff_forall_ne_some]
    intro rest hrest
    rw [stripLast_eq_some_iff.mp hrest] at hline
    exact (hplain _ hline).2 (List.mem_append_right _ (List.mem_singleton_self _))
  rw [hstrip, Option.getD_none, id_eq]

theorem length_snapshot_le : m.snapshot.length ≤ snapshotLimit := by
  have hlines : m.lines.length = 350 := by rw [m.shows_lines.length_eq, Series.length_all]
  have hshort : ∀ line ∈ m.lines, line.length ≤ 165 := by
    intro line hline
    obtain ⟨s, hshows⟩ := exists_shows m hline
    exact hshows.length_le
  have hle := length_unlines_le hshort
  rw [hlines] at hle
  exact hle.trans (by decide)

theorem getLast?_snapshot : m.snapshot.getLast? = some newline := by
  rw [Metrics.snapshot, unlines_eq_intercalate (lines_ne_nil m), List.getLast?_concat]

/-- A snapshot is valid text. -/
theorem isUtf8_snapshot : isUtf8 m.snapshot = true := by
  refine isUtf8_of_ascii fun byte hbyte => ?_
  obtain ⟨part, hpart, hbyte⟩ := List.mem_flatten.mp hbyte
  obtain ⟨line, hline, rfl⟩ := List.mem_map.mp hpart
  obtain ⟨s, hshows⟩ := exists_shows m hline
  rcases List.mem_append.mp hbyte with hbyte | hbyte
  · rcases hshows.mem hbyte with rfl | hvisible
    · decide
    · simp only [Series.isVisible, Bool.and_eq_true, decide_eq_true_eq] at hvisible
      exact hvisible.2
  · rw [List.mem_singleton.mp hbyte]
    decide

/-- Every snapshot passes. -/
theorem validate_snapshot : validate m.role.name m.snapshot = .ok () := by
  have hne : ¬(m.snapshot = [] ∨ m.snapshot.getLast? ≠ some newline) := by
    have hlast := getLast?_snapshot m
    rintro (hnil | hother)
    · rw [hnil] at hlast
      cases hlast
    · exact hother hlast
  have hcheck : checkLines m.role.name [] (textLines m.snapshot) = true := by
    rw [textLines_snapshot]
    refine checkLines_of_nodup (fun line hline => ?_) (nodup_keyOf_lines m)
      fun line _ => List.not_mem_nil
    obtain ⟨s, hshows⟩ := exists_shows m hline
    exact sampleRole_of_shows hshows
  rw [validate, if_neg (by simp [isUtf8_snapshot m]), if_neg hne, if_pos hcheck]

/-- Printer and reader have one language. Every snapshot, whatever its counters, is accepted
line by line and by the command, and an accepted line has a key that every snapshot of its
role has. -/
theorem snapshot_language :
    (∀ m : Metrics,
      (∀ line ∈ textLines m.snapshot, sampleRole line = some m.role.name) ∧
      ((textLines m.snapshot).map keyOf).Nodup ∧
      m.snapshot ≠ [] ∧ m.snapshot.getLast? = some newline ∧
      m.snapshot.length ≤ snapshotLimit ∧
      ∀ (display : F64 → Bytes) (socket : Socket) (expectedRole : SnapshotRole) (unixTimeMs : Nat),
        socket.connects = true → Delivers m.snapshot socket.turns →
        expectedRole.asStr = m.role.name →
        snapshot display socket socket.owner expectedRole unixTimeMs =
          some (.ok (m.snapshot ++ timestamp display m.role.name unixTimeMs))) ∧
    ∀ (line : Bytes) (text : String), sampleRole line = some text →
      ∃ (role : Role) (key : Bytes), role.name = text ∧ keyOf line = some key ∧
        ∀ m : Metrics, m.role = role → some key ∈ (textLines m.snapshot).map keyOf := by
  refine ⟨fun m => ?_, fun line text h => ?_⟩
  · rw [textLines_snapshot]
    have hlast := getLast?_snapshot m
    have hlength := length_snapshot_le m
    refine ⟨fun line hline => ?_, nodup_keyOf_lines m, ?_, hlast, hlength, ?_⟩
    · obtain ⟨s, hshows⟩ := exists_shows m hline
      exact sampleRole_of_shows hshows
    · intro hnil
      rw [hnil] at hlast
      cases hlast
    · intro display socket expectedRole unixTimeMs hconnects hdelivers hrole
      have hread : readSnapshot [] socket.turns = some (.ok m.snapshot) :=
        readSnapshot_of_delivers hdelivers (by rwa [List.length_nil, Nat.zero_add])
      simp only [snapshot, hconnects, hread, hrole, Option.map_some, Except.bind,
        validate_snapshot m, Except.map]
      simp
  · obtain ⟨role, s, hrole, hkey⟩ := exists_key_of_sampleRole h
    refine ⟨role, s.key role, hrole, hkey, ?_⟩
    rintro m rfl
    rw [textLines_snapshot, map_keyOf_lines]
    exact List.mem_map.mpr ⟨s, s.mem_all, rfl⟩

/-- A worker under load, with some counters at their maximum. -/
def busyWorker : Metrics :=
  { Metrics.new .worker 8 with
    dropped := 18446744073709551615
    suppressedEvents := 2
    admissions := fun
      | .admitted => 12
      | _ => 18446744073709551615
    inflight := 8
    completions := fun stage outcome =>
      if stage = .crypto ∧ outcome = .success then 18446744073709551615 else 4
    durations := fun _ bucket => UInt64.ofNat bucket
    durationSum := fun stage => if stage = .crypto then 18446744073709551615 else 1500000
    snapshots := fun _ => 18446744073709551615 }

/-- Its counters, in one piece after a signal. -/
theorem snapshot_language_busy :
    (∀ line ∈ textLines busyWorker.snapshot, sampleRole line = some "worker") ∧
    snapshot (fun _ => utf8 "1700000000.5")
        ⟨true, 7, [.interrupted, .chunk busyWorker.snapshot, .chunk []]⟩ 7 .worker 1700000000500 =
      some (.ok (busyWorker.snapshot ++
        timestamp (fun _ => utf8 "1700000000.5") "worker" 1700000000500)) := by
  obtain ⟨hlines, -, hne, -, -, haccepted⟩ := snapshot_language.1 busyWorker
  have hdelivers : Delivers (busyWorker.snapshot ++ [])
      [.interrupted, .chunk busyWorker.snapshot, .chunk []] :=
    .interrupted (.chunk hne (.closed []))
  rw [List.append_nil] at hdelivers
  exact ⟨hlines, haccepted _ ⟨true, 7, _⟩ .worker 1700000000500 rfl hdelivers rfl⟩

end Leelo.Collector.Snapshot
