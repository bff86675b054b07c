import Leelo.Core.DoubleText
import Leelo.Core.Exposition
import Leelo.Daemon.Metrics

/-!
# Snapshots of the daemon

A snapshot prints every counter on a line of its own, under a key that names the role and
the labels of the counter. The series are the same for all values of the counters.
-/

namespace Leelo.Daemon

open Leelo.Core
open Json (utf8)

/-- The labels as bytes. -/
def printLabels (labels : List (String × String)) : List Label :=
  labels.map fun label => (utf8 label.1, utf8 label.2)

/-- Print `name{label="value",...}`. -/
def key (name : String) (labels : List (String × String)) : Bytes :=
  series (utf8 name) (printLabels labels)

/-- A line without its break. -/
def sample (name : String) (labels : List (String × String)) (value : Bytes) : Bytes :=
  key name labels ++ 32 :: value

/-- A counter in decimal digits. -/
def printCount (counter : UInt64) : Bytes := decimal counter.toNat

/-- Nanoseconds as seconds with nine decimal places. -/
def printSeconds (counter : UInt64) : Bytes :=
  ((F64.ofRat counter.toNat).div (.finite 1000000000)).printNine

/-- The bounds of the buckets with their counters. -/
def bucketBounds : List (String × Fin 13) := (bucketLabels ++ ["+Inf"]).zip (List.finRange 13)

namespace Metrics

variable (m : Metrics)

/-- The label that names the role. -/
def roleLabel : String × String := ("role", m.role.name)

/-- The lines of some buckets after others that counted `count`, and the new count. -/
def bucketLines (stage : Stage) (count : UInt64) : List (String × Fin 13) → List Bytes × UInt64
  | [] => ([], count)
  | bucket :: rest =>
    let count := add count (m.durations stage bucket.2)
    let after := bucketLines stage count rest
    (sample "leelo_server_stage_duration_seconds_bucket"
      [m.roleLabel, ("stage", stage.name), ("le", bucket.1)] (printCount count) :: after.1, after.2)

/-- The lines of one stage. -/
def stageLines (stage : Stage) : List Bytes :=
  let buckets := m.bucketLines stage 0 bucketBounds
  Outcome.all.map (fun outcome => sample "leelo_server_stage_completions_total"
      [m.roleLabel, ("stage", stage.name), ("outcome", outcome.name)]
      (printCount (m.completions stage outcome))) ++
    buckets.1 ++
    [sample "leelo_server_stage_duration_seconds_count" [m.roleLabel, ("stage", stage.name)]
      (printCount buckets.2),
     sample "leelo_server_stage_duration_seconds_sum" [m.roleLabel, ("stage", stage.name)]
      (printSeconds (m.durationSum stage))]

/-- Every line of a snapshot, in the order of the source. -/
def lines : List Bytes :=
  [sample "leelo_telemetry_dropped_total" [m.roleLabel, ("signal", "events")]
      (printCount m.dropped),
   sample "leelo_telemetry_suppressed_total" [m.roleLabel, ("signal", "events")]
      (printCount m.suppressedEvents)] ++
    Admission.all.map (fun admission => sample "leelo_connections_total"
      [m.roleLabel, ("admission", admission.name)] (printCount (m.admissions admission))) ++
    [sample "leelo_inflight" [m.roleLabel] (printCount m.inflight),
     sample "leelo_concurrency_limit" [m.roleLabel] (printCount m.limit)] ++
    Stage.all.flatMap m.stageLines ++
    (statusCodes.zip (List.finRange 6)).map (fun status => sample "leelo_http_responses_total"
      [m.roleLabel, ("status", status.1.repr)] (printCount (m.statuses status.2))) ++
    AcceptClass.all.map (fun error => sample "leelo_accept_errors_total"
      [m.roleLabel, ("class", error.name)] (printCount (m.acceptErrors error))) ++
    [sample "leelo_listener_retrying" [m.roleLabel] (printCount m.retrying)] ++
    SnapshotOutcome.all.map (fun outcome => sample "leelo_snapshot_connections_total"
      [m.roleLabel, ("outcome", outcome.name)] (printCount (m.snapshots outcome)))

/-- The text of a snapshot. -/
def snapshot : Bytes := unlines m.lines

end Metrics

/-- What a snapshot has a line for. -/
inductive Series where
  | dropped
  | suppressed
  | connections (admission : Admission)
  | inflight
  | limit
  | completions (stage : Stage) (outcome : Outcome)
  | bucket (stage : Stage) (index : Fin 13)
  | count (stage : Stage)
  | sum (stage : Stage)
  | responses (index : Fin 6)
  | acceptErrors (error : AcceptClass)
  | retrying
  | snapshots (outcome : SnapshotOutcome)
  deriving DecidableEq

namespace Series

/-- The series of one stage. -/
def ofStage (stage : Stage) : List Series :=
  Outcome.all.map (.completions stage) ++ (List.finRange 13).map (.bucket stage) ++
    [.count stage, .sum stage]

/-- Every series, in the order of the snapshot. -/
def all : List Series :=
  [.dropped, .suppressed] ++ Admission.all.map .connections ++ [.inflight, .limit] ++
    Stage.all.flatMap ofStage ++ (List.finRange 6).map .responses ++
    AcceptClass.all.map .acceptErrors ++ [.retrying] ++ SnapshotOutcome.all.map .snapshots

/-- The name of a series. -/
def name : Series → String
  | dropped => "leelo_telemetry_dropped_total"
  | suppressed => "leelo_telemetry_suppressed_total"
  | connections _ => "leelo_connections_total"
  | inflight => "leelo_inflight"
  | limit => "leelo_concurrency_limit"
  | completions .. => "leelo_server_stage_completions_total"
  | bucket .. => "leelo_server_stage_duration_seconds_bucket"
  | count _ => "leelo_server_stage_duration_seconds_count"
  | sum _ => "leelo_server_stage_duration_seconds_sum"
  | responses _ => "leelo_http_responses_total"
  | acceptErrors _ => "leelo_accept_errors_total"
  | retrying => "leelo_listener_retrying"
  | snapshots _ => "leelo_snapshot_connections_total"

/-- The spelling of a bound. -/
def bound (index : Fin 13) : String := (bucketLabels ++ ["+Inf"]).getD index ""

/-- The label of a status code. -/
def status (index : Fin 6) : String := (statusCodes.getD index 0).repr

/-- The labels after the role. -/
def labels : Series → List (String × String)
  | dropped | suppressed => [("signal", "events")]
  | connections admission => [("admission", admission.name)]
  | inflight | limit | retrying => []
  | completions stage outcome => [("stage", stage.name), ("outcome", outcome.name)]
  | bucket stage index => [("stage", stage.name), ("le", bound index)]
  | count stage | sum stage => [("stage", stage.name)]
  | responses index => [("status", status index)]
  | acceptErrors error => [("class", error.name)]
  | snapshots outcome => [("outcome", outcome.name)]

/-- The series as the snapshot prints it. -/
def key (role : Role) (s : Series) : Bytes := Daemon.key s.name (("role", role.name) :: s.labels)

/-- No series is missing. -/
theorem mem_all (s : Series) : s ∈ all := by
  simp only [all, ofStage, List.mem_append, List.mem_map, List.mem_flatMap]
  cases s with
  | dropped | suppressed | inflight | limit | retrying => simp
  | connections admission => simp [admission.mem_all]
  | completions stage outcome => simp [stage.mem_all, outcome.mem_all]
  | bucket stage index => simp [stage.mem_all]
  | count stage => simp [stage.mem_all]
  | sum stage => simp [stage.mem_all]
  | responses index => simp
  | acceptErrors error => simp [error.mem_all]
  | snapshots outcome => simp [outcome.mem_all]

/-- The line of a series, counted from zero. -/
def position : Series → Nat
  | dropped => 0
  | suppressed => 1
  | connections admission => 2 + admission.ctorIdx
  | inflight => 6
  | limit => 7
  | completions stage outcome => 8 + 36 * stage.ctorIdx + outcome.ctorIdx
  | bucket stage index => 29 + 36 * stage.ctorIdx + index
  | count stage => 42 + 36 * stage.ctorIdx
  | sum stage => 43 + 36 * stage.ctorIdx
  | responses index => 332 + index
  | acceptErrors error => 338 + error.ctorIdx
  | retrying => 342
  | snapshots outcome => 343 + outcome.ctorIdx

theorem map_position_all : all.map position = List.range 350 := by decide +kernel

/-- No series occurs twice. -/
theorem nodup_all : all.Nodup := by
  have hnodup : (all.map position).Nodup := map_position_all ▸ List.nodup_range
  exact hnodup.of_map

/-- A snapshot has 350 series. -/
theorem length_all : all.length = 350 := by
  rw [← List.length_map (f := position), map_position_all, List.length_range]

/-- The names, one for each kind of series. -/
private def names : List String :=
  ["leelo_telemetry_dropped_total", "leelo_telemetry_suppressed_total", "leelo_connections_total",
   "leelo_inflight", "leelo_concurrency_limit", "leelo_server_stage_completions_total",
   "leelo_server_stage_duration_seconds_bucket", "leelo_server_stage_duration_seconds_count",
   "leelo_server_stage_duration_seconds_sum", "leelo_http_responses_total",
   "leelo_accept_errors_total", "leelo_listener_retrying", "leelo_snapshot_connections_total"]

variable {s s' : Series}

private theorem ctorIdx_of_name (h : s.name = s'.name) :
    s.ctorIdx = s'.ctorIdx := by
  have hget : ∀ s : Series, names[s.ctorIdx]? = some s.name := fun s => by cases s <;> rfl
  have hnodup : names.Nodup := by decide
  have hlt : s.ctorIdx < names.length := (List.getElem?_eq_some_iff.mp (hget s)).1
  exact (List.getElem?_inj hlt hnodup).mp (by rw [hget s, hget s', h])

private theorem bound_injective : Function.Injective bound :=
  injective_of_nodup_map List.mem_finRange (by decide)

private theorem status_injective : Function.Injective status :=
  injective_of_nodup_map List.mem_finRange (by decide)

theorem eq_of_name_labels (hname : s.name = s'.name) (hlabels : s.labels = s'.labels) : s = s' := by
  have hctor := ctorIdx_of_name hname
  cases s <;> cases s' <;> try exact absurd hctor (Nat.ne_of_beq_eq_false rfl)
  all_goals
    simp only [labels, List.cons.injEq, Prod.mk.injEq, true_and, and_true] at hlabels
  case dropped.dropped | suppressed.suppressed | inflight.inflight | limit.limit |
      retrying.retrying => rfl
  case connections.connections => rw [Admission.name_injective hlabels]
  case completions.completions =>
    rw [Stage.name_injective hlabels.1, Outcome.name_injective hlabels.2]
  case bucket.bucket => rw [Stage.name_injective hlabels.1, bound_injective hlabels.2]
  case count.count | sum.sum => rw [Stage.name_injective hlabels]
  case responses.responses => rw [status_injective hlabels]
  case acceptErrors.acceptErrors => rw [AcceptClass.name_injective hlabels]
  case snapshots.snapshots => rw [SnapshotOutcome.name_injective hlabels]

/-- Letters, digits and three marks; no separator of a key is one. -/
def isWord (byte : UInt8) : Bool :=
  isDigit byte || (97 ≤ byte && byte ≤ 122) || (65 ≤ byte && byte ≤ 90) ||
    [43, 46, 95].contains byte

/-- Digits are bytes of words. -/
theorem isWord_of_isDigit {byte : UInt8} (h : isDigit byte = true) : isWord byte = true := by
  simp [isWord, h]

/-- The bytes that separate the parts of a key. -/
def separators : Bytes := [34, 44, 61, 123, 125]

theorem isWord_separators : ∀ mark ∈ separators, isWord mark = false := by
  simp only [separators, List.forall_mem_cons]
  exact ⟨rfl, rfl, rfl, rfl, rfl, List.forall_mem_nil _⟩

/-- The labels of a key as they are printed. -/
def printed (role : Role) (s : Series) : List Label :=
  printLabels (("role", role.name) :: s.labels)

/-- A short text of words. -/
def isText (limit : Nat) (text : Bytes) : Bool := text.all isWord && decide (text.length ≤ limit)

private theorem isText_all : ∀ s ∈ all, isText 42 (utf8 s.name) = true ∧ s.labels.length ≤ 2 ∧
    ∀ label ∈ s.labels, isText 26 (utf8 label.1 ++ utf8 label.2) = true := by
  decide +kernel

private theorem isText_printed (role : Role) (s : Series) :
    ∀ label ∈ s.printed role, isText 26 (label.1 ++ label.2) = true := by
  intro label hlabel
  obtain ⟨text, htext, rfl⟩ := List.mem_map.mp hlabel
  rcases List.mem_cons.mp htext with rfl | htext
  · cases role <;> decide
  · exact (isText_all s s.mem_all).2.2 text htext

theorem isText_iff {limit : Nat} {text : Bytes} :
    isText limit text = true ↔ (∀ byte ∈ text, isWord byte = true) ∧ text.length ≤ limit := by
  rw [isText, Bool.and_eq_true, List.all_eq_true, decide_eq_true_eq]

private theorem isWord_name (s : Series) : ∀ byte ∈ utf8 s.name, isWord byte = true :=
  (isText_iff.mp (isText_all s s.mem_all).1).1

private theorem isWord_printed (role : Role) (s : Series) {label : Label}
    (hlabel : label ∈ s.printed role) : ∀ byte ∈ label.1 ++ label.2, isWord byte = true :=
  (isText_iff.mp (s.isText_printed role label hlabel)).1

/-- A key is read as the name and the labels of its series. -/
theorem readSeries_key (role : Role) (s : Series) :
    readSeries (s.key role) = some (utf8 s.name, s.printed role) := by
  have hname : ∀ mark ∈ separators, mark ∉ utf8 s.name := by
    intro mark hmark h
    exact Bool.false_ne_true ((isWord_separators mark hmark).symm.trans (s.isWord_name mark h))
  have hlabel : ∀ mark ∈ separators, ∀ label ∈ s.printed role, mark ∉ label.1 ++ label.2 := by
    intro mark hmark label hlabel h
    exact Bool.false_ne_true
      ((isWord_separators mark hmark).symm.trans (s.isWord_printed role hlabel mark h))
  simp only [List.mem_append, not_or] at hlabel
  refine readSeries_series (hname 123 (by decide)) (List.cons_ne_nil _ _) fun label h => ?_
  exact ⟨(hlabel 61 (by decide) label h).1, hlabel 44 (by decide) label h⟩

/-- The key tells the series. -/
theorem key_injective {role role' : Role} (h : s.key role = s'.key role') :
    s = s' := by
  have hread := readSeries_key role s
  rw [h, readSeries_key role' s'] at hread
  obtain ⟨hname, hlabels⟩ := Prod.mk.inj (Option.some.inj hread)
  have hpair : Function.Injective fun label : String × String => (utf8 label.1, utf8 label.2) :=
    fun a b hab => Prod.ext (Json.utf8_injective (Prod.mk.inj hab).1)
      (Json.utf8_injective (Prod.mk.inj hab).2)
  have htexts := List.map_injective_iff.mpr hpair hlabels
  exact (eq_of_name_labels (Json.utf8_injective hname) (List.cons.inj htexts).2).symm

/-- A byte that is no line break and no space. -/
def isVisible (byte : UInt8) : Bool := 32 < byte && byte < 128

private theorem isVisible_fin : ∀ byte : Fin 256, isWord (UInt8.ofNat byte.val) = true →
    isVisible (UInt8.ofNat byte.val) = true := by
  decide +kernel

/-- Words are visible. -/
theorem isVisible_of_isWord {byte : UInt8} (h : isWord byte = true) : isVisible byte = true := by
  have hfin := isVisible_fin ⟨byte.toNat, byte.toNat_lt⟩
  rw [UInt8.ofNat_toNat] at hfin
  exact hfin h

/-- Separators are visible. -/
theorem isVisible_separators : ∀ mark ∈ separators, isVisible mark = true := by
  simp only [separators, List.forall_mem_cons]
  exact ⟨rfl, rfl, rfl, rfl, rfl, List.forall_mem_nil _⟩

/-- Keys are visible. -/
theorem isVisible_key (role : Role) (s : Series) : ∀ byte ∈ s.key role, isVisible byte = true := by
  intro byte hbyte
  rcases mem_series hbyte with h | h | ⟨label, hlabel, h⟩
  · exact isVisible_of_isWord (s.isWord_name byte h)
  · exact isVisible_separators byte h
  · exact isVisible_of_isWord (s.isWord_printed role hlabel byte (List.mem_append.mpr h))

/-- A key has at most 134 bytes. -/
theorem length_key_le (role : Role) (s : Series) : (s.key role).length ≤ 134 := by
  obtain ⟨hname, hlabels, -⟩ := isText_all s s.mem_all
  have hlength : (s.printed role).length ≤ 3 := by
    rw [printed, printLabels, List.length_map, List.length_cons]
    omega
  have hseries : (s.key role).length ≤ _ := length_series_le fun label hlabel =>
    (isText_iff.mp (s.isText_printed role label hlabel)).2
  have hshort := (isText_iff.mp hname).2
  change _ ≤ (utf8 s.name).length + 2 + (s.printed role).length * 30 at hseries
  omega

end Series

/-- Short text of a finite number that is not negative, digits with at most a point. -/
structure Amount (text : Bytes) : Prop where
  parses : ∃ value, F64.parse text = some (.finite value) ∧ 0 ≤ value
  words : ∀ byte ∈ text, Series.isWord byte = true
  length_le : text.length ≤ 30

theorem amount_printCount (counter : UInt64) : Amount (printCount counter) where
  parses := F64.parse_decimal (counter.toNat_lt.trans (by norm_num))
  words byte hbyte := Series.isWord_of_isDigit (F64.isDigit_decimal _ byte hbyte)
  length_le := F64.length_decimal_le (counter.toNat_lt.trans (by norm_num)) (by omega)

/-- Seconds of a counter of nanoseconds, rounded twice, are a moderate number. -/
private theorem seconds_finite (counter : UInt64) :
    ∃ value, (F64.ofRat counter.toNat).div (.finite 1000000000) = .finite value ∧
      0 ≤ value ∧ value < 10 ^ 19 := by
  have hcounter : (counter.toNat : ℚ) < 2 ^ 64 := by exact_mod_cast counter.toNat_lt
  have hlarge : (2 : ℚ) ^ 128 < 2 ^ 1000 := pow_lt_pow_right₀ (by norm_num) (by omega)
  obtain ⟨x, hx, hx0, hxle⟩ := F64.ofRat_nonneg (Nat.cast_nonneg counter.toNat)
    ((hcounter.trans (by norm_num)).trans hlarge)
  have hx19 : x / 1000000000 < 10 ^ 11 := by
    rw [div_lt_iff₀ (by norm_num)]
    linarith
  obtain ⟨value, hvalue, hvalue0, hvaluele⟩ :=
    F64.ofRat_nonneg (div_nonneg hx0 (by norm_num : (0 : ℚ) ≤ 1000000000))
      ((hx19.trans (by norm_num)).trans hlarge)
  refine ⟨value, ?_, hvalue0, by linarith⟩
  rw [hx, F64.div, if_pos (by norm_num), hvalue]

/-- A printed duration is an amount. -/
theorem amount_printSeconds (counter : UInt64) : Amount (printSeconds counter) := by
  obtain ⟨value, hvalue, hvalue0, hlt⟩ := seconds_finite counter
  obtain ⟨whole, fraction, hprint, hne, hwhole, hfraction, hlength, hnine⟩ :=
    F64.printNine_nonneg hvalue0 hlt
  rw [printSeconds, hvalue, hprint]
  refine ⟨F64.parse_point hne hwhole hfraction (by omega), fun byte hbyte => ?_, ?_⟩
  · rcases List.mem_append.mp hbyte with h | h
    · exact Series.isWord_of_isDigit (hwhole byte h)
    · rcases List.mem_cons.mp h with rfl | h
      · rfl
      · exact Series.isWord_of_isDigit (hfraction byte h)
  · rw [List.length_append, List.length_cons]
    omega

/-- A line has an amount under the key of a series. -/
def Shows (role : Role) (line : Bytes) (s : Series) : Prop :=
  ∃ value, line = s.key role ++ 32 :: value ∧ Amount value

variable {role : Role} {s : Series}

/-- A sample shows its series. -/
theorem shows_sample {name : String} {labels : List (String × String)} {value : Bytes}
    (hname : s.name = name) (hlabels : ("role", role.name) :: s.labels = labels)
    (hvalue : Amount value) :
    Shows role (sample name labels value) s := by
  subst hname hlabels
  exact ⟨value, rfl, hvalue⟩

theorem shows_count {name : String} {labels : List (String × String)} {counter : UInt64}
    (hname : s.name = name) (hlabels : ("role", role.name) :: s.labels = labels) :
    Shows role (sample name labels (printCount counter)) s :=
  shows_sample hname hlabels (amount_printCount counter)

theorem Shows.length_le {line : Bytes} (h : Shows role line s) :
    line.length ≤ 165 := by
  obtain ⟨value, rfl, hvalue⟩ := h
  have hkey := s.length_key_le role
  have hlength := hvalue.length_le
  rw [List.length_append, List.length_cons]
  omega

theorem Shows.mem {line : Bytes} (h : Shows role line s) {byte : UInt8} (hbyte : byte ∈ line) :
    byte = 32 ∨ Series.isVisible byte = true := by
  obtain ⟨value, rfl, hvalue⟩ := h
  rcases List.mem_append.mp hbyte with hkey | hrest
  · exact .inr (s.isVisible_key role byte hkey)
  · rcases List.mem_cons.mp hrest with hspace | htext
    · exact .inl hspace
    · exact .inr (Series.isVisible_of_isWord (hvalue.words byte htext))

theorem forall₂_shows_map {α : Type} {line : α → Bytes} {s : α → Series} (labels : List α)
    (h : ∀ label ∈ labels, Shows role (line label) (s label)) :
    List.Forall₂ (Shows role) (labels.map line) (labels.map s) := by
  rw [List.forall₂_map_left_iff, List.forall₂_map_right_iff]
  exact List.forall₂_same.mpr h

namespace Metrics

variable (m : Metrics)

theorem shows_bucketLines (stage : Stage) (count : UInt64) (buckets : List (String × Fin 13))
    (h : ∀ bucket ∈ buckets, Series.bound bucket.2 = bucket.1) :
    List.Forall₂ (Shows m.role) (m.bucketLines stage count buckets).1
      (buckets.map fun bucket => .bucket stage bucket.2) := by
  induction buckets generalizing count with
  | nil => exact .nil
  | cons bucket rest ih =>
    obtain ⟨hbound, hrest⟩ := List.forall_mem_cons.mp h
    refine .cons (shows_count rfl ?_) (ih _ hrest)
    rw [Series.labels, hbound]
    rfl

theorem shows_stageLines (stage : Stage) :
    List.Forall₂ (Shows m.role) (m.stageLines stage) (Series.ofStage stage) := by
  have hbounds : ∀ bucket ∈ bucketBounds, Series.bound bucket.2 = bucket.1 := by decide
  have hindices : bucketBounds.map (fun bucket => Series.bucket stage bucket.2) =
      (List.finRange 13).map (.bucket stage) := rfl
  refine List.rel_append (List.rel_append ?_ ?_) ?_
  · exact forall₂_shows_map _ fun outcome _ => shows_count rfl rfl
  · exact hindices ▸ m.shows_bucketLines stage 0 bucketBounds hbounds
  · exact .cons (shows_count rfl rfl) (.cons (shows_sample rfl rfl (amount_printSeconds _)) .nil)

private theorem shows_statuses : List.Forall₂ (Shows m.role)
    ((statusCodes.zip (List.finRange 6)).map fun status => sample "leelo_http_responses_total"
      [m.roleLabel, ("status", status.1.repr)] (printCount (m.statuses status.2)))
    ((List.finRange 6).map .responses) := by
  have hspelling : ∀ status ∈ statusCodes.zip (List.finRange 6),
      Series.status status.2 = status.1.repr := by decide
  have hindices : (statusCodes.zip (List.finRange 6)).map (fun status => .responses status.2) =
      (List.finRange 6).map Series.responses := rfl
  rw [← hindices]
  refine forall₂_shows_map _ fun status hstatus => shows_count rfl ?_
  rw [Series.labels, hspelling status hstatus]
  rfl

/-- A snapshot has one line for each series, in the order of the series. -/
theorem shows_lines : List.Forall₂ (Shows m.role) m.lines Series.all := by
  have hstages : List.Forall₂ (Shows m.role) (Stage.all.flatMap m.stageLines)
      (Stage.all.flatMap Series.ofStage) := by
    have hsame : List.Forall₂ Eq Stage.all Stage.all := List.forall₂_same.mpr fun _ _ => rfl
    refine List.rel_flatMap hsame ?_
    rintro stage _ rfl
    exact m.shows_stageLines stage
  refine List.rel_append (List.rel_append (List.rel_append (List.rel_append (List.rel_append
    (List.rel_append (List.rel_append ?_ ?_) ?_) hstages) m.shows_statuses) ?_) ?_) ?_
  · exact .cons (shows_count rfl rfl) (.cons (shows_count rfl rfl) .nil)
  · exact forall₂_shows_map _ fun admission _ => shows_count rfl rfl
  · exact .cons (shows_count rfl rfl) (.cons (shows_count rfl rfl) .nil)
  · exact forall₂_shows_map _ fun error _ => shows_count rfl rfl
  · exact .cons (shows_count rfl rfl) .nil
  · exact forall₂_shows_map _ fun outcome _ => shows_count rfl rfl

end Metrics

end Leelo.Daemon
