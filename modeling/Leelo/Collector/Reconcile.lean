import Leelo.Collector.Journal
import Leelo.Core.DoubleText
import Leelo.Core.Lists

/-!
# Fleet reconciliation

An inventory lists the boots that are expected and the enrollments that were begun, and a
snapshot lists boots that were observed. Every boot and every enrollment is in one class,
and the report counts the classes.
-/

namespace Leelo.Collector.Reconcile

open Leelo.Core

/-- The largest number of boots or enrollments in an inventory. -/
def targetLimit : Nat := 1024

/-- A boot that was requested. -/
structure ExpectedBoot where
  target : String
  bootId : String
  requestedAtMs : Nat
  deadlineMs : Nat

/-- Paths are compared by their components. -/
structure Enrollment (Path : Type) where
  journal : Path
  createdAtMs : Nat
  productionBootTestPassed : Bool

/-- What the operator expects. -/
structure Inventory (Path : Type) where
  schemaVersion : UInt8
  updatedAtMs : Nat
  validForSeconds : Nat
  boots : List ExpectedBoot
  enrollments : List (Enrollment Path)

/-- How a boot that was observed went. -/
inductive BootOutcome where
  | success
  | failure
  deriving DecidableEq

/-- A boot that was observed. -/
structure BootObservation where
  target : String
  bootId : String
  observedAtMs : Nat
  outcome : BootOutcome

/-- What was observed. -/
structure Observations where
  schemaVersion : UInt8
  updatedAtMs : Nat
  boots : List BootObservation

/-- A file, whatever its path. -/
structure FileIdentity where
  device : UInt64
  inode : UInt64
  deriving DecidableEq

/-- A document is fresh while its validity lasts. -/
def fresh (timestamp now validity : Nat) : Bool :=
  timestamp ≤ now ∧ now - timestamp ≤ validity * 1000

/-- A short name of letters, digits and some punctuation. -/
def reference (value : String) : Bool :=
  value ≠ "" && value.utf8ByteSize ≤ 64 &&
    value.toList.all fun c => c.isAlphanum || c = '_' || c = '-' || c = '.' || c = ':'

/-- Checks the boots expected, no two of them the same. -/
def checkBoots (updatedAtMs : Nat) :
    List (String × String) → List ExpectedBoot → Except String Unit
  | _, [] => .ok ()
  | names, boot :: boots =>
    if !reference boot.target || !reference boot.bootId ||
        boot.requestedAtMs > boot.deadlineMs || boot.requestedAtMs > updatedAtMs ||
        names.contains (boot.target, boot.bootId) then
      .error "invalid expected boot"
    else checkBoots updatedAtMs ((boot.target, boot.bootId) :: names) boots

/-- The last one of those with the greatest time. -/
def latest : List BootObservation → Option BootObservation :=
  List.foldl (fun best value =>
    match best with
    | none => some value
    | some best => if value.observedAtMs < best.observedAtMs then some best else some value) none

/-- What is known about an expected boot. -/
inductive BootState where
  | success
  | failure
  | pending
  | missing
  | unknown
  | lateSuccess
  deriving DecidableEq, Repr

/-- The word for a boot's state. -/
def BootState.label : BootState → String
  | .success => "success"
  | .failure => "failure"
  | .pending => "pending"
  | .missing => "missing"
  | .unknown => "unknown"
  | .lateSuccess => "late_success"

/-- The states in the order of their counts. -/
def BootState.all : List BootState :=
  [.success, .failure, .pending, .missing, .unknown, .lateSuccess]

/-- The observation is of the boot. -/
def ofBoot (expected : ExpectedBoot) (value : BootObservation) : Bool :=
  value.target = expected.target && value.bootId = expected.bootId

/-- The state of an expected boot. -/
def bootState (observed : List BootObservation) (bothFresh : Bool) (now : Nat)
    (expected : ExpectedBoot) : BootState :=
  if !bothFresh then .unknown
  else
    match latest (observed.filter fun value =>
        ofBoot expected value && value.observedAtMs ≥ expected.requestedAtMs) with
    | some latest =>
      if observed.any fun value => ofBoot expected value &&
          value.observedAtMs = latest.observedAtMs && value.outcome ≠ latest.outcome then .unknown
      else if latest.outcome = .success ∧ latest.observedAtMs > expected.deadlineMs then
        .lateSuccess
      else if latest.outcome = .success then .success
      else .failure
    | none => if now ≤ expected.deadlineMs then .pending else .missing

/-- The number of boots in each state. -/
def countStates (state : ExpectedBoot → BootState) (boots : List ExpectedBoot) :
    BootState → Nat :=
  boots.foldl (fun counts boot =>
    Function.update counts (state boot) (counts (state boot) + 1)) fun _ => 0

/-- What is known about an enrollment. -/
inductive EnrollmentState where
  | pending
  | awaitingBootTest
  | unknown
  | completed
  deriving DecidableEq, Repr

/-- The older of two times. -/
def older (current : Option Nat) (timestamp : Nat) : Option Nat :=
  some (current.elim timestamp fun previous => min previous timestamp)

/-- The counts and the oldest times, and the journals and files met so far. -/
structure Tally (Path : Type) where
  pending : Nat
  unknown : Nat
  awaitingBootTest : Nat
  oldest : Option Nat
  oldestPending : Option Nat
  oldestAwaiting : Option Nat
  oldestUnknown : Option Nat
  journals : List Path
  journalFiles : List FileIdentity

/-- Nothing is counted yet. -/
def Tally.empty {Path : Type} : Tally Path := ⟨0, 0, 0, none, none, none, none, [], []⟩

section Enrollments

variable {Path : Type} [DecidableEq Path]

/-- A held file, or none if it cannot be read or fails a check. -/
abbrev ReadHeld (Path : Type) := Path → Option (Bytes × FileIdentity)

/-- Count an enrollment in its class. -/
def Tally.count (tally : Tally Path) (state : EnrollmentState) (createdAtMs : Nat) : Tally Path :=
  match state with
  | .awaitingBootTest =>
    { tally with
      awaitingBootTest := tally.awaitingBootTest + 1
      oldestAwaiting := older tally.oldestAwaiting createdAtMs
      oldest := older tally.oldest createdAtMs }
  | .completed => tally
  | .pending =>
    { tally with
      pending := tally.pending + 1
      oldestPending := older tally.oldestPending createdAtMs
      oldest := older tally.oldest createdAtMs }
  | .unknown =>
    { tally with
      unknown := tally.unknown + 1
      oldestUnknown := older tally.oldestUnknown createdAtMs
      oldest := older tally.oldest createdAtMs }

/-- The class of an enrollment by what its journal says. -/
def journalState (committed : Option Bool) (passed : Bool) : EnrollmentState :=
  match committed with
  | some true => if !passed then .awaitingBootTest else .completed
  | some false => .pending
  | none => .unknown

/-- Counts one enrollment, whose journal must be new. -/
def tallyEnrollment (reader : JsonReader) (readHeld : ReadHeld Path) (updatedAtMs now : Nat)
    (inventoryFresh : Bool) (tally : Tally Path) (enrollment : Enrollment Path) :
    Except String (Tally Path) :=
  if tally.journals.contains enrollment.journal || enrollment.createdAtMs > now ||
      enrollment.createdAtMs > updatedAtMs then
    .error "invalid enrollment inventory"
  else
    let tally := { tally with journals := enrollment.journal :: tally.journals }
    if !inventoryFresh then .ok (tally.count .unknown enrollment.createdAtMs)
    else
      match readHeld enrollment.journal with
      | some (bytes, identity) =>
        if tally.journalFiles.contains identity then .error "duplicate journal file"
        else
          .ok ({ tally with journalFiles := identity :: tally.journalFiles }.count
            (journalState (journalCommitted reader bytes) enrollment.productionBootTestPassed)
            enrollment.createdAtMs)
      | none =>
        .ok (tally.count (journalState none enrollment.productionBootTestPassed)
          enrollment.createdAtMs)

end Enrollments

/-- What reconciliation reports. -/
structure Report where
  states : BootState → Nat
  inventoryFresh : Bool
  observationsFresh : Bool
  now : Nat
  pending : Nat
  unknown : Nat
  awaitingBootTest : Nat
  oldest : Option Nat
  oldestPending : Option Nat
  oldestAwaiting : Option Nat
  oldestUnknown : Option Nat

/-- Seconds of a time in milliseconds. -/
def seconds (ms : Nat) : F64 := (F64.ofRat ms).div (.finite 1000)

/-- The text of a report. -/
def Report.text (printDouble : F64 → String) (report : Report) : String :=
  let line (name : String) (value : String) : String := name ++ " " ++ value ++ "\n"
  let time (value : Option Nat) : String := printDouble (seconds (value.getD 0))
  String.join (BootState.all.map fun state =>
    line ("leelo_boot_targets\x7bstate=\"" ++ state.label ++ "\"\x7d")
      (toString (report.states state))) ++
  line "leelo_inventory_fresh" (toString report.inventoryFresh.toNat) ++
  line "leelo_boot_observations_fresh" (toString report.observationsFresh.toNat) ++
  line "leelo_reconciliation_snapshot_timestamp_seconds" (printDouble (seconds report.now)) ++
  line "leelo_enrollments_requiring_reconciliation" (toString report.pending) ++
  line "leelo_enrollments_unknown" (toString report.unknown) ++
  line "leelo_enrollments_awaiting_boot_test" (toString report.awaitingBootTest) ++
  line "leelo_oldest_unresolved_enrollment_timestamp_seconds" (time report.oldest) ++
  line "leelo_oldest_enrollment_requiring_reconciliation_timestamp_seconds"
    (time report.oldestPending) ++
  line "leelo_oldest_enrollment_awaiting_boot_test_timestamp_seconds"
    (time report.oldestAwaiting) ++
  line "leelo_oldest_unknown_enrollment_timestamp_seconds" (time report.oldestUnknown)

section Render

variable {Path : Type} [DecidableEq Path] (reader : JsonReader) (readHeld : ReadHeld Path)

/-- Checks the versions, the validity and the sizes. -/
def checkLimits (inventory : Inventory Path) (observations : Observations) :
    Except String Unit :=
  if inventory.schemaVersion ≠ 1 ∨ observations.schemaVersion ≠ 1 ∨
      ¬(1 ≤ inventory.validForSeconds ∧ inventory.validForSeconds ≤ 86400) ∨
      inventory.boots.length > targetLimit ∨ inventory.enrollments.length > targetLimit ∨
      observations.boots.length > targetLimit * 4 then
    .error "invalid reconciliation schema or limit"
  else .ok ()

/-- Checks the observations. -/
def checkObservations (observations : Observations) : Except String Unit :=
  if observations.boots.any fun boot => !reference boot.target || !reference boot.bootId ||
      boot.observedAtMs > observations.updatedAtMs then
    .error "invalid boot observation"
  else .ok ()

/-- Reconciles the inventory with the observations and the journals. -/
def reconcile (inventory : Inventory Path) (observations : Observations) (now : Nat) :
    Except String Report := do
  checkLimits inventory observations
  checkBoots inventory.updatedAtMs [] inventory.boots
  checkObservations observations
  let inventoryFresh := fresh inventory.updatedAtMs now inventory.validForSeconds
  let observationsFresh := fresh observations.updatedAtMs now inventory.validForSeconds
  let tally ← inventory.enrollments.foldlM
    (tallyEnrollment reader readHeld inventory.updatedAtMs now inventoryFresh) .empty
  return {
    states := countStates
      (bootState observations.boots (inventoryFresh && observationsFresh) now) inventory.boots
    inventoryFresh
    observationsFresh
    now
    pending := tally.pending
    unknown := tally.unknown
    awaitingBootTest := tally.awaitingBootTest
    oldest := tally.oldest
    oldestPending := tally.oldestPending
    oldestAwaiting := tally.oldestAwaiting
    oldestUnknown := tally.oldestUnknown }

/-- Reconciles and prints. -/
def render (printDouble : F64 → String) (inventory : Inventory Path)
    (observations : Observations) (now : Nat) : Except String String := do
  let report ← reconcile reader readHeld inventory observations now
  return report.text printDouble

end Render

section Boots

variable {observed observed' : List BootObservation} {expected : ExpectedBoot}
  {value other : BootObservation} {now : Nat} {bothFresh : Bool} {state : BootState}

/-- An observation of the expected boot at or after its request. -/
def Observed (observed : List BootObservation) (expected : ExpectedBoot)
    (value : BootObservation) : Prop :=
  value ∈ observed ∧ value.target = expected.target ∧ value.bootId = expected.bootId ∧
    expected.requestedAtMs ≤ value.observedAtMs

/-- An observation that no other one of the boot is later than. -/
def IsLatest (observed : List BootObservation) (expected : ExpectedBoot)
    (value : BootObservation) : Prop :=
  Observed observed expected value ∧
    ∀ other, Observed observed expected other → other.observedAtMs ≤ value.observedAtMs

/-- When a boot is in a state. -/
def Classified (observed : List BootObservation) (bothFresh : Prop) (now : Nat)
    (expected : ExpectedBoot) : BootState → Prop
  | .success => bothFresh ∧ ∃ value, IsLatest observed expected value ∧
      value.observedAtMs ≤ expected.deadlineMs ∧
      ∀ other, IsLatest observed expected other → other.outcome = .success
  | .lateSuccess => bothFresh ∧ ∃ value, IsLatest observed expected value ∧
      expected.deadlineMs < value.observedAtMs ∧
      ∀ other, IsLatest observed expected other → other.outcome = .success
  | .failure => bothFresh ∧ ∃ value, IsLatest observed expected value ∧
      ∀ other, IsLatest observed expected other → other.outcome = .failure
  | .unknown => ¬bothFresh ∨ ∃ value other, IsLatest observed expected value ∧
      IsLatest observed expected other ∧ value.outcome ≠ other.outcome
  | .pending => bothFresh ∧ (∀ value, ¬Observed observed expected value) ∧
      now ≤ expected.deadlineMs
  | .missing => bothFresh ∧ (∀ value, ¬Observed observed expected value) ∧
      expected.deadlineMs < now

theorem IsLatest.time_eq (h : IsLatest observed expected value)
    (h' : IsLatest observed expected other) : value.observedAtMs = other.observedAtMs :=
  Nat.le_antisymm (h'.2 value h.1) (h.2 other h'.1)

theorem latest_concat (values : List BootObservation) (last : BootObservation) :
    latest (values ++ [last]) =
      match latest values with
      | none => some last
      | some best => if last.observedAtMs < best.observedAtMs then some best else some last := by
  rw [latest, List.foldl_append]
  rfl

/-- The fold keeps a greatest element of those it has met. -/
theorem latest_spec (values : List BootObservation) :
    (latest values = none ∧ values = []) ∨
      ∃ value ∈ values, latest values = some value ∧
        ∀ other ∈ values, other.observedAtMs ≤ value.observedAtMs := by
  induction values using List.reverseRecOn with
  | nil => exact .inl ⟨rfl, rfl⟩
  | append_singleton values last ih =>
    refine .inr ?_
    rw [latest_concat]
    obtain ⟨hnone, rfl⟩ | ⟨best, hbest, hlatest, hgreatest⟩ := ih
    · rw [hnone]
      exact ⟨last, by simp, rfl, by simp⟩
    · rw [hlatest]
      dsimp only
      split_ifs with hlt
      · refine ⟨best, List.mem_append_left _ hbest, rfl, fun other hother => ?_⟩
        rcases List.mem_append.mp hother with hother | hother
        · exact hgreatest other hother
        · rw [List.mem_singleton.mp hother]
          exact Nat.le_of_lt hlt
      · refine ⟨last, by simp, rfl, fun other hother => ?_⟩
        rcases List.mem_append.mp hother with hother | hother
        · exact (hgreatest other hother).trans (Nat.le_of_not_lt hlt)
        · rw [List.mem_singleton.mp hother]

theorem mem_filter_iff : (value ∈ observed.filter fun value =>
    ofBoot expected value && value.observedAtMs ≥ expected.requestedAtMs) ↔
      Observed observed expected value := by
  simp only [List.mem_filter, ofBoot, Bool.and_eq_true, decide_eq_true_eq, Observed, and_assoc,
    ge_iff_le]

theorem latest_filter_eq_none (h : latest (observed.filter fun value =>
    ofBoot expected value && value.observedAtMs ≥ expected.requestedAtMs) = none)
    (value : BootObservation) : ¬Observed observed expected value := by
  intro hobserved
  obtain ⟨-, hnil⟩ | ⟨best, -, hbest, -⟩ := latest_spec (observed.filter fun value =>
    ofBoot expected value && value.observedAtMs ≥ expected.requestedAtMs)
  · have hmem := mem_filter_iff.mpr hobserved
    rw [hnil] at hmem
    cases hmem
  · cases h.symm.trans hbest

theorem isLatest_of_latest (h : latest (observed.filter fun value =>
    ofBoot expected value && value.observedAtMs ≥ expected.requestedAtMs) = some value) :
    IsLatest observed expected value := by
  obtain ⟨hnone, -⟩ | ⟨best, hmem, hbest, hgreatest⟩ := latest_spec (observed.filter fun value =>
    ofBoot expected value && value.observedAtMs ≥ expected.requestedAtMs)
  · cases hnone.symm.trans h
  · obtain rfl : best = value := Option.some.inj (hbest.symm.trans h)
    exact ⟨mem_filter_iff.mp hmem, fun other hother => hgreatest other (mem_filter_iff.mpr hother)⟩

/-- The second scan finds a conflict among the latest observations. -/
theorem conflict_iff (h : IsLatest observed expected value) :
    (observed.any fun other => ofBoot expected other &&
      other.observedAtMs = value.observedAtMs && other.outcome ≠ value.outcome) = true ↔
      ∃ other, IsLatest observed expected other ∧ other.outcome ≠ value.outcome := by
  simp only [List.any_eq_true, ofBoot, Bool.and_eq_true, decide_eq_true_eq]
  constructor
  · rintro ⟨other, hmem, ⟨⟨htarget, hboot⟩, htime⟩, hne⟩
    refine ⟨other, ⟨⟨hmem, htarget, hboot, htime ▸ h.1.2.2.2⟩, fun third hthird => ?_⟩, hne⟩
    rw [htime]
    exact h.2 third hthird
  · rintro ⟨other, hother, hne⟩
    obtain ⟨hmem, htarget, hboot, -⟩ := hother.1
    exact ⟨other, hmem, ⟨⟨htarget, hboot⟩, hother.time_eq h⟩, hne⟩

theorem bootState_stale : bootState observed false now expected = .unknown := rfl

theorem bootState_unobserved (h : ∀ value, ¬Observed observed expected value) :
    bootState observed true now expected =
      if now ≤ expected.deadlineMs then .pending else .missing := by
  have hnone : latest (observed.filter fun value =>
      ofBoot expected value && value.observedAtMs ≥ expected.requestedAtMs) = none := by
    obtain ⟨hnone, -⟩ | ⟨value, hmem, -⟩ := latest_spec (observed.filter fun value =>
      ofBoot expected value && value.observedAtMs ≥ expected.requestedAtMs)
    · exact hnone
    · exact absurd (mem_filter_iff.mp hmem) (h value)
  rw [bootState, hnone]
  rfl

theorem exists_latest (h : Observed observed expected value) :
    ∃ found, latest (observed.filter fun value =>
        ofBoot expected value && value.observedAtMs ≥ expected.requestedAtMs) = some found ∧
      IsLatest observed expected found := by
  obtain hnone | ⟨found, hfound⟩ := Option.eq_none_or_eq_some (latest (observed.filter
    fun value => ofBoot expected value && value.observedAtMs ≥ expected.requestedAtMs))
  · exact absurd h (latest_filter_eq_none hnone value)
  · exact ⟨found, hfound, isLatest_of_latest hfound⟩

/-- Latest observations that contradict each other say nothing. -/
theorem bootState_conflict (h : IsLatest observed expected value)
    (h' : IsLatest observed expected other) (hne : value.outcome ≠ other.outcome) :
    bootState observed true now expected = .unknown := by
  obtain ⟨found, hlatest, hfound⟩ := exists_latest h.1
  have hconflict : ∃ third, IsLatest observed expected third ∧ third.outcome ≠ found.outcome := by
    by_cases hsame : value.outcome = found.outcome
    · exact ⟨other, h', fun hother => hne (hsame.trans hother.symm)⟩
    · exact ⟨value, h, hsame⟩
  rw [bootState, hlatest]
  dsimp only
  rw [if_neg (by decide), if_pos ((conflict_iff hfound).mpr hconflict)]

/-- Latest observations that agree decide the state. -/
theorem bootState_agreed (h : IsLatest observed expected value)
    (hall : ∀ other, IsLatest observed expected other → other.outcome = value.outcome) :
    bootState observed true now expected =
      if value.outcome = .success then
        if expected.deadlineMs < value.observedAtMs then .lateSuccess else .success
      else .failure := by
  obtain ⟨found, hlatest, hfound⟩ := exists_latest h.1
  have hagreed : ¬∃ third, IsLatest observed expected third ∧ third.outcome ≠ found.outcome := by
    rintro ⟨third, hthird, hne⟩
    exact hne ((hall third hthird).trans (hall found hfound).symm)
  rw [bootState, hlatest]
  dsimp only
  rw [if_neg (by decide), if_neg (mt (conflict_iff hfound).mp hagreed), hall found hfound,
    hfound.time_eq h]
  by_cases hsuccess : value.outcome = .success
  · simp only [hsuccess, true_and, if_true, gt_iff_lt]
  · simp only [hsuccess, false_and, if_false]

/-- The state that is computed is the one the observations call for. -/
theorem bootState_eq_iff : bootState observed bothFresh now expected = state ↔
    Classified observed (bothFresh = true) now expected state := by
  constructor
  · rintro rfl
    cases bothFresh with
    | false => exact .inl Bool.false_ne_true
    | true =>
      by_cases hobserved : ∃ value, Observed observed expected value
      · obtain ⟨value, hvalue⟩ := hobserved
        obtain ⟨found, -, hfound⟩ := exists_latest hvalue
        by_cases hall : ∀ other, IsLatest observed expected other → other.outcome = found.outcome
        · rw [bootState_agreed hfound hall]
          split_ifs with hsuccess hlate
          · exact ⟨rfl, found, hfound, hlate, hsuccess ▸ hall⟩
          · exact ⟨rfl, found, hfound, Nat.le_of_not_lt hlate, hsuccess ▸ hall⟩
          · have hfailure : found.outcome = .failure := by
              cases hfound : found.outcome with
              | success => exact absurd hfound hsuccess
              | failure => rfl
            exact ⟨rfl, found, hfound, hfailure ▸ hall⟩
        · push Not at hall
          obtain ⟨other, hother, hne⟩ := hall
          rw [bootState_conflict hother hfound hne]
          exact .inr ⟨other, found, hother, hfound, hne⟩
      · have hnone : ∀ value, ¬Observed observed expected value :=
          fun value hvalue => hobserved ⟨value, hvalue⟩
        rw [bootState_unobserved hnone]
        split_ifs with hnow
        · exact ⟨rfl, hnone, hnow⟩
        · exact ⟨rfl, hnone, Nat.lt_of_not_le hnow⟩
  · intro h
    cases state with
    | success =>
      obtain ⟨rfl, value, hvalue, htime, hall⟩ := h
      have hsuccess := hall value hvalue
      rw [bootState_agreed hvalue (hsuccess.symm ▸ hall), if_pos hsuccess,
        if_neg (Nat.not_lt.mpr htime)]
    | lateSuccess =>
      obtain ⟨rfl, value, hvalue, htime, hall⟩ := h
      have hsuccess := hall value hvalue
      rw [bootState_agreed hvalue (hsuccess.symm ▸ hall), if_pos hsuccess, if_pos htime]
    | failure =>
      obtain ⟨rfl, value, hvalue, hall⟩ := h
      have hfailure := hall value hvalue
      rw [bootState_agreed hvalue (hfailure.symm ▸ hall), hfailure]
      rfl
    | unknown =>
      obtain hstale | ⟨value, other, hvalue, hother, hne⟩ := h
      · rw [Bool.not_eq_true] at hstale
        rw [hstale, bootState_stale]
      · cases bothFresh with
        | false => rfl
        | true => exact bootState_conflict hvalue hother hne
    | pending =>
      obtain ⟨rfl, hnone, hnow⟩ := h
      rw [bootState_unobserved hnone, if_pos hnow]
    | missing =>
      obtain ⟨rfl, hnone, hnow⟩ := h
      rw [bootState_unobserved hnone, if_neg (Nat.not_le.mpr hnow)]

/-- The state of a boot depends on which observations there are, not on their order. -/
theorem bootState_congr (h : ∀ value, value ∈ observed ↔ value ∈ observed') :
    bootState observed bothFresh now expected = bootState observed' bothFresh now expected := by
  have hobserved : Observed observed expected = Observed observed' expected := by
    funext value
    rw [Observed, Observed, h]
  have hlatest : IsLatest observed expected = IsLatest observed' expected := by
    funext value
    rw [IsLatest, IsLatest, hobserved]
  have hclassified := bootState_eq_iff.mp (rfl : bootState observed' bothFresh now expected = _)
  refine bootState_eq_iff.mpr ?_
  cases hstate : bootState observed' bothFresh now expected <;>
    simpa only [hstate, Classified, hobserved, hlatest] using hclassified

end Boots

theorem countStates_eq (state : ExpectedBoot → BootState) (boots : List ExpectedBoot)
    (target : BootState) :
    countStates state boots target = boots.countP fun boot => state boot = target := by
  unfold countStates
  induction boots using List.reverseRecOn with
  | nil => rfl
  | append_singleton boots boot ih =>
    rw [List.foldl_append, List.countP_append, List.countP_singleton, ← ih]
    simp only [List.foldl_cons, List.foldl_nil]
    by_cases h : target = state boot
    · subst h
      simp
    · simp [Function.update_of_ne h, Ne.symm h]

/-- Every boot is counted once. -/
theorem sum_countStates (state : ExpectedBoot → BootState) (boots : List ExpectedBoot) :
    (BootState.all.map (countStates state boots)).sum = boots.length := by
  simp only [BootState.all, List.map_cons, List.map_nil, List.sum_cons, List.sum_nil,
    countStates_eq]
  induction boots with
  | nil => rfl
  | cons boot boots ih =>
    simp only [List.countP_cons, List.length_cons]
    cases state boot <;> simp <;> omega

theorem older_eq_min? (current : Option Nat) (timestamp : Nat) :
    older current timestamp = (current.toList ++ [timestamp]).min? := by
  cases current <;> rfl

theorem toList_min? (current : Option Nat) : current.toList.min? = current := by
  cases current <;> rfl

section Tallies

variable {Path : Type} [DecidableEq Path] {reader : JsonReader} {readHeld : ReadHeld Path}
  {updatedAtMs now : Nat} {inventoryFresh : Bool}

/-- The class of an enrollment. -/
def enrollmentState (reader : JsonReader) (readHeld : ReadHeld Path) (inventoryFresh : Bool)
    (enrollment : Enrollment Path) : EnrollmentState :=
  if inventoryFresh then
    journalState ((readHeld enrollment.journal).bind fun file => journalCommitted reader file.1)
      enrollment.productionBootTestPassed
  else .unknown

/-- The file that is read for an enrollment. -/
def heldFile (readHeld : ReadHeld Path) (inventoryFresh : Bool) (enrollment : Enrollment Path) :
    List FileIdentity :=
  if inventoryFresh then ((readHeld enrollment.journal).map Prod.snd).toList else []

/-- The tally with one more enrollment. -/
def Tally.enter (reader : JsonReader) (readHeld : ReadHeld Path) (inventoryFresh : Bool)
    (tally : Tally Path) (enrollment : Enrollment Path) : Tally Path :=
  { tally with
    journals := enrollment.journal :: tally.journals
    journalFiles := heldFile readHeld inventoryFresh enrollment ++ tally.journalFiles }.count
    (enrollmentState reader readHeld inventoryFresh enrollment) enrollment.createdAtMs

/-- An enrollment is counted where its journal and its file are new. -/
theorem tallyEnrollment_eq_ok {tally tally' : Tally Path} {enrollment : Enrollment Path} :
    tallyEnrollment reader readHeld updatedAtMs now inventoryFresh tally enrollment = .ok tally' ↔
      enrollment.journal ∉ tally.journals ∧ enrollment.createdAtMs ≤ now ∧
      enrollment.createdAtMs ≤ updatedAtMs ∧
      (∀ identity ∈ heldFile readHeld inventoryFresh enrollment,
        identity ∉ tally.journalFiles) ∧
      tally' = tally.enter reader readHeld inventoryFresh enrollment := by
  unfold tallyEnrollment
  by_cases hreject : (tally.journals.contains enrollment.journal ||
      enrollment.createdAtMs > now || enrollment.createdAtMs > updatedAtMs) = true
  · rw [if_pos hreject]
    refine ⟨fun h => (by cases h), ?_⟩
    rintro ⟨hjournal, hnow, hupdated, -⟩
    simp only [Bool.or_eq_true, List.contains_iff_mem, decide_eq_true_eq] at hreject
    obtain (hmem | hlate) | hlate := hreject
    · exact absurd hmem hjournal
    · omega
    · omega
  · rw [if_neg hreject]
    have hvalid : enrollment.journal ∉ tally.journals ∧ enrollment.createdAtMs ≤ now ∧
        enrollment.createdAtMs ≤ updatedAtMs := by
      simpa only [Bool.or_eq_true, List.contains_iff_mem, decide_eq_true_eq, not_or, not_lt,
        gt_iff_lt, and_assoc] using hreject
    unfold Tally.enter enrollmentState heldFile
    cases inventoryFresh with
    | false =>
      simp [hvalid, eq_comm]
    | true =>
      cases hread : readHeld enrollment.journal with
      | none => simp [hvalid, eq_comm]
      | some file =>
        obtain ⟨bytes, identity⟩ := file
        by_cases hfile : identity ∈ tally.journalFiles
        · simp [hfile]
        · simp [hvalid, hfile, eq_comm]

omit [DecidableEq Path] in
@[simp] theorem count_journals (tally : Tally Path) (state : EnrollmentState) (time : Nat) :
    (tally.count state time).journals = tally.journals := by
  cases state <;> rfl

omit [DecidableEq Path] in
@[simp] theorem count_journalFiles (tally : Tally Path) (state : EnrollmentState) (time : Nat) :
    (tally.count state time).journalFiles = tally.journalFiles := by
  cases state <;> rfl

omit [DecidableEq Path] in
theorem nodup_heldFile (enrollment : Enrollment Path) :
    (heldFile readHeld inventoryFresh enrollment).Nodup := by
  unfold heldFile
  split_ifs with h
  · cases (readHeld enrollment.journal).map Prod.snd <;> simp
  · exact List.nodup_nil

/-- The enrollments that are accepted one after another. -/
theorem foldlM_tallyEnrollment {tally tally' : Tally Path} {enrollments : List (Enrollment Path)}
    (hjournals : tally.journals.Nodup) (hfiles : tally.journalFiles.Nodup) :
    enrollments.foldlM (tallyEnrollment reader readHeld updatedAtMs now inventoryFresh) tally =
        .ok tally' ↔
      (∀ enrollment ∈ enrollments, enrollment.createdAtMs ≤ now ∧
        enrollment.createdAtMs ≤ updatedAtMs) ∧
      (enrollments.map (·.journal) ++ tally.journals).Nodup ∧
      (enrollments.flatMap (heldFile readHeld inventoryFresh) ++ tally.journalFiles).Nodup ∧
      tally' = enrollments.foldl (Tally.enter reader readHeld inventoryFresh) tally := by
  induction enrollments generalizing tally with
  | nil =>
    rw [List.foldlM_nil]
    simp [hjournals, hfiles, eq_comm, pure, Except.pure]
  | cons enrollment rest ih =>
    -- the journals and files of the rest are checked against those of this enrollment too
    have hmiddle : (rest.map (·.journal) ++ enrollment.journal :: tally.journals).Nodup ↔
        (enrollment.journal :: rest.map (·.journal) ++ tally.journals).Nodup := List.nodup_middle
    have hmiddle' : (rest.flatMap (heldFile readHeld inventoryFresh) ++
        (heldFile readHeld inventoryFresh enrollment ++ tally.journalFiles)).Nodup ↔
          (heldFile readHeld inventoryFresh enrollment ++
            rest.flatMap (heldFile readHeld inventoryFresh) ++ tally.journalFiles).Nodup := by
      rw [← List.append_assoc]
      exact (List.perm_append_comm.append_right _).nodup_iff
    rw [List.foldlM_cons, bind_eq_ok]
    simp only [tallyEnrollment_eq_ok, List.forall_mem_cons, List.map_cons, List.flatMap_cons,
      List.foldl_cons]
    constructor
    · rintro ⟨_, ⟨hjournal, hnow, hupdated, hfile, rfl⟩, hrest⟩
      have hjournals' : (enrollment.journal :: tally.journals).Nodup :=
        List.nodup_cons.mpr ⟨hjournal, hjournals⟩
      have hfiles' : (heldFile readHeld inventoryFresh enrollment ++ tally.journalFiles).Nodup :=
        List.Nodup.append (nodup_heldFile enrollment) hfiles hfile
      obtain ⟨htimes, hnodup, hnodup', hfold⟩ := (ih (by simpa [Tally.enter] using hjournals')
        (by simpa [Tally.enter] using hfiles')).mp hrest
      simp only [Tally.enter, count_journals, count_journalFiles] at hnodup hnodup'
      exact ⟨⟨⟨hnow, hupdated⟩, htimes⟩, hmiddle.mp hnodup, hmiddle'.mp hnodup', hfold⟩
    · rintro ⟨⟨⟨hnow, hupdated⟩, htimes⟩, hnodup, hnodup', hfold⟩
      have hjournal := hmiddle.mpr hnodup
      have hfile := hmiddle'.mpr hnodup'
      have hjournals' := (List.nodup_append.mp hjournal).2.1
      have hfiles' := (List.nodup_append.mp hfile).2.1
      refine ⟨_, ⟨(List.nodup_cons.mp hjournals').1, hnow, hupdated, ?_, rfl⟩, ?_⟩
      · exact fun identity hmem hother =>
          (List.nodup_append.mp hfiles').2.2 identity hmem identity hother rfl
      · refine (ih (by simpa [Tally.enter] using hjournals')
          (by simpa [Tally.enter] using hfiles')).mpr ⟨htimes, ?_, ?_, hfold⟩
        · simpa [Tally.enter] using hjournal
        · simpa [Tally.enter] using hfile

/-- The creation times of the enrollments of a kind. -/
def creationTimes (kind : Enrollment Path → Bool) (enrollments : List (Enrollment Path)) :
    List Nat := (enrollments.filter kind).map (·.createdAtMs)

/-- What some enrollments, each of its kind, add to a tally. -/
structure Sums (kind : Enrollment Path → EnrollmentState) (enrollments : List (Enrollment Path))
    (tally final : Tally Path) : Prop where
  pending : final.pending = tally.pending + enrollments.countP fun e => kind e = .pending
  awaitingBootTest : final.awaitingBootTest =
    tally.awaitingBootTest + enrollments.countP fun e => kind e = .awaitingBootTest
  unknown : final.unknown = tally.unknown + enrollments.countP fun e => kind e = .unknown
  oldestPending : final.oldestPending = (tally.oldestPending.toList ++
    creationTimes (fun e => kind e = .pending) enrollments).min?
  oldestAwaiting : final.oldestAwaiting = (tally.oldestAwaiting.toList ++
    creationTimes (fun e => kind e = .awaitingBootTest) enrollments).min?
  oldestUnknown : final.oldestUnknown = (tally.oldestUnknown.toList ++
    creationTimes (fun e => kind e = .unknown) enrollments).min?
  oldest : final.oldest = (tally.oldest.toList ++
    creationTimes (fun e => kind e ≠ .completed) enrollments).min?

omit [DecidableEq Path] in
/-- An enrollment is counted in its own class. -/
theorem sums_enter (tally : Tally Path) (enrollment : Enrollment Path) :
    Sums (enrollmentState reader readHeld inventoryFresh) [enrollment] tally
      (tally.enter reader readHeld inventoryFresh enrollment) := by
  cases hkind : enrollmentState reader readHeld inventoryFresh enrollment <;>
    constructor <;>
      simp [Tally.enter, hkind, Tally.count, creationTimes, older_eq_min?, toList_min?]

omit [DecidableEq Path] in
/-- Sums of two lists of enrollments. -/
theorem Sums.append {kind : Enrollment Path → EnrollmentState}
    {enrollments enrollments' : List (Enrollment Path)} {tally mid final : Tally Path}
    (h : Sums kind enrollments tally mid) (h' : Sums kind enrollments' mid final) :
    Sums kind (enrollments ++ enrollments') tally final := by
  have htimes : ∀ select : Enrollment Path → Bool,
      creationTimes select (enrollments ++ enrollments') =
        creationTimes select enrollments ++ creationTimes select enrollments' := by
    intro select
    rw [creationTimes, List.filter_append, List.map_append, creationTimes, creationTimes]
  constructor
  · rw [h'.pending, h.pending, List.countP_append, Nat.add_assoc]
  · rw [h'.awaitingBootTest, h.awaitingBootTest, List.countP_append, Nat.add_assoc]
  · rw [h'.unknown, h.unknown, List.countP_append, Nat.add_assoc]
  · rw [h'.oldestPending, h.oldestPending, min?_toList_append, htimes, List.append_assoc]
  · rw [h'.oldestAwaiting, h.oldestAwaiting, min?_toList_append, htimes, List.append_assoc]
  · rw [h'.oldestUnknown, h.oldestUnknown, min?_toList_append, htimes, List.append_assoc]
  · rw [h'.oldest, h.oldest, min?_toList_append, htimes, List.append_assoc]

omit [DecidableEq Path] in
theorem sums_foldl (enrollments : List (Enrollment Path)) (tally : Tally Path) :
    Sums (enrollmentState reader readHeld inventoryFresh) enrollments tally
      (enrollments.foldl (Tally.enter reader readHeld inventoryFresh) tally) := by
  induction enrollments generalizing tally with
  | nil => constructor <;> simp [creationTimes, toList_min?]
  | cons enrollment rest ih => exact (sums_enter tally enrollment).append (ih _)

end Tallies

/-- An expected boot that the inventory may hold. -/
def validBoot (updatedAtMs : Nat) (boot : ExpectedBoot) : Prop :=
  reference boot.target = true ∧ reference boot.bootId = true ∧
    boot.requestedAtMs ≤ boot.deadlineMs ∧ boot.requestedAtMs ≤ updatedAtMs

/-- The boots pass where each is valid and no two are the same. -/
theorem checkBoots_eq_ok {updatedAtMs : Nat} {boots : List ExpectedBoot}
    {names : List (String × String)} (hnames : names.Nodup) :
    checkBoots updatedAtMs names boots = .ok () ↔
      (∀ boot ∈ boots, validBoot updatedAtMs boot) ∧
        (boots.map (fun boot => (boot.target, boot.bootId)) ++ names).Nodup := by
  induction boots generalizing names with
  | nil => simp [checkBoots, hnames]
  | cons boot boots ih =>
    have hmiddle : (boots.map (fun boot => (boot.target, boot.bootId)) ++
        (boot.target, boot.bootId) :: names).Nodup ↔ ((boot.target, boot.bootId) ::
          boots.map (fun boot => (boot.target, boot.bootId)) ++ names).Nodup := List.nodup_middle
    rw [checkBoots, List.forall_mem_cons, List.map_cons, ← hmiddle]
    by_cases hvalid : validBoot updatedAtMs boot ∧ (boot.target, boot.bootId) ∉ names
    · obtain ⟨hboot, hfresh⟩ := hvalid
      obtain ⟨htarget, hid, hdeadline, hupdated⟩ := id hboot
      rw [if_neg (by simp [htarget, hid, hfresh, hdeadline, hupdated]),
        ih (List.nodup_cons.mpr ⟨hfresh, hnames⟩)]
      simp only [hboot, true_and]
    · rw [if_pos ?_]
      · constructor
        · intro h
          cases h
        · rintro ⟨⟨hboot, -⟩, hnodup⟩
          exact absurd ⟨hboot, (List.nodup_cons.mp (List.nodup_append.mp hnodup).2.1).1⟩ hvalid
      · by_contra hpass
        simp only [Bool.or_eq_true, Bool.not_eq_true', decide_eq_true_eq, not_or,
          Bool.not_eq_false, gt_iff_lt, Nat.not_lt, List.contains_iff_mem] at hpass
        obtain ⟨⟨⟨⟨htarget, hid⟩, hdeadline⟩, hupdated⟩, hfresh⟩ := hpass
        exact hvalid ⟨⟨htarget, hid, hdeadline, hupdated⟩, hfresh⟩

section Accepted

variable {Path : Type} [DecidableEq Path] {reader : JsonReader} {readHeld : ReadHeld Path}

/-- The inputs for which there is a report. -/
structure Accepted (readHeld : ReadHeld Path) (inventory : Inventory Path)
    (observations : Observations) (now : Nat) : Prop where
  schema : inventory.schemaVersion = 1 ∧ observations.schemaVersion = 1
  validity : 1 ≤ inventory.validForSeconds ∧ inventory.validForSeconds ≤ 86400
  limits : inventory.boots.length ≤ targetLimit ∧ inventory.enrollments.length ≤ targetLimit ∧
    observations.boots.length ≤ targetLimit * 4
  boots : ∀ boot ∈ inventory.boots, validBoot inventory.updatedAtMs boot
  names : (inventory.boots.map fun boot => (boot.target, boot.bootId)).Nodup
  observed : ∀ boot ∈ observations.boots, reference boot.target = true ∧
    reference boot.bootId = true ∧ boot.observedAtMs ≤ observations.updatedAtMs
  created : ∀ enrollment ∈ inventory.enrollments, enrollment.createdAtMs ≤ now ∧
    enrollment.createdAtMs ≤ inventory.updatedAtMs
  journals : (inventory.enrollments.map (·.journal)).Nodup
  files : (inventory.enrollments.flatMap (heldFile readHeld
    (fresh inventory.updatedAtMs now inventory.validForSeconds))).Nodup

omit [DecidableEq Path] in
/-- What the limits are. -/
theorem checkLimits_eq_ok {inventory : Inventory Path} {observations : Observations} :
    checkLimits inventory observations = .ok () ↔
      (inventory.schemaVersion = 1 ∧ observations.schemaVersion = 1) ∧
      (1 ≤ inventory.validForSeconds ∧ inventory.validForSeconds ≤ 86400) ∧
      inventory.boots.length ≤ targetLimit ∧ inventory.enrollments.length ≤ targetLimit ∧
        observations.boots.length ≤ targetLimit * 4 := by
  rw [checkLimits]
  split_ifs with h
  · simp only [false_iff]
    rintro ⟨⟨hschema, hschema'⟩, hvalidity, hboots, henrollments, hobserved⟩
    obtain h | h | h | h | h | h := h
    · exact h hschema
    · exact h hschema'
    · exact h hvalidity
    · exact Nat.not_le.mpr h hboots
    · exact Nat.not_le.mpr h henrollments
    · exact Nat.not_le.mpr h hobserved
  · simpa only [true_iff, not_or, not_not, gt_iff_lt, Nat.not_lt, and_assoc] using h

/-- What the observations must be. -/
theorem checkObservations_eq_ok {observations : Observations} :
    checkObservations observations = .ok () ↔
      ∀ boot ∈ observations.boots, reference boot.target = true ∧
        reference boot.bootId = true ∧ boot.observedAtMs ≤ observations.updatedAtMs := by
  rw [checkObservations]
  split_ifs with h
  · simp only [false_iff]
    intro hall
    obtain ⟨boot, hboot, hbad⟩ := List.any_eq_true.mp h
    obtain ⟨htarget, hid, htime⟩ := hall boot hboot
    simp only [htarget, hid, Bool.not_true, Bool.false_or, decide_eq_true_eq] at hbad
    omega
  · simp only [true_iff]
    intro boot hboot
    have hgood : ¬(!reference boot.target || !reference boot.bootId ||
        boot.observedAtMs > observations.updatedAtMs) = true :=
      fun hbad => h (List.any_eq_true.mpr ⟨boot, hboot, hbad⟩)
    simpa only [Bool.or_eq_true, Bool.not_eq_true', decide_eq_true_eq, not_or, Bool.not_eq_false,
      gt_iff_lt, Nat.not_lt, and_assoc] using hgood

/-- Whether both snapshots are neither in the future nor older than the validity. -/
def bothFresh (inventory : Inventory Path) (observations : Observations) (now : Nat) : Bool :=
  fresh inventory.updatedAtMs now inventory.validForSeconds &&
    fresh observations.updatedAtMs now inventory.validForSeconds

/-- The state of an expected boot. -/
def stateOf (inventory : Inventory Path) (observations : Observations) (now : Nat)
    (expected : ExpectedBoot) : BootState :=
  bootState observations.boots (bothFresh inventory observations now) now expected

/-- The class of an enrollment. -/
def kindOf (reader : JsonReader) (readHeld : ReadHeld Path) (inventory : Inventory Path)
    (now : Nat) : Enrollment Path → EnrollmentState :=
  enrollmentState reader readHeld (fresh inventory.updatedAtMs now inventory.validForSeconds)

/-- The report by what it means. -/
def summary (reader : JsonReader) (readHeld : ReadHeld Path) (inventory : Inventory Path)
    (observations : Observations) (now : Nat) : Report :=
  let kind := kindOf reader readHeld inventory now
  let count (state : EnrollmentState) := inventory.enrollments.countP fun e => kind e = state
  let oldest (state : EnrollmentState) :=
    (creationTimes (fun e => kind e = state) inventory.enrollments).min?
  { states := fun state =>
      inventory.boots.countP fun boot => stateOf inventory observations now boot = state
    inventoryFresh := fresh inventory.updatedAtMs now inventory.validForSeconds
    observationsFresh := fresh observations.updatedAtMs now inventory.validForSeconds
    now := now
    pending := count .pending
    unknown := count .unknown
    awaitingBootTest := count .awaitingBootTest
    oldest := (creationTimes (fun e => kind e ≠ .completed) inventory.enrollments).min?
    oldestPending := oldest .pending
    oldestAwaiting := oldest .awaitingBootTest
    oldestUnknown := oldest .unknown }

/-- Reconciliation succeeds for what is accepted, with its summary. -/
theorem reconcile_eq_ok {inventory : Inventory Path} {observations : Observations} {now : Nat}
    {report : Report} :
    reconcile reader readHeld inventory observations now = .ok report ↔
      Accepted readHeld inventory observations now ∧
        report = summary reader readHeld inventory observations now := by
  have hreport : ∀ tally : Tally Path,
      Sums (kindOf reader readHeld inventory now) inventory.enrollments .empty tally →
      (⟨countStates (stateOf inventory observations now) inventory.boots,
        fresh inventory.updatedAtMs now inventory.validForSeconds,
        fresh observations.updatedAtMs now inventory.validForSeconds, now, tally.pending,
        tally.unknown, tally.awaitingBootTest, tally.oldest, tally.oldestPending,
        tally.oldestAwaiting, tally.oldestUnknown⟩ : Report) =
        summary reader readHeld inventory observations now := by
    intro tally hsums
    have hstates := funext (countStates_eq (stateOf inventory observations now) inventory.boots)
    rw [hstates, hsums.pending, hsums.unknown, hsums.awaitingBootTest, hsums.oldest,
      hsums.oldestPending, hsums.oldestAwaiting, hsums.oldestUnknown]
    simp [Tally.empty, summary]
  constructor
  · intro h
    obtain ⟨_, hlimits, hrest⟩ := bind_eq_ok.mp h
    obtain ⟨_, hboots, hrest⟩ := bind_eq_ok.mp hrest
    obtain ⟨_, hobserved, hrest⟩ := bind_eq_ok.mp hrest
    obtain ⟨tally, htally, hresult⟩ := bind_eq_ok.mp hrest
    obtain ⟨hschema, hvalidity, hsizes⟩ := checkLimits_eq_ok.mp hlimits
    obtain ⟨hvalid, hnames⟩ := (checkBoots_eq_ok List.nodup_nil).mp hboots
    obtain ⟨hcreated, hjournals, hfiles, rfl⟩ :=
      (foldlM_tallyEnrollment List.nodup_nil List.nodup_nil).mp htally
    simp only [Tally.empty, List.append_nil] at hnames hjournals hfiles
    refine ⟨⟨hschema, hvalidity, hsizes, hvalid, hnames, checkObservations_eq_ok.mp hobserved,
      hcreated, hjournals, hfiles⟩, ?_⟩
    rw [← hreport _ (sums_foldl _ _)]
    exact (Except.ok.inj hresult).symm
  · rintro ⟨haccepted, rfl⟩
    have hboots : checkBoots inventory.updatedAtMs [] inventory.boots = .ok () :=
      (checkBoots_eq_ok List.nodup_nil).mpr
        ⟨haccepted.boots, by simpa only [List.append_nil] using haccepted.names⟩
    have htally : inventory.enrollments.foldlM (tallyEnrollment reader readHeld
        inventory.updatedAtMs now (fresh inventory.updatedAtMs now inventory.validForSeconds))
        .empty = .ok _ :=
      (foldlM_tallyEnrollment List.nodup_nil List.nodup_nil).mpr ⟨haccepted.created,
        by simpa only [Tally.empty, List.append_nil] using haccepted.journals,
        by simpa only [Tally.empty, List.append_nil] using haccepted.files, rfl⟩
    refine bind_eq_ok.mpr ⟨(), checkLimits_eq_ok.mpr
      ⟨haccepted.schema, haccepted.validity, haccepted.limits⟩, ?_⟩
    refine bind_eq_ok.mpr ⟨(), hboots, ?_⟩
    refine bind_eq_ok.mpr ⟨(), checkObservations_eq_ok.mpr haccepted.observed, ?_⟩
    refine bind_eq_ok.mpr ⟨_, htally, ?_⟩
    exact congrArg Except.ok (hreport _ (sums_foldl _ _))

variable {inventory : Inventory Path} {observations : Observations} {now : Nat}
  {boots : List ExpectedBoot} {enrollments : List (Enrollment Path)}
  {observed : List BootObservation}

omit [DecidableEq Path] in
/-- The order of the documents' entries does not matter. -/
theorem Accepted.perm (h : Accepted readHeld inventory observations now)
    (hboots : inventory.boots.Perm boots) (henrollments : inventory.enrollments.Perm enrollments)
    (hobserved : observations.boots.Perm observed) :
    Accepted readHeld { inventory with boots, enrollments } { observations with boots := observed }
      now where
  schema := h.schema
  validity := h.validity
  limits := by
    obtain ⟨hb, he, ho⟩ := h.limits
    rw [hboots.length_eq] at hb
    rw [henrollments.length_eq] at he
    rw [hobserved.length_eq] at ho
    exact ⟨hb, he, ho⟩
  boots boot hboot := h.boots boot (hboots.mem_iff.mpr hboot)
  names := (hboots.map _).nodup_iff.mp h.names
  observed boot hboot := h.observed boot (hobserved.mem_iff.mpr hboot)
  created enrollment hmem := h.created enrollment (henrollments.mem_iff.mpr hmem)
  journals := (henrollments.map _).nodup_iff.mp h.journals
  files := (henrollments.flatMap_right _).nodup_iff.mp h.files

omit [DecidableEq Path] in
theorem creationTimes_perm (kind : Enrollment Path → Bool)
    (h : inventory.enrollments.Perm enrollments) :
    (creationTimes kind inventory.enrollments).min? = (creationTimes kind enrollments).min? :=
  min?_perm ((h.filter _).map _)

omit [DecidableEq Path] in
/-- The report does not depend on the order of the inputs. -/
theorem summary_perm (hboots : inventory.boots.Perm boots)
    (henrollments : inventory.enrollments.Perm enrollments)
    (hobserved : observations.boots.Perm observed) :
    summary reader readHeld { inventory with boots, enrollments }
      { observations with boots := observed } now =
        summary reader readHeld inventory observations now := by
  have hstate : stateOf { inventory with boots, enrollments }
      { observations with boots := observed } now = stateOf inventory observations now := by
    funext expected
    exact bootState_congr fun value => hobserved.symm.mem_iff
  have hkind : kindOf reader readHeld { inventory with boots, enrollments } now =
      kindOf reader readHeld inventory now := rfl
  simp only [summary, hstate, hkind, hboots.countP_eq, henrollments.countP_eq,
    creationTimes_perm _ henrollments]

omit [DecidableEq Path] in
/-- Every enrollment is in one of the four classes. -/
theorem sum_kinds (kind : Enrollment Path → EnrollmentState)
    (enrollments : List (Enrollment Path)) :
    enrollments.countP (fun e => kind e = .pending) +
      enrollments.countP (fun e => kind e = .awaitingBootTest) +
      enrollments.countP (fun e => kind e = .unknown) +
      enrollments.countP (fun e => kind e = .completed) = enrollments.length := by
  induction enrollments with
  | nil => rfl
  | cons enrollment rest ih =>
    simp only [List.countP_cons, List.length_cons]
    cases kind enrollment <;> simp <;> omega

end Accepted

/-- A snapshot of this time is neither in the future nor older than the validity. -/
def Current (timestamp now validity : Nat) : Prop :=
  timestamp ≤ now ∧ now ≤ timestamp + validity * 1000

theorem fresh_iff {timestamp now validity : Nat} :
    fresh timestamp now validity = true ↔ Current timestamp now validity := by
  simp only [fresh, decide_eq_true_eq, Current]
  omega

instance (timestamp now validity : Nat) : Decidable (Current timestamp now validity) :=
  inferInstanceAs (Decidable (_ ∧ _))

theorem toString_fresh (timestamp now validity : Nat) :
    toString (fresh timestamp now validity).toNat =
      if Current timestamp now validity then "1" else "0" := by
  by_cases h : Current timestamp now validity
  · rw [fresh_iff.mpr h, if_pos h]
    rfl
  · rw [Bool.eq_false_iff.mpr (mt fresh_iff.mp h), if_neg h]
    rfl

/-- When an enrollment is in a class: by the age of the inventory, by what its journal says if
it can be read, and by its boot test. -/
def EnrollmentClassified {Path : Type} (reader : JsonReader) (readHeld : ReadHeld Path)
    (current : Prop) (enrollment : Enrollment Path) : EnrollmentState → Prop
  | .pending => current ∧ ∃ file, readHeld enrollment.journal = some file ∧
      journalCommitted reader file.1 = some false
  | .awaitingBootTest => current ∧ enrollment.productionBootTestPassed = false ∧
      ∃ file, readHeld enrollment.journal = some file ∧
        journalCommitted reader file.1 = some true
  | .completed => current ∧ enrollment.productionBootTestPassed = true ∧
      ∃ file, readHeld enrollment.journal = some file ∧
        journalCommitted reader file.1 = some true
  | .unknown => ¬current ∨ ∀ file, readHeld enrollment.journal = some file →
      journalCommitted reader file.1 = none

/-- The state that is computed is the one the journal calls for. -/
theorem enrollmentState_eq_iff {Path : Type} {reader : JsonReader} {readHeld : ReadHeld Path}
    {inventoryFresh : Bool} {enrollment : Enrollment Path} {state : EnrollmentState} :
    enrollmentState reader readHeld inventoryFresh enrollment = state ↔
      EnrollmentClassified reader readHeld (inventoryFresh = true) enrollment state := by
  unfold enrollmentState
  cases inventoryFresh with
  | false => cases state <;> simp [EnrollmentClassified]
  | true =>
    cases hread : readHeld enrollment.journal with
    | none => cases state <;> simp [EnrollmentClassified, hread, journalState]
    | some file =>
      cases hcommitted : journalCommitted reader file.1 with
      | none => cases state <;> simp [EnrollmentClassified, hread, hcommitted, journalState]
      | some committed =>
        cases committed <;> cases hpassed : enrollment.productionBootTestPassed <;>
          cases state <;>
            simp [EnrollmentClassified, hread, hcommitted, hpassed, journalState]

/-- The text of a report, line by line. -/
theorem Report.text_eq (printDouble : F64 → String) (report : Report) :
    let time (value : Option Nat) : String := printDouble (seconds (value.getD 0))
    report.text printDouble = String.join ([
      ("leelo_boot_targets\x7bstate=\"success\"\x7d", toString (report.states .success)),
      ("leelo_boot_targets\x7bstate=\"failure\"\x7d", toString (report.states .failure)),
      ("leelo_boot_targets\x7bstate=\"pending\"\x7d", toString (report.states .pending)),
      ("leelo_boot_targets\x7bstate=\"missing\"\x7d", toString (report.states .missing)),
      ("leelo_boot_targets\x7bstate=\"unknown\"\x7d", toString (report.states .unknown)),
      ("leelo_boot_targets\x7bstate=\"late_success\"\x7d", toString (report.states .lateSuccess)),
      ("leelo_inventory_fresh", toString report.inventoryFresh.toNat),
      ("leelo_boot_observations_fresh", toString report.observationsFresh.toNat),
      ("leelo_reconciliation_snapshot_timestamp_seconds", printDouble (seconds report.now)),
      ("leelo_enrollments_requiring_reconciliation", toString report.pending),
      ("leelo_enrollments_unknown", toString report.unknown),
      ("leelo_enrollments_awaiting_boot_test", toString report.awaitingBootTest),
      ("leelo_oldest_unresolved_enrollment_timestamp_seconds", time report.oldest),
      ("leelo_oldest_enrollment_requiring_reconciliation_timestamp_seconds",
        time report.oldestPending),
      ("leelo_oldest_enrollment_awaiting_boot_test_timestamp_seconds",
        time report.oldestAwaiting),
      ("leelo_oldest_unknown_enrollment_timestamp_seconds", time report.oldestUnknown)].map
        fun line => line.1 ++ " " ++ line.2 ++ "\n") := by
  simp only [Report.text, BootState.all, BootState.label, List.map_cons, List.map_nil,
    String.reduceAppend, String.join_cons, String.join_nil, String.append_empty]
  simp only [String.append_assoc]

/-- A rendered report counts every expected boot once, in the state of its latest observations, and
every enrollment once, in the class that its journal gives it. It exports these counts, and the
order of the inputs does not matter. -/
theorem render_classifies {Path : Type} [DecidableEq Path] (reader : JsonReader)
    (readHeld : ReadHeld Path) (printDouble : F64 → String) (inventory : Inventory Path)
    (observations : Observations) (now : Nat) (text : String)
    (h : render reader readHeld printDouble inventory observations now = .ok text) :
    (∃ (state : ExpectedBoot → BootState) (kind : Enrollment Path → EnrollmentState),
      (∀ expected target, state expected = target ↔
        Classified observations.boots
          (Current inventory.updatedAtMs now inventory.validForSeconds ∧
            Current observations.updatedAtMs now inventory.validForSeconds)
          now expected target) ∧
      (∀ enrollment target, kind enrollment = target ↔
        EnrollmentClassified reader readHeld
          (Current inventory.updatedAtMs now inventory.validForSeconds) enrollment target) ∧
      let boots (target : BootState) : Nat :=
        inventory.boots.countP fun expected => state expected = target
      let enrollments (target : EnrollmentState) : Nat :=
        inventory.enrollments.countP fun enrollment => kind enrollment = target
      let oldest (select : EnrollmentState → Bool) : String :=
        printDouble (seconds (((inventory.enrollments.filter fun enrollment =>
          select (kind enrollment)).map (·.createdAtMs)).min?.getD 0))
      text = String.join ([
        ("leelo_boot_targets\x7bstate=\"success\"\x7d", toString (boots .success)),
        ("leelo_boot_targets\x7bstate=\"failure\"\x7d", toString (boots .failure)),
        ("leelo_boot_targets\x7bstate=\"pending\"\x7d", toString (boots .pending)),
        ("leelo_boot_targets\x7bstate=\"missing\"\x7d", toString (boots .missing)),
        ("leelo_boot_targets\x7bstate=\"unknown\"\x7d", toString (boots .unknown)),
        ("leelo_boot_targets\x7bstate=\"late_success\"\x7d", toString (boots .lateSuccess)),
        ("leelo_inventory_fresh",
          if Current inventory.updatedAtMs now inventory.validForSeconds then "1" else "0"),
        ("leelo_boot_observations_fresh",
          if Current observations.updatedAtMs now inventory.validForSeconds then "1" else "0"),
        ("leelo_reconciliation_snapshot_timestamp_seconds", printDouble (seconds now)),
        ("leelo_enrollments_requiring_reconciliation", toString (enrollments .pending)),
        ("leelo_enrollments_unknown", toString (enrollments .unknown)),
        ("leelo_enrollments_awaiting_boot_test", toString (enrollments .awaitingBootTest)),
        ("leelo_oldest_unresolved_enrollment_timestamp_seconds",
          oldest fun target => target ≠ .completed),
        ("leelo_oldest_enrollment_requiring_reconciliation_timestamp_seconds",
          oldest fun target => target = .pending),
        ("leelo_oldest_enrollment_awaiting_boot_test_timestamp_seconds",
          oldest fun target => target = .awaitingBootTest),
        ("leelo_oldest_unknown_enrollment_timestamp_seconds",
          oldest fun target => target = .unknown)].map
          fun line => line.1 ++ " " ++ line.2 ++ "\n") ∧
      (BootState.all.map boots).sum = inventory.boots.length ∧
      enrollments .pending + enrollments .awaitingBootTest + enrollments .unknown +
        enrollments .completed = inventory.enrollments.length) ∧
    ∀ boots enrollments observed, inventory.boots.Perm boots →
      inventory.enrollments.Perm enrollments → observations.boots.Perm observed →
        render reader readHeld printDouble { inventory with boots, enrollments }
          { observations with boots := observed } now = .ok text := by
  obtain ⟨report, hreport, htext⟩ := bind_eq_ok.mp h
  obtain rfl : report.text printDouble = text := Except.ok.inj htext
  obtain ⟨haccepted, rfl⟩ := reconcile_eq_ok.mp hreport
  refine ⟨⟨stateOf inventory observations now, kindOf reader readHeld inventory now, ?_, ?_, ?_, ?_,
    sum_kinds _ _⟩, ?_⟩
  · intro expected target
    have hfresh : (bothFresh inventory observations now = true) =
        (Current inventory.updatedAtMs now inventory.validForSeconds ∧
          Current observations.updatedAtMs now inventory.validForSeconds) := by
      rw [bothFresh, Bool.and_eq_true, fresh_iff, fresh_iff]
    rw [← hfresh]
    exact bootState_eq_iff
  · intro enrollment target
    rw [← propext fresh_iff]
    exact enrollmentState_eq_iff
  · rw [Report.text_eq]
    simp only [summary, toString_fresh]
    rfl
  · have hstates := funext (countStates_eq (stateOf inventory observations now) inventory.boots)
    rw [← hstates, sum_countStates]
  · intro boots enrollments observed hboots henrollments hobserved
    refine bind_eq_ok.mpr ⟨_, reconcile_eq_ok.mpr
      ⟨haccepted.perm hboots henrollments hobserved, rfl⟩, ?_⟩
    rw [summary_perm hboots henrollments hobserved]
    rfl

/-- A time in seconds with up to nine places, as short as it can be. -/
def printShort (value : F64) : String :=
  let digits := ((Json.ofUtf8 value.printNine).getD "").toList.reverse.dropWhile (· = '0')
  String.ofList (digits.dropWhile (· = '.')).reverse

/-- Six boots that are expected by different times, and four enrollments. -/
def fleet : Inventory Nat where
  schemaVersion := 1
  updatedAtMs := 10000
  validForSeconds := 30
  boots := [⟨"a", "b1", 1000, 9000⟩, ⟨"b", "b1", 1000, 9000⟩, ⟨"c", "b1", 1000, 30000⟩,
    ⟨"d", "b1", 1000, 9000⟩, ⟨"e", "b1", 1000, 9000⟩, ⟨"f", "b1", 1000, 9000⟩]
  enrollments := [⟨0, 2000, false⟩, ⟨1, 3500, false⟩, ⟨2, 500, true⟩, ⟨3, 100, true⟩]

/-- One boot of each outcome, one with both at the same time, and one under another name. -/
def sightings : Observations where
  schemaVersion := 1
  updatedAtMs := 10000
  boots := [⟨"a", "b1", 500, .failure⟩, ⟨"a", "b1", 9000, .success⟩, ⟨"b", "b1", 8000, .failure⟩,
    ⟨"b", "b1", 7000, .success⟩, ⟨"d", "b0", 5000, .success⟩, ⟨"e", "b1", 5000, .failure⟩,
    ⟨"e", "b1", 5000, .success⟩, ⟨"f", "b1", 9500, .success⟩]

/-- Journals that are complete, one line short, missing, and complete again. -/
def fleetJournals : ReadHeld Nat
  | 0 => some ((Cli.journalLines Crypto.transparent (Crypto.ascii "journal")
      Envelope.pairDescriptor [7]).flatten, ⟨1, 10⟩)
  | 1 => some (((Cli.journalLines Crypto.transparent (Crypto.ascii "journal")
      Envelope.pairDescriptor [7]).take 3).flatten, ⟨1, 11⟩)
  | 3 => some ((Cli.journalLines Crypto.transparent (Crypto.ascii "journal")
      Envelope.pairDescriptor [7]).flatten, ⟨1, 13⟩)
  | _ => none

/-- What the fleet exports, in this order of the inputs and in the reverse one. -/
theorem render_classifies_fleet :
    let text := String.join [
      "leelo_boot_targets\x7bstate=\"success\"\x7d 1\n",
      "leelo_boot_targets\x7bstate=\"failure\"\x7d 1\n",
      "leelo_boot_targets\x7bstate=\"pending\"\x7d 1\n",
      "leelo_boot_targets\x7bstate=\"missing\"\x7d 1\n",
      "leelo_boot_targets\x7bstate=\"unknown\"\x7d 1\n",
      "leelo_boot_targets\x7bstate=\"late_success\"\x7d 1\n",
      "leelo_inventory_fresh 1\n",
      "leelo_boot_observations_fresh 1\n",
      "leelo_reconciliation_snapshot_timestamp_seconds 20\n",
      "leelo_enrollments_requiring_reconciliation 1\n",
      "leelo_enrollments_unknown 1\n",
      "leelo_enrollments_awaiting_boot_test 1\n",
      "leelo_oldest_unresolved_enrollment_timestamp_seconds 0.5\n",
      "leelo_oldest_enrollment_requiring_reconciliation_timestamp_seconds 3.5\n",
      "leelo_oldest_enrollment_awaiting_boot_test_timestamp_seconds 2\n",
      "leelo_oldest_unknown_enrollment_timestamp_seconds 0.5\n"]
    render compactReader fleetJournals printShort fleet sightings 20000 = .ok text ∧
    (∃ state : ExpectedBoot → BootState,
      (∀ expected target, state expected = target ↔ Classified sightings.boots
        (Current 10000 20000 30 ∧ Current 10000 20000 30) 20000 expected target) ∧
      (BootState.all.map fun target =>
        fleet.boots.countP fun expected => state expected = target).sum = 6) ∧
    render compactReader fleetJournals printShort
      { fleet with boots := fleet.boots.reverse, enrollments := fleet.enrollments.reverse }
      { sightings with boots := sightings.boots.reverse } 20000 = .ok text := by
  intro text
  have hrender : render compactReader fleetJournals printShort fleet sightings 20000 =
      .ok text := by
    decide +kernel
  obtain ⟨⟨state, kind, hstate, -, -, hsum, -⟩, hperm⟩ :=
    render_classifies _ _ _ _ _ _ _ hrender
  exact ⟨hrender, ⟨state, hstate, hsum⟩, hperm _ _ _ (List.reverse_perm _).symm
    (List.reverse_perm _).symm (List.reverse_perm _).symm⟩

end Leelo.Collector.Reconcile
