import Mathlib.Algebra.Order.BigOperators.Group.List
import Leelo.Core.Protocol
import Leelo.Daemon.Service
import Leelo.Daemon.Snapshot

/-!
# Admission accounting of the daemon

Every connection follows one protocol: it is accepted, turned away or given a permit, counted,
and its task drops the guard before the permit. Each timer is recorded once. The counters are
numbers of effects, so what holds of the effects of every connection holds of the counters
under any interleaving.
-/

namespace Leelo.Daemon

open Leelo.Core

/-- How far a connection has come. -/
inductive Phase where
  | waiting
  | accepted
  | refused
  | acquired
  | admitted
  | entered
  | finished
  | left
  | released
  deriving DecidableEq

/-- The effects other than those of timers. -/
def Phase.next : Phase → Effect → Option Phase
  | .waiting, .accepted => some .accepted
  | .accepted, .acquired => some .acquired
  | .accepted, .admission result => if result = .admitted then none else some .refused
  | .acquired, .admission result => if result = .admitted then some .admitted else none
  | .admitted, .entered => some .entered
  | .finished, .left => some .left
  | .left, .released => some .released
  | _, _ => none

/-- The phase, the live timers, and the stages of completions whose duration is not counted. -/
structure Book where
  phase : Phase
  timers : List Stage
  late : List Stage

namespace Book

/-- The book of a task that has done nothing. -/
def first : Book := ⟨.waiting, [], []⟩

/-- A completion of the main stage ends the phase in which the connection is in flight. -/
def complete (main : Stage) (b : Book) (stage : Stage) : Option Book :=
  if stage ∈ b.timers then
    if stage = main then
      if b.phase = .entered then some ⟨.finished, b.timers.erase stage, stage :: b.late⟩ else none
    else some ⟨b.phase, b.timers.erase stage, stage :: b.late⟩
  else none

/-- What an effect does to the book; none where the task may not have it. -/
def next (main : Stage) (b : Book) : Effect → Option Book
  | .created stage => some ⟨b.phase, stage :: b.timers, b.late⟩
  | .completed stage _ => b.complete main stage
  | .observed stage _ =>
    if stage ∈ b.late then some ⟨b.phase, b.timers, b.late.erase stage⟩ else none
  | effect => (b.phase.next effect).map fun phase => ⟨phase, b.timers, b.late⟩

/-- The book with one more timer that runs. -/
def push (b : Book) (stage : Stage) : Book := ⟨b.phase, stage :: b.timers, b.late⟩

/-- Nothing is left to be done. -/
structure Closed (b : Book) : Prop where
  phase : b.phase = .waiting ∨ b.phase = .refused ∨ b.phase = .released
  timers : b.timers = []
  late : b.late = []

end Book

section Takes

variable {main : Stage} {α β : Type} {b b₁ b' : Book}

/-- Whatever the answers, the program leads from one book to another. -/
def Takes (main : Stage) (p : Task α) (b b' : Book) : Prop :=
  p.Follows (Book.next main) effects (fun _ x => x = b') b

/-- Returning leaves the book. -/
theorem takes_pure (a : α) : Takes main (pure a) b b := Program.follows_pure rfl

/-- The rule of sequence. -/
theorem Takes.bind {p : Task β} {f : β → Task α} (hp : Takes main p b b₁)
    (hf : ∀ a, Takes main (f a) b₁ b') : Takes main (p >>= f) b b' := by
  refine Program.Follows.bind hp ?_
  rintro a _ rfl
  exact hf a

/-- An operation with known effects. -/
theorem takes_perform {op : ServiceOp}
    (h : ∀ answer, advance (Book.next main) b (effects op answer) =
    some b') : Takes main (perform op) b b' :=
  Program.follows_call h fun _ => rfl

theorem takes_silent {op : ServiceOp} (h : ∀ answer, effects op answer = []) :
    Takes main (perform op) b b :=
  takes_perform fun answer => by rw [h answer]; rfl

theorem takes_newTimer {stage : Stage} {f : Timer → Task α}
    (h : ∀ start, Takes main (f ⟨stage, start, false⟩) (b.push stage) b') :
    Takes main (newTimer stage >>= f) b b' := by
  intro start
  exact ⟨b.push stage, rfl, h start⟩

/-- The live timer is recorded: its completion is counted, then its duration. -/
theorem takes_observe {stage : Stage} {phase : Phase}
    (h : (b.push stage).complete main stage = some ⟨phase, b.timers, stage :: b.late⟩)
    (outcome : Outcome) (nanoseconds : UInt64) :
    Takes main (observe stage outcome nanoseconds) (b.push stage) ⟨phase, b.timers, b.late⟩ := by
  have hcompleted : Takes main (perform (.addCompletion stage outcome)) (b.push stage)
      ⟨phase, b.timers, stage :: b.late⟩ := by
    refine takes_perform fun _ => ?_
    rw [effects, advance, Book.next, h]
    rfl
  have hobserved : Takes main (perform (.addDuration stage (bucketOf nanoseconds)))
      ⟨phase, b.timers, stage :: b.late⟩ ⟨phase, b.timers, b.late⟩ := by
    refine takes_perform fun _ => ?_
    rw [effects, advance, Book.next, if_pos List.mem_cons_self, List.erase_cons_head]
    rfl
  exact hcompleted.bind fun _ => hobserved.bind fun _ => takes_silent fun _ => rfl

theorem complete_push {stage : Stage} (h : stage ≠ main) :
    (b.push stage).complete main stage = some ⟨b.phase, b.timers, stage :: b.late⟩ := by
  rw [Book.complete, Book.push, if_pos List.mem_cons_self, if_neg h, List.erase_cons_head]

theorem complete_push_main (h : b.phase = .entered) :
    (b.push main).complete main main = some ⟨.finished, b.timers, main :: b.late⟩ := by
  rw [Book.complete, Book.push, if_pos List.mem_cons_self, if_pos rfl, if_pos h,
    List.erase_cons_head]

variable {start : Nat}

/-- A finished timer records nothing when it is dropped. -/
theorem takes_finish_to {stage : Stage} {phase : Phase}
    (h : (b.push stage).complete main stage = some ⟨phase, b.timers, stage :: b.late⟩)
    (outcome : Outcome) :
    Takes main (Timer.finish ⟨stage, start, false⟩ outcome) (b.push stage)
      ⟨phase, b.timers, b.late⟩ := by
  refine Takes.bind (Takes.bind (takes_silent fun _ => rfl) fun nanoseconds =>
    takes_observe h outcome nanoseconds) fun _ => ?_
  exact takes_pure ()

theorem takes_finish {stage : Stage} (h : stage ≠ main) (outcome : Outcome) :
    Takes main (Timer.finish ⟨stage, start, false⟩ outcome) (b.push stage) b :=
  takes_finish_to (complete_push h) outcome

/-- A timer that is not finished records a cancellation when it is dropped. -/
theorem takes_drop {stage : Stage} (h : stage ≠ main) :
    Takes main (Timer.drop ⟨stage, start, false⟩) (b.push stage) b :=
  Takes.bind (takes_silent fun _ => rfl) fun nanoseconds =>
    takes_observe (complete_push h) .cancelled nanoseconds

end Takes

section Worker

variable {b : Book}

/-- Sending leaves the book. -/
theorem takes_send {rest : Task (Option Outcome)} (bytes : Bytes) (h : Takes .worker rest b b) :
    Takes .worker (send bytes rest) b b := by
  refine Takes.bind (takes_silent fun _ => rfl) fun answer => ?_
  rcases answer with _ | _ | _
  · exact takes_pure _
  · exact takes_pure _
  · exact h

theorem takes_close (outcome : Outcome) : Takes .worker (close outcome) b b := by
  refine Takes.bind (takes_silent fun _ => rfl) fun answer => ?_
  rcases answer with _ | _ | _
  · exact takes_pure _
  · exact takes_pure _
  · exact takes_pure _

theorem takes_refuse (start : Nat) (outcome : Outcome) :
    Takes .worker (refuse ⟨.validation, start, false⟩ outcome) (b.push .validation) b :=
  (takes_finish (by decide) outcome).bind fun _ => takes_send [1] (takes_pure _)

theorem takes_reportEvaluation (outcome : Outcome) :
    Takes .worker (reportEvaluation outcome) b b := by
  unfold reportEvaluation
  split_ifs
  · exact takes_silent fun _ => rfl
  · exact takes_silent fun _ => rfl
  · exact takes_pure ()

theorem takes_evaluation (encodeResponse : Bytes → Bytes) (point : Bytes) :
    Takes .worker (evaluation encodeResponse point) b b := by
  refine takes_newTimer fun start => Takes.bind (takes_silent fun _ => rfl) fun result => ?_
  refine (takes_finish (by decide) _).bind fun _ => (takes_reportEvaluation _).bind fun _ => ?_
  rcases result with error | response
  · exact takes_send [1] (takes_close _)
  · exact takes_send [0] (takes_send _ (takes_close _))

/-- The validation timer is recorded on every way out of the function. -/
theorem takes_handle (decodeRequest : Bytes → Option Request) (encodeResponse : Bytes → Bytes)
    (id : Bytes) : Takes .worker (handle decodeRequest encodeResponse id) b b := by
  refine takes_newTimer fun start => Takes.bind (takes_silent fun _ => rfl) fun answer => ?_
  rcases answer with _ | _ | bytes
  · exact (takes_drop (by decide)).bind fun _ => takes_pure _
  · exact (takes_drop (by decide)).bind fun _ => takes_pure _
  · cases hdecode : decodeRequest bytes with
    | none =>
      simp only [hdecode]
      exact takes_refuse start .frame
    | some request =>
      simp only [hdecode]
      split_ifs
      · exact (takes_finish (by decide) .success).bind fun _ =>
          takes_evaluation encodeResponse request.point
      · exact takes_refuse start .wrongKey

end Worker

section Frontend

variable {b : Book} (decodeRequest : Bytes → Option Request)

theorem takes_reportReply (reason : Outcome) : Takes .connection (reportReply reason) b b := by
  unfold reportReply
  split_ifs
  · exact takes_silent fun _ => rfl
  · exact takes_pure ()

theorem takes_relay (bytes : Bytes) : Takes .connection (relay bytes) b b := by
  refine takes_newTimer fun start => Takes.bind (takes_silent fun _ => rfl) fun answer => ?_
  rcases answer with _ | _ | reason | response
  · exact (takes_drop (by decide)).bind fun _ => takes_pure _
  · exact (takes_finish (by decide) .timeout).bind fun _ => takes_pure _
  · exact (takes_reportReply reason).bind fun _ =>
      (takes_finish (by decide) reason).bind fun _ => takes_pure _
  · exact (takes_finish (by decide) .success).bind fun _ => takes_pure _

theorem takes_evaluateRequest (request : HttpRequest) :
    Takes .connection (evaluateRequest decodeRequest request) b b := by
  refine takes_newTimer fun start => ?_
  split_ifs
  · refine Takes.bind (takes_silent fun _ => rfl) fun answer => ?_
    rcases answer with _ | _ | bytes
    · exact (takes_drop (by decide)).bind fun _ => takes_pure _
    · exact (takes_finish (by decide) .body).bind fun _ => takes_pure _
    · dsimp only
      split_ifs
      · exact (takes_finish (by decide) .success).bind fun _ => takes_relay bytes
      · exact (takes_finish (by decide) .frame).bind fun _ => takes_pure _
  · exact (takes_finish (by decide) .headers).bind fun _ => takes_pure _

theorem takes_route (request : HttpRequest) :
    Takes .connection (route decodeRequest request) b b := by
  unfold route
  cases request.route with
  | notFound => exact takes_pure _
  | methodNotAllowed => exact takes_pure _
  | evaluate => exact takes_evaluateRequest decodeRequest request

/-- A response that is dropped drops the timers of the handler and then that of the request. -/
theorem takes_observeHttp (request : HttpRequest) :
    Takes .connection (observeHttp decodeRequest request) b b := by
  refine takes_newTimer fun start => (takes_route decodeRequest request).bind fun answer => ?_
  rcases answer with _ | status
  · exact takes_drop (by decide)
  · exact Takes.bind (takes_silent fun _ => rfl) fun _ => takes_finish (by decide) _

theorem takes_serveHttp : Takes .connection (serveHttp decodeRequest) b b := by
  refine Takes.bind (takes_silent fun _ => rfl) fun answer => ?_
  rcases answer with _ | request | reason
  · exact takes_pure _
  · exact (takes_observeHttp decodeRequest request).bind fun _ =>
      Takes.bind (takes_silent fun _ => rfl) fun _ => takes_pure _
  · exact takes_pure _

theorem takes_connection : Takes .connection (connection decodeRequest) b b := by
  refine takes_newTimer fun start => Takes.bind (takes_silent fun _ => rfl) fun answer => ?_
  rcases answer with _ | _ | _ | _
  · exact (takes_drop (by decide)).bind fun _ => takes_pure _
  · exact (takes_finish (by decide) .success).bind fun _ => takes_serveHttp decodeRequest
  · exact (takes_finish (by decide) .protocol).bind fun _ => takes_pure _
  · exact (takes_finish (by decide) .timeout).bind fun _ => takes_pure _

end Frontend

section Lifecycle

variable {main : Stage} {b : Book} {timers late : List Stage}

theorem takes_retryAccept (failures : List AcceptClass) :
    Takes main (retryAccept failures) b b := by
  induction failures with
  | nil => exact takes_pure ()
  | cons error failures ih =>
    exact Takes.bind (takes_silent fun _ => rfl) fun _ =>
      Takes.bind (takes_silent fun _ => rfl) fun _ => ih

/-- A connection is accepted. -/
theorem takes_accepted :
    Takes main (perform .accepted) ⟨.waiting, timers, late⟩ ⟨.accepted, timers, late⟩ :=
  takes_perform fun _ => rfl

/-- The timer of a retry is recorded when a connection is accepted. -/
theorem takes_acceptObserved (h : Stage.listenerRetry ≠ main) (failures : List AcceptClass) :
    Takes main (acceptObserved failures) ⟨.waiting, timers, late⟩ ⟨.accepted, timers, late⟩ := by
  cases failures with
  | nil => exact takes_accepted
  | cons error failures =>
    have hsilent : ∀ {op : ServiceOp} {b : Book}, (∀ answer, effects op answer = []) →
        Takes main (perform op) b b := takes_silent
    refine (hsilent fun _ => rfl).bind fun _ => (hsilent fun _ => rfl).bind fun _ =>
      (hsilent fun _ => rfl).bind fun _ => takes_newTimer fun start => ?_
    refine (hsilent fun _ => rfl).bind fun _ => (takes_retryAccept failures).bind fun _ =>
      takes_accepted.bind fun _ => ?_
    have hfinish : Takes main (Timer.finish ⟨.listenerRetry, start, false⟩ .success)
        ⟨.accepted, .listenerRetry :: timers, late⟩ ⟨.accepted, timers, late⟩ :=
      takes_finish (b := ⟨.accepted, timers, late⟩) h .success
    exact hfinish.bind fun _ => (hsilent fun _ => rfl).bind fun _ => hsilent fun _ => rfl

theorem takes_turnAway {result : Admission} (h : result ≠ .admitted) (notice : Notice) :
    Takes main (turnAway result notice) ⟨.accepted, timers, late⟩ ⟨.refused, timers, late⟩ := by
  have hcounted : Takes main (perform (.admission result)) ⟨.accepted, timers, late⟩
      ⟨.refused, timers, late⟩ := by
    refine takes_perform fun _ => ?_
    simp [effects, advance, Book.next, Phase.next, h]
  exact hcounted.bind fun _ => Takes.bind (takes_silent fun _ => rfl) fun _ =>
    takes_silent fun _ => rfl

/-- The guard is dropped before the permit. -/
theorem takes_spawned {body : Task (Option Outcome)} (h : ∀ {b : Book}, Takes main body b b) :
    Takes main (spawned main body) ⟨.entered, timers, late⟩ ⟨.released, timers, late⟩ := by
  have hleave : Takes main (perform .leave) ⟨.finished, timers, late⟩ ⟨.left, timers, late⟩ :=
    takes_perform fun _ => rfl
  have hrelease : Takes main (perform .release) ⟨.left, timers, late⟩ ⟨.released, timers, late⟩ :=
    takes_perform fun _ => rfl
  refine Takes.bind (takes_silent fun _ => rfl) fun _ => takes_newTimer fun start =>
    h.bind fun outcome => ?_
  exact (takes_finish_to (complete_push_main rfl) _).bind fun _ => hleave.bind fun _ => hrelease

/-- The program ends with a closed book. -/
def Closes (main : Stage) (p : Task Unit) (b : Book) : Prop :=
  p.Follows (Book.next main) effects (fun _ b' => b'.Closed) b

theorem Takes.closes {p : Task Unit} {b' : Book} (h : Takes main p b b') (hclosed : b'.Closed) :
    Closes main p b :=
  h.mono fun _ _ hb => hb ▸ hclosed

theorem Takes.then_closes {α : Type} {p : Task α} {f : α → Task Unit} {b' : Book}
    (hp : Takes main p b b') (hf : ∀ a, Closes main (f a) b') : Closes main (p >>= f) b := by
  refine Program.Follows.bind hp ?_
  rintro a _ rfl
  exact hf a

private theorem closed_refused : Book.Closed ⟨.refused, [], []⟩ := ⟨.inr (.inl rfl), rfl, rfl⟩

theorem closes_admitOr (notice : Notice) {body : Task (Option Outcome)}
    (h : ∀ {b : Book}, Takes main body b b) :
    Closes main (admitOr notice main body) ⟨.accepted, [], []⟩ := by
  have hadmission : Takes main (perform (.admission .admitted)) ⟨.acquired, [], []⟩
      ⟨.admitted, [], []⟩ := takes_perform fun _ => rfl
  have henter : Takes main (perform .enter) ⟨.admitted, [], []⟩ ⟨.entered, [], []⟩ :=
    takes_perform fun _ => rfl
  -- The book depends on the answer, so the two cases are taken apart first.
  intro acquired
  cases acquired with
  | false => exact ⟨_, rfl, (takes_turnAway (by decide) notice).closes closed_refused⟩
  | true =>
    refine ⟨⟨.acquired, [], []⟩, rfl, ?_⟩
    have hrest := hadmission.bind fun _ => henter.bind fun _ => takes_spawned h
    exact hrest.closes ⟨.inr (.inr rfl), rfl, rfl⟩

theorem closes_workerConnection (wire : Wire) (failures : List AcceptClass) :
    Closes .worker (workerConnection wire failures) .first := by
  refine Takes.then_closes (takes_silent fun _ => rfl) fun _ =>
    (takes_acceptObserved (by decide) failures).then_closes fun _ =>
      Takes.then_closes (takes_silent fun _ => rfl) fun credentials => ?_
  cases credentials with
  | other => exact (takes_turnAway (by decide) _).closes closed_refused
  | failed => exact (takes_turnAway (by decide) _).closes closed_refused
  | allowed => exact closes_admitOr _ (takes_handle _ _ _)

theorem closes_frontendConnection (wire : Wire) (failures : List AcceptClass) :
    Closes .connection (frontendConnection wire failures) .first := by
  refine Takes.then_closes (takes_silent fun _ => rfl) fun _ =>
    (takes_acceptObserved (by decide) failures).then_closes fun _ => ?_
  exact closes_admitOr _ (takes_connection _)

theorem takes_sendSnapshot (h : Stage.snapshot ≠ main) : Takes main sendSnapshot b b := by
  refine takes_newTimer fun start => Takes.bind (takes_silent fun _ => rfl) fun result => ?_
  have hreport : Takes main (reportSnapshot ⟨.snapshot, start, false⟩ result)
      (b.push .snapshot) b := by
    unfold reportSnapshot
    split <;> exact Takes.bind (takes_silent fun _ => rfl) fun _ => takes_finish h _
  exact hreport.bind fun _ => takes_silent fun _ => rfl

/-- A scrape is no connection. -/
theorem takes_scrape (h : Stage.snapshot ≠ main) : Takes main scrape b b := by
  refine Takes.bind (takes_silent fun _ => rfl) fun credentials => ?_
  cases credentials with
  | other => exact takes_silent fun _ => rfl
  | failed => exact takes_silent fun _ => rfl
  | allowed =>
    refine Takes.bind (takes_silent fun _ => rfl) fun acquired => ?_
    cases acquired with
    | false => exact takes_silent fun _ => rfl
    | true => exact takes_sendSnapshot h

theorem closes_program (role : Role) (wire : Wire) (client : Client) :
    Closes (mainStage role) (client.program role wire) .first := by
  have hfirst : Book.Closed .first := ⟨.inl rfl, rfl, rfl⟩
  cases client with
  | connection failures =>
    cases role with
    | worker => exact closes_workerConnection wire failures
    | frontend => exact closes_frontendConnection wire failures
  | scrape =>
    cases role with
    | worker => exact (takes_scrape (by decide)).closes hfirst
    | frontend => exact (takes_scrape (by decide)).closes hfirst

end Lifecycle

namespace Phase

/-- How far an admitted connection is. One that is turned away gets no further than its
acceptance. -/
def rank : Phase → Nat
  | waiting => 0
  | accepted | refused => 1
  | acquired => 2
  | admitted => 3
  | entered => 4
  | finished => 5
  | left => 6
  | released => 7

/-- The connection is counted by its admission. -/
def decided : Phase → Bool
  | waiting | accepted | acquired => false
  | _ => true

end Phase

namespace Effect

/-- The step of an admitted connection that the effect is. -/
def rank (main : Stage) : Effect → Option Nat
  | accepted => some 1
  | acquired => some 2
  | admission result => if result = .admitted then some 3 else none
  | entered => some 4
  | completed stage _ => if stage = main then some 5 else none
  | left => some 6
  | released => some 7
  | created _ => none
  | observed .. => none

/-- The effect takes the connection to this phase. -/
def isRank (main : Stage) (rank : Nat) (effect : Effect) : Bool := effect.rank main = some rank

/-- The effect decides an admission. -/
def isAdmission : Effect → Bool
  | admission _ => true
  | _ => false

/-- The effect starts a timer of the stage. -/
def isCreated (stage : Stage) : Effect → Bool
  | created stage' => stage' = stage
  | _ => false

/-- The effect counts an end of the stage. -/
def isCompleted (stage : Stage) : Effect → Bool
  | completed stage' _ => stage' = stage
  | _ => false

/-- The effect counts a duration of the stage. -/
def isObserved (stage : Stage) : Effect → Bool
  | observed stage' _ => stage' = stage
  | _ => false

end Effect

section Books

variable {main stage : Stage} {b b' : Book} {effect : Effect} {effects' : List Effect}

/-- An effect of the connection takes it one phase on, and only one decides its admission. -/
theorem Phase.next_spec {phase phase' : Phase} (h : phase.next effect = some phase') :
    ((effect.rank main = none ∧ phase'.rank = phase.rank) ∨
      (effect.rank main = some phase'.rank ∧ phase'.rank = phase.rank + 1)) ∧
    phase'.decided.toNat = phase.decided.toNat + effect.isAdmission.toNat := by
  cases phase <;> cases effect <;> simp only [Phase.next, reduceCtorEq] at h
  case waiting.accepted | accepted.acquired | admitted.entered | finished.left |
      left.released =>
    cases h
    exact ⟨.inr ⟨rfl, rfl⟩, rfl⟩
  case accepted.admission result =>
    split_ifs at h with hadmitted
    cases h
    exact ⟨.inl ⟨if_neg hadmitted, rfl⟩, rfl⟩
  case acquired.admission result =>
    split_ifs at h with hadmitted
    cases h
    exact ⟨.inr ⟨if_pos hadmitted, rfl⟩, rfl⟩

/-- What one effect does to a book. -/
structure Book.Grows (main : Stage) (b : Book) (effect : Effect) (b' : Book) : Prop where
  rank : (effect.rank main = none ∧ b'.phase.rank = b.phase.rank) ∨
    (effect.rank main = some b'.phase.rank ∧ b'.phase.rank = b.phase.rank + 1)
  decided : b'.phase.decided.toNat = b.phase.decided.toNat + effect.isAdmission.toNat
  timers : ∀ stage, b'.timers.count stage + (effect.isCompleted stage).toNat =
    b.timers.count stage + (effect.isCreated stage).toNat
  late : ∀ stage, b'.late.count stage + (effect.isObserved stage).toNat =
    b.late.count stage + (effect.isCompleted stage).toNat

private theorem count_erase_add {stages : List Stage} (h : stage ∈ stages) (other : Stage) :
    (stages.erase stage).count other + (decide (stage = other)).toNat = stages.count other := by
  by_cases hother : stage = other
  · subst hother
    have hpos := List.count_pos_iff.mpr h
    rw [List.count_erase_self]
    simp
    omega
  · rw [List.count_erase_of_ne (Ne.symm hother)]
    simp [hother]

private theorem count_cons_eq (stages : List Stage) (other : Stage) :
    (stage :: stages).count other = stages.count other + (decide (stage = other)).toNat := by
  rw [List.count_cons]
  by_cases hother : stage = other
  · simp [hother]
  · simp [hother]

private theorem Book.complete_grows {outcome : Outcome}
    (h : b.complete main stage = some b') : Book.Grows main b (.completed stage outcome) b' := by
  unfold Book.complete at h
  split_ifs at h with hmem hmain hentered
  · cases h
    refine ⟨.inr ⟨if_pos hmain, by rw [hentered]; rfl⟩, by rw [hentered]; rfl, fun other => ?_,
      fun other => ?_⟩
    · exact count_erase_add hmem other
    · exact count_cons_eq b.late other
  · cases h
    refine ⟨.inl ⟨if_neg hmain, rfl⟩, rfl, fun other => ?_, fun other => ?_⟩
    · exact count_erase_add hmem other
    · exact count_cons_eq b.late other

private theorem Book.grows_of_phase {phase : Phase} (h : b.phase.next effect = some phase)
    (htimers : ∀ stage, effect.isCreated stage = false ∧ effect.isCompleted stage = false ∧
      effect.isObserved stage = false) : Book.Grows main b effect ⟨phase, b.timers, b.late⟩ := by
  obtain ⟨hrank, hdecided⟩ := @Phase.next_spec main _ _ _ h
  refine ⟨hrank, hdecided, fun stage => ?_, fun stage => ?_⟩
  · rw [(htimers stage).1, (htimers stage).2.1]
  · rw [(htimers stage).2.1, (htimers stage).2.2]

theorem Book.grows_of_next (h : b.next main effect = some b') : Book.Grows main b effect b' := by
  cases effect with
  | created stage =>
    cases h
    exact ⟨.inl ⟨rfl, rfl⟩, rfl, fun other => count_cons_eq b.timers other, fun other => rfl⟩
  | completed stage outcome => exact Book.complete_grows h
  | observed stage bucket =>
    simp only [Book.next] at h
    split_ifs at h with hmem
    cases h
    exact ⟨.inl ⟨rfl, rfl⟩, rfl, fun other => rfl, fun other => count_erase_add hmem other⟩
  | accepted | acquired | entered | left | released | admission =>
    obtain ⟨phase, hphase, rfl⟩ := Option.map_eq_some_iff.mp h
    exact Book.grows_of_phase hphase fun stage => ⟨rfl, rfl, rfl⟩

/-- The numbers of effects that a book stands for. -/
structure Tallies (main : Stage) (effects : List Effect) (b : Book) : Prop where
  rank : ∀ rank, 0 < rank →
    effects.countP (Effect.isRank main rank) = (decide (rank ≤ b.phase.rank)).toNat
  decided : effects.countP Effect.isAdmission = b.phase.decided.toNat
  created : ∀ stage, effects.countP (Effect.isCreated stage) =
    effects.countP (Effect.isCompleted stage) + b.timers.count stage
  completed : ∀ stage, effects.countP (Effect.isCompleted stage) =
    effects.countP (Effect.isObserved stage) + b.late.count stage

private theorem countP_concat (p : Effect → Bool) (effects : List Effect) (effect : Effect) :
    (effects ++ [effect]).countP p = effects.countP p + (p effect).toNat := by
  rw [List.countP_append, List.countP_singleton]
  cases p effect <;> rfl

/-- One more effect keeps the tallies. -/
theorem Tallies.concat {effects : List Effect} (h : Tallies main effects b)
    (hnext : b.next main effect = some b') : Tallies main (effects ++ [effect]) b' := by
  have hgrows := Book.grows_of_next hnext
  refine ⟨fun rank hpos => ?_, ?_, fun stage => ?_, fun stage => ?_⟩
  · rw [countP_concat, h.rank rank hpos, Effect.isRank]
    rcases hgrows.rank with ⟨hnone, hsame⟩ | ⟨hsome, hsucc⟩
    · rw [hnone, hsame]
      rfl
    · rw [hsome, hsucc]
      by_cases hlast : rank = b.phase.rank + 1
      · simp [hlast]
      · have hiff : rank ≤ b.phase.rank + 1 ↔ rank ≤ b.phase.rank := by omega
        simp [hiff, Ne.symm hlast]
  · rw [countP_concat, h.decided, hgrows.decided]
  · have htimers := hgrows.timers stage
    rw [countP_concat, countP_concat, h.created stage]
    omega
  · have hlate := hgrows.late stage
    rw [countP_concat, countP_concat, h.completed stage]
    omega

theorem tallies_of_advance {effects : List Effect}
    (h : advance (Book.next main) .first effects = some b) : Tallies main effects b := by
  refine advance_invariant ?_ (fun hbefore hnext => hbefore.concat hnext) h
  refine ⟨fun rank hpos => ?_, rfl, fun stage => rfl, fun stage => rfl⟩
  have hzero : ¬rank ≤ Book.first.phase.rank := Nat.not_le.mpr hpos
  simp [hzero]

end Books

section Serving

variable {ι : Type} [DecidableEq ι] {role : Role} {wire : Wire} {clients : ι → Client}
  {c : Serving ι}

/-- The number of effects of a kind, of all connections. -/
def Server.count (s : Server ι) (kind : Effect → Bool) : Nat :=
  s.log.countP fun entry => kind entry.2

/-- Every connection has a book, which is closed when its program has ended. -/
theorem exists_tallies (h : System.Reaches serves undisturbed (serve role wire clients) c) (i : ι) :
    ∃ b, Tallies (mainStage role) (part c.state.log i) b ∧
      (c.programs i = .done () → b.Closed) := by
  have hserves : ∀ {i : ι} {op : ServiceOp} {s : Server ι} {answer : op.Ans} {s' : Server ι},
      serves i op s answer s' →
        s'.log = s.log ++ (effects op answer).map fun effect => (i, effect) := by
    rintro i op s answer s' ⟨-, rfl⟩
    rfl
  have houtside : ∀ {s s' : Server ι}, undisturbed s s' → s'.log = s.log := by
    rintro s s' rfl
    rfl
  have hprograms : ∀ i, ((serve role wire clients).programs i).Follows
      (Book.next (mainStage role)) effects (fun _ b => b.Closed) .first :=
    fun i => closes_program role wire (clients i)
  obtain ⟨b, hbook, hfollows⟩ := System.Reaches.follows @hserves @houtside rfl hprograms h i
  refine ⟨b, tallies_of_advance hbook, fun hdone => ?_⟩
  rw [hdone] at hfollows
  exact hfollows

private theorem reached_mono {rank rank' reached : Nat} (h : rank ≤ rank') :
    (decide (rank' ≤ reached)).toNat ≤ (decide (rank ≤ reached)).toNat := by
  by_cases hreached : rank' ≤ reached
  · simp [hreached, h.trans hreached]
  · simp [hreached]

section Ranks

variable {main : Stage} {effect counted : Effect} {rank : Nat}

/-- Only completions differ at the same step. -/
theorem Effect.eq_of_rank (h : effect.rank main = some rank)
    (hcounted : counted.rank main = some rank) (hrank : rank ≠ 5) : effect = counted := by
  cases effect <;> cases counted <;> simp only [Effect.rank] at h hcounted <;> grind

theorem Effect.isRank_eq (h : counted.rank main = some rank) (hrank : rank ≠ 5) :
    Effect.isRank main rank = (· = counted) := by
  funext effect
  refine decide_eq_decide.mpr ⟨fun heffect => eq_of_rank heffect h hrank, ?_⟩
  rintro rfl
  exact h

theorem Effect.isRank_five : Effect.isRank main 5 = Effect.isCompleted main := by
  funext effect
  cases effect <;> simp [isRank, Effect.rank, isCompleted]

end Ranks

/-- Fewer connections get to a later step. -/
theorem count_rank_le (h : System.Reaches serves undisturbed (serve role wire clients) c)
    {rank rank' : Nat} (hpos : 0 < rank) (hle : rank ≤ rank') :
    c.state.count (Effect.isRank (mainStage role) rank') ≤
      c.state.count (Effect.isRank (mainStage role) rank) := by
  refine countP_le_of_part fun i => ?_
  obtain ⟨b, htallies, -⟩ := exists_tallies h i
  rw [htallies.rank rank hpos, htallies.rank rank' (Nat.lt_of_lt_of_le hpos hle)]
  exact reached_mono hle

omit [DecidableEq ι] in
theorem count_after (s : Server ι) (i : ι) (op : ServiceOp) (answer : op.Ans)
    (kind : Effect → Bool) :
    (s.after i op answer).count kind = s.count kind + (effects op answer).countP kind := by
  rw [Server.count, Server.after, List.countP_append, List.countP_map]
  rfl

/-- What holds at first and is kept by every access holds of the server at any time. -/
theorem server_invariant {holds : Server ι → Prop}
    (h : System.Reaches serves undisturbed (serve role wire clients) c)
    (hfirst : holds (serve role wire clients).state)
    (hstep : ∀ s i op answer, holds s → s.Enabled op answer → holds (s.after i op answer)) :
    holds c.state := by
  refine (System.Reaches.invariant holds (fun _ _ _ => True) ?_ (fun _ _ _ _ => trivial) ?_
    hfirst (fun _ => trivial) h).1
  · rintro i op next s answer s' hholds - ⟨henabled, rfl⟩
    exact ⟨hstep s i op answer hholds henabled, trivial⟩
  · rintro s s' hholds rfl
    exact ⟨hholds, fun _ _ _ => trivial⟩

/-- A counter of the effects of one kind. It stops at its largest value. -/
def Counts (read : Metrics → UInt64) (counted : Effect) : Prop :=
  ∀ (m : Metrics) (op : ServiceOp) (answer : op.Ans), (read (m.perform op)).toNat =
    saturatingAdd (read m).toNat ((effects op answer).countP (· = counted))

private theorem saturatingAdd_zero (counter : UInt64) :
    saturatingAdd counter.toNat 0 = counter.toNat :=
  Nat.min_eq_left (Nat.le_of_lt_succ counter.toNat_lt)

private theorem toNat_bump {α : Type} [DecidableEq α] (counters : α → UInt64) (label other : α) :
    (bump counters label other).toNat =
      saturatingAdd (counters other).toNat (decide (label = other)).toNat := by
  by_cases hlabel : label = other
  · subst hlabel
    rw [bump, Function.update_self, toNat_add, decide_eq_true rfl]
    rfl
  · rw [bump, Function.update_of_ne (Ne.symm hlabel), decide_eq_false hlabel]
    exact (saturatingAdd_zero _).symm

/-- The same for a table of counters. -/
private theorem toNat_update_bump {α : Type} [DecidableEq α] (counters : Stage → α → UInt64)
    (stage stage' : Stage) (label label' : α) :
    (Function.update counters stage (bump (counters stage) label) stage' label').toNat =
      saturatingAdd (counters stage' label').toNat
        (decide (stage = stage' ∧ label = label')).toNat := by
  by_cases hstage : stage = stage'
  · subst hstage
    rw [Function.update_self, toNat_bump]
    simp only [true_and]
  · rw [Function.update_of_ne (Ne.symm hstage), decide_eq_false fun h => hstage h.1]
    exact (saturatingAdd_zero _).symm

private theorem countP_single {effect counted : Effect} {same : Prop} [Decidable same]
    (h : effect = counted ↔ same) : [effect].countP (· = counted) = (decide same).toNat := by
  rw [List.countP_singleton, decide_eq_decide.mpr h]
  cases decide same <;> rfl

theorem counts_admissions (result : Admission) :
    Counts (fun m => m.admissions result) (.admission result) := by
  intro m op answer
  cases op with
  | admission other =>
    rw [effects, countP_single (iff_of_eq (Effect.admission.injEq ..))]
    exact toNat_bump m.admissions other result
  | tryAcquire => cases answer <;> exact (saturatingAdd_zero _).symm
  | _ => exact (saturatingAdd_zero _).symm

theorem counts_completions (stage : Stage) (outcome : Outcome) :
    Counts (fun m => m.completions stage outcome) (.completed stage outcome) := by
  intro m op answer
  cases op with
  | addCompletion stage' outcome' =>
    rw [effects, countP_single (iff_of_eq (Effect.completed.injEq ..))]
    exact toNat_update_bump m.completions stage' stage outcome' outcome
  | tryAcquire => cases answer <;> exact (saturatingAdd_zero _).symm
  | _ => exact (saturatingAdd_zero _).symm

theorem counts_durations (stage : Stage) (bucket : Fin 13) :
    Counts (fun m => m.durations stage bucket) (.observed stage bucket) := by
  intro m op answer
  cases op with
  | addDuration stage' bucket' =>
    rw [effects, countP_single (iff_of_eq (Effect.observed.injEq ..))]
    exact toNat_update_bump m.durations stage' stage bucket' bucket
  | tryAcquire => cases answer <;> exact (saturatingAdd_zero _).symm
  | _ => exact (saturatingAdd_zero _).symm

theorem Counts.toNat_eq {read : Metrics → UInt64} {counted : Effect} (hread : Counts read counted)
    (hnew : read (Metrics.new role (capacity role)) = 0)
    (h : System.Reaches serves undisturbed (serve role wire clients) c) :
    (read c.state.metrics).toNat = min (c.state.count (· = counted)) maxU64 := by
  have hfirst : (read (Metrics.new role (capacity role))).toNat = min 0 maxU64 := by
    rw [hnew]
    rfl
  have hstep : ∀ (s : Server ι) i op answer,
      (read s.metrics).toNat = min (s.count (· = counted)) maxU64 → s.Enabled op answer →
      (read (s.after i op answer).metrics).toNat =
        min ((s.after i op answer).count (· = counted)) maxU64 := by
    intro s i op answer hs _
    rw [count_after, Server.after, hread s.metrics op answer, hs, saturatingAdd]
    omega
  exact server_invariant h hfirst hstep

/-- Below its largest value a counter is the number of effects. -/
theorem Counts.toNat_eq_of_lt {read : Metrics → UInt64} {counted : Effect}
    (hread : Counts read counted) (hnew : read (Metrics.new role (capacity role)) = 0)
    (h : System.Reaches serves undisturbed (serve role wire clients) c)
    (hlt : (read c.state.metrics).toNat < maxU64) :
    (read c.state.metrics).toNat = c.state.count (· = counted) := by
  have hmin := hread.toNat_eq hnew h
  omega

/-- The limit, the connections in flight and the permits agree with the effects. -/
structure Audit (role : Role) (s : Server ι) : Prop where
  limit : s.metrics.limit = capacity role
  inflight : s.metrics.inflight.toNat + s.count (· = .left) = s.count (· = .entered)
  permits : s.permits + s.count (· = .acquired) = (capacity role).toNat + s.count (· = .released)

variable {s : Server ι} {i : ι} {op : ServiceOp} {answer : op.Ans} {p : Effect → Bool}

omit [DecidableEq ι] in
/-- The gauge stands at the connections entered and not left. -/
private theorem Audit.inflight_after (h : Audit role s)
    (hbusy : s.metrics.inflight.toNat < maxU64)
    (hleft : (s.after i op answer).count (· = .left) ≤ (s.after i op answer).count (· = .entered)) :
    (s.metrics.perform op).inflight.toNat + (s.after i op answer).count (· = .left) =
      (s.after i op answer).count (· = .entered) := by
  have hinflight := h.inflight
  rw [count_after, count_after] at hleft ⊢
  cases op with
  | enter =>
    have henter : (s.metrics.perform .enter).inflight.toNat = s.metrics.inflight.toNat + 1 := by
      change (add s.metrics.inflight 1).toNat = _
      rw [toNat_add]
      exact Nat.min_eq_left hbusy
    rw [henter]
    change _ + 1 + (_ + 0) = _ + 1
    omega
  | leave =>
    change _ + 1 ≤ _ + 0 at hleft
    have hone : (1 : UInt64) ≤ s.metrics.inflight := UInt64.le_iff_toNat_le.mpr (by
      change 1 ≤ _
      omega)
    have hleave : (s.metrics.perform .leave).inflight.toNat = s.metrics.inflight.toNat - 1 :=
      UInt64.toNat_sub_of_le _ _ hone
    rw [hleave]
    change _ - 1 + (_ + 1) = _ + 0
    omega
  | tryAcquire => cases answer <;> exact hinflight
  | _ => exact hinflight

omit [DecidableEq ι] in
/-- The permits stand at those acquired and not released. -/
private theorem Audit.permits_after (h : Audit role s) (henabled : s.Enabled op answer) :
    s.permitsAfter op answer + (s.after i op answer).count (· = .acquired) =
      (capacity role).toNat + (s.after i op answer).count (· = .released) := by
  have hpermits := h.permits
  rw [count_after, count_after]
  cases op with
  | tryAcquire =>
    cases answer with
    | false => exact hpermits
    | true =>
      have hpos : 0 < s.permits := of_decide_eq_true (Eq.symm henabled)
      change s.permits - 1 + (_ + 1) = _ + (_ + 0)
      omega
  | release =>
    change s.permits + 1 + (_ + 0) = _ + (_ + 1)
    omega
  | _ => exact hpermits

omit [DecidableEq ι] in
/-- One operation keeps the audit. -/
theorem Audit.after (h : Audit role s) (henabled : s.Enabled op answer)
    (hbusy : s.metrics.inflight.toNat < maxU64) (hleft : (s.after i op answer).count (· = .left) ≤
      (s.after i op answer).count (· = .entered)) : Audit role (s.after i op answer) := by
  refine ⟨?_, h.inflight_after hbusy hleft, h.permits_after henabled⟩
  rw [← h.limit]
  cases op <;> rfl

/-- Not more connections have left than have entered, and one in flight has its permit. -/
theorem count_effects_le (h : System.Reaches serves undisturbed (serve role wire clients) c) :
    c.state.count (· = .left) ≤ c.state.count (· = .entered) ∧
      c.state.count (· = .entered) ≤ c.state.count (· = .acquired) ∧
      c.state.count (· = .released) ≤ c.state.count (· = .left) := by
  have hkind : ∀ {rank : Nat} {counted : Effect}, counted.rank (mainStage role) = some rank →
      rank ≠ 5 → c.state.count (Effect.isRank (mainStage role) rank) =
        c.state.count (· = counted) :=
    fun hrank hne => congrArg c.state.count (Effect.isRank_eq hrank hne)
  rw [← @hkind 2 .acquired rfl (by omega), ← @hkind 4 .entered rfl (by omega),
    ← @hkind 6 .left rfl (by omega), ← @hkind 7 .released rfl (by omega)]
  exact ⟨count_rank_le h (by omega) (by omega), count_rank_le h (by omega) (by omega),
    count_rank_le h (by omega) (by omega)⟩

/-- The audit holds in every state that is reached. -/
theorem audit_of_reaches (h : System.Reaches serves undisturbed (serve role wire clients) c) :
    Audit role c.state := by
  induction h with
  | refl => exact ⟨rfl, rfl, rfl⟩
  | tail hbefore hstep ih =>
    have hcounts := count_effects_le hbefore
    have hafter := count_effects_le (hbefore.tail hstep)
    cases hstep with
    | outside hsame =>
      rw [hsame]
      exact ih
    | call i hprogram hserves =>
      obtain ⟨henabled, rfl⟩ := hserves
      refine ih.after henabled ?_ hafter.1
      have hcapacity : (capacity role).toNat < maxU64 := by cases role <;> decide
      have hinflight := ih.inflight
      have hpermits := ih.permits
      omega

/-- The value of the bucket without a bound. -/
def Metrics.infBucket (m : Metrics) (stage : Stage) : UInt64 :=
  (m.bucketLines stage 0 bucketBounds).2

private theorem toNat_bucketLines (m : Metrics) (stage : Stage) (count : UInt64)
    (buckets : List (String × Fin 13)) : (m.bucketLines stage count buckets).2.toNat =
      min (count.toNat + (buckets.map fun bucket => (m.durations stage bucket.2).toNat).sum)
        maxU64 := by
  induction buckets generalizing count with
  | nil => exact (saturatingAdd_zero count).symm
  | cons bucket buckets ih =>
    rw [Metrics.bucketLines, ih, toNat_add, saturatingAdd, List.map_cons, List.sum_cons]
    omega

theorem toNat_infBucket (m : Metrics) (stage : Stage) : (m.infBucket stage).toNat =
    min ((List.finRange 13).map fun bucket => (m.durations stage bucket).toNat).sum maxU64 := by
  rw [Metrics.infBucket, toNat_bucketLines]
  change min (0 + _) maxU64 = _
  rw [Nat.zero_add]
  rfl

/-- No counter of the accounts has reached its largest value. -/
structure Metrics.Unsaturated (m : Metrics) : Prop where
  admissions : ∀ result, (m.admissions result).toNat < maxU64
  completions : ∀ stage outcome, (m.completions stage outcome).toNat < maxU64
  durations : ∀ stage, (m.infBucket stage).toNat < maxU64

/-- Counters of one kind, one for each label, add up to the number of effects of the kind. -/
theorem sum_counts {β : Type} [DecidableEq β] (read : β → Metrics → UInt64) {f : β → Effect}
    {labels : List β} (hread : ∀ label, Counts (read label) (f label))
    (hnew : ∀ label, read label (Metrics.new role (capacity role)) = 0)
    (hf : Function.Injective f) (hnodup : labels.Nodup) (hall : ∀ label, label ∈ labels)
    (hp : ∀ effect, p effect ↔ ∃ label, effect = f label)
    (h : System.Reaches serves undisturbed (serve role wire clients) c)
    (hlt : ∀ label, (read label c.state.metrics).toNat < maxU64) :
    (labels.map fun label => (read label c.state.metrics).toNat).sum = c.state.count p := by
  have heach : ∀ label, (read label c.state.metrics).toNat =
      (c.state.log.map Prod.snd).countP (· = f label) := by
    intro label
    rw [(hread label).toNat_eq_of_lt (hnew label) h (hlt label), List.countP_map]
    rfl
  rw [List.map_congr_left fun label _ => heach label, sum_countP_labels hf hnodup hall hp,
    List.countP_map]
  rfl

theorem sum_durations (h : System.Reaches serves undisturbed (serve role wire clients) c)
    (stage : Stage) (hlt : ∀ bucket, (c.state.metrics.durations stage bucket).toNat < maxU64) :
    ((List.finRange 13).map fun bucket => (c.state.metrics.durations stage bucket).toNat).sum =
      c.state.count (Effect.isObserved stage) := by
  refine sum_counts (fun bucket m => m.durations stage bucket) (counts_durations stage)
    (fun _ => rfl) (fun _ _ hinj => (Effect.observed.inj hinj).2) (List.nodup_finRange 13)
    List.mem_finRange (fun effect => ?_) h hlt
  cases effect <;> simp [Effect.isObserved]

section Sums

variable (h : System.Reaches serves undisturbed (serve role wire clients) c)
  (hcounters : c.state.metrics.Unsaturated)

include h hcounters

theorem sum_admissions : (Admission.all.map fun result =>
    (c.state.metrics.admissions result).toNat).sum = c.state.count Effect.isAdmission := by
  refine sum_counts (fun result m => m.admissions result) counts_admissions (fun _ => rfl)
    (fun _ _ => Effect.admission.inj) (by decide) Admission.mem_all (fun effect => ?_) h
    hcounters.admissions
  cases effect <;> simp [Effect.isAdmission]

theorem sum_completions (stage : Stage) : (Outcome.all.map fun outcome =>
    (c.state.metrics.completions stage outcome).toNat).sum =
      c.state.count (Effect.isCompleted stage) := by
  refine sum_counts (fun outcome m => m.completions stage outcome) (counts_completions stage)
    (fun _ => rfl) (fun _ _ hinj => (Effect.completed.inj hinj).2) (by decide) Outcome.mem_all
    (fun effect => ?_) h (hcounters.completions stage)
  cases effect <;> simp [Effect.isCompleted]

theorem toNat_infBucket_eq (stage : Stage) : (c.state.metrics.infBucket stage).toNat =
    c.state.count (Effect.isObserved stage) := by
  have hsum := toNat_infBucket c.state.metrics stage
  have hlt := hcounters.durations stage
  have hbucket : ∀ bucket, (c.state.metrics.durations stage bucket).toNat ≤
      ((List.finRange 13).map fun bucket => (c.state.metrics.durations stage bucket).toNat).sum :=
    fun bucket => List.single_le_sum (fun _ _ => Nat.zero_le _) _
      (List.mem_map_of_mem (List.mem_finRange bucket))
  have hobserved := sum_durations h stage fun bucket => by
    have hle := hbucket bucket
    omega
  omega

end Sums

/-- Every task has ended. A listener that waits to accept again has started the timer of its
retry. -/
def Quiet (c : Serving ι) : Prop :=
  ∀ i, c.programs i = .done () ∨ ∀ effect ∈ part c.state.log i, effect = .created .listenerRetry

/-- Every task has ended, and no listener waits to accept again. -/
def Resting (c : Serving ι) : Prop := ∀ i, c.programs i = .done () ∨ part c.state.log i = []

/-- Numbers that agree in every closed book agree at rest. -/
private theorem count_eq_of_closed {q : Effect → Bool}
    (h : System.Reaches serves undisturbed (serve role wire clients) c)
    (hidle : ∀ i, c.programs i = .done () ∨
      (part c.state.log i).countP p = (part c.state.log i).countP q)
    (hclosed : ∀ effects b, Tallies (mainStage role) effects b → b.Closed →
      effects.countP p = effects.countP q) : c.state.count p = c.state.count q := by
  refine countP_eq_of_part fun i => ?_
  rcases hidle i with hdone | hsame
  · obtain ⟨b, htallies, hclosing⟩ := exists_tallies h i
    exact hclosed _ b htallies (hclosing hdone)
  · exact hsame

private theorem Quiet.idle {q : Effect → Bool} (hquiet : Quiet c)
    (hsame : p (.created .listenerRetry) = q (.created .listenerRetry)) (i : ι) :
    c.programs i = .done () ∨
      (part c.state.log i).countP p = (part c.state.log i).countP q := by
  refine (hquiet i).imp_right fun hretry => List.countP_congr fun effect heffect => ?_
  rw [hretry effect heffect, hsame]

/-- The permits that connections hold. -/
def Server.held (s : Server ι) : Nat := s.count (· = .acquired) - s.count (· = .released)

/-- The accounts of one connection. -/
structure Connected (main : Stage) (ended : Prop) (done : List Effect) : Prop where
  accepted : done.countP (· = .accepted) ≤ 1
  counted : done.countP Effect.isAdmission ≤ done.countP (· = .accepted)
  counted_ended : ended → done.countP Effect.isAdmission = done.countP (· = .accepted)
  recorded : done.countP (Effect.isCompleted main) ≤ done.countP (· = .admission .admitted)
  recorded_ended : ended →
    done.countP (Effect.isCompleted main) = done.countP (· = .admission .admitted)

/-- The completions of a stage, of all outcomes. -/
def Metrics.completed (m : Metrics) (stage : Stage) : Nat :=
  (Outcome.all.map fun outcome => (m.completions stage outcome).toNat).sum

/-- The counters when no task is live. -/
structure Balanced (role : Role) (s : Server ι) : Prop where
  inflight : s.metrics.inflight = 0
  admissions : (Admission.all.map fun result => (s.metrics.admissions result).toNat).sum =
    s.count (· = .accepted)
  admitted : (s.metrics.admissions .admitted).toNat = s.metrics.completed (mainStage role)
  durations : ∀ stage, s.metrics.completed stage = (s.metrics.infBucket stage).toNat

/-- Whatever the clock says, a stage is completed once with this outcome, and once timed. -/
def Records (task : Task Unit) (stage : Stage) (outcome : Outcome) : Prop :=
  task.Follows (fun done effect => some (done ++ [effect])) effects
    (fun _ done => ∃ bucket, done = [.completed stage outcome, .observed stage bucket]) []

theorem records_record (timer : Timer) (outcome : Outcome) :
    Records (timer.record outcome) timer.stage outcome :=
  fun nanoseconds => ⟨[], rfl, fun _ => ⟨_, rfl, fun _ => ⟨_, rfl, fun _ =>
    ⟨_, rfl, bucketOf nanoseconds, rfl⟩⟩⟩⟩

theorem records_finish (timer : Timer) (outcome : Outcome) :
    Records (timer.finish outcome) timer.stage outcome :=
  (records_record timer outcome).bind fun _ _ hdone => hdone

theorem records_drop {timer : Timer} (h : timer.finished = false) :
    Records timer.drop timer.stage .cancelled := by
  rw [Timer.drop, h]
  exact records_record timer .cancelled

section Closing

variable {main : Stage} {done : List Effect} {b : Book}

private theorem Tallies.created_eq (h : Tallies main done b) (hclosed : b.Closed) (stage : Stage) :
    done.countP (Effect.isCreated stage) = done.countP (Effect.isCompleted stage) := by
  rw [h.created stage, hclosed.timers]
  rfl

private theorem Tallies.completed_eq (h : Tallies main done b) (hclosed : b.Closed)
    (stage : Stage) :
    done.countP (Effect.isCompleted stage) = done.countP (Effect.isObserved stage) := by
  rw [h.completed stage, hclosed.late]
  rfl

private theorem Tallies.countP_eq (h : Tallies main done b) (counted : Effect) {rank : Nat}
    (hcounted : counted.rank main = some rank) (hpos : 0 < rank) (hrank : rank ≠ 5) :
    done.countP (· = counted) = (decide (rank ≤ b.phase.rank)).toNat := by
  rw [← Effect.isRank_eq hcounted hrank]
  exact h.rank rank hpos

private theorem Tallies.left_eq (h : Tallies main done b) (hclosed : b.Closed) :
    done.countP (· = .left) = done.countP (· = .entered) := by
  rw [h.countP_eq .left rfl (by decide) (by decide), h.countP_eq .entered rfl (by decide)
    (by decide)]
  rcases hclosed.phase with hphase | hphase | hphase <;> rw [hphase] <;> rfl

/-- A book that tallies bounds each phase by the one before. -/
theorem Tallies.connected (h : Tallies main done b) {ended : Prop} (hclosed : ended → b.Closed) :
    Connected main ended done := by
  have haccepted := h.countP_eq .accepted rfl (by decide) (by decide)
  have hadmitted := h.countP_eq (.admission .admitted) rfl (by decide) (by decide)
  have hmain : done.countP (Effect.isCompleted main) = (decide (5 ≤ b.phase.rank)).toNat := by
    rw [← Effect.isRank_five]
    exact h.rank 5 (by omega)
  refine ⟨?_, ?_, fun hended => ?_, ?_, fun hended => ?_⟩
  · rw [haccepted]
    exact Bool.toNat_le _
  · rw [haccepted, h.decided]
    cases b.phase <;> decide
  · rw [haccepted, h.decided]
    rcases (hclosed hended).phase with hphase | hphase | hphase <;> rw [hphase] <;> rfl
  · rw [hmain, hadmitted]
    exact reached_mono (by omega)
  · rw [hmain, hadmitted]
    rcases (hclosed hended).phase with hphase | hphase | hphase <;> rw [hphase] <;> rfl

end Closing

section Runs

variable (h : System.Reaches serves undisturbed (serve role wire clients) c)

include h

theorem connected_of_reaches (i : ι) :
    Connected (mainStage role) (c.programs i = .done ()) (part c.state.log i) := by
  obtain ⟨b, htallies, hclosed⟩ := exists_tallies h i
  exact htallies.connected hclosed

theorem held_of_reaches :
    c.state.metrics.inflight.toNat ≤ c.state.held ∧
      c.state.held + c.state.permits = c.state.metrics.limit.toNat := by
  have haudit := audit_of_reaches h
  have hcounts := count_effects_le h
  have hinflight := haudit.inflight
  have hpermits := haudit.permits
  rw [haudit.limit, Server.held]
  omega

/-- A quiet server's counters balance. -/
theorem balanced_of_quiet (hcounters : c.state.metrics.Unsaturated) (hquiet : Quiet c) :
    Balanced role c.state := by
  refine ⟨?_, ?_, ?_, fun stage => ?_⟩
  · have hleft : c.state.count (· = .left) = c.state.count (· = .entered) :=
      count_eq_of_closed h (hquiet.idle rfl) fun _ _ htallies hclosed => htallies.left_eq hclosed
    have hinflight := (audit_of_reaches h).inflight
    have hzero : c.state.metrics.inflight.toNat = 0 := by omega
    exact UInt64.toNat_inj.mp hzero
  · rw [sum_admissions h hcounters]
    exact count_eq_of_closed h (hquiet.idle rfl) fun _ _ htallies hclosed =>
      (htallies.connected fun _ => hclosed).counted_ended trivial
  · rw [Metrics.completed, sum_completions h hcounters,
      (counts_admissions .admitted).toNat_eq_of_lt rfl h (hcounters.admissions .admitted)]
    refine Eq.symm (count_eq_of_closed h (hquiet.idle rfl) fun _ _ htallies hclosed => ?_)
    exact (htallies.connected fun _ => hclosed).recorded_ended trivial
  · rw [Metrics.completed, sum_completions h hcounters, toNat_infBucket_eq h hcounters]
    exact count_eq_of_closed h (hquiet.idle rfl) fun _ _ htallies hclosed =>
      htallies.completed_eq hclosed stage

theorem completed_eq_created (hcounters : c.state.metrics.Unsaturated) (hquiet : Quiet c)
    {stage : Stage} (hretry : stage = .listenerRetry → Resting c) :
    c.state.metrics.completed stage = c.state.count (Effect.isCreated stage) := by
  rw [Metrics.completed, sum_completions h hcounters]
  refine (count_eq_of_closed h (fun i => ?_) fun _ _ htallies hclosed =>
    htallies.created_eq hclosed stage).symm
  by_cases hstage : stage = .listenerRetry
  · refine (hretry hstage i).imp_right fun hnone => ?_
    rw [hnone]
    rfl
  · refine hquiet.idle ?_ i
    exact decide_eq_false (Ne.symm hstage)

/-- Counters reach their largest values only after as many effects. -/
theorem unsaturated_of_length (hlength : c.state.log.length < maxU64) :
    c.state.metrics.Unsaturated := by
  have hcounter : ∀ {read : Metrics → UInt64} {counted : Effect}, Counts read counted →
      read (Metrics.new role (capacity role)) = 0 → (read c.state.metrics).toNat < maxU64 := by
    intro read counted hread hnew
    have hmin := hread.toNat_eq hnew h
    have hle : c.state.count (· = counted) ≤ c.state.log.length := List.countP_le_length
    omega
  refine ⟨fun result => hcounter (counts_admissions result) rfl,
    fun stage outcome => hcounter (counts_completions stage outcome) rfl, fun stage => ?_⟩
  have hsum := sum_durations h stage fun bucket => hcounter (counts_durations stage bucket) rfl
  have hle : c.state.count (Effect.isObserved stage) ≤ c.state.log.length := List.countP_le_length
  rw [toNat_infBucket, hsum]
  omega

end Runs

/-- At any time of any interleaving a connection in flight holds a permit, an accepted one moves one
counter of admissions, and an admitted one completes once. When no task is live nothing is in flight
and the counters agree. -/
theorem admission_accounting (h : System.Reaches serves undisturbed (serve role wire clients) c) :
    (c.state.metrics.inflight.toNat ≤ c.state.held ∧
      c.state.held + c.state.permits = c.state.metrics.limit.toNat) ∧
    (∀ i, Connected (mainStage role) (c.programs i = .done ()) (part c.state.log i)) ∧
    (c.state.metrics.Unsaturated →
      (∀ result, (c.state.metrics.admissions result).toNat =
        c.state.count (· = .admission result)) ∧
      (∀ stage outcome, (c.state.metrics.completions stage outcome).toNat =
        c.state.count (· = .completed stage outcome)) ∧
      (Quiet c → Balanced role c.state ∧ ∀ stage, (stage = .listenerRetry → Resting c) →
        c.state.metrics.completed stage = c.state.count (Effect.isCreated stage))) ∧
    (∀ (timer : Timer) outcome, Records (timer.finish outcome) timer.stage outcome) ∧
    ∀ timer : Timer, timer.finished = false → Records timer.drop timer.stage .cancelled := by
  refine ⟨held_of_reaches h, connected_of_reaches h, fun hcounters => ⟨fun result => ?_,
    fun stage outcome => ?_, fun hquiet => ⟨balanced_of_quiet h hcounters hquiet, ?_⟩⟩,
    records_finish, fun _ => records_drop⟩
  · exact (counts_admissions result).toNat_eq_of_lt rfl h (hcounters.admissions result)
  · exact (counts_completions stage outcome).toNat_eq_of_lt rfl h
      (hcounters.completions stage outcome)
  · exact fun stage => completed_eq_created h hcounters hquiet

end Serving

/-- A worker whose one client may be cut off at any point. -/
private def cutOff : Serving Unit := serve .worker ⟨fun _ => none, id, []⟩ fun _ => .connection []

private theorem reaches_next {c c' : Serving Unit} (h : System.Reaches serves undisturbed c c')
    {op : ServiceOp} {next : op.Ans → Task Unit} (hprogram : c'.programs () = .call op next)
    (answer : op.Ans) (henabled : c'.state.Enabled op answer) :
    System.Reaches serves undisturbed c
      ⟨Function.update c'.programs () (next answer), c'.state.after () op answer⟩ :=
  .tail h (.call () hprogram ⟨henabled, rfl⟩)

/-- The worker's deadline ends a connection that waits for its request. -/
theorem admission_accounting_cutOff : ∃ c : Serving Unit,
    System.Reaches serves undisturbed cutOff c ∧ c.programs () = .done () ∧
      c.state.metrics.admissions .admitted = 1 ∧
      c.state.metrics.completions .validation .cancelled = 1 ∧
      c.state.metrics.completions .worker .timeout = 1 ∧ Balanced .worker c.state := by
  have hlisten := reaches_next (.refl (a := cutOff)) rfl () rfl
  have haccepted := reaches_next hlisten rfl () trivial
  have hpeer := reaches_next haccepted rfl .allowed trivial
  have hacquired := reaches_next hpeer rfl true rfl
  have hadmitted := reaches_next hacquired rfl () trivial
  have hentered := reaches_next hadmitted rfl () trivial
  have hresumed := reaches_next hentered rfl () trivial
  have hworker := reaches_next hresumed rfl (0 : Nat) trivial
  have hvalidation := reaches_next hworker rfl (0 : Nat) trivial
  have hread := reaches_next hvalidation rfl none trivial
  have helapsed := reaches_next hread rfl (5 : UInt64) trivial
  have hcancelled := reaches_next helapsed rfl () trivial
  have hobserved := reaches_next hcancelled rfl () trivial
  have htimed := reaches_next hobserved rfl () trivial
  have helapsed' := reaches_next htimed rfl (7 : UInt64) trivial
  have hfinished := reaches_next helapsed' rfl () trivial
  have hobserved' := reaches_next hfinished rfl () trivial
  have htimed' := reaches_next hobserved' rfl () trivial
  have hleft := reaches_next htimed' rfl () trivial
  have hreleased := reaches_next hleft rfl () trivial
  obtain ⟨-, -, hquiet, -⟩ := admission_accounting hreleased
  refine ⟨_, hreleased, rfl, rfl, rfl, rfl, (hquiet ?_).2.2 ?_ |>.1⟩
  · exact unsaturated_of_length hreleased (by decide)
  · exact fun i => .inl rfl

end Leelo.Daemon
