import Leelo.Luks.Metadata
import Leelo.Luks.Reading

/-!
# Enrollment is append-only and its errors are truthful

Any number of enrollment and attachment calls interleave with native writers, and every
library call may fail. Nothing that is on the device is ever removed or replaced, a
success has been read back after the last write, an error that is not partial has
written nothing, and the sections under the write lock do not interleave.
-/

namespace Leelo.Luks

open Leelo.Core Leelo.Core.Fallible
open Leelo.Sss (Secret)

section Appends

/-- The call reads and adds, and removes nothing. -/
abbrev Appends {α : Type} (x : Call α) : Prop := x.All fun op => op.appends = true

theorem Op.appends_of_reads {op : Op} (h : op.reads = true) : op.appends = true := by
  cases op with
  | keyslotAddByPassphrase | tokenJsonSet => cases h
  | _ => exact h

theorem Reads.appends {α : Type} {x : Call α} (h : Reads x) : Appends x :=
  Program.All.mono (fun _ => Op.appends_of_reads) h

variable (codec : Codec) (handle : Luks2) (slot : UInt8) (envelope : Bytes)

theorem appends_writeToken (credential : Secret) (id : UInt8) (json : String) :
    Appends (writeToken codec handle slot credential envelope id json) :=
  all_bind (all_perform rfl) fun _ => all_bind (all_ofResult _) fun _ =>
    all_bind (reads_ensure _ _).appends fun _ =>
    all_bind (all_mapError reads_syncAll.appends) fun _ =>
    all_bind (all_mapError (reads_verifyPersisted codec handle slot id credential
      envelope).appends) fun _ => trivial

/-- Attaching a token removes nothing. -/
theorem appends_attachLocked (credential : Secret) :
    Appends (attachLocked codec handle slot credential envelope) := by
  unfold attachLocked
  refine all_bind (reads_reload handle).appends fun fresh => ?_
  refine all_bind (reads_activateInner fresh _ _ _).appends fun _ => ?_
  refine all_bind (reads_metadata codec fresh).appends fun _ => ?_
  refine all_bind (all_ofResult _) fun _ => all_bind (all_ofResult _) fun found => ?_
  cases found with
  | some id =>
    exact all_bind (reads_verifyPersisted codec fresh slot id credential envelope).appends
      fun _ => trivial
  | none =>
    exact all_bind (reads_tokenPlan codec fresh slot envelope false).appends
      fun plan => appends_writeToken codec fresh slot envelope credential plan.1 plan.2

/-- Adding a slot removes nothing. -/
theorem appends_addLocked (old : Bytes) (new : Secret) :
    Appends (addLocked codec handle slot old new envelope) := by
  unfold addLocked
  refine all_bind (reads_checkLocked codec handle slot old envelope).appends fun fresh => ?_
  refine all_bind (all_perform rfl) fun result => ?_
  by_cases hresult : result < 0
  · rw [if_pos hresult]
    exact (reads_slotAddFailure fresh slot result).appends
  · rw [if_neg hresult]
    exact all_bind (reads_ensure _ _).appends fun _ =>
      all_bind (all_mapError reads_syncAll.appends) fun _ =>
      all_mapError (appends_attachLocked codec fresh slot envelope new)

end Appends

section Results

variable {ι : Type} [DecidableEq ι] {caller : ι} {s s' : Device ι} {codec : Codec}
  {handle : Luks2} {slot : UInt8} {envelope : Bytes}

/-- A token with this identifier was verified in a fresh load, after which nothing was
written. -/
def Verified (caller : ι) (codec : Codec) (slot : UInt8) (credential : Secret) (envelope : Bytes)
    (result : Int) (s' : Device ι) : Prop :=
  ∃ (id : UInt8) (header : Header) (s : Device ι), result = id.toNat ∧
    Loaded caller header s s' ∧ Enrolled codec header id slot credential envelope

variable {credential : Secret} {result : Int} {α : Type} {x body : Call α}

/-- A token that is written is verified. -/
theorem writeToken_ok {id : UInt8} {json : String}
    (h : Ran caller (writeToken codec handle slot credential envelope id json) s (.ok result) s') :
    Verified caller codec slot credential envelope result s' := by
  unfold writeToken at h
  obtain ⟨code, s1, -, h⟩ := runs_bind_ok.mp h
  obtain ⟨result', s2, -, h⟩ := runs_bind_ok.mp h
  obtain ⟨⟨⟩, s3, hid, h⟩ := runs_bind_ok.mp h
  obtain ⟨⟨⟩, s4, -, h⟩ := runs_bind_ok.mp h
  obtain ⟨⟨⟩, s5, hverify, h⟩ := runs_bind_ok.mp h
  obtain ⟨hresult, rfl⟩ := runs_pure.mp h
  obtain rfl := Except.ok.inj hresult
  obtain ⟨header, hloaded, henrolled⟩ := verifyPersisted_ok (runs_mapError_ok.mp hverify)
  exact ⟨id, header, s4, runs_ensure_ok hid, hloaded, henrolled⟩

/-- A token that is attached is verified. -/
theorem attachLocked_ok
    (h : Ran caller (attachLocked codec handle slot credential envelope) s (.ok result) s') :
    Verified caller codec slot credential envelope result s' := by
  unfold attachLocked at h
  obtain ⟨fresh, s1, -, h⟩ := runs_bind_ok.mp h
  obtain ⟨actual, s2, -, h⟩ := runs_bind_ok.mp h
  obtain ⟨metadata, s3, -, h⟩ := runs_bind_ok.mp h
  obtain ⟨tokens, s4, -, h⟩ := runs_bind_ok.mp h
  obtain ⟨found, s5, -, h⟩ := runs_bind_ok.mp h
  cases found with
  | some id =>
    obtain ⟨⟨⟩, s6, hverify, h⟩ := runs_bind_ok.mp h
    obtain ⟨hresult, rfl⟩ := runs_pure.mp h
    obtain ⟨header, hloaded, henrolled⟩ := verifyPersisted_ok hverify
    exact ⟨id, header, s5, Except.ok.inj hresult, hloaded, henrolled⟩
  | none =>
    obtain ⟨plan, s6, -, h⟩ := runs_bind_ok.mp h
    exact writeToken_ok h

/-- A slot that is added is verified with its token. -/
theorem addLocked_ok {old : Bytes} {new : Secret}
    (h : Ran caller (addLocked codec handle slot old new envelope) s (.ok result) s') :
    Verified caller codec slot new envelope result s' := by
  unfold addLocked at h
  obtain ⟨fresh, s1, -, h⟩ := runs_bind_ok.mp h
  obtain ⟨code, s2, -, h⟩ := runs_bind_ok.mp h
  by_cases hcode : code < 0
  · rw [if_pos hcode] at h
    obtain ⟨status, s3, -, h⟩ := runs_bind_ok.mp h
    by_cases hstatus : status = .ok slotInactive
    · rw [if_pos hstatus] at h
      cases (runs_ofResult.mp h).1
    · rw [if_neg hstatus] at h
      cases (runs_ofResult.mp h).1
  · rw [if_neg hcode] at h
    obtain ⟨⟨⟩, s3, -, h⟩ := runs_bind_ok.mp h
    obtain ⟨⟨⟩, s4, -, h⟩ := runs_bind_ok.mp h
    exact attachLocked_ok (runs_mapError_ok.mp h)

/-- Ending with this error, the program has had no effect on the device. -/
def Plain {α : Type} (caller : ι) (error : Error) (x : Call α) : Prop :=
  ∀ s s', Ran caller x s (.error error) s' → Adds caller Event.isEffective s s'

variable {error : Error}

theorem Reads.plain (hx : Reads x) : Plain caller error x :=
  fun _ _ h => (hx.adds h).mono isEffective_of_isWrite

theorem Reads.plain_bind {β : Type} {f : α → Call β} (hx : Reads x)
    (hf : ∀ a, Plain caller error (f a)) : Plain caller error (x >>= f) := by
  intro s s' h
  rcases runs_bind_error.mp h with h | ⟨a, s1, hok, h⟩
  · exact hx.plain _ _ h
  · exact ((hx.adds hok).mono isEffective_of_isWrite).trans (hf a _ _ h)

/-- All errors of the program are partial. -/
abbrev Admits {α : Type} (x : Call α) : Prop := x.Errors fun error => error.isPartial = true

theorem Admits.plain (hx : Admits x) (herror : error.isPartial = false) :
    Plain caller error x := by
  intro s s' h
  have htorn := Fallible.Runs.errors h hx
  rw [herror] at htorn
  cases htorn

theorem admits_ensure (condition : Prop) [Decidable condition] (stage : String) (source : Error) :
    Admits (ensure condition (partialError slot stage source)) := by
  refine errors_ofResult fun e he => ?_
  by_cases hcondition : condition
  · rw [if_pos hcondition] at he
    cases he
  · rw [if_neg hcondition] at he
    cases he
    rfl

theorem admits_mapError (stage : String) (x : Call α) :
    Admits (mapError (partialError slot stage) x) := by
  apply errors_mapError
  exact fun _ => rfl

/-- From the token write on, every error is partial. -/
theorem admits_writeToken (credential : Secret) (id : UInt8) (json : String) :
    Admits (writeToken codec handle slot credential envelope id json) := by
  refine errors_bind (errors_perform _) fun code => errors_bind (errors_ofResult ?_) fun _ =>
    errors_bind (admits_ensure _ _ _) fun _ => errors_bind (admits_mapError _ _) fun _ =>
    errors_bind (admits_mapError _ _) fun _ => errors_pure _
  intro e he
  cases hchecked : checked "write token" code with
  | ok result =>
    rw [hchecked] at he
    cases he
  | error source =>
    rw [hchecked] at he
    cases he
    rfl

/-- Attaching a token admits its effects. -/
theorem attachLocked_plain (herror : error.isPartial = false) (credential : Secret) :
    Plain caller error (attachLocked codec handle slot credential envelope) := by
  unfold attachLocked
  refine (reads_reload handle).plain_bind fun fresh => ?_
  refine (reads_activateInner fresh _ _ _).plain_bind fun _ => ?_
  refine (reads_metadata codec fresh).plain_bind fun _ => ?_
  refine Reads.plain_bind (all_ofResult _) fun _ =>
    Reads.plain_bind (all_ofResult _) fun found => ?_
  cases found with
  | some id =>
    exact (reads_verifyPersisted codec fresh slot id credential envelope).plain_bind
      fun _ => Reads.plain trivial
  | none =>
    exact (reads_tokenPlan codec fresh slot envelope false).plain_bind
      fun plan => (admits_writeToken credential plan.1 plan.2).plain herror

/-- A failed slot add that reads back inactive has had no effect, because an effect would
have been loaded. -/
theorem slotAddFailure_plain (herror : error.isPartial = false) {code : Int}
    (h : Ran caller (slotAddFailure handle slot code) s (.error error) s') :
    s.disk.slots slot = none := by
  unfold slotAddFailure at h
  rcases runs_bind_error.mp h with h | ⟨status, s1, hstatus, h⟩
  · obtain ⟨result, hresult, -⟩ := runs_attempt.mp h
    cases hresult
  · obtain ⟨result, hresult, hread⟩ := runs_attempt.mp hstatus
    obtain rfl := Except.ok.inj hresult
    by_cases hinactive : status = .ok slotInactive
    · subst hinactive
      obtain ⟨fresh, s2, hreload, hstatus⟩ := runs_bind_ok.mp hread
      have hfree := slotStatus_ok hstatus rfl
      cases hslot : s.disk.slots slot with
      | none => rfl
      | some passphrase =>
        rw [(reload_ok hreload).within.1.slots slot passphrase hslot] at hfree
        cases hfree
    · rw [if_neg hinactive] at h
      obtain ⟨htorn, -⟩ := runs_ofResult.mp h
      obtain rfl := Except.error.inj htorn
      cases herror

/-- Adding a slot admits its effects. -/
theorem addLocked_plain (herror : error.isPartial = false) (old : Bytes) (new : Secret) :
    Plain caller error (addLocked codec handle slot old new envelope) := by
  unfold addLocked
  refine (reads_checkLocked codec handle slot old envelope).plain_bind fun fresh => ?_
  intro s s' h
  rcases runs_bind_error.mp h with h | ⟨code, s1, hadd, h⟩
  · obtain ⟨_, _, hresult, -⟩ := runs_perform.mp h
    cases hresult
  obtain ⟨answer, s2, hanswer, hrely, hresponds⟩ := runs_perform.mp hadd
  obtain rfl := Except.ok.inj hanswer
  by_cases hcode : code < 0
  · rw [if_pos hcode] at h
    have hrest := (reads_slotAddFailure fresh slot code).plain _ _ h
    refine hrely.adds.trans (Adds.trans ?_ hrest)
    rcases hresponds with ⟨-, rfl⟩ | ⟨-, rfl⟩
    · exact adds_record rfl (.refl _) rfl
    · -- The slot would hold the new passphrase when it is read back.
      have hfree := slotAddFailure_plain herror h
      have hheld : (s2.disk.putSlot slot new.toList).slots slot = some new.toList :=
        Function.update_self ..
      cases hheld.symm.trans hfree
  · rw [if_neg hcode] at h
    have hadmits : Admits (do
        ensure (code = slot.toNat) (partialError slot "slot identity" .metadataChanged)
        mapError (partialError slot "slot sync") syncAll
        mapError (partialError slot "token attachment")
          (attachLocked codec fresh slot new envelope)) :=
      errors_bind (admits_ensure _ _ _) fun _ => errors_bind (admits_mapError _ _) fun _ =>
        admits_mapError _ _
    have htorn := Fallible.Runs.errors h hadmits
    rw [herror] at htorn
    cases htorn

/-- Taking the lock writes nothing. -/
theorem acquire_adds {result : Except Error Unit} (h : Ran caller acquire s result s') :
    Adds caller Event.isWrite s s' := by
  have hall : acquire.All fun op => op.reads = true ∨ op = .setLock :=
    all_bind (Program.All.mono (fun _ => .inl) reads_tryClone) fun _ =>
      all_bind (all_perform (.inr rfl)) fun _ => all_ofResult _
  refine Program.Runs.relates Adds.refl Adds.trans Rely.adds ?_ hall h
  intro op s answer s' hop hresponds
  rcases hop with hop | hop
  · exact Reads.adds (all_perform hop) (runs_perform.mpr ⟨answer, s, rfl, .refl _, hresponds⟩)
  · obtain ⟨hdisk, hlog⟩ := responds_lock (.inl hop) hresponds
    exact Rely.adds ⟨hdisk ▸ .refl _, own_of_log_eq hlog⟩

/-- A body under the lock runs between an acquisition and a release that leave no trace on
the device. -/
theorem withLock_runs {result : Except Error α} (h : Ran caller (withLock body) s result s') :
    (∃ error, result = .error error ∧ Adds caller Event.isWrite s s') ∨
      ∃ s1 s2, Adds caller Event.isWrite s s1 ∧ Ran caller body s1 result s2 ∧
        Rely caller s2 s' := by
  obtain ⟨acquired, s1, hacquire, h⟩ := Program.runs_bind.mp h
  have hadds := acquire_adds hacquire
  cases acquired with
  | error error =>
    obtain ⟨rfl, rfl⟩ := Program.runs_done.mp h
    exact .inl ⟨error, rfl, hadds⟩
  | ok =>
    obtain ⟨result', s2, hbody, h⟩ := Program.runs_bind.mp h
    cases h with
    | call hrely hresponds hdone =>
      obtain ⟨rfl, rfl⟩ := Program.runs_done.mp hdone
      obtain ⟨hdisk, hlog⟩ := responds_lock (.inr rfl) hresponds
      exact .inr ⟨s1, s2, hadds, hbody,
        hrely.trans ⟨hdisk ▸ .refl _, own_of_log_eq hlog⟩⟩

theorem Verified.extend {s₁ : Device ι}
    (h : Verified caller codec slot credential envelope result s₁)
    (hafter : Adds caller Event.isWrite s₁ s') :
    Verified caller codec slot credential envelope result s' := by
  obtain ⟨id, header, s, hresult, hloaded, henrolled⟩ := h
  exact ⟨id, header, s, hresult, hloaded.extend hafter, henrolled⟩

/-- A call that needs a writable handle and the lock succeeds only as its body does. -/
theorem locked_ok {a : α}
    (h : Ran caller (do ensure (handle.writable = true) .readOnly; withLock body) s (.ok a) s') :
    ∃ s1 s2, Ran caller body s1 (.ok a) s2 ∧ Rely caller s2 s' := by
  obtain ⟨⟨⟩, s0, -, h⟩ := runs_bind_ok.mp h
  rcases withLock_runs h with ⟨error, hresult, -⟩ | ⟨s1, s2, -, hbody, hrely⟩
  · cases hresult
  · exact ⟨s1, s2, hbody, hrely⟩

theorem locked_plain (hbody : Plain caller error body) :
    Plain caller error (do ensure (handle.writable = true) .readOnly; withLock body) := by
  refine (reads_ensure _ _).plain_bind fun _ => ?_
  intro s s' h
  rcases withLock_runs h with ⟨_, -, hadds⟩ | ⟨s1, s2, hadds, hrun, hrely⟩
  · exact hadds.mono isEffective_of_isWrite
  · exact ((hadds.mono isEffective_of_isWrite).trans (hbody _ _ hrun)).trans hrely.adds

end Results

/-- One call of the adapter. -/
inductive Request where
  | add (handle : Luks2) (slot : UInt8) (old : Bytes) (new : Secret) (envelope : Bytes)
  | attach (handle : Luks2) (slot : UInt8) (credential : Secret) (envelope : Bytes)

namespace Request

/-- The slot of a request. -/
def slot : Request → UInt8
  | .add _ slot _ _ _ => slot
  | .attach _ slot _ _ => slot

/-- The credential that is to open the slot. -/
def credential : Request → Secret
  | .add _ _ _ new _ => new
  | .attach _ _ credential _ => credential

/-- The envelope of a request. -/
def envelope : Request → Bytes
  | .add _ _ _ _ envelope => envelope
  | .attach _ _ _ envelope => envelope

/-- The call of a request. -/
def program (codec : Codec) : Request → Call Int
  | .add handle slot old new envelope => addEnrollment codec handle slot old new envelope
  | .attach handle slot credential envelope =>
    attachEnrollment codec handle slot credential envelope

variable {ι : Type} [DecidableEq ι] {caller : ι} {codec : Codec} {s s' : Device ι}

theorem program_ok {request : Request} {result : Int}
    (h : Ran caller (request.program codec) s (.ok result) s') :
    Verified caller codec request.slot request.credential request.envelope result s' := by
  cases request with
  | add handle slot old new envelope =>
    obtain ⟨s1, s2, hbody, hrely⟩ := locked_ok h
    exact (addLocked_ok hbody).extend hrely.adds
  | attach handle slot credential envelope =>
    obtain ⟨s1, s2, hbody, hrely⟩ := locked_ok h
    exact (attachLocked_ok hbody).extend hrely.adds

theorem program_plain (request : Request) {error : Error} (herror : error.isPartial = false) :
    Plain caller error (request.program codec) := by
  cases request with
  | add handle slot old new envelope => exact locked_plain (addLocked_plain herror old new)
  | attach handle slot credential envelope =>
    exact locked_plain (attachLocked_plain herror credential)

end Request

/-- The write lock of a device, with the trace of all library calls. -/
def writeLock (ι : Type) : Lock ι Op Ans (Device ι) where
  kind
    | .setLock => .acquire
    | .unlock => .release
    | .cloneFile => .free
    | _ => .guarded
  granted
    | .setLock, answer => answer.isOk
    | _, _ => false
  holder s := s.lock
  trace s := s.log.map Prod.fst

theorem writeLock_kind {ι : Type} {op : Op} (h : op.appends = true) :
    (writeLock ι).kind op = .guarded ∨ (writeLock ι).kind op = .free := by
  cases op with
  | setLock | unlock => cases h
  | cloneFile => exact .inr rfl
  | _ => exact .inl rfl

/-- A recorded call appears in the trace, whatever it did to the header. -/
theorem writeLock_record {ι : Type} (s : Device ι) (disk : Header) (caller : ι) (event : Event) :
    (writeLock ι).trace ((s.withDisk disk).record caller event) =
        (writeLock ι).trace s ++ [caller] ∧
      (writeLock ι).holder ((s.withDisk disk).record caller event) = (writeLock ι).holder s := by
  refine ⟨?_, rfl⟩
  simp only [writeLock, Device.record, Device.withDisk, List.map_append, List.map_cons,
    List.map_nil]

/-- The device keeps the lock's discipline. -/
theorem writeLock_kept (ι : Type) : (writeLock ι).Kept responds Native where
  grants {i op s answer s'} hkind h := by
    cases op with
    | setLock =>
      rcases h with ⟨⟨error, rfl⟩, rfl⟩ | ⟨rfl, hfree, rfl⟩
      · exact ⟨rfl, rfl⟩
      · exact ⟨rfl, hfree, rfl⟩
    | _ => cases hkind
  releases {i op s answer s'} hkind h := by
    cases op with
    | unlock =>
      rcases h with rfl | ⟨hheld, rfl⟩
      · exact ⟨rfl, .inl rfl⟩
      · exact ⟨rfl, .inr ⟨hheld, rfl⟩⟩
    | _ => cases hkind
  records {i op s answer s'} hkind h := by
    cases op with
    | setLock | unlock | cloneFile => cases hkind
    | load =>
      rcases h with ⟨-, rfl⟩ | ⟨-, -, rfl⟩
      · exact writeLock_record s s.disk i _
      · exact writeLock_record s s.disk i _
    | keyslotAddByPassphrase =>
      rcases h with ⟨-, rfl⟩ | ⟨-, rfl⟩
      · exact writeLock_record s s.disk i _
      · exact writeLock_record s _ i _
    | tokenJsonSet context token json =>
      cases token with
      | none =>
        rcases h with ⟨-, rfl⟩ | ⟨id, -, -, -, rfl⟩
        · exact writeLock_record s s.disk i _
        · exact writeLock_record s _ i _
      | some id =>
        rcases h with ⟨-, rfl⟩ | rfl
        · exact writeLock_record s s.disk i _
        · exact writeLock_record s _ i _
    | syncAll | init | getMetadataSize | dumpJson =>
      rw [show s' = s.record i .checked from h]
      exact writeLock_record s s.disk i _
    | getUuid | keyslotStatus | activateByPassphrase | tokenJsonGet =>
      rw [show s' = s.record i .checked from h.2]
      exact writeLock_record s s.disk i _
  ignores {i op s answer s'} hkind h := by
    cases op with
    | cloneFile =>
      rw [show s' = s from h]
      exact ⟨rfl, rfl⟩
    | _ => cases hkind
  outside {s s'} h := by
    obtain ⟨hlog, hlock⟩ := h.log
    exact ⟨congrArg (List.map Prod.fst) hlog, hlock⟩

/-- A call takes the lock before it touches the device and ends when it has released it. -/
theorem before_locked {ι α : Type} {handle : Luks2} {body : Call α} (hbody : Appends body) :
    (writeLock ι).Before
      (do ensure (handle.writable = true) .readOnly; withLock body : Call α) := by
  have hinside : (writeLock ι).Inside (dropLock body) :=
    Lock.inside_bind _ (Program.All.mono (fun _ => writeLock_kind) hbody) fun result =>
      .release rfl fun _ => ⟨result, rfl⟩
  by_cases hwritable : handle.writable = true
  · rw [ensure, if_pos hwritable]
    refine .free rfl fun cloned => ?_
    cases cloned with
    | error error => exact .done _
    | ok =>
      refine .acquire rfl (fun answer hanswer => ?_) fun answer hanswer => ?_
      · cases answer with
        | error error => cases hanswer
        | ok => exact hinside
      · cases answer with
        | error error => exact .done _
        | ok => cases hanswer
  · rw [ensure, if_neg hwritable]
    exact .done _

theorem Request.before_program {ι : Type} (codec : Codec) (request : Request) :
    (writeLock ι).Before (request.program codec) := by
  cases request with
  | add handle slot old new envelope => exact before_locked (appends_addLocked ..)
  | attach handle slot credential envelope => exact before_locked (appends_attachLocked ..)

/-- The calls of a request append, apart from those on the lock. -/
def Op.enrolls (op : Op) : Prop := op.appends = true ∨ op = .setLock ∨ op = .unlock

/-- A locked body enrolls. -/
theorem enrolls_locked {α : Type} {handle : Luks2} {body : Call α} (hbody : Appends body) :
    (do ensure (handle.writable = true) .readOnly; withLock body : Call α).All Op.enrolls := by
  refine all_bind (all_ofResult _) fun _ => all_bind ?_ fun _ => ?_
  · exact all_bind (Program.All.mono (fun _ h => .inl (Op.appends_of_reads h)) reads_tryClone)
      fun _ => all_bind (all_perform (.inr (.inl rfl))) fun _ => all_ofResult _
  · exact Program.All.bind (Program.All.mono (fun _ => .inl) hbody)
      fun _ => ⟨.inr (.inr rfl), fun _ => trivial⟩

/-- Every request enrolls. -/
theorem Request.enrolls_program (codec : Codec) (request : Request) :
    (request.program codec).All Op.enrolls := by
  cases request with
  | add handle slot old new envelope => exact enrolls_locked (appends_addLocked ..)
  | attach handle slot credential envelope => exact enrolls_locked (appends_attachLocked ..)

section System

variable {ι : Type} [DecidableEq ι]

/-- A device with its callers. -/
abbrev Calls (ι : Type) := System ι Op Ans (Except Error Int) (Device ι)

/-- The requests on a device before the first call. -/
def start (codec : Codec) (requests : ι → Request) (disk : Header) : Calls ι :=
  ⟨fun i => (requests i).program codec, ⟨disk, none, []⟩⟩

theorem calls_within {c c' : Calls ι} (hall : ∀ i, (c.programs i).All Op.enrolls)
    (h : System.Reaches responds Native c c') :
    c.state.disk.Within c'.state.disk ∧ ∀ i, (c'.programs i).All Op.enrolls :=
  System.Reaches.relates (T := fun s s' => s.disk.Within s'.disk) (fun _ => .refl _)
    Header.Within.trans Native.within (fun hop hresponds => (responds_keeps hop hresponds).1) hall h

/-- A finished call of a system is a run among native writers and the other calls. -/
theorem calls_run {codec : Codec} {requests : ι → Request} {disk : Header} {c : Calls ι}
    (h : System.Reaches responds Native (start codec requests disk) c) {i : ι}
    {result : Except Error Int} (hdone : c.programs i = .done result) :
    ∃ s, Ran i ((requests i).program codec) ⟨disk, none, []⟩ result s ∧ Rely i s c.state := by
  refine System.Reaches.project Rely.refl Rely.trans ?_ ?_
    (fun j => (requests j).enrolls_program codec) h hdone
  · intro s s' hnative
    exact ⟨hnative.within, own_of_log_eq hnative.log.1⟩
  · intro j op s answer s' hji hop hresponds
    obtain ⟨hwithin, hlog⟩ := responds_keeps hop hresponds
    refine ⟨hwithin, ?_⟩
    rcases hlog with hlog | ⟨event, hlog⟩
    · exact own_of_log_eq hlog
    · rw [own_of_log_concat hlog, if_neg hji]

/-- However calls interleave with each other and with native writers, and whatever fails: nothing on
the device is removed or replaced, a success was read back after its last write, and an error that
is not partial has written nothing. -/
theorem enrollment_truthful (codec : Codec) (requests : ι → Request) (disk : Header) (c : Calls ι)
    (h : System.Reaches responds Native (start codec requests disk) c) :
    (∀ c', System.Reaches responds Native c c' → c.state.disk.Within c'.state.disk) ∧
    (∀ i result, c.programs i = .done (.ok result) → ∃ (id : UInt8) (header : Header)
      (before after : List Event), result = id.toNat ∧
        c.state.own i = before ++ .loaded header :: after ∧
        (∀ event ∈ after, event.isWrite = false) ∧
        Enrolled codec header id (requests i).slot (requests i).credential (requests i).envelope) ∧
    (∀ i error, c.programs i = .done (.error error) → error.isPartial = false →
      ∀ event ∈ c.state.own i, event.isEffective = false) ∧
    Lock.Consecutive (c.state.log.map Prod.fst) := by
  have hall := (calls_within (fun i => (requests i).enrolls_program codec) h).2
  refine ⟨fun c' hreach => (calls_within hall hreach).1, fun i result hdone => ?_,
    fun i error hdone herror => ?_, ?_⟩
  · obtain ⟨s, hrun, hrely⟩ := calls_run h hdone
    obtain ⟨id, header, _, hresult, hloaded, henrolled⟩ :=
      (Request.program_ok hrun).extend hrely.adds
    obtain ⟨before, after, hown, hafter⟩ := hloaded.own
    exact ⟨id, header, before, after, hresult, hown, hafter, henrolled⟩
  · obtain ⟨s, hrun, hrely⟩ := calls_run h hdone
    obtain ⟨events, hown, hevents⟩ := (Request.program_plain _ herror _ _ hrun).own
    rw [hrely.own, hown]
    exact hevents
  · exact (writeLock_kept ι).consecutive (fun i => (requests i).before_program codec) rfl rfl h

end System

section Reliable

variable {ι : Type} [DecidableEq ι]

/-- The first slot that the passphrase opens, among all or the given one. -/
def openedSlot (context : Header) (slot : Option UInt8) (passphrase : Bytes) : Option UInt8 :=
  tokenIds.find? fun candidate =>
    context.slots candidate = some passphrase ∧ slot.all (· = candidate)

/-- Every call succeeds if the header allows it. -/
def reliable (caller : ι) : (op : Op) → Device ι → Ans op × Device ι
  | .cloneFile, s => (.ok (), s)
  | .setLock, s =>
    match s.lock with
    | none => (.ok (), { s with lock := some caller })
    | some _ => (.error ⟨some 11⟩, s)
  | .unlock, s => ((), if s.lock = some caller then { s with lock := none } else s)
  | .syncAll, s => (.ok (), s.record caller .checked)
  | .init, s => ((0, true), s.record caller .checked)
  | .load, s => ((0, s.disk), s.record caller (.loaded s.disk))
  | .getUuid context, s => (some context.uuid, s.record caller .checked)
  | .keyslotStatus context slot, s =>
    (if context.slots slot = none then slotInactive else 2, s.record caller .checked)
  | .activateByPassphrase context _ slot passphrase, s =>
    (match openedSlot context slot passphrase with
      | some opened => (opened.toNat : Int)
      | none => -1, s.record caller .checked)
  | .getMetadataSize _, s => ((0, 16384), s.record caller .checked)
  | .dumpJson _, s => ((0, .text "metadata"), s.record caller .checked)
  | .keyslotAddByPassphrase _ slot _ new, s =>
    if s.disk.slots slot = none then (slot.toNat,
      (s.withDisk (s.disk.putSlot slot new)).record caller (.slotAdd true))
    else (-1, s.record caller (.slotAdd false))
  | .tokenJsonSet _ none json, s =>
    match tokenIds.find? fun id => s.disk.tokens id = none with
    | some id => (id.toNat, (s.withDisk (s.disk.putToken id json)).record caller (.tokenSet true))
    | none => (-1, s.record caller (.tokenSet false))
  | .tokenJsonSet _ (some id) json, s =>
    (id.toNat, (s.withDisk (s.disk.putToken id json)).record caller (.tokenSet true))
  | .tokenJsonGet context token, s =>
    (match context.tokens token with
      | some text => (0, .text text)
      | none => (-1, .null), s.record caller .checked)

theorem openedSlot_eq_some {context : Header} {slot : Option UInt8} {passphrase : Bytes}
    {opened : UInt8} (h : openedSlot context slot passphrase = some opened) :
    context.slots opened = some passphrase := by
  have hfound := List.find?_some h
  exact (of_decide_eq_true hfound).1

/-- The reliable device is one behaviour of the device. -/
theorem reliable_responds (caller : ι) (op : Op) (s : Device ι) :
    responds caller op s (reliable caller op s).1 (reliable caller op s).2 := by
  cases op with
  | cloneFile | syncAll | init | getMetadataSize | dumpJson => rfl
  | load => exact .inr ⟨Int.le_refl 0, rfl, rfl⟩
  | getUuid context => exact ⟨fun uuid h => (Option.some.inj h).symm, rfl⟩
  | setLock =>
    cases hlock : s.lock with
    | none =>
      simp only [reliable, hlock]
      exact .inr ⟨rfl, hlock, rfl⟩
    | some holder =>
      simp only [reliable, hlock]
      exact .inl ⟨⟨_, rfl⟩, rfl⟩
  | unlock =>
    by_cases hlock : s.lock = some caller
    · simp only [reliable, if_pos hlock]
      exact .inr ⟨hlock, rfl⟩
    · simp only [reliable, if_neg hlock]
      exact .inl rfl
  | keyslotStatus context slot =>
    refine ⟨fun h => ?_, rfl⟩
    by_contra hslot
    simp only [reliable, if_neg hslot] at h
    cases h
  | activateByPassphrase context name slot passphrase =>
    refine ⟨fun candidate h => ?_, rfl⟩
    cases hopened : openedSlot context slot passphrase with
    | none =>
      simp only [reliable, hopened] at h
      change (-1 : Int) = candidate.toNat at h
      omega
    | some opened =>
      simp only [reliable, hopened, Int.natCast_inj] at h
      rw [← UInt8.toNat_inj.mp h]
      exact openedSlot_eq_some hopened
  | keyslotAddByPassphrase context slot old new =>
    by_cases hslot : s.disk.slots slot = none
    · simp only [reliable, if_pos hslot]
      exact .inr ⟨hslot, rfl⟩
    · simp only [reliable, if_neg hslot]
      exact .inl ⟨Int.negSucc_lt_zero 0, rfl⟩
  | tokenJsonSet context token json =>
    cases token with
    | some id => exact .inr rfl
    | none =>
      cases hfree : tokenIds.find? fun id => s.disk.tokens id = none with
      | none =>
        simp only [reliable, hfree]
        exact .inl ⟨Int.negSucc_lt_zero 0, rfl⟩
      | some id =>
        have hfound := List.find?_some hfree
        simp only [reliable, hfree]
        exact .inr ⟨id, mem_tokenIds.mp (List.mem_of_find?_eq_some hfree),
          of_decide_eq_true hfound, .inr rfl, rfl⟩
  | tokenJsonGet context token =>
    refine ⟨fun hcode text h => ?_, rfl⟩
    cases htoken : context.tokens token with
    | none =>
      simp only [reliable, htoken] at hcode
      change (0 : Int) ≤ -1 at hcode
      omega
    | some stored =>
      simp only [reliable, htoken] at h
      rw [CText.text.inj h]

end Reliable

namespace Library

variable {codec : Codec}

/-- The printed header and its terminator fit into their area. -/
def room (library : Library codec) (header : Header) : Bool :=
  match availableOf library.region with
  | .ok available => (library.dump header).utf8ByteSize + 1 ≤ available
  | .error _ => false

/-- A library whose calls succeed if the header and the room allow it. -/
def answer (library : Library codec) : (op : Op) → Device Unit → Ans op × Device Unit
  | .getMetadataSize _, s => ((0, library.region), s.record () .checked)
  | .dumpJson context, s => ((0, .text (library.dump context)), s.record () .checked)
  | .tokenJsonSet context none json, s =>
    -- ENOSPC
    if (freeId s.disk).all fun id => library.room (s.disk.putToken id json) then
      reliable () (.tokenJsonSet context none json) s
    else (-28, s.record () (.tokenSet false))
  | op, s => reliable () op s

theorem answer_responds (library : Library codec) (op : Op) (s : Device Unit) :
    Luks.responds () op s (library.answer op s).1 (library.answer op s).2 := by
  cases op with
  | getMetadataSize context => rfl
  | dumpJson context => rfl
  | tokenJsonSet context token json =>
    cases token with
    | some id => exact reliable_responds () (.tokenJsonSet context (some id) json) s
    | none =>
      rw [answer]
      split_ifs
      · exact reliable_responds () (.tokenJsonSet context none json) s
      · exact .inl ⟨(by decide : (-28 : Int) < 0), rfl⟩
  | _ => exact reliable_responds () _ s

end Library

/-- A device with a recovery passphrase in its first slot. -/
def recoveryDisk : Header where
  uuid := Vector.replicate 16 2
  slots := Function.update (fun _ => none) 0 (some [1])
  tokens _ := none

/-- A request to enroll beside the recovery slot. -/
def recoveryRequest : Request :=
  .add ⟨recoveryDisk, recoveryDisk.uuid, true⟩ 1 [1] (Vector.replicate 32 5) [7]

/-- An enrollment beside a recovery slot succeeds and is read back. -/
theorem enrollment_truthful_recovery : ∃ c : Calls Unit,
    System.Reaches responds Native (start serde (fun _ => recoveryRequest) recoveryDisk) c ∧
    c.programs () = .done (.ok 0) ∧ recoveryDisk.Within c.state.disk ∧
    ∃ header, Enrolled serde header 0 1 (Vector.replicate 32 5) [7] ∧
      .loaded header ∈ c.state.own () := by
  have hreach : System.Reaches responds Native
      (start serde (fun _ : Unit => recoveryRequest) recoveryDisk) _ :=
    System.reaches_runWith (compact 16384).answer_responds _
  have hresult : ((recoveryRequest.program serde).runWith (compact 16384).answer
      ⟨recoveryDisk, none, []⟩).1 = .ok 0 := by
    decide +kernel
  generalize hc : (System.mk _ _ : Calls Unit) = c at hreach
  have hdone : c.programs () = .done (.ok 0) := by
    rw [← hc]
    simp only [Function.update_self]
    exact congrArg Program.done hresult
  obtain ⟨-, hok, -⟩ := enrollment_truthful _ _ _ c hreach
  obtain ⟨id, header, before, after, hid, hown, -, henrolled⟩ := hok () 0 hdone
  have hzero : id = 0 := UInt8.toNat_inj.mp (Int.natCast_inj.mp hid.symm)
  have hwithin := (enrollment_truthful _ _ _ _ .refl).1 c hreach
  refine ⟨c, hreach, hdone, hwithin, header, hzero ▸ henrolled, ?_⟩
  rw [hown]
  exact List.mem_append_right _ List.mem_cons_self

end Leelo.Luks
