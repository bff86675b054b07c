import Leelo.Luks.Safety

/-!
# The preflight of an enrollment is sufficient

Enrollment plans its token before it adds the keyslot, with a reserve for the slot. Under a
library that reports truthfully and without another writer, the second plan repeats the first,
and the token that is then written fits. An enrollment that fails for want of an identifier or
of room has written nothing.
-/

namespace Leelo.Luks

open Leelo.Core Leelo.Core.Fallible
open Leelo.Sss (Secret)

variable {codec : Codec}

section Behaviour

variable {ι : Type}

/-- What a library says about metadata when it succeeds, and what a lack of room means. -/
def Library.Truthful (library : Library codec) : (op : Op) → Device ι → Ans op → Prop
  | .getMetadataSize _, _, (code, region) => 0 ≤ code → region = library.region
  | .dumpJson context, _, (code, json) => 0 ≤ code → json = .text (library.dump context)
  | .tokenJsonSet _ none json, s, code =>
    library.full code → ∀ id < slotCount, s.disk.tokens id = none →
      ¬library.Fits (s.disk.putToken id json)
  | _, _, _ => True

/-- The behaviour of the device under a library that tells the truth. -/
def Library.responds (library : Library codec) (caller : ι) :
    Program.Behaviour Op Ans (Device ι) := fun op s answer s' =>
  Luks.responds caller op s answer s' ∧ library.Truthful op s answer

/-- A run without other writers. -/
abbrev Library.Ran {α : Type} (library : Library codec) (caller : ι) (x : Call α)
    (s : Device ι) (result : Except Error α) (s' : Device ι) : Prop :=
  Fallible.Runs (library.responds caller) Eq x s result s'

end Behaviour

/-- Headers that hold each other's contents are the same. -/
theorem Header.Within.antisymm {a b : Header} (h : a.Within b) (h' : b.Within a) : a = b := by
  have hsame {β : Type} {f g : UInt8 → Option β} (hfg : ∀ x y, f x = some y → g x = some y)
      (hgf : ∀ x y, g x = some y → f x = some y) : f = g := by
    funext x
    cases hf : f x with
    | some y => rw [hfg x y hf]
    | none =>
      cases hg : g x with
      | none => rfl
      | some y => rw [← hf, hgf x y hg]
  obtain ⟨uuid, slots, tokens⟩ := a
  obtain ⟨uuid', slots', tokens'⟩ := b
  obtain rfl : uuid' = uuid := h.uuid
  obtain rfl : slots = slots' := hsame h.slots h'.slots
  obtain rfl : tokens = tokens' := hsame h.tokens h'.tokens
  rfl

section Runs

variable {ι : Type} {library : Library codec} {caller : ι} {s s' : Device ι}
  {handle fresh : Luks2} {slot : UInt8} {envelope : Bytes} {α : Type}

/-- The call changes nothing on the device. -/
def Op.isQuiet (op : Op) : Prop := op.reads = true ∨ op = .setLock ∨ op = .unlock

/-- A call that reads is quiet. -/
theorem Reads.quiet {x : Call α} (hx : Reads x) : x.All Op.isQuiet :=
  Program.All.mono (fun _ => .inl) hx

/-- A quiet call leaves the header. -/
theorem Library.Ran.disk_eq {x : Call α} (hx : x.All Op.isQuiet) {result : Except Error α}
    (h : library.Ran caller x s result s') : s'.disk = s.disk := by
  have htrans {a b c : Device ι} (h : b.disk = a.disk) (h' : c.disk = b.disk) :
      c.disk = a.disk := h'.trans h
  refine Program.Runs.relates (T := fun a b => b.disk = a.disk) (fun _ => rfl) htrans
    (fun heq => by rw [heq]) ?_ hx h
  intro op s answer s' hop hresponds
  rcases hop with hop | hop
  · exact (responds_reads hop hresponds.1).1
  · exact (responds_lock hop hresponds.1).1

/-- The error of a getter of metadata. -/
def Getter (error : Error) : Prop :=
  ∃ operation code, error = .cryptsetup operation code ∧ operation ≠ "write token"

theorem getter_of_checked {operation : String} {code : Int} {error : Error}
    (hoperation : operation ≠ "write token") (h : checked operation code = .error error) :
    Getter error := by
  unfold checked at h
  split_ifs at h with hcode
  obtain rfl := Except.error.inj h
  exact ⟨operation, code, rfl, hoperation⟩

/-- Metadata is read as the library reports it, or a getter fails. -/
theorem Library.Ran.metadata {result : Except Error (Metadata codec)}
    (h : library.Ran caller (metadata codec handle) s result s') :
    result = library.metadataOf handle.context ∨ ∃ error, result = .error error ∧ Getter error := by
  unfold Luks.metadata at h
  obtain ⟨e, -, hsize⟩ | ⟨⟨code, region⟩, s1, hsize, h⟩ := runs_bind_cases h
  · obtain ⟨_, _, hanswer, -⟩ := runs_perform.mp hsize
    cases hanswer
  obtain ⟨answer, _, hanswer, -, -, hregion⟩ := runs_perform.mp hsize
  obtain rfl := Except.ok.inj hanswer
  obtain ⟨e, rfl, hchecked⟩ | ⟨_, s2, hchecked, h⟩ := runs_bind_cases h
  · exact .inr ⟨e, rfl, getter_of_checked (by decide) (runs_ofResult.mp hchecked).1.symm⟩
  obtain ⟨hnonneg, -⟩ := checked_eq_ok (runs_ofResult.mp hchecked).1.symm
  obtain rfl : region = library.region := hregion hnonneg
  obtain ⟨e, rfl, havailable⟩ | ⟨available, s3, havailable, h⟩ := runs_bind_cases h
  · left
    rw [Library.metadataOf, ← (runs_ofResult.mp havailable).1, error_bind]
  have havailable := (runs_ofResult.mp havailable).1.symm
  obtain ⟨e, -, hdump⟩ | ⟨⟨code', json⟩, s4, hdump, h⟩ := runs_bind_cases h
  · obtain ⟨_, _, hanswer, -⟩ := runs_perform.mp hdump
    cases hanswer
  obtain ⟨answer, _, hanswer, -, -, hjson⟩ := runs_perform.mp hdump
  obtain rfl := Except.ok.inj hanswer
  obtain ⟨e, rfl, hchecked⟩ | ⟨_, s5, hchecked, h⟩ := runs_bind_cases h
  · exact .inr ⟨e, rfl, getter_of_checked (by decide) (runs_ofResult.mp hchecked).1.symm⟩
  obtain ⟨hnonneg, -⟩ := checked_eq_ok (runs_ofResult.mp hchecked).1.symm
  obtain rfl : json = .text (library.dump handle.context) := hjson hnonneg
  left
  obtain ⟨e, rfl, hparsed⟩ | ⟨⟨parsed, bytes⟩, s6, hparsed, h⟩ := runs_bind_cases h
  · rw [Library.metadataOf, havailable, ok_bind, ← (runs_ofResult.mp hparsed).1, error_bind]
  · rw [Library.metadataOf, havailable, ok_bind, ← (runs_ofResult.mp hparsed).1, ok_bind]
    exact (runs_pure.mp h).1

/-- So is a plan made. -/
theorem Library.Ran.tokenPlan {addingSlot : Bool} {result : Except Error (UInt8 × String)}
    (h : library.Ran caller (tokenPlan codec handle slot envelope addingSlot) s result s') :
    result = library.plan handle.context slot envelope addingSlot ∨
      ∃ error, result = .error error ∧ Getter error := by
  unfold Luks.tokenPlan at h
  obtain ⟨e, rfl, hjson⟩ | ⟨json, s1, hjson, h⟩ := runs_bind_cases h
  · left
    rw [Library.plan, ← (runs_ofResult.mp hjson).1, error_bind]
  have hjson := (runs_ofResult.mp hjson).1.symm
  obtain ⟨e, rfl, hmetadata⟩ | ⟨metadata, s2, hmetadata, h⟩ := runs_bind_cases h
  · rcases Library.Ran.metadata hmetadata with hreported | hfailed
    · left
      rw [Library.plan, hjson, ok_bind, ← hreported, error_bind]
    · obtain ⟨error, herror, hgetter⟩ := hfailed
      cases herror
      exact .inr ⟨e, rfl, hgetter⟩
  rcases Library.Ran.metadata hmetadata with hreported | ⟨_, herror, -⟩
  · left
    rw [Library.plan, hjson, ok_bind, ← hreported, ok_bind]
    obtain ⟨e, rfl, htokens⟩ | ⟨tokens, s3, htokens, h⟩ := runs_bind_cases h
    · rw [← (runs_ofResult.mp htokens).1, error_bind]
    · rw [← (runs_ofResult.mp htokens).1, ok_bind]
      exact (runs_ofResult.mp h).1
  · cases herror

variable [DecidableEq ι]

/-- Such a run is one among native writers and other callers. -/
theorem Library.Ran.ran {x : Call α} {result : Except Error α}
    (h : library.Ran caller x s result s') : Luks.Ran caller x s result s' := by
  have hresponds : Fallible.Runs (Luks.responds caller) Eq x s result s' :=
    Program.Runs.weaken (fun hboth => hboth.1) h
  refine Program.Runs.mono (fun heq => ?_) hresponds
  rw [heq]
  exact Rely.refl _

/-- A reload returns the header of the device. -/
theorem Library.Ran.reload (h : library.Ran caller (reload handle) s (.ok fresh) s') :
    fresh.context = s.disk ∧ s'.disk = s.disk := by
  have hdisk := Library.Ran.disk_eq (reads_reload handle).quiet h
  obtain ⟨hbefore, hafter⟩ := (reload_ok (Library.Ran.ran h)).within
  rw [hdisk] at hafter
  exact ⟨hafter.antisymm hbefore, hdisk⟩

end Runs

/-- The error below its stages. -/
def Error.root : Error → Error
  | .partialEnrollment _ _ source => source.root
  | error => error

/-- The error says that there is no identifier or no room for a token. -/
def Library.Lacks (library : Library codec) (error : Error) : Prop :=
  error.root = .noTokenSpace ∨
    (∃ required available, error.root = .metadataSpace required available) ∨
    ∃ code, error.root = .cryptsetup "write token" code ∧ library.full code

section Lacks

variable {library : Library codec} {error : Error}

/-- Errors of another kind than those of a plan or of a token write. -/
def Error.isOther (error : Error) : Bool :=
  match error.root with
  | .noTokenSpace => false
  | .metadataSpace .. => false
  | .cryptsetup operation _ => operation != "write token"
  | _ => true

theorem not_lacks_of_isOther (h : error.isOther = true) : ¬library.Lacks error := by
  rintro (hid | ⟨required, available, hspace⟩ | ⟨code, hcode, -⟩)
  · rw [Error.isOther, hid] at h
    cases h
  · rw [Error.isOther, hspace] at h
    cases h
  · rw [Error.isOther, hcode] at h
    cases h

theorem Getter.isOther (h : Getter error) : error.isOther = true := by
  obtain ⟨operation, code, rfl, hoperation⟩ := h
  exact bne_iff_ne.mpr hoperation

end Lacks

section Others

/-- The call fails only with errors that are not about space. -/
abbrev Others {α : Type} (x : Call α) : Prop := x.Errors fun error => error.isOther = true

variable (handle : Luks2) (slot : UInt8) {operation : String} {code : Int}

theorem others_ensure (condition : Prop) [Decidable condition] {error : Error}
    (h : error.isOther = true) : Others (ensure condition error) := by
  refine errors_ofResult fun e he => ?_
  split_ifs at he
  obtain rfl := Except.error.inj he
  exact h

theorem others_checked (hoperation : operation ≠ "write token") :
    Others (ofResult (checked operation code)) :=
  errors_ofResult fun _ he => (getter_of_checked hoperation he).isOther

theorem others_staged {α : Type} {x : Call α} (hx : Others x) (stage : String) :
    Others (mapError (partialError slot stage) x) := Errors.mapError hx

theorem others_io {α : Type} (answer : Except IoError α) :
    Others (ofResult (answer.mapError Error.io)) := by
  refine errors_ofResult fun e he => ?_
  cases answer with
  | ok a => cases he
  | error io =>
    obtain rfl := Except.error.inj he
    rfl

theorem others_syncAll : Others syncAll := errors_bind (errors_perform _) fun _ => others_io _

theorem others_fromFile (writable : Bool) : Others (fromFile writable) := by
  refine errors_bind (errors_perform _) fun _ =>
    errors_bind (others_checked (by decide)) fun _ => ?_
  refine errors_bind (others_ensure _ rfl) fun _ => errors_bind (errors_perform _) fun _ => ?_
  refine errors_bind (others_checked (by decide)) fun _ => ?_
  refine errors_bind (errors_perform _) fun uuid => ?_
  cases uuid with
  | none => exact errors_ofResult fun e he => by cases he; rfl
  | some uuid => exact errors_pure _

theorem others_reload : Others (reload handle) :=
  errors_bind (errors_bind (errors_perform _) fun _ => others_io _) fun _ =>
    errors_bind (others_fromFile _) fun _ =>
    errors_bind (others_ensure _ rfl) fun _ => errors_pure _

theorem others_activateInner (slot : Option UInt8) (credential : Bytes)
    (mapping : Option String) : Others (activateInner handle slot credential mapping) := by
  refine errors_bind (others_ensure _ rfl) fun _ => errors_bind (others_ensure _ rfl) fun _ => ?_
  refine errors_bind (errors_perform _) fun code => errors_ofResult fun e he => ?_
  rcases bind_eq_error.mp he with he | ⟨result, -, he⟩
  · exact (getter_of_checked (by decide) he).isOther
  · cases hoctet : octetOfInt result with
    | none =>
      rw [hoctet] at he
      cases he
      rfl
    | some actual =>
      rw [hoctet] at he
      dsimp only at he
      split_ifs at he
      cases he
      rfl

theorem others_slotAddFailure (code : Int) : Others (slotAddFailure handle slot code) := by
  refine errors_bind errors_attempt fun status => ?_
  by_cases h : status = .ok slotInactive
  · rw [if_pos h]
    exact errors_ofResult fun e he => by cases he; rfl
  · rw [if_neg h]
    exact errors_ofResult fun e he => by cases he; rfl

variable (codec)

theorem others_decodeToken (json : String) : Others (ofResult (decodeToken codec json)) := by
  refine errors_ofResult fun e he => ?_
  rw [eq_invalidToken_of_decodeToken he]
  rfl

theorem others_cachedToken (id : UInt8) : Others (cachedToken codec handle id) := by
  refine errors_bind (others_ensure _ rfl) fun _ => errors_bind (errors_perform _) fun answer => ?_
  refine errors_bind (others_checked (by decide)) fun _ => ?_
  cases answer.2 with
  | null => exact errors_ofResult fun e he => by cases he; rfl
  | invalidUtf8 => exact errors_ofResult fun e he => by cases he; rfl
  | text text => exact others_decodeToken codec text

theorem others_verifyPersisted (id : UInt8) (credential : Secret) (envelope : Bytes) :
    Others (verifyPersisted codec handle id slot credential envelope) :=
  errors_bind (others_reload handle) fun fresh =>
    errors_bind (others_cachedToken codec fresh id) fun _ =>
    errors_bind (others_ensure _ rfl) fun _ =>
    errors_bind (others_activateInner fresh _ _ _) fun _ => errors_pure _

theorem others_metadata : Others (metadata codec handle) := by
  refine errors_bind (errors_perform _) fun size =>
    errors_bind (others_checked (by decide)) fun _ => ?_
  refine errors_bind (errors_ofResult fun e he => ?_) fun _ => ?_
  · unfold availableOf at he
    split_ifs at he
    cases he
    rfl
  refine errors_bind (errors_perform _) fun dump =>
    errors_bind (others_checked (by decide)) fun _ => ?_
  refine errors_bind (errors_ofResult fun e he => ?_) fun _ => errors_pure _
  cases hdump : dump.2 with
  | null =>
    rw [hdump] at he
    cases he
    rfl
  | invalidUtf8 =>
    rw [hdump] at he
    cases he
    rfl
  | text json =>
    rw [hdump, parseJson] at he
    split at he
    · cases he
    · cases he
      rfl

theorem others_tokens (metadata : Metadata codec) : Others (ofResult metadata.tokens) := by
  refine errors_ofResult fun e he => ?_
  unfold Metadata.tokens at he
  split at he
  · cases he
  · cases he
    rfl

theorem others_findToken (tokens : List (String × codec.Value)) (envelope : Bytes)
    (ids : List UInt8) : Others (ofResult (findToken codec tokens slot envelope ids)) := by
  refine errors_ofResult fun e he => ?_
  induction ids with
  | nil => cases he
  | cons id ids ih =>
    unfold findToken at he
    split at he
    · exact ih he
    · split at he
      · cases he
        rfl
      · split at he
        · split_ifs at he
          exact ih he
        · exact ih he

end Others

section Enrollment

variable {ι : Type} {library : Library codec} {caller : ι} {s s' : Device ι} {handle : Luks2}
  {slot : UInt8} {envelope : Bytes} {error : Error}

theorem Others.not_lacks {α : Type} {x : Call α} (hx : Others x)
    (h : library.Ran caller x s (.error error) s') : ¬library.Lacks error := by
  have hother := Fallible.Runs.errors h hx
  exact not_lacks_of_isOther hother

/-- A planned token write is not refused for want of room. -/
theorem writeToken_not_lacks {credential : Secret} {id : UInt8} {json : String}
    (hid : id < slotCount) (hfree : s.disk.tokens id = none)
    (hfits : library.Fits (s.disk.putToken id json))
    (h : library.Ran caller (writeToken codec handle slot credential envelope id json) s
      (.error error) s') : ¬library.Lacks error := by
  unfold writeToken at h
  rcases runs_bind_error.mp h with h | ⟨code, s1, hset, h⟩
  · obtain ⟨_, _, hanswer, -⟩ := runs_perform.mp h
    cases hanswer
  obtain ⟨answer, _, hanswer, rfl, -, hfull⟩ := runs_perform.mp hset
  obtain rfl := Except.ok.inj hanswer
  rcases runs_bind_error.mp h with h | ⟨result, s2, -, h⟩
  · have hcode := (runs_ofResult.mp h).1
    unfold checked at hcode
    split_ifs at hcode with hneg
    · obtain rfl := Except.error.inj hcode
      rintro (hroot | ⟨_, _, hroot⟩ | ⟨code', hroot, hlacks⟩)
      · cases hroot
      · cases hroot
      · obtain ⟨-, rfl⟩ := Error.cryptsetup.inj hroot
        exact hfull hlacks id hid hfree hfits
    · cases hcode
  · have hothers : Others (do
        ensure (result = id.toNat) (partialError slot "token identity" .metadataChanged)
        mapError (partialError slot "token sync") syncAll
        mapError (partialError slot "token readback")
          (verifyPersisted codec handle id slot credential envelope)
        pure result) :=
      errors_bind (others_ensure _ rfl) fun _ =>
        errors_bind (others_staged slot others_syncAll _) fun _ =>
        errors_bind (others_staged slot (others_verifyPersisted codec handle slot id credential
          envelope) _) fun _ => errors_pure _
    exact hothers.not_lacks h

variable [DecidableEq ι]

/-- Attachment does not fail for want of space where the plan stands. -/
theorem attachLocked_not_lacks (hreports : library.Reports) {credential : Secret} {id : UInt8}
    {json : String} (hplan : library.plan s.disk slot envelope false = .ok (id, json))
    (hfits : library.Fits (s.disk.putToken id json))
    (h : library.Ran caller (attachLocked codec handle slot credential envelope) s
      (.error error) s') : ¬library.Lacks error := by
  obtain ⟨-, hfree, -⟩ := (Library.plan_eq_ok hreports).mp hplan
  obtain ⟨hid, hnone⟩ := Library.freeId_eq_some hfree
  unfold attachLocked at h
  rcases runs_bind_error.mp h with h | ⟨fresh, s1, hreload, h⟩
  · exact (others_reload handle).not_lacks h
  obtain ⟨hcontext, hdisk1⟩ := Library.Ran.reload hreload
  rcases runs_bind_error.mp h with h | ⟨actual, s2, hactivate, h⟩
  · exact (others_activateInner fresh _ _ _).not_lacks h
  have hdisk2 := Library.Ran.disk_eq (reads_activateInner fresh _ _ _).quiet hactivate
  rcases runs_bind_error.mp h with h | ⟨metadata, s3, hmetadata, h⟩
  · exact (others_metadata codec fresh).not_lacks h
  have hdisk3 := Library.Ran.disk_eq (reads_metadata codec fresh).quiet hmetadata
  rcases runs_bind_error.mp h with h | ⟨tokens, s4, htokens, h⟩
  · exact (others_tokens codec metadata).not_lacks h
  have hdisk4 := Library.Ran.disk_eq (all_ofResult _) htokens
  rcases runs_bind_error.mp h with h | ⟨found, s5, hfound, h⟩
  · exact (others_findToken codec slot tokens _ _).not_lacks h
  have hdisk5 := Library.Ran.disk_eq (all_ofResult _) hfound
  have hdisk : s5.disk = s.disk :=
    hdisk5.trans (hdisk4.trans (hdisk3.trans (hdisk2.trans hdisk1)))
  cases found with
  | some id' =>
    have hothers : Others (do
        verifyPersisted codec fresh id' slot credential envelope
        pure (id'.toNat : Int)) :=
      errors_bind (others_verifyPersisted codec fresh slot id' credential envelope)
        fun _ => errors_pure _
    exact hothers.not_lacks h
  | none =>
    rcases runs_bind_error.mp h with h | ⟨plan, s6, hplan', h⟩
    · rcases Library.Ran.tokenPlan h with hresult | ⟨_, hresult, hgetter⟩
      · rw [hcontext, hplan] at hresult
        cases hresult
      · obtain rfl := Except.error.inj hresult
        exact not_lacks_of_isOther hgetter.isOther
    · have hdisk6 := Library.Ran.disk_eq (reads_tokenPlan codec fresh slot envelope false).quiet
        hplan'
      rcases Library.Ran.tokenPlan hplan' with hresult | ⟨_, hresult, -⟩
      · rw [hcontext, hplan] at hresult
        obtain rfl := Except.ok.inj hresult
        rw [← hdisk, ← hdisk6] at hnone hfits
        exact writeToken_not_lacks hid hnone hfits h
      · cases hresult

/-- The device is as it was and the caller tried no write. -/
structure Untouched (caller : ι) (s s' : Device ι) : Prop where
  disk : s'.disk = s.disk
  events : Adds caller Event.isWrite s s'

theorem Reads.untouched {α : Type} {x : Call α} (hx : Reads x) {result : Except Error α}
    (h : library.Ran caller x s result s') : Untouched caller s s' :=
  ⟨Library.Ran.disk_eq hx.quiet h, Reads.adds hx (Library.Ran.ran h)⟩

theorem Untouched.trans {s₁ : Device ι} (h : Untouched caller s s₁) (h' : Untouched caller s₁ s') :
    Untouched caller s s' :=
  ⟨h'.disk.trans h.disk, h.events.trans h'.events⟩

/-- What the checks before the first write have established. -/
theorem checkLocked_planned {old : Bytes} {fresh : Luks2}
    (h : library.Ran caller (checkLocked codec handle slot old envelope) s (.ok fresh) s') :
    s.disk.slots slot = none ∧
      ∃ id json, library.plan s.disk slot envelope true = .ok (id, json) := by
  unfold checkLocked at h
  obtain ⟨self, s1, hreload, h⟩ := runs_bind_ok.mp h
  obtain ⟨status, s2, hstatus, h⟩ := runs_bind_ok.mp h
  obtain ⟨⟨⟩, s3, hinactive, h⟩ := runs_bind_ok.mp h
  obtain ⟨actual, s4, -, h⟩ := runs_bind_ok.mp h
  obtain ⟨⟨id, json⟩, s5, hplan, h⟩ := runs_bind_ok.mp h
  obtain ⟨hcontext, -⟩ := Library.Ran.reload hreload
  have hslot := slotStatus_ok (Library.Ran.ran hstatus) (runs_ensure_ok (Library.Ran.ran hinactive))
  rw [hcontext] at hslot
  refine ⟨hslot, id, json, ?_⟩
  rcases Library.Ran.tokenPlan hplan with hresult | ⟨_, hresult, -⟩
  · rw [hresult, hcontext]
  · cases hresult

/-- An enrollment that fails for want of space fails in its preflight. -/
theorem addLocked_lacks (hgrows : library.Grows) {old : Bytes} {new : Secret}
    (h : library.Ran caller (addLocked codec handle slot old new envelope) s (.error error) s')
    (hlacks : library.Lacks error) : Untouched caller s s' := by
  unfold addLocked at h
  rcases runs_bind_error.mp h with h | ⟨fresh, s1, hcheck, h⟩
  · exact (reads_checkLocked codec handle slot old envelope).untouched h
  obtain ⟨hslot, id, json, hplan⟩ := checkLocked_planned hcheck
  have hdisk := ((reads_checkLocked codec handle slot old envelope).untouched hcheck).disk
  exfalso
  rcases runs_bind_error.mp h with h | ⟨code, s2, hadd, h⟩
  · obtain ⟨_, _, hanswer, -⟩ := runs_perform.mp h
    cases hanswer
  obtain ⟨answer, _, hanswer, rfl, hresponds, -⟩ := runs_perform.mp hadd
  obtain rfl := Except.ok.inj hanswer
  by_cases hcode : code < 0
  · rw [if_pos hcode] at h
    exact (others_slotAddFailure fresh slot code).not_lacks h hlacks
  rw [if_neg hcode] at h
  rcases runs_bind_error.mp h with h | ⟨⟨⟩, s3, hensure, h⟩
  · exact (others_ensure _ rfl).not_lacks h hlacks
  rcases runs_bind_error.mp h with h | ⟨⟨⟩, s4, hsync, h⟩
  · exact (others_staged slot others_syncAll _).not_lacks h hlacks
  obtain ⟨result, hattach, hresult⟩ := runs_mapError.mp h
  have hadded : s4.disk = s.disk.putSlot slot new.toList := by
    have hsynced := Library.Ran.disk_eq (all_mapError reads_syncAll.quiet) hsync
    have hensured := Library.Ran.disk_eq (reads_ensure _ _).quiet hensure
    rcases hresponds with ⟨hneg, -⟩ | ⟨-, rfl⟩
    · exact absurd hneg hcode
    · rw [hsynced, hensured, ← hdisk]
      rfl
  obtain ⟨hagain, hfits⟩ := hgrows.plan hslot new.toList hplan
  rw [← hadded] at hagain hfits
  cases result with
  | ok value => cases hresult
  | error source =>
    obtain rfl := Except.error.inj hresult
    exact attachLocked_not_lacks hgrows.toReports hagain hfits hattach hlacks

theorem acquire_untouched {result : Except Error Unit}
    (h : library.Ran caller acquire s result s') : Untouched caller s s' := by
  have hquiet : acquire.All Op.isQuiet :=
    all_bind reads_tryClone.quiet fun _ => all_bind (all_perform (.inr (.inl rfl))) fun _ =>
      all_ofResult _
  exact ⟨Library.Ran.disk_eq hquiet h, acquire_adds (Library.Ran.ran h)⟩

/-- The guards around an enrollment leave the device alone. -/
theorem Library.Ran.locked {α : Type} {body : Call α} {result : Except Error α}
    (h : library.Ran caller (do ensure (handle.writable = true) .readOnly; withLock body)
      s result s') :
    (∃ error, result = .error error ∧ Untouched caller s s') ∨
      ∃ s1 s2, Untouched caller s s1 ∧ library.Ran caller body s1 result s2 ∧
        Untouched caller s2 s' := by
  obtain ⟨e, rfl, hensure⟩ | ⟨⟨⟩, s1, hensure, h⟩ := runs_bind_cases h
  · exact .inl ⟨e, rfl, (reads_ensure _ _).untouched hensure⟩
  have hensured := (reads_ensure _ _).untouched hensure
  obtain ⟨acquired, s2, hacquire, h⟩ := Program.runs_bind.mp h
  have hacquired := hensured.trans (acquire_untouched hacquire)
  cases acquired with
  | error error =>
    obtain ⟨rfl, rfl⟩ := Program.runs_done.mp h
    exact .inl ⟨error, rfl, hacquired⟩
  | ok =>
    obtain ⟨result', s3, hbody, h⟩ := Program.runs_bind.mp h
    cases h with
    | call hrely hresponds hdone =>
      obtain ⟨rfl, rfl⟩ := Program.runs_done.mp hdone
      subst hrely
      obtain ⟨hdisk, hlog⟩ := responds_lock (.inr rfl) hresponds.1
      exact .inr ⟨s2, s3, hacquired, hbody, hdisk,
        Rely.adds ⟨hdisk ▸ .refl _, own_of_log_eq hlog⟩⟩

end Enrollment

/-- Under a truthful library and without another writer, the preflight of an enrollment is
sufficient: after the slot was added the plan stands and the token fits. One that ends for want of
an identifier or of room has written nothing. -/
theorem addEnrollment_preflight {ι : Type} [DecidableEq ι] (library : Library codec)
    (hgrows : library.Grows) :
    (∀ header slot passphrase envelope id json, header.slots slot = none →
      library.plan header slot envelope true = .ok (id, json) →
        library.plan (header.putSlot slot passphrase) slot envelope false = .ok (id, json) ∧
          library.Fits ((header.putSlot slot passphrase).putToken id json)) ∧
    ∀ (caller : ι) handle slot old new envelope s s' result,
      library.Ran caller (addEnrollment codec handle slot old new envelope) s result s' →
        (∀ error, result = .error error → library.Lacks error → Untouched caller s s') ∧
        ∀ error, library.plan s.disk slot envelope true = .error error →
          Untouched caller s s' ∧ ∃ error, result = .error error := by
  refine ⟨fun header slot passphrase envelope id json hslot hplan =>
    hgrows.plan hslot passphrase hplan, ?_⟩
  intro caller handle slot old new envelope s s' result h
  rcases Library.Ran.locked h with ⟨error, rfl, huntouched⟩ | ⟨s1, s2, hbefore, hbody, hafter⟩
  · exact ⟨fun _ _ _ => huntouched, fun _ _ => ⟨huntouched, error, rfl⟩⟩
  refine ⟨?_, fun error hplan => ?_⟩
  · rintro error rfl hlacks
    exact (hbefore.trans (addLocked_lacks hgrows hbody hlacks)).trans hafter
  · rw [← hbefore.disk] at hplan
    unfold addLocked at hbody
    obtain ⟨e, rfl, hcheck⟩ | ⟨fresh, s3, hcheck, -⟩ := runs_bind_cases hbody
    · have hread := (reads_checkLocked codec handle slot old envelope).untouched hcheck
      exact ⟨(hbefore.trans hread).trans hafter, e, rfl⟩
    · obtain ⟨-, id, json, hok⟩ := checkLocked_planned hcheck
      cases hok.symm.trans hplan

/-- A header with a recovery passphrase has room for an envelope in the default metadata. -/
theorem addEnrollment_preflight_recovery : ∃ json,
    (compact 16384).plan recoveryDisk 1 [1, 2] true = .ok (0, json) ∧
      (compact 16384).plan (recoveryDisk.putSlot 1 [9]) 1 [1, 2] false = .ok (0, json) ∧
        (compact 16384).Fits ((recoveryDisk.putSlot 1 [9]).putToken 0 json) := by
  have hplan :
      ((compact 16384).plan recoveryDisk 1 [1, 2] true).toOption.map Prod.fst = some 0 := by
    decide +kernel
  cases h : (compact 16384).plan recoveryDisk 1 [1, 2] true with
  | error error =>
    rw [h] at hplan
    cases hplan
  | ok planned =>
    obtain ⟨id, json⟩ := planned
    rw [h] at hplan
    obtain rfl : id = 0 := Option.some.inj hplan
    exact ⟨json, rfl, (@addEnrollment_preflight serde Unit _ (compact 16384) (compact_grows _)).1
      recoveryDisk 1 [9] [1, 2] 0 json rfl h⟩

end Leelo.Luks
