import Leelo.Luks.Enrollment

/-!
# What the checks establish

Everything but two calls of the adapter only reads. Reading keeps the device and adds no
write to the caller's log, whatever native writers and other callers do meanwhile. A
reload that succeeds has seen the persisted header at some moment of the run, and later
checks tell the truth about that header.
-/

namespace Leelo.Luks

open Leelo.Core Leelo.Core.Fallible
open Leelo.Sss (Secret)

section Relations

variable {ι : Type} [DecidableEq ι] {caller : ι} {s s' s₁ s₂ : Device ι}

theorem own_of_log_eq (h : s'.log = s.log) : s'.own caller = s.own caller := by
  simp only [Device.own, h]

theorem own_of_log_concat {other : ι} {event : Event} (h : s'.log = s.log ++ [(other, event)]) :
    s'.own caller = if other = caller then s.own caller ++ [event] else s.own caller := by
  by_cases hself : other = caller
  · simp [Device.own, h, hself]
  · simp [Device.own, h, hself]

/-- What others may do between the calls of one caller. -/
structure Rely (caller : ι) (s s' : Device ι) : Prop where
  disk : s.disk.Within s'.disk
  own : s'.own caller = s.own caller

theorem Rely.refl (s : Device ι) : Rely caller s s := ⟨.refl _, rfl⟩

theorem Rely.trans (h : Rely caller s s₁) (h' : Rely caller s₁ s₂) : Rely caller s s₂ :=
  ⟨h.disk.trans h'.disk, h'.own.trans h.own⟩

/-- The disk keeps everything, and the caller has added only events without the property. -/
structure Adds (caller : ι) (property : Event → Bool) (s s' : Device ι) : Prop where
  disk : s.disk.Within s'.disk
  own : ∃ events, s'.own caller = s.own caller ++ events ∧ ∀ event ∈ events, property event = false

variable {property : Event → Bool}

theorem Rely.adds (h : Rely caller s s') : Adds caller property s s' :=
  ⟨h.disk, [], by rw [h.own, List.append_nil], fun _ hevent => absurd hevent List.not_mem_nil⟩

theorem Adds.refl (s : Device ι) : Adds caller property s s := (Rely.refl s).adds

theorem Adds.trans (h : Adds caller property s s₁) (h' : Adds caller property s₁ s₂) :
    Adds caller property s s₂ := by
  obtain ⟨events, hown, hevents⟩ := h.own
  obtain ⟨events', hown', hevents'⟩ := h'.own
  refine ⟨h.disk.trans h'.disk, events ++ events', ?_, ?_⟩
  · rw [hown', hown, List.append_assoc]
  · intro event hevent
    rcases List.mem_append.mp hevent with hevent | hevent
    · exact hevents event hevent
    · exact hevents' event hevent

theorem Adds.mono {property' : Event → Bool}
    (hproperty : ∀ event, property event = false → property' event = false)
    (h : Adds caller property s s') : Adds caller property' s s' := by
  obtain ⟨events, hown, hevents⟩ := h.own
  exact ⟨h.disk, events, hown, fun event hevent => hproperty event (hevents event hevent)⟩

/-- One event is added. -/
theorem adds_record {event : Event} (h : property event = false) (hdisk : s.disk.Within s'.disk)
    (hlog : s'.log = s.log ++ [(caller, event)]) : Adds caller property s s' := by
  refine ⟨hdisk, [event], ?_, ?_⟩
  · rw [own_of_log_concat hlog, if_pos rfl]
  · intro other hother
    rwa [List.mem_singleton.mp hother]

theorem isEffective_of_isWrite (event : Event) (h : event.isWrite = false) :
    event.isEffective = false := by
  cases event with
  | loaded => rfl
  | checked => rfl
  | slotAdd => cases h
  | tokenSet => cases h

end Relations

section Reads

/-- The call only reads. -/
abbrev Reads {α : Type} (x : Call α) : Prop := x.All fun op => op.reads = true

variable (codec : Codec) (handle : Luks2) (slot : UInt8)

/-- A check reads. -/
theorem reads_ensure (condition : Prop) [Decidable condition] (error : Error) :
    Reads (ensure condition error) := all_ofResult _

/-- Cloning a handle reads. -/
theorem reads_tryClone : Reads tryClone :=
  all_bind (all_perform rfl) fun _ => all_ofResult _

theorem reads_syncAll : Reads syncAll :=
  all_bind (all_perform rfl) fun _ => all_ofResult _

/-- Loading the header reads. -/
theorem reads_fromFile (writable : Bool) : Reads (fromFile writable) := by
  unfold fromFile
  refine all_bind (all_perform rfl) fun _ => all_bind (all_ofResult _) fun _ => ?_
  refine all_bind (reads_ensure _ _) fun _ => all_bind (all_perform rfl) fun _ => ?_
  refine all_bind (all_ofResult _) fun _ => all_bind (all_perform rfl) fun uuid => ?_
  cases uuid with
  | none => exact all_ofResult _
  | some uuid => trivial

/-- Reloading it reads. -/
theorem reads_reload : Reads (reload handle) :=
  all_bind reads_tryClone fun _ => all_bind (reads_fromFile _) fun _ =>
    all_bind (reads_ensure _ _) fun _ => trivial

theorem reads_slotStatus : Reads (slotStatus handle slot) :=
  all_bind (reads_ensure _ _) fun _ => all_perform rfl

theorem reads_activateInner (slot : Option UInt8) (credential : Bytes)
    (mapping : Option String) : Reads (activateInner handle slot credential mapping) :=
  all_bind (reads_ensure _ _) fun _ => all_bind (reads_ensure _ _) fun _ =>
    all_bind (all_perform rfl) fun _ => all_ofResult _

/-- The metadata is read. -/
theorem reads_metadata : Reads (metadata codec handle) :=
  all_bind (all_perform rfl) fun _ => all_bind (all_ofResult _) fun _ =>
    all_bind (all_ofResult _) fun _ => all_bind (all_perform rfl) fun _ =>
    all_bind (all_ofResult _) fun _ => all_bind (all_ofResult _) fun _ => trivial

/-- A plan reads. -/
theorem reads_tokenPlan (envelope : Bytes) (addingSlot : Bool) :
    Reads (tokenPlan codec handle slot envelope addingSlot) :=
  all_bind (all_ofResult _) fun _ => all_bind (reads_metadata codec handle) fun _ =>
    all_bind (all_ofResult _) fun _ => all_ofResult _

/-- A token is read. -/
theorem reads_cachedToken (id : UInt8) : Reads (cachedToken codec handle id) := by
  unfold cachedToken
  refine all_bind (reads_ensure _ _) fun _ => all_bind (all_perform rfl) fun answer => ?_
  refine all_bind (all_ofResult _) fun _ => ?_
  cases answer.2 with
  | null => exact all_ofResult _
  | invalidUtf8 => exact all_ofResult _
  | text text => exact all_ofResult _

theorem reads_verifyPersisted (id : UInt8) (credential : Secret) (envelope : Bytes) :
    Reads (verifyPersisted codec handle id slot credential envelope) :=
  all_bind (reads_reload handle) fun fresh => all_bind (reads_cachedToken codec fresh id) fun _ =>
    all_bind (reads_ensure _ _) fun _ =>
    all_bind (reads_activateInner fresh _ _ _) fun _ => trivial

theorem reads_slotAddFailure (code : Int) : Reads (slotAddFailure handle slot code) := by
  refine all_bind (all_attempt (all_bind (reads_reload handle) fun fresh =>
    reads_slotStatus fresh slot)) fun status => ?_
  by_cases h : status = .ok slotInactive
  · rw [if_pos h]
    exact all_ofResult _
  · rw [if_neg h]
    exact all_ofResult _

theorem reads_checkLocked (old envelope : Bytes) :
    Reads (checkLocked codec handle slot old envelope) :=
  all_bind (reads_reload handle) fun fresh => all_bind (reads_slotStatus fresh slot) fun _ =>
    all_bind (reads_ensure _ _) fun _ => all_bind (reads_activateInner fresh _ _ _) fun _ =>
    all_bind (reads_tokenPlan codec fresh slot envelope true) fun _ => trivial

end Reads

section Checks

variable {ι : Type} [DecidableEq ι] {caller : ι} {s s' s₁ : Device ι} {codec : Codec}
  {handle fresh : Luks2} {slot : UInt8}

/-- A run of one caller among native writers and other callers. -/
abbrev Ran {α : Type} (caller : ι) (x : Call α) (s : Device ι) (result : Except Error α)
    (s' : Device ι) : Prop := Fallible.Runs (responds caller) (Rely caller) x s result s'

theorem Reads.adds {α : Type} {x : Call α} (hx : Reads x) {result : Except Error α}
    (h : Ran caller x s result s') : Adds caller Event.isWrite s s' := by
  refine Program.Runs.relates Adds.refl Adds.trans Rely.adds ?_ hx h
  intro op s answer s' hop hresponds
  obtain ⟨hdisk, hlog⟩ := responds_reads hop hresponds
  have hwithin : s.disk.Within s'.disk := hdisk ▸ .refl _
  rcases hlog with hlog | ⟨event, hevent, hlog⟩
  · exact Rely.adds ⟨hwithin, own_of_log_eq hlog⟩
  · exact adds_record hevent hwithin hlog

/-- At some moment of a run that only reads, the caller loaded this header. -/
structure Loaded (caller : ι) (header : Header) (s s' : Device ι) : Prop where
  moment : ∃ s₁, Adds caller Event.isWrite s s₁ ∧ header = s₁.disk ∧
    Adds caller Event.isWrite (s₁.record caller (.loaded header)) s'

variable {header : Header} {id : UInt8}

theorem Loaded.within (h : Loaded caller header s s') :
    s.disk.Within header ∧ header.Within s'.disk := by
  obtain ⟨s₁, hbefore, rfl, hafter⟩ := h.moment
  exact ⟨hbefore.disk, hafter.disk⟩

theorem Loaded.own (h : Loaded caller header s s') :
    ∃ before after, s'.own caller = before ++ .loaded header :: after ∧
      ∀ event ∈ after, event.isWrite = false := by
  obtain ⟨s₁, -, -, hafter⟩ := h.moment
  obtain ⟨events, hown, hevents⟩ := hafter.own
  refine ⟨s₁.own caller, events, ?_, hevents⟩
  have hrecord : (s₁.record caller (.loaded header)).own caller =
      s₁.own caller ++ [.loaded header] := by
    rw [own_of_log_concat (show (s₁.record caller (.loaded header)).log = _ from rfl), if_pos rfl]
  rw [hown, hrecord, List.append_assoc, List.singleton_append]

theorem Loaded.extend (h : Loaded caller header s s₁) (hafter : Adds caller Event.isWrite s₁ s') :
    Loaded caller header s s' := by
  obtain ⟨s₂, hbefore, hheader, hrest⟩ := h.moment
  exact ⟨s₂, hbefore, hheader, hrest.trans hafter⟩

theorem checked_eq_ok {operation : String} {code result : Int}
    (h : checked operation code = .ok result) : 0 ≤ code ∧ result = code := by
  unfold checked at h
  by_cases hcode : code < 0
  · rw [if_pos hcode] at h
    cases h
  · rw [if_neg hcode] at h
    cases h
    exact ⟨Int.not_lt.mp hcode, rfl⟩

/-- A check that passes holds. -/
theorem runs_ensure_ok {condition : Prop} [Decidable condition] {error : Error}
    (h : Ran caller (ensure condition error) s (.ok ()) s') : condition := by
  obtain ⟨hresult, -⟩ := runs_ofResult.mp h
  by_contra hcondition
  rw [if_neg hcondition] at hresult
  cases hresult

/-- The handle's header was loaded. -/
theorem fromFile_ok {writable : Bool} (h : Ran caller (fromFile writable) s (.ok fresh) s') :
    Loaded caller fresh.context s s' := by
  unfold fromFile at h
  obtain ⟨⟨code, hasContext⟩, s1, hinit, h⟩ := runs_bind_ok.mp h
  obtain ⟨_, s2, hcode, h⟩ := runs_bind_ok.mp h
  obtain ⟨⟨⟩, s3, hcontext, h⟩ := runs_bind_ok.mp h
  obtain ⟨⟨loadCode, context⟩, s4, hload, h⟩ := runs_bind_ok.mp h
  obtain ⟨result, s5, hchecked, h⟩ := runs_bind_ok.mp h
  obtain ⟨uuid, s6, huuid, h⟩ := runs_bind_ok.mp h
  have hbefore : Adds caller Event.isWrite s s3 := by
    have h1 := Reads.adds (all_perform rfl) hinit
    have h2 := Reads.adds (all_ofResult _) hcode
    exact (h1.trans h2).trans (Reads.adds (reads_ensure _ _) hcontext)
  have hafter : Adds caller Event.isWrite s4 s6 :=
    (Reads.adds (all_ofResult _) hchecked).trans (Reads.adds (all_perform rfl) huuid)
  obtain ⟨answer, s7, hanswer, hrely, hresponds⟩ := runs_perform.mp hload
  obtain rfl := Except.ok.inj hanswer
  obtain ⟨hnonneg, -⟩ := checked_eq_ok (runs_ofResult.mp hchecked).1.symm
  rcases hresponds with ⟨hneg, -⟩ | ⟨-, rfl, rfl⟩
  · exact absurd hneg (Int.not_lt.mpr hnonneg)
  · cases uuid with
    | none => cases (runs_ofResult.mp h).1
    | some uuid =>
      obtain ⟨hfresh, rfl⟩ := runs_pure.mp h
      obtain rfl := Except.ok.inj hfresh
      exact ⟨s7, hbefore.trans hrely.adds, rfl, hafter⟩

/-- A reload that succeeds has loaded the header that it returns. -/
theorem reload_ok (h : Ran caller (reload handle) s (.ok fresh) s') :
    Loaded caller fresh.context s s' := by
  unfold reload at h
  obtain ⟨⟨⟩, s1, hclone, h⟩ := runs_bind_ok.mp h
  obtain ⟨fresh', s2, hfile, h⟩ := runs_bind_ok.mp h
  obtain ⟨⟨⟩, s3, huuid, h⟩ := runs_bind_ok.mp h
  obtain ⟨hfresh, rfl⟩ := runs_pure.mp h
  obtain rfl := Except.ok.inj hfresh
  obtain ⟨s4, hbefore, hheader, hafter⟩ := (fromFile_ok hfile).moment
  exact ⟨s4, (Reads.adds reads_tryClone hclone).trans hbefore, hheader,
    hafter.trans (Reads.adds (reads_ensure _ _) huuid)⟩

theorem slotStatus_ok {status : Int} (h : Ran caller (slotStatus handle slot) s (.ok status) s')
    (hinactive : status = slotInactive) : handle.context.slots slot = none := by
  unfold slotStatus at h
  obtain ⟨⟨⟩, s1, -, h⟩ := runs_bind_ok.mp h
  obtain ⟨answer, s2, hanswer, -, hresponds⟩ := runs_perform.mp h
  obtain rfl := Except.ok.inj hanswer
  exact hresponds.1 hinactive

theorem octetOfInt_eq_some {value : Int} {octet : UInt8} (h : octetOfInt value = some octet) :
    value = octet.toNat := by
  unfold octetOfInt at h
  by_cases hrange : 0 ≤ value ∧ value < 256
  · rw [if_pos hrange] at h
    rw [← Option.some.inj h, UInt8.toNat_ofNat']
    omega
  · rw [if_neg hrange] at h
    cases h

/-- The slot that opened is the one asked for. -/
theorem activatedSlot_ok {actual : UInt8} {code : Int}
    (h : activatedSlot (some slot) code = .ok actual) : code = slot.toNat := by
  obtain ⟨result, hresult, hactual⟩ := bind_eq_ok.mp h
  obtain ⟨-, rfl⟩ := checked_eq_ok hresult
  cases hoctet : octetOfInt result with
  | none =>
    rw [hoctet] at hactual
    cases hactual
  | some octet =>
    rw [hoctet] at hactual
    obtain ⟨hsame, -⟩ := guard_eq_ok.mp hactual
    have hslot : slot = octet := by
      by_contra hne
      exact hsame (.inr (by simpa using hne))
    rw [hslot]
    exact octetOfInt_eq_some hoctet

/-- A credential that was tested on a slot opens it in the loaded header. -/
theorem activateInner_ok {credential : Bytes} {mapping : Option String} {actual : UInt8}
    (h : Ran caller (activateInner handle (some slot) credential mapping) s (.ok actual) s') :
    handle.context.slots slot = some credential := by
  unfold activateInner at h
  obtain ⟨⟨⟩, s1, -, h⟩ := runs_bind_ok.mp h
  obtain ⟨⟨⟩, s2, -, h⟩ := runs_bind_ok.mp h
  obtain ⟨code, s3, hcode, h⟩ := runs_bind_ok.mp h
  obtain ⟨answer, s4, hanswer, -, hresponds⟩ := runs_perform.mp hcode
  obtain rfl := Except.ok.inj hanswer
  exact hresponds.1 slot (activatedSlot_ok (runs_ofResult.mp h).1.symm)

theorem cachedToken_ok {token : TokenEnvelope}
    (h : Ran caller (cachedToken codec handle id) s (.ok token) s') :
    ∃ text, handle.context.tokens id = some text ∧ decodeToken codec text = .ok token := by
  unfold cachedToken at h
  obtain ⟨⟨⟩, s1, -, h⟩ := runs_bind_ok.mp h
  obtain ⟨⟨code, json⟩, s2, hget, h⟩ := runs_bind_ok.mp h
  obtain ⟨result, s3, hchecked, h⟩ := runs_bind_ok.mp h
  obtain ⟨answer, s4, hanswer, -, hresponds⟩ := runs_perform.mp hget
  obtain rfl := Except.ok.inj hanswer
  obtain ⟨hnonneg, -⟩ := checked_eq_ok (runs_ofResult.mp hchecked).1.symm
  cases json with
  | null => cases (runs_ofResult.mp h).1
  | invalidUtf8 => cases (runs_ofResult.mp h).1
  | text text => exact ⟨text, hresponds.1 hnonneg text rfl, (runs_ofResult.mp h).1.symm⟩

/-- The header carries a token for exactly this slot and envelope, and the credential opens
exactly this slot. -/
structure Enrolled (codec : Codec) (header : Header) (id slot : UInt8) (credential : Secret)
    (envelope : Bytes) : Prop where
  token : ∃ text, header.tokens id = some text ∧ decodeToken codec text = .ok ⟨slot, envelope⟩
  opens : header.slots slot = some credential.toList

theorem Enrolled.mono {header' : Header} {credential : Secret} {envelope : Bytes}
    (h : Enrolled codec header id slot credential envelope) (hwithin : header.Within header') :
    Enrolled codec header' id slot credential envelope := by
  obtain ⟨text, htoken, hdecode⟩ := h.token
  exact ⟨⟨text, hwithin.tokens id text htoken, hdecode⟩, hwithin.slots slot _ h.opens⟩

/-- An enrollment read back is in a header that was loaded. -/
theorem verifyPersisted_ok {credential : Secret} {envelope : Bytes}
    (h : Ran caller (verifyPersisted codec handle id slot credential envelope) s (.ok ()) s') :
    ∃ header, Loaded caller header s s' ∧ Enrolled codec header id slot credential envelope := by
  unfold verifyPersisted at h
  obtain ⟨fresh, s1, hreload, h⟩ := runs_bind_ok.mp h
  obtain ⟨token, s2, htoken, h⟩ := runs_bind_ok.mp h
  obtain ⟨⟨⟩, s3, hsame, h⟩ := runs_bind_ok.mp h
  obtain ⟨actual, s4, hactivate, h⟩ := runs_bind_ok.mp h
  obtain ⟨-, rfl⟩ := runs_pure.mp h
  have hafter : Adds caller Event.isWrite s1 s' :=
    ((Reads.adds (reads_cachedToken codec fresh id) htoken).trans
      (Reads.adds (reads_ensure _ _) hsame)).trans
        (Reads.adds (reads_activateInner fresh _ _ _) hactivate)
  obtain ⟨text, htext, hdecode⟩ := cachedToken_ok htoken
  obtain ⟨rfl, rfl⟩ := runs_ensure_ok hsame
  exact ⟨fresh.context, (reload_ok hreload).extend hafter, ⟨text, htext, hdecode⟩,
    activateInner_ok hactivate⟩

end Checks

end Leelo.Luks
