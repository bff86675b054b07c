import Leelo.Tpm.Chip

/-!
# What a seed is bound to

A seed that the adapter unseals was wrapped by this TPM, under the primary object of its owner
hierarchy and the policy of the signed descriptor, and the PCRs had the digest of the
descriptor when the TPM gave it out. This holds for every blob and whatever other contexts
do meanwhile.
-/

namespace Leelo.Tpm

open Leelo.Core Leelo.Core.Fallible Leelo.Envelope
open Leelo.Engine (EngineError UnsealedSeed)

/-- The selection of the SHA-256 PCRs of a mask. -/
def selected (mask : UInt32) : PcrSelectionList := [⟨.sha256, selectedPcrs mask⟩]

/-- Converting slots changes none. -/
private theorem mapM_slot {tss : Tss} (htss : tss.Specified) {indices slots : List PcrSlot}
    (h : (indices.mapM fun index => tss.slot (bit index)) = .ok slots) : slots = indices := by
  induction indices generalizing slots with
  | nil =>
    rw [List.mapM_nil] at h
    exact (Except.ok.inj h).symm
  | cons index indices ih =>
    rw [List.mapM_cons] at h
    obtain ⟨slot, hslot, hrest⟩ := bind_eq_ok.mp h
    obtain ⟨rest, hrest, hslots⟩ := bind_eq_ok.mp hrest
    rw [← Except.ok.inj hslots, ih hrest, bit_injective _ _ (htss.slot _ _ hslot)]

theorem selection_eq_ok {tss : Tss} (htss : tss.Specified) {mask : UInt32}
    {list : PcrSelectionList} (h : selection tss mask = .ok list) : list = selected mask := by
  obtain ⟨-, -, hrest⟩ := bind_eq_ok.mp h
  obtain ⟨slots, hslots, hbuild⟩ := bind_eq_ok.mp hrest
  rw [htss.build _ _ _ (mapError_eq_ok.mp hbuild), mapM_slot htss (mapError_eq_ok.mp hslots)]
  have hfilter : (List.finRange 24).filter (fun index => mask &&& bit index ≠ 0) =
      selectedPcrs mask := by
    refine List.filter_congr fun index _ => ?_
    rw [Bool.eq_iff_iff, decide_eq_true_iff]
    exact and_bit_ne_zero_iff mask index
  rw [hfilter, selected]

section Commands

variable {chip : Chip} {changes : Instant → Instant → Prop} {d d' d₁ : Device} {command : Command}

/-- A command that succeeds is carried out on a device that others may have changed. -/
theorem runs_execute {operation : String} {result : command.Result} :
    Runs chip.responds (Interferes changes) (execute operation command) d (.ok result) d' ↔
      ∃ d₁, Interferes changes d d₁ ∧ chip.execute command d₁ = .ok (result, d') := by
  unfold execute
  rw [runs_bind_ok]
  constructor
  · rintro ⟨answer, d₂, hperform, hresult⟩
    obtain ⟨_, d₁, hanswer, hinterferes, hresponds⟩ := runs_perform.mp hperform
    cases hanswer
    obtain ⟨hmapped, rfl⟩ := runs_ofResult.mp hresult
    have hok := mapError_eq_ok.mp hmapped.symm
    obtain ⟨found, rfl, hexecute⟩ | ⟨⟨error, rfl⟩, -⟩ := hresponds
    · cases hok
      exact ⟨d₁, hinterferes, hexecute⟩
    · cases hok
  · rintro ⟨d₁, hinterferes, hexecute⟩
    exact ⟨.ok result, d', runs_perform.mpr ⟨_, d₁, rfl, hinterferes, .inl ⟨result, rfl, hexecute⟩⟩,
      runs_ofResult.mpr ⟨rfl, rfl⟩⟩

variable {α : Type} {a : α} {handle : Nat} {object : KeyHandle} {auth : AuthSession}

theorem runs_execute_bind {operation : String} {f : command.Result → Commands α} :
    Runs chip.responds (Interferes changes) (execute operation command >>= f) d (.ok a) d' ↔
      ∃ result d₁ d₂, Interferes changes d d₁ ∧ chip.execute command d₁ = .ok (result, d₂) ∧
        Runs chip.responds (Interferes changes) (f result) d₂ (.ok a) d' := by
  rw [runs_bind_ok]
  constructor
  · rintro ⟨result, d₂, hexecute, hf⟩
    obtain ⟨d₁, hinterferes, hexecute⟩ := runs_execute.mp hexecute
    exact ⟨result, d₁, d₂, hinterferes, hexecute, hf⟩
  · rintro ⟨result, d₁, d₂, hinterferes, hexecute, hf⟩
    exact ⟨result, d₂, runs_execute.mpr ⟨d₁, hinterferes, hexecute⟩, hf⟩

theorem Chip.orRefuse_eq_ok {found : Option α} :
    chip.orRefuse found = .ok a ↔ found = some a := by
  cases found with
  | none => simp [orRefuse]
  | some b => simp [orRefuse]

/-- Loaded objects stay. -/
def Keeps (d d' : Device) : Prop :=
  ∀ handle object, d.objects handle = some object → d'.objects handle = some object

theorem Keeps.trans (h : Keeps d d₁) (h' : Keeps d₁ d') : Keeps d d' :=
  fun _ _ hobject => h' _ _ (h _ _ hobject)

theorem Interferes.keeps (h : Interferes changes d d') : Keeps d d' :=
  fun _ _ hobject => by rw [h.objects, hobject]

theorem keeps_addObject (d : Device) (object : Loaded) : Keeps d (d.addObject object) := by
  intro handle found hfound
  have hlt := Device.lt_next_of_object hfound
  exact (Function.update_of_ne (Nat.ne_of_lt hlt) _ _).trans hfound

theorem keeps_addSession (d : Device) (session : Session) : Keeps d (d.addSession session) :=
  fun _ _ h => h

theorem keeps_setSession (d : Device) (handle : Nat) (session : Option Session) :
    Keeps d (d.setSession handle session) := fun _ _ h => h

theorem sessions_addSession (d : Device) (session : Session) :
    (d.addSession session).sessions d.next = some session := Function.update_self ..

theorem objects_addObject (d : Device) (object : Loaded) :
    (d.addObject object).objects d.next = some object := Function.update_self ..

theorem sessions_setSession {session : Session} (h : d.sessions handle = some session)
    (new : Option Session) :
    (d.setSession handle new).sessions handle = new := by
  change (if handle < d.next then Function.update d.sessions handle new else d.sessions) handle =
    new
  rw [if_pos (Device.lt_next_of_session h), Function.update_self]

theorem execute_getName {name : Bytes} :
    chip.execute (.getName object) d = .ok (name, d') ↔
      ∃ found, d.objects object = some found ∧ name = chip.name found.area ∧ d' = d := by
  constructor
  · intro h
    obtain ⟨found, hfound, hname⟩ := bind_eq_ok.mp h
    cases hname
    exact ⟨found, Chip.orRefuse_eq_ok.mp hfound, rfl, rfl⟩
  · rintro ⟨found, hfound, rfl, rfl⟩
    exact bind_eq_ok.mpr ⟨found, Chip.orRefuse_eq_ok.mpr hfound, rfl⟩

/-- The attributes of a session are set. -/
theorem execute_setAttributes {continueSession decrypt encrypt : Bool} :
    chip.execute (.setAttributes auth continueSession decrypt encrypt) d = .ok ((), d') ↔
      ∃ handle session, auth.handle = some handle ∧ d.sessions handle = some session ∧
        d' = d.setSession handle
          (some { session with decrypt := decrypt, encrypt := encrypt }) := by
  constructor
  · intro h
    obtain ⟨handle, hhandle, h⟩ := bind_eq_ok.mp h
    obtain ⟨session, hsession, h⟩ := bind_eq_ok.mp h
    cases h
    exact ⟨handle, session, Chip.orRefuse_eq_ok.mp hhandle, Chip.orRefuse_eq_ok.mp hsession, rfl⟩
  · rintro ⟨handle, session, hhandle, hsession, rfl⟩
    exact bind_eq_ok.mpr ⟨handle, Chip.orRefuse_eq_ok.mpr hhandle,
      bind_eq_ok.mpr ⟨session, Chip.orRefuse_eq_ok.mpr hsession, rfl⟩⟩

/-- A session is bound to the registers. -/
theorem execute_policyPcr {digest : Bytes} {selected : PcrSelectionList} :
    chip.execute (.policyPcr handle digest selected) d = .ok ((), d') ↔
      ∃ session bound, d.sessions handle = some session ∧
        chip.bindPcr d digest selected session = .ok bound ∧
          d' = d.setSession handle (some bound) := by
  constructor
  · intro h
    obtain ⟨session, hsession, h⟩ := bind_eq_ok.mp h
    obtain ⟨bound, hbound, h⟩ := bind_eq_ok.mp h
    cases h
    exact ⟨session, bound, Chip.orRefuse_eq_ok.mp hsession, hbound, rfl⟩
  · rintro ⟨session, bound, hsession, hbound, rfl⟩
    exact bind_eq_ok.mpr ⟨session, Chip.orRefuse_eq_ok.mpr hsession,
      bind_eq_ok.mpr ⟨bound, hbound, rfl⟩⟩

/-- A session is bound to a command. -/
theorem execute_policyCommandCode {code : CommandCode} :
    chip.execute (.policyCommandCode handle code) d = .ok ((), d') ↔
      ∃ session, d.sessions handle = some session ∧ d' = d.setSession handle (some { session with
        policy := chip.commandPolicy session.policy code
        command := some code }) := by
  constructor
  · intro h
    obtain ⟨session, hsession, h⟩ := bind_eq_ok.mp h
    cases h
    exact ⟨session, Chip.orRefuse_eq_ok.mp hsession, rfl⟩
  · rintro ⟨session, hsession, rfl⟩
    exact bind_eq_ok.mpr ⟨session, Chip.orRefuse_eq_ok.mpr hsession, rfl⟩

/-- The policy of a session is read. -/
theorem execute_policyGetDigest {digest : Bytes} :
    chip.execute (.policyGetDigest handle) d = .ok (digest, d') ↔
      ∃ session, d.sessions handle = some session ∧ digest = session.policy ∧ d' = d := by
  constructor
  · intro h
    obtain ⟨session, hsession, h⟩ := bind_eq_ok.mp h
    cases h
    exact ⟨session, Chip.orRefuse_eq_ok.mp hsession, rfl, rfl⟩
  · rintro ⟨session, hsession, rfl, rfl⟩
    exact bind_eq_ok.mpr ⟨session, Chip.orRefuse_eq_ok.mpr hsession, rfl⟩

/-- A session is flushed. -/
theorem execute_flushContext {session : AuthSession} :
    chip.execute (.flushContext session) d = .ok ((), d') ↔
      ∃ handle, session.handle = some handle ∧ d' = d.setSession handle none := by
  constructor
  · intro h
    obtain ⟨handle, hhandle, h⟩ := bind_eq_ok.mp h
    cases h
    exact ⟨handle, Chip.orRefuse_eq_ok.mp hhandle, rfl⟩
  · rintro ⟨handle, hhandle, rfl⟩
    exact bind_eq_ok.mpr ⟨handle, Chip.orRefuse_eq_ok.mpr hhandle, rfl⟩

theorem execute_create {parent : KeyHandle} {template : Public} {sensitive : Bytes}
    {out : Public × Bytes} :
    chip.execute (.create auth parent template sensitive) d = .ok (out, d') ↔
      ∃ found, d.objects parent = some found ∧
        out = chip.create found.area template sensitive d.next ∧ d' = d.skip := by
  constructor
  · intro h
    obtain ⟨found, hfound, h⟩ := bind_eq_ok.mp h
    cases h
    exact ⟨found, Chip.orRefuse_eq_ok.mp hfound, rfl, rfl⟩
  · rintro ⟨found, hfound, rfl, rfl⟩
    exact bind_eq_ok.mpr ⟨found, Chip.orRefuse_eq_ok.mpr hfound, rfl⟩

theorem execute_load {parent : KeyHandle} {privateArea : Bytes} {area : Public} :
    chip.execute (.load auth parent privateArea area) d = .ok (object, d') ↔
      ∃ found sensitive, d.objects parent = some found ∧
        chip.unwrap found.area area privateArea = some sensitive ∧ object = d.next ∧
          d' = d.addObject ⟨area, some sensitive⟩ := by
  constructor
  · intro h
    obtain ⟨found, hfound, h⟩ := bind_eq_ok.mp h
    obtain ⟨sensitive, hsensitive, h⟩ := bind_eq_ok.mp h
    cases h
    exact ⟨found, sensitive, Chip.orRefuse_eq_ok.mp hfound, Chip.orRefuse_eq_ok.mp hsensitive,
      rfl, rfl⟩
  · rintro ⟨found, sensitive, hfound, hsensitive, rfl, rfl⟩
    exact bind_eq_ok.mpr ⟨found, Chip.orRefuse_eq_ok.mpr hfound,
      bind_eq_ok.mpr ⟨sensitive, Chip.orRefuse_eq_ok.mpr hsensitive, rfl⟩⟩

/-- The session has the object's policy, and the PCRs are those that it was bound to. -/
theorem execute_unseal {sensitive : Bytes} :
    chip.execute (.unseal auth object) d = .ok (sensitive, d') ↔
      ∃ handle session found, auth.handle = some handle ∧ d.sessions handle = some session ∧
        d.objects object = some found ∧ Chip.authorizes d.instant session found = true ∧
          found.sensitive = some sensitive ∧ d' = d := by
  constructor
  · intro h
    obtain ⟨handle, hhandle, h⟩ := bind_eq_ok.mp h
    obtain ⟨session, hsession, h⟩ := bind_eq_ok.mp h
    obtain ⟨found, hfound, h⟩ := bind_eq_ok.mp h
    split_ifs at h with hauthorizes
    obtain ⟨_, hsensitive, h⟩ := bind_eq_ok.mp h
    cases h
    exact ⟨handle, session, found, Chip.orRefuse_eq_ok.mp hhandle, Chip.orRefuse_eq_ok.mp hsession,
      Chip.orRefuse_eq_ok.mp hfound, hauthorizes, Chip.orRefuse_eq_ok.mp hsensitive, rfl⟩
  · rintro ⟨handle, session, found, hhandle, hsession, hfound, hauthorizes, hsensitive, rfl⟩
    refine bind_eq_ok.mpr ⟨handle, Chip.orRefuse_eq_ok.mpr hhandle, bind_eq_ok.mpr ⟨session,
      Chip.orRefuse_eq_ok.mpr hsession, bind_eq_ok.mpr ⟨found, Chip.orRefuse_eq_ok.mpr hfound, ?_⟩⟩⟩
    rw [if_pos hauthorizes]
    exact bind_eq_ok.mpr ⟨sensitive, Chip.orRefuse_eq_ok.mpr hsensitive, rfl⟩

/-- No command changes a PCR. -/
theorem execute_instant {result : command.Result}
    (h : chip.execute command d = .ok (result, d')) : d'.instant = d.instant := by
  cases command with
  | context =>
    cases h
    rfl
  | createPrimary _ _ =>
    cases h
    rfl
  | startAuthSession _ _ _ _ =>
    cases h
    rfl
  | getName _ =>
    obtain ⟨-, -, -, rfl⟩ := execute_getName.mp h
    rfl
  | setAttributes _ _ _ _ =>
    obtain ⟨_, _, -, -, rfl⟩ := execute_setAttributes.mp h
    rfl
  | policyPcr _ _ _ =>
    obtain ⟨_, _, -, -, rfl⟩ := execute_policyPcr.mp h
    rfl
  | policyCommandCode _ _ =>
    obtain ⟨_, -, rfl⟩ := execute_policyCommandCode.mp h
    rfl
  | policyGetDigest _ =>
    obtain ⟨-, -, -, rfl⟩ := execute_policyGetDigest.mp h
    rfl
  | flushContext _ =>
    obtain ⟨_, -, rfl⟩ := execute_flushContext.mp h
    rfl
  | create _ _ _ _ =>
    obtain ⟨_, -, -, rfl⟩ := execute_create.mp h
    rfl
  | load _ _ _ _ =>
    obtain ⟨_, _, -, -, -, rfl⟩ := execute_load.mp h
    rfl
  | «unseal» _ _ =>
    obtain ⟨-, -, -, -, -, -, -, -, rfl⟩ := execute_unseal.mp h
    rfl

/-- The PCRs change only as others may change them. -/
theorem runs_instant {x : Program Command Command.Ans α}
    (h : Program.Runs chip.responds (Interferes changes) x d a d') :
    Relation.ReflTransGen changes d.instant d'.instant := by
  induction h with
  | done a s => exact .refl
  | call hinterferes hresponds _ ih =>
    refine .head hinterferes.instant ?_
    obtain ⟨_, -, hexecute⟩ | ⟨-, rfl⟩ := hresponds
    · rwa [execute_instant hexecute] at ih
    · exact ih

end Commands

/-- The policy of a descriptor from a digest on. -/
def Chip.policyFrom (chip : Chip) (policy : Bytes) (descriptor : Descriptor) : Bytes :=
  chip.commandPolicy (chip.pcrPolicy policy (selected descriptor.tpmPcrMask)
    descriptor.tpmPcrDigest.toList) .unseal

/-- The policy of the objects that are sealed for a descriptor. -/
def Chip.sealedPolicy (chip : Chip) (descriptor : Descriptor) : Bytes :=
  chip.policyFrom zeroDigest descriptor

/-- The selected PCRs have the digest of the descriptor. -/
def Chip.Measures (chip : Chip) (instant : Instant) (descriptor : Descriptor) : Prop :=
  chip.pcrDigest instant (selected descriptor.tpmPcrMask) = descriptor.tpmPcrDigest.toList

section Adapter

variable {chip : Chip} {changes : Instant → Instant → Prop} {library : Library}
  {mismatch : TssError} {descriptor : Descriptor} {d d' : Device}

theorem runs_startSession {parent : Option KeyHandle} {kind : SessionType} {session : AuthSession}
    (h : Runs chip.responds (Interferes changes) (startSession parent kind) d (.ok session) d') :
    ∃ handle, session = kind.auth handle ∧
      d'.sessions handle = some (.start kind parent) ∧ Keeps d d' := by
  obtain ⟨answer, d₁, d₂, hbefore, hexecute, hanswer⟩ := runs_execute_bind.mp h
  obtain ⟨hsession, rfl⟩ := Prod.mk.inj (Except.ok.inj hexecute)
  cases hsession
  obtain ⟨hok, rfl⟩ := runs_pure.mp hanswer
  cases hok
  exact ⟨d₁.next, rfl, sessions_addSession d₁ _, hbefore.keeps.trans (keeps_addSession d₁ _)⟩

/-- The selected PCRs have the digest of the descriptor at an instant in between, since which
the update counter is the same. -/
def Measured (changes : Instant → Instant → Prop) (chip : Chip) (descriptor : Descriptor)
    (start last : Instant) : Prop :=
  ∃ instant, Relation.ReflTransGen changes start instant ∧
    Relation.ReflTransGen changes instant last ∧ instant.counter = last.counter ∧
    chip.Measures instant descriptor

/-- If every change is counted, they have it still. -/
theorem Measured.last {start last : Instant} (h : Measured changes chip descriptor start last)
    (hcounts : Counts changes descriptor.tpmPcrMask) : chip.Measures last descriptor := by
  obtain ⟨instant, -, hpath, hcounter, hmeasures⟩ := h
  have hvalues : Chip.pcrValues last (selected descriptor.tpmPcrMask) =
      Chip.pcrValues instant (selected descriptor.tpmPcrMask) := by
    simp only [Chip.pcrValues, selected, List.flatMap_cons, List.flatMap_nil, List.append_nil]
    exact List.flatMap_congr fun index hindex => hcounts.same hpath hcounter hindex
  rw [Chip.Measures, Chip.pcrDigest, hvalues]
  exact hmeasures

/-- What a session is after the policy was applied to it. -/
structure Applied (changes : Instant → Instant → Prop) (chip : Chip) (descriptor : Descriptor)
    (session bound : Session) (start instant : Instant) : Prop where
  kind : bound.kind = session.kind
  policy : bound.policy = chip.policyFrom session.policy descriptor
  command : bound.command = some .unseal
  measured : session.kind = .policy → ∃ before : Instant, chip.Measures before descriptor ∧
    bound.counter = some before.counter ∧ Relation.ReflTransGen changes start before ∧
      Relation.ReflTransGen changes before instant

/-- A policy session is bound to the registers as they are, a trial to any digest. -/
theorem bindPcr_eq_ok {digest : Bytes} {selected : PcrSelectionList} {session bound : Session}
    (h : chip.bindPcr d digest selected session = .ok bound) :
    bound.kind = session.kind ∧ bound.policy = chip.pcrPolicy session.policy selected digest ∧
      (session.kind = .policy → digest = chip.pcrDigest d.instant selected ∧
        bound.counter = some d.instant.counter) := by
  unfold Chip.bindPcr at h
  cases hkind : session.kind with
  | hmac =>
    rw [hkind] at h
    cases h
  | trial =>
    rw [hkind] at h
    cases h
    exact ⟨rfl, rfl, fun h => by cases h⟩
  | policy =>
    rw [hkind] at h
    dsimp only at h
    split_ifs at h with hdigest
    cases h
    exact ⟨rfl, rfl, fun _ => ⟨hdigest, rfl⟩⟩

/-- The policy that is applied is the descriptor's. -/
theorem runs_applyPolicy (hlibrary : library.Specified) {handle : Nat} {session : Session}
    {policy : PolicySession} (hsession : d.sessions handle = some session)
    (h : Runs chip.responds (Interferes changes)
      (applyPolicy library mismatch (.policy handle) descriptor) d
      (.ok policy) d') :
    policy = handle ∧ ∃ bound, d'.sessions handle = some bound ∧
      Applied changes chip descriptor session bound d.instant d'.instant ∧ Keeps d d' := by
  obtain ⟨_, hconverted, h⟩ := runs_ofResult_bind_ok.mp h
  cases hconverted
  obtain ⟨digest, hdigest, h⟩ := runs_ofResult_bind_ok.mp h
  obtain rfl := hlibrary.digest _ _ (mapError_eq_ok.mp hdigest)
  obtain ⟨list, hlist, h⟩ := runs_ofResult_bind_ok.mp h
  obtain rfl := selection_eq_ok hlibrary.toSpecified hlist
  obtain ⟨_, d₁, _, hbefore, hpcr, h⟩ := runs_execute_bind.mp h
  obtain ⟨found, bound, hfound, hbound, rfl⟩ := execute_policyPcr.mp hpcr
  rw [hbefore.sessions, hsession] at hfound
  cases hfound
  obtain ⟨hkind, hpolicy, hmeasured⟩ := bindPcr_eq_ok hbound
  obtain ⟨_, d₂, _, hafter, hcode, h⟩ := runs_execute_bind.mp h
  obtain ⟨found, hfound, rfl⟩ := execute_policyCommandCode.mp hcode
  have hset : d₂.sessions handle = some bound := by
    rw [hafter.sessions]
    exact sessions_setSession (by rw [hbefore.sessions, hsession]) _
  rw [hset] at hfound
  cases hfound
  obtain ⟨hok, rfl⟩ := runs_pure.mp h
  cases hok
  refine ⟨rfl, _, sessions_setSession hset _, ⟨hkind, ?_, rfl, fun hpolicyKind => ?_⟩, ?_⟩
  · rw [Chip.policyFrom, hpolicy]
  · obtain ⟨hdigest, hcounter⟩ := hmeasured hpolicyKind
    exact ⟨d₁.instant, hdigest.symm, hcounter, .single hbefore.instant, .single hafter.instant⟩
  · have hkeeps := hbefore.keeps.trans ((keeps_setSession d₁ _ _).trans hafter.keeps)
    exact hkeeps.trans (keeps_setSession d₂ _ _)

/-- The trial session gives the policy of the descriptor. -/
theorem runs_expectedPolicy (hlibrary : library.Specified) {digest : Bytes}
    (h : Runs chip.responds (Interferes changes) (expectedPolicy library mismatch descriptor) d
      (.ok digest) d') : digest = chip.sealedPolicy descriptor ∧ Keeps d d' := by
  obtain ⟨session, d₁, hstart, h⟩ := runs_bind_ok.mp h
  obtain ⟨handle, rfl, hsession, hkeeps₁⟩ := runs_startSession hstart
  obtain ⟨policy, d₂, happly, h⟩ := runs_bind_ok.mp h
  obtain ⟨rfl, bound, hbound, happlied, hkeeps₂⟩ := runs_applyPolicy hlibrary hsession happly
  obtain ⟨found, d₃, _, hbefore, hget, h⟩ := runs_execute_bind.mp h
  obtain ⟨other, hother, rfl, rfl⟩ := execute_policyGetDigest.mp hget
  rw [hbefore.sessions, hbound] at hother
  cases hother
  obtain ⟨_, d₄, _, hafter, hflush, h⟩ := runs_execute_bind.mp h
  obtain ⟨flushed, -, rfl⟩ := execute_flushContext.mp hflush
  obtain ⟨hok, rfl⟩ := runs_pure.mp h
  cases hok
  have hkeeps := (hkeeps₁.trans hkeeps₂).trans (hbefore.keeps.trans hafter.keeps)
  exact ⟨happlied.policy, hkeeps.trans (keeps_setSession d₄ _ _)⟩

/-- The parent is the primary object of the template. -/
theorem runs_createParent (hlibrary : library.Specified) {parent : KeyHandle} {name : Bytes}
    (h : Runs chip.responds (Interferes changes) (createParent library) d (.ok (parent, name)) d') :
    sha256Name library (chip.primary parentArea) = .ok name ∧
      d'.objects parent = some ⟨chip.primary parentArea, none⟩ ∧ Keeps d d' := by
  obtain ⟨template, htemplate, h⟩ := runs_ofResult_bind_ok.mp h
  obtain rfl := parentPublic_eq_ok hlibrary htemplate
  obtain ⟨⟨keyHandle, outPublic⟩, d₁, _, hbefore, hcreate, h⟩ := runs_execute_bind.mp h
  obtain ⟨hcreated, rfl⟩ := Prod.mk.inj (Except.ok.inj hcreate)
  obtain ⟨rfl, rfl⟩ := Prod.mk.inj hcreated
  obtain ⟨computed, hname, h⟩ := runs_ofResult_bind_ok.mp h
  obtain ⟨found, _, d₂, hafter, hget, h⟩ := runs_execute_bind.mp h
  obtain ⟨object, -, rfl, rfl⟩ := execute_getName.mp hget
  have hloaded : d₂.objects d₁.next = some ⟨chip.primary parentArea, none⟩ := by
    rw [hafter.objects]
    exact objects_addObject d₁ _
  split_ifs at h with hsame
  · cases (runs_ofResult.mp h).1
  · obtain ⟨hok, rfl⟩ := runs_pure.mp h
    cases hok
    exact ⟨hname, hloaded, hbefore.keeps.trans ((keeps_addObject d₁ _).trans hafter.keeps)⟩

end Adapter

/-- What unwraps was created by this TPM under this parent, and what was created unwraps. -/
structure Chip.Wraps (chip : Chip) : Prop where
  genuine : ∀ {parent area privateArea sensitive},
    chip.unwrap parent area privateArea = some sensitive →
      ∃ template nonce, chip.create parent template sensitive nonce = (area, privateArea)
  unwraps : ∀ parent template sensitive nonce,
    chip.unwrap parent (chip.create parent template sensitive nonce).1
      (chip.create parent template sensitive nonce).2 = some sensitive

section Unseal

variable {chip : Chip} {changes : Instant → Instant → Prop} {library : Library}
  {mismatch : TssError} {cbor : Cbor} {P : Crypto.Primitives} {envelope : AuthenticatedEnvelope}
  {d d' : Device}

/-- The TPM wrapped the data under the policy of the descriptor. -/
structure SealedFor (chip : Chip) (library : Library) (descriptor : Descriptor) (blob : TpmBlob)
    (sensitive : Bytes) (area : Public) : Prop where
  policy : ∃ unique : Bytes, unique.length = 32 ∧
    area = sealedArea (chip.sealedPolicy descriptor) unique
  marshalled : library.marshall area = .ok blob.publicArea
  name : sha256Name library area = .ok blob.name
  parent : sha256Name library (chip.primary parentArea) = .ok blob.parentName
  wrapped : ∃ template nonce,
    chip.create (chip.primary parentArea) template sensitive nonce = (area, blob.privateArea)

theorem parsePublic_eq_ok {blob : TpmBlob} {area : Public}
    (h : parsePublic library blob = .ok area) :
    library.unmarshall blob.publicArea = .ok area ∧
      library.marshall area = .ok blob.publicArea ∧ sha256Name library area = .ok blob.name := by
  obtain ⟨parsed, hparsed, h⟩ := bind_eq_ok.mp h
  obtain ⟨bytes, hbytes, h⟩ := bind_eq_ok.mp h
  split_ifs at h with hcanonical
  obtain ⟨name, hname, h⟩ := bind_eq_ok.mp h
  split_ifs at h with hmismatch
  cases h
  obtain ⟨hnamed, -⟩ := not_or.mp hmismatch
  rw [not_not.mp hcanonical] at hbytes
  rw [not_not.mp hnamed] at hname
  exact ⟨mapError_eq_ok.mp hparsed, mapError_eq_ok.mp hbytes, hname⟩

/-- The object's data is given out only under its policy and the PCRs of the descriptor. -/
theorem runs_release (hlibrary : library.Specified) {descriptor : Descriptor}
    {parent object : KeyHandle} {loaded : Loaded} {unsealed : UnsealedSeed}
    (hobject : d.objects object = some loaded)
    (h : Runs chip.responds (Interferes changes)
      (release library mismatch descriptor parent object) d
      (.ok unsealed) d') :
    unsealed.authorization = .localMeasuredBoot ∧
      loaded.sensitive = some unsealed.seed.toList ∧
      loaded.area.authPolicy = chip.sealedPolicy descriptor ∧
      Measured changes chip descriptor d.instant d'.instant := by
  obtain ⟨session, d₁, hstart, h⟩ := runs_bind_ok.mp h
  obtain ⟨handle, rfl, hsession, hkeeps₁⟩ := runs_startSession hstart
  obtain ⟨_, d₂, happly, h⟩ := runs_bind_ok.mp h
  obtain ⟨-, bound, hbound, happlied, hkeeps₂⟩ := runs_applyPolicy hlibrary hsession happly
  obtain ⟨_, d₃, hprotect, h⟩ := runs_bind_ok.mp h
  obtain ⟨d₄, hbefore, hset⟩ := runs_execute.mp hprotect
  obtain ⟨_, found, hhandle, hfound, rfl⟩ := execute_setAttributes.mp hset
  cases hhandle
  have hprotected := sessions_setSession hfound
  rw [hbefore.sessions, hbound] at hfound
  cases hfound
  obtain ⟨sensitive, _, d₅, hlast, hunseal, h⟩ := runs_execute_bind.mp h
  obtain ⟨_, used, opened, hsame, hused, hopened, hauthorizes, hsensitive, rfl⟩ :=
    execute_unseal.mp hunseal
  cases hsame
  -- The session and the object are those of the steps before.
  rw [hlast.sessions, hprotected] at hused
  cases hused
  have hkept := ((hkeeps₁.trans hkeeps₂).trans hbefore.keeps) _ _ hobject
  rw [hlast.objects] at hopened
  cases hkept.symm.trans hopened
  obtain ⟨-, hpolicy, -, hcounter⟩ := of_decide_eq_true hauthorizes
  obtain ⟨before, hmeasures, hcounted, hstarted, hlater⟩ := happlied.measured rfl
  rw [hcounted] at hcounter
  cases hseed : tryInto 32 sensitive with
  | none =>
    rw [hseed] at h
    cases (runs_ofResult.mp h).1
  | some seed =>
    rw [hseed] at h
    obtain ⟨hok, rfl⟩ := runs_pure.mp h
    cases hok
    refine ⟨rfl, ?_, hpolicy.symm.trans happlied.policy, ?_⟩
    · rw [hsensitive, tryInto_eq_some.mp hseed]
    · exact ⟨before, (runs_instant hstart).trans hstarted,
        (hlater.tail hbefore.instant).tail hlast.instant, of_decide_eq_true hcounter, hmeasures⟩

/-- What is unsealed was sealed for the descriptor, and the registers matched it. -/
theorem runs_unsealSeed (hlibrary : library.Specified) (hchip : chip.Wraps)
    {unsealed : UnsealedSeed}
    (h : Runs chip.responds (Interferes changes) (unsealSeed library cbor P mismatch envelope) d
      (.ok unsealed) d') :
    requireNetworkBound cbor P envelope.body.descriptor = .ok () ∧
      unsealed.authorization = .localMeasuredBoot ∧
      (∃ area, library.unmarshall envelope.body.tpm.publicArea = .ok area ∧
        SealedFor chip library envelope.body.descriptor envelope.body.tpm unsealed.seed.toList
          area) ∧
      Measured changes chip envelope.body.descriptor d.instant d'.instant := by
  unfold unsealSeed at h
  obtain ⟨_, hbound, h⟩ := runs_ofResult_bind_ok.mp h
  obtain ⟨area, harea, h⟩ := runs_ofResult_bind_ok.mp h
  obtain ⟨hunmarshall, hmarshall, hname⟩ := parsePublic_eq_ok harea
  obtain ⟨privateArea, hprivate, h⟩ := runs_ofResult_bind_ok.mp h
  obtain rfl := hlibrary.privateArea _ _ (mapError_eq_ok.mp hprivate)
  obtain ⟨_, d₁, hcontext, h⟩ := runs_bind_ok.mp h
  obtain ⟨authPolicy, d₂, hexpected, h⟩ := runs_bind_ok.mp h
  have hpath₂ := (runs_instant hcontext).trans (runs_instant hexpected)
  obtain ⟨rfl, -⟩ := runs_expectedPolicy hlibrary hexpected
  obtain ⟨_, hvalid, h⟩ := runs_ofResult_bind_ok.mp h
  have hsealed := validatePublic_eq_ok hlibrary hvalid
  obtain ⟨⟨parent, parentName⟩, d₃, hparent, h⟩ := runs_bind_ok.mp h
  obtain ⟨hparentName, hprimary, -⟩ := runs_createParent hlibrary hparent
  dsimp only at h
  split_ifs at h with hidentity
  · cases (runs_ofResult.mp h).1
  rw [not_not.mp hidentity] at hparentName
  obtain ⟨object, d₄, _, hbefore, hload, h⟩ := runs_execute_bind.mp h
  obtain ⟨found, sensitive, hfound, hunwrap, rfl, rfl⟩ := execute_load.mp hload
  rw [hbefore.objects, hprimary] at hfound
  cases hfound
  obtain ⟨_, _, d₅, hnamed, hgetName, h⟩ := runs_execute_bind.mp h
  obtain ⟨_, -, -, rfl⟩ := execute_getName.mp hgetName
  have hobject : d₅.objects d₄.next = some ⟨area, some sensitive⟩ := by
    rw [hnamed.objects]
    exact objects_addObject d₄ _
  split_ifs at h with hsame
  · cases (runs_ofResult.mp h).1
  obtain ⟨hauthorization, hseed, -, instant, hstarted, hmeasured⟩ :=
    runs_release hlibrary hobject h
  cases hseed
  have hpath₅ := ((hpath₂.trans (runs_instant hparent)).tail hbefore.instant).tail hnamed.instant
  exact ⟨hbound, hauthorization, ⟨area, hunmarshall, hsealed, hmarshall, hname, hparentName,
    hchip.genuine hunwrap⟩, instant, hpath₅.trans hstarted, hmeasured⟩

end Unseal

section Seal

variable {chip : Chip} {changes : Instant → Instant → Prop} {library : Library}
  {mismatch : TssError} {cbor : Cbor} {P : Crypto.Primitives} {descriptor : Descriptor}
  {seed : Sss.Secret} {d d' : Device}

/-- What is sealed is sealed for the descriptor. -/
theorem runs_sealSeed (hlibrary : library.Specified) {blob : TpmBlob}
    (h : Runs chip.responds (Interferes changes)
      (sealSeed library cbor P mismatch descriptor seed) d
      (.ok blob) d') :
    requireNetworkBound cbor P descriptor = .ok () ∧
      ∃ area, SealedFor chip library descriptor blob seed.toList area := by
  unfold sealSeed at h
  obtain ⟨_, hbound, h⟩ := runs_ofResult_bind_ok.mp h
  obtain ⟨_, d₁, -, h⟩ := runs_bind_ok.mp h
  obtain ⟨authPolicy, d₂, hexpected, h⟩ := runs_bind_ok.mp h
  obtain ⟨rfl, -⟩ := runs_expectedPolicy hlibrary hexpected
  obtain ⟨⟨parent, parentName⟩, d₃, hparent, h⟩ := runs_bind_ok.mp h
  obtain ⟨hparentName, hprimary, -⟩ := runs_createParent hlibrary hparent
  dsimp only at h
  obtain ⟨session, d₄, hstart, h⟩ := runs_bind_ok.mp h
  obtain ⟨_, -, -, hkeeps₄⟩ := runs_startSession hstart
  obtain ⟨_, d₅, hprotect, h⟩ := runs_bind_ok.mp h
  have hkeeps₅ : Keeps d₄ d₅ := by
    obtain ⟨d₆, hbefore, hset⟩ := runs_execute.mp hprotect
    obtain ⟨handle, found, -, -, rfl⟩ := execute_setAttributes.mp hset
    exact hbefore.keeps.trans (keeps_setSession d₆ _ _)
  obtain ⟨template, htemplate, h⟩ := runs_ofResult_bind_ok.mp h
  obtain ⟨sensitive, hsensitive, h⟩ := runs_ofResult_bind_ok.mp h
  obtain rfl := hlibrary.sensitiveData _ _ (mapError_eq_ok.mp hsensitive)
  obtain ⟨⟨outPublic, outPrivate⟩, d₆, d₇, hbefore, hcreate, h⟩ := runs_execute_bind.mp h
  obtain ⟨found, hfound, hcreated, -⟩ := execute_create.mp hcreate
  rw [hbefore.objects, (hkeeps₄.trans hkeeps₅) _ _ hprimary] at hfound
  cases hfound
  obtain ⟨_, hvalid, h⟩ := runs_ofResult_bind_ok.mp h
  obtain ⟨name, hname, h⟩ := runs_ofResult_bind_ok.mp h
  obtain ⟨bytes, hbytes, h⟩ := runs_ofResult_bind_ok.mp h
  obtain ⟨hok, -⟩ := runs_pure.mp h
  cases hok
  exact ⟨hbound, outPublic, validatePublic_eq_ok hlibrary hvalid, mapError_eq_ok.mp hbytes, hname,
    hparentName, template, d₆.next, hcreated.symm⟩

theorem mode_of_bound (h : requireNetworkBound cbor P descriptor = .ok ()) :
    descriptor.policy.mode = .networkBound := by
  unfold requireNetworkBound at h
  split_ifs at h with hmode
  exact not_not.mp hmode

theorem validateMask_of_bound (h : requireNetworkBound cbor P descriptor = .ok ()) :
    validateMask descriptor.tpmPcrMask = .ok () := by
  unfold requireNetworkBound at h
  split_ifs at h
  obtain ⟨bytes, hbytes, -⟩ := bind_eq_ok.mp h
  have hfields := (descriptorBytes_eq_ok.mp (mapError_eq_ok.mp hbytes)).1.fields
  refine if_neg fun hmask => hfields ?_
  exact .inr (.inr (.inr (.inr hmask)))

/-- One blob has one object, with one content. -/
theorem SealedFor.agree (hlibrary : library.Specified) (hchip : chip.Wraps)
    {descriptor' : Descriptor} {blob : TpmBlob} {sensitive sensitive' : Bytes}
    {area area' : Public} (h : SealedFor chip library descriptor blob sensitive area)
    (h' : SealedFor chip library descriptor' blob sensitive' area')
    (hparsed : library.unmarshall blob.publicArea = .ok area') :
    sensitive' = sensitive ∧ chip.sealedPolicy descriptor' = chip.sealedPolicy descriptor := by
  obtain rfl := hlibrary.unmarshall _ _ _ h.marshalled hparsed
  obtain ⟨template, nonce, hcreate⟩ := h.wrapped
  obtain ⟨template', nonce', hcreate'⟩ := h'.wrapped
  have hunwraps := hchip.unwraps (chip.primary parentArea) template sensitive nonce
  have hunwraps' := hchip.unwraps (chip.primary parentArea) template' sensitive' nonce'
  rw [hcreate] at hunwraps
  rw [hcreate', hunwraps] at hunwraps'
  obtain ⟨unique, -, harea⟩ := h.policy
  obtain ⟨unique', -, harea'⟩ := h'.policy
  have hsame := harea'.symm.trans harea
  unfold sealedArea at hsame
  exact ⟨(Option.some.inj hunwraps').symm, (Public.keyedHash.inj hsame).2.2.1⟩

end Seal

end Leelo.Tpm
