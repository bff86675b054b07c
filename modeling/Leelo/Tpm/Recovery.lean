import Leelo.Tpm.Binding

/-!
# Sealed seeds are recovered

A TPM that only fails when it must gives a sealed seed back exactly if the selected PCRs have
the digest of the descriptor. The device may have restarted in between; what counts is the
owner hierarchy and the PCRs.
-/

namespace Leelo.Tpm

open Leelo.Core Leelo.Core.Fallible Leelo.Envelope
open Leelo.Engine (EngineError UnsealedSeed)

/-- The public areas that the adapter meets. -/
inductive Chip.Meets (chip : Chip) : Public → Prop
  | parent : chip.Meets (chip.primary parentArea)
  | sealed (descriptor : Descriptor) (unique : Bytes) (h : unique.length = 32) :
    chip.Meets (sealedArea (chip.sealedPolicy descriptor) unique)

/-- The library builds what the adapter asks for, and the TPM creates what a template says. -/
structure Healthy (chip : Chip) (library : Library) : Prop where
  specified : library.Specified
  wraps : chip.Wraps
  slot : ∀ index, ∃ slot, library.slot (bit index) = .ok slot
  build : ∀ slots, ∃ list, library.build .sha256 slots = .ok list
  parent : ∃ area, parentPublic library = .ok area
  template : ∀ descriptor, ∃ area, sealedPublic library (chip.sealedPolicy descriptor) = .ok area
  marshall : ∀ area, chip.Meets area → ∃ bytes parsed, library.marshall area = .ok bytes ∧
    library.unmarshall bytes = .ok parsed
  digest : ∀ value : Vector UInt8 32, ∃ built, library.digest value.toList = .ok built
  sensitiveData : ∀ value : Vector UInt8 32, ∃ built,
    library.sensitiveData value.toList = .ok built
  privateArea : ∀ parent template sensitive nonce,
    ∃ built, library.privateArea (chip.create parent template sensitive nonce).2 = .ok built
  name : ∀ area name, sha256Name library area = .ok name → chip.name area = name
  primary : (chip.primary parentArea).nameHashingAlgorithm = .sha256
  created : ∀ parent descriptor sensitive nonce, ∃ unique : Bytes, unique.length = 32 ∧
    (chip.create parent (sealedArea (chip.sealedPolicy descriptor) []) sensitive nonce).1 =
      sealedArea (chip.sealedPolicy descriptor) unique

section Commands

variable {chip : Chip} {d d' : Device} {command : Command}

theorem Interferes.refl (d : Device) : Interferes Eq d d := ⟨rfl, rfl, rfl, rfl⟩

variable {α : Type}

/-- What such a TPM does is a run in which no PCR changes. -/
theorem runs_of_runWith {x : Commands α} {result : Except EngineError α}
    (h : x.runWith chip.perform d = (result, d')) :
    Runs chip.responds (Interferes Eq) x d result d' := by
  have hrun := Program.runs_runWith
    (fun command d => ⟨d, Interferes.refl d, chip.responds_perform command d⟩) x d
  rwa [h] at hrun

/-- Without other contexts no PCR changes. -/
theorem runWith_instant (chip : Chip) (x : Program Command Command.Ans α) (d : Device) :
    (x.runWith chip.perform d).2.instant = d.instant := by
  induction x generalizing d with
  | done a => rfl
  | call command next ih =>
    refine (ih _ _).trans ?_
    unfold Chip.perform
    cases hexecute : chip.execute command d with
    | error error => rfl
    | ok answer => exact execute_instant hexecute

theorem succeeds_bind {β : Type} {x : Commands α} {f : α → Commands β}
    (hx : Succeeds chip.perform x d)
    (hf : ∀ a d', Runs chip.responds (Interferes Eq) x d (.ok a) d' → d'.instant = d.instant →
      Succeeds chip.perform (f a) d') :
    Succeeds chip.perform (x >>= f) d := by
  refine hx.bind fun a d' h => hf a d' (runs_of_runWith h) ?_
  have hinstant := runWith_instant chip x d
  rwa [h] at hinstant

theorem succeeds_execute {operation : String} {result : command.Result}
    (h : chip.execute command d = .ok (result, d')) :
    Succeeds chip.perform (execute operation command) d := by
  have hperform : chip.perform command d = (.ok result, d') := by rw [Chip.perform, h]
  refine ⟨result, d', ?_⟩
  unfold execute
  refine (Program.runWith_bind chip.perform (perform command) _ d).trans ?_
  change ((proceed _ (.ok (chip.perform command d).1)).runWith _ (chip.perform command d).2) = _
  rw [hperform]
  rfl

end Commands

section Adapter

variable {chip : Chip} {library : Library} {mismatch : TssError} {descriptor : Descriptor}
  {d : Device}

/-- A session starts. -/
theorem succeeds_startSession (parent : Option KeyHandle) (kind : SessionType) :
    Succeeds chip.perform (startSession parent kind) d := by
  refine ⟨kind.auth d.next, d.addSession (.start kind parent), ?_⟩
  rfl

/-- A valid mask has a selection. -/
theorem exists_selection (h : Healthy chip library) {mask : UInt32}
    (hmask : validateMask mask = .ok ()) :
    ∃ list, selection library.toTss mask = .ok list := by
  have hslots : ∀ indices : List PcrSlot, ∃ slots,
      (indices.mapM fun index => library.slot (bit index)) = .ok slots := by
    intro indices
    induction indices with
    | nil => exact ⟨[], rfl⟩
    | cons index indices ih =>
      obtain ⟨slot, hslot⟩ := h.slot index
      obtain ⟨slots, hrest⟩ := ih
      refine ⟨slot :: slots, ?_⟩
      rw [List.mapM_cons, hslot, hrest]
      rfl
  obtain ⟨slots, hslots⟩ := hslots ((List.finRange 24).filter fun index => mask &&& bit index ≠ 0)
  obtain ⟨list, hlist⟩ := h.build slots
  refine ⟨list, ?_⟩
  exact bind_eq_ok.mpr ⟨(), hmask, bind_eq_ok.mpr ⟨slots, mapError_eq_ok.mpr hslots,
    mapError_eq_ok.mpr hlist⟩⟩

/-- The policy is applied, to a trial or to matching registers. -/
theorem succeeds_applyPolicy (h : Healthy chip library) {handle : Nat} {session : Session}
    (hmask : validateMask descriptor.tpmPcrMask = .ok ())
    (hsession : d.sessions handle = some session)
    (hkind : session.kind = .trial ∨ session.kind = .policy ∧ chip.Measures d.instant descriptor) :
    Succeeds chip.perform (applyPolicy library mismatch (.policy handle) descriptor) d := by
  obtain ⟨digest, hdigest⟩ := h.digest descriptor.tpmPcrDigest
  obtain ⟨list, hlist⟩ := exists_selection h hmask
  obtain rfl := selection_eq_ok h.specified.toSpecified hlist
  have hbuilt := h.specified.digest _ _ hdigest
  rw [hbuilt] at hdigest
  obtain ⟨bound, hbound⟩ : ∃ bound, chip.bindPcr d descriptor.tpmPcrDigest.toList
      (selected descriptor.tpmPcrMask) session = .ok bound := by
    unfold Chip.bindPcr
    obtain hkind | ⟨hkind, hmeasures⟩ := hkind
    · rw [hkind]
      exact ⟨_, rfl⟩
    · rw [hkind]
      exact ⟨_, if_pos (Eq.symm hmeasures)⟩
  unfold applyPolicy
  refine succeeds_ofResult_bind (mapError_eq_ok.mpr rfl) ?_
  refine succeeds_ofResult_bind (mapError_eq_ok.mpr hdigest) ?_
  refine succeeds_ofResult_bind hlist ?_
  refine succeeds_bind (succeeds_execute (execute_policyPcr.mpr
    ⟨session, bound, hsession, hbound, rfl⟩)) fun _ d₁ hrun _ => ?_
  obtain ⟨d₂, hbefore, hset⟩ := runs_execute.mp hrun
  obtain ⟨found, after, hfound, -, rfl⟩ := execute_policyPcr.mp hset
  exact succeeds_bind (succeeds_execute (execute_policyCommandCode.mpr
    ⟨after, sessions_setSession hfound _, rfl⟩)) fun _ d₃ _ _ => ⟨_, _, rfl⟩

theorem succeeds_expectedPolicy (h : Healthy chip library)
    (hmask : validateMask descriptor.tpmPcrMask = .ok ()) :
    Succeeds chip.perform (expectedPolicy library mismatch descriptor) d := by
  unfold expectedPolicy
  refine succeeds_bind (succeeds_startSession none .trial) fun session d₁ hstart _ => ?_
  obtain ⟨handle, rfl, hsession, -⟩ := runs_startSession hstart
  refine succeeds_bind (succeeds_applyPolicy h hmask hsession (.inl rfl))
    fun policy d₂ happly _ => ?_
  obtain ⟨rfl, bound, hbound, -, -⟩ := runs_applyPolicy h.specified hsession happly
  refine succeeds_bind (succeeds_execute (execute_policyGetDigest.mpr ⟨bound, hbound, rfl, rfl⟩))
    fun digest d₃ _ _ => ?_
  exact succeeds_bind (succeeds_execute (execute_flushContext.mpr ⟨policy, rfl, rfl⟩))
    fun _ d₄ _ _ => ⟨_, _, rfl⟩

variable {area : Public} {seed : Sss.Secret} {cbor : Cbor} {P : Crypto.Primitives}
  {envelope : AuthenticatedEnvelope}

theorem exists_sha256Name (h : Healthy chip library) (hmeets : chip.Meets area)
    (harea : area.nameHashingAlgorithm = .sha256) :
    ∃ name, sha256Name library area = .ok name := by
  obtain ⟨bytes, _, hbytes, -⟩ := h.marshall area hmeets
  unfold sha256Name
  rw [if_neg (not_not.mpr harea), mapError_eq_ok.mpr hbytes]
  exact ⟨_, rfl⟩

/-- The parent is created. -/
theorem succeeds_createParent (h : Healthy chip library) :
    Succeeds chip.perform (createParent library) d := by
  obtain ⟨template, htemplate⟩ := h.parent
  obtain ⟨name, hname⟩ := exists_sha256Name h .parent h.primary
  unfold createParent
  refine succeeds_ofResult_bind htemplate ?_
  obtain rfl := parentPublic_eq_ok h.specified htemplate
  have hcreate : chip.execute (.createPrimary .password parentArea) d =
    .ok ((d.next, chip.primary parentArea), d.addObject ⟨chip.primary parentArea, none⟩) := rfl
  refine succeeds_bind (succeeds_execute hcreate) fun answer d₁ hrun _ => ?_
  obtain ⟨d₂, hbefore, hexecute⟩ := runs_execute.mp hrun
  obtain ⟨hanswer, rfl⟩ := Prod.mk.inj (Except.ok.inj hexecute)
  obtain rfl := hanswer
  refine succeeds_ofResult_bind hname ?_
  refine succeeds_bind (succeeds_execute (execute_getName.mpr
    ⟨_, objects_addObject d₂ _, rfl, rfl⟩)) fun found d₃ hget _ => ?_
  obtain ⟨d₄, hafter, hget⟩ := runs_execute.mp hget
  obtain ⟨object, hobject, rfl, rfl⟩ := execute_getName.mp hget
  rw [hafter.objects, objects_addObject] at hobject
  cases hobject
  rw [if_neg (not_not.mpr (h.name _ _ hname))]
  exact ⟨_, _, rfl⟩

/-- A sealed object is released while the registers match. -/
theorem succeeds_release (h : Healthy chip library) {parent object : KeyHandle}
    (hmask : validateMask descriptor.tpmPcrMask = .ok ())
    (hobject : d.objects object = some ⟨area, some seed.toList⟩)
    (hpolicy : area.authPolicy = chip.sealedPolicy descriptor)
    (hmeasures : chip.Measures d.instant descriptor) :
    Succeeds chip.perform (release library mismatch descriptor parent object) d := by
  unfold release
  refine succeeds_bind (succeeds_startSession (some parent) .policy) fun session d₁ hstart hi₁ => ?_
  obtain ⟨handle, rfl, hsession, hkeeps₁⟩ := runs_startSession hstart
  have hmeasures₁ : chip.Measures d₁.instant descriptor := by rwa [hi₁]
  refine succeeds_bind (succeeds_applyPolicy h hmask hsession (.inr ⟨rfl, hmeasures₁⟩))
    fun policy d₂ happly hi₂ => ?_
  obtain ⟨-, bound, hbound, happlied, hkeeps₂⟩ := runs_applyPolicy h.specified hsession happly
  refine succeeds_bind (succeeds_execute (execute_setAttributes.mpr
    ⟨handle, bound, rfl, hbound, rfl⟩)) fun _ d₃ hprotect hi₃ => ?_
  obtain ⟨d₄, hbefore, hset⟩ := runs_execute.mp hprotect
  obtain ⟨_, found, hhandle, hfound, rfl⟩ := execute_setAttributes.mp hset
  cases hhandle
  have hprotected := sessions_setSession hfound
  rw [hbefore.sessions, hbound] at hfound
  cases hfound
  have hkept := ((hkeeps₁.trans hkeeps₂).trans hbefore.keeps) _ _ hobject
  -- No PCR changed, so the session is still bound to the PCRs as they are.
  have hauthorizes : Chip.authorizes d₄.instant
      { bound with decrypt := false, encrypt := true } ⟨area, some seed.toList⟩ = true := by
    obtain ⟨before, -, hcounter, -, hend⟩ := happlied.measured rfl
    rw [Relation.reflTransGen_eq_self] at hend
    have hi₄ : d₄.instant = d₂.instant := hi₃
    have hsame : before.counter = d₄.instant.counter := by rw [hend, hi₄]
    refine decide_eq_true ⟨happlied.kind, happlied.policy.trans hpolicy.symm, ?_, ?_⟩
    · change bound.command.all _ = true
      rw [happlied.command]
      rfl
    · change bound.counter.all _ = true
      rw [hcounter]
      exact decide_eq_true hsame
  refine succeeds_bind (succeeds_execute (execute_unseal.mpr ⟨handle, _, _, rfl, hprotected _,
    hkept, hauthorizes, rfl, rfl⟩)) fun sensitive d₅ hunseal _ => ?_
  obtain ⟨d₆, hlast, hunseal⟩ := runs_execute.mp hunseal
  obtain ⟨_, _, opened, -, -, hopened, -, hsensitive, rfl⟩ := execute_unseal.mp hunseal
  rw [hlast.objects] at hopened
  cases hkept.symm.trans hopened
  cases hsensitive
  rw [tryInto_toList]
  exact ⟨_, _, rfl⟩

/-- A name has 34 bytes. -/
theorem length_sha256Name {name : Bytes} (h : sha256Name library area = .ok name) :
    name.length = 34 := by
  unfold sha256Name at h
  split_ifs at h
  obtain ⟨bytes, -, h⟩ := bind_eq_ok.mp h
  cases h
  rw [List.length_append, Vector.length_toList]
  rfl

theorem validatePublic_sealedArea (h : Healthy chip library) {unique : Bytes}
    (hunique : unique.length = 32) :
    validatePublic library (sealedArea (chip.sealedPolicy descriptor) unique)
      (chip.sealedPolicy descriptor) = .ok () := by
  obtain ⟨area, harea⟩ := h.template descriptor
  obtain ⟨attributes, hattributes, -⟩ := bind_eq_ok.mp harea
  refine bind_eq_ok.mpr ⟨attributes, hattributes, ?_⟩
  exact if_pos ⟨(sealedAttributes_eq_ok h.specified hattributes).symm, rfl, rfl, rfl, hunique⟩

theorem parsePublic_sealed (h : Healthy chip library) {blob : TpmBlob} {sensitive : Bytes}
    (hsealed : SealedFor chip library descriptor blob sensitive area) :
    parsePublic library blob = .ok area := by
  have hmeets : chip.Meets area := by
    obtain ⟨unique, hunique, rfl⟩ := hsealed.policy
    exact .sealed descriptor unique hunique
  obtain ⟨bytes, parsed, hbytes, hparsed⟩ := h.marshall area hmeets
  obtain rfl := Except.ok.inj (hbytes.symm.trans hsealed.marshalled)
  obtain rfl := h.specified.unmarshall _ _ _ hbytes hparsed
  refine bind_eq_ok.mpr ⟨parsed, mapError_eq_ok.mpr hparsed, bind_eq_ok.mpr
    ⟨blob.publicArea, mapError_eq_ok.mpr hbytes, ?_⟩⟩
  rw [if_neg (not_not.mpr rfl)]
  refine bind_eq_ok.mpr ⟨blob.name, hsealed.name, ?_⟩
  rw [if_neg (not_or.mpr ⟨not_not.mpr rfl, not_not.mpr (length_sha256Name hsealed.parent)⟩)]

/-- A sealed seed is unsealed while the registers match. -/
theorem succeeds_unsealSeed (h : Healthy chip library)
    (hbound : requireNetworkBound cbor P envelope.body.descriptor = .ok ())
    (hsealed : SealedFor chip library envelope.body.descriptor envelope.body.tpm seed.toList area)
    (hmeasures : chip.Measures d.instant envelope.body.descriptor) :
    Succeeds chip.perform (unsealSeed library cbor P mismatch envelope) d := by
  have hmask := validateMask_of_bound hbound
  obtain ⟨unique, hunique, harea⟩ := hsealed.policy
  obtain ⟨template, nonce, hcreate⟩ := hsealed.wrapped
  have hunwrap := h.wraps.unwraps (chip.primary parentArea) template seed.toList nonce
  obtain ⟨privateArea, hprivate⟩ :=
    h.privateArea (chip.primary parentArea) template seed.toList nonce
  rw [hcreate] at hunwrap hprivate
  obtain rfl := h.specified.privateArea _ _ hprivate
  unfold unsealSeed
  refine succeeds_ofResult_bind hbound ?_
  refine succeeds_ofResult_bind (parsePublic_sealed h hsealed) ?_
  refine succeeds_ofResult_bind (mapError_eq_ok.mpr hprivate) ?_
  have hcontext : chip.execute .context d = .ok ((), d) := rfl
  refine succeeds_bind (succeeds_execute hcontext) fun _ d₁ _ hi₁ => ?_
  refine succeeds_bind (succeeds_expectedPolicy h hmask) fun authPolicy d₂ hexpected hi₂ => ?_
  obtain ⟨rfl, -⟩ := runs_expectedPolicy h.specified hexpected
  have hvalid :
      validatePublic library area (chip.sealedPolicy envelope.body.descriptor) = .ok () := by
    rw [harea]
    exact validatePublic_sealedArea h hunique
  refine succeeds_ofResult_bind hvalid ?_
  refine succeeds_bind (succeeds_createParent h) fun answer d₃ hparent hi₃ => ?_
  obtain ⟨parent, parentName⟩ := answer
  obtain ⟨hparentName, hprimary, -⟩ := runs_createParent h.specified hparent
  obtain rfl := Except.ok.inj (hsealed.parent.symm.trans hparentName)
  dsimp only
  rw [if_neg (not_not.mpr rfl)]
  refine succeeds_bind (succeeds_execute (execute_load.mpr
    ⟨_, seed.toList, hprimary, hunwrap, rfl, rfl⟩)) fun object d₄ hload hi₄ => ?_
  obtain ⟨d₅, hbefore, hload⟩ := runs_execute.mp hload
  obtain ⟨found, sensitive, hfound, hfoundUnwrap, rfl, rfl⟩ := execute_load.mp hload
  rw [hbefore.objects, hprimary] at hfound
  cases hfound
  cases hunwrap.symm.trans hfoundUnwrap
  refine succeeds_bind (succeeds_execute (execute_getName.mpr
    ⟨_, objects_addObject d₅ _, rfl, rfl⟩)) fun name d₆ hget hi₆ => ?_
  obtain ⟨d₇, hafter, hget⟩ := runs_execute.mp hget
  obtain ⟨object, hobject, rfl, rfl⟩ := execute_getName.mp hget
  have hkept : d₆.objects d₅.next = some ⟨area, some seed.toList⟩ := by
    rw [hafter.objects]
    exact objects_addObject d₅ _
  cases hkept.symm.trans hobject
  rw [if_neg (not_not.mpr (h.name _ _ hsealed.name))]
  refine succeeds_release h hmask hkept (by rw [harea]; rfl) ?_
  rwa [hi₆, hi₄, hi₃, hi₂, hi₁]

/-- Sealing does not depend on the PCRs as they are. -/
theorem succeeds_sealSeed (h : Healthy chip library)
    (hbound : requireNetworkBound cbor P descriptor = .ok ()) :
    Succeeds chip.perform (sealSeed library cbor P mismatch descriptor seed) d := by
  have hmask := validateMask_of_bound hbound
  obtain ⟨sensitive, hsensitive⟩ := h.sensitiveData seed
  obtain rfl := h.specified.sensitiveData _ _ hsensitive
  obtain ⟨template, hsealedPublic⟩ := h.template descriptor
  unfold sealSeed
  refine succeeds_ofResult_bind hbound ?_
  have hcontext : chip.execute .context d = .ok ((), d) := rfl
  refine succeeds_bind (succeeds_execute hcontext) fun _ d₁ _ _ => ?_
  refine succeeds_bind (succeeds_expectedPolicy h hmask) fun authPolicy d₂ hexpected _ => ?_
  obtain ⟨rfl, -⟩ := runs_expectedPolicy h.specified hexpected
  refine succeeds_bind (succeeds_createParent h) fun answer d₃ hparent _ => ?_
  obtain ⟨parent, parentName⟩ := answer
  obtain ⟨-, hprimary, -⟩ := runs_createParent h.specified hparent
  dsimp only
  refine succeeds_bind (succeeds_startSession (some parent) .hmac) fun session d₄ hstart _ => ?_
  obtain ⟨handle, rfl, hsession, hkeeps₄⟩ := runs_startSession hstart
  refine succeeds_bind (succeeds_execute (execute_setAttributes.mpr
    ⟨handle, _, rfl, hsession, rfl⟩)) fun _ d₅ hprotect _ => ?_
  obtain ⟨d₆, hbefore, hset⟩ := runs_execute.mp hprotect
  obtain ⟨_, _, -, -, rfl⟩ := execute_setAttributes.mp hset
  have hkept := (hkeeps₄.trans hbefore.keeps) _ _ hprimary
  refine succeeds_ofResult_bind hsealedPublic ?_
  obtain rfl := sealedPublic_eq_ok h.specified hsealedPublic
  refine succeeds_ofResult_bind (mapError_eq_ok.mpr hsensitive) ?_
  refine succeeds_bind (succeeds_execute (execute_create.mpr ⟨_, hkept, rfl, rfl⟩))
    fun out d₇ hcreate _ => ?_
  obtain ⟨d₈, hlast, hcreate⟩ := runs_execute.mp hcreate
  obtain ⟨found, hfound, rfl, -⟩ := execute_create.mp hcreate
  obtain ⟨unique, hunique, harea⟩ :=
    h.created found.area descriptor seed.toList d₈.next
  rw [harea]
  refine succeeds_ofResult_bind (validatePublic_sealedArea h hunique) ?_
  have hmeets : chip.Meets (sealedArea (chip.sealedPolicy descriptor) unique) :=
    .sealed descriptor unique hunique
  obtain ⟨name, hname⟩ := exists_sha256Name h hmeets rfl
  obtain ⟨bytes, _, hbytes, -⟩ := h.marshall _ hmeets
  refine succeeds_ofResult_bind hname ?_
  refine succeeds_ofResult_bind (mapError_eq_ok.mpr hbytes) ?_
  exact ⟨_, _, rfl⟩

theorem measures_of_runWith (h : Healthy chip library) {unsealed : UnsealedSeed}
    (hok : ((unsealSeed library cbor P mismatch envelope).runWith chip.perform d).1 =
      .ok unsealed) : chip.Measures d.instant envelope.body.descriptor := by
  obtain ⟨-, -, -, instant, hpath, -, -, hmeasures⟩ :=
    runs_unsealSeed h.specified h.wraps (runs_of_runWith (Prod.ext hok rfl))
  rw [Relation.reflTransGen_eq_self] at hpath
  rwa [hpath]

/-- A sealed seed comes back on the PCRs of its descriptor. -/
theorem runWith_unsealSeed (h : Healthy chip library) {d₀ d₁ : Device}
    {changes : Instant → Instant → Prop} (hseal : Runs chip.responds (Interferes changes)
      (sealSeed library cbor P mismatch envelope.body.descriptor seed) d₀
      (.ok envelope.body.tpm) d₁) (hmeasures : chip.Measures d.instant envelope.body.descriptor) :
    ((unsealSeed library cbor P mismatch envelope).runWith chip.perform d).1 =
      .ok ⟨seed, .localMeasuredBoot⟩ := by
  obtain ⟨hbound, area, hsealed⟩ := runs_sealSeed h.specified hseal
  obtain ⟨unsealed, d', hrun⟩ := succeeds_unsealSeed h hbound hsealed hmeasures
  obtain ⟨-, hauthorization, ⟨area', hparsed, hsealed'⟩, -⟩ :=
    runs_unsealSeed h.specified h.wraps (runs_of_runWith hrun)
  have hseed := Vector.toList_inj.mp (hsealed.agree h.specified h.wraps hsealed' hparsed).1
  rw [hrun]
  cases unsealed
  cases hauthorization
  cases hseed
  rfl

end Adapter

/-- The TPM fills in the content of data objects. -/
def Public.fill : Public → Public
  | .keyedHash attributes algorithm policy parameters _ =>
    .keyedHash attributes algorithm policy parameters (List.replicate 32 0)
  | area => area

theorem Public.fill_fill (area : Public) : area.fill.fill = area.fill := by
  cases area with
  | keyedHash _ _ _ _ _ => rfl
  | ecc _ _ _ _ _ => rfl
  | other _ _ => rfl

/-- The bytes of the areas that occur. -/
def plainMarshall (area : Public) : Except TssError Bytes :=
  if area = parentArea then .ok [0]
  else match area with
    | .keyedHash _ _ policy _ unique =>
      if area = sealedArea policy unique ∧ unique.length = 32 then .ok (1 :: (unique ++ policy))
      else .error ⟨"unsupported area"⟩
    | _ => .error ⟨"unsupported area"⟩

/-- The area of the bytes. -/
def plainUnmarshall : Bytes → Except TssError Public
  | 1 :: rest => .ok (sealedArea (rest.drop 32) (rest.take 32))
  | _ => .ok parentArea

/-- A library that marshals the areas that occur. -/
def plainLibrary : Library where
  toTss := slotTss
  attributes := .ok
  eccParameters := .ok
  publicArea := .ok
  marshall := plainMarshall
  unmarshall := plainUnmarshall
  digest := .ok
  privateArea := .ok
  sensitiveData := .ok
  sha256 := Crypto.firstBytes 32

/-- An area is read back. -/
theorem plainUnmarshall_plainMarshall {area : Public} {bytes : Bytes}
    (h : plainMarshall area = .ok bytes) : plainUnmarshall bytes = .ok area := by
  unfold plainMarshall at h
  split_ifs at h with hparent
  · cases h
    rw [hparent]
    rfl
  cases area with
  | keyedHash _ _ policy _ unique =>
    dsimp only at h
    split_ifs at h with hsealed
    cases h
    rw [plainUnmarshall, List.drop_left' hsealed.2, List.take_left' hsealed.2, hsealed.1]
  | ecc _ _ _ _ _ => cases h
  | other _ _ => cases h

theorem plainLibrary_specified : plainLibrary.Specified where
  toSpecified := slotTss_specified
  attributes _ _ h := (Except.ok.inj h).symm
  eccParameters _ _ h := (Except.ok.inj h).symm
  publicArea _ _ h := (Except.ok.inj h).symm
  digest _ _ h := (Except.ok.inj h).symm
  privateArea _ _ h := (Except.ok.inj h).symm
  sensitiveData _ _ h := (Except.ok.inj h).symm
  unmarshall _ _ _ hbytes hparsed :=
    Except.ok.inj (hparsed.symm.trans (plainUnmarshall_plainMarshall hbytes))

/-- Policies hold what they bind, and private areas the data. -/
def plainChip : Chip where
  sha256 := Crypto.firstBytes 32
  name area := match sha256Name plainLibrary area with
    | .ok name => name
    | .error _ => []
  primary template := template
  create _ template sensitive _ := (template.fill, sensitive)
  unwrap _ area privateArea := if area.fill = area then some privateArea else none
  pcrPolicy _ selected digest := digest ++ selected.flatMap fun selection =>
    selection.slots.map fun slot => UInt8.ofNat slot.val
  commandPolicy policy _ := policy
  refusal := ⟨"refused"⟩

theorem plainChip_wraps : plainChip.Wraps where
  genuine {_ area privateArea sensitive} h := by
    have hfill : (if area.fill = area then some privateArea else none) = some sensitive := h
    split_ifs at hfill with hfilled
    cases hfill
    exact ⟨area, 0, Prod.ext hfilled rfl⟩
  unwraps _ template _ _ := if_pos template.fill_fill

/-- The plain module and library are healthy. -/
theorem plain_healthy : Healthy plainChip plainLibrary where
  specified := plainLibrary_specified
  wraps := plainChip_wraps
  slot index := by
    have hsome : ((List.finRange 24).find? fun other => bit other = bit index).isSome = true :=
      List.find?_isSome.mpr ⟨index, List.mem_finRange index, decide_eq_true rfl⟩
    obtain ⟨slot, hslot⟩ := Option.isSome_iff_exists.mp hsome
    refine ⟨slot, ?_⟩
    change slotTss.slot (bit index) = .ok slot
    simp only [slotTss, hslot]
  build _ := ⟨_, rfl⟩
  parent := ⟨_, rfl⟩
  template _ := ⟨_, rfl⟩
  marshall area hmeets := by
    have hbytes : ∃ bytes, plainMarshall area = .ok bytes := by
      cases hmeets with
      | parent => exact ⟨_, if_pos rfl⟩
      | sealed descriptor unique hunique =>
        refine ⟨_, (if_neg fun h => by cases h).trans (if_pos ⟨rfl, hunique⟩)⟩
    obtain ⟨bytes, hbytes⟩ := hbytes
    exact ⟨bytes, area, hbytes, plainUnmarshall_plainMarshall hbytes⟩
  digest _ := ⟨_, rfl⟩
  sensitiveData _ := ⟨_, rfl⟩
  privateArea _ _ _ _ := ⟨_, rfl⟩
  name area name h := by simp only [plainChip, h]
  primary := rfl
  created _ _ _ _ := ⟨List.replicate 32 0, List.length_replicate, rfl⟩

/-- A TPM whose PCRs all hold one value. -/
def booted (value : UInt8) : Device where
  instant := ⟨0, fun _ _ => List.replicate 32 value⟩
  objects _ := none
  sessions _ := none
  next := 0
  freshObjects _ _ := rfl
  freshSessions _ _ := rfl

theorem measures_booted : plainChip.Measures (booted 0).instant pairDescriptor := by
  unfold Chip.Measures
  decide +kernel

/-- The other boot does not. -/
theorem not_measures_booted : ¬plainChip.Measures (booted 1).instant pairDescriptor := by
  unfold Chip.Measures
  decide +kernel

theorem requireNetworkBound_pair :
    requireNetworkBound rfc8949 Crypto.transparent pairDescriptor = .ok () := by
  have hbytes : descriptorBytes rfc8949 Crypto.transparent pairDescriptor =
      .ok (putDescriptor rfc8949 pairDescriptor) :=
    descriptorBytes_eq_ok.mpr ⟨pairDescriptor_valid, rfl⟩
  have hmode : pairDescriptor.policy.mode = .networkBound := rfl
  unfold requireNetworkBound
  rw [if_neg (not_not.mpr hmode), mapError_eq_ok.mpr hbytes]
  rfl

/-- A blob for two leaves. -/
theorem exists_sealed (seed : Sss.Secret) (value : UInt8) : ∃ blob d, Runs plainChip.responds
    (Interferes Eq) (sealSeed plainLibrary rfc8949 Crypto.transparent ⟨""⟩ pairDescriptor seed)
      (booted value) (.ok blob) d := by
  obtain ⟨blob, d, hseal⟩ := succeeds_sealSeed plain_healthy requireNetworkBound_pair
  exact ⟨blob, d, runs_of_runWith hseal⟩

/-- The example's envelope with a blob. -/
def pairEnvelope (blob : TpmBlob) : AuthenticatedEnvelope :=
  ⟨{ pairBody with tpm := blob }, Vector.replicate 48 0⟩

section Recovery

variable {chip : Chip} {library : Library} {mismatch : TssError} {cbor : Cbor}
  {P : Crypto.Primitives} {descriptor : Descriptor} {seed : Sss.Secret} {blob : TpmBlob}
  {envelope : AuthenticatedEnvelope} {d₀ d₁ : Device} {changes : Instant → Instant → Prop}

/-- A seed that was sealed on a TPM, however its commands were interleaved, is unsealed by it
exactly if the selected PCRs have the digest of the descriptor. -/
theorem unsealSeed_sealed (h : Healthy chip library)
    (hseal : Runs chip.responds (Interferes changes)
      (sealSeed library cbor P mismatch descriptor seed) d₀ (.ok blob) d₁)
    (hdescriptor : envelope.body.descriptor = descriptor) (htpm : envelope.body.tpm = blob)
    (d : Device) :
    ((unsealSeed library cbor P mismatch envelope).runWith chip.perform d).1 =
      .ok ⟨seed, .localMeasuredBoot⟩ ↔ chip.Measures d.instant descriptor := by
  subst hdescriptor htpm
  exact ⟨measures_of_runWith h, runWith_unsealSeed h hseal⟩

/-- After a boot with other PCRs the seed stays sealed. -/
theorem unsealSeed_sealed_booted : ∃ blob,
    let program := unsealSeed plainLibrary rfc8949 Crypto.transparent ⟨""⟩ (pairEnvelope blob)
    (program.runWith plainChip.perform (booted 0)).1 =
      .ok ⟨Vector.replicate 32 9, .localMeasuredBoot⟩ ∧
    (program.runWith plainChip.perform (booted 1)).1 ≠
      .ok ⟨Vector.replicate 32 9, .localMeasuredBoot⟩ := by
  obtain ⟨blob, d, hseal⟩ := exists_sealed (Vector.replicate 32 9) 5
  refine ⟨blob, ?_, fun h => not_measures_booted ?_⟩
  · exact (unsealSeed_sealed plain_healthy hseal rfl rfl (booted 0)).mpr measures_booted
  · exact (unsealSeed_sealed plain_healthy hseal rfl rfl (booted 1)).mp h

end Recovery

end Leelo.Tpm
