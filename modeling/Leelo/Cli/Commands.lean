import Leelo.Cli.Providers

/-!
# Unlocking and resuming

Both commands recover a credential from an envelope that the trusted key signed. Unlocking
uses it on the slot of a token, and resuming attaches a staged bundle with it.
-/

namespace Leelo.Cli

open Leelo.Core Leelo.Core.Fallible Leelo.Crypto Leelo.Envelope Leelo.Policy
open Leelo.Engine (EngineError Environment)
open Leelo.Sss (Secret)

/-- What a command recovers with: the TPM, and the engine's environment with it and with the
providers that were read. -/
structure Site (library : Net.Library) (ρ : Type) where
  openTpm : Except EngineError TpmAccess
  environment : Providers library → TpmAccess → Environment ρ
  /-- The last line can be printed. -/
  printed : Bool

/-- The arguments of `check` and `activate`. -/
structure UnlockArgs where
  device : Bytes
  config : Bytes
  trustKey : Bytes
  token : UInt8
  mapping : Option String

/-- The arguments of `resume`. -/
structure ResumeArgs where
  device : Bytes
  config : Bytes
  trustKey : Bytes
  pendingBundle : Bytes

/-- An engine's failure as the command's. -/
def engineHalt : Halt EngineError → Halt CliError
  | .error error => .error (engineError error)
  | .abort => .abort

/-- Observe an operation from its start to its result. An abort reports nothing. -/
def observed (name : String) (body : Action Unit) : Action Unit := do
  observing fun _ => Operation.new name
  match ← attempt body with
  | .ok () => observing (·.finish (.ok () : Except CliError Unit))
  | .error (.error error) => do
    observing (·.finish (.error error : Except CliError Unit))
    ofResult (.error (.error error))
  | .error .abort => ofResult (.error .abort)

section Commands

variable (cbor : Cbor) (P : Primitives) (codec : Luks.Codec) (settings : Settings)
  {library : Net.Library} {ρ : Type} (site : Site library ρ)

/-- Recovers the credential of an envelope. -/
def recover (providers : Providers library) (tpm : TpmAccess) (raw : Bytes)
    (trusted : Vector UInt8 32) (volume : Vector UInt8 16) (slot : UInt8) : Action Secret := do
  observing (·.setStage "recover")
  let recovered ← ofResult ((Engine.unlockObserved cbor P (site.environment providers tpm) raw
    trusted volume slot ⟨⟨[]⟩, []⟩).1.mapError engineHalt)
  pure recovered.credential

/-- The end of an unlock: a mapping under a name, or a test. -/
def useCredential (luks : Luks.Luks2) (slot : UInt8) (credential : Secret) :
    Option String → Action Unit
  | some name => do
    observing (·.setStage "activate")
    onLuks (Luks.activate luks slot credential.toList name)
  | none => do
    observing (·.setStage "check")
    let _ ← onLuks (Luks.testCredential luks (some slot) credential.toList)
    pure ()

/-- Prints a line; a closed output aborts the process. -/
def println : Action Unit := ofResult (if site.printed then .ok () else .error .abort)

/-- The body of `check` and `activate`. -/
def runUnlock (args : UnlockArgs) : Action Unit := do
  let providers ← Providers.read settings P args.config library
  let trusted ← readArray 32 args.trustKey
  let luks ← openLuks args.device false
  let token ← onLuks (Luks.token luks codec args.token)
  let tpm ← ofResult (Exec.lift engineError site.openTpm)
  let credential ← recover cbor P site providers tpm token.bytes trusted luks.uuid token.slot
  useCredential luks token.slot credential args.mapping
  println site

/-- The command under observation. -/
def unlock (args : UnlockArgs) : Action Unit :=
  observed (if args.mapping.isSome then "activate" else "check")
    (runUnlock cbor P codec settings site args)

/-- Attaches the token of a credential that was recovered. -/
def attachRecovered (luks : Luks.Luks2) (pendingBundle : Bytes) (slot : UInt8)
    (credential : Secret) (raw : Bytes) : Action Int := do
  observing (·.setStorage .pendingReconciliation)
  observing (·.setStage "storage_attach")
  let token ← mapError (wrapError (retainMessage pendingBundle))
    (onLuks (Luks.attachEnrollment codec luks slot credential raw))
  observing (·.committed)
  pure token

/-- The body of `resume`. -/
def runResume (args : ResumeArgs) : Action Unit := do
  let trusted ← readArray 32 args.trustKey
  let raw ← readBounded args.pendingBundle maxEnvelope
  let envelope ← ofResult ((authenticate cbor P raw trusted).mapError fun _ =>
    (.error (.other "envelope") : Halt CliError))
  let slot := envelope.body.descriptor.slot
  let luks ← openLuks args.device true
  let providers ← Providers.read settings P args.config library
  let tpm ← ofResult (Exec.lift engineError site.openTpm)
  let credential ← recover cbor P site providers tpm raw trusted luks.uuid slot
  let _ ← attachRecovered codec luks args.pendingBundle slot credential raw
  println site

/-- The command under observation. -/
def resume (args : ResumeArgs) : Action Unit :=
  observed "resume" (runResume cbor P codec settings site args)

end Commands

section Allowed

variable {allowed : HostOp → Prop} {α : Type}

theorem all_ite {condition : Prop} [Decidable condition] {x y : Action α} (hx : x.All allowed)
    (hy : y.All allowed) : (if condition then x else y).All allowed := by
  split_ifs
  · exact hx
  · exact hy

theorem all_onLuks {x : Luks.Call α} (h : x.All fun op => allowed (.luks op)) :
    (onLuks x).All allowed :=
  all_mapError (Program.All.expand h fun _ hop => Program.All.perform hop)

section Configuration

variable (hread : ∀ path limit, allowed (.read path limit))

include hread

/-- Reading a file only reads. -/
theorem all_readBounded (path : Bytes) (max : Nat) : (readBounded path max).All allowed := by
  refine all_bind (all_perform (hread _ _)) fun _ => all_bind (all_ofResult _) fun output => ?_
  exact all_ite (all_ofResult _) trivial

theorem all_readArray (n : Nat) (path : Bytes) : (readArray n path).All allowed := by
  refine all_bind (all_readBounded hread path n) fun output => ?_
  cases tryInto n output with
  | none => exact all_ofResult _
  | some value => trivial

/-- Reading a provider only reads. -/
theorem all_readProvider (settings : Settings) (P : Primitives) (path : Bytes)
    (provider : ProviderConfig) :
    (readProvider settings P path provider).All allowed := by
  unfold readProvider
  refine all_bind (all_ofResult _) fun providerId => all_bind (all_ofResult _) fun publicKey => ?_
  refine all_bind (all_ofResult _) fun keyId => ?_
  -- a computed identifier would be compared byte by byte
  generalize Crypto.keyId P publicKey = identifier
  exact all_ite (all_ofResult _) (all_bind (all_readBounded hread _ _) fun _ => trivial)

theorem all_readProviders (settings : Settings) (P : Primitives) (path : Bytes)
    (providers : List ProviderConfig) :
    (readProviders settings P path providers).All allowed := by
  induction providers with
  | nil => trivial
  | cons provider rest ih =>
    exact all_bind (all_readProvider hread _ _ _ provider) fun _ => all_bind ih fun _ => trivial

theorem all_read (settings : Settings) (P : Primitives) (path : Bytes) (library : Net.Library) :
    (Providers.read settings P path library).All allowed := by
  refine all_bind (all_readBounded hread _ _) fun text => ?_
  cases settings.parse text with
  | none => exact all_ofResult _
  | some providers =>
    refine all_ite (all_ofResult _) (all_bind (all_readProviders hread _ _ _ _) fun read => ?_)
    cases Net.HttpsNetworkProvider.new library (read.map Prod.fst) with
    | error error => exact all_ofResult _
    | ok network => trivial

end Configuration

theorem all_observed (hobserve : ∀ change, allowed (.observe change)) (name : String)
    {body : Action Unit} (hbody : body.All allowed) : (observed name body).All allowed := by
  refine all_bind (all_perform (hobserve _)) fun _ => all_bind (all_attempt hbody) fun inner => ?_
  rcases inner with (error | _) | ⟨⟩
  · exact all_bind (all_perform (hobserve _)) fun _ => all_ofResult _
  · exact all_ofResult _
  · exact all_perform (hobserve _)

end Allowed

/-- These files, this header on a device that nobody has locked, these mappings, and this
storage state of the operation. -/
structure Holds (files : Bytes → Option HostFile) (disk : Luks.Header) (mappings : List Mapping)
    (storage : StorageState) (s : Host) : Prop where
  files : s.files = files
  device : Luks.At disk none s.device
  mappings : s.mappings = mappings
  storage : s.operation.storage = storage

section Yields

variable {codec : Luks.Codec} {luksLibrary : Luks.Library codec}
  {files : Bytes → Option HostFile} {disk disk' : Luks.Header} {mappings mappings' : List Mapping}
  {storage : StorageState} {α : Type}

theorem yields_observing {change : Operation → Operation} {storage' : StorageState}
    (h : ∀ operation, operation.storage = storage → (change operation).storage = storage') :
    Yields (hostAnswer luksLibrary) (Holds files disk mappings storage) (observing change)
      (.ok ()) (Holds files disk mappings storage') :=
  yields_perform fun _ hs => ⟨rfl, hs.files, hs.device, hs.mappings, h _ hs.storage⟩

theorem yields_setStage (stage : String) :
    Yields (hostAnswer luksLibrary) (Holds files disk mappings storage)
      (observing (·.setStage stage)) (.ok ()) (Holds files disk mappings storage) :=
  yields_observing fun operation h => (operation.storage_setStage stage).trans h

theorem yields_onLuks {x : Luks.Call α} {result : Except Luks.Error α}
    (hx : Yields luksLibrary.answer (Luks.At disk none) x result (Luks.At disk' none))
    (hnames : x.All fun op => op.names = false) :
    Yields (hostAnswer luksLibrary) (Holds files disk mappings storage) (onLuks x)
      (result.mapError fun error => .error (.luks error)) (Holds files disk' mappings storage) := by
  refine Yields.mapError fun s hs => ?_
  obtain ⟨hresult, hdevice⟩ := hx s.device hs.device
  rw [runWith_expand hnames s]
  exact ⟨hresult, hs.files, hdevice, hs.mappings, hs.storage⟩

variable {path : Bytes} {name : String}

/-- A file within the limit is read. -/
theorem yields_readBounded {max : Nat} {file : HostFile} (hfile : files path = some file)
    (hlength : file.content.length ≤ max) :
    Yields (hostAnswer luksLibrary) (Holds files disk mappings storage) (readBounded path max)
      (.ok file.content) (Holds files disk mappings storage) := by
  have htake : file.content.take (max + 1) = file.content :=
    List.take_of_length_le (Nat.le_succ_of_le hlength)
  refine Yields.bind (a := .ok file.content) (yields_perform fun s hs => ⟨?_, hs⟩) ?_
  · simp only [hostAnswer, hs.files, hfile, htake]
  · refine (yields_ofResult (.ok file.content)).bind ?_
    rw [if_neg (Nat.not_lt.mpr hlength)]
    exact yields_pure _

theorem yields_readArray {n : Nat} {file : HostFile} {value : Vector UInt8 n}
    (hfile : files path = some file) (hvalue : file.content = value.toList) :
    Yields (hostAnswer luksLibrary) (Holds files disk mappings storage) (readArray n path)
      (.ok value) (Holds files disk mappings storage) := by
  have hlength : file.content.length ≤ n := by rw [hvalue, value.length_toList]
  refine (yields_readBounded hfile hlength).bind ?_
  rw [tryInto_eq_some.mpr hvalue]
  exact yields_pure _

theorem yields_openLuks (device : Bytes) (writable : Bool) :
    Yields (hostAnswer luksLibrary) (Holds files disk mappings storage) (openLuks device writable)
      (.ok ⟨disk, disk.uuid, writable⟩) (Holds files disk mappings storage) := by
  refine Yields.bind (a := .ok ()) (yields_perform fun s hs => ⟨rfl, hs⟩) ?_
  refine (yields_ofResult (.ok ())).bind ?_
  exact yields_onLuks (Luks.yields_fromFile writable)
    (Program.All.mono (fun _ h => h.2) (Luks.peeks_fromFile writable))

/-- The operation is a read of a file that may be public. -/
def HostOp.isRead : HostOp → Bool
  | .read .. => true
  | _ => false

/-- What is read depends on the files alone. -/
theorem runWith_isRead {p : Program HostOp HostOp.Ans α} (hp : p.All fun op => op.isRead = true)
    {s s₀ : Host} (h : s.files = s₀.files) : p.runWith (hostAnswer luksLibrary) s =
      ((p.runWith (hostAnswer luksLibrary) s₀).1, s) := by
  induction p with
  | done a => rfl
  | call op next ih =>
    cases op with
    | read path limit =>
      simp only [Program.runWith, hostAnswer, h]
      exact ih _ (hp.2 _)
    | _ => cases hp.1

theorem yields_read {settings : Settings} {P : Primitives} {library : Net.Library} {host : Host}
    {providers : Providers library} (hfiles : host.files = files)
    (hread : ((Providers.read settings P path library).runWith (hostAnswer luksLibrary) host).1 =
      .ok providers) :
    Yields (hostAnswer luksLibrary) (Holds files disk mappings storage)
      (Providers.read settings P path library) (.ok providers)
      (Holds files disk mappings storage) := by
  intro s hs
  rw [runWith_isRead (all_read (fun _ _ => rfl) settings P path library)
    (hs.files.trans hfiles.symm)]
  exact ⟨hread, hs⟩

/-- A credential that opens its slot brings up a mapping. -/
theorem yields_activateInner {slot : UInt8} {credential : Secret} (writable : Bool)
    (hslot : slot < Luks.slotCount) (hopens : disk.slots slot = some credential.toList)
    (hname : Luks.isMapping name = true) :
    Yields (hostAnswer luksLibrary) (Holds files disk mappings storage)
      (onLuks (Luks.activateInner ⟨disk, disk.uuid, writable⟩ (some slot) credential.toList
        (some name))) (.ok slot)
      (Holds files disk (mappings ++ [⟨disk.uuid, name, some slot, credential.toList⟩])
        storage) := by
  have hlength : credential.toList.length = 32 := credential.length_toList
  have hopened := Luks.openedSlot_self hslot hopens
  unfold Luks.activateInner
  simp only [onLuks_bind]
  refine (yields_onLuks (Luks.yields_ensure ?_ _) (all_ofResult _)).bind ?_
  · rintro (h | h | h)
    · exact absurd hslot (UInt8.not_lt.mpr (of_decide_eq_true h))
    · rw [h] at hlength
      cases hlength
    · omega
  refine (yields_onLuks (Luks.yields_ensure (Luks.isCString_of_isMapping hname) _)
    (all_ofResult _)).bind ?_
  let op : Luks.Op := .activateByPassphrase disk (some name) (some slot) credential.toList
  have hanswer : ∀ device, luksLibrary.answer op device =
      ((slot.toNat : Int), device.record () .checked) := by
    intro device
    change Luks.reliable () op device = _
    simp only [op, Luks.reliable, hopened]
  have hmapped : mapped op (slot.toNat : Int) =
      [⟨disk.uuid, name, some slot, credential.toList⟩] := by
    simp only [op, mapped, if_pos (Int.natCast_nonneg slot.toNat)]
  have hcall : Yields (hostAnswer luksLibrary) (Holds files disk mappings storage)
      (onLuks (Luks.call op)) (.ok (slot.toNat : Int))
      (Holds files disk (mappings ++ [⟨disk.uuid, name, some slot, credential.toList⟩])
        storage) := by
    intro s hs
    have hrun : (onLuks (Luks.call op)).runWith (hostAnswer luksLibrary) s =
        (.ok (luksLibrary.answer op s.device).1, (hostAnswer luksLibrary (.luks op) s).2) := rfl
    rw [hrun, hostAnswer, hanswer]
    exact ⟨rfl, hs.files, hs.device, by rw [hmapped, hs.mappings], hs.storage⟩
  refine hcall.bind ?_
  rw [Luks.activatedSlot_self hslot]
  exact yields_ofResult _

theorem yields_activate {handle : Luks.Luks2} {slot : UInt8} {credential : Secret}
    (huuid : disk.uuid = handle.uuid) (hslot : slot < Luks.slotCount)
    (hopens : disk.slots slot = some credential.toList) (hname : Luks.isMapping name = true) :
    Yields (hostAnswer luksLibrary) (Holds files disk mappings storage)
      (onLuks (Luks.activate handle slot credential.toList name)) (.ok ())
      (Holds files disk (mappings ++ [⟨disk.uuid, name, some slot, credential.toList⟩])
        storage) := by
  unfold Luks.activate
  simp only [onLuks_bind]
  refine (yields_onLuks (Luks.yields_ensure hname _) (all_ofResult _)).bind ?_
  refine (yields_onLuks (Luks.yields_reload huuid)
    (Program.All.mono (fun _ h => h.2) (Luks.peeks_reload handle))).bind ?_
  exact (yields_activateInner _ hslot hopens hname).bind (yields_ofResult _)

/-- A body that succeeds is reported with the storage state that it ends with. -/
theorem yields_observed {body : Action Unit} {before after : StorageState}
    (hbody : Yields (hostAnswer luksLibrary)
      (Holds files disk mappings (Operation.initialStorage name)) body (.ok ())
      (Holds files disk' mappings' after)) :
    Yields (hostAnswer luksLibrary) (Holds files disk mappings before) (observed name body)
      (.ok ()) (fun s => Holds files disk' mappings' after s ∧
        s.operation.reported = some after.name) := by
  refine (yields_observing fun _ _ => rfl).bind (hbody.attempt.bind ?_)
  refine yields_perform fun s hs => ⟨rfl, ⟨hs.files, hs.device, hs.mappings, hs.storage⟩, ?_⟩
  rw [← hs.storage]
  exact Operation.reported_finish _ _

section Commands

variable {cbor : Cbor} {P : Primitives} {settings : Settings} {library : Net.Library} {ρ : Type}
  {site : Site library ρ} {providers : Providers library} {tpm : TpmAccess} {host : Host}
  {file : HostFile} {trusted : Vector UInt8 32} {raw : Bytes} {slot : UInt8}
  {recovered : Engine.UnlockResult}

theorem yields_recover {volume : Vector UInt8 16}
    (hunlock : (Engine.unlockObserved cbor P (site.environment providers tpm) raw trusted volume
      slot ⟨⟨[]⟩, []⟩).1 = .ok recovered) :
    Yields (hostAnswer luksLibrary) (Holds files disk mappings storage)
      (recover cbor P site providers tpm raw trusted volume slot) (.ok recovered.credential)
      (Holds files disk mappings storage) := by
  refine (yields_setStage _).bind ?_
  rw [hunlock]
  exact (yields_ofResult (.ok recovered)).bind (yields_pure _)

/-- An open output takes the line. -/
theorem yields_println (hprinted : site.printed = true) :
    Yields (hostAnswer luksLibrary) (Holds files disk mappings storage) (println site) (.ok ())
      (Holds files disk mappings storage) := by
  rw [println, if_pos hprinted]
  exact yields_ofResult _

/-- What both commands find on the host. -/
structure Equipped (luksLibrary : Luks.Library codec) (settings : Settings) (P : Primitives)
    (site : Site library ρ) (config trustKey : Bytes) (trusted : Vector UInt8 32)
    (providers : Providers library) (tpm : TpmAccess) (host : Host) : Prop where
  config : ((Providers.read settings P config library).runWith (hostAnswer luksLibrary) host).1 =
    .ok providers
  trust : ∃ file, host.files trustKey = some file ∧ file.content = trusted.toList
  tpm : site.openTpm = .ok tpm
  printed : site.printed = true

variable {before : StorageState}

/-- With an enrolled slot and a credential that the engine recovers, an unlock brings up the
mapping. -/
theorem yields_unlock {args : UnlockArgs} {name : String}
    (hequipped : Equipped luksLibrary settings P site args.config args.trustKey trusted providers
      tpm host) (hname : args.mapping = some name) (hmapping : Luks.isMapping name = true)
    (hid : args.token < Luks.slotCount)
    (henrolled : Luks.Enrolled codec disk args.token slot recovered.credential raw)
    (hunlock : (Engine.unlockObserved cbor P (site.environment providers tpm) raw trusted
      disk.uuid slot ⟨⟨[]⟩, []⟩).1 = .ok recovered) :
    Yields (hostAnswer luksLibrary) (Holds host.files disk mappings before)
      (unlock cbor P codec settings site args) (.ok ())
      (fun s => Holds host.files disk (mappings ++
        [⟨disk.uuid, name, some slot, recovered.credential.toList⟩]) .notApplicable s ∧
        s.operation.reported = some StorageState.notApplicable.name) := by
  obtain ⟨file, hfile, hcontent⟩ := hequipped.trust
  obtain ⟨text, htext, hdecode⟩ := henrolled.token
  obtain ⟨-, -, -, hslot, -⟩ := Luks.decodeToken_eq_ok.mp hdecode
  have hstage : Operation.initialStorage (if args.mapping.isSome then "activate" else "check") =
      .notApplicable := by
    rw [hname]
    rfl
  refine yields_observed ?_
  rw [hstage]
  refine (yields_read rfl hequipped.config).bind ((yields_readArray hfile hcontent).bind ?_)
  refine (yields_openLuks _ _).bind ?_
  refine (yields_onLuks (Luks.yields_token rfl hid htext hdecode)
    (Program.All.mono (fun _ h => h.2) (Luks.peeks_token ..))).bind ?_
  rw [hequipped.tpm]
  refine (yields_ofResult (.ok tpm)).bind ((yields_recover hunlock).bind ?_)
  rw [hname]
  have hused : Yields (hostAnswer luksLibrary) (Holds host.files disk mappings .notApplicable)
      (useCredential ⟨disk, disk.uuid, false⟩ slot recovered.credential (some name)) (.ok ())
      (Holds host.files disk (mappings ++
        [⟨disk.uuid, name, some slot, recovered.credential.toList⟩]) .notApplicable) :=
    (yields_setStage _).bind (yields_activate rfl hslot henrolled.opens hmapping)
  exact hused.bind (yields_println hequipped.printed)

end Commands

end Yields

end Leelo.Cli
