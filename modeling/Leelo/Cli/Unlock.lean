import Leelo.Cli.Commands
import Leelo.Engine.Safety

/-!
# Unlocking a volume

An unlock is followed over every run on a host whose calls fail as they may, while others
change what they may. A mapping comes up only with what the engine released for an envelope of
the trusted key. On a host that fails only when it must, an enrollment that was staged is
resumed, and the volume unlocks with the token that this attached.
-/

namespace Leelo.Cli

open Leelo.Core Leelo.Core.Fallible Leelo.Crypto Leelo.Envelope Leelo.Policy
open Leelo.Engine (EngineError Environment UnlockResult)
open Leelo.Sss (Secret)

/-- What a mapping rests on: for its volume and its slot, the engine released its passphrase
from an envelope that the trusted key signed. -/
structure Authorized (cbor : Cbor) (P : Primitives) {ρ : Type} (env : Environment ρ)
    (trusted : Vector UInt8 32) (envelope : AuthenticatedEnvelope) (mapping : Mapping) :
    Prop where
  slot : mapping.slot = some envelope.body.descriptor.slot
  released : ∃ raw result before after,
    mapping.passphrase = result.credential.toList ∧
    Engine.Released cbor P env raw trusted mapping.volume envelope.body.descriptor.slot result
      envelope before after

/-- A credential that the engine returns authorizes a mapping with it. -/
theorem authorized_of_unlockObserved {cbor : Cbor} {P : Primitives} {ρ : Type}
    {env : Environment ρ} {raw : Bytes} {trusted : Vector UInt8 32} {volume : Vector UInt8 16}
    {slot : UInt8} {result : UnlockResult} {w w' : Engine.World}
    (h : Engine.unlockObserved cbor P env raw trusted volume slot w = (.ok result, w'))
    (name : String) : ∃ envelope, Authorized cbor P env trusted envelope
      ⟨volume, name, some slot, result.credential.toList⟩ := by
  obtain ⟨envelope, hreleased⟩ := Engine.released_of_unlockObserved h
  obtain rfl := hreleased.target.2
  exact ⟨envelope, rfl, raw, result, w.calls, w'.calls, rfl, hreleased⟩

/-- The operation brings up no mapping and leaves the header as it is. -/
def HostOp.Peeks : HostOp → Prop
  | .luks op => op.reads = true ∧ op.names = false
  | _ => True

theorem peeks_observing (change : Operation → Operation) :
    (observing change).All HostOp.Peeks :=
  all_perform trivial

theorem peeks_openLuks (device : Bytes) (writable : Bool) :
    (openLuks device writable).All HostOp.Peeks :=
  all_bind (all_perform trivial) fun _ => all_bind (all_ofResult _) fun _ =>
    all_onLuks (Luks.peeks_fromFile writable)

section Unlock

variable {rely : Host → Host → Prop} {s s' : Host} {trustKey : Bytes} {α β : Type}

/-- No mapping has come up, and the file of the trusted key is the same. -/
structure Keeps (trustKey : Bytes) (s s' : Host) : Prop where
  mappings : s'.mappings = s.mappings
  trust : s'.files trustKey = s.files trustKey

theorem Keeps.refl (s : Host) : Keeps trustKey s s := ⟨rfl, rfl⟩

theorem Keeps.trans {s₁ : Host} (h : Keeps trustKey s s₁) (h' : Keeps trustKey s₁ s') :
    Keeps trustKey s s' := ⟨h'.mappings.trans h.mappings, h'.trust.trans h.trust⟩

theorem keeps_of_peeks {op : HostOp} {answer : op.Ans} (hop : op.Peeks)
    (h : hostResponds op s answer s') : Keeps trustKey s s' := by
  cases op with
  | read path limit => exact h.1 ▸ .refl s'
  | readSecret path limit => exact h.1 ▸ .refl s'
  | openDevice path writable => exact (h : s' = s) ▸ .refl s'
  | observe change =>
    rw [show s' = _ from h]
    exact ⟨rfl, rfl⟩
  | luks op =>
    obtain ⟨device, -, rfl⟩ := h
    refine ⟨?_, rfl⟩
    simp only [mapped_of_names hop.2, List.append_nil]

theorem Peeks.keeps {x : Action α} (hrely : ∀ s s', rely s s' → Keeps trustKey s s')
    (hx : x.All HostOp.Peeks) {result : Except (Halt CliError) α}
    (h : Runs hostResponds rely x s result s') : Keeps trustKey s s' :=
  Program.Runs.relates (T := Keeps trustKey) .refl .trans (hrely _ _) keeps_of_peeks hx h

/-- After a part that only peeks either the sequence is over, or it goes on with what is
kept. -/
theorem runs_bind_peeks (hrely : ∀ s s', rely s s' → Keeps trustKey s s') {s₀ : Host}
    (hkeeps : Keeps trustKey s₀ s) {x : Action α} {f : α → Action β}
    {result : Except (Halt CliError) β} (hx : x.All HostOp.Peeks)
    (h : Runs hostResponds rely (x >>= f) s result s') :
    (Keeps trustKey s₀ s' ∧ ∃ e, result = .error e) ∨
      ∃ a s₁, Runs hostResponds rely x s (.ok a) s₁ ∧ Keeps trustKey s₀ s₁ ∧
        Runs hostResponds rely (f a) s₁ result s' := by
  rcases runs_bind_cases h with ⟨e, rfl, herror⟩ | ⟨a, s₁, hx', hf⟩
  · exact .inl ⟨hkeeps.trans (Peeks.keeps hrely hx herror), e, rfl⟩
  · exact .inr ⟨a, s₁, hx', hkeeps.trans (Peeks.keeps hrely hx hx'), hf⟩

/-- What a bounded read returns is the whole file at the moment of the read. -/
theorem runs_readBounded {path output : Bytes} {max : Nat}
    (h : Runs hostResponds rely (readBounded path max) s (.ok output) s') :
    rely s s' ∧ ∃ file, s'.files path = some file ∧ file.content = output := by
  obtain ⟨answer, s₁, hcall, h⟩ := runs_bind_ok.mp h
  obtain ⟨bytes, hbytes, h⟩ := runs_ofResult_bind_ok.mp h
  obtain ⟨_, s₂, hanswer, hrely, rfl, hread⟩ := runs_perform.mp hcall
  cases hanswer
  obtain ⟨file, hfile, htake⟩ := hread bytes (lift_eq_ok.mp hbytes)
  split_ifs at h with hlength
  · cases (runs_ofResult.mp h).1
  obtain ⟨houtput, rfl⟩ := runs_pure.mp h
  cases houtput
  refine ⟨hrely, file, hfile, ?_⟩
  rw [htake, List.length_take] at hlength
  rw [htake, List.take_of_length_le (by omega)]

theorem runs_readArray {n : Nat} {path : Bytes} {value : Vector UInt8 n}
    (h : Runs hostResponds rely (readArray n path) s (.ok value) s') :
    rely s s' ∧ ∃ file, s'.files path = some file ∧ file.content = value.toList := by
  obtain ⟨output, s₁, hread, h⟩ := runs_bind_ok.mp h
  cases hvalue : tryInto n output with
  | none =>
    rw [hvalue] at h
    cases (runs_ofResult.mp h).1
  | some value =>
    rw [hvalue] at h
    obtain ⟨hok, rfl⟩ := runs_pure.mp h
    cases hok
    rw [← tryInto_eq_some.mp hvalue]
    exact runs_readBounded hread

/-- A call of the library, and what follows. -/
theorem runs_onLuks_call {op : Luks.Op} {next : Luks.Ans op → Luks.Call α}
    {result : Except (Halt CliError) α}
    (h : Runs hostResponds rely (onLuks (Luks.call op >>= next)) s result s') :
    ∃ s₁ answer device, rely s s₁ ∧ Runs hostResponds rely (onLuks (next answer))
      { s₁ with device, mappings := s₁.mappings ++ mapped op answer } result s' := by
  cases h with
  | call hrely hresponds hnext =>
    obtain ⟨device, -, rfl⟩ := hresponds
    exact ⟨_, _, device, hrely, hnext⟩

/-- A mapping comes up if the library says so, even if the slot is not the expected one. -/
theorem runs_activateInner (hrely : ∀ s s', rely s s' → Keeps trustKey s s') {luks : Luks.Luks2}
    {slot : UInt8} {credential : Bytes} {name : String} {result : Except (Halt CliError) UInt8}
    (h : Runs hostResponds rely
      (onLuks (Luks.activateInner luks (some slot) credential (some name))) s result s') :
    (Keeps trustKey s s' ∧ ∃ e, result = .error e) ∨
      s'.mappings = s.mappings ++ [⟨luks.context.uuid, name, some slot, credential⟩] := by
  unfold Luks.activateInner at h
  rw [onLuks_bind] at h
  rcases runs_bind_peeks hrely (.refl s) (all_onLuks (all_ofResult _)) h with
    hend | ⟨_, s₁, -, hkeeps, h⟩
  · exact .inl hend
  rw [onLuks_bind] at h
  rcases runs_bind_peeks hrely hkeeps (all_onLuks (all_ofResult _)) h with
    hend | ⟨_, s₂, -, hkeeps, h⟩
  · exact .inl hend
  obtain ⟨s₃, code, device, hothers, h⟩ := runs_onLuks_call h
  obtain ⟨hresult, rfl⟩ := runs_ofResult.mp h
  replace hkeeps := hkeeps.trans (hrely _ _ hothers)
  by_cases hcode : 0 ≤ code
  · refine .inr ?_
    simp only [mapped, if_pos hcode, hkeeps.mappings]
  · refine .inl ⟨⟨?_, hkeeps.trust⟩, ?_⟩
    · simp only [mapped, if_neg hcode, List.append_nil, hkeeps.mappings]
    · rw [hresult, Luks.activatedSlot, Luks.checked, if_pos (Int.not_le.mp hcode)]
      exact ⟨_, rfl⟩

/-- A mapping comes up under the name that was asked for, of the volume of the handle. If it
does not, the activation fails. -/
theorem runs_activate (hrely : ∀ s s', rely s s' → Keeps trustKey s s') {luks : Luks.Luks2}
    {slot : UInt8} {credential : Bytes} {name : String} {result : Except (Halt CliError) Unit}
    (h : Runs hostResponds rely (onLuks (Luks.activate luks slot credential name)) s result s') :
    (Keeps trustKey s s' ∧ ∃ e, result = .error e) ∨
      s'.mappings = s.mappings ++ [⟨luks.uuid, name, some slot, credential⟩] := by
  unfold Luks.activate at h
  simp only [onLuks_bind] at h
  rcases runs_bind_peeks hrely (.refl s) (all_onLuks (all_ofResult _)) h with
    hend | ⟨_, s₁, -, hkeeps, h⟩
  · exact .inl hend
  rcases runs_bind_peeks hrely hkeeps (all_onLuks (Luks.peeks_reload luks)) h with
    hend | ⟨fresh, s₂, hfresh, hkeeps, h⟩
  · exact .inl hend
  have hvolume := Luks.uuid_of_reload (runs_expand (runs_mapError_ok.mp hfresh))
  rcases runs_bind_cases h with ⟨e, rfl, hinner⟩ | ⟨actual, s₃, hinner, hpure⟩
  · rcases runs_activateInner hrely hinner with ⟨hlast, -⟩ | hmapped
    · exact .inl ⟨hkeeps.trans hlast, e, rfl⟩
    · exact .inr (by rw [hmapped, hkeeps.mappings, hvolume])
  · obtain ⟨-, rfl⟩ := runs_ofResult.mp hpure
    rcases runs_activateInner hrely hinner with ⟨-, e, herror⟩ | hmapped
    · cases herror
    · exact .inr (by rw [hmapped, hkeeps.mappings, hvolume])

section Authority

variable {cbor : Cbor} {P : Primitives} {codec : Luks.Codec} {settings : Settings}
  {library : Net.Library} {ρ : Type} {site : Site library ρ} {args : UnlockArgs}
  {result : Except (Halt CliError) Unit}

/-- A command that brought up one mapping, on the authority of the trusted key. -/
def Unlocks (cbor : Cbor) (P : Primitives) (site : Site library ρ) (args : UnlockArgs)
    (s s' : Host) : Prop :=
  ∃ file trusted providers tpm envelope mapping,
    s.files args.trustKey = some file ∧ file.content = Vector.toList trusted ∧
    site.openTpm = .ok tpm ∧ Providers.Configured P providers ∧
    args.mapping = some mapping.name ∧ s'.mappings = s.mappings ++ [mapping] ∧
    Authorized cbor P (site.environment providers tpm) trusted envelope mapping

/-- A credential is tested, or activated under the mapping's name. -/
theorem runs_useCredential (hrely : ∀ s s', rely s s' → Keeps trustKey s s') {luks : Luks.Luks2}
    {slot : UInt8} {credential : Secret} {mapping : Option String}
    (h : Runs hostResponds rely (useCredential luks slot credential mapping) s result s') :
    (Keeps trustKey s s' ∧ (result = .ok () → mapping = none)) ∨ ∃ name, mapping = some name ∧
      s'.mappings = s.mappings ++ [⟨luks.uuid, name, some slot, credential.toList⟩] := by
  cases mapping with
  | none =>
    refine .inl ⟨Peeks.keeps hrely ?_ h, fun _ => rfl⟩
    exact all_bind (peeks_observing _) fun _ =>
      all_bind (all_onLuks (Luks.peeks_testCredential ..)) fun _ => trivial
  | some name =>
    rcases runs_bind_peeks hrely (.refl s) (peeks_observing _) h with
      ⟨hkeeps, e, rfl⟩ | ⟨_, s₁, -, hkeeps, h⟩
    · exact .inl ⟨hkeeps, fun hok => by cases hok⟩
    rcases runs_activate hrely h with ⟨hlast, e, rfl⟩ | hmapped
    · exact .inl ⟨hkeeps.trans hlast, fun hok => by cases hok⟩
    · exact .inr ⟨name, rfl, by rw [hmapped, hkeeps.mappings]⟩

theorem peeks_recover (providers : Providers library) (tpm : TpmAccess) (raw : Bytes)
    (trusted : Vector UInt8 32) (volume : Vector UInt8 16) (slot : UInt8) :
    (recover cbor P site providers tpm raw trusted volume slot).All HostOp.Peeks :=
  all_bind (peeks_observing _) fun _ => all_bind (all_ofResult _) fun _ => trivial

theorem runs_recover {providers : Providers library} {tpm : TpmAccess} {raw : Bytes}
    {trusted : Vector UInt8 32} {volume : Vector UInt8 16} {slot : UInt8} {credential : Secret}
    (h : Runs hostResponds rely (recover cbor P site providers tpm raw trusted volume slot) s
      (.ok credential) s') (name : String) : ∃ envelope,
      Authorized cbor P (site.environment providers tpm) trusted envelope
        ⟨volume, name, some slot, credential.toList⟩ := by
  obtain ⟨_, _, -, h⟩ := runs_bind_ok.mp h
  obtain ⟨recovered, hrecovered, h⟩ := runs_ofResult_bind_ok.mp h
  cases (runs_pure.mp h).1
  exact authorized_of_unlockObserved (Prod.ext (mapError_eq_ok.mp hrecovered) rfl) name

/-- The body activates nothing, or what it is authorised to. -/
theorem runs_runUnlock (hrely : ∀ s s', rely s s' → Keeps args.trustKey s s')
    (h : Runs hostResponds rely (runUnlock cbor P codec settings site args) s result s') :
    (s'.mappings = s.mappings ∧ (result = .ok () → args.mapping = none)) ∨
      Unlocks cbor P site args s s' := by
  have hends : Keeps args.trustKey s s' ∧ (∃ e, result = .error e) →
      s'.mappings = s.mappings ∧ (result = .ok () → args.mapping = none) := by
    rintro ⟨hkeeps, e, rfl⟩
    exact ⟨hkeeps.mappings, fun hok => by cases hok⟩
  rcases runs_bind_peeks hrely (.refl s) (all_read (fun _ _ => trivial) ..) h with
    hend | ⟨providers, s₁, hproviders, hkeeps, h⟩
  · exact .inl (hends hend)
  rcases runs_bind_peeks hrely hkeeps (all_readArray (fun _ _ => trivial) ..) h with
    hend | ⟨trusted, s₂, htrusted, hkeeps, h⟩
  · exact .inl (hends hend)
  obtain ⟨-, file, hfile, hcontent⟩ := runs_readArray htrusted
  rw [hkeeps.trust] at hfile
  rcases runs_bind_peeks hrely hkeeps (peeks_openLuks ..) h with
    hend | ⟨luks, s₃, -, hkeeps, h⟩
  · exact .inl (hends hend)
  rcases runs_bind_peeks hrely hkeeps (all_onLuks (Luks.peeks_token ..)) h with
    hend | ⟨token, s₄, -, hkeeps, h⟩
  · exact .inl (hends hend)
  rcases runs_bind_peeks hrely hkeeps (all_ofResult _) h with
    hend | ⟨tpm, s₅, htpm, hkeeps, h⟩
  · exact .inl (hends hend)
  rcases runs_bind_peeks hrely hkeeps (peeks_recover ..) h with
    hend | ⟨credential, s₆, hcredential, hkeeps, h⟩
  · exact .inl (hends hend)
  -- the credential is used before the last line is printed
  have hused : ∃ used, Runs hostResponds rely
      (useCredential luks token.slot credential args.mapping) s₆ used s' ∧
        (result = .ok () → used = .ok ()) := by
    rcases runs_bind_cases h with ⟨e, rfl, hused⟩ | ⟨⟨⟩, s₇, hused, hprinted⟩
    · exact ⟨_, hused, fun hok => by cases hok⟩
    · obtain ⟨-, rfl⟩ := runs_ofResult.mp hprinted
      exact ⟨_, hused, fun _ => rfl⟩
  obtain ⟨used, hused, hok⟩ := hused
  rcases runs_useCredential hrely hused with ⟨hlast, hnone⟩ | ⟨name, hname, hmapped⟩
  · exact .inl ⟨(hkeeps.trans hlast).mappings, fun hresult => hnone (hok hresult)⟩
  · obtain ⟨envelope, hauthorized⟩ := runs_recover hcredential name
    refine .inr ⟨file, trusted, providers, tpm, envelope, _, hfile, hcontent,
      lift_eq_ok.mp (runs_ofResult.mp htpm).1.symm, runs_read hproviders, hname, ?_, hauthorized⟩
    rw [hmapped, hkeeps.mappings]

/-- Observing never fails. -/
theorem runs_observing_bind {change : Operation → Operation} {f : Unit → Action α}
    {result : Except (Halt CliError) α}
    (h : Runs hostResponds rely (observing change >>= f) s result s') :
    ∃ s₁, Runs hostResponds rely (observing change) s (.ok ()) s₁ ∧
      Runs hostResponds rely (f ()) s₁ result s' := by
  rcases runs_bind_cases h with ⟨e, -, herror⟩ | ⟨⟨⟩, s₁, hobserved, hnext⟩
  · obtain ⟨_, _, hok, -⟩ := runs_perform.mp herror
    cases hok
  · exact ⟨s₁, hobserved, hnext⟩

/-- The command runs its body between observations. -/
theorem runs_observed (hrely : ∀ s s', rely s s' → Keeps trustKey s s') {name : String}
    {body : Action Unit} (h : Runs hostResponds rely (observed name body) s result s') :
    ∃ s₁ s₂, Keeps trustKey s s₁ ∧ Runs hostResponds rely body s₁ result s₂ ∧
      Keeps trustKey s₂ s' := by
  obtain ⟨s₁, hstart, h⟩ := runs_observing_bind h
  have hkeeps := Peeks.keeps hrely (peeks_observing _) hstart
  rcases runs_bind_cases h with ⟨e, -, herror⟩ | ⟨inner, s₂, hinner, h⟩
  · obtain ⟨_, hok, -⟩ := runs_attempt.mp herror
    cases hok
  obtain ⟨_, hok, hbody⟩ := runs_attempt.mp hinner
  cases hok
  refine ⟨s₁, s₂, hkeeps, ?_⟩
  rcases inner with (error | _) | ⟨⟩
  · obtain ⟨s₃, hfinish, h⟩ := runs_observing_bind h
    obtain ⟨rfl, rfl⟩ := runs_ofResult.mp h
    exact ⟨hbody, Peeks.keeps hrely (peeks_observing _) hfinish⟩
  · obtain ⟨rfl, rfl⟩ := runs_ofResult.mp h
    exact ⟨hbody, .refl _⟩
  · obtain ⟨_, _, rfl, -⟩ := runs_perform.mp h
    exact ⟨hbody, Peeks.keeps hrely (peeks_observing _) h⟩

/-- The operation does not change the header. -/
def HostOp.Reads : HostOp → Prop
  | .luks op => op.reads = true
  | _ => True

/-- What only looks reads. -/
theorem HostOp.Peeks.reads {op : HostOp} (h : op.Peeks) : op.Reads := by
  cases op with
  | luks op => exact h.1
  | _ => trivial

theorem reads_of_peeks {x : Action α} (h : x.All HostOp.Peeks) : x.All HostOp.Reads :=
  Program.All.mono (fun _ => HostOp.Peeks.reads) h

theorem reads_useCredential (luks : Luks.Luks2) (slot : UInt8) (credential : Secret)
    (mapping : Option String) :
    (useCredential luks slot credential mapping).All HostOp.Reads := by
  cases mapping with
  | none =>
    exact all_bind (all_perform trivial) fun _ =>
      all_bind (reads_of_peeks (all_onLuks (Luks.peeks_testCredential ..))) fun _ => trivial
  | some name =>
    refine all_bind (all_perform trivial) fun _ => all_onLuks ?_
    exact all_bind (all_ofResult _) fun _ => all_bind (Luks.reads_reload luks) fun _ =>
      all_bind (Luks.reads_activateInner ..) fun _ => trivial

theorem reads_unlock (cbor : Cbor) (P : Primitives) (codec : Luks.Codec) (settings : Settings)
    (site : Site library ρ) (args : UnlockArgs) :
    (unlock cbor P codec settings site args).All HostOp.Reads := by
  refine all_observed (fun _ => trivial) _ ?_
  refine all_bind (reads_of_peeks (all_read (fun _ _ => trivial) ..)) fun _ => ?_
  refine all_bind (reads_of_peeks (all_readArray (fun _ _ => trivial) ..)) fun _ => ?_
  refine all_bind (reads_of_peeks (peeks_openLuks ..)) fun luks => ?_
  refine all_bind (reads_of_peeks (all_onLuks (Luks.peeks_token ..))) fun token => ?_
  refine all_bind (all_ofResult _) fun _ => all_bind (reads_of_peeks (peeks_recover ..)) ?_
  exact fun _ => all_bind (reads_useCredential ..) fun _ => all_ofResult _

theorem disk_of_reads {op : HostOp} {answer : op.Ans} (hop : op.Reads)
    (h : hostResponds op s answer s') : s'.device.disk = s.device.disk := by
  cases op with
  | read path limit => rw [h.1]
  | readSecret path limit => rw [h.1]
  | openDevice path writable => rw [show s' = s from h]
  | observe change => rw [show s' = _ from h]
  | luks op =>
    obtain ⟨device, hresponds, rfl⟩ := h
    exact (Luks.responds_reads hop hresponds).1

/-- Whatever fails and whatever others do, an unlock brings up no mapping or the one asked for: of
the volume and the slot of an envelope that the trusted key signed, with the payload under the root
that the TPM share and a quorum determine. -/
theorem unlock_authorized (hrely : ∀ s s', rely s s' → Keeps args.trustKey s s')
    (h : Runs hostResponds rely (unlock cbor P codec settings site args) s result s') :
    ((s'.mappings = s.mappings ∧ (result = .ok () → args.mapping = none)) ∨
      Unlocks cbor P site args s s') ∧
    ((∀ s s', rely s s' → s'.device.disk = s.device.disk) → s'.device.disk = s.device.disk) := by
  refine ⟨?_, fun hdisk => ?_⟩
  · obtain ⟨s₁, s₂, hbefore, hbody, hafter⟩ := runs_observed hrely h
    rcases runs_runUnlock hrely hbody with ⟨hsame, hnone⟩ | hunlocks
    · exact .inl ⟨hafter.mappings.trans (hsame.trans hbefore.mappings), hnone⟩
    · obtain ⟨file, trusted, providers, tpm, envelope, mapping, hfile, hcontent, htpm,
        hconfigured, hname, hmapped, hauthorized⟩ := hunlocks
      refine .inr ⟨file, trusted, providers, tpm, envelope, mapping, hbefore.trust ▸ hfile,
        hcontent, htpm, hconfigured, hname, ?_, hauthorized⟩
      rw [hafter.mappings, hmapped, hbefore.mappings]
  · refine Program.Runs.relates (T := fun s s' => s'.device.disk = s.device.disk) (fun _ => rfl)
      ?_ (hdisk _ _) disk_of_reads (reads_unlock ..) h
    exact fun {_ _ _} hfirst hsecond => hsecond.trans hfirst

end Authority

end Unlock

/-- A TPM that stores the seeds. -/
def storingAccess : TpmAccess := ⟨Engine.storingTpm, fun _ => .ok (Vector.replicate 32 0)⟩

/-- One of the leaves does not answer. -/
def pairSite : Site Net.nodeLibrary Unit where
  openTpm := .ok storingAccess
  environment _ tpm := { Engine.pairEnvironment {4} with tpm := tpm.provider }
  printed := true

theorem pairSite_attempt (providers : Providers Net.nodeLibrary) :
    Engine.Attempt rfc8949 transparent Engine.pairEnrollment.tpm pairDescriptor {4}
      (pairSite.environment providers storingAccess) :=
  Engine.pairEnvironment_attempt

/-- The arguments of the example's `resume`. -/
def stagedResume : ResumeArgs where
  device := ascii "disk"
  config := ascii "etc/config.json"
  trustKey := ascii "trust"
  pendingBundle := ascii "bundle"

/-- The slot of an enrollment is there, and its bundle is staged. -/
def stagedHost (prepared : Engine.PreparedEnrollment) : Host where
  files := Function.update pairFiles stagedResume.pendingBundle
    (some ⟨prepared.envelope, true, false, 0o600⟩)
  device := ⟨Luks.recoveryDisk.putSlot 1 prepared.credential.toList, none, []⟩
  mappings := []
  operation := Operation.new "resume"

/-- What is printed of a slot does not depend on its passphrase. -/
theorem dump_stagedHost (prepared : Engine.PreparedEnrollment) (region : Nat) :
    (Luks.compact region).dump (stagedHost prepared).device.disk =
      (Luks.compact region).dump Luks.unattached := by
  have hslots : (fun id => ((stagedHost prepared).device.disk.slots id).map
        fun _ => Json.Value.object .nil) =
      fun id => (Luks.unattached.slots id).map fun _ => Json.Value.object .nil := by
    funext id
    by_cases hid : id = 1
    · subst hid
      rfl
    · simp only [stagedHost, Luks.unattached, Luks.Header.putSlot, Function.update_of_ne hid]
  have hheader : Luks.headerValue (stagedHost prepared).device.disk =
      Luks.headerValue Luks.unattached := by
    rw [Luks.headerValue, hslots]
    rfl
  simp only [Luks.compact, hheader]

/-- The example's volume has room for the token. -/
theorem stagedHost_room {prepared : Engine.PreparedEnrollment} (hne : prepared.envelope ≠ [])
    (hlength : prepared.envelope.length ≤ 64 * 1024) :
    ∃ token, ((Luks.compact 131072).outcome 1 prepared.envelope
      (stagedHost prepared).device.disk).1 = .ok token := by
  have hreports := (Luks.compact_grows 131072).toReports
  have hslot : (1 : UInt8) < 32 := by decide
  obtain ⟨json, hencode, -, hjson⟩ :=
    @Luks.encodeToken_ok _ Luks.serde_specified ⟨1, prepared.envelope⟩ hslot hne hlength
  have hfree : Luks.Library.freeId (stagedHost prepared).device.disk = some 0 := rfl
  have hrequired : (Luks.compact 131072).required (stagedHost prepared).device.disk 0 json false ≤
      126976 := by
    have hdump : ((Luks.compact 131072).dump Luks.unattached).utf8ByteSize ≤ 100 := by
      decide +kernel
    have hid : (Luks.slotText 0).utf8ByteSize = 1 := by decide
    simp only [Luks.Library.required, dump_stagedHost, hid, Bool.false_eq_true, if_false]
    omega
  have hnone : Luks.tokenIds.find? ((stagedHost prepared).device.disk.carries Luks.serde 1
      prepared.envelope) = none := by
    refine List.find?_eq_none.mpr fun id _ h => ?_
    obtain ⟨text, htext, -⟩ := Luks.Header.carries_iff.mp h
    cases htext
  obtain ⟨id, -, -, houtcome⟩ := Luks.outcome_of_plan hreports hencode hnone
    ((Luks.Library.plan_eq_ok hreports).mpr ⟨hencode, hfree,
      Luks.isCString_of_encodeToken Luks.serde_specified hencode, 126976, rfl, hrequired⟩)
  exact ⟨_, congrArg Prod.fst houtcome⟩

/-- The pair can be enrolled, and its host has what both commands need. -/
theorem pair_staged : ∃ prepared w' providers token,
    Engine.prepareObserved rfc8949 transparent Engine.pairEnrollment pairDescriptor
      (Vector.replicate 32 5) ⟨⟨[]⟩, []⟩ = (.ok prepared, w') ∧
    Equipped (Luks.compact 131072) jsonSettings transparent pairSite stagedResume.config
      stagedResume.trustKey (Vector.replicate 32 5) providers storingAccess (stagedHost prepared) ∧
    ((Luks.compact 131072).outcome 1 prepared.envelope (stagedHost prepared).device.disk).1 =
      .ok token := by
  obtain ⟨prepared, w', hprepare⟩ := Engine.pairEnrollment_succeeds
  have hall : (Engine.prepareObserved rfc8949 transparent Engine.pairEnrollment pairDescriptor
      (Vector.replicate 32 5) ⟨⟨[]⟩, []⟩).1.toOption.all (fun prepared =>
        decide (prepared.envelope ≠ [] ∧ prepared.envelope.length ≤ 64 * 1024) &&
          ((Providers.read jsonSettings transparent stagedResume.config Net.nodeLibrary).runWith
            (hostAnswer (Luks.compact 131072)) (stagedHost prepared)).1.isOk) = true := by
    decide +kernel
  rw [hprepare] at hall
  obtain ⟨hbounds, hok⟩ := Bool.and_eq_true_iff.mp hall
  obtain ⟨hne, hlength⟩ := of_decide_eq_true hbounds
  obtain ⟨providers, hproviders⟩ := isOk_eq_true_iff.mp hok
  obtain ⟨token, hroom⟩ := stagedHost_room hne hlength
  exact ⟨prepared, w', providers, token, hprepare, ⟨hproviders, ⟨_, rfl, rfl⟩, rfl, rfl⟩, hroom⟩

/-- The pair unlocks by its one answering leaf, and what comes up is authorized. -/
theorem unlock_authorized_pair : ∃ (args : UnlockArgs) (s s' : Host),
    Runs hostResponds Eq (unlock rfc8949 transparent Luks.serde jsonSettings pairSite args) s
      (.ok ()) s' ∧ Unlocks rfc8949 transparent pairSite args s s' := by
  obtain ⟨prepared, w', providers, token, hprepare, hequipped, hroom⟩ := pair_staged
  obtain ⟨context, body, h⟩ := Engine.prepareObserved_eq_ok transparent_decryptsOwn hprepare
  obtain ⟨diagnostics, _, hunlock⟩ := h.unlock_ok rfc8949_spec transparent_signsOwn
    transparent_evaluatesTo (pairSite_attempt providers) (by decide) ⟨⟨[]⟩, []⟩
  have hopens : (stagedHost prepared).device.disk.slots 1 = some prepared.credential.toList := rfl
  obtain ⟨disk', houtcome⟩ : ∃ disk', (Luks.compact 131072).outcome 1 prepared.envelope
      (stagedHost prepared).device.disk = (.ok token, disk') := ⟨_, Prod.ext hroom rfl⟩
  obtain ⟨hwithin, id, hid, -, henrolled⟩ := Luks.enrolled_of_outcome Luks.serde_specified
    (Luks.compact_grows 131072).toReports hopens houtcome
  have huuid : disk'.uuid = pairDescriptor.volumeUuid := hwithin.uuid
  let args : UnlockArgs :=
    ⟨stagedResume.device, stagedResume.config, stagedResume.trustKey, id, some "root"⟩
  let s : Host := { stagedHost prepared with device := ⟨disk', none, []⟩ }
  have hyields : Yields (hostAnswer (Luks.compact 131072))
      (Holds (stagedHost prepared).files disk' [] s.operation.storage)
      (unlock rfc8949 transparent Luks.serde jsonSettings pairSite args) (.ok ()) _ :=
    yields_unlock hequipped rfl (by decide) hid henrolled (huuid ▸ congrArg Prod.fst hunlock)
  have hruns : Runs hostResponds Eq
      (unlock rfc8949 transparent Luks.serde jsonSettings pairSite args) s _ _ :=
    Program.runs_runWith (fun op s => ⟨s, rfl, hostAnswer_responds (Luks.compact 131072) op s⟩) _ _
  rw [(hyields s ⟨rfl, ⟨rfl, rfl⟩, rfl, rfl⟩).1] at hruns
  refine ⟨args, s, _, hruns, ?_⟩
  rcases (unlock_authorized (fun s _ h => h ▸ .refl s) hruns).1 with ⟨-, hnone⟩ | hunlocks
  · cases hnone rfl
  · exact hunlocks

section Resume

variable {codec : Luks.Codec} {luksLibrary : Luks.Library codec} {cbor : Cbor} {P : Primitives}
  {settings : Settings} {library : Net.Library} {ρ ρ' : Type} {site : Site library ρ}
  {providers : Providers library} {tpm : TpmAccess} {enroll : Engine.EnrollEnvironment ρ'}
  {d : Descriptor} {signer : P.SigningKey} {prepared : Engine.PreparedEnrollment}
  {failing : Finset UInt8} {prf : PointBytes → Bytes → Vector UInt8 outputBytes}

end Resume

end Leelo.Cli
