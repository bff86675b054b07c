import Leelo.Cli.Journal
import Leelo.Core.RelyGuarantee
import Leelo.Engine.Unlock
import Leelo.Luks.Access

/-!
# The host of a command

Commands read files, open a device, call the LUKS library, and observe themselves. A mapping
of the device comes up when a passphrase is used under a name. Every read and every call may
fail, and between them others may change anything, the device included.
-/

namespace Leelo.Cli

open Leelo.Core Leelo.Core.Fallible
open Leelo.Engine (EngineError)
open Leelo.Luks (IoError)

/-- The operations of a command on its host. -/
inductive HostOp where
  | read (path : Bytes) (limit : Nat)
  /-- No symbolic link is followed. -/
  | readSecret (path : Bytes) (limit : Nat)
  | openDevice (path : Bytes) (writable : Bool)
  | luks (op : Luks.Op)
  | observe (change : Operation → Operation)

/-- The answer to each operation. -/
abbrev HostOp.Ans : HostOp → Type
  | .read _ _ => Except IoError Bytes
  /- Whether it is a regular file, its mode, and its first bytes. -/
  | .readSecret _ _ => Except IoError (Bool × UInt32 × Bytes)
  | .openDevice _ _ => Except IoError Unit
  | .luks op => Luks.Ans op
  | .observe _ => Unit

/-- The program of a command. -/
abbrev Action (α : Type) := Fallible HostOp HostOp.Ans (Halt CliError) α

/-- A single operation. -/
def hostCall (op : HostOp) : Action op.Ans := perform op

/-- What a command says of a failure that has a message only. -/
def misconfigured : Halt CliError := .error (.other "configuration_or_operation")

/-- The reason an engine's error is reported as. -/
def engineReason : EngineError → String
  | .envelope _ => "envelope"
  | .crypto => "cryptography"
  | .sharing => "sharing"
  | .policy => "policy"
  | .provider _ => "tpm"
  | .tpm _ _ => "tpm"
  | .insufficientFactors _ => "insufficient_factors"
  | .deadlineExceeded _ => "deadline"
  | .inconsistentShares => "inconsistent_shares"
  | .targetMismatch => "target_mismatch"
  | .unsupportedMode => "unsupported_mode"
  | .runtime => "runtime"

/-- An engine's error as the command's. -/
def engineError (error : EngineError) : CliError := .other (engineReason error)

/-- Changes the operation's report. -/
def observing (change : Operation → Operation) : Action Unit := hostCall (.observe change)

/-- At most `limit` bytes are taken, one more than a file may have. -/
def readBounded (path : Bytes) (max : Nat) : Action Bytes := do
  let output ← ofResult (Exec.lift CliError.io (← hostCall (.read path (max + 1))))
  if output.length > max then ofResult (.error misconfigured) else pure output

/-- Reads a file of a fixed length. -/
def readArray (n : Nat) (path : Bytes) : Action (Vector UInt8 n) := do
  match tryInto n (← readBounded path n) with
  | none => ofResult (.error misconfigured)
  | some value => pure value

/-- A regular file that only its owner may access. -/
def readSecret (path : Bytes) (max : Nat) : Action Bytes := do
  let (isFile, mode, data) ← ofResult
    (Exec.lift CliError.io (← hostCall (.readSecret path (max + 1))))
  if ¬isFile ∨ mode &&& 0o077 ≠ 0 then ofResult (.error misconfigured)
  else if data = [] ∨ data.length > max then ofResult (.error misconfigured)
  else pure data

/-- A storage operation on the host. -/
def luksCall (op : Luks.Op) : Program HostOp HostOp.Ans (Luks.Ans op) :=
  Program.perform (HostOp.luks op)

/-- A method of the device handle. -/
def onLuks {α : Type} (method : Luks.Call α) : Action α :=
  mapError (fun error => .error (.luks error)) (method.expand luksCall)

/-- A device that cannot be opened is an error of the LUKS layer. -/
def openLuks (device : Bytes) (writable : Bool) : Action Luks.Luks2 := do
  let opened ← hostCall (.openDevice device writable)
  ofResult (Exec.lift (fun error => .luks (.io error)) opened)
  onLuks (Luks.fromFile writable)

/-- A mapping of a volume, and the slot and passphrase that brought it up. -/
structure Mapping where
  volume : Vector UInt8 16
  name : String
  slot : Option UInt8
  passphrase : Bytes
  deriving DecidableEq

/-- A file: its content, its kind and its mode. -/
structure HostFile where
  content : Bytes
  isFile : Bool
  isLink : Bool
  mode : UInt32

/-- The host of a command: its files, the volume, the mappings and the report. -/
structure Host where
  files : Bytes → Option HostFile
  device : Luks.Device Unit
  mappings : List Mapping
  operation : Operation

/-- What a call of the library brings up. -/
def mapped : (op : Luks.Op) → Luks.Ans op → List Mapping
  | .activateByPassphrase context (some name) slot passphrase, code =>
    if 0 ≤ code then [⟨context.uuid, name, slot, passphrase⟩] else []
  | _, _ => []

/-- Reads may fail, and the library does what it does with one caller. -/
def hostResponds : Program.Behaviour HostOp HostOp.Ans Host
  | .read path limit, s, answer, s' => s' = s ∧ ∀ bytes, answer = .ok bytes →
    ∃ file, s.files path = some file ∧ bytes = file.content.take limit
  | .readSecret path limit, s, answer, s' => s' = s ∧ ∀ result, answer = .ok result →
    ∃ file, s.files path = some file ∧ file.isLink = false ∧
      result = (file.isFile, file.mode, file.content.take limit)
  | .openDevice _ _, s, _, s' => s' = s
  | .luks op, s, answer, s' => ∃ device, Luks.responds () op s.device answer device ∧
    s' = { s with device, mappings := s.mappings ++ mapped op answer }
  | .observe change, s, _, s' => s' = { s with operation := change s.operation }

/-- A host whose files can be read and whose library fails only when it must. -/
def hostAnswer {codec : Luks.Codec} (library : Luks.Library codec) :
    (op : HostOp) → Host → op.Ans × Host
  | .read path limit, s =>
    (match s.files path with
      | some file => .ok (file.content.take limit)
      | none => .error ⟨some 2⟩, s)
  | .readSecret path limit, s =>
    (match s.files path with
      | some file =>
        if file.isLink then .error ⟨some 40⟩
        else .ok (file.isFile, file.mode, file.content.take limit)
      | none => .error ⟨some 2⟩, s)
  | .openDevice _ _, s => (.ok (), s)
  | .luks op, s =>
    ((library.answer op s.device).1, { s with
      device := (library.answer op s.device).2
      mappings := s.mappings ++ mapped op (library.answer op s.device).1 })
  | .observe change, s => ((), { s with operation := change s.operation })

/-- The answers are one behaviour of the host. -/
theorem hostAnswer_responds {codec : Luks.Codec} (library : Luks.Library codec) (op : HostOp)
    (s : Host) : hostResponds op s (hostAnswer library op s).1 (hostAnswer library op s).2 := by
  cases op with
  | read path limit =>
    refine ⟨rfl, fun bytes hbytes => ?_⟩
    cases hfile : s.files path with
    | none =>
      simp only [hostAnswer, hfile] at hbytes
      cases hbytes
    | some file =>
      simp only [hostAnswer, hfile] at hbytes
      exact ⟨file, rfl, (Except.ok.inj hbytes).symm⟩
  | readSecret path limit =>
    refine ⟨rfl, fun result hresult => ?_⟩
    cases hfile : s.files path with
    | none =>
      simp only [hostAnswer, hfile] at hresult
      cases hresult
    | some file =>
      simp only [hostAnswer, hfile] at hresult
      split_ifs at hresult with hlink
      exact ⟨file, rfl, Bool.eq_false_iff.mpr hlink, (Except.ok.inj hresult).symm⟩
  | openDevice _ _ => rfl
  | luks op => exact ⟨_, library.answer_responds op s.device, rfl⟩
  | observe change => rfl

theorem onLuks_bind {α β : Type} (x : Luks.Call α) (next : α → Luks.Call β) :
    onLuks (x >>= next) = onLuks x >>= fun a => onLuks (next a) :=
  Program.mapError_expand_bind _ x next

theorem mapped_of_names {op : Luks.Op} (h : op.names = false) (answer : Luks.Ans op) :
    mapped op answer = [] := by
  cases op with
  | activateByPassphrase context name slot passphrase =>
    cases name with
    | none => rfl
    | some name => cases h
  | _ => rfl

/-- A method runs on the device, with others at work on it. -/
theorem runs_expand {rely : Host → Host → Prop} {α : Type} {p : Program Luks.Op Luks.Ans α}
    {a : α} {s s' : Host} (h : Program.Runs hostResponds rely (p.expand luksCall) s a s') :
    Program.Runs (Luks.responds ()) (fun _ _ => True) p s.device a s'.device := by
  induction p generalizing s with
  | done b =>
    obtain ⟨rfl, rfl⟩ := Program.runs_done.mp h
    exact .done _ _
  | call op next ih =>
    obtain ⟨answer, s₁, hcall, hnext⟩ := Program.runs_bind.mp h
    obtain ⟨s₂, -, device, hresponds, rfl⟩ := Program.runs_perform.mp hcall
    exact .call trivial hresponds (ih answer hnext)

/-- On such a host a method that brings up no mapping only works on the device. -/
theorem runWith_expand {codec : Luks.Codec} {library : Luks.Library codec} {α : Type}
    {p : Program Luks.Op Luks.Ans α} (hp : p.All fun op => op.names = false) (s : Host) :
    (p.expand luksCall).runWith (hostAnswer library) s =
      ((p.runWith library.answer s.device).1,
        { s with device := (p.runWith library.answer s.device).2 }) := by
  induction p generalizing s with
  | done a => rfl
  | call op next ih =>
    have hstep : (hostAnswer library (.luks op) s).2 =
        { s with device := (library.answer op s.device).2 } := by
      simp only [hostAnswer, mapped_of_names hp.1, List.append_nil]
    change ((next _).expand luksCall).runWith (hostAnswer library)
      (hostAnswer library (.luks op) s).2 = _
    rw [hstep]
    exact ih _ (hp.2 _) _

end Leelo.Cli
