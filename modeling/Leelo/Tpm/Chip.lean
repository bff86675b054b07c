import Leelo.Tpm.Seal

/-!
# The TPM

Transient objects and sessions of one context, and the PCRs with their update counter. The
owner hierarchy fixes the primary object of every template and what unwraps under it. A
policy session must repeat the policy of an object, and the update counter must be the one
that the session was bound to.
-/

namespace Leelo.Tpm

open Leelo.Core Leelo.Core.Fallible

/-- A loaded object. -/
structure Loaded where
  area : Public
  /-- Primary objects have no data. -/
  sensitive : Option Bytes

/-- A session of the module. -/
structure Session where
  kind : SessionType
  tpmKey : Option KeyHandle
  policy : Bytes
  /-- The update counter when the session was bound to the PCRs. -/
  counter : Option UInt32
  command : Option CommandCode
  decrypt : Bool
  encrypt : Bool

/-- The policy of a session that is bound to nothing. -/
def zeroDigest : Bytes := List.replicate 32 0

/-- A session at its start. -/
def Session.start (kind : SessionType) (tpmKey : Option KeyHandle) : Session :=
  ⟨kind, tpmKey, zeroDigest, none, none, false, false⟩

/-- The session as the library names it. -/
def SessionType.auth : SessionType → Nat → AuthSession
  | .hmac, handle => .hmac handle
  | .policy, handle => .policy handle
  | .trial, handle => .policy handle

/-- The handle of a session, where it has one. -/
def AuthSession.handle : AuthSession → Option Nat
  | .password => none
  | .hmac session => some session
  | .policy session => some session

/-- Handles are given in order. -/
structure Device where
  instant : Instant
  objects : KeyHandle → Option Loaded
  sessions : Nat → Option Session
  next : Nat
  freshObjects : ∀ handle, next ≤ handle → objects handle = none
  freshSessions : ∀ handle, next ≤ handle → sessions handle = none

namespace Device

variable (d : Device)

/-- The device with one more object. -/
def addObject (object : Loaded) : Device where
  instant := d.instant
  objects := Function.update d.objects d.next (some object)
  sessions := d.sessions
  next := d.next + 1
  freshObjects handle h := by
    rw [Function.update_of_ne (Nat.ne_of_gt h)]
    exact d.freshObjects handle (Nat.le_of_succ_le h)
  freshSessions handle h := d.freshSessions handle (Nat.le_of_succ_le h)

/-- The device with one more session. -/
def addSession (session : Session) : Device where
  instant := d.instant
  objects := d.objects
  sessions := Function.update d.sessions d.next (some session)
  next := d.next + 1
  freshObjects handle h := d.freshObjects handle (Nat.le_of_succ_le h)
  freshSessions handle h := by
    rw [Function.update_of_ne (Nat.ne_of_gt h)]
    exact d.freshSessions handle (Nat.le_of_succ_le h)

/-- Sessions have handles that were given out. -/
theorem lt_next_of_session {d : Device} {handle : Nat} {session : Session}
    (h : d.sessions handle = some session) : handle < d.next := by
  by_contra hge
  rw [d.freshSessions handle (Nat.le_of_not_lt hge)] at h
  cases h

/-- Objects have handles that were given out. -/
theorem lt_next_of_object {d : Device} {handle : KeyHandle} {object : Loaded}
    (h : d.objects handle = some object) : handle < d.next := by
  by_contra hge
  rw [d.freshObjects handle (Nat.le_of_not_lt hge)] at h
  cases h

/-- Change or end a session. -/
def setSession (handle : Nat) (session : Option Session) : Device where
  instant := d.instant
  objects := d.objects
  sessions := if handle < d.next then Function.update d.sessions handle session else d.sessions
  next := d.next
  freshObjects := d.freshObjects
  freshSessions other h := by
    split_ifs with hlt
    · rw [Function.update_of_ne (Nat.ne_of_gt (lt_of_lt_of_le hlt h))]
      exact d.freshSessions other h
    · exact d.freshSessions other h

/-- Use up a number. -/
def skip : Device where
  __ := d
  next := d.next + 1
  freshObjects handle h := d.freshObjects handle (Nat.le_of_succ_le h)
  freshSessions handle h := d.freshSessions handle (Nat.le_of_succ_le h)

end Device

/-- What stays with a TPM: its functions, and its owner hierarchy. -/
structure Chip where
  sha256 : Bytes → Vector UInt8 32
  name : Public → Bytes
  primary : (template : Public) → Public
  create : (parent template : Public) → (sensitive : Bytes) → (nonce : Nat) → Public × Bytes
  unwrap : (parent area : Public) → (privateArea : Bytes) → Option Bytes
  pcrPolicy : (policy : Bytes) → PcrSelectionList → (digest : Bytes) → Bytes
  commandPolicy : (policy : Bytes) → CommandCode → Bytes
  refusal : TssError

/-- The policy of an area. -/
def Public.authPolicy : Public → Bytes
  | .keyedHash _ _ policy _ _ => policy
  | .ecc _ _ policy _ _ => policy
  | .other _ _ => []

namespace Chip

variable (chip : Chip)

/-- The digest of selected PCRs at an instant. -/
def pcrValues (instant : Instant) (selected : PcrSelectionList) : Bytes :=
  selected.flatMap fun selection => selection.slots.flatMap (instant.bank selection.algorithm)

/-- The digest of the selected registers. -/
def pcrDigest (instant : Instant) (selected : PcrSelectionList) : Bytes :=
  (chip.sha256 (pcrValues instant selected)).toList

/-- Refuses what is not found. -/
def orRefuse {α : Type} (found : Option α) : Except TssError α :=
  found.elim (.error chip.refusal) .ok

/-- A session is bound to the PCRs as they are, a trial session to no PCRs. -/
def bindPcr (d : Device) (digest : Bytes) (selected : PcrSelectionList) (session : Session) :
    Except TssError Session :=
  match session.kind with
  | .hmac => .error chip.refusal
  | .trial => .ok { session with policy := chip.pcrPolicy session.policy selected digest }
  | .policy =>
    if digest = chip.pcrDigest d.instant selected then
      .ok { session with
        policy := chip.pcrPolicy session.policy selected digest
        counter := some d.instant.counter }
    else .error chip.refusal

/-- The policy of the object, for this command, with the PCRs that the session is bound to. -/
def authorizes (instant : Instant) (session : Session) (object : Loaded) : Bool :=
  session.kind = .policy ∧ session.policy = object.area.authPolicy ∧
    session.command.all (· = .unseal) ∧ session.counter.all (· = instant.counter)

/-- What the module does for a command. -/
def execute : (command : Command) → Device → Except TssError (command.Result × Device)
  | .context, d => .ok ((), d)
  | .createPrimary _ template, d =>
    .ok ((d.next, chip.primary template), d.addObject ⟨chip.primary template, none⟩)
  | .getName object, d => do
    let object ← chip.orRefuse (d.objects object)
    return (chip.name object.area, d)
  | .startAuthSession tpmKey kind _ _, d =>
    .ok (some (kind.auth d.next), d.addSession (.start kind tpmKey))
  | .setAttributes session _ decrypt encrypt, d => do
    let handle ← chip.orRefuse session.handle
    let session ← chip.orRefuse (d.sessions handle)
    return ((), d.setSession handle (some { session with decrypt := decrypt, encrypt := encrypt }))
  | .policyPcr handle digest selected, d => do
    let session ← chip.orRefuse (d.sessions handle)
    let session ← chip.bindPcr d digest selected session
    return ((), d.setSession handle (some session))
  | .policyCommandCode handle code, d => do
    let session ← chip.orRefuse (d.sessions handle)
    return ((), d.setSession handle (some { session with
      policy := chip.commandPolicy session.policy code
      command := some code }))
  | .policyGetDigest handle, d => do
    let session ← chip.orRefuse (d.sessions handle)
    return (session.policy, d)
  | .flushContext session, d => do
    let handle ← chip.orRefuse session.handle
    return ((), d.setSession handle none)
  | .create _ parent template sensitive, d => do
    let parent ← chip.orRefuse (d.objects parent)
    return (chip.create parent.area template sensitive d.next, d.skip)
  | .load _ parent privateArea area, d => do
    let parent ← chip.orRefuse (d.objects parent)
    let sensitive ← chip.orRefuse (chip.unwrap parent.area area privateArea)
    return (d.next, d.addObject ⟨area, some sensitive⟩)
  | .unseal auth object, d => do
    let handle ← chip.orRefuse auth.handle
    let session ← chip.orRefuse (d.sessions handle)
    let object ← chip.orRefuse (d.objects object)
    if authorizes d.instant session object then
      let sensitive ← chip.orRefuse object.sensitive
      return (sensitive, d)
    else .error chip.refusal

/-- A command may fail for any reason and then has no effect. -/
def responds : Program.Behaviour Command Command.Ans Device
  | command, d, answer, d' =>
    (∃ result, answer = .ok result ∧ chip.execute command d = .ok (result, d')) ∨
      ((∃ error, answer = .error error) ∧ d' = d)

/-- A TPM that only fails when it must. -/
def perform (command : Command) (d : Device) : command.Ans × Device :=
  match chip.execute command d with
  | .ok (result, d') => (.ok result, d')
  | .error error => (.error error, d)

theorem responds_perform (command : Command) (d : Device) :
    chip.responds command d (chip.perform command d).1 (chip.perform command d).2 := by
  unfold perform
  cases hexecute : chip.execute command d with
  | ok answer =>
    obtain ⟨result, d'⟩ := answer
    exact .inl ⟨result, rfl, hexecute⟩
  | error error => exact .inr ⟨⟨error, rfl⟩, rfl⟩

end Chip

/-- The resource manager keeps the contexts apart. What others do to the PCRs meanwhile is any
relation of instants. -/
structure Interferes (changes : Instant → Instant → Prop) (d d' : Device) : Prop where
  instant : changes d.instant d'.instant
  objects : d'.objects = d.objects
  sessions : d'.sessions = d.sessions
  next : d'.next = d.next

end Leelo.Tpm
