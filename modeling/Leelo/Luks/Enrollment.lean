import Leelo.Luks.Library
import Leelo.Sss.Sharing

/-!
# Enrollment on a LUKS2 device

The adapter as programs over the library calls. Enrollment checks the device under the
write lock, adds a keyslot, then attaches a token, and every failure after the first
write is reported as partial. Attachment alone repairs an enrollment whose slot exists.
-/

namespace Leelo.Luks

open Leelo.Core Leelo.Core.Fallible
open Leelo.Sss (Secret)

/-- The program of a storage call. -/
abbrev Call (α : Type) := Fallible Op Ans Error α

/-- A single operation of the library. -/
def call (op : Op) : Call (Ans op) := perform op

/-- Ends the call with an error. -/
def fail {α : Type} (error : Error) : Call α := ofResult (.error error)

/-- Checks a condition. -/
def ensure (condition : Prop) [Decidable condition] (error : Error) : Call Unit :=
  ofResult (if condition then .ok () else .error error)

/-- The library's codes below zero are errors. -/
def checked (operation : String) (code : Int) : Except Error Int :=
  if code < 0 then .error (.cryptsetup operation code) else .ok code

/-- An error after the volume was changed. -/
def partialError (slot : UInt8) (stage : String) (source : Error) : Error :=
  .partialEnrollment slot stage source

/-- The size of the binary header before the metadata. -/
def binaryHeaderSize : Nat := 4096

/-- The new keyslot and its digest association consume JSON space as well. -/
def newSlotJsonReserve : Nat := 4096

/-- A string that can be passed to C. -/
def isCString (text : String) : Bool := !text.toList.contains (Char.ofNat 0)

/-- Conversion of a code to an octet. -/
def octetOfInt (value : Int) : Option UInt8 :=
  if 0 ≤ value ∧ value < 256 then some (UInt8.ofNat value.toNat) else none

/-- Clones the file's handle. -/
def tryClone : Call Unit := do
  let answer ← call .cloneFile
  ofResult (answer.mapError .io)

/-- A refused lock is held by another writer; other errors are passed on. -/
def lockError (error : IoError) : Error :=
  -- EAGAIN and EACCES
  if error.rawOsError = some 11 ∨ error.rawOsError = some 13 then .writerBusy else .io error

/-- Takes the lock without waiting. -/
def acquire : Call Unit := do
  tryClone
  let answer ← call .setLock
  ofResult (answer.mapError lockError)

/-- The guard releases the lock when its scope ends, whatever the result is. -/
def dropLock {α : Type} (body : Call α) : Call α :=
  Program.bind body fun result => .call .unlock fun _ => .done result

/-- Holds the lock for the length of a call. -/
def withLock {α : Type} (body : Call α) : Call α := do
  acquire
  dropLock body

/-- An open device: its library context, and what was true when it was opened. -/
structure Luks2 where
  context : Header
  uuid : Vector UInt8 16
  writable : Bool

/-- Loads a header and its volume identifier. -/
def fromFile (writable : Bool) : Call Luks2 := do
  let (code, hasContext) ← call .init
  let _ ← ofResult (checked "initialize" code)
  ensure (hasContext = true) .invalidInput
  let (code, context) ← call .load
  let _ ← ofResult (checked "load header" code)
  match ← call (.getUuid context) with
  | none => fail .wrongVolume
  | some uuid => pure ⟨context, uuid, writable⟩

/-- Getters only read a context's copy of the header, so a context is made anew. -/
def reload (self : Luks2) : Call Luks2 := do
  tryClone
  let fresh ← fromFile self.writable
  ensure (fresh.uuid = self.uuid) .wrongVolume
  pure fresh

/-- The state of a slot. -/
def slotStatus (self : Luks2) (slot : UInt8) : Call Int := do
  ensure (slot < slotCount) .invalidInput
  call (.keyslotStatus self.context slot)

/-- The slot that the credential opened, which is the given one if one is given. -/
def activatedSlot (slot : Option UInt8) (code : Int) : Except Error UInt8 := do
  let result ← checked "check or activate credential" code
  match octetOfInt result with
  | none => .error .metadataChanged
  | some actual =>
    if actual ≥ slotCount ∨ slot.any (· ≠ actual) then .error .metadataChanged else .ok actual

/-- Without a mapping name the credential is only checked. -/
def activateInner (self : Luks2) (slot : Option UInt8) (credential : Bytes)
    (mapping : Option String) : Call UInt8 := do
  ensure (¬(slot.any (· ≥ slotCount) ∨ credential = [] ∨ credential.length > 8192)) .invalidInput
  ensure (mapping.all isCString) .invalidInput
  let code ← call (.activateByPassphrase self.context mapping slot credential)
  ofResult (activatedSlot slot code)

section Metadata

variable (codec : Codec)

/-- The metadata as parsed, its size and the space there is. -/
structure Metadata where
  parsed : codec.Value
  jsonBytes : Nat
  available : Nat

/-- The room for JSON in a metadata region. -/
def availableOf (region : Nat) : Except Error Nat :=
  if binaryHeaderSize ≤ region ∧ region - binaryHeaderSize ≤ 4 * 1024 * 1024 then
    .ok (region - binaryHeaderSize)
  else .error .wrongVolume

/-- Parses the metadata. -/
def parseJson : CText → Except Error (codec.Value × Nat)
  | .text json =>
    match codec.fromSlice json with
    | some value => .ok (value, json.utf8ByteSize)
    | none => .error .wrongVolume
  | _ => .error .wrongVolume

/-- Reads the metadata. -/
def metadata (self : Luks2) : Call (Metadata codec) := do
  let (code, region) ← call (.getMetadataSize self.context)
  let _ ← ofResult (checked "read metadata size" code)
  let available ← ofResult (availableOf region)
  let (code, json) ← call (.dumpJson self.context)
  let _ ← ofResult (checked "read metadata JSON" code)
  let (parsed, jsonBytes) ← ofResult (parseJson codec json)
  pure ⟨parsed, jsonBytes, available⟩

variable {codec}

/-- The table of tokens. -/
def Metadata.tokens (metadata : Metadata codec) : Except Error (List (String × codec.Value)) :=
  match (codec.get metadata.parsed "tokens").bind codec.asObject with
  | some tokens => .ok tokens
  | none => .error .wrongVolume

/-- The identifiers of tokens in ascending order. -/
def tokenIds : List UInt8 := (List.range slotCount.toNat).map UInt8.ofNat

/-- The identifiers are those below the number of slots. -/
theorem mem_tokenIds {id : UInt8} : id ∈ tokenIds ↔ id < slotCount := by
  constructor
  · intro h
    obtain ⟨n, hn, rfl⟩ := List.mem_map.mp h
    have hlt : n < 32 := List.mem_range.mp hn
    rw [UInt8.lt_iff_toNat_lt, UInt8.toNat_ofNat', Nat.mod_eq_of_lt (by omega)]
    exact hlt
  · intro h
    exact List.mem_map.mpr ⟨id.toNat, List.mem_range.mpr h, UInt8.ofNat_toNat⟩

/-- The bytes that a token adds: its text, its quoted identifier, a colon, a comma and the
terminator, and room for a new keyslot. -/
def requiredBytes (metadata : Metadata codec) (id : UInt8) (json : String) (addingSlot : Bool) :
    Nat :=
  metadata.jsonBytes + json.utf8ByteSize + (slotText id).utf8ByteSize + 5 +
    if addingSlot then newSlotJsonReserve else 0

/-- The identifier that a new token would get, if there is room for it. -/
def planToken (metadata : Metadata codec) (tokens : List (String × codec.Value)) (json : String)
    (addingSlot : Bool) : Except Error (UInt8 × String) :=
  match tokenIds.find? fun id => (tokens.lookup (slotText id)).isNone with
  | none => .error .noTokenSpace
  | some id =>
    if requiredBytes metadata id json addingSlot > metadata.available then
      .error (.metadataSpace (requiredBytes metadata id json addingSlot) metadata.available)
    else if isCString json then .ok (id, json)
    else .error .invalidToken

variable (codec)

/-- Plans a token: its identifier and its text, where there is space. -/
def tokenPlan (self : Luks2) (slot : UInt8) (envelope : Bytes) (addingSlot : Bool) :
    Call (UInt8 × String) := do
  let json ← ofResult (encodeToken codec slot envelope)
  let metadata ← metadata codec self
  let tokens ← ofResult metadata.tokens
  ofResult (planToken metadata tokens json addingSlot)

/-- The first token that carries this slot and envelope. A token that does not decode is
skipped, and one that cannot be printed ends the search. -/
def findToken (tokens : List (String × codec.Value)) (slot : UInt8) (envelope : Bytes) :
    List UInt8 → Except Error (Option UInt8)
  | [] => .ok none
  | id :: ids =>
    match tokens.lookup (slotText id) with
    | none => findToken tokens slot envelope ids
    | some value =>
      match codec.valueToString value with
      | none => .error .invalidToken
      | some json =>
        match decodeToken codec json with
        | .ok token =>
          if token.slot = slot ∧ token.bytes = envelope then .ok (some id)
          else findToken tokens slot envelope ids
        | .error _ => findToken tokens slot envelope ids

end Metadata

section Enrollment

variable (codec : Codec)

/-- Reads a token from the header that was loaded. -/
def cachedToken (self : Luks2) (id : UInt8) : Call TokenEnvelope := do
  ensure (id < slotCount) .invalidInput
  let (code, json) ← call (.tokenJsonGet self.context id)
  let _ ← ofResult (checked "read token" code)
  match json with
  | .text text => ofResult (decodeToken codec text)
  | _ => fail .invalidToken

/-- A fresh load shows the token with this slot and envelope, and the slot opens. -/
def verifyPersisted (self : Luks2) (id slot : UInt8) (credential : Secret) (envelope : Bytes) :
    Call Unit := do
  let self ← reload self
  let token ← cachedToken codec self id
  ensure (token.slot = slot ∧ token.bytes = envelope) .metadataChanged
  let _ ← activateInner self (some slot) credential.toList none
  pure ()

/-- Syncs the device. -/
def syncAll : Call Unit := do
  let answer ← call .syncAll
  ofResult (answer.mapError .io)

/-- Allocate a token instead of replacing one, and read it back. -/
def writeToken (self : Luks2) (slot : UInt8) (credential : Secret) (envelope : Bytes)
    (id : UInt8) (json : String) : Call Int := do
  let code ← call (.tokenJsonSet self.context none json)
  let result ← ofResult ((checked "write token" code).mapError (partialError slot "token write"))
  ensure (result = id.toNat) (partialError slot "token identity" .metadataChanged)
  mapError (partialError slot "token sync") syncAll
  mapError (partialError slot "token readback")
    (verifyPersisted codec self id slot credential envelope)
  pure result

/-- Attaches a token, or finds the one that is there. -/
def attachLocked (self : Luks2) (slot : UInt8) (credential : Secret) (envelope : Bytes) :
    Call Int := do
  let self ← reload self
  let _ ← activateInner self (some slot) credential.toList none
  let metadata ← metadata codec self
  let tokens ← ofResult metadata.tokens
  match ← ofResult (findToken codec tokens slot envelope tokenIds) with
  | some id => do
    verifyPersisted codec self id slot credential envelope
    pure (id.toNat : Int)
  | none => do
    let (id, json) ← tokenPlan codec self slot envelope false
    writeToken codec self slot credential envelope id json

/-- Test the exact signed slot before token attachment. -/
def attachEnrollment (self : Luks2) (slot : UInt8) (credential : Secret) (envelope : Bytes) :
    Call Int := do
  ensure (self.writable = true) .readOnly
  withLock (attachLocked codec self slot credential envelope)

/-- A failed write can still leave a slot, so only a slot that reads back inactive counts
as not written. -/
def slotAddFailure (self : Luks2) (slot : UInt8) (code : Int) : Call Int := do
  let status ← attempt (do
    let self ← reload self
    slotStatus self slot)
  if status = .ok slotInactive then fail (.cryptsetup "add slot" code)
  else fail (partialError slot "slot write" (.cryptsetup "add slot" code))

/-- The checks before the first write. -/
def checkLocked (self : Luks2) (slot : UInt8) (old : Bytes) (envelope : Bytes) : Call Luks2 := do
  let self ← reload self
  let status ← slotStatus self slot
  ensure (status = slotInactive) .occupiedSlot
  let _ ← activateInner self none old none
  let _ ← tokenPlan codec self slot envelope true
  pure self

/-- Adds a slot and attaches its token. -/
def addLocked (self : Luks2) (slot : UInt8) (old : Bytes) (new : Secret) (envelope : Bytes) :
    Call Int := do
  let self ← checkLocked codec self slot old envelope
  let result ← call (.keyslotAddByPassphrase self.context slot old new.toList)
  if result < 0 then slotAddFailure self slot result
  else do
    ensure (result = slot.toNat) (partialError slot "slot identity" .metadataChanged)
    mapError (partialError slot "slot sync") syncAll
    mapError (partialError slot "token attachment")
      (attachLocked codec self slot new envelope)

/-- Add a new slot and token and keep all existing ones. -/
def addEnrollment (self : Luks2) (slot : UInt8) (old : Bytes) (new : Secret) (envelope : Bytes) :
    Call Int := do
  ensure (self.writable = true) .readOnly
  withLock (addLocked codec self slot old new envelope)

end Enrollment

end Leelo.Luks
