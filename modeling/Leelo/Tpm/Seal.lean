import Leelo.Envelope.Body
import Leelo.Tpm.Objects

/-!
# Sealing and unsealing a seed

The adapter seals a seed under a policy of PCR equality and unseals it through the same
policy. The policy is computed by the TPM in a trial session both times, and an envelope
supplies no part of it but the selection and the digest of its signed descriptor. The adapter
is a program over commands of one context.
-/

namespace Leelo.Tpm

open Leelo.Core Leelo.Core.Fallible Leelo.Envelope
open Leelo.Engine (EngineError TpmAuthorization UnsealedSeed)
open Leelo.Sss (Secret)

/-- The kinds of sessions. -/
inductive SessionType where
  | hmac
  | policy
  | trial
  deriving DecidableEq

/-- The handle of an object. -/
abbrev KeyHandle := Nat
/-- The handle of a policy session. -/
abbrev PolicySession := Nat

/-- Trial sessions are policy sessions to the library. -/
inductive AuthSession where
  | password
  | hmac (session : Nat)
  | policy (session : PolicySession)
  deriving DecidableEq

/-- The command a policy is bound to. -/
inductive CommandCode where
  | unseal
  | other (code : UInt32)
  deriving DecidableEq

/-- Commands of a context, with the sessions that authorize them. Primary objects are made in
the owner hierarchy. -/
inductive Command where
  | context
  | createPrimary (auth : AuthSession) (template : Public)
  | getName (object : KeyHandle)
  | startAuthSession (tpmKey : Option KeyHandle) (kind : SessionType)
      (symmetric : SymmetricDefinition) (authHash : HashingAlgorithm)
  | setAttributes (session : AuthSession) (continueSession decrypt encrypt : Bool)
  | policyPcr (session : PolicySession) (digest : Bytes) (selection : PcrSelectionList)
  | policyCommandCode (session : PolicySession) (code : CommandCode)
  | policyGetDigest (session : PolicySession)
  | flushContext (session : AuthSession)
  | create (auth : AuthSession) (parent : KeyHandle) (template : Public) (sensitive : Bytes)
  | load (auth : AuthSession) (parent : KeyHandle) (privateArea : Bytes) (area : Public)
  | unseal (auth : AuthSession) (object : KeyHandle)

/-- The result of each command. -/
abbrev Command.Result : Command → Type
  | .createPrimary _ _ => KeyHandle × Public
  | .getName _ => Bytes
  | .startAuthSession _ _ _ _ => Option AuthSession
  | .policyGetDigest _ => Bytes
  | .create _ _ _ _ => Public × Bytes
  | .load _ _ _ _ => KeyHandle
  | .unseal _ _ => Bytes
  | _ => Unit

/-- A result or the library's error. -/
abbrev Command.Ans (command : Command) : Type := Except TssError command.Result

/-- The program of the adapter. -/
abbrev Commands (α : Type) := Fallible Command Command.Ans EngineError α

/-- One command, whose error is reported with the operation that it belongs to. -/
def execute (operation : String) (command : Command) : Commands command.Result := do
  let answer ← perform command
  ofResult (answer.mapError (tssError operation))

section Adapter

variable (library : Library)

/-- Opens the context. -/
def context : Commands Unit := execute "context" .context

/-- Creates the parent, whose name must be that of its area. -/
def createParent : Commands (KeyHandle × Bytes) := do
  let template ← ofResult (parentPublic library)
  let (keyHandle, outPublic) ← execute "create_parent" (.createPrimary .password template)
  let name ← ofResult (sha256Name library outPublic)
  let found ← execute "create_parent" (.getName keyHandle)
  if found ≠ name then ofResult (.error (.provider "primary object Name mismatch"))
  else pure (keyHandle, name)

/-- Starts a session. -/
def startSession (parent : Option KeyHandle) (kind : SessionType) : Commands AuthSession := do
  match ← execute "start_session" (.startAuthSession parent kind .aes128Cfb .sha256) with
  | some session => pure session
  | none => ofResult (.error (.provider "TPM returned no session"))

/-- Sets the encryption of a session's parameters. -/
def setProtection (session : AuthSession) (decrypt encrypt : Bool) : Commands Unit :=
  execute "set_protection" (.setAttributes session true decrypt encrypt)

/-- The error of the conversion for a session of another kind. -/
def PolicySession.tryFrom (mismatch : TssError) : AuthSession → Except TssError PolicySession
  | .policy session => .ok session
  | _ => .error mismatch

/-- Binds a session to the registers and to unsealing. -/
def applyPolicy (mismatch : TssError) (session : AuthSession) (descriptor : Descriptor) :
    Commands PolicySession := do
  let policy ← ofResult ((PolicySession.tryFrom mismatch session).mapError
    (tssError "apply_policy"))
  let digest ← ofResult ((library.digest descriptor.tpmPcrDigest.toList).mapError
    (tssError "apply_policy"))
  let selected ← ofResult (selection library.toTss descriptor.tpmPcrMask)
  execute "apply_policy" (.policyPcr policy digest selected)
  execute "apply_policy" (.policyCommandCode policy .unseal)
  pure policy

/-- The policy of a descriptor, from a trial session. -/
def expectedPolicy (mismatch : TssError) (descriptor : Descriptor) : Commands Bytes := do
  let session ← startSession none .trial
  let policy ← applyPolicy library mismatch session descriptor
  let digest ← execute "expected_policy" (.policyGetDigest policy)
  execute "expected_policy" (.flushContext session)
  pure digest

variable (cbor : Cbor) (P : Crypto.Primitives) (mismatch : TssError)

/-- The whole descriptor is valid before the first command. -/
def requireNetworkBound (descriptor : Descriptor) : Except EngineError Unit :=
  if descriptor.policy.mode ≠ .networkBound then .error .unsupportedMode
  else do
    let _ ← (descriptorBytes cbor P descriptor).mapError .envelope
    .ok ()

/-- Seals a seed under the descriptor's policy. -/
def sealSeed (descriptor : Descriptor) (seed : Secret) : Commands TpmBlob := do
  ofResult (requireNetworkBound cbor P descriptor)
  context
  let authPolicy ← expectedPolicy library mismatch descriptor
  let (parent, parentName) ← createParent library
  let session ← startSession (some parent) .hmac
  setProtection session true true
  let template ← ofResult (sealedPublic library authPolicy)
  let sensitive ← ofResult ((library.sensitiveData seed.toList).mapError (tssError "seal"))
  let (outPublic, outPrivate) ← execute "seal" (.create session parent template sensitive)
  ofResult (validatePublic library outPublic authPolicy)
  let name ← ofResult (sha256Name library outPublic)
  let bytes ← ofResult ((library.marshall outPublic).mapError (tssError "seal"))
  pure ⟨bytes, outPrivate, name, parentName⟩

/-- The public area of a blob, if it is canonical and the blob has its name. -/
def parsePublic (blob : TpmBlob) : Except EngineError Public := do
  let area ← (library.unmarshall blob.publicArea).mapError (tssError "unseal")
  let bytes ← (library.marshall area).mapError (tssError "unseal")
  let mismatched := .error (.provider "noncanonical TPM public or mismatched object Name")
  if bytes ≠ blob.publicArea then mismatched
  else do
    let name ← sha256Name library area
    if name ≠ blob.name ∨ blob.parentName.length ≠ 34 then mismatched else .ok area

/-- Unseal a loaded object. The response is encrypted; the request has no parameter to encrypt. -/
def release (descriptor : Descriptor) (parent object : KeyHandle) : Commands UnsealedSeed := do
  let session ← startSession (some parent) .policy
  let _ ← applyPolicy library mismatch session descriptor
  setProtection session false true
  let sensitive ← execute "unseal" (.unseal session object)
  match tryInto 32 sensitive with
  | none => ofResult (.error (.provider "unsealed seed has unexpected length"))
  | some seed => pure ⟨seed, .localMeasuredBoot⟩

/-- Unseals the seed of an envelope. -/
def unsealSeed (envelope : AuthenticatedEnvelope) : Commands UnsealedSeed := do
  let descriptor := envelope.body.descriptor
  let blob := envelope.body.tpm
  ofResult (requireNetworkBound cbor P descriptor)
  let area ← ofResult (parsePublic library blob)
  let privateArea ← ofResult ((library.privateArea blob.privateArea).mapError (tssError "unseal"))
  context
  let authPolicy ← expectedPolicy library mismatch descriptor
  ofResult (validatePublic library area authPolicy)
  let (parent, parentName) ← createParent library
  if parentName ≠ blob.parentName then
    ofResult (.error (.provider "TPM storage parent identity changed"))
  else
    let object ← execute "unseal" (.load .password parent privateArea area)
    let found ← execute "unseal" (.getName object)
    if found ≠ blob.name then ofResult (.error (.provider "loaded TPM object Name mismatch"))
    else release library mismatch descriptor parent object

end Adapter

end Leelo.Tpm
