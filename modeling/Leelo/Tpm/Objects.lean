import Leelo.Tpm.Pcr

/-!
# Sealed objects and their storage parent

The public areas that the adapter asks for and accepts. A sealed object must have the policy
of its descriptor and exactly the attributes that it was created with; nothing else about a
public area is taken from an envelope. The constructors of the TPM library are parameters.
-/

namespace Leelo.Tpm

open Leelo.Core
open Leelo.Engine (EngineError)

/-- The attributes of an object. -/
structure ObjectAttributes where
  fixedTpm : Bool
  stClear : Bool
  fixedParent : Bool
  sensitiveDataOrigin : Bool
  userWithAuth : Bool
  adminWithPolicy : Bool
  noDa : Bool
  encryptedDuplication : Bool
  restricted : Bool
  decrypt : Bool
  signEncrypt : Bool
  x509Sign : Bool
  deriving DecidableEq

/-- The schemes of a keyed hash. -/
inductive KeyedHashScheme where
  | hmac (algorithm : HashingAlgorithm)
  | xor (algorithm : HashingAlgorithm)
  | null
  deriving DecidableEq

/-- The ciphers of a parent. -/
inductive SymmetricDefinition where
  | aes128Cfb
  | aes192Cfb
  | aes256Cfb
  | null
  deriving DecidableEq

/-- The curves of a key. -/
inductive EccCurve where
  | nistP192
  | nistP224
  | nistP256
  | nistP384
  | nistP521
  | bnP256
  | bnP638
  | sm2P256
  deriving DecidableEq

/-- A restricted decryption key has no scheme of its own. -/
structure EccParameters where
  symmetric : SymmetricDefinition
  curve : EccCurve
  deriving DecidableEq

/-- A point of a public area. -/
structure EccPoint where
  x : Bytes
  y : Bytes
  deriving DecidableEq

/-- Public areas of objects. The adapter uses no RSA or symmetric keys. -/
inductive Public where
  | keyedHash (objectAttributes : ObjectAttributes) (nameHashingAlgorithm : HashingAlgorithm)
      (authPolicy : Bytes) (parameters : KeyedHashScheme) (unique : Bytes)
  | ecc (objectAttributes : ObjectAttributes) (nameHashingAlgorithm : HashingAlgorithm)
      (authPolicy : Bytes) (parameters : EccParameters) (unique : EccPoint)
  | other (nameHashingAlgorithm : HashingAlgorithm) (content : Bytes)
  deriving DecidableEq

/-- The algorithm of an area's name. -/
def Public.nameHashingAlgorithm : Public → HashingAlgorithm
  | .keyedHash _ algorithm _ _ _ => algorithm
  | .ecc _ algorithm _ _ _ => algorithm
  | .other algorithm _ => algorithm

/-- Further constructors of the TPM library. -/
structure Library extends Tss where
  attributes : ObjectAttributes → Except TssError ObjectAttributes
  eccParameters : EccParameters → Except TssError EccParameters
  publicArea : Public → Except TssError Public
  marshall : Public → Except TssError Bytes
  unmarshall : Bytes → Except TssError Public
  digest : Bytes → Except TssError Bytes
  privateArea : Bytes → Except TssError Bytes
  sensitiveData : Bytes → Except TssError Bytes
  sha256 : Bytes → Vector UInt8 32

/-- What is built or parsed is what was asked for. -/
structure Library.Specified (library : Library) : Prop extends library.toTss.Specified where
  attributes : ∀ value built, library.attributes value = .ok built → built = value
  eccParameters : ∀ value built, library.eccParameters value = .ok built → built = value
  publicArea : ∀ value built, library.publicArea value = .ok built → built = value
  digest : ∀ value built, library.digest value = .ok built → built = value
  privateArea : ∀ value built, library.privateArea value = .ok built → built = value
  sensitiveData : ∀ value built, library.sensitiveData value = .ok built → built = value
  unmarshall : ∀ area bytes parsed, library.marshall area = .ok bytes →
    library.unmarshall bytes = .ok parsed → parsed = area

variable (library : Library)

/-- The attributes of a sealed object. -/
def sealedTemplate : ObjectAttributes where
  fixedTpm := true
  fixedParent := true
  noDa := true
  adminWithPolicy := true
  userWithAuth := false
  sensitiveDataOrigin := false
  restricted := false
  decrypt := false
  signEncrypt := false
  stClear := false
  encryptedDuplication := false
  x509Sign := false

/-- The attributes as the library builds them. -/
def sealedAttributes : Except EngineError ObjectAttributes :=
  (library.attributes sealedTemplate).mapError (tssError "sealed_attributes")

/-- The template of a sealed object under a policy. -/
def sealedPublic (policy : Bytes) : Except EngineError Public := do
  let attributes ← sealedAttributes library
  (library.publicArea (.keyedHash attributes .sha256 policy .null [])).mapError
    (tssError "sealed_public")

/-- The attributes of the parent. -/
def parentTemplate : ObjectAttributes where
  fixedTpm := true
  fixedParent := true
  sensitiveDataOrigin := true
  userWithAuth := true
  noDa := true
  restricted := true
  decrypt := true
  signEncrypt := false
  adminWithPolicy := false
  stClear := false
  encryptedDuplication := false
  x509Sign := false

/-- The template of the parent. -/
def parentPublic : Except EngineError Public := do
  let attributes ← (library.attributes parentTemplate).mapError (tssError "parent_public")
  let parameters ← (library.eccParameters ⟨.aes128Cfb, .nistP256⟩).mapError
    (tssError "parent_public")
  (library.publicArea (.ecc attributes .sha256 [] parameters ⟨[], []⟩)).mapError
    (tssError "parent_public")

/-- The identifier of the algorithm before the digest of the public area. -/
def sha256Name (area : Public) : Except EngineError Bytes :=
  if area.nameHashingAlgorithm ≠ .sha256 then
    .error (.provider "TPM object Name must use SHA256")
  else do
    let bytes ← (library.marshall area).mapError (tssError "sha256_name")
    return [0x00, 0x0b] ++ (library.sha256 bytes).toList

/-- Checks that an area is a sealed object under the policy. -/
def validatePublic (area : Public) (expected : Bytes) : Except EngineError Unit :=
  let unexpected := .error (.provider "sealed object has unexpected policy or attributes")
  match area with
  | .keyedHash objectAttributes nameHashingAlgorithm authPolicy parameters unique => do
    let attributes ← sealedAttributes library
    if objectAttributes = attributes ∧ nameHashingAlgorithm = .sha256 ∧ authPolicy = expected ∧
      parameters = .null ∧ unique.length = 32 then .ok ()
    else unexpected
  | _ => unexpected

/-- A sealed object with this policy. -/
def sealedArea (policy unique : Bytes) : Public :=
  .keyedHash sealedTemplate .sha256 policy .null unique

/-- The area of the parent's template. -/
def parentArea : Public :=
  .ecc parentTemplate .sha256 [] ⟨.aes128Cfb, .nistP256⟩ ⟨[], []⟩

variable {library}

/-- The attributes built are the template's. -/
theorem sealedAttributes_eq_ok (hlibrary : library.Specified) {attributes : ObjectAttributes}
    (h : sealedAttributes library = .ok attributes) : attributes = sealedTemplate :=
  hlibrary.attributes _ _ (mapError_eq_ok.mp h)

theorem sealedPublic_eq_ok (hlibrary : library.Specified) {policy : Bytes} {area : Public}
    (h : sealedPublic library policy = .ok area) : area = sealedArea policy [] := by
  obtain ⟨attributes, hattributes, hpublic⟩ := bind_eq_ok.mp h
  rw [sealedAttributes_eq_ok hlibrary hattributes] at hpublic
  exact hlibrary.publicArea _ _ (mapError_eq_ok.mp hpublic)

theorem parentPublic_eq_ok (hlibrary : library.Specified) {area : Public}
    (h : parentPublic library = .ok area) : area = parentArea := by
  obtain ⟨attributes, hattributes, hrest⟩ := bind_eq_ok.mp h
  obtain ⟨parameters, hparameters, hpublic⟩ := bind_eq_ok.mp hrest
  rw [hlibrary.attributes _ _ (mapError_eq_ok.mp hattributes),
    hlibrary.eccParameters _ _ (mapError_eq_ok.mp hparameters)] at hpublic
  exact hlibrary.publicArea _ _ (mapError_eq_ok.mp hpublic)

/-- Only the content of the object is left open. -/
theorem validatePublic_eq_ok (hlibrary : library.Specified) {area : Public} {expected : Bytes}
    (h : validatePublic library area expected = .ok ()) :
    ∃ unique : Bytes, unique.length = 32 ∧ area = sealedArea expected unique := by
  cases area with
  | keyedHash objectAttributes algorithm authPolicy parameters unique =>
    obtain ⟨attributes, hattributes, hcheck⟩ := bind_eq_ok.mp h
    rw [sealedAttributes_eq_ok hlibrary hattributes] at hcheck
    split_ifs at hcheck with hall
    obtain ⟨rfl, rfl, rfl, rfl, hlength⟩ := hall
    exact ⟨unique, hlength, rfl⟩
  | ecc _ _ _ _ _ => cases h
  | other _ _ => cases h

end Leelo.Tpm
