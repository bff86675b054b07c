import Leelo.Core.Cbor

/-!
# Tokens and errors of the LUKS2 adapter

A token binds one keyslot to one envelope. It is written as JSON with the envelope in
unpadded base64, and both encoders come from outside. The decoder accepts one spelling
of a slot and of an envelope only.
-/

namespace Leelo.Luks

open Leelo.Core (Bytes)

/-- An error of the operating system with its number, if it has one. -/
structure IoError where
  rawOsError : Option Int
  deriving DecidableEq, Repr

/-- The errors of storage. -/
inductive Error where
  | io (error : IoError)
  | invalidInput
  | cryptsetup (operation : String) (code : Int)
  | wrongVolume
  | occupiedSlot
  | invalidToken
  | readOnly
  | writerBusy
  | noTokenSpace
  | metadataSpace (required available : Nat)
  | metadataChanged
  | partialEnrollment (slot : UInt8) (stage : String) (source : Error)
  deriving DecidableEq, Repr

/-- The error says that the device may have been changed. -/
def Error.isPartial : Error → Bool
  | .partialEnrollment .. => true
  | _ => false

/-- The fields of a token in their JSON form. -/
structure Token where
  kind : String
  keyslots : List String
  envelope : String
  deriving DecidableEq, Repr

/-- A slot and the envelope of its token. -/
structure TokenEnvelope where
  slot : UInt8
  bytes : Bytes
  deriving DecidableEq, Repr

/-- The JSON and base64 libraries. -/
structure Codec where
  Value : Type
  fromSlice : String → Option Value
  get : Value → String → Option Value
  asObject : Value → Option (List (String × Value))
  valueToString : Value → Option String
  tokenToString : Token → Option String
  tokenFromStr : String → Option Token
  base64 : Bytes → String
  fromBase64 : String → Option Bytes

/-- The number of slots and of tokens. -/
def slotCount : UInt8 := 32

/-- A slot's number as metadata writes it. -/
def slotText (slot : UInt8) : String := toString slot.toNat

/-- The value of decimal digits. -/
def decimalValue (digits : List Char) : Nat :=
  digits.foldl (fun value digit => 10 * value + (digit.toNat - '0'.toNat)) 0

/-- An octet from decimal digits. -/
def parseDigits (digits : List Char) : Option UInt8 :=
  if digits ≠ [] ∧ digits.all Char.isDigit ∧ decimalValue digits < 256 then
    some (UInt8.ofNat (decimalValue digits))
  else none

/-- An optional plus sign, then decimal digits whose value fits. -/
def parseU8 (text : String) : Option UInt8 :=
  match text.toList with
  | '+' :: digits => parseDigits digits
  | digits => parseDigits digits

section Token

variable (codec : Codec)

/-- The text of a token. -/
def encodeToken (slot : UInt8) (envelope : Bytes) : Except Error String :=
  if slot ≥ 32 ∨ envelope = [] ∨ envelope.length > 64 * 1024 then .error .invalidInput
  else
    match codec.tokenToString ⟨"leelo", [slotText slot], codec.base64 envelope⟩ with
    | some json => .ok json
    | none => .error .invalidToken

/-- The slot and the envelope of a token's text. -/
def decodeToken (json : String) : Except Error TokenEnvelope :=
  if json.utf8ByteSize > 90 * 1024 then .error .invalidToken
  else
    match codec.tokenFromStr json with
    | none => .error .invalidToken
    | some token =>
      match token.kind == "leelo", token.keyslots with
      | true, [text] =>
        match parseU8 text with
        | none => .error .invalidToken
        | some slot =>
          if slot ≥ 32 ∨ slotText slot ≠ text then .error .invalidToken
          else
            match codec.fromBase64 token.envelope with
            | none => .error .invalidToken
            | some bytes =>
              if bytes = [] ∨ bytes.length > 64 * 1024 ∨ codec.base64 bytes ≠ token.envelope then
                .error .invalidToken
              else .ok ⟨slot, bytes⟩
      | _, _ => .error .invalidToken

end Token

end Leelo.Luks
