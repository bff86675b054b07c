import Leelo.Core.Cbor

/-!
# Unpadded base64 for URLs

Three bytes are four digits of six bits. A last group of one or two bytes is two or three
digits whose unused bits are zero. Decoding refuses any other spelling.
-/

namespace Leelo.Core.Base64

/-- The character of a sextet, in the URL-safe alphabet. -/
def digit (value : Nat) : UInt8 :=
  if value < 26 then UInt8.ofNat (65 + value)
  else if value < 52 then UInt8.ofNat (71 + value)
  else if value < 62 then UInt8.ofNat (value - 4)
  else if value = 62 then 45
  else 95

/-- The sextet of a character. -/
def digitValue (byte : UInt8) : Option Nat :=
  if 65 ≤ byte ∧ byte ≤ 90 then some (byte.toNat - 65)
  else if 97 ≤ byte ∧ byte ≤ 122 then some (byte.toNat - 71)
  else if 48 ≤ byte ∧ byte ≤ 57 then some (byte.toNat + 4)
  else if byte = 45 then some 62
  else if byte = 95 then some 63
  else none

/-- The values of the digits, six bits each. -/
def sextets : Bytes → List Nat
  | [] => []
  | [a] => [a.toNat / 4, a.toNat % 4 * 16]
  | [a, b] => [a.toNat / 4, a.toNat % 4 * 16 + b.toNat / 16, b.toNat % 16 * 4]
  | a :: b :: c :: rest =>
    a.toNat / 4 :: (a.toNat % 4 * 16 + b.toNat / 16) :: (b.toNat % 16 * 4 + c.toNat / 64) ::
      c.toNat % 64 :: sextets rest

/-- The unpadded encoding. -/
def encode (bytes : Bytes) : Bytes := (sextets bytes).map digit

/-- The bytes of the digits, if their unused bits are zero. -/
def octets : List Nat → Option Bytes
  | [] => some []
  | [_] => none
  | [a, b] => if b % 16 = 0 then some [UInt8.ofNat (a * 4 + b / 16)] else none
  | [a, b, c] =>
    if c % 4 = 0 then some [UInt8.ofNat (a * 4 + b / 16), UInt8.ofNat (b % 16 * 16 + c / 4)]
    else none
  | a :: b :: c :: d :: rest =>
    (octets rest).map fun bytes => UInt8.ofNat (a * 4 + b / 16) ::
      UInt8.ofNat (b % 16 * 16 + c / 4) :: UInt8.ofNat (c % 4 * 64 + d) :: bytes

/-- The inverse, for canonical texts only. -/
def decode (text : Bytes) : Option Bytes := (text.mapM digitValue).bind octets

theorem length_encode (bytes : Bytes) : (encode bytes).length = (4 * bytes.length + 2) / 3 := by
  rw [encode, List.length_map]
  induction bytes using sextets.induct with
  | case1 => rfl
  | case2 a => simp [sextets]
  | case3 a b => simp [sextets]
  | case4 a b c rest ih =>
    simp only [sextets, List.length_cons, ih]
    omega

/-- Each sextet has six bits. -/
theorem sextets_lt (bytes : Bytes) : ∀ value ∈ sextets bytes, value < 64 := by
  induction bytes using sextets.induct with
  | case1 => exact fun _ h => absurd h List.not_mem_nil
  | case2 a =>
    have := a.toNat_lt
    simp only [sextets, List.forall_mem_cons]
    exact ⟨by omega, by omega, List.forall_mem_nil _⟩
  | case3 a b =>
    have := a.toNat_lt
    have := b.toNat_lt
    simp only [sextets, List.forall_mem_cons]
    exact ⟨by omega, by omega, by omega, List.forall_mem_nil _⟩
  | case4 a b c rest ih =>
    have := a.toNat_lt
    have := b.toNat_lt
    have := c.toNat_lt
    simp only [sextets, List.forall_mem_cons]
    exact ⟨by omega, by omega, by omega, by omega, ih⟩

theorem mem_encode {bytes : Bytes} {byte : UInt8} (h : byte ∈ encode bytes) :
    ∃ value < 64, digit value = byte := by
  obtain ⟨value, hvalue, rfl⟩ := List.mem_map.mp h
  exact ⟨value, sextets_lt bytes value hvalue, rfl⟩

private theorem digitValue_digit : ∀ value < 64, digitValue (digit value) = some value := by
  decide

private theorem mapM_digitValue {values : List Nat} (h : ∀ value ∈ values, value < 64) :
    (values.map digit).mapM digitValue = some values := by
  induction values with
  | nil => rfl
  | cons value values ih =>
    have hvalue := digitValue_digit value (h value List.mem_cons_self)
    have hrest := ih fun other hother => h other (List.mem_cons_of_mem _ hother)
    rw [List.map_cons, List.mapM_cons, hvalue, hrest]
    rfl

private theorem octet_eq {a : UInt8} {value : Nat} (h : value = a.toNat) :
    UInt8.ofNat value = a := by
  rw [h, UInt8.ofNat_toNat]

/-- Grouping octets in sextets loses nothing. -/
private theorem octets_sextets (bytes : Bytes) : octets (sextets bytes) = some bytes := by
  induction bytes using sextets.induct with
  | case1 => rfl
  | case2 a =>
    have := a.toNat_lt
    rw [sextets, octets, if_pos (by omega), octet_eq (a := a) (by omega)]
  | case3 a b =>
    have := a.toNat_lt
    have := b.toNat_lt
    rw [sextets, octets, if_pos (by omega), octet_eq (a := a) (by omega),
      octet_eq (a := b) (by omega)]
  | case4 a b c rest ih =>
    have := a.toNat_lt
    have := b.toNat_lt
    have := c.toNat_lt
    rw [sextets, octets, ih, Option.map_some, octet_eq (a := a) (by omega),
      octet_eq (a := b) (by omega), octet_eq (a := c) (by omega)]

/-- Decoding inverts encoding. -/
theorem decode_encode (bytes : Bytes) : decode (encode bytes) = some bytes := by
  rw [decode, encode, mapM_digitValue (sextets_lt bytes), Option.bind_some, octets_sextets]

end Leelo.Core.Base64
