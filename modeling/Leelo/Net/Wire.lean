import Leelo.Crypto.Primitives

/-!
# Messages of the network-bound protocol

A message is a header of eight bytes and two fields of fixed sizes. A decoder accepts the
bytes that the encoder writes and no others, so a message that was cut off, extended or
changed in its header is never read as another one.
-/

namespace Leelo.Net

open Leelo.Core Leelo.Crypto

/-- The media type of both messages. -/
def contentType : String := "application/vnd.leelo.network-bound-v1"
/-- The length of a request. -/
def requestBytes : Nat := 89
/-- The length of a response. -/
def responseBytes : Nat := 153

/-- The letters `LEEL`, the version, the mode, the suite and a zero. -/
def header : Bytes := [0x4c, 0x45, 0x45, 0x4c, 1, 1, 1, 0]

section Messages

variable {m n : Nat}

/-- The header and two fields of fixed lengths. -/
def encodeMessage (first : Vector UInt8 m) (second : Vector UInt8 n) : Bytes :=
  header ++ first.toList ++ second.toList

/-- Reads the header and the two fields, and nothing else. -/
def decodeMessage (m n : Nat) (bytes : Bytes) : Option (Vector UInt8 m × Vector UInt8 n) := do
  guard (bytes.length = header.length + m + n ∧ bytes.take header.length = header)
  let first ← tryInto m ((bytes.drop header.length).take m)
  let second ← tryInto n (bytes.drop (header.length + m))
  return (first, second)

/-- A message has a fixed length. -/
theorem length_encodeMessage (first : Vector UInt8 m) (second : Vector UInt8 n) :
    (encodeMessage first second).length = header.length + m + n := by
  simp [encodeMessage, Nat.add_assoc]

/-- What is read is what was written. -/
theorem decodeMessage_eq_some {bytes : Bytes} {first : Vector UInt8 m} {second : Vector UInt8 n} :
    decodeMessage m n bytes = some (first, second) ↔ bytes = encodeMessage first second := by
  constructor
  · intro h
    obtain ⟨⟨-, hheader⟩, h⟩ := guard_bind_eq_some.mp h
    obtain ⟨first', hfirst, h⟩ := Option.bind_eq_some_iff.mp h
    obtain ⟨second', hsecond, h⟩ := Option.bind_eq_some_iff.mp h
    obtain ⟨rfl, rfl⟩ := Prod.mk.inj (Option.some.inj h)
    rw [tryInto_eq_some] at hfirst hsecond
    calc bytes = bytes.take header.length ++ bytes.drop header.length :=
          (List.take_append_drop ..).symm
      _ = header ++ ((bytes.drop header.length).take m ++ bytes.drop (header.length + m)) := by
          rw [hheader, ← List.drop_drop, List.take_append_drop]
      _ = encodeMessage first' second' := by
          rw [hfirst, hsecond, encodeMessage, List.append_assoc]
  · rintro rfl
    have hfirst : ((encodeMessage first second).drop header.length).take m = first.toList := by
      rw [encodeMessage, List.append_assoc, List.drop_left, List.take_left' first.length_toList]
    have hsecond : (encodeMessage first second).drop (header.length + m) = second.toList := by
      rw [encodeMessage, List.drop_left' (by simp)]
    refine guard_bind_eq_some.mpr ⟨⟨length_encodeMessage first second, ?_⟩, ?_⟩
    · rw [encodeMessage, List.append_assoc, List.take_left]
    · rw [hfirst, hsecond, tryInto_toList, tryInto_toList]
      rfl

/-- A message tells its fields. -/
theorem encodeMessage_injective {first first' : Vector UInt8 m} {second second' : Vector UInt8 n}
    (h : encodeMessage first second = encodeMessage first' second') :
    first = first' ∧ second = second' := by
  have hdecode := decodeMessage_eq_some.mpr h
  rw [decodeMessage_eq_some.mpr rfl] at hdecode
  exact Prod.mk.inj (Option.some.inj hdecode)

/-- A message is no proper part of another one of its kind. -/
theorem encodeMessage_prefixed {first first' : Vector UInt8 m} {second second' : Vector UInt8 n}
    (h : encodeMessage first' second' <+: encodeMessage first second) :
    first' = first ∧ second' = second := by
  refine encodeMessage_injective (h.eq_of_length ?_)
  rw [length_encodeMessage, length_encodeMessage]

end Messages

/-- A request: the key asked for and the blinded point. -/
structure Request where
  keyId : Vector UInt8 32
  point : PointBytes

/-- The bytes of a request. -/
def encodeRequest (keyId : Vector UInt8 32) (point : PointBytes) : Bytes :=
  encodeMessage keyId point

/-- Reads a request. -/
def decodeRequest (bytes : Bytes) : Option Request :=
  (decodeMessage 32 pointBytes bytes).map fun fields => ⟨fields.1, fields.2⟩

/-- The bytes of a response. -/
def encodeResponse (evaluation : Evaluation) : Bytes :=
  encodeMessage evaluation.element evaluation.proof

/-- Reads a response. -/
def decodeResponse (bytes : Bytes) : Option Evaluation :=
  (decodeMessage pointBytes proofBytes bytes).map fun fields => ⟨fields.1, fields.2⟩

/-- A request has 89 bytes. -/
theorem length_encodeRequest (keyId : Vector UInt8 32) (point : PointBytes) :
    (encodeRequest keyId point).length = requestBytes := length_encodeMessage keyId point

/-- A response has 153 bytes. -/
theorem length_encodeResponse (evaluation : Evaluation) :
    (encodeResponse evaluation).length = responseBytes := length_encodeMessage _ _

/-- A request that is read is the one written. -/
theorem decodeRequest_eq_some {bytes : Bytes} {request : Request} :
    decodeRequest bytes = some request ↔ bytes = encodeRequest request.keyId request.point := by
  rw [decodeRequest, Option.map_eq_some_iff]
  constructor
  · rintro ⟨⟨keyId, point⟩, hfields, rfl⟩
    exact decodeMessage_eq_some.mp hfields
  · intro h
    exact ⟨(request.keyId, request.point), decodeMessage_eq_some.mpr h, rfl⟩

/-- A response that is read is the one written. -/
theorem decodeResponse_eq_some {bytes : Bytes} {evaluation : Evaluation} :
    decodeResponse bytes = some evaluation ↔ bytes = encodeResponse evaluation := by
  rw [decodeResponse, Option.map_eq_some_iff]
  constructor
  · rintro ⟨⟨element, proof⟩, hfields, rfl⟩
    exact decodeMessage_eq_some.mp hfields
  · intro h
    exact ⟨(evaluation.element, evaluation.proof), decodeMessage_eq_some.mpr h, rfl⟩

/-- Only the whole of a request is read as a request. -/
theorem decodeRequest_prefixed {bytes : Bytes} {keyId : Vector UInt8 32} {point : PointBytes}
    {request : Request} (hcut : bytes <+: encodeRequest keyId point)
    (h : decodeRequest bytes = some request) : request = ⟨keyId, point⟩ := by
  rw [decodeRequest_eq_some.mp h] at hcut
  obtain ⟨hkeyId, hpoint⟩ := encodeMessage_prefixed hcut
  rw [← hkeyId, ← hpoint]

/-- A response that was cut is not read as another. -/
theorem decodeResponse_prefixed {bytes : Bytes} {evaluation decoded : Evaluation}
    (hcut : bytes <+: encodeResponse evaluation) (h : decodeResponse bytes = some decoded) :
    decoded = evaluation := by
  rw [decodeResponse_eq_some.mp h] at hcut
  obtain ⟨helement, hproof⟩ := encodeMessage_prefixed hcut
  cases decoded
  cases evaluation
  cases helement
  cases hproof
  rfl

/-- A response tells the evaluation. -/
theorem encodeResponse_injective : Function.Injective encodeResponse := by
  intro evaluation evaluation' h
  exact (decodeResponse_prefixed List.prefix_rfl (decodeResponse_eq_some.mpr h)).symm

end Leelo.Net
