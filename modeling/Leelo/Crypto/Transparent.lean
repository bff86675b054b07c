import Leelo.Crypto.Primitives
import Leelo.Sss.Tape

/-!
# A transparent suite

Every operation is a readable function of its inputs: it hides nothing, but it keeps
the promises that recovery relies on. A signature verifies only under its own key and
message, a ciphertext opens only under its own key, and an evaluation depends on the
server key and the input alone.
-/

namespace Leelo.Crypto

open Leelo.Core
open Leelo.Sss (xorSecret xorSecret_cancel)

/-- The first `n` octets, filled with zeros. -/
def firstBytes (n : Nat) (input : Bytes) : Vector UInt8 n :=
  Vector.ofFn fun i => input.getD i.val 0

theorem firstBytes_toList {n : Nat} (bytes : Vector UInt8 n) :
    firstBytes n bytes.toList = bytes := by
  apply Vector.ext
  intro i hi
  have hlength : i < bytes.toList.length := by
    rw [Vector.length_toList]
    exact hi
  rw [firstBytes, Vector.getElem_ofFn, List.getD_eq_getElem _ _ hlength, Vector.getElem_toList]

/-- Primitives that hide nothing: they show that the assumptions can be met together. -/
def transparent : Primitives where
  Point := PointBytes
  Element := PointBytes
  Proof := Vector UInt8 proofBytes
  Client := Vector UInt8 32
  SigningKey := Vector UInt8 32
  VerifyingKey := Vector UInt8 32
  sha384 input := firstBytes 48 input
  hkdf _ ikm _ := some (firstBytes 32 ikm)
  encrypt key _ _ plaintext := some (xorSecret key plaintext, firstBytes 16 key.toList)
  decrypt key _ _ body tag :=
    if tag = firstBytes 16 key.toList then some (xorSecret key body) else none
  verifyingKey key := key
  verifyingKeyBytes key := key
  verifyingKeyOfBytes bytes := some bytes
  sign key message := firstBytes 64 (key.toList ++ message)
  verifyStrict key message signature := signature == firstBytes 64 (key.toList ++ message)
  deserializeElem bytes := some bytes
  serializeElem point := point
  blind input seed := some (seed, firstBytes pointBytes input)
  deserializeElement bytes := some bytes
  deserializeProof bytes := some bytes
  finalize _ input element proof point :=
    if element = point ∧ proof = Vector.replicate proofBytes 0 then
      some (firstBytes outputBytes (point.toList ++ input))
    else none

/-- The transparent signatures verify. -/
theorem transparent_signsOwn : transparent.SignsOwn := by
  intro key message
  exact ⟨key, rfl, beq_self_eq_true _⟩

/-- The transparent cipher opens what it sealed. -/
theorem transparent_decryptsOwn : transparent.DecryptsOwn := by
  intro key nonce aad plaintext body tag h
  simp only [transparent, Option.some.injEq, Prod.mk.injEq] at h
  obtain ⟨rfl, rfl⟩ := h
  simp only [transparent, if_true, xorSecret_cancel]

theorem transparent_evaluatesTo :
    transparent.EvaluatesTo fun point input => firstBytes outputBytes (point.toList ++ input) := by
  intro input seed client message bytes point element proof output _ hpoint h
  obtain rfl : bytes = point := Option.some.inj hpoint
  simp only [transparent] at h
  split_ifs at h
  exact (Option.some.inj h).symm

end Leelo.Crypto
