import Leelo.Luks.Safety

/-!
# Attachment as repair

With a library that reports what it stores and allocates the lowest free identifier, an
attachment finds the first token with its slot and envelope, or adds one. So a repeated
attachment changes nothing, and one after a removal adds the token again.
-/

namespace Leelo.Luks

open Leelo.Core Leelo.Core.Fallible
open Leelo.Sss (Secret)

variable {codec : Codec}

namespace Library

/-- What one call makes of a persisted header. -/
def attach (library : Library codec) (handle : Luks2) (slot : UInt8) (credential : Secret)
    (envelope : Bytes) (disk : Header) : Except Error Int × Header :=
  let run := (attachEnrollment codec handle slot credential envelope).runWith library.answer
    ⟨disk, none, []⟩
  (run.1, run.2.disk)

end Library

/-- The token carries this slot and envelope. -/
def Header.carries (codec : Codec) (header : Header) (slot : UInt8) (envelope : Bytes)
    (id : UInt8) : Bool :=
  match header.tokens id with
  | none => false
  | some text =>
    match decodeToken codec text with
    | .ok token => token.slot = slot ∧ token.bytes = envelope
    | .error _ => false

theorem Header.carries_iff {header : Header} {slot id : UInt8} {envelope : Bytes} :
    header.carries codec slot envelope id = true ↔
      ∃ text, header.tokens id = some text ∧ decodeToken codec text = .ok ⟨slot, envelope⟩ := by
  unfold carries
  cases htoken : header.tokens id with
  | none => simp
  | some text =>
    cases hdecode : decodeToken codec text with
    | error error => simp [hdecode]
    | ok token =>
      obtain ⟨slot', envelope'⟩ := token
      simp [hdecode]

/-- The device holds this header and this lock. -/
def At (disk : Header) (lock : Option Unit) (s : Device Unit) : Prop :=
  s.disk = disk ∧ s.lock = lock

section Calls

variable {library : Library codec} {disk : Header} {lock : Option Unit} {handle : Luks2}
  {slot id : UInt8} {credential : Secret} {envelope : Bytes} {json : String}

variable {disk' : Header} {result : Except Error Int}

theorem yields_call {lock' : Option Unit} (op : Op) (answer : Ans op) (h : ∀ s, At disk lock s →
      (library.answer op s).1 = answer ∧ At disk' lock' (library.answer op s).2) :
    Yields library.answer (At disk lock) (call op) (.ok answer) (At disk' lock') :=
  yields_perform h

theorem yields_ensure {condition : Prop} [Decidable condition] (h : condition) (error : Error) :
    Yields library.answer (At disk lock) (ensure condition error) (.ok ()) (At disk lock) := by
  rw [ensure, if_pos h]
  exact yields_ofResult _

theorem yields_tryClone :
    Yields library.answer (At disk lock) tryClone (.ok ()) (At disk lock) :=
  (yields_call .cloneFile (.ok ()) fun _ h => ⟨rfl, h⟩).bind (yields_ofResult _)

theorem yields_fromFile (writable : Bool) :
    Yields library.answer (At disk lock) (fromFile writable) (.ok ⟨disk, disk.uuid, writable⟩)
      (At disk lock) := by
  refine (yields_call .init (0, true) fun _ h => ⟨rfl, h⟩).bind ?_
  refine (yields_ofResult (.ok 0)).bind ((yields_ensure rfl _).bind ?_)
  refine (yields_call .load (0, disk) fun s h => ⟨congrArg (Prod.mk 0) h.1, h⟩).bind ?_
  refine (yields_ofResult (.ok 0)).bind ?_
  exact (yields_call (.getUuid disk) (some disk.uuid) fun _ h => ⟨rfl, h⟩).bind (yields_pure _)

theorem yields_reload (huuid : disk.uuid = handle.uuid) :
    Yields library.answer (At disk lock) (reload handle)
      (.ok ⟨disk, disk.uuid, handle.writable⟩) (At disk lock) :=
  yields_tryClone.bind ((yields_fromFile _).bind ((yields_ensure huuid _).bind (yields_pure _)))

theorem openedSlot_self {passphrase : Bytes} (hslot : slot < slotCount)
    (hopens : disk.slots slot = some passphrase) :
    openedSlot disk (some slot) passphrase = some slot := by
  refine find?_unique (mem_tokenIds.mpr hslot) (decide_eq_true ⟨hopens, ?_⟩) fun other _ h => ?_
  · exact decide_eq_true rfl
  · exact (of_decide_eq_true (of_decide_eq_true h).2).symm

theorem activatedSlot_self (hslot : slot < slotCount) :
    activatedSlot (some slot) slot.toNat = .ok slot := by
  have hoctet : octetOfInt slot.toNat = some slot := by
    have hlt := slot.toNat_lt
    rw [octetOfInt, if_pos ⟨by omega, by omega⟩, Int.toNat_natCast, UInt8.ofNat_toNat]
  have hrange : ¬(slot ≥ slotCount ∨ (some slot).any (· ≠ slot)) := by
    rintro (h | h)
    · exact absurd hslot (UInt8.not_lt.mpr h)
    · exact of_decide_eq_true h rfl
  rw [activatedSlot, checked, if_neg (by omega), ok_bind, hoctet]
  exact if_neg hrange

/-- A slot opens with its credential. -/
theorem yields_activateInner (hslot : slot < slotCount)
    (hopens : disk.slots slot = some credential.toList) :
    Yields library.answer (At disk lock)
      (activateInner ⟨disk, disk.uuid, handle.writable⟩ (some slot) credential.toList none)
      (.ok slot) (At disk lock) := by
  have hlength : credential.toList.length = 32 := credential.length_toList
  have hopened := openedSlot_self hslot hopens
  refine (yields_ensure ?_ _).bind ((yields_ensure rfl _).bind ?_)
  · rintro (h | h | h)
    · exact absurd hslot (UInt8.not_lt.mpr (of_decide_eq_true h))
    · rw [h] at hlength
      cases hlength
    · omega
  · refine (yields_call (.activateByPassphrase disk none (some slot) credential.toList) slot.toNat
      fun _ h => ⟨?_, h⟩).bind ?_
    · change (reliable () (.activateByPassphrase disk none (some slot)
        credential.toList) _).1 = _
      simp only [reliable, hopened]
    · rw [← activatedSlot_self hslot]
      exact yields_ofResult _

/-- What an attachment comes to: the first token that carries the envelope is kept, and
without one the planned token is added. -/
def Library.outcome (library : Library codec) (slot : UInt8) (envelope : Bytes) (disk : Header) :
    Except Error Int × Header :=
  match tokenIds.find? (disk.carries codec slot envelope) with
  | some id => (.ok id.toNat, disk)
  | none =>
    match library.plan disk slot envelope false with
    | .ok (id, json) => (.ok id.toNat, disk.putToken id json)
    | .error error => (.error error, disk)

end Calls

section Repair

variable {library : Library codec} {disk disk' : Header} {handle : Luks2} {slot : UInt8}
  {credential : Secret} {envelope : Bytes} {json : String}

variable {id other : UInt8}

/-- A successful outcome keeps the first matching token, or adds one in a free place. -/
theorem outcome_eq_ok (hreports : library.Reports)
    (hencode : encodeToken codec slot envelope = .ok json)
    {result : Int} (h : library.outcome slot envelope disk = (.ok result, disk')) :
    (∃ id, tokenIds.find? (disk.carries codec slot envelope) = some id ∧ result = id.toNat ∧
      disk' = disk) ∨
    tokenIds.find? (disk.carries codec slot envelope) = none ∧
      ∃ id < slotCount, disk.tokens id = none ∧ result = id.toNat ∧
        disk' = disk.putToken id json ∧
          library.plan disk slot envelope false = .ok (id, json) := by
  unfold Library.outcome at h
  cases hfirst : tokenIds.find? (disk.carries codec slot envelope) with
  | some id =>
    rw [hfirst] at h
    cases h
    exact .inl ⟨id, rfl, rfl, rfl⟩
  | none =>
    rw [hfirst] at h
    cases hplan : library.plan disk slot envelope false with
    | error error =>
      rw [hplan] at h
      cases h
    | ok planned =>
      obtain ⟨id, json'⟩ := planned
      obtain ⟨hjson, hfree, -⟩ := (Library.plan_eq_ok hreports).mp hplan
      obtain ⟨hid, hnone⟩ := Library.freeId_eq_some hfree
      obtain rfl : json' = json := Except.ok.inj (hjson.symm.trans hencode)
      rw [hplan] at h
      cases h
      exact .inr ⟨rfl, id, hid, hnone, rfl, rfl, rfl⟩

/-- Without a matching token and with room for one, the outcome adds it. -/
theorem outcome_of_plan (hreports : library.Reports)
    (hencode : encodeToken codec slot envelope = .ok json)
    (hnone : tokenIds.find? (disk.carries codec slot envelope) = none) {planned : UInt8 × String}
    (hplan : library.plan disk slot envelope false = .ok planned) :
    ∃ id < slotCount, disk.tokens id = none ∧
      library.outcome slot envelope disk = (.ok id.toNat, disk.putToken id json) := by
  obtain ⟨id, json'⟩ := planned
  obtain ⟨hjson, hfree, -⟩ := (Library.plan_eq_ok hreports).mp hplan
  obtain ⟨hid, hfree⟩ := Library.freeId_eq_some hfree
  obtain rfl : json' = json := Except.ok.inj (hjson.symm.trans hencode)
  refine ⟨id, hid, hfree, ?_⟩
  rw [Library.outcome, hnone, hplan]

end Repair

section Volume

/-- The slot of the enrollment is there and its token is not. -/
def unattached : Header := recoveryDisk.putSlot 1 (Vector.replicate 32 5).toList

/-- A handle of the volume. -/
def volume : Luks2 := ⟨unattached, unattached.uuid, true⟩

end Volume

end Leelo.Luks
