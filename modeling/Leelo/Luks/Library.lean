import Leelo.Core.Interleaving
import Leelo.Luks.Token

/-!
# The device and its library

A LUKS2 header is a store of keyslots and tokens. Every library or system call may fail
in any way, and a failed write may still have happened. A call that succeeds tells the
truth about the header copy of its context, and only a fresh load makes that copy the
persisted header. Native writers add slots and tokens between any two calls.
-/

namespace Leelo.Luks

open Leelo.Core Leelo.Core.Program

/-- A keyslot is its passphrase, and a token is its JSON text. -/
structure Header where
  uuid : Vector UInt8 16
  slots : UInt8 → Option Bytes
  tokens : UInt8 → Option String

namespace Header

/-- The header with a slot that opens with the passphrase. -/
def putSlot (header : Header) (slot : UInt8) (passphrase : Bytes) : Header :=
  { header with slots := Function.update header.slots slot (some passphrase) }

/-- The header with a token. -/
def putToken (header : Header) (id : UInt8) (json : String) : Header :=
  { header with tokens := Function.update header.tokens id (some json) }

/-- Everything that the first header holds is unchanged in the second. -/
structure Within (header header' : Header) : Prop where
  uuid : header'.uuid = header.uuid
  slots : ∀ slot passphrase, header.slots slot = some passphrase →
    header'.slots slot = some passphrase
  tokens : ∀ id json, header.tokens id = some json → header'.tokens id = some json

theorem Within.refl (header : Header) : header.Within header :=
  ⟨rfl, fun _ _ h => h, fun _ _ h => h⟩

theorem Within.trans {a b c : Header} (h : a.Within b) (h' : b.Within c) : a.Within c :=
  ⟨h'.uuid.trans h.uuid, fun slot passphrase hslot => h'.slots _ _ (h.slots slot passphrase hslot),
    fun id json htoken => h'.tokens _ _ (h.tokens id json htoken)⟩

/-- Filling a free place keeps everything. -/
private theorem update_free {β : Type} {f : UInt8 → Option β} {place : UInt8} {value : Option β}
    (hfree : f place = none) {x : UInt8} {b : β} (h : f x = some b) :
    Function.update f place value x = some b := by
  have hne : x ≠ place := by
    rintro rfl
    rw [hfree] at h
    cases h
  rw [Function.update_of_ne hne, h]

theorem within_putSlot {header : Header} {slot : UInt8} (h : header.slots slot = none)
    (passphrase : Bytes) : header.Within (header.putSlot slot passphrase) :=
  ⟨rfl, fun _ _ hslot => update_free h hslot, fun _ _ htoken => htoken⟩

theorem within_putToken {header : Header} {id : UInt8} (h : header.tokens id = none)
    (json : String) : header.Within (header.putToken id json) :=
  ⟨rfl, fun _ _ hslot => hslot, fun _ _ htoken => update_free h htoken⟩

end Header

/-- A C string that a getter returns. -/
inductive CText where
  | null
  | invalidUtf8
  | text (text : String)
  deriving DecidableEq

/-- The calls of the adapter. A context is the header copy that it was loaded with. -/
inductive Op where
  | cloneFile
  | setLock
  | unlock
  | syncAll
  | init
  | load
  | getUuid (context : Header)
  | keyslotStatus (context : Header) (slot : UInt8)
  | activateByPassphrase (context : Header) (name : Option String) (slot : Option UInt8)
      (passphrase : Bytes)
  | getMetadataSize (context : Header)
  | dumpJson (context : Header)
  | keyslotAddByPassphrase (context : Header) (slot : UInt8) (old new : Bytes)
  /-- Without an identifier the library chooses a free one. -/
  | tokenJsonSet (context : Header) (token : Option UInt8) (json : String)
  | tokenJsonGet (context : Header) (token : UInt8)

/-- What the calls return. A negative code is a failure. -/
abbrev Ans : Op → Type
  | .cloneFile => Except IoError Unit
  | .setLock => Except IoError Unit
  | .unlock => Unit
  | .syncAll => Except IoError Unit
  /- The code, and whether a context was returned. -/
  | .init => Int × Bool
  | .load => Int × Header
  | .getUuid _ => Option (Vector UInt8 16)
  | .keyslotStatus .. => Int
  | .activateByPassphrase .. => Int
  | .getMetadataSize _ => Int × Nat
  | .dumpJson _ => Int × CText
  | .keyslotAddByPassphrase .. => Int
  | .tokenJsonSet .. => Int
  | .tokenJsonGet .. => Int × CText

/-- The code of an inactive slot. -/
def slotInactive : Int := 1

/-- What a caller did, as far as the device is concerned. -/
inductive Event where
  | loaded (header : Header)
  | slotAdd (effective : Bool)
  | tokenSet (effective : Bool)
  | checked

/-- The event is an attempt to write. -/
def Event.isWrite : Event → Bool
  | .slotAdd _ => true
  | .tokenSet _ => true
  | _ => false

/-- The event is a write that took effect. -/
def Event.isEffective : Event → Bool
  | .slotAdd effective => effective
  | .tokenSet effective => effective
  | _ => false

/-- The device with its lock, and the log of all calls on it by caller. -/
structure Device (ι : Type) where
  disk : Header
  lock : Option ι
  log : List (ι × Event)

namespace Device

variable {ι : Type}

/-- Notes an event of a caller. -/
def record (s : Device ι) (caller : ι) (event : Event) : Device ι :=
  { s with log := s.log ++ [(caller, event)] }

/-- The device with another header. -/
def withDisk (s : Device ι) (disk : Header) : Device ι := { s with disk }

/-- The events of one caller. -/
def own [DecidableEq ι] (s : Device ι) (caller : ι) : List Event :=
  (s.log.filter fun entry => entry.1 = caller).map Prod.snd

end Device

/-- How a call of `caller` may answer. Where nothing is said about an answer it is arbitrary. -/
def responds {ι : Type} (caller : ι) : Behaviour Op Ans (Device ι)
  | .cloneFile, s, _, s' => s' = s
  | .setLock, s, answer, s' =>
    (∃ error, answer = .error error) ∧ s' = s ∨
      answer = .ok () ∧ s.lock = none ∧ s' = { s with lock := some caller }
  | .unlock, s, _, s' => s' = s ∨ s.lock = some caller ∧ s' = { s with lock := none }
  | .syncAll, s, _, s' => s' = s.record caller .checked
  | .init, s, _, s' => s' = s.record caller .checked
  | .load, s, (code, header), s' =>
    code < 0 ∧ s' = s.record caller .checked ∨
      0 ≤ code ∧ header = s.disk ∧ s' = s.record caller (.loaded header)
  | .getUuid context, s, answer, s' =>
    (∀ uuid, answer = some uuid → uuid = context.uuid) ∧ s' = s.record caller .checked
  | .keyslotStatus context slot, s, code, s' =>
    (code = slotInactive → context.slots slot = none) ∧ s' = s.record caller .checked
  | .activateByPassphrase context _ _ passphrase, s, code, s' =>
    (∀ slot : UInt8, code = slot.toNat → context.slots slot = some passphrase) ∧
      s' = s.record caller .checked
  | .getMetadataSize _, s, _, s' => s' = s.record caller .checked
  | .dumpJson _, s, _, s' => s' = s.record caller .checked
  | .keyslotAddByPassphrase _ slot _ new, s, code, s' =>
    code < 0 ∧ s' = s.record caller (.slotAdd false) ∨
      s.disk.slots slot = none ∧
        s' = (s.withDisk (s.disk.putSlot slot new)).record caller (.slotAdd true)
  | .tokenJsonSet _ none json, s, code, s' =>
    code < 0 ∧ s' = s.record caller (.tokenSet false) ∨
      ∃ id < slotCount, s.disk.tokens id = none ∧ (code < 0 ∨ code = id.toNat) ∧
        s' = (s.withDisk (s.disk.putToken id json)).record caller (.tokenSet true)
  | .tokenJsonSet _ (some id) json, s, code, s' =>
    code < 0 ∧ s' = s.record caller (.tokenSet false) ∨
      s' = (s.withDisk (s.disk.putToken id json)).record caller (.tokenSet true)
  | .tokenJsonGet context token, s, (code, answer), s' =>
    (0 ≤ code → ∀ text, answer = .text text → context.tokens token = some text) ∧
      s' = s.record caller .checked

/-- Native writers add a slot or a token in a free place. -/
inductive Native {ι : Type} : Device ι → Device ι → Prop where
  | addSlot {s : Device ι} (slot : UInt8) (passphrase : Bytes) (h : s.disk.slots slot = none) :
      Native s (s.withDisk (s.disk.putSlot slot passphrase))
  | addToken {s : Device ι} (id : UInt8) (json : String) (h : s.disk.tokens id = none) :
      Native s (s.withDisk (s.disk.putToken id json))

/-- The call belongs to the work on the header and fills free places only. -/
def Op.appends : Op → Bool
  | .setLock => false
  | .unlock => false
  | .tokenJsonSet _ (some _) _ => false
  | _ => true

/-- The call belongs to the work on the header and cannot change it. -/
def Op.reads : Op → Bool
  | .keyslotAddByPassphrase .. => false
  | .tokenJsonSet .. => false
  | op => op.appends

section Effects

variable {ι : Type} {caller : ι} {op : Op} {s s' : Device ι} {answer : Ans op}

/-- A call that reads adds at most an entry to the log that is no write. -/
theorem responds_reads (hop : op.reads = true) (h : responds caller op s answer s') :
    s'.disk = s.disk ∧ (s'.log = s.log ∨
      ∃ event, event.isWrite = false ∧ s'.log = s.log ++ [(caller, event)]) := by
  cases op with
  | setLock | unlock | keyslotAddByPassphrase | tokenJsonSet => cases hop
  | cloneFile =>
    rw [show s' = s from h]
    exact ⟨rfl, .inl rfl⟩
  | load =>
    rcases h with ⟨-, rfl⟩ | ⟨-, -, rfl⟩
    · exact ⟨rfl, .inr ⟨.checked, rfl, rfl⟩⟩
    · exact ⟨rfl, .inr ⟨.loaded _, rfl, rfl⟩⟩
  | syncAll | init | getMetadataSize | dumpJson =>
    rw [show s' = s.record caller .checked from h]
    exact ⟨rfl, .inr ⟨.checked, rfl, rfl⟩⟩
  | getUuid | keyslotStatus | activateByPassphrase | tokenJsonGet =>
    rw [show s' = s.record caller .checked from h.2]
    exact ⟨rfl, .inr ⟨.checked, rfl, rfl⟩⟩

/-- The lock calls change neither the header nor the log. -/
theorem responds_lock (hop : op = .setLock ∨ op = .unlock) (h : responds caller op s answer s') :
    s'.disk = s.disk ∧ s'.log = s.log := by
  rcases hop with rfl | rfl
  · rcases h with ⟨-, rfl⟩ | ⟨-, -, rfl⟩
    · exact ⟨rfl, rfl⟩
    · exact ⟨rfl, rfl⟩
  · rcases h with rfl | ⟨-, rfl⟩
    · exact ⟨rfl, rfl⟩
    · exact ⟨rfl, rfl⟩

/-- A write that appends keeps the header, and the log says whether it had an effect. -/
theorem responds_writes (hop : op.appends = true) (hreads : op.reads = false)
    (h : responds caller op s answer s') :
    s.disk.Within s'.disk ∧ ∃ event, s'.log = s.log ++ [(caller, event)] := by
  cases op with
  | keyslotAddByPassphrase context slot old new =>
    rcases h with ⟨-, rfl⟩ | ⟨hfree, rfl⟩
    · exact ⟨.refl _, _, rfl⟩
    · exact ⟨Header.within_putSlot hfree new, _, rfl⟩
  | tokenJsonSet context token json =>
    cases token with
    | some id => cases hop
    | none =>
      rcases h with ⟨-, rfl⟩ | ⟨id, -, hfree, -, rfl⟩
      · exact ⟨.refl _, _, rfl⟩
      · exact ⟨Header.within_putToken hfree json, _, rfl⟩
  | setLock | unlock => cases hop
  | _ => cases hreads

/-- Calls that append or belong to the lock keep the header, and each adds at most one
entry to the log, in the caller's name. -/
theorem responds_keeps (hop : op.appends = true ∨ op = .setLock ∨ op = .unlock)
    (h : responds caller op s answer s') :
    s.disk.Within s'.disk ∧
      (s'.log = s.log ∨ ∃ event, s'.log = s.log ++ [(caller, event)]) := by
  rcases hop with hop | hop
  · cases hreads : op.reads with
    | true =>
      obtain ⟨hdisk, hlog⟩ := responds_reads hreads h
      exact ⟨hdisk ▸ .refl _, hlog.imp_right fun ⟨event, _, hlog⟩ => ⟨event, hlog⟩⟩
    | false =>
      obtain ⟨hdisk, hlog⟩ := responds_writes hop hreads h
      exact ⟨hdisk, .inr hlog⟩
  · obtain ⟨hdisk, hlog⟩ := responds_lock hop h
    exact ⟨hdisk ▸ .refl _, .inl hlog⟩

end Effects

theorem Native.within {ι : Type} {s s' : Device ι} (h : Native s s') : s.disk.Within s'.disk := by
  cases h with
  | addSlot slot passphrase hfree => exact Header.within_putSlot hfree passphrase
  | addToken id json hfree => exact Header.within_putToken hfree json

theorem Native.log {ι : Type} {s s' : Device ι} (h : Native s s') :
    s'.log = s.log ∧ s'.lock = s.lock := by
  cases h with
  | addSlot => exact ⟨rfl, rfl⟩
  | addToken => exact ⟨rfl, rfl⟩

end Leelo.Luks
