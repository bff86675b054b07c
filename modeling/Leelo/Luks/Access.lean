import Leelo.Luks.Repair

/-!
# Access with a recovered credential

A token is read from a header that was loaded for it, and a credential is tested or used on
one slot of a header that was loaded for it. Every method loads its header anew, so it takes
no more from the handle than the identity of the volume.
-/

namespace Leelo.Luks

open Leelo.Core Leelo.Core.Fallible
open Leelo.Sss (Secret)

/-- Names that a mapping may have. -/
def isMapping (mapping : String) : Bool :=
  mapping ≠ "" ∧ mapping.utf8ByteSize ≤ 127 ∧
    mapping.toList.all fun character => character.isAlphanum || "_-.".toList.contains character

theorem isCString_of_isMapping {mapping : String} (h : isMapping mapping = true) :
    isCString mapping = true := by
  obtain ⟨-, -, hall⟩ := of_decide_eq_true h
  rw [isCString, Bool.not_eq_true', Bool.eq_false_iff]
  intro hnul
  cases List.all_eq_true.mp hall _ (List.contains_iff_mem.mp hnul)

section Methods

variable (self : Luks2)

/-- Reads a token from the header as it stands now. -/
def token (codec : Codec) (id : UInt8) : Call TokenEnvelope := do
  let self ← reload self
  cachedToken codec self id

/-- Tests a credential against the header as it stands now. -/
def testCredential (slot : Option UInt8) (credential : Bytes) : Call UInt8 := do
  let self ← reload self
  activateInner self slot credential none

/-- Activates the volume under a mapping's name. -/
def activate (slot : UInt8) (credential : Bytes) (mapping : String) : Call Unit := do
  ensure (isMapping mapping = true) .invalidInput
  let self ← reload self
  let _ ← activateInner self (some slot) credential (some mapping)
  pure ()

/-- The first slot that reads inactive. -/
def firstInactive : List UInt8 → Call UInt8
  | [] => fail .occupiedSlot
  | slot :: slots => do
    if (← slotStatus self slot) = slotInactive then pure slot else firstInactive slots

/-- The first slot that is inactive. -/
def firstFreeSlot : Call UInt8 := do
  let self ← reload self
  firstInactive self tokenIds

end Methods

/-- The call brings up a mapping. -/
def Op.names : Op → Bool
  | .activateByPassphrase _ (some _) _ _ => true
  | _ => false

/-- The call names no mapping. -/
abbrev Unnamed {α : Type} (x : Call α) : Prop := x.All fun op => op.names = false

section Unnamed

variable (codec : Codec) (handle : Luks2) (slot : UInt8) (envelope : Bytes)

theorem unnamed_fromFile (writable : Bool) : Unnamed (fromFile writable) := by
  unfold fromFile
  refine all_bind (all_perform rfl) fun _ => all_bind (all_ofResult _) fun _ => ?_
  refine all_bind (all_ofResult _) fun _ => all_bind (all_perform rfl) fun _ => ?_
  refine all_bind (all_ofResult _) fun _ => all_bind (all_perform rfl) fun uuid => ?_
  cases uuid with
  | none => exact all_ofResult _
  | some uuid => trivial

theorem unnamed_reload : Unnamed (reload handle) := by
  refine all_bind (all_bind (all_perform rfl) fun _ => all_ofResult _) fun _ => ?_
  exact all_bind (unnamed_fromFile _) fun _ => all_bind (all_ofResult _) fun _ => trivial

theorem unnamed_cachedToken (id : UInt8) : Unnamed (cachedToken codec handle id) := by
  unfold cachedToken
  refine all_bind (all_ofResult _) fun _ => all_bind (all_perform rfl) fun answer => ?_
  refine all_bind (all_ofResult _) fun _ => ?_
  cases answer.2 with
  | null => exact all_ofResult _
  | invalidUtf8 => exact all_ofResult _
  | text text => exact all_ofResult _

theorem unnamed_activateInner (slot : Option UInt8) (credential : Bytes) :
    Unnamed (activateInner handle slot credential none) :=
  all_bind (all_ofResult _) fun _ => all_bind (all_ofResult _) fun _ =>
    all_bind (all_perform rfl) fun _ => all_ofResult _

end Unnamed

/-- The method neither changes the header nor brings up a mapping. -/
abbrev Peeks {α : Type} (x : Call α) : Prop := x.All fun op => op.reads = true ∧ op.names = false

section Peeks

variable (codec : Codec) (handle : Luks2)

theorem peeks_fromFile (writable : Bool) : Peeks (fromFile writable) :=
  Program.All.and (reads_fromFile writable) (unnamed_fromFile writable)

theorem peeks_reload : Peeks (reload handle) :=
  Program.All.and (reads_reload handle) (unnamed_reload handle)

theorem peeks_token (id : UInt8) : Peeks (token handle codec id) :=
  all_bind (peeks_reload handle) fun fresh =>
    Program.All.and (reads_cachedToken codec fresh id) (unnamed_cachedToken codec fresh id)

theorem peeks_testCredential (slot : Option UInt8) (credential : Bytes) :
    Peeks (testCredential handle slot credential) :=
  all_bind (peeks_reload handle) fun fresh =>
    Program.All.and (reads_activateInner fresh _ _ _) (unnamed_activateInner fresh _ _)

end Peeks

section Volume

variable {ι : Type} {caller : ι} {rely : Device ι → Device ι → Prop} {s s' : Device ι}
  {handle fresh : Luks2}

/-- A handle has the volume identifier of its header. -/
theorem uuid_of_fromFile {writable : Bool}
    (h : Runs (responds caller) rely (fromFile writable) s (.ok fresh) s') :
    fresh.uuid = fresh.context.uuid := by
  unfold fromFile at h
  obtain ⟨⟨code, hasContext⟩, _, -, h⟩ := runs_bind_ok.mp h
  obtain ⟨_, -, h⟩ := runs_ofResult_bind_ok.mp h
  obtain ⟨_, -, h⟩ := runs_ofResult_bind_ok.mp h
  obtain ⟨⟨_, context⟩, _, -, h⟩ := runs_bind_ok.mp h
  obtain ⟨_, -, h⟩ := runs_ofResult_bind_ok.mp h
  obtain ⟨uuid, _, huuid, h⟩ := runs_bind_ok.mp h
  obtain ⟨_, _, hanswer, -, hresponds⟩ := runs_perform.mp huuid
  cases hanswer
  cases uuid with
  | none => cases (runs_ofResult.mp h).1
  | some uuid =>
    cases (runs_pure.mp h).1
    exact hresponds.1 uuid rfl

/-- Whatever happened to the device, a header that was loaded again is of the same volume. -/
theorem uuid_of_reload (h : Runs (responds caller) rely (reload handle) s (.ok fresh) s') :
    fresh.context.uuid = handle.uuid := by
  obtain ⟨_, _, -, h⟩ := runs_bind_ok.mp h
  obtain ⟨loaded, _, hloaded, h⟩ := runs_bind_ok.mp h
  obtain ⟨_, hsame, h⟩ := runs_ofResult_bind_ok.mp h
  cases (runs_pure.mp h).1
  rw [← uuid_of_fromFile hloaded]
  by_contra hne
  rw [if_neg hne] at hsame
  cases hsame

end Volume

section Yields

variable {codec : Codec} {library : Library codec} {disk : Header} {lock : Option Unit}
  {handle : Luks2} {id : UInt8} {found : TokenEnvelope} {text : String}

/-- A token that decodes is read. -/
theorem yields_token (huuid : disk.uuid = handle.uuid) (hid : id < slotCount)
    (htext : disk.tokens id = some text) (hdecode : decodeToken codec text = .ok found) :
    Yields library.answer (At disk lock) (token handle codec id) (.ok found) (At disk lock) := by
  refine (yields_reload huuid).bind ((yields_ensure hid _).bind ?_)
  refine (yields_call (.tokenJsonGet disk id) (0, .text text) fun s h => ⟨?_, h⟩).bind ?_
  · change (reliable () (.tokenJsonGet disk id) s).1 = _
    simp only [reliable, htext]
  · refine (yields_ofResult (.ok 0)).bind ?_
    rw [← hdecode]
    exact yields_ofResult _

variable {slot : UInt8} {envelope : Bytes}

/-- An attachment that comes to a success has a token that fits. -/
theorem encodeToken_of_outcome (hspec : codec.Specified) (hreports : library.Reports)
    {result : Int} (h : (library.outcome slot envelope disk).1 = .ok result) :
    ∃ json, encodeToken codec slot envelope = .ok json := by
  unfold Library.outcome at h
  cases hfirst : tokenIds.find? (disk.carries codec slot envelope) with
  | some id =>
    obtain ⟨text, -, hdecode⟩ := Header.carries_iff.mp (List.find?_some hfirst)
    obtain ⟨-, -, -, hslot, -, hne, hlength⟩ := decodeToken_eq_ok.mp hdecode
    obtain ⟨json, hjson, -⟩ := encodeToken_ok hspec hslot hne hlength
    exact ⟨json, hjson⟩
  | none =>
    rw [hfirst] at h
    cases hplan : library.plan disk slot envelope false with
    | error error =>
      rw [hplan] at h
      cases h
    | ok planned => exact ⟨planned.2, ((Library.plan_eq_ok hreports).mp hplan).1⟩

/-- An attachment that comes to a success leaves the volume enrolled under the token that it
returns. -/
theorem enrolled_of_outcome (hspec : codec.Specified) (hreports : library.Reports)
    {disk' : Header} {credential : Secret} {result : Int}
    (hopens : disk.slots slot = some credential.toList)
    (h : library.outcome slot envelope disk = (.ok result, disk')) :
    disk.Within disk' ∧ ∃ id < slotCount, result = id.toNat ∧
      Enrolled codec disk' id slot credential envelope := by
  obtain ⟨json, hencode⟩ := encodeToken_of_outcome hspec hreports (congrArg Prod.fst h)
  obtain ⟨id, hfirst, rfl, rfl⟩ | ⟨-, id, hid, hfree, rfl, rfl, -⟩ :=
    outcome_eq_ok hreports hencode h
  · refine ⟨.refl disk', id, mem_tokenIds.mp (List.mem_of_find?_eq_some hfirst), rfl, ?_, hopens⟩
    exact Header.carries_iff.mp (List.find?_some hfirst)
  · refine ⟨Header.within_putToken hfree json, id, hid, rfl, ?_, hopens⟩
    exact ⟨json, Function.update_self .., (decodeToken_encodeToken hspec hencode).2⟩

end Yields

end Leelo.Luks
