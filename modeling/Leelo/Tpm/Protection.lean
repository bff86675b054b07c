import Leelo.Core.Protocol
import Leelo.Tpm.Seal

/-!
# The seed on the bus

Whatever a TPM or an interposer answers, the adapter sends a seed only in a session that is
salted to a key it has the name of and that encrypts parameters, and it asks for a seed only
in a session that encrypts responses. To unseal, the key must be the one that the envelope
names.
-/

namespace Leelo.Tpm

open Leelo.Core Leelo.Core.Fallible Leelo.Envelope
open Leelo.Engine (EngineError UnsealedSeed)

/-- What a transcript shows of a command. -/
inductive Traffic where
  | named (key : KeyHandle) (name : Bytes)
  | opened (session : AuthSession) (tpmKey : Option KeyHandle)
  | guarded (session : AuthSession) (decrypt encrypt : Bool)
  | sent (session : AuthSession)
  | requested (session : AuthSession)

/-- What a command shows on the bus. -/
def traffic : (command : Command) → command.Ans → List Traffic
  | .getName key, .ok name => [.named key name]
  | .startAuthSession tpmKey _ _ _, .ok (some session) => [.opened session tpmKey]
  | .setAttributes session _ decrypt encrypt, .ok _ => [.guarded session decrypt encrypt]
  | .create auth _ _ _, _ => [.sent auth]
  | .unseal auth _, _ => [.requested auth]
  | _, _ => []

/-- What protects a session. -/
structure Guard where
  salted : Bool
  decrypt : Bool
  encrypt : Bool

/-- The first name of every key, and the state of every session. -/
structure Transcript where
  names : KeyHandle → Option Bytes
  sessions : AuthSession → Guard

/-- Nothing has been seen yet. -/
def Transcript.empty : Transcript := ⟨fun _ => none, fun _ => ⟨false, false, false⟩⟩

/-- The salt of a session counts if the name of its key is accepted. -/
def discipline (accepts : Bytes → Bool) (b : Transcript) : Traffic → Option Transcript
  | .named key name => some { b with
      names := if b.names key = none then Function.update b.names key (some name) else b.names }
  | .opened session tpmKey => some { b with
      sessions := Function.update b.sessions session
        ⟨(tpmKey.bind b.names).any accepts, false, false⟩ }
  | .guarded session decrypt encrypt => some { b with
      sessions := Function.update b.sessions session
        { b.sessions session with decrypt := decrypt, encrypt := encrypt } }
  | .sent session =>
    if (b.sessions session).salted ∧ (b.sessions session).decrypt then some b else none
  | .requested session =>
    if (b.sessions session).salted ∧ (b.sessions session).encrypt then some b else none

/-- Whatever the answers are, the program keeps the discipline, and `post` holds of its result. -/
def Disciplined {α : Type} (accepts : Bytes → Bool) (post : α → Transcript → Prop)
    (x : Commands α) (b : Transcript) : Prop :=
  Program.Follows (discipline accepts) traffic (fun result b' => ∀ a, result = .ok a → post a b')
    x b

section Parts

variable {accepts : Bytes → Bool} {α β : Type} {post : α → Transcript → Prop} {b : Transcript}

/-- The rule of sequence. -/
theorem disciplined_bind {x : Commands β} {f : β → Commands α} {mid : β → Transcript → Prop}
    (hx : Disciplined accepts mid x b) (hf : ∀ a b', mid a b' → Disciplined accepts post (f a) b') :
    Disciplined accepts post (x >>= f) b := by
  refine Program.Follows.bind hx fun result b' hmid => ?_
  cases result with
  | error e =>
    intro a h
    cases h
  | ok a => exact hf a b' (hmid a rfl)

theorem disciplined_ofResult {result : Except EngineError α} (h : ∀ a, result = .ok a → post a b) :
    Disciplined accepts post (ofResult result) b := h

/-- Returning sends nothing. -/
theorem disciplined_pure {a : α} (h : post a b) : Disciplined accepts post (pure a) b := by
  rintro _ ⟨⟩
  exact h

/-- What may be done with a result that needs no command. -/
theorem disciplined_ofResult_bind {result : Except EngineError β} {f : β → Commands α}
    (hf : ∀ a, result = .ok a → Disciplined accepts post (f a) b) :
    Disciplined accepts post (ofResult result >>= f) b := by
  cases result with
  | error e =>
    intro a h
    cases h
  | ok a => exact hf a rfl

variable {operation : String}

theorem disciplined_execute {command : Command} {post : command.Result → Transcript → Prop}
    (h : ∀ answer : command.Ans, ∃ b', advance (discipline accepts) b (traffic command answer) =
      some b' ∧ ∀ result, answer = .ok result → post result b') :
    Disciplined accepts post (execute operation command) b := by
  intro answer
  obtain ⟨b', hadvance, hpost⟩ := h answer
  refine ⟨b', hadvance, fun result hresult => hpost result ?_⟩
  exact mapError_eq_ok.mp hresult

/-- Commands without traffic. -/
theorem disciplined_quiet {command : Command} (holds : Transcript → Prop)
    (hquiet : ∀ answer, traffic command answer = []) (h : holds b) :
    Disciplined accepts (fun _ => holds) (execute operation command) b := by
  refine disciplined_execute fun answer => ⟨b, ?_, fun _ _ => h⟩
  rw [hquiet]
  rfl

/-- A session is salted with the parent that was named. -/
theorem disciplined_startSession (parent : Option KeyHandle) (kind : SessionType) :
    Disciplined accepts (fun session b' => b'.names = b.names ∧
      (b'.sessions session).salted = (parent.bind b.names).any accepts)
      (startSession parent kind) b := by
  have hopen : Disciplined accepts (fun answer b' => ∀ session, answer = some session →
      b'.names = b.names ∧ (b'.sessions session).salted = (parent.bind b.names).any accepts)
      (execute "start_session" (.startAuthSession parent kind .aes128Cfb .sha256)) b := by
    refine disciplined_execute fun answer => ?_
    rcases answer with error | _ | session
    · exact ⟨b, rfl, fun _ h => by cases h⟩
    · refine ⟨b, rfl, ?_⟩
      rintro _ ⟨⟩ _ ⟨⟩
    · refine ⟨_, rfl, ?_⟩
      rintro _ ⟨⟩ _ ⟨⟩
      refine ⟨rfl, ?_⟩
      change (Function.update b.sessions session _ session).salted = _
      rw [Function.update_self]
  refine disciplined_bind hopen fun answer b' hanswer => ?_
  cases answer with
  | none => exact disciplined_ofResult fun _ h => by cases h
  | some session => exact disciplined_pure (hanswer session rfl)

theorem disciplined_setProtection (session : AuthSession) (decrypt encrypt : Bool) :
    Disciplined accepts (fun _ b' => b'.names = b.names ∧
      b'.sessions session = { b.sessions session with decrypt := decrypt, encrypt := encrypt })
      (setProtection session decrypt encrypt) b := by
  refine disciplined_execute fun answer => ?_
  cases answer with
  | error error => exact ⟨b, rfl, fun _ h => by cases h⟩
  | ok _ => exact ⟨_, rfl, fun _ _ => ⟨rfl, Function.update_self ..⟩⟩

variable {library : Library} {mismatch : TssError} {descriptor : Descriptor}

theorem disciplined_applyPolicy (session : AuthSession) :
    Disciplined accepts (fun _ b' => b' = b) (applyPolicy library mismatch session descriptor)
      b := by
  unfold applyPolicy
  refine disciplined_ofResult_bind fun policy _ => ?_
  refine disciplined_ofResult_bind fun digest _ => ?_
  refine disciplined_ofResult_bind fun list _ => ?_
  refine disciplined_bind (disciplined_quiet (· = b) (fun _ => rfl) rfl) fun _ b₁ hb₁ => ?_
  refine disciplined_bind (disciplined_quiet (· = b) (fun _ => rfl) hb₁) fun _ b₂ hb₂ => ?_
  exact disciplined_pure hb₂

theorem disciplined_expectedPolicy :
    Disciplined accepts (fun _ b' => b'.names = b.names)
      (expectedPolicy library mismatch descriptor) b := by
  unfold expectedPolicy
  refine disciplined_bind (disciplined_startSession none .trial) fun session b₁ hb₁ => ?_
  refine disciplined_bind (disciplined_applyPolicy session) fun policy b₂ hb₂ => ?_
  have hnames : b₂.names = b.names := by rw [hb₂, hb₁.1]
  refine disciplined_bind (disciplined_quiet (·.names = b.names) (fun _ => rfl) hnames)
    fun digest b₃ hb₃ => ?_
  refine disciplined_bind (disciplined_quiet (·.names = b.names) (fun _ => rfl) hb₃)
    fun _ b₄ hb₄ => ?_
  exact disciplined_pure hb₄

/-- The first name of a key stays. -/
theorem disciplined_getName (key : KeyHandle) :
    Disciplined accepts (fun found b' => (∀ other name, b.names other = some name →
      b'.names other = some name) ∧ (b.names key = none → b'.names key = some found))
      (execute operation (.getName key)) b := by
  refine disciplined_execute fun answer => ?_
  cases answer with
  | error error => exact ⟨b, rfl, fun _ h => by cases h⟩
  | ok found =>
    refine ⟨_, rfl, ?_⟩
    rintro _ ⟨⟩
    by_cases hnone : b.names key = none
    · rw [if_pos hnone]
      refine ⟨fun other name hother => ?_, fun _ => Function.update_self ..⟩
      refine (Function.update_of_ne ?_ _ _).trans hother
      rintro rfl
      rw [hnone] at hother
      cases hother
    · rw [if_neg hnone]
      exact ⟨fun _ _ h => h, fun h => absurd h hnone⟩

/-- No key has a name yet. -/
def Unnamed (b : Transcript) : Prop := b.names = fun _ => none

/-- The parent is named. -/
theorem disciplined_createParent (hnames : Unnamed b) :
    Disciplined accepts (fun parent b' => b'.names parent.1 = some parent.2)
      (createParent library) b := by
  unfold createParent
  refine disciplined_ofResult_bind fun template _ => ?_
  refine disciplined_bind (disciplined_quiet Unnamed (fun _ => rfl) hnames) fun answer b₁ hb₁ => ?_
  obtain ⟨keyHandle, outPublic⟩ := answer
  dsimp only
  refine disciplined_ofResult_bind fun name _ => ?_
  refine disciplined_bind (disciplined_getName keyHandle) fun found b₂ hb₂ => ?_
  split_ifs with hsame
  · exact disciplined_ofResult fun _ h => by cases h
  · refine disciplined_pure ?_
    rw [hb₂.2 (congrFun hb₁ _), not_not.mp hsame]

/-- A seed is sent or asked for in a session that has what it takes. -/
theorem disciplined_create {session : AuthSession} {parent : KeyHandle} {template : Public}
    {sensitive : Bytes} (hsalted : (b.sessions session).salted = true)
    (hdecrypt : (b.sessions session).decrypt = true) :
    Disciplined accepts (fun _ _ => True)
      (execute operation (.create session parent template sensitive)) b := by
  refine disciplined_execute fun answer => ⟨b, ?_, fun _ _ => trivial⟩
  exact congrArg (Option.bind · _) (if_pos ⟨hsalted, hdecrypt⟩)

theorem disciplined_unseal {session : AuthSession} {object : KeyHandle}
    (hsalted : (b.sessions session).salted = true)
    (hencrypt : (b.sessions session).encrypt = true) :
    Disciplined accepts (fun _ _ => True) (execute operation (.unseal session object)) b := by
  refine disciplined_execute fun answer => ⟨b, ?_, fun _ _ => trivial⟩
  exact congrArg (Option.bind · _) (if_pos ⟨hsalted, hencrypt⟩)

end Parts

section Seeds

variable {library : Library} {mismatch : TssError} {cbor : Cbor} {P : Crypto.Primitives}
  {accepts : Bytes → Bool} {b : Transcript}

/-- Sealing keeps the discipline. -/
theorem disciplined_sealSeed (descriptor : Descriptor) (seed : Sss.Secret)
    (hnames : Unnamed b) :
    Disciplined (fun _ => true) (fun _ _ => True)
      (sealSeed library cbor P mismatch descriptor seed) b := by
  unfold sealSeed
  refine disciplined_ofResult_bind fun _ _ => ?_
  refine disciplined_bind (disciplined_quiet Unnamed (fun _ => rfl) hnames) fun _ b₁ hb₁ => ?_
  refine disciplined_bind disciplined_expectedPolicy fun authPolicy b₂ hb₂ => ?_
  refine disciplined_bind (disciplined_createParent (hb₂.trans hb₁)) fun answer b₃ hb₃ => ?_
  obtain ⟨parent, parentName⟩ := answer
  dsimp only at hb₃ ⊢
  refine disciplined_bind (disciplined_startSession (some parent) .hmac) fun session b₄ hb₄ => ?_
  refine disciplined_bind (disciplined_setProtection session true true) fun _ b₅ hb₅ => ?_
  refine disciplined_ofResult_bind fun template _ => ?_
  refine disciplined_ofResult_bind fun sensitive _ => ?_
  have hsalted : (b₅.sessions session).salted = true := by
    rw [hb₅.2]
    refine hb₄.2.trans ?_
    rw [Option.bind_some, hb₃]
    rfl
  have hdecrypt : (b₅.sessions session).decrypt = true := by rw [hb₅.2]
  refine disciplined_bind (disciplined_create hsalted hdecrypt) fun out b₆ _ => ?_
  obtain ⟨outPublic, outPrivate⟩ := out
  dsimp only
  refine disciplined_ofResult_bind fun _ _ => ?_
  refine disciplined_ofResult_bind fun name _ => ?_
  refine disciplined_ofResult_bind fun bytes _ => ?_
  exact disciplined_pure trivial

/-- Release keeps the discipline. -/
theorem disciplined_release {descriptor : Descriptor} {parent object : KeyHandle} {name : Bytes}
    (hname : b.names parent = some name) (haccepts : accepts name = true) :
    Disciplined accepts (fun _ _ => True)
      (release library mismatch descriptor parent object) b := by
  unfold release
  refine disciplined_bind (disciplined_startSession (some parent) .policy) fun session b₁ hb₁ => ?_
  refine disciplined_bind (disciplined_applyPolicy session) fun _ b₂ hb₂ => ?_
  refine disciplined_bind (disciplined_setProtection session false true) fun _ b₃ hb₃ => ?_
  have hsalted : (b₃.sessions session).salted = true := by
    rw [hb₃.2, hb₂]
    refine hb₁.2.trans ?_
    rw [Option.bind_some, hname]
    exact haccepts
  have hencrypt : (b₃.sessions session).encrypt = true := by rw [hb₃.2]
  refine disciplined_bind (disciplined_unseal hsalted hencrypt) fun sensitive b₄ _ => ?_
  cases tryInto 32 sensitive with
  | none => exact disciplined_ofResult fun _ h => by cases h
  | some seed => exact disciplined_pure trivial

/-- Unsealing keeps the discipline, with a parent of the blob's name. -/
theorem disciplined_unsealSeed (envelope : AuthenticatedEnvelope)
    (hnames : Unnamed b) :
    Disciplined (fun name => decide (name = envelope.body.tpm.parentName)) (fun _ _ => True)
      (unsealSeed library cbor P mismatch envelope) b := by
  unfold unsealSeed
  refine disciplined_ofResult_bind fun _ _ => ?_
  refine disciplined_ofResult_bind fun area _ => ?_
  refine disciplined_ofResult_bind fun privateArea _ => ?_
  refine disciplined_bind (disciplined_quiet Unnamed (fun _ => rfl) hnames) fun _ b₁ hb₁ => ?_
  refine disciplined_bind disciplined_expectedPolicy fun authPolicy b₂ hb₂ => ?_
  refine disciplined_ofResult_bind fun _ _ => ?_
  refine disciplined_bind (disciplined_createParent (hb₂.trans hb₁)) fun answer b₃ hb₃ => ?_
  obtain ⟨parent, parentName⟩ := answer
  dsimp only at hb₃ ⊢
  split_ifs with hidentity
  · exact disciplined_ofResult fun _ h => by cases h
  refine disciplined_bind (disciplined_quiet (·.names parent = some parentName) (fun _ => rfl) hb₃)
    fun object b₄ hb₄ => ?_
  refine disciplined_bind (disciplined_getName object) fun found b₅ hb₅ => ?_
  split_ifs with hname
  · exact disciplined_ofResult fun _ h => by cases h
  · exact disciplined_release (hb₅.1 _ _ hb₄) (decide_eq_true (not_not.mp hidentity))

/-- Whatever is answered, seeds travel only in sessions that are salted to a named key and
encrypt in the direction of the seed, and to unseal that key is the envelope's parent. -/
theorem seeds_protected (descriptor : Descriptor) (seed : Sss.Secret)
    (envelope : AuthenticatedEnvelope) :
    Disciplined (fun _ => true) (fun _ _ => True)
      (sealSeed library cbor P mismatch descriptor seed) .empty ∧
    Disciplined (fun name => decide (name = envelope.body.tpm.parentName)) (fun _ _ => True)
      (unsealSeed library cbor P mismatch envelope) .empty :=
  ⟨disciplined_sealSeed descriptor seed rfl, disciplined_unsealSeed envelope rfl⟩

end Seeds

end Leelo.Tpm
