import Leelo.Net.Evaluation

/-!
# What the wires of an evaluation carry

An invariant says what each stream can carry: a part of the client's request, a part of one
reply of the worker, and a response only with an evaluation of the client's point. If nothing
is disturbed the streams carry all of it. A party relies on what only it may change.
-/

namespace Leelo.Net

open Leelo.Core Leelo.Crypto Leelo.Envelope Program
open Leelo.Daemon (ServiceOp RelayOp Reply)

/-- What the worker decides: an evaluation or a refusal. -/
abbrev Decision := Option Evaluation

/-- The worker's bytes for a decision. -/
def workerReply : Decision → Bytes
  | none => [1]
  | some evaluation => 0 :: encodeResponse evaluation

/-- The frontend's reply for a decision. -/
def replyTo : Decision → Reply
  | none => .ofStatus 503
  | some evaluation => ⟨200, some (encodeResponse evaluation)⟩

/-- The client's result for a decision. -/
def resultOf : Decision → Except Error Evaluation
  | none => .error .remoteFailure
  | some evaluation => .ok evaluation

section Invariant

variable (keyId : Vector UInt8 32) (blinded : PointBytes) (id : Vector UInt8 32)

/-- The evaluations made so far. -/
abbrev Evaluations := List (Bytes × Except Daemon.CryptoError Bytes)

/-- The worker has evaluated the client's point, under the key that the client named. -/
def Made (evaluated : Evaluations) (evaluation : Evaluation) : Prop :=
  id = keyId ∧ (blinded.toList, .ok (rawBytes evaluation)) ∈ evaluated

/-- What the worker has decided for the whole request. -/
inductive Settled (evaluated : Evaluations) : Decision → Prop where
  | evaluated (evaluation : Evaluation) (hkey : id = keyId)
      (h : evaluated = [(blinded.toList, .ok (rawBytes evaluation))]) :
      Settled evaluated (some evaluation)
  | failed (error : Daemon.CryptoError) (hkey : id = keyId)
      (h : evaluated = [(blinded.toList, .error error)]) : Settled evaluated none
  | otherKey (hkey : id ≠ keyId) : Settled evaluated none

/-- The conditions without `disturbed` hold in any case. -/
structure Faithful (request : Posted) (s : Wires) : Prop where
  posted : ∀ sent, s.posted = some sent → sent = request
  toWorker : s.toWorker.sent <+: encodeRequest keyId blinded
  once : s.evaluated.length ≤ 1
  evaluated : ∀ entry ∈ s.evaluated, entry.1 = blinded.toList ∧ id = keyId
  fromWorker : s.fromWorker.sent <+: [1] ∨
    ∃ evaluation, Made keyId blinded id s.evaluated evaluation ∧
      s.fromWorker.sent <+: workerReply (some evaluation)
  reply : ∀ reply, s.reply = some reply → reply.status = 200 →
    ∃ evaluation, Made keyId blinded id s.evaluated evaluation ∧
      reply.body = some (encodeResponse evaluation)
  requested : s.disturbed = false → s.toWorker.closed →
    s.toWorker.sent = encodeRequest keyId blinded
  decided : s.disturbed = false → s.fromWorker.closed →
    ∃ decision, Settled keyId blinded id s.evaluated decision ∧
      s.fromWorker.sent = workerReply decision
  replied : s.disturbed = false → ∀ reply, s.reply = some reply →
    ∃ decision, Settled keyId blinded id s.evaluated decision ∧ reply = replyTo decision

/-- What the client relies on: decisions stand, and so does a reply. -/
structure Stands (s s' : Wires) : Prop where
  reply : ∀ reply, s.reply = some reply → s'.reply = some reply
  made : ∀ evaluation, Made keyId blinded id s.evaluated evaluation →
    Made keyId blinded id s'.evaluated evaluation
  settled : ∀ decision, Settled keyId blinded id s.evaluated decision →
    Settled keyId blinded id s'.evaluated decision
  disturbed : s'.disturbed = false → s.disturbed = false

/-- What a party may rely on. -/
def rely : Party → Wires → Wires → Prop
  | .client, s, s' => Stands keyId blinded id s s'
  | .frontend, s, s' => Stands keyId blinded id s s' ∧ s'.toWorker = s.toWorker ∧
    s'.reply = s.reply
  | .worker, s, s' => s'.evaluated = s.evaluated ∧ s'.fromWorker = s.fromWorker ∧
    (s'.disturbed = false → s.disturbed = false)

/-- A party guarantees what the others rely on. -/
def guarantee (party : Party) (s s' : Wires) : Prop :=
  ∀ other, other ≠ party → rely keyId blinded id other s s'

end Invariant

section Steps

variable {keyId : Vector UInt8 32} {blinded : PointBytes} {id : Vector UInt8 32}
  {request : Posted} {s s' s₁ s₂ : Wires}

/-- What leaves the evaluations and the reply stands. -/
theorem stands_of_same (hevaluated : s'.evaluated = s.evaluated)
    (hreply : ∀ reply, s.reply = some reply → s'.reply = some reply)
    (hdisturbed : s'.disturbed = false → s.disturbed = false) : Stands keyId blinded id s s' := by
  refine ⟨hreply, fun evaluation hmade => ?_, fun decision hsettled => ?_, hdisturbed⟩
  · rwa [hevaluated]
  · rwa [hevaluated]

theorem Stands.refl (s : Wires) : Stands keyId blinded id s s :=
  stands_of_same rfl (fun _ h => h) fun h => h

theorem Stands.trans (h : Stands keyId blinded id s s₁) (h' : Stands keyId blinded id s₁ s₂) :
    Stands keyId blinded id s s₂ :=
  ⟨fun reply hr => h'.reply reply (h.reply reply hr), fun e he => h'.made e (h.made e he),
    fun d hd => h'.settled d (h.settled d hd), fun hq => h.disturbed (h'.disturbed hq)⟩

theorem rely_refl (party : Party) (s : Wires) : rely keyId blinded id party s s := by
  cases party with
  | client => exact .refl s
  | frontend => exact ⟨.refl s, rfl, rfl⟩
  | worker => exact ⟨rfl, rfl, fun h => h⟩

theorem rely_trans {party : Party} (h : rely keyId blinded id party s s₁)
    (h' : rely keyId blinded id party s₁ s₂) : rely keyId blinded id party s s₂ := by
  cases party with
  | client => exact Stands.trans h h'
  | frontend => exact ⟨h.1.trans h'.1, h'.2.1.trans h.2.1, h'.2.2.trans h.2.2⟩
  | worker => exact ⟨h'.1.trans h.1, h'.2.1.trans h.2.1, fun hq => h.2.2 (h'.2.2 hq)⟩

/-- A step that leaves the evaluations, the streams and the reply alone. -/
theorem rely_of_frame (party : Party) (hevaluated : s'.evaluated = s.evaluated)
    (htoWorker : s'.toWorker = s.toWorker) (hfromWorker : s'.fromWorker = s.fromWorker)
    (hreply : s'.reply = s.reply) (hdisturbed : s'.disturbed = false → s.disturbed = false) :
    rely keyId blinded id party s s' := by
  have hstands : Stands keyId blinded id s s' :=
    stands_of_same hevaluated (fun reply h => hreply.trans h) hdisturbed
  cases party with
  | client => exact hstands
  | frontend => exact ⟨hstands, htoWorker, hreply⟩
  | worker => exact ⟨hevaluated, hfromWorker, hdisturbed⟩

section Steps

variable (h : Faithful keyId blinded id request s)

include h

/-- A disturbance keeps the wires faithful. -/
theorem Faithful.disturb :
    Faithful keyId blinded id request s.disturb where
  __ := h
  requested hquiet := by cases hquiet
  decided hquiet := by cases hquiet
  replied hquiet := by cases hquiet

/-- Posting the request keeps them faithful. -/
theorem Faithful.post :
    Faithful keyId blinded id request { s with posted := some request } where
  __ := h
  posted _ hsent := (Option.some.inj hsent).symm

/-- The frontend writes a part of the request. -/
theorem Faithful.writeWorker {part : Bytes} {d : Bool} (hopen : s.toWorker.closed = false)
    (hpart : s.toWorker.sent ++ part <+: encodeRequest keyId blinded) :
    Faithful keyId blinded id request
      { s with toWorker := Wires.write s.toWorker part, disturbed := s.disturbed || d } where
  posted := h.posted
  toWorker := hpart
  once := h.once
  evaluated := h.evaluated
  fromWorker := h.fromWorker
  reply := h.reply
  requested _ hclosed := by
    change s.toWorker.closed = true at hclosed
    rw [hopen] at hclosed
    cases hclosed
  decided hquiet := h.decided (Bool.or_eq_false_iff.mp hquiet).1
  replied hquiet := h.replied (Bool.or_eq_false_iff.mp hquiet).1

/-- It closes its stream after the whole request. -/
theorem Faithful.closeWorker
    (hsent : s.disturbed = false → s.toWorker.sent = encodeRequest keyId blinded) :
    Faithful keyId blinded id request { s with toWorker := Wires.close s.toWorker } where
  __ := h
  requested hquiet _ := hsent hquiet

/-- The worker writes a part of its reply. -/
theorem Faithful.writeReply {part : Bytes} {d : Bool} (hopen : s.fromWorker.closed = false)
    (hpart : s.fromWorker.sent ++ part <+: [1] ∨ ∃ evaluation,
      Made keyId blinded id s.evaluated evaluation ∧
        s.fromWorker.sent ++ part <+: workerReply (some evaluation)) :
    Faithful keyId blinded id request
      { s with fromWorker := Wires.write s.fromWorker part, disturbed := s.disturbed || d } where
  posted := h.posted
  toWorker := h.toWorker
  once := h.once
  evaluated := h.evaluated
  fromWorker := hpart
  reply := h.reply
  requested hquiet := h.requested (Bool.or_eq_false_iff.mp hquiet).1
  decided _ hclosed := by
    change s.fromWorker.closed = true at hclosed
    rw [hopen] at hclosed
    cases hclosed
  replied hquiet := h.replied (Bool.or_eq_false_iff.mp hquiet).1

/-- It closes its stream after its decision. -/
theorem Faithful.closeReply
    (hsent : s.disturbed = false → ∃ decision, Settled keyId blinded id s.evaluated decision ∧
      s.fromWorker.sent = workerReply decision) :
    Faithful keyId blinded id request { s with fromWorker := Wires.close s.fromWorker } where
  __ := h
  decided hquiet _ := hsent hquiet

/-- The frontend replies with what was decided. -/
theorem Faithful.respond {reply : Reply}
    (hreply : reply.status = 200 → ∃ evaluation, Made keyId blinded id s.evaluated evaluation ∧
      reply.body = some (encodeResponse evaluation))
    (hquiet : s.disturbed = false → ∃ decision, Settled keyId blinded id s.evaluated decision ∧
      reply = replyTo decision) :
    Faithful keyId blinded id request { s with reply := some reply } where
  __ := h
  reply other hother := by
    obtain rfl := Option.some.inj hother
    exact hreply
  replied hundisturbed other hother := by
    obtain rfl := Option.some.inj hother
    exact hquiet hundisturbed

end Steps

/-- Nothing is settled before an evaluation, under the right key. -/
theorem not_settled (hkey : id = keyId) {decision : Decision} :
    ¬Settled keyId blinded id [] decision := by
  rintro (⟨_, _, h⟩ | ⟨_, _, h⟩ | hne)
  · cases h
  · cases h
  · exact hne hkey

/-- Before the only evaluation nothing is decided. -/
theorem Faithful.evaluate (h : Faithful keyId blinded id request s) (hnone : s.evaluated = [])
    (hkey : id = keyId) (answer : Except Daemon.CryptoError Bytes) :
    Faithful keyId blinded id request { s with evaluated := [(blinded.toList, answer)] } where
  posted := h.posted
  toWorker := h.toWorker
  once := le_refl 1
  evaluated entry hentry := by
    obtain rfl := List.mem_singleton.mp hentry
    exact ⟨rfl, hkey⟩
  fromWorker := by
    refine h.fromWorker.imp_right ?_
    rintro ⟨evaluation, ⟨-, hmade⟩, -⟩
    rw [hnone] at hmade
    cases hmade
  reply reply hreply hstatus := by
    obtain ⟨evaluation, ⟨-, hmade⟩, -⟩ := h.reply reply hreply hstatus
    rw [hnone] at hmade
    cases hmade
  requested := h.requested
  decided hquiet hclosed := by
    obtain ⟨decision, hsettled, -⟩ := h.decided hquiet hclosed
    rw [hnone] at hsettled
    cases not_settled hkey hsettled
  replied hquiet reply hreply := by
    obtain ⟨decision, hsettled, -⟩ := h.replied hquiet reply hreply
    rw [hnone] at hsettled
    cases not_settled hkey hsettled

end Steps

end Leelo.Net
