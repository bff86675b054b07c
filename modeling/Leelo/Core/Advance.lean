import Leelo.Core.Interleaving

/-!
# Turns of one program

A program advances by some of its operations while the others wait. A program that waits for
another one pauses: it advances, and once its condition holds it advances to its end. Turns
are steps of the whole system.
-/

namespace Leelo.Core

namespace Program

variable {Op : Type} {Ans : Op → Type} {α β σ : Type}

/-- A program goes through some of its calls, and another program is left. -/
inductive Advances (responds : Behaviour Op Ans σ) :
    Program Op Ans α → σ → Program Op Ans α → σ → Prop where
  | refl (p : Program Op Ans α) (s : σ) : Advances responds p s p s
  | call {op : Op} {next : Ans op → Program Op Ans α} {p' : Program Op Ans α} {s s₁ s' : σ}
      {answer : Ans op} (hresponds : responds op s answer s₁)
      (hnext : Advances responds (next answer) s₁ p' s') : Advances responds (.call op next) s p' s'

/-- The program advances, and to its end from any state where the condition holds. -/
def Pauses (responds : Behaviour Op Ans σ) (p : Program Op Ans α) (s s' : σ) (ready : σ → Prop)
    (a : α) : Prop :=
  ∃ p', Advances responds p s p' s' ∧ ∀ s₁, ready s₁ → Advances responds p' s₁ (pure a) s₁

variable {responds : Behaviour Op Ans σ} {p p' p₁ : Program Op Ans α} {s s' s₁ : σ} {a : α} {b : β}
  {f : α → Program Op Ans β} {ready : σ → Prop}

/-- A single call is a step. -/
theorem Advances.perform {op : Op} {answer : Ans op} (h : responds op s answer s') :
    Advances responds (perform op) s (pure answer) s' := .call h (.refl _ s')

theorem Advances.trans (h : Advances responds p s p₁ s₁) (h' : Advances responds p₁ s₁ p' s') :
    Advances responds p s p' s' := by
  induction h with
  | refl p s => exact h'
  | call hresponds _ ih => exact .call hresponds (ih h')

theorem Advances.inside (f : α → Program Op Ans β) (h : Advances responds p s p' s') :
    Advances responds (p >>= f) s (p' >>= f) s' := by
  induction h with
  | refl p s => exact .refl _ s
  | call hresponds _ ih => exact .call hresponds ih

theorem Advances.bind {q : Program Op Ans β} (hp : Advances responds p s (pure a) s₁)
    (hf : Advances responds (f a) s₁ q s') : Advances responds (p >>= f) s q s' :=
  (hp.inside f).trans hf

theorem Advances.thenPauses (hp : Advances responds p s (pure a) s₁)
    (hf : Pauses responds (f a) s₁ s' ready b) : Pauses responds (p >>= f) s s' ready b := by
  obtain ⟨q, hq, hend⟩ := hf
  exact ⟨q, hp.bind hq, hend⟩

theorem Pauses.bind (hp : Pauses responds p s s' ready a)
    (hf : ∀ s₁, ready s₁ → Advances responds (f a) s₁ (pure b) s₁) :
    Pauses responds (p >>= f) s s' ready b := by
  obtain ⟨p', hadvances, hend⟩ := hp
  exact ⟨p' >>= f, hadvances.inside f, fun s₁ h => (hend s₁ h).bind (hf s₁ h)⟩

/-- Operations that may always leave the state as it is. -/
theorem advances_of_all {allowed : Op → Prop} (hp : p.All allowed)
    (hallowed : ∀ {op s}, allowed op → ∃ answer, responds op s answer s) :
    ∃ a, Advances responds p s (pure a) s := by
  induction p with
  | done a => exact ⟨a, .refl _ s⟩
  | call op next ih =>
    obtain ⟨answer, hresponds⟩ := hallowed hp.1
    obtain ⟨a, hnext⟩ := ih answer (hp.2 answer)
    exact ⟨a, .call hresponds hnext⟩

end Program

namespace System

open Program

variable {ι Op : Type} {Ans : Op → Type} {α σ : Type} [DecidableEq ι]
  {responds : ι → Behaviour Op Ans σ} {outside : σ → σ → Prop} {c c' : System ι Op Ans α σ}

/-- The turn of one program. -/
theorem Reaches.turn {i : ι} {p : Program Op Ans α} {s : σ} (h : Reaches responds outside c c')
    (hturn : Advances (responds i) (c'.programs i) c'.state p s) :
    Reaches responds outside c ⟨Function.update c'.programs i p, s⟩ := by
  refine Relation.ReflTransGen.trans h ?_
  obtain ⟨programs, state⟩ := c'
  dsimp only at hturn ⊢
  generalize hp : programs i = first at hturn
  clear h
  induction hturn generalizing programs with
  | refl p s =>
    rw [← hp, Function.update_eq_self]
  | call hresponds _ ih =>
    refine .head (.call i hp hresponds) ?_
    have hrest := ih (Function.update programs i _) (Function.update_self ..)
    rwa [Function.update_idem] at hrest

end System

end Leelo.Core
