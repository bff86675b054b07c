import Leelo.Core.Interleaving

/-!
# Rely and guarantee

A program is guarded if each of its operations keeps an invariant and changes the state only
as it guarantees, whatever the others do within its rely relation before the operation.
Programs that guarantee what the others rely on are guarded together in every interleaving.
A program over coarse operations becomes one over fine operations by an implementation of
each coarse operation.
-/

namespace Leelo.Core

namespace Program

variable {Op : Type} {Ans : Op → Type} {α β σ : Type}

/-- Interference may come before every operation. -/
def Guarded (responds : Behaviour Op Ans σ) (rely guarantee : σ → σ → Prop) (inv : σ → Prop)
    (post : α → σ → Prop) : Program Op Ans α → σ → Prop
  | .done a, s => post a s
  | .call op next, s => ∀ s₁, rely s s₁ → inv s₁ → ∀ answer s₂, responds op s₁ answer s₂ →
    inv s₂ ∧ guarantee s₁ s₂ ∧ Guarded responds rely guarantee inv post (next answer) s₂

variable {responds : Behaviour Op Ans σ} {rely guarantee : σ → σ → Prop} {inv : σ → Prop}
  {post : α → σ → Prop} {s s' : σ}

theorem guarded_perform {op : Op} {post : Ans op → σ → Prop}
    (h : ∀ s₁, rely s s₁ → inv s₁ → ∀ answer s₂, responds op s₁ answer s₂ →
      inv s₂ ∧ guarantee s₁ s₂ ∧ post answer s₂) :
    Guarded responds rely guarantee inv post (perform op : Program Op Ans (Ans op)) s := h

/-- The rule of sequence. -/
theorem Guarded.bind {p : Program Op Ans β} {f : β → Program Op Ans α} {mid : β → σ → Prop}
    (hp : Guarded responds rely guarantee inv mid p s)
    (hf : ∀ a s', mid a s' → Guarded responds rely guarantee inv post (f a) s') :
    Guarded responds rely guarantee inv post (p >>= f) s := by
  induction p generalizing s with
  | done a => exact hf a s hp
  | call op next ih =>
    intro s₁ hrely hinv answer s₂ hresponds
    obtain ⟨hinv', hguarantee, hnext⟩ := hp s₁ hrely hinv answer s₂ hresponds
    exact ⟨hinv', hguarantee, ih answer hnext⟩

/-- Interference that a program relies on does not unguard it. -/
theorem Guarded.stable {p : Program Op Ans α} (htrans : ∀ {s s₁ s₂}, rely s s₁ → rely s₁ s₂ →
    rely s s₂) (hpost : ∀ {a}, post a s → post a s')
    (hp : Guarded responds rely guarantee inv post p s) (h : rely s s') :
    Guarded responds rely guarantee inv post p s' := by
  cases p with
  | done a => exact hpost hp
  | call op next =>
    intro s₁ hrely hinv answer s₂ hresponds
    exact hp s₁ (htrans h hrely) hinv answer s₂ hresponds

/-- Operations that change nothing keep what is stable. -/
theorem guarded_of_all {allowed : Op → Prop} {p : Program Op Ans α} (hp : p.All allowed)
    (hallowed : ∀ {op s answer s'}, allowed op → responds op s answer s' → s' = s)
    (hrefl : ∀ s, guarantee s s) {holds : σ → Prop}
    (hstable : ∀ {s s'}, rely s s' → holds s → holds s') (h : holds s) :
    Guarded responds rely guarantee inv (fun _ s' => holds s') p s := by
  induction p generalizing s with
  | done a => exact h
  | call op next ih =>
    intro s₁ hrely hinv answer s₂ hresponds
    obtain rfl := hallowed hp.1 hresponds
    exact ⟨hinv, hrefl s₂, ih answer (hp.2 answer) (hstable hrely h)⟩

theorem bind_assoc {γ : Type} (p : Program Op Ans α) (f : α → Program Op Ans β)
    (g : β → Program Op Ans γ) : ((p >>= f) >>= g) = (p >>= fun a => f a >>= g) := by
  induction p with
  | done a => rfl
  | call op next ih => exact congrArg (call op) (funext ih)

theorem bind_pure (p : Program Op Ans α) : (p >>= pure) = p := by
  induction p with
  | done a => rfl
  | call op next ih => exact congrArg (call op) (funext ih)

section Expand

variable {Op' : Type} {Ans' : Op' → Type}

/-- Replaces each operation by the program that implements it. -/
def expand (implement : (op : Op) → Program Op' Ans' (Ans op)) :
    Program Op Ans α → Program Op' Ans' α
  | .done a => .done a
  | .call op next => (implement op).bind fun answer => (next answer).expand implement

variable {implement : (op : Op) → Program Op' Ans' (Ans op)}

theorem All.expand {allowed : Op → Prop} {allowed' : Op' → Prop} {p : Program Op Ans α}
    (hp : p.All allowed) (h : ∀ op, allowed op → (implement op).All allowed') :
    (p.expand implement).All allowed' := by
  induction p with
  | done a => trivial
  | call op next ih => exact All.bind (h op hp.1) fun answer => ih answer (hp.2 answer)

theorem Ends.expand {post : α → Prop} {p : Program Op Ans α} (hp : p.Ends post) :
    (p.expand implement).Ends post := by
  induction p with
  | done a => exact hp
  | call op next ih =>
    exact Ends.bind (ends_true (implement op)) fun answer _ => ih answer (hp answer)

theorem expand_perform (op : Op) : (perform op).expand implement = implement op :=
  bind_pure (implement op)

/-- A sequence expands part by part. -/
theorem expand_bind (p : Program Op Ans α) (f : α → Program Op Ans β) :
    (p >>= f).expand implement = p.expand implement >>= fun a => (f a).expand implement := by
  induction p with
  | done a => rfl
  | call op next ih =>
    have hnext : (fun answer => (next answer >>= f).expand implement) =
        fun answer => (next answer).expand implement >>= fun a => (f a).expand implement :=
      funext ih
    calc (implement op >>= fun answer => (next answer >>= f).expand implement)
        = implement op >>= fun answer =>
          (next answer).expand implement >>= fun a => (f a).expand implement := by rw [hnext]
      _ = _ := (bind_assoc (implement op) _ _).symm

/-- A sequence whose parts are implemented and whose error is translated. -/
theorem mapError_expand_bind {ε ε' : Type} (f : ε → ε') (x : Fallible Op Ans ε α)
    (next : α → Fallible Op Ans ε β) :
    Fallible.mapError f (expand implement (x >>= next : Fallible Op Ans ε β)) =
      (Fallible.mapError f (expand implement x) >>= fun a =>
        Fallible.mapError f (expand implement (next a)) : Fallible Op' Ans' ε' β) := by
  let translate {γ : Type} (result : Except ε γ) : Program Op' Ans' (Except ε' γ) :=
    .done (result.mapError f)
  let following (a : α) : Fallible Op' Ans' ε' β := (expand implement (next a)).bind translate
  have hparts : (fun result => expand implement (Fallible.proceed next result) >>= translate) =
      fun result => translate result >>= Fallible.proceed following := by
    funext result
    cases result with
    | ok a => rfl
    | error e => rfl
  calc (expand implement (bind x (Fallible.proceed next)) >>= translate)
      = (expand implement x >>= fun result =>
          expand implement (Fallible.proceed next result)) >>= translate :=
        congrArg (· >>= translate) (expand_bind x (Fallible.proceed next))
    _ = expand implement x >>= fun result =>
          expand implement (Fallible.proceed next result) >>= translate := bind_assoc _ _ _
    _ = expand implement x >>= fun result => translate result >>= Fallible.proceed following := by
        rw [hparts]
    _ = (expand implement x >>= translate) >>= Fallible.proceed following :=
        (bind_assoc _ _ _).symm

end Expand

end Program

namespace System

open Program

variable {ι Op : Type} {Ans : Op → Type} {α σ : Type} [DecidableEq ι]
  {responds : ι → Behaviour Op Ans σ} {outside : σ → σ → Prop} {c c' : System ι Op Ans α σ}
  {rely guarantee : ι → σ → σ → Prop} {inv : σ → Prop} {post : ι → α → σ → Prop}

/-- Guarded programs that guarantee what the others rely on keep the invariant, and stay
guarded. -/
theorem Reaches.guarded
    (htrans : ∀ {i s s₁ s₂}, rely i s s₁ → rely i s₁ s₂ → rely i s s₂)
    (hgives : ∀ {i j s s'}, j ≠ i → guarantee i s s' → rely j s s')
    (hpost : ∀ {i a s s'}, rely i s s' → post i a s → post i a s')
    (houtside : ∀ {s s'}, inv s → outside s s' → inv s' ∧ ∀ i, rely i s s')
    (hinv : inv c.state)
    (hprograms : ∀ i, (c.programs i).Guarded (responds i) (rely i) (guarantee i) inv (post i)
      c.state)
    (hrefl : ∀ i s, rely i s s) (h : Reaches responds outside c c') :
    inv c'.state ∧ ∀ i, (c'.programs i).Guarded (responds i) (rely i) (guarantee i) inv (post i)
      c'.state := by
  induction h with
  | refl => exact ⟨hinv, hprograms⟩
  | tail _ hstep ih =>
    obtain ⟨hinv, hprograms⟩ := ih
    cases hstep with
    | outside h =>
      obtain ⟨hinv', hrely⟩ := houtside hinv h
      exact ⟨hinv', fun i => (hprograms i).stable htrans (hpost (hrely i)) (hrely i)⟩
    | call i hprogram h =>
      have hself := hprograms i
      simp only [hprogram] at hself
      obtain ⟨hinv', hguarantee, hnext⟩ := hself _ (hrefl i _) hinv _ _ h
      refine ⟨hinv', fun j => ?_⟩
      by_cases hji : j = i
      · subst hji
        simp only [Function.update_self]
        exact hnext
      · simp only [Function.update_of_ne hji]
        have hrely := hgives hji hguarantee
        exact (hprograms j).stable htrans (hpost hrely) hrely

end System

end Leelo.Core
