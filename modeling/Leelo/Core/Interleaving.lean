import Leelo.Core.Program
import Mathlib.Data.List.Basic

/-!
# Interleaved programs and exclusive sections

Several programs share a state and take turns at single operations, with an outside
party between them. A finished program projects to a run among others. Programs that
bracket their guarded operations with an exclusive lock never interleave them: in the
trace of guarded operations, those of one program are consecutive.
-/

namespace Leelo.Core

open Program

variable {ι Op : Type} {Ans : Op → Type} {α σ : Type}

/-- Programs that take turns on one state. -/
structure System (ι Op : Type) (Ans : Op → Type) (α σ : Type) where
  programs : ι → Program Op Ans α
  state : σ

namespace System

section Steps

variable [DecidableEq ι]

/-- One operation of one program, or one step of the outside. -/
inductive Step (responds : ι → Behaviour Op Ans σ) (outside : σ → σ → Prop) :
    System ι Op Ans α σ → System ι Op Ans α σ → Prop where
  | outside {programs : ι → Program Op Ans α} {s s' : σ} (h : outside s s') :
      Step responds outside ⟨programs, s⟩ ⟨programs, s'⟩
  | call {programs : ι → Program Op Ans α} {s s' : σ} {op : Op}
      {next : Ans op → Program Op Ans α} {answer : Ans op} (i : ι)
      (hprogram : programs i = .call op next) (hresponds : responds i op s answer s') :
      Step responds outside ⟨programs, s⟩ ⟨Function.update programs i (next answer), s'⟩

/-- Any number of steps. -/
abbrev Reaches (responds : ι → Behaviour Op Ans σ) (outside : σ → σ → Prop) :
    System ι Op Ans α σ → System ι Op Ans α σ → Prop :=
  Relation.ReflTransGen (Step responds outside)

variable {responds : ι → Behaviour Op Ans σ} {outside : σ → σ → Prop}
  {c c' : System ι Op Ans α σ} {allowed : Op → Prop}

theorem Step.all (h : Step responds outside c c')
    (hall : ∀ i, (c.programs i).All allowed) (i : ι) : (c'.programs i).All allowed := by
  cases h with
  | outside _ => exact hall i
  | call j hprogram hresponds =>
    by_cases hij : i = j
    · subst hij
      have hcall := hall i
      simp only [hprogram] at hcall
      simp only [Function.update_self]
      exact hcall.2 _
    · simp only [Function.update_of_ne hij]
      exact hall i

/-- A preorder that the outside and all allowed operations follow relates the states of
every two systems of which one reaches the other. -/
theorem Reaches.relates {T : σ → σ → Prop} (hrefl : ∀ s, T s s)
    (htrans : ∀ {s s₁ s₂}, T s s₁ → T s₁ s₂ → T s s₂)
    (houtside : ∀ {s s'}, outside s s' → T s s')
    (hresponds : ∀ {i op s answer s'}, allowed op → responds i op s answer s' → T s s')
    (hall : ∀ i, (c.programs i).All allowed) (h : Reaches responds outside c c') :
    T c.state c'.state ∧ ∀ i, (c'.programs i).All allowed := by
  induction h with
  | refl => exact ⟨hrefl _, hall⟩
  | tail _ hstep ih =>
    obtain ⟨hstate, hall⟩ := ih
    refine ⟨htrans hstate ?_, hstep.all hall⟩
    cases hstep with
    | outside h => exact houtside h
    | call i hprogram h =>
      have hcall := hall i
      simp only [hprogram] at hcall
      exact hresponds hcall.1 h

/-- An invariant of the state and an assertion for every program that its own operations
carry on and that no other operation and no step of the outside breaks. -/
theorem Reaches.invariant (inv : σ → Prop) (holds : ι → σ → Program Op Ans α → Prop)
    (hcall : ∀ {i op next s answer s'}, inv s → holds i s (.call op next) →
      responds i op s answer s' → inv s' ∧ holds i s' (next answer))
    (hothers : ∀ {i j op s answer s' p}, j ≠ i → inv s → responds i op s answer s' →
      holds j s p → holds j s' p)
    (houtside : ∀ {s s'}, inv s → outside s s' → inv s' ∧ ∀ i p, holds i s p → holds i s' p)
    (hinv : inv c.state) (hholds : ∀ i, holds i c.state (c.programs i))
    (h : Reaches responds outside c c') :
    inv c'.state ∧ ∀ i, holds i c'.state (c'.programs i) := by
  induction h with
  | refl => exact ⟨hinv, hholds⟩
  | tail _ hstep ih =>
    obtain ⟨hinv, hholds⟩ := ih
    cases hstep with
    | outside h =>
      obtain ⟨hinv', hkeeps⟩ := houtside hinv h
      exact ⟨hinv', fun i => hkeeps i _ (hholds i)⟩
    | call i hprogram h =>
      have hself := hholds i
      simp only [hprogram] at hself
      obtain ⟨hinv', hnext⟩ := hcall hinv hself h
      refine ⟨hinv', fun j => ?_⟩
      by_cases hji : j = i
      · subst hji
        simp only [Function.update_self]
        exact hnext
      · simp only [Function.update_of_ne hji]
        exact hothers hji hinv h (hholds j)

theorem Reaches.mono {responds' : ι → Behaviour Op Ans σ}
    (hresponds : ∀ {i op s answer s'}, responds i op s answer s' → responds' i op s answer s')
    (h : Reaches responds outside c c') : Reaches responds' outside c c' := by
  refine Relation.ReflTransGen.mono (fun a b hstep => ?_) _ _ h
  cases hstep with
  | outside h => exact .outside h
  | call i hprogram h => exact .call i hprogram (hresponds h)

/-- One operation of a program that has not ended. -/
def turn (handler : ι → (op : Op) → σ → Ans op × σ) (c : System ι Op Ans α σ) (i : ι) :
    System ι Op Ans α σ :=
  match c.programs i with
  | .done _ => c
  | .call op next =>
    ⟨Function.update c.programs i (next (handler i op c.state).1), (handler i op c.state).2⟩

theorem reaches_turns {handler : ι → (op : Op) → σ → Ans op × σ}
    (h : ∀ i op s, responds i op s (handler i op s).1 (handler i op s).2) (order : List ι)
    (c : System ι Op Ans α σ) : Reaches responds outside c (order.foldl (turn handler) c) := by
  induction order generalizing c with
  | nil => exact .refl
  | cons i order ih =>
    refine .trans ?_ (ih _)
    unfold turn
    cases hprogram : c.programs i with
    | done a => exact .refl
    | call op next => exact .single (.call i hprogram (h i op c.state))

/-- One program runs to its end while the others wait. -/
theorem reaches_runWith {handler : (op : Op) → σ → Ans op × σ} {i : ι}
    (h : ∀ op s, responds i op s (handler op s).1 (handler op s).2)
    (c : System ι Op Ans α σ) :
    Reaches responds outside c
      ⟨Function.update c.programs i (.done ((c.programs i).runWith handler c.state).1),
        ((c.programs i).runWith handler c.state).2⟩ := by
  obtain ⟨programs, s⟩ := c
  generalize hp : programs i = p
  induction p generalizing programs s with
  | done a =>
    have hsame : Function.update programs i (.done a) = programs := by
      rw [← hp, Function.update_eq_self]
    simp only [hp, runWith, hsame]
    exact .refl
  | call op next ih =>
    have hstep : Step responds outside (⟨programs, s⟩ : System ι Op Ans α σ) _ :=
      .call i hp (h op s)
    refine .head hstep ?_
    have hrest := ih (handler op s).1 (Function.update programs i (next (handler op s).1))
      (handler op s).2 (Function.update_self ..)
    rw [Function.update_idem] at hrest
    simp only [hp, runWith, Function.update_self] at hrest ⊢
    exact hrest

/-- A program that has ended stays as it is. -/
theorem Reaches.done {i : ι} {a : α} (h : Reaches responds outside c c')
    (hdone : c.programs i = .done a) : c'.programs i = .done a := by
  induction h with
  | refl => exact hdone
  | tail _ hstep ih =>
    cases hstep with
    | outside _ => exact ih
    | call j hprogram _ =>
      by_cases hij : i = j
      · subst hij
        cases ih.symm.trans hprogram
      · exact (Function.update_of_ne hij ..).trans ih

/-- The system with another program in one place. -/
def set (c : System ι Op Ans α σ) (i : ι) (p : Program Op Ans α) : System ι Op Ans α σ :=
  ⟨Function.update c.programs i p, c.state⟩

/-- An operation that changes nothing may as well be answered before everything else. -/
theorem reaches_silent {i : ι} {op : Op} {next : Ans op → Program Op Ans α}
    (hsilent : ∀ s answer s', responds i op s answer s' → s' = s)
    (h : Reaches responds outside (c.set i (.call op next)) c') :
    (c'.programs i = .call op next ∧ ∀ p, Reaches responds outside (c.set i p) (c'.set i p)) ∨
      ∃ answer, Reaches responds outside (c.set i (next answer)) c' := by
  induction h with
  | refl =>
    refine .inl ⟨Function.update_self .., fun p => ?_⟩
    simp only [set, Function.update_idem]
    exact .refl
  | tail _ hstep ih =>
    rcases ih with ⟨hwaits, hreaches⟩ | ⟨answer, hreaches⟩
    swap
    · exact .inr ⟨answer, hreaches.tail hstep⟩
    cases hstep with
    | outside h => exact .inl ⟨hwaits, fun p => (hreaches p).tail (.outside h)⟩
    | @call programs s s' op' next' answer j hprogram hresponds =>
      by_cases hij : i = j
      · subst hij
        cases hwaits.symm.trans hprogram
        obtain rfl := hsilent _ _ _ hresponds
        exact .inr ⟨answer, hreaches (next answer)⟩
      · refine .inl ⟨(Function.update_of_ne hij ..).trans hwaits, fun p => ?_⟩
        have hstill : Function.update programs i p j = .call op' next' :=
          (Function.update_of_ne (Ne.symm hij) ..).trans hprogram
        have hnext := (hreaches p).tail (.call j hstill hresponds)
        rwa [Function.update_comm hij] at hnext

end Steps

section Results

variable [DecidableEq ι] {responds : ι → Behaviour Op Ans σ} {outside : σ → σ → Prop} {β : Type}

/-- The same programs with their results under a function. -/
def map (f : α → β) (c : System ι Op Ans α σ) : System ι Op Ans β σ :=
  ⟨fun i => f <$> c.programs i, c.state⟩

theorem map_update (f : α → β) (programs : ι → Program Op Ans α) (s : σ) (i : ι)
    (p : Program Op Ans α) :
    map f ⟨Function.update programs i p, s⟩ =
      ⟨Function.update (fun j => f <$> programs j) i (f <$> p), s⟩ := by
  have hprograms : (fun j => f <$> Function.update programs i p j) =
      Function.update (fun j => f <$> programs j) i (f <$> p) := by
    funext j
    by_cases hji : j = i
    · subst hji
      rw [Function.update_self, Function.update_self]
    · rw [Function.update_of_ne hji, Function.update_of_ne hji]
  rw [map, hprograms]

/-- The results of the programs have no influence on what they reach. -/
theorem reaches_map {f : α → β} {c : System ι Op Ans α σ} {d : System ι Op Ans β σ} :
    Reaches responds outside (c.map f) d ↔ ∃ c', Reaches responds outside c c' ∧ d = c'.map f := by
  constructor
  · intro h
    induction h with
    | refl => exact ⟨c, .refl, rfl⟩
    | tail _ hstep ih =>
      obtain ⟨⟨programs, s⟩, hreaches, rfl⟩ := ih
      cases hstep with
      | outside h => exact ⟨_, hreaches.tail (.outside h), rfl⟩
      | call i hprogram hresponds =>
        dsimp only at hprogram
        cases hp : programs i with
        | done a =>
          rw [hp] at hprogram
          cases hprogram
        | call op next =>
          rw [hp] at hprogram
          cases hprogram
          exact ⟨_, hreaches.tail (.call i hp hresponds), (map_update f programs _ i _).symm⟩
  · rintro ⟨c', hreaches, rfl⟩
    refine Relation.ReflTransGen.lift (map f) (fun a b hstep => ?_) _ _ hreaches
    cases hstep with
    | outside h => exact .outside h
    | @call programs s s' op next answer i hprogram hresponds =>
      have hmapped : (map f ⟨programs, s⟩).programs i = .call op fun answer => f <$> next answer :=
        congrArg (f <$> ·) hprogram
      have hnext : Step responds outside (map f ⟨programs, s⟩) _ := .call i hmapped hresponds
      rwa [Function.onFun_apply, map_update]

end Results

section Projection

variable {responds : Behaviour Op Ans σ} {rely : σ → σ → Prop}

/-- Interference before a run can be counted to the run. -/
theorem absorb (hrefl : ∀ s, rely s s) (htrans : ∀ {s s₁ s₂}, rely s s₁ → rely s₁ s₂ → rely s s₂)
    {p : Program Op Ans α} {s s₁ s' : σ} {a : α} (h : rely s s₁)
    (hrun : Runs responds rely p s₁ a s') : ∃ s₂, Runs responds rely p s a s₂ ∧ rely s₂ s' := by
  cases hrun with
  | done a _ => exact ⟨s, .done a s, h⟩
  | call hrely hresponds hnext => exact ⟨s', .call (htrans h hrely) hresponds hnext, hrefl s'⟩

/-- A finished program of a system has run among interference that contains the outside
and the operations of all others. -/
theorem Reaches.project [DecidableEq ι] {responds : ι → Behaviour Op Ans σ}
    {outside : σ → σ → Prop} {allowed : Op → Prop} {c c' : System ι Op Ans α σ} {i : ι}
    (hrefl : ∀ s, rely s s) (htrans : ∀ {s s₁ s₂}, rely s s₁ → rely s₁ s₂ → rely s s₂)
    (houtside : ∀ {s s'}, outside s s' → rely s s')
    (hothers : ∀ {j op s answer s'}, j ≠ i → allowed op → responds j op s answer s' → rely s s')
    (hall : ∀ j, (c.programs j).All allowed) (h : Reaches responds outside c c') {a : α}
    (hdone : c'.programs i = .done a) :
    ∃ s, Runs (responds i) rely (c.programs i) c.state a s ∧ rely s c'.state := by
  induction h using Relation.ReflTransGen.head_induction_on with
  | refl =>
    rw [hdone]
    exact ⟨_, .done a _, hrefl _⟩
  | head hstep _ ih =>
    obtain ⟨s, hrun, hrely⟩ := ih (hstep.all hall)
    cases hstep with
    | outside h =>
      obtain ⟨s₂, hrun, hs₂⟩ := absorb hrefl htrans (houtside h) hrun
      exact ⟨s₂, hrun, htrans hs₂ hrely⟩
    | call j hprogram hresponds =>
      by_cases hij : i = j
      · subst hij
        simp only [Function.update_self] at hrun
        simp only [hprogram]
        exact ⟨s, .call (hrefl _) hresponds hrun, hrely⟩
      · simp only [Function.update_of_ne hij] at hrun
        have hcall := hall j
        simp only [hprogram] at hcall
        obtain ⟨s₂, hrun, hs₂⟩ :=
          absorb hrefl htrans (hothers (Ne.symm hij) hcall.1 hresponds) hrun
        exact ⟨s₂, hrun, htrans hs₂ hrely⟩

end Projection

end System

/-- What an operation is to an exclusive lock. -/
inductive LockKind where
  | acquire
  | release
  | guarded
  | free
  deriving DecidableEq

/-- A lock on a state: its holder, and the trace of guarded operations by program. -/
structure Lock (ι Op : Type) (Ans : Op → Type) (σ : Type) where
  kind : Op → LockKind
  /-- The answer to an attempt to acquire grants it. -/
  granted : (op : Op) → Ans op → Bool
  holder : σ → Option ι
  trace : σ → List ι

namespace Lock

variable (lock : Lock ι Op Ans σ)

/-- The environment keeps the lock exclusive and records the guarded operations. -/
structure Kept (responds : ι → Behaviour Op Ans σ) (outside : σ → σ → Prop) : Prop where
  grants : ∀ {i op s answer s'}, lock.kind op = .acquire → responds i op s answer s' →
    lock.trace s' = lock.trace s ∧ if lock.granted op answer then
      lock.holder s = none ∧ lock.holder s' = some i else lock.holder s' = lock.holder s
  releases : ∀ {i op s answer s'}, lock.kind op = .release → responds i op s answer s' →
    lock.trace s' = lock.trace s ∧
      (lock.holder s' = lock.holder s ∨ lock.holder s = some i ∧ lock.holder s' = none)
  records : ∀ {i op s answer s'}, lock.kind op = .guarded → responds i op s answer s' →
    lock.trace s' = lock.trace s ++ [i] ∧ lock.holder s' = lock.holder s
  ignores : ∀ {i op s answer s'}, lock.kind op = .free → responds i op s answer s' →
    lock.trace s' = lock.trace s ∧ lock.holder s' = lock.holder s
  outside : ∀ {s s'}, outside s s' → lock.trace s' = lock.trace s ∧ lock.holder s' = lock.holder s

/-- A program inside its section: it ends when it has released the lock. -/
inductive Inside : Program Op Ans α → Prop where
  | release {op : Op} {next : Ans op → Program Op Ans α} (hkind : lock.kind op = .release)
      (hnext : ∀ answer, ∃ a, next answer = .done a) : Inside (.call op next)
  | step {op : Op} {next : Ans op → Program Op Ans α}
      (hkind : lock.kind op = .guarded ∨ lock.kind op = .free)
      (hnext : ∀ answer, Inside (next answer)) : Inside (.call op next)

/-- A program before its section, which it enters only with the lock. -/
inductive Before : Program Op Ans α → Prop where
  | done (a : α) : Before (.done a)
  | free {op : Op} {next : Ans op → Program Op Ans α} (hkind : lock.kind op = .free)
      (hnext : ∀ answer, Before (next answer)) : Before (.call op next)
  | acquire {op : Op} {next : Ans op → Program Op Ans α} (hkind : lock.kind op = .acquire)
      (hgranted : ∀ answer, lock.granted op answer = true → lock.Inside (next answer))
      (hrefused : ∀ answer, lock.granted op answer = false → Before (next answer)) :
      Before (.call op next)

/-- Work on guarded data, then release, is a section. -/
theorem inside_bind {β : Type} {body : Program Op Ans β} {after : β → Program Op Ans α}
    (hbody : body.All fun op => lock.kind op = .guarded ∨ lock.kind op = .free)
    (hafter : ∀ b, lock.Inside (after b)) : lock.Inside (body >>= after) := by
  induction body with
  | done b => exact hafter b
  | call op next ih => exact .step hbody.1 fun answer => ih answer (hbody.2 answer)

/-- No program has guarded operations on both sides of one of another program. -/
def Consecutive (trace : List ι) : Prop := ∀ i j, [i, j, i].Sublist trace → j = i

/-- Where a program stands with respect to its section. -/
inductive Stage (c : System ι Op Ans α σ) (i : ι) : Prop where
  | before (hprogram : lock.Before (c.programs i)) (hholder : lock.holder c.state ≠ some i)
      (htrace : i ∉ lock.trace c.state)
  | inside (hprogram : lock.Inside (c.programs i)) (hholder : lock.holder c.state = some i)
      (htrace : ∀ j, [i, j].Sublist (lock.trace c.state) → j = i)
  | after (a : α) (hprogram : c.programs i = .done a)

variable {lock} in
/-- The stage of a program depends on itself, on who holds the lock and on the trace. -/
theorem Stage.congr {c c' : System ι Op Ans α σ} {i : ι} (h : lock.Stage c i)
    (hprogram : c'.programs i = c.programs i)
    (hholder : lock.holder c'.state = some i ↔ lock.holder c.state = some i)
    (htrace : lock.trace c'.state = lock.trace c.state) : lock.Stage c' i := by
  cases h with
  | before hp hh ht => exact .before (hprogram ▸ hp) (fun h => hh (hholder.mp h)) (htrace ▸ ht)
  | inside hp hh ht => exact .inside (hprogram ▸ hp) (hholder.mpr hh) (htrace ▸ ht)
  | after a hp => exact .after a (hprogram ▸ hp)

private theorem sublist_concat {i x : ι} {l trace : List ι}
    (h : (l ++ [x]).Sublist (trace ++ [i])) :
    (l ++ [x]).Sublist trace ∨ x = i ∧ l.Sublist trace := by
  rw [← List.reverse_sublist, List.reverse_append, List.reverse_append] at h
  rcases List.sublist_cons_iff.mp h with h | ⟨r, hr, h⟩
  · left
    rw [← List.reverse_sublist, List.reverse_append]
    exact h
  · obtain ⟨rfl, rfl⟩ := List.cons.inj hr
    exact .inr ⟨rfl, List.reverse_sublist.mp h⟩

/-- An operation of a program whose operations are the last ones keeps the trace
consecutive. -/
theorem Consecutive.concat {i : ι} {trace : List ι} (h : Consecutive trace)
    (hlast : ∀ j, [i, j].Sublist trace → j = i) : Consecutive (trace ++ [i]) := by
  intro k j hsub
  rcases sublist_concat (l := [k, j]) hsub with hfirst | ⟨rfl, hfirst⟩
  · exact h k j hfirst
  · exact hlast j hfirst

section Exclusion

variable {lock : Lock ι Op Ans σ} {responds : ι → Behaviour Op Ans σ} {outside : σ → σ → Prop}

/-- Only the holder of the lock is inside its section. -/
theorem Stage.not_inside {c : System ι Op Ans α σ} {i : ι}
    (h : lock.Stage c i) (hholder : lock.holder c.state ≠ some i) :
    lock.Before (c.programs i) ∧ i ∉ lock.trace c.state ∨ ∃ a, c.programs i = .done a := by
  cases h with
  | before hp _ ht => exact .inl ⟨hp, ht⟩
  | inside _ hh _ => exact absurd hh hholder
  | after a hp => exact .inr ⟨a, hp⟩

variable [DecidableEq ι]

/-- The system after an operation of program `i`. -/
private abbrev moved (programs : ι → Program Op Ans α) (i : ι) (p : Program Op Ans α) (s : σ) :
    System ι Op Ans α σ := ⟨Function.update programs i p, s⟩

private theorem moved_self (programs : ι → Program Op Ans α) (i : ι) (p : Program Op Ans α)
    (s : σ) : (moved programs i p s).programs i = p := Function.update_self ..

/-- Programs that do not move keep their stage while the trace and the lock, as far as
they hold it, stay the same. -/
private theorem stage_others {programs : ι → Program Op Ans α} {s s' : σ} {i : ι}
    {p : Program Op Ans α} (hstage : ∀ j, lock.Stage ⟨programs, s⟩ j)
    (htrace : lock.trace s' = lock.trace s)
    (hholder : ∀ j ≠ i, lock.holder s' = some j ↔ lock.holder s = some j)
    (hself : lock.Stage (moved programs i p s') i) (j : ι) :
    lock.Stage (moved programs i p s') j := by
  by_cases hji : j = i
  · exact hji ▸ hself
  · exact (hstage j).congr (Function.update_of_ne hji _ _) (hholder j hji) htrace

variable {programs : ι → Program Op Ans α} {s s' : σ} {i : ι} {op : Op}
  {next : Ans op → Program Op Ans α} {answer : Ans op}

/-- A step of a program before its section. -/
private theorem Kept.call_before (hkept : lock.Kept responds outside)
    (hstage : ∀ j, lock.Stage ⟨programs, s⟩ j) (hprogram : lock.Before (.call op next))
    (hholder : lock.holder s ≠ some i) (hmem : i ∉ lock.trace s)
    (h : responds i op s answer s') :
    (∀ j, lock.Stage (moved programs i (next answer) s') j) ∧ lock.trace s' = lock.trace s := by
  cases hprogram with
  | free hkind hnext =>
    obtain ⟨ht, hh⟩ := hkept.ignores hkind h
    refine ⟨stage_others hstage ht (fun j _ => by rw [hh]) (.before ?_ ?_ ?_), ht⟩
    · rw [moved_self]
      exact hnext answer
    · rw [hh]
      exact hholder
    · rw [ht]
      exact hmem
  | acquire hkind hgranted hrefused =>
    obtain ⟨ht, hh⟩ := hkept.grants hkind h
    by_cases hgrant : lock.granted op answer = true
    · rw [if_pos hgrant] at hh
      refine ⟨stage_others hstage ht (fun j hji => ?_) (.inside ?_ hh.2 fun j hsub => ?_), ht⟩
      · rw [hh.1, hh.2]
        exact iff_of_false (fun h => hji (Option.some.inj h).symm) (fun h => by cases h)
      · rw [moved_self]
        exact hgranted answer hgrant
      · exact absurd (hsub.subset List.mem_cons_self) (ht ▸ hmem)
    · rw [if_neg hgrant] at hh
      refine ⟨stage_others hstage ht (fun j _ => by rw [hh]) (.before ?_ ?_ ?_), ht⟩
      · rw [moved_self]
        exact hrefused answer (Bool.not_eq_true _ ▸ hgrant)
      · rw [hh]
        exact hholder
      · rw [ht]
        exact hmem

/-- A guarded operation of the program that holds the lock. -/
private theorem Kept.call_guarded (hkept : lock.Kept responds outside)
    (hstage : ∀ j, lock.Stage ⟨programs, s⟩ j) (hkind : lock.kind op = .guarded)
    (hnext : lock.Inside (next answer)) (hholder : lock.holder s = some i)
    (hlast : ∀ j, [i, j].Sublist (lock.trace s) → j = i) (h : responds i op s answer s') (j : ι) :
    lock.Stage (moved programs i (next answer) s') j := by
  obtain ⟨ht, hh⟩ := hkept.records hkind h
  by_cases hji : j = i
  · subst hji
    refine .inside ?_ (hh ▸ hholder) fun k hsub => ?_
    · rw [moved_self]
      exact hnext
    · rw [ht] at hsub
      rcases sublist_concat (l := [j]) hsub with hsub | ⟨rfl, -⟩
      · exact hlast k hsub
      · rfl
  · have hnot : lock.holder s ≠ some j := fun h => hji (Option.some.inj (hholder ▸ h)).symm
    have hprogram : (moved programs i (next answer) s').programs j = programs j :=
      Function.update_of_ne hji _ _
    rcases (hstage j).not_inside hnot with ⟨hbefore, hmem⟩ | ⟨a, ha⟩
    · refine .before (hprogram ▸ hbefore) (hh ▸ hnot) ?_
      rw [ht, List.mem_append, List.mem_singleton]
      exact not_or.mpr ⟨hmem, hji⟩
    · exact .after a (hprogram.trans ha)

/-- A step of the program inside its section. -/
private theorem Kept.call_inside (hkept : lock.Kept responds outside)
    (hstage : ∀ j, lock.Stage ⟨programs, s⟩ j) (htrace : Consecutive (lock.trace s))
    (hprogram : lock.Inside (.call op next)) (hholder : lock.holder s = some i)
    (hlast : ∀ j, [i, j].Sublist (lock.trace s) → j = i) (h : responds i op s answer s') :
    (∀ j, lock.Stage (moved programs i (next answer) s') j) ∧ Consecutive (lock.trace s') := by
  cases hprogram with
  | release hkind hnext =>
    obtain ⟨ht, hh⟩ := hkept.releases hkind h
    obtain ⟨a, ha⟩ := hnext answer
    refine ⟨stage_others hstage ht (fun j hji => ?_) (.after a ?_), ht ▸ htrace⟩
    · rcases hh with hh | ⟨hheld, hfree⟩
      · rw [hh]
      · rw [hheld, hfree]
        exact iff_of_false (fun h => by cases h) (fun h => hji (Option.some.inj h).symm)
    · rw [moved_self]
      exact ha
  | step hkind hnext =>
    rcases hkind with hkind | hkind
    · refine ⟨hkept.call_guarded hstage hkind (hnext answer) hholder hlast h, ?_⟩
      rw [(hkept.records hkind h).1]
      exact htrace.concat hlast
    · obtain ⟨ht, hh⟩ := hkept.ignores hkind h
      refine ⟨stage_others hstage ht (fun j _ => by rw [hh]) (.inside ?_ ?_ ?_), ht ▸ htrace⟩
      · rw [moved_self]
        exact hnext answer
      · rw [hh]
        exact hholder
      · rw [ht]
        exact hlast

/-- One step of a system keeps every program at a stage and the trace consecutive. -/
theorem Kept.step (hkept : lock.Kept responds outside) {c c' : System ι Op Ans α σ}
    (hstage : ∀ i, lock.Stage c i) (htrace : Consecutive (lock.trace c.state))
    (hstep : System.Step responds outside c c') :
    (∀ i, lock.Stage c' i) ∧ Consecutive (lock.trace c'.state) := by
  cases hstep with
  | outside h =>
    obtain ⟨ht, hh⟩ := hkept.outside h
    exact ⟨fun i => (hstage i).congr rfl (by rw [hh]) ht, ht ▸ htrace⟩
  | call i hprogram h =>
    cases hstage i with
    | before hp hh ht =>
      simp only [hprogram] at hp
      obtain ⟨hnew, htrace'⟩ := hkept.call_before hstage hp hh ht h
      exact ⟨hnew, htrace' ▸ htrace⟩
    | inside hp hh ht =>
      simp only [hprogram] at hp
      exact hkept.call_inside hstage htrace hp hh ht h
    | after a hp =>
      simp only [hprogram] at hp
      cases hp

/-- However programs interleave, their sections do not. -/
theorem Kept.consecutive (hkept : lock.Kept responds outside) {c c' : System ι Op Ans α σ}
    (hbefore : ∀ i, lock.Before (c.programs i)) (hfree : lock.holder c.state = none)
    (hempty : lock.trace c.state = []) (h : System.Reaches responds outside c c') :
    Consecutive (lock.trace c'.state) := by
  have hstart : (∀ i, lock.Stage c i) ∧ Consecutive (lock.trace c.state) := by
    refine ⟨fun i => .before (hbefore i) ?_ ?_, fun i j hsub => ?_⟩
    · rw [hfree]
      exact fun h => by cases h
    · rw [hempty]
      exact List.not_mem_nil
    · rw [hempty] at hsub
      cases hsub
  suffices hreach : (∀ i, lock.Stage c' i) ∧ Consecutive (lock.trace c'.state) from hreach.2
  induction h with
  | refl => exact hstart
  | tail _ hstep ih => exact hkept.step ih.1 ih.2 hstep

end Exclusion

end Lock

end Leelo.Core
