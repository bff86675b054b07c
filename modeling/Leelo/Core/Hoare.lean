import Leelo.Core.Program

/-!
# Pre- and postconditions of programs

A triple says what a program leaves behind when it runs to its end and what holds in
every state on the way, so that it also speaks of a run that is cut off. The rules follow
the sequencing of programs. Errors of a sequence share one postcondition.
-/

namespace Leelo.Core

namespace Program

variable {Op : Type} {Ans : Op → Type} {α β σ : Type}

/-- A state that a run passes through, at its start or after one of its operations. -/
inductive Visits (responds : Behaviour Op Ans σ) : Program Op Ans α → σ → σ → Prop where
  | here (p : Program Op Ans α) (s : σ) : Visits responds p s s
  | next {op : Op} {next : Ans op → Program Op Ans α} {s s₁ s' : σ} {answer : Ans op}
      (hresponds : responds op s answer s₁) (hnext : Visits responds (next answer) s₁ s') :
      Visits responds (.call op next) s s'

variable {p : Program Op Ans α} {post : α → σ → Prop}

theorem Runs.visits {responds : Behaviour Op Ans σ} {s s' : σ} {a : α}
    (h : Runs responds Eq p s a s') : Visits responds p s s' := by
  induction h with
  | done a s => exact .here _ s
  | call hrely hresponds _ ih =>
    cases hrely
    exact .next hresponds ih

/-- A preorder that the allowed operations follow relates every state on the way to the start. -/
theorem Visits.relates {responds : Behaviour Op Ans σ} {T : σ → σ → Prop} (hrefl : ∀ s, T s s)
    (htrans : ∀ {s s₁ s₂}, T s s₁ → T s₁ s₂ → T s s₂) {allowed : Op → Prop}
    (hresponds : ∀ {op s answer s'}, allowed op → responds op s answer s' → T s s')
    (hp : p.All allowed) {s s' : σ} (h : Visits responds p s s') :
    T s s' := by
  induction h with
  | here p s => exact hrefl s
  | next hs _ ih => exact htrans (hresponds hp.1 hs) (ih (hp.2 _))

/-- From `pre`, every state on the way satisfies `inv` and the result satisfies `post`.
Nobody else changes the state. -/
structure Meets (responds : Behaviour Op Ans σ) (inv pre : σ → Prop) (p : Program Op Ans α)
    (post : α → σ → Prop) : Prop where
  visits : ∀ {s s'}, pre s → Visits responds p s s' → inv s'
  runs : ∀ {s a s'}, pre s → Runs responds Eq p s a s' → post a s'

variable {responds : Behaviour Op Ans σ} {inv pre : σ → Prop}

theorem meets_done {a : α} (h : ∀ s, pre s → inv s ∧ post a s) :
    Meets responds inv pre (.done a) post where
  visits {s _} hpre hvisits := by
    cases hvisits
    exact (h s hpre).1
  runs {s b s'} hpre hruns := by
    obtain ⟨rfl, rfl⟩ := runs_done.mp hruns
    exact (h s' hpre).2

theorem meets_call {op : Op} {next : Ans op → Program Op Ans α} {mid : Ans op → σ → Prop}
    (hinv : ∀ s, pre s → inv s)
    (hop : ∀ {s answer s'}, pre s → responds op s answer s' → mid answer s')
    (hnext : ∀ answer, Meets responds inv (mid answer) (next answer) post) :
    Meets responds inv pre (.call op next) post where
  visits hpre hvisits := by
    cases hvisits with
    | here => exact hinv _ hpre
    | next hresponds hrest => exact (hnext _).visits (hop hpre hresponds) hrest
  runs hpre hruns := by
    cases hruns with
    | call hrely hresponds hrest =>
      cases hrely
      exact (hnext _).runs (hop hpre hresponds) hrest

/-- The rule of sequence. -/
theorem Meets.bind {f : α → Program Op Ans β} {mid : α → σ → Prop} {post : β → σ → Prop}
    (hp : Meets responds inv pre p mid) (hf : ∀ a, Meets responds inv (mid a) (f a) post) :
    Meets responds inv pre (p >>= f) post where
  visits {s s'} hpre hvisits := by
    induction p generalizing s pre with
    | done a => exact (hf a).visits (hp.runs hpre (.done a s)) hvisits
    | call op next ih =>
      cases hvisits with
      | here => exact hp.visits hpre (.here _ _)
      | @next _ _ _ _ _ answer hresponds hrest =>
        have hnext : Meets responds inv (fun s₁ => ∃ s, pre s ∧ responds op s answer s₁)
            (next answer) mid :=
          { visits := fun ⟨_, hs, ho⟩ hv => hp.visits hs (.next ho hv)
            runs := fun ⟨_, hs, ho⟩ hr => hp.runs hs (.call rfl ho hr) }
        exact ih answer hnext ⟨_, hpre, hresponds⟩ hrest
  runs hpre hruns := by
    obtain ⟨a, s₁, hfirst, hrest⟩ := runs_bind.mp hruns
    exact (hf a).runs (hp.runs hpre hfirst) hrest

theorem Meets.ends (hp : Meets responds inv pre p post) :
    Meets responds inv pre p fun a s => inv s ∧ post a s where
  visits := hp.visits
  runs hpre hruns := ⟨hp.visits hpre hruns.visits, hp.runs hpre hruns⟩

theorem Meets.mono {pre' : σ → Prop} {post' : α → σ → Prop} (hp : Meets responds inv pre p post)
    (hpre : ∀ s, pre' s → pre s) (hpost : ∀ a s, post a s → post' a s) :
    Meets responds inv pre' p post' where
  visits hs hvisits := hp.visits (hpre _ hs) hvisits
  runs hs hruns := hpost _ _ (hp.runs (hpre _ hs) hruns)

/-- A precondition that asks for some value is used at each value. -/
theorem meets_exists {ι : Type} {each : ι → σ → Prop}
    (h : ∀ i, Meets responds inv (each i) p post) :
    Meets responds inv (fun s => ∃ i, each i s) p post where
  visits := fun ⟨i, hs⟩ hvisits => (h i).visits hs hvisits
  runs := fun ⟨i, hs⟩ hruns => (h i).runs hs hruns

/-- A fact of the precondition that does not speak of the state. -/
theorem meets_assume {fact : Prop} (h : fact → Meets responds inv pre p post) :
    Meets responds inv (fun s => fact ∧ pre s) p post where
  visits := fun ⟨hfact, hs⟩ hvisits => (h hfact).visits hs hvisits
  runs := fun ⟨hfact, hs⟩ hruns => (h hfact).runs hs hruns

end Program

namespace Fallible

open Program

variable {Op : Type} {Ans : Op → Type} {ε ε' α β σ : Type}

/-- The postcondition of a result: one for values and one for errors. -/
def outcome (post : α → σ → Prop) (failed : ε → σ → Prop) : Except ε α → σ → Prop
  | .ok a => post a
  | .error e => failed e

/-- A triple for a program that may end with an error. -/
abbrev Meets (responds : Behaviour Op Ans σ) (inv pre : σ → Prop) (x : Fallible Op Ans ε α)
    (post : α → σ → Prop) (failed : ε → σ → Prop) : Prop :=
  Program.Meets responds inv pre x (outcome post failed)

variable {responds : Behaviour Op Ans σ} {inv pre : σ → Prop} {failed : ε → σ → Prop}

variable {post : α → σ → Prop} {x : Fallible Op Ans ε α}

theorem meets_ofResult {result : Except ε α}
    (h : ∀ s, pre s → inv s ∧ outcome post failed result s) :
    Meets responds inv pre (ofResult result) post failed := meets_done h

/-- Returning makes no call. -/
theorem meets_pure {a : α} (h : ∀ s, pre s → inv s ∧ post a s) :
    Meets responds inv pre (pure a : Fallible Op Ans ε α) post failed := meets_done h

/-- A single operation. -/
theorem meets_perform {op : Op} {post : Ans op → σ → Prop} (hinv : ∀ s, pre s → inv s)
    (hop : ∀ {s answer s'}, pre s → responds op s answer s' → inv s' ∧ post answer s') :
    Meets responds inv pre (perform op : Fallible Op Ans ε (Ans op)) post failed := by
  have hdone : ∀ answer, Meets responds inv (fun s => inv s ∧ post answer s)
      (pure answer : Fallible Op Ans ε (Ans op)) post failed := fun _ => meets_pure fun _ h => h
  exact meets_call hinv hop hdone

/-- An error of the first part is an error of the sequence. -/
theorem meets_bind {f : α → Fallible Op Ans ε β} {mid : α → σ → Prop} {post : β → σ → Prop}
    (hx : Meets responds inv pre x mid failed)
    (hf : ∀ a, Meets responds inv (mid a) (f a) post failed) :
    Meets responds inv pre (x >>= f) post failed := by
  refine Program.Meets.bind hx.ends fun result => ?_
  cases result with
  | error e => exact meets_done fun s h => h
  | ok a => exact (hf a).mono (fun s h => h.2) fun _ _ h => h

/-- Errors may be renamed. -/
theorem meets_mapError {f : ε → ε'} {failed' : ε' → σ → Prop}
    (hx : Meets responds inv pre x post failed) (hf : ∀ e s, failed e s → failed' (f e) s) :
    Meets responds inv pre (mapError f x) post failed' := by
  refine Program.Meets.bind hx.ends fun result => ?_
  cases result with
  | error e => exact meets_done fun s h => ⟨h.1, hf e s h.2⟩
  | ok a => exact meets_done fun s h => h

/-- Afterwards the result is a value, with the postcondition it had. -/
theorem meets_attempt {failed' : ε' → σ → Prop} (hx : Meets responds inv pre x post failed) :
    Meets responds inv pre (attempt x) (fun result s => inv s ∧ outcome post failed result s)
      failed' :=
  Program.Meets.bind hx.ends fun _ => meets_done fun _ h => ⟨h.1, h⟩

end Fallible

end Leelo.Core
