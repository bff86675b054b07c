import Leelo.Core.Exec
import Mathlib.Logic.Function.Basic
import Mathlib.Logic.Relation

/-!
# Programs over a shared environment

A program performs operations one at a time and goes on with their answers. What an
operation answers and what it does to the shared state is a relation, so it may fail in
any way. Between two operations other parties change the state as far as the rely
relation allows. Runs of several programs interleave, and each of them projects to a run
of one program among others.
-/

namespace Leelo.Core

/-- A program either has a result or performs an operation and goes on with the answer. -/
inductive Program (Op : Type) (Ans : Op → Type) (α : Type) where
  | done (result : α)
  | call (op : Op) (next : Ans op → Program Op Ans α)

namespace Program

variable {Op : Type} {Ans : Op → Type} {α β σ : Type}

/-- Runs the first program, then what its result gives. -/
def bind : Program Op Ans α → (α → Program Op Ans β) → Program Op Ans β
  | .done a, f => f a
  | .call op next, f => .call op fun answer => (next answer).bind f

instance monadProgram : Monad (Program Op Ans) where
  pure := .done
  bind := bind

/-- Perform one operation. -/
def perform (op : Op) : Program Op Ans (Ans op) := .call op .done

/-- How an operation may answer in a state, and the states it may leave. -/
abbrev Behaviour (Op : Type) (Ans : Op → Type) (σ : Type) :=
  (op : Op) → σ → Ans op → σ → Prop

/-- A run to the end, with interference before every operation. -/
inductive Runs (responds : Behaviour Op Ans σ) (rely : σ → σ → Prop) :
    Program Op Ans α → σ → α → σ → Prop where
  | done (a : α) (s : σ) : Runs responds rely (.done a) s a s
  | call {op : Op} {next : Ans op → Program Op Ans α} {s s₁ s₂ s' : σ} {answer : Ans op} {a : α}
      (hrely : rely s s₁) (hresponds : responds op s₁ answer s₂)
      (hnext : Runs responds rely (next answer) s₂ a s') : Runs responds rely (.call op next) s a s'

variable {responds : Behaviour Op Ans σ} {rely : σ → σ → Prop}

variable {a : α} {s s' : σ} {p : Program Op Ans α} {f : α → Program Op Ans β}

theorem runs_done {b : α} :
    Runs responds rely (.done a) s b s' ↔ b = a ∧ s' = s := by
  constructor
  · intro h
    cases h
    exact ⟨rfl, rfl⟩
  · rintro ⟨rfl, rfl⟩
    exact .done _ _

theorem runs_perform {op : Op} {answer : Ans op} :
    Runs responds rely (perform op) s answer s' ↔ ∃ s₁, rely s s₁ ∧ responds op s₁ answer s' := by
  constructor
  · intro h
    cases h with
    | call hrely hresponds hnext =>
      obtain ⟨rfl, rfl⟩ := runs_done.mp hnext
      exact ⟨_, hrely, hresponds⟩
  · rintro ⟨s₁, hrely, hresponds⟩
    exact .call hrely hresponds (.done _ _)

/-- A sequence runs exactly when its parts do, one after the other. -/
theorem runs_bind {b : β} :
    Runs responds rely (p >>= f) s b s' ↔
      ∃ a s₁, Runs responds rely p s a s₁ ∧ Runs responds rely (f a) s₁ b s' := by
  constructor
  · intro h
    induction p generalizing s with
    | done a => exact ⟨a, s, .done a s, h⟩
    | call op next ih =>
      cases h with
      | call hrely hresponds hnext =>
        obtain ⟨a, s₁, hp, hf⟩ := ih _ hnext
        exact ⟨a, s₁, .call hrely hresponds hp, hf⟩
  · rintro ⟨a, s₁, hp, hf⟩
    induction hp with
    | done a s => exact hf
    | call hrely hresponds _ ih => exact .call hrely hresponds (ih hf)

/-- A run stands under any weaker rely relation. -/
theorem Runs.mono {rely' : σ → σ → Prop} (hrely : ∀ {s s'}, rely s s' → rely' s s')
    (h : Runs responds rely p s a s') :
    Runs responds rely' p s a s' := by
  induction h with
  | done a s => exact .done a s
  | call hr hs _ ih => exact .call (hrely hr) hs ih

/-- A run stands under any behaviour that allows as much. -/
theorem Runs.weaken {responds' : Behaviour Op Ans σ}
    (hresponds : ∀ {op s answer s'}, responds op s answer s' → responds' op s answer s')
    (h : Runs responds rely p s a s') :
    Runs responds' rely p s a s' := by
  induction h with
  | done a s => exact .done a s
  | call hr hs _ ih => exact .call hr (hresponds hs) ih

/-- Every operation of the program is allowed, whatever the answers are. -/
def All (allowed : Op → Prop) : Program Op Ans α → Prop
  | .done _ => True
  | .call op next => allowed op ∧ ∀ answer, (next answer).All allowed

theorem All.bind {allowed : Op → Prop} (hp : p.All allowed) (hf : ∀ a, (f a).All allowed) :
    (p >>= f).All allowed := by
  induction p with
  | done a => exact hf a
  | call op next ih => exact ⟨hp.1, fun answer => ih answer (hp.2 answer)⟩

theorem All.perform {allowed : Op → Prop} {op : Op} (h : allowed op) :
    (perform op : Program Op Ans (Ans op)).All allowed := ⟨h, fun _ => trivial⟩

theorem All.mono {allowed allowed' : Op → Prop} (h : ∀ op, allowed op → allowed' op)
    (hp : p.All allowed) : p.All allowed' := by
  induction p with
  | done a => trivial
  | call op next ih => exact ⟨h op hp.1, fun answer => ih answer (hp.2 answer)⟩

theorem All.and {allowed allowed' : Op → Prop} (h : p.All allowed) (h' : p.All allowed') :
    p.All fun op => allowed op ∧ allowed' op := by
  induction p with
  | done a => trivial
  | call op next ih => exact ⟨⟨h.1, h'.1⟩, fun answer => ih answer (h.2 answer) (h'.2 answer)⟩

/-- A preorder that the interference and the allowed operations follow relates the ends of
every run. -/
theorem Runs.relates {T : σ → σ → Prop} (hrefl : ∀ s, T s s)
    (htrans : ∀ {s s₁ s₂}, T s s₁ → T s₁ s₂ → T s s₂) {allowed : Op → Prop}
    (hrely : ∀ {s s'}, rely s s' → T s s')
    (hresponds : ∀ {op s answer s'}, allowed op → responds op s answer s' → T s s')
    (hp : p.All allowed) (h : Runs responds rely p s a s') : T s s' := by
  induction h with
  | done a s => exact hrefl s
  | call hr hs _ ih => exact htrans (htrans (hrely hr) (hresponds hp.1 hs)) (ih (hp.2 _))

/-- Every result of the program satisfies `post`, whatever the answers are. -/
def Ends (post : α → Prop) : Program Op Ans α → Prop
  | .done a => post a
  | .call _ next => ∀ answer, (next answer).Ends post

/-- The second program's results count. -/
theorem Ends.bind {post : α → Prop} {post' : β → Prop} (hp : p.Ends post)
    (hf : ∀ a, post a → (f a).Ends post') :
    (p >>= f).Ends post' := by
  induction p with
  | done a => exact hf a hp
  | call op next ih => exact fun answer => ih answer (hp answer)

/-- Every program ends in some result. -/
theorem ends_true (p : Program Op Ans α) : p.Ends fun _ => True := by
  induction p with
  | done a => trivial
  | call op next ih => exact fun answer => ih answer

theorem Runs.ends {post : α → Prop} (h : Runs responds rely p s a s') (hp : p.Ends post) :
    post a := by
  induction h with
  | done a s => exact hp
  | call _ _ _ ih => exact ih (hp _)

/-- Run against an environment that answers by a function. -/
def runWith (handler : (op : Op) → σ → Ans op × σ) : Program Op Ans α → σ → α × σ
  | .done a, s => (a, s)
  | .call op next, s => (next (handler op s).1).runWith handler (handler op s).2

theorem runWith_bind (handler : (op : Op) → σ → Ans op × σ) (p : Program Op Ans α)
    (f : α → Program Op Ans β) (s : σ) :
    (p.bind f).runWith handler s =
      (f (p.runWith handler s).1).runWith handler (p.runWith handler s).2 := by
  induction p generalizing s with
  | done a => rfl
  | call op next ih => exact ih _ _

/-- A handler whose answers are those of the system after some interference runs the program. -/
theorem runs_runWith {handler : (op : Op) → σ → Ans op × σ}
    (h : ∀ op s, ∃ s₁, rely s s₁ ∧ responds op s₁ (handler op s).1 (handler op s).2)
    (p : Program Op Ans α) (s : σ) :
    Runs responds rely p s (p.runWith handler s).1 (p.runWith handler s).2 := by
  induction p generalizing s with
  | done a => exact .done a s
  | call op next ih =>
    obtain ⟨s₁, hrely, hresponds⟩ := h op s
    exact .call hrely hresponds (ih _ _)

end Program

/-- A program that may end with an error. -/
def Fallible (Op : Type) (Ans : Op → Type) (ε α : Type) := Program Op Ans (Except ε α)

namespace Fallible

open Program

variable {Op : Type} {Ans : Op → Type} {ε ε' α β σ : Type}

/-- The continuation after a part of a sequence: an error ends it. -/
def proceed (f : α → Fallible Op Ans ε β) : Except ε α → Program Op Ans (Except ε β)
  | .ok a => f a
  | .error e => .done (.error e)

instance monadFallible : Monad (Fallible Op Ans ε) where
  pure a := Program.done (.ok a)
  bind x f := Program.bind x (proceed f)

/-- A result that needs no operation. -/
def ofResult (result : Except ε α) : Fallible Op Ans ε α := Program.done result

/-- Perform one operation; its answer is not an error of the program. -/
def perform (op : Op) : Fallible Op Ans ε (Ans op) :=
  Program.call op fun answer => .done (.ok answer)

/-- Translate the error of a program. -/
def mapError (f : ε → ε') (x : Fallible Op Ans ε α) : Fallible Op Ans ε' α :=
  Program.bind x fun result => .done (result.mapError f)

/-- Run a part whose error does not end the sequence. -/
def attempt (x : Fallible Op Ans ε α) : Fallible Op Ans ε' (Except ε α) :=
  Program.bind x fun result => .done (.ok result)

/-- Runs of a program that may fail. -/
abbrev Runs (responds : Behaviour Op Ans σ) (rely : σ → σ → Prop) (x : Fallible Op Ans ε α)
    (s : σ) (result : Except ε α) (s' : σ) : Prop := Program.Runs responds rely x s result s'

/-- A fallible program performs only operations of the set. -/
abbrev All (allowed : Op → Prop) (x : Fallible Op Ans ε α) : Prop := Program.All allowed x

variable {responds : Behaviour Op Ans σ} {rely : σ → σ → Prop}

variable {a : α} {s s' : σ} {result : Except ε α} {x : Fallible Op Ans ε α}
  {f : α → Fallible Op Ans ε β} {e : ε}

/-- Returning makes no call. -/
theorem runs_pure {r : Except ε α} :
    Runs responds rely (pure a : Fallible Op Ans ε α) s r s' ↔ r = .ok a ∧ s' = s := runs_done

theorem runs_ofResult {r : Except ε α} :
    Runs responds rely (ofResult result : Fallible Op Ans ε α) s r s' ↔ r = result ∧ s' = s :=
  runs_done

theorem runs_perform {op : Op} {r : Except ε (Ans op)} :
    Runs responds rely (perform op : Fallible Op Ans ε (Ans op)) s r s' ↔
      ∃ answer s₁, r = .ok answer ∧ rely s s₁ ∧ responds op s₁ answer s' := by
  constructor
  · intro h
    cases h with
    | call hrely hresponds hnext =>
      obtain ⟨rfl, rfl⟩ := runs_done.mp hnext
      exact ⟨_, _, rfl, hrely, hresponds⟩
  · rintro ⟨answer, s₁, rfl, hrely, hresponds⟩
    exact .call hrely hresponds (.done _ _)

theorem runs_bind_ok {b : β} :
    Runs responds rely (x >>= f) s (.ok b) s' ↔
      ∃ a s₁, Runs responds rely x s (.ok a) s₁ ∧ Runs responds rely (f a) s₁ (.ok b) s' := by
  refine runs_bind.trans ⟨?_, ?_⟩
  · rintro ⟨result, s₁, hx, hf⟩
    cases result with
    | error e => cases (runs_done.mp hf).1
    | ok a => exact ⟨a, s₁, hx, hf⟩
  · rintro ⟨a, s₁, hx, hf⟩
    exact ⟨.ok a, s₁, hx, hf⟩

theorem runs_ofResult_bind_ok {x : Except ε α} {b : β} :
    Runs responds rely (ofResult x >>= f) s (.ok b) s' ↔
      ∃ a, x = .ok a ∧ Runs responds rely (f a) s (.ok b) s' := by
  rw [runs_bind_ok]
  constructor
  · rintro ⟨a, s₁, hx, hf⟩
    obtain ⟨hok, rfl⟩ := runs_ofResult.mp hx
    exact ⟨a, hok.symm, hf⟩
  · rintro ⟨a, hx, hf⟩
    exact ⟨a, s, runs_ofResult.mpr ⟨hx.symm, rfl⟩, hf⟩

/-- A sequence fails in its first part, or in its second after the first succeeded. -/
theorem runs_bind_error :
    Runs responds rely (x >>= f) s (.error e) s' ↔
      Runs responds rely x s (.error e) s' ∨
        ∃ a s₁, Runs responds rely x s (.ok a) s₁ ∧ Runs responds rely (f a) s₁ (.error e) s' := by
  refine runs_bind.trans ⟨?_, ?_⟩
  · rintro ⟨result, s₁, hx, hf⟩
    cases result with
    | error e' =>
      obtain ⟨he, rfl⟩ := runs_done.mp hf
      cases he
      exact .inl hx
    | ok a => exact .inr ⟨a, s₁, hx, hf⟩
  · rintro (hx | ⟨a, s₁, hx, hf⟩)
    · exact ⟨.error e, s', hx, .done _ _⟩
    · exact ⟨.ok a, s₁, hx, hf⟩

/-- A sequence ends with the error of its first part or as its second part does. -/
theorem runs_bind_cases {result : Except ε β} (h : Runs responds rely (x >>= f) s result s') :
    (∃ e, result = .error e ∧ Runs responds rely x s (.error e) s') ∨
      ∃ a s₁, Runs responds rely x s (.ok a) s₁ ∧ Runs responds rely (f a) s₁ result s' := by
  cases result with
  | ok b => exact .inr (runs_bind_ok.mp h)
  | error e => exact (runs_bind_error.mp h).imp (fun hx => ⟨e, rfl, hx⟩) id

/-- Renaming errors changes no call. -/
theorem runs_mapError {f : ε → ε'} {r : Except ε' α} :
    Runs responds rely (mapError f x) s r s' ↔
      ∃ r₀, Runs responds rely x s r₀ s' ∧ r = r₀.mapError f := by
  refine runs_bind.trans ⟨?_, ?_⟩
  · rintro ⟨r₀, s₁, hx, hr⟩
    obtain ⟨rfl, rfl⟩ := runs_done.mp hr
    exact ⟨r₀, hx, rfl⟩
  · rintro ⟨r₀, hx, rfl⟩
    exact ⟨r₀, s', hx, .done _ _⟩

theorem runs_mapError_ok {f : ε → ε'} :
    Runs responds rely (mapError f x) s (.ok a) s' ↔ Runs responds rely x s (.ok a) s' := by
  rw [runs_mapError]
  constructor
  · rintro ⟨r₀, hx, hr⟩
    rwa [mapError_eq_ok.mp hr.symm] at hx
  · exact fun hx => ⟨.ok a, hx, rfl⟩

theorem runs_attempt {r : Except ε' (Except ε α)} :
    Runs responds rely (attempt x : Fallible Op Ans ε' _) s r s' ↔
      ∃ result, r = .ok result ∧ Runs responds rely x s result s' := by
  refine runs_bind.trans ⟨?_, ?_⟩
  · rintro ⟨result, s₁, hx, hr⟩
    obtain ⟨rfl, rfl⟩ := runs_done.mp hr
    exact ⟨result, rfl, hx⟩
  · rintro ⟨result, rfl, hx⟩
    exact ⟨result, s', hx, .done _ _⟩

variable {allowed : Op → Prop}

theorem all_ofResult (result : Except ε α) :
    (ofResult result : Fallible Op Ans ε α).All allowed := trivial

theorem all_perform {op : Op} (h : allowed op) :
    (perform op : Fallible Op Ans ε (Ans op)).All allowed := ⟨h, fun _ => trivial⟩

theorem all_bind (hx : x.All allowed) (hf : ∀ a, (f a).All allowed) : All allowed (x >>= f) := by
  refine Program.All.bind hx fun result => ?_
  cases result with
  | error e => trivial
  | ok a => exact hf a

theorem all_mapError {f : ε → ε'} (hx : x.All allowed) :
    (mapError f x).All allowed := Program.All.bind hx fun _ => trivial

theorem all_attempt (hx : x.All allowed) :
    All allowed (attempt x : Fallible Op Ans ε' _) := Program.All.bind hx fun _ => trivial

/-- Every error of the program satisfies `post`. -/
def Errors (post : ε → Prop) (x : Fallible Op Ans ε α) : Prop :=
  Program.Ends (fun result => ∀ e, result = .error e → post e) x

variable {post : ε → Prop}

theorem Runs.errors (h : Runs responds rely x s (.error e) s') (hx : x.Errors post) : post e :=
  Program.Runs.ends h hx e rfl

theorem errors_ofResult (h : ∀ e, result = .error e → post e) :
    (ofResult result : Fallible Op Ans ε α).Errors post := h

/-- Returning gives no error. -/
theorem errors_pure (a : α) : (pure a : Fallible Op Ans ε α).Errors post :=
  fun e h => by cases h

theorem errors_perform (op : Op) : (perform op : Fallible Op Ans ε (Ans op)).Errors post :=
  fun _ e h => by cases h

theorem errors_bind (hx : x.Errors post) (hf : ∀ a, (f a).Errors post) : Errors post (x >>= f) := by
  refine Program.Ends.bind hx fun result hresult => ?_
  cases result with
  | error e =>
    intro e' h
    cases h
    exact hresult e rfl
  | ok a => exact hf a

theorem errors_mapError {f : ε' → ε} (h : ∀ e, post (f e)) (x : Fallible Op Ans ε' α) :
    (mapError f x).Errors post := by
  refine Program.Ends.bind (Program.ends_true x) fun result _ => ?_
  intro e he
  cases result with
  | error e' =>
    cases he
    exact h e'
  | ok a => cases he

theorem Errors.mapError {f : ε' → ε} {x : Fallible Op Ans ε' α}
    (hx : x.Errors fun e => post (f e)) : (mapError f x).Errors post := by
  refine Program.Ends.bind hx fun result hresult => ?_
  intro e he
  cases result with
  | error e' =>
    cases he
    exact hresult e' rfl
  | ok a => cases he

/-- An attempt gives no error. -/
theorem errors_attempt {x : Fallible Op Ans ε' α} :
    Errors post (attempt x : Fallible Op Ans ε _) := by
  refine Program.Ends.bind (Program.ends_true x) fun result _ => ?_
  intro e he
  cases he

variable {handler : (op : Op) → σ → Ans op × σ} {before mid after : σ → Prop}

/-- With this handler, from a state with `before`, the program ends with `result` in a state
with `after`. -/
def Yields (handler : (op : Op) → σ → Ans op × σ) (before : σ → Prop) (x : Fallible Op Ans ε α)
    (result : Except ε α) (after : σ → Prop) : Prop :=
  ∀ s, before s → (x.runWith handler s).1 = result ∧ after (x.runWith handler s).2

theorem yields_ofResult (result : Except ε α) :
    Yields handler before (ofResult result : Fallible Op Ans ε α) result before :=
  fun _ h => ⟨rfl, h⟩

/-- Returning leaves the state. -/
theorem yields_pure (a : α) :
    Yields handler before (pure a : Fallible Op Ans ε α) (.ok a) before := yields_ofResult _

/-- A handler's answer to one call. -/
theorem yields_perform {op : Op} {answer : Ans op}
    (h : ∀ s, before s → (handler op s).1 = answer ∧ after (handler op s).2) :
    Yields handler before (perform op : Fallible Op Ans ε (Ans op)) (.ok answer) after :=
  fun s hs => ⟨congrArg Except.ok (h s hs).1, (h s hs).2⟩

theorem Yields.bind {result : Except ε β} (hx : Yields handler before x (.ok a) mid)
    (hf : Yields handler mid (f a) result after) :
    Yields handler before (x >>= f) result after := by
  intro s hs
  obtain ⟨hresult, hmid⟩ := hx s hs
  have hrun := runWith_bind handler x (proceed f) s
  rw [hresult] at hrun
  have hnext := hf _ hmid
  rwa [← show _ = runWith handler (f a) _ from hrun] at hnext

/-- An error ends the sequence. -/
theorem Yields.bind_error (hx : Yields handler before x (.error e) after) :
    Yields handler before (x >>= f) (.error e) after := by
  intro s hs
  obtain ⟨hresult, hafter⟩ := hx s hs
  have hrun := runWith_bind handler x (proceed f) s
  rw [hresult] at hrun
  exact ⟨congrArg Prod.fst hrun, (congrArg Prod.snd hrun).symm ▸ hafter⟩

theorem Yields.mapError {f : ε → ε'} (hx : Yields handler before x result after) :
    Yields handler before (mapError f x) (result.mapError f) after := by
  intro s hs
  obtain ⟨hresult, hafter⟩ := hx s hs
  have hrun := runWith_bind handler x (fun result => .done (result.mapError f)) s
  rw [hresult] at hrun
  exact ⟨congrArg Prod.fst hrun, (congrArg Prod.snd hrun).symm ▸ hafter⟩

theorem Yields.attempt (hx : Yields handler before x result after) :
    Yields handler before (attempt x : Fallible Op Ans ε' _) (.ok result) after := by
  intro s hs
  obtain ⟨hresult, hafter⟩ := hx s hs
  have hrun := runWith_bind handler x
    (fun result => .done (.ok result : Except ε' (Except ε α))) s
  rw [hresult] at hrun
  exact ⟨congrArg Prod.fst hrun, (congrArg Prod.snd hrun).symm ▸ hafter⟩

/-- The environment that answers by a function lets the program succeed. -/
def Succeeds (handler : (op : Op) → σ → Ans op × σ) (x : Fallible Op Ans ε α) (s : σ) : Prop :=
  ∃ a s', x.runWith handler s = (.ok a, s')

theorem Succeeds.bind (hx : Succeeds handler x s)
    (hf : ∀ a s', x.runWith handler s = (.ok a, s') → Succeeds handler (f a) s') :
    Succeeds handler (x >>= f) s := by
  obtain ⟨a, s', hrun⟩ := hx
  obtain ⟨b, s'', hnext⟩ := hf a s' hrun
  refine ⟨b, s'', (runWith_bind handler x (proceed f) s).trans ?_⟩
  rw [hrun]
  exact hnext

theorem succeeds_ofResult_bind {x : Except ε α} (hx : x = .ok a) (hf : Succeeds handler (f a) s) :
    Succeeds handler (ofResult x >>= f) s := by
  rw [hx]
  exact hf

end Fallible

end Leelo.Core
