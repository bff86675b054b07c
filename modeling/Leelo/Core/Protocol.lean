import Mathlib.Algebra.BigOperators.Group.List.Basic
import Mathlib.Algebra.Order.Group.Int
import Mathlib.Algebra.Ring.Int.Defs
import Mathlib.Data.List.Induction
import Leelo.Core.Interleaving

/-!
# Programs that follow a protocol

Operations have effects, and a protocol says which effects may come next. A program follows
the protocol if no answers lead it to a forbidden effect. Interleaved programs with one log
of their effects have each a part of the log that the protocol accepts. An inequality between
numbers of effects that holds in every part holds in the log.
-/

namespace Leelo.Core

section Effects

variable {ε B : Type} {protocol : B → ε → Option B}

/-- The state after some effects, if the protocol allows them. -/
def advance (protocol : B → ε → Option B) : B → List ε → Option B
  | b, [] => some b
  | b, effect :: effects => (protocol b effect).bind fun b' => advance protocol b' effects

theorem advance_append (b : B) (effects effects' : List ε) :
    advance protocol b (effects ++ effects') =
      (advance protocol b effects).bind fun b' => advance protocol b' effects' := by
  induction effects generalizing b with
  | nil => rfl
  | cons effect effects ih =>
    rw [List.cons_append, advance, advance, Option.bind_assoc]
    exact Option.bind_congr fun b' _ => ih b'

/-- What holds at first and is kept by every allowed effect holds after all of them. -/
theorem advance_invariant {holds : List ε → B → Prop} {first b : B} {effects : List ε}
    (hfirst : holds [] first)
    (hstep : ∀ {before effect b b'}, holds before b → protocol b effect = some b' →
      holds (before ++ [effect]) b') (h : advance protocol first effects = some b) :
    holds effects b := by
  induction effects using List.reverseRecOn generalizing b with
  | nil =>
    cases h
    exact hfirst
  | append_singleton effects effect ih =>
    rw [advance_append, Option.bind_eq_some_iff] at h
    obtain ⟨b₁, hbefore, hlast⟩ := h
    obtain ⟨b₂, hnext, hend⟩ := Option.bind_eq_some_iff.mp hlast
    cases hend
    exact hstep (ih hbefore) hnext

end Effects

section Logs

variable {ι ε : Type} [DecidableEq ι]

/-- The effects of one program. -/
def part (log : List (ι × ε)) (i : ι) : List ε :=
  (log.filter fun entry => entry.1 = i).map Prod.snd

theorem part_append (log log' : List (ι × ε)) (i : ι) :
    part (log ++ log') i = part log i ++ part log' i := by
  rw [part, List.filter_append, List.map_append]
  rfl

theorem part_own (i : ι) (effects : List ε) :
    part (effects.map fun effect => (i, effect)) i = effects := by
  induction effects with
  | nil => rfl
  | cons effect effects ih =>
    rw [List.map_cons, part, List.filter_cons_of_pos (by simp), List.map_cons]
    exact congrArg (effect :: ·) ih

theorem part_other {i j : ι} (h : j ≠ i) (effects : List ε) :
    part (effects.map fun effect => (i, effect)) j = [] := by
  rw [part, List.filter_eq_nil_iff.mpr, List.map_nil]
  rintro entry hentry
  obtain ⟨effect, -, rfl⟩ := List.mem_map.mp hentry
  simpa using Ne.symm h

/-- The weight of a whole log. -/
def totalWeight (weight : ε → ℤ) (log : List (ι × ε)) : ℤ :=
  (log.map fun entry => weight entry.2).sum

/-- The entries of one program, and those of the others. -/
private theorem totalWeight_split (weight : ε → ℤ) (log : List (ι × ε)) (i : ι) :
    totalWeight weight log = ((part log i).map weight).sum +
      totalWeight weight (log.filter fun entry => ¬entry.1 = i) := by
  induction log with
  | nil => rfl
  | cons entry log ih =>
    have hcons : totalWeight weight (entry :: log) = weight entry.2 + totalWeight weight log := by
      rw [totalWeight, List.map_cons, List.sum_cons]
      rfl
    by_cases hentry : entry.1 = i
    · have hpart : part (entry :: log) i = entry.2 :: part log i := by
        rw [part, List.filter_cons_of_pos (by simpa using hentry), List.map_cons]
        rfl
      rw [hcons, hpart, List.map_cons, List.sum_cons,
        List.filter_cons_of_neg (by simpa using hentry),
        ih, add_assoc]
    · have hpart : part (entry :: log) i = part log i := by
        rw [part, List.filter_cons_of_neg (by simpa using hentry)]
        rfl
      rw [hcons, hpart, List.filter_cons_of_pos (by simpa using hentry), ih]
      simp only [totalWeight, List.map_cons, List.sum_cons]
      omega

variable {log : List (ι × ε)} {p q : ε → Bool}

/-- A weight that is negative on no part is not negative. -/
theorem totalWeight_nonneg {weight : ε → ℤ} (h : ∀ i, 0 ≤ ((part log i).map weight).sum) :
    0 ≤ totalWeight weight log := by
  induction hlength : log.length using Nat.strong_induction_on generalizing log with
  | _ length ih =>
    cases log with
    | nil => exact le_refl 0
    | cons entry log =>
      -- The entries of the first one's program are split off; fewer entries remain.
      let others := (entry :: log).filter fun other => ¬other.1 = entry.1
      have hparts : ∀ i, 0 ≤ ((part others i).map weight).sum := by
        intro i
        by_cases hi : i = entry.1
        · have hnone : part others i = [] := by
            rw [part, List.filter_filter, List.filter_eq_nil_iff.mpr, List.map_nil]
            intro other _
            simp [hi]
          rw [hnone, List.map_nil, List.sum_nil]
        · have hsame : part others i = part (entry :: log) i := by
            rw [part, part, List.filter_filter]
            congr 1
            refine List.filter_congr fun other _ => ?_
            by_cases hother : other.1 = i
            · simp [hother, hi]
            · simp [hother]
          rw [hsame]
          exact h i
      have hshorter : others.length < length := by
        rw [← hlength]
        exact List.length_filter_lt_length_iff_exists.mpr ⟨entry, List.mem_cons_self, by simp⟩
      have hrest := ih others.length hshorter hparts rfl
      have hfirst := h entry.1
      rw [totalWeight_split weight _ entry.1]
      exact add_nonneg hfirst hrest

private theorem sum_indicators {κ : Type} (p q p' q' : κ → Bool) (entries : List κ) :
    (entries.map fun entry => ((p' entry).toNat + (q' entry).toNat : ℤ) -
      ((p entry).toNat + (q entry).toNat)).sum =
      (entries.countP p' + entries.countP q' : ℤ) - (entries.countP p + entries.countP q) := by
  induction entries with
  | nil => rfl
  | cons entry entries ih =>
    have hcount : ∀ r : κ → Bool,
        ((entry :: entries).countP r : ℤ) = entries.countP r + (r entry).toNat := by
      intro r
      rw [List.countP_cons]
      cases r entry <;> rfl
    rw [List.map_cons, List.sum_cons, ih, hcount, hcount, hcount, hcount]
    omega

/-- An inequality between numbers of effects that holds in every part holds in the log. -/
theorem countP_add_le_of_part {p' q' : ε → Bool}
    (h : ∀ i, (part log i).countP p + (part log i).countP q ≤
      (part log i).countP p' + (part log i).countP q') :
    (log.countP fun entry => p entry.2) + (log.countP fun entry => q entry.2) ≤
      (log.countP fun entry => p' entry.2) + log.countP fun entry => q' entry.2 := by
  have hnonneg : 0 ≤ totalWeight (fun effect => ((p' effect).toNat + (q' effect).toNat : ℤ) -
      ((p effect).toNat + (q effect).toNat)) log := by
    refine totalWeight_nonneg fun i => ?_
    rw [sum_indicators p q p' q']
    have hi := h i
    omega
  rw [totalWeight, sum_indicators (fun entry : ι × ε => p entry.2) (fun entry => q entry.2)
    (fun entry => p' entry.2) fun entry => q' entry.2] at hnonneg
  omega

theorem countP_le_of_part (h : ∀ i, (part log i).countP p ≤ (part log i).countP q) :
    (log.countP fun entry => p entry.2) ≤ log.countP fun entry => q entry.2 := by
  have hsum : (log.countP fun entry => p entry.2) + (log.countP fun entry => p entry.2) ≤
      (log.countP fun entry => q entry.2) + log.countP fun entry => q entry.2 :=
    countP_add_le_of_part fun i => Nat.add_le_add (h i) (h i)
  omega

theorem countP_eq_of_part (h : ∀ i, (part log i).countP p = (part log i).countP q) :
    (log.countP fun entry => p entry.2) = log.countP fun entry => q entry.2 :=
  Nat.le_antisymm (countP_le_of_part fun i => (h i).le) (countP_le_of_part fun i => (h i).ge)

end Logs

namespace Program

variable {Op : Type} {Ans : Op → Type} {ε B α β : Type} {protocol : B → ε → Option B}
  {effects : (op : Op) → Ans op → List ε} {post : α → B → Prop} {b b' : B}

/-- Whatever the answers, the protocol allows the effects, and `post` holds at the end. -/
def Follows (protocol : B → ε → Option B) (effects : (op : Op) → Ans op → List ε)
    (post : α → B → Prop) : Program Op Ans α → B → Prop
  | .done a, b => post a b
  | .call op next, b => ∀ answer, ∃ b', advance protocol b (effects op answer) = some b' ∧
      Follows protocol effects post (next answer) b'

/-- Returning has no effect. -/
theorem follows_pure {a : α} (h : post a b) :
    Follows protocol effects post (pure a : Program Op Ans α) b := h

theorem follows_call {op : Op} {next : Ans op → Program Op Ans α}
    (hop : ∀ answer, advance protocol b (effects op answer) = some b')
    (hnext : ∀ answer, Follows protocol effects post (next answer) b') :
    Follows protocol effects post (.call op next) b :=
  fun answer => ⟨b', hop answer, hnext answer⟩

theorem Follows.mono {post' : α → B → Prop} {p : Program Op Ans α}
    (hp : Follows protocol effects post p b) (hpost : ∀ a b, post a b → post' a b) :
    Follows protocol effects post' p b := by
  induction p generalizing b with
  | done a => exact hpost a b hp
  | call op next ih =>
    intro answer
    obtain ⟨b', hop, hnext⟩ := hp answer
    exact ⟨b', hop, ih answer hnext⟩

/-- The rule of sequence. -/
theorem Follows.bind {p : Program Op Ans β} {f : β → Program Op Ans α} {mid : β → B → Prop}
    (hp : Follows protocol effects mid p b)
    (hf : ∀ a b', mid a b' → Follows protocol effects post (f a) b') :
    Follows protocol effects post (p >>= f) b := by
  induction p generalizing b with
  | done a => exact hf a b hp
  | call op next ih =>
    intro answer
    obtain ⟨b', hop, hnext⟩ := hp answer
    exact ⟨b', hop, ih answer hnext⟩

end Program

namespace System

variable {ι Op : Type} {Ans : Op → Type} {ε B α σ : Type} [DecidableEq ι]
  {responds : ι → Program.Behaviour Op Ans σ} {outside : σ → σ → Prop}
  {c c' : System ι Op Ans α σ} {protocol : B → ε → Option B}
  {effects : (op : Op) → Ans op → List ε} {post : α → B → Prop}

/-- Each program's part of the log leads to a state from which the rest of it follows the
protocol. -/
theorem Reaches.follows {log : σ → List (ι × ε)} {first : B}
    (hresponds : ∀ {i op s answer s'}, responds i op s answer s' →
      log s' = log s ++ (effects op answer).map fun effect => (i, effect))
    (houtside : ∀ {s s'}, outside s s' → log s' = log s) (hlog : log c.state = [])
    (hprograms : ∀ i, (c.programs i).Follows protocol effects post first)
    (h : Reaches responds outside c c') (i : ι) :
    ∃ b, advance protocol first (part (log c'.state) i) = some b ∧
      (c'.programs i).Follows protocol effects post b := by
  refine (Reaches.invariant (fun _ => True) (fun i s p => ∃ b,
    advance protocol first (part (log s) i) = some b ∧ p.Follows protocol effects post b)
    ?_ ?_ ?_ trivial ?_ h).2 i
  · rintro i op next s answer s' - ⟨b, hbook, hfollows⟩ hstep
    obtain ⟨b', hop, hnext⟩ := hfollows answer
    refine ⟨trivial, b', ?_, hnext⟩
    rw [hresponds hstep, part_append, part_own, advance_append, hbook, Option.bind_some, hop]
  · rintro i j op s answer s' p hji - hstep ⟨b, hbook, hfollows⟩
    refine ⟨b, ?_, hfollows⟩
    rw [hresponds hstep, part_append, part_other hji, List.append_nil, hbook]
  · rintro s s' - hstep
    rw [houtside hstep]
    exact ⟨trivial, fun i p hp => hp⟩
  · intro i
    exact ⟨first, by rw [hlog]; rfl, hprograms i⟩

end System

end Leelo.Core
