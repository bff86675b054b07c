import Mathlib.Data.List.Nodup
import Mathlib.Data.Nat.Basic

/-!
# Bounded counters and windows

A counter of 64 bits stops at its largest value. A window keeps the last elements that
were pushed, up to its capacity. An element leaves it only after as many later pushes as
the capacity.
-/

namespace Leelo.Core

/-- The largest 64-bit word. -/
def maxU64 : Nat := 18446744073709551615

/-- Addition that stops at the largest word. -/
def saturatingAdd (a b : Nat) : Nat := min (a + b) maxU64

theorem saturatingAdd_of_lt {a b : Nat} (h : saturatingAdd a b < maxU64) :
    saturatingAdd a b = a + b := by
  unfold saturatingAdd at h ⊢
  omega

/-- A counter never falls. -/
theorem le_saturatingAdd {a b : Nat} (h : a ≤ maxU64) : a ≤ saturatingAdd a b :=
  Nat.le_min.mpr ⟨Nat.le_add_right a b, h⟩

theorem saturatingAdd_mono {a a' b b' : Nat} (ha : a ≤ a') (hb : b ≤ b') :
    saturatingAdd a b ≤ saturatingAdd a' b' := by
  unfold saturatingAdd
  omega

namespace Window

variable {α : Type} {capacity : Nat} {window window' history : List α} {x y : α}
  {dropped : Option α} {mem : α → Prop}

/-- Push an element; a full window drops its oldest one. -/
inductive Push (capacity : Nat) (x : α) : List α → List α → Option α → Prop
  | room {window : List α} (h : window.length < capacity) :
      Push capacity x window (window ++ [x]) none
  | full {oldest : α} {window : List α} (h : (oldest :: window).length = capacity) :
      Push capacity x (oldest :: window) (window ++ [x]) (some oldest)

theorem Push.mem_dropped (h : Push capacity x window window' (some y)) : y ∈ window := by
  cases h with
  | full => exact List.mem_cons_self

/-- The window has no duplicates, keeps its capacity and lists the elements of a set. -/
structure Tracks (capacity : Nat) (window : List α) (mem : α → Prop) : Prop where
  nodup : window.Nodup
  length_le : window.length ≤ capacity
  mem_iff : ∀ x, x ∈ window ↔ mem x

theorem Tracks.congr {mem' : α → Prop} (h : Tracks capacity window mem)
    (hmem : ∀ x, mem x ↔ mem' x) : Tracks capacity window mem' :=
  ⟨h.nodup, h.length_le, fun x => (h.mem_iff x).trans (hmem x)⟩

/-- A push keeps the window and the predicate in step. -/
theorem Tracks.push (h : Tracks capacity window mem)
    (hpush : Push capacity x window window' dropped) (hx : ¬ mem x) :
    Tracks capacity window' fun y => y = x ∨ mem y ∧ dropped ≠ some y := by
  have hnotMem : x ∉ window := fun hmem => hx ((h.mem_iff x).mp hmem)
  have hnodup : (window ++ [x]).Nodup := by
    rw [← List.concat_eq_append]
    exact h.nodup.concat hnotMem
  cases hpush with
  | room hroom =>
    refine ⟨hnodup, ?_, fun y => ?_⟩
    · rw [List.length_append, List.length_singleton]
      omega
    · rw [List.mem_append, List.mem_singleton, h.mem_iff, or_comm]
      simp
  | @full oldest rest hfull =>
    have holdest : oldest ∉ rest := (List.nodup_cons.mp h.nodup).1
    refine ⟨(List.nodup_cons.mp hnodup).2, ?_, fun y => ?_⟩
    · rw [List.length_append, List.length_singleton, ← hfull, List.length_cons]
    · rw [List.mem_append, List.mem_singleton, or_comm, ← h.mem_iff, List.mem_cons, ne_eq,
        Option.some.injEq]
      constructor
      · rintro (rfl | hmem)
        · exact .inl rfl
        · exact .inr ⟨.inr hmem, fun heq => holdest (heq ▸ hmem)⟩
      · rintro (rfl | ⟨rfl | hmem, hne⟩)
        · exact .inl rfl
        · exact absurd rfl hne
        · exact .inr hmem

/-- The last elements of a history, up to the capacity. -/
def recent (capacity : Nat) (history : List α) : List α := history.drop (history.length - capacity)

theorem exists_append_recent (capacity : Nat) (history : List α) :
    ∃ older, history = older ++ recent capacity history :=
  ⟨_, (List.take_append_drop _ _).symm⟩

/-- A push onto the recent part gives the recent part of the longer history. -/
theorem Push.recent (hpush : Push capacity x (Window.recent capacity history) window' dropped) :
    window' = Window.recent capacity (history ++ [x]) := by
  have hlength : (Window.recent capacity history).length = min history.length capacity := by
    rw [Window.recent, List.length_drop]
    omega
  generalize hwindow : Window.recent capacity history = window at hpush hlength
  unfold Window.recent at hwindow ⊢
  rw [List.length_append, List.length_singleton]
  cases hpush with
  | room hroom =>
    have hsmall : history.length < capacity := by omega
    rw [← hwindow, Nat.sub_eq_zero_of_le (Nat.le_of_lt hsmall), Nat.sub_eq_zero_of_le hsmall]
    rfl
  | @full oldest rest hfull =>
    have hlarge : history.length + 1 - capacity = history.length - capacity + 1 := by omega
    have hpositive : history.length + 1 - capacity ≤ history.length := by
      rw [List.length_cons] at hfull
      omega
    rw [List.drop_append_of_le_length hpositive, hlarge, ← List.drop_drop, hwindow]
    rfl

/-- An element that is no longer in the window has been followed by enough others. -/
theorem capacity_le_of_notMem [DecidableEq α] {before after : List α}
    (hx : x ∉ recent capacity (before ++ x :: after)) :
    capacity ≤ (after.filter (· ≠ x)).length := by
  by_cases hmem : x ∈ after
  · -- the last occurrence decides
    obtain ⟨middle, last, rfl⟩ := List.mem_iff_append.mp hmem
    have hgone : x ∉ recent capacity ((before ++ x :: middle) ++ x :: last) := by
      rwa [List.append_assoc, List.cons_append]
    have hlast := capacity_le_of_notMem hgone
    rw [List.filter_append, List.length_append, List.filter_cons_of_neg (by simp)]
    omega
  · have hall : after.filter (· ≠ x) = after :=
      List.filter_eq_self.mpr fun y hy => decide_eq_true fun heq => hmem (heq ▸ hy)
    rw [hall]
    by_contra hshort
    apply hx
    have hdrop : (before ++ x :: after).length - capacity ≤ before.length := by
      rw [List.length_append, List.length_cons]
      omega
    rw [recent, List.drop_append_of_le_length hdrop]
    exact List.mem_append_right _ List.mem_cons_self
termination_by after.length

end Window

end Leelo.Core
