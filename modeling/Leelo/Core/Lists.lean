import Mathlib.Algebra.BigOperators.Group.List.Basic
import Mathlib.Algebra.GroupWithZero.Nat
import Mathlib.Data.List.Forall2
import Mathlib.Data.List.Nodup

/-!
# Keyed lists

A list whose keys are pairwise distinct holds each entry under its own key, and
related lists have a partner for every entry.
-/

namespace Leelo.Core

variable {α β : Type}

variable {entries : List α} {entry : α}

/-- Under distinct keys, looking up an entry's key finds that entry. -/
theorem find?_key [BEq β] [LawfulBEq β] (key : α → β) (hnodup : (entries.map key).Nodup)
    (h : entry ∈ entries) :
    entries.find? (fun other => key other == key entry) = some entry := by
  induction entries with
  | nil => exact absurd h List.not_mem_nil
  | cons first entries ih =>
    rw [List.map_cons, List.nodup_cons] at hnodup
    rcases List.mem_cons.mp h with rfl | h
    · exact List.find?_cons_of_pos (beq_self_eq_true _)
    · have hne : key first ≠ key entry := fun he => hnodup.1 (he ▸ List.mem_map_of_mem h)
      rw [List.find?_cons, beq_eq_false_iff_ne.mpr hne]
      exact ih hnodup.2 h

/-- A distinct key finds the place of its entry. -/
theorem findIdx?_key [BEq β] [LawfulBEq β] (key : α → β) (hnodup : (entries.map key).Nodup)
    {index : Nat} (h : entries[index]? = some entry) :
    entries.findIdx? (fun other => key other == key entry) = some index := by
  obtain ⟨hlt, rfl⟩ := List.getElem?_eq_some_iff.mp h
  refine List.findIdx?_eq_some_iff_getElem.mpr ⟨hlt, beq_self_eq_true _, fun j hj hsame => ?_⟩
  have hkeys : (entries.map key)[j]? = (entries.map key)[index]? := by
    rw [List.getElem?_map, List.getElem?_map, List.getElem?_eq_getElem (Nat.lt_trans hj hlt),
      List.getElem?_eq_getElem hlt]
    exact congrArg some (beq_iff_eq.mp hsame)
  have hlength : j < (entries.map key).length := by
    rw [List.length_map]
    exact Nat.lt_trans hj hlt
  exact Nat.ne_of_lt hj ((List.getElem?_inj hlength hnodup).mp hkeys)

/-- Every entry of a list has a partner in a related list. -/
theorem exists_of_forall₂ {R : α → β → Prop} {as : List α} {bs : List β}
    (h : List.Forall₂ R as bs) {a : α} (ha : a ∈ as) : ∃ b ∈ bs, R a b := by
  induction h with
  | nil => exact absurd ha List.not_mem_nil
  | cons hab _ ih =>
    rcases List.mem_cons.mp ha with rfl | ha
    · exact ⟨_, List.mem_cons_self, hab⟩
    · obtain ⟨b, hb, hr⟩ := ih ha
      exact ⟨b, List.mem_cons_of_mem _ hb, hr⟩

/-- In a zip of lists of one length every right entry has a left partner. -/
theorem exists_mem_zip {as : List α} {bs : List β} (h : bs.length ≤ as.length) {b : β}
    (hb : b ∈ bs) : ∃ a, (a, b) ∈ as.zip bs := by
  rw [← List.map_snd_zip h] at hb
  obtain ⟨⟨a, b'⟩, hmem, rfl⟩ := List.mem_map.mp hb
  exact ⟨a, hmem⟩

/-- A search for the only element of its kind finds it. -/
theorem find?_unique {p : α → Bool} (hmem : entry ∈ entries) (h : p entry = true)
    (honly : ∀ other ∈ entries, p other = true → other = entry) :
    entries.find? p = some entry := by
  obtain ⟨found, hfound⟩ := Option.isSome_iff_exists.mp (List.find?_isSome.mpr ⟨entry, hmem, h⟩)
  rw [hfound, honly found (List.mem_of_find?_eq_some hfound) (List.find?_some hfound)]

/-- A table with an entry at most for each element has, under the key of one that no other
element shares, that element's entry. -/
theorem lookup_filterMap {α β κ : Type} [BEq κ] [LawfulBEq κ] {key : α → κ} {f : α → Option β}
    {elements : List α} {a : α} (hkey : ∀ b ∈ elements, key a = key b → a = b)
    (ha : a ∈ elements ∨ f a = none) :
    (elements.filterMap fun b => (f b).map fun value => (key b, value)).lookup (key a) = f a := by
  induction elements with
  | nil => exact (ha.resolve_left List.not_mem_nil).symm
  | cons b rest ih =>
    have hrest : a ∈ rest ∨ f a = none → _ := ih fun c hc => hkey c (List.mem_cons_of_mem _ hc)
    by_cases hb : a = b
    · subst hb
      cases hf : f a with
      | none =>
        rw [List.filterMap_cons_none (by rw [hf]; rfl), hrest (.inr hf), hf]
      | some value =>
        rw [List.filterMap_cons_some (by rw [hf]; rfl), List.lookup_cons_self]
    · have hmem : a ∈ rest ∨ f a = none :=
        ha.imp_left fun h => (List.mem_cons.mp h).resolve_left hb
      cases hf : f b with
      | none => rw [List.filterMap_cons_none (by rw [hf]; rfl), hrest hmem]
      | some value =>
        have hne : (key a == key b) = false :=
          beq_eq_false_iff_ne.mpr fun h => hb (hkey b List.mem_cons_self h)
        rw [List.filterMap_cons_some (by rw [hf]; rfl), List.lookup_cons, hne, hrest hmem]

/-- A sum changes by what one of its terms changes. -/
theorem sum_map_update {α : Type} [DecidableEq α] {elements : List α} (hnodup : elements.Nodup)
    {a : α} (ha : a ∈ elements) {g : α → Nat} (hzero : g a = 0) (value : Nat) :
    (elements.map (Function.update g a value)).sum = (elements.map g).sum + value := by
  induction elements with
  | nil => cases ha
  | cons b rest ih =>
    obtain ⟨hfresh, hrest⟩ := List.nodup_cons.mp hnodup
    simp only [List.map_cons, List.sum_cons]
    by_cases hb : b = a
    · subst hb
      have hsame : rest.map (Function.update g b value) = rest.map g :=
        List.map_congr_left fun c hc => Function.update_of_ne (ne_of_mem_of_not_mem hc hfresh) _ _
      rw [Function.update_self, hsame, hzero]
      omega
    · rw [Function.update_of_ne hb, ih hrest ((List.mem_cons.mp ha).resolve_left (Ne.symm hb))]
      omega

/-- A function is injective if its values on a list of everything are distinct. -/
theorem injective_of_nodup_map {f : α → β} {elements : List α} (hall : ∀ a, a ∈ elements)
    (h : (elements.map f).Nodup) : Function.Injective f :=
  fun a b hab => List.inj_on_of_nodup_map h (hall a) (hall b) hab

private theorem sum_map_toNat (p : α → Bool) (elements : List α) :
    (elements.map fun a => (p a).toNat).sum = elements.countP p := by
  induction elements with
  | nil => rfl
  | cons a elements ih =>
    rw [List.map_cons, List.sum_cons, ih, List.countP_cons]
    cases p a <;> simp [Nat.add_comm]

private theorem countP_cons_toNat (p : α → Bool) (a : α) (elements : List α) :
    (a :: elements).countP p = elements.countP p + (p a).toNat := by
  rw [List.countP_cons]
  cases p a <;> rfl

/-- The elements of a kind are counted under their labels. -/
theorem sum_countP_labels [DecidableEq α] [DecidableEq β] {f : β → α} (hf : Function.Injective f)
    {labels : List β} (hnodup : labels.Nodup) (hall : ∀ label, label ∈ labels) {p : α → Bool}
    (hp : ∀ a, p a ↔ ∃ label, a = f label) (elements : List α) :
    (labels.map fun label => elements.countP (· = f label)).sum = elements.countP p := by
  induction elements with
  | nil => simp
  | cons a elements ih =>
    have hlabels : (labels.map fun label => (decide (a = f label)).toNat).sum = (p a).toNat := by
      rw [sum_map_toNat]
      by_cases ha : ∃ label, a = f label
      · obtain ⟨label, rfl⟩ := ha
        have hone : labels.countP (fun other => f label = f other) = labels.count label :=
          List.countP_congr fun other _ => by
            rw [decide_eq_true_iff, beq_iff_eq, hf.eq_iff, eq_comm]
        rw [(hp _).mpr ⟨label, rfl⟩, hone, List.count_eq_one_of_mem hnodup (hall label)]
        rfl
      · rw [Bool.eq_false_iff.mpr fun h => ha ((hp a).mp h), List.countP_eq_zero.mpr]
        · rfl
        · intro label _ heq
          exact ha ⟨label, of_decide_eq_true heq⟩
    simp only [countP_cons_toNat]
    rw [List.sum_map_add, ih, hlabels]

theorem min?_perm {times times' : List Nat} (h : times.Perm times') : times.min? = times'.min? := by
  cases hmin : times.min? with
  | none =>
    rw [List.min?_eq_none_iff.mp hmin] at h
    rw [← h.nil_eq]
    rfl
  | some least =>
    rw [List.min?_eq_some_iff] at hmin
    refine (List.min?_eq_some_iff.mpr ⟨h.mem_iff.mp hmin.1, fun time htime => ?_⟩).symm
    exact hmin.2 time (h.mem_iff.mpr htime)

/-- The least element of a list stands for it. -/
theorem min?_toList_append (times times' : List Nat) :
    (times.min?.toList ++ times').min? = (times ++ times').min? := by
  cases times with
  | nil => rfl
  | cons time times =>
    rw [List.min?_cons', Option.toList_some, List.singleton_append, List.min?_cons',
      List.cons_append, List.min?_cons', List.foldl_append]

end Leelo.Core
