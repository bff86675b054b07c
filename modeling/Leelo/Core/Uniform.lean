import Mathlib.Probability.Distributions.Uniform

/-!
# Observations of a uniform source

Two observations of one finite source that agree along a bijection of the source
have the same distribution under the uniform law.
-/

namespace Leelo.Core

variable {α β : Type*} [Fintype α] [Nonempty α]

/-- A permutation keeps the uniform law. -/
theorem uniform_map_equiv (e : α ≃ α) :
    (PMF.uniformOfFintype α).map e = PMF.uniformOfFintype α := by
  ext b
  rw [PMF.map_apply, tsum_eq_single (e.symm b)]
  · simp
  · intro a ha
    rw [if_neg]
    rintro rfl
    exact ha (e.symm_apply_apply a).symm

/-- Observations related by a bijection of the source are equally distributed. -/
theorem uniform_map_eq_of_equiv {f g : α → β} (e : α ≃ α) (h : ∀ a, f a = g (e a)) :
    (PMF.uniformOfFintype α).map f = (PMF.uniformOfFintype α).map g := by
  have hf : f = g ∘ e := funext h
  rw [hf, ← PMF.map_comp, uniform_map_equiv]

end Leelo.Core
