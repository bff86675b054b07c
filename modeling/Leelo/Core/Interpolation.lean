import Mathlib.LinearAlgebra.Lagrange

/-!
# Low-degree polynomials through finitely many points

Coefficient lists name polynomials, Lagrange weights evaluate them from
finitely many values, and distinct points determine them. The shift polynomial
moves the value at zero while fixing fewer points than the degree bound, which
is the algebra behind both reconstruction and secrecy of threshold sharing.
-/

namespace Leelo.Core

open Polynomial

variable {F : Type*} [Field F]

/-- The polynomial with the given coefficients, constant term first. -/
noncomputable def coeffPoly (cs : List F) : F[X] :=
  cs.foldr (fun c p => p * X + C c) 0

@[simp] theorem coeffPoly_nil : coeffPoly ([] : List F) = 0 := rfl

@[simp] theorem coeffPoly_cons (c : F) (cs : List F) :
    coeffPoly (c :: cs) = coeffPoly cs * X + C c := rfl

theorem degree_coeffPoly_lt (cs : List F) : (coeffPoly cs).degree < cs.length := by
  induction cs with
  | nil => simp
  | cons c cs ih =>
    rw [degree_lt_iff_coeff_zero] at ih ⊢
    intro m hm
    cases m with
    | zero => simp at hm
    | succ m =>
      rw [coeffPoly_cons, coeff_add, coeff_mul_X, coeff_C_succ, add_zero]
      exact ih m (by simpa using hm)

theorem coeff_coeffPoly (cs : List F) (i : ℕ) : (coeffPoly cs).coeff i = cs.getD i 0 := by
  induction cs generalizing i with
  | nil => simp
  | cons c cs ih =>
    cases i with
    | zero => simp
    | succ i => rw [coeffPoly_cons, coeff_add, coeff_mul_X, coeff_C_succ, add_zero, ih]; rfl

/-- Adding coefficient lists of one length adds their polynomials. -/
theorem coeffPoly_zipWith_add (as bs : List F) (h : as.length = bs.length) :
    coeffPoly (List.zipWith (· + ·) as bs) = coeffPoly as + coeffPoly bs := by
  induction as generalizing bs with
  | nil => simp [List.length_eq_zero_iff.mp h.symm]
  | cons a as ih =>
    cases bs with
    | nil => simp at h
    | cons b bs =>
      simp only [List.zipWith_cons_cons, coeffPoly_cons, ih bs (by simpa using h), C_add]
      ring

/-- Every polynomial of degree below `n` has a coefficient list of length `n`. -/
theorem exists_coeffPoly (n : ℕ) (p : F[X]) (hp : p.degree < n) :
    ∃ cs : List F, cs.length = n ∧ coeffPoly cs = p := by
  induction n generalizing p with
  | zero =>
    rw [degree_lt_iff_coeff_zero] at hp
    exact ⟨[], rfl, (Polynomial.ext fun m => by simpa using hp m (Nat.zero_le m)).symm⟩
  | succ n ih =>
    have hdiv : p.divX.degree < n := by
      rw [degree_lt_iff_coeff_zero] at hp ⊢
      exact fun m hm => by rw [coeff_divX]; exact hp (m + 1) (by omega)
    obtain ⟨cs, hlen, hcs⟩ := ih p.divX hdiv
    exact ⟨p.coeff 0 :: cs, by simp [hlen], by rw [coeffPoly_cons, hcs, divX_mul_X_add]⟩

section Weights

variable {n : ℕ} (v : Fin n → F) (t : F)

/-- The weight of node `i` when a polynomial is evaluated at `t` from its values
at the nodes. -/
def lagrangeWeight (i : Fin n) : F :=
  (∏ j ∈ Finset.univ.erase i, (t - v j)) * (∏ j ∈ Finset.univ.erase i, (v i - v j))⁻¹

theorem eval_basis_eq_weight (i : Fin n) :
    (Lagrange.basis Finset.univ v i).eval t = lagrangeWeight v t i := by
  rw [Lagrange.basis, eval_prod, lagrangeWeight, ← Finset.prod_inv_distrib,
    ← Finset.prod_mul_distrib]
  refine Finset.prod_congr rfl fun j _ => ?_
  simp only [Lagrange.basisDivisor, eval_mul, eval_C, eval_sub, eval_X]
  exact mul_comm _ _

/-- The weighted node values reproduce every polynomial of degree below the
number of distinct nodes, at every target. -/
theorem sum_eval_mul_weight (hv : Function.Injective v) {p : F[X]} (hp : p.degree < n) :
    ∑ i, p.eval (v i) * lagrangeWeight v t i = p.eval t := by
  have hcard : p.degree < (Finset.univ : Finset (Fin n)).card := by simpa using hp
  conv_rhs => rw [Lagrange.eq_interpolate hv.injOn hcard]
  rw [Lagrange.interpolate_apply, eval_finsetSum]
  refine Finset.sum_congr rfl fun i _ => ?_
  rw [eval_mul, eval_C, eval_basis_eq_weight]

/-- Arbitrary values at distinct nodes are the values of one low-degree polynomial. -/
theorem exists_poly_through (hv : Function.Injective v) (r : Fin n → F) :
    ∃ p : F[X], p.degree < n ∧ ∀ i, p.eval (v i) = r i := by
  refine ⟨Lagrange.interpolate Finset.univ v r, ?_, fun i => ?_⟩
  · simpa using Lagrange.degree_interpolate_lt r (s := Finset.univ) hv.injOn
  · exact Lagrange.eval_interpolate_at_node r hv.injOn (Finset.mem_univ i)

end Weights

/-- Distinct points, at least as many as the degree bound, determine a polynomial. -/
theorem poly_eq_of_eval_eq {t : ℕ} {p q : F[X]} (hp : p.degree < t) (hq : q.degree < t)
    {xs : List F} (hnodup : xs.Nodup) (hlen : t ≤ xs.length)
    (heval : ∀ x ∈ xs, p.eval x = q.eval x) : p = q := by
  classical
  have hcard : (t : WithBot ℕ) ≤ (xs.toFinset.card : ℕ) := by
    rw [List.toFinset_card_of_nodup hnodup]
    exact_mod_cast hlen
  exact eq_of_degrees_lt_of_eval_finset_eq xs.toFinset (hp.trans_le hcard) (hq.trans_le hcard)
    fun x hx => heval x (List.mem_toFinset.mp hx)

/-- Fewer nonzero points than the degree bound leave the value at zero free:
some polynomial has any prescribed value there and vanishes on all of them. -/
theorem exists_shift_poly {t : ℕ} (E : Finset F) (hzero : (0 : F) ∉ E) (hcard : E.card < t)
    (d : F) : ∃ p : F[X], p.degree < t ∧ p.eval 0 = d ∧ ∀ x ∈ E, p.eval x = 0 := by
  have hne : (Lagrange.nodal E id).eval (0 : F) ≠ 0 :=
    Lagrange.eval_nodal_not_at_node fun x hx h => hzero (by rw [h]; exact hx)
  refine ⟨(d / (Lagrange.nodal E id).eval 0) • Lagrange.nodal E id, ?_, ?_, ?_⟩
  · calc ((d / (Lagrange.nodal E id).eval 0) • Lagrange.nodal E id).degree
        ≤ (Lagrange.nodal E id).degree := degree_smul_le _ _
      _ = (E.card : ℕ) := Lagrange.degree_nodal
      _ < t := by exact_mod_cast hcard
  · rw [eval_smul, smul_eq_mul, div_mul_cancel₀ _ hne]
  · intro x hx
    have hroot : (Lagrange.nodal E id).eval x = 0 := Lagrange.eval_nodal_at_node (v := id) hx
    rw [eval_smul, hroot, smul_zero]

end Leelo.Core
