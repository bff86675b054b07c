import Leelo.Sss.Exact

/-!
# The interpolation kernel

Evaluation and interpolation of byte polynomials are inverse to each other. The weights
at distinct coordinates carry the values of a low-degree polynomial to its value at any
target, a coordinate included, and any values at distinct coordinates are those of one
coefficient list.
-/

namespace Leelo.Sss

open Polynomial Leelo.Core

/-- The coefficients of the polynomial that a Horner loop evaluates. -/
theorem coeff_sharePoly (secret : UInt8) (coefficients : List UInt8) :
    (sharePoly secret coefficients).coeff 0 = ⟨secret⟩ ∧
      ∀ i, (sharePoly secret coefficients).coeff (i + 1) = ⟨coefficients.getD i 0⟩ := by
  unfold sharePoly
  refine ⟨coeff_coeffPoly _ 0, fun i => ?_⟩
  rw [coeff_coeffPoly, List.map_cons, List.getD_cons_succ]
  exact List.getD_map ..

/-- Interpolating a Horner loop gives the loop at the target. -/
theorem weightedSum_evaluate {indices : List UInt8} (hnodup : indices.Nodup) (secret : UInt8)
    {coefficients : List UInt8} (hlength : indices.length = coefficients.length + 1)
    (target : UInt8) :
    weightedSum (indices.map (evaluate secret coefficients)) (weights indices target) =
      evaluate secret coefficients target := by
  have hdegree : (sharePoly secret coefficients).degree < indices.length :=
    hlength ▸ degree_sharePoly_lt secret coefficients
  have hsum := weightedSum_eval hnodup hdegree target
  simp only [eval_sharePoly] at hsum
  exact congrArg FieldByte.byte hsum

/-- Values at distinct coordinates are those of a Horner loop. -/
theorem exists_evaluate {indices values : List UInt8} (hnodup : indices.Nodup)
    (hne : indices ≠ []) (hlength : values.length = indices.length) :
    ∃ (secret : UInt8) (coefficients : List UInt8),
      indices.length = coefficients.length + 1 ∧
        indices.map (evaluate secret coefficients) = values := by
  obtain ⟨p, hdegree, hvalues⟩ := exists_poly_through (node indices) (node_injective hnodup)
    fun i => ⟨values[i]⟩
  obtain ⟨cs, hcs, rfl⟩ := exists_coeffPoly indices.length p hdegree
  cases cs with
  | nil => exact absurd (List.length_eq_zero_iff.mp hcs.symm) hne
  | cons constant rest =>
    refine ⟨constant.byte, rest.map FieldByte.byte, ?_, ?_⟩
    · rw [List.length_map, ← hcs, List.length_cons]
    · have hpoly : sharePoly constant.byte (rest.map FieldByte.byte) =
          coeffPoly (constant :: rest) := by
        rw [sharePoly, List.map_cons, List.map_map]
        exact congrArg coeffPoly (congrArg (constant :: ·) (List.map_id rest))
      refine List.ext_getElem (by rw [List.length_map, hlength]) fun i hi hi' => ?_
      rw [List.length_map] at hi
      have hvalue := hvalues ⟨i, hi⟩
      rw [← hpoly, node, eval_sharePoly] at hvalue
      rw [List.getElem_map]
      exact congrArg FieldByte.byte hvalue

/-- The interpolation kernel over `GF(2^8)` modulo `x^8 + x^4 + x^3 + x + 1`. Weighted values
of a low-degree polynomial at distinct coordinates give its value at every target, the
Horner loop evaluates the polynomial of its coefficients, and the two are inverse. -/
theorem interpolation_kernel :
    (Function.Injective bytePoly ∧ ∀ a b : UInt8, (bytePoly a).degree < 8 ∧
      bytePoly ((⟨a⟩ : FieldByte) + ⟨b⟩).byte = bytePoly a + bytePoly b ∧
      bytePoly ((⟨a⟩ : FieldByte) * ⟨b⟩).byte = bytePoly a * bytePoly b %ₘ modulus) ∧
    (∀ indices : List UInt8, indices.Nodup → ∀ p : FieldByte[X], p.degree < indices.length →
      ∀ target : UInt8,
        weightedSum (indices.map fun x => (p.eval ⟨x⟩).byte) (weights indices target) =
          (p.eval ⟨target⟩).byte) ∧
    (∀ (secret : UInt8) (coefficients : List UInt8), ∃ p : FieldByte[X],
      p.coeff 0 = ⟨secret⟩ ∧ (∀ i, p.coeff (i + 1) = ⟨coefficients.getD i 0⟩) ∧
      ∀ x : UInt8, p.eval ⟨x⟩ = ⟨evaluate secret coefficients x⟩) ∧
    ∀ indices : List UInt8, indices.Nodup → indices ≠ [] →
      (∀ (secret : UInt8) (coefficients : List UInt8),
        indices.length = coefficients.length + 1 → ∀ target : UInt8,
          weightedSum (indices.map (evaluate secret coefficients)) (weights indices target) =
            evaluate secret coefficients target) ∧
      ∀ values : List UInt8, values.length = indices.length →
        ∃ (secret : UInt8) (coefficients : List UInt8),
          indices.length = coefficients.length + 1 ∧
          indices.map (evaluate secret coefficients) = values ∧
          ∀ target : UInt8,
            weightedSum values (weights indices target) = evaluate secret coefficients target := by
  refine ⟨⟨bytePoly_injective, fun a b => ?_⟩, ?_, ?_, ?_⟩
  · exact ⟨degree_bytePoly_lt a, bytePoly_xor a b, bytePoly_mul a b⟩
  · intro indices hnodup p hdegree target
    exact congrArg FieldByte.byte (weightedSum_eval hnodup hdegree target)
  · intro secret coefficients
    obtain ⟨hconstant, hhigher⟩ := coeff_sharePoly secret coefficients
    exact ⟨sharePoly secret coefficients, hconstant, hhigher, eval_sharePoly secret coefficients⟩
  · intro indices hnodup hne
    refine ⟨fun secret coefficients hlength => weightedSum_evaluate hnodup secret hlength, ?_⟩
    intro values hvalues
    obtain ⟨secret, coefficients, hlength, rfl⟩ := exists_evaluate hnodup hne hvalues
    exact ⟨secret, coefficients, hlength, rfl, weightedSum_evaluate hnodup secret hlength⟩

/-- A quadratic is read back at one of its own coordinates. -/
theorem interpolation_kernel_quadratic :
    weightedSum ([1, 2, 255].map (evaluate 7 [3, 5])) (weights [1, 2, 255] 2) =
      evaluate 7 [3, 5] 2 :=
  (interpolation_kernel.2.2.2 [1, 2, 255] (by decide) (by decide)).1 7 [3, 5] rfl 2

end Leelo.Sss
