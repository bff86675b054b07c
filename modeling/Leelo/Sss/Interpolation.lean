import Leelo.Core.Interpolation
import Leelo.Sss.Gf256

/-!
# Executable evaluation and interpolation of byte polynomials

The Horner loop evaluates the polynomial named by its coefficient list. The
nested weight loops compute exactly the Lagrange weights of their coordinates,
so the weighted sum of polynomial values is the value at the target.
-/

namespace Leelo.Sss

open Polynomial Leelo.Core

/-- Horner evaluation from the highest coefficient down to the secret. -/
def evaluate (secret : UInt8) (coefficients : List UInt8) (x : UInt8) : UInt8 :=
  let value := coefficients.foldr (fun coefficient value => mul value x ^^^ coefficient) 0
  mul value x ^^^ secret

/-- The two products of one weight: the inner loop skips the selected coordinate. -/
def weightProducts (indices : List UInt8) (target : UInt8) (i : Fin indices.length) :
    UInt8 × UInt8 :=
  (List.finRange indices.length).foldl (fun (top, bottom) j =>
    if i ≠ j then (mul top (target ^^^ indices[j]), mul bottom (indices[i] ^^^ indices[j]))
    else (top, bottom)) (1, 1)

/-- The Lagrange weights of the coordinates at the target. -/
def weights (indices : List UInt8) (target : UInt8) : List UInt8 :=
  (List.finRange indices.length).map fun i =>
    let (top, bottom) := weightProducts indices target i
    mul top (inverseNonzero bottom)

/-- Accumulate one interpolated byte from values and public weights. -/
def weightedSum (values weights : List UInt8) : UInt8 :=
  (values.zip weights).foldl (fun result (value, weight) => result ^^^ mul value weight) 0

/-- The polynomial whose constant term is the secret byte. -/
noncomputable def sharePoly (secret : UInt8) (coefficients : List UInt8) : FieldByte[X] :=
  coeffPoly ((secret :: coefficients).map FieldByte.mk)

theorem degree_sharePoly_lt (secret : UInt8) (coefficients : List UInt8) :
    (sharePoly secret coefficients).degree < (coefficients.length + 1 : ℕ) := by
  simpa [sharePoly] using degree_coeffPoly_lt ((secret :: coefficients).map FieldByte.mk)

@[simp] theorem eval_sharePoly_zero (secret : UInt8) (coefficients : List UInt8) :
    (sharePoly secret coefficients).eval 0 = ⟨secret⟩ := by
  simp [sharePoly]

/-- The Horner loop evaluates the share polynomial. -/
theorem eval_sharePoly (secret : UInt8) (coefficients : List UInt8) (x : UInt8) :
    (sharePoly secret coefficients).eval ⟨x⟩ = ⟨evaluate secret coefficients x⟩ := by
  have htail : (coeffPoly (coefficients.map FieldByte.mk)).eval ⟨x⟩ =
      ⟨coefficients.foldr (fun coefficient value => mul value x ^^^ coefficient) 0⟩ := by
    induction coefficients with
    | nil => simp; rfl
    | cons c cs ih =>
      rw [List.map_cons, coeffPoly_cons, eval_add, eval_mul, eval_X, eval_C, ih]
      rfl
  rw [sharePoly, List.map_cons, coeffPoly_cons, eval_add, eval_mul, eval_X, eval_C, htail]
  rfl

/-- The coordinates as field elements. -/
def node (indices : List UInt8) (i : Fin indices.length) : FieldByte := ⟨indices[i]⟩

theorem node_injective {indices : List UInt8} (h : indices.Nodup) :
    Function.Injective (node indices) := by
  intro i j hij
  exact Fin.ext ((List.Nodup.getElem_inj_iff h).mp (congrArg FieldByte.byte hij))

/-- The inner loop multiplies the selected factors onto its accumulators. -/
private theorem foldl_products {n : ℕ} (f g : Fin n → FieldByte) (i : Fin n) (l : List (Fin n))
    (top bottom : FieldByte) :
    l.foldl (fun (acc : UInt8 × UInt8) j =>
      if i ≠ j then (mul acc.1 (f j).byte, mul acc.2 (g j).byte) else acc)
        (top.byte, bottom.byte) =
      ((top * (l.map fun j => if i ≠ j then f j else 1).prod).byte,
        (bottom * (l.map fun j => if i ≠ j then g j else 1).prod).byte) := by
  induction l generalizing top bottom with
  | nil => simp
  | cons j l ih =>
    rw [List.foldl_cons, List.map_cons, List.map_cons, List.prod_cons, List.prod_cons]
    by_cases h : i ≠ j
    · simp only [if_pos h]
      rw [← mul_assoc, ← mul_assoc]
      exact ih (top * f j) (bottom * g j)
    · simp only [if_neg h, one_mul]
      exact ih top bottom

private theorem prod_finRange_erase {n : ℕ} (f : Fin n → FieldByte) (i : Fin n) :
    ((List.finRange n).map fun j => if i ≠ j then f j else 1).prod =
      ∏ j ∈ Finset.univ.erase i, f j := by
  rw [← Fin.prod_univ_def, ← Finset.prod_filter, Finset.filter_ne]

/-- The executable weights are the Lagrange weights of their coordinates. -/
theorem weights_eq (indices : List UInt8) (target : UInt8) :
    weights indices target = (List.finRange indices.length).map fun i =>
      (lagrangeWeight (node indices) ⟨target⟩ i).byte := by
  apply List.map_congr_left
  intro i _
  have hproducts : weightProducts indices target i =
      ((∏ j ∈ Finset.univ.erase i, ((⟨target⟩ : FieldByte) - node indices j)).byte,
        (∏ j ∈ Finset.univ.erase i, (node indices i - node indices j)).byte) := by
    rw [← prod_finRange_erase, ← prod_finRange_erase]
    have h := foldl_products (fun j => (⟨target⟩ : FieldByte) - node indices j)
      (fun j => node indices i - node indices j) i (List.finRange indices.length) 1 1
    rw [one_mul, one_mul] at h
    exact h
  rw [hproducts]
  rfl

/-- The weighted sum is a sum of field products. -/
theorem weightedSum_eq (values ws : List UInt8) :
    (⟨weightedSum values ws⟩ : FieldByte) =
      ((values.zip ws).map fun p => (⟨p.1⟩ * ⟨p.2⟩ : FieldByte)).sum := by
  have hfold (l : List (UInt8 × UInt8)) : ∀ result : UInt8,
      (⟨l.foldl (fun result (value, weight) => result ^^^ mul value weight) result⟩ :
        FieldByte) = ⟨result⟩ + (l.map fun p => (⟨p.1⟩ * ⟨p.2⟩ : FieldByte)).sum := by
    induction l with
    | nil => simp
    | cons p l ih =>
      intro result
      rw [List.foldl_cons, ih, List.map_cons, List.sum_cons, ← add_assoc]
      rfl
  rw [weightedSum, hfold]
  exact zero_add _

/-- Interpolating the values of a low-degree polynomial gives its value at the target. -/
theorem weightedSum_eval {indices : List UInt8} (hnodup : indices.Nodup) {p : FieldByte[X]}
    (hp : p.degree < indices.length) (target : UInt8) :
    (⟨weightedSum (indices.map fun x => (p.eval ⟨x⟩).byte) (weights indices target)⟩ :
      FieldByte) = p.eval ⟨target⟩ := by
  have hvalues : indices.map (fun x => (p.eval ⟨x⟩).byte) =
      (List.finRange indices.length).map fun i => (p.eval (node indices i)).byte := by
    conv_lhs => rw [← List.map_getElem_finRange indices]
    rw [List.map_map]
    rfl
  rw [weightedSum_eq, hvalues, weights_eq, List.zip_map', List.map_map,
    ← sum_eval_mul_weight (node indices) ⟨target⟩ (node_injective hnodup) hp, Fin.sum_univ_def]
  rfl

end Leelo.Sss
