import Leelo.Sss.Sharing
import Mathlib.Algebra.Field.ZMod
import Mathlib.Algebra.Polynomial.Div
import Mathlib.RingTheory.Polynomial.DegreeLT
import Mathlib.Tactic.ComputeDegree

/-!
# Exact reconstruction

The byte arithmetic is that of polynomials over two elements modulo `0x11b`. Over this
field reconstruction is exact: it succeeds on the shares of one low-degree polynomial per
byte and on no others, in any order, and any sufficiently many shares of a split give back
its secret.
-/

namespace Leelo.Sss

open Polynomial Leelo.Core

/-- The modulus `0x11b`. -/
noncomputable def modulus : (ZMod 2)[X] := X ^ 8 + (X ^ 4 + X ^ 3 + X + 1)

/-- A byte as a polynomial: bit `i` is the coefficient of `X ^ i`. -/
noncomputable def bytePoly (a : UInt8) : (ZMod 2)[X] :=
  ∑ i ∈ Finset.range 8, if a.toNat.testBit i then X ^ i else 0

theorem bytePoly_xor (a b : UInt8) : bytePoly (a ^^^ b) = bytePoly a + bytePoly b := by
  unfold bytePoly
  rw [← Finset.sum_add_distrib]
  refine Finset.sum_congr rfl fun i _ => ?_
  rw [UInt8.toNat_xor, Nat.testBit_xor]
  have hdouble : (X ^ i : (ZMod 2)[X]) + X ^ i = 0 := CharTwo.add_self_eq_zero _
  by_cases ha : a.toNat.testBit i = true
  · by_cases hb : b.toNat.testBit i = true
    · simp [ha, hb, hdouble]
    · simp [ha, hb]
  · by_cases hb : b.toNat.testBit i = true
    · simp [ha, hb]
    · simp [ha, hb]

theorem degree_bytePoly_lt (a : UInt8) : (bytePoly a).degree < 8 := by
  refine mem_degreeLT.mp (Submodule.sum_mem _ fun i hi => ?_)
  split_ifs
  · rw [mem_degreeLT, degree_X_pow]
    exact_mod_cast Finset.mem_range.mp hi
  · exact Submodule.zero_mem _

private theorem degree_tail_lt : (X ^ 4 + X ^ 3 + X + 1 : (ZMod 2)[X]).degree < (8 : ℕ) := by
  refine lt_of_le_of_lt (b := (4 : WithBot ℕ)) ?_ (by decide)
  compute_degree

/-- The modulus is monic. -/
theorem monic_modulus : modulus.Monic := monic_X_pow_add degree_tail_lt

theorem degree_modulus : modulus.degree = 8 := by
  have hdegree : (X ^ 4 + X ^ 3 + X + 1 : (ZMod 2)[X]).degree < (X ^ 8 : (ZMod 2)[X]).degree := by
    rw [degree_X_pow]
    exact degree_tail_lt
  rw [modulus, degree_add_eq_left_of_degree_lt hdegree, degree_X_pow]
  rfl

/-- The byte with bit `i` set. -/
def bitByte (i : Fin 8) : UInt8 := bitBytes.get i

private theorem testBit_bit : ∀ i j : Fin 8,
    (bitByte i).toNat.testBit j.val = decide (j = i) := by decide

/-- The bytes with a single bit are the powers of `X` below the modulus. -/
theorem bytePoly_bit (i : Fin 8) : bytePoly (bitByte i) = X ^ i.val := by
  unfold bytePoly
  rw [Finset.sum_eq_single_of_mem i.val (Finset.mem_range.mpr i.isLt)]
  · rw [if_pos (by rw [testBit_bit i i, decide_eq_true rfl])]
  · intro j hj hne
    have hbit := testBit_bit i ⟨j, Finset.mem_range.mp hj⟩
    rw [if_neg]
    rw [hbit, decide_eq_true_iff]
    exact fun heq => hne (congrArg Fin.val heq)

private theorem exists_bit {b : UInt8} (h : b ∈ bitBytes) : ∃ i : Fin 8, b = bitByte i := by
  obtain ⟨i, rfl⟩ := List.mem_iff_get.mp h
  exact ⟨i, rfl⟩

/-- Zero is the zero polynomial. -/
theorem bytePoly_zero : bytePoly 0 = 0 := by
  have hself := bytePoly_xor 0 0
  rw [UInt8.xor_self, CharTwo.add_self_eq_zero] at hself
  exact hself

private theorem xtime_bit : ∀ i : Fin 7,
    xtime (bitByte i.castSucc) = bitByte i.succ := by decide

private theorem xtime_last :
    xtime (bitByte (Fin.last 7)) =
      bitByte 4 ^^^ bitByte 3 ^^^ bitByte 1 ^^^ bitByte 0 := by decide

private theorem pow_eight_mod : (X ^ 8 : (ZMod 2)[X]) %ₘ modulus = X ^ 4 + X ^ 3 + X + 1 := by
  have hdegree : (X ^ 4 + X ^ 3 + X + 1 : (ZMod 2)[X]).degree < modulus.degree := by
    rw [degree_modulus]
    exact degree_tail_lt
  refine (div_modByMonic_unique 1 _ monic_modulus ⟨?_, hdegree⟩).2
  rw [mul_one, modulus, add_comm, add_assoc, CharTwo.add_self_eq_zero, add_zero]

/-- Doubling is multiplication by `X`. -/
theorem bytePoly_xtime (a : UInt8) : bytePoly (xtime a) = (X * bytePoly a) %ₘ modulus := by
  induction a using byte_induction with
  | hzero =>
    have hxtime : xtime 0 = 0 := by decide
    rw [hxtime, bytePoly_zero, mul_zero, zero_modByMonic]
  | hbit b hb =>
    obtain ⟨i, rfl⟩ := exists_bit hb
    rw [bytePoly_bit, ← pow_succ']
    rcases Fin.eq_castSucc_or_eq_last i with ⟨j, rfl⟩ | rfl
    · have hdegree : (X ^ (j.val + 1) : (ZMod 2)[X]).degree < modulus.degree := by
        rw [degree_modulus, degree_X_pow]
        exact_mod_cast Nat.succ_lt_succ j.isLt
      rw [xtime_bit, bytePoly_bit, Fin.val_castSucc,
        (modByMonic_eq_self_iff monic_modulus).mpr hdegree, Fin.val_succ]
    · rw [xtime_last, bytePoly_xor, bytePoly_xor, bytePoly_xor, bytePoly_bit, bytePoly_bit,
        bytePoly_bit, bytePoly_bit]
      refine Eq.trans ?_ pow_eight_mod.symm
      simp
  | hxor a b ha hb =>
    rw [xtime_xor, bytePoly_xor, bytePoly_xor, mul_add, add_modByMonic, ha, hb]

private theorem mul_mod_right (p q : (ZMod 2)[X]) :
    (p * (q %ₘ modulus)) %ₘ modulus = (p * q) %ₘ modulus := by
  have hsplit : p * q = p * (q %ₘ modulus) + modulus * (p * (q /ₘ modulus)) := by
    conv_lhs => rw [← modByMonic_add_div q modulus]
    ring
  rw [hsplit, add_modByMonic, self_mul_modByMonic monic_modulus, add_zero]

private theorem bytePoly_iterate (k : ℕ) : bytePoly (xtime^[k] 1) = X ^ k %ₘ modulus := by
  induction k with
  | zero =>
    have hone := bytePoly_bit 0
    have hdegree : (1 : (ZMod 2)[X]).degree < modulus.degree := by
      rw [degree_modulus, degree_one]
      decide
    rw [pow_zero, (modByMonic_eq_self_iff monic_modulus).mpr hdegree]
    exact hone
  | succ k ih => rw [Function.iterate_succ_apply', bytePoly_xtime, ih, mul_mod_right, ← pow_succ']

private theorem mul_bit : ∀ i j : Fin 8,
    mul (bitByte i) (bitByte j) = xtime^[i.val + j.val] 1 := by decide +kernel

/-- The multiplication of bytes is that of their polynomials modulo `0x11b`. -/
theorem bytePoly_mul (a b : UInt8) :
    bytePoly (mul a b) = (bytePoly a * bytePoly b) %ₘ modulus := by
  induction a using byte_induction with
  | hzero => rw [zero_mul_byte, bytePoly_zero, zero_mul, zero_modByMonic]
  | hbit a ha =>
    obtain ⟨i, rfl⟩ := exists_bit ha
    induction b using byte_induction with
    | hzero => rw [mul_zero_byte, bytePoly_zero, mul_zero, zero_modByMonic]
    | hbit b hb =>
      obtain ⟨j, rfl⟩ := exists_bit hb
      rw [mul_bit, bytePoly_iterate, bytePoly_bit, bytePoly_bit, ← pow_add]
    | hxor b b' hb hb' =>
      rw [mul_xor_right, bytePoly_xor, bytePoly_xor, mul_add, add_modByMonic, hb, hb']
  | hxor a a' ha ha' =>
    rw [mul_xor_left, bytePoly_xor, bytePoly_xor, add_mul, add_modByMonic, ha, ha']

/-- The coefficients are the bits. -/
theorem coeff_bytePoly (a : UInt8) {i : ℕ} (hi : i < 8) :
    (bytePoly a).coeff i = if a.toNat.testBit i then 1 else 0 := by
  rw [bytePoly, finsetSum_coeff,
    Finset.sum_eq_single_of_mem i (Finset.mem_range.mpr hi) fun j _ hne => ?_]
  · split_ifs
    · exact coeff_X_pow_self i
    · exact coeff_zero i
  · split_ifs
    · rw [coeff_X_pow, if_neg hne.symm]
    · exact coeff_zero i

/-- The polynomial tells the byte. -/
theorem bytePoly_injective : Function.Injective bytePoly := by
  intro a b hab
  refine UInt8.toNat_inj.mp (Nat.eq_of_testBit_eq fun i => ?_)
  by_cases hi : i < 8
  · have hcoeff := congrArg (fun p => p.coeff i) hab
    simp only [coeff_bytePoly _ hi] at hcoeff
    by_cases ha : a.toNat.testBit i = true
    · by_cases hb : b.toNat.testBit i = true
      · rw [ha, hb]
      · simp [ha, hb] at hcoeff
    · by_cases hb : b.toNat.testBit i = true
      · simp [ha, hb] at hcoeff
      · rw [Bool.eq_false_iff.mpr ha, Bool.eq_false_iff.mpr hb]
  · have hpow : 256 ≤ 2 ^ i := Nat.pow_le_pow_right Nat.two_pos (Nat.le_of_not_lt hi)
    rw [Nat.testBit_lt_two_pow (a.toNat_lt.trans_le hpow),
      Nat.testBit_lt_two_pow (b.toNat_lt.trans_le hpow)]

variable {threshold : UInt8} {shares shares' : List Share}

theorem ValidShares.perm (h : ValidShares threshold shares) (hperm : shares.Perm shares') :
    ValidShares threshold shares' :=
  ⟨h.positive, hperm.length_eq ▸ h.enough, hperm.length_eq ▸ h.bounded,
    (hperm.map Share.index).nodup_iff.mp h.distinct⟩

theorem OnPolynomials.perm {secret : Secret} (h : OnPolynomials threshold.toNat shares secret)
    (hperm : shares.Perm shares') : OnPolynomials threshold.toNat shares' secret := by
  intro byte
  obtain ⟨p, hdegree, hshares, hsecret⟩ := h byte
  exact ⟨p, hdegree, fun share hshare => hshares share (hperm.mem_iff.mpr hshare), hsecret⟩

/-- The polynomials of enough shares are unique. -/
theorem ValidShares.poly_unique (h : ValidShares threshold shares) {p q : FieldByte[X]}
    {values : Share → FieldByte} (hp : p.degree < threshold.toNat)
    (hq : q.degree < threshold.toNat)
    (hpvalues : ∀ share ∈ shares, p.eval ⟨share.index⟩ = values share)
    (hqvalues : ∀ share ∈ shares, q.eval ⟨share.index⟩ = values share) : p = q := by
  have hnodup : ((shares.map Share.index).map FieldByte.mk).Nodup :=
    h.distinct.map fun _ _ heq => congrArg FieldByte.byte heq
  refine poly_eq_of_eval_eq hp hq hnodup ?_ fun x hx => ?_
  · rw [List.length_map, List.length_map]
    exact h.enough
  · obtain ⟨index, hindex, rfl⟩ := List.mem_map.mp hx
    obtain ⟨share, hshare, rfl⟩ := List.mem_map.mp hindex
    rw [hpvalues share hshare, hqvalues share hshare]

theorem reconstruct_of_not_onPolynomials (h : ValidShares threshold shares)
    (hnone : ¬ ∃ secret, OnPolynomials threshold.toNat shares secret) :
    reconstruct threshold shares = .error .inconsistentShares := by
  obtain ⟨secret, hok⟩ | herror := reconstruct_cases h
  · exact absurd ⟨secret, (reconstruct_eq_ok_iff h secret).mp hok⟩ hnone
  · exact herror

theorem reconstruct_perm (h : ValidShares threshold shares) (hperm : shares.Perm shares') :
    reconstruct threshold shares' = reconstruct threshold shares := by
  by_cases hsome : ∃ secret, OnPolynomials threshold.toNat shares secret
  · obtain ⟨secret, hon⟩ := hsome
    rw [(reconstruct_eq_ok_iff h secret).mpr hon,
      (reconstruct_eq_ok_iff (h.perm hperm) secret).mpr (hon.perm hperm)]
  · rw [reconstruct_of_not_onPolynomials h hsome, reconstruct_of_not_onPolynomials (h.perm hperm)]
    rintro ⟨secret, hon⟩
    exact hsome ⟨secret, hon.perm hperm.symm⟩

section Split

variable {ρ : Type} {rng : Rng ρ} {secret : Secret} {count : UInt8} {r r' : ρ}

/-- Enough shares of a split, in any order, reconstruct its secret. -/
theorem reconstruct_subperm_split (hpos : 0 < threshold.toNat)
    (hle : threshold.toNat ≤ count.toNat) (hmax : count.toNat ≤ maxShares.toNat)
    (h : split rng secret threshold count r = .ok (shares, r')) {chosen : List Share}
    (hchosen : chosen.Subperm shares) (henough : threshold.toNat ≤ chosen.length) :
    reconstruct threshold chosen = .ok secret := by
  obtain ⟨rows, rfl, hdegree⟩ := split_eq_ok hpos hle hmax h
  have hlength : (sharesOf secret rows count).length = count.toNat := by
    rw [sharesOf, List.length_map, List.length_finRange]
  have hdistinct : (chosen.map Share.index).Nodup := by
    obtain ⟨sub, hperm, hsub⟩ := hchosen
    exact (hperm.map Share.index).nodup_iff.mp
      ((sharesOf_distinct secret rows count).sublist (hsub.map Share.index))
  have hvalid : ValidShares threshold chosen :=
    ⟨hpos, henough, (hchosen.length_le.trans_eq hlength).trans hmax, hdistinct⟩
  apply (reconstruct_eq_ok_iff hvalid secret).mpr
  intro byte
  refine ⟨_, hdegree byte, fun share hshare => ?_, eval_sharePoly_zero _ _⟩
  obtain ⟨i, -, rfl⟩ := List.mem_map.mp (hchosen.subset hshare)
  exact eval_shareValue secret rows _ byte

/-- A split with a generator that fills its buffers succeeds. -/
theorem split_of_fills (hpos : 0 < threshold.toNat) (hle : threshold.toNat ≤ count.toNat)
    (hmax : count.toNat ≤ maxShares.toNat) (hrng : rng.Fills) :
    ∃ shares r', split rng secret threshold count r = .ok (shares, r') := by
  obtain ⟨rows, r', hrows⟩ := hrng.fillRows (threshold.toNat - 1) secretLen r
  refine ⟨sharesOf secret rows count, r', ?_⟩
  rw [split_eq rng secret r hpos hle hmax, hrows]

end Split

/-- Reconstruction is interpolation over `GF(2^8)` modulo `x^8 + x^4 + x^3 + x + 1`: it
returns the values at zero of the unique low-degree polynomials through all shares, refuses
shares that lie on none, ignores their order, and undoes every split. -/
theorem reconstruct_exact :
    (Function.Injective bytePoly ∧ ∀ a b : UInt8, (bytePoly a).degree < 8 ∧
      bytePoly ((⟨a⟩ : FieldByte) + ⟨b⟩).byte = bytePoly a + bytePoly b ∧
      bytePoly ((⟨a⟩ : FieldByte) * ⟨b⟩).byte = bytePoly a * bytePoly b %ₘ modulus) ∧
    (∀ (threshold : UInt8) (shares : List Share), ValidShares threshold shares →
      (∀ secret, reconstruct threshold shares = .ok secret ↔
        OnPolynomials threshold.toNat shares secret) ∧
      (∀ (byte : Fin secretLen) (p q : FieldByte[X]),
        p.degree < threshold.toNat → q.degree < threshold.toNat →
        (∀ share ∈ shares, p.eval ⟨share.index⟩ = ⟨share.value.get byte⟩) →
        (∀ share ∈ shares, q.eval ⟨share.index⟩ = ⟨share.value.get byte⟩) → p = q) ∧
      ((¬ ∃ secret, OnPolynomials threshold.toNat shares secret) →
        reconstruct threshold shares = .error .inconsistentShares) ∧
      ∀ shares' : List Share, shares.Perm shares' →
        reconstruct threshold shares' = reconstruct threshold shares) ∧
    ∀ (ρ : Type) (rng : Rng ρ) (r : ρ) (secret : Secret) (threshold count : UInt8),
      0 < threshold.toNat → threshold.toNat ≤ count.toNat → count.toNat ≤ maxShares.toNat →
      (rng.Fills → ∃ shares r', split rng secret threshold count r = .ok (shares, r')) ∧
      ∀ shares r', split rng secret threshold count r = .ok (shares, r') →
        ∀ chosen : List Share, chosen.Subperm shares → threshold.toNat ≤ chosen.length →
          reconstruct threshold chosen = .ok secret := by
  refine ⟨⟨bytePoly_injective, fun a b => ?_⟩, ?_, ?_⟩
  · exact ⟨degree_bytePoly_lt a, bytePoly_xor a b, bytePoly_mul a b⟩
  · intro threshold shares h
    refine ⟨reconstruct_eq_ok_iff h, fun byte p q hp hq hpvalues hqvalues => ?_,
      reconstruct_of_not_onPolynomials h, fun shares' hperm => reconstruct_perm h hperm⟩
    exact h.poly_unique hp hq hpvalues hqvalues
  · intro ρ rng r secret threshold count hpos hle hmax
    refine ⟨fun hrng => split_of_fills hpos hle hmax hrng, fun shares r' h chosen hchosen => ?_⟩
    exact reconstruct_subperm_split hpos hle hmax h hchosen

/-- The share at a coordinate of the lines of slope three whose constant terms count up. -/
def lineShare (index : UInt8) (nonzero : index ≠ 0) : Share :=
  ⟨index, Vector.ofFn fun byte => evaluate (UInt8.ofNat byte) [3] index, nonzero⟩

theorem eval_lineShare (byte : Fin secretLen) (index : UInt8) (nonzero : index ≠ 0) :
    (sharePoly (UInt8.ofNat byte) [3]).eval ⟨(lineShare index nonzero).index⟩ =
      ⟨(lineShare index nonzero).value.get byte⟩ := by
  have hvalue : (lineShare index nonzero).value[byte] = evaluate (UInt8.ofNat byte) [3] index := by
    simp [lineShare]
  rw [eval_sharePoly]
  exact congrArg FieldByte.mk hvalue.symm

/-- Three shares of lines, in either order, reconstruct the constant terms for a threshold of
two. In place of the surplus share one off the lines is found to disagree. -/
theorem reconstruct_exact_lines :
    reconstruct 2 [lineShare 9 (by decide), lineShare 4 (by decide), lineShare 255 (by decide)] =
      .ok (Vector.ofFn fun byte => UInt8.ofNat byte) ∧
    reconstruct 2 [lineShare 255 (by decide), lineShare 9 (by decide), lineShare 4 (by decide)] =
      .ok (Vector.ofFn fun byte => UInt8.ofNat byte) ∧
    reconstruct 2 [lineShare 9 (by decide), lineShare 4 (by decide),
      ⟨255, Vector.replicate secretLen 0, by decide⟩] = .error .inconsistentShares := by
  have hlines := reconstruct_exact.2.1 2
    [lineShare 9 (by decide), lineShare 4 (by decide), lineShare 255 (by decide)]
    ⟨by decide, by decide, by decide, by decide⟩
  have htwo := reconstruct_exact.2.1 2 [lineShare 9 (by decide), lineShare 4 (by decide)]
    ⟨by decide, by decide, by decide, by decide⟩
  have hstray := reconstruct_exact.2.1 2 [lineShare 9 (by decide), lineShare 4 (by decide),
    ⟨255, Vector.replicate secretLen 0, by decide⟩] ⟨by decide, by decide, by decide, by decide⟩
  have hok := (hlines.1 (Vector.ofFn fun byte => UInt8.ofNat byte)).mpr fun byte => by
    refine ⟨sharePoly (UInt8.ofNat byte) [3], degree_sharePoly_lt _ [3], ?_, ?_⟩
    · intro share hshare
      simp only [List.mem_cons, List.not_mem_nil, or_false] at hshare
      rcases hshare with rfl | rfl | rfl
      all_goals exact eval_lineShare byte _ _
    · rw [eval_sharePoly_zero]
      simp
  refine ⟨hok, ?_, hstray.2.2.1 ?_⟩
  · exact (hlines.2.2.2 _ (List.perm_append_singleton _ [_, _])).trans hok
  · rintro ⟨secret, hon⟩
    obtain ⟨p, hdegree, hvalues, -⟩ := hon 0
    -- Two shares leave one line, which misses the third.
    have hline := htwo.2.1 0 p (sharePoly 0 [3]) hdegree (degree_sharePoly_lt 0 [3])
      (fun share hshare => hvalues share (List.mem_append_left [_] hshare)) fun share hshare => by
        simp only [List.mem_cons, List.not_mem_nil, or_false] at hshare
        rcases hshare with rfl | rfl
        all_goals exact eval_lineShare 0 _ _
    have hmiss := hvalues ⟨255, Vector.replicate secretLen 0, by decide⟩ (by simp)
    rw [hline, eval_sharePoly] at hmiss
    exact absurd (congrArg FieldByte.byte hmiss) (by decide)

end Leelo.Sss
