import Mathlib.Algebra.CharP.Two
import Mathlib.Algebra.Field.MinimalAxioms
import Mathlib.Data.Fintype.EquivFin
import Mathlib.GroupTheory.OrderOfElement
import Mathlib.Tactic.NormNum.Prime

/-!
# The executable byte field

The masked multiplier and the fixed inversion chain are translated round by
round. Additivity in each argument reduces commutativity and associativity to
the eight powers of two. The byte `3` generates every nonzero byte, so the
inversion chain computes a genuine inverse and the bytes form a field.
-/

namespace Leelo.Sss

/-- Multiply by `x` and reduce by `0x1b` when the top bit leaves the byte. -/
def xtime (a : UInt8) : UInt8 :=
  let reduce : UInt8 := (0 : UInt8) - (a >>> 7)
  (a <<< 1) ^^^ ((0x1b : UInt8) &&& reduce)

/-- Keep `a` exactly when the lowest bit of `b` is set. -/
def masked (a b : UInt8) : UInt8 :=
  let mask : UInt8 := (0 : UInt8) - (b &&& 1)
  a &&& mask

/-- Eight unrolled masked rounds of polynomial multiplication modulo `0x11b`. -/
def mul (a b : UInt8) : UInt8 :=
  let a1 := xtime a
  let a2 := xtime a1
  let a3 := xtime a2
  let a4 := xtime a3
  let a5 := xtime a4
  let a6 := xtime a5
  let a7 := xtime a6
  let p0 := masked a b
  let p1 := masked a1 (b >>> 1)
  let p2 := masked a2 (b >>> 2)
  let p3 := masked a3 (b >>> 3)
  let p4 := masked a4 (b >>> 4)
  let p5 := masked a5 (b >>> 5)
  let p6 := masked a6 (b >>> 6)
  let p7 := masked a7 (b >>> 7)
  p0 ^^^ p1 ^^^ p2 ^^^ p3 ^^^ p4 ^^^ p5 ^^^ p6 ^^^ p7

/-- The fixed addition chain for `a ^ 254`; it returns zero for zero. -/
def inverseNonzero (a : UInt8) : UInt8 :=
  let a2 := mul a a
  let a4 := mul a2 a2
  let a8 := mul a4 a4
  let a16 := mul a8 a8
  let a32 := mul a16 a16
  let a64 := mul a32 a32
  let a128 := mul a64 a64
  mul (mul (mul a2 a4) (mul a8 a16)) (mul a32 (mul a64 a128))

private theorem lowMask_fin : ∀ b : Fin 256,
    (0 : UInt8) - (UInt8.ofFin b &&& 1) = if b.val.testBit 0 then 255 else 0 := by
  decide +kernel

private theorem highMask_fin : ∀ a : Fin 256,
    (0 : UInt8) - (UInt8.ofFin a >>> 7) = if a.val.testBit 7 then 255 else 0 := by
  decide +kernel

/-- A round contributes its multiplicand or nothing. -/
theorem masked_eq (a b : UInt8) : masked a b = if b.toNat.testBit 0 then a else 0 := by
  have hm : (0 : UInt8) - (b &&& 1) = if b.toNat.testBit 0 then 255 else 0 :=
    lowMask_fin b.toFin
  simp only [masked, hm]
  split
  · exact UInt8.and_neg_one
  · exact UInt8.and_zero

/-- The reduction mask is the whole byte exactly when the top bit is set. -/
theorem xtime_eq (a : UInt8) :
    xtime a = (a <<< 1) ^^^ if a.toNat.testBit 7 then 0x1b else 0 := by
  have hm : (0 : UInt8) - (a >>> 7) = if a.toNat.testBit 7 then 255 else 0 :=
    highMask_fin a.toFin
  simp only [xtime, hm]
  split
  · rfl
  · rfl

private theorem xor_ite (p q : Bool) (c : UInt8) :
    (if (p ^^ q) = true then c else 0) =
      (if p = true then c else 0) ^^^ if q = true then c else 0 := by
  cases p <;> cases q <;> simp

private theorem xor_four (a b c d : UInt8) : a ^^^ b ^^^ (c ^^^ d) = a ^^^ c ^^^ (b ^^^ d) := by
  rw [UInt8.xor_assoc, UInt8.xor_assoc, ← UInt8.xor_assoc b, UInt8.xor_comm b c,
    UInt8.xor_assoc c]

/-- Doubling is linear. -/
theorem xtime_xor (a b : UInt8) : xtime (a ^^^ b) = xtime a ^^^ xtime b := by
  rw [xtime_eq, xtime_eq, xtime_eq, UInt8.toNat_xor, Nat.testBit_xor, UInt8.shiftLeft_xor,
    xor_ite, xor_four]

theorem masked_xor_left (a a' b : UInt8) : masked (a ^^^ a') b = masked a b ^^^ masked a' b := by
  simp only [masked_eq]
  split <;> simp

theorem masked_xor_right (a b b' : UInt8) : masked a (b ^^^ b') = masked a b ^^^ masked a b' := by
  simp only [masked_eq, UInt8.toNat_xor, Nat.testBit_xor, xor_ite]

theorem mul_xor_left (a a' b : UInt8) : mul (a ^^^ a') b = mul a b ^^^ mul a' b := by
  simp only [mul, xtime_xor, masked_xor_left]
  ac_rfl

theorem mul_xor_right (a b b' : UInt8) : mul a (b ^^^ b') = mul a b ^^^ mul a b' := by
  simp only [mul, UInt8.shiftRight_xor, masked_xor_right]
  ac_rfl

/-- The eight bytes with a single bit set. -/
def bitBytes : List UInt8 := [1, 2, 4, 8, 16, 32, 64, 128]

/-- A number as the combination of its bits. -/
private def bitSum (n : Nat) (l : List (UInt8 × Nat)) (acc : UInt8) : UInt8 :=
  l.foldl (fun acc p => acc ^^^ if n.testBit p.2 then p.1 else 0) acc

private theorem bitSum_fin : ∀ a : Fin 256,
    UInt8.ofFin a = bitSum a.val bitBytes.zipIdx 0 := by
  decide +kernel

/-- A property closed under exclusive or holds of every byte once it holds of
zero and of the single bits. -/
theorem byte_induction {P : UInt8 → Prop} (hzero : P 0) (hbit : ∀ b ∈ bitBytes, P b)
    (hxor : ∀ a b, P a → P b → P (a ^^^ b)) (a : UInt8) : P a := by
  have hsum (l : List (UInt8 × Nat)) :
      ∀ acc, (∀ p ∈ l, p.1 ∈ bitBytes) → P acc → P (bitSum a.toNat l acc) := by
    induction l with
    | nil => exact fun acc _ hacc => hacc
    | cons p l ih =>
      intro acc hl hacc
      refine ih _ (fun q hq => hl q (List.mem_cons_of_mem _ hq)) (hxor _ _ hacc ?_)
      split
      · exact hbit _ (hl p (List.mem_cons_self ..))
      · exact hzero
  have he : a = bitSum a.toNat bitBytes.zipIdx 0 := bitSum_fin a.toFin
  rw [he]
  exact hsum _ 0 (by decide) hzero

/-- Bits commute. -/
private theorem mul_bits_comm : ∀ a ∈ bitBytes, ∀ b ∈ bitBytes, mul a b = mul b a := by
  decide +kernel

/-- Bits associate. -/
private theorem mul_bits_assoc : ∀ a ∈ bitBytes, ∀ b ∈ bitBytes, ∀ c ∈ bitBytes,
    mul (mul a b) c = mul a (mul b c) := by
  decide +kernel

@[simp] theorem zero_mul_byte (b : UInt8) : mul 0 b = 0 := by
  have h := mul_xor_left 0 0 b
  rwa [UInt8.xor_self, UInt8.xor_self] at h

@[simp] theorem mul_zero_byte (a : UInt8) : mul a 0 = 0 := by
  have h := mul_xor_right a 0 0
  rwa [UInt8.xor_self, UInt8.xor_self] at h

/-- Multiplication commutes. -/
theorem mul_comm_byte (a b : UInt8) : mul a b = mul b a := by
  induction a using byte_induction with
  | hzero => simp
  | hbit a ha =>
    induction b using byte_induction with
    | hzero => simp
    | hbit b hb => exact mul_bits_comm a ha b hb
    | hxor b b' hb hb' => rw [mul_xor_left, mul_xor_right, hb, hb']
  | hxor a a' ha ha' => rw [mul_xor_left, mul_xor_right, ha, ha']

theorem mul_assoc_byte (a b c : UInt8) : mul (mul a b) c = mul a (mul b c) := by
  induction a using byte_induction with
  | hzero => simp
  | hbit a ha =>
    induction b using byte_induction with
    | hzero => simp
    | hbit b hb =>
      induction c using byte_induction with
      | hzero => simp
      | hbit c hc => exact mul_bits_assoc a ha b hb c hc
      | hxor c c' hc hc' => simp only [mul_xor_right, hc, hc']
    | hxor b b' hb hb' => simp only [mul_xor_left, mul_xor_right, hb, hb']
  | hxor a a' ha ha' => simp only [mul_xor_left, ha, ha']

/-- One is neutral. -/
theorem one_mul_byte (b : UInt8) : mul 1 b = b := by
  induction b using byte_induction with
  | hzero => simp
  | hbit b hb => revert b; decide +kernel
  | hxor b b' hb hb' => rw [mul_xor_right, hb, hb']

/-- A byte read as an element of the field of order 256. -/
@[ext] structure FieldByte where
  /-- The polynomial-basis representative. -/
  byte : UInt8
  deriving DecidableEq

namespace FieldByte

instance : Zero FieldByte := ⟨⟨0⟩⟩
instance : One FieldByte := ⟨⟨1⟩⟩
instance : Add FieldByte := ⟨fun a b => ⟨a.byte ^^^ b.byte⟩⟩
instance : Neg FieldByte := ⟨fun a => a⟩
instance : Mul FieldByte := ⟨fun a b => ⟨mul a.byte b.byte⟩⟩
instance : Inv FieldByte := ⟨fun a => ⟨inverseNonzero a.byte⟩⟩

@[simp] theorem byte_add (a b : FieldByte) : (a + b).byte = a.byte ^^^ b.byte := rfl

/-- The bytes are in bijection with the field elements. -/
def byteEquiv : FieldByte ≃ Fin 256 where
  toFun a := a.byte.toFin
  invFun i := ⟨UInt8.ofFin i⟩
  left_inv _ := rfl
  right_inv _ := rfl

instance : Fintype FieldByte := Fintype.ofEquiv _ byteEquiv.symm

theorem card_eq : Fintype.card FieldByte = 256 := by
  rw [Fintype.card_congr byteEquiv, Fintype.card_fin]

instance : CommRing FieldByte :=
  CommRing.ofMinimalAxioms
    (fun a b c => FieldByte.ext (UInt8.xor_assoc a.byte b.byte c.byte))
    (fun a => FieldByte.ext (UInt8.zero_xor (a := a.byte)))
    (fun a => FieldByte.ext (UInt8.xor_self (a := a.byte)))
    (fun a b c => FieldByte.ext (mul_assoc_byte a.byte b.byte c.byte))
    (fun a b => FieldByte.ext (mul_comm_byte a.byte b.byte))
    (fun a => FieldByte.ext (one_mul_byte a.byte))
    (fun a b c => FieldByte.ext (mul_xor_right a.byte b.byte c.byte))

instance : Nontrivial FieldByte := ⟨0, 1, by decide⟩

instance : CharP FieldByte 2 :=
  CharTwo.of_one_ne_zero_of_two_eq_zero one_ne_zero (by decide)

/-- The inversion chain is the 254th power. -/
theorem inv_eq_pow (a : FieldByte) : a⁻¹ = a ^ 254 := by
  let square (b : FieldByte) : FieldByte := b * b
  have hsquare (k : Nat) : square (a ^ k) = a ^ (k + k) := (pow_add a k k).symm
  have h2 : square a = a ^ 2 := (pow_two a).symm
  have hchain : a⁻¹ = square a * square (square a) *
      (square (square (square a)) * square (square (square (square a)))) *
      (square (square (square (square (square a)))) *
        (square (square (square (square (square (square a))))) *
          square (square (square (square (square (square (square a)))))))) := rfl
  rw [hchain]
  simp only [h2, hsquare, ← pow_add]

private theorem three_pow_eq_one : (⟨3⟩ : FieldByte) ^ 255 = 1 := by
  rw [pow_succ, ← inv_eq_pow]
  decide +kernel

/-- The byte `3` has full multiplicative order. -/
private theorem orderOf_three : orderOf (⟨3⟩ : FieldByte) = 255 := by
  apply orderOf_eq_of_pow_and_pow_div_prime (by decide) three_pow_eq_one
  intro p hp hd
  have hcases : p ∣ 3 ∨ p ∣ 5 ∨ p ∣ 17 := by
    rw [show 255 = 3 * (5 * 17) by rfl, hp.dvd_mul, hp.dvd_mul] at hd
    exact hd
  rcases hcases with h | h | h
  · rw [(Nat.prime_dvd_prime_iff_eq hp (by norm_num)).mp h]
    decide +kernel
  · rw [(Nat.prime_dvd_prime_iff_eq hp (by norm_num)).mp h]
    decide +kernel
  · rw [(Nat.prime_dvd_prime_iff_eq hp (by norm_num)).mp h]
    decide +kernel

private theorem three_pow_ne_zero (k : Nat) : (⟨3⟩ : FieldByte) ^ k ≠ 0 := by
  intro h
  have hone : ((⟨3⟩ : FieldByte) ^ k) * (⟨3⟩ : FieldByte) ^ (254 * k) = 1 := by
    rw [← pow_add, show k + 254 * k = 255 * k by omega, pow_mul, three_pow_eq_one, one_pow]
  rw [h, zero_mul] at hone
  exact zero_ne_one hone

/-- Every nonzero byte is a power of `3`: the 255 distinct powers leave no
other nonzero byte. -/
private theorem exists_pow_three {a : FieldByte} (ha : a ≠ 0) :
    ∃ k : Nat, (⟨3⟩ : FieldByte) ^ k = a := by
  let power : Fin 255 → {b : FieldByte // b ≠ 0} :=
    fun k => ⟨⟨3⟩ ^ k.val, three_pow_ne_zero k.val⟩
  have hinj : Function.Injective power := by
    intro i j h
    have hi : i.val < orderOf (⟨3⟩ : FieldByte) := by rw [orderOf_three]; exact i.isLt
    have hj : j.val < orderOf (⟨3⟩ : FieldByte) := by rw [orderOf_three]; exact j.isLt
    exact Fin.ext (pow_injOn_Iio_orderOf hi hj (congrArg Subtype.val h))
  have hcard : Fintype.card (Fin 255) = Fintype.card {b : FieldByte // b ≠ 0} := by
    rw [Fintype.card_subtype_compl, card_eq, Fintype.card_fin, Fintype.card_subtype_eq]
  obtain ⟨k, hk⟩ := ((Fintype.bijective_iff_injective_and_card power).mpr ⟨hinj, hcard⟩).2 ⟨a, ha⟩
  exact ⟨k.val, congrArg Subtype.val hk⟩

/-- The inversion chain inverts every nonzero byte. -/
theorem mul_inv_byte {a : FieldByte} (ha : a ≠ 0) : a * a⁻¹ = 1 := by
  obtain ⟨k, rfl⟩ := exists_pow_three ha
  rw [inv_eq_pow, ← pow_succ', ← pow_mul, Nat.mul_comm, pow_mul, three_pow_eq_one, one_pow]

instance : Field FieldByte where
  inv a := a⁻¹
  exists_pair_ne := exists_pair_ne FieldByte
  mul_inv_cancel _ ha := mul_inv_byte ha
  inv_zero := by decide
  nnqsmul := _
  nnqsmul_def _ _ := rfl
  qsmul := _
  qsmul_def _ _ := rfl

end FieldByte

end Leelo.Sss
