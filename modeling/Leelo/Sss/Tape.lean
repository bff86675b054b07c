import Leelo.Sss.Sharing
import Mathlib.Data.List.GetD

/-!
# Sharing from a tape of coefficient bytes

A tape hands out its bytes in order, so it names the coefficient rows of every
split. Share values are additive in the secret and the rows together, and for
fewer coordinates than the threshold some rows cancel any change of the secret
at all of them.
-/

namespace Leelo.Sss

open Polynomial Leelo.Core

instance fintypeByte : Fintype UInt8 :=
  Fintype.ofEquiv FieldByte ⟨FieldByte.byte, FieldByte.mk, fun _ => rfl, fun _ => rfl⟩

/-- The generator that reads a tape and fails at its end. -/
def tapeRng : Rng (List UInt8) where
  tryFillBytes n tape :=
    if h : n ≤ tape.length then
      some (⟨(tape.take n).toArray, by simp [h]⟩, tape.drop n)
    else none

/-- Cut a tape into rows. -/
def takeRows (degree : Nat) : Nat → List UInt8 → List (List UInt8)
  | 0, _ => []
  | count + 1, tape => tape.take degree :: takeRows degree count (tape.drop degree)

@[simp] theorem length_takeRows (degree count : Nat) (tape : List UInt8) :
    (takeRows degree count tape).length = count := by
  induction count generalizing tape with
  | zero => rfl
  | succ count ih => simp [takeRows, ih]

/-- A tape of the right length supplies its rows and leaves the rest. -/
theorem fillRows_tape (degree count : Nat) (tape rest : List UInt8)
    (h : tape.length = count * degree) :
    tapeRng.fillRows degree count (tape ++ rest) = some (takeRows degree count tape, rest) := by
  induction count generalizing tape with
  | zero =>
    obtain rfl := List.length_eq_zero_iff.mp (h.trans (Nat.zero_mul degree))
    rfl
  | succ count ih =>
    have hle : degree ≤ tape.length := by rw [h, Nat.succ_mul]; omega
    have hrest := ih (tape.drop degree) (by rw [List.length_drop, h, Nat.succ_mul]; omega)
    have hfits : degree ≤ (tape ++ rest).length := by simp; omega
    have hfirst : tapeRng.tryFillBytes degree (tape ++ rest) = some (⟨(tape.take degree).toArray,
        by simp [hle]⟩, tape.drop degree ++ rest) := by
      simp only [tapeRng, dif_pos hfits, List.take_append_of_le_length hle,
        List.drop_append_of_le_length hle]
    simp only [Rng.fillRows, hfirst, hrest, takeRows]
    rfl

/-- Rows of one length are read back from their concatenation. -/
theorem takeRows_flatten {degree : Nat} {rows : List (List UInt8)}
    (h : ∀ row ∈ rows, row.length = degree) :
    takeRows degree rows.length rows.flatten = rows := by
  induction rows with
  | nil => rfl
  | cons row rows ih =>
    rw [List.forall_mem_cons] at h
    have := ih h.2
    simp only [List.length_cons, List.flatten_cons, takeRows]
    rw [← h.1, List.take_left, List.drop_left, h.1, this]

/-- The bytewise sum of two tapes. -/
def xorBytes (xs ys : List UInt8) : List UInt8 := List.zipWith (· ^^^ ·) xs ys

/-- The bytewise sum of two secrets. -/
def xorSecret (a b : Secret) : Secret := Vector.zipWith (· ^^^ ·) a b

/-- The secret of zero bytes. -/
def zeroSecret : Secret := Vector.replicate secretLen 0

/-- Zero changes nothing. -/
theorem xorSecret_zero (a : Secret) : xorSecret a zeroSecret = a :=
  Vector.ext fun k hk => by simp [xorSecret, zeroSecret]

theorem xorSecret_cancel (a b : Secret) : xorSecret a (xorSecret a b) = b :=
  Vector.ext fun k hk => by
    simp only [xorSecret, Vector.getElem_zipWith, ← UInt8.xor_assoc, UInt8.xor_self,
      UInt8.zero_xor]

theorem takeRows_xorBytes (degree count : Nat) (xs ys : List UInt8) :
    takeRows degree count (xorBytes xs ys) =
      List.zipWith xorBytes (takeRows degree count xs) (takeRows degree count ys) := by
  induction count generalizing xs ys with
  | zero => rfl
  | succ count ih =>
    simp only [takeRows, List.zipWith_cons_cons, ← ih]
    simp only [xorBytes, List.take_zipWith, List.drop_zipWith]

/-- Evaluation adds when secret and coefficients add. -/
theorem evaluate_xor (secret secret' : UInt8) {row row' : List UInt8}
    (h : row.length = row'.length) (x : UInt8) :
    evaluate (secret ^^^ secret') (xorBytes row row') x =
      evaluate secret row x ^^^ evaluate secret' row' x := by
  have hmap : ((secret ^^^ secret') :: xorBytes row row').map FieldByte.mk =
      List.zipWith (· + ·) ((secret :: row).map FieldByte.mk)
        ((secret' :: row').map FieldByte.mk) := by
    simp only [List.map_cons, List.zipWith_cons_cons, xorBytes, List.map_zipWith,
      List.zipWith_map]
    rfl
  have hpoly : sharePoly (secret ^^^ secret') (xorBytes row row') =
      sharePoly secret row + sharePoly secret' row' := by
    rw [sharePoly, hmap, coeffPoly_zipWith_add _ _ (by simp [h])]
    rfl
  have heval := congrArg (fun p => FieldByte.byte (p.eval ⟨x⟩)) hpoly
  simpa only [eval_add, eval_sharePoly, FieldByte.byte_add] using heval

/-- Share values add when secret and rows add. -/
theorem shareValue_xor {rows rows' : List (List UInt8)}
    (hlen : rows.length = secretLen) (hlen' : rows'.length = secretLen) {degree : Nat}
    (hrows : ∀ row ∈ rows, row.length = degree) (hrows' : ∀ row ∈ rows', row.length = degree)
    (secret secret' : Secret) (x : UInt8) :
    shareValue (xorSecret secret secret') (List.zipWith xorBytes rows rows') x =
      xorSecret (shareValue secret rows x) (shareValue secret' rows' x) := by
  refine Vector.ext fun k hk => ?_
  have hk1 : k < rows.length := hlen.symm ▸ hk
  have hk2 : k < rows'.length := hlen'.symm ▸ hk
  have hsame : rows[k].length = rows'[k].length := by
    rw [hrows _ (List.getElem_mem hk1), hrows' _ (List.getElem_mem hk2)]
  simp [shareValue, xorSecret, List.getElem?_zipWith, hk1, hk2,
    evaluate_xor _ _ hsame]

theorem length_row_of_takeRows {degree count : Nat} {tape : List UInt8}
    (h : tape.length = count * degree) : ∀ row ∈ takeRows degree count tape,
      row.length = degree := by
  induction count generalizing tape with
  | zero => simp [takeRows]
  | succ count ih =>
    rw [Nat.succ_mul] at h
    rw [takeRows, List.forall_mem_cons]
    exact ⟨by rw [List.length_take]; omega, ih (by rw [List.length_drop]; omega)⟩

/-- Some coefficients give any change of a secret byte and vanish at fewer nonzero
coordinates than the threshold. -/
theorem exists_shift_row {threshold : Nat} {exposed : List UInt8}
    (hzero : (0 : UInt8) ∉ exposed) (hfew : exposed.length < threshold) (delta : UInt8) :
    ∃ row : List UInt8, row.length = threshold - 1 ∧
      ∀ x ∈ exposed, evaluate delta row x = 0 := by
  classical
  let points : Finset FieldByte := (exposed.map FieldByte.mk).toFinset
  have hcard : points.card < threshold := by
    refine lt_of_le_of_lt (List.toFinset_card_le _) ?_
    simpa using hfew
  have hpoints : (0 : FieldByte) ∉ points := by
    simp only [points, List.mem_toFinset, List.mem_map, not_exists, not_and]
    intro x hx he
    obtain rfl : x = 0 := congrArg FieldByte.byte he
    exact hzero hx
  obtain ⟨p, hdegree, hat, hvanish⟩ := exists_shift_poly points hpoints hcard ⟨delta⟩
  obtain ⟨cs, hlen, hcs⟩ := exists_coeffPoly threshold p hdegree
  obtain _ | ⟨c, cs⟩ := cs
  · simp at hlen
    omega
  have hconstant : c = ⟨delta⟩ := by
    rw [← hat, ← hcs]
    simp
  subst hconstant
  refine ⟨cs.map FieldByte.byte, by simp at hlen ⊢; omega, fun x hx => ?_⟩
  have hpoly : sharePoly delta (cs.map FieldByte.byte) = p := by
    rw [← hcs, sharePoly]
    simp [Function.comp_def]
  have hx0 := hvanish ⟨x⟩ (List.mem_toFinset.mpr (List.mem_map_of_mem hx))
  rw [← hpoly, eval_sharePoly] at hx0
  exact congrArg FieldByte.byte hx0

/-- The same for every byte of a secret at once. -/
theorem exists_shift_rows {threshold : Nat} {exposed : List UInt8}
    (hzero : (0 : UInt8) ∉ exposed) (hfew : exposed.length < threshold) (delta : Secret) :
    ∃ rows : List (List UInt8), rows.length = secretLen ∧
      (∀ row ∈ rows, row.length = threshold - 1) ∧
      ∀ x ∈ exposed, shareValue delta rows x = zeroSecret := by
  choose row hlen hvanish using fun byte : Fin secretLen =>
    exists_shift_row hzero hfew delta[byte]
  refine ⟨List.ofFn row, by simp, ?_, fun x hx => Vector.ext fun k hk => ?_⟩
  · intro r hr
    obtain ⟨byte, rfl⟩ := List.mem_ofFn.mp hr
    exact hlen byte
  · have hrow : (List.ofFn row).getD k [] = row ⟨k, hk⟩ := by
      rw [List.getD_eq_getElem _ _ (by simpa using hk), List.getElem_ofFn]
    simp only [shareValue, zeroSecret, Vector.getElem_ofFn, Vector.getElem_replicate, hrow]
    exact hvanish ⟨k, hk⟩ x hx

/-- Zero rows leave the zero secret zero at every coordinate. -/
theorem shareValue_zero (degree : Nat) (x : UInt8) :
    shareValue zeroSecret (List.replicate secretLen (List.replicate degree 0)) x = zeroSecret := by
  have hrow : evaluate 0 (List.replicate degree 0) x = 0 := by
    have hfold : (List.replicate degree (0 : UInt8)).foldr
        (fun coefficient value => mul value x ^^^ coefficient) 0 = 0 := by
      induction degree with
      | zero => rfl
      | succ degree ih => rw [List.replicate_succ, List.foldr_cons, ih, zero_mul_byte]; rfl
    rw [evaluate, hfold, zero_mul_byte]
    rfl
  refine Vector.ext fun k hk => ?_
  have hget : (List.replicate secretLen (List.replicate degree (0 : UInt8))).getD k [] =
      List.replicate degree 0 := by
    rw [List.getD_eq_getElem _ _ (by simpa using hk), List.getElem_replicate]
  simp only [shareValue, zeroSecret, Vector.getElem_ofFn, Vector.getElem_replicate, hget,
    Fin.getElem_fin, hrow]

end Leelo.Sss
