import Leelo.Sss.Interpolation
import Mathlib.Data.List.GetD

/-!
# Bytewise threshold sharing

`split` draws one coefficient row per secret byte and evaluates it at the
coordinates `1` through `count`. `reconstruct` interpolates from the first
`threshold` shares and compares every surplus share. Its result is exactly the
value at zero of the low-degree polynomials through all shares, and any
disagreement is reported as `inconsistentShares`.
-/

namespace Leelo.Sss

open Polynomial Leelo.Core

/-- The fixed length in bytes of secrets and share values. -/
abbrev secretLen : Nat := 32

/-- The largest number of shares at one policy node. -/
def maxShares : UInt8 := 31

/-- A fixed-size secret or share value. -/
abbrev Secret := Vector UInt8 secretLen

/-- A share pairs a public nonzero coordinate with its secret value. -/
structure Share where
  /-- The interpolation coordinate. -/
  index : UInt8
  /-- The share bytes. -/
  value : Secret
  /-- Both constructors of the source refuse the coordinate zero. -/
  nonzero : index ≠ 0
  deriving DecidableEq

/-- Public validation errors of the sharing crate. -/
inductive Error where
  | invalidThreshold (threshold : UInt8)
  | invalidShareCount (count : Nat)
  | insufficientShares (required : UInt8) (provided : Nat)
  | zeroIndex
  | duplicateIndex (index : UInt8)
  | entropyUnavailable
  | inconsistentShares
  deriving DecidableEq, Repr

/-- Import an authenticated share at a nonzero coordinate. -/
def Share.fromParts (index : UInt8) (value : Secret) : Except Error Share :=
  if h : index = 0 then .error .zeroIndex else .ok ⟨index, value, h⟩

theorem Share.fromParts_ok {index : UInt8} (h : index ≠ 0) (value : Secret) :
    Share.fromParts index value = .ok ⟨index, value, h⟩ := dif_neg h

/-- A threshold lies between one and the largest number of shares. -/
def validateThreshold (threshold : UInt8) : Except Error Unit :=
  if threshold = 0 ∨ threshold > maxShares then .error (.invalidThreshold threshold) else .ok ()

/-- A random generator fills a buffer of the requested length or fails. -/
structure Rng (ρ : Type) where
  /-- Fill `n` bytes and advance the generator state. -/
  tryFillBytes : (n : Nat) → ρ → Option (Vector UInt8 n × ρ)

/-- The generator never refuses a request; nothing else is assumed of its bytes. -/
def Rng.Fills {ρ : Type} (rng : Rng ρ) : Prop := ∀ n r, (rng.tryFillBytes n r).isSome = true

/-- The byte loop of `split`: draw a coefficient row, then set that byte of every share. -/
def splitBytes {ρ : Type} (rng : Rng ρ) (secret : Secret) (degree : Nat) :
    List (Fin secretLen) → List Share → ρ → Except Error (List Share × ρ)
  | [], shares, r => .ok (shares, r)
  | byte :: bytes, shares, r =>
    match rng.tryFillBytes degree r with
    | none => .error .entropyUnavailable
    | some (coefficients, r) =>
      splitBytes rng secret degree bytes
        (shares.map fun share =>
          { share with
            value := share.value.set byte
              (evaluate secret[byte] coefficients.toList share.index) }) r

theorem ofNat_succ_ne_zero {k : Nat} (hk : k + 1 < 256) : UInt8.ofNat (k + 1) ≠ 0 := by
  intro h
  have hz := congrArg UInt8.toNat h
  rw [UInt8.toNat_ofNat_of_lt' hk] at hz
  simp at hz

variable {ρ : Type} {rng : Rng ρ} {r r' : ρ} {threshold count : UInt8} {shares : List Share}

theorem coordinate_ne_zero (i : Fin count.toNat) :
    UInt8.ofNat (i.val + 1) ≠ 0 :=
  ofNat_succ_ne_zero (by have := i.isLt; have := count.toNat_lt; omega)

/-- Share a secret at coordinates `1` through `count`. -/
def split {ρ : Type} (rng : Rng ρ) (secret : Secret) (threshold count : UInt8) (r : ρ) :
    Except Error (List Share × ρ) := do
  validateThreshold threshold
  if count = 0 ∨ count > maxShares then throw (.invalidShareCount count.toNat)
  if threshold > count then throw (.insufficientShares threshold count.toNat)
  let shares := (List.finRange count.toNat).map fun i =>
    (⟨UInt8.ofNat (i.val + 1), Vector.replicate secretLen 0, coordinate_ne_zero i⟩ : Share)
  let degree := (threshold - 1).toNat
  splitBytes rng secret degree (List.finRange secretLen) shares r

/-- Interpolate every byte of the shares at one target coordinate. -/
def interpolate (shares : List Share) (target : UInt8) : Secret :=
  let coefficients := weights (shares.map Share.index) target
  Vector.ofFn fun byte => weightedSum (shares.map fun share => share.value[byte]) coefficients

/-- Reject zero and repeated coordinates, each share against those before it. -/
def validateCoordinates : List Share → List Share → Except Error Unit
  | _, [] => .ok ()
  | before, share :: shares =>
    if share.index = 0 then .error .zeroIndex
    else if before.any fun other => other.index == share.index then
      .error (.duplicateIndex share.index)
    else validateCoordinates (before ++ [share]) shares

/-- Accumulate every differing bit of the surplus shares. -/
def disagreement (basis surplus : List Share) : UInt8 :=
  surplus.foldl (fun acc share =>
    let expected := interpolate basis share.index
    (List.finRange secretLen).foldl (fun acc byte =>
      acc ||| (expected[byte] ^^^ share.value[byte])) acc) 0

/-- Recover a candidate secret and check every surplus share against it. -/
def reconstruct (threshold : UInt8) (shares : List Share) : Except Error Secret := do
  validateThreshold threshold
  if shares.length > maxShares.toNat then throw (.invalidShareCount shares.length)
  if shares.length < threshold.toNat then
    throw (.insufficientShares threshold shares.length)
  validateCoordinates [] shares
  let basis := shares.take threshold.toNat
  if disagreement basis (shares.drop threshold.toNat) ≠ 0 then throw .inconsistentShares
  return interpolate basis 0

/-- The rows drawn by `count` consecutive byte rounds. -/
def Rng.fillRows {ρ : Type} (rng : Rng ρ) (degree : Nat) :
    Nat → ρ → Option (List (List UInt8) × ρ)
  | 0, r => some ([], r)
  | count + 1, r =>
    match rng.tryFillBytes degree r with
    | none => none
    | some (row, r) =>
      match rng.fillRows degree count r with
      | none => none
      | some (rows, r) => some (row.toList :: rows, r)

/-- The rows drawn have the shape asked for. -/
theorem Rng.fillRows_shape {degree count : Nat} {rows : List (List UInt8)}
    (h : rng.fillRows degree count r = some (rows, r')) :
    rows.length = count ∧ ∀ row ∈ rows, row.length = degree := by
  induction count generalizing r rows with
  | zero =>
    obtain ⟨rfl, rfl⟩ : [] = rows ∧ r = r' := by simpa [fillRows] using h
    simp
  | succ count ih =>
    simp only [fillRows] at h
    cases hrow : rng.tryFillBytes degree r with
    | none => simp [hrow] at h
    | some first =>
      obtain ⟨row, r1⟩ := first
      cases hrest : rng.fillRows degree count r1 with
      | none => simp [hrow, hrest] at h
      | some rest =>
        obtain ⟨rest, r2⟩ := rest
        obtain ⟨rfl, rfl⟩ : row.toList :: rest = rows ∧ r2 = r' := by
          simpa [hrow, hrest] using h
        obtain ⟨hlen, hrows⟩ := ih hrest
        exact ⟨by simp [hlen], by simpa using hrows⟩

/-- A generator that fills every request draws every row. -/
theorem Rng.Fills.fillRows (h : rng.Fills) (degree count : Nat) (r : ρ) :
    ∃ rows r', rng.fillRows degree count r = some (rows, r') := by
  induction count generalizing r with
  | zero => exact ⟨[], r, rfl⟩
  | succ count ih =>
    obtain ⟨⟨row, r1⟩, hrow⟩ := Option.isSome_iff_exists.mp (h degree r)
    obtain ⟨rows, r2, hrows⟩ := ih r1
    exact ⟨row.toList :: rows, r2, by simp only [Rng.fillRows, hrow, hrows]⟩

/-- The share value at one coordinate, one coefficient row per byte. -/
def shareValue (secret : Secret) (rows : List (List UInt8)) (x : UInt8) : Secret :=
  Vector.ofFn fun byte => evaluate secret[byte] (rows.getD byte []) x

/-- The shares that given rows assign to coordinates `1` through `count`. -/
def sharesOf (secret : Secret) (rows : List (List UInt8)) (count : UInt8) : List Share :=
  (List.finRange count.toNat).map fun i =>
    ⟨UInt8.ofNat (i.val + 1), shareValue secret rows (UInt8.ofNat (i.val + 1)),
      coordinate_ne_zero i⟩

/-- The byte loop draws its rows in order and leaves every other byte alone. -/
private theorem splitBytes_eq (rng : Rng ρ) (secret : Secret) (degree : Nat)
    (bytes : List (Fin secretLen)) (hnodup : bytes.Nodup) (shares : List Share) (r : ρ) :
    splitBytes rng secret degree bytes shares r =
      match rng.fillRows degree bytes.length r with
      | none => .error .entropyUnavailable
      | some (rows, r') => .ok (shares.map fun share =>
          { share with
            value := Vector.ofFn fun byte =>
              match rows[bytes.idxOf byte]? with
              | none => share.value[byte]
              | some row => evaluate secret[byte] row share.index }, r') := by
  induction bytes generalizing shares r with
  | nil =>
    simp [splitBytes, Rng.fillRows]
  | cons byte bytes ih =>
    obtain ⟨hbyte, hnodup⟩ := List.nodup_cons.mp hnodup
    simp only [splitBytes, Rng.fillRows, List.length_cons]
    cases hrow : rng.tryFillBytes degree r with
    | none => rfl
    | some first =>
      obtain ⟨row, r1⟩ := first
      simp only [ih hnodup]
      cases hrest : rng.fillRows degree bytes.length r1 with
      | none => rfl
      | some rest =>
        obtain ⟨rows, r2⟩ := rest
        have hlen := (Rng.fillRows_shape hrest).1
        refine congrArg (fun l => Except.ok (l, r2)) ?_
        rw [List.map_map]
        refine List.map_congr_left fun share _ => ?_
        simp only [Function.comp_apply, Share.mk.injEq, true_and]
        refine Vector.ext fun k hk => ?_
        simp only [Vector.getElem_ofFn, Fin.getElem_fin]
        by_cases h : byte = ⟨k, hk⟩
        · -- the byte set in this round is never set again
          subst h
          have hout : rows[bytes.idxOf (⟨k, hk⟩ : Fin secretLen)]? = none := by
            rw [List.getElem?_eq_none_iff, hlen, List.idxOf_eq_length hbyte]
          simp [hout]
        · have hne : k ≠ byte.val := fun he => h (Fin.ext he.symm)
          rw [List.idxOf_cons_ne _ h, List.getElem?_cons_succ]
          cases rows[bytes.idxOf (⟨k, hk⟩ : Fin secretLen)]? with
          | none => simp [Vector.getElem_set_ne, Ne.symm hne]
          | some row => rfl

private theorem validateThreshold_ok (hpos : 0 < threshold.toNat)
    (hmax : threshold.toNat ≤ maxShares.toNat) : validateThreshold threshold = .ok () := by
  have hz : threshold ≠ 0 := by rintro rfl; simp at hpos
  have hm : ¬ threshold > maxShares := by
    rw [gt_iff_lt, UInt8.lt_iff_toNat_lt]
    omega
  simp [validateThreshold, hz, hm]

/-- Valid parameters make `split` fail only for lack of entropy; its shares are
determined by the drawn rows. -/
theorem split_eq (rng : Rng ρ) (secret : Secret) (r : ρ) (hpos : 0 < threshold.toNat)
    (hle : threshold.toNat ≤ count.toNat) (hmax : count.toNat ≤ maxShares.toNat) :
    split rng secret threshold count r =
      match rng.fillRows (threshold.toNat - 1) secretLen r with
      | none => .error .entropyUnavailable
      | some (rows, r') => .ok (sharesOf secret rows count, r') := by
  have hdegree : (threshold - 1).toNat = threshold.toNat - 1 := by
    have hone : (1 : UInt8) ≤ threshold := UInt8.le_iff_toNat_le.mpr hpos
    rw [UInt8.toNat_sub_of_le _ _ hone]
    rfl
  have hcount : ¬ (count = 0 ∨ count > maxShares) := by
    rw [not_or, gt_iff_lt, UInt8.lt_iff_toNat_lt]
    exact ⟨by rintro rfl; simp at hle; omega, by omega⟩
  have hgt : ¬ threshold > count := by
    rw [gt_iff_lt, UInt8.lt_iff_toNat_lt]
    omega
  simp only [split, validateThreshold_ok hpos (hle.trans hmax), hcount, hgt, hdegree]
  change splitBytes _ _ _ _ _ _ = _
  rw [splitBytes_eq rng secret _ _ (List.nodup_finRange _), List.length_finRange]
  cases hrows : rng.fillRows (threshold.toNat - 1) secretLen r with
  | none => rfl
  | some drawn =>
    obtain ⟨rows, r'⟩ := drawn
    have hlen := (Rng.fillRows_shape hrows).1
    simp only [sharesOf, List.map_map, Except.ok.injEq, Prod.mk.injEq, and_true]
    refine List.map_congr_left fun i _ => ?_
    simp only [Function.comp_apply, Share.mk.injEq, true_and, shareValue]
    refine Vector.ext fun k hk => ?_
    have hk' : k < rows.length := by omega
    simp [List.idxOf_finRange, hk']

/-- Every share lies on the polynomials of its rows. -/
theorem eval_shareValue (secret : Secret) (rows : List (List UInt8)) (x : UInt8)
    (byte : Fin secretLen) :
    (sharePoly secret[byte] (rows.getD byte [])).eval ⟨x⟩ =
      ⟨(shareValue secret rows x)[byte]⟩ := by
  rw [eval_sharePoly]
  simp [shareValue]

/-- The size and coordinate conditions under which reconstruction compares values. -/
structure ValidShares (threshold : UInt8) (shares : List Share) : Prop where
  /-- A threshold of zero is refused. -/
  positive : 0 < threshold.toNat
  /-- Enough shares are present to interpolate. -/
  enough : threshold.toNat ≤ shares.length
  /-- No node has more shares than the format permits. -/
  bounded : shares.length ≤ maxShares.toNat
  /-- Coordinates are pairwise distinct. -/
  distinct : (shares.map Share.index).Nodup

/-- Low-degree polynomials pass through every share and have the secret at zero. -/
def OnPolynomials (threshold : Nat) (shares : List Share) (secret : Secret) : Prop :=
  ∀ byte : Fin secretLen, ∃ p : FieldByte[X], p.degree < threshold ∧
    (∀ share ∈ shares, p.eval ⟨share.index⟩ = ⟨share.value[byte]⟩) ∧
    p.eval 0 = ⟨secret[byte]⟩

private theorem validateCoordinates_ok (before shares : List Share)
    (h : ((before ++ shares).map Share.index).Nodup) :
    validateCoordinates before shares = .ok () := by
  induction shares generalizing before with
  | nil => rfl
  | cons share shares ih =>
    have hfresh : (before.any fun other => other.index == share.index) = false := by
      rw [List.any_eq_false]
      intro other hother he
      rw [List.map_append, List.map_cons, List.nodup_append] at h
      exact h.2.2 _ (List.mem_map_of_mem hother) _ (List.mem_cons_self ..) (by simpa using he)
    rw [validateCoordinates, if_neg share.nonzero, hfresh]
    exact ih (before ++ [share]) (by simpa using h)

private theorem foldl_or_eq_zero {α : Type} (f : α → UInt8) (l : List α) (acc : UInt8) :
    l.foldl (fun acc a => acc ||| f a) acc = 0 ↔ acc = 0 ∧ ∀ a ∈ l, f a = 0 := by
  induction l generalizing acc with
  | nil => simp
  | cons a l ih =>
    rw [List.foldl_cons, ih, UInt8.or_eq_zero_iff]
    simp [and_assoc]

/-- No differing bit means that every surplus share equals its interpolation. -/
theorem disagreement_eq_zero_iff (basis surplus : List Share) :
    disagreement basis surplus = 0 ↔
      ∀ share ∈ surplus, interpolate basis share.index = share.value := by
  have hfold (l : List Share) : ∀ acc : UInt8, l.foldl (fun acc share =>
      let expected := interpolate basis share.index
      (List.finRange secretLen).foldl (fun acc byte =>
        acc ||| (expected[byte] ^^^ share.value[byte])) acc) acc = 0 ↔
      acc = 0 ∧ ∀ share ∈ l, interpolate basis share.index = share.value := by
    induction l with
    | nil => simp
    | cons share l ih =>
      intro acc
      have hshare : (∀ byte ∈ List.finRange secretLen,
          (interpolate basis share.index)[byte] ^^^ share.value[byte] = 0) ↔
          interpolate basis share.index = share.value := by
        constructor
        · intro h
          exact Vector.ext fun k hk => UInt8.xor_eq_zero_iff.mp (h ⟨k, hk⟩ (List.mem_finRange _))
        · intro h byte _
          rw [h, UInt8.xor_self]
      rw [List.foldl_cons, ih, foldl_or_eq_zero, hshare]
      simp [and_assoc]
  rw [disagreement, hfold]
  simp

/-- Interpolation from a full basis evaluates the polynomials through it. -/
theorem interpolate_eq {basis : List Share} (hdistinct : (basis.map Share.index).Nodup)
    (byte : Fin secretLen) {p : FieldByte[X]} (hp : p.degree < basis.length)
    (heval : ∀ share ∈ basis, p.eval ⟨share.index⟩ = ⟨share.value[byte]⟩) (target : UInt8) :
    (⟨(interpolate basis target)[byte]⟩ : FieldByte) = p.eval ⟨target⟩ := by
  have hvalues : basis.map (fun share => share.value[byte]) =
      (basis.map Share.index).map fun x => (p.eval ⟨x⟩).byte := by
    rw [List.map_map]
    exact List.map_congr_left fun share hshare => by simp [heval share hshare]
  rw [← weightedSum_eval hdistinct (by simpa using hp) target, ← hvalues]
  simp [interpolate]

/-- A basis of distinct coordinates always lies on some low-degree polynomial. -/
theorem exists_basis_poly {basis : List Share} (hdistinct : (basis.map Share.index).Nodup)
    (byte : Fin secretLen) : ∃ p : FieldByte[X], p.degree < basis.length ∧
      ∀ share ∈ basis, p.eval ⟨share.index⟩ = ⟨share.value[byte]⟩ := by
  have hinj : Function.Injective fun i : Fin basis.length => (⟨basis[i].index⟩ : FieldByte) := by
    intro i j hij
    have h : (basis.map Share.index)[i.val] = (basis.map Share.index)[j.val] := by
      simpa using congrArg FieldByte.byte hij
    exact Fin.ext ((List.Nodup.getElem_inj_iff hdistinct).mp h)
  obtain ⟨p, hp, heval⟩ := exists_poly_through _ hinj fun i => ⟨basis[i].value[byte]⟩
  refine ⟨p, hp, fun share hshare => ?_⟩
  obtain ⟨i, hi, rfl⟩ := List.mem_iff_getElem.mp hshare
  exact heval ⟨i, hi⟩

/-- Past validation, reconstruction only compares the surplus shares. -/
private theorem reconstruct_eq (h : ValidShares threshold shares) :
    reconstruct threshold shares =
      if disagreement (shares.take threshold.toNat) (shares.drop threshold.toNat) = 0 then
        .ok (interpolate (shares.take threshold.toNat) 0)
      else .error .inconsistentShares := by
  have hthreshold := validateThreshold_ok h.positive (h.enough.trans h.bounded)
  have hmany : ¬ shares.length > maxShares.toNat := by have := h.bounded; omega
  have hfew : ¬ shares.length < threshold.toNat := by have := h.enough; omega
  have hcoordinates := validateCoordinates_ok [] shares h.distinct
  by_cases hd : disagreement (shares.take threshold.toNat) (shares.drop threshold.toNat) = 0
  · simp only [reconstruct, hthreshold, hmany, hfew, hcoordinates, hd]
    rfl
  · simp only [reconstruct, hthreshold, hmany, hfew, hcoordinates, if_neg hd, if_pos hd]
    rfl

/-- Reconstruction succeeds exactly on shares of one low-degree polynomial per byte. -/
theorem reconstruct_eq_ok_iff (h : ValidShares threshold shares) (secret : Secret) :
    reconstruct threshold shares = .ok secret ↔
      OnPolynomials threshold.toNat shares secret := by
  have hlen : (shares.take threshold.toNat).length = threshold.toNat := by
    rw [List.length_take, Nat.min_eq_left h.enough]
  have hdistinct : ((shares.take threshold.toNat).map Share.index).Nodup :=
    h.distinct.sublist ((List.take_sublist _ _).map _)
  rw [reconstruct_eq h]
  constructor
  · intro hok byte
    split at hok
    · rename_i hzero
      rw [disagreement_eq_zero_iff] at hzero
      obtain ⟨p, hp, heval⟩ := exists_basis_poly hdistinct byte
      refine ⟨p, by simpa [hlen] using hp, fun share hshare => ?_, ?_⟩
      · rw [← List.take_append_drop threshold.toNat shares, List.mem_append] at hshare
        rcases hshare with hbasis | hsurplus
        · exact heval share hbasis
        · rw [← interpolate_eq hdistinct byte hp heval, hzero share hsurplus]
      · rw [← Except.ok.inj hok, interpolate_eq hdistinct byte hp heval]
        rfl
    · cases hok
  · intro hpoly
    have hinterp (target : UInt8) (value : Secret)
        (hvalue : ∀ byte : Fin secretLen, ∀ p : FieldByte[X], p.degree < threshold.toNat →
          (∀ share ∈ shares, p.eval ⟨share.index⟩ = ⟨share.value[byte]⟩) →
          p.eval 0 = ⟨secret[byte]⟩ → p.eval ⟨target⟩ = ⟨value[byte]⟩) :
        interpolate (shares.take threshold.toNat) target = value := by
      refine Vector.ext fun k hk => ?_
      obtain ⟨p, hp, heval, hsecret⟩ := hpoly ⟨k, hk⟩
      have hat := interpolate_eq hdistinct ⟨k, hk⟩ (p := p) (by rwa [hlen])
        (fun share hshare => heval share (List.mem_of_mem_take hshare)) target
      exact congrArg FieldByte.byte (hat.trans (hvalue ⟨k, hk⟩ p hp heval hsecret))
    have hzero : disagreement (shares.take threshold.toNat) (shares.drop threshold.toNat) = 0 := by
      rw [disagreement_eq_zero_iff]
      intro share hshare
      exact hinterp share.index share.value fun byte p _ heval _ =>
        heval share (List.mem_of_mem_drop hshare)
    rw [if_pos hzero, hinterp 0 secret fun byte p _ _ hsecret => hsecret]

/-- Past validation the only possible error is a disagreement of the shares. -/
theorem reconstruct_cases (h : ValidShares threshold shares) :
    (∃ secret, reconstruct threshold shares = .ok secret) ∨
      reconstruct threshold shares = .error .inconsistentShares := by
  rw [reconstruct_eq h]
  split
  · exact Or.inl ⟨_, rfl⟩
  · exact Or.inr rfl

/-- A successful split evaluates rows of the right shape. -/
theorem split_eq_ok {secret : Secret} (hpos : 0 < threshold.toNat)
    (hle : threshold.toNat ≤ count.toNat) (hmax : count.toNat ≤ maxShares.toNat)
    (h : split rng secret threshold count r = .ok (shares, r')) :
    ∃ rows, shares = sharesOf secret rows count ∧ ∀ byte : Fin secretLen,
      (sharePoly secret[byte] (rows.getD byte [])).degree < threshold.toNat := by
  rw [split_eq rng secret r hpos hle hmax] at h
  cases hrows : rng.fillRows (threshold.toNat - 1) secretLen r with
  | none => simp [hrows] at h
  | some drawn =>
    obtain ⟨rows, r1⟩ := drawn
    obtain ⟨rfl, rfl⟩ : sharesOf secret rows count = shares ∧ r1 = r' := by
      simpa [hrows] using h
    obtain ⟨hcount, hrow⟩ := Rng.fillRows_shape hrows
    refine ⟨rows, rfl, fun byte => ?_⟩
    have hlength : (rows.getD byte []).length + 1 = threshold.toNat := by
      rw [List.getD_eq_getElem _ _ (by rw [hcount]; exact byte.isLt),
        hrow _ (List.getElem_mem _)]
      omega
    rw [← hlength]
    exact degree_sharePoly_lt _ _

theorem sharesOf_distinct (secret : Secret) (rows : List (List UInt8)) (count : UInt8) :
    ((sharesOf secret rows count).map Share.index).Nodup := by
  rw [sharesOf, List.map_map]
  apply (List.nodup_finRange count.toNat).map
  intro i j hij
  have hcount := count.toNat_lt
  have hi := i.isLt
  have hj := j.isLt
  have hnat := congrArg UInt8.toNat hij
  simp only [Function.comp_apply] at hnat
  rw [UInt8.toNat_ofNat_of_lt' (by simp only [UInt8.size]; omega),
    UInt8.toNat_ofNat_of_lt' (by simp only [UInt8.size]; omega)] at hnat
  exact Fin.ext (Nat.succ.inj hnat)

/-- All the shares of a split reconstruct its secret. -/
theorem reconstruct_split {secret : Secret} (hpos : 0 < threshold.toNat)
    (hle : threshold.toNat ≤ count.toNat) (hmax : count.toNat ≤ maxShares.toNat)
    (h : split rng secret threshold count r = .ok (shares, r')) :
    reconstruct threshold shares = .ok secret := by
  obtain ⟨rows, rfl, hdegree⟩ := split_eq_ok hpos hle hmax h
  have hlength : (sharesOf secret rows count).length = count.toNat := by
    rw [sharesOf, List.length_map, List.length_finRange]
  have hvalid : ValidShares threshold (sharesOf secret rows count) :=
    ⟨hpos, hlength ▸ hle, hlength ▸ hmax, sharesOf_distinct secret rows count⟩
  apply (reconstruct_eq_ok_iff hvalid secret).mpr
  intro byte
  refine ⟨_, hdegree byte, ?_, eval_sharePoly_zero _ _⟩
  intro share hshare
  obtain ⟨i, -, rfl⟩ := List.mem_map.mp hshare
  exact eval_shareValue secret rows _ byte

end Leelo.Sss
