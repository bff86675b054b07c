import Mathlib.Data.List.Induction
import Mathlib.Tactic.Linarith
import Leelo.Core.Binary64
import Leelo.Core.Json

/-!
# Decimal text of doubles

The text of a double is a sign, then a word for a number that is infinite or none, or
digits with a point and an exponent. A number is printed with nine decimal places. Short
digit strings are read as finite numbers that are not negative.
-/

namespace Leelo.Core

open Json (utf8)

/-- A decimal digit. -/
def isDigit (byte : UInt8) : Bool := 48 ≤ byte && byte ≤ 57

/-- The number that a string of digits spells. -/
def digitsValue (digits : Bytes) : Nat :=
  digits.foldl (fun value digit => 10 * value + (digit.toNat - 48)) 0

namespace F64

/-- Whether the text begins with a minus, and what follows a sign. -/
def readSign : Bytes → Bool × Bytes
  | [] => (false, [])
  | byte :: text =>
    if byte = 45 then (true, text) else if byte = 43 then (false, text) else (false, byte :: text)

/-- The digits after a point, and the rest. -/
def readFraction : Bytes → Bytes × Bytes
  | [] => ([], [])
  | byte :: text => if byte = 46 then text.span isDigit else ([], byte :: text)

/-- The exponent of a number, zero where none is written. -/
def readExponent : Bytes → Option ℤ
  | [] => some 0
  | mark :: text =>
    let sign := readSign text
    if (mark = 101 ∨ mark = 69) ∧ sign.2 ≠ [] ∧ sign.2.all isDigit then
      some (if sign.1 then -digitsValue sign.2 else digitsValue sign.2)
    else none

/-- A number without its sign: digits around a point, then an exponent. -/
def readNumber (text : Bytes) : Option ℚ :=
  let whole := text.span isDigit
  let fraction := readFraction whole.2
  if whole.1 = [] ∧ fraction.1 = [] then none
  else (readExponent fraction.2).map fun exponent =>
    digitsValue (whole.1 ++ fraction.1) * (10 : ℚ) ^ (exponent - (fraction.1.length : ℤ))

/-- Folds the capital letters. -/
def lowercase (byte : UInt8) : UInt8 := if 65 ≤ byte && byte ≤ 90 then byte + 32 else byte

/-- The standard library's reader of doubles. -/
def parse (text : Bytes) : Option F64 :=
  let sign := readSign text
  let word := sign.2.map lowercase
  if word = utf8 "inf" ∨ word = utf8 "infinity" then some (infinite sign.1)
  else if word = utf8 "nan" then some nan
  else (readNumber sign.2).map fun value => ofRat (if sign.1 then -value else value)

/-- The nearest number of nine decimal places, the even one of two. -/
def printNine : F64 → Bytes
  | nan => utf8 "NaN"
  | infinite negative => (if negative then [45] else []) ++ utf8 "inf"
  | finite value =>
    let units := (roundHalfEven (|value| * 10 ^ 9)).toNat
    (if value < 0 then [45] else []) ++ decimal (units / 10 ^ 9) ++
      46 :: (decimal (units % 10 ^ 9)).leftpad 9 48

theorem roundHalfEven_bounds (q : ℚ) : ⌊q⌋ ≤ roundHalfEven q ∧ roundHalfEven q ≤ ⌊q⌋ + 1 := by
  unfold roundHalfEven
  dsimp only
  split_ifs <;> omega

theorem roundHalfEven_nonneg {q : ℚ} (h : 0 ≤ q) : 0 ≤ roundHalfEven q :=
  le_trans (Int.floor_nonneg.mpr h) (roundHalfEven_bounds q).1

/-- Rounding adds at most one. -/
theorem roundHalfEven_le (q : ℚ) : (roundHalfEven q : ℚ) ≤ q + 1 := by
  have hround : (roundHalfEven q : ℚ) ≤ ⌊q⌋ + 1 := by exact_mod_cast (roundHalfEven_bounds q).2
  have hfloor := Int.floor_le q
  linarith

/-- A moderate number is rounded to a finite one. -/
theorem ofRat_nonneg {q : ℚ} (hq : 0 ≤ q) (hlt : q < 2 ^ 1000) :
    ∃ value, ofRat q = finite value ∧ 0 ≤ value ∧ value ≤ 2 * q + 1 := by
  let exponent := Max.max (Int.log 2 |q| - 52) (-1074)
  let value := roundHalfEven (q / (2 : ℚ) ^ exponent) * (2 : ℚ) ^ exponent
  have hpow : (0 : ℚ) < 2 ^ exponent := zpow_pos (by norm_num) _
  have hnonneg : 0 ≤ value := by
    have hround : (0 : ℚ) ≤ roundHalfEven (q / 2 ^ exponent) := by
      exact_mod_cast roundHalfEven_nonneg (div_nonneg hq hpow.le)
    exact mul_nonneg hround hpow.le
  -- A unit of the last digit above one comes from the logarithm of the number.
  have hunit : (2 : ℚ) ^ exponent ≤ q + 1 := by
    rcases le_or_gt exponent 0 with hsmall | hlarge
    · have hone : (2 : ℚ) ^ exponent ≤ 2 ^ (0 : ℤ) := zpow_le_zpow_right₀ (by norm_num) hsmall
      rw [zpow_zero] at hone
      linarith
    · have hlog : exponent ≤ Int.log 2 |q| ∧ 0 < Int.log 2 |q| := by omega
      have hpos : 0 < |q| := by
        rw [abs_pos]
        rintro rfl
        rw [abs_zero, Int.log_zero_right] at hlog
        exact lt_irrefl _ hlog.2
      have hself := Int.zpow_log_le_self Nat.one_lt_two hpos
      have hmono : (2 : ℚ) ^ exponent ≤ 2 ^ Int.log 2 |q| :=
        zpow_le_zpow_right₀ (by norm_num) hlog.1
      rw [abs_of_nonneg hq] at hself hmono
      exact (hmono.trans (by exact_mod_cast hself)).trans (by linarith)
  have hle : value ≤ 2 * q + 1 := by
    have hround := mul_le_mul_of_nonneg_right (roundHalfEven_le (q / 2 ^ exponent)) hpow.le
    rw [add_mul, one_mul, div_mul_cancel₀ _ hpow.ne'] at hround
    linarith
  refine ⟨value, ?_, hnonneg, hle⟩
  have hbelow : ¬(2 : ℚ) ^ 1024 ≤ |value| := by
    rw [abs_of_nonneg hnonneg, not_le]
    refine hle.trans_lt ?_
    have hgap : ∀ bound : ℚ, 1 ≤ bound → q < bound → 2 * q + 1 < bound * 2 ^ 24 := by
      intro bound hone hbound
      linarith
    have hlimit := hgap (2 ^ 1000) (one_le_pow₀ (by norm_num)) hlt
    rwa [← pow_add] at hlimit
  exact if_neg hbelow

theorem digitsValue_lt {digits : Bytes} (h : ∀ digit ∈ digits, isDigit digit = true) :
    digitsValue digits < 10 ^ digits.length := by
  induction digits using List.reverseRecOn with
  | nil => exact Nat.one_pos
  | append_singleton digits digit ih =>
    have hdigits := ih fun other hother => h other (List.mem_append_left _ hother)
    have hdigit := h digit (List.mem_append_right _ (List.mem_singleton_self _))
    simp only [isDigit, Bool.and_eq_true, decide_eq_true_eq, UInt8.le_iff_toNat_le] at hdigit
    have hhigh : digit.toNat ≤ 57 := hdigit.2
    rw [digitsValue, List.foldl_append, List.length_append, List.length_singleton, pow_succ]
    change 10 * digitsValue digits + (digit.toNat - 48) < _
    omega

/-- A printed number consists of digits. -/
theorem isDigit_decimal (value : Nat) : ∀ digit ∈ decimal value, isDigit digit = true := by
  intro digit hdigit
  obtain ⟨c, hc, rfl⟩ := List.mem_map.mp hdigit
  have hrange := Nat.isDigit_of_mem_toDigits (by omega) (by omega) hc
  simp only [Char.isDigit, Bool.and_eq_true, decide_eq_true_eq] at hrange
  have hlow : 48 ≤ c.toNat := hrange.1
  have hhigh : c.toNat ≤ 57 := hrange.2
  simp only [isDigit, Bool.and_eq_true, decide_eq_true_eq, UInt8.le_iff_toNat_le,
    UInt8.toNat_ofNat']
  change 48 ≤ c.toNat % 256 ∧ c.toNat % 256 ≤ 57
  omega

theorem decimal_ne_nil (value : Nat) : decimal value ≠ [] := by
  rw [decimal, ne_eq, List.map_eq_nil_iff]
  exact Nat.toDigits_ne_nil

theorem length_decimal_le {value places : Nat} (h : value < 10 ^ places) (hpos : 0 < places) :
    (decimal value).length ≤ places := by
  rw [decimal, List.length_map]
  exact (Nat.length_toDigits_le_iff (by omega) hpos).mpr h

private theorem span_digits {whole tail : Bytes} (hwhole : ∀ digit ∈ whole, isDigit digit = true)
    (htail : ∀ byte ∈ tail.head?, isDigit byte = false) :
    (whole ++ tail).span isDigit = (whole, tail) := by
  have hrest : tail.takeWhile isDigit = [] ∧ tail.dropWhile isDigit = tail := by
    cases tail with
    | nil => exact ⟨rfl, rfl⟩
    | cons byte rest =>
      have hbyte : ¬isDigit byte = true := by simp [htail byte rfl]
      exact ⟨List.takeWhile_cons_of_neg hbyte, List.dropWhile_cons_of_neg hbyte⟩
  rw [List.span_eq_takeWhile_dropWhile, List.takeWhile_append_of_pos hwhole,
    List.dropWhile_append_of_pos hwhole, hrest.1, hrest.2, List.append_nil]

private theorem digit_fin : ∀ byte : Fin 256, isDigit (UInt8.ofNat byte.val) = true →
    UInt8.ofNat byte.val ≠ 45 ∧ UInt8.ofNat byte.val ≠ 43 ∧
      lowercase (UInt8.ofNat byte.val) ≠ 105 ∧ lowercase (UInt8.ofNat byte.val) ≠ 110 := by
  decide +kernel

/-- Text that begins with a digit is read as a number. -/
private theorem parse_of_digit {digit : UInt8} {text : Bytes} (h : isDigit digit = true) :
    parse (digit :: text) = (readNumber (digit :: text)).map ofRat := by
  have hdigit := digit_fin ⟨digit.toNat, digit.toNat_lt⟩
  rw [UInt8.ofNat_toNat] at hdigit
  obtain ⟨hminus, hplus, hi, hn⟩ := hdigit h
  have hsign : readSign (digit :: text) = (false, digit :: text) := by
    rw [readSign, if_neg hminus, if_neg hplus]
  have hword : ∀ {byte : UInt8} {word : Bytes}, lowercase digit ≠ byte → word.head? = some byte →
      (digit :: text).map lowercase ≠ word := by
    rintro byte word hne hhead rfl
    exact hne (Option.some.inj hhead)
  rw [parse, hsign]
  dsimp only
  rw [if_neg (not_or.mpr ⟨hword hi (by decide), hword hi (by decide)⟩),
    if_neg (hword hn (by decide))]
  rfl

/-- At most sixty digits around a point are a finite number that is not negative. -/
theorem parse_digits {whole tail fraction : Bytes} (hne : whole ≠ [])
    (hwhole : ∀ digit ∈ whole, isDigit digit = true)
    (htail : ∀ byte ∈ tail.head?, isDigit byte = false)
    (hread : readFraction tail = (fraction, []))
    (hfraction : ∀ digit ∈ fraction, isDigit digit = true)
    (hlength : whole.length + fraction.length ≤ 60) :
    ∃ value, parse (whole ++ tail) = some (finite value) ∧ 0 ≤ value := by
  have hnumber : readNumber (whole ++ tail) =
      some (digitsValue (whole ++ fraction) * (10 : ℚ) ^ (0 - (fraction.length : ℤ))) := by
    rw [readNumber, span_digits hwhole htail]
    dsimp only
    rw [hread, if_neg fun h => hne h.1]
    rfl
  have hnonneg : 0 ≤ digitsValue (whole ++ fraction) * (10 : ℚ) ^ (0 - (fraction.length : ℤ)) :=
    mul_nonneg (Nat.cast_nonneg _) (zpow_nonneg (by norm_num) _)
  have hbound : digitsValue (whole ++ fraction) * (10 : ℚ) ^ (0 - (fraction.length : ℤ)) <
      2 ^ 1000 := by
    have hdigits : digitsValue (whole ++ fraction) < 10 ^ 60 := by
      refine Nat.lt_of_lt_of_le (digitsValue_lt fun digit hdigit => ?_)
        (Nat.pow_le_pow_right (by omega) (by rwa [List.length_append]))
      exact (List.mem_append.mp hdigit).elim (hwhole digit) (hfraction digit)
    have hcast : (digitsValue (whole ++ fraction) : ℚ) < 10 ^ 60 := by exact_mod_cast hdigits
    have hscale : (10 : ℚ) ^ (0 - (fraction.length : ℤ)) ≤ 10 ^ (0 : ℤ) :=
      zpow_le_zpow_right₀ (by norm_num) (by omega)
    rw [zpow_zero] at hscale
    have hpower : (10 : ℚ) ^ 60 ≤ 2 ^ 1000 :=
      le_trans (by norm_num : (10 : ℚ) ^ 60 ≤ 2 ^ 200) (pow_le_pow_right₀ (by norm_num) (by omega))
    exact lt_of_le_of_lt (mul_le_of_le_one_right (Nat.cast_nonneg _) hscale)
      (hcast.trans_le hpower)
  obtain ⟨value, hvalue, hvalue0, -⟩ := ofRat_nonneg hnonneg hbound
  refine ⟨value, ?_, hvalue0⟩
  obtain ⟨digit, whole, rfl⟩ := List.exists_cons_of_ne_nil hne
  rw [List.cons_append, parse_of_digit (hwhole digit List.mem_cons_self), ← List.cons_append,
    hnumber, Option.map_some, hvalue]

theorem parse_decimal {value : Nat} (h : value < 10 ^ 60) :
    ∃ double, parse (decimal value) = some (finite double) ∧ 0 ≤ double := by
  have hread : readFraction [] = ([], []) := rfl
  have hlength : (decimal value).length + 0 ≤ 60 := length_decimal_le h (by omega)
  have hparse := parse_digits (decimal_ne_nil value) (isDigit_decimal value)
    (fun byte hbyte => by cases hbyte) hread (List.forall_mem_nil _) hlength
  rwa [List.append_nil] at hparse

private theorem isDigit_leftpad {digits : Bytes} (h : ∀ digit ∈ digits, isDigit digit = true) :
    ∀ digit ∈ digits.leftpad 9 48, isDigit digit = true := by
  intro digit hdigit
  rcases List.mem_append.mp hdigit with hdigit | hdigit
  · rw [List.eq_of_mem_replicate hdigit]
    rfl
  · exact h digit hdigit

/-- What is printed for a number below ten billion billions. -/
theorem printNine_nonneg {value : ℚ} (h : 0 ≤ value) (hlt : value < 10 ^ 19) :
    ∃ whole fraction, printNine (finite value) = whole ++ 46 :: fraction ∧ whole ≠ [] ∧
      (∀ digit ∈ whole, isDigit digit = true) ∧ (∀ digit ∈ fraction, isDigit digit = true) ∧
      whole.length ≤ 20 ∧ fraction.length = 9 := by
  let units := (roundHalfEven (|value| * 10 ^ 9)).toNat
  have hprint : printNine (finite value) =
      decimal (units / 10 ^ 9) ++ 46 :: (decimal (units % 10 ^ 9)).leftpad 9 48 := by
    rw [printNine, if_neg (not_lt.mpr h)]
    rfl
  refine ⟨_, _, hprint, decimal_ne_nil _, isDigit_decimal _, isDigit_leftpad (isDigit_decimal _),
    length_decimal_le ?_ (by omega), ?_⟩
  · have hround : (units : ℚ) ≤ |value| * 10 ^ 9 + 1 := by
      have hnonneg : 0 ≤ roundHalfEven (|value| * 10 ^ 9) :=
        roundHalfEven_nonneg (mul_nonneg (abs_nonneg value) (by norm_num))
      have hunits : ((units : ℤ) : ℚ) = (roundHalfEven (|value| * 10 ^ 9) : ℚ) := by
        rw [Int.toNat_of_nonneg hnonneg]
      rw [Int.cast_natCast] at hunits
      rw [hunits]
      exact roundHalfEven_le _
    rw [abs_of_nonneg h] at hround
    have hunits : (units : ℚ) < 10 ^ 29 := by linarith
    have hnat : units < 10 ^ 29 := by exact_mod_cast hunits
    omega
  · have hlength : (decimal (units % 10 ^ 9)).length ≤ 9 :=
      length_decimal_le (Nat.mod_lt _ (by omega)) (by omega)
    rw [List.length_leftpad]
    omega

theorem parse_point {whole fraction : Bytes} (hne : whole ≠ [])
    (hwhole : ∀ digit ∈ whole, isDigit digit = true)
    (hfraction : ∀ digit ∈ fraction, isDigit digit = true)
    (hlength : whole.length + fraction.length ≤ 60) :
    ∃ value, parse (whole ++ 46 :: fraction) = some (finite value) ∧ 0 ≤ value := by
  have hread : readFraction (46 :: fraction) = (fraction, []) := by
    have hspan : (fraction ++ []).span isDigit = (fraction, []) :=
      span_digits hfraction fun byte hbyte => by cases hbyte
    rw [List.append_nil] at hspan
    rw [readFraction, if_pos rfl, hspan]
  refine parse_digits hne hwhole (fun byte hbyte => ?_) hread hfraction hlength
  cases hbyte
  rfl

end F64

end Leelo.Core
