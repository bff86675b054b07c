import Mathlib.Data.Int.Log
import Mathlib.Data.Rat.Floor

/-!
# Double-precision numbers

A number is not a number, infinite or a rational value. Results are rounded to nearest,
ties to even, with 53 binary digits and exponents down to -1074. The two zeros are one.
-/

namespace Leelo.Core

/-- A double: its exact rational value, an infinity, or no number. -/
inductive F64 where
  | nan
  | infinite (negative : Bool)
  | finite (value : ℚ)
  deriving DecidableEq, Repr

namespace F64

/-- The nearest integer, the even one of two. -/
def roundHalfEven (q : ℚ) : ℤ :=
  let part := q - ⌊q⌋
  if part < 1 / 2 then ⌊q⌋
  else if 1 / 2 < part then ⌊q⌋ + 1
  else if ⌊q⌋ % 2 = 0 then ⌊q⌋ else ⌊q⌋ + 1

/-- The nearest number. -/
def ofRat (q : ℚ) : F64 :=
  let exponent := max (Int.log 2 |q| - 52) (-1074)
  let value := roundHalfEven (q / (2 : ℚ) ^ exponent) * (2 : ℚ) ^ exponent
  if 2 ^ 1024 ≤ |value| then infinite (decide (q < 0)) else finite value

/-- The largest finite number. -/
def max : F64 := finite ((2 ^ 53 - 1) * 2 ^ 971)

/-- Neither an infinity nor no number. -/
def isFinite : F64 → Bool
  | finite _ => true
  | _ => false

/-- The order of doubles, false where an operand is no number. -/
def le : F64 → F64 → Bool
  | nan, _ => false
  | _, nan => false
  | infinite negative, other => negative || decide (other = infinite false)
  | _, infinite negative => !negative
  | finite a, finite b => decide (a ≤ b)

/-- The sum, rounded. -/
def add : F64 → F64 → F64
  | nan, _ => nan
  | _, nan => nan
  | infinite negative, infinite negative' =>
    if negative = negative' then infinite negative else nan
  | infinite negative, finite _ => infinite negative
  | finite _, infinite negative => infinite negative
  | finite a, finite b => ofRat (a + b)

/-- The quotient, rounded, with the special values of the format. -/
def div : F64 → F64 → F64
  | nan, _ => nan
  | _, nan => nan
  | infinite _, infinite _ => nan
  | infinite negative, finite b => infinite (negative != decide (b < 0))
  | finite _, infinite _ => finite 0
  | finite a, finite b =>
    if b ≠ 0 then ofRat (a / b) else if a = 0 then nan else infinite (decide (a < 0))

/-- The smaller one of two numbers; one that is not a number is passed over. -/
def min (a b : F64) : F64 :=
  if a = nan then b
  else if b = nan then a
  else if a.le b then a else b

/-- A bound may be raised. -/
theorem le_finite {x : F64} {a b : ℚ} (h : x.le (finite a) = true) (hab : a ≤ b) :
    x.le (finite b) = true := by
  cases x with
  | nan => exact h
  | infinite negative => simpa [le] using h
  | finite value => exact decide_eq_true ((of_decide_eq_true h).trans hab)

end F64

end Leelo.Core
