/-!
# Decimal fractions

A natural number over a power of ten, as a real number is written: digits, a
point, digits. There is no exponent, neither in what is read nor in what is
written.

> `ofDigits`: what a text with a point denotes.
> `toFloat`: the double nearest to it.
> `written`: all its places, and at least one digit before the point.
-/

namespace Sexpr

/-- The decimal fraction `coefficient / 10 ^ places`. -/
structure Decimal where
  coefficient : Nat
  places : Nat
deriving DecidableEq

namespace Decimal

/-- The fraction with these digits before and after the point. -/
def ofDigits (whole fraction : List Char) : Decimal :=
  { coefficient := Nat.ofDigitChars 10 (whole ++ fraction) 0
    places := fraction.length }

/-- The double nearest to the fraction, of two equally near the one with the even
significand; infinity beyond the largest double. -/
def toFloat (d : Decimal) : Float :=
  Float.ofScientific d.coefficient true d.places

/-- The digits before and after the point. Zeros in front fill up the places and
leave a digit before the point. -/
def digits (d : Decimal) : List Char × List Char :=
  let all := (Nat.toDigits 10 d.coefficient).leftpad (d.places + 1) '0'
  all.splitAt (all.length - d.places)

/-- The fraction in positional notation. -/
def written (d : Decimal) : List Char :=
  d.digits.1 ++ '.' :: d.digits.2

theorem length_fraction (d : Decimal) : d.digits.2.length = d.places := by
  simp only [digits, List.splitAt_eq, List.length_drop, List.leftpad, List.length_append,
    List.length_replicate]
  omega

/-- What is written denotes the same fraction, places included. -/
theorem ofDigits_digits (d : Decimal) : ofDigits d.digits.1 d.digits.2 = d := by
  have places := length_fraction d
  have value : Nat.ofDigitChars 10 (d.digits.1 ++ d.digits.2) 0 = d.coefficient := by
    simp only [digits, List.splitAt_eq, List.take_append_drop, List.leftpad]
    rw [Nat.ofDigitChars_append, Nat.ofDigitChars_replicate_zero]
    simp
  simp [ofDigits, places, value]

end Decimal

end Sexpr
