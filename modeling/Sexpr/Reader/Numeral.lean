import Sexpr.Number.Basic
import Sexpr.Number.Decimal
import Sexpr.Reader.Scan

/-!
# Numerals

    numeral  = sign? unsigned ('/' unsigned)? (sign unsigned? 'i')?
    unsigned = digit* ('.' digit*)?          with at least one digit

A numeral ends where the grammar ends; what follows need not be a delimiter. With
a point an unsigned number is a double, otherwise an integer. A quotient is the
double nearest to that of its two parts. The sign in front applies to the whole
number, the imaginary part included.
-/

namespace Sexpr

/-- The number with an imaginary part. A zero adds nothing, not even a kind. -/
def Number.withImaginary (base : Number) (negative : Bool) (magnitude : Number) : Number :=
  if magnitude.isZero then base
  else .complex base.toFloat (if negative then -magnitude.toFloat else magnitude.toFloat)

namespace Scan

/-- An unsigned number; `none`, and nothing passed, if neither a digit nor a point
comes next. -/
def unsigned : Scan (Option Number) := do
  let whole ← takeWhile Char.isDigit
  if ← accept '.' then
    let fraction ← takeWhile Char.isDigit
    if whole.isEmpty && fraction.isEmpty then throw .invalidNumber
    else return some (.real (Decimal.ofDigits whole fraction).toFloat)
  else if whole.isEmpty then return none
  else return some (.integer (Nat.ofDigitChars 10 whole 0))

/-- The rest of a quotient, if a slash follows its first part. -/
def quotient (base : Number) : Scan Number := do
  if ← accept '/' then
    match ← unsigned with
    | none => throw .missingDenominator
    | some divisor =>
      if divisor.isZero then throw .divisionByZero
      else return .real (base.toFloat / divisor.toFloat)
  else return base

/-- Passes a minus, a plus, or one of each in this order; says whether there was a
minus. -/
def sign : Scan Bool := do
  let negative ← accept '-'
  let _ ← accept '+'
  return negative

/-- An imaginary part whose sign comes next. Without digits its magnitude is one. -/
def imaginary (base : Number) : Scan Number := do
  let negative ← sign
  let magnitude ← unsigned
  if ← accept 'i' then return base.withImaginary negative (magnitude.getD (.integer 1))
  else throw (.missingImaginaryUnit (← peek))

/-- The imaginary part, if a sign follows the real one. -/
def imaginaryIfSigned (base : Number) : Scan Number := do
  match ← peek with
  | some '+' => imaginary base
  | some '-' => imaginary base
  | _ => return base

/-- A number. -/
def numeral : Scan Number := do
  let negative ← sign
  match ← unsigned with
  | none => throw .invalidNumber
  | some base =>
    let value ← imaginaryIfSigned (← quotient base)
    return if negative then -value else value

end Scan

end Sexpr
