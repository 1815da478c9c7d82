import Sexpr.Number.Basic
import Sexpr.Number.Shortest

/-!
# The written form of a number

Integers are written in decimal. Doubles are written without an exponent, as the
reader knows none, and always with a point, so that they do not read back as
integers. A complex number is written as its real part, a sign, the magnitude of
its imaginary part and the letter `i`.

A leading minus negates the whole of what it stands before, the imaginary part
included. So the imaginary part of a complex number whose real part is negative
is written with the opposite sign.
-/

namespace Sexpr

namespace Number

/-- Whether the sign bit of a double is set, as it is for the negative zero. -/
def isSigned (x : Float) : Bool :=
  Nat.pow 2 63 ≤ x.toBits.toNat

/-- A double whose sign bit is not set. -/
def magnitudeWritten (x : Float) : List Char :=
  if x.isNaN then "nan.0".toList
  else if x.isInf then "inf.0".toList
  else (Decimal.shortest x).written

/-- A double. A value that is no number and the infinities have a sign in any
case. -/
def realWritten (x : Float) : List Char :=
  if x.isNaN then "+nan.0".toList
  else if isSigned x then '-' :: magnitudeWritten (-x)
  else if x.isInf then "+inf.0".toList
  else magnitudeWritten x

/-- A complex number whose real part has no sign. -/
def complexWritten (re im : Float) : List Char :=
  magnitudeWritten re ++ (if isSigned im then '-' else '+') :: (magnitudeWritten im.abs ++ ['i'])

/-- The written form of a number. -/
def written : Number → List Char
  | integer n => (toString n).toList
  | real x => realWritten x
  | complex re im =>
    if isSigned re then '-' :: complexWritten (-re) (-im) else complexWritten re im

end Number

end Sexpr
