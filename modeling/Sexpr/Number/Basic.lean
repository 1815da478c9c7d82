import Sexpr.Number.Leading

/-!
# Numbers

Integers of any size, doubles, and complex numbers with double parts. There is no
exact fraction: a quotient is read as the double nearest to that of its parts.

Two numbers are equal when they are of one kind and their parts are, doubles as
IEEE 754 compares them: a NaN differs from itself, and the two zeros are equal.
-/

namespace Sexpr

/-- The value of a numeric literal. -/
inductive Number where
  | integer (n : Int)
  | real (x : Float)
  | complex (re im : Float)

namespace Number

/-- The number as a double; of a complex number the real part. -/
def toFloat : Number → Float
  | integer n => floatOfInt n
  | real x => x
  | complex re _ => re

/-- Whether the number compares equal to zero. -/
def isZero : Number → Bool
  | integer n => n == 0
  | real x => x == 0.0
  | complex re im => re == 0.0 && im == 0.0

/-- The number with the opposite sign, both parts of it if it is complex. -/
def neg : Number → Number
  | integer n => integer (-n)
  | real x => real (-x)
  | complex re im => complex (-re) (-im)

instance : Neg Number := ⟨neg⟩

/-- Equality of numbers, never across kinds. -/
def same : Number → Number → Bool
  | integer a, integer b => a == b
  | real x, real y => x == y
  | complex a b, complex c d => a == c && b == d
  | _, _ => false

instance : BEq Number := ⟨same⟩

end Number

end Sexpr
