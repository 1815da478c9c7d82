import Sexpr.Number.Decimal

/-!
# The shortest decimal of a double

Among the decimal fractions that read back as a given double, the one with the
fewest digits; of two such the nearer to the double's exact value, and the larger
if they are equally near.

The double is decoded into an exact value `significand * 2 ^ exponent`. The grids
`10 ^ g` are tried from coarse to fine. On each only the two neighbours of the
exact value matter, as any other point that reads back has one of them between
itself and the value. Whether a candidate reads back is not computed from the
bits: it is read, and the result compared.
-/

namespace Sexpr

/-- An exact value `significand * 2 ^ exponent`. -/
structure Binary where
  significand : Nat
  exponent : Int
deriving DecidableEq

namespace Binary

/-- The magnitude of a finite double. -/
def ofFloat (x : Float) : Binary :=
  let bits := x.toBits.toNat
  let scale : Nat := bits / Nat.pow 2 52 % Nat.pow 2 11
  let fraction := bits % Nat.pow 2 52
  if scale = 0 then { significand := fraction, exponent := -1074 }
  else { significand := Nat.pow 2 52 + fraction, exponent := (scale : Int) - 1075 }

/-- The value as a quotient: what is above the line. -/
def numerator (v : Binary) : Nat :=
  v.significand * Nat.pow 2 v.exponent.toNat

/-- The value as a quotient: what is below the line. -/
def denominator (v : Binary) : Nat :=
  Nat.pow 2 (-v.exponent).toNat

/-- An exponent of ten whose power exceeds the value, by less than a factor of
a hundred: `30103 / 100000` is the logarithm of two to five places. -/
def topGrid (v : Binary) : Int :=
  ((v.significand.log2 : Int) + 1 + v.exponent) * 30103 / 100000 + 1

end Binary

namespace Decimal

/-- The point `c * 10 ^ g` of a grid, with at least one place. -/
def onGrid (c : Nat) (g : Int) : Decimal :=
  { coefficient := c * Nat.pow 10 (g + 1).toNat
    places := max 1 (-g).toNat }

/-- The exact value, which needs as many places as the power of two below the
line. -/
def exact (v : Binary) : Decimal :=
  let places := max 1 (-v.exponent).toNat
  { coefficient := v.numerator * Nat.pow 10 places / v.denominator
    places := places }

/-- The neighbour of `v` on the grid `10 ^ g` that reads back as `x`: the nearer
one if both do, the upper one if they are equally near. -/
def neighbour? (x : Float) (v : Binary) (g : Int) : Option Decimal :=
  let n := v.numerator * Nat.pow 10 (-g).toNat
  let d := v.denominator * Nat.pow 10 g.toNat
  let lower := onGrid (n / d) g
  let upper := onGrid (n / d + 1) g
  if upper.toFloat = x then
    if lower.toFloat = x ∧ 2 * (n % d) < d then some lower else some upper
  else if lower.toFloat = x then some lower
  else none

/-- The shortest decimal of a double that is finite and not negative. Seventeen
digits identify every double, and the first of the twenty grids has no digit or
one of the value on it, so the exact value is a last resort only. -/
def shortest (x : Float) : Decimal :=
  let v := Binary.ofFloat x
  if v.significand = 0 then { coefficient := 0, places := 1 }
  else
    ((List.range 20).findSome? fun (step : Nat) => neighbour? x v (v.topGrid - step)).getD (exact v)

/-- Whatever a grid yields reads back. -/
theorem toFloat_of_neighbour? {x : Float} {v : Binary} {g : Int} {d : Decimal}
    (h : neighbour? x v g = some d) : d.toFloat = x := by
  simp only [neighbour?] at h
  split at h
  · next hu =>
    split at h
    · next hl => cases h; exact hl.1
    · cases h; exact hu
  · split at h
    · next hl => cases h; exact hl
    · cases h

end Decimal

end Sexpr
