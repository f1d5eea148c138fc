/-
# Rounding to a double

The double nearest to a ratio of natural numbers, an exact half going to the
neighbour whose last binary digit is zero.  A number keeps 53 significant
binary digits, fewer when it is so small that a unit is worth more than its last
digit; at `2¹⁰²⁴` and above it becomes infinite.

Decimal numerals arrive as `mantissa · 10 ^ exponent`.  The exponent can be as
large as its text is long, so numerals that are beyond the range whatever their
digits are answered before any power is taken.
-/

import IndexedXml.Double.Basic

namespace IndexedXml
namespace Double

/-- The natural number nearest to `n / d`, an exact half going to the even one. -/
def nearestEven (n d : Nat) : Nat :=
  let q := n / d
  let r := n % d
  if 2 * r < d then q
  else if d < 2 * r then q + 1
  else q + q % 2

/-- The number of binary digits that `q` has beyond the 53 a double keeps. -/
def excessBits (q : Nat) : Nat :=
  Nat.log2 q + 1 - 53

/-- The units of the double nearest to `n / d` units, with no upper bound. -/
def roundedUnits (n d : Nat) : Nat :=
  let step := Nat.pow 2 (excessBits (n / d))
  nearestEven n (d * step) * step

/-- A finite double, or an infinity when there are too many units. -/
def ofUnits (negative : Bool) (units : Nat) : Double :=
  if units < Nat.pow 2 1024 * unitsPerOne then finite negative units else infinity negative

/-- The double nearest to the ratio `n / d`, with the given sign. -/
def ofRatio (negative : Bool) (n d : Nat) : Double :=
  ofUnits negative (roundedUnits (n * unitsPerOne) d)

/-- The double nearest to an integer. -/
def ofInt (i : Int) : Double :=
  ofRatio (i < 0) i.natAbs 1

/-- The double nearest to a natural number. -/
def ofNat (n : Nat) : Double :=
  ofRatio false n 1

/-- The number of decimal digits of a natural number, none for zero. -/
def decimalLength (n : Nat) : Nat :=
  if n = 0 then 0 else (Nat.toDigits 10 n).length

/-- **The double nearest to a decimal numeral.**  A mantissa of `k` digits
stands for at least `10 ^ (k - 1 + exponent)` and for less than
`10 ^ (k + exponent)`, which settles the numerals outside the range. -/
def ofDecimal (negative : Bool) (mantissa : Nat) (exponent : Int) : Double :=
  let top : Int := decimalLength mantissa + exponent
  if mantissa = 0 || top ≤ -324 then finite negative 0
  else if 310 ≤ top then infinity negative
  else if 0 ≤ exponent then ofRatio negative (mantissa * Nat.pow 10 exponent.toNat) 1
  else ofRatio negative mantissa (Nat.pow 10 (-exponent).toNat)

end Double
end IndexedXml
