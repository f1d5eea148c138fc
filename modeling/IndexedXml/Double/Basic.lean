/-
# Double precision numbers

A `Double` is a 64-bit floating point number, held as what it denotes and not
as bits: not a number, an infinity, or a sign and a natural number of *units*.
A unit is `2⁻¹⁰⁷⁴`, the least positive double, so every finite double is a whole
number of units and comparing two of them is comparing two integers.  The units
of a double that a program can meet have at most 53 significant binary digits
and lie below `2²⁰⁹⁸`; `IndexedXml.Double.Round` is what makes such numbers.

The order is partial: `compare?` has no answer when either side is not a
number.  The two zeros compare equal and are still two values.
-/

namespace IndexedXml

/-- A 64-bit floating point number; a unit is `2⁻¹⁰⁷⁴`. -/
inductive Double where
  /-- Not a number. -/
  | nan
  /-- An infinity and its sign. -/
  | infinity (negative : Bool)
  /-- A sign and a whole number of units. -/
  | finite (negative : Bool) (units : Nat)
  deriving DecidableEq

namespace Double

/-- The binary exponent of one unit, negated. -/
def unitExponent : Nat := 1074

/-- The number of units in the number one. -/
def unitsPerOne : Nat := Nat.pow 2 unitExponent

/-- A place on the extended number line: `-1`, `0` or `1` for the negative
infinity, the finite numbers and the positive infinity, then signed units. -/
def position? : Double → Option (Int × Int)
  | nan => none
  | infinity negative => some (if negative then -1 else 1, 0)
  | finite negative units => some (0, if negative then -(units : Int) else units)

/-- The order of two doubles, none when either is not a number. -/
def compare? (a b : Double) : Option Ordering :=
  match a.position?, b.position? with
  | some (i, x), some (j, y) => some ((compare i j).then (compare x y))
  | _, _ => none

/-- Not a number. -/
def isNan : Double → Bool
  | nan => true
  | _ => false

/-- Either of the two zeros. -/
def isZero : Double → Bool
  | finite _ 0 => true
  | _ => false

/-- **Only a number is ordered against itself,** and then as equal. -/
theorem compare?_self (a : Double) : a.compare? a = if a.isNan then none else some .eq := by
  cases a <;> simp [compare?, position?, isNan]

/-- **Swapping the sides swaps the outcome.** -/
theorem compare?_swap (a b : Double) : (a.compare? b).map Ordering.swap = b.compare? a := by
  cases a <;> cases b <;>
    simp [compare?, position?, Ordering.swap_then, ← Std.OrientedCmp.eq_swap]

end Double
end IndexedXml
