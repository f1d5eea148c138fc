/-
# Writing doubles

The text of a double has the fewest decimal digits that read back as the same
double, and of those the digits nearest to it; it never has an exponent.  Whole
numbers of magnitude below `10¹⁵` are written in full instead, so that they
never end in zeros that stand for other digits.  The sign of a negative zero is
written.

A decimal grid of exponent `p` holds the multiples of `10 ^ p`.  `gridPoint?`
looks at the two neighbours of a number on one grid, in exact arithmetic, and
`shortest` at one grid after the other from coarse to fine.
-/

import IndexedXml.Double.Basic

namespace IndexedXml
namespace Double

/-- The reals that round to a positive double, in quarters of a unit. -/
structure Interval where
  /-- The double itself. -/
  center : Nat
  /-- The half-way point towards the double below. -/
  low : Nat
  /-- The half-way point towards the double above. -/
  high : Nat
  /-- Whether the end points round to the double too. -/
  closed : Bool

/-- The reals that round to `units`.  Neighbours are `2 ^ excess` units apart,
half of that below a power of two; ends round to an even last digit. -/
def Interval.ofUnits (units : Nat) : Interval :=
  let excess := Nat.log2 units + 1 - 53
  let gap := Nat.pow 2 excess
  let significand := units / gap
  let below := if significand = Nat.pow 2 52 ∧ 0 < excess then gap else 2 * gap
  ⟨4 * units, 4 * units - below, 4 * units + 2 * gap, significand % 2 = 0⟩

/-- The neighbour of a number on the grid of exponent `p` that rounds to it, as
a multiple of `10 ^ p`; of two the nearer, of two equally near the larger. -/
def gridPoint? (i : Interval) (p : Int) : Option Nat :=
  let up := Nat.pow 10 (-p).toNat
  let down := 4 * unitsPerOne * Nat.pow 10 p.toNat
  let inside (d : Nat) : Bool :=
    if i.closed then i.low * up ≤ d * down && d * down ≤ i.high * up
    else i.low * up < d * down && d * down < i.high * up
  let d := i.center * up / down
  match inside d, inside (d + 1) with
  | true, true =>
    if i.center * up - d * down < (d + 1) * down - i.center * up then some d else some (d + 1)
  | true, false => some d
  | false, true => some (d + 1)
  | false, false => none

/-- The first grid with a point that rounds to the number, trying at most
`tries` grids from exponent `p` downwards. -/
def firstGrid (i : Interval) : (tries : Nat) → (p : Int) → Nat × Int
  | 0, p => (i.center, p)
  | tries + 1, p =>
    match gridPoint? i p with
    | some d => (d, p)
    | none => firstGrid i tries (p - 1)

/-- The fewest digits `d` and the exponent `p` for which `d · 10 ^ p` rounds to
`units`, which is not zero.  The search starts above the magnitude of the number, where
`30103 / 100000` is the decimal logarithm of two; seventeen digits always do. -/
def shortest (units : Nat) : Nat × Int :=
  let exponent : Int := (Nat.log2 units : Int) - unitExponent
  firstGrid (Interval.ofUnits units) 24 (exponent * 30103 / 100000 + 2)

/-- The text of `d · 10 ^ p` without an exponent. -/
def positional (d : Nat) (p : Int) : String :=
  let digits := Nat.toDigits 10 d
  let places := (-p).toNat
  if places = 0 then .ofList (digits ++ List.replicate p.toNat '0')
  else if places < digits.length then
    .ofList (digits.take (digits.length - places) ++ '.' :: digits.drop (digits.length - places))
  else .ofList ('0' :: '.' :: List.replicate (places - digits.length) '0' ++ digits)

/-- The text of a number of units. -/
def unitsText (units : Nat) : String :=
  if units % unitsPerOne = 0 && units < Nat.pow 10 15 * unitsPerOne then
    toString (units / unitsPerOne)
  else
    let (d, p) := shortest units
    positional d p

/-- The text of a double. -/
def text : Double → String
  | nan => "NaN"
  | infinity negative => if negative then "-INF" else "INF"
  | finite negative units => if negative then "-" ++ unitsText units else unitsText units

end Double
end IndexedXml
