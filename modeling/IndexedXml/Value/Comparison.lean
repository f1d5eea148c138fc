/-
# Comparison operators

The six operators of a comparison, and when one holds of an outcome of
comparing two values.  Two values may have no order, such as a number and not a
number; then only `!=` holds.
-/

namespace IndexedXml

/-- An operator of a comparison. -/
inductive ComparisonOp where
  | eq
  | ne
  | lt
  | le
  | gt
  | ge
  deriving DecidableEq

namespace ComparisonOp

/-- Whether the operator holds of values in the given order. -/
def holds : ComparisonOp → Ordering → Bool
  | eq, o => o == .eq
  | ne, o => o != .eq
  | lt, o => o == .lt
  | le, o => o != .gt
  | gt, o => o == .gt
  | ge, o => o != .lt

/-- Whether the operator holds of values that may have no order. -/
def holdsPartial (op : ComparisonOp) : Option Ordering → Bool
  | some o => op.holds o
  | none => op == ne

/-- The operator that holds with its sides exchanged. -/
def mirrored : ComparisonOp → ComparisonOp
  | lt => gt
  | le => ge
  | gt => lt
  | ge => le
  | op => op

/-- **The mirrored operator holds of the sides exchanged.** -/
theorem holdsPartial_mirrored (op : ComparisonOp) (o : Option Ordering) :
    op.mirrored.holdsPartial (o.map Ordering.swap) = op.holdsPartial o := by
  rcases o with _ | o
  · cases op <;> rfl
  · cases op <;> cases o <;> rfl

/-- The sign of the operator. -/
def symbol : ComparisonOp → String
  | eq => "="
  | ne => "!="
  | lt => "<"
  | le => "<="
  | gt => ">"
  | ge => ">="

/-- All operators. -/
def all : List ComparisonOp := [eq, ne, lt, le, gt, ge]

/-- The operator of a sign. -/
def ofSymbol? (s : String) : Option ComparisonOp :=
  all.find? fun op => op.symbol == s

end ComparisonOp
end IndexedXml
