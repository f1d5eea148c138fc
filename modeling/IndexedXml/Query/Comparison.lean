/-
# Comparing values

Two values are compared as numbers when one of them is a number and the other is
one or an untyped text, as truth values when one is a truth value and the other is
one or an untyped text, and as texts when both are texts.  An untyped text that does
not denote what it is compared as, and any other pair, is an error.
-/

import IndexedXml.Query.Error
import IndexedXml.Value.Atomic
import IndexedXml.Value.Comparison

namespace IndexedXml
namespace AtomicValue

/-- The double that an untyped text denotes. -/
def castDouble (s : String) : Except QueryError Double :=
  match Double.parse? s with
  | some d => .ok d
  | none => .error (.notADouble s)

/-- The truth value that an untyped text denotes. -/
def castBool (s : String) : Except QueryError Bool :=
  match Text.trim s with
  | "true" | "1" => .ok true
  | "false" | "0" => .ok false
  | other => .error (.notATruthValue other)

/-- A number as a double. -/
def toNumber (value : AtomicValue) : Double := value.toDouble?.getD .nan

/-- **The order of two values,** which numbers may not have. -/
def compare? (a b : AtomicValue) : Except QueryError (Option Ordering) :=
  match a, b with
  | .integer x, .integer y => .ok (some (compare x y))
  | .integer _, .double _ | .double _, .integer _ | .double _, .double _ =>
    .ok (a.toNumber.compare? b.toNumber)
  | .untyped s, .integer _ | .untyped s, .double _ => do
    pure ((← castDouble s).compare? b.toNumber)
  | .integer _, .untyped s | .double _, .untyped s => do
    pure (a.toNumber.compare? (← castDouble s))
  | .string x, .string y | .string x, .untyped y | .untyped x, .string y | .untyped x, .untyped y =>
    .ok (some (compare x y))
  | .boolean x, .boolean y => .ok (some (compare x y))
  | .untyped s, .boolean y => do pure (some (compare (← castBool s) y))
  | .boolean x, .untyped s => do pure (some (compare x (← castBool s)))
  | _, _ => .error (.incomparable a.typeName b.typeName)

/-- Whether two values stand in the relation of an operator. -/
def related (op : ComparisonOp) (a b : AtomicValue) : Except QueryError Bool :=
  (a.compare? b).map op.holdsPartial

/-- Whether some of the values stand in the relation to `a`, tried in order. -/
def relatedToSome (op : ComparisonOp) (a : AtomicValue) : List AtomicValue → Except QueryError Bool
  | [] => .ok false
  | b :: rest => do if ← related op a b then pure true else relatedToSome op a rest

/-- **The general comparison:** whether some value of the left list stands in the
relation to some value of the right one.  The first pair that does decides it, and
a pair before it that cannot be compared is an error. -/
def someRelated (op : ComparisonOp) : (left right : List AtomicValue) → Except QueryError Bool
  | [], _ => .ok false
  | a :: rest, right => do
    if ← relatedToSome op a right then pure true else someRelated op rest right

end AtomicValue
end IndexedXml
