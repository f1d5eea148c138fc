/-
# Queries as they are written

The tree of a query before anything is resolved: names are texts, axes and
operators are as the query spells them, and pragmas are only declared.  A step
is marked when a double slash precedes it.
-/

import IndexedXml.Axis
import IndexedXml.Value.Atomic
import IndexedXml.Value.Comparison

namespace IndexedXml

/-- How a path begins that does not begin with a step. -/
inductive PathStart where
  /-- A slash. -/
  | root
  /-- A double slash. -/
  | rootDescendant
  deriving DecidableEq

/-- What a step asks of a node. -/
inductive SurfaceTest where
  /-- A name. -/
  | name (name : String)
  /-- Any name. -/
  | wildcard
  /-- Nothing. -/
  | anyNode
  /-- To be a text. -/
  | text
  deriving DecidableEq

/-- The declaration of a pragma. -/
structure PragmaDecl where
  /-- The name. -/
  name : String
  /-- What follows the name, without blanks at its ends. -/
  contents : String
  deriving DecidableEq

mutual

/-- A query as it is written. -/
inductive Surface where
  | path (start : Option PathStart) (steps : List SurfaceStep)
  | comparison (op : ComparisonOp) (left right : Surface)
  | and (left right : Surface)
  | or (left right : Surface)
  | sequence (items : List Surface)
  | literal (value : AtomicValue)
  | variable (name : String)
  | call (name : String) (args : List Surface)
  | pragma (pragmas : List PragmaDecl) (body : Option Surface)

/-- A step of a path; `descendant` when a double slash precedes it. -/
inductive SurfaceStep where
  | axis (descendant : Bool) (axis : Axis) (test : SurfaceTest) (predicates : List Surface)
  | filter (descendant : Bool) (primary : Surface) (predicates : List Surface)

end

mutual

/-- Whether every integer of a query fits in 64 bits. -/
def Surface.integersFit : Surface → Bool
  | .path _ steps => stepsFit steps
  | .comparison _ left right | .and left right | .or left right =>
    left.integersFit && right.integersFit
  | .sequence items => Surface.allFit items
  | .literal (.integer i) => -Int.pow 2 63 ≤ i && i < Int.pow 2 63
  | .literal _ | .variable _ => true
  | .call _ args => Surface.allFit args
  | .pragma _ none => true
  | .pragma _ (some body) => body.integersFit

/-- Whether every integer of the queries fits in 64 bits. -/
def Surface.allFit : List Surface → Bool
  | [] => true
  | e :: rest => e.integersFit && Surface.allFit rest

/-- Whether every integer of the steps fits in 64 bits. -/
def Surface.stepsFit : List SurfaceStep → Bool
  | [] => true
  | .axis _ _ _ predicates :: rest => Surface.allFit predicates && stepsFit rest
  | .filter _ primary predicates :: rest =>
    primary.integersFit && Surface.allFit predicates && stepsFit rest

end

end IndexedXml
