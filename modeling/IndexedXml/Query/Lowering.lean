/-
# From written to compiled expressions

Names are resolved, calls are checked, pragmas are looked up, and every part gets
its number.  Numbers are given out in ascending order; those of a comparison, a
call and an extension precede the numbers of what is in them, that of a step
follows those of its predicates.

After a double slash a step to children becomes one to descendants, and one to
attributes one to the attributes of all descendants.  Where a predicate selects
by position that would change what is counted, and for other axes there is no
such step; then a step to the node and its descendants is put in between.
-/

import IndexedXml.Query.Expr
import IndexedXml.Query.Surface

namespace IndexedXml

/-- A computation that gives out numbers of expressions and may be refused. -/
abbrev Numbering := StateT ExprId (Except QueryError)

/-- The next number. -/
def ExprId.fresh : Numbering ExprId := modifyGet fun last => (last + 1, last + 1)

/-- A name test with its name resolved. -/
def SurfaceTest.lower : SurfaceTest → NodeTest
  | name s => .name (QName.ofText s)
  | wildcard => .wildcard
  | anyNode => .anyNode
  | text => .text

/-- A step to a node and its descendants. -/
def Expr.toDescendants : Numbering Expr := do
  let id ← ExprId.fresh
  pure (.step ⟨id, .descendantOrSelf, .anyNode, false⟩ [])

/-- The axis of a step after a double slash, when the step needs none before it. -/
def Axis.throughDescendants? (axis : Axis) (positional : Bool) : Option Axis :=
  match axis with
  | child => if positional then none else some descendant
  | attr => if positional then none else some descendantAttr
  | _ => none

/-- The steps that a step becomes which is marked when a double slash precedes it. -/
def Expr.lowerStep (descendant : Bool) (axis : Axis) (test : NodeTest)
    (predicates : List Predicate) : Numbering (List Expr) := do
  let direct (axis : Axis) : Numbering Expr := do
    let id ← ExprId.fresh
    pure (.step ⟨id, axis, test, false⟩ predicates)
  if descendant then
    match axis.throughDescendants? (hasPositional predicates) with
    | some axis => pure [← direct axis]
    | none =>
      let first ← Expr.toDescendants
      pure [first, ← direct axis]
  else pure [← direct axis]

/-- The path through the given steps; a single one is no path. -/
def Expr.ofSteps : List Expr → Numbering Expr
  | [e] => pure e
  | steps => do
    let id ← ExprId.fresh
    pure (.path id steps)

/-- The name of a function without the prefix of the standard functions. -/
def functionName (name : String) : String := (Text.stripStart? "fn:" name).getD name

/-- The pragmas of the declarations that are known; each declaration takes a number. -/
def Pragma.ofDecls (config : Configuration) : List PragmaDecl → Numbering (List Pragma)
  | [] => pure []
  | decl :: rest => do
    let id ← ExprId.fresh
    let pragma ← create id (resolveName decl.name) decl.contents config true
    let rest ← ofDecls config rest
    pure (pragma.toList ++ rest)

mutual

/-- **The compiled expression.** -/
def Surface.lower (config : Configuration) : Surface → Numbering Expr
  | .path start steps => do
    let steps ← lowerSteps config steps
    Expr.ofSteps (start.toList.map (fun _ => Expr.root) ++ steps)
  | .comparison op left right => do
    let id ← ExprId.fresh
    let left ← left.lower config
    let right ← right.lower config
    pure (.comparison id op left right .unknown)
  | .and left right => do
    let left ← left.lower config
    let right ← right.lower config
    pure (.and left right)
  | .or left right => do
    let left ← left.lower config
    let right ← right.lower config
    pure (.or left right)
  | .sequence items => do
    let items ← lowerAll config items
    pure (.sequence items)
  | .literal value => pure (.literal value)
  | .variable name => pure (.variable name)
  | .call name args => do
    let function ← Builtin.ofCall (functionName name) args.length
    let id ← ExprId.fresh
    let args ← lowerAll config args
    pure (.call id function args .unknown)
  | .pragma decls body => do
    let id ← ExprId.fresh
    let pragmas ← Pragma.ofDecls config decls
    let body ← match body with
      | some body => body.lower config
      | none => pure (.sequence [])
    pure (if pragmas.isEmpty then body else .extension id pragmas body)

/-- The compiled expressions. -/
def lowerAll (config : Configuration) : List Surface → Numbering (List Expr)
  | [] => pure []
  | e :: rest => do
    let e ← e.lower config
    let rest ← lowerAll config rest
    pure (e :: rest)

/-- The compiled predicates. -/
def lowerPredicates (config : Configuration) : List Surface → Numbering (List Predicate)
  | [] => pure []
  | e :: rest => do
    let id ← ExprId.fresh
    let e ← e.lower config
    let rest ← lowerPredicates config rest
    pure (⟨id, e, e.predicateMode⟩ :: rest)

/-- The compiled steps. -/
def lowerSteps (config : Configuration) : List SurfaceStep → Numbering (List Expr)
  | [] => pure []
  | .axis descendant axis test predicates :: rest => do
    let predicates ← lowerPredicates config predicates
    let steps ← Expr.lowerStep descendant axis test.lower predicates
    let rest ← lowerSteps config rest
    pure (steps ++ rest)
  | .filter descendant primary predicates :: rest => do
    let lead ← if descendant then (do pure [← Expr.toDescendants]) else pure []
    let id ← ExprId.fresh
    let base ← primary.lower config
    let predicates ← lowerPredicates config predicates
    let step := if predicates.isEmpty then base else .filter id base predicates
    let rest ← lowerSteps config rest
    pure (lead ++ step :: rest)

end

end IndexedXml
