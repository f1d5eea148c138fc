/-
# Conditions that an index can answer

A comparison of a relative path with a literal, and `starts-with` of a relative
path and a literal text, can be looked up under the name that the path ends in.
The path has to consist of steps without predicates.  A path that stays on the
context node is looked up under the name of the step whose predicate the
condition stands in.
-/

import IndexedXml.Query.Expr

namespace IndexedXml

/-- The step whose predicate is looked at. -/
structure OuterStep where
  /-- The name it asks for, if any. -/
  name : Option QName
  /-- Its direction. -/
  axis : Axis
  deriving DecidableEq

/-- What a path leads to, as far as an index is concerned. -/
structure Target where
  /-- The name under which it is indexed. -/
  name : IndexedName
  /-- The axis that leads toward it. -/
  axis : Axis
  /-- Whether it is the context node itself. -/
  onSelf : Bool
  /-- Whether it is a child or an attribute of the context node. -/
  onChild : Bool
  /-- How it qualifies the context node, when that is exactly known. -/
  relation : Option Relation

/-- Whether names on an axis are names of elements or of attributes. -/
def Axis.nameType (axis : Axis) : NameType := if axis.isAttributeAxis then .attr else .element

namespace Target

/-- A step that has no predicates. -/
def simpleStep? : Expr → Option StepHead
  | .step head [] => some head
  | _ => none

/-- The steps of a relative path that has no predicates. -/
def simpleSteps? : Expr → Option (List StepHead)
  | .path _ steps => steps.mapM simpleStep?
  | e => (simpleStep? e).map fun head => [head]

/-- How what a single step leads to qualifies the context node. -/
def relationOn : Axis → Option Relation
  | .child | .attr => some .parentChild
  | .descendant | .descendantAttr => some (.ancestor false)
  | .descendantOrSelf => some (.ancestor true)
  | _ => none

/-- Whether the test of a step to the context node itself lets the name through. -/
def admits (test : NodeTest) (name : QName) : Bool :=
  match test with
  | .name own => own.same name
  | .anyNode => true
  | _ => false

/-- The context node itself, under the name that the outer step asks for. -/
def ofSelf (test : NodeTest) (outer : Option OuterStep) : Option Target := do
  let outer ← outer
  let name ← outer.name
  if admits test name then
    pure ⟨⟨outer.axis.nameType, name⟩, outer.axis, true, false, some .identity⟩
  else none

/-- What a single step leads to. -/
def ofStep (head : StepHead) : Option Target := do
  let name ← head.test.name?
  pure
    { name := ⟨head.axis.nameType, name⟩
      axis := head.axis
      onSelf := false
      onChild := head.axis == .child || head.axis == .attr
      relation := relationOn head.axis }

/-- What several steps lead to.  A first step to the context node itself is passed
over when the axis is determined. -/
def ofSteps (first second : StepHead) (rest : List StepHead) : Option Target := do
  let last := (second :: rest).getLast (List.cons_ne_nil _ _)
  let name ← last.test.name?
  let axis := if first.axis = .self then second.axis else first.axis
  pure ⟨⟨last.axis.nameType, name⟩, axis, false, false, none⟩

/-- **What an expression leads to,** when it is a relative path without predicates. -/
def of? (e : Expr) (outer : Option OuterStep) : Option Target := do
  match ← simpleSteps? e with
  | [] => none
  | [head] => if head.axis = .self then ofSelf head.test outer else ofStep head
  | first :: second :: rest => ofSteps first second rest

/-- The probe that asks for keys in a relation to the given one. -/
def probe (t : Target) (op : RangeOp) (key : AtomicValue) : IndexProbe :=
  ⟨t.name, t.axis, t.onSelf, t.onChild, op, key, t.relation⟩

end Target

namespace IndexProbe

/-- The text or the number that an expression is, if it is one. -/
def literalKey? : Expr → Option AtomicValue
  | .literal (.string s) => some (.string s)
  | .literal (.integer i) => some (.integer i)
  | .literal (.double d) => some (.double d)
  | _ => none

/-- The probe for a path on the left and a literal on the right. -/
def ofSides (op : ComparisonOp) (path literal : Expr) (outer : Option OuterStep) :
    Option IndexProbe := do
  let target ← Target.of? path outer
  let key ← literalKey? literal
  pure (target.probe (.compare op) key)

/-- The probe for a comparison.  With the literal on the left, the operator that holds
with its sides exchanged is asked for. -/
def ofComparison (op : ComparisonOp) (left right : Expr) (outer : Option OuterStep) :
    Option IndexProbe :=
  (ofSides op left right outer).or (ofSides op.mirrored right left outer)

/-- The probe for a call. -/
def ofCall : Builtin → List Expr → Option OuterStep → Option IndexProbe
  | .startsWith, [path, .literal (.string s)], outer =>
    (Target.of? path outer).map fun target => target.probe .startsWith (.string s)
  | _, _, _ => none

end IndexProbe
end IndexedXml
