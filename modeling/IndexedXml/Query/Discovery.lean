/-
# What can be optimized

The pragma `optimize` looks through the expression it belongs to for conditions
that an index can answer.  It follows paths, steps, filters and their predicates,
and looks neither into boolean operators nor into arguments.

Each condition found has an *owner*: the step whose predicate it stands in, and the
place of that predicate among those of the step.  Candidates can be prepared for a
step only when it has a name, owns the first condition found, and has no predicate
before that one which selects by position.
-/

import IndexedXml.Query.Expr

namespace IndexedXml

/-- A condition that an index can answer. -/
structure Optimizable where
  /-- The number of the condition. -/
  id : ExprId
  /-- The probe that answers it. -/
  probe : IndexProbe
  /-- The displayed condition. -/
  text : String
  deriving DecidableEq

/-- A step by number and the place of one of its predicates. -/
abbrev Owner := Option (ExprId × Nat)

/-- The step that candidates are prepared for. -/
structure ContextStep where
  /-- Its number. -/
  id : ExprId
  /-- The name it asks for. -/
  name : IndexedName
  deriving DecidableEq

namespace Expr

/-- The axes along which a condition may reach what is indexed. -/
def optimizableAxes : List Axis :=
  [.child, .self, .descendant, .descendantOrSelf, .attr, .descendantAttr]

/-- The condition, when an index can answer it along such an axis. -/
def optimizable? (e : Expr) : Option Optimizable := do
  let (id, probe) ← e.probe?
  if optimizableAxes.elem probe.axis then pure ⟨id, probe, e.text⟩ else none

/-- The condition with its owner, as a list. -/
def found (owner : Owner) (e : Expr) : List (Optimizable × Owner) :=
  e.optimizable?.toList.map (·, owner)

mutual

/-- **The conditions that an index can answer,** with their owners, in order. -/
def optimizables (owner : Owner) : Expr → List (Optimizable × Owner)
  | path _ steps => optimizablesOf owner steps
  | step head predicates => predicateOptimizables (some head.id) 0 predicates
  | filter _ _ predicates => predicateOptimizables none 0 predicates
  | comparison id op left right access => found owner (comparison id op left right access)
  | call id function args access => found owner (call id function args access)
  | _ => []

/-- The conditions among and in several expressions. -/
def optimizablesOf (owner : Owner) : List Expr → List (Optimizable × Owner)
  | [] => []
  | e :: rest => e.optimizables owner ++ optimizablesOf owner rest

/-- The conditions among and in predicates, the first of which is at the given place. -/
def predicateOptimizables (step : Option ExprId) (place : Nat) :
    List Predicate → List (Optimizable × Owner)
  | [] => []
  | ⟨_, e, _⟩ :: rest =>
    e.optimizables (step.map (·, place)) ++ predicateOptimizables step (place + 1) rest

end

mutual

/-- The name of the last variable that a filter starts from. -/
def contextVariable? : Expr → Option String
  | path _ steps => variableOf? steps
  | step _ predicates => predicateVariable? predicates
  | filter _ base predicates =>
    (predicateVariable? predicates).or <| match base with
      | .variable name => some name
      | _ => none
  | _ => none

/-- The name of the last such variable in several expressions. -/
def variableOf? : List Expr → Option String
  | [] => none
  | e :: rest => (variableOf? rest).or e.contextVariable?

/-- The name of the last such variable in predicates. -/
def predicateVariable? : List Predicate → Option String
  | [] => none
  | ⟨_, e, _⟩ :: rest => (predicateVariable? rest).or e.contextVariable?

end

/-- A step as one that candidates are prepared for, when it asks for a name. -/
def contextStepOf (head : StepHead) : Option ContextStep :=
  head.test.name?.map fun name => ⟨head.id, ⟨head.nameType, name⟩⟩

/-- Whether candidates can be prepared for a step, given the owner of the first
condition. -/
def suits (head : StepHead) (predicates : List Predicate) : Owner → Bool
  | some (id, place) => id == head.id && !hasPositional (predicates.take place)
  | none => false

/-- **The step that candidates are prepared for.** -/
def contextStep? (e : Expr) : Option ContextStep := do
  let (head, predicates) ← e.firstStep?
  let step ← contextStepOf head
  match (e.optimizables none).head? with
  | some (_, owner) => if suits head predicates owner then pure step else none
  | none => pure step

end Expr
end IndexedXml
