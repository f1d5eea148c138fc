/-
# Analysis

Analysis goes through a compiled expression once and enters what follows from
where each part stands: how comparisons and calls can be answered from an index,
and, below the pragma `no-index`, that indexes are not to be used.

A condition sees the step whose predicate it stands in.  Inside a path only the
first step sees that outer step, since the later ones start from other nodes.
-/

import IndexedXml.Query.Target

namespace IndexedXml

/-- Where an expression stands. -/
structure Surroundings where
  /-- The number of the expression whose predicate it stands in. -/
  contextId : ExprId
  /-- Whether indexes are not to be used. -/
  treeTraversal : Bool
  /-- The step whose predicate it stands in. -/
  outer : Option OuterStep

namespace Surroundings

/-- Outside of everything. -/
def top : Surroundings := ⟨.none, false, none⟩

/-- Below pragmas; `no-index` switches to tree traversal for good. -/
def below (s : Surroundings) (pragmas : List Pragma) : Surroundings :=
  { s with treeTraversal := s.treeTraversal || pragmas.any Pragma.isNoIndex }

/-- After the first step of a path. -/
def withoutOuter (s : Surroundings) : Surroundings := { s with outer := none }

/-- In the predicates of a step. -/
def ofStep (s : Surroundings) (head : StepHead) : Surroundings :=
  { s with contextId := head.id, outer := some ⟨head.test.name?, head.axis⟩ }

/-- In the predicates of a filter. -/
def ofFilter (s : Surroundings) (id : ExprId) : Surroundings :=
  { s with contextId := id, outer := none }

/-- The access through the given probe. -/
def access (s : Surroundings) (probe : Option IndexProbe) : Access :=
  ⟨probe, s.treeTraversal, s.contextId⟩

end Surroundings

namespace Expr

mutual

/-- **The analyzed expression.** -/
def analyze (s : Surroundings) : Expr → Expr
  | path id steps => path id (analyzeSteps s steps)
  | step head predicates =>
    step { head with treeTraversal := s.treeTraversal }
      (analyzePredicates (s.ofStep head) predicates)
  | root => root
  | filter id base predicates =>
    filter id (base.analyze s) (analyzePredicates (s.ofFilter id) predicates)
  | comparison id op left right _ =>
    let left := left.analyze s
    let right := right.analyze s
    comparison id op left right (s.access (IndexProbe.ofComparison op left right s.outer))
  | call id function args _ =>
    let args := analyzeAll s args
    call id function args (s.access (IndexProbe.ofCall function args s.outer))
  | .variable name => .variable name
  | literal value => literal value
  | and left right => and (left.analyze s) (right.analyze s)
  | or left right => or (left.analyze s) (right.analyze s)
  | sequence items => sequence (analyzeAll s items)
  | extension id pragmas body =>
    extension id (pragmas.map (Pragma.analyze s.contextId)) (body.analyze (s.below pragmas))

/-- The analyzed steps of a path. -/
def analyzeSteps (s : Surroundings) : List Expr → List Expr
  | [] => []
  | first :: rest => first.analyze s :: analyzeAll s.withoutOuter rest

/-- The analyzed expressions. -/
def analyzeAll (s : Surroundings) : List Expr → List Expr
  | [] => []
  | e :: rest => e.analyze s :: analyzeAll s rest

/-- The analyzed predicates. -/
def analyzePredicates (s : Surroundings) : List Predicate → List Predicate
  | [] => []
  | ⟨id, e, mode⟩ :: rest => ⟨id, e.analyze s, mode⟩ :: analyzePredicates s rest

end

end Expr
end IndexedXml
