/-
# Compiled expressions

The tree that is evaluated.  Steps, conditions, calls and the other parts that
something is kept about have a number.  Comparisons and calls hold how they may
be answered from an index, which analysis fills in.

`Expr.parts` lists what an expression consists of, every part before what is in
it; the reports on an expression are read off that list.
-/

import IndexedXml.Query.Builtin
import IndexedXml.Query.Pragma
import IndexedXml.Value.Comparison

namespace IndexedXml

/-- What a step asks of a node. -/
inductive NodeTest where
  /-- To have the name. -/
  | name (name : QName)
  /-- To have any name. -/
  | wildcard
  /-- Nothing. -/
  | anyNode
  /-- To be a text. -/
  | text
  deriving DecidableEq

namespace NodeTest

/-- The name that is asked for. -/
def name? : NodeTest → Option QName
  | name q => some q
  | _ => none

/-- Whether no name is asked for. -/
def isWildcard (t : NodeTest) : Bool := t.name?.isNone

/-- The displayed test. -/
def display : NodeTest → String
  | name q => q.text
  | wildcard => "*"
  | anyNode => "node()"
  | text => "text()"

end NodeTest

/-- How a predicate is applied. -/
inductive PredicateMode where
  /-- It is true or false of an item, wherever the item stands. -/
  | boolean
  /-- It may be the position of the item it selects. -/
  | positional
  deriving DecidableEq

/-- A predicate over a type of expressions. -/
structure PredicateOf (ε : Type) where
  /-- Its number. -/
  id : ExprId
  /-- What is evaluated for an item. -/
  expr : ε
  /-- How the outcome selects. -/
  mode : PredicateMode

/-- A step without its predicates. -/
structure StepHead where
  /-- Its number. -/
  id : ExprId
  /-- The direction. -/
  axis : Axis
  /-- What is asked of the nodes there. -/
  test : NodeTest
  /-- Whether indexes are not to be used. -/
  treeTraversal : Bool
  deriving DecidableEq

namespace StepHead

/-- The displayed step, without its predicates. -/
def display (s : StepHead) : String := s.axis.name ++ "::" ++ s.test.display

/-- Whether the step leads to elements or to attributes. -/
def nameType (s : StepHead) : NameType := if s.axis.isAttributeAxis then .attr else .element

end StepHead

/-- How an expression may be answered from an index. -/
structure Access where
  /-- The probe that answers it. -/
  probe : Option IndexProbe
  /-- Whether indexes are not to be used. -/
  treeTraversal : Bool
  /-- The number of the expression whose predicate it stands in. -/
  contextId : ExprId

namespace Access

/-- What is known before analysis. -/
def unknown : Access := ⟨none, false, .none⟩

/-- The probe, unless indexes are not to be used. -/
def usable? (a : Access) : Option IndexProbe := if a.treeTraversal then none else a.probe

end Access

/-- A compiled expression. -/
inductive Expr where
  /-- The outcome of each step is the context of the next. -/
  | path (id : ExprId) (steps : List Expr)
  /-- The nodes on an axis that pass a test and the predicates. -/
  | step (head : StepHead) (predicates : List (PredicateOf Expr))
  /-- The documents of the context nodes. -/
  | root
  /-- The items of `base` that pass the predicates. -/
  | filter (id : ExprId) (base : Expr) (predicates : List (PredicateOf Expr))
  /-- Whether some values of both sides stand in the relation. -/
  | comparison (id : ExprId) (op : ComparisonOp) (left right : Expr) (access : Access)
  /-- A call of a function. -/
  | call (id : ExprId) (function : Builtin) (args : List Expr) (access : Access)
  /-- The value of a variable. -/
  | variable (name : String)
  /-- A value. -/
  | literal (value : AtomicValue)
  /-- Whether both sides are true. -/
  | and (left right : Expr)
  /-- Whether a side is true. -/
  | or (left right : Expr)
  /-- The items of all parts. -/
  | sequence (items : List Expr)
  /-- An expression with pragmas. -/
  | extension (id : ExprId) (pragmas : List Pragma) (body : Expr)

/-- A predicate. -/
abbrev Predicate := PredicateOf Expr

/-- Whether one of the predicates may select by position. -/
def hasPositional (predicates : List Predicate) : Bool :=
  predicates.any fun p => p.mode == .positional

namespace Expr

/-! ### Display -/

/-- The displayed steps of a path; no slash is put after a leading root. -/
def joinSteps (rooted : Bool) : List String → String
  | [] => ""
  | first :: rest =>
    if rooted then first ++ "/".intercalate rest else "/".intercalate (first :: rest)

/-- Whether a list of steps begins at the root. -/
def isRooted : List Expr → Bool
  | root :: _ => true
  | _ => false

mutual

/-- The displayed expression. -/
def text : Expr → String
  | path _ steps => joinSteps (isRooted steps) (texts steps)
  | step head predicates => head.display ++ predicatesText predicates
  | root => "/"
  | filter _ base predicates => base.text ++ predicatesText predicates
  | comparison _ op left right _ => left.text ++ " " ++ op.symbol ++ " " ++ right.text
  | call _ function args _ => function.name ++ "(" ++ ", ".intercalate (texts args) ++ ")"
  | .variable name => "$" ++ name
  | literal value => value.text
  | and left right => "(" ++ left.text ++ " and " ++ right.text ++ ")"
  | or left right => "(" ++ left.text ++ " or " ++ right.text ++ ")"
  | sequence items => "(" ++ ", ".intercalate (texts items) ++ ")"
  | extension _ pragmas body =>
    String.join (pragmas.map fun p => p.text ++ " ") ++ "\x7b " ++ body.text ++ " \x7d"

/-- The displays of several expressions. -/
def texts : List Expr → List String
  | [] => []
  | e :: rest => e.text :: texts rest

/-- The displayed predicates. -/
def predicatesText : List Predicate → String
  | [] => ""
  | ⟨_, e, _⟩ :: rest => "[" ++ e.text ++ "]" ++ predicatesText rest

end

/-! ### Parts -/

/-- A part of an expression. -/
inductive Part where
  /-- An expression. -/
  | expr (e : Expr)
  /-- A predicate. -/
  | predicate (p : Predicate)

mutual

/-- **The parts of an expression,** each before what is in it. -/
def parts (e : Expr) : List Part :=
  .expr e :: match e with
    | path _ steps => partsOf steps
    | step _ predicates => predicateParts predicates
    | filter _ base predicates => base.parts ++ predicateParts predicates
    | comparison _ _ left right _ | and left right | or left right => left.parts ++ right.parts
    | call _ _ args _ => partsOf args
    | sequence items => partsOf items
    | extension _ _ body => body.parts
    | root | .variable _ | literal _ => []

/-- The parts of several expressions. -/
def partsOf : List Expr → List Part
  | [] => []
  | e :: rest => e.parts ++ partsOf rest

/-- The predicates and their parts. -/
def predicateParts : List Predicate → List Part
  | [] => []
  | ⟨id, e, mode⟩ :: rest => .predicate ⟨id, e, mode⟩ :: (e.parts ++ predicateParts rest)

end

/-- The number of an expression that can report the use of an index: a comparison,
or a call of the function that indexes answer. -/
def reporter? : Part → Option ExprId
  | .expr (.comparison id _ _ _ _) => some id
  | .expr (.call id .startsWith _ _) => some id
  | _ => none

/-- The numbers of the parts that can report the use of an index. -/
def reporters (e : Expr) : List ExprId := e.parts.filterMap reporter?

/-- The pragmas of an expression, the outermost ones first. -/
def pragmas (e : Expr) : List Pragma :=
  e.parts.flatMap fun
    | .expr (.extension _ pragmas _) => pragmas
    | _ => []

/-- Whether an index could help with a predicate of the expression: whether one of
them has a part that can report the use of an index. -/
def hasCandidate (e : Expr) : Bool :=
  e.parts.any fun
    | .predicate p => !p.expr.reporters.isEmpty
    | .expr _ => false

/-! ### Properties -/

/-- Whether every value is a truth value or consists of nodes, and so no number. -/
def isBooleanValued : Expr → Bool
  | comparison _ _ _ _ _ | and _ _ | or _ _ | path _ _ | step _ _ | root => true
  | filter _ base _ => base.isBooleanValued
  | call _ function _ _ => function.isPredicate
  | literal value => !value.isNumeric
  | extension _ _ body => body.isBooleanValued
  | .variable _ | sequence _ => false

/-- The mode of a predicate. -/
def predicateMode (e : Expr) : PredicateMode :=
  if e.isBooleanValued then .boolean else .positional

mutual

/-- The first step of a path and its predicates; a leading root is passed over. -/
def firstStep? : Expr → Option (StepHead × List Predicate)
  | step head predicates => some (head, predicates)
  | path _ steps => firstStepOf? steps
  | extension _ _ body => body.firstStep?
  | _ => none

/-- The first step of the first expression that is not a root. -/
def firstStepOf? : List Expr → Option (StepHead × List Predicate)
  | [] => none
  | root :: rest => firstStepOf? rest
  | e :: _ => e.firstStep?

end

/-- How the expression may be answered from an index. -/
def access? : Expr → Option (ExprId × Access)
  | comparison id _ _ _ access | call id _ _ access => some (id, access)
  | _ => none

/-- The probe that answers the expression from an index, with its number. -/
def probe? (e : Expr) : Option (ExprId × IndexProbe) := do
  let (id, access) ← e.access?
  let probe ← access.usable?
  pure (id, probe)

end Expr
end IndexedXml
