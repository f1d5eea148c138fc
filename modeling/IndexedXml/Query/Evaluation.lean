/-
# Evaluation

The value of a compiled expression for a focus.  A step takes candidates prepared
for it, or asks the name index, or navigates the tree, in this order of preference.
A predicate that an index answers is applied to a whole set at once; any other is
evaluated for one item after the other.  Pragmas are activated together, then the
first one that evaluates does, and at the end all are deactivated.

The definitions before `evaluate` take the evaluation of what is in an expression as
a parameter.
-/

import IndexedXml.Query.Compiled
import IndexedXml.Query.Comparison
import IndexedXml.Query.Function
import IndexedXml.Query.Optimizer

namespace IndexedXml
namespace Evaluation

/-! ### Steps -/

/-- The context of a focus as a node set. -/
def contextSet (s : Store) (focus : Focus) : Except QueryError SharedSet :=
  match focus.item, focus.context with
  | some (.node n), _ => .ok ⟨s.persistent [n], none⟩
  | some (.atomic value), _ => .error (.contextNotANode value.typeName)
  | none, some sequence => sequence.toShared
  | none, none => .error .noContextItem

/-- The prepared candidates that an axis leads to from the context, if it is an axis
along which candidates are prepared. -/
def relatePrepared? (axis : Axis) (prepared context : NodeSet) : Option NodeSet :=
  match axis with
  | .child | .attr => some (prepared.selectParentChild context .descendant)
  | .descendant | .descendantAttr =>
    some (prepared.selectAncestorDescendant context .descendant false)
  | .descendantOrSelf => some (prepared.selectAncestorDescendant context .descendant true)
  | .self => some (prepared.intersect context)
  | _ => none

/-- The answer of the name index to a step, with the kind of lookup, if it is one that
the name index can answer. -/
def nameLookup? (s : Store) (head : StepHead) (context : NodeSet) :
    Option (LookupKind × Except StoreError NodeSet) :=
  match head.test, head.treeTraversal with
  | .name q, false =>
    match head.axis with
    | .child | .attr | .descendant | .descendantOrSelf | .descendantAttr =>
      some (.descendants,
        s.findDescendants ⟨head.nameType, q⟩ head.axis context.documents context)
    | .parent | .ancestor =>
      some (.ancestors, s.findAncestors ⟨.element, q⟩ head.axis context.documents context)
    | _ => none
  | _, _ => none

/-- The nodes of a step, found without candidates. -/
def selectUnprepared (s : Store) (head : StepHead) (context : NodeSet) : Evaluation NodeSet :=
  match nameLookup? s head context with
  | some (kind, answer) => lookup kind answer
  | none => ofStore (s.navigate head.axis head.test context)

/-- **The nodes of a step,** before its predicates. -/
def selectAxis (s : Store) (head : StepHead) (context : NodeSet) : Evaluation NodeSet := do
  let prepared := (← queryContext).preloaded.get? head.id
  match prepared.bind (relatePrepared? head.axis · context) with
  | some related => pure related
  | none => selectUnprepared s head context

/-- Applies the predicates of a step for one context node after the other, so that
positions are counted from each, and unites what is left. -/
def stepByNode (s : Store) (head : StepHead) (applyAll : Sequence → Evaluation Sequence)
    (persistent : Bool) (nodes : List Node) : Evaluation NodeSet :=
  nodes.foldlM
    (fun result n => do
      let selected ← selectAxis s head (.ofList [n] persistent)
      let kept ← applyAll (.ofSet selected)
      let kept ← orFail kept.toShared
      pure (result.union kept.set))
    .empty

/-- **The value of a step.**  `applyAll` applies its predicates, counting positions
backwards or not. -/
def evaluateStep (s : Store) (head : StepHead) (positional : Bool)
    (applyAll : Bool → Sequence → Evaluation Sequence) (focus : Focus) : Evaluation Sequence := do
  let context ← orFail (contextSet s focus)
  if positional then
    let set ← stepByNode s head (applyAll head.axis.isReverse) context.set.persistent
      context.set.nodes
    pure (.ofSet set)
  else
    let selected ← selectAxis s head context.set
    applyAll false (.ofSet selected)

/-- The documents of the context. -/
def evaluateRoot (s : Store) (focus : Focus) : Evaluation Sequence := do
  let context ← orFail (contextSet s focus)
  pure (.ofSet (.ofList (context.set.nodes.map fun n => .document n.doc) context.set.persistent))

/-! ### Predicates -/

/-- The focus on one item of a sequence. -/
def itemFocus (persistent : Bool) (item : Item) : Focus :=
  match item with
  | .node n => ⟨some (.ofSet (.ofList [n] persistent)), some item⟩
  | .atomic value => ⟨some (.ofValue value), some item⟩

/-- The items that a predicate selects.  `position` is that of the first item, and the
positions go up, or down when `reverse`. -/
def selectItems (evaluate : Focus → Evaluation Sequence) (persistent reverse : Bool)
    (position : Nat) : List Item → Evaluation (List Item)
  | [] => pure []
  | item :: rest => do
    let outcome ← evaluate (itemFocus persistent item)
    let selected ← orFail (outcome.selects position)
    let rest ← selectItems evaluate persistent reverse
      (if reverse then position - 1 else position + 1) rest
    pure (if selected then item :: rest else rest)

/-- A sequence of the same form with only the given items. -/
def withItems (like : Sequence) (kept : List Item) : Sequence :=
  match like with
  | .nodes shared =>
    .ofSet <| .ofList
      (kept.filterMap fun
        | .node n => some n
        | .atomic _ => none)
      shared.set.persistent
  | .items _ => .items kept

/-- Applies a predicate to one item after the other. -/
def applyByItem (evaluate : Focus → Evaluation Sequence) (reverse : Bool) (sequence : Sequence) :
    Evaluation Sequence := do
  let items := sequence.toItems
  let kept ← selectItems evaluate sequence.isPersistent reverse
    (if reverse then items.length else 1) items
  pure (withItems sequence kept)

/-- What an index selects of a sequence for a condition, when it answers for all of it. -/
def applyByIndex (s : Store) (mode : PredicateMode) (probe : Option (ExprId × IndexProbe))
    (sequence : Sequence) : Evaluation (Option NodeSet) :=
  match mode, probe, sequence with
  | .boolean, some (id, probe), .nodes shared => do
    match ← probe.select s shared.set with
    | some kept => do
      update (·.noteIndexUse id)
      pure (some kept)
    | none => pure none
  | _, _, _ => pure none

/-- **Applies a predicate.** -/
def applyPredicate (s : Store) (mode : PredicateMode) (probe : Option (ExprId × IndexProbe))
    (evaluate : Focus → Evaluation Sequence) (reverse : Bool) (sequence : Sequence) :
    Evaluation Sequence := do
  match ← applyByIndex s mode probe sequence with
  | some kept => pure (.ofSet kept)
  | none => applyByItem evaluate reverse sequence

/-! ### Comparisons -/

/-- Whether some values of two sequences stand in the relation of an operator. -/
def compareSequences (s : Store) (op : ComparisonOp) (left right : Sequence) :
    Evaluation Sequence := do
  let left ← ofStore (s.atomize left)
  let right ← ofStore (s.atomize right)
  let b ← orFail (AtomicValue.someRelated op left right)
  pure (.ofBool b)

/-! ### Pragmas -/

/-- Activates a pragma of an expression.  An optimizer finds out what there is to
optimize once in a context, and the uses of indexes that are to be checked are
forgotten. -/
def activate (body : Expr) (p : Pragma) : Evaluation Unit := do
  match p.kind with
  | .optimize _ enabled _ =>
    update fun c =>
      match c.optimizer? p.id with
      | some _ => c
      | none => c.setOptimizer p.id (if enabled then .discover body else .empty)
  | .noIndex => pure ()
  | .forceIndexUse => update (·.forgetIndexUse body.reporters)
  update (·.enter p.id .activated)

/-- Evaluates an expression by way of the first of its pragmas that evaluates. -/
def evaluatePragmas (s : Store) (evaluate : Focus → Evaluation Sequence) (focus : Focus) :
    List Pragma → Evaluation Sequence
  | [] => evaluate focus
  | p :: rest => do
    update (·.enter p.id .evaluating)
    match p.kind with
    | .optimize _ _ _ => Optimizer.evaluate s p.id evaluate focus
    | _ => evaluatePragmas s evaluate focus rest

/-- Whether an expression has conditions that report the use of an index and all of
them have used one. -/
def allUseIndexes (c : QueryContext) (body : Expr) : Bool :=
  !body.reporters.isEmpty && body.reporters.all c.hasUsedIndex

/-- Deactivates a pragma of an expression, and fails where an index had to be used and
was not. -/
def deactivate (body : Expr) (p : Pragma) : Evaluation Unit := do
  update (·.enter p.id .deactivated)
  match p.kind with
  | .forceIndexUse =>
    if allUseIndexes (← queryContext) body then pure ()
    else orFail (.error (.indexNotUsed body.text))
  | _ => pure ()

/-- Evaluates an expression with its pragmas. -/
def evaluateExtension (s : Store) (pragmas : List Pragma) (body : Expr)
    (evaluate : Focus → Evaluation Sequence) (focus : Focus) : Evaluation Sequence := do
  pragmas.forM (activate body)
  let value ← evaluatePragmas s evaluate focus pragmas
  pragmas.forM (deactivate body)
  pure value

end Evaluation

open Evaluation

namespace Expr

mutual

/-- **The value of an expression** for a focus. -/
def evaluate (s : Store) : Expr → Focus → Evaluation Sequence
  | path _ steps, focus => evaluatePath s steps focus
  | step head predicates, focus =>
    evaluateStep s head (hasPositional predicates) (applyPredicates s predicates) focus
  | root, focus => evaluateRoot s focus
  | filter _ base predicates, focus => do
    let value ← base.evaluate s focus
    applyPredicates s predicates false value
  | comparison _ op left right _, focus => do
    let left ← left.evaluate s focus
    let right ← right.evaluate s focus
    compareSequences s op left right
  | call _ function args _, focus => do
    let args ← evaluateAll s args focus
    function.apply s focus args
  | .variable name, _ => do orFail ((← queryContext).value name)
  | literal value, _ => pure (.ofValue value)
  | and left right, focus => do
    let left ← left.evaluate s focus
    if ← orFail left.truth then
      let right ← right.evaluate s focus
      pure (.ofBool (← orFail right.truth))
    else pure (.ofBool false)
  | or left right, focus => do
    let left ← left.evaluate s focus
    if ← orFail left.truth then pure (.ofBool true)
    else
      let right ← right.evaluate s focus
      pure (.ofBool (← orFail right.truth))
  | sequence items, focus => do
    let values ← evaluateAll s items focus
    pure (values.foldl Sequence.append .empty)
  | extension _ pragmas body, focus =>
    evaluateExtension s pragmas body (body.evaluate s) focus

/-- The value of a path: the first step is evaluated for the focus. -/
def evaluatePath (s : Store) : List Expr → Focus → Evaluation Sequence
  | [], _ => pure .empty
  | first :: rest, focus => do
    let value ← first.evaluate s focus
    evaluateSteps s rest value

/-- The value of the further steps of a path for the value of those before them. -/
def evaluateSteps (s : Store) : List Expr → Sequence → Evaluation Sequence
  | [], value => pure value
  | e :: rest, value =>
    if value.isEmpty then pure .empty
    else do
      let context ← orFail value.toShared
      let value ← e.evaluate s (.on (.nodes context))
      evaluateSteps s rest value

/-- The values of several expressions. -/
def evaluateAll (s : Store) : List Expr → Focus → Evaluation (List Sequence)
  | [], _ => pure []
  | e :: rest, focus => do
    let value ← e.evaluate s focus
    let values ← evaluateAll s rest focus
    pure (value :: values)

/-- Applies predicates one after the other. -/
def applyPredicates (s : Store) : List Predicate → Bool → Sequence → Evaluation Sequence
  | [], _, value => pure value
  | ⟨_, e, mode⟩ :: rest, reverse, value => do
    let kept ← applyPredicate s mode e.probe? (e.evaluate s) reverse value
    applyPredicates s rest reverse kept

end

end Expr

/-- **Evaluates a query** for a focus. -/
def CompiledQuery.evaluate (q : CompiledQuery) (s : Store) (focus : Focus) : Evaluation Sequence :=
  q.root.evaluate s focus

end IndexedXml
