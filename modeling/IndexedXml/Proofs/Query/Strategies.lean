/-
# Strategies and handlings

What is asked for by a pragma `optimize` may be done in more than one way.  A *strategy*
says how an expression is evaluated under the number of such a pragma, and
`Expr.evaluateBy` evaluates with any strategy.  With the optimizer for a strategy it is
evaluation itself (`Expr.evaluateBy_optimizer`), so that what is proved for two strategies
compares the optimizer with another one, such as one that looks over its shoulder.

A *handling* says how an expression is evaluated that has pragmas, whatever they ask for, and
`Expr.evaluateWith` evaluates with any handling.  With that of evaluation it is evaluation itself
(`Expr.evaluateWith_extension`).
-/

import IndexedXml.Query.Evaluation

namespace IndexedXml

/-- How an expression, given by its evaluation, is evaluated under the number of a pragma
`optimize`. -/
abbrev Strategy := ExprId → (Focus → Evaluation Sequence) → Focus → Evaluation Sequence

namespace Evaluation

/-- Evaluates an expression by way of the first of its pragmas that evaluates. -/
def evaluatePragmasBy (strategy : Strategy) (evaluate : Focus → Evaluation Sequence)
    (focus : Focus) : List Pragma → Evaluation Sequence
  | [] => evaluate focus
  | p :: rest => do
    update (·.enter p.id .evaluating)
    match p.kind with
    | .optimize _ _ _ => strategy p.id evaluate focus
    | _ => evaluatePragmasBy strategy evaluate focus rest

/-- Evaluates an expression with its pragmas. -/
def evaluateExtensionBy (strategy : Strategy) (pragmas : List Pragma) (body : Expr)
    (evaluate : Focus → Evaluation Sequence) (focus : Focus) : Evaluation Sequence := do
  pragmas.forM (activate body)
  let value ← evaluatePragmasBy strategy evaluate focus pragmas
  pragmas.forM (deactivate body)
  pure value

theorem evaluatePragmasBy_optimizer (s : Store) (evaluate : Focus → Evaluation Sequence)
    (focus : Focus) (ps : List Pragma) :
    evaluatePragmasBy (Optimizer.evaluate s) evaluate focus ps =
      evaluatePragmas s evaluate focus ps := by
  induction ps with
  | nil => rfl
  | cons p rest ih =>
    unfold evaluatePragmasBy evaluatePragmas
    refine bind_congr fun _ => ?_
    cases p.kind with
    | optimize => rfl
    | noIndex | forceIndexUse => exact ih

theorem evaluateExtensionBy_optimizer (s : Store) (ps : List Pragma) (body : Expr)
    (evaluate : Focus → Evaluation Sequence) (focus : Focus) :
    evaluateExtensionBy (Optimizer.evaluate s) ps body evaluate focus =
      evaluateExtension s ps body evaluate focus := by
  unfold evaluateExtensionBy evaluateExtension
  rw [evaluatePragmasBy_optimizer]

end Evaluation

open Evaluation

namespace Expr

mutual

/-- **The value of an expression** for a focus, with a strategy for what is optimized. -/
def evaluateBy (s : Store) (strategy : Strategy) : Expr → Focus → Evaluation Sequence
  | path _ steps, focus => evaluatePathBy s strategy steps focus
  | step head predicates, focus =>
    evaluateStep s head (hasPositional predicates) (applyPredicatesBy s strategy predicates) focus
  | root, focus => evaluateRoot s focus
  | filter _ base predicates, focus => do
    let value ← base.evaluateBy s strategy focus
    applyPredicatesBy s strategy predicates false value
  | comparison _ op left right _, focus => do
    let left ← left.evaluateBy s strategy focus
    let right ← right.evaluateBy s strategy focus
    compareSequences s op left right
  | call _ function args _, focus => do
    let args ← evaluateAllBy s strategy args focus
    function.apply s focus args
  | .variable name, _ => do orFail ((← queryContext).value name)
  | literal value, _ => pure (.ofValue value)
  | and left right, focus => do
    let left ← left.evaluateBy s strategy focus
    if ← orFail left.truth then
      let right ← right.evaluateBy s strategy focus
      pure (.ofBool (← orFail right.truth))
    else pure (.ofBool false)
  | or left right, focus => do
    let left ← left.evaluateBy s strategy focus
    if ← orFail left.truth then pure (.ofBool true)
    else
      let right ← right.evaluateBy s strategy focus
      pure (.ofBool (← orFail right.truth))
  | sequence items, focus => do
    let values ← evaluateAllBy s strategy items focus
    pure (values.foldl Sequence.append .empty)
  | extension _ pragmas body, focus =>
    evaluateExtensionBy strategy pragmas body (body.evaluateBy s strategy) focus

/-- The value of a path: the first step is evaluated for the focus. -/
def evaluatePathBy (s : Store) (strategy : Strategy) :
    List Expr → Focus → Evaluation Sequence
  | [], _ => pure .empty
  | first :: rest, focus => do
    let value ← first.evaluateBy s strategy focus
    evaluateStepsBy s strategy rest value

/-- The value of the further steps of a path for the value of those before them. -/
def evaluateStepsBy (s : Store) (strategy : Strategy) :
    List Expr → Sequence → Evaluation Sequence
  | [], value => pure value
  | e :: rest, value =>
    if value.isEmpty then pure .empty
    else do
      let context ← orFail value.toShared
      let value ← e.evaluateBy s strategy (.on (.nodes context))
      evaluateStepsBy s strategy rest value

/-- The values of several expressions. -/
def evaluateAllBy (s : Store) (strategy : Strategy) :
    List Expr → Focus → Evaluation (List Sequence)
  | [], _ => pure []
  | e :: rest, focus => do
    let value ← e.evaluateBy s strategy focus
    let values ← evaluateAllBy s strategy rest focus
    pure (value :: values)

/-- Applies predicates one after the other. -/
def applyPredicatesBy (s : Store) (strategy : Strategy) :
    List Predicate → Bool → Sequence → Evaluation Sequence
  | [], _, value => pure value
  | ⟨_, e, mode⟩ :: rest, reverse, value => do
    let kept ← applyPredicate s mode e.probe? (e.evaluateBy s strategy) reverse value
    applyPredicatesBy s strategy rest reverse kept

end

/-! ### The optimizer for a strategy -/

mutual

/-- **Evaluation uses the optimizer for a strategy.** -/
theorem evaluateBy_optimizer (s : Store) :
    ∀ e : Expr, e.evaluateBy s (Optimizer.evaluate s) = e.evaluate s
  | path _ steps => by
    funext focus
    rw [evaluateBy, evaluate, evaluatePathBy_optimizer s steps]
  | step head predicates => by
    funext focus
    rw [evaluateBy, evaluate, applyPredicatesBy_optimizer s predicates]
  | root => by
    funext focus
    rw [evaluateBy, evaluate]
  | filter _ base predicates => by
    funext focus
    rw [evaluateBy, evaluate, evaluateBy_optimizer s base, applyPredicatesBy_optimizer s predicates]
  | comparison _ _ left right _ | and left right | or left right => by
    funext focus
    rw [evaluateBy, evaluate, evaluateBy_optimizer s left, evaluateBy_optimizer s right]
  | call _ _ args _ | sequence args => by
    funext focus
    rw [evaluateBy, evaluate, evaluateAllBy_optimizer s args]
  | .variable _ | literal _ => by
    funext focus
    rw [evaluateBy, evaluate]
  | extension _ _ body => by
    funext focus
    rw [evaluateBy, evaluate, evaluateBy_optimizer s body, evaluateExtensionBy_optimizer]

theorem evaluatePathBy_optimizer (s : Store) :
    ∀ steps, evaluatePathBy s (Optimizer.evaluate s) steps = evaluatePath s steps
  | [] => by
    funext focus
    rw [evaluatePathBy, evaluatePath]
  | first :: rest => by
    funext focus
    rw [evaluatePathBy, evaluatePath, evaluateBy_optimizer s first, evaluateStepsBy_optimizer s rest]

theorem evaluateStepsBy_optimizer (s : Store) :
    ∀ steps, evaluateStepsBy s (Optimizer.evaluate s) steps = evaluateSteps s steps
  | [] => by
    funext value
    rw [evaluateStepsBy, evaluateSteps]
  | e :: rest => by
    funext value
    rw [evaluateStepsBy, evaluateSteps, evaluateBy_optimizer s e, evaluateStepsBy_optimizer s rest]

theorem evaluateAllBy_optimizer (s : Store) :
    ∀ es, evaluateAllBy s (Optimizer.evaluate s) es = evaluateAll s es
  | [] => by
    funext focus
    rw [evaluateAllBy, evaluateAll]
  | e :: rest => by
    funext focus
    rw [evaluateAllBy, evaluateAll, evaluateBy_optimizer s e, evaluateAllBy_optimizer s rest]

theorem applyPredicatesBy_optimizer (s : Store) :
    ∀ ps, applyPredicatesBy s (Optimizer.evaluate s) ps = applyPredicates s ps
  | [] => by
    funext reverse value
    rw [applyPredicatesBy, applyPredicates]
  | ⟨_, e, _⟩ :: rest => by
    funext reverse value
    rw [applyPredicatesBy, applyPredicates, evaluateBy_optimizer s e,
      applyPredicatesBy_optimizer s rest]

end

end Expr

/-! ### Handlings -/

/-- How an expression with pragmas is evaluated, given the expression itself and its evaluation. -/
abbrev Handling := List Pragma → Expr → (Focus → Evaluation Sequence) → Focus → Evaluation Sequence

namespace Expr

mutual

/-- **The value of an expression** for a focus, with a handling of pragmas. -/
def evaluateWith (s : Store) (handling : Handling) : Expr → Focus → Evaluation Sequence
  | path _ steps, focus => evaluatePathWith s handling steps focus
  | step head predicates, focus =>
    evaluateStep s head (hasPositional predicates) (applyPredicatesWith s handling predicates) focus
  | root, focus => evaluateRoot s focus
  | filter _ base predicates, focus => do
    let value ← base.evaluateWith s handling focus
    applyPredicatesWith s handling predicates false value
  | comparison _ op left right _, focus => do
    let left ← left.evaluateWith s handling focus
    let right ← right.evaluateWith s handling focus
    compareSequences s op left right
  | call _ function args _, focus => do
    let args ← evaluateAllWith s handling args focus
    function.apply s focus args
  | .variable name, _ => do orFail ((← queryContext).value name)
  | literal value, _ => pure (.ofValue value)
  | and left right, focus => do
    let left ← left.evaluateWith s handling focus
    if ← orFail left.truth then
      let right ← right.evaluateWith s handling focus
      pure (.ofBool (← orFail right.truth))
    else pure (.ofBool false)
  | or left right, focus => do
    let left ← left.evaluateWith s handling focus
    if ← orFail left.truth then pure (.ofBool true)
    else
      let right ← right.evaluateWith s handling focus
      pure (.ofBool (← orFail right.truth))
  | sequence items, focus => do
    let values ← evaluateAllWith s handling items focus
    pure (values.foldl Sequence.append .empty)
  | extension _ pragmas body, focus => handling pragmas body (body.evaluateWith s handling) focus

/-- The value of a path: the first step is evaluated for the focus. -/
def evaluatePathWith (s : Store) (handling : Handling) : List Expr → Focus → Evaluation Sequence
  | [], _ => pure .empty
  | first :: rest, focus => do
    let value ← first.evaluateWith s handling focus
    evaluateStepsWith s handling rest value

/-- The value of the further steps of a path for the value of those before them. -/
def evaluateStepsWith (s : Store) (handling : Handling) :
    List Expr → Sequence → Evaluation Sequence
  | [], value => pure value
  | e :: rest, value =>
    if value.isEmpty then pure .empty
    else do
      let context ← orFail value.toShared
      let value ← e.evaluateWith s handling (.on (.nodes context))
      evaluateStepsWith s handling rest value

/-- The values of several expressions. -/
def evaluateAllWith (s : Store) (handling : Handling) :
    List Expr → Focus → Evaluation (List Sequence)
  | [], _ => pure []
  | e :: rest, focus => do
    let value ← e.evaluateWith s handling focus
    let values ← evaluateAllWith s handling rest focus
    pure (value :: values)

/-- Applies predicates one after the other. -/
def applyPredicatesWith (s : Store) (handling : Handling) :
    List Predicate → Bool → Sequence → Evaluation Sequence
  | [], _, value => pure value
  | ⟨_, e, mode⟩ :: rest, reverse, value => do
    let kept ← applyPredicate s mode e.probe? (e.evaluateWith s handling) reverse value
    applyPredicatesWith s handling rest reverse kept

end

/-! ### Strategies for a handling -/

mutual

/-- **Evaluation with a strategy handles pragmas with it.** -/
theorem evaluateWith_by (s : Store) (strategy : Strategy) :
    ∀ e : Expr, e.evaluateWith s (evaluateExtensionBy strategy) = e.evaluateBy s strategy
  | path _ steps => by
    funext focus
    rw [evaluateWith, evaluateBy, evaluatePathWith_by s strategy steps]
  | step head predicates => by
    funext focus
    rw [evaluateWith, evaluateBy, applyPredicatesWith_by s strategy predicates]
  | root => by
    funext focus
    rw [evaluateWith, evaluateBy]
  | filter _ base predicates => by
    funext focus
    rw [evaluateWith, evaluateBy, evaluateWith_by s strategy base,
      applyPredicatesWith_by s strategy predicates]
  | comparison _ _ left right _ | and left right | or left right => by
    funext focus
    rw [evaluateWith, evaluateBy, evaluateWith_by s strategy left, evaluateWith_by s strategy right]
  | call _ _ args _ | sequence args => by
    funext focus
    rw [evaluateWith, evaluateBy, evaluateAllWith_by s strategy args]
  | .variable _ | literal _ => by
    funext focus
    rw [evaluateWith, evaluateBy]
  | extension _ _ body => by
    funext focus
    rw [evaluateWith, evaluateBy, evaluateWith_by s strategy body]

theorem evaluatePathWith_by (s : Store) (strategy : Strategy) :
    ∀ steps, evaluatePathWith s (evaluateExtensionBy strategy) steps =
      evaluatePathBy s strategy steps
  | [] => by
    funext focus
    rw [evaluatePathWith, evaluatePathBy]
  | first :: rest => by
    funext focus
    rw [evaluatePathWith, evaluatePathBy, evaluateWith_by s strategy first,
      evaluateStepsWith_by s strategy rest]

theorem evaluateStepsWith_by (s : Store) (strategy : Strategy) :
    ∀ steps, evaluateStepsWith s (evaluateExtensionBy strategy) steps =
      evaluateStepsBy s strategy steps
  | [] => by
    funext value
    rw [evaluateStepsWith, evaluateStepsBy]
  | e :: rest => by
    funext value
    rw [evaluateStepsWith, evaluateStepsBy, evaluateWith_by s strategy e,
      evaluateStepsWith_by s strategy rest]

theorem evaluateAllWith_by (s : Store) (strategy : Strategy) :
    ∀ es, evaluateAllWith s (evaluateExtensionBy strategy) es = evaluateAllBy s strategy es
  | [] => by
    funext focus
    rw [evaluateAllWith, evaluateAllBy]
  | e :: rest => by
    funext focus
    rw [evaluateAllWith, evaluateAllBy, evaluateWith_by s strategy e,
      evaluateAllWith_by s strategy rest]

theorem applyPredicatesWith_by (s : Store) (strategy : Strategy) :
    ∀ ps, applyPredicatesWith s (evaluateExtensionBy strategy) ps = applyPredicatesBy s strategy ps
  | [] => by
    funext reverse value
    rw [applyPredicatesWith, applyPredicatesBy]
  | ⟨_, e, _⟩ :: rest => by
    funext reverse value
    rw [applyPredicatesWith, applyPredicatesBy, evaluateWith_by s strategy e,
      applyPredicatesWith_by s strategy rest]

end

/-- The handling of evaluation is that with the optimizer. -/
theorem evaluateExtension_eq_by (s : Store) :
    evaluateExtension s = evaluateExtensionBy (Optimizer.evaluate s) := by
  funext ps body evaluate focus
  exact (evaluateExtensionBy_optimizer s ps body evaluate focus).symm

/-- **Evaluation handles pragmas as it does.** -/
theorem evaluateWith_extension (s : Store) (e : Expr) :
    e.evaluateWith s (evaluateExtension s) = e.evaluate s := by
  rw [evaluateExtension_eq_by, evaluateWith_by, evaluateBy_optimizer]

theorem applyPredicatesWith_extension (s : Store) (ps : List Predicate) :
    applyPredicatesWith s (evaluateExtension s) ps = applyPredicates s ps := by
  rw [evaluateExtension_eq_by, applyPredicatesWith_by, applyPredicatesBy_optimizer]

end Expr
end IndexedXml
