/-
# The optimizer

What the pragma `optimize` does in place of evaluating its expression directly.
First it judges whether every condition is answered by indexes for the whole context,
or takes the verdict from the last time when the context is the very same set and
nothing has changed since.  After a positive verdict it narrows the context and
evaluates the expression for what is left: with the candidates prepared for the
context step, or else for the candidates alone.

Only a context that a store has handed out is judged, or none at all.
-/

import IndexedXml.Query.Narrowing

namespace IndexedXml
namespace Optimizer

/-- The context of a focus; an item is a context of its own. -/
def contextOf (s : Store) (focus : Focus) : Option Sequence :=
  match focus.item with
  | some (.node n) => some (.ofSet (s.persistent [n]))
  | some (.atomic value) => some (.ofValue value)
  | none => focus.context

/-- What is decided before narrowing. -/
structure Judgement where
  /-- The context as a node set. -/
  given : Option SharedSet
  /-- What is narrowed: the context, or the value of the context variable. -/
  working : Option Sequence
  /-- Whether to narrow. -/
  optimize : Bool
  /-- Whether the verdict was kept from the last time. -/
  cacheHit : Bool
  /-- Whether the verdict was computed. -/
  computed : Bool

/-- A context that is not judged. -/
def Judgement.unjudged : Judgement := ⟨none, none, false, false, false⟩

/-- Whether two sets are the same set handed over twice. -/
def isSameSet (a b : SharedSet) : Bool := a.handle.isSome && a.handle == b.handle

/-- The verdict on this very context, if it is kept and nothing has changed since. -/
def cached? (s : Store) (state : OptimizeState) (given : Option SharedSet) : Option Bool := do
  let cached ← state.cache
  let current ← given
  if isSameSet cached.context current && !s.hasChanged current.set cached.state then
    pure cached.optimize
  else none

/-- What is narrowed in place of the context. -/
def workingSequence (state : OptimizeState) (context : Option Sequence) :
    Evaluation (Option Sequence) :=
  match state.contextVariable with
  | none => pure context
  | some name => do
    let value ← Evaluation.orFail ((← Evaluation.queryContext).value name)
    pure (some value)

/-- The node set of a sequence. -/
def sharedOf? : Sequence → Option SharedSet
  | .nodes shared => some shared
  | .items _ => none

/-- **Judges a context.** -/
def judge (s : Store) (state : OptimizeState) (context : Option Sequence) : Evaluation Judgement :=
  if (context.map Sequence.isPersistent).getD true then do
    let given := context.bind sharedOf?
    let working ← workingSequence state context
    match cached? s state given with
    | some optimize => pure ⟨given, working, optimize, true, false⟩
    | none => do
      let optimize ← Evaluation.ofStore (verdict s working state.optimizables)
      pure ⟨given, working, optimize, false, true⟩
  else pure .unjudged

/-- Counts a judgement. -/
def countJudgement (j : Judgement) (state : OptimizeState) : OptimizeState :=
  { state with
    stats := { state.stats with
      evaluations := state.stats.evaluations + 1
      cacheHits := state.stats.cacheHits + j.cacheHit.toNat
      verdicts := state.stats.verdicts + j.computed.toNat } }

/-- Counts an evaluation without narrowing. -/
def countFallback (state : OptimizeState) : OptimizeState :=
  { state with stats := { state.stats with fallbacks := state.stats.fallbacks + 1 } }

/-- Counts an evaluation with narrowing, and keeps its verdict and its rounds. -/
def countNarrowing (s : Store) (given : Option SharedSet) (rounds : List NarrowingRound)
    (state : OptimizeState) : OptimizeState :=
  { state with
    cache := given.map fun context => ⟨context, s.stateOf context.set, true⟩
    stats := { state.stats with
      optimized := state.stats.optimized + 1
      preSelections := state.stats.preSelections + rounds.length }
    trace := rounds }

/-- Evaluates without narrowing. -/
def fallBack (id : ExprId) (body : Focus → Evaluation Sequence) (focus : Focus)
    (context : Option Sequence) (j : Judgement) : Evaluation Sequence := do
  Evaluation.update (·.updateOptimizer id countFallback)
  body ⟨((j.given.map .nodes).or j.working).or context, focus.item⟩

/-- Evaluates for what narrowing leaves. -/
def narrow (s : Store) (id : ExprId) (state : OptimizeState) (body : Focus → Evaluation Sequence)
    (j : Judgement) : Evaluation Sequence := do
  let context ← Evaluation.orFail (j.working.getD .empty).toShared
  let rounds ← Narrowing.rounds s state.contextStep context.set state.optimizables
  Evaluation.update (·.updateOptimizer id (countNarrowing s j.given rounds))
  let candidates := Narrowing.candidates rounds
  match state.contextStep with
  | none => body (.on (.ofSet candidates))
  | some step =>
    let narrowed := j.given.map fun o => .ofSet (o.set.filterDocuments candidates)
    Evaluation.preloading step.id candidates (body ⟨narrowed, none⟩)

/-- **Evaluates an expression by way of the optimizer** under a number; `body`
evaluates it directly. -/
def evaluate (s : Store) (id : ExprId) (body : Focus → Evaluation Sequence) (focus : Focus) :
    Evaluation Sequence := do
  match (← Evaluation.queryContext).optimizer? id with
  | none => body focus
  | some state =>
    let context := contextOf s focus
    let j ← judge s state context
    Evaluation.update (·.updateOptimizer id (countJudgement j))
    if j.optimize then narrow s id state body j else fallBack id body focus context j

end Optimizer
end IndexedXml
