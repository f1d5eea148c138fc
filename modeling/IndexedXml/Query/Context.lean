/-
# Query contexts

What outlives one evaluation: the values of variables, the phases of pragmas, what
optimizers have found out, candidates prepared for steps, and which conditions have
used an index.  All but the variables is kept under the numbers of the parts of a
query, so that queries evaluated in one context may meet under a number.

Compiled expressions themselves never change.
-/

import IndexedXml.Query.Discovery
import IndexedXml.Query.Sequence
import IndexedXml.Query.Table

namespace IndexedXml

/-- Where a pragma is in its life. -/
inductive Phase where
  | created
  | analyzed
  | activated
  | evaluating
  | deactivated
  deriving DecidableEq

namespace Phase

/-- The name of a phase. -/
def name : Phase → String
  | created => "created"
  | analyzed => "analyzed"
  | activated => "activated"
  | evaluating => "evaluating"
  | deactivated => "deactivated"

/-- The phase once what belongs to runs is dropped. -/
def reset : Phase → Phase
  | created => created
  | analyzed => analyzed
  | _ => activated

end Phase

/-- The verdict on a context, kept for the next time. -/
structure CachedVerdict where
  /-- The context. -/
  context : SharedSet
  /-- What it was watched by at that time. -/
  state : Nat
  /-- Whether every condition is answered by indexes there. -/
  optimize : Bool
  deriving DecidableEq

/-- What an optimizer has done. -/
structure OptimizeStats where
  /-- Evaluations that got as far as a verdict. -/
  evaluations : Nat
  /-- Evaluations with a narrowed context. -/
  optimized : Nat
  /-- Evaluations without. -/
  fallbacks : Nat
  /-- Verdicts taken from the cache. -/
  cacheHits : Nat
  /-- Verdicts computed. -/
  verdicts : Nat
  /-- Lookups made for narrowing. -/
  preSelections : Nat
  deriving DecidableEq

namespace OptimizeStats

/-- Nothing done. -/
def zero : OptimizeStats := ⟨0, 0, 0, 0, 0, 0⟩

/-- The displayed counts. -/
def text (s : OptimizeStats) : String :=
  "evaluations=" ++ toString s.evaluations ++ " optimized=" ++ toString s.optimized ++
    " fallbacks=" ++ toString s.fallbacks ++ " cache_hits=" ++ toString s.cacheHits ++
    " verdicts=" ++ toString s.verdicts ++ " pre_selections=" ++ toString s.preSelections

end OptimizeStats

/-- One round of narrowing. -/
structure NarrowingRound where
  /-- The number of the condition. -/
  id : ExprId
  /-- What its index found. -/
  selection : NodeSet
  /-- The candidates above that. -/
  ancestors : NodeSet
  deriving DecidableEq

/-- What an optimizer has found out. -/
structure OptimizeState where
  /-- The conditions that indexes can answer, in order. -/
  optimizables : List Optimizable
  /-- The step that candidates are prepared for. -/
  contextStep : Option ContextStep
  /-- The variable whose value is narrowed instead of the context. -/
  contextVariable : Option String
  /-- The last positive verdict. -/
  cache : Option CachedVerdict
  /-- What has been done. -/
  stats : OptimizeStats
  /-- The rounds of the last narrowing. -/
  trace : List NarrowingRound

namespace OptimizeState

/-- Nothing found out. -/
def empty : OptimizeState := ⟨[], none, none, none, .zero, []⟩

/-- **What an expression offers to optimize.** -/
def discover (e : Expr) : OptimizeState :=
  { empty with
    optimizables := (e.optimizables none).map Prod.fst
    contextStep := e.contextStep?
    contextVariable := e.contextVariable? }

/-- Whether the cached verdict is positive, if there is one. -/
def cachedVerdict? (s : OptimizeState) : Option Bool := s.cache.map CachedVerdict.optimize

/-- Forgets the verdict. -/
def reset (s : OptimizeState) : OptimizeState := { s with cache := none }

end OptimizeState

/-- What outlives one evaluation. -/
structure QueryContext where
  /-- The values of variables. -/
  bindings : List (String × Sequence)
  /-- The phases of pragmas that have been activated. -/
  phases : Table Phase
  /-- What optimizers have found out. -/
  optimizers : Table OptimizeState
  /-- Candidates prepared for steps. -/
  preloaded : Table NodeSet
  /-- The conditions that have used an index. -/
  usedIndexes : List ExprId

namespace QueryContext

/-- A new context. -/
def empty : QueryContext := ⟨[], [], [], [], []⟩

/-- Gives a variable a value, in place of the one it has. -/
def declare (c : QueryContext) (name : String) (value : Sequence) : QueryContext :=
  { c with bindings := (name, value) :: c.bindings.filter fun entry => entry.1 != name }

/-- The value of a variable. -/
def value (c : QueryContext) (name : String) : Except QueryError Sequence :=
  match c.bindings.find? fun entry => entry.1 == name with
  | some (_, value) => .ok value
  | none => .error (.undeclaredVariable name)

/-- Puts a pragma into a phase. -/
def enter (c : QueryContext) (id : ExprId) (phase : Phase) : QueryContext :=
  { c with phases := c.phases.put id phase }

/-- The phase of a pragma. -/
def phase (c : QueryContext) (p : Pragma) : Phase :=
  (c.phases.get? p.id).getD (if p.analyzed then .analyzed else .created)

/-- What an optimizer has found out. -/
def optimizer? (c : QueryContext) (id : ExprId) : Option OptimizeState := c.optimizers.get? id

/-- Keeps what an optimizer has found out. -/
def setOptimizer (c : QueryContext) (id : ExprId) (state : OptimizeState) : QueryContext :=
  { c with optimizers := c.optimizers.put id state }

/-- Changes what an optimizer has found out, if anything. -/
def updateOptimizer (c : QueryContext) (id : ExprId) (f : OptimizeState → OptimizeState) :
    QueryContext :=
  match c.optimizer? id with
  | some state => c.setOptimizer id (f state)
  | none => c

/-- Prepares candidates for a step. -/
def preload (c : QueryContext) (step : ExprId) (candidates : NodeSet) : QueryContext :=
  { c with preloaded := c.preloaded.put step candidates }

/-- Drops the candidates for a step. -/
def unload (c : QueryContext) (step : ExprId) : QueryContext :=
  { c with preloaded := c.preloaded.erase step }

/-- Whether a condition has used an index. -/
def hasUsedIndex (c : QueryContext) (id : ExprId) : Bool := c.usedIndexes.elem id

/-- Notes that a condition has used an index. -/
def noteIndexUse (c : QueryContext) (id : ExprId) : QueryContext :=
  if c.hasUsedIndex id then c else { c with usedIndexes := id :: c.usedIndexes }

/-- Forgets that the conditions have used an index. -/
def forgetIndexUse (c : QueryContext) (ids : List ExprId) : QueryContext :=
  { c with usedIndexes := c.usedIndexes.filter fun id => !ids.elem id }

/-- **Drops what belongs to runs:** verdicts, candidates and uses of indexes.  What
optimizers have found out stays, and so do the variables. -/
def reset (c : QueryContext) : QueryContext :=
  { c with
    phases := c.phases.mapValues Phase.reset
    optimizers := c.optimizers.mapValues OptimizeState.reset
    preloaded := []
    usedIndexes := [] }

/-! ### What stays -/

section

variable (c : QueryContext) (id : ExprId) (f : OptimizeState → OptimizeState)

@[simp] theorem bindings_updateOptimizer : (c.updateOptimizer id f).bindings = c.bindings := by
  unfold updateOptimizer
  cases c.optimizer? id <;> rfl

@[simp] theorem preloaded_updateOptimizer : (c.updateOptimizer id f).preloaded = c.preloaded := by
  unfold updateOptimizer
  cases c.optimizer? id <;> rfl

@[simp] theorem usedIndexes_updateOptimizer :
    (c.updateOptimizer id f).usedIndexes = c.usedIndexes := by
  unfold updateOptimizer
  cases c.optimizer? id <;> rfl

@[simp] theorem bindings_noteIndexUse : (c.noteIndexUse id).bindings = c.bindings := by
  unfold noteIndexUse
  split <;> rfl

@[simp] theorem optimizers_noteIndexUse : (c.noteIndexUse id).optimizers = c.optimizers := by
  unfold noteIndexUse
  split <;> rfl

@[simp] theorem preloaded_noteIndexUse : (c.noteIndexUse id).preloaded = c.preloaded := by
  unfold noteIndexUse
  split <;> rfl

end

end QueryContext
end IndexedXml
