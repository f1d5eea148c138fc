/-
# Runs

Evaluation works on a run: the query context and the counts of the lookups made.
A failure ends the evaluation but not the run; what was noted before it stays
noted.  Only the candidates prepared for a step are dropped again however the
evaluation for which they were prepared ends.
-/

import IndexedXml.Query.Context
import IndexedXml.Store.Lookup

namespace IndexedXml

/-- The state of an evaluation. -/
structure Run where
  /-- What outlives the evaluation. -/
  context : QueryContext
  /-- The lookups made so far. -/
  counts : LookupCounts

/-- A computation on a run that may fail. -/
abbrev Evaluation := ExceptT QueryError (StateM Run)

/-- What an expression is evaluated for: a context sequence, and an item of it that
takes precedence. -/
structure Focus where
  /-- The context sequence. -/
  context : Option Sequence
  /-- The context item. -/
  item : Option Item

namespace Focus

/-- The focus on all items of a sequence. -/
def on (s : Sequence) : Focus := ⟨some s, none⟩

end Focus

namespace Evaluation

variable {α : Type}

/-- Goes on with a value, or fails. -/
def orFail (r : Except QueryError α) : Evaluation α := ExceptT.mk (pure r)

/-- Goes on with what the store answers, or fails. -/
def ofStore (r : Except StoreError α) : Evaluation α := orFail (r.mapError .store)

/-- The query context. -/
def queryContext : Evaluation QueryContext := do pure (← get).context

/-- Changes the query context. -/
def update (f : QueryContext → QueryContext) : Evaluation Unit :=
  modify fun run => { run with context := f run.context }

/-- Goes on with what a lookup answers, and counts it. -/
def lookup (kind : LookupKind) (answer : Except StoreError NodeSet) : Evaluation NodeSet := do
  let set ← ofStore answer
  modify fun run => { run with counts := run.counts.count kind }
  pure set

/-- Evaluates with candidates prepared for a step, which are dropped at the end. -/
def preloading (step : ExprId) (candidates : NodeSet) (evaluation : Evaluation α) :
    Evaluation α :=
  ExceptT.mk fun run =>
    let (outcome, run) := evaluation.run { run with context := run.context.preload step candidates }
    (outcome, { run with context := run.context.unload step })

end Evaluation
end IndexedXml
