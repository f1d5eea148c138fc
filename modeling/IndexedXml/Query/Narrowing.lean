/-
# Narrowing

Narrowing finds candidates for a path before the path is evaluated.  Each condition
in turn looks its matches up, within the candidates of the condition before it, and
the matches are taken back to the candidates above them.  In the first round the
candidates are the nodes that the context step asks for, when there is one; otherwise
they are the context nodes themselves.
-/

import IndexedXml.Query.Coverage
import IndexedXml.Query.Run

namespace IndexedXml
namespace IndexProbe

/-- **The members of a set for which the condition holds,** answered from the index.
There is no answer when hits do not say which members they qualify, or when the
index does not cover the whole set. -/
def select (p : IndexProbe) (s : Store) (candidates : NodeSet) : Evaluation (Option NodeSet) :=
  match p.relation with
  | none => pure none
  | some relation => do
    match ← Evaluation.ofStore (p.coveredSubset s (some (.ofSet candidates))) with
    | none => pure none
    | some covered =>
      if covered.size = candidates.size ∧ candidates.isEmpty = false then do
        let hits ← Evaluation.lookup .range (s.findByValue (p.rangeQuery candidates true))
        pure <| some <| match relation with
          | .identity => candidates.intersect hits
          | .parentChild => hits.selectParentChild candidates .ancestor
          | .ancestor includeSelf => hits.selectAncestorDescendant candidates .ancestor includeSelf
      else pure none

/-- The axis from a hit up to the step whose condition it meets. -/
def upwardAxis (p : IndexProbe) : Axis :=
  if p.onSelf then .self else if p.onChild then .parent else .ancestorOrSelf

end IndexProbe

namespace Narrowing

/-- What the index of a condition finds, which is noted as a use of it. -/
def preSelect (s : Store) (o : Optimizable) (context : NodeSet) (within : Bool) :
    Evaluation NodeSet := do
  let selection ← Evaluation.lookup .range (s.findByValue (o.probe.rangeQuery context within))
  Evaluation.update (·.noteIndexUse o.id)
  pure selection

/-- The candidates above what a condition has found. -/
def candidatesAbove (s : Store) (step : Option ContextStep) (o : Optimizable)
    (context selection : NodeSet) : Evaluation NodeSet :=
  if selection.isEmpty then pure selection
  else
    match step with
    | some step =>
      Evaluation.lookup .ancestors
        (s.findAncestors step.name o.probe.upwardAxis selection.documents selection)
    | none => pure (selection.selectAncestorDescendant context .ancestor true)

/-- One round of narrowing. -/
def round (s : Store) (step : Option ContextStep) (within : Bool) (o : Optimizable)
    (context : NodeSet) : Evaluation NarrowingRound := do
  let selection ← preSelect s o context within
  let ancestors ← candidatesAbove s step o context selection
  pure ⟨o.id, selection, ancestors⟩

/-- The rounds after the first. -/
def laterRounds (s : Store) (context : NodeSet) : List Optimizable → Evaluation (List NarrowingRound)
  | [] => pure []
  | o :: rest => do
    let first ← round s none true o context
    let rounds ← laterRounds s first.ancestors rest
    pure (first :: rounds)

/-- **All rounds of narrowing,** one for each condition. -/
def rounds (s : Store) (step : Option ContextStep) (context : NodeSet) :
    List Optimizable → Evaluation (List NarrowingRound)
  | [] => pure []
  | o :: rest => do
    let first ← round s step false o context
    let rounds ← laterRounds s first.ancestors rest
    pure (first :: rounds)

/-- The candidates of the last round. -/
def candidates (rounds : List NarrowingRound) : NodeSet :=
  (rounds.getLast?.map NarrowingRound.ancestors).getD .empty

end Narrowing
end IndexedXml
