/-
# Analysis along turned axes

A condition on the context node itself is looked up under the name that the step around it asks
for, and its probe takes over the axis of that step.  Whether the step goes to children or to
descendants, to attributes or to those below, makes no other difference to the analysis: with the
axes of probes turned (`Refit.turned`) the analyzed expressions are the same
(`Expr.refit_analyze`).
-/

import IndexedXml.Proofs.Query.Numbering
import IndexedXml.Proofs.Query.Refitting
import IndexedXml.Query.Analysis

namespace IndexedXml

variable {σ σ' : Surroundings}

namespace Refit

@[simp] theorem nameType_turned (a : Axis) : (turned.axis a).nameType = a.nameType := by
  cases a <;> rfl

@[simp] theorem turned_turned (a : Axis) : turned.axis (turned.axis a) = turned.axis a := by
  cases a <;> rfl

end Refit

/-- The outer step with its axis turned. -/
def OuterStep.turn (outer : OuterStep) : OuterStep :=
  { outer with axis := Refit.turned.axis outer.axis }

namespace Surroundings

/-- Where an expression stands, with the axis of the outer step turned. -/
def turn (σ : Surroundings) : Surroundings := { σ with outer := σ.outer.map .turn }

theorem turn_eq_iff : σ.turn = σ'.turn ↔ σ.contextId = σ'.contextId ∧
    σ.treeTraversal = σ'.treeTraversal ∧
      σ.outer.map OuterStep.turn = σ'.outer.map OuterStep.turn := by
  rw [turn, turn, mk.injEq]

theorem turn_withoutOuter (h : σ.turn = σ'.turn) : σ.withoutOuter.turn = σ'.withoutOuter.turn := by
  obtain ⟨hcontext, htree, -⟩ := turn_eq_iff.1 h
  exact turn_eq_iff.2 ⟨hcontext, htree, rfl⟩

theorem turn_ofStep (h : σ.turn = σ'.turn) (head : StepHead) :
    (σ.ofStep head).turn = (σ'.ofStep head).turn :=
  turn_eq_iff.2 ⟨rfl, (turn_eq_iff.1 h).2.1, rfl⟩

theorem turn_ofFilter (h : σ.turn = σ'.turn) (id : ExprId) :
    (σ.ofFilter id).turn = (σ'.ofFilter id).turn :=
  turn_eq_iff.2 ⟨rfl, (turn_eq_iff.1 h).2.1, rfl⟩

theorem turn_below (h : σ.turn = σ'.turn) (pragmas : List Pragma) :
    (σ.below pragmas).turn = (σ'.below pragmas).turn := by
  obtain ⟨hcontext, htree, houter⟩ := turn_eq_iff.1 h
  exact turn_eq_iff.2 ⟨hcontext, congrArg (· || pragmas.any Pragma.isNoIndex) htree, houter⟩

/-- The access through a probe, as far as turning goes. -/
theorem refit_access (h : σ.turn = σ'.turn) {probe probe' : Option IndexProbe}
    (hprobe : probe.map (IndexProbe.refit .turned) = probe'.map (IndexProbe.refit .turned)) :
    (σ.access probe).refit .turned = (σ'.access probe').refit .turned := by
  obtain ⟨hcontext, htree, -⟩ := turn_eq_iff.1 h
  rw [access, access, Access.refit, Access.refit, hprobe, hcontext, htree]

end Surroundings

/-! ### Targets -/

namespace Target

/-- The target with its axis turned. -/
def turn (t : Target) : Target := { t with axis := Refit.turned.axis t.axis }

variable {ρ : Refit}

theorem simpleStep?_refit (e : Expr) : simpleStep? (e.refit ρ) = simpleStep? e := by
  cases e with
  | step head predicates => cases predicates <;> rfl
  | _ => rfl

/-- The steps of a path are the same with details replaced. -/
theorem simpleSteps?_refit (e : Expr) : simpleSteps? (e.refit ρ) = simpleSteps? e := by
  cases e with
  | path id steps =>
    change (Expr.refitAll ρ steps).mapM simpleStep? = steps.mapM simpleStep?
    rw [Expr.refitAll_eq_map, List.mapM_map]
    exact congrArg (List.mapM · steps) (funext simpleStep?_refit)
  | step head predicates => cases predicates <;> rfl
  | _ => rfl

theorem ofSelf_turn (test : NodeTest) (outer : Option OuterStep) :
    (ofSelf test (outer.map .turn)).map turn = (ofSelf test outer).map turn := by
  rcases outer with _ | ⟨_ | name, axis⟩
  · rfl
  · rfl
  · change (if admits test name then _ else none : Option Target).map turn =
      (if admits test name then _ else none : Option Target).map turn
    split_ifs
    · simp [turn, OuterStep.turn]
    · rfl

/-- **What a path leads to** is the same but for its axis, whether the outer step is turned. -/
theorem of?_turn (e : Expr) (outer : Option OuterStep) :
    (of? (e.refit ρ) (outer.map .turn)).map turn = (of? e outer).map turn := by
  unfold of?
  rw [simpleSteps?_refit]
  rcases simpleSteps? e with _ | _ | ⟨head, _ | ⟨second, rest⟩⟩
  · rfl
  · rfl
  · change (if head.axis = .self then _ else _ : Option Target).map turn =
      (if head.axis = .self then _ else _ : Option Target).map turn
    split_ifs
    · exact ofSelf_turn head.test outer
    · rfl
  · rfl

end Target

/-! ### Probes -/

namespace IndexProbe

theorem literalKey?_refit {ρ : Refit} (e : Expr) : literalKey? (e.refit ρ) = literalKey? e := by
  cases e with
  | literal value => rfl
  | _ => rfl

theorem ofSides_turn (op : ComparisonOp) (path literal : Expr) (outer : Option OuterStep) :
    (ofSides op (path.refit .turned) (literal.refit .turned) (outer.map .turn)).map
        (IndexProbe.refit .turned) =
      (ofSides op path literal outer).map (IndexProbe.refit .turned) := by
  have hprobe : ∀ target : Option Target,
      (target >>= fun target => literalKey? literal >>= fun key =>
        pure (target.probe (.compare op) key)).map (IndexProbe.refit .turned) =
      (target.map Target.turn >>= fun target => literalKey? literal >>= fun key =>
        pure (target.probe (.compare op) key)) := by
    rintro (_ | target)
    · rfl
    · cases literalKey? literal <;> rfl
  have htarget := Target.of?_turn (ρ := .turned) path outer
  unfold ofSides
  rw [literalKey?_refit, hprobe, hprobe, htarget]

theorem ofComparison_turn (op : ComparisonOp) (left right : Expr) (outer : Option OuterStep) :
    (ofComparison op (left.refit .turned) (right.refit .turned) (outer.map .turn)).map
        (IndexProbe.refit .turned) =
      (ofComparison op left right outer).map (IndexProbe.refit .turned) := by
  unfold ofComparison
  rw [Option.map_or, Option.map_or, ofSides_turn, ofSides_turn]

theorem ofCall_turn (function : Builtin) (args : List Expr) (outer : Option OuterStep) :
    (ofCall function (Expr.refitAll .turned args) (outer.map .turn)).map (IndexProbe.refit .turned) =
      (ofCall function args outer).map (IndexProbe.refit .turned) := by
  cases function with
  | startsWith =>
    rcases args with _ | ⟨path, _ | ⟨key, rest⟩⟩
    · rfl
    · rfl
    · cases key with
      | literal value =>
        cases value with
        | string text =>
          cases rest with
          | cons => rfl
          | nil =>
            change ((Target.of? (path.refit .turned) (outer.map .turn)).map _).map _ =
              ((Target.of? path outer).map _).map _
            have hprobe : ∀ target : Option Target,
                (target.map fun t => t.probe .startsWith (.string text)).map
                  (IndexProbe.refit .turned) =
                (target.map Target.turn).map fun t => t.probe .startsWith (.string text) := by
              rintro (_ | target) <;> rfl
            rw [hprobe, hprobe, Target.of?_turn]
        | _ => rfl
      | _ => rfl
  | _ => rfl

end IndexProbe

/-! ### Expressions -/

namespace Expr

theorem refitPredicates_analyze {ps : List Predicate}
    (h : ∀ p ∈ ps, (p.expr.analyze σ).refit .turned = (p.expr.analyze σ').refit .turned) :
    refitPredicates .turned (analyzePredicates σ ps) =
      refitPredicates .turned (analyzePredicates σ' ps) := by
  rw [refitPredicates_eq_map, refitPredicates_eq_map, analyzePredicates_eq_map,
    analyzePredicates_eq_map, List.map_map, List.map_map]
  refine List.map_congr_left fun p hp => ?_
  change (⟨p.id, _, p.mode⟩ : Predicate) = ⟨p.id, _, p.mode⟩
  rw [h p hp]

theorem refitAll_analyze {es : List Expr}
    (h : ∀ e ∈ es, (e.analyze σ).refit .turned = (e.analyze σ').refit .turned) :
    refitAll .turned (analyzeAll σ es) = refitAll .turned (analyzeAll σ' es) := by
  rw [refitAll_eq_map, refitAll_eq_map, analyzeAll_eq_map, analyzeAll_eq_map, List.map_map,
    List.map_map]
  exact List.map_congr_left h

/-- **Analysis turned:** where an expression stands may differ in the axis of the outer step as far
as turning goes; with the axes of probes turned the analyzed expressions are the same. -/
theorem refit_analyze (e : Expr) : ∀ {σ σ' : Surroundings}, σ.turn = σ'.turn →
    (e.analyze σ).refit .turned = (e.analyze σ').refit .turned := by
  induction e using Expr.induct with
  | path id steps ih =>
    intro σ σ' hσ
    cases steps with
    | nil => rfl
    | cons first rest =>
      have hrest := refitAll_analyze fun e he =>
        ih e (List.mem_cons_of_mem _ he) (Surroundings.turn_withoutOuter hσ)
      rw [analyze, analyze, analyzeSteps, analyzeSteps, refit, refit, refitAll, refitAll,
        ih first List.mem_cons_self hσ, hrest]
  | step head predicates ih =>
    intro σ σ' hσ
    have hinside := refitPredicates_analyze fun p hp => ih p hp (Surroundings.turn_ofStep hσ head)
    rw [analyze, analyze, refit, refit, hinside, (Surroundings.turn_eq_iff.1 hσ).2.1]
  | root => exact fun _ => rfl
  | filter id base predicates hbase ih =>
    intro σ σ' hσ
    have hinside := refitPredicates_analyze fun p hp => ih p hp (Surroundings.turn_ofFilter hσ id)
    rw [analyze, analyze, refit, refit, hbase hσ, hinside]
  | comparison id op left right access hleft hright =>
    intro σ σ' hσ
    obtain ⟨-, -, houter⟩ := Surroundings.turn_eq_iff.1 hσ
    rw [analyze, analyze, refit, refit, hleft hσ, hright hσ]
    refine congrArg _ (Surroundings.refit_access hσ ?_)
    rw [← IndexProbe.ofComparison_turn, hleft hσ, hright hσ, houter, IndexProbe.ofComparison_turn]
  | call id function args access ih =>
    intro σ σ' hσ
    obtain ⟨-, -, houter⟩ := Surroundings.turn_eq_iff.1 hσ
    have hargs := refitAll_analyze fun e he => ih e he hσ
    rw [analyze, analyze, refit, refit, hargs]
    refine congrArg _ (Surroundings.refit_access hσ ?_)
    rw [← IndexProbe.ofCall_turn, hargs, houter, IndexProbe.ofCall_turn]
  | var name => exact fun _ => rfl
  | literal value => exact fun _ => rfl
  | and left right hleft hright =>
    intro σ σ' hσ
    rw [analyze, analyze, refit, refit, hleft hσ, hright hσ]
  | or left right hleft hright =>
    intro σ σ' hσ
    rw [analyze, analyze, refit, refit, hleft hσ, hright hσ]
  | sequence items ih =>
    intro σ σ' hσ
    rw [analyze, analyze, refit, refit, refitAll_analyze fun e he => ih e he hσ]
  | extension id pragmas body ih =>
    intro σ σ' hσ
    rw [analyze, analyze, refit, refit, ih (Surroundings.turn_below hσ pragmas),
      (Surroundings.turn_eq_iff.1 hσ).1]

end Expr
end IndexedXml
