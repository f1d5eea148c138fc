/-
# Expressions that are fitted out otherwise

What an expression evaluates to does not depend on all that it carries.  Of the axis of a probe
only matters whether conditions may reach what is indexed along it, and a pragma that asks for
uses of indexes changes what is noted and can fail, but does nothing else.  A `Refit` replaces
such details all through an expression.

What the reports on an expression, its display and discovery read off it stays as it is, but for
the probes in it (`Expr.parts_refit`, `OptimizeState.discover_refit`).
-/

import IndexedXml.Proofs.Query.Discovered
import IndexedXml.Proofs.Query.Renumbering

namespace IndexedXml

/-- **A replacement of details** that stand in pragmas and probes. -/
structure Refit where
  /-- Whether pragmas go on asking for uses of indexes. -/
  checks : Bool
  /-- The axis that takes the place of one. -/
  axis : Axis → Axis
  /-- Conditions reach what is indexed along the new axis when they do along the old one. -/
  elem_axis : ∀ a, Expr.optimizableAxes.elem (axis a) = Expr.optimizableAxes.elem a

namespace Refit

/-- Nothing is replaced. -/
def none : Refit := ⟨true, id, fun _ => rfl⟩

/-- Pragmas ask for no uses of indexes any more. -/
def unchecked : Refit := ⟨false, id, fun _ => rfl⟩

/-- A probe along descendants becomes one along children, for attributes likewise. -/
def turned : Refit where
  checks := true
  axis
    | .descendant => .child
    | .descendantAttr => .attr
    | a => a
  elem_axis a := by cases a <;> rfl

end Refit

variable {ρ : Refit}

/-- The probe with the axis replaced. -/
def IndexProbe.refit (ρ : Refit) (p : IndexProbe) : IndexProbe := { p with axis := ρ.axis p.axis }

/-- The access with the axis of its probe replaced. -/
def Access.refit (ρ : Refit) (a : Access) : Access := { a with probe := a.probe.map (.refit ρ) }

/-- The kind of a pragma with details replaced: without checks, a pragma that asks for uses of
indexes does as little as one that keeps to tree traversal. -/
def PragmaKind.refit (ρ : Refit) : PragmaKind → PragmaKind
  | .forceIndexUse => if ρ.checks then .forceIndexUse else .noIndex
  | kind => kind

/-- The pragma with its kind replaced. -/
def Pragma.refit (ρ : Refit) (p : Pragma) : Pragma := { p with kind := p.kind.refit ρ }

namespace Expr

mutual

/-- **The expression with details replaced** everywhere in it. -/
def refit (ρ : Refit) : Expr → Expr
  | path id steps => path id (refitAll ρ steps)
  | step head predicates => step head (refitPredicates ρ predicates)
  | root => root
  | filter id base predicates => filter id (base.refit ρ) (refitPredicates ρ predicates)
  | comparison id op left right access =>
    comparison id op (left.refit ρ) (right.refit ρ) (access.refit ρ)
  | call id function args access => call id function (refitAll ρ args) (access.refit ρ)
  | .variable name => .variable name
  | literal value => literal value
  | and left right => and (left.refit ρ) (right.refit ρ)
  | or left right => or (left.refit ρ) (right.refit ρ)
  | sequence items => sequence (refitAll ρ items)
  | extension id pragmas body => extension id (pragmas.map (.refit ρ)) (body.refit ρ)

/-- The expressions with details replaced. -/
def refitAll (ρ : Refit) : List Expr → List Expr
  | [] => []
  | e :: rest => e.refit ρ :: refitAll ρ rest

/-- The predicates with details replaced. -/
def refitPredicates (ρ : Refit) : List Predicate → List Predicate
  | [] => []
  | ⟨id, e, mode⟩ :: rest => ⟨id, e.refit ρ, mode⟩ :: refitPredicates ρ rest

end

/-- The predicate with details replaced. -/
def refitPredicate (ρ : Refit) (p : Predicate) : Predicate := ⟨p.id, p.expr.refit ρ, p.mode⟩

theorem refitAll_eq_map (es : List Expr) : refitAll ρ es = es.map (refit ρ) := by
  induction es with
  | nil => rfl
  | cons e rest ih => rw [refitAll, ih, List.map_cons]

theorem refitPredicates_eq_map (ps : List Predicate) :
    refitPredicates ρ ps = ps.map (refitPredicate ρ) := by
  induction ps with
  | nil => rfl
  | cons p rest ih =>
    rw [refitPredicates, ih, List.map_cons]
    rfl

end Expr

/-! ### Nothing replaced -/

@[simp] theorem IndexProbe.refit_none (p : IndexProbe) : p.refit .none = p := rfl

@[simp] theorem Access.refit_none (a : Access) : a.refit .none = a := by
  rcases a with ⟨_ | p, t, id⟩ <;> rfl

@[simp] theorem Pragma.refit_none (p : Pragma) : p.refit .none = p := by
  rcases p with ⟨id, name, contents, kind, analyzed⟩
  cases kind <;> rfl

/-- **Replacing nothing leaves an expression as it is.** -/
theorem Expr.refit_none (e : Expr) : e.refit .none = e := by
  have hall : ∀ es : List Expr, (∀ e ∈ es, e.refit .none = e) → refitAll .none es = es := by
    intro es h
    rw [refitAll_eq_map, List.map_congr_left h, List.map_id']
  have hpredicates : ∀ ps : List Predicate, (∀ p ∈ ps, p.expr.refit .none = p.expr) →
      refitPredicates .none ps = ps := by
    intro ps h
    rw [refitPredicates_eq_map, List.map_congr_left (g := id) fun p hp => ?_, List.map_id]
    rw [refitPredicate, h p hp, id]
  induction e using Expr.induct with
  | path id steps ih => rw [refit, hall _ ih]
  | step head ps ih => rw [refit, hpredicates _ ih]
  | root => rw [refit]
  | filter id base ps hbase ih => rw [refit, hbase, hpredicates _ ih]
  | comparison id op left right access hl hr => rw [refit, hl, hr, Access.refit_none]
  | call id function args access ih => rw [refit, hall _ ih, Access.refit_none]
  | var name => rw [refit]
  | literal value => rw [refit]
  | and left right hl hr => rw [refit, hl, hr]
  | or left right hl hr => rw [refit, hl, hr]
  | sequence items ih => rw [refit, hall _ ih]
  | extension id pragmas body ih =>
    rw [refit, ih, List.map_congr_left (g := fun p => p) fun p _ => p.refit_none, List.map_id']

/-! ### What is read off an expression -/

namespace Expr

@[simp] theorem hasPositional_refit (ps : List Predicate) :
    hasPositional (refitPredicates ρ ps) = hasPositional ps := by
  rw [refitPredicates_eq_map, hasPositional, List.any_map]
  rfl

theorem texts_refit {es : List Expr} (h : ∀ e ∈ es, (e.refit ρ).text = e.text) :
    texts (refitAll ρ es) = texts es := by
  induction es with
  | nil => rfl
  | cons e rest ih =>
    rw [refitAll, texts, texts, h e List.mem_cons_self,
      ih fun e he => h e (List.mem_cons_of_mem _ he)]

theorem predicatesText_refit {ps : List Predicate}
    (h : ∀ p ∈ ps, (p.expr.refit ρ).text = p.expr.text) :
    predicatesText (refitPredicates ρ ps) = predicatesText ps := by
  induction ps with
  | nil => rfl
  | cons p rest ih =>
    rw [refitPredicates, predicatesText, predicatesText, h p List.mem_cons_self,
      ih fun p hp => h p (List.mem_cons_of_mem _ hp)]

theorem isRooted_refit (es : List Expr) : isRooted (refitAll ρ es) = isRooted es := by
  rcases es with _ | ⟨e, rest⟩
  · rfl
  · cases e <;> rfl

/-- The display shows none of the details. -/
theorem text_refit (e : Expr) : (e.refit ρ).text = e.text := by
  induction e using Expr.induct with
  | path id steps ih => rw [refit, text, text, isRooted_refit, texts_refit ih]
  | step head ps ih => rw [refit, text, text, predicatesText_refit ih]
  | root => rw [refit]
  | filter id base ps hbase ih => rw [refit, text, text, hbase, predicatesText_refit ih]
  | comparison id op left right access hl hr => rw [refit, text, text, hl, hr]
  | call id function args access ih => rw [refit, text, text, texts_refit ih]
  | var name => rw [refit]
  | literal value => rw [refit]
  | and left right hl hr => rw [refit, text, text, hl, hr]
  | or left right hl hr => rw [refit, text, text, hl, hr]
  | sequence items ih => rw [refit, text, text, texts_refit ih]
  | extension id pragmas body ih =>
    rw [refit, text, text, ih, List.map_map]
    rfl

/-- The part with details replaced. -/
def Part.refit (ρ : Refit) : Part → Part
  | expr e => expr (e.refit ρ)
  | predicate p => predicate (refitPredicate ρ p)

theorem partsOf_refit {es : List Expr}
    (h : ∀ e ∈ es, (e.refit ρ).parts = e.parts.map (.refit ρ)) :
    partsOf (refitAll ρ es) = (partsOf es).map (.refit ρ) := by
  induction es with
  | nil => rfl
  | cons e rest ih =>
    rw [refitAll, partsOf, partsOf, List.map_append, h e List.mem_cons_self,
      ih fun e he => h e (List.mem_cons_of_mem _ he)]

theorem predicateParts_refit {ps : List Predicate}
    (h : ∀ p ∈ ps, (p.expr.refit ρ).parts = p.expr.parts.map (.refit ρ)) :
    predicateParts (refitPredicates ρ ps) = (predicateParts ps).map (.refit ρ) := by
  induction ps with
  | nil => rfl
  | cons p rest ih =>
    rw [refitPredicates, predicateParts, predicateParts, List.map_cons, List.map_append,
      h p List.mem_cons_self, ih fun p hp => h p (List.mem_cons_of_mem _ hp)]
    rfl

/-- **The parts of an expression with details replaced** are its parts, with details replaced. -/
theorem parts_refit (e : Expr) : (e.refit ρ).parts = e.parts.map (.refit ρ) := by
  induction e using Expr.induct with
  | path id steps ih =>
    rw [refit, parts, parts, partsOf_refit ih]
    rfl
  | step head ps ih =>
    rw [refit, parts, parts, predicateParts_refit ih]
    rfl
  | root => rfl
  | filter id base ps hbase ih =>
    rw [refit, parts, parts, hbase, predicateParts_refit ih, ← List.map_append]
    rfl
  | comparison id op left right access hl hr =>
    rw [refit, parts, parts, hl, hr, ← List.map_append]
    rfl
  | call id function args access ih =>
    rw [refit, parts, parts, partsOf_refit ih]
    rfl
  | var name => rfl
  | literal value => rfl
  | and left right hl hr =>
    rw [refit, parts, parts, hl, hr, ← List.map_append]
    rfl
  | or left right hl hr =>
    rw [refit, parts, parts, hl, hr, ← List.map_append]
    rfl
  | sequence items ih =>
    rw [refit, parts, parts, partsOf_refit ih]
    rfl
  | extension id pragmas body ih =>
    rw [refit, parts, parts, ih]
    rfl

/-- The same parts report the use of an index. -/
@[simp] theorem reporters_refit (e : Expr) : (e.refit ρ).reporters = e.reporters := by
  have hreporter : reporter? ∘ Part.refit ρ = reporter? := by
    funext part
    rcases part with e | p
    · cases e with
      | call id function args access => cases function <;> rfl
      | _ => rfl
    · rfl
  rw [reporters, parts_refit, List.filterMap_map, hreporter, reporters]

/-! ### Discovery -/

theorem access?_refit (e : Expr) :
    (e.refit ρ).access? = e.access?.map fun found => (found.1, found.2.refit ρ) := by
  cases e <;> rfl

/-- The probe that answers an expression, with its axis replaced. -/
theorem probe?_refit (e : Expr) :
    (e.refit ρ).probe? = e.probe?.map fun found => (found.1, found.2.refit ρ) := by
  unfold probe?
  rw [access?_refit]
  rcases e.access? with _ | ⟨id, ⟨_ | probe, treeTraversal, contextId⟩⟩
  · rfl
  · cases treeTraversal <;> rfl
  · cases treeTraversal <;> rfl

end Expr

/-- The condition with the axis of its probe replaced. -/
def Optimizable.refit (ρ : Refit) (o : Optimizable) : Optimizable :=
  { o with probe := o.probe.refit ρ }

/-- What an optimizer has found out, with the axes of probes replaced. -/
def OptimizeState.refit (ρ : Refit) (state : OptimizeState) : OptimizeState :=
  { state with optimizables := state.optimizables.map (.refit ρ) }

namespace Expr

theorem optimizable?_refit (e : Expr) :
    (e.refit ρ).optimizable? = e.optimizable?.map (.refit ρ) := by
  unfold optimizable?
  rw [probe?_refit, text_refit]
  rcases e.probe? with _ | ⟨id, probe⟩
  · rfl
  · simp only [Option.map_some, Option.bind_eq_bind, Option.bind_some]
    rw [IndexProbe.refit, ρ.elem_axis]
    split <;> rfl

/-- A condition and its owner, with the axis of the probe replaced. -/
def refitFound (ρ : Refit) (found : Optimizable × Owner) : Optimizable × Owner :=
  (found.1.refit ρ, found.2)

theorem found_refit (owner : Owner) (e : Expr) :
    found owner (e.refit ρ) = (found owner e).map (refitFound ρ) := by
  unfold found
  rw [optimizable?_refit]
  cases e.optimizable? <;> rfl

theorem optimizablesOf_refit {es : List Expr} {owner : Owner}
    (h : ∀ e ∈ es, (e.refit ρ).optimizables owner = (e.optimizables owner).map (refitFound ρ)) :
    optimizablesOf owner (refitAll ρ es) = (optimizablesOf owner es).map (refitFound ρ) := by
  induction es with
  | nil => rfl
  | cons e rest ih =>
    rw [refitAll, optimizablesOf, optimizablesOf, List.map_append, h e List.mem_cons_self,
      ih fun e he => h e (List.mem_cons_of_mem _ he)]

theorem predicateOptimizables_refit {ps : List Predicate} (id : Option ExprId)
    (h : ∀ p ∈ ps, ∀ owner,
      (p.expr.refit ρ).optimizables owner = (p.expr.optimizables owner).map (refitFound ρ)) :
    ∀ place, predicateOptimizables id place (refitPredicates ρ ps) =
      (predicateOptimizables id place ps).map (refitFound ρ) := by
  induction ps with
  | nil => exact fun _ => rfl
  | cons p rest ih =>
    intro place
    rw [refitPredicates, predicateOptimizables, predicateOptimizables, List.map_append,
      h p List.mem_cons_self, ih fun p hp => h p (List.mem_cons_of_mem _ hp)]

/-- **The conditions that an index can answer** are the same, with the axes of probes replaced. -/
theorem optimizables_refit (e : Expr) :
    ∀ owner, (e.refit ρ).optimizables owner = (e.optimizables owner).map (refitFound ρ) := by
  induction e using Expr.induct with
  | path id steps ih =>
    intro owner
    rw [refit, optimizables, optimizables]
    exact optimizablesOf_refit fun e he => ih e he owner
  | step head ps ih =>
    intro owner
    rw [refit, optimizables, optimizables]
    exact predicateOptimizables_refit _ ih 0
  | filter id base ps _ ih =>
    intro owner
    rw [refit, optimizables, optimizables]
    exact predicateOptimizables_refit _ ih 0
  | comparison id op left right access =>
    intro owner
    rw [optimizables, ← found_refit, refit, optimizables]
  | call id function args access =>
    intro owner
    rw [optimizables, ← found_refit, refit, optimizables]
  | _ => exact fun _ => rfl

theorem firstStepOf?_refit {es : List Expr}
    (h : ∀ e ∈ es, (e.refit ρ).firstStep? =
      e.firstStep?.map fun found => (found.1, refitPredicates ρ found.2)) :
    firstStepOf? (refitAll ρ es) =
      (firstStepOf? es).map fun found => (found.1, refitPredicates ρ found.2) := by
  induction es with
  | nil => rfl
  | cons e rest ih =>
    have hfirst := h e List.mem_cons_self
    cases e with
    | root => exact ih fun e he => h e (List.mem_cons_of_mem _ he)
    | _ => exact hfirst

/-- The first step is the same one, with details replaced in its predicates. -/
theorem firstStep?_refit (e : Expr) : (e.refit ρ).firstStep? =
    e.firstStep?.map fun found => (found.1, refitPredicates ρ found.2) := by
  induction e using Expr.induct with
  | path id steps ih =>
    rw [refit, firstStep?, firstStep?]
    exact firstStepOf?_refit ih
  | extension id pragmas body ih =>
    rw [refit, firstStep?, firstStep?]
    exact ih
  | _ => rfl

theorem variableOf?_refit {es : List Expr}
    (h : ∀ e ∈ es, (e.refit ρ).contextVariable? = e.contextVariable?) :
    variableOf? (refitAll ρ es) = variableOf? es := by
  induction es with
  | nil => rfl
  | cons e rest ih =>
    rw [refitAll, variableOf?, variableOf?, h e List.mem_cons_self,
      ih fun e he => h e (List.mem_cons_of_mem _ he)]

theorem predicateVariable?_refit {ps : List Predicate}
    (h : ∀ p ∈ ps, (p.expr.refit ρ).contextVariable? = p.expr.contextVariable?) :
    predicateVariable? (refitPredicates ρ ps) = predicateVariable? ps := by
  induction ps with
  | nil => rfl
  | cons p rest ih =>
    rw [refitPredicates, predicateVariable?, predicateVariable?, h p List.mem_cons_self,
      ih fun p hp => h p (List.mem_cons_of_mem _ hp)]

theorem contextVariable?_refit (e : Expr) :
    (e.refit ρ).contextVariable? = e.contextVariable? := by
  induction e using Expr.induct with
  | path id steps ih =>
    rw [refit, contextVariable?, contextVariable?]
    exact variableOf?_refit ih
  | step head ps ih =>
    rw [refit, contextVariable?, contextVariable?]
    exact predicateVariable?_refit ih
  | filter id base ps _ ih =>
    cases base <;> simp only [refit, contextVariable?, predicateVariable?_refit ih]
  | _ => rfl

/-- The step that candidates are prepared for is the same. -/
theorem contextStep?_refit (e : Expr) : (e.refit ρ).contextStep? = e.contextStep? := by
  unfold contextStep?
  rw [firstStep?_refit, optimizables_refit, List.head?_map]
  rcases e.firstStep? with _ | ⟨head, ps⟩
  · rfl
  have hsuits : ∀ owner, suits head (refitPredicates ρ ps) owner = suits head ps owner := by
    rintro (_ | ⟨id, place⟩)
    · rfl
    · rw [suits, suits, refitPredicates_eq_map, ← List.map_take, ← refitPredicates_eq_map,
        hasPositional_refit]
  cases (e.optimizables none).head? with
  | none => rfl
  | some found =>
    simp only [Option.map_some, Option.bind_eq_bind, Option.bind_some, refitFound, hsuits]

end Expr

/-- **What an expression offers to optimize** is the same, with the axes of probes replaced. -/
theorem OptimizeState.discover_refit (e : Expr) : discover (e.refit ρ) = (discover e).refit ρ := by
  unfold discover
  rw [Expr.optimizables_refit, Expr.contextStep?_refit, Expr.contextVariable?_refit, List.map_map]
  simp only [refit, List.map_map]
  rfl

end IndexedXml
