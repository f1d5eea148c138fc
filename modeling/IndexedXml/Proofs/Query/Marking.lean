/-
# How predicates are marked

Lowering marks each predicate by the form of its expression, before anything is analyzed.  In a
compiled query every predicate is marked by the form that its expression has in the end
(`CompiledQuery.isMarked`): a Boolean one is one whose expression is taken for Boolean, and the
other way round.
-/

import IndexedXml.Proofs.Query.Numbering
import IndexedXml.Proofs.Query.Renumbering
import Mathlib.Tactic.SplitIfs

namespace IndexedXml

open IndexedXml.Expr

variable {config : Configuration}

/-! ### Computations that ensure something -/

/-- What comes out of a computation has a property. -/
def Numbering.Ensures {α : Type} (P : α → Prop) (x : Numbering α) : Prop :=
  ∀ n a m, x.run n = .ok (a, m) → P a

namespace Numbering.Ensures

variable {α β : Type} {P : α → Prop} {Q : β → Prop}

theorem pure {a : α} (h : P a) : Ensures P (pure a) :=
  fun _ _ _ hrun => (run_pure_eq_ok.1 hrun).1 ▸ h

theorem bind {x : Numbering α} {f : α → Numbering β} (hx : Ensures P x)
    (hf : ∀ a, P a → Ensures Q (f a)) : Ensures Q (x >>= f) := by
  intro n b m hrun
  obtain ⟨a, k, hx', hf'⟩ := run_bind_eq_ok.1 hrun
  exact hf a (hx n a k hx') k b m hf'

theorem bind_any {x : Numbering α} {f : α → Numbering β} (hf : ∀ a, Ensures Q (f a)) :
    Ensures Q (x >>= f) :=
  bind (P := fun _ => True) (fun _ _ _ _ => trivial) fun a _ => hf a

end Numbering.Ensures

open IndexedXml.Numbering

/-! ### Marked expressions -/

namespace Expr

/-- **All predicates of an expression are marked by their form,** at any depth. -/
def IsMarked (e : Expr) : Prop := ∀ p, .predicate p ∈ e.parts → p.mode = p.expr.predicateMode

end Expr

/-- A predicate is marked by its form, and so are those in its expression. -/
structure Predicate.IsMarked (p : Predicate) : Prop where
  mode : p.mode = p.expr.predicateMode
  expr : p.expr.IsMarked

namespace Expr

/-- An expression is marked when the predicates among what is in it are. -/
theorem isMarked_of_inside {e : Expr} {inside : List Part} (hparts : e.parts = .expr e :: inside)
    (h : ∀ p, .predicate p ∈ inside → p.mode = p.expr.predicateMode) : e.IsMarked := by
  intro p hp
  rw [hparts] at hp
  exact h p ((List.mem_cons.1 hp).resolve_left Part.noConfusion)

theorem isMarked_of_list {e : Expr} {es : List Expr} (hparts : e.parts = .expr e :: partsOf es)
    (h : ∀ e ∈ es, e.IsMarked) : e.IsMarked := by
  refine isMarked_of_inside hparts fun p hp => ?_
  obtain ⟨own, hown, hp⟩ := mem_partsOf.1 hp
  exact h own hown p hp

theorem mode_of_mem_predicateParts {ps : List Predicate} (h : ∀ p ∈ ps, p.IsMarked) {p : Predicate}
    (hp : .predicate p ∈ predicateParts ps) : p.mode = p.expr.predicateMode := by
  obtain ⟨own, hown, heq | hp⟩ := mem_predicateParts.1 hp
  · obtain rfl : p = own := Part.predicate.inj heq
    exact (h p hown).mode
  · exact (h own hown).expr p hp

theorem isMarked_step {head : StepHead} {ps : List Predicate} (h : ∀ p ∈ ps, p.IsMarked) :
    (step head ps).IsMarked :=
  isMarked_of_inside rfl fun _ hp => mode_of_mem_predicateParts h hp

theorem isMarked_filter {id : ExprId} {base : Expr} {ps : List Predicate} (hbase : base.IsMarked)
    (h : ∀ p ∈ ps, p.IsMarked) : (filter id base ps).IsMarked :=
  isMarked_of_inside rfl fun p hp => (List.mem_append.1 hp).elim (hbase p)
    (mode_of_mem_predicateParts h)

theorem isMarked_of_sides {e left right : Expr}
    (hparts : e.parts = .expr e :: (left.parts ++ right.parts)) (hleft : left.IsMarked)
    (hright : right.IsMarked) : e.IsMarked :=
  isMarked_of_inside hparts fun p hp => (List.mem_append.1 hp).elim (hleft p) (hright p)

theorem isMarked_extension {id : ExprId} {pragmas : List Pragma} {body : Expr}
    (h : body.IsMarked) : (extension id pragmas body).IsMarked :=
  isMarked_of_inside rfl h

theorem isMarked_of_leaf {e : Expr} (hparts : e.parts = [.expr e]) : e.IsMarked :=
  isMarked_of_inside hparts fun _ hp => absurd hp List.not_mem_nil

end Expr

/-! ### Lowering -/

theorem ensures_toDescendants : Ensures IsMarked toDescendants :=
  .bind_any fun _ => .pure (isMarked_step fun _ hp => absurd hp List.not_mem_nil)

theorem ensures_lowerStep (descendant : Bool) (axis : Axis) (test : NodeTest)
    {predicates : List Predicate} (h : ∀ p ∈ predicates, p.IsMarked) :
    Ensures (fun steps => ∀ e ∈ steps, e.IsMarked) (lowerStep descendant axis test predicates) := by
  have hdirect : ∀ axis, Ensures IsMarked (do
      let id ← ExprId.fresh
      pure (.step ⟨id, axis, test, false⟩ predicates)) :=
    fun _ => .bind_any fun _ => .pure (isMarked_step h)
  unfold lowerStep
  dsimp only
  split_ifs
  · cases axis.throughDescendants? (hasPositional predicates) with
    | some axis =>
      exact .bind (hdirect axis) fun e he => .pure (List.forall_mem_singleton.2 he)
    | none =>
      refine .bind ensures_toDescendants fun first hfirst => ?_
      refine .bind (hdirect axis) fun e he => .pure ?_
      exact List.forall_mem_cons.2 ⟨hfirst, List.forall_mem_singleton.2 he⟩
  · exact .bind (hdirect axis) fun e he => .pure (List.forall_mem_singleton.2 he)

theorem ensures_ofSteps {steps : List Expr} (h : ∀ e ∈ steps, e.IsMarked) :
    Ensures IsMarked (ofSteps steps) := by
  have hpath : ∀ {steps : List Expr}, (∀ e ∈ steps, e.IsMarked) →
      Ensures IsMarked (do let id ← ExprId.fresh; pure (.path id steps)) :=
    fun h => .bind_any fun _ => .pure (isMarked_of_list rfl h)
  rcases steps with _ | ⟨first, _ | ⟨second, rest⟩⟩
  · exact hpath h
  · exact .pure (h first List.mem_cons_self)
  · exact hpath h

theorem ensures_lowerAll {es : List Surface} (hes : ∀ e ∈ es, Ensures IsMarked (e.lower config)) :
    Ensures (fun es => ∀ e ∈ es, e.IsMarked) (lowerAll config es) := by
  induction es with
  | nil => exact .pure fun _ he => absurd he List.not_mem_nil
  | cons e rest ih =>
    rw [lowerAll]
    refine .bind (hes e List.mem_cons_self) fun e he => ?_
    refine .bind (ih fun e he => hes e (List.mem_cons_of_mem _ he)) fun rest hrest => .pure ?_
    exact List.forall_mem_cons.2 ⟨he, hrest⟩

/-- **Predicates are marked as they are lowered.** -/
theorem ensures_lowerPredicates {es : List Surface}
    (hes : ∀ e ∈ es, Ensures IsMarked (e.lower config)) :
    Ensures (fun ps => ∀ p ∈ ps, p.IsMarked) (lowerPredicates config es) := by
  induction es with
  | nil => exact .pure fun _ hp => absurd hp List.not_mem_nil
  | cons e rest ih =>
    rw [lowerPredicates]
    refine .bind_any fun id => .bind (hes e List.mem_cons_self) fun e he => ?_
    refine .bind (ih fun e he => hes e (List.mem_cons_of_mem _ he)) fun rest hrest => .pure ?_
    exact List.forall_mem_cons.2 ⟨⟨rfl, he⟩, hrest⟩

theorem ensures_lowerSteps {steps : List SurfaceStep}
    (hsteps : ∀ step ∈ steps, ∀ e ∈ step.inside, Ensures IsMarked (e.lower config)) :
    Ensures (fun es => ∀ e ∈ es, e.IsMarked) (lowerSteps config steps) := by
  induction steps with
  | nil => exact .pure fun _ he => absurd he List.not_mem_nil
  | cons step rest ih =>
    have hfirst := hsteps step List.mem_cons_self
    have hrest := ih fun step hstep => hsteps step (List.mem_cons_of_mem _ hstep)
    cases step with
    | axis descendant axis test predicates =>
      rw [lowerSteps]
      refine .bind (ensures_lowerPredicates hfirst) fun ps hps => ?_
      refine .bind (ensures_lowerStep descendant axis test.lower hps) fun own hown => ?_
      exact .bind hrest fun later hlater => .pure (List.forall_mem_append.2 ⟨hown, hlater⟩)
    | filter descendant primary predicates =>
      obtain ⟨hprimary, hpredicates⟩ := List.forall_mem_cons.1 hfirst
      have hlead : Ensures (fun lead => ∀ e ∈ lead, e.IsMarked) (leadingSteps descendant) := by
        unfold leadingSteps
        split_ifs
        · exact .bind ensures_toDescendants fun e he => .pure (List.forall_mem_singleton.2 he)
        · exact .pure fun _ he => absurd he List.not_mem_nil
      rw [lowerSteps_filter]
      refine .bind hlead fun lead hlead => .bind_any fun id => .bind hprimary fun base hbase => ?_
      refine .bind (ensures_lowerPredicates hpredicates) fun ps hps => ?_
      refine .bind hrest fun later hlater => .pure ?_
      refine List.forall_mem_append.2 ⟨hlead, List.forall_mem_cons.2 ⟨?_, hlater⟩⟩
      split_ifs
      · exact hbase
      · exact isMarked_filter hbase hps

/-- **What is lowered is marked.** -/
theorem Surface.ensures_lower (config : Configuration) (surface : Surface) :
    Ensures IsMarked (surface.lower config) := by
  induction surface using Surface.induct with
  | path start steps ih =>
    rw [lower]
    refine .bind (ensures_lowerSteps ih) fun steps hsteps => ensures_ofSteps ?_
    refine List.forall_mem_append.2 ⟨fun e he => ?_, hsteps⟩
    obtain ⟨-, -, rfl⟩ := List.mem_map.1 he
    exact isMarked_of_leaf rfl
  | comparison op left right hleft hright =>
    rw [lower]
    exact .bind_any fun id => .bind hleft fun l hl => .bind hright fun r hr =>
      .pure (isMarked_of_sides rfl hl hr)
  | and left right hleft hright =>
    rw [lower]
    exact .bind hleft fun l hl => .bind hright fun r hr => .pure (isMarked_of_sides rfl hl hr)
  | or left right hleft hright =>
    rw [lower]
    exact .bind hleft fun l hl => .bind hright fun r hr => .pure (isMarked_of_sides rfl hl hr)
  | sequence items ih =>
    rw [lower]
    exact .bind (ensures_lowerAll ih) fun items hitems => .pure (isMarked_of_list rfl hitems)
  | literal value =>
    rw [lower]
    exact .pure (isMarked_of_leaf rfl)
  | var name =>
    rw [lower]
    exact .pure (isMarked_of_leaf rfl)
  | call name args ih =>
    rw [lower]
    exact .bind_any fun function => .bind_any fun id => .bind (ensures_lowerAll ih)
      fun args hargs => .pure (isMarked_of_list rfl hargs)
  | pragma decls body ih =>
    have hbody : Ensures IsMarked (Surface.lowerBody config body) := by
      cases body with
      | none => exact .pure (isMarked_of_leaf rfl)
      | some body => exact ih body rfl
    rw [lower_pragma]
    refine .bind_any fun id => .bind_any fun pragmas => .bind hbody fun e he => .pure ?_
    split_ifs
    · exact he
    · exact isMarked_extension he

/-! ### Added pragmas -/

namespace Expr

theorem ensures_optimizePath {e : Expr} (h : e.IsMarked) :
    Ensures IsMarked (e.optimizePath config) := by
  intro n x m hx
  rcases eq_or_extension_of_optimizePath hx with ⟨rfl, -⟩ | ⟨p, rfl, -, -⟩
  · exact h
  · exact isMarked_extension h

theorem ensures_autoOptimizeAll {es : List Expr}
    (hes : ∀ e ∈ es, e.IsMarked → Ensures IsMarked (e.autoOptimize config))
    (h : ∀ e ∈ es, e.IsMarked) :
    Ensures (fun es => ∀ e ∈ es, e.IsMarked) (autoOptimizeAll config es) := by
  induction es with
  | nil => exact .pure h
  | cons e rest ih =>
    obtain ⟨he, hrest⟩ := List.forall_mem_cons.1 h
    rw [autoOptimizeAll]
    refine .bind (hes e List.mem_cons_self he) fun e he => ?_
    refine .bind (ih (fun e he => hes e (List.mem_cons_of_mem _ he)) hrest) fun rest hrest => ?_
    exact .pure (List.forall_mem_cons.2 ⟨he, hrest⟩)

theorem ensures_autoOptimize (e : Expr) : e.IsMarked → Ensures IsMarked (e.autoOptimize config) := by
  induction e using Expr.induct with
  | sequence items ih =>
    intro h
    rw [autoOptimize]
    refine .bind (ensures_autoOptimizeAll ih fun e he p hp =>
      h p (parts_subset_sequence he hp)) fun items hitems => ?_
    exact .pure (isMarked_of_list rfl hitems)
  | _ =>
    intro h
    rw [autoOptimize]
    · exact ensures_optimizePath h
    · intro _ heq
      cases heq

/-! ### Analysis -/

/-- Analysis leaves the form of an expression. -/
theorem isBooleanValued_analyze (e : Expr) (surroundings : Surroundings) :
    (e.analyze surroundings).isBooleanValued = e.isBooleanValued := by
  induction e using Expr.induct generalizing surroundings with
  | filter id base predicates hbase _ => rw [analyze, isBooleanValued, isBooleanValued, hbase]
  | extension id pragmas body ih => rw [analyze, isBooleanValued, isBooleanValued, ih]
  | _ => rfl

theorem isMarked_analyzeAll {es : List Expr}
    (hes : ∀ e ∈ es, ∀ surroundings, (e.analyze surroundings).IsMarked)
    (surroundings : Surroundings) : ∀ e ∈ analyzeAll surroundings es, e.IsMarked := by
  rw [analyzeAll_eq_map]
  intro e he
  obtain ⟨own, hown, rfl⟩ := List.mem_map.1 he
  exact hes own hown surroundings

theorem isMarked_analyzePredicates {ps : List Predicate}
    (hmodes : ∀ p ∈ ps, p.mode = p.expr.predicateMode)
    (hps : ∀ p ∈ ps, ∀ surroundings, (p.expr.analyze surroundings).IsMarked)
    (surroundings : Surroundings) : ∀ p ∈ analyzePredicates surroundings ps, p.IsMarked := by
  rw [analyzePredicates_eq_map]
  intro p hp
  obtain ⟨own, hown, rfl⟩ := List.mem_map.1 hp
  refine ⟨(hmodes own hown).trans ?_, hps own hown surroundings⟩
  rw [predicateMode, predicateMode, isBooleanValued_analyze]

/-- **Analysis leaves all marks right.** -/
theorem isMarked_analyze (e : Expr) :
    e.IsMarked → ∀ surroundings, (e.analyze surroundings).IsMarked := by
  have hpredicate : ∀ {e : Expr} {ps : List Predicate}, e.IsMarked → predicateParts ps ⊆ e.parts →
      ∀ p ∈ ps, p.mode = p.expr.predicateMode := fun h hsub p hp =>
    h p (hsub (mem_predicateParts.2 ⟨p, hp, .inl rfl⟩))
  induction e using Expr.induct with
  | path id steps ih =>
    intro h surroundings
    have hall : ∀ e ∈ steps, ∀ surroundings, (e.analyze surroundings).IsMarked := fun e he =>
      ih e he fun p hp => h p (parts_subset_path he hp)
    rw [analyze]
    refine isMarked_of_list rfl ?_
    cases steps with
    | nil => exact fun _ he => absurd he List.not_mem_nil
    | cons first rest =>
      rw [analyzeSteps]
      exact List.forall_mem_cons.2 ⟨hall first List.mem_cons_self surroundings,
        isMarked_analyzeAll (fun e he => hall e (List.mem_cons_of_mem _ he)) _⟩
  | step head predicates ih =>
    intro h surroundings
    rw [analyze]
    exact isMarked_step (isMarked_analyzePredicates
      (hpredicate h (List.subset_cons_self _ _))
      (fun p hp => ih p hp fun q hq => h q (parts_subset_step hp hq)) _)
  | filter id base predicates hbase ih =>
    intro h surroundings
    rw [analyze]
    refine isMarked_filter (hbase (fun p hp => h p (parts_subset_base _ _ _ hp)) surroundings)
      (isMarked_analyzePredicates (hpredicate h ?_)
        (fun p hp => ih p hp fun q hq => h q (parts_subset_filter hp hq)) _)
    exact fun _ hpart => List.mem_cons_of_mem _ (List.mem_append_right _ hpart)
  | comparison id op left right access hleft hright =>
    intro h surroundings
    obtain ⟨hl, hr⟩ := @parts_subset_sides left right (comparison id op left right access) rfl
    rw [analyze]
    exact isMarked_of_sides rfl (hleft (fun p hp => h p (hl hp)) surroundings)
      (hright (fun p hp => h p (hr hp)) surroundings)
  | and left right hleft hright =>
    intro h surroundings
    obtain ⟨hl, hr⟩ := @parts_subset_sides left right (and left right) rfl
    rw [analyze]
    exact isMarked_of_sides rfl (hleft (fun p hp => h p (hl hp)) surroundings)
      (hright (fun p hp => h p (hr hp)) surroundings)
  | or left right hleft hright =>
    intro h surroundings
    obtain ⟨hl, hr⟩ := @parts_subset_sides left right (or left right) rfl
    rw [analyze]
    exact isMarked_of_sides rfl (hleft (fun p hp => h p (hl hp)) surroundings)
      (hright (fun p hp => h p (hr hp)) surroundings)
  | call id function args access ih =>
    intro h surroundings
    rw [analyze]
    exact isMarked_of_list rfl (isMarked_analyzeAll (fun e he =>
      ih e he fun p hp => h p (parts_subset_call he hp)) surroundings)
  | sequence items ih =>
    intro h surroundings
    rw [analyze]
    exact isMarked_of_list rfl (isMarked_analyzeAll (fun e he =>
      ih e he fun p hp => h p (parts_subset_sequence he hp)) surroundings)
  | extension id pragmas body ih =>
    intro h surroundings
    rw [analyze]
    exact isMarked_extension (ih (fun p hp => h p (parts_subset_extension _ _ _ hp)) _)
  | root => exact fun _ _ => isMarked_of_leaf rfl
  | var name => exact fun _ _ => isMarked_of_leaf rfl
  | literal value => exact fun _ _ => isMarked_of_leaf rfl

end Expr

/-! ### Compiled queries -/

/-- **In a compiled query predicates are marked by their form.** -/
theorem CompiledQuery.isMarked {source : String} {q : CompiledQuery}
    (hq : compile source config = .ok q) : q.root.IsMarked := by
  unfold compile at hq
  obtain ⟨surface, -, hq⟩ := bind_eq_ok.1 hq
  obtain ⟨⟨analyzed, m⟩, hanalyzed, hq⟩ := bind_eq_ok.1 hq
  obtain rfl := Except.ok.inj hq
  have hensures : Ensures IsMarked (ofSurface config surface) := by
    unfold ofSurface
    have hanalyze : ∀ e : Expr, e.IsMarked → Ensures IsMarked (pure (e.analyze .top)) :=
      fun e he => .pure (isMarked_analyze e he .top)
    refine .bind (surface.ensures_lower config) fun e he => ?_
    dsimp only
    split_ifs
    · exact .bind (ensures_autoOptimize e he) hanalyze
    · exact .bind (.pure he) hanalyze
  exact hensures _ _ _ hanalyzed

end IndexedXml
