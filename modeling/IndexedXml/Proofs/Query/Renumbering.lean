/-
# Numbering from another count on

A query that is lowered after other numbers have been given out becomes the same
expression with all of its numbers moved up (`Surface.shifted_lower`).  That is how an
expression below a pragma, which takes numbers of its own, compares with the expression
alone.
-/

import IndexedXml.Proofs.Query.Numbering

namespace IndexedXml

/-- A pragma with its number moved up. -/
def Pragma.renumber (k : Nat) (p : Pragma) : Pragma := { p with id := p.id + k }

namespace Expr

mutual

/-- **The expression with all of its numbers moved up.** -/
def renumber (k : Nat) : Expr → Expr
  | path id steps => path (id + k) (renumberAll k steps)
  | step head predicates =>
    step { head with id := head.id + k } (renumberPredicates k predicates)
  | root => root
  | filter id base predicates =>
    filter (id + k) (base.renumber k) (renumberPredicates k predicates)
  | comparison id op left right access =>
    comparison (id + k) op (left.renumber k) (right.renumber k) access
  | call id function args access => call (id + k) function (renumberAll k args) access
  | .variable name => .variable name
  | literal value => literal value
  | and left right => and (left.renumber k) (right.renumber k)
  | or left right => or (left.renumber k) (right.renumber k)
  | sequence items => sequence (renumberAll k items)
  | extension id pragmas body =>
    extension (id + k) (pragmas.map (Pragma.renumber k)) (body.renumber k)

/-- The expressions with all of their numbers moved up. -/
def renumberAll (k : Nat) : List Expr → List Expr
  | [] => []
  | e :: rest => e.renumber k :: renumberAll k rest

/-- The predicates with all of their numbers moved up. -/
def renumberPredicates (k : Nat) : List Predicate → List Predicate
  | [] => []
  | ⟨id, e, mode⟩ :: rest => ⟨id + k, e.renumber k, mode⟩ :: renumberPredicates k rest

end

theorem renumberAll_eq_map (k : Nat) (es : List Expr) : renumberAll k es = es.map (renumber k) := by
  induction es with
  | nil => rfl
  | cons e rest ih => rw [renumberAll, ih, List.map_cons]

theorem renumberPredicates_eq_map (k : Nat) (ps : List Predicate) :
    renumberPredicates k ps = ps.map fun p => ⟨p.id + k, p.expr.renumber k, p.mode⟩ := by
  induction ps with
  | nil => rfl
  | cons p rest ih => rw [renumberPredicates, ih, List.map_cons]

theorem renumberAll_append (k : Nat) (es es' : List Expr) :
    renumberAll k (es ++ es') = renumberAll k es ++ renumberAll k es' := by
  induction es with
  | nil => rfl
  | cons e rest ih => rw [List.cons_append, renumberAll, renumberAll, List.cons_append, ih]

theorem hasPositional_renumber (k : Nat) (ps : List Predicate) :
    hasPositional (renumberPredicates k ps) = hasPositional ps := by
  induction ps with
  | nil => rfl
  | cons p rest ih =>
    unfold hasPositional at ih ⊢
    rw [renumberPredicates, List.any_cons, List.any_cons, ih]

/-- Numbers do not decide whether every value is a truth value. -/
theorem isBooleanValued_renumber (k : Nat) (e : Expr) :
    (e.renumber k).isBooleanValued = e.isBooleanValued := by
  induction e using Expr.induct with
  | filter id base predicates hbase _ => rw [renumber, isBooleanValued, isBooleanValued, hbase]
  | extension id pragmas body ih => rw [renumber, isBooleanValued, isBooleanValued, ih]
  | root => rfl
  | var name => rfl
  | literal value => rfl
  | _ => rw [renumber, isBooleanValued, isBooleanValued]

end Expr

/-! ### Computations that give out numbers -/

/-- **A computation does after `k` more numbers what another does,** with the numbers in what
comes out moved up. -/
def Shifted {α : Type} (k : Nat) (move : α → α) (x y : Numbering α) : Prop :=
  ∀ n : Nat, y.run (n + k) = (x.run n).map fun r => (move r.1, r.2 + k)

namespace Shifted

variable {α β : Type} {k : Nat} {move : α → α} {move' : β → β}

theorem pure (a : α) : Shifted k move (pure a) (pure (move a)) := fun _ => rfl

theorem fresh : Shifted k (· + k) ExprId.fresh ExprId.fresh := by
  intro n
  change Except.ok (n + k + 1, n + k + 1) = Except.ok (n + 1 + k, n + 1 + k)
  rw [Nat.add_right_comm]

theorem lift {x y : Except QueryError α} (h : y = x.map move) :
    Shifted k move (liftM x) (liftM y) := by
  subst h
  cases x <;> exact fun _ => rfl

/-- Compositions of computations that are shifted are shifted. -/
theorem bind {x y : Numbering α} {f g : α → Numbering β} (hx : Shifted k move x y)
    (hf : ∀ a, Shifted k move' (f a) (g (move a))) : Shifted k move' (x >>= f) (y >>= g) := by
  intro n
  rw [StateT.run_bind, StateT.run_bind, hx n]
  cases x.run n with
  | error e => rfl
  | ok r => exact hf r.1 r.2

end Shifted

/-! ### Lowering -/

open IndexedXml.Expr

variable {k : Nat} {config : Configuration}

theorem Pragma.create_renumber (id : ExprId) (name : QName) (contents : String) (explicit : Bool) :
    Pragma.create (id + k) name contents config explicit =
      (Pragma.create id name contents config explicit).map (Option.map (Pragma.renumber k)) := by
  unfold Pragma.create
  cases Pragma.kindOf name contents config explicit with
  | error e => rfl
  | ok kind => cases kind <;> rfl

theorem shifted_ofDecls (decls : List PragmaDecl) :
    Shifted k (List.map (Pragma.renumber k)) (Pragma.ofDecls config decls)
      (Pragma.ofDecls config decls) := by
  induction decls with
  | nil => exact .pure []
  | cons decl rest ih =>
    rw [Pragma.ofDecls]
    refine Shifted.bind .fresh fun id => ?_
    refine Shifted.bind (.lift (Pragma.create_renumber id _ _ _)) fun pragma => ?_
    refine Shifted.bind ih fun rest => ?_
    cases pragma with
    | none => exact .pure rest
    | some p => exact @Shifted.pure _ _ (List.map (Pragma.renumber k)) (p :: rest)

theorem shifted_lowerAll {es : List Surface}
    (hes : ∀ e ∈ es, Shifted k (renumber k) (e.lower config) (e.lower config)) :
    Shifted k (renumberAll k) (lowerAll config es) (lowerAll config es) := by
  induction es with
  | nil =>
    rw [lowerAll]
    exact .pure []
  | cons e rest ih =>
    rw [lowerAll]
    refine Shifted.bind (hes e List.mem_cons_self) fun e => ?_
    refine Shifted.bind (ih fun e he => hes e (List.mem_cons_of_mem _ he)) fun rest => ?_
    exact @Shifted.pure _ _ (renumberAll k) (e :: rest)

theorem shifted_lowerPredicates {es : List Surface}
    (hes : ∀ e ∈ es, Shifted k (renumber k) (e.lower config) (e.lower config)) :
    Shifted k (renumberPredicates k) (lowerPredicates config es) (lowerPredicates config es) := by
  induction es with
  | nil =>
    rw [lowerPredicates]
    exact .pure []
  | cons e rest ih =>
    rw [lowerPredicates]
    refine Shifted.bind .fresh fun id => ?_
    refine Shifted.bind (hes e List.mem_cons_self) fun e => ?_
    refine Shifted.bind (ih fun e he => hes e (List.mem_cons_of_mem _ he)) fun rest => ?_
    have hmode : (e.renumber k).predicateMode = e.predicateMode := by
      rw [predicateMode, predicateMode, isBooleanValued_renumber]
    rw [hmode]
    exact @Shifted.pure _ _ (renumberPredicates k) (⟨id, e, e.predicateMode⟩ :: rest)

theorem shifted_toDescendants :
    Shifted k (renumber k) Expr.toDescendants Expr.toDescendants := by
  refine Shifted.bind .fresh fun id => ?_
  exact @Shifted.pure _ _ (renumber k) (.step ⟨id, .descendantOrSelf, .anyNode, false⟩ [])

theorem shifted_lowerStep (descendant : Bool) (axis : Axis) (test : NodeTest)
    (predicates : List Predicate) :
    Shifted k (renumberAll k) (Expr.lowerStep descendant axis test predicates)
      (Expr.lowerStep descendant axis test (renumberPredicates k predicates)) := by
  have hdirect : ∀ axis : Axis, Shifted k (renumber k)
      (do let id ← ExprId.fresh; pure (Expr.step ⟨id, axis, test, false⟩ predicates))
      (do let id ← ExprId.fresh
          pure (Expr.step ⟨id, axis, test, false⟩ (renumberPredicates k predicates))) := by
    intro axis
    refine Shifted.bind .fresh fun id => ?_
    exact @Shifted.pure _ _ (renumber k) (.step ⟨id, axis, test, false⟩ predicates)
  have hsingle : ∀ e : Expr, Shifted k (renumberAll k) (pure [e]) (pure [e.renumber k]) :=
    fun e => @Shifted.pure _ _ (renumberAll k) [e]
  unfold Expr.lowerStep
  dsimp only
  rw [hasPositional_renumber]
  cases descendant with
  | false => exact Shifted.bind (hdirect axis) hsingle
  | true =>
    rw [if_pos rfl, if_pos rfl]
    cases axis.throughDescendants? (hasPositional predicates) with
    | some axis => exact Shifted.bind (hdirect axis) hsingle
    | none =>
      refine Shifted.bind shifted_toDescendants fun first => ?_
      refine Shifted.bind (hdirect axis) fun own => ?_
      exact @Shifted.pure _ _ (renumberAll k) [first, own]

theorem shifted_ofSteps (steps : List Expr) :
    Shifted k (renumber k) (Expr.ofSteps steps) (Expr.ofSteps (renumberAll k steps)) := by
  have hpath : ∀ steps : List Expr, Shifted k (renumber k)
      (do let id ← ExprId.fresh; pure (.path id steps))
      (do let id ← ExprId.fresh; pure (.path id (renumberAll k steps))) := by
    intro steps
    refine Shifted.bind .fresh fun id => ?_
    exact @Shifted.pure _ _ (renumber k) (.path id steps)
  rcases steps with _ | ⟨first, _ | ⟨second, rest⟩⟩
  · exact hpath []
  · exact @Shifted.pure _ _ (renumber k) first
  · exact hpath (first :: second :: rest)

theorem shifted_leadingSteps (descendant : Bool) :
    Shifted k (renumberAll k) (leadingSteps descendant) (leadingSteps descendant) := by
  unfold leadingSteps
  cases descendant with
  | false => exact @Shifted.pure _ _ (renumberAll k) []
  | true =>
    refine Shifted.bind shifted_toDescendants fun first => ?_
    exact @Shifted.pure _ _ (renumberAll k) [first]

theorem shifted_lowerSteps {steps : List SurfaceStep}
    (hsteps : ∀ step ∈ steps, ∀ e ∈ step.inside,
      Shifted k (renumber k) (e.lower config) (e.lower config)) :
    Shifted k (renumberAll k) (lowerSteps config steps) (lowerSteps config steps) := by
  induction steps with
  | nil =>
    rw [lowerSteps]
    exact .pure []
  | cons step rest ih =>
    have hfirst := hsteps step List.mem_cons_self
    have hrest := ih fun step hstep => hsteps step (List.mem_cons_of_mem _ hstep)
    cases step with
    | axis descendant axis test predicates =>
      rw [lowerSteps]
      refine Shifted.bind (shifted_lowerPredicates hfirst) fun predicates => ?_
      refine Shifted.bind (shifted_lowerStep _ _ _ predicates) fun own => ?_
      refine Shifted.bind hrest fun rest => ?_
      rw [← renumberAll_append]
      exact .pure (own ++ rest)
    | filter descendant primary predicates =>
      obtain ⟨hprimary, hpredicates⟩ := List.forall_mem_cons.1 hfirst
      rw [lowerSteps_filter]
      refine Shifted.bind (shifted_leadingSteps descendant) fun lead => ?_
      refine Shifted.bind .fresh fun id => ?_
      refine Shifted.bind hprimary fun base => ?_
      refine Shifted.bind (shifted_lowerPredicates hpredicates) fun predicates => ?_
      refine Shifted.bind hrest fun rest => ?_
      have hstep : (if (renumberPredicates k predicates).isEmpty then base.renumber k
          else .filter (id + k) (base.renumber k) (renumberPredicates k predicates)) =
          (if predicates.isEmpty then base else .filter id base predicates).renumber k := by
        cases predicates <;> rfl
      rw [hstep, ← renumberAll, ← renumberAll_append]
      exact .pure _

/-- **Lowering after other numbers have been given out** moves the numbers up. -/
theorem Surface.shifted_lower (surface : Surface) :
    Shifted k (renumber k) (surface.lower config) (surface.lower config) := by
  induction surface using Surface.induct with
  | path start steps ih =>
    rw [lower]
    refine Shifted.bind (shifted_lowerSteps ih) fun steps => ?_
    cases start with
    | none => exact shifted_ofSteps steps
    | some start => exact shifted_ofSteps (.root :: steps)
  | comparison op left right hleft hright =>
    rw [lower]
    refine Shifted.bind .fresh fun id => ?_
    refine Shifted.bind hleft fun left => ?_
    refine Shifted.bind hright fun right => ?_
    exact @Shifted.pure _ _ (renumber k) (.comparison id op left right .unknown)
  | and left right hleft hright =>
    rw [lower]
    refine Shifted.bind hleft fun left => ?_
    refine Shifted.bind hright fun right => ?_
    exact @Shifted.pure _ _ (renumber k) (.and left right)
  | or left right hleft hright =>
    rw [lower]
    refine Shifted.bind hleft fun left => ?_
    refine Shifted.bind hright fun right => ?_
    exact @Shifted.pure _ _ (renumber k) (.or left right)
  | sequence items ih =>
    rw [lower]
    refine Shifted.bind (shifted_lowerAll ih) fun items => ?_
    exact @Shifted.pure _ _ (renumber k) (.sequence items)
  | literal value =>
    rw [lower]
    exact @Shifted.pure _ _ (renumber k) (.literal value)
  | var name =>
    rw [lower]
    exact @Shifted.pure _ _ (renumber k) (.variable name)
  | call name args ih =>
    rw [lower]
    refine @Shifted.bind _ _ _ id _ _ _ _ _ (.lift ?_) fun function => ?_
    · cases Builtin.ofCall (functionName name) args.length <;> rfl
    refine Shifted.bind .fresh fun id => ?_
    refine Shifted.bind (shifted_lowerAll ih) fun args => ?_
    exact @Shifted.pure _ _ (renumber k) (.call id function args .unknown)
  | pragma decls body ih =>
    have hbody : Shifted k (renumber k) (Surface.lowerBody config body)
        (Surface.lowerBody config body) := by
      cases body with
      | none => exact @Shifted.pure _ _ (renumber k) (.sequence [])
      | some body => exact ih body rfl
    rw [lower_pragma]
    refine Shifted.bind .fresh fun id => ?_
    refine Shifted.bind (shifted_ofDecls decls) fun pragmas => ?_
    refine Shifted.bind hbody fun body => ?_
    cases pragmas with
    | nil => exact @Shifted.pure _ _ (renumber k) body
    | cons p rest => exact @Shifted.pure _ _ (renumber k) (.extension id (p :: rest) body)

/-! ### Expressions without pragmas -/

namespace Expr

theorem analyzeAll_eq_map (surroundings : Surroundings) (es : List Expr) :
    analyzeAll surroundings es = es.map (analyze surroundings) := by
  induction es with
  | nil => rfl
  | cons e rest ih => rw [analyzeAll, ih, List.map_cons]

theorem analyzePredicates_eq_map (surroundings : Surroundings) (ps : List Predicate) :
    analyzePredicates surroundings ps =
      ps.map fun p => ⟨p.id, p.expr.analyze surroundings, p.mode⟩ := by
  induction ps with
  | nil => rfl
  | cons p rest ih => rw [analyzePredicates, ih, List.map_cons]

/-- Moving numbers up adds no pragma and takes none away. -/
theorem isPragmaFree_renumber (k : Nat) (e : Expr) :
    (e.renumber k).IsPragmaFree ↔ e.IsPragmaFree := by
  have hall : ∀ es : List Expr, (∀ e ∈ es, (e.renumber k).IsPragmaFree ↔ e.IsPragmaFree) →
      ((∀ e ∈ renumberAll k es, e.IsPragmaFree) ↔ ∀ e ∈ es, e.IsPragmaFree) := by
    intro es h
    rw [renumberAll_eq_map, List.forall_mem_map]
    exact forall₂_congr h
  have hpredicates : ∀ ps : List Predicate,
      (∀ p ∈ ps, (p.expr.renumber k).IsPragmaFree ↔ p.expr.IsPragmaFree) →
      ((∀ p ∈ renumberPredicates k ps, p.expr.IsPragmaFree) ↔ ∀ p ∈ ps, p.expr.IsPragmaFree) := by
    intro ps h
    rw [renumberPredicates_eq_map, List.forall_mem_map]
    exact forall₂_congr h
  induction e using Expr.induct with
  | path id steps ih => rw [renumber, isPragmaFree_path, isPragmaFree_path, hall _ ih]
  | step head ps ih => rw [renumber, isPragmaFree_step, isPragmaFree_step, hpredicates _ ih]
  | root => rw [renumber]
  | filter id base ps hbase ih =>
    rw [renumber, isPragmaFree_filter, isPragmaFree_filter]
    exact and_congr hbase (hpredicates _ ih)
  | comparison id op left right access hl hr =>
    rw [renumber, isPragmaFree_comparison, isPragmaFree_comparison]
    exact and_congr hl hr
  | call id function args access ih =>
    rw [renumber, isPragmaFree_call, isPragmaFree_call, hall _ ih]
  | var name => rw [renumber]
  | literal value => rw [renumber]
  | and left right hl hr =>
    rw [renumber, isPragmaFree_and, isPragmaFree_and]
    exact and_congr hl hr
  | or left right hl hr =>
    rw [renumber, isPragmaFree_or, isPragmaFree_or]
    exact and_congr hl hr
  | sequence items ih => rw [renumber, isPragmaFree_sequence, isPragmaFree_sequence, hall _ ih]
  | extension id pragmas body _ =>
    rw [renumber]
    exact iff_of_false not_isPragmaFree_extension not_isPragmaFree_extension

/-- Analysis adds no pragma and takes none away. -/
theorem isPragmaFree_analyze (surroundings : Surroundings) (e : Expr) :
    (e.analyze surroundings).IsPragmaFree ↔ e.IsPragmaFree := by
  have hall : ∀ es : List Expr,
      (∀ e ∈ es, ∀ surroundings, (e.analyze surroundings).IsPragmaFree ↔ e.IsPragmaFree) →
      ∀ surroundings,
        ((∀ e ∈ analyzeAll surroundings es, e.IsPragmaFree) ↔ ∀ e ∈ es, e.IsPragmaFree) := by
    intro es h surroundings
    rw [analyzeAll_eq_map, List.forall_mem_map]
    exact forall₂_congr fun e he => h e he surroundings
  have hpredicates : ∀ ps : List Predicate,
      (∀ p ∈ ps, ∀ surroundings,
        (p.expr.analyze surroundings).IsPragmaFree ↔ p.expr.IsPragmaFree) →
      ∀ surroundings, ((∀ p ∈ analyzePredicates surroundings ps, p.expr.IsPragmaFree) ↔
        ∀ p ∈ ps, p.expr.IsPragmaFree) := by
    intro ps h surroundings
    rw [analyzePredicates_eq_map, List.forall_mem_map]
    exact forall₂_congr fun p hp => h p hp surroundings
  induction e using Expr.induct generalizing surroundings with
  | path id steps ih =>
    rw [analyze, isPragmaFree_path, isPragmaFree_path]
    cases steps with
    | nil => rw [analyzeSteps]
    | cons first rest =>
      rw [analyzeSteps, List.forall_mem_cons, List.forall_mem_cons]
      exact and_congr (ih first List.mem_cons_self surroundings)
        (hall _ (fun e he => ih e (List.mem_cons_of_mem _ he)) _)
  | step head ps ih => rw [analyze, isPragmaFree_step, isPragmaFree_step, hpredicates _ ih]
  | root => rw [analyze]
  | filter id base ps hbase ih =>
    rw [analyze, isPragmaFree_filter, isPragmaFree_filter]
    exact and_congr (hbase _) (hpredicates _ ih _)
  | comparison id op left right access hl hr =>
    rw [analyze, isPragmaFree_comparison, isPragmaFree_comparison]
    exact and_congr (hl _) (hr _)
  | call id function args access ih =>
    rw [analyze, isPragmaFree_call, isPragmaFree_call, hall _ ih]
  | var name => rw [analyze]
  | literal value => rw [analyze]
  | and left right hl hr =>
    rw [analyze, isPragmaFree_and, isPragmaFree_and]
    exact and_congr (hl _) (hr _)
  | or left right hl hr =>
    rw [analyze, isPragmaFree_or, isPragmaFree_or]
    exact and_congr (hl _) (hr _)
  | sequence items ih => rw [analyze, isPragmaFree_sequence, isPragmaFree_sequence, hall _ ih]
  | extension id pragmas body _ =>
    rw [analyze]
    exact iff_of_false not_isPragmaFree_extension not_isPragmaFree_extension

end Expr
end IndexedXml
