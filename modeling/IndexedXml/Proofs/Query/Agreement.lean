/-
# What evaluation reads of a run

Evaluation reads little of a run: the values of variables, and the candidates prepared
for the steps of the expression.  What it does to a run besides is to count lookups and
to note uses of indexes.  So it ends alike from any two runs that agree on what is read,
under any relation that counting and noting keep (`Expr.alike_evaluate`); what happens
at pragmas is left to whoever uses that.  The two runs may even be left to two strategies
for what is optimized (`Expr.alike_evaluateBy`).

Along the way a property of sequences is kept that holds of every set and list made
anew: what comes out of an expression has it when variables and context have it.
-/

import IndexedXml.Proofs.Query.Runs
import IndexedXml.Proofs.Query.Strategies
import IndexedXml.Proofs.Query.Structure
import Mathlib.Tactic.SplitIfs

namespace IndexedXml

/-- **What a relation on runs must say and keep** for evaluation to end alike: `J` are the
steps whose candidates are read, and `Q` is the property that sequences have. -/
structure Steady (J : ExprId → Prop) (R : Run → Run → Prop) (Q : Sequence → Prop) : Prop where
  /-- Counting a lookup keeps runs related. -/
  count : ∀ kind r r', R r r' → R { r with counts := r.counts.count kind }
    { r' with counts := r'.counts.count kind }
  /-- Noting the use of an index keeps runs related. -/
  note : ∀ id r r', R r r' → R { r with context := r.context.noteIndexUse id }
    { r' with context := r'.context.noteIndexUse id }
  /-- Related runs give variables the same values. -/
  value : ∀ r r', R r r' → ∀ name, r.context.value name = r'.context.value name ∧
    ∀ v, r.context.value name = .ok v → Q v
  /-- Related runs have the same candidates for the steps that are read. -/
  prepared : ∀ r r', R r r' → ∀ id, J id →
    r.context.preloaded.get? id = r'.context.preloaded.get? id
  /-- A set made anew has the property. -/
  set : ∀ set, Q (.ofSet set)
  /-- A list has the property. -/
  items : ∀ list, Q (.items list)

/-- The context sequence of a focus, if any, has a property. -/
def Focus.Has (Q : Sequence → Prop) (focus : Focus) : Prop := ∀ v, focus.context = some v → Q v

variable {J : ExprId → Prop} {R : Run → Run → Prop} {Q : Sequence → Prop}

theorem Steady.toShared (h : Steady J R Q) {v : Sequence} (hv : Q v) {shared : SharedSet}
    (hshared : v.toShared = .ok shared) : Q (.nodes shared) := by
  cases v with
  | nodes own =>
    obtain rfl : own = shared := Except.ok.inj hshared
    exact hv
  | items list =>
    unfold Sequence.toShared at hshared
    cases hnodes : list.mapM Sequence.nodeOf with
    | error e => simp [hnodes, bind, Except.bind] at hshared
    | ok nodes =>
      simp only [hnodes, bind, Except.bind] at hshared
      obtain rfl := Except.ok.inj hshared
      exact h.set _

theorem Steady.append (h : Steady J R Q) {a b : Sequence} (ha : Q a) (hb : Q b) :
    Q (a.append b) := by
  unfold Sequence.append
  split_ifs
  · exact hb
  · exact ha
  · exact h.items _

namespace Evaluation

/-! ### Steps -/

theorem alike_selectAxis (h : Steady J R Q) (s : Store) {head : StepHead} (hJ : J head.id)
    (context : NodeSet) :
    Alike R (fun _ => True) (selectAxis s head context) (selectAxis s head context) := by
  refine Alike.queryContext_bind fun r r' hR => ?_
  rw [h.prepared r r' hR head.id hJ]
  dsimp only
  split
  · exact .pure True.intro
  · unfold selectUnprepared
    split
    · exact .lookup (h.count _)
    · exact .ofStore_any _

/-- The predicates of a step end alike on every set. -/
def AlikePredicates (R : Run → Run → Prop) (Q : Sequence → Prop)
    (applyAll applyAll' : Sequence → Evaluation Sequence) : Prop :=
  ∀ v, Q v → Alike R Q (applyAll v) (applyAll' v)

theorem alike_evaluateStep (h : Steady J R Q) (s : Store) {head : StepHead} (hJ : J head.id)
    (positional : Bool) {applyAll applyAll' : Bool → Sequence → Evaluation Sequence}
    (hall : ∀ reverse, AlikePredicates R Q (applyAll reverse) (applyAll' reverse))
    {focus : Focus} :
    Alike R Q (evaluateStep s head positional applyAll focus)
      (evaluateStep s head positional applyAll' focus) := by
  refine Alike.bind (.orFail_any _) fun context _ => ?_
  split_ifs
  · refine Alike.bind (.foldlM (Q := fun _ => True) True.intro fun result _ n _ => ?_) fun set _ =>
      .pure (h.set set)
    refine Alike.bind (alike_selectAxis h s hJ _) fun selected _ => ?_
    refine Alike.bind (hall _ _ (h.set selected)) fun kept _ => ?_
    exact Alike.bind (.orFail_any _) fun _ _ =>
      .pure True.intro
  · exact Alike.bind (alike_selectAxis h s hJ _) fun selected _ => hall _ _ (h.set selected)

theorem alike_evaluateRoot (h : Steady J R Q) (s : Store) (focus : Focus) :
    Alike R Q (evaluateRoot s focus) (evaluateRoot s focus) :=
  Alike.bind (.orFail_any _) fun _ _ => .pure (h.set _)

/-! ### Predicates -/

theorem itemFocus_has (h : Steady J R Q) (persistent : Bool) (item : Item) :
    (itemFocus persistent item).Has Q := by
  intro v hv
  cases item with
  | node n => exact Option.some.inj hv ▸ h.set _
  | atomic value => exact Option.some.inj hv ▸ h.items _

theorem alike_selectItems (h : Steady J R Q) {evaluate evaluate' : Focus → Evaluation Sequence}
    (heval : ∀ focus, focus.Has Q → Alike R Q (evaluate focus) (evaluate' focus))
    (persistent reverse : Bool) (items : List Item) :
    ∀ position, Alike R (fun _ => True) (selectItems evaluate persistent reverse position items)
      (selectItems evaluate' persistent reverse position items) := by
  induction items with
  | nil => exact fun _ => .pure True.intro
  | cons item rest ih =>
    intro position
    refine Alike.bind (heval _ (itemFocus_has h persistent item)) fun outcome _ => ?_
    refine Alike.bind (.orFail_any _) fun selected _ => ?_
    exact Alike.bind (ih _) fun rest _ => .pure True.intro

theorem alike_select (h : Steady J R Q) (s : Store) (probe : IndexProbe) (candidates : NodeSet) :
    Alike R (fun _ => True) (probe.select s candidates) (probe.select s candidates) := by
  unfold IndexProbe.select
  cases probe.relation with
  | none => exact .pure True.intro
  | some relation =>
    refine Alike.bind (.ofStore_any _) fun covered _ => ?_
    cases covered with
    | none => exact .pure True.intro
    | some covered =>
      dsimp only
      split_ifs
      · exact Alike.bind (.lookup (h.count .range)) fun _ _ => .pure True.intro
      · exact .pure True.intro

theorem alike_applyByIndex (h : Steady J R Q) (s : Store) (mode : PredicateMode)
    (probe : Option (ExprId × IndexProbe)) (sequence : Sequence) :
    Alike R (fun _ => True) (applyByIndex s mode probe sequence)
      (applyByIndex s mode probe sequence) := by
  unfold applyByIndex
  split
  · refine Alike.bind (alike_select h s _ _) fun kept _ => ?_
    cases kept with
    | none => exact .pure True.intro
    | some kept => exact Alike.bind (.update (h.note _)) fun _ _ => .pure True.intro
  · exact .pure True.intro

theorem alike_applyPredicate (h : Steady J R Q) (s : Store) (mode : PredicateMode)
    (probe : Option (ExprId × IndexProbe)) {evaluate evaluate' : Focus → Evaluation Sequence}
    (heval : ∀ focus, focus.Has Q → Alike R Q (evaluate focus) (evaluate' focus))
    (reverse : Bool) (sequence : Sequence) :
    Alike R Q (applyPredicate s mode probe evaluate reverse sequence)
      (applyPredicate s mode probe evaluate' reverse sequence) := by
  refine Alike.bind (alike_applyByIndex h s mode probe sequence) fun kept _ => ?_
  cases kept with
  | some kept => exact .pure (h.set kept)
  | none =>
    refine Alike.bind (alike_selectItems h heval _ _ _ _) fun kept _ => .pure ?_
    cases sequence with
    | nodes shared => exact h.set _
    | items list => exact h.items _

/-! ### Comparisons and calls -/

theorem alike_compareSequences (h : Steady J R Q) (s : Store) (op : ComparisonOp)
    (left right : Sequence) :
    Alike R Q (compareSequences s op left right) (compareSequences s op left right) := by
  refine Alike.bind (.ofStore_any _) fun left _ => ?_
  refine Alike.bind (.ofStore_any _) fun right _ => ?_
  exact Alike.bind (.orFail_any _) fun _ _ =>
    .pure (h.items _)

theorem alike_textArgument (s : Store) (function : Builtin) (sequence : Sequence) :
    Alike R (fun _ => True) (Builtin.textArgument s function sequence)
      (Builtin.textArgument s function sequence) := by
  refine Alike.bind (.ofStore_any _) fun values _ => ?_
  split
  · exact .pure True.intro
  · exact .pure True.intro
  · exact .orFail_any _

theorem alike_apply (h : Steady J R Q) (s : Store) (focus : Focus) (function : Builtin)
    (args : List Sequence) :
    Alike R Q (function.apply s focus args) (function.apply s focus args) := by
  unfold Builtin.apply
  split
  · exact .pure (h.set _)
  · refine Alike.bind (alike_textArgument s _ _) fun uri _ => ?_
    exact Alike.bind (.ofStore_any _) fun _ _ =>
      .pure (h.set _)
  · exact .pure (h.items _)
  · exact .pure (h.items _)
  · exact .pure (h.items _)
  · exact Alike.bind (.orFail_any _) fun _ _ =>
      .pure (h.items _)
  · refine Alike.bind (.orFail_any _) fun items _ => ?_
    exact Alike.bind (alike_textArgument s _ _) fun _ _ => .pure (h.items _)
  · exact Alike.bind (alike_textArgument s _ _) fun _ _ => .pure (h.items _)
  · refine Alike.bind (alike_textArgument s _ _) fun _ _ => ?_
    exact Alike.bind (alike_textArgument s _ _) fun _ _ => .pure (h.items _)
  · refine Alike.bind (alike_textArgument s _ _) fun _ _ => ?_
    exact Alike.bind (alike_textArgument s _ _) fun _ _ => .pure (h.items _)
  · exact .pure (h.items _)
  · exact .pure (h.items _)
  · exact .orFail fun _ hv => nomatch hv

/-! ### Narrowing -/

theorem alike_round (h : Steady J R Q) (s : Store) (step : Option ContextStep) (within : Bool)
    (o : Optimizable) (context : NodeSet) :
    Alike R (fun _ => True) (Narrowing.round s step within o context)
      (Narrowing.round s step within o context) := by
  have hselect : Alike R (fun _ => True) (Narrowing.preSelect s o context within)
      (Narrowing.preSelect s o context within) := by
    refine Alike.bind (.lookup (h.count .range)) fun selection _ => ?_
    exact Alike.bind (.update (h.note o.id)) fun _ _ => .pure True.intro
  have habove : ∀ selection, Alike R (fun _ => True)
      (Narrowing.candidatesAbove s step o context selection)
      (Narrowing.candidatesAbove s step o context selection) := by
    intro selection
    unfold Narrowing.candidatesAbove
    split_ifs
    · exact .pure True.intro
    · split
      · exact .lookup (h.count .ancestors)
      · exact .pure True.intro
  refine Alike.bind hselect fun selection _ => ?_
  exact Alike.bind (habove selection) fun _ _ => .pure True.intro

theorem alike_rounds (h : Steady J R Q) (s : Store) (step : Option ContextStep)
    (context : NodeSet) (optimizables : List Optimizable) :
    Alike R (fun _ => True) (Narrowing.rounds s step context optimizables)
      (Narrowing.rounds s step context optimizables) := by
  have hlater : ∀ (optimizables : List Optimizable) (context : NodeSet),
      Alike R (fun _ => True) (Narrowing.laterRounds s context optimizables)
        (Narrowing.laterRounds s context optimizables) := by
    intro optimizables
    induction optimizables with
    | nil => exact fun _ => .pure True.intro
    | cons o rest ih =>
      intro context
      refine Alike.bind (alike_round h s none true o context) fun first _ => ?_
      exact Alike.bind (ih first.ancestors) fun _ _ => .pure True.intro
  cases optimizables with
  | nil => exact .pure True.intro
  | cons o rest =>
    refine Alike.bind (alike_round h s step false o context) fun first _ => ?_
    exact Alike.bind (hlater rest first.ancestors) fun _ _ => .pure True.intro

/-! ### Pragmas -/

/-- **Pragmas end alike** when entering their phases does, what they belong to does, and the
strategies do for those that optimize. -/
theorem alike_evaluatePragmasBy {strategy strategy' : Strategy}
    {evaluate evaluate' : Focus → Evaluation Sequence} {focus : Focus} {ps : List Pragma}
    (henter : ∀ id phase,
      Alike R (fun _ => True) (update (·.enter id phase)) (update (·.enter id phase)))
    (hbody : Alike R Q (evaluate focus) (evaluate' focus))
    (hstrategies : ∀ p ∈ ps, ∀ explicit enabled contextId,
      p.kind = .optimize explicit enabled contextId →
        Alike R Q (strategy p.id evaluate focus) (strategy' p.id evaluate' focus)) :
    Alike R Q (evaluatePragmasBy strategy evaluate focus ps)
      (evaluatePragmasBy strategy' evaluate' focus ps) := by
  induction ps with
  | nil => exact hbody
  | cons p rest ih =>
    have hrest := ih fun p hp => hstrategies p (List.mem_cons_of_mem _ hp)
    unfold evaluatePragmasBy
    refine Alike.bind (henter _ _) fun _ _ => ?_
    cases hkind : p.kind with
    | optimize explicit enabled contextId =>
      exact hstrategies p List.mem_cons_self explicit enabled contextId hkind
    | noIndex => exact hrest
    | forceIndexUse => exact hrest

end Evaluation

/-! ### Expressions -/

open Evaluation

namespace Expr

variable {s : Store} {strategy strategy' : Strategy}

theorem alike_evaluateStepsBy (h : Steady J R Q) {es : List Expr}
    (hes : ∀ e ∈ es, ∀ focus, focus.Has Q →
      Alike R Q (e.evaluateBy s strategy focus) (e.evaluateBy s strategy' focus)) :
    ∀ value, Q value →
      Alike R Q (evaluateStepsBy s strategy es value) (evaluateStepsBy s strategy' es value) := by
  induction es with
  | nil =>
    intro value hvalue
    rw [evaluateStepsBy, evaluateStepsBy]
    exact .pure hvalue
  | cons e rest ih =>
    intro value hvalue
    rw [evaluateStepsBy, evaluateStepsBy]
    split_ifs
    · exact .pure (h.items _)
    · refine Alike.bind (.orFail (P := fun shared => Q (.nodes shared)) fun shared hshared =>
        h.toShared hvalue hshared) fun context hcontext => ?_
      refine Alike.bind (hes e List.mem_cons_self _ ?_) fun value hvalue =>
        ih (fun e he => hes e (List.mem_cons_of_mem _ he)) value hvalue
      rintro v ⟨⟩
      exact hcontext

theorem alike_evaluateAllBy {es : List Expr} {focus : Focus}
    (hes : ∀ e ∈ es,
      Alike R Q (e.evaluateBy s strategy focus) (e.evaluateBy s strategy' focus)) :
    Alike R (fun values => ∀ v ∈ values, Q v) (evaluateAllBy s strategy es focus)
      (evaluateAllBy s strategy' es focus) := by
  induction es with
  | nil =>
    rw [evaluateAllBy, evaluateAllBy]
    exact .pure fun _ h => nomatch h
  | cons e rest ih =>
    rw [evaluateAllBy, evaluateAllBy]
    refine Alike.bind (hes e List.mem_cons_self) fun value hvalue => ?_
    refine Alike.bind (ih fun e he => hes e (List.mem_cons_of_mem _ he)) fun values hvalues => ?_
    exact .pure (List.forall_mem_cons.2 ⟨hvalue, hvalues⟩)

theorem alike_applyPredicatesBy (h : Steady J R Q) {ps : List Predicate}
    (hps : ∀ p ∈ ps, ∀ focus, focus.Has Q →
      Alike R Q (p.expr.evaluateBy s strategy focus) (p.expr.evaluateBy s strategy' focus))
    (reverse : Bool) :
    AlikePredicates R Q (applyPredicatesBy s strategy ps reverse)
      (applyPredicatesBy s strategy' ps reverse) := by
  induction ps with
  | nil =>
    intro value hvalue
    rw [applyPredicatesBy, applyPredicatesBy]
    exact .pure hvalue
  | cons p rest ih =>
    intro value hvalue
    rw [applyPredicatesBy, applyPredicatesBy]
    refine Alike.bind (alike_applyPredicate h s _ _ (hps p List.mem_cons_self) _ _)
      fun kept hkept => ?_
    exact ih (fun p hp => hps p (List.mem_cons_of_mem _ hp)) kept hkept

theorem foldl_append_has (h : Steady J R Q) {values : List Sequence} :
    ∀ {v}, Q v → (∀ w ∈ values, Q w) → Q (values.foldl Sequence.append v) := by
  induction values with
  | nil => exact fun hv _ => hv
  | cons w rest ih =>
    intro v hv hall
    obtain ⟨hw, hrest⟩ := List.forall_mem_cons.1 hall
    exact ih (h.append hv hw) hrest

/-- **What is asked of the parts of an expression:** that its steps are among those that agreement
is steady for, and that its parts with pragmas end alike when what is below them does. -/
structure PartsAlike {ι : Type} (J : ExprId → Prop) (R : ι → Run → Run → Prop) (Q : Sequence → Prop)
    (s : Store) (strategy strategy' : Strategy) (e : Expr) : Prop where
  steps : ∀ head predicates, .expr (.step head predicates) ∈ e.parts → J head.id
  extensions : ∀ id pragmas body, .expr (.extension id pragmas body) ∈ e.parts →
    (∀ i focus, focus.Has Q →
      Alike (R i) Q (body.evaluateBy s strategy focus) (body.evaluateBy s strategy' focus)) →
    ∀ i focus, focus.Has Q →
      Alike (R i) Q (evaluateExtensionBy strategy pragmas body (body.evaluateBy s strategy) focus)
        (evaluateExtensionBy strategy' pragmas body (body.evaluateBy s strategy') focus)

/-- What is asked of all parts of an expression is asked of the parts of what is in it. -/
theorem PartsAlike.mono {ι : Type} {R : ι → Run → Run → Prop} {e e' : Expr}
    (h : PartsAlike J R Q s strategy strategy' e) (hsub : e'.parts ⊆ e.parts) :
    PartsAlike J R Q s strategy strategy' e' :=
  ⟨fun _ _ hpart => h.steps _ _ (hsub hpart), fun _ _ _ hpart => h.extensions _ _ _ (hsub hpart)⟩

/-- **An expression ends alike from runs that agree on what it reads,** provided that this
is so of its parts with pragmas, and then also with two strategies.  A family of relations
goes through, since pragmas may change what is agreed on for the evaluation of what is below
them. -/
theorem alike_evaluateBy {ι : Type} {R : ι → Run → Run → Prop} (h : ∀ i, Steady J (R i) Q)
    (s : Store) (strategy strategy' : Strategy) (e : Expr) :
    PartsAlike J R Q s strategy strategy' e → ∀ i focus, focus.Has Q →
      Alike (R i) Q (e.evaluateBy s strategy focus) (e.evaluateBy s strategy' focus) := by
  induction e using Expr.induct with
  | path id steps ih =>
    intro hparts i focus hfocus
    have hall : ∀ e ∈ steps, ∀ focus, focus.Has Q →
        Alike (R i) Q (e.evaluateBy s strategy focus) (e.evaluateBy s strategy' focus) := fun e he =>
      ih e he (hparts.mono (parts_subset_path he)) i
    rw [evaluateBy, evaluateBy]
    cases steps with
    | nil =>
      rw [evaluatePathBy, evaluatePathBy]
      exact .pure ((h i).items _)
    | cons first rest =>
      rw [evaluatePathBy, evaluatePathBy]
      exact Alike.bind (hall first List.mem_cons_self focus hfocus) fun value hvalue =>
        alike_evaluateStepsBy (h i) (fun e he => hall e (List.mem_cons_of_mem _ he)) value hvalue
  | step head predicates ih =>
    intro hparts i focus _
    rw [evaluateBy, evaluateBy]
    exact alike_evaluateStep (h i) s (hparts.steps head predicates (self_mem_parts _)) _ fun reverse =>
      alike_applyPredicatesBy (h i)
        (fun p hp => ih p hp (hparts.mono (parts_subset_step hp)) i) reverse
  | root =>
    intro _ i focus _
    rw [evaluateBy, evaluateBy]
    exact alike_evaluateRoot (h i) s focus
  | filter id base predicates hbase ih =>
    intro hparts i focus hfocus
    rw [evaluateBy, evaluateBy]
    exact Alike.bind (hbase (hparts.mono (parts_subset_base _ _ _)) i focus hfocus)
      (alike_applyPredicatesBy (h i)
        (fun p hp => ih p hp (hparts.mono (parts_subset_filter hp)) i) false)
  | comparison id op left right access hleft hright =>
    intro hparts i focus hfocus
    obtain ⟨hl, hr⟩ := @parts_subset_sides left right (comparison id op left right access) rfl
    rw [evaluateBy, evaluateBy]
    refine Alike.bind (hleft (hparts.mono hl) i focus hfocus) fun l _ => ?_
    refine Alike.bind (hright (hparts.mono hr) i focus hfocus) fun r _ => ?_
    exact alike_compareSequences (h i) s op l r
  | call id function args access ih =>
    intro hparts i focus hfocus
    rw [evaluateBy, evaluateBy]
    refine Alike.bind (alike_evaluateAllBy fun e he =>
      ih e he (hparts.mono (parts_subset_call he)) i focus hfocus) fun args _ => ?_
    exact alike_apply (h i) s focus function args
  | var name =>
    intro _ i focus _
    rw [evaluateBy, evaluateBy]
    refine Alike.queryContext_bind fun r r' hR => ?_
    obtain ⟨heq, hvalue⟩ := (h i).value r r' hR name
    rw [← heq]
    exact .orFail hvalue
  | literal value =>
    intro _ i focus _
    rw [evaluateBy, evaluateBy]
    exact .pure ((h i).items _)
  | and left right hleft hright =>
    intro hparts i focus hfocus
    obtain ⟨hl, hr⟩ := @parts_subset_sides left right (and left right) rfl
    rw [evaluateBy, evaluateBy]
    refine Alike.bind (hleft (hparts.mono hl) i focus hfocus) fun l _ => ?_
    refine Alike.bind (.orFail_any _) fun truth _ => ?_
    split_ifs
    · refine Alike.bind (hright (hparts.mono hr) i focus hfocus) fun r _ => ?_
      exact Alike.bind (.orFail_any _) fun _ _ => .pure ((h i).items _)
    · exact .pure ((h i).items _)
  | or left right hleft hright =>
    intro hparts i focus hfocus
    obtain ⟨hl, hr⟩ := @parts_subset_sides left right (or left right) rfl
    rw [evaluateBy, evaluateBy]
    refine Alike.bind (hleft (hparts.mono hl) i focus hfocus) fun l _ => ?_
    refine Alike.bind (.orFail_any _) fun truth _ => ?_
    split_ifs
    · exact .pure ((h i).items _)
    · refine Alike.bind (hright (hparts.mono hr) i focus hfocus) fun r _ => ?_
      exact Alike.bind (.orFail_any _) fun _ _ => .pure ((h i).items _)
  | sequence items ih =>
    intro hparts i focus hfocus
    rw [evaluateBy, evaluateBy]
    refine Alike.bind (alike_evaluateAllBy fun e he =>
      ih e he (hparts.mono (parts_subset_sequence he)) i focus hfocus) fun values hvalues => ?_
    exact .pure (foldl_append_has (h i) ((h i).items []) hvalues)
  | extension id pragmas body ih =>
    intro hparts i focus hfocus
    rw [evaluateBy, evaluateBy]
    exact hparts.extensions id pragmas body (self_mem_parts _)
      (ih (hparts.mono (parts_subset_extension _ _ _))) i focus hfocus

/-! ### The optimizer on both sides -/

theorem alike_evaluateSteps (h : Steady J R Q) {es : List Expr}
    (hes : ∀ e ∈ es, ∀ focus, focus.Has Q → Alike R Q (e.evaluate s focus) (e.evaluate s focus)) :
    ∀ value, Q value → Alike R Q (evaluateSteps s es value) (evaluateSteps s es value) := by
  rw [← evaluateStepsBy_optimizer]
  exact alike_evaluateStepsBy h fun e he => (evaluateBy_optimizer s e).symm ▸ hes e he

theorem alike_evaluateAll {es : List Expr} {focus : Focus}
    (hes : ∀ e ∈ es, Alike R Q (e.evaluate s focus) (e.evaluate s focus)) :
    Alike R (fun values => ∀ v ∈ values, Q v) (evaluateAll s es focus)
      (evaluateAll s es focus) := by
  rw [← evaluateAllBy_optimizer]
  exact alike_evaluateAllBy fun e he => (evaluateBy_optimizer s e).symm ▸ hes e he

theorem alike_applyPredicates (h : Steady J R Q) {ps : List Predicate}
    (hps : ∀ p ∈ ps, ∀ focus, focus.Has Q →
      Alike R Q (p.expr.evaluate s focus) (p.expr.evaluate s focus)) (reverse : Bool) :
    AlikePredicates R Q (applyPredicates s ps reverse) (applyPredicates s ps reverse) := by
  rw [← applyPredicatesBy_optimizer]
  exact alike_applyPredicatesBy h
    (fun p hp => (evaluateBy_optimizer s p.expr).symm ▸ hps p hp) reverse

/-- **Evaluation ends alike from runs that agree on what is read,** provided that this is so
of the parts with pragmas. -/
theorem alike_evaluate {ι : Type} {R : ι → Run → Run → Prop} (h : ∀ i, Steady J (R i) Q)
    (s : Store) (e : Expr)
    (hsteps : ∀ head predicates, .expr (.step head predicates) ∈ e.parts → J head.id)
    (hextensions : ∀ id pragmas body, .expr (.extension id pragmas body) ∈ e.parts →
      (∀ i focus, focus.Has Q →
        Alike (R i) Q (body.evaluate s focus) (body.evaluate s focus)) →
      ∀ i focus, focus.Has Q →
        Alike (R i) Q (evaluateExtension s pragmas body (body.evaluate s) focus)
          (evaluateExtension s pragmas body (body.evaluate s) focus)) :
    ∀ i focus, focus.Has Q → Alike (R i) Q (e.evaluate s focus) (e.evaluate s focus) := by
  rw [← evaluateBy_optimizer]
  refine alike_evaluateBy h s _ _ e ⟨hsteps, fun id pragmas body hpart hbody i focus hfocus => ?_⟩
  rw [evaluateBy_optimizer] at hbody ⊢
  rw [evaluateExtensionBy_optimizer]
  exact hextensions id pragmas body hpart hbody i focus hfocus

end Expr
end IndexedXml
