/-
# Evaluations of one expression side by side

An expression is evaluated on a store and on the same store with lookups switched on or off.
Everything but the lookups themselves is the same on both, so a relation between computations
that goes with the ways of putting them together (`Evaluation.Composes`) holds between the two
evaluations as soon as it holds where indexes come in: at steps, at the sets that predicates are
applied to, and at pragmas (`Expr.related_evaluate`).

On one of the two sides the expression may be fitted out otherwise, and each side may handle pragmas
in its own way.  Then the contexts may differ, and it is asked besides that the values of variables
are related (`Expr.related_evaluateWith_refit`, `Expr.related_evaluate_refit`).
-/

import IndexedXml.Proofs.Query.Coverage
import IndexedXml.Proofs.Query.Navigation
import IndexedXml.Proofs.Query.Refitting
import IndexedXml.Proofs.Query.Runs
import IndexedXml.Proofs.Query.Strategies
import IndexedXml.Proofs.Query.Structure
import IndexedXml.Query.Evaluation
import Mathlib.Tactic.SplitIfs

namespace IndexedXml
namespace Evaluation

/-- **A relation between computations that goes with putting them one after the other.** -/
structure Chains (R : ∀ α : Type, Evaluation α → Evaluation α → Prop) : Prop where
  pure : ∀ {α : Type} (a : α), R α (pure a) (pure a)
  orFail : ∀ {α : Type} (x : Except QueryError α), R α (orFail x) (orFail x)
  bind : ∀ {α β : Type} {m m' : Evaluation α} {f f' : α → Evaluation β}, R α m m' →
    (∀ a, R β (f a) (f' a)) → R β (m >>= f) (m' >>= f')

/-- **A relation between computations that goes with all ways of putting them together,** and
so relates computations that read one and the same context. -/
structure Composes (R : ∀ α : Type, Evaluation α → Evaluation α → Prop) : Prop extends Chains R where
  queryContext : R QueryContext queryContext queryContext

variable {R : ∀ α : Type, Evaluation α → Evaluation α → Prop} (s : Store) (a b : Bool)

namespace Chains

variable {α β : Type}

theorem ofStore (h : Chains R) (x : Except StoreError α) : R α (ofStore x) (ofStore x) := h.orFail _

/-- Walks through a list are related when their steps are. -/
theorem foldlM (h : Chains R) {f f' : β → α → Evaluation β} (l : List α)
    (hf : ∀ b a, R β (f b a) (f' b a)) : ∀ b, R β (l.foldlM f b) (l.foldlM f' b) := by
  induction l with
  | nil => exact fun b => h.pure b
  | cons a rest ih =>
    intro b
    rw [List.foldlM_cons, List.foldlM_cons]
    exact h.bind (hf b a) ih

theorem forM (h : Chains R) {f f' : α → Evaluation PUnit} (l : List α)
    (hf : ∀ a ∈ l, R PUnit (f a) (f' a)) : R PUnit (l.forM f) (l.forM f') := by
  induction l with
  | nil => exact h.pure _
  | cons a rest ih =>
    exact h.bind (hf a List.mem_cons_self) fun _ => ih fun a ha => hf a (List.mem_cons_of_mem _ ha)

end Chains

/-! ### Steps and predicates -/

theorem related_evaluateStep (h : Chains R) {head : StepHead} (positional : Bool)
    (haxis : ∀ context, R NodeSet (selectAxis (s.interrupt a) head context)
      (selectAxis (s.interrupt b) head context))
    {applyAll applyAll' : Bool → Sequence → Evaluation Sequence}
    (hall : ∀ reverse v, R Sequence (applyAll reverse v) (applyAll' reverse v)) (focus : Focus) :
    R Sequence (evaluateStep (s.interrupt a) head positional applyAll focus)
      (evaluateStep (s.interrupt b) head positional applyAll' focus) := by
  refine h.bind (h.orFail _) fun context => ?_
  split_ifs
  · refine h.bind (h.foldlM _ (fun result n => ?_) _) fun set => h.pure _
    refine h.bind (haxis _) fun selected => ?_
    exact h.bind (hall _ _) fun kept => h.bind (h.orFail _) fun _ => h.pure _
  · exact h.bind (haxis _) fun selected => hall _ _

theorem related_selectItems (h : Chains R) {evaluate evaluate' : Focus → Evaluation Sequence}
    (heval : ∀ focus, R Sequence (evaluate focus) (evaluate' focus)) (persistent reverse : Bool)
    (items : List Item) :
    ∀ position, R (List Item) (selectItems evaluate persistent reverse position items)
      (selectItems evaluate' persistent reverse position items) := by
  induction items with
  | nil => exact fun _ => h.pure _
  | cons item rest ih =>
    intro position
    refine h.bind (heval _) fun outcome => h.bind (h.orFail _) fun selected => ?_
    exact h.bind (ih _) fun _ => h.pure _

theorem related_applyPredicate (h : Chains R) {mode : PredicateMode}
    {probe probe' : Option (ExprId × IndexProbe)}
    {evaluate evaluate' : Focus → Evaluation Sequence}
    (hindex : ∀ sequence, R (Option NodeSet) (applyByIndex (s.interrupt a) mode probe sequence)
      (applyByIndex (s.interrupt b) mode probe' sequence))
    (heval : ∀ focus, R Sequence (evaluate focus) (evaluate' focus)) (reverse : Bool)
    (sequence : Sequence) :
    R Sequence (applyPredicate (s.interrupt a) mode probe evaluate reverse sequence)
      (applyPredicate (s.interrupt b) mode probe' evaluate' reverse sequence) := by
  refine h.bind (hindex sequence) fun kept => ?_
  cases kept with
  | some kept => exact h.pure _
  | none => exact h.bind (related_selectItems h heval _ _ _ _) fun _ => h.pure _

/-! ### Calls -/

theorem related_textArgument (h : Chains R) (function : Builtin) (sequence : Sequence) :
    R String (Builtin.textArgument (s.interrupt a) function sequence)
      (Builtin.textArgument (s.interrupt b) function sequence) := by
  refine h.bind (h.ofStore _) fun values => ?_
  split
  · exact h.pure _
  · exact h.pure _
  · exact h.orFail _

theorem related_apply (h : Chains R) (focus : Focus) (function : Builtin) (args : List Sequence) :
    R Sequence (function.apply (s.interrupt a) focus args)
      (function.apply (s.interrupt b) focus args) := by
  have htext := related_textArgument s a b h
  unfold Builtin.apply
  split
  · exact h.pure _
  · exact h.bind (htext _ _) fun _ => h.bind (h.ofStore _) fun _ => h.pure _
  · exact h.pure _
  · exact h.pure _
  · exact h.pure _
  · exact h.bind (h.orFail _) fun _ => h.pure _
  · exact h.bind (h.orFail _) fun _ => h.bind (htext _ _) fun _ => h.pure _
  · exact h.bind (htext _ _) fun _ => h.pure _
  · exact h.bind (htext _ _) fun _ => h.bind (htext _ _) fun _ => h.pure _
  · exact h.bind (htext _ _) fun _ => h.bind (htext _ _) fun _ => h.pure _
  · exact h.pure _
  · exact h.pure _
  · exact h.orFail _

/-! ### Pragmas -/

/-- Judging a context looks nothing up, and so it is the same on both sides. -/
theorem related_judge (h : Composes R) (state : OptimizeState) (context : Option Sequence) :
    R Optimizer.Judgement (Optimizer.judge (s.interrupt a) state context)
      (Optimizer.judge (s.interrupt b) state context) := by
  have hworking : R (Option Sequence) (Optimizer.workingSequence state context)
      (Optimizer.workingSequence state context) := by
    unfold Optimizer.workingSequence
    split
    · exact h.pure _
    · exact h.bind h.queryContext fun _ => h.bind (h.orFail _) fun _ => h.pure _
  unfold Optimizer.judge
  split_ifs
  · refine h.bind hworking fun working => ?_
    have hcached : Optimizer.cached? (s.interrupt a) state (context.bind Optimizer.sharedOf?) =
        Optimizer.cached? (s.interrupt b) state (context.bind Optimizer.sharedOf?) := rfl
    have hverdict : verdict (s.interrupt a) working state.optimizables =
        verdict (s.interrupt b) working state.optimizables := verdict_congr fun _ _ => rfl
    rw [hcached, hverdict]
    split
    · exact h.pure _
    · exact h.bind (h.ofStore _) fun _ => h.pure _
  · exact h.pure _

/-- Checking the uses of indexes at the end is the same on both sides. -/
theorem related_deactivate (h : Composes R)
    (henter : ∀ id phase, R Unit (update (·.enter id phase)) (update (·.enter id phase)))
    (body : Expr) (p : Pragma) : R Unit (deactivate body p) (deactivate body p) := by
  refine h.bind (henter _ _) fun _ => ?_
  split
  · refine h.bind h.queryContext fun c => ?_
    split_ifs
    · exact h.pure _
    · exact h.orFail _
  · exact h.pure _

/-- By way of pragmas an expression is evaluated directly or by way of an optimizer. -/
theorem related_evaluatePragmas (h : Composes R)
    (henter : ∀ id phase, R Unit (update (·.enter id phase)) (update (·.enter id phase)))
    {body body' : Focus → Evaluation Sequence}
    (hbody : ∀ focus, R Sequence (body focus) (body' focus)) (focus : Focus) (pragmas : List Pragma)
    (hoptimize : ∀ p ∈ pragmas, ∀ explicit enabled context,
      p.kind = .optimize explicit enabled context →
        R Sequence (Optimizer.evaluate (s.interrupt a) p.id body focus)
          (Optimizer.evaluate (s.interrupt b) p.id body' focus)) :
    R Sequence (evaluatePragmas (s.interrupt a) body focus pragmas)
      (evaluatePragmas (s.interrupt b) body' focus pragmas) := by
  induction pragmas with
  | nil => exact hbody focus
  | cons p rest ih =>
    refine h.bind (henter _ _) fun _ => ?_
    split
    · next kind => exact hoptimize p List.mem_cons_self _ _ _ kind
    · exact ih fun p hp => hoptimize p (List.mem_cons_of_mem _ hp)

theorem related_evaluateExtension (h : Composes R)
    (henter : ∀ id phase, R Unit (update (·.enter id phase)) (update (·.enter id phase)))
    {pragmas : List Pragma} {inner : Expr}
    (hactivate : ∀ p ∈ pragmas, R Unit (activate inner p) (activate inner p))
    {body body' : Focus → Evaluation Sequence}
    (hbody : ∀ focus, R Sequence (body focus) (body' focus))
    (hoptimize : ∀ p ∈ pragmas, ∀ explicit enabled context,
      p.kind = .optimize explicit enabled context → ∀ focus,
        R Sequence (Optimizer.evaluate (s.interrupt a) p.id body focus)
          (Optimizer.evaluate (s.interrupt b) p.id body' focus)) (focus : Focus) :
    R Sequence (evaluateExtension (s.interrupt a) pragmas inner body focus)
      (evaluateExtension (s.interrupt b) pragmas inner body' focus) := by
  refine h.bind (h.forM _ hactivate) fun _ => ?_
  refine h.bind (related_evaluatePragmas s a b h henter hbody focus pragmas
    fun p hp explicit enabled context hkind => hoptimize p hp explicit enabled context hkind focus)
    fun value => ?_
  exact h.bind (h.forM _ fun p _ => related_deactivate h henter inner p) fun _ => h.pure _

end Evaluation

/-! ### Expressions -/

open Evaluation

namespace Expr

variable {R : ∀ α : Type, Evaluation α → Evaluation α → Prop} {ρ : Refit} {s : Store} {a b : Bool}
  {handling handling' : Handling}

variable (R ρ s a b handling handling') in
/-- The evaluations of an expression and of the one with details replaced, with a handling of pragmas
for each, are related. -/
def RelatedRefitWith (e : Expr) : Prop :=
  ∀ focus, R Sequence (e.evaluateWith (s.interrupt a) handling focus)
    ((e.refit ρ).evaluateWith (s.interrupt b) handling' focus)

variable (R ρ s a b handling handling') in
/-- **Where indexes, variables and pragmas come in,** the two evaluations are related. -/
structure MeetsRefitWith (e : Expr) : Prop where
  step : ∀ head ps, .expr (.step head ps) ∈ e.parts → ∀ context,
    R NodeSet (selectAxis (s.interrupt a) head context) (selectAxis (s.interrupt b) head context)
  condition : ∀ e', .expr e' ∈ e.parts → ∀ mode sequence,
    R (Option NodeSet) (applyByIndex (s.interrupt a) mode e'.probe? sequence)
      (applyByIndex (s.interrupt b) mode (e'.refit ρ).probe? sequence)
  var : ∀ name, RelatedRefitWith R ρ s a b handling handling' (.variable name)
  extension : ∀ id pragmas body, .expr (.extension id pragmas body) ∈ e.parts →
    RelatedRefitWith R ρ s a b handling handling' body →
      RelatedRefitWith R ρ s a b handling handling' (.extension id pragmas body)

theorem MeetsRefitWith.mono {e e' : Expr} (h : e.MeetsRefitWith R ρ s a b handling handling')
    (hparts : e'.parts ⊆ e.parts) : e'.MeetsRefitWith R ρ s a b handling handling' :=
  ⟨fun head ps hmem => h.step head ps (hparts hmem), fun e hmem => h.condition e (hparts hmem), h.var,
    fun id pragmas body hmem => h.extension id pragmas body (hparts hmem)⟩

theorem related_evaluateStepsWith (h : Chains R) {es : List Expr}
    (hes : ∀ e ∈ es, RelatedRefitWith R ρ s a b handling handling' e) :
    ∀ value, R Sequence (evaluateStepsWith (s.interrupt a) handling es value)
      (evaluateStepsWith (s.interrupt b) handling' (refitAll ρ es) value) := by
  induction es with
  | nil =>
    intro value
    rw [refitAll, evaluateStepsWith, evaluateStepsWith]
    exact h.pure _
  | cons e rest ih =>
    intro value
    rw [refitAll, evaluateStepsWith, evaluateStepsWith]
    split_ifs
    · exact h.pure _
    · refine h.bind (h.orFail _) fun context => h.bind (hes e List.mem_cons_self _) fun value => ?_
      exact ih (fun e he => hes e (List.mem_cons_of_mem _ he)) value

theorem related_evaluateAllWith (h : Chains R) {es : List Expr}
    (hes : ∀ e ∈ es, RelatedRefitWith R ρ s a b handling handling' e) (focus : Focus) :
    R (List Sequence) (evaluateAllWith (s.interrupt a) handling es focus)
      (evaluateAllWith (s.interrupt b) handling' (refitAll ρ es) focus) := by
  induction es with
  | nil =>
    rw [refitAll, evaluateAllWith, evaluateAllWith]
    exact h.pure _
  | cons e rest ih =>
    rw [refitAll, evaluateAllWith, evaluateAllWith]
    refine h.bind (hes e List.mem_cons_self focus) fun value => ?_
    exact h.bind (ih fun e he => hes e (List.mem_cons_of_mem _ he)) fun _ => h.pure _

theorem related_applyPredicatesWith (h : Chains R) {ps : List Predicate}
    (hindex : ∀ p ∈ ps, ∀ sequence,
      R (Option NodeSet) (applyByIndex (s.interrupt a) p.mode p.expr.probe? sequence)
        (applyByIndex (s.interrupt b) p.mode (p.expr.refit ρ).probe? sequence))
    (hps : ∀ p ∈ ps, RelatedRefitWith R ρ s a b handling handling' p.expr) (reverse : Bool) :
    ∀ value, R Sequence (applyPredicatesWith (s.interrupt a) handling ps reverse value)
      (applyPredicatesWith (s.interrupt b) handling' (refitPredicates ρ ps) reverse value) := by
  induction ps with
  | nil =>
    intro value
    rw [refitPredicates, applyPredicatesWith, applyPredicatesWith]
    exact h.pure _
  | cons p rest ih =>
    intro value
    rw [refitPredicates, applyPredicatesWith, applyPredicatesWith]
    refine h.bind (related_applyPredicate s a b h (hindex p List.mem_cons_self)
      (hps p List.mem_cons_self) _ _) fun kept => ?_
    exact ih (fun p hp => hindex p (List.mem_cons_of_mem _ hp))
      (fun p hp => hps p (List.mem_cons_of_mem _ hp)) kept

/-- **The evaluations of an expression and of the one with details replaced are related,** when
they are where indexes, variables and pragmas come in. -/
theorem related_evaluateWith_refit (h : Chains R) (e : Expr) :
    e.MeetsRefitWith R ρ s a b handling handling' →
      RelatedRefitWith R ρ s a b handling handling' e := by
  induction e using Expr.induct with
  | path id steps ih =>
    intro he focus
    have hsteps : ∀ e ∈ steps, RelatedRefitWith R ρ s a b handling handling' e := fun e hmem =>
      ih e hmem (he.mono (parts_subset_path hmem))
    rw [refit, evaluateWith, evaluateWith]
    cases steps with
    | nil =>
      rw [refitAll, evaluatePathWith, evaluatePathWith]
      exact h.pure _
    | cons first rest =>
      rw [refitAll, evaluatePathWith, evaluatePathWith]
      refine h.bind (hsteps first List.mem_cons_self focus) fun value => ?_
      exact related_evaluateStepsWith h (fun e hmem => hsteps e (List.mem_cons_of_mem _ hmem)) value
  | step head predicates ih =>
    intro he focus
    rw [refit, evaluateWith, evaluateWith, hasPositional_refit]
    refine related_evaluateStep s a b h _ (he.step head predicates (self_mem_parts _)) ?_ focus
    have hps : ∀ p ∈ predicates, p.expr.MeetsRefitWith R ρ s a b handling handling' := fun p hp =>
      he.mono (parts_subset_step hp)
    exact related_applyPredicatesWith h
      (fun p hp => (hps p hp).condition p.expr (self_mem_parts _) p.mode) fun p hp => ih p hp (hps p hp)
  | root =>
    intro _ focus
    rw [refit, evaluateWith, evaluateWith]
    exact h.bind (h.orFail _) fun _ => h.pure _
  | filter id base predicates hbase ih =>
    intro he focus
    rw [refit, evaluateWith, evaluateWith]
    have hps : ∀ p ∈ predicates, p.expr.MeetsRefitWith R ρ s a b handling handling' := fun p hp =>
      he.mono (parts_subset_filter hp)
    refine h.bind (hbase (he.mono (parts_subset_base id base predicates)) focus) ?_
    exact related_applyPredicatesWith h
      (fun p hp => (hps p hp).condition p.expr (self_mem_parts _) p.mode)
      (fun p hp => ih p hp (hps p hp)) false
  | comparison id op left right access hleft hright =>
    intro he focus
    obtain ⟨hl, hr⟩ := parts_subset_sides (show (comparison id op left right access).parts = _ from rfl)
    rw [refit, evaluateWith, evaluateWith]
    refine h.bind (hleft (he.mono hl) focus) fun left => h.bind (hright (he.mono hr) focus) fun right => ?_
    exact h.bind (h.ofStore _) fun _ => h.bind (h.ofStore _) fun _ =>
      h.bind (h.orFail _) fun _ => h.pure _
  | call id function args access ih =>
    intro he focus
    rw [refit, evaluateWith, evaluateWith]
    exact h.bind (related_evaluateAllWith h (fun e hmem => ih e hmem (he.mono (parts_subset_call hmem)))
      focus) (related_apply s a b h focus function)
  | var name => exact fun he => he.var name
  | literal value =>
    intro _ focus
    rw [refit, evaluateWith, evaluateWith]
    exact h.pure _
  | and left right hleft hright =>
    intro he focus
    obtain ⟨hl, hr⟩ := parts_subset_sides (show (and left right).parts = _ from rfl)
    rw [refit, evaluateWith, evaluateWith]
    refine h.bind (hleft (he.mono hl) focus) fun left => h.bind (h.orFail _) fun holds => ?_
    split_ifs
    · exact h.bind (hright (he.mono hr) focus) fun _ => h.bind (h.orFail _) fun _ => h.pure _
    · exact h.pure _
  | or left right hleft hright =>
    intro he focus
    obtain ⟨hl, hr⟩ := parts_subset_sides (show (or left right).parts = _ from rfl)
    rw [refit, evaluateWith, evaluateWith]
    refine h.bind (hleft (he.mono hl) focus) fun left => h.bind (h.orFail _) fun holds => ?_
    split_ifs
    · exact h.pure _
    · exact h.bind (hright (he.mono hr) focus) fun _ => h.bind (h.orFail _) fun _ => h.pure _
  | sequence items ih =>
    intro he focus
    rw [refit, evaluateWith, evaluateWith]
    exact h.bind (related_evaluateAllWith h
      (fun e hmem => ih e hmem (he.mono (parts_subset_sequence hmem))) focus) fun _ => h.pure _
  | extension id pragmas body ih =>
    intro he
    exact he.extension id pragmas body (self_mem_parts _)
      (ih (he.mono (parts_subset_extension id pragmas body)))

/-! ### Evaluation for a handling -/

variable (R ρ s a b) in
/-- The evaluations of an expression and of the one with details replaced are related. -/
def RelatedRefit (e : Expr) : Prop :=
  ∀ focus, R Sequence (e.evaluate (s.interrupt a) focus) ((e.refit ρ).evaluate (s.interrupt b) focus)

variable (R ρ s a b) in
/-- **Where indexes, variables and pragmas come in,** the two evaluations are related. -/
structure MeetsRefit (e : Expr) : Prop where
  step : ∀ head ps, .expr (.step head ps) ∈ e.parts → ∀ context,
    R NodeSet (selectAxis (s.interrupt a) head context) (selectAxis (s.interrupt b) head context)
  condition : ∀ e', .expr e' ∈ e.parts → ∀ mode sequence,
    R (Option NodeSet) (applyByIndex (s.interrupt a) mode e'.probe? sequence)
      (applyByIndex (s.interrupt b) mode (e'.refit ρ).probe? sequence)
  var : ∀ name, RelatedRefit R ρ s a b (.variable name)
  extension : ∀ id pragmas body, .expr (.extension id pragmas body) ∈ e.parts →
    RelatedRefit R ρ s a b body → RelatedRefit R ρ s a b (.extension id pragmas body)

theorem relatedRefitWith_extension {e : Expr} :
    RelatedRefitWith R ρ s a b (evaluateExtension (s.interrupt a)) (evaluateExtension (s.interrupt b)) e ↔
      RelatedRefit R ρ s a b e := by
  unfold RelatedRefitWith RelatedRefit
  rw [evaluateWith_extension, evaluateWith_extension]

theorem related_applyPredicates (h : Chains R) {ps : List Predicate}
    (hindex : ∀ p ∈ ps, ∀ sequence,
      R (Option NodeSet) (applyByIndex (s.interrupt a) p.mode p.expr.probe? sequence)
        (applyByIndex (s.interrupt b) p.mode (p.expr.refit ρ).probe? sequence))
    (hps : ∀ p ∈ ps, RelatedRefit R ρ s a b p.expr) (reverse : Bool) (value : Sequence) :
    R Sequence (applyPredicates (s.interrupt a) ps reverse value)
      (applyPredicates (s.interrupt b) (refitPredicates ρ ps) reverse value) := by
  rw [← applyPredicatesWith_extension, ← applyPredicatesWith_extension]
  exact related_applyPredicatesWith h hindex
    (fun p hp => relatedRefitWith_extension.2 (hps p hp)) reverse value

/-- **The evaluations of an expression and of the one with details replaced are related,** when
they are where indexes, variables and pragmas come in. -/
theorem related_evaluate_refit (h : Chains R) (e : Expr) (he : e.MeetsRefit R ρ s a b) :
    RelatedRefit R ρ s a b e :=
  relatedRefitWith_extension.1 (related_evaluateWith_refit h e
    ⟨he.step, he.condition, fun name => relatedRefitWith_extension.2 (he.var name),
      fun id pragmas body hmem hbody => relatedRefitWith_extension.2
        (he.extension id pragmas body hmem (relatedRefitWith_extension.1 hbody))⟩)

/-! ### One expression on both sides -/

variable (R s a b) in
/-- The two evaluations of an expression are related. -/
def Related (e : Expr) : Prop :=
  ∀ focus, R Sequence (e.evaluate (s.interrupt a) focus) (e.evaluate (s.interrupt b) focus)

theorem relatedRefit_none {e : Expr} : RelatedRefit R .none s a b e ↔ Related R s a b e := by
  unfold RelatedRefit Related
  rw [refit_none]

variable (R s a b) in
/-- **Where indexes come in, the two evaluations of an expression are related.** -/
structure MeetsIndexes (e : Expr) : Prop where
  step : ∀ head ps, .expr (.step head ps) ∈ e.parts → ∀ context,
    R NodeSet (selectAxis (s.interrupt a) head context) (selectAxis (s.interrupt b) head context)
  condition : ∀ e', .expr e' ∈ e.parts → ∀ mode sequence,
    R (Option NodeSet) (applyByIndex (s.interrupt a) mode e'.probe? sequence)
      (applyByIndex (s.interrupt b) mode e'.probe? sequence)
  extension : ∀ id pragmas body, .expr (.extension id pragmas body) ∈ e.parts →
    Related R s a b body → Related R s a b (.extension id pragmas body)

/-- **The two evaluations of an expression are related,** when they are where indexes come in. -/
theorem related_evaluate (h : Composes R) (e : Expr) (he : e.MeetsIndexes R s a b) :
    Related R s a b e := by
  refine relatedRefit_none.1 (related_evaluate_refit h.toChains e ⟨he.step, ?_, ?_, ?_⟩)
  · intro e' hmem
    rw [refit_none]
    exact he.condition e' hmem
  · intro name focus
    rw [refit, evaluate, evaluate]
    exact h.bind h.queryContext fun _ => h.orFail _
  · intro id pragmas body hmem hbody
    exact relatedRefit_none.2 (he.extension id pragmas body hmem (relatedRefit_none.1 hbody))

end Expr
end IndexedXml
