/-
# Evaluation with another handling of pragmas

A handling says how an expression is evaluated that has pragmas (`Expr.evaluateWith`).  What is
proved for two handlings, or for one, follows the expression: a relation between computations that
goes with putting them one after the other holds of the two evaluations, as soon as it holds where
indexes, variables and pragmas come in (`Expr.related_evaluateWith`).

Apart from pragmas, evaluation changes a context only by noting uses of indexes, which is one of the
changes that are allowed in each case (`Allows`).
-/

import IndexedXml.Proofs.Query.Agreement
import IndexedXml.Proofs.Query.Kept
import IndexedXml.Proofs.Query.Related

namespace IndexedXml

open Evaluation

/-! ### How computations move contexts -/

namespace Evaluation

/-- **A way for contexts to change** that goes with doing nothing, with one change after the other,
and with noting the use of an index. -/
structure Allows (R : QueryContext → QueryContext → Prop) : Prop where
  refl : ∀ c, R c c
  trans : ∀ {a b c}, R a b → R b c → R a c
  note : ∀ c id, R c (c.noteIndexUse id)

variable {α β : Type} {R : QueryContext → QueryContext → Prop}

/-- A computation changes contexts in such a way only, however it ends. -/
def Moves (R : QueryContext → QueryContext → Prop) (m : Evaluation α) : Prop :=
  ∀ r, R r.context (m.after r).context

theorem Moves.update {f : QueryContext → QueryContext} (h : ∀ c, R c (f c)) :
    Moves R (update f) := fun r => h r.context

theorem Allows.moves_preloading (h : Allows R) {step : ExprId} {candidates : NodeSet}
    {m : Evaluation α} (hload : ∀ c, R c (c.preload step candidates))
    (hunload : ∀ c, R c (c.unload step)) (hm : Moves R m) :
    Moves R (preloading step candidates m) :=
  fun r => h.trans (hload r.context)
    (h.trans (hm { r with context := r.context.preload step candidates }) (hunload _))

theorem Allows.moves_bind (h : Allows R) {m : Evaluation α} {f : α → Evaluation β} (hm : Moves R m)
    (hf : ∀ a, Moves R (f a)) : Moves R (m >>= f) := by
  intro r
  rw [after_bind]
  cases m.result r with
  | error e => exact hm r
  | ok a => exact h.trans (hm r) (hf a _)

theorem Allows.composes (h : Allows R) : Composes fun _ m _ => Moves R m where
  pure _ r := h.refl r.context
  orFail _ r := h.refl r.context
  queryContext r := h.refl r.context
  bind hm hf := h.moves_bind hm hf

theorem Allows.steady (h : Allows R) (c : QueryContext) :
    Steady (fun _ => True) (fun r r' => r = r' ∧ R c r.context) (fun _ => True) where
  count := by
    rintro kind r _ ⟨rfl, hr⟩
    exact ⟨rfl, hr⟩
  note := by
    rintro id r _ ⟨rfl, hr⟩
    exact ⟨rfl, h.trans hr (h.note r.context id)⟩
  value := by
    rintro r _ ⟨rfl, _⟩ name
    exact ⟨rfl, fun _ _ => trivial⟩
  prepared := by
    rintro r _ ⟨rfl, _⟩ id _
    rfl
  set _ := trivial
  items _ := trivial

/-- What ends alike from runs whose contexts have changed in such a way changes contexts so. -/
theorem Allows.moves (h : Allows R) {P : α → Prop} {m : Evaluation α}
    (hm : ∀ c, Alike (fun r r' => r = r' ∧ R c r.context) P m m) : Moves R m :=
  fun r => (hm r.context r r ⟨rfl, h.refl r.context⟩).2.1.2

theorem Allows.moves_selectAxis (h : Allows R) (s : Store) (head : StepHead) (context : NodeSet) :
    Moves R (selectAxis s head context) :=
  h.moves fun c => alike_selectAxis (h.steady c) s trivial context

theorem Allows.moves_applyByIndex (h : Allows R) (s : Store) (mode : PredicateMode)
    (probe : Option (ExprId × IndexProbe)) (sequence : Sequence) :
    Moves R (applyByIndex s mode probe sequence) :=
  h.moves fun c => alike_applyByIndex (h.steady c) s mode probe sequence

theorem Allows.moves_rounds (h : Allows R) (s : Store) (step : Option ContextStep)
    (context : NodeSet) (optimizables : List Optimizable) :
    Moves R (Narrowing.rounds s step context optimizables) :=
  h.moves fun c => alike_rounds (h.steady c) s step context optimizables

end Evaluation

/-! ### Two handlings of one expression -/

namespace Expr

section

variable {R : ∀ α : Type, Evaluation α → Evaluation α → Prop} {s : Store}
  {handling handling' : Handling}

variable (R s handling handling') in
/-- The evaluations of an expression with two handlings are related. -/
def RelatedWith (e : Expr) : Prop :=
  ∀ focus, R Sequence (e.evaluateWith s handling focus) (e.evaluateWith s handling' focus)

variable (R s handling handling') in
/-- **Where indexes, variables and pragmas come in,** the evaluations with two handlings are
related. -/
structure MeetsHandlings (e : Expr) : Prop where
  step : ∀ head context, R NodeSet (selectAxis s head context) (selectAxis s head context)
  condition : ∀ mode probe sequence,
    R (Option NodeSet) (applyByIndex s mode probe sequence) (applyByIndex s mode probe sequence)
  var : ∀ name, RelatedWith R s handling handling' (.variable name)
  extension : ∀ id pragmas body, .expr (.extension id pragmas body) ∈ e.parts →
    RelatedWith R s handling handling' body →
      RelatedWith R s handling handling' (.extension id pragmas body)

theorem relatedRefitWith_none {e : Expr} :
    RelatedRefitWith R .none s s.interrupted s.interrupted handling handling' e ↔
      RelatedWith R s handling handling' e := by
  unfold RelatedRefitWith
  rw [refit_none]
  exact Iff.rfl

/-- **The evaluations of an expression with two handlings are related,** when they are where
indexes, variables and pragmas come in. -/
theorem related_evaluateWith (h : Chains R) (e : Expr)
    (he : e.MeetsHandlings R s handling handling') : RelatedWith R s handling handling' e := by
  refine relatedRefitWith_none.1 (related_evaluateWith_refit h e ⟨?_, ?_, ?_, ?_⟩)
  · exact fun head _ _ => he.step head
  · intro e' _ mode
    rw [refit_none]
    exact he.condition mode _
  · exact fun name => relatedRefitWith_none.2 (he.var name)
  · intro id pragmas body hmem hbody
    exact relatedRefitWith_none.2 (he.extension id pragmas body hmem (relatedRefitWith_none.1 hbody))

end

end Expr

/-! ### Two strategies -/

section

variable {R : ∀ α : Type, Evaluation α → Evaluation α → Prop} {strategy strategy' : Strategy}
  {evaluate evaluate' : Focus → Evaluation Sequence} {focus : Focus}

theorem Evaluation.related_evaluatePragmasBy (h : Chains R)
    (henter : ∀ id phase, R Unit (update (·.enter id phase)) (update (·.enter id phase)))
    (hbody : R Sequence (evaluate focus) (evaluate' focus))
    (hstrategies : ∀ id, R Sequence (strategy id evaluate focus) (strategy' id evaluate' focus))
    (ps : List Pragma) :
    R Sequence (evaluatePragmasBy strategy evaluate focus ps)
      (evaluatePragmasBy strategy' evaluate' focus ps) := by
  induction ps with
  | nil => exact hbody
  | cons p rest ih =>
    refine h.bind (henter p.id .evaluating) fun _ => ?_
    split
    · exact hstrategies p.id
    · exact ih

variable (strategy strategy') in
/-- **The evaluations of an expression with two strategies are related,** when they are where
indexes come in, where pragmas are activated, and by the strategies. -/
theorem Expr.related_evaluateBy (h : Composes R) {s : Store} (e : Expr)
    (hstep : ∀ head context, R NodeSet (selectAxis s head context) (selectAxis s head context))
    (hcondition : ∀ mode probe sequence,
      R (Option NodeSet) (applyByIndex s mode probe sequence) (applyByIndex s mode probe sequence))
    (henter : ∀ id phase, R Unit (update (·.enter id phase)) (update (·.enter id phase)))
    (hactivate : ∀ id ps body, .expr (.extension id ps body) ∈ e.parts → ∀ p ∈ ps,
      R Unit (activate body p) (activate body p))
    (hstrategies : ∀ id evaluate evaluate',
      (∀ focus, R Sequence (evaluate focus) (evaluate' focus)) →
        ∀ focus, R Sequence (strategy id evaluate focus) (strategy' id evaluate' focus))
    (focus : Focus) :
    R Sequence (e.evaluateBy s strategy focus) (e.evaluateBy s strategy' focus) := by
  rw [← evaluateWith_by, ← evaluateWith_by]
  refine related_evaluateWith h.toChains e ⟨hstep, hcondition, fun name focus => ?_,
    fun id ps body hpart hbody focus => ?_⟩ focus
  · rw [evaluateWith, evaluateWith]
    exact h.bind h.queryContext fun _ => h.orFail _
  · rw [evaluateWith, evaluateWith]
    refine h.bind (h.forM _ (hactivate id ps body hpart)) fun _ => ?_
    refine h.bind (related_evaluatePragmasBy h.toChains henter (hbody focus)
      (fun id => hstrategies id _ _ hbody focus) ps) fun value => ?_
    exact h.bind (h.forM _ fun p _ => related_deactivate h henter body p) fun _ => h.pure _

end

/-- **Evaluation changes contexts in an allowed way,** when activation does, the strategy does, and
entering a phase is allowed. -/
theorem Evaluation.Allows.moves_evaluateBy {R : QueryContext → QueryContext → Prop} (h : Allows R)
    {s : Store} {strategy : Strategy} (e : Expr) (henter : ∀ c id phase, R c (c.enter id phase))
    (hactivate : ∀ id ps body, .expr (.extension id ps body) ∈ e.parts → ∀ p ∈ ps,
      Moves R (activate body p))
    (hstrategy : ∀ id evaluate, (∀ focus, Moves R (evaluate focus)) →
      ∀ focus, Moves R (strategy id evaluate focus)) (focus : Focus) :
    Moves R (e.evaluateBy s strategy focus) :=
  Expr.related_evaluateBy (R := fun _ m _ => Moves R m) strategy strategy h.composes e
    (h.moves_selectAxis s) (h.moves_applyByIndex s) (fun id phase => .update (henter · id phase))
    hactivate (fun id evaluate _ => hstrategy id evaluate) focus

/-! ### Contexts with their past -/

/-- An evaluation that has been asked for: on a store, for a focus, and from a run. -/
structure Occasion where
  /-- The store, as it was then. -/
  store : Store
  /-- What was evaluated for. -/
  focus : Focus
  /-- The run before the evaluation. -/
  run : Run

/-- **A context has seen certain evaluations of a query,** the last one first: since it was new
nothing has happened to it but these, on whatever stores and with whatever outcome, declarations of
variables and resets. -/
inductive QueryContext.HasSeen (q : CompiledQuery) : List Occasion → QueryContext → Prop
  | new : HasSeen q [] .empty
  | declare {past : List Occasion} {c : QueryContext} (name : String) (value : Sequence)
    (h : HasSeen q past c) : HasSeen q past (c.declare name value)
  | reset {past : List Occasion} {c : QueryContext} (h : HasSeen q past c) : HasSeen q past c.reset
  | evaluate {past : List Occasion} {c : QueryContext} (s : Store) (focus : Focus)
    (counts : LookupCounts) (h : HasSeen q past c) :
    HasSeen q (⟨s, focus, ⟨c, counts⟩⟩ :: past) ((q.evaluate s focus).after ⟨c, counts⟩).context

end IndexedXml
