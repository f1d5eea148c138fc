/-
# Checking the uses of indexes

The pragma `force-index-use` asks of the conditions below it whether each has used an index.  What
it is told are notes in the query context, which outlive evaluations, and a pragma further inside
forgets some of them again.  Still every such pragma judges the evaluation that has just run and
nothing else (`Evaluation.result_evaluateExtension`): the notes it finds are those that the same
evaluation makes when it starts without any and nobody forgets or asks for them.  So notes that are
left over from before never show in an outcome (`CompiledQuery.evaluate_judges_own_uses`).

That nothing is lost by forgetting is due to the pragmas inside: what one of them forgets it asks
for later, and it fails unless all of that has been noted anew.
-/

import IndexedXml.Proofs.Query.Answers
import IndexedXml.Proofs.Query.Parallel

namespace IndexedXml

open Evaluation

variable {ρ : Refit} {s : Store} {pragmas : List Pragma} {body : Expr} {focus : Focus} {r : Run}

/-! ### Two ledgers -/

/-- Both sides check uses, and they have noted the same of what has been asked for. -/
def Ledger.agreeing (hchecks : ρ.checks = true) : Ledger ρ where
  agree asked _ b b' := asked → b = b'
  both _ _ _ := rfl
  forget _ _ _ _ _ _ := by rw [if_pos hchecks]
  settle _ _ _ h _ := h trivial
  told _ _ _ _ h := h trivial

/-- **The right side records all uses from the beginning on.**  What is noted on the left has been
there before or is recorded, and what is recorded is noted, too, unless it has been forgotten and
is still asked for. -/
def Ledger.recording (before : ExprId → Prop) : Ledger .unchecked where
  agree asked id b b' := (b = true → before id ∨ b' = true) ∧ (¬ asked → b' = true → b = true)
  both _ _ := ⟨fun _ => .inr rfl, fun _ _ => rfl⟩
  forget _ _ _ _ _ := ⟨nofun, fun h => absurd trivial h⟩
  settle _ _ _ h := ⟨h.1, fun _ _ => rfl⟩
  told := nofun

namespace OptimizeState

/-- Where no axis is replaced, nothing is in what optimizers find out. -/
theorem refit_of_axis (hρ : ρ.axis = id) (state : OptimizeState) : state.refit ρ = state := by
  have hoptimizable : ∀ o : Optimizable, o.refit ρ = o := by
    intro o
    rw [Optimizable.refit, IndexProbe.refit, hρ]
    rfl
  rw [refit, funext hoptimizable, List.map_id']

theorem map_refit_of_axis (hρ : ρ.axis = id) (state : Option OptimizeState) :
    state.map (refit ρ) = state := by
  rw [funext (refit_of_axis hρ), Option.map_id']

end OptimizeState

/-- What mirrors a computation in all its failures has the same outcome. -/
theorem Evaluation.Mirrors.result_eq {α : Type} {R S : QueryContext → QueryContext → Prop}
    {m m' : Evaluation α} (h : Mirrors R S (fun _ => True) m m') {r r' : Run}
    (hR : R r.context r'.context) : m.result r = m'.result r' := by
  obtain ⟨hvalue, hfailure⟩ := h r r' hR
  cases hr : m.result r with
  | error e => exact (hfailure e trivial hr).symm
  | ok a => exact (hvalue a hr).1.symm

/-- **An outcome depends on a context by its variables,** by what optimizers have found out and by the
candidates for the steps of the expression, but not by notes of uses, phases and counts. -/
theorem Expr.result_evaluate_congr {r r' : Run} (e : Expr)
    (hbindings : r.context.bindings = r'.context.bindings)
    (hoptimizers : r'.context.optimizers = r.context.optimizers)
    (hprepared : ∀ head predicates, .expr (.step head predicates) ∈ e.parts →
      r.context.preloaded.get? head.id = r'.context.preloaded.get? head.id) :
    (e.evaluate s focus).result r = (e.evaluate s focus).result r' := by
  have hmirrors := e.mirrors_evaluate (E := fun _ => True) (.agreeing (ρ := .none) rfl) (.inl rfl) s
    (J := fun id => r.context.preloaded.get? id = r'.context.preloaded.get? id) hprepared
    (fun _ => False) focus
  rw [refit_none] at hmirrors
  refine hmirrors.result_eq ⟨hbindings, fun _ hid => hid, fun id => ?_, fun _ h => h.elim⟩
  rw [QueryContext.optimizer?, hoptimizers]
  exact (OptimizeState.map_refit_of_axis rfl _).symm

/-- **Notes of uses never show in an outcome** when nothing has been asked for yet. -/
theorem Expr.result_evaluate_of_uses (e : Expr) (c : QueryContext) (uses : List ExprId)
    (counts counts' : LookupCounts) :
    (e.evaluate s focus).result ⟨c, counts⟩ =
      (e.evaluate s focus).result ⟨{ c with usedIndexes := uses }, counts'⟩ :=
  e.result_evaluate_congr rfl rfl fun _ _ _ => rfl

/-! ### One pragma -/

/-- A run without notes of uses. -/
def Run.withoutUses (r : Run) : Run := { r with context := { r.context with usedIndexes := [] } }

namespace Evaluation

/-- The run in which the pragmas of an expression have been activated. -/
def activatedRun (pragmas : List Pragma) (body : Expr) (r : Run) : Run :=
  (pragmas.forM (activate body)).after r

/-- What is below pragmas is evaluated, and no pragma in it forgets or asks for uses of
indexes. -/
def evaluateUnchecked (s : Store) (pragmas : List Pragma) (body : Expr) (focus : Focus) :
    Evaluation Sequence :=
  evaluatePragmas s ((body.refit .unchecked).evaluate s) focus pragmas

/-- **The conditions whose use of an index is recorded** while what is below pragmas is
evaluated. -/
def recordedUses (s : Store) (pragmas : List Pragma) (body : Expr) (focus : Focus) (r : Run) :
    List ExprId :=
  ((evaluateUnchecked s pragmas body focus).after r.withoutUses).context.usedIndexes

theorem result_activate (body : Expr) (p : Pragma) (r : Run) : (activate body p).result r = .ok () := by
  unfold activate
  cases p.kind <;> rfl

theorem hasUsedIndex_activate (body : Expr) (p : Pragma) (r : Run) (id : ExprId) :
    ((activate body p).after r).context.hasUsedIndex id =
      (r.context.hasUsedIndex id && !(asksForUse [p] && body.reporters.elem id)) := by
  rcases p with ⟨pragma, name, contents, kind, analyzed⟩
  cases kind with
  | optimize explicit enabled contextId =>
    rw [activate_optimize rfl]
    change (activated r.context _ enabled body).hasUsedIndex id = _
    unfold activated
    cases r.context.optimizer? pragma <;> exact (Bool.and_true _).symm
  | noIndex => exact (Bool.and_true _).symm
  | forceIndexUse => exact hasUsedIndex_forgetIndexUse r.context body.reporters id

/-- **Activation never fails,** and where uses are asked for, it forgets them. -/
theorem hasUsedIndex_activations (body : Expr) (pragmas : List Pragma) :
    ∀ r, (pragmas.forM (activate body)).result r = .ok () ∧
      ∀ id, (activatedRun pragmas body r).context.hasUsedIndex id =
        (r.context.hasUsedIndex id && !(asksForUse pragmas && body.reporters.elem id)) := by
  induction pragmas with
  | nil => exact fun r => ⟨rfl, fun id => (Bool.and_true _).symm⟩
  | cons p rest ih =>
    intro r
    obtain ⟨hresult, hused⟩ := ih ((activate body p).after r)
    have hcons : (p :: rest).forM (activate body) =
        (activate body p >>= fun _ => rest.forM (activate body)) := rfl
    have hasks : asksForUse (p :: rest) = (asksForUse [p] || asksForUse rest) := by
      simp [asksForUse]
    have hafter : activatedRun (p :: rest) body r =
        activatedRun rest body ((activate body p).after r) := by
      rw [activatedRun, hcons, after_bind, result_activate]
      rfl
    refine ⟨by rw [hcons, result_bind, result_activate]; exact hresult, fun id => ?_⟩
    rw [hafter, hused, hasUsedIndex_activate, hasks, Bool.and_or_distrib_right, Bool.not_or,
      Bool.and_assoc]

/-- **An expression below pragmas ends** as what is below them does, unless the pragmas ask for
uses of indexes and not all of them are noted then. -/
theorem result_evaluateExtension_of_uses (evaluate : Focus → Evaluation Sequence) :
    (evaluateExtension s pragmas body evaluate focus).result r =
      (evaluatePragmas s evaluate focus pragmas).result (activatedRun pragmas body r) >>= fun v =>
        if asksForUse pragmas = true ∧
            allUseIndexes ((evaluatePragmas s evaluate focus pragmas).after
              (activatedRun pragmas body r)).context body = false then
          .error (.indexNotUsed body.text)
        else .ok v := by
  unfold evaluateExtension activatedRun
  rw [result_bind, (hasUsedIndex_activations body pragmas r).1, ok_bind, result_bind]
  refine bind_congr fun v => ?_
  rw [result_bind, result_deactivations]
  split_ifs <;> rfl

/-- **What is noted at the end is what is recorded:** where uses are asked for, the evaluation in
which nobody forgets or asks for any has the same value, and it records the uses of just those
conditions that are noted then. -/
theorem recordedUses_iff (hasks : asksForUse pragmas = true) {v : Sequence}
    (hv : (evaluatePragmas s (body.evaluate s) focus pragmas).result
      (activatedRun pragmas body r) = .ok v) :
    (evaluateUnchecked s pragmas body focus).result (activatedRun pragmas body r).withoutUses =
        .ok v ∧
      ∀ id ∈ body.reporters,
        ((evaluatePragmas s (body.evaluate s) focus pragmas).after
            (activatedRun pragmas body r)).context.hasUsedIndex id = true ↔
          id ∈ recordedUses s pragmas body focus (activatedRun pragmas body r) := by
  let before : ExprId → Prop := fun id =>
    (activatedRun pragmas body r).context.hasUsedIndex id = true
  have hstart : Parallel .unchecked (.recording before) (fun _ => True) (fun _ => False)
      (activatedRun pragmas body r).context (activatedRun pragmas body r).withoutUses.context :=
    ⟨rfl, fun _ _ => rfl, fun _ => (OptimizeState.map_refit_of_axis rfl _).symm,
      fun _ => ⟨.inl, fun _ h => nomatch h⟩⟩
  have hmirrors := mirrors_evaluatePragmas (E := fun _ => False) (s := s)
    (fun focus => body.mirrors_evaluate (.recording before) (.inr fun _ => id) s
      (J := fun _ => True) (fun _ _ _ => trivial) (fun _ => False) focus) focus pragmas
  obtain ⟨hresult, hend⟩ := (hmirrors _ _ hstart).1 v hv
  refine ⟨hresult, fun id hid => ?_⟩
  obtain ⟨hnoted, hrecorded⟩ := hend.used id
  have hforgotten : ¬ before id := by
    change ¬ (activatedRun pragmas body r).context.hasUsedIndex id = true
    rw [(hasUsedIndex_activations body pragmas r).2, hasks, List.elem_eq_true_of_mem hid]
    simp
  have hmem : id ∈ recordedUses s pragmas body focus (activatedRun pragmas body r) ↔
      ((evaluateUnchecked s pragmas body focus).after
        (activatedRun pragmas body r).withoutUses).context.hasUsedIndex id = true := by
    rw [recordedUses, QueryContext.hasUsedIndex, List.elem_eq_mem, decide_eq_true_iff]
  rw [hmem]
  exact ⟨fun h => (hnoted h).resolve_left hforgotten, hrecorded not_false⟩

end Evaluation

/-! ### Queries -/

namespace CompiledQuery

/-- **The pragma `force-index-use` judges only the evaluation that has just run.**

Whatever uses of indexes a query context has noted before, a query has the same outcome.

An expression with the pragma, alone or beside others, anywhere in a query and in whatever run it
is come to, fails as what is below its pragmas fails.  Where that has a value, the evaluation from
the same run in which no pragma inside forgets or asks for uses has the same value, and the
expression has that value if it contains conditions that report uses, at any depth, and each of
them is recorded in that evaluation; otherwise it fails with `EXXQDY0004`. -/
theorem evaluate_judges_own_uses (q : CompiledQuery) (s : Store) (focus : Focus) :
    (∀ c uses counts counts',
      (q.evaluate s focus).result ⟨c, counts⟩ =
        (q.evaluate s focus).result ⟨{ c with usedIndexes := uses }, counts'⟩) ∧
    ∀ id pragmas body, .expr (.extension id pragmas body) ∈ q.root.parts →
      asksForUse pragmas = true → ∀ focus r,
      (∀ e, (evaluatePragmas s (body.evaluate s) focus pragmas).result
          (activatedRun pragmas body r) = .error e →
        ((Expr.extension id pragmas body).evaluate s focus).result r = .error e) ∧
      ∀ v, (evaluatePragmas s (body.evaluate s) focus pragmas).result
          (activatedRun pragmas body r) = .ok v →
        (evaluateUnchecked s pragmas body focus).result (activatedRun pragmas body r).withoutUses =
            .ok v ∧
          (body.reporters ≠ [] ∧ (∀ reporter ∈ body.reporters,
              reporter ∈ recordedUses s pragmas body focus (activatedRun pragmas body r)) →
            ((Expr.extension id pragmas body).evaluate s focus).result r = .ok v) ∧
          (¬ (body.reporters ≠ [] ∧ (∀ reporter ∈ body.reporters,
              reporter ∈ recordedUses s pragmas body focus (activatedRun pragmas body r))) →
            ∃ e, ((Expr.extension id pragmas body).evaluate s focus).result r = .error e ∧
              e.code = .EXXQDY0004) := by
  refine ⟨q.root.result_evaluate_of_uses, fun id pragmas body _ hasks focus r => ?_⟩
  rw [Expr.evaluate, result_evaluateExtension_of_uses]
  refine ⟨fun e he => ?_, fun v hv => ?_⟩
  · rw [he]
    rfl
  obtain ⟨hunchecked, hrecorded⟩ := recordedUses_iff hasks hv
  have hall : allUseIndexes ((evaluatePragmas s (body.evaluate s) focus pragmas).after
        (activatedRun pragmas body r)).context body = true ↔
      body.reporters ≠ [] ∧ ∀ reporter ∈ body.reporters,
        reporter ∈ recordedUses s pragmas body focus (activatedRun pragmas body r) := by
    rw [allUseIndexes, Bool.and_eq_true, List.all_eq_true, Bool.not_eq_true',
      List.isEmpty_eq_false_iff]
    exact and_congr_right fun _ => forall₂_congr hrecorded
  rw [hv, ok_bind]
  refine ⟨hunchecked, fun huses => ?_, fun huses => ⟨.indexNotUsed body.text, ?_, rfl⟩⟩
  · rw [if_neg fun h => Bool.false_ne_true (h.2.symm.trans (hall.2 huses))]
  · rw [if_pos ⟨hasks, Bool.eq_false_iff.2 fun h => huses (hall.1 h)⟩]

/-- The pragmas of an expression and what is below them, if it has any. -/
def belowPragmas? : Expr → Option (List Pragma × Expr)
  | .extension _ pragmas body => some (pragmas, body)
  | _ => none

/-- A comparison that no index answers, although the uses noted from before are those that the
pragma asks for. -/
theorem evaluate_judges_own_uses_leftover : ∃ q id pragmas body e,
    compile "(# exist:force-index-use #) \x7b 1 = 1 \x7d" .standard = .ok q ∧
      .expr (.extension id pragmas body) ∈ q.root.parts ∧ asksForUse pragmas = true ∧
      body.reporters ≠ [] ∧
      ((Expr.extension id pragmas body).evaluate .empty (.on .empty)).result
        ⟨{ QueryContext.empty with usedIndexes := body.reporters }, .zero⟩ = .error e ∧
      e.code = .EXXQDY0004 := by
  let leftover (body : Expr) : Run :=
    ⟨{ QueryContext.empty with usedIndexes := body.reporters }, .zero⟩
  let leftOut (pragmas : List Pragma) (body : Expr) : Bool :=
    asksForUse pragmas && !body.reporters.isEmpty && (body.reporters.all fun id =>
      !(recordedUses .empty pragmas body (.on .empty)
        (activatedRun pragmas body (leftover body))).elem id) &&
    ((evaluatePragmas .empty (body.evaluate .empty) (.on .empty) pragmas).result
      (activatedRun pragmas body (leftover body))).toBool
  have hcompiles : (compile "(# exist:force-index-use #) \x7b 1 = 1 \x7d" .standard).map (fun q =>
      (belowPragmas? q.root).map fun below => leftOut below.1 below.2) = .ok (some true) := by
    decide +kernel
  obtain ⟨q, hq, hfacts⟩ := map_eq_ok.1 hcompiles
  obtain ⟨e, source⟩ := q
  cases e with
  | extension id pragmas body =>
    have hfacts : leftOut pragmas body = true := Option.some.inj hfacts
    simp only [leftOut, Bool.and_eq_true, List.all_eq_true, Bool.not_eq_true', List.isEmpty_eq_false_iff]
      at hfacts
    obtain ⟨⟨⟨hasks, hne⟩, hnone⟩, hvalue⟩ := hfacts
    cases hv : (evaluatePragmas .empty (body.evaluate .empty) (.on .empty) pragmas).result
        (activatedRun pragmas body (leftover body)) with
    | error e =>
      rw [hv] at hvalue
      cases hvalue
    | ok v =>
      have hpart := Expr.self_mem_parts (.extension id pragmas body)
      obtain ⟨-, -, hfails⟩ := ((evaluate_judges_own_uses ⟨_, source⟩ .empty (.on .empty)).2 id pragmas
        body hpart hasks (.on .empty) (leftover body)).2 v hv
      obtain ⟨reporter, hreporter⟩ := List.exists_mem_of_ne_nil _ hne
      obtain ⟨e, he, hcode⟩ := hfails fun h => by
        have hnot := hnone reporter hreporter
        rw [List.elem_eq_true_of_mem (h.2 reporter hreporter)] at hnot
        cases hnot
      exact ⟨_, id, pragmas, body, e, hq, hpart, hasks, hne, he, hcode⟩
  | _ => cases hfacts

end CompiledQuery
end IndexedXml
