/-
# Captured variables

When an expression filters the value of a variable, the pragma `optimize` narrows this value in
place of the context.  An expression that does not look at its context has the same items all the
same.  Any other has them when the value stands for the context (`StandsFor`): when it is a part of
the context with all hits, or, where candidates are prepared for a step, when the documents of the
context are among its own.  Without a context the value is what the expression is evaluated for
after a verdict that is not positive, or without a context step, and the lack of a context goes
unnoticed (`Expr.evaluate_optimize_of_captured`).
-/

import IndexedXml.Proofs.Query.Nowhere
import IndexedXml.Proofs.Query.Positions

namespace IndexedXml

open Evaluation Setting

variable {s : Store} {σ : Setting}

/-! ### What is narrowed -/

/-- What a positive verdict is on is a node set. -/
theorem exists_nodes_of_verdict {w : Sequence} {optimizables : List Optimizable}
    (h : verdict s (some w) optimizables = .ok true) : ∃ shared, w = .nodes shared := by
  obtain ⟨hne, hcovers⟩ := coversAll_of_verdict h
  obtain ⟨o, ho⟩ := List.exists_mem_of_ne_nil _ hne
  by_contra hnodes
  have hnone := IndexProbe.coversAll_of_not_nodes o.probe s fun shared (h : some w = some (.nodes shared)) =>
    hnodes ⟨shared, Option.some.inj h⟩
  cases (hcovers o ho).symm.trans hnone

namespace Optimizer

variable {focus : Focus}

theorem contextOf_eq_none_iff : contextOf s focus = none ↔ focus = .nowhere := by
  obtain ⟨context, item⟩ := focus
  cases item with
  | some item => cases item <;> exact ⟨fun h => (nomatch h), fun h => nomatch congrArg Focus.item h⟩
  | none => exact ⟨fun h => congrArg (Focus.mk · none) h, fun h => congrArg Focus.context h⟩

/-- **A context that is judged** is none at all, or a set that the store has handed out. -/
theorem exists_nodes_of_isPersistent {context : Option Sequence}
    (h : (context.map Sequence.isPersistent).getD true = true) :
    context = none ∨ ∃ shared, context = some (.nodes shared) ∧ shared.set.persistent = true := by
  cases context with
  | none => exact .inl rfl
  | some v =>
    cases v with
    | nodes shared => exact .inr ⟨shared, rfl, h⟩
    | items list => cases h

/-- **Where a variable is captured its value is judged.** -/
theorem opinionOn_captured {bindings : List (String × Sequence)} {body : Expr} {name : String}
    {w : Sequence} {b : Bool} {context : Option Sequence}
    (hcaptured : body.contextVariable? = some name) (hvalue : valueIn bindings name = .ok w)
    (hverdict : verdict s (some w) body.conditions = .ok b)
    (hstored : (context.map Sequence.isPersistent).getD true = true) :
    opinionOn s bindings (.discover body) context = .ok (context.bind sharedOf?, some w, b) := by
  have hworking : workingIn bindings (.discover body) context = .ok (some w) := by
    have hvariable : (OptimizeState.discover body).contextVariable = some name := hcaptured
    unfold workingIn
    rw [hvariable]
    dsimp only
    rw [hvalue]
    rfl
  exact opinionOn_judged hstored hworking hverdict

end Optimizer

namespace Expr

variable {e body : Expr} {head : StepHead} {ps : List Predicate} {rest : List Expr}

/-! ### Values that stand for a context -/

/-- **A value stands for a context** in the narrowing of an expression.  Either it is a part of the
context with all hits, and the expression withstands narrowing; or candidates are prepared for the
first step, and the documents of the context are among those of the value.  Further steps without
conditions may go anywhere. -/
inductive StandsFor (s : Store) (body : Expr) (working context : SharedSet) : Prop
  | part {extent : Extent} (hstep : body.contextStep? = none) (hnarrowing : body.IsNarrowing extent)
      (hsuits : extent.Suits context.set) (hin : working.set.IsIn s)
      (hpersistent : working.set.persistent = true)
      (hkeeps : context.set.KeepsHits working.set s extent body.conditions)
      (hverdict : verdict s (some (.nodes context)) body.conditions = .ok true)
      (hcovered : ∀ p ∈ body.wholePredicates, ∀ id probe, p.expr.probe? = some (id, probe) →
        probe.relation ≠ none → probe.coversAll s (some (.nodes context)) = .ok true)
  | documents {head : StepHead} {ps : List Predicate} {rest further : List Expr} {step : ContextStep}
      (hstep : body.contextStep? = some step) (hbegins : BeginsWith body head ps (rest ++ further))
      (hown : ∀ p ∈ ps, p.expr.optimizable? ≠ none ∨ p.expr.conditions = [])
      (hstanding : areStanding (beforePosition ps) = true) (hlocal : areLocal rest = true)
      (hfurther : ∀ e ∈ further, e.conditions = []) (hdown : LooksDown ps rest)
      (hlast : PositionsLast ps (rest ++ further))
      (hdocuments : ∀ n ∈ context.set, InDocuments working.set n.doc)
      (hcovered : ∀ p ∈ ps ++ wholePredicatesOf rest, ∀ id probe, p.expr.probe? = some (id, probe) →
        probe.relation ≠ none → probe.coversAll s (some (.nodes working)) = .ok true)

variable {id : ExprId} {p : Pragma} {explicit : Bool} {contextId : ExprId} {r : Run} {focus : Focus}
  {name : String} {w : Sequence} {b : Bool}

/-- **What is narrowed in place of the context leaves the items as they are** when it stands for it. -/
theorem result_optimize_of_standsFor (hs : s.IsReliable) (hσ : σ.IsBare)
    (hp : p.kind = .optimize explicit true contextId) (hfree : body.IsPragmaFree)
    (hanalyzed : body.IsAnalyzedAt none) (hnumbers : body.numbers.Nodup) (hr : σ.Holds r)
    (hfresh : r.context.optimizer? p.id = none) {working context : SharedSet}
    (hopinion : opinionOn s σ.bindings (.discover body) (Optimizer.contextOf s focus) =
      .ok (some context, some (.nodes working), true))
    (hverdict : verdict s (some (.nodes working)) body.conditions = .ok true)
    (hin : context.set.IsIn s) (hpersistent : context.set.persistent = true)
    (hstands : StandsFor s body working context)
    (hcontext : Optimizer.contextOf s focus = some (.nodes context)) {v : Sequence}
    (hv : σ.outcome (body.evaluate s ⟨Optimizer.contextOf s focus, focus.item⟩) = .ok v) :
    ∃ v', ((extension id [p] body).evaluate s focus).result r = .ok v' ∧ v'.toItems = v.toItems := by
  cases hstands with
  | part hstep hnarrowing hsuits hinPart hpersistentPart hkeeps hverdictContext hcovered =>
    obtain ⟨rounds, v', -, -, hv', hitems⟩ := result_optimize_of_isNarrowing hs hσ hp hfree hanalyzed hr
      hfresh hopinion hcontext hin hpersistent hstep hnarrowing hsuits hinPart hpersistentPart hkeeps
      hverdictContext hcovered hv
    exact ⟨v', hv', hitems⟩
  | documents hstep hbegins hown hstanding hlocal hfurther hdown hlast hdocuments hcovered =>
    exact result_optimize_of_positions hs hσ hp hfree hanalyzed hnumbers hr hfresh hopinion hverdict
      hcontext hin hpersistent hstep hbegins hown hstanding hlocal hfurther hdown hlast hdocuments
      hcovered hv

/-! ### What is evaluated -/

/-- **What has a context step begins with a step,** and so wants a context. -/
theorem wantsContext_of_contextStep? (hfree : body.IsPragmaFree) (hstep : body.contextStep? ≠ none) :
    WantsContext (σ.outcome (body.evaluate s .nowhere)) := by
  obtain ⟨step, hstep⟩ := Option.ne_none_iff_exists'.1 hstep
  obtain ⟨_, _, _, hfirst, -⟩ := contextStep?_eq_some hstep
  exact wantsContext_of_firstStep? body hfree hfirst

/-- With a context the body does not fail for want of one. -/
theorem not_wantsContext_contextOf (hfree : body.IsPragmaFree)
    (hcontext : Optimizer.contextOf s focus ≠ none) :
    ¬ WantsContext (σ.outcome (body.evaluate s ⟨Optimizer.contextOf s focus, focus.item⟩)) :=
  not_wantsContext_outcome body hfree _ fun h => hcontext (congrArg Focus.context h)

section Captured

variable (id) (hs : s.IsReliable) (hp : p.kind = .optimize explicit true contextId)
  (hfree : body.IsPragmaFree) (hr : σ.Holds r) (hfresh : r.context.optimizer? p.id = none)
  (hcaptured : body.contextVariable? = some name) (hvalue : valueIn σ.bindings name = .ok w)
  (hverdict : verdict s (some w) body.conditions = .ok b)

include hs hp hfree hr hfresh hcaptured hvalue hverdict

/-- **Where a variable is captured the body is evaluated,** for the context after a verdict that is
not positive, and nowhere only without a context and with a context step. -/
theorem exists_result_of_captured
    (hstored : ((Optimizer.contextOf s focus).map Sequence.isPersistent).getD true = true) :
    ∃ (τ : Setting) (focus' : Focus),
      ((extension id [p] body).evaluate s focus).result r = τ.outcome (body.evaluate s focus') ∧
        (focus' = .nowhere ↔
          Optimizer.contextOf s focus = none ∧ b = true ∧ body.contextStep? ≠ none) ∧
        (b = false ∨ body.contextStep? = none → τ = σ) ∧
        (b = false → Optimizer.contextOf s focus ≠ none →
          focus' = ⟨Optimizer.contextOf s focus, focus.item⟩) := by
  have hopinion := Optimizer.opinionOn_captured hcaptured hvalue hverdict hstored
  have hjudged := Optimizer.exists_nodes_of_isPersistent hstored
  cases b with
  | false =>
    refine ⟨σ, _, result_optimize_fallback hp hfree hr hfresh hopinion, ?_, fun _ => rfl,
      fun _ hsomewhere => ?_⟩
    · refine iff_of_false (fun h => ?_) fun h => Bool.false_ne_true h.2.1
      rcases hjudged with hnone | ⟨shared, hshared, -⟩
      · rw [hnone] at h
        exact nomatch congrArg Focus.context h
      · rw [hshared] at h
        exact nomatch congrArg Focus.context h
    · rcases hjudged with hnone | ⟨shared, hshared, -⟩
      · exact absurd hnone hsomewhere
      · rw [hshared]
        rfl
  | true =>
    obtain ⟨working, rfl⟩ := exists_nodes_of_verdict hverdict
    obtain ⟨rounds, hrounds⟩ :=
      Narrowing.exists_rounds (σ := σ) hs body.contextStep? working.set body.conditions
    cases hstep : body.contextStep? with
    | none =>
      rw [hstep] at hrounds
      refine ⟨σ, _, result_optimize_context hp hfree hr hfresh hopinion hstep hrounds, ?_,
        fun _ => rfl, fun h => nomatch h⟩
      exact iff_of_false (fun h => nomatch congrArg Focus.context h) fun h => h.2.2 rfl
    | some step =>
      rw [hstep] at hrounds
      refine ⟨_, _, result_optimize_step hp hfree hr hfresh hopinion hstep hrounds, ?_,
        fun h => ?_, fun h => nomatch h⟩
      · rcases hjudged with hnone | ⟨shared, hshared, -⟩
        · rw [hnone]
          exact iff_of_true rfl ⟨rfl, rfl, Option.some_ne_none _⟩
        · rw [hshared]
          exact iff_of_false (fun h => nomatch congrArg Focus.context h) fun h => nomatch h.1
      · rcases h with h | h <;> cases h

/-- **What does not want a context** is not changed by a captured variable. -/
theorem result_optimize_of_not_wantsContext
    (hstored : ((Optimizer.contextOf s focus).map Sequence.isPersistent).getD true = true)
    (hwants : ¬ WantsContext (σ.outcome (body.evaluate s .nowhere))) :
    ((extension id [p] body).evaluate s focus).result r =
      σ.outcome (body.evaluate s ⟨Optimizer.contextOf s focus, focus.item⟩) := by
  obtain ⟨τ, focus', hresult, -, hsame, -⟩ := exists_result_of_captured id hs hp hfree hr hfresh
    hcaptured hvalue hverdict hstored
  have hstep : body.contextStep? = none := by
    by_contra hstep
    exact hwants (wantsContext_of_contextStep? hfree hstep)
  obtain rfl := hsame (.inr hstep)
  exact hresult.trans ((settled_outcome body hfree).eq hwants _ _)

/-- **A captured variable leaves the items as they are** where no context is wanted, or the value of
the variable stands for it. -/
theorem result_optimize_captured (hσ : σ.IsBare) (hanalyzed : body.IsAnalyzedAt none)
    (hnumbers : body.numbers.Nodup)
    (hserves : b = true → ∀ context, Optimizer.contextOf s focus = some (.nodes context) →
      context.set.persistent = true → ¬ WantsContext (σ.outcome (body.evaluate s .nowhere)) ∨
        context.set.IsIn s ∧ ∃ working, w = .nodes working ∧ StandsFor s body working context)
    {v : Sequence}
    (hv : σ.outcome (body.evaluate s ⟨Optimizer.contextOf s focus, focus.item⟩) = .ok v) :
    ∃ v', ((extension id [p] body).evaluate s focus).result r = .ok v' ∧ v'.toItems = v.toItems := by
  by_cases hstored : ((Optimizer.contextOf s focus).map Sequence.isPersistent).getD true = true
  · have hindependent := result_optimize_of_not_wantsContext id hs hp hfree hr hfresh hcaptured
      hvalue hverdict hstored
    rcases Optimizer.exists_nodes_of_isPersistent hstored with hnone | ⟨context, hcontext, hpersistent⟩
    · obtain rfl := Optimizer.contextOf_eq_none_iff.1 hnone
      exact ⟨v, (hindependent (hv ▸ not_wantsContext_ok v)).trans hv, rfl⟩
    · cases b with
      | false =>
        obtain ⟨τ, focus', hresult, -, hsame, hfocus⟩ := exists_result_of_captured id hs hp hfree
          hr hfresh hcaptured hvalue hverdict hstored
        obtain rfl := hsame (.inl rfl)
        obtain rfl := hfocus rfl (hcontext ▸ Option.some_ne_none _)
        exact ⟨v, hresult.trans hv, rfl⟩
      | true =>
        rcases hserves rfl context hcontext hpersistent with hwants | ⟨hin, working, rfl, hstands⟩
        · exact ⟨v, (hindependent hwants).trans hv, rfl⟩
        · have hopinion := Optimizer.opinionOn_captured hcaptured hvalue hverdict hstored
          have hgiven : (Optimizer.contextOf s focus).bind Optimizer.sharedOf? = some context :=
            hcontext ▸ rfl
          rw [hgiven] at hopinion
          exact result_optimize_of_standsFor hs hσ hp hfree hanalyzed hnumbers hr hfresh hopinion
            hverdict hin hpersistent hstands hcontext hv
  · exact ⟨v, (result_optimize_of_unjudged hp hfree hr hfresh hstored).trans hv, rfl⟩

/-- **The lack of a context is noticed** exactly where candidates are prepared for a step. -/
theorem wantsContext_optimize_captured :
    WantsContext (((extension id [p] body).evaluate s focus).result r) ↔
      WantsContext (σ.outcome (body.evaluate s ⟨Optimizer.contextOf s focus, focus.item⟩)) ∧
        b = true ∧ body.contextStep? ≠ none := by
  have hsomewhere : Optimizer.contextOf s focus ≠ none →
      ¬ WantsContext (σ.outcome (body.evaluate s ⟨Optimizer.contextOf s focus, focus.item⟩)) :=
    not_wantsContext_contextOf hfree
  by_cases hstored : ((Optimizer.contextOf s focus).map Sequence.isPersistent).getD true = true
  · obtain ⟨τ, focus', hresult, hnowhere, -⟩ := exists_result_of_captured id hs hp hfree hr hfresh
      hcaptured hvalue hverdict hstored
    rw [hresult]
    by_cases hfocus : focus' = .nowhere
    · obtain ⟨hnone, hb, hstep⟩ := hnowhere.1 hfocus
      obtain rfl := Optimizer.contextOf_eq_none_iff.1 hnone
      subst hfocus
      exact iff_of_true (wantsContext_of_contextStep? hfree hstep)
        ⟨wantsContext_of_contextStep? hfree hstep, hb, hstep⟩
    · refine iff_of_false (not_wantsContext_outcome body hfree focus' hfocus) ?_
      rintro ⟨hwants, hb, hstep⟩
      refine hfocus (hnowhere.2 ⟨?_, hb, hstep⟩)
      by_contra hcontext
      exact hsomewhere hcontext hwants
  · have hcontext : Optimizer.contextOf s focus ≠ none := by
      intro hnone
      rw [hnone] at hstored
      exact hstored rfl
    rw [result_optimize_of_unjudged hp hfree hr hfresh hstored]
    exact iff_of_false (hsomewhere hcontext) fun h => hsomewhere hcontext h.1

end Captured

/-- **A captured variable changes the items only where its value does not stand for the context,** and
hides the lack of a context only where no candidates are prepared.  Suppose that a value is given
for the variable that discovery captures in an expression, and that the conditions can be judged on
it.  Whenever the expression has a value under the pragma `optimize` with `enable=no`, it has the
same items under the pragma `optimize`, for every context or without one: if after a positive verdict
on a set that the store has handed out the expression does not want a context, or the value stands
for this set.  And under the pragma it fails for want of a context exactly if it does so with
`enable=no`, and the verdict is positive and there is a context step. -/
theorem evaluate_optimize_of_captured {config : Configuration} {surface : Surface} {direct : Expr}
    {pragmas : List Pragma} {m m' : ExprId}
    (hdirect : (ofSurface config (.pragma [.optimize false] (some surface))).run .none =
      .ok (direct, m))
    (hoptimized : (ofSurface config (.pragma [.optimize true] (some surface))).run .none =
      .ok (extension id pragmas body, m'))
    (hfree : body.IsPragmaFree) (hcaptured : body.contextVariable? = some name) (hs : s.Reachable)
    (hplain : s.IsPlain) (hprobes : s.interrupted = false) (bindings : List (String × Sequence))
    (hvalue : valueIn bindings name = .ok w)
    (hverdict : verdict s (some w) body.conditions = .ok b) (focus : Focus)
    (hserves : b = true → ∀ context, Optimizer.contextOf s focus = some (.nodes context) →
      context.set.persistent = true →
        ¬ WantsContext ((direct.evaluate s .nowhere).result ⟨.ofBindings bindings, .zero⟩) ∨
          context.set.IsIn s ∧ ∃ working, w = .nodes working ∧ StandsFor s body working context) :
    (∀ v, (direct.evaluate s focus).result ⟨.ofBindings bindings, .zero⟩ = .ok v →
      ∃ v', ((extension id pragmas body).evaluate s focus).result ⟨.ofBindings bindings, .zero⟩ =
        .ok v' ∧ v'.toItems = v.toItems) ∧
    (WantsContext (((extension id pragmas body).evaluate s focus).result ⟨.ofBindings bindings, .zero⟩) ↔
      WantsContext ((direct.evaluate s focus).result ⟨.ofBindings bindings, .zero⟩) ∧
        b = true ∧ body.contextStep? ≠ none) := by
  obtain ⟨lowered, rfl, hnumbers, rfl, rfl, rfl⟩ := exists_body_of_optimize hdirect hoptimized
  let σ : Setting := ⟨bindings, []⟩
  have hholds : σ.Holds ⟨.ofBindings bindings, .zero⟩ := ⟨rfl, fun _ => rfl⟩
  have hreliable : s.IsReliable := ⟨hs.isIndexed, hplain, hprobes⟩
  have hplainly : ∀ focus, ((extension 1 [(Pragma.optimize false).analyze .none]
      (lowered.analyze .top)).evaluate s focus).result ⟨.ofBindings bindings, .zero⟩ =
        σ.outcome ((lowered.analyze .top).evaluate s ⟨Optimizer.contextOf s focus, focus.item⟩) :=
    result_optimize_disabled rfl hfree hholds rfl
  rw [hplainly] at hserves ⊢
  exact ⟨fun v => result_optimize_captured 1 hreliable rfl hfree hholds rfl hcaptured hvalue hverdict
      (fun _ => rfl) ⟨lowered, .top, rfl, rfl⟩ hnumbers hserves,
    wantsContext_optimize_captured 1 hreliable rfl hfree hholds rfl hcaptured hvalue hverdict⟩

/-! ### Books and a library -/

/-- The query for those nodes of the value of a variable that have a child of a name. -/
def fromVariable (variableName child : String) : Surface :=
  .path none [.filter false (.variable variableName) [.path none [.axis false .child (.name child) []]]]

/-- The books of a year below the root are found with candidates, when the variable has the document
of the root as its value. -/
theorem evaluate_optimize_of_captured_document : ∃ direct pragmas body m m' v v',
    (ofSurface .standard (.pragma [.optimize false] (some (booksThen
      [having "year" "1965", fromVariable "x" "library"] [])))).run .none = .ok (direct, m) ∧
    (ofSurface .standard (.pragma [.optimize true] (some (booksThen
      [having "year" "1965", fromVariable "x" "library"] [])))).run .none =
        .ok (extension 1 pragmas body, m') ∧
    body.contextVariable? = some "x" ∧ body.contextStep?.isSome = true ∧
    (direct.evaluate yearsStore (.on (.ofSet ⟨[⟨0, ⟨[1]⟩⟩], true⟩))).result
      ⟨.ofBindings [("x", .nodes library)], .zero⟩ = .ok v ∧
    ((extension 1 pragmas body).evaluate yearsStore (.on (.ofSet ⟨[⟨0, ⟨[1]⟩⟩], true⟩))).result
      ⟨.ofBindings [("x", .nodes library)], .zero⟩ = .ok v' ∧
    v'.toItems = v.toItems ∧ v.toItems = [.node ⟨0, ⟨[1, 2]⟩⟩, .node ⟨0, ⟨[1, 3]⟩⟩] := by
  let head : StepHead := ⟨10, .descendant, .name ⟨none, "book", none⟩, false⟩
  let year := predicateHaving 3 10 "year" "1965"
  let named : Predicate := ⟨6, filter 7 (.variable "x")
    [⟨8, step ⟨9, .child, .name ⟨none, "library", none⟩, false⟩ [], .boolean⟩], .positional⟩
  let body : Expr := step head [year, named]
  let root : SharedSet := ⟨⟨[⟨0, ⟨[1]⟩⟩], true⟩, none⟩
  have hdirect : ((ofSurface .standard (.pragma [.optimize false] (some (booksThen
      [having "year" "1965", fromVariable "x" "library"] [])))).run .none).map
        (fun compiled => ((compiled.1.evaluate yearsStore (.on (.nodes root))).result
          ⟨.ofBindings [("x", .nodes library)], .zero⟩).map Sequence.toItems) =
            .ok (.ok [.node ⟨0, ⟨[1, 2]⟩⟩, .node ⟨0, ⟨[1, 3]⟩⟩]) := by
    decide +kernel
  have hoptimized : (ofSurface .standard (.pragma [.optimize true] (some (booksThen
      [having "year" "1965", fromVariable "x" "library"] [])))).run .none =
        .ok (extension 1 [(Pragma.optimize true).analyze .none] body, 10) := rfl
  obtain ⟨⟨direct, m⟩, hdirect, hfound⟩ := map_eq_ok.1 hdirect
  obtain ⟨v, hv, hitems⟩ := map_eq_ok.1 hfound
  have hbegins : BeginsWith body head [year, named] ([] ++ []) := .step _ _
  have hdocuments : ∀ n ∈ root.set, InDocuments library.set n.doc := fun n hn =>
    List.mem_singleton.1 hn ▸ ⟨.document 0, List.mem_singleton_self _, rfl⟩
  have hin : root.set.IsIn yearsStore := by
    decide +kernel
  have hstands : StandsFor yearsStore body library root :=
    .documents rfl hbegins (own_having rfl) rfl rfl (List.forall_mem_nil _)
      (looksDown_having rfl (List.forall_mem_nil _)) (positionsLast_having rfl (List.forall_mem_nil _))
      hdocuments (coversAll_having rfl (by decide +kernel))
  have hverdict : verdict yearsStore (some (.nodes library)) body.conditions = .ok true := by
    decide +kernel
  obtain ⟨hsame, -⟩ := evaluate_optimize_of_captured hdirect hoptimized
    (plain_of_parts (by decide +kernel)).1 rfl reachable_yearsStore isPlain_yearsStore
    (by decide +kernel) [("x", .nodes library)] rfl hverdict (.on (.nodes root))
    fun _ context hcontext _ => by
      obtain rfl := Sequence.nodes.inj (Option.some.inj hcontext)
      exact .inr ⟨hin, library, rfl, hstands⟩
  obtain ⟨v', hv', hitems'⟩ := hsame v hv
  exact ⟨direct, _, body, m, 10, v, v', hdirect, hoptimized, rfl, rfl, hv, hv', hitems', hitems⟩

/-- **The value of a variable is answered for in place of the context:** the first document has no
such book, and without a context there is nothing to answer for, but the document that the variable
stands for is searched. -/
theorem not_evaluate_optimize_of_captured_among : ∃ direct pragmas body m m',
    (ofSurface .standard (.pragma [.optimize false]
      (some (booksAmong [having "title" "Dune", fromVariable "x" "library"])))).run .none =
        .ok (direct, m) ∧
    (ofSurface .standard (.pragma [.optimize true]
      (some (booksAmong [having "title" "Dune", fromVariable "x" "library"])))).run .none =
        .ok (extension 1 pragmas body, m') ∧
    body.IsPragmaFree ∧ body.contextVariable? = some "x" ∧
    ((direct.evaluate booksStore (.on (.ofSet ⟨[.document 0], true⟩))).result
      ⟨.ofBindings [("x", .ofSet ⟨[.document 1], true⟩)], .zero⟩).map Sequence.toItems = .ok [] ∧
    (((extension 1 pragmas body).evaluate booksStore (.on (.ofSet ⟨[.document 0], true⟩))).result
      ⟨.ofBindings [("x", .ofSet ⟨[.document 1], true⟩)], .zero⟩).map Sequence.toItems =
        .ok [.node ⟨1, ⟨[1, 1]⟩⟩] ∧
    WantsContext ((direct.evaluate booksStore .nowhere).result
      ⟨.ofBindings [("x", .ofSet ⟨[.document 1], true⟩)], .zero⟩) ∧
    (((extension 1 pragmas body).evaluate booksStore .nowhere).result
      ⟨.ofBindings [("x", .ofSet ⟨[.document 1], true⟩)], .zero⟩).map Sequence.toItems =
        .ok [.node ⟨1, ⟨[1, 1]⟩⟩] := by
  let base : Expr := step ⟨4, .descendant, .name ⟨none, "book", none⟩, false⟩ []
  let title := predicateHaving 5 3 "title" "Dune"
  let named : Predicate := ⟨8, filter 9 (.variable "x")
    [⟨10, step ⟨11, .child, .name ⟨none, "library", none⟩, false⟩ [], .boolean⟩], .positional⟩
  let body : Expr := filter 3 base [title, named]
  refine ⟨_, _, body, 11, 11, rfl, rfl, (plain_of_parts (by decide +kernel)).1, rfl, by decide +kernel,
    by decide +kernel, ⟨.noContextItem, by decide +kernel, rfl⟩, by decide +kernel⟩

end Expr
end IndexedXml
