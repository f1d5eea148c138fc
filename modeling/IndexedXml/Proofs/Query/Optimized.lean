/-
# Queries with and without narrowing

Under the pragma `optimize` a location path is evaluated for what narrowing leaves when indexes
answer all of its conditions, and directly otherwise; with `enable=no` it is evaluated directly.
Both ways give the same items (`Expr.evaluate_optimize_of_direct`): narrowing neither loses a
node that contributes nor adds one.
-/

import IndexedXml.Proofs.Query.Narrowed
import IndexedXml.Proofs.Query.NoIndex

namespace IndexedXml

open Evaluation Setting

variable {s : Store} {σ : Setting}

/-! ### The pragma -/

/-- The pragma that narrows the context first or, when not enabled, does not, as it is
written. -/
def PragmaDecl.optimize (enabled : Bool) : PragmaDecl :=
  ⟨"exist:optimize", if enabled then "" else "enable=no"⟩

/-- That pragma, as the second part of a query. -/
def Pragma.optimize (enabled : Bool) : Pragma :=
  ⟨2, Pragma.exist "optimize", if enabled then "" else "enable=no", .optimize true enabled .none,
    false⟩

theorem Pragma.create_optimize (enabled : Bool) (config : Configuration) :
    Pragma.create 2 (Pragma.resolveName (PragmaDecl.optimize enabled).name)
      (PragmaDecl.optimize enabled).contents config true = .ok (some (.optimize enabled)) := by
  have hname : Pragma.resolveName (PragmaDecl.optimize enabled).name = Pragma.exist "optimize" := by
    cases enabled <;> rfl
  have hcontents : Text.trim (PragmaDecl.optimize enabled).contents =
      (Pragma.optimize enabled).contents := by
    cases enabled <;> rfl
  have hoptions : ∃ options, Pragma.options (Pragma.exist "optimize")
      (PragmaDecl.optimize enabled).contents = .ok options ∧
        Pragma.isEnabled true options = enabled := by
    cases enabled
    · exact ⟨[("enable", "no")], rfl, rfl⟩
    · exact ⟨[], rfl, rfl⟩
  obtain ⟨options, hoptions, henabled⟩ := hoptions
  have hkind : Pragma.kindOf (Pragma.exist "optimize") (PragmaDecl.optimize enabled).contents config
      true = .ok (some (.optimize true enabled .none)) := by
    change (do
      let options ← Pragma.options (Pragma.exist "optimize") (PragmaDecl.optimize enabled).contents
      pure (some (PragmaKind.optimize true (Pragma.isEnabled true options) .none))) = _
    rw [hoptions, ok_bind, henabled]
    rfl
  rw [hname, Pragma.create, hkind, ok_bind, hcontents]
  rfl

namespace Optimizer

/-! ### Judging a context -/

variable {id : ExprId} {state : OptimizeState} {shared : SharedSet}
  {f : Focus → Evaluation Sequence} {r : Run}

/-- A setting holds on whatever an optimizer has found out. -/
theorem holds_updateOptimizer (h : σ.Holds r) (id : ExprId) (g : OptimizeState → OptimizeState) :
    σ.Holds { r with context := r.context.updateOptimizer id g } := by
  unfold QueryContext.updateOptimizer
  cases r.context.optimizer? id with
  | none => exact h
  | some state => exact ⟨h.bindings, h.prepared⟩

variable {bindings : List (String × Sequence)} {context : Option Sequence} {b : Bool}

/-- **A set that the store has handed out is judged,** and so is the lack of a context. -/
theorem opinionOn_judged (hstored : (context.map Sequence.isPersistent).getD true = true)
    {working : Option Sequence} (hworking : workingIn bindings state context = .ok working)
    (hverdict : verdict s working state.optimizables = .ok b) :
    opinionOn s bindings state context = .ok (context.bind sharedOf?, working, b) := by
  unfold opinionOn
  rw [if_pos hstored, hworking, ok_bind, hverdict]
  rfl

/-- Such a set is narrowed itself, where no variable is captured. -/
theorem opinionOn_nodes (hvariable : state.contextVariable = none)
    (hpersistent : shared.set.persistent = true)
    (hverdict : verdict s (some (.nodes shared)) state.optimizables = .ok b) :
    opinionOn s bindings state (contextOf s (.on (.nodes shared))) =
      .ok (some shared, some (.nodes shared), b) := by
  have hstored : ((some (Sequence.nodes shared)).map Sequence.isPersistent).getD true = true :=
    hpersistent
  have hworking : workingIn bindings state (some (.nodes shared)) = .ok (some (.nodes shared)) := by
    unfold workingIn
    rw [hvariable]
  exact opinionOn_judged hstored hworking hverdict

/-- **After the judgement** what it is on is narrowed, or the expression evaluated directly. -/
theorem result_evaluate (hr : σ.Holds r) (hstate : r.context.optimizer? id = some state)
    (hcache : state.cache = none) (focus : Focus) {given : Option SharedSet}
    {working : Option Sequence} {b : Bool}
    (hopinion : opinionOn s σ.bindings state (contextOf s focus) = .ok (given, working, b)) :
    ∃ (r' : Run) (j : Judgement), σ.Holds r' ∧ j.given = given ∧ j.working = working ∧
      (evaluate s id f focus).result r =
        (if b then narrow s id state f j
          else f ⟨((given.map .nodes).or working).or (contextOf s focus), focus.item⟩).result r' := by
  obtain ⟨j, hjudge, hj⟩ := map_eq_ok.1
    ((result_judge_of_uncached hcache hr.bindings (contextOf s focus)).trans hopinion)
  obtain ⟨hgiven, hj⟩ := Prod.mk.inj hj
  obtain ⟨hworking, hoptimize⟩ := Prod.mk.inj hj
  have hcontextOfRun : queryContext.result r = .ok r.context ∧ queryContext.after r = r := ⟨rfl, rfl⟩
  unfold evaluate
  rw [result_bind, hcontextOfRun.1, hcontextOfRun.2, ok_bind, hstate]
  dsimp only
  rw [result_bind, hjudge, after_judge, ok_bind, hoptimize]
  have hcounted := holds_updateOptimizer hr id (countJudgement j)
  cases b with
  | true => exact ⟨_, j, hcounted, hgiven, hworking, rfl⟩
  | false =>
    refine ⟨_, j, holds_updateOptimizer hcounted id countFallback, hgiven, hworking, ?_⟩
    rw [← hgiven, ← hworking]
    rfl

/-! ### Narrowing -/

variable {rounds : List NarrowingRound} {j : Judgement}

/-- **Narrowing without a context step** evaluates for the candidates. -/
theorem result_narrow_context (hreads : ∀ focus, σ.Reads (f focus)) (hr : σ.Holds r)
    (hworking : j.working = some (.nodes shared)) (hstep : state.contextStep = none)
    (hrounds : σ.outcome (Narrowing.rounds s none shared.set state.optimizables) = .ok rounds) :
    (narrow s id state f j).result r =
      σ.outcome (f (.on (.ofSet (Narrowing.candidates rounds)))) := by
  have hreadsRounds := Narrowing.reads_rounds (σ := σ) (s := s) none shared.set state.optimizables r
    hr
  have hnarrow : narrow s id state f j = (do
      let rounds ← Narrowing.rounds s none shared.set state.optimizables
      update (·.updateOptimizer id (countNarrowing s j.given rounds))
      f (.on (.ofSet (Narrowing.candidates rounds)))) := by
    unfold narrow
    rw [hworking, hstep]
    rfl
  rw [hnarrow, result_bind, hreadsRounds.1, hrounds, ok_bind]
  exact (hreads _ _ (holds_updateOptimizer hreadsRounds.2 id _)).1

/-- **Narrowing with a context step** evaluates with candidates prepared for that step, for the
context in their documents. -/
theorem result_narrow_step {step : ContextStep}
    (hreads : ∀ σ : Setting, ∀ focus, σ.Reads (f focus)) (hr : σ.Holds r)
    (hworking : j.working = some (.nodes shared)) (hstep : state.contextStep = some step)
    (hrounds : σ.outcome (Narrowing.rounds s (some step) shared.set state.optimizables) =
      .ok rounds) :
    (narrow s id state f j).result r =
      (σ.preparing step.id (Narrowing.candidates rounds)).outcome (f ⟨j.given.map fun given =>
        .ofSet (given.set.filterDocuments (Narrowing.candidates rounds)), none⟩) := by
  have hreadsRounds := Narrowing.reads_rounds (σ := σ) (s := s) (some step) shared.set
    state.optimizables r hr
  have hnarrow : narrow s id state f j = (do
      let rounds ← Narrowing.rounds s (some step) shared.set state.optimizables
      update (·.updateOptimizer id (countNarrowing s j.given rounds))
      preloading step.id (Narrowing.candidates rounds) (f ⟨j.given.map fun given =>
        .ofSet (given.set.filterDocuments (Narrowing.candidates rounds)), none⟩)) := by
    unfold narrow
    rw [hworking, hstep]
    rfl
  rw [hnarrow, result_bind, hreadsRounds.1, hrounds, ok_bind]
  have hholds := holds_updateOptimizer hreadsRounds.2 id (countNarrowing s j.given rounds)
  refine (hreads (σ.preparing step.id (Narrowing.candidates rounds)) _ _ ⟨?_, fun other => ?_⟩).1
  · exact hholds.bindings
  · exact (Table.get?_put _ _ _ _).trans
      ((if_congr Iff.rfl rfl (hholds.prepared other)).trans (Table.get?_put _ _ _ _).symm)

end Optimizer

namespace Expr

/-! ### Evaluation under the pragma -/

/-- **Under the pragma `optimize`** the optimizer evaluates, on what it has discovered. -/
theorem result_optimize (id : ExprId) (body : Expr) {p : Pragma} {explicit enabled : Bool}
    {contextId : ExprId} (hp : p.kind = .optimize explicit enabled contextId) {r : Run}
    (hr : σ.Holds r) (hfresh : r.context.optimizer? p.id = none) (focus : Focus) :
    ∃ r', σ.Holds r' ∧
      r'.context.optimizer? p.id = some (Pragma.found enabled body) ∧
      ((extension id [p] body).evaluate s focus).result r =
        (Optimizer.evaluate s p.id (body.evaluate s) focus).result r' := by
  have hforce : p.kind ≠ .forceIndexUse := by
    rw [hp]
    exact fun h => PragmaKind.noConfusion h
  have hactivated : activated r.context p enabled body =
      r.context.setOptimizer p.id (Pragma.found enabled body) := by
    unfold activated
    rw [hfresh]
  have hevaluate : evaluatePragmas s (body.evaluate s) focus [p] =
      (update (·.enter p.id .evaluating) >>= fun _ =>
        Optimizer.evaluate s p.id (body.evaluate s) focus) := by
    rw [evaluatePragmas, hp]
  refine ⟨(update (·.enter p.id .evaluating)).after ((activate body p).after r), ?_, ?_, ?_⟩
  · rw [activate_optimize hp]
    change σ.Holds ⟨((activated r.context p enabled body).enter p.id .activated).enter p.id
      .evaluating, r.counts⟩
    rw [hactivated]
    exact ⟨hr.bindings, hr.prepared⟩
  · rw [activate_optimize hp]
    change (activated r.context p enabled body).optimizer? p.id = _
    rw [hactivated]
    exact (Table.get?_put _ _ _ _).trans (if_pos rfl)
  · rw [result_extension_single hforce, hevaluate, result_bind]
    rfl

/-- The expression below the pragma is compiled to the same whether it is enabled or not, and each of
its numbers is given out once. -/
theorem exists_body_of_optimize {config : Configuration} {surface : Surface} {direct body : Expr}
    {id : ExprId} {pragmas : List Pragma} {m m' : ExprId}
    (hdirect : (ofSurface config (.pragma [.optimize false] (some surface))).run .none =
      .ok (direct, m))
    (hoptimized : (ofSurface config (.pragma [.optimize true] (some surface))).run .none =
      .ok (extension id pragmas body, m')) :
    ∃ lowered : Expr, body = lowered.analyze .top ∧ body.numbers.Nodup ∧
      direct = extension 1 [(Pragma.optimize false).analyze .none] body ∧
        id = 1 ∧ pragmas = [(Pragma.optimize true).analyze .none] := by
  have hnumbers := nodup_numbers_ofSurface hoptimized
  rw [numbers_extension, List.nodup_cons, List.nodup_append] at hnumbers
  obtain ⟨-, -, hdistinct, -⟩ := hnumbers
  obtain ⟨lowered, k, hlowered, rfl⟩ :=
    exists_lower_of_pragma (Pragma.create_optimize false config) hdirect
  obtain ⟨lowered', k', hlowered', heq⟩ :=
    exists_lower_of_pragma (Pragma.create_optimize true config) hoptimized
  obtain ⟨rfl, _⟩ := Prod.mk.inj (Except.ok.inj (hlowered'.symm.trans hlowered))
  obtain ⟨rfl, rfl, rfl⟩ := extension.inj heq
  exact ⟨lowered', rfl, hdistinct, rfl, rfl, rfl⟩

variable {body : Expr} {shared : SharedSet} {id : ExprId} {p : Pragma} {explicit : Bool}
  {contextId : ExprId} {r : Run}

/-- **A pragma that is not enabled** leaves the expression to be evaluated directly. -/
theorem result_optimize_disabled (hp : p.kind = .optimize explicit false contextId)
    (hfree : body.IsPragmaFree) (hr : σ.Holds r) (hfresh : r.context.optimizer? p.id = none)
    (focus : Focus) :
    ((extension id [p] body).evaluate s focus).result r =
      σ.outcome (body.evaluate s ⟨Optimizer.contextOf s focus, focus.item⟩) := by
  obtain ⟨r', hr', hstate, hresult⟩ := result_optimize (s := s) id body hp hr hfresh focus
  obtain ⟨given, working, hopinion, hcontext⟩ : ∃ given working,
      opinionOn s σ.bindings .empty (Optimizer.contextOf s focus) = .ok (given, working, false) ∧
        ((given.map .nodes).or working).or (Optimizer.contextOf s focus) =
          Optimizer.contextOf s focus := by
    unfold opinionOn
    split_ifs
    · refine ⟨_, _, rfl, ?_⟩
      cases Optimizer.contextOf s focus with
      | none => rfl
      | some v => cases v <;> rfl
    · exact ⟨none, none, rfl, rfl⟩
  obtain ⟨r'', _, hr'', -, -, hresult'⟩ := Optimizer.result_evaluate (f := body.evaluate s) hr' hstate
    rfl focus hopinion
  rw [hresult, hresult', if_neg Bool.false_ne_true, hcontext]
  exact (reads_evaluate hfree _ r'' hr'').1

variable {rounds : List NarrowingRound} {focus : Focus} {given : Option SharedSet}
  {working : SharedSet}

/-- **Without a context step the body is evaluated for what the rounds leave.** -/
theorem result_optimize_context (hp : p.kind = .optimize explicit true contextId)
    (hfree : body.IsPragmaFree) (hr : σ.Holds r) (hfresh : r.context.optimizer? p.id = none)
    (hopinion : opinionOn s σ.bindings (.discover body) (Optimizer.contextOf s focus) =
      .ok (given, some (.nodes working), true)) (hstep : body.contextStep? = none)
    (hrounds : σ.outcome (Narrowing.rounds s none working.set body.conditions) = .ok rounds) :
    ((extension id [p] body).evaluate s focus).result r =
      σ.outcome (body.evaluate s (.on (.ofSet (Narrowing.candidates rounds)))) := by
  obtain ⟨r', hr', hstate, hresult⟩ := result_optimize (s := s) id body hp hr hfresh focus
  obtain ⟨r'', j, hr'', -, hworking, hresult'⟩ := Optimizer.result_evaluate (f := body.evaluate s) hr'
    hstate rfl focus hopinion
  refine hresult.trans (hresult'.trans ?_)
  exact Optimizer.result_narrow_context (reads_evaluate hfree) hr'' hworking hstep hrounds

/-- **With a context step the body is evaluated with candidates for it,** for the context in the
documents of these. -/
theorem result_optimize_step (hp : p.kind = .optimize explicit true contextId)
    (hfree : body.IsPragmaFree) (hr : σ.Holds r) (hfresh : r.context.optimizer? p.id = none)
    (hopinion : opinionOn s σ.bindings (.discover body) (Optimizer.contextOf s focus) =
      .ok (given, some (.nodes working), true))
    {step : ContextStep} (hstep : body.contextStep? = some step)
    (hrounds : σ.outcome (Narrowing.rounds s (some step) working.set body.conditions) =
      .ok rounds) :
    ((extension id [p] body).evaluate s focus).result r =
      (σ.preparing step.id (Narrowing.candidates rounds)).outcome (body.evaluate s
        ⟨given.map fun given => .ofSet (given.set.filterDocuments (Narrowing.candidates rounds)),
          none⟩) := by
  obtain ⟨r', hr', hstate, hresult⟩ := result_optimize (s := s) id body hp hr hfresh focus
  obtain ⟨r'', j, hr'', rfl, hworking, hresult'⟩ := Optimizer.result_evaluate (f := body.evaluate s)
    hr' hstate rfl focus hopinion
  refine hresult.trans (hresult'.trans ?_)
  exact Optimizer.result_narrow_step (fun _ => reads_evaluate hfree) hr'' hworking hstep hrounds

/-- **Where indexes cannot answer the conditions** the body is evaluated directly. -/
theorem result_optimize_fallback (hp : p.kind = .optimize explicit true contextId)
    (hfree : body.IsPragmaFree) (hr : σ.Holds r) (hfresh : r.context.optimizer? p.id = none)
    {working : Option Sequence}
    (hopinion : opinionOn s σ.bindings (.discover body) (Optimizer.contextOf s focus) =
      .ok (given, working, false)) :
    ((extension id [p] body).evaluate s focus).result r = σ.outcome (body.evaluate s
      ⟨((given.map .nodes).or working).or (Optimizer.contextOf s focus), focus.item⟩) := by
  obtain ⟨r', hr', hstate, hresult⟩ := result_optimize (s := s) id body hp hr hfresh focus
  obtain ⟨r'', j, hr'', -, -, hresult'⟩ := Optimizer.result_evaluate (f := body.evaluate s) hr' hstate
    rfl focus hopinion
  exact hresult.trans (hresult'.trans (reads_evaluate hfree _ r'' hr'').1)

/-- **A context that is not judged,** one that the store has not handed out, is what the body is
evaluated for. -/
theorem result_optimize_of_unjudged (hp : p.kind = .optimize explicit true contextId)
    (hfree : body.IsPragmaFree) (hr : σ.Holds r) (hfresh : r.context.optimizer? p.id = none)
    (hstored : ((Optimizer.contextOf s focus).map Sequence.isPersistent).getD true ≠ true) :
    ((extension id [p] body).evaluate s focus).result r =
      σ.outcome (body.evaluate s ⟨Optimizer.contextOf s focus, focus.item⟩) := by
  have hopinion : opinionOn s σ.bindings (.discover body) (Optimizer.contextOf s focus) =
      .ok (none, none, false) := by
    unfold opinionOn
    rw [if_neg hstored]
    rfl
  exact result_optimize_fallback hp hfree hr hfresh hopinion

/-- **Narrowing leaves the value of a location path as it is.** -/
theorem result_optimize_enabled (hs : s.IsReliable) (hσ : σ.IsBare)
    (hp : p.kind = .optimize explicit true contextId) (hfree : body.IsPragmaFree)
    (hpath : body.isLocationPath = true) (hanalyzed : body.IsAnalyzed)
    (hnumbers : body.numbers.Nodup) (hr : σ.Holds r) (hfresh : r.context.optimizer? p.id = none)
    (hin : shared.set.IsIn s) (hpersistent : shared.set.persistent = true)
    (hroot : body.startsAtRoot = true → ∀ n ∈ shared.set, n = .document n.doc) {v : Sequence}
    (hv : σ.outcome (body.evaluate s (.on (.nodes shared))) = .ok v) :
    ∃ v', ((extension id [p] body).evaluate s (.on (.nodes shared))).result r = .ok v' ∧
      v'.toItems = v.toItems := by
  obtain ⟨b, hverdict, hcovers⟩ := verdict_eq_ok hs.indexed hin.2 body.conditions
  have hopinion : opinionOn s σ.bindings (.discover body) (Optimizer.contextOf s (.on (.nodes shared))) =
      .ok (some shared, some (.nodes shared), b) :=
    Optimizer.opinionOn_nodes (contextVariable?_of_isLocationPath hpath) hpersistent hverdict
  cases b with
  | false => exact ⟨v, (result_optimize_fallback hp hfree hr hfresh hopinion).trans hv, rfl⟩
  | true =>
    obtain ⟨hne, hcovers⟩ := hcovers rfl
    have hnarrowable : body.IsNarrowable s (InDocuments shared.set) :=
      ⟨hpath, hfree, hanalyzed, hnumbers, fun o ho =>
        IndexProbe.coversDocs_of_coversAll (hcovers o ho)⟩
    have hgiven := isGiven_of_isIn hin hpersistent
    have hvalue : σ.outcome (body.evaluate s (.on (.ofSet shared.set))) = .ok v :=
      hv ▸ outcome_congr_contextSet hpath hfree rfl
    cases hstep : body.contextStep? with
    | none =>
      obtain ⟨rounds, hrounds, v', hv', hitems⟩ := outcome_narrowed hs hσ hnarrowable hgiven hroot hne
        hvalue
      exact ⟨v', (result_optimize_context hp hfree hr hfresh hopinion hstep hrounds).trans hv',
        hitems⟩
    | some step =>
      obtain ⟨rounds, hrounds, v', hv', hitems⟩ := outcome_prepared hs hσ hnarrowable hgiven hne hstep
        hvalue
      exact ⟨v', (result_optimize_step hp hfree hr hfresh hopinion hstep hrounds).trans hv', hitems⟩

/-- **Narrowing neither loses nor adds results.**  Whenever a location path along descending axes
has a value under the pragma `optimize` with `enable=no`, it has the same items in the same order
under the pragma `optimize`, for every set of nodes that the store has handed out. -/
theorem evaluate_optimize_of_direct {config : Configuration} {surface : Surface} {direct : Expr}
    {pragmas : List Pragma} {m m' : ExprId}
    (hdirect : (ofSurface config (.pragma [.optimize false] (some surface))).run .none =
      .ok (direct, m))
    (hoptimized : (ofSurface config (.pragma [.optimize true] (some surface))).run .none =
      .ok (extension id pragmas body, m'))
    (hfree : body.IsPragmaFree) (hpath : body.isLocationPath = true) (hs : s.Reachable)
    (hplain : s.IsPlain) (hprobes : s.interrupted = false) (bindings : List (String × Sequence))
    (hin : shared.set.IsIn s) (hpersistent : shared.set.persistent = true)
    (hroot : body.startsAtRoot = true → ∀ n ∈ shared.set, n = .document n.doc) {v : Sequence}
    (hv : (direct.evaluate s (.on (.nodes shared))).result ⟨.ofBindings bindings, .zero⟩ = .ok v) :
    ∃ v', ((extension id pragmas body).evaluate s (.on (.nodes shared))).result
        ⟨.ofBindings bindings, .zero⟩ = .ok v' ∧ v'.toItems = v.toItems := by
  obtain ⟨lowered, rfl, hnumbers, rfl, rfl, rfl⟩ := exists_body_of_optimize hdirect hoptimized
  let σ : Setting := ⟨bindings, []⟩
  have hholds : σ.Holds ⟨.ofBindings bindings, .zero⟩ := ⟨rfl, fun _ => rfl⟩
  rw [result_optimize_disabled rfl hfree hholds rfl] at hv
  exact result_optimize_enabled ⟨hs.isIndexed, hplain, hprobes⟩ (fun _ => rfl) rfl hfree hpath
    (isAnalyzed_analyze _ _) hnumbers hholds rfl hin hpersistent hroot hv

/-- A query for elements by an attribute has the same items under both pragmas, and they are
found by narrowing. -/
theorem evaluate_optimize_of_direct_bookQuery : ∃ direct pragmas body m m' v v',
    (ofSurface .standard (.pragma [.optimize false] (some bookQuery))).run .none =
      .ok (direct, m) ∧
    (ofSurface .standard (.pragma [.optimize true] (some bookQuery))).run .none =
      .ok (extension 1 pragmas body, m') ∧
    (direct.evaluate langStore (.on (.ofSet ⟨[.document 0], true⟩))).result
      ⟨.ofBindings [], .zero⟩ = .ok v ∧
    ((extension 1 pragmas body).evaluate langStore (.on (.ofSet ⟨[.document 0], true⟩))).result
      ⟨.ofBindings [], .zero⟩ = .ok v' ∧
    v'.toItems = v.toItems ∧ v.toItems = [.node ⟨0, ⟨[1]⟩⟩] ∧
    ((((extension 1 pragmas body).evaluate langStore (.on (.ofSet ⟨[.document 0], true⟩))).after
      ⟨.ofBindings [], .zero⟩).context.optimizer? 2).map (fun state => state.stats.optimized) =
        some 1 := by
  let focus : Focus := .on (.ofSet ⟨[.document 0], true⟩)
  have hdirect : ((ofSurface .standard (.pragma [.optimize false] (some bookQuery))).run .none).map
      (fun r => ((r.1.evaluate langStore focus).result ⟨.ofBindings [], .zero⟩).map
        Sequence.toItems) = .ok (.ok [.node ⟨0, ⟨[1]⟩⟩]) := by
    decide +kernel
  have hnarrowed : ((ofSurface .standard (.pragma [.optimize true] (some bookQuery))).run .none).map
      (fun r => ((((r.1.evaluate langStore focus).after
        ⟨.ofBindings [], .zero⟩).context.optimizer? 2).map fun state => state.stats.optimized)) =
          .ok (some 1) := by
    decide +kernel
  have hlowered : ((bookQuery.lower .standard).run 2).map (fun r =>
      ((r.1.analyze .top).parts.all Part.isPlain, (r.1.analyze .top).isLocationPath)) =
        .ok (true, true) := by
    decide +kernel
  obtain ⟨⟨direct, m⟩, hdirect, hv⟩ := map_eq_ok.1 hdirect
  obtain ⟨⟨optimized, m'⟩, hoptimized, hnarrowed⟩ := map_eq_ok.1 hnarrowed
  obtain ⟨v, hv, hitems⟩ := map_eq_ok.1 hv
  obtain ⟨lowered, k, hbody, rfl⟩ :=
    exists_lower_of_pragma (Pragma.create_optimize true .standard) hoptimized
  rw [hbody] at hlowered
  obtain ⟨hplain, hpath⟩ := Prod.mk.inj (Except.ok.inj hlowered)
  let shared : SharedSet := ⟨⟨[.document 0], true⟩, none⟩
  have hdocument : ∀ n ∈ shared.set, n = .document 0 := fun n hn => List.mem_singleton.1 hn
  have hin : shared.set.IsIn langStore := by
    decide +kernel
  have hroot : ∀ n ∈ shared.set, n = .document n.doc := by
    intro n hn
    obtain rfl := hdocument n hn
    rfl
  obtain ⟨v', hv', hsame⟩ := evaluate_optimize_of_direct hdirect hoptimized (plain_of_parts hplain).1
    hpath reachable_langStore isPlain_langStore rfl [] hin rfl (fun _ => hroot) hv
  exact ⟨direct, _, _, m, m', v, v', hdirect, hoptimized, hv, hv', hsame, hitems, hnarrowed⟩

end Expr
end IndexedXml
