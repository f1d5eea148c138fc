/-
# Candidates are dropped again

Candidates are prepared for a step while the expression with that step is evaluated.  This may fail
anywhere, and it may come upon further pragmas for which candidates are prepared, too.  However it
ends, no step has candidates after an evaluation, and at no time is a step given candidates that
has some (`CompiledQuery.preloaded_eq_nil_and_exclusive`).

What a pragma prepares candidates for is a step outside of the pragmas below it, and so a step that
no pragma below it can choose.  Along an evaluation the steps with candidates are therefore kept
apart from all that stands below a pragma (`Tidy`).
-/

import IndexedXml.Proofs.Query.Answers
import IndexedXml.Proofs.Query.Nesting

namespace IndexedXml

open Evaluation

/-! ### Other ways to prepare candidates -/

/-- How candidates are prepared for a step while something is evaluated. -/
abbrev Preparation := ExprId → NodeSet → Evaluation Sequence → Evaluation Sequence

namespace Optimizer

/-- Evaluates for what narrowing leaves, with a way to prepare candidates. -/
def narrowBy (prepare : Preparation) (s : Store) (id : ExprId) (state : OptimizeState)
    (body : Focus → Evaluation Sequence) (j : Judgement) : Evaluation Sequence := do
  let context ← orFail (j.working.getD .empty).toShared
  let rounds ← Narrowing.rounds s state.contextStep context.set state.optimizables
  update (·.updateOptimizer id (countNarrowing s j.given rounds))
  let candidates := Narrowing.candidates rounds
  match state.contextStep with
  | none => body (.on (.ofSet candidates))
  | some step =>
    let narrowed := j.given.map fun o => .ofSet (o.set.filterDocuments candidates)
    prepare step.id candidates (body ⟨narrowed, none⟩)

/-- **The optimizer with a way to prepare candidates.** -/
def evaluateBy (prepare : Preparation) (s : Store) : Strategy := fun id body focus => do
  match (← queryContext).optimizer? id with
  | none => body focus
  | some state =>
    let context := contextOf s focus
    let j ← judge s state context
    update (·.updateOptimizer id (countJudgement j))
    if j.optimize then narrowBy prepare s id state body j else fallBack id body focus context j

/-- The optimizer prepares candidates so that they are dropped at the end. -/
theorem evaluateBy_preloading (s : Store) : evaluateBy preloading s = evaluate s := rfl

end Optimizer

/-- **Prepares candidates for a step that has none.**  Where the step has some, it is left to
another way. -/
def exclusively (otherwise : Preparation) : Preparation := fun step candidates evaluation => do
  match (← queryContext).preloaded.get? step with
  | none => preloading step candidates evaluation
  | some _ => otherwise step candidates evaluation

/-! ### Tidy contexts -/

/-- **What an optimizer has found out,** and that it keeps a verdict only where there is something
to optimize. -/
structure OptimizeState.StemsFrom (state found : OptimizeState) : Prop where
  optimizables : state.optimizables = found.optimizables
  contextStep : state.contextStep = found.contextStep
  cache : state.cache ≠ none → found.optimizables ≠ []

/-- **A tidy context:** optimizers are as they have found things out, and only certain steps have
candidates. -/
structure Tidy (whole : Expr) (prepared : ExprId → Prop) (c : QueryContext) : Prop where
  optimizers : c.ForOptimizers whole OptimizeState.StemsFrom
  preloaded : ∀ id, c.preloaded.get? id ≠ none → prepared id

variable {whole : Expr} {prepared : ExprId → Prop} {c c' : QueryContext} {s : Store} {p : Pragma}
  {enabled : Bool} {body : Expr} {state found : OptimizeState} {otherwise : Preparation}

theorem stemsFrom_found (enabled : Bool) (body : Expr) :
    (Pragma.found enabled body).StemsFrom (Pragma.found enabled body) := by
  refine ⟨rfl, rfl, fun hcache => absurd ?_ hcache⟩
  cases enabled <;> rfl

/-- What is kept apart from verdicts and candidates does not matter. -/
theorem Tidy.congr (h : Tidy whole prepared c) (hoptimizers : c'.optimizers = c.optimizers)
    (hpreloaded : c'.preloaded = c.preloaded) : Tidy whole prepared c' := by
  refine ⟨fun p enabled body hp state hstate => ?_, hpreloaded ▸ h.preloaded⟩
  unfold QueryContext.optimizer? at hstate
  rw [hoptimizers] at hstate
  exact h.optimizers p enabled body hp state hstate

theorem Tidy.updateOptimizer (hwhole : whole.numbers.Nodup) (h : Tidy whole prepared c)
    (hp : p.Optimizes whole enabled body) {f : OptimizeState → OptimizeState}
    (hf : ∀ state, state.StemsFrom (Pragma.found enabled body) →
      (f state).StemsFrom (Pragma.found enabled body)) :
    Tidy whole prepared (c.updateOptimizer p.id f) := by
  refine ⟨h.optimizers.updateOptimizer hwhole hp hf, ?_⟩
  rw [QueryContext.preloaded_updateOptimizer]
  exact h.preloaded

theorem Tidy.activated (hwhole : whole.numbers.Nodup) (h : Tidy whole prepared c)
    (hp : p.Optimizes whole enabled body) : Tidy whole prepared (activated c p enabled body) := by
  unfold IndexedXml.activated
  cases c.optimizer? p.id with
  | some state => exact h
  | none =>
    exact ⟨h.optimizers.setOptimizer hwhole hp (stemsFrom_found enabled body), h.preloaded⟩

theorem Tidy.preload (h : Tidy whole prepared c) (step : ExprId) (candidates : NodeSet) :
    Tidy whole (fun id => id = step ∨ prepared id) (c.preload step candidates) := by
  refine ⟨h.optimizers, fun id hid => ?_⟩
  rw [QueryContext.preload, Table.get?_put] at hid
  split_ifs at hid with heq
  · exact .inl heq
  · exact .inr (h.preloaded id hid)

theorem Tidy.unload {step : ExprId} (h : Tidy whole (fun id => id = step ∨ prepared id) c) :
    Tidy whole prepared (c.unload step) := by
  refine ⟨h.optimizers, fun id hid => ?_⟩
  rw [QueryContext.unload, Table.get?_erase] at hid
  split_ifs at hid with heq
  · exact absurd rfl hid
  · exact (h.preloaded id hid).resolve_left heq

theorem Tidy.reset (h : Tidy whole prepared c) : Tidy whole prepared c.reset :=
  ⟨h.optimizers.reset fun _ _ hstems =>
    ⟨hstems.optimizables, hstems.contextStep, fun hcache => absurd rfl hcache⟩,
    fun _ hid => absurd rfl hid⟩

/-! ### One run, and tidy -/

/-- **The same run, with a tidy context.** -/
structure SameTidy (whole : Expr) (prepared : ExprId → Prop) (r r' : Run) : Prop where
  same : r = r'
  tidy : Tidy whole prepared r.context

theorem steady_sameTidy (whole : Expr) (prepared : ExprId → Prop) :
    Steady (fun _ => True) (SameTidy whole prepared) (fun _ => True) where
  count kind r r' h := ⟨by rw [h.same], h.tidy⟩
  note id r r' h := ⟨by rw [h.same], h.tidy.congr (r.context.optimizers_noteIndexUse id)
    (r.context.preloaded_noteIndexUse id)⟩
  value r r' h name := ⟨by rw [h.same], fun _ _ => trivial⟩
  prepared r r' h id _ := by rw [h.same]
  set _ := trivial
  items _ := trivial

/-- Two computations are one, and leave contexts tidy. -/
abbrev StaysTidy {α : Type} (whole : Expr) (prepared : ExprId → Prop) (m m' : Evaluation α) : Prop :=
  Alike (SameTidy whole prepared) (fun _ => True) m m'

theorem staysTidy_update {f : QueryContext → QueryContext}
    (hf : ∀ c, Tidy whole prepared c → Tidy whole prepared (f c)) :
    StaysTidy whole prepared (update f) (update f) :=
  .update fun _ _ h => ⟨by rw [h.same], hf _ h.tidy⟩

theorem staysTidy_enter (id : ExprId) (phase : Phase) :
    StaysTidy whole prepared (update (·.enter id phase)) (update (·.enter id phase)) :=
  staysTidy_update fun _ h => h.congr rfl rfl

/-- **Where a step has no candidates,** preparing them exclusively is preparing them. -/
theorem staysTidy_exclusively {step : ExprId} (hstep : ¬prepared step) (candidates : NodeSet)
    {m m' : Evaluation Sequence}
    (hm : StaysTidy whole (fun id => id = step ∨ prepared id) m m') :
    StaysTidy whole prepared (exclusively otherwise step candidates m)
      (preloading step candidates m') := by
  change Alike _ _ _ (queryContext >>= fun _ => preloading step candidates m')
  refine Alike.queryContext_bind fun r r' hr => ?_
  have hnone : r.context.preloaded.get? step = none := by
    by_contra hne
    exact hstep (hr.tidy.preloaded step hne)
  rw [hnone]
  exact Alike.preloading (fun r r' h => ⟨by rw [h.same], h.tidy.preload step candidates⟩)
    (fun r r' h => ⟨by rw [h.same], h.tidy.unload⟩) hm

/-! ### Optimizing -/

/-- A judgement is positive only where there is something to optimize. -/
theorem optimizables_ne_nil_of_judge (hstems : state.StemsFrom found) {context : Option Sequence}
    {r : Run} {j : Optimizer.Judgement} (hj : (Optimizer.judge s state context).result r = .ok j)
    (hoptimize : j.optimize = true) : found.optimizables ≠ [] := by
  rcases eq_of_judge hj with rfl | ⟨working, optimize, ⟨hcached, -⟩ | ⟨hverdict, rfl⟩⟩
  · cases hoptimize
  · refine hstems.cache fun hnone => ?_
    unfold Optimizer.cached? at hcached
    rw [hnone] at hcached
    cases hcached
  · obtain rfl : optimize = true := hoptimize
    exact hstems.optimizables ▸ (coversAll_of_verdict hverdict).1

/-- **What is narrowed for stands in the expression, outside of the pragmas in it.** -/
theorem contextStep_outside (hbody : body.numbers.Nodup)
    (hne : (Pragma.found enabled body).optimizables ≠ []) {step : ContextStep}
    (hstep : (Pragma.found enabled body).contextStep = some step) : body.IsOutside step.id := by
  cases enabled with
  | false => exact absurd rfl hne
  | true => exact Expr.contextStep?_outside hbody hne hstep

/-- **Two evaluations of an expression are one,** and leave contexts tidy, as long as nothing below
the pragmas in it has candidates. -/
def BodyStaysTidy (whole body : Expr) (evaluate evaluate' : Focus → Evaluation Sequence) : Prop :=
  ∀ prepared : ExprId → Prop, (∀ i, prepared i → ¬body.Encloses i) →
    ∀ focus, StaysTidy whole prepared (evaluate focus) (evaluate' focus)

variable {evaluate evaluate' : Focus → Evaluation Sequence}

/-- Nothing below the pragmas in an expression has candidates when nothing in it has. -/
theorem BodyStaysTidy.of_apart (h : BodyStaysTidy whole body evaluate evaluate')
    (hprepared : ∀ i, prepared i → i ∉ body.numbers) (focus : Focus) :
    StaysTidy whole prepared (evaluate focus) (evaluate' focus) :=
  h prepared (fun i hi hbelow => hprepared i hi hbelow.mem_numbers) focus

theorem staysTidy_narrow (hwhole : whole.numbers.Nodup) (hp : p.Optimizes whole enabled body)
    (hprepared : ∀ i, prepared i → i ∉ body.numbers)
    (hbody : BodyStaysTidy whole body evaluate evaluate')
    (hstems : state.StemsFrom (Pragma.found enabled body))
    (hne : (Pragma.found enabled body).optimizables ≠ []) (j : Optimizer.Judgement) :
    StaysTidy whole prepared
      (Optimizer.narrowBy (exclusively otherwise) s p.id state evaluate j)
      (Optimizer.narrowBy preloading s p.id state evaluate' j) := by
  unfold Optimizer.narrowBy
  refine Alike.bind (.orFail_any _) fun context _ => ?_
  refine Alike.bind (alike_rounds (steady_sameTidy whole prepared) s _ _ _) fun rounds _ => ?_
  refine Alike.bind (staysTidy_update fun c h => h.updateOptimizer hwhole hp fun state h =>
    ⟨h.optimizables, h.contextStep, fun _ => hne⟩) fun _ _ => ?_
  cases hstep : state.contextStep with
  | none => exact hbody.of_apart hprepared _
  | some step =>
    -- The step is in the expression, so that it has no candidates yet, and no pragma below can
    -- choose it.
    obtain ⟨hmem, hnot⟩ :=
      contextStep_outside (hp.nodup_numbers hwhole) hne (hstems.contextStep ▸ hstep)
    refine staysTidy_exclusively (fun h => hprepared step.id h hmem) _ (hbody _ (fun i hi => ?_) _)
    rcases hi with rfl | hi
    · exact hnot
    · exact fun hbelow => hprepared i hi hbelow.mem_numbers

/-- **The optimizer gives no step candidates that has some,** as long as nothing in the expression
has candidates at first. -/
theorem staysTidy_optimize (hwhole : whole.numbers.Nodup) (hp : p.Optimizes whole enabled body)
    (hprepared : ∀ i, prepared i → i ∉ body.numbers)
    (hbody : BodyStaysTidy whole body evaluate evaluate') (focus : Focus) :
    StaysTidy whole prepared
      (Optimizer.evaluateBy (exclusively otherwise) s p.id evaluate focus)
      (Optimizer.evaluate s p.id evaluate' focus) := by
  rw [← Optimizer.evaluateBy_preloading]
  unfold Optimizer.evaluateBy
  refine Alike.queryContext_bind fun r r' hr => ?_
  obtain ⟨rfl, htidy⟩ := hr
  cases hstate : r.context.optimizer? p.id with
  | none => exact hbody.of_apart hprepared focus
  | some state =>
    have hstems := htidy.optimizers p enabled body hp state hstate
    refine Alike.read_bind (after_judge s state _) (after_judge s state _) fun r r' hr => ?_
    obtain ⟨rfl, -⟩ := hr
    cases hj : (Optimizer.judge s state (Optimizer.contextOf s focus)).result r with
    | error e => exact .inr ⟨e, rfl, rfl⟩
    | ok j =>
      refine .inl ⟨j, j, rfl, rfl, ?_⟩
      refine Alike.bind (staysTidy_update fun c h => h.updateOptimizer hwhole hp fun state h =>
        ⟨h.optimizables, h.contextStep, h.cache⟩) fun _ _ => ?_
      by_cases hoptimize : j.optimize = true
      · rw [if_pos hoptimize, if_pos hoptimize]
        exact staysTidy_narrow hwhole hp hprepared hbody hstems
          (optimizables_ne_nil_of_judge hstems hj hoptimize) j
      · rw [if_neg hoptimize, if_neg hoptimize]
        refine Alike.bind (staysTidy_update fun c h => h.updateOptimizer hwhole hp fun state h =>
          ⟨h.optimizables, h.contextStep, h.cache⟩) fun _ _ => ?_
        exact hbody.of_apart hprepared _

/-! ### Pragmas -/

theorem staysTidy_activate (hwhole : whole.numbers.Nodup)
    (hp : ∀ explicit enabled contextId, p.kind = .optimize explicit enabled contextId →
      p.Optimizes whole enabled body) :
    StaysTidy whole prepared (activate body p) (activate body p) := by
  cases hkind : p.kind with
  | optimize explicit enabled contextId =>
    rw [activate_optimize hkind]
    exact Alike.bind (staysTidy_update fun c h =>
      h.activated hwhole (hp explicit enabled contextId hkind)) fun _ _ => staysTidy_enter _ _
  | noIndex =>
    rw [activate_noIndex hkind]
    exact staysTidy_enter _ _
  | forceIndexUse =>
    rw [activate_forceIndexUse hkind]
    exact Alike.bind (staysTidy_update fun c h => h.congr rfl rfl) fun _ _ => staysTidy_enter _ _

theorem staysTidy_deactivate :
    StaysTidy whole prepared (deactivate body p) (deactivate body p) := by
  unfold deactivate
  refine Alike.bind (staysTidy_enter _ _) fun _ _ => ?_
  cases p.kind with
  | optimize explicit enabled contextId => exact .pure trivial
  | noIndex => exact .pure trivial
  | forceIndexUse =>
    refine Alike.queryContext_bind fun r r' hr => ?_
    rw [hr.same]
    split_ifs
    · exact .pure trivial
    · exact .orFail_any _

/-- **An expression with pragmas gives no step candidates that has some,** when what is below does
not. -/
theorem staysTidy_evaluateExtensionBy (hwhole : whole.numbers.Nodup) {id : ExprId}
    {pragmas : List Pragma} (hpart : .expr (.extension id pragmas body) ∈ whole.parts)
    (hprepared : ∀ i, prepared i → i ∉ body.numbers)
    (hbody : BodyStaysTidy whole body evaluate evaluate') (focus : Focus) :
    StaysTidy whole prepared
      (evaluateExtensionBy (Optimizer.evaluateBy (exclusively otherwise) s) pragmas body evaluate
        focus)
      (evaluateExtensionBy (Optimizer.evaluate s) pragmas body evaluate' focus) := by
  have hpragmas : ∀ p ∈ pragmas, ∀ explicit enabled contextId,
      p.kind = .optimize explicit enabled contextId → p.Optimizes whole enabled body :=
    fun p hp explicit enabled contextId hkind =>
      ⟨⟨id, pragmas, hpart, hp⟩, explicit, contextId, hkind⟩
  refine Alike.bind (.forM fun p hp => staysTidy_activate hwhole (hpragmas p hp)) fun _ _ => ?_
  refine Alike.bind (alike_evaluatePragmasBy staysTidy_enter
    (hbody.of_apart hprepared focus)
    fun p hp explicit enabled contextId hkind => staysTidy_optimize hwhole
      (hpragmas p hp explicit enabled contextId hkind) hprepared hbody focus) fun value _ => ?_
  exact Alike.bind (.forM fun p _ => staysTidy_deactivate) fun _ _ => .pure trivial

/-! ### Expressions -/

/-- **No step gets candidates while it has some,** along the evaluation of any expression below
whose pragmas nothing has candidates at first. -/
theorem staysTidy_evaluateBy (hwhole : whole.numbers.Nodup) (otherwise : Preparation) (s : Store)
    (e : Expr) : e.parts ⊆ whole.parts →
      BodyStaysTidy whole e (e.evaluateBy s (Optimizer.evaluateBy (exclusively otherwise) s))
        (e.evaluateBy s (Optimizer.evaluate s)) := by
  -- The steps with candidates change below pragmas, so that the induction is over what is there.
  induction e using Expr.induct_extensions with
  | _ e ih =>
    intro hsub prepared hprepared focus
    refine Expr.alike_evaluateBy
      (fun i : { prepared : ExprId → Prop // ∀ i, prepared i → ¬e.Encloses i } =>
        steady_sameTidy whole i.1)
      s _ _ e ⟨fun _ _ _ => trivial, ?_⟩ ⟨prepared, hprepared⟩ focus fun _ _ => trivial
    intro id pragmas body hpart _ i focus _
    have hbody := ih id pragmas body hpart (List.Subset.trans
      (Expr.parts_subset_extension id pragmas body)
      (List.Subset.trans (Expr.parts_subset_of_mem e hpart) hsub))
    exact staysTidy_evaluateExtensionBy hwhole (hsub hpart)
      (fun n hn hmem => i.2 n hn ⟨id, pragmas, body, hpart, hmem⟩) hbody focus

/-! ### Contexts used for one query -/

/-- **A context that has been used for one query only:** since it was new nothing has happened to
it but evaluations of the query, on whatever stores, declarations of variables and resets. -/
inductive QueryContext.UsedOnlyFor (q : CompiledQuery) : QueryContext → Prop
  | new : UsedOnlyFor q .empty
  | declare {c : QueryContext} (name : String) (value : Sequence) (h : UsedOnlyFor q c) :
    UsedOnlyFor q (c.declare name value)
  | reset {c : QueryContext} (h : UsedOnlyFor q c) : UsedOnlyFor q c.reset
  | evaluate {c : QueryContext} (s : Store) (focus : Focus) (counts : LookupCounts)
    (h : UsedOnlyFor q c) : UsedOnlyFor q ((q.evaluate s focus).after ⟨c, counts⟩).context

namespace CompiledQuery

variable {q : CompiledQuery}

/-- **One evaluation** from a tidy context without candidates. -/
theorem staysTidy_evaluate (hq : q.root.numbers.Nodup) (otherwise : Preparation) (s : Store)
    (focus : Focus) :
    StaysTidy q.root (fun _ => False)
      (q.root.evaluateBy s (Optimizer.evaluateBy (exclusively otherwise) s) focus)
      (q.evaluate s focus) := by
  unfold evaluate
  rw [← Expr.evaluateBy_optimizer]
  exact staysTidy_evaluateBy hq otherwise s q.root (List.Subset.refl _) _ (fun _ h => h.elim) focus

/-- **Contexts used for one query are tidy, and no step has candidates in them.** -/
theorem tidy_of_usedOnlyFor (hq : q.root.numbers.Nodup) (hc : c.UsedOnlyFor q) :
    Tidy q.root (fun _ => False) c := by
  induction hc with
  | new => exact ⟨fun _ _ _ _ _ h => (nomatch h), fun _ h => absurd rfl h⟩
  | declare name value _ ih => exact ih.congr rfl rfl
  | reset _ ih => exact ih.reset
  | @evaluate c s focus counts _ ih =>
    obtain ⟨-, hafter, -⟩ :=
      staysTidy_evaluate hq preloading s focus ⟨c, counts⟩ ⟨c, counts⟩ ⟨rfl, ih⟩
    exact hafter.same ▸ hafter.tidy

theorem preloaded_eq_nil (h : Tidy q.root (fun _ => False) c) : c.preloaded = [] :=
  Table.eq_nil_iff.2 fun id => by_contra fun hne => h.preloaded id hne

/-- **Candidates are dropped again.**  In a context that has been used for a compiled query only,
no step has candidates, and none has any after a further evaluation of the query, whatever comes
out of it, a value or an error.  Along this evaluation no step is given candidates while it has
some: that would be left to something else, and it makes no difference what that is. -/
theorem preloaded_eq_nil_and_exclusive {source : String} {config : Configuration}
    (hq : compile source config = .ok q) (hc : c.UsedOnlyFor q) (s : Store) (focus : Focus)
    (counts : LookupCounts) :
    c.preloaded = [] ∧ ((q.evaluate s focus).after ⟨c, counts⟩).context.preloaded = [] ∧
      ∀ otherwise : Preparation,
        (q.root.evaluateBy s (Optimizer.evaluateBy (exclusively otherwise) s) focus).run
            ⟨c, counts⟩ = (q.evaluate s focus).run ⟨c, counts⟩ := by
  have hnumbers := nodup_numbers hq
  refine ⟨preloaded_eq_nil (tidy_of_usedOnlyFor hnumbers hc),
    preloaded_eq_nil (tidy_of_usedOnlyFor hnumbers (hc.evaluate s focus counts)),
    fun otherwise => ?_⟩
  obtain ⟨hresult, hafter, -⟩ := staysTidy_evaluate hnumbers otherwise s focus ⟨c, counts⟩
    ⟨c, counts⟩ ⟨rfl, tidy_of_usedOnlyFor hnumbers hc⟩
  exact Prod.ext hresult hafter.same

end CompiledQuery

/-! ### Books and their authors -/

/-- A store with a book in a collection that has indexes on titles and authors. -/
def authorsStore : Store :=
  (Store.empty.perform (.configureCollection "/db"
    [⟨⟨.element, ⟨none, "title", none⟩⟩, .string⟩,
      ⟨⟨.element, ⟨none, "author", none⟩⟩, .string⟩])).perform
    (.storeXml "/db" "a.xml" "<book><title>Dune</title><author>Herbert</author></book>")

/-- The document of the book. -/
def authorsLibrary : SharedSet := ⟨⟨[.document 0], true⟩, some 0⟩

/-- The query for the books with a title and an author, both optimized, if there is the value of a
variable besides. -/
def writtenBooks : String :=
  "(# exist:optimize #) \x7b //book[title = 'Dune'][(# exist:optimize #) \x7b " ++
    "descendant::author[. = 'Herbert'] \x7d][$x = 'new'] \x7d"

namespace CompiledQuery

/-- A variable is missing when candidates are prepared for the step to the book, and it is declared
after that.  In between both pragmas have narrowed what they belong to. -/
theorem preloaded_eq_nil_and_exclusive_after_failure : ∃ q failed,
    compile writtenBooks .standard = .ok q ∧
      failed = (q.evaluate authorsStore (.on (.nodes authorsLibrary))).after ⟨.empty, .zero⟩ ∧
      ((q.evaluate authorsStore (.on (.nodes authorsLibrary))).result ⟨.empty, .zero⟩).toBool =
        false ∧
      (failed.context.optimizers.map fun entry => (entry.1, entry.2.stats.optimized)) =
        [(2, 1), (8, 1)] ∧
      (failed.context.declare "x" (.ofValue (.string "new"))).preloaded = [] ∧
      ((q.evaluate authorsStore (.on (.nodes authorsLibrary))).after
        ⟨failed.context.declare "x" (.ofValue (.string "new")), .zero⟩).context.preloaded = [] ∧
      ∀ otherwise : Preparation,
        (q.root.evaluateBy authorsStore (Optimizer.evaluateBy (exclusively otherwise) authorsStore)
            (.on (.nodes authorsLibrary))).run
              ⟨failed.context.declare "x" (.ofValue (.string "new")), .zero⟩ =
          (q.evaluate authorsStore (.on (.nodes authorsLibrary))).run
            ⟨failed.context.declare "x" (.ofValue (.string "new")), .zero⟩ := by
  have hcounted : (compile writtenBooks .standard).map (fun q =>
      let first := (q.evaluate authorsStore (.on (.nodes authorsLibrary))).run ⟨.empty, .zero⟩
      (first.1.toBool, first.2.context.optimizers.map fun entry =>
        (entry.1, entry.2.stats.optimized))) = .ok (false, [(2, 1), (8, 1)]) := by
    decide +kernel
  obtain ⟨q, hq, hstate⟩ := map_eq_ok.1 hcounted
  obtain ⟨hfails, hnarrowed⟩ := Prod.mk.inj hstate
  refine ⟨q, _, hq, rfl, hfails, hnarrowed, ?_⟩
  exact preloaded_eq_nil_and_exclusive hq (.declare "x" _ (.evaluate _ _ _ .new)) _ _ _

end CompiledQuery
end IndexedXml
