/-
# Evaluations that go in parallel

An expression and the same expression with details replaced are evaluated in two query contexts
that have the same variables, the same candidates for the steps of the expression, and where
optimizers have found out the same.  Then the second evaluation mirrors the first
(`Expr.mirrors_evaluate`).

What the two contexts note about uses of indexes may differ.  A `Ledger` says in which way, apart
for the conditions that a pragma around has asked for and for all others.
-/

import IndexedXml.Proofs.Query.Kept
import IndexedXml.Proofs.Query.Mirroring

namespace IndexedXml

open Evaluation

/-! ### Ledgers -/

/-- **How two contexts may differ in what they note about uses of indexes.** -/
structure Ledger (ρ : Refit) where
  /-- How the notes on a condition go together, given whether it has been asked for. -/
  agree : Prop → ExprId → Bool → Bool → Prop
  /-- A use may be noted on both sides at any time. -/
  both : ∀ asked id, agree asked id true true
  /-- Where a condition is asked for, its use is forgotten on the left, and on the right if that
  side checks uses, too. -/
  forget : ∀ asked id b b', agree asked id b b' →
    agree True id false (if ρ.checks then false else b')
  /-- Once it has turned out to be used, it need not be asked for any longer. -/
  settle : ∀ asked id b', agree True id true b' → agree asked id true b'
  /-- A side that checks uses can tell as much as the other. -/
  told : ρ.checks = true → ∀ id b b', agree True id b b' → b = b'

/-- **Two contexts go in parallel:** they have the same variables and the same candidates for some
steps, optimizers have found out the same, up to the details replaced, and the uses noted are as
the ledger says for the conditions asked for. -/
structure Parallel (ρ : Refit) (L : Ledger ρ) (J asked : ExprId → Prop) (c c' : QueryContext) :
    Prop where
  bindings : c.bindings = c'.bindings
  preloaded : ∀ id, J id → c.preloaded.get? id = c'.preloaded.get? id
  optimizer : ∀ id, c'.optimizer? id = (c.optimizer? id).map (.refit ρ)
  used : ∀ id, L.agree (asked id) id (c.hasUsedIndex id) (c'.hasUsedIndex id)

variable {ρ : Refit} {L : Ledger ρ} {J asked : ExprId → Prop} {E : QueryError → Prop}
  {c c' : QueryContext}

namespace Parallel

theorem value (h : Parallel ρ L J asked c c') (name : String) : c.value name = c'.value name := by
  rw [value_eq_valueIn, value_eq_valueIn, h.bindings]

theorem noteIndexUse (h : Parallel ρ L J asked c c') (id : ExprId) :
    Parallel ρ L J asked (c.noteIndexUse id) (c'.noteIndexUse id) := by
  refine ⟨?_, fun other hother => ?_, fun other => ?_, fun other => ?_⟩
  · rw [QueryContext.bindings_noteIndexUse, QueryContext.bindings_noteIndexUse, h.bindings]
  · rw [QueryContext.preloaded_noteIndexUse, QueryContext.preloaded_noteIndexUse,
      h.preloaded other hother]
  · unfold QueryContext.optimizer?
    rw [QueryContext.optimizers_noteIndexUse, QueryContext.optimizers_noteIndexUse]
    exact h.optimizer other
  · rw [hasUsedIndex_noteIndexUse, hasUsedIndex_noteIndexUse]
    by_cases hother : other = id
    · subst hother
      simpa using L.both (asked other) other
    · rw [beq_false_of_ne hother]
      exact h.used other

theorem enter (h : Parallel ρ L J asked c c') (id : ExprId) (phase : Phase) :
    Parallel ρ L J asked (c.enter id phase) (c'.enter id phase) :=
  ⟨h.bindings, h.preloaded, h.optimizer, h.used⟩

theorem preload (h : Parallel ρ L J asked c c') (step : ExprId) (candidates : NodeSet) :
    Parallel ρ L J asked (c.preload step candidates) (c'.preload step candidates) := by
  refine ⟨h.bindings, fun id hid => ?_, h.optimizer, h.used⟩
  rw [QueryContext.preload, QueryContext.preload, Table.get?_put, Table.get?_put, h.preloaded id hid]

theorem unload (h : Parallel ρ L J asked c c') (step : ExprId) :
    Parallel ρ L J asked (c.unload step) (c'.unload step) := by
  refine ⟨h.bindings, fun id hid => ?_, h.optimizer, h.used⟩
  rw [QueryContext.unload, QueryContext.unload, Table.get?_erase, Table.get?_erase,
    h.preloaded id hid]

/-- What optimizers find out goes in parallel when it is kept on both sides. -/
theorem setOptimizer (h : Parallel ρ L J asked c c') (id : ExprId) (state : OptimizeState) :
    Parallel ρ L J asked (c.setOptimizer id state) (c'.setOptimizer id (state.refit ρ)) := by
  refine ⟨h.bindings, h.preloaded, fun other => ?_, h.used⟩
  change (c'.optimizers.put id _).get? other = ((c.optimizers.put id state).get? other).map _
  rw [Table.get?_put, Table.get?_put]
  split_ifs
  · rfl
  · exact h.optimizer other

theorem updateOptimizer (h : Parallel ρ L J asked c c') (id : ExprId)
    {f : OptimizeState → OptimizeState} (hf : ∀ state, f (state.refit ρ) = (f state).refit ρ) :
    Parallel ρ L J asked (c.updateOptimizer id f) (c'.updateOptimizer id f) := by
  unfold QueryContext.updateOptimizer
  rw [h.optimizer id]
  cases c.optimizer? id with
  | none => exact h
  | some state =>
    dsimp only [Option.map_some]
    rw [hf]
    exact h.setOptimizer id (f state)

/-- Uses are forgotten where they are asked for. -/
theorem forgetIndexUse (h : Parallel ρ L J asked c c') (ids : List ExprId) :
    Parallel ρ L J (fun id => id ∈ ids ∨ asked id) (c.forgetIndexUse ids)
      (if ρ.checks then c'.forgetIndexUse ids else c') := by
  have hused : ∀ id, (if ρ.checks then c'.forgetIndexUse ids else c').hasUsedIndex id =
      if id ∈ ids then (if ρ.checks then false else c'.hasUsedIndex id) else c'.hasUsedIndex id := by
    intro id
    split_ifs <;> simp [hasUsedIndex_forgetIndexUse, *]
  have hrest : (if ρ.checks then c'.forgetIndexUse ids else c').bindings = c'.bindings ∧
      (if ρ.checks then c'.forgetIndexUse ids else c').preloaded = c'.preloaded ∧
      (if ρ.checks then c'.forgetIndexUse ids else c').optimizers = c'.optimizers := by
    split_ifs <;> exact ⟨rfl, rfl, rfl⟩
  refine ⟨h.bindings.trans hrest.1.symm, fun id hid => ?_, fun id => ?_, fun id => ?_⟩
  · rw [hrest.2.1]
    exact h.preloaded id hid
  · rw [QueryContext.optimizer?, hrest.2.2]
    exact h.optimizer id
  · rw [hused, hasUsedIndex_forgetIndexUse]
    by_cases hid : id ∈ ids
    · simpa [hid] using L.forget _ id _ _ (h.used id)
    · simpa [hid] using h.used id

/-- Another ledger of the conditions asked for that says no more. -/
theorem congr {asked' : ExprId → Prop} (h : Parallel ρ L J asked c c')
    (hasked : ∀ id, asked id ↔ asked' id) : Parallel ρ L J asked' c c' :=
  ⟨h.bindings, h.preloaded, h.optimizer, fun id => propext (hasked id) ▸ h.used id⟩

end Parallel

namespace Evaluation

variable (s : Store)

/-! ### Steps and predicates -/

theorem mirrors_selectAxis {head : StepHead} (hJ : J head.id) (context : NodeSet) :
    Mirrors (Parallel ρ L J asked) (Parallel ρ L J asked) E (selectAxis s head context)
      (selectAxis s head context) := by
  refine Mirrors.queryContext_bind fun c c' h => ?_
  rw [h.preloaded head.id hJ]
  dsimp only
  split
  · exact .pure _
  · unfold selectUnprepared
    split
    · exact .lookup _ _
    · exact .ofStore _

theorem mirrors_select (probe : IndexProbe) (candidates : NodeSet) :
    Mirrors (Parallel ρ L J asked) (Parallel ρ L J asked) E (probe.select s candidates)
      (probe.select s candidates) := by
  unfold IndexProbe.select
  cases probe.relation with
  | none => exact .pure _
  | some relation =>
    refine .bind (.ofStore _) fun covered => ?_
    cases covered with
    | none => exact .pure _
    | some covered =>
      dsimp only
      split_ifs
      · exact .bind (.lookup _ _) fun _ => .pure _
      · exact .pure _

theorem mirrors_noteIndexUse (id : ExprId) :
    Mirrors (Parallel ρ L J asked) (Parallel ρ L J asked) E (update (·.noteIndexUse id))
      (update (·.noteIndexUse id)) :=
  .update fun _ _ h => h.noteIndexUse id

/-- The axis of a probe plays no part in what the index selects. -/
theorem mirrors_applyByIndex (mode : PredicateMode) (e : Expr) (sequence : Sequence) :
    Mirrors (Parallel ρ L J asked) (Parallel ρ L J asked) E (applyByIndex s mode e.probe? sequence)
      (applyByIndex s mode (e.refit ρ).probe? sequence) := by
  rw [Expr.probe?_refit]
  rcases e.probe? with _ | ⟨id, probe⟩
  · cases mode <;> exact .pure _
  cases mode with
  | positional => exact .pure _
  | boolean =>
    cases sequence with
    | items list => exact .pure _
    | nodes shared =>
      refine .bind (mirrors_select s probe shared.set) fun kept => ?_
      cases kept with
      | none => exact .pure _
      | some kept => exact .bind (mirrors_noteIndexUse id) fun _ => .pure _

/-! ### Narrowing -/

theorem mirrors_round (step : Option ContextStep) (within : Bool) (o : Optimizable)
    (context : NodeSet) :
    Mirrors (Parallel ρ L J asked) (Parallel ρ L J asked) E (Narrowing.round s step within o context)
      (Narrowing.round s step within (o.refit ρ) context) := by
  refine .bind (.bind (.lookup _ _) fun _ => .bind (mirrors_noteIndexUse o.id) fun _ => .pure _)
    fun selection => .bind ?_ fun _ => .pure _
  unfold Narrowing.candidatesAbove
  split_ifs
  · exact .pure _
  · cases step with
    | none => exact .pure _
    | some step => exact .lookup _ _

theorem mirrors_laterRounds (optimizables : List Optimizable) :
    ∀ context, Mirrors (Parallel ρ L J asked) (Parallel ρ L J asked) E
      (Narrowing.laterRounds s context optimizables)
      (Narrowing.laterRounds s context (optimizables.map (.refit ρ))) := by
  induction optimizables with
  | nil => exact fun _ => .pure _
  | cons o rest ih =>
    intro context
    exact .bind (mirrors_round s none true o context) fun first =>
      .bind (ih first.ancestors) fun _ => .pure _

theorem mirrors_rounds (step : Option ContextStep) (context : NodeSet)
    (optimizables : List Optimizable) :
    Mirrors (Parallel ρ L J asked) (Parallel ρ L J asked) E
      (Narrowing.rounds s step context optimizables)
      (Narrowing.rounds s step context (optimizables.map (.refit ρ))) := by
  cases optimizables with
  | nil => exact .pure _
  | cons o rest =>
    exact .bind (mirrors_round s step false o context) fun first =>
      .bind (mirrors_laterRounds s rest first.ancestors) fun _ => .pure _

/-! ### Optimizers -/

theorem verdict_refit (working : Option Sequence) (optimizables : List Optimizable) :
    verdict s working (optimizables.map (.refit ρ)) = verdict s working optimizables := by
  induction optimizables with
  | nil => rfl
  | cons o rest ih =>
    cases rest with
    | nil => rfl
    | cons next later =>
      change (o.probe.coversAll s working >>= fun covers => if covers then
          verdict s working ((next :: later).map (.refit ρ)) else pure false) = _
      rw [ih]
      rfl

theorem mirrors_judge (state : OptimizeState) (context : Option Sequence) :
    Mirrors (Parallel ρ L J asked) (Parallel ρ L J asked) E (Optimizer.judge s state context)
      (Optimizer.judge s (state.refit ρ) context) := by
  have hworking : Mirrors (Parallel ρ L J asked) (Parallel ρ L J asked) E
      (Optimizer.workingSequence state context)
      (Optimizer.workingSequence (state.refit ρ) context) := by
    change Mirrors _ _ _ _ (Optimizer.workingSequence state context)
    unfold Optimizer.workingSequence
    cases state.contextVariable with
    | none => exact .pure _
    | some name =>
      refine .queryContext_bind fun c c' h => ?_
      rw [h.value]
      exact .bind (.orFail _) fun _ => .pure _
  unfold Optimizer.judge
  split_ifs
  · refine .bind hworking fun working => ?_
    have hcached : Optimizer.cached? s (state.refit ρ) (context.bind Optimizer.sharedOf?) =
        Optimizer.cached? s state (context.bind Optimizer.sharedOf?) := rfl
    have hverdict : verdict s working (state.refit ρ).optimizables =
        verdict s working state.optimizables := verdict_refit s working _
    rw [hcached, hverdict]
    split
    · exact .pure _
    · exact .bind (.ofStore _) fun _ => .pure _
  · exact .pure _

variable {s} {evaluate evaluate' : Focus → Evaluation Sequence}

theorem mirrors_updateOptimizer (id : ExprId) {f : OptimizeState → OptimizeState}
    (hf : ∀ state, f (state.refit ρ) = (f state).refit ρ) :
    Mirrors (Parallel ρ L J asked) (Parallel ρ L J asked) E (update (·.updateOptimizer id f))
      (update (·.updateOptimizer id f)) :=
  .update fun _ _ h => h.updateOptimizer id hf

theorem mirrors_narrow
    (hbody : ∀ focus, Mirrors (Parallel ρ L J asked) (Parallel ρ L J asked) E (evaluate focus)
      (evaluate' focus)) (id : ExprId) (state : OptimizeState) (j : Optimizer.Judgement) :
    Mirrors (Parallel ρ L J asked) (Parallel ρ L J asked) E (Optimizer.narrow s id state evaluate j)
      (Optimizer.narrow s id (state.refit ρ) evaluate' j) := by
  refine .bind (.orFail _) fun context => .bind (mirrors_rounds s _ _ _) fun rounds => ?_
  refine .bind (mirrors_updateOptimizer id fun _ => rfl) fun _ => ?_
  rcases state with ⟨optimizables, contextStep, contextVariable, cache, stats, trace⟩
  cases contextStep with
  | none => exact hbody _
  | some step =>
    exact .preloading (fun _ _ h => h.preload step.id _) (fun _ _ h => h.unload step.id) (hbody _)

/-- **Optimizers go in parallel** when what they evaluate does. -/
theorem mirrors_optimize
    (hbody : ∀ focus, Mirrors (Parallel ρ L J asked) (Parallel ρ L J asked) E (evaluate focus)
      (evaluate' focus)) (id : ExprId) (focus : Focus) :
    Mirrors (Parallel ρ L J asked) (Parallel ρ L J asked) E (Optimizer.evaluate s id evaluate focus)
      (Optimizer.evaluate s id evaluate' focus) := by
  refine .queryContext_bind fun c c' h => ?_
  rw [h.optimizer id]
  cases c.optimizer? id with
  | none => exact hbody focus
  | some state =>
    refine .bind (mirrors_judge s state _) fun j => ?_
    refine .bind (mirrors_updateOptimizer id fun _ => rfl) fun _ => ?_
    split_ifs
    · exact mirrors_narrow hbody id state j
    · exact .bind (mirrors_updateOptimizer id fun _ => rfl) fun _ => hbody _

/-! ### Pragmas -/

/-- Whether a pragma asks for uses of indexes. -/
def asksForUse (pragmas : List Pragma) : Bool := pragmas.any fun p => p.kind == .forceIndexUse

/-- The conditions asked for once pragmas around them have been activated. -/
def askedBelow (asked : ExprId → Prop) (pragmas : List Pragma) (body : Expr) (id : ExprId) : Prop :=
  asksForUse pragmas = true ∧ id ∈ body.reporters ∨ asked id

theorem askedBelow_of_reporter {asked : ExprId → Prop} {pragmas : List Pragma} {body : Expr}
    {id : ExprId} (h : asksForUse pragmas = true ∧ id ∈ body.reporters) :
    askedBelow asked pragmas body id = True :=
  eq_true (.inl h)

theorem askedBelow_of_not_reporter {asked : ExprId → Prop} {pragmas : List Pragma} {body : Expr}
    {id : ExprId} (h : ¬ (asksForUse pragmas = true ∧ id ∈ body.reporters)) :
    askedBelow asked pragmas body id = asked id :=
  propext (or_iff_right h)

theorem mirrors_enter (id : ExprId) (phase : Phase) :
    Mirrors (Parallel ρ L J asked) (Parallel ρ L J asked) E (update (·.enter id phase))
      (update (·.enter id phase)) :=
  .update fun _ _ h => h.enter id phase

theorem mirrors_activate (body : Expr) (p : Pragma) :
    Mirrors (Parallel ρ L J asked) (Parallel ρ L J (askedBelow asked [p] body)) E (activate body p)
      (activate (body.refit ρ) (p.refit ρ)) := by
  rcases p with ⟨id, name, contents, kind, analyzed⟩
  cases kind with
  | optimize explicit enabled contextId =>
    refine .bind (.update fun c c' h => ?_) fun _ => mirrors_enter id _
    have hasked : Parallel ρ L J (askedBelow asked
        [⟨id, name, contents, .optimize explicit enabled contextId, analyzed⟩] body) c c' :=
      h.congr fun _ => by simp [askedBelow, asksForUse]
    dsimp only [Pragma.refit]
    rw [h.optimizer id]
    cases c.optimizer? id with
    | some state => exact hasked
    | none =>
      rw [OptimizeState.discover_refit]
      cases enabled
      · exact hasked.setOptimizer id _
      · exact hasked.setOptimizer id _
  | noIndex =>
    exact .update fun c c' h => (h.enter id _).congr fun _ => by simp [askedBelow, asksForUse]
  | forceIndexUse =>
    have hforget : Mirrors (Parallel ρ L J asked) (Parallel ρ L J (askedBelow asked
        [⟨id, name, contents, .forceIndexUse, analyzed⟩] body)) E
        (update (·.forgetIndexUse body.reporters))
        (update fun c => if ρ.checks then c.forgetIndexUse body.reporters else c) :=
      .update fun c c' h => (h.forgetIndexUse body.reporters).congr fun _ => by
        simp [askedBelow, asksForUse]
    unfold activate
    rw [Expr.reporters_refit]
    simp only [Pragma.refit, PragmaKind.refit]
    by_cases hchecks : ρ.checks = true
    · simp only [hchecks, if_true] at hforget ⊢
      exact .bind hforget fun _ => mirrors_enter id _
    · simp only [hchecks] at hforget ⊢
      exact .bind hforget fun _ => mirrors_enter id _

theorem mirrors_activations (body : Expr) (pragmas : List Pragma) :
    ∀ asked, Mirrors (Parallel ρ L J asked) (Parallel ρ L J (askedBelow asked pragmas body)) E
      (pragmas.forM (activate body)) ((pragmas.map (.refit ρ)).forM (activate (body.refit ρ))) := by
  induction pragmas with
  | nil =>
    intro asked r r' h
    refine ⟨fun _ _ => ⟨rfl, h.congr fun _ => by simp [askedBelow, asksForUse]⟩, fun _ _ he => nomatch he⟩
  | cons p rest ih =>
    intro asked
    have hrest := ih (askedBelow asked [p] body)
    have hcons : askedBelow (askedBelow asked [p] body) rest body =
        askedBelow asked (p :: rest) body := by
      funext id
      simp only [askedBelow, asksForUse, List.any_cons, List.any_nil, Bool.or_false, Bool.or_eq_true,
        eq_iff_iff]
      tauto
    rw [hcons] at hrest
    exact .bind (mirrors_activate body p) fun _ => hrest

/-- The pragmas that optimize stay the ones that do. -/
theorem evaluatePragmas_refit (focus : Focus) (pragmas : List Pragma) :
    evaluatePragmas s evaluate focus (pragmas.map (.refit ρ)) =
      evaluatePragmas s evaluate focus pragmas := by
  induction pragmas with
  | nil => rfl
  | cons p rest ih =>
    rcases p with ⟨id, name, contents, kind, analyzed⟩
    rw [List.map_cons, evaluatePragmas, evaluatePragmas, ih]
    cases kind with
    | optimize explicit enabled contextId => rfl
    | noIndex => rfl
    | forceIndexUse =>
      simp only [Pragma.refit, PragmaKind.refit]
      split_ifs <;> rfl

theorem mirrors_evaluatePragmas
    (hbody : ∀ focus, Mirrors (Parallel ρ L J asked) (Parallel ρ L J asked) E (evaluate focus)
      (evaluate' focus)) (focus : Focus) (pragmas : List Pragma) :
    Mirrors (Parallel ρ L J asked) (Parallel ρ L J asked) E (evaluatePragmas s evaluate focus pragmas)
      (evaluatePragmas s evaluate' focus pragmas) := by
  induction pragmas with
  | nil => exact hbody focus
  | cons p rest ih =>
    refine .bind (mirrors_enter p.id _) fun _ => ?_
    cases p.kind with
    | optimize explicit enabled contextId => exact mirrors_optimize hbody p.id focus
    | noIndex => exact ih
    | forceIndexUse => exact ih

theorem result_deactivate (body : Expr) (p : Pragma) (r : Run) :
    (deactivate body p).result r =
      if asksForUse [p] = true ∧ allUseIndexes r.context body = false then
        .error (.indexNotUsed body.text)
      else .ok () := by
  rcases p with ⟨id, name, contents, kind, analyzed⟩
  cases kind with
  | forceIndexUse =>
    change (if allUseIndexes r.context body = true then pure ()
      else orFail (.error (.indexNotUsed body.text)) : Evaluation Unit).result _ = _
    cases allUseIndexes r.context body <;> rfl
  | optimize explicit enabled contextId => rfl
  | noIndex => rfl

theorem after_deactivate (body : Expr) (p : Pragma) (r : Run) :
    ((deactivate body p).after r).context = r.context.enter p.id .deactivated := by
  rcases p with ⟨id, name, contents, kind, analyzed⟩
  cases kind with
  | forceIndexUse =>
    change ((if allUseIndexes r.context body = true then pure ()
      else orFail (.error (.indexNotUsed body.text)) : Evaluation Unit).after _).context = _
    cases allUseIndexes r.context body <;> rfl
  | optimize explicit enabled contextId => rfl
  | noIndex => rfl

/-- **How deactivation ends:** it fails when uses are asked for and not all are noted. -/
theorem result_deactivations (body : Expr) (pragmas : List Pragma) :
    ∀ r, (pragmas.forM (deactivate body)).result r =
      if asksForUse pragmas = true ∧ allUseIndexes r.context body = false then
        .error (.indexNotUsed body.text)
      else .ok () := by
  induction pragmas with
  | nil => exact fun _ => rfl
  | cons p rest ih =>
    intro r
    have hcons : (p :: rest).forM (deactivate body) =
        (deactivate body p >>= fun _ => rest.forM (deactivate body)) := rfl
    have hasks : asksForUse (p :: rest) = (asksForUse [p] || asksForUse rest) := by
      simp [asksForUse]
    have huses : allUseIndexes (r.context.enter p.id .deactivated) body =
        allUseIndexes r.context body := rfl
    rw [hcons, result_bind, result_deactivate, ih, after_deactivate, huses, hasks]
    cases asksForUse [p] <;> cases allUseIndexes r.context body <;> cases asksForUse rest <;> rfl

/-- Deactivation changes nothing but phases. -/
theorem after_deactivations (body : Expr) (pragmas : List Pragma) :
    ∀ r, ∃ phases, ((pragmas.forM (deactivate body)).after r).context = { r.context with phases } := by
  induction pragmas with
  | nil => exact fun r => ⟨r.context.phases, rfl⟩
  | cons p rest ih =>
    intro r
    have hcons : (p :: rest).forM (deactivate body) =
        (deactivate body p >>= fun _ => rest.forM (deactivate body)) := rfl
    rw [hcons, after_bind]
    cases (deactivate body p).result r with
    | error e => exact ⟨_, after_deactivate body p r⟩
    | ok _ =>
      obtain ⟨phases, hphases⟩ := ih ((deactivate body p).after r)
      refine ⟨phases, hphases.trans ?_⟩
      rw [after_deactivate]
      rfl

theorem asksForUse_refit (pragmas : List Pragma) :
    asksForUse (pragmas.map (.refit ρ)) = (ρ.checks && asksForUse pragmas) := by
  have hkind : ∀ p : Pragma, ((p.refit ρ).kind == PragmaKind.forceIndexUse) =
      (ρ.checks && p.kind == PragmaKind.forceIndexUse) := by
    rintro ⟨id, name, contents, kind, analyzed⟩
    cases kind <;> cases h : ρ.checks <;> simp [Pragma.refit, PragmaKind.refit, h]
  induction pragmas with
  | nil => cases ρ.checks <;> rfl
  | cons p rest ih =>
    unfold asksForUse at ih ⊢
    rw [List.map_cons, List.any_cons, List.any_cons, ih, hkind, Bool.and_or_distrib_left]

/-- **Deactivation goes in parallel,** unless the left side alone checks uses and the failure of
that is looked at. -/
theorem mirrors_deactivations (hE : ρ.checks = true ∨ ∀ text, ¬ E (.indexNotUsed text)) (body : Expr)
    (pragmas : List Pragma) :
    Mirrors (Parallel ρ L J (askedBelow asked pragmas body)) (Parallel ρ L J asked) E
      (pragmas.forM (deactivate body))
      ((pragmas.map (.refit ρ)).forM (deactivate (body.refit ρ))) := by
  intro r r' h
  obtain ⟨phases, hafter⟩ := after_deactivations body pragmas r
  obtain ⟨phases', hafter'⟩ := after_deactivations (body.refit ρ) (pragmas.map (.refit ρ)) r'
  have hall : ρ.checks = true → asksForUse pragmas = true →
      allUseIndexes r'.context (body.refit ρ) = allUseIndexes r.context body := by
    intro hchecks hasks
    unfold allUseIndexes
    rw [Expr.reporters_refit]
    congr 1
    rw [Bool.eq_iff_iff, List.all_eq_true, List.all_eq_true]
    refine forall₂_congr fun id hid => ?_
    have hused := h.used id
    rw [askedBelow_of_reporter ⟨hasks, hid⟩] at hused
    rw [L.told hchecks id _ _ hused]
  rw [result_deactivations, result_deactivations, Expr.text_refit, asksForUse_refit, hafter, hafter']
  constructor
  · intro a ha
    split_ifs at ha with hfails
    have hfails' : ¬ ((ρ.checks && asksForUse pragmas) = true ∧
        allUseIndexes r'.context (body.refit ρ) = false) := by
      rintro ⟨hasks, huse⟩
      obtain ⟨hchecks, hasks⟩ := Bool.and_eq_true_iff.1 hasks
      exact hfails ⟨hasks, hall hchecks hasks ▸ huse⟩
    rw [if_neg hfails']
    refine ⟨rfl, h.bindings, h.preloaded, h.optimizer, fun id => ?_⟩
    have hused := h.used id
    by_cases hid : asksForUse pragmas = true ∧ id ∈ body.reporters
    · -- What has been asked for has turned out to be used.
      have huse : r.context.hasUsedIndex id = true := by
        by_contra hne
        refine hfails ⟨hid.1, ?_⟩
        rw [allUseIndexes, Bool.and_eq_false_iff]
        exact .inr (List.all_eq_false.2 ⟨id, hid.2, hne⟩)
      rw [askedBelow_of_reporter hid, huse] at hused
      change L.agree (asked id) id (r.context.hasUsedIndex id) (r'.context.hasUsedIndex id)
      rw [huse]
      exact L.settle _ id _ hused
    · rwa [askedBelow_of_not_reporter hid] at hused
  · intro e he herror
    split_ifs at herror with hfails
    obtain rfl := Except.error.inj herror
    have hchecks := hE.resolve_right fun hE => hE _ he
    rw [if_pos ⟨Bool.and_eq_true_iff.2 ⟨hchecks, hfails.1⟩, (hall hchecks hfails.1).trans hfails.2⟩]

/-- **Expressions with pragmas go in parallel** when their bodies do, whatever is asked for. -/
theorem mirrors_evaluateExtension (hE : ρ.checks = true ∨ ∀ text, ¬ E (.indexNotUsed text))
    {body : Expr}
    (hbody : ∀ asked focus, Mirrors (Parallel ρ L J asked) (Parallel ρ L J asked) E (evaluate focus)
      (evaluate' focus)) (pragmas : List Pragma) (focus : Focus) :
    Mirrors (Parallel ρ L J asked) (Parallel ρ L J asked) E
      (evaluateExtension s pragmas body evaluate focus)
      (evaluateExtension s (pragmas.map (.refit ρ)) (body.refit ρ) evaluate' focus) := by
  refine .bind (mirrors_activations body pragmas asked) fun _ => ?_
  rw [evaluatePragmas_refit]
  refine .bind (mirrors_evaluatePragmas (hbody _) focus pragmas) fun value => ?_
  exact .bind (mirrors_deactivations hE body pragmas) fun _ => .pure value

end Evaluation

/-! ### Expressions -/

namespace Expr

/-- **An expression with details replaced mirrors the expression,** from contexts that go in
parallel and have the same candidates for its steps, whatever is asked for. -/
theorem mirrors_evaluate (L : Ledger ρ) (hE : ρ.checks = true ∨ ∀ text, ¬ E (.indexNotUsed text))
    (s : Store) (e : Expr) (hJ : ∀ head ps, .expr (.step head ps) ∈ e.parts → J head.id)
    (asked : ExprId → Prop) (focus : Focus) :
    Mirrors (Parallel ρ L J asked) (Parallel ρ L J asked) E (e.evaluate s focus)
      ((e.refit ρ).evaluate s focus) := by
  -- Switching lookups to what they are switched to already leaves the store as it is.
  refine related_evaluate_refit (s := s) (a := s.interrupted) (b := s.interrupted)
    (Mirrors.chains (Parallel ρ L J) E) e ⟨?_, ?_, ?_, ?_⟩ focus asked
  · exact fun head ps hpart context _ => mirrors_selectAxis s (hJ head ps hpart) context
  · exact fun e' _ mode sequence _ => mirrors_applyByIndex s mode e' sequence
  · intro name focus asked
    rw [refit, evaluate]
    refine .queryContext_bind fun c c' h => ?_
    rw [h.value]
    exact .orFail _
  · intro id pragmas body _ hbody focus asked
    rw [refit, evaluate, evaluate]
    exact mirrors_evaluateExtension hE (fun asked focus => hbody focus asked) pragmas focus

end Expr
end IndexedXml
