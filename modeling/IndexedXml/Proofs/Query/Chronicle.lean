/-
# Chronicles of phases

What happens in an evaluation never depends on the phases that pragmas are in, so that it makes no
difference how they are kept.  Where every phase that is entered is put down above the ones before
it (`QueryContext.record`), an evaluation leaves its *chronicle* behind, the last entry first.

Nothing else changes by that (`CompiledQuery.isChronicled`): the outcome is the same, and the phases
after an evaluation are the last ones that its chronicle tells, and those from before for pragmas of
which it tells nothing.  The pragmas that it tells of are those that the evaluation does not pass by
(`CompiledQuery.passesBy_iff`).  The proofs follow the expression with relations that hold of all
that overlooks phases (`Evaluation.Overlooking`).
-/

import IndexedXml.Proofs.Query.Handling

namespace IndexedXml

open Evaluation

/-! ### Contexts with other phases -/

namespace QueryContext

/-- The context with other phases. -/
def withPhases (c : QueryContext) (phases : Table Phase) : QueryContext :=
  { c with phases := phases }

/-- Puts down that a pragma enters a phase, above what has been put down before. -/
def record (c : QueryContext) (id : ExprId) (phase : Phase) : QueryContext :=
  c.withPhases ((id, phase) :: c.phases)

section

variable (c : QueryContext) (phases : Table Phase) (id : ExprId)

@[simp] theorem withPhases_noteIndexUse :
    (c.noteIndexUse id).withPhases phases = (c.withPhases phases).noteIndexUse id := by
  unfold noteIndexUse
  rw [show (c.withPhases phases).hasUsedIndex id = c.hasUsedIndex id from rfl]
  split <;> rfl

@[simp] theorem phases_noteIndexUse : (c.noteIndexUse id).phases = c.phases := by
  unfold noteIndexUse
  split <;> rfl

@[simp] theorem withPhases_updateOptimizer (f : OptimizeState → OptimizeState) :
    (c.updateOptimizer id f).withPhases phases = (c.withPhases phases).updateOptimizer id f := by
  unfold updateOptimizer
  rw [show (c.withPhases phases).optimizer? id = c.optimizer? id from rfl]
  cases c.optimizer? id <;> rfl

end

end QueryContext

/-- The run with other phases. -/
def Run.withPhases (r : Run) (phases : Table Phase) : Run :=
  { r with context := r.context.withPhases phases }

namespace Evaluation

variable {α β : Type}

/-! ### Computations that overlook phases -/

/-- **A computation overlooks phases:** it neither depends on them nor changes them. -/
def Overlooks (m : Evaluation α) : Prop :=
  ∀ phases, Alike (fun r r' => r' = r.withPhases phases) (fun _ => True) m m

theorem Overlooks.phases_after {m : Evaluation α} (h : Overlooks m) (r : Run) :
    (m.after r).context.phases = r.context.phases := by
  have hafter : m.after r = (m.after r).withPhases r.context.phases :=
    (h r.context.phases r r rfl).2.1
  have hphases := congrArg (fun run : Run => run.context.phases) hafter
  exact hphases

theorem overlooks_pure (a : α) : Overlooks (pure a) := fun _ => .pure trivial

theorem overlooks_orFail (x : Except QueryError α) : Overlooks (orFail x) := fun _ => .orFail_any x

theorem Overlooks.bind {m : Evaluation α} {f : α → Evaluation β} (hm : Overlooks m)
    (hf : ∀ a, Overlooks (f a)) : Overlooks (m >>= f) :=
  fun phases => (hm phases).bind fun a _ => hf a phases

theorem overlooks_update {f : QueryContext → QueryContext}
    (h : ∀ c phases, (f c).withPhases phases = f (c.withPhases phases)) : Overlooks (update f) := by
  refine fun phases => .update ?_
  rintro r _ rfl
  exact congrArg (fun c => (⟨c, r.counts⟩ : Run)) (h r.context phases).symm

/-- What is read besides phases may be used. -/
theorem overlooks_read {f : QueryContext → Evaluation α}
    (hread : ∀ c phases, f (c.withPhases phases) = f c) (hf : ∀ c, Overlooks (f c)) :
    Overlooks (queryContext >>= f) := by
  refine fun phases => .queryContext_bind ?_
  rintro r _ rfl
  exact (hread r.context phases).symm ▸ hf r.context phases

/-- Phases are nothing that evaluation reads of a run. -/
theorem steady_withPhases (phases : Table Phase) :
    Steady (fun _ => True) (fun r r' => r' = r.withPhases phases) (fun _ => True) where
  count := by
    rintro kind r _ rfl
    rfl
  note := by
    rintro id r _ rfl
    exact congrArg (fun c => (⟨c, r.counts⟩ : Run))
      (QueryContext.withPhases_noteIndexUse r.context phases id).symm
  value := by
    rintro r _ rfl name
    exact ⟨rfl, fun _ _ => trivial⟩
  prepared := by
    rintro r _ rfl id _
    rfl
  set _ := trivial
  items _ := trivial

theorem overlooks_variable (name : String) :
    Overlooks (queryContext >>= fun c => orFail (c.value name)) :=
  overlooks_read (fun _ _ => rfl) fun c => overlooks_orFail (c.value name)

theorem overlooks_judge (s : Store) (state : OptimizeState) (context : Option Sequence) :
    Overlooks (Optimizer.judge s state context) := by
  have hworking : Overlooks (Optimizer.workingSequence state context) := by
    unfold Optimizer.workingSequence
    split
    · exact overlooks_pure _
    · exact overlooks_read (fun _ _ => rfl) fun c =>
        (overlooks_orFail _).bind fun _ => overlooks_pure _
  unfold Optimizer.judge
  split_ifs
  · refine hworking.bind fun working => ?_
    split
    · exact overlooks_pure _
    · exact (overlooks_orFail _).bind fun _ => overlooks_pure _
  · exact overlooks_pure _

/-! ### Relations for what overlooks phases -/

/-- **A relation between computations that holds of all that overlook phases** and goes with the
ways of putting computations together. -/
structure Overlooking (R : ∀ α : Type, Evaluation α → Evaluation α → Prop) : Prop where
  overlooks : ∀ {α : Type} {m : Evaluation α}, Overlooks m → R α m m
  bind : ∀ {α β : Type} {m m' : Evaluation α} {f f' : α → Evaluation β}, R α m m' →
    (∀ a, R β (f a) (f' a)) → R β (m >>= f) (m' >>= f')
  preloading : ∀ {α : Type} {step : ExprId} {candidates : NodeSet} {m m' : Evaluation α},
    R α m m' → R α (preloading step candidates m) (preloading step candidates m')

section

variable {R : ∀ α : Type, Evaluation α → Evaluation α → Prop}

theorem Overlooking.toChains (h : Overlooking R) : Chains R where
  pure a := h.overlooks (overlooks_pure a)
  orFail x := h.overlooks (overlooks_orFail x)
  bind := h.bind

/-- The optimizer overlooks phases, if what is below it does. -/
theorem Overlooking.related_optimize (h : Overlooking R) (s : Store) (id : ExprId)
    (body body' : Focus → Evaluation Sequence)
    (hbody : ∀ focus, R Sequence (body focus) (body' focus)) (focus : Focus) :
    R Sequence (Optimizer.evaluate s id body focus) (Optimizer.evaluate s id body' focus) := by
  have hsplit : ∀ body, Optimizer.evaluate s id body focus =
      (queryContext >>= fun c => pure (c.optimizer? id)) >>= fun kept =>
        kept.elim (body focus) fun state =>
          Optimizer.judge s state (Optimizer.contextOf s focus) >>= fun j =>
            update (·.updateOptimizer id (Optimizer.countJudgement j)) >>= fun _ =>
              if j.optimize then Optimizer.narrow s id state body j
              else Optimizer.fallBack id body focus (Optimizer.contextOf s focus) j := by
    intro body
    rw [bind_assoc]
    refine bind_congr fun c => ?_
    rw [pure_bind]
    cases c.optimizer? id <;> rfl
  have hupdate : ∀ f, R Unit (update (·.updateOptimizer id f)) (update (·.updateOptimizer id f)) :=
    fun f => h.overlooks (overlooks_update fun c phases =>
      QueryContext.withPhases_updateOptimizer c phases id f)
  rw [hsplit, hsplit]
  have hread : Overlooks (queryContext >>= fun c => pure (c.optimizer? id)) :=
    overlooks_read (fun _ _ => rfl) fun c => overlooks_pure _
  refine h.bind (h.overlooks hread) fun kept => ?_
  cases kept with
  | none => exact hbody focus
  | some state =>
    refine h.bind (h.overlooks (overlooks_judge s state _)) fun j => h.bind (hupdate _) fun _ => ?_
    split_ifs
    · refine h.bind (h.overlooks (overlooks_orFail _)) fun context => ?_
      refine h.bind (h.overlooks fun phases => alike_rounds (steady_withPhases phases) s _ _ _)
        fun rounds => h.bind (hupdate _) fun _ => ?_
      dsimp only
      cases state.contextStep with
      | none => exact hbody _
      | some step => exact h.preloading (hbody _)
    · exact h.bind (hupdate _) fun _ => hbody _

/-- Where pragmas are related, expressions are. -/
theorem Overlooking.meetsHandlings (h : Overlooking R) {s : Store} {handling handling' : Handling}
    {e : Expr} (hextension : ∀ id pragmas body, .expr (.extension id pragmas body) ∈ e.parts →
      Expr.RelatedWith R s handling handling' body →
        Expr.RelatedWith R s handling handling' (.extension id pragmas body)) :
    e.MeetsHandlings R s handling handling' where
  step head context :=
    h.overlooks fun phases => alike_selectAxis (steady_withPhases phases) s trivial context
  condition mode probe sequence :=
    h.overlooks fun phases => alike_applyByIndex (steady_withPhases phases) s mode probe sequence
  var name focus := by
    rw [Expr.evaluateWith, Expr.evaluateWith]
    exact h.overlooks (overlooks_variable name)
  extension := hextension

end

/-! ### Entering phases in another way -/

/-- What is to be done for a pragma when it is activated. -/
def readyFor (body : Expr) (p : Pragma) : Evaluation Unit :=
  match p.kind with
  | .optimize _ enabled _ => update fun c =>
    match c.optimizer? p.id with
    | some _ => c
    | none => c.setOptimizer p.id (if enabled then .discover body else .empty)
  | .noIndex => pure ()
  | .forceIndexUse => update (·.forgetIndexUse body.reporters)

/-- What is to be done for a pragma once it is deactivated. -/
def checkUse (body : Expr) (p : Pragma) : Evaluation Unit :=
  match p.kind with
  | .forceIndexUse => do
    if allUseIndexes (← queryContext) body then pure ()
    else orFail (.error (.indexNotUsed body.text))
  | _ => pure ()

theorem overlooks_readyFor (body : Expr) (p : Pragma) : Overlooks (readyFor body p) := by
  unfold readyFor
  split
  · refine overlooks_update fun c phases => ?_
    rw [show (c.withPhases phases).optimizer? p.id = c.optimizer? p.id from rfl]
    cases c.optimizer? p.id <;> rfl
  · exact overlooks_pure _
  · exact overlooks_update fun _ _ => rfl

theorem overlooks_checkUse (body : Expr) (p : Pragma) : Overlooks (checkUse body p) := by
  unfold checkUse
  split
  · refine overlooks_read (fun _ _ => rfl) fun c => ?_
    split_ifs
    · exact overlooks_pure _
    · exact overlooks_orFail _
  · exact overlooks_pure _

section

variable (enter : QueryContext → ExprId → Phase → QueryContext) (s : Store)

/-- Activates a pragma. -/
def activateEntering (body : Expr) (p : Pragma) : Evaluation Unit := do
  readyFor body p
  update (enter · p.id .activated)

/-- Evaluates by way of the first pragma that does. -/
def evaluatePragmasEntering (evaluate : Focus → Evaluation Sequence) (focus : Focus) :
    List Pragma → Evaluation Sequence
  | [] => evaluate focus
  | p :: rest => do
    update (enter · p.id .evaluating)
    match p.kind with
    | .optimize _ _ _ => Optimizer.evaluate s p.id evaluate focus
    | _ => evaluatePragmasEntering evaluate focus rest

/-- Deactivates a pragma. -/
def deactivateEntering (body : Expr) (p : Pragma) : Evaluation Unit := do
  update (enter · p.id .deactivated)
  checkUse body p

/-- Evaluates an expression whose pragmas are activated. -/
def evaluateActivated : Handling := fun pragmas body evaluate focus => do
  let value ← evaluatePragmasEntering enter s evaluate focus pragmas
  pragmas.forM (deactivateEntering enter body)
  pure value

/-- **The handling of pragmas with another way to enter phases.** -/
def evaluateExtensionEntering : Handling := fun pragmas body evaluate focus => do
  pragmas.forM (activateEntering enter body)
  evaluateActivated enter s pragmas body evaluate focus

end

theorem activateEntering_enter (body : Expr) (p : Pragma) :
    activateEntering QueryContext.enter body p = activate body p := by
  unfold activateEntering activate readyFor
  cases p.kind <;> rfl

theorem evaluatePragmasEntering_enter (s : Store) (evaluate : Focus → Evaluation Sequence)
    (focus : Focus) (ps : List Pragma) :
    evaluatePragmasEntering QueryContext.enter s evaluate focus ps =
      evaluatePragmas s evaluate focus ps := by
  induction ps with
  | nil => rfl
  | cons p rest ih =>
    unfold evaluatePragmasEntering evaluatePragmas
    refine bind_congr fun _ => ?_
    cases p.kind with
    | optimize explicit enabled contextId => rfl
    | noIndex | forceIndexUse => exact ih

/-- **In the usual way it is the usual one.** -/
theorem evaluateExtensionEntering_enter (s : Store) :
    evaluateExtensionEntering QueryContext.enter s = evaluateExtension s := by
  funext pragmas body evaluate focus
  unfold evaluateExtensionEntering evaluateActivated evaluateExtension
  rw [evaluatePragmasEntering_enter, funext (activateEntering_enter body)]
  rfl

section

variable {R : ∀ α : Type, Evaluation α → Evaluation α → Prop}
  {enter enter' : QueryContext → ExprId → Phase → QueryContext} {pragmas : List Pragma}
  {evaluate evaluate' : Focus → Evaluation Sequence}

theorem Overlooking.related_evaluatePragmas (h : Overlooking R) (s : Store)
    (henter : ∀ p ∈ pragmas, ∀ phase,
      R Unit (update (enter · p.id phase)) (update (enter' · p.id phase)))
    (hevaluate : ∀ focus, R Sequence (evaluate focus) (evaluate' focus)) (focus : Focus) :
    R Sequence (evaluatePragmasEntering enter s evaluate focus pragmas)
      (evaluatePragmasEntering enter' s evaluate' focus pragmas) := by
  induction pragmas with
  | nil => exact hevaluate focus
  | cons p rest ih =>
    refine h.bind (henter p List.mem_cons_self .evaluating) fun _ => ?_
    split
    · exact h.related_optimize s p.id evaluate evaluate' hevaluate focus
    · exact ih fun p hp => henter p (List.mem_cons_of_mem _ hp)

variable (enter enter' evaluate evaluate')

theorem Overlooking.related_evaluateActivated (h : Overlooking R) (s : Store)
    (henter : ∀ p ∈ pragmas, ∀ phase,
      R Unit (update (enter · p.id phase)) (update (enter' · p.id phase)))
    (body : Expr) (hevaluate : ∀ focus, R Sequence (evaluate focus) (evaluate' focus))
    (focus : Focus) :
    R Sequence (evaluateActivated enter s pragmas body evaluate focus)
      (evaluateActivated enter' s pragmas body evaluate' focus) := by
  refine h.bind (h.related_evaluatePragmas s henter hevaluate focus) fun value => ?_
  refine h.bind (h.toChains.forM _ fun p hp => ?_) fun _ => h.overlooks (overlooks_pure value)
  exact h.bind (henter p hp .deactivated) fun _ => h.overlooks (overlooks_checkUse body p)

/-- **Expressions with pragmas are related** when what is below is, and the two ways to enter
phases are. -/
theorem Overlooking.related_evaluateExtension (h : Overlooking R) (s : Store)
    (henter : ∀ p ∈ pragmas, ∀ phase,
      R Unit (update (enter · p.id phase)) (update (enter' · p.id phase)))
    (body : Expr) (hevaluate : ∀ focus, R Sequence (evaluate focus) (evaluate' focus))
    (focus : Focus) :
    R Sequence (evaluateExtensionEntering enter s pragmas body evaluate focus)
      (evaluateExtensionEntering enter' s pragmas body evaluate' focus) := by
  refine h.bind (h.toChains.forM _ fun p hp => ?_) fun _ =>
    h.related_evaluateActivated enter enter' evaluate evaluate' s henter body hevaluate focus
  exact h.bind (h.overlooks (overlooks_readyFor body p)) fun _ => henter p hp .activated

end

end Evaluation

/-! ### What chronicles tell -/

/-- **Phases are the last ones that a chronicle tells,** or those from before where it tells
nothing. -/
def Table.IsToldBy (phases chronicle before : Table Phase) : Prop :=
  ∀ id, phases.get? id = (chronicle.get? id).or (before.get? id)

theorem Table.get?_cons {α : Type} (t : Table α) (id other : ExprId) (value : α) :
    Table.get? ((id, value) :: t) other = if other = id then some value else t.get? other := by
  unfold Table.get?
  rw [List.find?_cons]
  by_cases h : other = id
  · subst h
    rw [if_pos rfl, beq_self_eq_true]
    rfl
  · rw [if_neg h, beq_eq_false_iff_ne.2 (Ne.symm h)]

section

variable {before : Table Phase} {α : Type}

variable (before) in
/-- **The second computation does what the first one does,** and chronicles the phases. -/
def Evaluation.Chronicles (m m' : Evaluation α) : Prop :=
  Alike (fun r r' => ∃ chronicle, r' = r.withPhases chronicle ∧
    r.context.phases.IsToldBy chronicle before) (fun _ => True) m m'

theorem overlooking_chronicles : Overlooking fun _ => Chronicles before where
  overlooks := by
    rintro α m h r _ ⟨chronicle, rfl, htold⟩
    obtain ⟨hresult, hafter, -⟩ := h chronicle r _ rfl
    exact ⟨hresult, ⟨chronicle, hafter, h.phases_after r ▸ htold⟩, fun _ _ => trivial⟩
  bind hm hf := .bind hm fun a _ => hf a
  preloading := by
    refine .preloading ?_ ?_
    · rintro r _ ⟨chronicle, rfl, htold⟩
      exact ⟨chronicle, rfl, htold⟩
    · rintro r _ ⟨chronicle, rfl, htold⟩
      exact ⟨chronicle, rfl, htold⟩

/-- What is entered is told. -/
theorem chronicles_enter (id : ExprId) (phase : Phase) :
    Chronicles before (update (·.enter id phase)) (update (·.record id phase)) := by
  refine .update ?_
  rintro r _ ⟨chronicle, rfl, htold⟩
  refine ⟨(id, phase) :: chronicle, rfl, fun other => ?_⟩
  change (r.context.phases.put id phase).get? other =
    (Table.get? ((id, phase) :: chronicle) other).or (before.get? other)
  rw [Table.get?_put, Table.get?_cons, htold other]
  split_ifs <;> rfl

/-- **To chronicle phases changes nothing else.** -/
theorem Expr.chronicles_evaluate (before : Table Phase) (s : Store) (e : Expr) (focus : Focus) :
    Chronicles before (e.evaluate s focus)
      (e.evaluateWith s (evaluateExtensionEntering .record s) focus) := by
  rw [← evaluateWith_extension, ← evaluateExtensionEntering_enter]
  refine Expr.related_evaluateWith overlooking_chronicles.toChains e
    (overlooking_chronicles.meetsHandlings fun id pragmas body _ hbody focus => ?_) focus
  rw [evaluateWith, evaluateWith]
  exact overlooking_chronicles.related_evaluateExtension _ _ _ _ s
    (fun p _ => chronicles_enter p.id) body hbody focus

end

namespace CompiledQuery

/-- The evaluation of a query that chronicles phases, from the beginning. -/
def chronicling (q : CompiledQuery) (o : Occasion) : Except QueryError Sequence × Run :=
  (q.root.evaluateWith o.store (evaluateExtensionEntering .record o.store) o.focus).run
    (o.run.withPhases [])

/-- **The phases that pragmas enter in an evaluation,** the last one first. -/
def chronicle (q : CompiledQuery) (o : Occasion) : Table Phase :=
  (q.chronicling o).2.context.phases

/-- **An evaluation does what its chronicle tells:** with the same outcome and the same run but for
phases, of which it leaves behind those that are told. -/
structure IsChronicled (q : CompiledQuery) (o : Occasion) : Prop where
  outcome : (q.chronicling o).1 = (q.evaluate o.store o.focus).result o.run
  run : (q.chronicling o).2 =
    ((q.evaluate o.store o.focus).after o.run).withPhases (q.chronicle o)
  phases : ((q.evaluate o.store o.focus).after o.run).context.phases.IsToldBy (q.chronicle o)
    o.run.context.phases

theorem isChronicled (q : CompiledQuery) (o : Occasion) : q.IsChronicled o := by
  obtain ⟨hresult, ⟨chronicle, hafter, htold⟩, -⟩ :=
    Expr.chronicles_evaluate o.run.context.phases o.store q.root o.focus
      o.run (o.run.withPhases []) ⟨[], rfl, fun _ => rfl⟩
  have hchronicle : q.chronicle o = chronicle :=
    congrArg (fun run : Run => run.context.phases) hafter
  exact ⟨hresult.symm, hchronicle ▸ hafter, hchronicle ▸ htold⟩

end CompiledQuery

/-! ### Pragmas that are passed by -/

/-- The handling of pragmas that leaves to something else what a pragma belongs to. -/
def Handling.leaving (handling : Handling) (id : ExprId) (otherwise : Evaluation Sequence) :
    Handling := fun pragmas body evaluate focus =>
  if id ∈ pragmas.map Pragma.id then otherwise else handling pragmas body evaluate focus

/-- What is chronicled stays. -/
def QueryContext.Grows (c c' : QueryContext) : Prop := c.phases ⊆ c'.phases

theorem QueryContext.Grows.of_eq {c c' : QueryContext} (h : c'.phases = c.phases) : c.Grows c' := by
  unfold Grows
  rw [h]
  exact List.Subset.refl _

theorem allows_grows : Allows QueryContext.Grows where
  refl _ := .of_eq rfl
  trans h h' := List.Subset.trans h h'
  note c id := .of_eq (c.phases_noteIndexUse id)

theorem overlooking_grows : Overlooking fun _ m _ => Moves QueryContext.Grows m where
  overlooks h r := .of_eq (h.phases_after r)
  bind := allows_grows.moves_bind
  preloading := allows_grows.moves_preloading (fun _ => .of_eq rfl) fun _ => .of_eq rfl

section

variable {id : ExprId} {otherwise : Evaluation Sequence} {α β : Type} {m m' : Evaluation α}

variable (id otherwise) in
/-- **The second computation leaves something to another** where the first one activates a pragma,
and does the same as long as that does not happen. -/
structure Evaluation.Leaves (m m' : Evaluation α) : Prop where
  grows : Moves QueryContext.Grows m
  same : ∀ r, (id, .activated) ∉ (m.after r).context.phases →
    m'.result r = m.result r ∧ m'.after r = m.after r
  left : ∀ r e, (id, .activated) ∉ r.context.phases →
    (id, .activated) ∈ (m.after r).context.phases → otherwise = orFail (.error e) →
      m'.result r = .error e

theorem Evaluation.Leaves.of_overlooks (h : Overlooks m) : Leaves id otherwise m m where
  grows := overlooking_grows.overlooks h
  same _ _ := ⟨rfl, rfl⟩
  left r _ hnot hmem := absurd (h.phases_after r ▸ hmem) hnot

theorem Evaluation.Leaves.bind {f f' : α → Evaluation β} (hm : Leaves id otherwise m m')
    (hf : ∀ a, Leaves id otherwise (f a) (f' a)) : Leaves id otherwise (m >>= f) (m' >>= f') where
  grows := allows_grows.moves_bind hm.grows fun a => (hf a).grows
  same := by
    intro r hnot
    rw [after_bind] at hnot
    rw [result_bind, result_bind, after_bind, after_bind]
    cases hresult : m.result r with
    | error e =>
      rw [hresult] at hnot
      obtain ⟨hsame, hafter⟩ := hm.same r hnot
      rw [hsame, hafter, hresult]
      exact ⟨rfl, rfl⟩
    | ok a =>
      rw [hresult] at hnot
      obtain ⟨hsame, hafter⟩ := hm.same r fun hmem => hnot ((hf a).grows _ hmem)
      rw [hsame, hafter, hresult]
      exact (hf a).same _ hnot
  left := by
    intro r e hnot hmem heq
    rw [result_bind]
    by_cases hfirst : (id, Phase.activated) ∈ (m.after r).context.phases
    · rw [hm.left r e hnot hfirst heq]
      rfl
    · obtain ⟨hsame, hafter⟩ := hm.same r hfirst
      rw [after_bind] at hmem
      rw [hsame, hafter]
      cases hresult : m.result r with
      | error e' =>
        rw [hresult] at hmem
        exact absurd hmem hfirst
      | ok a =>
        rw [hresult] at hmem
        exact (hf a).left _ e hfirst hmem heq

theorem Evaluation.Leaves.preloading {step : ExprId} {candidates : NodeSet}
    (h : Leaves id otherwise m m') :
    Leaves id otherwise (preloading step candidates m) (preloading step candidates m') where
  grows := allows_grows.moves_preloading (fun _ => .of_eq rfl) (fun _ => .of_eq rfl) h.grows
  same r hnot := (h.same { r with context := r.context.preload step candidates } hnot).imp_right
    (congrArg fun run : Run => { run with context := run.context.unload step })
  left r := h.left { r with context := r.context.preload step candidates }

theorem overlooking_leaves : Overlooking fun _ => Leaves id otherwise :=
  ⟨.of_overlooks, .bind, .preloading⟩

/-- Another pragma enters a phase. -/
theorem leaves_record {p : ExprId} (hp : p ≠ id) (phase : Phase) :
    Leaves id otherwise (update (·.record p phase)) (update (·.record p phase)) where
  grows r := List.subset_cons_self _ _
  same _ _ := ⟨rfl, rfl⟩
  left r e hnot hmem := by
    rcases List.mem_cons.1 hmem with h | h
    · exact absurd (congrArg Prod.fst h).symm hp
    · exact absurd h hnot

theorem run_activate_record (body : Expr) (p : Pragma) (r : Run) :
    (activateEntering .record body p).result r = .ok () ∧
      ((activateEntering .record body p).after r).context.phases =
        (p.id, .activated) :: r.context.phases := by
  have hready : (readyFor body p).result r = .ok () := by
    unfold readyFor
    split <;> rfl
  unfold activateEntering
  rw [result_bind, after_bind, hready]
  exact ⟨rfl, congrArg (List.cons _) ((overlooks_readyFor body p).phases_after r)⟩

/-- **Pragmas are activated one after the other,** and each is put down. -/
theorem run_activations_record (body : Expr) (pragmas : List Pragma) :
    ∀ r, (pragmas.forM (activateEntering .record body)).result r = .ok () ∧
      ((pragmas.forM (activateEntering .record body)).after r).context.phases =
        (pragmas.map fun p => (p.id, .activated)).reverse ++ r.context.phases := by
  induction pragmas with
  | nil => exact fun r => ⟨rfl, rfl⟩
  | cons p rest ih =>
    intro r
    obtain ⟨hresult, hafter⟩ := run_activate_record body p r
    obtain ⟨hrest, hphases⟩ := ih ((activateEntering .record body p).after r)
    have hcons : (p :: rest).forM (activateEntering .record body) =
        activateEntering .record body p >>= fun _ =>
          rest.forM (activateEntering .record body) := rfl
    rw [hcons, result_bind, after_bind, hresult, List.map_cons, List.reverse_cons,
      List.append_assoc, List.singleton_append, ← hafter]
    exact ⟨hrest, hphases⟩

section

variable {s : Store} {body : Expr} {pragmas : List Pragma} {evaluate : Focus → Evaluation Sequence}

theorem grows_evaluateExtension (hevaluate : ∀ focus, Moves QueryContext.Grows (evaluate focus))
    (focus : Focus) :
    Moves QueryContext.Grows (evaluateExtensionEntering .record s pragmas body evaluate focus) :=
  overlooking_grows.related_evaluateExtension .record .record evaluate evaluate s
    (fun _ _ _ _ => List.subset_cons_self _ _) body hevaluate focus

/-- **Where an expression with pragmas is evaluated, each of them is put down** as activated. -/
theorem mem_phases_of_pragma (hevaluate : ∀ focus, Moves QueryContext.Grows (evaluate focus))
    (hid : id ∈ pragmas.map Pragma.id) (focus : Focus) (r : Run) :
    (id, .activated) ∈
      ((evaluateExtensionEntering .record s pragmas body evaluate focus).after
        r).context.phases := by
  have hgrows : Moves QueryContext.Grows
      (evaluateActivated .record s pragmas body evaluate focus) :=
    overlooking_grows.related_evaluateActivated .record .record evaluate evaluate s
      (fun _ _ _ _ => List.subset_cons_self _ _) body hevaluate focus
  obtain ⟨hresult, hphases⟩ := run_activations_record body pragmas r
  obtain ⟨p, hp, rfl⟩ := List.mem_map.1 hid
  unfold evaluateExtensionEntering
  rw [after_bind, hresult]
  refine hgrows _ ?_
  rw [hphases]
  exact List.mem_append_left _ (List.mem_reverse.2 (List.mem_map_of_mem hp))

end

variable (id otherwise) in
/-- **A pragma is chronicled as activated where it makes a difference** what is done in place of
what it belongs to. -/
theorem Expr.leaves_evaluateWith (s : Store) (e : Expr) (focus : Focus) :
    Leaves id otherwise (e.evaluateWith s (evaluateExtensionEntering .record s) focus)
      (e.evaluateWith s (Handling.leaving (evaluateExtensionEntering .record s) id otherwise)
        focus) := by
  refine Expr.related_evaluateWith overlooking_leaves.toChains e
    (overlooking_leaves.meetsHandlings fun number pragmas body _ hbody focus => ?_) focus
  have hgrows := fun focus => (hbody focus).grows
  rw [evaluateWith, evaluateWith]
  unfold Handling.leaving
  split_ifs with hid
  · refine ⟨grows_evaluateExtension hgrows focus, fun r hnot => ?_, ?_⟩
    · exact absurd (mem_phases_of_pragma hgrows hid focus r) hnot
    rintro r e _ _ rfl
    rfl
  · refine overlooking_leaves.related_evaluateExtension _ _ _ _ s (fun p hp => leaves_record ?_)
      body hbody focus
    exact fun heq => hid (heq ▸ List.mem_map_of_mem hp)

end

namespace CompiledQuery

/-- **An evaluation passes a pragma by:** it makes no difference what is done in place of what the
pragma belongs to. -/
def PassesBy (q : CompiledQuery) (o : Occasion) (p : Pragma) : Prop :=
  ∀ otherwise : Evaluation Sequence,
    (q.root.evaluateWith o.store
        (Handling.leaving (evaluateExtensionEntering .record o.store) p.id otherwise) o.focus).run
      (o.run.withPhases []) = q.chronicling o

/-- **The chronicle of an evaluation tells which pragmas it passes by.** -/
theorem passesBy_iff {q : CompiledQuery} {o : Occasion} {p : Pragma} :
    q.PassesBy o p ↔ (p.id, .activated) ∉ q.chronicle o := by
  have hleaves : ∀ otherwise, Leaves p.id otherwise _ _ := fun otherwise =>
    Expr.leaves_evaluateWith p.id otherwise o.store q.root o.focus
  constructor
  · intro h hmem
    have hfails : ∀ e, (q.chronicling o).1 = .error e := fun e =>
      (congrArg Prod.fst (h (orFail (.error e)))).symm.trans
        ((hleaves _).left (o.run.withPhases []) e List.not_mem_nil hmem rfl)
    have hsame := Except.error.inj ((hfails .noContextItem).symm.trans (hfails .noStringContext))
    cases hsame
  · intro h otherwise
    obtain ⟨hresult, hafter⟩ := (hleaves otherwise).same (o.run.withPhases []) h
    exact Prod.ext hresult hafter

end CompiledQuery
end IndexedXml
