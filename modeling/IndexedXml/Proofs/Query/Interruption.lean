/-
# Lookups that are switched off

While lookups are switched off each of them fails, and no part of an evaluation goes on after
that: there is no way of putting computations together that turns the failure into an answer.
So an evaluation fails for the switch as soon as it would look something up, and one that
looks nothing up is not touched by it (`CompiledQuery.evaluate_interrupted`).

The two evaluations are compared as they go (`Evaluation.BreaksOff`).  That goes with every way
of putting computations together; only the rule for lookups says that they fail.
-/

import IndexedXml.Proofs.Query.Related

namespace IndexedXml
namespace Evaluation

variable {α β : Type}

/-- **A computation breaks off where another one looks something up:** from every run it fails
because lookups are switched off, or both end in one way and have looked nothing up. -/
def BreaksOff (m m' : Evaluation α) : Prop :=
  ∀ r, m.result r = .error (.store .interrupted) ∨
    m.result r = m'.result r ∧ m.after r = m'.after r ∧ (m'.after r).counts = r.counts

/-! ### Rules -/

namespace BreaksOff

/-- **Compositions of computations that break off break off.** -/
theorem composes : Composes fun _ => BreaksOff where
  pure _ _ := .inr ⟨rfl, rfl, rfl⟩
  orFail _ _ := .inr ⟨rfl, rfl, rfl⟩
  queryContext _ := .inr ⟨rfl, rfl, rfl⟩
  bind := by
    intro α β m m' f f' hm hf r
    rw [result_bind, result_bind, after_bind, after_bind]
    rcases hm r with hbroken | ⟨hresult, hafter, hcounts⟩
    · rw [hbroken]
      exact .inl rfl
    · rw [hresult, hafter]
      cases m'.result r with
      | error e => exact .inr ⟨rfl, rfl, hcounts⟩
      | ok a =>
        refine (hf a (m'.after r)).imp id ?_
        rintro ⟨hresult, hafter, hmore⟩
        exact ⟨hresult, hafter, hmore.trans hcounts⟩

theorem bind {m m' : Evaluation α} {f f' : α → Evaluation β} (hm : BreaksOff m m')
    (hf : ∀ a, BreaksOff (f a) (f' a)) : BreaksOff (m >>= f) (m' >>= f') := composes.bind hm hf

theorem pure (a : α) : BreaksOff (pure a) (pure a) := composes.pure a

theorem orFail (x : Except QueryError α) : BreaksOff (orFail x) (orFail x) := composes.orFail x

theorem ofStore (x : Except StoreError α) : BreaksOff (ofStore x) (ofStore x) := composes.ofStore x

theorem queryContext : BreaksOff queryContext queryContext := composes.queryContext

theorem update (f : QueryContext → QueryContext) : BreaksOff (update f) (update f) :=
  fun _ => .inr ⟨rfl, rfl, rfl⟩

/-- **A lookup that is switched off breaks off.** -/
theorem lookup (kind : LookupKind) (m : Evaluation NodeSet) :
    BreaksOff (lookup kind (.error .interrupted)) m := fun _ => .inl rfl

/-- Candidates are dropped on both sides, however the evaluation with them ends. -/
theorem preloading (step : ExprId) (candidates : NodeSet) {m m' : Evaluation α}
    (hm : BreaksOff m m') : BreaksOff (preloading step candidates m) (preloading step candidates m') := by
  intro r
  refine (hm { r with context := r.context.preload step candidates }).imp id ?_
  rintro ⟨hresult, hafter, hcounts⟩
  refine ⟨hresult, ?_, hcounts⟩
  exact congrArg (fun after : Run => { after with context := after.context.unload step }) hafter

end BreaksOff

variable (s : Store)

/-! ### Steps -/

/-- The switch changes what the name index answers, and not what it is asked. -/
theorem nameLookup?_interrupt (head : StepHead) (context : NodeSet) :
    nameLookup? (s.interrupt true) head context =
      (nameLookup? (s.interrupt false) head context).map fun asked => (asked.1, .error .interrupted) := by
  unfold nameLookup?
  split
  · split <;> rfl
  · rfl

theorem breaksOff_selectAxis (head : StepHead) (context : NodeSet) :
    BreaksOff (selectAxis (s.interrupt true) head context)
      (selectAxis (s.interrupt false) head context) := by
  refine .bind .queryContext fun c => ?_
  dsimp only
  split
  · exact .pure _
  · unfold selectUnprepared
    rw [nameLookup?_interrupt]
    cases nameLookup? (s.interrupt false) head context with
    | some asked => exact .lookup asked.1 _
    | none =>
      dsimp only [Option.map_none]
      rw [Store.navigate_congr (s := s.interrupt true) (t := s.interrupt false) rfl]
      exact .ofStore _

/-! ### Predicates -/

/-- Whether the index covers a set is found out without a lookup; the hits are not. -/
theorem breaksOff_select (p : IndexProbe) (candidates : NodeSet) :
    BreaksOff (p.select (s.interrupt true) candidates) (p.select (s.interrupt false) candidates) := by
  unfold IndexProbe.select
  cases p.relation with
  | none => exact .pure _
  | some relation =>
    refine .bind (.ofStore _) fun covered => ?_
    cases covered with
    | none => exact .pure _
    | some covered =>
      dsimp only
      split_ifs
      · exact .bind (.lookup .range _) fun _ => .pure _
      · exact .pure _

theorem breaksOff_applyByIndex (mode : PredicateMode) (probe : Option (ExprId × IndexProbe))
    (sequence : Sequence) :
    BreaksOff (applyByIndex (s.interrupt true) mode probe sequence)
      (applyByIndex (s.interrupt false) mode probe sequence) := by
  unfold applyByIndex
  split
  · refine .bind (breaksOff_select s _ _) fun kept => ?_
    cases kept with
    | none => exact .pure _
    | some kept => exact .bind (.update _) fun _ => .pure _
  · exact .pure _

/-! ### Pragmas -/

/-- **Narrowing begins with a lookup,** that of the first condition. -/
theorem breaksOff_rounds (step : Option ContextStep) (context : NodeSet)
    (optimizables : List Optimizable) :
    BreaksOff (Narrowing.rounds (s.interrupt true) step context optimizables)
      (Narrowing.rounds (s.interrupt false) step context optimizables) := by
  cases optimizables with
  | nil => exact .pure _
  | cons o rest =>
    -- The first round looks its condition up before anything else.
    exact fun _ => .inl rfl

theorem breaksOff_narrow (id : ExprId) (state : OptimizeState)
    {body body' : Focus → Evaluation Sequence} (hbody : ∀ focus, BreaksOff (body focus) (body' focus))
    (j : Optimizer.Judgement) :
    BreaksOff (Optimizer.narrow (s.interrupt true) id state body j)
      (Optimizer.narrow (s.interrupt false) id state body' j) := by
  refine .bind (.orFail _) fun context => .bind (breaksOff_rounds s _ _ _) fun rounds => ?_
  refine .bind (.update _) fun _ => ?_
  dsimp only
  split
  · exact hbody _
  · exact .preloading _ _ (hbody _)

theorem breaksOff_optimize (id : ExprId) {body body' : Focus → Evaluation Sequence}
    (hbody : ∀ focus, BreaksOff (body focus) (body' focus)) (focus : Focus) :
    BreaksOff (Optimizer.evaluate (s.interrupt true) id body focus)
      (Optimizer.evaluate (s.interrupt false) id body' focus) := by
  refine .bind .queryContext fun c => ?_
  dsimp only
  split
  · exact hbody focus
  · refine .bind (related_judge s true false BreaksOff.composes _ _) fun j => .bind (.update _) fun _ => ?_
    split_ifs
    · exact breaksOff_narrow s id _ hbody j
    · exact .bind (.update _) fun _ => hbody _

theorem breaksOff_activate (body : Expr) (p : Pragma) :
    BreaksOff (activate body p) (activate body p) := by
  unfold activate
  split
  · exact .bind (.update _) fun _ => .update _
  · exact .update _
  · exact .bind (.update _) fun _ => .update _

end Evaluation

/-! ### Expressions -/

open Evaluation

namespace Expr

variable (s : Store)

/-- An expression breaks off where it looks something up. -/
def Breaks (e : Expr) : Prop :=
  ∀ focus, BreaksOff (e.evaluate (s.interrupt true) focus) (e.evaluate (s.interrupt false) focus)

/-- **Every expression breaks off where it looks something up.** -/
theorem breaks (s : Store) (e : Expr) : Breaks s e := by
  refine related_evaluate BreaksOff.composes e ⟨?_, ?_, ?_⟩
  · exact fun head _ _ => breaksOff_selectAxis s head
  · exact fun e _ mode => breaksOff_applyByIndex s mode e.probe?
  · intro id pragmas body _ hbody focus
    rw [evaluate, evaluate]
    refine related_evaluateExtension s true false BreaksOff.composes (fun _ _ => .update _)
      (fun p _ => breaksOff_activate body p) hbody ?_ focus
    exact fun p _ _ _ _ _ => breaksOff_optimize s p.id hbody

end Expr

/-- **A failing lookup is never passed over.**  With lookups switched off a query fails with the
code `exerr:ERROR` because they are, or else it ends just as it does with lookups, in outcome
and in the run that it leaves behind, and then it has made none. -/
theorem CompiledQuery.evaluate_interrupted (q : CompiledQuery) (s : Store) (focus : Focus)
    (run : Run) :
    (∃ e, ((q.evaluate (s.interrupt true) focus).run run).1 = .error e ∧
      e = .store .interrupted ∧ e.code.text = "exerr:ERROR") ∨
    (q.evaluate (s.interrupt true) focus).run run = (q.evaluate (s.interrupt false) focus).run run ∧
      ((q.evaluate (s.interrupt false) focus).run run).2.counts = run.counts := by
  rcases q.root.breaks s focus run with hbroken | ⟨hresult, hafter, hcounts⟩
  · exact .inl ⟨_, hbroken, rfl, by decide⟩
  · exact .inr ⟨Prod.ext hresult hafter, hcounts⟩

end IndexedXml
