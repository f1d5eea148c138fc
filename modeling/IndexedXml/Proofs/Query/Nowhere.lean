/-
# Evaluation without a context

A step, the root and `string()` without an argument ask for the context, and where there is none
they fail with `XPDY0002`.  Where there is a context no expression fails so
(`Expr.not_wantsContext_outcome`), and without one it either does or has the outcome that it has
for every focus (`Expr.settled_outcome`).
-/

import IndexedXml.Proofs.Query.Outcome

namespace IndexedXml

open Evaluation Setting

/-- Neither a context nor an item of one. -/
def Focus.nowhere : Focus := ⟨none, none⟩

variable {α β : Type}

/-! ### Failures for want of a context -/

/-- **A computation fails for want of a context.** -/
def WantsContext (x : Except QueryError α) : Prop :=
  ∃ cause, x = .error cause ∧ cause.code = .XPDY0002

section WantsContext

variable {x : Except QueryError α} {f : α → Except QueryError β} {cause : QueryError}

theorem not_wantsContext_ok (a : α) : ¬ WantsContext (.ok a) := by
  rintro ⟨_, h, _⟩
  cases h

theorem not_wantsContext_pure (a : α) : ¬ WantsContext (pure a : Except QueryError α) :=
  not_wantsContext_ok a

theorem not_wantsContext_error (h : cause.code ≠ .XPDY0002) :
    ¬ WantsContext (.error cause : Except QueryError α) := by
  rintro ⟨_, heq, hcode⟩
  exact h (Except.error.inj heq ▸ hcode)

theorem WantsContext.bind (h : WantsContext x) (f : α → Except QueryError β) :
    WantsContext (x >>= f) := by
  obtain ⟨cause, rfl, hcode⟩ := h
  exact ⟨cause, rfl, hcode⟩

theorem not_wantsContext_bind (hx : ¬ WantsContext x) (hf : ∀ a, ¬ WantsContext (f a)) :
    ¬ WantsContext (x >>= f) := by
  cases x with
  | error cause => exact fun ⟨other, heq, hcode⟩ => hx ⟨cause, rfl, Except.error.inj heq ▸ hcode⟩
  | ok a => exact hf a

theorem not_wantsContext_map (hx : ¬ WantsContext x) (g : α → β) : ¬ WantsContext (x.map g) := by
  cases x with
  | error cause => exact fun ⟨other, heq, hcode⟩ => hx ⟨cause, rfl, Except.error.inj heq ▸ hcode⟩
  | ok a => exact not_wantsContext_ok _

/-- The store never fails so. -/
theorem not_wantsContext_store (x : Except StoreError α) : ¬ WantsContext (x.mapError .store) := by
  cases x with
  | error cause => exact not_wantsContext_error (by cases cause <;> nofun)
  | ok a => exact not_wantsContext_ok a

theorem not_wantsContext_mapM {f : α → Except QueryError β} {l : List α}
    (h : ∀ a ∈ l, ¬ WantsContext (f a)) : ¬ WantsContext (l.mapM f) := by
  induction l with
  | nil => exact not_wantsContext_ok _
  | cons a rest ih =>
    rw [List.mapM_cons]
    exact not_wantsContext_bind (h a List.mem_cons_self) fun _ => not_wantsContext_bind
      (ih fun a ha => h a (List.mem_cons_of_mem _ ha)) fun _ => not_wantsContext_ok _

theorem not_wantsContext_foldlM {f : β → α → Except QueryError β} {l : List α}
    (h : ∀ b, ∀ a ∈ l, ¬ WantsContext (f b a)) : ∀ b, ¬ WantsContext (l.foldlM f b) := by
  induction l with
  | nil => exact fun b => not_wantsContext_ok b
  | cons a rest ih =>
    intro b
    rw [List.foldlM_cons]
    exact not_wantsContext_bind (h b a List.mem_cons_self)
      fun b => ih (fun b a ha => h b a (List.mem_cons_of_mem _ ha)) b

end WantsContext

/-! ### Sequences and values -/

namespace Sequence

theorem not_wantsContext_toShared (v : Sequence) : ¬ WantsContext v.toShared := by
  cases v with
  | nodes shared => exact not_wantsContext_ok shared
  | items list =>
    refine not_wantsContext_bind (not_wantsContext_mapM fun item _ => ?_) fun _ => not_wantsContext_ok _
    cases item with
    | node n => exact not_wantsContext_ok n
    | atomic value => exact not_wantsContext_error nofun

theorem not_wantsContext_truth (v : Sequence) : ¬ WantsContext v.truth := by
  unfold truth
  split <;> first | exact not_wantsContext_ok _ | exact not_wantsContext_error nofun

theorem not_wantsContext_selects (v : Sequence) (position : Nat) :
    ¬ WantsContext (v.selects position) := by
  unfold selects
  split
  · exact not_wantsContext_ok _
  · exact not_wantsContext_truth v

end Sequence

namespace AtomicValue

theorem not_wantsContext_castDouble (text : String) : ¬ WantsContext (castDouble text) := by
  unfold castDouble
  split
  · exact not_wantsContext_ok _
  · exact not_wantsContext_error nofun

theorem not_wantsContext_castBool (text : String) : ¬ WantsContext (castBool text) := by
  unfold castBool
  split <;> first | exact not_wantsContext_ok _ | exact not_wantsContext_error nofun

theorem not_wantsContext_compare? (a b : AtomicValue) : ¬ WantsContext (a.compare? b) := by
  unfold compare?
  split <;> first
    | with_reducible exact not_wantsContext_ok _
    | with_reducible exact not_wantsContext_bind (not_wantsContext_castDouble _) fun _ =>
        not_wantsContext_pure _
    | with_reducible exact not_wantsContext_bind (not_wantsContext_castBool _) fun _ =>
        not_wantsContext_pure _
    | exact not_wantsContext_error nofun

theorem not_wantsContext_relatedToSome (op : ComparisonOp) (a : AtomicValue) (bs : List AtomicValue) :
    ¬ WantsContext (relatedToSome op a bs) := by
  induction bs with
  | nil => exact not_wantsContext_ok _
  | cons b rest ih =>
    refine not_wantsContext_bind (not_wantsContext_map (not_wantsContext_compare? a b) _) fun related => ?_
    cases related with
    | true => exact not_wantsContext_ok _
    | false => exact ih

theorem not_wantsContext_someRelated (op : ComparisonOp) (left right : List AtomicValue) :
    ¬ WantsContext (someRelated op left right) := by
  induction left with
  | nil => exact not_wantsContext_ok _
  | cons a rest ih =>
    refine not_wantsContext_bind (not_wantsContext_relatedToSome op a right) fun related => ?_
    cases related with
    | true => exact not_wantsContext_ok _
    | false => exact ih

end AtomicValue

/-! ### What is settled without a context -/

/-- **What depends on a focus is settled** when without a context it fails for want of it, or else
is the same for every focus. -/
def Settled (f : Focus → Except QueryError α) : Prop :=
  WantsContext (f .nowhere) ∨ ∀ focus, f focus = f .nowhere

section Settled

variable {f : Focus → Except QueryError α}

theorem settled_const (x : Except QueryError α) : Settled fun _ => x := .inr fun _ => rfl

theorem Settled.bind (hf : Settled f) {g : α → Focus → Except QueryError β}
    (hg : ∀ a, Settled (g a)) : Settled fun focus => f focus >>= fun a => g a focus := by
  rcases hf with hwants | hsame
  · exact .inl (hwants.bind _)
  · cases hnowhere : f .nowhere with
    | error cause =>
      have herror : ∀ focus, f focus = .error cause := fun focus => (hsame focus).trans hnowhere
      refine .inr fun focus => ?_
      dsimp only
      rw [herror, herror]
      rfl
    | ok a =>
      have hok : ∀ focus, f focus = .ok a := fun focus => (hsame focus).trans hnowhere
      have hbind : (fun focus => f focus >>= fun a => g a focus) = g a :=
        funext fun focus => by rw [hok, ok_bind]
      exact hbind ▸ hg a

/-- **What is settled and does not fail for want of a context** is the same for every focus. -/
theorem Settled.eq (hf : Settled f) (h : ¬ WantsContext (f .nowhere)) (focus focus' : Focus) :
    f focus = f focus' := by
  have hsame := hf.resolve_left h
  exact (hsame focus).trans (hsame focus').symm

end Settled

variable {σ : Setting} {s : Store}

theorem settled_contextSet : Settled (contextSet s) := .inl ⟨.noContextItem, rfl, rfl⟩

theorem not_wantsContext_contextSet {focus : Focus} (h : focus ≠ .nowhere) :
    ¬ WantsContext (contextSet s focus) := by
  obtain ⟨context, item⟩ := focus
  cases item with
  | some item =>
    cases item with
    | node n => exact not_wantsContext_ok _
    | atomic value => exact not_wantsContext_error nofun
  | none =>
    cases context with
    | some sequence => exact sequence.not_wantsContext_toShared
    | none => exact absurd rfl h

theorem not_wantsContext_value (c : QueryContext) (name : String) :
    ¬ WantsContext (c.value name) := by
  unfold QueryContext.value
  split
  · exact not_wantsContext_ok _
  · exact not_wantsContext_error nofun

/-! ### Functions -/

namespace Builtin

/-- Only `string()` looks at the focus. -/
theorem settled_apply (function : Builtin) (args : List Sequence) :
    Settled fun focus => σ.outcome (function.apply s focus args) := by
  by_cases h : function = .string ∧ args = []
  · obtain ⟨rfl, rfl⟩ := h
    exact .inl ⟨.noStringContext, rfl, rfl⟩
  · refine .inr fun focus => congrArg σ.outcome ?_
    cases function <;> rcases args with _ | ⟨_, _ | ⟨_, _ | _⟩⟩ <;>
      first | rfl | exact absurd ⟨rfl, rfl⟩ h

theorem reads_textArgument (function : Builtin) (v : Sequence) :
    σ.Reads (textArgument s function v) :=
  reads_of_alike (alike_textArgument s function v)

theorem not_wantsContext_textArgument (function : Builtin) (v : Sequence) :
    ¬ WantsContext (σ.outcome (textArgument s function v)) := by
  unfold textArgument
  rw [outcome_ofStore_bind]
  refine not_wantsContext_bind (not_wantsContext_store _) fun values => ?_
  rcases values with _ | ⟨value, _ | ⟨second, rest⟩⟩
  · exact not_wantsContext_ok _
  · exact not_wantsContext_ok _
  · exact not_wantsContext_error nofun

/-- A call goes on with the text of an argument. -/
theorem not_wantsContext_withText {function : Builtin} {v : Sequence} {f : String → Evaluation β}
    (hreads : ∀ text, σ.Reads (f text)) (h : ∀ text, ¬ WantsContext (σ.outcome (f text))) :
    ¬ WantsContext (σ.outcome (textArgument s function v >>= f)) := by
  rw [outcome_bind (reads_textArgument function v) hreads]
  exact not_wantsContext_bind (not_wantsContext_textArgument function v) h

theorem not_wantsContext_focusSequence {focus : Focus} (h : focus ≠ .nowhere) :
    ¬ WantsContext (focusSequence focus) := by
  obtain ⟨context, item⟩ := focus
  cases item with
  | some item => exact not_wantsContext_ok _
  | none =>
    cases context with
    | some sequence => exact not_wantsContext_ok _
    | none => exact absurd rfl h

/-- **No call fails for want of a context that is there.** -/
theorem not_wantsContext_apply {focus : Focus} (function : Builtin) (args : List Sequence)
    (h : focus ≠ .nowhere) : ¬ WantsContext (σ.outcome (function.apply s focus args)) := by
  have hpure : ∀ {f : String → Sequence}, ∀ text, σ.Reads (pure (f text) : Evaluation Sequence) :=
    fun _ => reads_pure _
  unfold apply
  split
  · exact not_wantsContext_ok _
  · refine not_wantsContext_withText (fun _ => reads_bind (reads_orFail _) fun _ => reads_pure _)
      fun uri => ?_
    rw [outcome_ofStore_bind]
    exact not_wantsContext_bind (not_wantsContext_store _) fun _ => not_wantsContext_ok _
  · exact not_wantsContext_ok _
  · exact not_wantsContext_ok _
  · exact not_wantsContext_ok _
  · rw [outcome_orFail_bind]
    exact not_wantsContext_bind (Sequence.not_wantsContext_truth _) fun _ => not_wantsContext_ok _
  · rw [outcome_orFail_bind]
    exact not_wantsContext_bind (not_wantsContext_focusSequence h) fun items =>
      not_wantsContext_withText hpure fun _ => not_wantsContext_ok _
  · exact not_wantsContext_withText hpure fun _ => not_wantsContext_ok _
  · exact not_wantsContext_withText (fun _ => reads_bind (reads_textArgument _ _) fun _ => reads_pure _)
      fun _ => not_wantsContext_withText hpure fun _ => not_wantsContext_ok _
  · exact not_wantsContext_withText (fun _ => reads_bind (reads_textArgument _ _) fun _ => reads_pure _)
      fun _ => not_wantsContext_withText hpure fun _ => not_wantsContext_ok _
  · exact not_wantsContext_ok _
  · exact not_wantsContext_ok _
  · exact not_wantsContext_error nofun

end Builtin

/-! ### Steps and predicates -/

section Predicates

variable {evaluate : Focus → Evaluation Sequence}

theorem not_wantsContext_selectAxis (head : StepHead) (context : NodeSet) :
    ¬ WantsContext (σ.outcome (selectAxis s head context)) := by
  rw [outcome_selectAxis]
  split
  · exact not_wantsContext_ok _
  · exact not_wantsContext_store _

theorem IndexProbe.not_wantsContext_answer (p : IndexProbe) (candidates : NodeSet) :
    ¬ WantsContext (p.answer s candidates) := by
  unfold answer
  split
  · exact not_wantsContext_ok _
  · refine not_wantsContext_bind (not_wantsContext_store _) fun covered => ?_
    cases covered with
    | true => exact not_wantsContext_bind (not_wantsContext_store _) fun _ => not_wantsContext_ok _
    | false => exact not_wantsContext_ok _

theorem itemFocus_ne_nowhere (persistent : Bool) (item : Item) :
    itemFocus persistent item ≠ .nowhere := by
  cases item <;> exact fun h => nomatch congrArg Focus.item h

theorem not_wantsContext_selectItems (hreads : ∀ focus, σ.Reads (evaluate focus))
    (h : ∀ focus, focus ≠ .nowhere → ¬ WantsContext (σ.outcome (evaluate focus)))
    (persistent reverse : Bool) (items : List Item) :
    ∀ position, ¬ WantsContext
      (σ.outcome (selectItems evaluate persistent reverse position items)) := by
  induction items with
  | nil => exact fun _ => not_wantsContext_ok _
  | cons item rest ih =>
    intro position
    rw [outcome_selectItems_cons hreads]
    exact not_wantsContext_bind (h _ (itemFocus_ne_nowhere persistent item)) fun outcome =>
      not_wantsContext_bind (outcome.not_wantsContext_selects position) fun _ =>
        not_wantsContext_bind (ih _) fun _ => not_wantsContext_ok _

theorem not_wantsContext_applyPredicate (hreads : ∀ focus, σ.Reads (evaluate focus))
    (h : ∀ focus, focus ≠ .nowhere → ¬ WantsContext (σ.outcome (evaluate focus)))
    (mode : PredicateMode) (probe : Option (ExprId × IndexProbe)) (reverse : Bool) (v : Sequence) :
    ¬ WantsContext (σ.outcome (applyPredicate s mode probe evaluate reverse v)) := by
  rw [outcome_applyPredicate hreads]
  refine not_wantsContext_bind ?_ fun kept => ?_
  · unfold byIndex
    split
    · exact IndexProbe.not_wantsContext_answer _ _
    · exact not_wantsContext_ok _
  · cases kept with
    | some kept => exact not_wantsContext_ok _
    | none =>
      dsimp only
      rw [outcome_applyByItem hreads]
      exact not_wantsContext_map (not_wantsContext_selectItems hreads h _ _ _ _) _

end Predicates

/-! ### Expressions -/

namespace Expr

variable {focus : Focus}

theorem not_wantsContext_applyPredicates {ps : List Predicate} (hfree : ∀ p ∈ ps, p.expr.IsPragmaFree)
    (h : ∀ p ∈ ps, ∀ focus, focus ≠ .nowhere → ¬ WantsContext (σ.outcome (p.expr.evaluate s focus)))
    (reverse : Bool) : ∀ v, ¬ WantsContext (σ.outcome (applyPredicates s ps reverse v)) := by
  induction ps with
  | nil => exact fun v => not_wantsContext_ok v
  | cons p rest ih =>
    intro v
    rw [outcome_applyPredicates_cons hfree]
    exact not_wantsContext_bind
      (not_wantsContext_applyPredicate (reads_evaluate (hfree p List.mem_cons_self))
        (h p List.mem_cons_self) _ _ _ _)
      (ih (fun p hp => hfree p (List.mem_cons_of_mem _ hp)) fun p hp => h p (List.mem_cons_of_mem _ hp))

theorem not_wantsContext_evaluateSteps {es : List Expr} (hfree : ∀ e ∈ es, e.IsPragmaFree)
    (h : ∀ e ∈ es, ∀ focus, focus ≠ .nowhere → ¬ WantsContext (σ.outcome (e.evaluate s focus))) :
    ∀ v, ¬ WantsContext (σ.outcome (evaluateSteps s es v)) := by
  induction es with
  | nil => exact fun v => not_wantsContext_ok v
  | cons e rest ih =>
    intro v
    rw [outcome_evaluateSteps_cons hfree]
    split_ifs
    · exact not_wantsContext_ok _
    · exact not_wantsContext_bind v.not_wantsContext_toShared fun context => not_wantsContext_bind
        (h e List.mem_cons_self _ fun hfocus => nomatch congrArg Focus.context hfocus)
        (ih (fun e he => hfree e (List.mem_cons_of_mem _ he)) fun e he => h e (List.mem_cons_of_mem _ he))

theorem not_wantsContext_evaluateAll {es : List Expr} (hfree : ∀ e ∈ es, e.IsPragmaFree)
    (h : ∀ e ∈ es, ¬ WantsContext (σ.outcome (e.evaluate s focus))) :
    ¬ WantsContext (σ.outcome (evaluateAll s es focus)) := by
  induction es with
  | nil => exact not_wantsContext_ok _
  | cons e rest ih =>
    rw [outcome_evaluateAll_cons hfree]
    exact not_wantsContext_bind (h e List.mem_cons_self) fun _ => not_wantsContext_bind
      (ih (fun e he => hfree e (List.mem_cons_of_mem _ he)) fun e he => h e (List.mem_cons_of_mem _ he))
      fun _ => not_wantsContext_ok _

theorem not_wantsContext_step {head : StepHead} {ps : List Predicate}
    (hfree : (step head ps).IsPragmaFree)
    (h : ∀ p ∈ ps, ∀ focus, focus ≠ .nowhere → ¬ WantsContext (σ.outcome (p.expr.evaluate s focus)))
    (hfocus : focus ≠ .nowhere) : ¬ WantsContext (σ.outcome ((step head ps).evaluate s focus)) := by
  have happly := not_wantsContext_applyPredicates (isPragmaFree_step.1 hfree) h
  rw [outcome_step hfree]
  refine not_wantsContext_bind (not_wantsContext_contextSet hfocus) fun context => ?_
  split_ifs
  · refine not_wantsContext_bind (not_wantsContext_foldlM (fun _ n _ => ?_) _) fun _ =>
      not_wantsContext_ok _
    exact not_wantsContext_bind (not_wantsContext_selectAxis head _) fun _ =>
      not_wantsContext_bind (happly _ _) fun kept =>
        not_wantsContext_bind kept.not_wantsContext_toShared fun _ => not_wantsContext_ok _
  · exact not_wantsContext_bind (not_wantsContext_selectAxis head _) fun _ => happly _ _

theorem not_wantsContext_call {id : ExprId} {function : Builtin} {args : List Expr} {access : Access}
    (hfree : (call id function args access).IsPragmaFree)
    (h : ∀ e ∈ args, ¬ WantsContext (σ.outcome (e.evaluate s focus))) (hfocus : focus ≠ .nowhere) :
    ¬ WantsContext (σ.outcome ((call id function args access).evaluate s focus)) := by
  rw [outcome_call hfree]
  exact not_wantsContext_bind (not_wantsContext_evaluateAll (isPragmaFree_call.1 hfree) h)
    fun values => function.not_wantsContext_apply values hfocus

/-- **No expression fails for want of a context that is there.** -/
theorem not_wantsContext_outcome (e : Expr) : e.IsPragmaFree → ∀ focus, focus ≠ .nowhere →
    ¬ WantsContext (σ.outcome (e.evaluate s focus)) := by
  induction e using Expr.induct with
  | path id steps ih =>
    intro hfree focus hfocus
    have hsteps := isPragmaFree_path.1 hfree
    cases steps with
    | nil => exact outcome_path_nil (σ := σ) (s := s) id focus ▸ not_wantsContext_ok _
    | cons first rest =>
      rw [outcome_path_cons hfree]
      exact not_wantsContext_bind
        (ih first List.mem_cons_self (hsteps first List.mem_cons_self) focus hfocus)
        (not_wantsContext_evaluateSteps (fun e he => hsteps e (List.mem_cons_of_mem _ he))
          fun e he => ih e (List.mem_cons_of_mem _ he) (hsteps e (List.mem_cons_of_mem _ he)))
  | step head ps ih =>
    intro hfree focus hfocus
    exact not_wantsContext_step hfree (fun p hp => ih p hp (isPragmaFree_step.1 hfree p hp)) hfocus
  | root =>
    intro _ focus hfocus
    rw [outcome_root]
    exact not_wantsContext_bind (not_wantsContext_contextSet hfocus) fun _ => not_wantsContext_ok _
  | filter id base ps hbase ih =>
    intro hfree focus hfocus
    obtain ⟨hbaseFree, hpsFree⟩ := isPragmaFree_filter.1 hfree
    rw [outcome_filter hfree]
    exact not_wantsContext_bind (hbase hbaseFree focus hfocus)
      (not_wantsContext_applyPredicates hpsFree (fun p hp => ih p hp (hpsFree p hp)) false)
  | comparison id op left right access hleft hright =>
    intro hfree focus hfocus
    obtain ⟨hleftFree, hrightFree⟩ := isPragmaFree_comparison.1 hfree
    rw [outcome_comparison hfree]
    refine not_wantsContext_bind (hleft hleftFree focus hfocus) fun l =>
      not_wantsContext_bind (hright hrightFree focus hfocus) fun r => ?_
    rw [outcome_compareSequences]
    exact not_wantsContext_bind (not_wantsContext_store _) fun _ => not_wantsContext_bind
      (not_wantsContext_store _) fun _ => not_wantsContext_bind
        (AtomicValue.not_wantsContext_someRelated _ _ _) fun _ => not_wantsContext_ok _
  | call id function args access ih =>
    intro hfree focus hfocus
    exact not_wantsContext_call hfree
      (fun e he => ih e he (isPragmaFree_call.1 hfree e he) focus hfocus) hfocus
  | var name =>
    intro _ focus _
    rw [outcome_variable]
    exact not_wantsContext_value _ _
  | literal value =>
    exact fun _ focus _ => outcome_literal (σ := σ) (s := s) value focus ▸ not_wantsContext_ok _
  | and left right hleft hright =>
    intro hfree focus hfocus
    obtain ⟨hleftFree, hrightFree⟩ := isPragmaFree_and.1 hfree
    rw [outcome_and hfree]
    refine not_wantsContext_bind (hleft hleftFree focus hfocus) fun l =>
      not_wantsContext_bind l.not_wantsContext_truth fun b => ?_
    split_ifs
    · exact not_wantsContext_bind (hright hrightFree focus hfocus) fun r =>
        not_wantsContext_bind r.not_wantsContext_truth fun _ => not_wantsContext_ok _
    · exact not_wantsContext_ok _
  | or left right hleft hright =>
    intro hfree focus hfocus
    obtain ⟨hleftFree, hrightFree⟩ := isPragmaFree_or.1 hfree
    rw [outcome_or hfree]
    refine not_wantsContext_bind (hleft hleftFree focus hfocus) fun l =>
      not_wantsContext_bind l.not_wantsContext_truth fun b => ?_
    split_ifs
    · exact not_wantsContext_ok _
    · exact not_wantsContext_bind (hright hrightFree focus hfocus) fun r =>
        not_wantsContext_bind r.not_wantsContext_truth fun _ => not_wantsContext_ok _
  | sequence items ih =>
    intro hfree focus hfocus
    have hitems := isPragmaFree_sequence.1 hfree
    rw [outcome_sequence hfree]
    exact not_wantsContext_bind (not_wantsContext_evaluateAll hitems fun e he =>
      ih e he (hitems e he) focus hfocus) fun _ => not_wantsContext_ok _
  | extension id pragmas body => exact fun hfree => absurd hfree not_isPragmaFree_extension

theorem settled_evaluateAll {es : List Expr} (hfree : ∀ e ∈ es, e.IsPragmaFree)
    (h : ∀ e ∈ es, Settled fun focus => σ.outcome (e.evaluate s focus)) :
    Settled fun focus => σ.outcome (evaluateAll s es focus) := by
  induction es with
  | nil =>
    simp only [outcome_evaluateAll_nil]
    exact settled_const _
  | cons e rest ih =>
    simp only [outcome_evaluateAll_cons hfree]
    exact (h e List.mem_cons_self).bind fun value =>
      (ih (fun e he => hfree e (List.mem_cons_of_mem _ he)) fun e he =>
        h e (List.mem_cons_of_mem _ he)).bind fun values => settled_const _

/-- **Without a context an expression fails for want of it or is the same everywhere.** -/
theorem settled_outcome (e : Expr) : e.IsPragmaFree →
    Settled fun focus => σ.outcome (e.evaluate s focus) := by
  induction e using Expr.induct with
  | path id steps ih =>
    intro hfree
    cases steps with
    | nil =>
      simp only [outcome_path_nil]
      exact settled_const _
    | cons first rest =>
      simp only [outcome_path_cons hfree]
      exact (ih first List.mem_cons_self (isPragmaFree_path.1 hfree first List.mem_cons_self)).bind
        fun value => settled_const _
  | step head ps =>
    intro hfree
    simp only [outcome_step hfree]
    exact settled_contextSet.bind fun context => settled_const _
  | root =>
    intro _
    simp only [outcome_root]
    exact settled_contextSet.bind fun context => settled_const _
  | filter id base ps hbase =>
    intro hfree
    simp only [outcome_filter hfree]
    exact (hbase (isPragmaFree_filter.1 hfree).1).bind fun value => settled_const _
  | comparison id op left right access hleft hright =>
    intro hfree
    obtain ⟨hleftFree, hrightFree⟩ := isPragmaFree_comparison.1 hfree
    simp only [outcome_comparison hfree]
    exact (hleft hleftFree).bind fun l => (hright hrightFree).bind fun r => settled_const _
  | call id function args access ih =>
    intro hfree
    have hargs := isPragmaFree_call.1 hfree
    simp only [outcome_call hfree]
    exact (settled_evaluateAll hargs fun e he => ih e he (hargs e he)).bind fun args =>
      function.settled_apply args
  | var name =>
    intro _
    simp only [outcome_variable]
    exact settled_const _
  | literal value =>
    intro _
    simp only [outcome_literal]
    exact settled_const _
  | and left right hleft hright =>
    intro hfree
    obtain ⟨hleftFree, hrightFree⟩ := isPragmaFree_and.1 hfree
    simp only [outcome_and hfree]
    refine (hleft hleftFree).bind fun l => (settled_const _).bind fun b => ?_
    cases b with
    | true => exact (hright hrightFree).bind fun r => settled_const _
    | false => exact settled_const _
  | or left right hleft hright =>
    intro hfree
    obtain ⟨hleftFree, hrightFree⟩ := isPragmaFree_or.1 hfree
    simp only [outcome_or hfree]
    refine (hleft hleftFree).bind fun l => (settled_const _).bind fun b => ?_
    cases b with
    | true => exact settled_const _
    | false => exact (hright hrightFree).bind fun r => settled_const _
  | sequence items ih =>
    intro hfree
    have hitems := isPragmaFree_sequence.1 hfree
    simp only [outcome_sequence hfree]
    exact (settled_evaluateAll hitems fun e he => ih e he (hitems e he)).bind fun values =>
      settled_const _
  | extension id pragmas body => exact fun hfree => absurd hfree not_isPragmaFree_extension

/-- **What begins with a step wants a context.** -/
theorem wantsContext_of_firstStep? {found : StepHead × List Predicate} (e : Expr) :
    e.IsPragmaFree → e.firstStep? = some found →
      WantsContext (σ.outcome (e.evaluate s .nowhere)) := by
  induction e using Expr.induct with
  | path id steps ih =>
    intro hfree h
    cases steps with
    | nil => cases h
    | cons first rest =>
      rw [outcome_path_cons hfree]
      refine WantsContext.bind ?_ _
      by_cases hroot : first = root
      · subst hroot
        exact outcome_root (σ := σ) (s := s) .nowhere ▸ ⟨.noContextItem, rfl, rfl⟩
      · refine ih first List.mem_cons_self (isPragmaFree_path.1 hfree first List.mem_cons_self) ?_
        cases first <;> first | exact h | exact absurd rfl hroot
  | step head ps =>
    intro hfree _
    rw [outcome_step hfree]
    exact ⟨.noContextItem, rfl, rfl⟩
  | extension id pragmas body => exact fun hfree => absurd hfree not_isPragmaFree_extension
  | _ => exact fun _ h => nomatch h

end Expr
end IndexedXml
