/-
# Values without numbers

A predicate whose value is a number selects by position; any other is true or false of an item.
The form of an expression can tell that no value of it has numbers (`Expr.isNumberless`): what
ends in a step consists of nodes, and a condition is a truth value.
-/

import IndexedXml.Proofs.Query.Evidence
import IndexedXml.Proofs.Query.Extent

namespace IndexedXml

open Evaluation Setting

variable {s : Store} {σ : Setting}

/-- **A value without numbers** has no item that is one. -/
def Sequence.IsNumberless (v : Sequence) : Prop :=
  ∀ value, .atomic value ∈ v.toItems → value.isNumeric = false

namespace Sequence

variable {v w : Sequence}

theorem IsNumberless.number? (h : v.IsNumberless) : v.number? = none := by
  unfold Sequence.number?
  split
  · rw [h _ List.mem_cons_self]
    rfl
  · rfl

theorem IsNumberless.mono (h : v.IsNumberless) (hsub : ∀ item ∈ w.toItems, item ∈ v.toItems) :
    w.IsNumberless := fun value hvalue => h value (hsub _ hvalue)

theorem isNumberless_nodes (shared : SharedSet) : (nodes shared).IsNumberless := by
  intro value hvalue
  obtain ⟨_, _, heq⟩ := List.mem_map.1 hvalue
  cases heq

theorem isNumberless_ofValue {value : AtomicValue} (h : value.isNumeric = false) :
    (ofValue value).IsNumberless := by
  intro other hother
  obtain rfl : other = value := Item.atomic.inj (List.mem_singleton.1 hother)
  exact h

theorem isNumberless_empty : empty.IsNumberless := fun _ h => absurd h List.not_mem_nil

end Sequence

namespace Expr

mutual

/-- **Whether no value of the expression has numbers,** as far as its form tells. -/
def isNumberless : Expr → Bool
  | path _ steps => endsNumberless steps
  | step _ _ | root | comparison _ _ _ _ _ | and _ _ | or _ _ => true
  | filter _ base _ => base.isNumberless
  | call _ function _ _ => function.isPredicate
  | literal value => !value.isNumeric
  | _ => false

/-- Whether no value of the last expression has. -/
def endsNumberless : List Expr → Bool
  | [] => true
  | [e] => e.isNumberless
  | _ :: rest => endsNumberless rest

end

variable {v w : Sequence}

theorem isNumberless_of_applyPredicate {e : Expr} (hfree : e.IsPragmaFree) {mode : PredicateMode}
    {reverse : Bool} (hv : v.IsNumberless)
    (hw : σ.outcome (applyPredicate s mode e.probe? (e.evaluate s) reverse v) = .ok w) :
    w.IsNumberless := by
  have hreads : ∀ focus, σ.Reads (e.evaluate s focus) := reads_evaluate hfree
  rw [outcome_applyPredicate hreads] at hw
  obtain ⟨answer, _, hw⟩ := bind_eq_ok.1 hw
  cases answer with
  | some kept =>
    obtain rfl : Sequence.ofSet kept = w := Except.ok.inj hw
    exact Sequence.isNumberless_nodes _
  | none =>
    rw [outcome_applyByItem hreads] at hw
    obtain ⟨kept, hkept, rfl⟩ := map_eq_ok.1 hw
    exact hv.mono fun item hitem =>
      (selects_of_mem_selectItems hreads hkept item (mem_toItems_withItems hitem)).1

theorem isNumberless_of_applyPredicates {ps : List Predicate} {reverse : Bool} :
    ∀ {v w : Sequence}, (∀ p ∈ ps, p.expr.IsPragmaFree) → v.IsNumberless →
      σ.outcome (applyPredicates s ps reverse v) = .ok w → w.IsNumberless := by
  induction ps with
  | nil =>
    intro v w _ hv hw
    rw [outcome_applyPredicates_nil] at hw
    exact Except.ok.inj hw ▸ hv
  | cons p rest ih =>
    intro v w hfree hv hw
    rw [outcome_applyPredicates_cons hfree] at hw
    obtain ⟨first, hfirst, hw⟩ := bind_eq_ok.1 hw
    exact ih (fun q hq => hfree q (List.mem_cons_of_mem _ hq))
      (isNumberless_of_applyPredicate (hfree p List.mem_cons_self) hv hfirst) hw

/-- Only the last of some further steps tells whether there are numbers. -/
theorem isNumberless_of_evaluateSteps {es : List Expr} :
    ∀ {v w : Sequence}, (∀ e ∈ es, e.IsPragmaFree) →
      (∀ e ∈ es, e.isNumberless = true → ∀ focus v, σ.outcome (e.evaluate s focus) = .ok v →
        v.IsNumberless) →
      endsNumberless es = true → (es = [] → v.IsNumberless) →
        σ.outcome (evaluateSteps s es v) = .ok w → w.IsNumberless := by
  induction es with
  | nil =>
    intro v w _ _ _ hv hw
    rw [outcome_evaluateSteps_nil] at hw
    exact Except.ok.inj hw ▸ hv rfl
  | cons e rest ih =>
    intro v w hfree hes h _ hw
    rw [outcome_evaluateSteps_cons hfree] at hw
    split_ifs at hw
    · exact Except.ok.inj hw ▸ Sequence.isNumberless_empty
    · obtain ⟨shared, _, hw⟩ := bind_eq_ok.1 hw
      obtain ⟨next, hnext, hw⟩ := bind_eq_ok.1 hw
      have hlater : endsNumberless rest = true := by
        cases rest with
        | nil => rfl
        | cons => exact h
      refine ih (fun e he => hfree e (List.mem_cons_of_mem _ he))
        (fun e he => hes e (List.mem_cons_of_mem _ he)) hlater (fun hnil => ?_) hw
      subst hnil
      exact hes e List.mem_cons_self h _ _ hnext

/-- A truth value is no number. -/
theorem isNumberless_of_isTruth {m : Evaluation Sequence} (h : m.IsTruth)
    (hv : σ.outcome m = .ok v) : v.IsNumberless := by
  obtain ⟨b, rfl⟩ := h _ _ hv
  exact Sequence.isNumberless_ofValue rfl

/-- **What is numberless by its form has no numbers in its values.** -/
theorem isNumberless_of_outcome (e : Expr) : e.IsPragmaFree → e.isNumberless = true →
    ∀ focus v, σ.outcome (e.evaluate s focus) = .ok v → v.IsNumberless := by
  induction e using Expr.induct with
  | path id steps ih =>
    intro hfree h focus v hv
    have hsteps := isPragmaFree_path.1 hfree
    cases steps with
    | nil =>
      rw [outcome_path_nil] at hv
      exact Except.ok.inj hv ▸ Sequence.isNumberless_empty
    | cons first rest =>
      rw [outcome_path_cons hfree] at hv
      obtain ⟨value, hvalue, hv⟩ := bind_eq_ok.1 hv
      have hlater : endsNumberless rest = true := by
        cases rest with
        | nil => rfl
        | cons => exact h
      refine isNumberless_of_evaluateSteps (fun e he => hsteps e (List.mem_cons_of_mem _ he))
        (fun e he hless => ih e (List.mem_cons_of_mem _ he) (hsteps e (List.mem_cons_of_mem _ he)) hless)
        hlater (fun hnil => ?_) hv
      subst hnil
      exact ih first List.mem_cons_self (hsteps first List.mem_cons_self) h focus value hvalue
  | step head ps =>
    intro hfree _ focus v hv
    rw [outcome_step hfree] at hv
    obtain ⟨context, _, hv⟩ := bind_eq_ok.1 hv
    split_ifs at hv
    · obtain ⟨found, _, hv⟩ := bind_eq_ok.1 hv
      exact Except.ok.inj hv ▸ Sequence.isNumberless_nodes _
    · obtain ⟨selected, _, hv⟩ := bind_eq_ok.1 hv
      exact isNumberless_of_applyPredicates (isPragmaFree_step.1 hfree)
        (Sequence.isNumberless_nodes _) hv
  | root =>
    intro _ _ focus v hv
    rw [outcome_root] at hv
    obtain ⟨context, _, hv⟩ := bind_eq_ok.1 hv
    exact Except.ok.inj hv ▸ Sequence.isNumberless_nodes _
  | filter id base ps hbase _ =>
    intro hfree h focus v hv
    obtain ⟨hfreeBase, hfreePs⟩ := isPragmaFree_filter.1 hfree
    rw [outcome_filter hfree] at hv
    obtain ⟨value, hvalue, hv⟩ := bind_eq_ok.1 hv
    exact isNumberless_of_applyPredicates hfreePs (hbase hfreeBase h focus value hvalue) hv
  | literal value =>
    intro _ h focus v hv
    rw [outcome_literal] at hv
    exact Except.ok.inj hv ▸ Sequence.isNumberless_ofValue (by simpa [isNumberless] using h)
  | comparison id op left right access =>
    intro hfree _ focus v hv
    rw [outcome_comparison hfree] at hv
    obtain ⟨l, _, hv⟩ := bind_eq_ok.1 hv
    obtain ⟨r, _, hv⟩ := bind_eq_ok.1 hv
    exact isNumberless_of_isTruth (isTruth_compareSequences op l r) hv
  | call id function args access =>
    intro hfree h focus v hv
    rw [outcome_call hfree] at hv
    obtain ⟨values, _, hv⟩ := bind_eq_ok.1 hv
    exact isNumberless_of_isTruth (isTruth_apply focus h values) hv
  | and left right =>
    intro hfree _ focus v hv
    rw [outcome_and hfree] at hv
    obtain ⟨l, _, hv⟩ := bind_eq_ok.1 hv
    obtain ⟨b, _, hv⟩ := bind_eq_ok.1 hv
    split_ifs at hv
    · obtain ⟨r, _, hv⟩ := bind_eq_ok.1 hv
      obtain ⟨b, _, hv⟩ := bind_eq_ok.1 hv
      exact Except.ok.inj hv ▸ Sequence.isNumberless_ofValue rfl
    · exact Except.ok.inj hv ▸ Sequence.isNumberless_ofValue rfl
  | or left right =>
    intro hfree _ focus v hv
    rw [outcome_or hfree] at hv
    obtain ⟨l, _, hv⟩ := bind_eq_ok.1 hv
    obtain ⟨b, _, hv⟩ := bind_eq_ok.1 hv
    split_ifs at hv
    · exact Except.ok.inj hv ▸ Sequence.isNumberless_ofValue rfl
    · obtain ⟨r, _, hv⟩ := bind_eq_ok.1 hv
      obtain ⟨b, _, hv⟩ := bind_eq_ok.1 hv
      exact Except.ok.inj hv ▸ Sequence.isNumberless_ofValue rfl
  | _ => exact fun _ h => absurd h Bool.false_ne_true

end Expr
end IndexedXml
