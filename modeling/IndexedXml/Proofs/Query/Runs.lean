/-
# Computations that end alike

Two computations *end alike* under a relation on runs when, started from related runs,
they have the same outcome, values or errors, and leave related runs behind
(`Evaluation.Alike`).  A side condition on the values that come out is carried along.

There is one rule for each way of putting computations together, so that a proof about
the evaluation of an expression follows the expression and never looks into a run.
-/

import IndexedXml.Query.Run

namespace IndexedXml
namespace Evaluation

variable {α β : Type} {R : Run → Run → Prop}

/-- The outcome of a computation on a run. -/
def result (m : Evaluation α) (r : Run) : Except QueryError α := (m.run r).1

/-- The run that a computation leaves behind. -/
def after (m : Evaluation α) (r : Run) : Run := (m.run r).2

/-- **Two computations end alike** from related runs. -/
def Alike (R : Run → Run → Prop) (Q : α → Prop) (m m' : Evaluation α) : Prop :=
  ∀ r r', R r r' → m.result r = m'.result r' ∧ R (m.after r) (m'.after r') ∧
    ∀ a, m.result r = .ok a → Q a

/-! ### Results of compositions -/

@[simp] theorem result_pure (a : α) (r : Run) : (pure a : Evaluation α).result r = .ok a := rfl

@[simp] theorem after_pure (a : α) (r : Run) : (pure a : Evaluation α).after r = r := rfl

@[simp] theorem result_orFail (x : Except QueryError α) (r : Run) : (orFail x).result r = x := rfl

@[simp] theorem after_orFail (x : Except QueryError α) (r : Run) : (orFail x).after r = r := rfl

theorem result_bind (m : Evaluation α) (f : α → Evaluation β) (r : Run) :
    (m >>= f).result r = m.result r >>= fun a => (f a).result (m.after r) := by
  change ((ExceptT.bindCont f) (m.run r).1 (m.run r).2).1 = _
  unfold result after
  cases (m.run r).1 <;> rfl

theorem after_bind (m : Evaluation α) (f : α → Evaluation β) (r : Run) :
    (m >>= f).after r =
      match m.result r with
      | .ok a => (f a).after (m.after r)
      | .error _ => m.after r := by
  change ((ExceptT.bindCont f) (m.run r).1 (m.run r).2).2 = _
  unfold result after
  cases (m.run r).1 <;> rfl

/-! ### Rules -/

namespace Alike

variable {P : α → Prop} {Q : β → Prop}

theorem pure {a : α} (h : P a) : Alike R P (pure a) (pure a) := by
  intro r r' hR
  refine ⟨rfl, hR, fun b hb => ?_⟩
  obtain rfl : a = b := Except.ok.inj hb
  exact h

theorem orFail {x : Except QueryError α} (h : ∀ a, x = .ok a → P a) :
    Alike R P (orFail x) (orFail x) :=
  fun _ _ hR => ⟨rfl, hR, h⟩

theorem ofStore {x : Except StoreError α} (h : ∀ a, x = .ok a → P a) :
    Alike R P (ofStore x) (ofStore x) := by
  refine orFail fun a ha => h a ?_
  cases x with
  | error e => cases ha
  | ok b => exact congrArg Except.ok (Except.ok.inj ha)

theorem orFail_any (x : Except QueryError α) :
    Alike R (fun _ => True) (Evaluation.orFail x) (Evaluation.orFail x) :=
  orFail fun _ _ => trivial

theorem ofStore_any (x : Except StoreError α) :
    Alike R (fun _ => True) (Evaluation.ofStore x) (Evaluation.ofStore x) :=
  ofStore fun _ _ => trivial

/-- **Compositions of computations that end alike end alike.** -/
theorem bind {m m' : Evaluation α} {f f' : α → Evaluation β} (hm : Alike R P m m')
    (hf : ∀ a, P a → Alike R Q (f a) (f' a)) : Alike R Q (m >>= f) (m' >>= f') := by
  intro r r' hR
  obtain ⟨hresult, hafter, hP⟩ := hm r r' hR
  rw [result_bind, result_bind, after_bind, after_bind, ← hresult]
  cases hr : m.result r with
  | error e => exact ⟨rfl, hafter, fun _ h => nomatch h⟩
  | ok a => exact hf a (hP a hr) _ _ hafter

theorem mono {P' : α → Prop} {m m' : Evaluation α} (h : Alike R P m m') (hP : ∀ a, P a → P' a) :
    Alike R P' m m' := by
  intro r r' hR
  obtain ⟨hresult, hafter, hvalue⟩ := h r r' hR
  exact ⟨hresult, hafter, fun a ha => hP a (hvalue a ha)⟩

/-- What is read of the context may differ, as long as what is made of it ends alike. -/
theorem queryContext_bind {f f' : QueryContext → Evaluation α}
    (h : ∀ r r', R r r' → Alike R P (f r.context) (f' r'.context)) :
    Alike R P (queryContext >>= f) (queryContext >>= f') :=
  fun r r' hR => h r r' hR r r' hR

/-- What is only found out about a run may differ, as long as it can be found out on both
sides or on none, and what is made of it ends alike. -/
theorem read_bind {m m' : Evaluation β} {f f' : β → Evaluation α}
    (hafter : ∀ r, m.after r = r) (hafter' : ∀ r, m'.after r = r)
    (h : ∀ r r', R r r' →
      (∃ b b', m.result r = .ok b ∧ m'.result r' = .ok b' ∧ Alike R P (f b) (f' b')) ∨
      ∃ e, m.result r = .error e ∧ m'.result r' = .error e) :
    Alike R P (m >>= f) (m' >>= f') := by
  intro r r' hR
  rw [result_bind, result_bind, after_bind, after_bind, hafter, hafter']
  rcases h r r' hR with ⟨b, b', hb, hb', halike⟩ | ⟨e, he, he'⟩
  · rw [hb, hb']
    exact halike r r' hR
  · rw [he, he']
    exact ⟨rfl, hR, fun _ h => nomatch h⟩

/-- A change that makes runs agree on more than is asked for in the end. -/
theorem update_bind {f f' : QueryContext → QueryContext} {m m' : Evaluation α}
    {S : Run → Run → Prop}
    (hload : ∀ r r', R r r' →
      S { r with context := f r.context } { r' with context := f' r'.context })
    (hforget : ∀ r r', S r r' → R r r') (hm : Alike S P m m') :
    Alike R P (Evaluation.update f >>= fun _ => m) (Evaluation.update f' >>= fun _ => m') := by
  intro r r' hR
  obtain ⟨hresult, hafter, hP⟩ := hm _ _ (hload r r' hR)
  exact ⟨hresult, hforget _ _ hafter, hP⟩

theorem update {f f' : QueryContext → QueryContext}
    (h : ∀ r r', R r r' →
      R { r with context := f r.context } { r' with context := f' r'.context }) :
    Alike R (fun _ => True) (update f) (update f') :=
  fun r r' hR => ⟨rfl, h r r' hR, fun _ _ => trivial⟩

/-- Lookups end alike when counting them keeps runs related. -/
theorem lookup {kind : LookupKind}
    (hcount : ∀ r r', R r r' → R { r with counts := r.counts.count kind }
      { r' with counts := r'.counts.count kind })
    {answer : Except StoreError NodeSet} :
    Alike R (fun _ => True) (lookup kind answer) (lookup kind answer) := by
  unfold Evaluation.lookup
  refine bind (ofStore_any answer) fun set _ => ?_
  intro r r' hR
  exact ⟨rfl, hcount r r' hR, fun _ _ => trivial⟩

/-- Candidates prepared on both sides are dropped on both sides. -/
theorem preloading {step : ExprId} {candidates : NodeSet} {m m' : Evaluation α}
    {S : Run → Run → Prop}
    (hload : ∀ r r', R r r' → S { r with context := r.context.preload step candidates }
      { r' with context := r'.context.preload step candidates })
    (hunload : ∀ r r', S r r' → R { r with context := r.context.unload step }
      { r' with context := r'.context.unload step })
    (hm : Alike S P m m') : Alike R P (preloading step candidates m) (preloading step candidates m') := by
  intro r r' hR
  obtain ⟨hresult, hafter, hP⟩ := hm _ _ (hload r r' hR)
  exact ⟨hresult, hunload _ _ hafter, hP⟩

/-- A walk through a list keeps what each of its steps keeps. -/
theorem foldlM {f f' : β → α → Evaluation β} {l : List α} {b : β} (hb : Q b)
    (hf : ∀ b, Q b → ∀ a ∈ l, Alike R Q (f b a) (f' b a)) :
    Alike R Q (l.foldlM f b) (l.foldlM f' b) := by
  induction l generalizing b with
  | nil => exact pure hb
  | cons a rest ih =>
    rw [List.foldlM_cons, List.foldlM_cons]
    exact bind (hf b hb a List.mem_cons_self) fun c hc =>
      ih hc fun b hb a ha => hf b hb a (List.mem_cons_of_mem _ ha)

theorem forM {f f' : α → Evaluation PUnit} {l : List α}
    (hf : ∀ a ∈ l, Alike R (fun _ => True) (f a) (f' a)) :
    Alike R (fun _ => True) (l.forM f) (l.forM f') := by
  induction l with
  | nil => exact pure trivial
  | cons a rest ih =>
    exact bind (hf a List.mem_cons_self) fun _ _ =>
      ih fun a ha => hf a (List.mem_cons_of_mem _ ha)

end Alike

end Evaluation
end IndexedXml
