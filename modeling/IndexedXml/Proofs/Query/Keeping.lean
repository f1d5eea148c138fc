/-
# Computations that keep an invariant

A computation on runs *keeps* an invariant when it leaves every run that has the invariant
with the invariant, however it ends; what comes out then has a property, values one and
failures another (`Evaluation.Keeps`).  There is one rule for each way of putting
computations together.
-/

import IndexedXml.Proofs.Query.Runs
import IndexedXml.Proofs.Results

namespace IndexedXml

variable {α β ε ε' : Type}

/-! ### Outcomes -/

/-- **An outcome is as it should be:** values have one property, and failures another. -/
inductive Meets (P : α → Prop) (E : ε → Prop) : Except ε α → Prop
  | ok {a : α} (h : P a) : Meets P E (.ok a)
  | error {e : ε} (h : E e) : Meets P E (.error e)

namespace Meets

variable {P P' : α → Prop} {Q : β → Prop} {E E' : ε → Prop} {x : Except ε α}

theorem value {a : α} (h : Meets P E (.ok a)) : P a := by
  cases h
  assumption

theorem cause {e : ε} (h : Meets P E (.error e)) : E e := by
  cases h
  assumption

theorem mono (h : Meets P E x) (hP : ∀ a, P a → P' a) (hE : ∀ e, E e → E' e) : Meets P' E' x := by
  cases h with
  | ok h => exact ok (hP _ h)
  | error h => exact error (hE _ h)

theorem bind {f : α → Except ε β} (hx : Meets P E x) (hf : ∀ a, P a → Meets Q E (f a)) :
    Meets Q E (x >>= f) := by
  cases hx with
  | ok h => exact hf _ h
  | error h => exact error h

theorem map {f : α → β} (hx : Meets P E x) (hf : ∀ a, P a → Q (f a)) : Meets Q E (x.map f) := by
  cases hx with
  | ok h => exact ok (hf _ h)
  | error h => exact error h

theorem mapError {F : ε' → Prop} {f : ε → ε'} (hx : Meets P E x) (hf : ∀ e, E e → F (f e)) :
    Meets P F (x.mapError f) := by
  cases hx with
  | ok h => exact ok h
  | error h => exact error (hf _ h)

/-- A walk through a list: what holds of the outcome at each item holds of all. -/
theorem mapM {f : α → Except ε β} {l : List α} (h : ∀ a ∈ l, Meets Q E (f a)) :
    Meets (fun bs => ∀ b ∈ bs, Q b) E (l.mapM f) := by
  induction l with
  | nil => exact ok fun _ hb => nomatch hb
  | cons a rest ih =>
    rw [List.mapM_cons]
    refine bind (h a List.mem_cons_self) fun b hb => ?_
    refine bind (ih fun a ha => h a (List.mem_cons_of_mem _ ha)) fun bs hbs => ?_
    exact ok (List.forall_mem_cons.2 ⟨hb, hbs⟩)

/-- What passes a test was tested. -/
theorem filterPassing {test : α → Except ε Bool} {l : List α}
    (h : ∀ a ∈ l, Meets (fun _ => True) E (test a)) :
    Meets (fun kept => ∀ a ∈ kept, a ∈ l) E (filterPassing test l) := by
  induction l with
  | nil => exact ok fun _ ha => ha
  | cons a rest ih =>
    refine bind (h a List.mem_cons_self) fun passed _ => ?_
    refine bind (ih fun a ha => h a (List.mem_cons_of_mem _ ha)) fun kept hkept => ok fun b hb => ?_
    cases passed with
    | false => exact List.mem_cons_of_mem _ (hkept b hb)
    | true =>
      rcases List.mem_cons.1 hb with rfl | hb
      · exact List.mem_cons_self
      · exact List.mem_cons_of_mem _ (hkept b hb)

end Meets

/-! ### Computations -/

namespace Evaluation

/-- **A computation keeps an invariant** of runs; its values and its failures have the
given properties. -/
def Keeps (I : Run → Prop) (P : α → Prop) (E : QueryError → Prop) (m : Evaluation α) : Prop :=
  ∀ r, I r → I (m.after r) ∧ Meets P E (m.result r)

namespace Keeps

variable {I : Run → Prop} {P P' : α → Prop} {Q : β → Prop} {E : QueryError → Prop}

theorem pure {a : α} (h : P a) : Keeps I P E (pure a) := fun _ hI => ⟨hI, .ok h⟩

theorem orFail {x : Except QueryError α} (h : Meets P E x) : Keeps I P E (orFail x) :=
  fun _ hI => ⟨hI, h⟩

theorem ofStore {F : StoreError → Prop} {x : Except StoreError α} (h : Meets P F x)
    (hF : ∀ e, F e → E (.store e)) : Keeps I P E (ofStore x) :=
  orFail (h.mapError hF)

theorem mono {m : Evaluation α} (h : Keeps I P E m) (hP : ∀ a, P a → P' a) : Keeps I P' E m :=
  fun r hI => ⟨(h r hI).1, (h r hI).2.mono hP fun _ he => he⟩

/-- **Compositions of computations that keep an invariant keep it.** -/
theorem bind {m : Evaluation α} {f : α → Evaluation β} (hm : Keeps I P E m)
    (hf : ∀ a, P a → Keeps I Q E (f a)) : Keeps I Q E (m >>= f) := by
  intro r hI
  obtain ⟨hafter, hresult⟩ := hm r hI
  rw [result_bind, after_bind]
  cases hr : m.result r with
  | error e =>
    rw [hr] at hresult
    exact ⟨hafter, .error hresult.cause⟩
  | ok a =>
    rw [hr] at hresult
    exact hf a hresult.value _ hafter

/-- What is read of a context is that of a run with the invariant. -/
theorem queryContext_bind {f : QueryContext → Evaluation α}
    (h : ∀ r, I r → Keeps I P E (f r.context)) : Keeps I P E (queryContext >>= f) :=
  fun r hI => h r hI r hI

theorem update {f : QueryContext → QueryContext}
    (h : ∀ r, I r → I { r with context := f r.context }) :
    Keeps I (fun _ => True) E (update f) :=
  fun r hI => ⟨h r hI, .ok trivial⟩

theorem lookup {F : StoreError → Prop} {P : NodeSet → Prop} {kind : LookupKind}
    (hcount : ∀ r, I r → I { r with counts := r.counts.count kind })
    {answer : Except StoreError NodeSet} (h : Meets P F answer) (hF : ∀ e, F e → E (.store e)) :
    Keeps I P E (lookup kind answer) := by
  unfold Evaluation.lookup
  refine bind (ofStore h hF) fun set hset => ?_
  intro r hI
  exact ⟨hcount r hI, .ok hset⟩

theorem preloading {step : ExprId} {candidates : NodeSet} {m : Evaluation α}
    (hload : ∀ r, I r → I { r with context := r.context.preload step candidates })
    (hunload : ∀ r, I r → I { r with context := r.context.unload step })
    (hm : Keeps I P E m) : Keeps I P E (preloading step candidates m) :=
  fun r hI => ⟨hunload _ (hm _ (hload r hI)).1, (hm _ (hload r hI)).2⟩

/-- A walk through a list keeps what each of its steps keeps. -/
theorem foldlM {f : β → α → Evaluation β} {l : List α} {b : β} (hb : Q b)
    (hf : ∀ b, Q b → ∀ a ∈ l, Keeps I Q E (f b a)) : Keeps I Q E (l.foldlM f b) := by
  induction l generalizing b with
  | nil => exact pure hb
  | cons a rest ih =>
    rw [List.foldlM_cons]
    exact bind (hf b hb a List.mem_cons_self) fun c hc =>
      ih hc fun b hb a ha => hf b hb a (List.mem_cons_of_mem _ ha)

theorem forM {f : α → Evaluation PUnit} {l : List α}
    (hf : ∀ a ∈ l, Keeps I (fun _ => True) E (f a)) : Keeps I (fun _ => True) E (l.forM f) := by
  induction l with
  | nil => exact pure trivial
  | cons a rest ih =>
    exact bind (hf a List.mem_cons_self) fun _ _ =>
      ih fun a ha => hf a (List.mem_cons_of_mem _ ha)

end Keeps

end Evaluation
end IndexedXml
