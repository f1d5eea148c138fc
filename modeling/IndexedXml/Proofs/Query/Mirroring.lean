/-
# Computations that mirror others

Two computations start from related query contexts.  The second *mirrors* the first when it has
the same value, and leaves contexts behind that are related, too, perhaps in another way; of the
failures of the first it has those that are looked at (`Evaluation.Mirrors`).  So the first may
fail for reasons that the second does not have.

There is one rule for each way of putting computations together.
-/

import IndexedXml.Proofs.Query.Related

namespace IndexedXml
namespace Evaluation

variable {α β : Type} {R S T : QueryContext → QueryContext → Prop} {E : QueryError → Prop}

/-- **The second computation mirrors the first:** from related contexts it has the same value,
and leaves contexts behind that are related in another way, or it has the same failure, if that
is one of those looked at. -/
def Mirrors (R S : QueryContext → QueryContext → Prop) (E : QueryError → Prop)
    (m m' : Evaluation α) : Prop :=
  ∀ r r', R r.context r'.context →
    (∀ a, m.result r = .ok a →
      m'.result r' = .ok a ∧ S (m.after r).context (m'.after r').context) ∧
    ∀ e, E e → m.result r = .error e → m'.result r' = .error e

/-! ### Rules -/

namespace Mirrors

theorem pure (a : α) : Mirrors R R E (pure a) (pure a) :=
  fun _ _ hR => ⟨fun _ hb => ⟨hb, hR⟩, fun _ _ he => nomatch he⟩

theorem orFail (x : Except QueryError α) : Mirrors R R E (orFail x) (orFail x) :=
  fun _ _ hR => ⟨fun _ ha => ⟨ha, hR⟩, fun _ _ he => he⟩

theorem ofStore (x : Except StoreError α) : Mirrors R R E (ofStore x) (ofStore x) := orFail _

/-- **Compositions of computations that mirror others mirror their compositions.** -/
theorem bind {m m' : Evaluation α} {f f' : α → Evaluation β} (hm : Mirrors R S E m m')
    (hf : ∀ a, Mirrors S T E (f a) (f' a)) : Mirrors R T E (m >>= f) (m' >>= f') := by
  intro r r' hR
  obtain ⟨hvalue, hfailure⟩ := hm r r' hR
  rw [result_bind, result_bind, after_bind, after_bind]
  cases hr : m.result r with
  | error e =>
    refine ⟨nofun, fun e' he' h => ?_⟩
    obtain rfl : e = e' := Except.error.inj h
    rw [hfailure e he' hr]
    rfl
  | ok a =>
    obtain ⟨hr', hS⟩ := hvalue a hr
    rw [hr']
    exact hf a _ _ hS

/-- What is read of the contexts may differ, as long as what is made of it is mirrored. -/
theorem queryContext_bind {f f' : QueryContext → Evaluation α}
    (h : ∀ c c', R c c' → Mirrors R S E (f c) (f' c')) :
    Mirrors R S E (queryContext >>= f) (queryContext >>= f') :=
  fun r r' hR => h r.context r'.context hR r r' hR

theorem update {f f' : QueryContext → QueryContext} (h : ∀ c c', R c c' → S (f c) (f' c')) :
    Mirrors R S E (update f) (update f') :=
  fun r r' hR => ⟨fun _ ha => ⟨ha, h r.context r'.context hR⟩, fun _ _ he => nomatch he⟩

theorem lookup (kind : LookupKind) (answer : Except StoreError NodeSet) :
    Mirrors R R E (lookup kind answer) (lookup kind answer) :=
  bind (ofStore answer) fun _ _ _ hR => ⟨fun _ ha => ⟨ha, hR⟩, fun _ _ he => nomatch he⟩

/-- Candidates prepared on both sides are dropped on both sides. -/
theorem preloading {step : ExprId} {candidates : NodeSet} {m m' : Evaluation α}
    (hload : ∀ c c', R c c' → R (c.preload step candidates) (c'.preload step candidates))
    (hunload : ∀ c c', R c c' → R (c.unload step) (c'.unload step)) (hm : Mirrors R R E m m') :
    Mirrors R R E (preloading step candidates m) (preloading step candidates m') := by
  intro r r' hR
  obtain ⟨hvalue, hfailure⟩ :=
    hm { r with context := r.context.preload step candidates }
      { r' with context := r'.context.preload step candidates } (hload _ _ hR)
  exact ⟨fun a ha => ⟨(hvalue a ha).1, hunload _ _ (hvalue a ha).2⟩, hfailure⟩

/-- Mirroring whatever is asked for goes with putting computations one after the other. -/
theorem chains {ι : Type} (R : ι → QueryContext → QueryContext → Prop) (E : QueryError → Prop) :
    Chains fun _ m m' => ∀ i, Mirrors (R i) (R i) E m m' where
  pure a _ := pure a
  orFail x _ := orFail x
  bind hm hf i := bind (hm i) fun a => hf a i

end Mirrors

end Evaluation

end IndexedXml
