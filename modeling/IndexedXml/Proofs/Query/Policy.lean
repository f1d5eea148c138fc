/-
# The policy for missing indexes

The configuration says what to do when the collections behind a query do not all have an
index.  The type of an index that a set is asked for does depend on it
(`Store.indexTypeFor_ne_iff`): under the policy `always` the first index found is taken,
and otherwise none when collections disagree.  But whoever uses that type then asks for
the whole set to be covered, and there the policies agree (`IndexProbe.coversAll_nodes`).

So the policy never shows in a query: evaluation in two stores that differ in nothing
else ends with the same outcome and in the same state, counts of lookups and of
optimizations included (`CompiledQuery.evaluate_withPolicy`).
-/

import IndexedXml.Proofs.Query.Coverage
import IndexedXml.Proofs.Query.Navigation
import IndexedXml.Proofs.Query.Structure
import IndexedXml.Query.Evaluation

namespace IndexedXml

/-- The store with another policy for missing indexes and nothing else changed. -/
def Store.withPolicy (s : Store) (policy : IndexPolicy) : Store :=
  { s with configuration := { s.configuration with enforceIndexUse := policy } }

variable (s : Store) (policy : IndexPolicy)

/-! ### The type of an index -/

/-- Two collections of queries, not of the database itself, disagree on an index: they
declare different types, or only one of them declares it. -/
def Disagree (name : IndexedName) (cs : List Collection) : Prop :=
  ∃ c ∈ cs, ∃ d ∈ cs, c.isSystem = false ∧ d.isSystem = false ∧
    c.rangeIndex? name ≠ d.rangeIndex? name

/-- Without `always` a settled type stays when all collections declare it. -/
theorem commonIndexType_settled_iff {name : IndexedName} {settled type : IndexType}
    {cs : List Collection} :
    commonIndexType false name (some settled) cs = some type ↔ settled = type ∧
      ∀ c ∈ cs, c.isSystem = false → c.rangeIndex? name = some type := by
  induction cs with
  | nil => simp [commonIndexType]
  | cons c rest ih =>
    unfold commonIndexType
    cases hsystem : c.isSystem with
    | true => simp [hsystem, ih]
    | false =>
      cases htype : c.rangeIndex? name with
      | none => simp [hsystem, htype]
      | some found =>
        by_cases heq : found = settled
        · subst heq
          simp only [Bool.false_eq_true, if_false, if_true, ih, List.mem_cons, forall_eq_or_imp,
            hsystem, htype, Option.some.injEq, true_imp_iff]
          tauto
        · simp only [Bool.false_eq_true, if_false, heq, List.mem_cons, forall_eq_or_imp, hsystem,
            htype, Option.some.injEq, true_imp_iff, reduceCtorEq, false_iff]
          rintro ⟨rfl, rfl, _⟩
          exact heq rfl

/-- **Without `always` the type is what all collections declare.** -/
theorem commonIndexType_strict_iff {name : IndexedName} {type : IndexType}
    {cs : List Collection} :
    commonIndexType false name none cs = some type ↔ (∃ c ∈ cs, c.isSystem = false) ∧
      ∀ c ∈ cs, c.isSystem = false → c.rangeIndex? name = some type := by
  induction cs with
  | nil => simp [commonIndexType]
  | cons c rest ih =>
    unfold commonIndexType
    cases hsystem : c.isSystem with
    | true => simp [hsystem, ih]
    | false =>
      cases htype : c.rangeIndex? name with
      | none => simp [hsystem, htype]
      | some found => simp [hsystem, htype, commonIndexType_settled_iff]

/-- **With `always` the type is what some collection declares.** -/
theorem exists_of_commonIndexType_always {name : IndexedName} {type : IndexType}
    {cs : List Collection} (h : commonIndexType true name none cs = some type) :
    ∃ c ∈ cs, c.isSystem = false ∧ c.rangeIndex? name = some type := by
  induction cs with
  | nil => cases h
  | cons c rest ih =>
    unfold commonIndexType at h
    cases hsystem : c.isSystem with
    | true =>
      simp only [hsystem, if_true] at h
      obtain ⟨d, hd, hdtype⟩ := ih h
      exact ⟨d, List.mem_cons_of_mem _ hd, hdtype⟩
    | false =>
      cases htype : c.rangeIndex? name with
      | none =>
        simp only [hsystem, htype, Bool.false_eq_true, if_false, if_true] at h
        obtain ⟨d, hd, hdtype⟩ := ih h
        exact ⟨d, List.mem_cons_of_mem _ hd, hdtype⟩
      | some found =>
        simp only [hsystem, htype, Bool.false_eq_true, if_false, if_true] at h
        exact ⟨c, List.mem_cons_self, hsystem, htype.trans h⟩

/-- With `always` there is no type only when no collection declares one. -/
theorem rangeIndex?_of_commonIndexType_always {name : IndexedName} {cs : List Collection}
    (h : commonIndexType true name none cs = none) :
    ∀ c ∈ cs, c.isSystem = false → c.rangeIndex? name = none := by
  induction cs with
  | nil => exact fun _ hc => absurd hc List.not_mem_nil
  | cons c rest ih =>
    unfold commonIndexType at h
    cases hsystem : c.isSystem with
    | true =>
      simp only [hsystem, if_true] at h
      simpa [hsystem] using ih h
    | false =>
      cases htype : c.rangeIndex? name with
      | none =>
        simp only [hsystem, htype, Bool.false_eq_true, if_false, if_true] at h
        simpa [hsystem, htype] using ih h
      | some found =>
        simp [hsystem, htype] at h

/-- **The policies give different types just where collections disagree.** -/
theorem commonIndexType_ne_iff {name : IndexedName} {cs : List Collection} :
    commonIndexType true name none cs ≠ commonIndexType false name none cs ↔
      Disagree name cs := by
  constructor
  · intro hne
    by_contra hagree
    have hsame : ∀ c ∈ cs, ∀ d ∈ cs, c.isSystem = false → d.isSystem = false →
        c.rangeIndex? name = d.rangeIndex? name := by
      intro c hc d hd hcs hds
      by_contra hdiff
      exact hagree ⟨c, hc, d, hd, hcs, hds, hdiff⟩
    cases halways : commonIndexType true name none cs with
    | some type =>
      obtain ⟨c, hc, hcs, htype⟩ := exists_of_commonIndexType_always halways
      have hstrict : commonIndexType false name none cs = some type :=
        commonIndexType_strict_iff.2
          ⟨⟨c, hc, hcs⟩, fun d hd hds => (hsame d hd c hc hds hcs).trans htype⟩
      exact hne (halways.trans hstrict.symm)
    | none =>
      cases hstrict : commonIndexType false name none cs with
      | none => exact hne (halways.trans hstrict.symm)
      | some type =>
        obtain ⟨⟨c, hc, hcs⟩, hall⟩ := commonIndexType_strict_iff.1 hstrict
        have hnone := rangeIndex?_of_commonIndexType_always halways c hc hcs
        rw [hall c hc hcs] at hnone
        cases hnone
  · rintro ⟨c, hc, d, hd, hcs, hds, hdiff⟩ heq
    cases hstrict : commonIndexType false name none cs with
    | some type =>
      obtain ⟨_, hall⟩ := commonIndexType_strict_iff.1 hstrict
      exact hdiff ((hall c hc hcs).trans (hall d hd hds).symm)
    | none =>
      have hnone := rangeIndex?_of_commonIndexType_always (heq.trans hstrict)
      exact hdiff ((hnone c hc hcs).trans (hnone d hd hds).symm)

/-- **The type of an index for a sequence depends on the policy** just when one of the two
policies is `always`, the other is not, and collections behind the sequence disagree. -/
theorem Store.indexTypeFor_ne_iff (s : Store) (a b : IndexPolicy) (sequence : Sequence)
    (name : IndexedName) :
    (s.withPolicy a).indexTypeFor sequence name ≠ (s.withPolicy b).indexTypeFor sequence name ↔
      (a = .always) ≠ (b = .always) ∧
        ∃ cs, s.collectionsOf sequence = .ok cs ∧ Disagree name cs := by
  have htype : ∀ policy, (s.withPolicy policy).indexTypeFor sequence name =
      (s.collectionsOf sequence).map (commonIndexType (policy == .always) name none) := by
    intro policy
    unfold indexTypeFor
    change (s.collectionsOf sequence >>= _) = _
    cases s.collectionsOf sequence <;> rfl
  rw [htype, htype]
  cases hcs : s.collectionsOf sequence with
  | error e => simp [Except.map]
  | ok cs =>
    have hdisagree := @commonIndexType_ne_iff name cs
    simp only [Except.map, ne_eq, Except.ok.injEq, exists_eq_left'] at hdisagree ⊢
    by_cases ha : a = .always
    · by_cases hb : b = .always
      · simp [ha, hb]
      · have hb' : (b == IndexPolicy.always) = false := by simpa using hb
        simp [ha, hb, hb', hdisagree]
    · have ha' : (a == IndexPolicy.always) = false := by simpa using ha
      by_cases hb : b = .always
      · simp [ha, hb, ha', ← hdisagree, eq_comm]
      · have hb' : (b == IndexPolicy.always) = false := by simpa using hb
        simp [ha, hb, ha', hb']

/-! ### Probes -/

namespace IndexProbe

/-- **Whether a probe answers for a whole sequence does not depend on the policy.** -/
theorem coversAll_withPolicy (p : IndexProbe) (sequence : Option Sequence) :
    p.coversAll (s.withPolicy policy) sequence = p.coversAll s sequence := by
  rcases sequence with _ | ⟨shared⟩ | list
  · rfl
  · rw [coversAll_nodes, coversAll_nodes]
    rfl
  · rfl

end IndexProbe

theorem verdict_withPolicy (working : Option Sequence) (optimizables : List Optimizable) :
    verdict (s.withPolicy policy) working optimizables = verdict s working optimizables :=
  verdict_congr (IndexProbe.coversAll_withPolicy s policy)

theorem IndexProbe.select_withPolicy (p : IndexProbe) :
    p.select (s.withPolicy policy) = p.select s := by
  funext candidates
  rw [IndexProbe.select_eq, IndexProbe.select_eq, IndexProbe.coversAll_withPolicy]
  rfl

/-! ### Narrowing -/

theorem laterRounds_withPolicy (optimizables : List Optimizable) :
    ∀ context, Narrowing.laterRounds (s.withPolicy policy) context optimizables =
      Narrowing.laterRounds s context optimizables := by
  induction optimizables with
  | nil => exact fun _ => rfl
  | cons o rest ih =>
    intro context
    unfold Narrowing.laterRounds
    simp only [ih]
    rfl

theorem rounds_withPolicy (step : Option ContextStep) (context : NodeSet)
    (optimizables : List Optimizable) :
    Narrowing.rounds (s.withPolicy policy) step context optimizables =
      Narrowing.rounds s step context optimizables := by
  cases optimizables with
  | nil => rfl
  | cons o rest =>
    unfold Narrowing.rounds
    simp only [laterRounds_withPolicy]
    rfl

theorem Optimizer.evaluate_withPolicy (id : ExprId) (body : Focus → Evaluation Sequence) :
    Optimizer.evaluate (s.withPolicy policy) id body = Optimizer.evaluate s id body := by
  have hjudge : Optimizer.judge (s.withPolicy policy) = Optimizer.judge s := by
    funext state context
    unfold judge
    simp only [verdict_withPolicy]
    rfl
  have hnarrow : Optimizer.narrow (s.withPolicy policy) = Optimizer.narrow s := by
    funext id state body j
    unfold narrow
    simp only [rounds_withPolicy]
    rfl
  funext focus
  unfold Optimizer.evaluate
  rw [hjudge, hnarrow]
  rfl

/-! ### Evaluation -/

namespace Evaluation

theorem selectAxis_withPolicy : selectAxis (s.withPolicy policy) = selectAxis s := by
  funext head context
  unfold selectAxis selectUnprepared
  rw [Store.navigate_congr (s := s.withPolicy policy) (t := s) rfl]
  rfl

theorem evaluateStep_withPolicy : evaluateStep (s.withPolicy policy) = evaluateStep s := by
  funext head positional applyAll focus
  unfold evaluateStep stepByNode
  rw [selectAxis_withPolicy]
  rfl

theorem applyPredicate_withPolicy :
    applyPredicate (s.withPolicy policy) = applyPredicate s := by
  funext mode probe evaluate reverse sequence
  have hindex : applyByIndex (s.withPolicy policy) mode probe sequence =
      applyByIndex s mode probe sequence := by
    rcases mode <;> rcases probe with _ | ⟨id, probe⟩ <;> rcases sequence with shared | list <;>
      first
        | rfl
        | (unfold applyByIndex; simp only [IndexProbe.select_withPolicy])
  unfold applyPredicate
  rw [hindex]

theorem evaluatePragmas_withPolicy (evaluate : Focus → Evaluation Sequence) (focus : Focus)
    (pragmas : List Pragma) :
    evaluatePragmas (s.withPolicy policy) evaluate focus pragmas =
      evaluatePragmas s evaluate focus pragmas := by
  induction pragmas with
  | nil => rfl
  | cons p rest ih =>
    unfold evaluatePragmas
    rw [Optimizer.evaluate_withPolicy, ih]

end Evaluation

open Evaluation

namespace Expr

/-- **An expression has the same value under every policy,** and is evaluated in the same
steps. -/
theorem evaluate_withPolicy (e : Expr) : e.evaluate (s.withPolicy policy) = e.evaluate s := by
  have hall : ∀ es : List Expr, (∀ e ∈ es, e.evaluate (s.withPolicy policy) = e.evaluate s) →
      evaluateAll (s.withPolicy policy) es = evaluateAll s es := by
    intro es h
    induction es with
    | nil =>
      funext focus
      rw [evaluateAll, evaluateAll]
    | cons e rest ih =>
      funext focus
      rw [evaluateAll, evaluateAll, h e List.mem_cons_self,
        ih fun e he => h e (List.mem_cons_of_mem _ he)]
  have hsteps : ∀ es : List Expr, (∀ e ∈ es, e.evaluate (s.withPolicy policy) = e.evaluate s) →
      evaluateSteps (s.withPolicy policy) es = evaluateSteps s es := by
    intro es h
    induction es with
    | nil =>
      funext value
      rw [evaluateSteps, evaluateSteps]
    | cons e rest ih =>
      funext value
      rw [evaluateSteps, evaluateSteps, h e List.mem_cons_self,
        ih fun e he => h e (List.mem_cons_of_mem _ he)]
  have hpredicates : ∀ ps : List Predicate,
      (∀ p ∈ ps, p.expr.evaluate (s.withPolicy policy) = p.expr.evaluate s) →
      applyPredicates (s.withPolicy policy) ps = applyPredicates s ps := by
    intro ps h
    induction ps with
    | nil =>
      funext reverse value
      rw [applyPredicates, applyPredicates]
    | cons p rest ih =>
      funext reverse value
      rcases p with ⟨id, e, mode⟩
      have he := h ⟨id, e, mode⟩ List.mem_cons_self
      dsimp only at he
      rw [applyPredicates, applyPredicates, applyPredicate_withPolicy, he,
        ih fun p hp => h p (List.mem_cons_of_mem _ hp)]
  induction e using Expr.induct with
  | path id steps ih =>
    funext focus
    rw [evaluate, evaluate]
    cases steps with
    | nil => rw [evaluatePath, evaluatePath]
    | cons e rest =>
      rw [evaluatePath, evaluatePath, ih e List.mem_cons_self,
        hsteps rest fun e he => ih e (List.mem_cons_of_mem _ he)]
  | step head predicates ih =>
    funext focus
    rw [evaluate, evaluate, evaluateStep_withPolicy, hpredicates predicates ih]
  | root =>
    funext focus
    rw [evaluate, evaluate]
    rfl
  | filter id base predicates hbase ih =>
    funext focus
    rw [evaluate, evaluate, hbase, hpredicates predicates ih]
  | comparison id op left right access hleft hright =>
    funext focus
    rw [evaluate, evaluate, hleft, hright]
    rfl
  | call id function args access ih =>
    funext focus
    rw [evaluate, evaluate, hall args ih]
    rfl
  | var name =>
    funext focus
    rw [evaluate, evaluate]
  | literal value =>
    funext focus
    rw [evaluate, evaluate]
  | and left right hleft hright =>
    funext focus
    rw [evaluate, evaluate, hleft, hright]
  | or left right hleft hright =>
    funext focus
    rw [evaluate, evaluate, hleft, hright]
  | sequence items ih =>
    funext focus
    rw [evaluate, evaluate, hall items ih]
  | extension id pragmas body ih =>
    funext focus
    rw [evaluate, evaluate, ih]
    unfold evaluateExtension
    simp only [evaluatePragmas_withPolicy]

end Expr

/-- **The policy for missing indexes never shows in a query.**  In two stores that differ in
nothing but the policy, an evaluation ends with the same outcome and leaves the same query
context and the same counts of lookups, while the type of an index that a sequence is asked
for differs wherever one policy is `always`, the other is not, and collections disagree. -/
theorem CompiledQuery.evaluate_policy (s : Store) (a b : IndexPolicy) :
    (∀ (q : CompiledQuery) (focus : Focus) (run : Run),
      (q.evaluate (s.withPolicy a) focus).run run = (q.evaluate (s.withPolicy b) focus).run run) ∧
    (∀ (sequence : Sequence) (name : IndexedName),
      (s.withPolicy a).indexTypeFor sequence name ≠ (s.withPolicy b).indexTypeFor sequence name ↔
        (a = .always) ≠ (b = .always) ∧
          ∃ cs, s.collectionsOf sequence = .ok cs ∧ Disagree name cs) := by
  refine ⟨fun q focus run => ?_, Store.indexTypeFor_ne_iff s a b⟩
  unfold CompiledQuery.evaluate
  rw [Expr.evaluate_withPolicy, Expr.evaluate_withPolicy]

end IndexedXml
