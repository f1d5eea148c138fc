/-
# Paths with candidates for their first step

Candidates prepared for the first step of a path are taken in place of what its axis leads to;
nothing else of the path looks at them.  When every node that the path goes through after its
first step is a candidate, the path has the value that it has without, also from a context that
is narrowed to the documents of the candidates (`Expr.outcome_steps_preparing`).
-/

import IndexedXml.Proofs.Query.Evidence

namespace IndexedXml

open Evaluation Setting

variable {s : Store} {σ : Setting} {docs : DocId → Prop} {candidates : NodeSet} {step : ExprId}

/-! ### Settings with candidates -/

namespace Setting

/-- The setting with candidates prepared for a step. -/
def preparing (σ : Setting) (step : ExprId) (candidates : NodeSet) : Setting :=
  ⟨σ.bindings, σ.prepared.put step candidates⟩

/-- Runs without the candidates and with them. -/
def Apart (σ : Setting) (step : ExprId) (candidates : NodeSet) (r r' : Run) : Prop :=
  σ.Holds r ∧ (σ.preparing step candidates).Holds r'

/-- **Only the step itself looks at its candidates.** -/
theorem steady_apart (σ : Setting) (step : ExprId) (candidates : NodeSet) :
    Steady (· ≠ step) (σ.Apart step candidates) (fun _ => True) where
  count _ _ _ h := ⟨⟨h.1.bindings, h.1.prepared⟩, ⟨h.2.bindings, h.2.prepared⟩⟩
  note id r r' h := by
    have hboth := (σ.steady_both.note id r r ⟨h.1, h.1⟩).1
    exact ⟨hboth, ((σ.preparing step candidates).steady_both.note id r' r' ⟨h.2, h.2⟩).1⟩
  value r r' h name := by
    have hbindings : r.context.bindings = r'.context.bindings :=
      h.1.bindings.trans h.2.bindings.symm
    refine ⟨?_, fun _ _ => trivial⟩
    unfold QueryContext.value
    rw [hbindings]
  prepared r r' h id hid := by
    rw [h.1.prepared, h.2.prepared]
    exact ((Table.get?_put _ _ _ _).trans (if_neg hid)).symm
  set _ := trivial
  items _ := trivial

theorem outcome_of_apart {α : Type} {Q : α → Prop} {m m' : Evaluation α}
    (h : Alike (σ.Apart step candidates) Q m m') :
    (σ.preparing step candidates).outcome m' = σ.outcome m :=
  (h _ _ ⟨holds_start _, holds_start _⟩).1.symm

end Setting

namespace Expr

/-- The number belongs to none of the steps in an expression. -/
def Lacks (e : Expr) (step : ExprId) : Prop :=
  ∀ head ps, .expr (.step head ps) ∈ e.parts → head.id ≠ step

theorem alike_apart {e : Expr} (hfree : e.IsPragmaFree) (hlacks : e.Lacks step) (focus : Focus) :
    Alike (σ.Apart step candidates) (fun _ => True) (e.evaluate s focus) (e.evaluate s focus) :=
  alike_evaluate (fun _ : Unit => σ.steady_apart step candidates) s e hlacks
    (fun id pragmas body hmem => absurd hmem (hfree id pragmas body)) () focus fun _ _ => trivial

theorem outcome_applyPredicates_preparing {ps : List Predicate}
    (hps : ∀ p ∈ ps, p.expr.IsPragmaFree ∧ p.expr.Lacks step) (reverse : Bool) (v : Sequence) :
    (σ.preparing step candidates).outcome (applyPredicates s ps reverse v) =
      σ.outcome (applyPredicates s ps reverse v) :=
  outcome_of_apart (alike_applyPredicates (σ.steady_apart step candidates)
    (fun p hp focus _ => alike_apart (hps p hp).1 (hps p hp).2 focus) reverse v trivial)

theorem outcome_evaluateSteps_preparing {es : List Expr}
    (hes : ∀ e ∈ es, e.IsPragmaFree ∧ e.Lacks step) (v : Sequence) :
    (σ.preparing step candidates).outcome (evaluateSteps s es v) =
      σ.outcome (evaluateSteps s es v) :=
  outcome_of_apart (alike_evaluateSteps (σ.steady_apart step candidates)
    (fun e he focus _ => alike_apart (hes e he).1 (hes e he).2 focus) v trivial)

/-! ### The first step -/

variable {head : StepHead} {ps : List Predicate} {rest : List Expr} {q : QName}
  {set part : NodeSet}

/-- **Of the candidates for a step** those are taken that its axis leads to. -/
theorem outcome_selectAxis_preparing (haxis : head.axis ∈ optimizableAxes)
    (htest : head.test = .name q) (hcandidates : candidates.IsGiven s docs)
    (hbears : ∀ n ∈ candidates, s.Bears n ⟨head.axis.nameType, q⟩) (context : NodeSet) :
    ∃ found, (σ.preparing head.id candidates).outcome (selectAxis s head context) = .ok found ∧
      found.IsGiven s docs ∧ ∀ m, m ∈ found ↔ m ∈ candidates ∧
        ∃ n ∈ context, s.Leads head.axis n m ∧ s.Passes head.axis head.test m := by
  have hpasses : ∀ m ∈ candidates, s.Passes head.axis head.test m := fun m hm => by
    rw [htest]
    exact (Store.passes_name_iff (hbears m hm).has).2 (hbears m hm)
  -- For each axis the candidates are filtered by the relation that its probes have, too.
  obtain ⟨keep, hrelated, hkeep⟩ : ∃ keep : Node → Bool,
      relatePrepared? head.axis candidates context = some (candidates.filter keep) ∧
        ∀ m ∈ candidates, m ∈ candidates.filter keep ↔
          m ∈ candidates ∧ ∃ n ∈ context, s.Leads head.axis n m := by
    have hrelates : ∀ {relation : Relation}, Target.relationOn head.axis = some relation →
        ∀ m ∈ candidates, ∀ n, s.Leads head.axis n m ↔ relation.Relates n m :=
      fun hrelation m hm n => Target.leads_iff_relates hrelation (hbears m hm)
    cases haxis' : head.axis with
    | child | attr =>
      rw [haxis'] at hrelates
      refine ⟨_, rfl, fun m hm => NodeSet.mem_selectChild.trans (and_congr_right fun _ => ?_)⟩
      exact exists_congr fun n => and_congr_right fun _ => (hrelates rfl m hm n).symm
    | descendant | descendantAttr | descendantOrSelf =>
      rw [haxis'] at hrelates
      refine ⟨_, rfl, fun m hm => NodeSet.mem_selectDescendant.trans (and_congr_right fun _ => ?_)⟩
      exact exists_congr fun n => and_congr_right fun _ => (hrelates rfl m hm n).symm
    | self =>
      refine ⟨_, rfl, fun m hm => NodeSet.mem_intersect.trans (and_congr_right fun _ => ?_)⟩
      constructor
      · exact fun hm => ⟨m, hm, rfl⟩
      · rintro ⟨n, hn, rfl⟩
        exact hn
    | _ =>
      rw [haxis'] at haxis
      exact absurd haxis (by decide)
  have hprepared : (σ.preparing head.id candidates).prepared.get? head.id = some candidates :=
    (Table.get?_put _ _ _ _).trans (if_pos rfl)
  refine ⟨candidates.filter keep, ?_, hcandidates.filter keep, fun m => ?_⟩
  · rw [outcome_selectAxis, hprepared, Option.bind_some, hrelated]
  · constructor
    · intro hm
      have hmem := (NodeSet.mem_filter.1 hm).1
      obtain ⟨n, hn, hleads⟩ := ((hkeep m hmem).1 hm).2
      exact ⟨hmem, n, hn, hleads, hpasses m hmem⟩
    · rintro ⟨hmem, n, hn, hleads, _⟩
      exact (hkeep m hmem).2 ⟨hmem, n, hn, hleads⟩

/-- **A step with candidates** leads from a part of a set to those of the candidates that it leads
to without. -/
theorem outcome_step_preparing (hs : s.IsReliable) (hσ : σ.IsBare)
    (haxis : head.axis ∈ optimizableAxes) (htest : head.test = .name q)
    (hps : ∀ p ∈ ps, p.mode = .boolean ∧ p.expr.IsDecided s σ docs)
    (hlacks : ∀ p ∈ ps, p.expr.Lacks head.id) (hcandidates : candidates.IsGiven s docs)
    (hbears : ∀ n ∈ candidates, s.Bears n ⟨head.axis.nameType, q⟩) (hset : set.IsGiven s docs)
    (hsub : ∀ n ∈ part, n ∈ set) {value : Sequence}
    (hvalue : σ.outcome ((Expr.step head ps).evaluate s (.on (.ofSet set))) = .ok value) :
    ∃ value', (σ.preparing head.id candidates).outcome
        ((Expr.step head ps).evaluate s (.on (.ofSet part))) = .ok value' ∧
      value'.Lists fun m => m ∈ candidates ∧ ∃ n ∈ part, (Expr.step head ps).Takes s σ n m := by
  have hfree : ∀ p ∈ ps, p.mode = .boolean ∧ p.expr.IsPragmaFree := fun p hp =>
    ⟨(hps p hp).1, (hps p hp).2.pragmaFree⟩
  rw [outcome_step_on hfree] at hvalue ⊢
  obtain ⟨found, hfound, hgiven, hmem⟩ := outcome_selectAxis_part hs hσ haxis hset
  obtain ⟨found', hfound', hgiven', hmem'⟩ := outcome_selectAxis_preparing (σ := σ) haxis htest
    hcandidates hbears part
  rw [hfound, ok_bind] at hvalue
  rw [hfound', ok_bind, outcome_applyPredicates_preparing fun p hp => ⟨(hfree p hp).2, hlacks p hp⟩]
  exact outcome_applyPredicates_selected hs hps hgiven hgiven' hmem hmem' hsub hvalue

/-- **What the first step of a path and its further steps need** for candidates to be prepared. -/
structure IsPreparable (s : Store) (σ : Setting) (docs : DocId → Prop) (head : StepHead)
    (ps : List Predicate) (rest : List Expr) (q : QName) : Prop where
  axis : head.axis ∈ optimizableAxes
  test : head.test = .name q
  decided : ∀ p ∈ ps, p.mode = .boolean ∧ p.expr.IsDecided s σ docs
  lacks : ∀ p ∈ ps, p.expr.Lacks head.id
  further : ∀ e ∈ rest, e.IsPragmaFree ∧ e.Lacks head.id ∧
    Narrows s docs (e.Takes s σ) fun set => σ.outcome (e.evaluate s (.on (.ofSet set)))

/-- **What the candidates are:** nodes of the name of the first step, among them all through
which the path goes, and the part of the context has all nodes of their documents. -/
structure ArePrepared (s : Store) (σ : Setting) (docs : DocId → Prop) (head : StepHead)
    (ps : List Predicate) (rest : List Expr) (q : QName) (candidates : NodeSet) : Prop where
  given : candidates.IsGiven s docs
  bears : ∀ n ∈ candidates, s.Bears n ⟨head.axis.nameType, q⟩
  keeps : ∀ n m m', s.Has n → docs n.doc → (Expr.step head ps).Takes s σ n m →
    TakesAlong s σ rest m m' → m ∈ candidates

/-- A part of a context that has all its nodes in the documents of the candidates. -/
structure Keeps (set part candidates : NodeSet) : Prop where
  sub : ∀ n ∈ part, n ∈ set
  keeps : ∀ n ∈ set, (∃ m ∈ candidates, m.doc = n.doc) → n ∈ part

/-- **The first step and the further ones** lead with candidates where they lead without. -/
theorem outcome_steps_preparing (hs : s.IsReliable) (hσ : σ.IsBare)
    (hsteps : IsPreparable s σ docs head ps rest q)
    (hprepared : ArePrepared s σ docs head ps rest q candidates) (hset : set.IsGiven s docs)
    (hpart : Keeps set part candidates) {value : Sequence}
    (hvalue : (σ.outcome ((Expr.step head ps).evaluate s (.on (.ofSet set))) >>= fun v =>
      σ.outcome (evaluateSteps s rest v)) = .ok value) :
    ∃ value', ((σ.preparing head.id candidates).outcome
        ((Expr.step head ps).evaluate s (.on (.ofSet part))) >>= fun v =>
          (σ.preparing head.id candidates).outcome (evaluateSteps s rest v)) = .ok value' ∧
      value'.Lists fun m => ∃ n ∈ set, TakesAlong s σ (Expr.step head ps :: rest) n m := by
  obtain ⟨v, hv, hvalue⟩ := bind_eq_ok.1 hvalue
  have hlists : v.Lists fun m => ∃ n ∈ set, (Expr.step head ps).Takes s σ n m :=
    Narrows.lists (selectsEach_step hs hσ hsteps.axis hsteps.decided) hset hv
  obtain ⟨v', hv', hlists'⟩ := outcome_step_preparing hs hσ hsteps.axis hsteps.test hsteps.decided
    hsteps.lacks hprepared.given hprepared.bears hset hpart.sub hv
  have hsub : ∀ x, (x ∈ candidates ∧ ∃ n ∈ part, (Expr.step head ps).Takes s σ n x) →
      ∃ n ∈ set, (Expr.step head ps).Takes s σ n x := by
    rintro x ⟨_, n, hn, htakes⟩
    exact ⟨n, hpart.sub n hn, htakes⟩
  obtain ⟨w, hw, hwlists⟩ := outcome_evaluateSteps_part (fun e he => (hsteps.further e he).1)
    (narrows_evaluateSteps hs.indexed fun e he => ⟨(hsteps.further e he).1, (hsteps.further e he).2.2⟩)
    hlists hlists' (has_of_takes hs.indexed hset) hsub hvalue
  have hsame : (σ.preparing head.id candidates).outcome (evaluateSteps s rest v') =
      σ.outcome (evaluateSteps s rest v') := outcome_evaluateSteps_preparing
    (fun e he => ⟨(hsteps.further e he).1, (hsteps.further e he).2.1⟩) v'
  refine ⟨w, bind_eq_ok.2 ⟨v', hv', hsame.trans hw⟩, hwlists.congr fun m => ?_⟩
  constructor
  · rintro ⟨x, ⟨_, n, hn, htakes⟩, halong⟩
    exact ⟨n, hpart.sub n hn, x, htakes, halong⟩
  · rintro ⟨n, hn, x, htakes, halong⟩
    have hx := hprepared.keeps n x m (hset.isIn.2 n hn) (hset.docs n hn) htakes halong
    have hdoc := (htakes.has hs.indexed (hset.isIn.2 n hn)).2
    exact ⟨x, ⟨hx, n, hpart.keeps n hn ⟨x, hx, hdoc⟩, htakes⟩, halong⟩

/-- **From nodes that a path has led to,** its steps lead with candidates where they lead
without. -/
theorem outcome_evaluateSteps_first (hs : s.IsReliable) (hσ : σ.IsBare)
    (hsteps : IsPreparable s σ docs head ps rest q)
    (hprepared : ArePrepared s σ docs head ps rest q candidates) (hset : set.IsGiven s docs)
    (hpart : Keeps set part candidates) {value : Sequence}
    (hvalue : σ.outcome (evaluateSteps s (Expr.step head ps :: rest) (.ofSet set)) = .ok value) :
    ∃ value', (σ.preparing head.id candidates).outcome
        (evaluateSteps s (Expr.step head ps :: rest) (.ofSet part)) = .ok value' ∧
      value'.Lists fun m => ∃ n ∈ set, TakesAlong s σ (Expr.step head ps :: rest) n m := by
  have hfree : ∀ e ∈ Expr.step head ps :: rest, e.IsPragmaFree := List.forall_mem_cons.2
    ⟨isPragmaFree_step.2 fun p hp => (hsteps.decided p hp).2.pragmaFree,
      fun e he => (hsteps.further e he).1⟩
  -- No step is evaluated for a part without nodes; then none of the set leads to a candidate.
  by_cases hempty : part.isEmpty = true
  · refine ⟨.empty, ?_, .inl ⟨rfl, ?_⟩⟩
    · rw [outcome_evaluateSteps_cons hfree, Sequence.isEmpty_ofSet]
      exact if_pos hempty
    · rintro m ⟨n, hn, x, htakes, halong⟩
      have hx := hprepared.keeps n x m (hset.isIn.2 n hn) (hset.docs n hn) htakes halong
      have hdoc := (htakes.has hs.indexed (hset.isIn.2 n hn)).2
      exact NodeSet.isEmpty_iff.1 hempty n (hpart.keeps n hn ⟨x, hx, hdoc⟩)
  · obtain ⟨n, hn⟩ := NodeSet.isEmpty_eq_false_iff.1 (Bool.eq_false_iff.2 hempty)
    rw [outcome_evaluateSteps_ofSet hfree (hpart.sub n hn)] at hvalue
    rw [outcome_evaluateSteps_ofSet hfree hn]
    exact outcome_steps_preparing hs hσ hsteps hprepared hset hpart hvalue

end Expr
end IndexedXml
