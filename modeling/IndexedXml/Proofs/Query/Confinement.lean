/-
# Queries among given nodes

What the parts of an expression do among nodes that the store does not lead out of
(`Store.Encloses`), whole expressions do: their pragmas, the rounds of narrowing, the
candidates prepared for steps and the contexts narrowed for them keep to such nodes too
(`Expr.stays_evaluate`).
-/

import IndexedXml.Proofs.Query.Enclosure

namespace IndexedXml

variable {s : Store} {N : Node → Prop} {F : StoreError → Prop}
  {bindings : List (String × Sequence)}

open Evaluation

/-! ### Narrowing -/

namespace Narrowing

theorem stays_round (h : s.Encloses N F) (step : Option ContextStep) (within : Bool)
    (o : Optimizable) {context : NodeSet} (hcontext : context.All N) :
    Stays N bindings F (fun round => round.ancestors.All N) (round s step within o context) := by
  have hselect : Stays N bindings F (NodeSet.All N) (preSelect s o context within) := by
    refine Keeps.bind (stays_lookup (h.byValue _)) fun selection hselection => ?_
    exact Keeps.bind (stays_noteIndexUse o.id) fun _ _ => Keeps.pure hselection
  refine Keeps.bind hselect fun selection hselection => ?_
  have habove : Stays N bindings F (NodeSet.All N) (candidatesAbove s step o context selection) := by
    unfold candidatesAbove
    split_ifs
    · exact Keeps.pure hselection
    · cases step with
      | some step =>
        refine stays_lookup (h.ancestors _ _ _ _ ?_)
        unfold IndexProbe.upwardAxis
        split_ifs <;> simp
      | none => exact Keeps.pure (hcontext.selectAncestorDescendant true)
  exact Keeps.bind habove fun ancestors hancestors => Keeps.pure hancestors

/-- The candidates of every round. -/
def RoundsAll (N : Node → Prop) (rounds : List NarrowingRound) : Prop :=
  ∀ round ∈ rounds, round.ancestors.All N

theorem stays_laterRounds (h : s.Encloses N F) (optimizables : List Optimizable) :
    ∀ {context : NodeSet}, context.All N →
      Stays N bindings F (RoundsAll N) (laterRounds s context optimizables) := by
  induction optimizables with
  | nil => exact fun _ => Keeps.pure fun _ hmem => nomatch hmem
  | cons o rest ih =>
    intro context hcontext
    refine Keeps.bind (stays_round h none true o hcontext) fun first hfirst => ?_
    refine Keeps.bind (ih hfirst) fun rounds hrounds => Keeps.pure ?_
    exact List.forall_mem_cons.2 ⟨hfirst, hrounds⟩

theorem stays_rounds (h : s.Encloses N F) (step : Option ContextStep)
    (optimizables : List Optimizable) {context : NodeSet} (hcontext : context.All N) :
    Stays N bindings F (RoundsAll N) (rounds s step context optimizables) := by
  cases optimizables with
  | nil => exact Keeps.pure fun _ hmem => nomatch hmem
  | cons o rest =>
    refine Keeps.bind (stays_round h step false o hcontext) fun first hfirst => ?_
    refine Keeps.bind (stays_laterRounds h rest hfirst) fun rounds hrounds => Keeps.pure ?_
    exact List.forall_mem_cons.2 ⟨hfirst, hrounds⟩

theorem all_candidates {rounds : List NarrowingRound} (h : RoundsAll N rounds) :
    (candidates rounds).All N := by
  unfold candidates
  cases hlast : rounds.getLast? with
  | none => exact NodeSet.all_empty
  | some round => exact h round (List.mem_of_getLast? hlast)

end Narrowing

/-! ### Optimizers -/

namespace Optimizer

/-- All nodes of a sequence have a property, if there is one. -/
def OptionAll (N : Node → Prop) (v : Option Sequence) : Prop := ∀ v', v = some v' → v'.All N

/-- What is judged has only nodes with a property. -/
structure Judgement.All (N : Node → Prop) (j : Judgement) : Prop where
  given : ∀ shared, j.given = some shared → shared.set.All N
  working : OptionAll N j.working

theorem all_contextOf {focus : Focus} (hfocus : focus.All N) : OptionAll N (contextOf s focus) := by
  unfold contextOf
  rcases focus with ⟨context, item⟩
  rcases item with _ | ⟨n⟩ | ⟨value⟩
  · exact hfocus.context
  · rintro v ⟨⟩
    exact Sequence.all_ofSet.2
      (NodeSet.all_ofList fun m hm => List.mem_singleton.1 hm ▸ hfocus.item n rfl)
  · rintro v ⟨⟩
    exact Sequence.all_ofValue value

theorem meets_verdict (h : s.Encloses N F) {v : Option Sequence} (hv : OptionAll N v)
    (optimizables : List Optimizable) :
    Meets (fun _ => True) F (verdict s v optimizables) := by
  have hcovers : ∀ probe : IndexProbe, Meets (fun _ => True) F (probe.coversAll s v) := by
    intro probe
    refine (meets_coveredSubset h probe hv).bind fun covered _ => ?_
    cases covered <;> exact .ok trivial
  induction optimizables with
  | nil => exact .ok trivial
  | cons o rest ih =>
    cases rest with
    | nil => exact hcovers o.probe
    | cons next rest =>
      refine (hcovers o.probe).bind fun covers _ => ?_
      cases covers
      · exact .ok trivial
      · exact ih

theorem stays_workingSequence (hbindings : ∀ entry ∈ bindings, entry.2.All N)
    (state : OptimizeState) {context : Option Sequence} (hcontext : OptionAll N context) :
    Stays N bindings F (OptionAll N) (workingSequence state context) := by
  unfold workingSequence
  cases state.contextVariable with
  | none => exact Keeps.pure hcontext
  | some name =>
    refine Keeps.queryContext_bind fun r hr => ?_
    refine Keeps.bind (Keeps.orFail (meets_value hbindings hr name)) fun value hvalue => ?_
    refine Keeps.pure ?_
    rintro v ⟨⟩
    exact hvalue

theorem stays_judge (h : s.Encloses N F) (hbindings : ∀ entry ∈ bindings, entry.2.All N)
    (state : OptimizeState) {context : Option Sequence} (hcontext : OptionAll N context) :
    Stays N bindings F (Judgement.All N) (judge s state context) := by
  unfold judge
  split_ifs
  · have hgiven : ∀ shared, context.bind sharedOf? = some shared → shared.set.All N := by
      intro shared hshared
      obtain ⟨v, rfl, hv⟩ := Option.bind_eq_some_iff.1 hshared
      cases v with
      | nodes own => exact Option.some.inj hv ▸ Sequence.all_nodes.1 (hcontext _ rfl)
      | items list => cases hv
    refine Keeps.bind (stays_workingSequence hbindings state hcontext) fun working hworking => ?_
    split
    · exact Keeps.pure ⟨hgiven, hworking⟩
    · refine Keeps.bind (stays_ofStore (meets_verdict h hworking _)) fun _ _ => ?_
      exact Keeps.pure ⟨hgiven, hworking⟩
  · exact Keeps.pure ⟨nofun, nofun⟩

/-! What comes out of an optimizer comes out of the body. -/

variable {P : Sequence → Prop}

theorem stays_fallBack (id : ExprId) {body : Focus → Evaluation Sequence}
    (hbody : ∀ focus : Focus, focus.All N → Stays N bindings F P (body focus))
    {focus : Focus} (hfocus : focus.All N) {context : Option Sequence}
    (hcontext : OptionAll N context) {j : Judgement} (hj : j.All N) :
    Stays N bindings F P (fallBack id body focus context j) := by
  refine Keeps.bind (stays_updateOptimizer id _) fun _ _ => hbody _ ⟨fun v hv => ?_, hfocus.item⟩
  rcases Option.or_eq_some_iff.1 hv with hv | ⟨-, hv⟩
  · rcases Option.or_eq_some_iff.1 hv with hv | ⟨-, hv⟩
    · obtain ⟨shared, hshared, rfl⟩ := Option.map_eq_some_iff.1 hv
      exact Sequence.all_nodes.2 (hj.given shared hshared)
    · exact hj.working v hv
  · exact hcontext v hv

theorem stays_narrow (h : s.Encloses N F) (id : ExprId) (state : OptimizeState)
    {body : Focus → Evaluation Sequence}
    (hbody : ∀ focus : Focus, focus.All N → Stays N bindings F P (body focus))
    {j : Judgement} (hj : j.All N) :
    Stays N bindings F P (narrow s id state body j) := by
  have hworking : (j.working.getD .empty).All N := by
    cases hw : j.working with
    | none => exact Sequence.all_empty
    | some v => exact hj.working v hw
  refine Keeps.bind (Keeps.orFail hworking.toShared) fun context hcontext => ?_
  refine Keeps.bind (Narrowing.stays_rounds h _ _ hcontext) fun rounds hrounds => ?_
  refine Keeps.bind (stays_updateOptimizer id _) fun _ _ => ?_
  have hcandidates := Narrowing.all_candidates hrounds
  dsimp only
  cases state.contextStep with
  | none =>
    refine hbody _ ⟨?_, nofun⟩
    rintro v ⟨⟩
    exact Sequence.all_ofSet.2 hcandidates
  | some step =>
    refine Keeps.preloading (fun r hr => hr.preload hcandidates step.id)
      (fun r hr => hr.unload step.id) (hbody _ ⟨fun v hv => ?_, nofun⟩)
    obtain ⟨shared, hshared, rfl⟩ := Option.map_eq_some_iff.1 hv
    exact Sequence.all_ofSet.2 ((hj.given shared hshared).filter _)

theorem stays_evaluate (h : s.Encloses N F) (hbindings : ∀ entry ∈ bindings, entry.2.All N)
    (id : ExprId) {body : Focus → Evaluation Sequence}
    (hbody : ∀ focus : Focus, focus.All N → Stays N bindings F P (body focus))
    {focus : Focus} (hfocus : focus.All N) :
    Stays N bindings F P (evaluate s id body focus) := by
  refine Keeps.queryContext_bind fun r _ => ?_
  cases r.context.optimizer? id with
  | none => exact hbody focus hfocus
  | some state =>
    have hcontext := all_contextOf (s := s) hfocus
    refine Keeps.bind (stays_judge h hbindings state hcontext) fun j hj => ?_
    refine Keeps.bind (stays_updateOptimizer id _) fun _ _ => ?_
    split_ifs
    · exact stays_narrow h id state hbody hj
    · exact stays_fallBack id hbody hfocus hcontext hj

end Optimizer

/-! ### Pragmas -/

namespace Evaluation

theorem stays_activate (body : Expr) (p : Pragma) :
    Stays N bindings F (fun _ => True) (activate body p) := by
  have henter : Stays N bindings F (fun _ => True) (update (·.enter p.id .activated)) :=
    stays_enter p.id .activated
  unfold activate
  cases p.kind with
  | optimize explicit enabled contextId =>
    refine Keeps.bind (stays_update fun c => ?_) fun _ _ => henter
    split <;> exact ⟨rfl, rfl⟩
  | noIndex => exact henter
  | forceIndexUse => exact Keeps.bind (stays_update fun _ => ⟨rfl, rfl⟩) fun _ _ => henter

theorem stays_deactivate (body : Expr) (p : Pragma) :
    Stays N bindings F (fun _ => True) (deactivate body p) := by
  refine Keeps.bind (stays_enter p.id .deactivated) fun _ _ => ?_
  cases p.kind with
  | optimize explicit enabled contextId => exact Keeps.pure trivial
  | noIndex => exact Keeps.pure trivial
  | forceIndexUse =>
    refine Keeps.queryContext_bind fun r _ => ?_
    split_ifs
    · exact Keeps.pure trivial
    · exact Keeps.orFail (.error nofun)

theorem stays_evaluateExtension (h : s.Encloses N F)
    (hbindings : ∀ entry ∈ bindings, entry.2.All N) (pragmas : List Pragma) (body : Expr)
    {evaluate : Focus → Evaluation Sequence} {P : Sequence → Prop}
    (heval : ∀ focus : Focus, focus.All N → Stays N bindings F P (evaluate focus))
    {focus : Focus} (hfocus : focus.All N) :
    Stays N bindings F P (evaluateExtension s pragmas body evaluate focus) := by
  have hpragmas : ∀ ps : List Pragma,
      Stays N bindings F P (evaluatePragmas s evaluate focus ps) := by
    intro ps
    induction ps with
    | nil => exact heval focus hfocus
    | cons p rest ih =>
      refine Keeps.bind (stays_enter p.id .evaluating) fun _ _ => ?_
      cases p.kind with
      | optimize explicit enabled contextId =>
        exact Optimizer.stays_evaluate h hbindings p.id heval hfocus
      | noIndex => exact ih
      | forceIndexUse => exact ih
  refine Keeps.bind (Keeps.forM fun p _ => stays_activate body p) fun _ _ => ?_
  refine Keeps.bind (hpragmas pragmas) fun value hvalue => ?_
  exact Keeps.bind (Keeps.forM fun p _ => stays_deactivate body p) fun _ _ => Keeps.pure hvalue

end Evaluation

/-! ### Expressions -/

namespace Expr

/-- An expression keeps to the nodes with a property, for every focus on such nodes. -/
def StaysOn (s : Store) (N : Node → Prop) (F : StoreError → Prop)
    (bindings : List (String × Sequence)) (e : Expr) : Prop :=
  ∀ focus : Focus, focus.All N → Stays N bindings F (Sequence.All N) (e.evaluate s focus)

theorem stays_applyPredicates (h : s.Encloses N F) {predicates : List Predicate}
    (hpredicates : ∀ p ∈ predicates, p.expr.StaysOn s N F bindings) (reverse : Bool) :
    ∀ v : Sequence, v.All N →
      Stays N bindings F (·.IsTakenFrom v) (applyPredicates s predicates reverse v) := by
  induction predicates with
  | nil => exact fun v hv => Keeps.pure fun _ hitem => hitem
  | cons p rest ih =>
    intro v hv
    unfold applyPredicates
    refine Keeps.bind (stays_applyPredicate h _ _ (hpredicates p List.mem_cons_self) reverse hv)
      fun kept hkept => ?_
    exact (ih (fun p hp => hpredicates p (List.mem_cons_of_mem _ hp)) kept
      (hv.of_isTakenFrom hkept)).mono fun w hw item hitem => hkept item (hw item hitem)

/-- What predicates keep has what all items have that they are applied to. -/
theorem stays_applyPredicates_all (h : s.Encloses N F) {predicates : List Predicate}
    (hpredicates : ∀ p ∈ predicates, p.expr.StaysOn s N F bindings) (reverse : Bool)
    (v : Sequence) (hv : v.All N) :
    Stays N bindings F (Sequence.All N) (applyPredicates s predicates reverse v) :=
  (stays_applyPredicates h hpredicates reverse v hv).mono fun _ hw => hv.of_isTakenFrom hw

theorem stays_evaluateAll {items : List Expr}
    (hitems : ∀ e ∈ items, e.StaysOn s N F bindings) {focus : Focus} (hfocus : focus.All N) :
    Stays N bindings F (fun values => ∀ v ∈ values, v.All N) (evaluateAll s items focus) := by
  induction items with
  | nil => exact Keeps.pure fun _ hv => nomatch hv
  | cons e rest ih =>
    refine Keeps.bind (hitems e List.mem_cons_self focus hfocus) fun value hvalue => ?_
    refine Keeps.bind (ih fun e he => hitems e (List.mem_cons_of_mem _ he)) fun values hvalues => ?_
    exact Keeps.pure (List.forall_mem_cons.2 ⟨hvalue, hvalues⟩)

theorem stays_evaluateSteps {steps : List Expr}
    (hsteps : ∀ e ∈ steps, e.StaysOn s N F bindings) :
    ∀ v : Sequence, v.All N → Stays N bindings F (Sequence.All N) (evaluateSteps s steps v) := by
  induction steps with
  | nil => exact fun v hv => Keeps.pure hv
  | cons e rest ih =>
    intro v hv
    unfold evaluateSteps
    split_ifs
    · exact Keeps.pure Sequence.all_empty
    · refine Keeps.bind (Keeps.orFail hv.toShared) fun context hcontext => ?_
      refine Keeps.bind (hsteps e List.mem_cons_self _ ⟨?_, nofun⟩) fun value hvalue =>
        ih (fun e he => hsteps e (List.mem_cons_of_mem _ he)) value hvalue
      rintro v' ⟨⟩
      exact Sequence.all_nodes.2 hcontext

/-- **Evaluation keeps to the nodes that the store does not lead out of.** -/
theorem stays_evaluate (h : s.Encloses N F) (hbindings : ∀ entry ∈ bindings, entry.2.All N)
    (e : Expr) : e.StaysOn s N F bindings := by
  have hbool : ∀ b, Stays N bindings F (Sequence.All N) (pure (.ofBool b)) :=
    fun b => Keeps.pure (Sequence.all_ofValue _)
  have htruth : ∀ v : Sequence,
      Stays N bindings F (Sequence.All N) (do pure (.ofBool (← orFail v.truth))) :=
    fun v => Keeps.bind (Keeps.orFail v.meets_truth) fun b _ => hbool b
  induction e using Expr.induct with
  | path id steps ih =>
    intro focus hfocus
    cases steps with
    | nil => exact Keeps.pure Sequence.all_empty
    | cons first rest =>
      exact Keeps.bind (ih first List.mem_cons_self focus hfocus)
        (stays_evaluateSteps fun e he => ih e (List.mem_cons_of_mem _ he))
  | step head predicates ih =>
    exact fun focus hfocus => stays_evaluateStep h head _ (stays_applyPredicates_all h ih) hfocus
  | root => exact fun focus hfocus => stays_evaluateRoot h hfocus
  | filter id base predicates hbase ih =>
    exact fun focus hfocus =>
      Keeps.bind (hbase focus hfocus) (stays_applyPredicates_all h ih false)
  | comparison id op left right access hleft hright =>
    intro focus hfocus
    refine Keeps.bind (hleft focus hfocus) fun l hl => ?_
    exact Keeps.bind (hright focus hfocus) fun r hr => stays_compareSequences h op hl hr
  | call id function args access ih =>
    intro focus hfocus
    exact Keeps.bind (stays_evaluateAll ih hfocus) fun values hvalues =>
      stays_apply h hfocus function hvalues
  | var name => exact fun focus _ => stays_value hbindings name
  | literal value => exact fun focus _ => Keeps.pure (Sequence.all_ofValue value)
  | and left right hleft hright =>
    intro focus hfocus
    refine Keeps.bind (hleft focus hfocus) fun l _ => ?_
    refine Keeps.bind (Keeps.orFail l.meets_truth) fun b _ => ?_
    split_ifs
    · exact Keeps.bind (hright focus hfocus) fun r _ => htruth r
    · exact hbool _
  | or left right hleft hright =>
    intro focus hfocus
    refine Keeps.bind (hleft focus hfocus) fun l _ => ?_
    refine Keeps.bind (Keeps.orFail l.meets_truth) fun b _ => ?_
    split_ifs
    · exact hbool _
    · exact Keeps.bind (hright focus hfocus) fun r _ => htruth r
  | sequence items ih =>
    intro focus hfocus
    refine Keeps.bind (stays_evaluateAll ih hfocus) fun values hvalues => Keeps.pure ?_
    have hall : ∀ v : Sequence, v.All N → (values.foldl Sequence.append v).All N := by
      induction values with
      | nil => exact fun v hv => hv
      | cons value rest hrest =>
        exact fun v hv => hrest (fun v hv => hvalues v (List.mem_cons_of_mem _ hv)) _
          (hv.append (hvalues value List.mem_cons_self))
    exact hall .empty Sequence.all_empty
  | extension id pragmas body ih =>
    exact fun focus hfocus => stays_evaluateExtension h hbindings pragmas body ih hfocus

end Expr
end IndexedXml
